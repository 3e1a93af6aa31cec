import Cinder.Editor.Document
import Cinder.Proofs.Lines
import Cinder.Proofs.Places
import Cinder.Proofs.Reading.Online
import Cinder.Proofs.Relabelling.Analysis
import Cinder.Proofs.Rules.Programs

/-!
# Ranges of diagnostics

Every report about a text is made at the position of one of its tokens, but for the errors of the
scanner itself, and the editor shows it on exactly this token. Only the end of the input is no text
that could be shown; there one character is marked.
-/
namespace Cinder

/-! ## Sites are tokens -/

namespace Grammar

open Parse (Lexeme kindOf identOf)

def Nonterminal.sites : (n : Nonterminal) → n.Tree → List Site
  | .program, ds => ds.flatMap Decl.sites
  | .decl, d => d.sites
  | .varDecl, d | .formal, d => d.sites
  | .structDecl, d => (Decl.struct d).sites
  | .fnDecl, d => (Decl.fn d).sites
  | .type, τ => τ.idents.map .ident
  | .fields, ds | .formals, ds | .varDecls, ds => ds.flatMap VarDecl.sites
  | .stmts, ss => Stmt.sitesAll ss
  | .stmt, s => s.sites
  | .block, b => b.sites
  | .exp, e | .target, e | .operation _, e | .term, e | .loc, e => e.sites
  | .call, c => .ident c.1 :: Exp.sitesAll c.2
  | .args, es => Exp.sitesAll es

/-- The site that a token is read as. -/
def site? (t : Lexeme) : Option Site :=
  match kindOf t with
  | .identifier => some (.ident (identOf t))
  | .intLiteral | .stringLiteral | .trueWord | .falseWord | .returnWord => some (.mark t.1.position)
  | _ => none

theorem site?_of_operator {level : Level} {t : Lexeme} {op : BinaryOp}
    (written : (kindOf t, op) ∈ level.operators) : site? t = none := by
  obtain ⟨written, -⟩ := Level.mem_operators.mp written
  unfold site?
  split
  case h_7 => rfl
  all_goals
    next kind =>
      rw [kind] at written
      cases written

theorem sites_of_phrase {n : Nonterminal} {ts : List Lexeme} {v : n.Tree} (phrase : Phrase n ts v) :
    n.sites v = ts.filterMap site? := by
  induction phrase with
  | chain _ written _ _ left right | comparison written _ _ left right =>
    have other := site?_of_operator written
    simp_all [Nonterminal.sites, Exp.sites]
  | _ =>
    simp_all [Nonterminal.sites, Exp.sites, Exp.sitesAll, Stmt.sites, Stmt.sitesAll,
      Block.sites, Decl.sites, VarDecl.sites, VarDecl.idents, TypeExp.idents, site?, identOf]

theorem position_of_site? {t : Lexeme} {s : Site} (read : site? t = some s) :
    s.position = t.1.position := by
  unfold site? at read
  split at read
  case h_7 => cases read
  all_goals
    cases read
    rfl

end Grammar

/-! ## Tokens in their lines -/

theorem Segment.token?_eq_some {s : Segment} {p : Position} {t : Token} (found : s.token? p = some t) :
    s = .lexeme t.kind t.text ∧ t.position = p := by
  cases s with
  | lexeme kind text =>
    by_cases int : kind = .intLiteral
    · subst int
      cases found
      exact ⟨rfl, rfl⟩
    · rw [token?_lexeme int] at found
      cases found
      exact ⟨rfl, rfl⟩
  | _ => cases found

/-- A segment is reported if it is a number out of range, or if it is dropped. -/
theorem Segment.diagnostic?_cases {s : Segment} {p : Position} {d : Diagnostic}
    (found : s.diagnostic? p = some d) :
    (∃ text, s = .lexeme .intLiteral text ∧ d = .warning p .integerTooLarge) ∨
      (∃ flaw text, s = .badString flaw text ∧ d = .error p (.droppedString flaw)) ∨
      ∃ unit, s = .illegal unit ∧ d = .error p (.illegalCharacter unit) := by
  unfold Segment.diagnostic? at found
  split at found
  · next text =>
    split at found
    · cases found
      exact .inl ⟨text, rfl, rfl⟩
    · cases found
  · next flaw text =>
    cases found
    exact .inr (.inl ⟨flaw, text, rfl, rfl⟩)
  · next unit =>
    cases found
    exact .inr (.inr ⟨unit, rfl, rfl⟩)
  · cases found

/-- A diagnostic points at one of the tokens, and at the end of the input only if the syntax is
wrong there. -/
def Diagnostic.AtToken (tokens : List Token) (d : Diagnostic) : Prop :=
  ∃ t ∈ tokens, t.position = d.position ∧ (t.kind = .endOfInput → d.problem = .syntaxError)

namespace Editor

/-- A range that starts where a token stands and ends where it ends. The end of the input is shown
as one character. -/
def Range.Shows (lines : List Text) (r : Range) (t : Token) : Prop :=
  r.start = ⟨t.position.line - 1, t.position.column - 1⟩ ∧
    (t.kind ≠ .endOfInput ∧ r.Covers lines t.text ∨ t.kind = .endOfInput ∧ r.AtEnd lines)

theorem shows_token? {lines : List Text} {p : Position} {u : CodeUnit} {rest : Text} {t : Token}
    (stands : StandsAt lines p (u :: rest)) (found : (Segment.first u rest).1.token? p = some t) :
    (tokenRange lines t.position).Shows lines t := by
  obtain ⟨segment, rfl⟩ := Segment.token?_eq_some found
  have covers := covers_of_standsAt stands (by rw [segment]; rfl)
  have spelled := Segment.spells_first segment
  rw [segment] at covers
  refine ⟨rfl, .inl ⟨?_, covers⟩⟩
  intro last
  rw [last] at spelled
  cases spelled

theorem shows_tokens {lines : List Text} {p : Position} {rest : Text}
    (stands : StandsAt lines p rest) :
    ∀ t ∈ (Scan.ofSegments p (Segment.divide rest)).tokens,
      (tokenRange lines t.position).Shows lines t := by
  fun_induction Segment.divide rest generalizing p with
  | case1 =>
    intro t mem
    obtain rfl := List.mem_singleton.mp mem
    exact ⟨rfl, .inr ⟨rfl, atEnd_of_standsAt stands⟩⟩
  | case2 u rest ih =>
    intro t mem
    rcases List.mem_append.mp mem with here | later
    · exact shows_token? stands (Option.mem_toList.mp here)
    · exact ih stands.after t later

/-- An illegal unit is shown alone. -/
theorem covers_illegal {lines : List Text} {p : Position} {rest : Text} {d : Diagnostic}
    {unit : CodeUnit} (stands : StandsAt lines p rest) (illegal : d.problem = .illegalCharacter unit)
    (mem : d ∈ (Scan.ofSegments p (Segment.divide rest)).diagnostics) :
    (tokenRange lines d.position).Covers lines [unit] := by
  fun_induction Segment.divide rest generalizing p with
  | case1 => cases mem
  | case2 u rest ih =>
    rcases List.mem_append.mp mem with here | later
    · rcases Segment.diagnostic?_cases (Option.mem_toList.mp here) with
        ⟨text, -, rfl⟩ | ⟨flaw, text, -, rfl⟩ | ⟨v, segment, rfl⟩
      · cases illegal
      · cases illegal
      · cases illegal
        have covers := covers_of_standsAt stands (by rw [segment]; rfl)
        rwa [segment] at covers
    · exact ih stands.after later

end Editor

/-! ## Diagnostics at tokens -/

namespace Diagnostic.AtToken

theorem mono {tokens more : List Token} {d : Diagnostic} (subset : tokens ⊆ more)
    (found : d.AtToken tokens) : d.AtToken more := by
  obtain ⟨t, mem, place⟩ := found
  exact ⟨t, subset mem, place⟩

theorem of_lexeme {first : Nat} {tokens : List Token} {t : Parse.Lexeme} {d : Diagnostic}
    (mem : t ∈ Parse.lexemes first tokens) (place : t.1.position = d.position) :
    d.AtToken tokens := by
  have inner : t.1 ∈ tokens.takeWhile (·.kind ≠ .endOfInput) := List.fst_mem_of_mem_zipIdx mem
  refine ⟨t.1, List.takeWhile_subset _ inner, place, ?_⟩
  intro last
  have := List.mem_takeWhile_imp inner
  simp [last] at this

/-- The scanner only warns of what it kept. -/
theorem of_scan {p : Position} {ss : List Segment} {d : Diagnostic}
    (mem : d ∈ (Scan.ofSegments p ss).diagnostics) (warning : ¬ d.isError) :
    d.AtToken (Scan.ofSegments p ss).tokens := by
  induction ss generalizing p with
  | nil => cases mem
  | cons s ss ih =>
    rcases List.mem_append.mp mem with here | later
    · rcases Segment.diagnostic?_cases (Option.mem_toList.mp here) with
        ⟨text, rfl, rfl⟩ | ⟨flaw, text, -, rfl⟩ | ⟨v, -, rfl⟩
      · refine ⟨_, List.mem_append_left _ (Option.mem_toList.mpr rfl), rfl, ?_⟩
        intro last
        cases last
      · exact absurd rfl warning
      · exact absurd rfl warning
    · exact (ih later).mono (List.subset_append_right _ _)

/-- A syntax error is at the token that fits nowhere, or at the end of the input. -/
theorem of_error {first : Nat} {tokens : List Token} {e : SyntaxError}
    (ended : ∃ t ∈ tokens, t.kind = .endOfInput)
    (failed : Program.ofTokens first tokens = .error e) : e.diagnostic.AtToken tokens := by
  rw [Program.ofTokens] at failed
  cases read : Parse.decls (Parse.lexemes first tokens) with
  | ok ds => simp [read] at failed
  | error stuck =>
    obtain ⟨rest⟩ := stuck
    have tail := Parse.tail_of_decls _ read
    rw [read] at failed
    cases rest with
    | nil =>
      cases failed
      obtain ⟨t, found⟩ := Option.isSome_iff_exists.mp
        (List.find?_isSome.mpr (ended.imp fun t found => ⟨found.1, decide_eq_true found.2⟩))
      refine ⟨t, List.mem_of_find?_eq_some found, ?_, fun _ => rfl⟩
      rw [SyntaxError.diagnostic, Parse.endPosition, found]
      rfl
    | cons t rest =>
      cases failed
      exact of_lexeme (tail.subset List.mem_cons_self) rfl

/-- Names and types are reported at sites of the program, each of which is a token of its source. -/
theorem of_analysis {source : Text} {p : Program} (parsed : source.parse.program = some p) :
    ∀ d ∈ (Scoping.analysis p).diagnostics, d.AtToken source.scan.tokens := by
  intro d mem
  have placed : Placed (Scoping.analysis p).diagnostics p.sites :=
    p.placed_scoping.append (p.placed_check _)
  have sites : p.sites = _ := Grammar.sites_of_phrase (Program.phrase_of_parse parsed).1
  obtain ⟨s, within, place⟩ := List.mem_map.mp (placed d mem)
  rw [sites] at within
  obtain ⟨t, lexeme, read⟩ := List.mem_filterMap.mp within
  exact of_lexeme lexeme ((Grammar.position_of_site? read).symm.trans place)

end Diagnostic.AtToken

theorem Scan.exists_endOfInput (p : Position) (ss : List Segment) :
    ∃ t ∈ (Scan.ofSegments p ss).tokens, t.kind = .endOfInput := by
  induction ss generalizing p with
  | nil => exact ⟨_, List.mem_singleton.mpr rfl, rfl⟩
  | cons s ss ih =>
    obtain ⟨t, mem, last⟩ := ih (s.after p)
    exact ⟨t, List.mem_append_right _ mem, last⟩

namespace Editor

/-- What is reported of a text after scanning it, and what an editor shows. -/
theorem exists_document (text : Text) :
    ∃ later doc, text.collect = .ok (text.scan.diagnostics ++ later) ∧ Document.ofText text = .ok doc ∧
      doc.marks = (text.scan.diagnostics ++ later).map (mark text.lines) ∧
      ∀ d ∈ later, d.AtToken text.scan.tokens := by
  cases read : Program.ofTokens 0 text.scan.tokens with
  | error e =>
    have parsed : text.parse = ⟨none, text.scan.diagnostics ++ [e.diagnostic]⟩ := by
      rw [Text.parse, Text.parseFrom, read]
    refine ⟨[e.diagnostic], _, by rw [Text.collect, parsed], by rw [Document.ofText, parsed], rfl, ?_⟩
    intro d mem
    obtain rfl := List.mem_singleton.mp mem
    exact .of_error (Scan.exists_endOfInput _ _) read
  | ok p =>
    have parsed : text.parse = ⟨some p, text.scan.diagnostics⟩ := by
      rw [Text.parse, Text.parseFrom, read]
    have program : text.parse.program = some p := by rw [parsed]
    have analyzed := Program.analyze_eq_scoping (Program.proper_of_parse program)
    refine ⟨(Scoping.analysis p).diagnostics,
      ⟨some (p, (Scoping.analysis p).bindings), marks text (text.scan.diagnostics ++ _)⟩,
      ?_, ?_, rfl, .of_analysis program⟩
    · rw [Text.collect, parsed]
      simp only [analyzed]
      rfl
    · rw [Document.ofText, parsed]
      simp only [analyzed]
      rfl

/-- Every text gets a document, whose marks are those of all that is reported of the text. All but
the errors of the scanner are shown on a token: from its first unit up to its last, on one line. Only
a syntax error is shown on the end of the input. Of an illegal character that very unit is shown. -/
theorem marks_show_tokens (text : Text) :
    ∃ later doc, text.collect = .ok (text.scan.diagnostics ++ later) ∧ Document.ofText text = .ok doc ∧
      doc.marks = (text.scan.diagnostics ++ later).map (mark text.lines) ∧
      (∀ d, d ∈ later ∨ d ∈ text.scan.diagnostics ∧ ¬ d.isError → ∃ t ∈ text.scan.tokens,
        t.position = d.position ∧ (t.kind = .endOfInput → d.problem = .syntaxError) ∧
        (mark text.lines d).range.Shows text.lines t) ∧
      ∀ d ∈ text.scan.diagnostics, ∀ unit, d.problem = .illegalCharacter unit →
        (mark text.lines d).range.Covers text.lines [unit] := by
  obtain ⟨later, doc, collected, opened, shown, atToken⟩ := exists_document text
  refine ⟨later, doc, collected, opened, shown, ?_, ?_⟩
  · intro d reported
    have found : d.AtToken text.scan.tokens := by
      rcases reported with mem | ⟨mem, warning⟩
      · exact atToken d mem
      · exact .of_scan mem warning
    obtain ⟨t, mem, place, last⟩ := found
    have shows := shows_tokens (.start text) t mem
    rw [place] at shows
    exact ⟨t, mem, place, last, shows⟩
  · intro d mem unit illegal
    exact covers_illegal (.start text) illegal mem

end Editor

end Cinder

import Cinder.Proofs.Canonical

/-!
# Formatting as a normal form

The tree of a phrase without its positions depends on the kinds and texts of the tokens only. So blanks
and comments make no difference to a program up to positions. The text of a program in turn tells the
program up to positions, whatever the indent. Formatting therefore picks one text for all sources of
the same program, and forgets how a source was laid out before.
-/
namespace Cinder

/-! ## Phrases without positions -/

/-- What is read of a token: its kind, its text and the value of an integer literal. -/
def Parse.unplaced (t : Lexeme) : Lexeme :=
  (⟨t.1.kind, t.1.text, .start, if t.1.kind = .intLiteral then t.1.value else none⟩, 0)

namespace Grammar

open Parse (Lexeme)

def Nonterminal.unplaced : (n : Nonterminal) → n.Tree → n.Tree
  | .program, ds => ds.map Decl.unplaced
  | .decl, d => d.unplaced
  | .varDecl, d | .formal, d => d.unplaced
  | .structDecl, d => ⟨d.name.unplaced, d.fields.map VarDecl.unplaced⟩
  | .fnDecl, d =>
    ⟨d.resultType.unplaced, d.name.unplaced, d.formals.map VarDecl.unplaced, d.body.unplaced⟩
  | .type, τ => τ.unplaced
  | .fields, ds | .formals, ds | .varDecls, ds => ds.map VarDecl.unplaced
  | .stmts, ss => Stmt.unplacedAll ss
  | .stmt, s => s.unplaced
  | .block, b => b.unplaced
  | .exp, e | .target, e | .operation _, e | .term, e | .loc, e => e.unplaced
  | .call, c => (c.1.unplaced, Exp.unplacedAll c.2)
  | .args, es => Exp.unplacedAll es

/-- Tokens without positions are a phrase again, with the tree without positions. -/
theorem Phrase.unplaced {n : Nonterminal} {ts : List Lexeme} {v : n.Tree} (phrase : Phrase n ts v) :
    Phrase n (ts.map Parse.unplaced) (n.unplaced v) := by
  induction phrase with
  | @int t kind =>
    have value : (Parse.unplaced t).1.value = t.1.value := if_pos kind
    have read := Phrase.int (t := Parse.unplaced t) kind
    rw [value] at read
    exact read
  -- productions of one phrase or one token
  | noDecls => exact .noDecls
  | noVars => exact .noVars
  | noStmts => exact .noStmts
  | declVar _ ih => exact .declVar ih
  | declFn _ ih => exact .declFn ih
  | declStruct _ ih => exact .declStruct ih
  | lastField _ ih => exact .lastField ih
  | lastFormal _ ih => exact .lastFormal ih
  | lastArg _ ih => exact .lastArg ih
  | exp _ ih => exact .exp ih
  | target _ ih => exact .target ih
  | operand _ ih => exact .operand ih
  | unaryTerm _ ih => exact .unaryTerm ih
  | termLoc _ ih => exact .termLoc ih
  | termCall _ ih => exact .termCall ih
  | string kind => exact .string kind
  | true kind => exact .true kind
  | false kind => exact .false kind
  | not kind _ ih => exact .not kind ih
  | negate kind _ ih => exact .negate kind ih
  -- productions that other productions of the same nonterminal look like
  | targetParens left _ right ih =>
    rw [List.map_append]
    exact .targetParens left ih right
  | parens left _ right ih =>
    rw [List.map_append]
    exact .parens left ih right
  | chain chains written _ _ ih ih' =>
    rw [List.map_append]
    exact .chain chains written ih ih'
  | comparison written _ _ ih ih' =>
    rw [List.map_append]
    exact .comparison written ih ih'
  | _ =>
    simp only [List.map_append, List.map_cons, List.map_nil]
    constructor <;> assumption

end Grammar

/-! ## Sources with the same words -/

/-- The kinds and texts of the tokens of a source. -/
def Text.words (source : Text) : List (Kind × Text) :=
  source.scan.tokens.map fun t => (t.kind, t.text)

namespace Parse

/-- A token as its kind and its text determine it. -/
def ofWord (word : Kind × Text) : Lexeme :=
  let value : Int := (min word.2.decimal maxInt : Nat)
  (⟨word.1, word.2, .start, if word.1 = .intLiteral then some value else none⟩, 0)

theorem unplaced_of_sound {t : Lexeme} (sound : t.1.Sound) :
    unplaced t = ofWord (t.1.kind, t.1.text) := by
  rw [unplaced, ofWord]
  by_cases int : t.1.kind = .intLiteral
  · simp [int, sound.value int]
  · simp [int]

/-- Without positions, the tokens that are read are told by the words of the source. -/
theorem map_unplaced_lexemes {source : Text}
    (sound : ∀ t ∈ lexemes 0 source.scan.tokens, t.1.Sound) :
    (lexemes 0 source.scan.tokens).map unplaced
      = (source.words.takeWhile (·.1 ≠ .endOfInput)).map ofWord := by
  calc (lexemes 0 source.scan.tokens).map unplaced
      = (lexemes 0 source.scan.tokens).map ((fun t => ofWord (t.kind, t.text)) ∘ Prod.fst) :=
        List.map_congr_left fun t mem => unplaced_of_sound (sound t mem)
    _ = (source.scan.tokens.takeWhile (·.kind ≠ .endOfInput)).map
          fun t => ofWord (t.kind, t.text) := by
        rw [← List.map_map, lexemes, List.zipIdx_map_fst]
    _ = (source.words.takeWhile (·.1 ≠ .endOfInput)).map ofWord := by
        rw [Text.words, List.takeWhile_map, List.map_map]
        rfl

end Parse

namespace Program

/-- Sources with the same words are the same program up to positions. -/
theorem unplaced_eq_of_words {s₁ s₂ : Text} {p₁ p₂ : Program} (parsed₁ : s₁.parse.program = some p₁)
    (parsed₂ : s₂.parse.program = some p₂) (same : s₁.words = s₂.words) :
    p₁.unplaced = p₂.unplaced := by
  obtain ⟨phrase₁, sound₁⟩ := phrase_of_parse parsed₁
  obtain ⟨phrase₂, sound₂⟩ := phrase_of_parse parsed₂
  have bare₁ := phrase₁.unplaced
  have bare₂ := phrase₂.unplaced
  rw [Parse.map_unplaced_lexemes sound₁, same] at bare₁
  rw [Parse.map_unplaced_lexemes sound₂] at bare₂
  -- no two trees are read from the same tokens
  have read := (Parse.decls_eq_ok_iff.mpr bare₁).symm.trans (Parse.decls_eq_ok_iff.mpr bare₂)
  exact congrArg Program.mk (Except.ok.inj read)

end Program

/-! ## Formatted sources -/

namespace Text

/-- Formatting finds no error in the source. -/
def Formats (source : Text) : Prop := ∃ n text, source.format (.blanks n) .plain = .ok text

theorem formats_iff {source : Text} : source.Formats ↔ source.parse.hasErrors = false := by
  constructor
  · rintro ⟨n, text, formatted⟩
    exact hasErrors_of_format formatted
  · intro clean
    obtain ⟨text, formatted, -⟩ := exists_format clean 0
    exact ⟨0, text, formatted⟩

/-- A source that formats does so with every indent, and its text is that of its program. -/
theorem Formats.exists_render {source : Text} (formats : source.Formats) :
    ∃ p, source.parse.program = some p ∧ p.WellShaped ∧ ∀ n, ∃ text,
      source.format (.blanks n) .plain = .ok text ∧ p.render (.blanks n) Ident.name = .ok text := by
  have clean := formats_iff.mp formats
  obtain ⟨p, parsed⟩ := exists_program clean
  have shaped := Program.wellShaped_of_parse parsed
  refine ⟨p, parsed, shaped, fun n => ?_⟩
  obtain ⟨text, q, rendered, -⟩ := Program.parse_render shaped n
  refine ⟨text, ?_, rendered⟩
  rw [format_of_program clean parsed, rendered]
  rfl

/-- Formatting is a normal form. Two sources have the same text if and only if they are the same
program up to positions, in particular if their words are the same. Formatting with one indent and then
with another is formatting with the other. -/
theorem format_canonical :
    (∀ s₁ s₂ : Text, s₁.Formats → s₂.Formats → ∀ n : Nat, ∃ p₁ p₂ t₁ t₂,
      s₁.parse.program = some p₁ ∧ s₂.parse.program = some p₂ ∧
      s₁.format (.blanks n) .plain = .ok t₁ ∧ s₂.format (.blanks n) .plain = .ok t₂ ∧
      (t₁ = t₂ ↔ p₁.unplaced = p₂.unplaced) ∧ (s₁.words = s₂.words → t₁ = t₂)) ∧
    ∀ s : Text, s.Formats → ∀ n m : Nat, ∃ t u, s.format (.blanks n) .plain = .ok t ∧
      s.format (.blanks m) .plain = .ok u ∧ t.format (.blanks m) .plain = .ok u := by
  constructor
  · intro s₁ s₂ formats₁ formats₂ n
    obtain ⟨p₁, parsed₁, shaped₁, texts₁⟩ := formats₁.exists_render
    obtain ⟨p₂, parsed₂, shaped₂, texts₂⟩ := formats₂.exists_render
    obtain ⟨t₁, formatted₁, rendered₁⟩ := texts₁ n
    obtain ⟨t₂, formatted₂, rendered₂⟩ := texts₂ n
    have same_text : p₁.unplaced = p₂.unplaced → t₁ = t₂ := by
      intro same
      have congr := Program.render_congr same (.blanks n)
      rw [rendered₁, rendered₂] at congr
      exact Except.ok.inj congr
    refine ⟨p₁, p₂, t₁, t₂, parsed₁, parsed₂, formatted₁, formatted₂, ⟨?_, same_text⟩, fun words => ?_⟩
    · rintro rfl
      exact Program.unplaced_eq_of_render shaped₁ shaped₂ rendered₁ rendered₂
    · exact same_text (Program.unplaced_eq_of_words parsed₁ parsed₂ words)
  · intro s formats n m
    have clean := formats_iff.mp formats
    obtain ⟨t, formatted, -, again⟩ := exists_format clean n
    obtain ⟨u, formatted', -⟩ := exists_format clean m
    exact ⟨t, u, formatted, formatted', (again _).trans formatted'⟩

/-- A comment and blanks make no difference to the text, and another name makes one. -/
theorem format_canonical_comment :
    let s₁ : Text := "void f()\x7bx=1;# one\n\x7d"
    let s₂ : Text := "void f ( ) \x7b x = 1 ; \x7d"
    let s₃ : Text := "void g()\x7bx=1;\x7d"
    s₁.Formats ∧ s₂.Formats ∧ s₃.Formats ∧ s₁.words = s₂.words ∧
      ∃ t t' u, s₁.format (.blanks 2) .plain = .ok t ∧ s₂.format (.blanks 2) .plain = .ok t ∧
        s₃.format (.blanks 2) .plain = .ok t' ∧ t ≠ t' ∧
        s₁.format (.blanks 7) .plain = .ok u ∧ t.format (.blanks 7) .plain = .ok u := by
  intro s₁ s₂ s₃
  have clean₁ : (Text.parse "void f()\x7bx=1;# one\n\x7d").hasErrors = false := by
    rw [parse_eq_parseOnTape]
    decide +kernel
  have clean₂ : (Text.parse "void f ( ) \x7b x = 1 ; \x7d").hasErrors = false := by
    rw [parse_eq_parseOnTape]
    decide +kernel
  have clean₃ : (Text.parse "void g()\x7bx=1;\x7d").hasErrors = false := by
    rw [parse_eq_parseOnTape]
    decide +kernel
  have formats₁ : s₁.Formats := formats_iff.mpr clean₁
  have formats₂ : s₂.Formats := formats_iff.mpr clean₂
  have formats₃ : s₃.Formats := formats_iff.mpr clean₃
  have words : s₁.words = s₂.words := by decide +kernel
  let names (p : Program) : List Text := p.unplaced.idents.map Ident.name
  have apart : (Text.parse "void f()\x7bx=1;# one\n\x7d").program.map names
      ≠ (Text.parse "void g()\x7bx=1;\x7d").program.map names := by
    rw [parse_eq_parseOnTape, parse_eq_parseOnTape]
    decide +kernel
  obtain ⟨p, p', t, t', parsed, parsed', formatted, formatted', same, -⟩ :=
    format_canonical.1 s₁ s₃ formats₁ formats₃ 2
  obtain ⟨-, -, t₁, t₂, -, -, first, second, -, equal⟩ :=
    format_canonical.1 s₁ s₂ formats₁ formats₂ 2
  obtain ⟨t₃, u, third, fourth, again⟩ := format_canonical.2 s₁ formats₁ 2 7
  obtain rfl : t₁ = t := Except.ok.inj (first.symm.trans formatted)
  obtain rfl : t₃ = t₁ := Except.ok.inj (third.symm.trans first)
  rw [← equal words] at second
  refine ⟨formats₁, formats₂, formats₃, words, t₃, t', u, first, second, formatted', ?_, fourth, again⟩
  intro text
  apply apart
  simp only [names]
  rw [parsed, parsed', Option.map_some, Option.map_some, same.mp text]

end Text

end Cinder

import Cinder.Proofs.Acceptance
import Cinder.Proofs.Leaves
import Cinder.Proofs.Spelling.Layout
import Cinder.Proofs.Spelling.Phrase
import Cinder.Proofs.Tape.Source

/-!
# Writing and reading back

Every program that is read from a source is well-shaped, and every well-shaped program is read back
from its text, up to positions. Its text has no errors; each integer literal out of range is warned
about once more.
-/
namespace Cinder

open Grammar (Phrase leaves)
open Parse (Lexeme lexemes kindOf)

/-! ## Tokens of a written text -/

/-- What is said about an integer literal that is out of range. -/
def integerWarnings (literals : List (Text × Position)) : List Diagnostic :=
  (literals.filter fun literal => 2147483647 < literal.1.decimal).map fun literal =>
    .warning literal.2 .integerTooLarge

/-- The digits and the position of each integer literal. -/
def Token.integers (ts : List Token) : List (Text × Position) :=
  (ts.filter (·.kind = .intLiteral)).map fun t => (t.text, t.position)

theorem Segment.unplaced_token? (s : Segment) (p : Position) :
    (s.token? p).map Token.unplaced = s.token? .start := by
  cases s with
  | lexeme kind text =>
    by_cases int : kind = .intLiteral
    · subst int
      rfl
    · rw [token?_lexeme int, token?_lexeme int]
      rfl
  | _ => rfl

theorem Segment.diagnostic?_of_isKept {s : Segment} (kept : s.isKept) (p : Position) :
    (s.diagnostic? p).toList = integerWarnings (Token.integers (s.token? p).toList) := by
  cases s with
  | lexeme kind text =>
    by_cases int : kind = .intLiteral
    · subst int
      have limit : isTooLarge text = decide (2147483647 < text.decimal) := rfl
      by_cases large : 2147483647 < text.decimal
      · simp [diagnostic?, token?, Token.integers, integerWarnings, limit, large]
      · simp [diagnostic?, token?, Token.integers, integerWarnings, limit, large]
    · have silent : (lexeme kind text).diagnostic? p = none := by
        rw [diagnostic?] <;> simp [int]
      rw [silent, token?_lexeme int]
      simp [Token.integers, integerWarnings, int]
  | badString => cases kept
  | illegal => cases kept
  | _ => rfl

theorem integerWarnings_append (ls ms : List (Text × Position)) :
    integerWarnings (ls ++ ms) = integerWarnings ls ++ integerWarnings ms := by
  simp [integerWarnings]

theorem Token.integers_append (ts us : List Token) :
    Token.integers (ts ++ us) = Token.integers ts ++ Token.integers us := by
  simp [Token.integers]

/-- Segments that are kept become one token for each lexeme, then the end of the input. -/
theorem Scan.ofSegments_of_isKept {ss : List Segment} (kept : ∀ s ∈ ss, s.isKept) (p : Position) :
    ∃ ts q, (Scan.ofSegments p ss).tokens = ts ++ [⟨.endOfInput, [], q, none⟩] ∧
      ts.map Token.unplaced = ss.filterMap (·.token? .start) ∧
      (Scan.ofSegments p ss).diagnostics = integerWarnings (Token.integers ts) := by
  induction ss generalizing p with
  | nil => exact ⟨[], p, rfl, rfl, rfl⟩
  | cons s ss ih =>
    rw [List.forall_mem_cons] at kept
    obtain ⟨ts, q, tokens, same, diagnostics⟩ := ih kept.2 (s.after p)
    refine ⟨(s.token? p).toList ++ ts, q, ?_, ?_, ?_⟩
    · simp [Scan.ofSegments, tokens]
    · have head := Segment.unplaced_token? s p
      rw [List.map_append, same, List.filterMap_cons, ← head]
      cases s.token? p <;> rfl
    · have head := Segment.diagnostic?_of_isKept kept.1 p
      simp only [Scan.ofSegments, head, diagnostics, Token.integers_append,
        integerWarnings_append]

/-- The lexemes of a written text are its tokens, and no token is the end of the input. -/
theorem Writes.lexemes {t : Text} {ws : List Token} (h : Writes t ws) :
    ∃ ts, lexemes 0 t.scan.tokens = ts.zipIdx ∧ ts.map Token.unplaced = ws ∧
      t.scan.diagnostics = integerWarnings (Token.integers ts) := by
  obtain ⟨ts, q, tokens, same, diagnostics⟩ := Scan.ofSegments_of_isKept h.kept .start
  refine ⟨ts, ?_, same.trans h.tokens, diagnostics⟩
  have inner : ∀ token ∈ ts, token.kind ≠ .endOfInput := by
    intro token mem last
    have found : token.unplaced ∈ (Segment.divide t).filterMap (·.token? .start) :=
      same ▸ List.mem_map_of_mem mem
    obtain ⟨s, inside, found⟩ := List.mem_filterMap.mp found
    have sound : token.unplaced.Sound := by
      refine Segment.sound_token? found ?_
      rintro kind text rfl
      exact Segment.spells_divide inside
    have spelled := sound.spelled
    rw [show token.unplaced.kind = .endOfInput from last] at spelled
    cases spelled
  have whole : t.scan.tokens = ts ++ [⟨.endOfInput, [], q, none⟩] := tokens
  rw [Parse.lexemes, whole, List.takeWhile_append_of_pos (by simpa using inner)]
  simp

theorem integers_of_zipIdx {ts : List Token} {ds : List Decl}
    (phrase : Phrase .program ts.zipIdx ds) :
    Program.integers ⟨ds⟩ = Token.integers ts := by
  have integers := Grammar.integers_of_phrase phrase
  calc Program.integers ⟨ds⟩
      = leaves .intLiteral (fun t => (t.1.text, t.1.position)) ts.zipIdx := integers
    _ = Token.integers (ts.zipIdx.map Prod.fst) := by
        rw [leaves, Token.integers, List.filter_map, List.map_map]
        rfl
    _ = Token.integers ts := by rw [List.zipIdx_map_fst]

/-! ## Literals without positions -/

mutual

theorem Exp.digits_unplaced : (e : Exp) →
    e.unplaced.integers.map Prod.fst = e.integers.map Prod.fst
  | .int _ _ _ => rfl
  | .string _ _ => rfl
  | .bool _ _ => rfl
  | .ident _ => rfl
  | .dot base _ => Exp.digits_unplaced base
  | .assign target value => by
    simp [Exp.unplaced, Exp.integers, Exp.digits_unplaced target, Exp.digits_unplaced value]
  | .call _ args => Exp.digitsAll_unplaced args
  | .unary _ operand => Exp.digits_unplaced operand
  | .binary _ left right => by
    simp [Exp.unplaced, Exp.integers, Exp.digits_unplaced left, Exp.digits_unplaced right]

theorem Exp.digitsAll_unplaced : (es : List Exp) →
    (Exp.integersAll (Exp.unplacedAll es)).map Prod.fst = (Exp.integersAll es).map Prod.fst
  | [] => rfl
  | e :: es => by
    simp [Exp.unplacedAll, Exp.integersAll, Exp.digits_unplaced e, Exp.digitsAll_unplaced es]

end

mutual

theorem Stmt.digits_unplaced : (s : Stmt) →
    s.unplaced.integers.map Prod.fst = s.integers.map Prod.fst
  | .assign target value => by
    simp [Stmt.unplaced, Stmt.integers, Exp.digits_unplaced]
  | .increment target => Exp.digits_unplaced target
  | .decrement target => Exp.digits_unplaced target
  | .read target => Exp.digits_unplaced target
  | .write value => Exp.digits_unplaced value
  | .ifThen condition body => by
    simp [Stmt.unplaced, Stmt.integers, Exp.digits_unplaced, Block.digits_unplaced body]
  | .ifElse condition yes no => by
    simp [Stmt.unplaced, Stmt.integers, Exp.digits_unplaced, Block.digits_unplaced yes,
      Block.digits_unplaced no]
  | .whileLoop condition body => by
    simp [Stmt.unplaced, Stmt.integers, Exp.digits_unplaced, Block.digits_unplaced body]
  | .repeatLoop count body => by
    simp [Stmt.unplaced, Stmt.integers, Exp.digits_unplaced, Block.digits_unplaced body]
  | .call _ args => Exp.digitsAll_unplaced args
  | .giveBack none _ => rfl
  | .giveBack (some value) _ => Exp.digits_unplaced value

theorem Block.digits_unplaced : (b : Block) →
    b.unplaced.integers.map Prod.fst = b.integers.map Prod.fst
  | .mk _ stmts => Stmt.digitsAll_unplaced stmts

theorem Stmt.digitsAll_unplaced : (ss : List Stmt) →
    (Stmt.integersAll (Stmt.unplacedAll ss)).map Prod.fst = (Stmt.integersAll ss).map Prod.fst
  | [] => rfl
  | s :: ss => by
    simp [Stmt.unplacedAll, Stmt.integersAll, Stmt.digits_unplaced s, Stmt.digitsAll_unplaced ss]

end

theorem Decl.digits_unplaced (d : Decl) :
    d.unplaced.integers.map Prod.fst = d.integers.map Prod.fst := by
  cases d with
  | fn d => exact Block.digits_unplaced d.body
  | _ => rfl

theorem Program.digits_unplaced (p : Program) :
    p.unplaced.integers.map Prod.fst = p.integers.map Prod.fst := by
  simp [Program.unplaced, Program.integers, List.flatMap_map, List.map_flatMap,
    Decl.digits_unplaced]

/-! ## Reading back -/

/-- A program that was read is the tree of a phrase of sound tokens. -/
theorem Program.phrase_of_parseFrom {first : Nat} {source : Text} {p : Program}
    (parsed : (source.parseFrom first).program = some p) :
    Grammar.Phrase .program (Parse.lexemes first source.scan.tokens) p.decls ∧
      ∀ t ∈ Parse.lexemes first source.scan.tokens, t.1.Sound := by
  have read : Program.ofTokens first source.scan.tokens = .ok p := by
    rw [Text.parseFrom] at parsed
    cases result : Program.ofTokens first source.scan.tokens with
    | ok q =>
      simp only [result, Option.some.injEq] at parsed
      rw [parsed]
    | error e => simp [result] at parsed
  refine ⟨Program.ofTokens_eq_ok_iff.mp read, fun t mem => ?_⟩
  have token : t.1 ∈ source.scan.tokens.takeWhile (·.kind ≠ .endOfInput) := by
    rw [← List.zipIdx_map_fst first (List.takeWhile _ _)]
    exact List.mem_map_of_mem mem
  rcases Segment.sound_scan ((List.takeWhile_subset _) token) with last | sound
  · have inner := List.mem_takeWhile_imp token
    simp [last] at inner
  · exact sound

theorem Program.phrase_of_parse {source : Text} {p : Program}
    (parsed : source.parse.program = some p) :
    Grammar.Phrase .program (Parse.lexemes 0 source.scan.tokens) p.decls ∧
      ∀ t ∈ Parse.lexemes 0 source.scan.tokens, t.1.Sound :=
  phrase_of_parseFrom parsed

theorem Program.wellShaped_of_parse {source : Text} {p : Program}
    (parsed : source.parse.program = some p) : p.WellShaped := by
  obtain ⟨phrase, sound⟩ := phrase_of_parse parsed
  exact Grammar.wellShaped_of_phrase phrase sound

theorem Program.parse_render {p : Program} (shaped : p.WellShaped) (n : Nat) :
    ∃ text q, p.render (.blanks n) Ident.name = .ok text ∧
      text.parse = ⟨some q, integerWarnings q.integers⟩ ∧ q.unplaced = p.unplaced := by
  obtain ⟨text, rendered, written⟩ := Layout.writes_render shaped n
  obtain ⟨ts, lexed, same, diagnostics⟩ := written.lexemes
  have spelled : ts.zipIdx.map Spelling.bare = Spelling.program p := by
    rw [← same, show Spelling.bare = Token.unplaced ∘ Prod.fst from rfl, ← List.map_map,
      List.zipIdx_map_fst]
  obtain ⟨ds, phrase, equal⟩ := Spelling.program_of_spelling shaped spelled
  refine ⟨text, ⟨ds⟩, rendered, ?_, by rw [Program.unplaced, Program.unplaced, equal]⟩
  have read : Program.ofTokens 0 text.scan.tokens = .ok ⟨ds⟩ := by
    rw [Program.ofTokens_eq_ok_iff, lexed]
    exact phrase
  rw [Text.parse, Text.parseFrom, read, integers_of_zipIdx phrase, diagnostics]

/-- The text of a program tells the program up to positions. -/
theorem Program.unplaced_eq_of_render {p q : Program} (shaped : p.WellShaped)
    (shaped' : q.WellShaped) {n : Nat} {text : Text}
    (rendered : p.render (.blanks n) Ident.name = .ok text)
    (rendered' : q.render (.blanks n) Ident.name = .ok text) : p.unplaced = q.unplaced := by
  obtain ⟨t, p', written, read, same⟩ := parse_render shaped n
  obtain ⟨u, q', written', read', same'⟩ := parse_render shaped' n
  obtain rfl : t = text := Except.ok.inj (written.symm.trans rendered)
  obtain rfl : u = t := Except.ok.inj (written'.symm.trans rendered')
  obtain ⟨again, -⟩ := Parsed.mk.inj (read.symm.trans read')
  rw [← same, ← same', Option.some.inj again]

/-- A program that was read is well-shaped. A well-shaped program is read back from its text, up to
positions; the only reports are warnings, one for each of its integer literals out of range. -/
theorem Program.parse_format_unplaced :
    (∀ (source : Text) (p : Program), source.parse.program = some p → p.WellShaped) ∧
    ∀ p : Program, p.WellShaped → ∀ n : Nat,
      ∃ text q, p.format (.blanks n) .plain = .ok text ∧
        text.parse.program = some q ∧ q.unplaced = p.unplaced ∧
        text.parse.diagnostics = integerWarnings q.integers ∧
        q.integers.map Prod.fst = p.integers.map Prod.fst := by
  refine ⟨fun source p => wellShaped_of_parse, fun p shaped n => ?_⟩
  obtain ⟨text, q, rendered, parsed, same⟩ := parse_render shaped n
  refine ⟨text, q, ?_, by rw [parsed], same, by rw [parsed], ?_⟩
  · change (p.render (.blanks n) Ident.name).mapError FormatError.indent = .ok text
    rw [rendered]
    rfl
  · rw [← digits_unplaced q, same, digits_unplaced p]

/-- A function that writes a number out of range, which is warned about where it stands in the text. -/
theorem Program.parse_format_tooLarge :
    let number : Exp := .int 2147483647 "99999999999" .start
    let p : Program := ⟨[.fn ⟨.void, ⟨0, "f", .start⟩, [], .mk [] [.write number]⟩]⟩
    let text : Text := "void f() \x7b\n  cout << 99999999999;\n\x7d\n"
    p.WellShaped ∧ p.format (.blanks 2) .plain = .ok text ∧
      (∃ q : Program, text.parse.program = some q ∧ q.WellShaped ∧ q.unplaced = p.unplaced ∧
        q.integers = [(("99999999999" : Text), (⟨2, 11⟩ : Position))]) ∧
      text.parse.diagnostics = [.warning ⟨2, 11⟩ .integerTooLarge] := by
  have read : (Text.parse "void f() \x7b\n  cout << 99999999999;\n\x7d\n").program.map
      Program.integers = some [(("99999999999" : Text), (⟨2, 11⟩ : Position))] := by
    rw [Text.parse_eq_parseOnTape]
    decide +kernel
  intro number p text
  have written : number.WellShaped := ⟨rfl, rfl⟩
  have body : (Block.mk [] [.write number]).WellShaped := ⟨by simp, written, trivial⟩
  have shaped : p.WellShaped := by
    intro d mem
    obtain rfl := List.mem_singleton.mp mem
    exact ⟨trivial, rfl, by simp, body⟩
  have rendered : p.format (.blanks 2) .plain = .ok text := by rfl
  obtain ⟨_, q, formatted, parsed, same, diagnostics, -⟩ := parse_format_unplaced.2 p shaped 2
  obtain rfl := Except.ok.inj (rendered.symm.trans formatted)
  have integers : q.integers = [(("99999999999" : Text), (⟨2, 11⟩ : Position))] := by
    have found := congrArg (Option.map Program.integers) parsed
    exact Option.some.inj (found.symm.trans read)
  refine ⟨shaped, rendered, ⟨q, parsed, parse_format_unplaced.1 _ q parsed, same, integers⟩, ?_⟩
  rw [diagnostics, integers]
  rfl

end Cinder

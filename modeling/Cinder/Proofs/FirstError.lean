import Cinder.Proofs.Acceptance
import Cinder.Proofs.Reading.Online
import Cinder.Proofs.Tape.Source
import Mathlib.Data.List.TakeWhile

/-!
# The first error

A syntax error is reported at the first token that no program goes on with. The tokens before it are
the beginning of some program, and together with it they are not.
-/
namespace Cinder

open Grammar (Derives accepted)
open Grammar.Piece (phrase)
open Parse (Lexeme kindOf)

namespace Parse

theorem kindOf_ne_endOfInput {first : Nat} {tokens : List Token} {t : Lexeme}
    (mem : t ∈ lexemes first tokens) : kindOf t ≠ .endOfInput := by
  have token : t.1 ∈ tokens.takeWhile (·.kind ≠ .endOfInput) := List.fst_mem_of_mem_zipIdx mem
  have outside := List.mem_takeWhile_imp token
  exact of_decide_eq_true outside

theorem decls_ok_iff_derives {ts : List Lexeme} :
    (∃ ds, decls ts = .ok ds) ↔ Derives accepted [phrase .program] (ts.map kindOf) := by
  rw [← Grammar.mem_language_iff_derives, Grammar.mem_language_iff_phrase]
  exact exists_congr fun ds => decls_eq_ok_iff

end Parse

namespace Program

/-- The kinds before the end of the input. -/
def inside (tokens : List Token) : List Kind :=
  (tokens.map Token.kind).takeWhile (· ≠ .endOfInput)

theorem ofTokens_ok_iff_derives {first : Nat} {tokens : List Token} :
    (∃ p, ofTokens first tokens = .ok p) ↔ Derives accepted [phrase .program] (inside tokens) := by
  have kinds : (Parse.lexemes first tokens).map kindOf = inside tokens := by
    rw [Parse.map_kindOf_lexemes, inside, List.takeWhile_map]
    rfl
  rw [← kinds, ← Parse.decls_ok_iff_derives]
  constructor
  · rintro ⟨p, parsed⟩
    exact ⟨p.decls, Parse.decls_eq_ok_iff.mpr (ofTokens_eq_ok_iff.mp parsed)⟩
  · rintro ⟨ds, read⟩
    exact ⟨⟨ds⟩, ofTokens_eq_ok_iff.mpr (Parse.decls_eq_ok_iff.mp read)⟩

/-- A token list that ends with the end of the input and is read as a program. -/
def Accepted (tokens : List Token) : Prop :=
  tokens.getLast?.map Token.kind = some .endOfInput ∧ ∃ p, ofTokens 0 tokens = .ok p

variable {first : Nat} {tokens : List Token} {e : SyntaxError}

/-- The token after some of the lexemes is the next lexeme, or the end of the input. -/
theorem token_after {used rest : List Lexeme}
    (ended : tokens.getLast?.map Token.kind = some .endOfInput)
    (whole : Parse.lexemes first tokens = used ++ rest) :
    ∃ t, tokens[used.length]? = some t ∧
      (tokens.take used.length).map Token.kind = used.map kindOf ∧
      (rest.head?.map kindOf).getD .endOfInput = t.kind ∧
      (rest.head?.map (·.1.position)).getD (Parse.endPosition tokens) = t.position := by
  obtain ⟨front, t, back, rfl, before, last⟩ := Parse.exists_end ended
  have numbered : front.zipIdx first = used ++ rest := by
    rw [← whole, Parse.lexemes,
      List.takeWhile_append_of_pos fun u mem => decide_eq_true (before u mem)]
    simp [last]
  have split : front = used.map Prod.fst ++ rest.map Prod.fst := by
    rw [← List.map_append, ← numbered, List.zipIdx_map_fst]
  have length : (used.map Prod.fst).length = used.length := List.length_map _
  have taken : ((front ++ t :: back).take used.length).map Token.kind = used.map kindOf := by
    rw [split, List.append_assoc, List.take_left' length, List.map_map]
    rfl
  cases rest with
  | nil =>
    refine ⟨t, ?_, taken, last.symm, ?_⟩
    · simp [split]
    · have none : front.find? (·.kind = .endOfInput) = none :=
        List.find?_eq_none.mpr fun u mem => by simpa using before u mem
      simp [Parse.endPosition, List.find?_append, none, last]
  | cons u rest =>
    refine ⟨u.1, ?_, taken, rfl, rfl⟩
    simp [split]

theorem exists_stuck (failed : ofTokens first tokens = .error e) :
    ∃ rest, Parse.decls (Parse.lexemes first tokens) = .error ⟨rest⟩ ∧
      e.position = (rest.head?.map (·.1.position)).getD (Parse.endPosition tokens) := by
  rw [ofTokens] at failed
  cases read : Parse.decls (Parse.lexemes first tokens) with
  | ok ds => simp [read] at failed
  | error stuck =>
    obtain ⟨_ | ⟨u, rest⟩⟩ := stuck
    · cases read ▸ failed
      exact ⟨[], rfl, rfl⟩
    · cases read ▸ failed
      exact ⟨u :: rest, rfl, rfl⟩

/-- The beginning of a program goes on to a token list that is accepted. -/
theorem exists_accepted {front : List Token}
    (begins : ∃ more, Derives accepted [phrase .program] (front.map Token.kind ++ more)) :
    ∃ back, Accepted (front ++ back) := by
  obtain ⟨more, derived⟩ := begins
  refine ⟨more.map Token.ofKind ++ [Token.ofKind .endOfInput], by simp [Token.ofKind], ?_⟩
  rw [ofTokens_ok_iff_derives]
  have kinds : (front ++ (more.map Token.ofKind ++ [Token.ofKind .endOfInput])).map Token.kind
      = front.map Token.kind ++ more ++ [.endOfInput] := by
    simp [Token.ofKind, Function.comp_def]
  have inner := Grammar.not_mem_of_derives derived (by decide)
  have all : ∀ kind ∈ front.map Token.kind ++ more, decide (kind ≠ .endOfInput) = true :=
    fun kind mem => decide_eq_true fun same => inner (same ▸ mem)
  rw [inside, kinds, List.takeWhile_append_of_pos all]
  simpa using derived

/-- Lexemes that go on with the next one are refused whatever comes then, so no accepted list begins
with tokens of the same kinds. -/
theorem not_accepted {used rest : List Lexeme} (within : ∀ t ∈ used ++ rest, kindOf t ≠ .endOfInput)
    (stable : ∀ us, us.head? = rest.head? → Parse.decls (used ++ us) = .error ⟨us⟩)
    {other : List Token} (accepts : Accepted other) :
    (other.take (used.length + 1)).map Token.kind ≠
      used.map kindOf ++ [(rest.head?.map kindOf).getD .endOfInput] := by
  intro same
  have derived := ofTokens_ok_iff_derives.mp accepts.2
  have kinds : other.map Token.kind =
      used.map kindOf ++ (rest.head?.map kindOf).getD .endOfInput ::
        (other.drop (used.length + 1)).map Token.kind := by
    rw [List.append_cons, ← same, ← List.map_append, List.take_append_drop]
  have before : ∀ kind ∈ used.map kindOf, decide (kind ≠ .endOfInput) = true := by
    intro kind mem
    obtain ⟨t, earlier, rfl⟩ := List.mem_map.mp mem
    exact decide_eq_true (within t (List.mem_append_left _ earlier))
  rw [inside, kinds, List.takeWhile_append_of_pos before] at derived
  -- the accepted kinds are those of lexemes that reading gets stuck at
  obtain ⟨us, next, derived⟩ : ∃ us, us.head? = rest.head? ∧
      Derives accepted [phrase .program] ((used ++ us).map kindOf) := by
    cases rest with
    | nil => exact ⟨[], rfl, by simpa using derived⟩
    | cons u rest =>
      have inner := within u (by simp)
      simp only [List.head?_cons, Option.map_some, Option.getD_some, List.takeWhile_cons, inner,
        ne_eq, not_false_eq_true, decide_true, if_true] at derived
      exact ⟨u :: Parse.lexemesOf _, rfl, by simpa using derived⟩
  obtain ⟨ds, read⟩ := Parse.decls_ok_iff_derives.mpr derived
  rw [stable us next] at read
  cases read

/-- A syntax error is at the first token that no program goes on with: reading gets stuck there, the
tokens before it begin an accepted token list, and no accepted list begins with tokens of the same
kinds up to and including it. -/
theorem error_at_first_misfit (ended : tokens.getLast?.map Token.kind = some .endOfInput)
    (failed : ofTokens first tokens = .error e) :
    ∃ i t, Parse.decls (Parse.lexemes first tokens) = .error ⟨(Parse.lexemes first tokens).drop i⟩ ∧
      i ≤ (Parse.lexemes first tokens).length ∧ tokens[i]? = some t ∧ e.position = t.position ∧
      (∃ other, Accepted other ∧
        (other.take i).map Token.kind = (tokens.take i).map Token.kind) ∧
      ∀ other, Accepted other →
        (other.take (i + 1)).map Token.kind ≠ (tokens.take (i + 1)).map Token.kind := by
  obtain ⟨rest, read, place⟩ := exists_stuck failed
  obtain ⟨used, whole, begins, stable⟩ := Parse.stuck_decls read
  obtain ⟨t, found, taken, kind, position⟩ := token_after ended whole
  refine ⟨used.length, t, ?_, ?_, found, place.trans position, ?_, fun other accepts => ?_⟩
  · rw [read, whole, List.drop_left]
  · simp [whole]
  · obtain ⟨more, derived⟩ := begins
    obtain ⟨back, accepts⟩ := exists_accepted ⟨more, taken ▸ derived⟩
    refine ⟨_, accepts, ?_⟩
    have long : used.length ≤ tokens.length := (List.getElem?_eq_some_iff.mp found).1.le
    rw [List.take_left' (List.length_take_of_le long)]
  · have within : ∀ t ∈ used ++ rest, kindOf t ≠ .endOfInput :=
      fun t mem => Parse.kindOf_ne_endOfInput (whole ▸ mem)
    have longer : (tokens.take (used.length + 1)).map Token.kind = used.map kindOf ++ [t.kind] := by
      rw [List.take_add_one, found, List.map_append, taken]
      rfl
    rw [longer, ← kind]
    exact not_accepted within stable accepts

/-- Comparisons do not associate, so the second sign is the misfit. -/
theorem error_at_second_comparison :
    ∃ tokens, tokens = (Text.ofString "void f() \x7b x = a < b < c; \x7d").scan.tokens ∧
      tokens.getLast?.map Token.kind = some .endOfInput ∧
      ofTokens 0 tokens = .error ⟨⟨1, 22⟩⟩ ∧
      ∃ i t, tokens[i]? = some t ∧ t.position = ⟨1, 22⟩ ∧
        (∃ other, Accepted other ∧
          (other.take i).map Token.kind = (tokens.take i).map Token.kind) ∧
        ∀ other, Accepted other →
          (other.take (i + 1)).map Token.kind ≠ (tokens.take (i + 1)).map Token.kind := by
  have clean : (Text.scan "void f() \x7b x = a < b < c; \x7d").diagnostics = [] := by
    decide +kernel
  have reported : (Text.parse "void f() \x7b x = a < b < c; \x7d").diagnostics =
      [.error ⟨1, 22⟩ .syntaxError] := by
    rw [Text.parse_eq_parseOnTape]
    decide +kernel
  have failed : ofTokens 0 (Text.scan "void f() \x7b x = a < b < c; \x7d").tokens =
      .error ⟨⟨1, 22⟩⟩ := by
    cases read : ofTokens 0 (Text.scan "void f() \x7b x = a < b < c; \x7d").tokens with
    | ok p => simp [Text.parse, Text.parseFrom, read, clean] at reported
    | error e =>
      obtain ⟨position⟩ := e
      simpa [Text.parse, Text.parseFrom, read, clean, SyntaxError.diagnostic, Diagnostic.error]
        using reported
  have ended := Scan.getLast?_ofSegments .start
    (Segment.divide "void f() \x7b x = a < b < c; \x7d")
  obtain ⟨i, t, -, -, found, place, begins, ends⟩ := error_at_first_misfit ended failed
  exact ⟨_, rfl, ended, failed, i, t, found, place.symm, begins, ends⟩

end Program

end Cinder

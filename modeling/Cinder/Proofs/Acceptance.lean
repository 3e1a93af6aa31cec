import Cinder.Program.Source
import Cinder.Proofs.Grammar.Derivation
import Cinder.Proofs.Reading.Complete
import Cinder.Proofs.Reading.Sound

/-!
# Acceptance

A token list is a program exactly if the kinds before the end of the input belong to the language of
the accepted grammar, and then it is the program that the derivation spells out. In particular no two
derivations disagree about the tree.
-/
namespace Cinder

open Grammar (Phrase)

namespace Parse

theorem map_kindOf_lexemes (first : Nat) (tokens : List Token) :
    (lexemes first tokens).map kindOf =
      (tokens.takeWhile (·.kind ≠ .endOfInput)).map Token.kind := by
  rw [lexemes, show kindOf = Token.kind ∘ Prod.fst from rfl, ← List.map_map, List.zipIdx_map_fst]

theorem decls_eq_ok_iff {ts : List Lexeme} {ds : List Decl} :
    decls ts = .ok ds ↔ Phrase .program ts ds :=
  ⟨phrase_of_decls, fun phrase => reads phrase⟩

end Parse

namespace Program

theorem ofTokens_eq_ok_iff {first : Nat} {tokens : List Token} {p : Program} :
    ofTokens first tokens = .ok p ↔ Phrase .program (Parse.lexemes first tokens) p.decls := by
  rw [← Parse.decls_eq_ok_iff, ofTokens]
  cases Parse.decls (Parse.lexemes first tokens) with
  | ok ds =>
    obtain ⟨decls⟩ := p
    simp
  | error stuck =>
    obtain ⟨_ | _⟩ := stuck <;> simp

/-- The tokens of a program are exactly those whose kinds the grammar derives, and the program is the
tree of the derivation. -/
theorem ofTokens_ok_iff_mem_language (first : Nat) (tokens : List Token) :
    ((∃ p, ofTokens first tokens = .ok p) ↔
      (tokens.takeWhile (·.kind ≠ .endOfInput)).map Token.kind ∈
        (Grammar.ofTable Grammar.accepted).language) ∧
    ∀ p, ofTokens first tokens = .ok p ↔
      Phrase .program (Parse.lexemes first tokens) p.decls := by
  refine ⟨?_, fun p => ofTokens_eq_ok_iff⟩
  rw [← Parse.map_kindOf_lexemes first, Grammar.mem_language_iff_phrase]
  constructor
  · rintro ⟨p, parsed⟩
    exact ⟨p.decls, ofTokens_eq_ok_iff.mp parsed⟩
  · rintro ⟨ds, phrase⟩
    exact ⟨⟨ds⟩, ofTokens_eq_ok_iff.mpr phrase⟩

end Program

end Cinder

import Cinder.Proofs.RoundTrip
import Cinder.Proofs.Tape.Source
import Mathlib.Data.List.Chain

/-!
# Targets in parentheses

The accepted grammar lets the target of an assignment inside an expression stand in parentheses, and
the documented grammar does not. The difference can be told from neighbouring tokens alone: a program
that was read is a word of the documented grammar if and only if nowhere a closing parenthesis stands
right before an `=`.
-/
namespace Cinder

namespace Grammar

open Piece (token phrase)

/-- No `=` stands right after a closing parenthesis. -/
def Bare (kinds : List Kind) : Prop :=
  kinds.IsChain fun kind next => kind = .rightParen → next ≠ .assign

instance (kinds : List Kind) : Decidable (Bare kinds) :=
  inferInstanceAs (Decidable (kinds.IsChain _))

/-! ## Documented words are bare -/

/-- Each `=` of a production stands right after a place. -/
def AfterPlaces (parts : List Piece) : Prop :=
  parts.IsChain fun part next => next = token .assign → part = phrase .loc

instance (parts : List Piece) : Decidable (AfterPlaces parts) :=
  inferInstanceAs (Decidable (parts.IsChain _))

theorem afterPlaces_documented (n : Nonterminal) :
    ∀ body ∈ documented n, AfterPlaces body ∧ body.head? ≠ some (token .assign) := by
  have all : ∀ m ∈ Nonterminal.all, ∀ body ∈ documented m,
      AfterPlaces body ∧ body.head? ≠ some (token .assign) := by decide
  exact all n n.mem_all

/-- A token at the end of the parts is spelled last. -/
theorem Derives.getLast?_token {table : Nonterminal → List (List Piece)} (parts : List Piece)
    {kind : Kind} {kinds : List Kind} (derived : Derives table (parts ++ [Piece.token kind]) kinds) :
    kinds.getLast? = some kind := by
  obtain ⟨left, right, rfl, -, last⟩ := derived.split
  cases last with
  | token rest =>
    cases rest
    exact List.getLast?_concat

/-- A place ends in an identifier. -/
theorem getLast?_of_loc {body : List Piece} {kinds : List Kind} (mem : body ∈ documented .loc)
    (derived : Derives documented body kinds) : kinds.getLast? = some .identifier := by
  simp only [documented, List.mem_cons, List.not_mem_nil, or_false] at mem
  rcases mem with rfl | rfl
  · exact derived.getLast?_token []
  · exact derived.getLast?_token [phrase .loc, token .dot]

/-- What the documented grammar derives is bare. It begins with an `=` only if the parts do. -/
theorem bare_of_derives {parts : List Piece} {kinds : List Kind}
    (derived : Derives documented parts kinds) (placed : AfterPlaces parts) :
    Bare kinds ∧ (kinds.head? = some .assign → parts.head? = some (token .assign)) := by
  induction derived with
  | nil => exact ⟨.nil, by simp⟩
  | @token kind parts kinds rest ih =>
    obtain ⟨bare, first⟩ := ih (List.isChain_cons.mp placed).2
    refine ⟨List.isChain_cons.mpr ⟨?_, bare⟩, by simp⟩
    rintro next head rfl rfl
    have start : parts.head? = some (token .assign) := first head
    have other := (List.isChain_cons.mp placed).1 _ start rfl
    cases other
  | @phrase n body parts kinds kinds' mem inner rest ihBody ih =>
    obtain ⟨guarded, opens⟩ := afterPlaces_documented n body mem
    obtain ⟨bare, first⟩ := ihBody guarded
    obtain ⟨bare', first'⟩ := ih (List.isChain_cons.mp placed).2
    -- Only after a place can what follows begin with `=`, and a place ends in an identifier.
    have ended : kinds'.head? = some .assign → kinds.getLast? = some .identifier := by
      intro head
      have place := (List.isChain_cons.mp placed).1 _ (first' head) rfl
      cases place
      exact getLast?_of_loc mem inner
    constructor
    · refine List.isChain_append.mpr ⟨bare, bare', ?_⟩
      rintro kind last next head rfl rfl
      rw [ended head] at last
      cases last
    · intro head
      cases kinds with
      | nil => cases ended head
      | cons kind kinds => exact absurd (first head) opens

theorem bare_of_mem_language {kinds : List Kind} (mem : kinds ∈ (ofTable documented).language) :
    Bare kinds :=
  (bare_of_derives (mem_language_iff_derives.mp mem) (.singleton _)).1

/-! ## Bare words are documented -/

/-- Each target stands right before an `=`. -/
def targetsAssigned : List Piece → Bool
  | [] => true
  | phrase .target :: rest => rest.head? = some (token .assign) && targetsAssigned rest
  | _ :: rest => targetsAssigned rest

/-- A target without parentheses is a place. -/
def Piece.bare : Piece → Piece
  | phrase .target => phrase .loc
  | part => part

/-- With places for targets, the productions are the documented ones. -/
theorem bare_mem_documented (n : Nonterminal) (other : n ≠ .target) :
    ∀ body ∈ accepted n, targetsAssigned body ∧ body.map Piece.bare ∈ documented n := by
  have all : ∀ m ∈ Nonterminal.all, m ≠ .target → ∀ body ∈ accepted m,
      targetsAssigned body ∧ body.map Piece.bare ∈ documented m := by decide
  exact all n n.mem_all other

theorem targetsAssigned_of_cons {part : Piece} {parts : List Piece}
    (assigned : targetsAssigned (part :: parts)) : targetsAssigned parts := by
  unfold targetsAssigned at assigned
  split at assigned
  · next same => cases same
  · next same =>
    cases same
    exact (Bool.and_eq_true_iff.mp assigned).2
  · next same =>
    cases same
    exact assigned

/-- What follows a target begins with `=`. -/
theorem head?_of_assigned {parts : List Piece} {kinds : List Kind}
    (assigned : targetsAssigned (phrase .target :: parts)) (derived : Derives accepted parts kinds) :
    kinds.head? = some .assign := by
  have head : parts.head? = some (token .assign) := by
    simp only [targetsAssigned, Bool.and_eq_true, decide_eq_true_eq] at assigned
    exact assigned.1
  cases derived with
  | token rest =>
    cases head
    rfl
  | _ => cases head

/-- A bare word is derived without parentheses around targets. -/
theorem documented_of_derives {parts : List Piece} {kinds : List Kind}
    (derived : Derives accepted parts kinds) (assigned : targetsAssigned parts)
    (bare : Bare kinds) : Derives documented (parts.map Piece.bare) kinds := by
  induction derived with
  | nil => exact .nil
  | token rest ih => exact .token (ih assigned (List.isChain_cons.mp bare).2)
  | @phrase n body parts kinds kinds' mem inner rest ihBody ih =>
    obtain ⟨left, right, border⟩ := List.isChain_append.mp bare
    have later := ih (targetsAssigned_of_cons assigned) right
    by_cases target : n = .target
    · subst target
      simp only [accepted, List.mem_cons, List.not_mem_nil, or_false] at mem
      rcases mem with rfl | rfl
      · exact (ihBody rfl left).append later
      · -- The target ends in a parenthesis, and an `=` follows.
        have last : kinds.getLast? = some .rightParen :=
          inner.getLast?_token [token .leftParen, phrase .target]
        have next : kinds'.head? = some .assign := head?_of_assigned assigned rest
        exact absurd rfl (border _ last _ next rfl)
    · obtain ⟨inside, known⟩ := bare_mem_documented n target body mem
      have same : Piece.bare (phrase n) = phrase n := by
        unfold Piece.bare
        split
        · next eq => cases eq; exact absurd rfl target
        · rfl
      rw [List.map_cons, same]
      exact .phrase known (ihBody inside left) later

end Grammar

/-- The kinds of the tokens of a text, up to the end of the input. -/
def Text.kinds (source : Text) : List Kind :=
  (source.scan.tokens.takeWhile (·.kind ≠ .endOfInput)).map Token.kind

namespace Program

open Grammar (Bare documented ofTable)

/-- A text that is read as a program is a word of the documented grammar if and only if no `=` in it
stands right after a closing parenthesis. -/
theorem documented_iff_bare (source : Text) (p : Program) (parsed : source.parse.program = some p) :
    source.kinds ∈ (ofTable documented).language ↔ Bare source.kinds := by
  refine ⟨Grammar.bare_of_mem_language, fun bare => ?_⟩
  have derived := Grammar.derives_of_phrase (phrase_of_parse parsed).1
  rw [Parse.map_kindOf_lexemes] at derived
  exact Grammar.mem_language_iff_derives.mpr (Grammar.documented_of_derives derived rfl bare)

/-- Parentheses around the value of an assignment, or around all of it, are documented. -/
theorem documented_of_bare_target :
    let source : Text := "void f() \x7b int x; cout << (x = (1)); \x7d"
    (∃ p, source.parse.program = some p) ∧ source.kinds ∈ (ofTable documented).language := by
  obtain ⟨p, parsed, bare⟩ : ∃ p,
      (Text.parse "void f() \x7b int x; cout << (x = (1)); \x7d").program = some p ∧
      Bare (Text.kinds "void f() \x7b int x; cout << (x = (1)); \x7d") :=
    Text.exists_of_parseOnTape (by decide +kernel)
  exact ⟨⟨p, parsed⟩, (documented_iff_bare _ p parsed).mpr bare⟩

/-- A target in parentheses is read, though no derivation of the documented grammar has one. -/
theorem undocumented_of_parenthesized_target :
    let source : Text := "void f() \x7b int x; cout << (x) = 1; \x7d"
    (∃ p, source.parse.program = some p) ∧ source.kinds ∉ (ofTable documented).language := by
  have clasped : ¬ Bare (Text.kinds "void f() \x7b int x; cout << (x) = 1; \x7d") := by
    decide +kernel
  have parsed : (Text.parse "void f() \x7b int x; cout << (x) = 1; \x7d").program.isSome := by
    rw [Text.parse_eq_parseOnTape]
    decide +kernel
  refine ⟨Option.isSome_iff_exists.mp parsed, fun mem => ?_⟩
  exact clasped (Grammar.bare_of_mem_language mem)

end Program

end Cinder

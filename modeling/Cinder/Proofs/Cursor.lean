import Cinder.Proofs.Ranges
import Cinder.Proofs.Tape.Source

/-!
# The identifier under the cursor

Tokens stand one after another: where one begins, all before it have ended. So at most one token
covers a unit of the text. The identifiers of a program are its identifier tokens, each once and in
order, and the one that covers the cursor is the node of the token that does.
-/
namespace Cinder

/-! ## The order of tokens -/

/-- A position is reached from another one by going to the right and to later lines. -/
def Position.Reaches (p q : Position) : Prop :=
  p.line < q.line ∨ p.line = q.line ∧ p.column ≤ q.column

theorem Position.Reaches.refl (p : Position) : p.Reaches p := .inr ⟨rfl, Int.le_refl _⟩

theorem Position.Reaches.trans {p q r : Position} (first : p.Reaches q) (second : q.Reaches r) :
    p.Reaches r := by
  unfold Position.Reaches at *
  omega

theorem Segment.reaches_after (s : Segment) (p : Position) : p.Reaches (s.after p) := by
  cases s with
  | newline => exact .inl (Int.lt_succ _)
  | _ => exact .inr ⟨rfl, Int.le_add_of_nonneg_right (Int.natCast_nonneg _)⟩

namespace Token

/-- The second token begins where the first has ended, or later. -/
def Before (t u : Token) : Prop := (t.position.right t.text.length).Reaches u.position

/-- A unit of the text, counted from zero, belongs to the token. -/
def Covers (t : Token) (line character : Int) : Prop :=
  t.position.line - 1 = line ∧ t.position.column - 1 ≤ character ∧
    character < t.position.column - 1 + t.text.length

theorem Before.not_covers {t u : Token} {line character : Int} (before : t.Before u)
    (covers : t.Covers line character) : ¬ u.Covers line character := by
  rintro ⟨row, start, -⟩
  obtain ⟨row', -, stop⟩ := covers
  simp only [Before, Position.Reaches, Position.right] at before
  omega

end Token

namespace Scan

theorem reaches_tokens {p : Position} {ss : List Segment} :
    ∀ t ∈ (ofSegments p ss).tokens, p.Reaches t.position := by
  induction ss generalizing p with
  | nil =>
    intro t mem
    obtain rfl := List.mem_singleton.mp mem
    exact .refl p
  | cons s ss ih =>
    intro t mem
    rcases List.mem_append.mp mem with here | later
    · obtain ⟨-, rfl⟩ := Segment.token?_eq_some (Option.mem_toList.mp here)
      exact .refl _
    · exact (s.reaches_after p).trans (ih t later)

theorem pairwise_before (p : Position) (ss : List Segment) :
    (ofSegments p ss).tokens.Pairwise Token.Before := by
  induction ss generalizing p with
  | nil => exact List.pairwise_singleton _ _
  | cons s ss ih =>
    refine List.pairwise_append.mpr ⟨?_, ih (s.after p), ?_⟩
    · cases s.token? p with
      | none => exact .nil
      | some t => exact List.pairwise_singleton _ _
    · intro t here u later
      obtain ⟨segment, rfl⟩ := Segment.token?_eq_some (Option.mem_toList.mp here)
      have reached := reaches_tokens u later
      rw [segment] at reached
      exact reached

/-- At most one token covers a unit. -/
theorem covers_unique {source : Text} {i j : Nat} {t u : Token} {line character : Int}
    (here : source.scan.tokens[i]? = some t) (there : source.scan.tokens[j]? = some u)
    (covers : t.Covers line character) (covers' : u.Covers line character) : i = j := by
  obtain ⟨first, rfl⟩ := List.getElem?_eq_some_iff.mp here
  obtain ⟨second, rfl⟩ := List.getElem?_eq_some_iff.mp there
  have ordered := List.pairwise_iff_getElem.mp (pairwise_before .start (Segment.divide source))
  by_contra apart
  rcases Nat.lt_or_gt_of_ne apart with less | more
  · exact (ordered i j first second less).not_covers covers covers'
  · exact (ordered j i second first more).not_covers covers' covers

theorem exists_inner_ofSegments {ss : List Segment}
    (spelled : ∀ kind text, .lexeme kind text ∈ ss → kind.spells text) (p : Position) :
    ∃ ts q, (ofSegments p ss).tokens = ts ++ [⟨.endOfInput, [], q, none⟩] ∧
      ∀ t ∈ ts, t.kind ≠ .endOfInput := by
  induction ss generalizing p with
  | nil => exact ⟨[], p, rfl, by simp⟩
  | cons s ss ih =>
    obtain ⟨ts, q, tokens, inner⟩ :=
      ih (fun kind text mem => spelled kind text (List.mem_cons_of_mem _ mem)) (s.after p)
    refine ⟨(s.token? p).toList ++ ts, q, by simp [ofSegments, tokens], ?_⟩
    intro t mem
    rcases List.mem_append.mp mem with here | later
    · obtain ⟨rfl, -⟩ := Segment.token?_eq_some (Option.mem_toList.mp here)
      intro last
      have nothing := spelled t.kind t.text List.mem_cons_self
      rw [last] at nothing
      cases nothing
    · exact inner t later

/-- The end of the input is the last token, and no other token is one. -/
theorem exists_inner (source : Text) :
    ∃ ts q, source.scan.tokens = ts ++ [⟨.endOfInput, [], q, none⟩] ∧
      ∀ t ∈ ts, t.kind ≠ .endOfInput :=
  exists_inner_ofSegments (fun _ _ => Segment.spells_divide) .start

end Scan

/-! ## Identifiers and their tokens -/

namespace Program

variable {source : Text} {p : Program}

/-- The identifiers of a program are the identifier tokens of its source, numbered by their
places. -/
theorem idents_eq_map_tokens (parsed : source.parse.program = some p) :
    p.idents = (source.scan.tokens.zipIdx.filter (·.1.kind = .identifier)).map Parse.identOf := by
  obtain ⟨ts, q, tokens, inner⟩ := Scan.exists_inner source
  have lexed : Parse.lexemes 0 source.scan.tokens = ts.zipIdx := by
    rw [Parse.lexemes, tokens, List.takeWhile_append_of_pos (by simpa using inner)]
    simp
  have idents : p.idents = Grammar.leaves .identifier Parse.identOf _ :=
    Grammar.idents_of_phrase (phrase_of_parse parsed).1
  rw [idents, lexed, tokens, List.zipIdx_append, List.filter_append, List.map_append]
  simp [Grammar.leaves]
  rfl

theorem mem_idents_iff (parsed : source.parse.program = some p) {id : Ident} :
    id ∈ p.idents ↔ ∃ i t, source.scan.tokens[i]? = some t ∧ t.kind = .identifier ∧
      id = Parse.identOf (t, i) := by
  rw [idents_eq_map_tokens parsed]
  simp only [List.mem_map, List.mem_filter, decide_eq_true_eq, Prod.exists,
    List.mem_zipIdx_iff_getElem?]
  constructor
  · rintro ⟨t, i, ⟨found, kind⟩, rfl⟩
    exact ⟨i, t, found, kind, rfl⟩
  · rintro ⟨i, t, found, kind, rfl⟩
    exact ⟨t, i, ⟨found, kind⟩, rfl⟩

theorem identAt_covers (parsed : source.parse.program = some p) {line character : Int} {id : Ident}
    (found : p.identAt line character = some id) :
    ∃ i t, source.scan.tokens[i]? = some t ∧ t.kind = .identifier ∧ t.Covers line character ∧
      id = Parse.identOf (t, i) := by
  obtain ⟨i, t, place, kind, rfl⟩ := (mem_idents_iff parsed).mp (List.mem_of_find?_eq_some found)
  have covers := List.find?_some found
  simp only [Bool.and_eq_true, decide_eq_true_eq] at covers
  exact ⟨i, t, place, kind, ⟨covers.1.1, covers.1.2, covers.2⟩, rfl⟩

/-- The identifier at a character is that of the token that covers it. -/
theorem identAt_eq_some_iff (parsed : source.parse.program = some p) {line character : Int}
    {id : Ident} :
    p.identAt line character = some id ↔ ∃ i t, source.scan.tokens[i]? = some t ∧
      t.kind = .identifier ∧ t.Covers line character ∧ id = Parse.identOf (t, i) := by
  refine ⟨identAt_covers parsed, ?_⟩
  rintro ⟨i, t, place, kind, covers, rfl⟩
  have some : (p.identAt line character).isSome := by
    refine List.find?_isSome.mpr ⟨_, (mem_idents_iff parsed).mpr ⟨i, t, place, kind, rfl⟩, ?_⟩
    simp only [Bool.and_eq_true, decide_eq_true_eq]
    exact ⟨⟨covers.1, covers.2.1⟩, covers.2.2⟩
  obtain ⟨id, found⟩ := Option.isSome_iff_exists.mp some
  obtain ⟨j, u, place', -, covers', rfl⟩ := identAt_covers parsed found
  obtain rfl := Scan.covers_unique place place' covers covers'
  obtain rfl := Option.some.inj (place.symm.trans place')
  exact found

/-- The names and positions of the identifiers are those of the tokens. -/
theorem map_idents_eq (parsed : source.parse.program = some p) :
    p.idents.map (fun id => (id.name, id.position)) =
      (source.scan.tokens.filter (·.kind = .identifier)).map (fun t => (t.text, t.position)) := by
  calc p.idents.map (fun id => (id.name, id.position))
      = (source.scan.tokens.zipIdx.filter (·.1.kind = .identifier)).map
          ((fun t => (t.text, t.position)) ∘ Prod.fst) := by
        rw [idents_eq_map_tokens parsed, List.map_map]
        rfl
    _ = ((source.scan.tokens.zipIdx.map Prod.fst).filter (·.kind = .identifier)).map
          (fun t => (t.text, t.position)) := by
        rw [List.filter_map, List.map_map]
        rfl
    _ = _ := by rw [List.zipIdx_map_fst]

/-- The identifiers of a program, with their names and positions, are the identifier tokens of its
source, one by one and in order, and each name stands in the lines of the source at its position. A
character is covered by an identifier exactly if it is covered by an identifier token. That token is
unique then, and the identifier is the node that was built from it. -/
theorem idents_are_tokens (source : Text) (p : Program) (parsed : source.parse.program = some p) :
    p.idents.map (fun id => (id.name, id.position)) =
      (source.scan.tokens.filter (·.kind = .identifier)).map (fun t => (t.text, t.position)) ∧
    (∀ id ∈ p.idents, (Editor.tokenRange source.lines id.position).Covers source.lines id.name) ∧
    ∀ line character,
      ((∃ id, p.identAt line character = some id) ↔
        ∃ t ∈ source.scan.tokens, t.kind = .identifier ∧ t.Covers line character) ∧
      ∀ id, p.identAt line character = some id →
        ∃ i t, source.scan.tokens[i]? = some t ∧ t.kind = .identifier ∧
          t.Covers line character ∧ id = Parse.identOf (t, i) ∧
          ∀ j u, source.scan.tokens[j]? = some u → u.Covers line character → j = i := by
  refine ⟨map_idents_eq parsed, ?_, fun line character => ⟨⟨?_, ?_⟩, ?_⟩⟩
  · intro id mem
    obtain ⟨i, t, place, kind, rfl⟩ := (mem_idents_iff parsed).mp mem
    rcases (Editor.shows_tokens (.start source) t (List.mem_of_getElem? place)).2 with
      ⟨-, covers⟩ | ⟨last, -⟩
    · exact covers
    · rw [kind] at last
      cases last
  · rintro ⟨id, found⟩
    obtain ⟨i, t, place, kind, covers, -⟩ := identAt_covers parsed found
    exact ⟨t, List.mem_of_getElem? place, kind, covers⟩
  · rintro ⟨t, mem, kind, covers⟩
    obtain ⟨i, place⟩ := List.mem_iff_getElem?.mp mem
    exact ⟨_, (identAt_eq_some_iff parsed).mpr ⟨i, t, place, kind, covers, rfl⟩⟩
  · intro id found
    obtain ⟨i, t, place, kind, covers, rfl⟩ := identAt_covers parsed found
    refine ⟨i, t, place, kind, covers, rfl, fun j u place' covers' => ?_⟩
    exact Scan.covers_unique place' place covers' covers

/-- The cursor stands on the second character of the field of a dot-access, then just past it. -/
theorem identAt_of_source :
    let source : Text := "struct A a;\nint f() \x7b return a.bc; \x7d"
    ∃ p, source.parse.program = some p ∧
      p.idents.map (fun id => (id.name, id.position)) =
        (source.scan.tokens.filter (·.kind = .identifier)).map (fun t => (t.text, t.position)) ∧
      (∃ id, p.identAt 1 20 = some id ∧ id.name = Text.ofString "bc" ∧
        ∃ i t, source.scan.tokens[i]? = some t ∧ t.Covers 1 20 ∧ id = Parse.identOf (t, i)) ∧
      p.identAt 1 21 = none ∧
      ¬ ∃ t ∈ source.scan.tokens, t.kind = .identifier ∧ t.Covers 1 21 := by
  obtain ⟨p, parsed, seen⟩ : ∃ p,
      (Text.parse "struct A a;\nint f() \x7b return a.bc; \x7d").program = some p ∧
      ((p.identAt 1 20).map Ident.name, (p.identAt 1 21).isNone) =
        (some (Text.ofString "bc"), true) :=
    Text.exists_of_parseOnTape (by decide +kernel)
  obtain ⟨id, found, name⟩ := Option.map_eq_some_iff.mp (congrArg Prod.fst seen)
  have missed : p.identAt 1 21 = none := Option.isNone_iff_eq_none.mp (congrArg Prod.snd seen)
  obtain ⟨same, -, at'⟩ := idents_are_tokens _ p parsed
  obtain ⟨i, t, place, -, covers, built, -⟩ := (at' 1 20).2 id found
  refine ⟨p, parsed, same, ⟨id, found, name, i, t, place, covers, built⟩, missed, ?_⟩
  intro covered
  obtain ⟨id', found'⟩ := (at' 1 21).1.mpr covered
  rw [missed] at found'
  cases found'

end Program

end Cinder

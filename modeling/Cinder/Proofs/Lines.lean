import Cinder.Editor.Range
import Cinder.Proofs.Lexeme

/-!
# Positions and lines

The scanner counts lines and columns while it divides the whole text; an editor takes the lines apart
first and counts from zero. At every position that the scanner reaches, the line of the editor holds
the same units, and the token that the editor finds there is as long as the segment.
-/
namespace Cinder

/-! ## Lines of a text -/

/-- The first line of a text goes up to the first newline or to the end. -/
theorem Text.lines_cases (t : Text) :
    ∃ line more, t.lines = line :: more ∧ CodeUnit.newline ∉ line ∧
      (t = line ∧ more = [] ∨
        ∃ rest : Text, t = line ++ CodeUnit.newline :: rest ∧ more = rest.lines) := by
  induction t with
  | nil => exact ⟨[], [], rfl, by simp, .inl ⟨rfl, rfl⟩⟩
  | cons u t ih =>
    obtain ⟨line, more, lines, clean, shape⟩ := ih
    by_cases ends : u = CodeUnit.newline
    · subst ends
      exact ⟨[], Text.lines t, by simp [Text.lines], by simp, .inr ⟨t, rfl, rfl⟩⟩
    · refine ⟨u :: line, more, by simp [Text.lines, ends, lines], ?_, ?_⟩
      · simp [clean, Ne.symm ends]
      · rcases shape with ⟨rfl, rfl⟩ | ⟨rest, rfl, rfl⟩
        · exact .inl ⟨rfl, rfl⟩
        · exact .inr ⟨rest, rfl, rfl⟩

theorem Text.lines_of_lines_cons {u : CodeUnit} {rest line : Text} {more : List Text}
    (inside : u ≠ CodeUnit.newline) (found : Text.lines (u :: rest) = line :: more) :
    ∃ line', line = u :: line' ∧ rest.lines = line' :: more := by
  obtain ⟨line', more', next, -, -⟩ := rest.lines_cases
  have joined : Text.lines (u :: rest) = (u :: line') :: more' := by
    simp [Text.lines, inside, next]
  obtain ⟨rfl, rfl⟩ := List.cons.inj (found.symm.trans joined)
  exact ⟨line', rfl, next⟩

namespace Segment

/-- The first segment depends on the first line only, and it is all of it or a part of it. -/
theorem first_of_lines {u : CodeUnit} {rest line : Text} {more : List Text}
    (lines : rest.lines = line :: more) :
    (first u rest).1 = (first u line).1 ∧ (first u line).1.text ++ (first u line).2 = u :: line := by
  refine ⟨?_, text_append_first u line⟩
  obtain ⟨line', more', lines', -, shape⟩ := rest.lines_cases
  obtain ⟨rfl, rfl⟩ := List.cons.inj (lines.symm.trans lines')
  rcases shape with ⟨rfl, -⟩ | ⟨after, rfl, -⟩
  · rfl
  · rw [first_append_newline]

theorem newline_notMem_text {u : CodeUnit} (inside : u ≠ CodeUnit.newline) (rest : Text) :
    CodeUnit.newline ∉ (first u rest).1.text := by
  obtain ⟨line, more, lines, clean, -⟩ := rest.lines_cases
  obtain ⟨same, whole⟩ := @first_of_lines u _ _ _ lines
  intro mem
  rw [same] at mem
  have reached : CodeUnit.newline ∈ u :: line := whole ▸ List.mem_append_left _ mem
  rcases List.mem_cons.mp reached with here | later
  · exact inside here.symm
  · exact clean later

end Segment

/-! ## Where the scanner stands -/

/-- The text `rest` begins at a position of a text with these lines. -/
def StandsAt (lines : List Text) (p : Position) (rest : Text) : Prop :=
  ∃ (n : Nat) (before line : Text) (more : List Text), p = ⟨n + 1, before.length + 1⟩ ∧
    rest.lines = line :: more ∧ lines.drop n = (before ++ line) :: more

namespace StandsAt

variable {lines : List Text} {p : Position} {rest : Text}

theorem start (source : Text) : StandsAt source.lines .start source := by
  obtain ⟨line, more, found, -, -⟩ := source.lines_cases
  exact ⟨0, [], line, more, rfl, found, found⟩

theorem newline (h : StandsAt lines p (CodeUnit.newline :: rest)) :
    StandsAt lines p.nextLine rest := by
  obtain ⟨n, before, line, more, rfl, found, here⟩ := h
  obtain ⟨line', more', next, -, -⟩ := rest.lines_cases
  have broken : Text.lines (CodeUnit.newline :: rest) = [] :: rest.lines := by simp [Text.lines]
  obtain ⟨rfl, rfl⟩ := List.cons.inj (found.symm.trans broken)
  refine ⟨n + 1, [], line', more', by simp [Position.nextLine], next, ?_⟩
  rw [← List.drop_drop, here, List.drop_one, List.tail_cons, next, List.nil_append]

theorem unit {u : CodeUnit} (inside : u ≠ CodeUnit.newline) (h : StandsAt lines p (u :: rest)) :
    StandsAt lines (p.right 1) rest := by
  obtain ⟨n, before, line, more, rfl, found, here⟩ := h
  obtain ⟨line', rfl, next⟩ := Text.lines_of_lines_cons inside found
  refine ⟨n, before ++ [u], line', more, by simp [Position.right], next, ?_⟩
  rw [here, List.append_assoc, List.singleton_append]

theorem units {t : Text} (inside : CodeUnit.newline ∉ t) (h : StandsAt lines p (t ++ rest)) :
    StandsAt lines (p.right t.length) rest := by
  induction t generalizing p with
  | nil =>
    have stay : p.right 0 = p := by simp [Position.right]
    rw [List.length_nil, stay]
    exact h
  | cons u t ih =>
    simp only [List.mem_cons, not_or] at inside
    have further := ih inside.2 (h.unit (Ne.symm inside.1))
    have sum : (p.right 1).right t.length = p.right (u :: t).length := by
      simp only [Position.right, List.length_cons, Position.mk.injEq, true_and]
      omega
    rwa [sum] at further

/-- After a segment the scanner stands at what is left. -/
theorem after {u : CodeUnit} (h : StandsAt lines p (u :: rest)) :
    StandsAt lines ((Segment.first u rest).1.after p) (Segment.first u rest).2 := by
  by_cases ends : u = CodeUnit.newline
  · subst ends
    exact h.newline
  · have inside := Segment.newline_notMem_text ends rest
    rw [← Segment.text_append_first u rest] at h
    have further := h.units inside
    cases segment : (Segment.first u rest).1 with
    | newline =>
      rw [segment] at inside
      exact absurd List.mem_cons_self inside
    | _ =>
      rw [segment] at further
      exact further

end StandsAt

/-! ## Lengths of tokens -/

namespace Editor

theorem isLineEnd_of_isEscape {u : CodeUnit} (escape : Segment.isEscape u) : isLineEnd u = false := by
  simp only [Segment.isEscape, Bool.or_eq_true, decide_eq_true_eq] at escape
  rcases escape with ((((rfl | rfl) | rfl) | rfl) | rfl) | rfl <;> decide

theorem stringLength_of_readString {t : Text} (closed : (Segment.readString t).closed)
    (wellEscaped : (Segment.readString t).wellEscaped) :
    stringLength t = (Segment.readString t).body.length := by
  fun_induction Segment.readString t with
  | case1 | case2 | case4 | case5 => cases closed
  | case3 rest notNewline => simp [stringLength.eq_def (CodeUnit.quote :: _), notNewline]
  | case6 e rest notNewline reading notNewline' notQuote ih =>
    obtain ⟨escape, wellEscaped⟩ := Bool.and_eq_true_iff.mp wellEscaped
    have step : stringLength (CodeUnit.backslash :: e :: rest) = 2 + stringLength rest := by
      simp [stringLength.eq_def (CodeUnit.backslash :: _), notNewline', notQuote,
        isLineEnd_of_isEscape escape]
    rw [step, ih closed wellEscaped, Nat.add_comm]
    rfl
  | case7 u rest notNewline notQuote notBackslash reading ih =>
    have inner := ih closed wellEscaped
    simp [stringLength.eq_def (u :: _), notNewline, notQuote, notBackslash, inner, reading,
      Nat.add_comm]

/-- A segment that the editor can show as one token: a lexeme or an illegal unit. -/
def isShown : Segment → Bool
  | .lexeme _ _ | .illegal _ => true
  | _ => false

theorem tokenLength_ofString {t : Text} (shown : isShown (Segment.ofString (Segment.readString t))) :
    tokenLength (CodeUnit.quote :: t) = (Segment.ofString (Segment.readString t)).text.length := by
  have kept : (Segment.readString t).closed ∧ (Segment.readString t).wellEscaped := by
    unfold Segment.ofString at shown
    split at shown
    · next closed wellEscaped => exact ⟨closed, wellEscaped⟩
    all_goals cases shown
  have other : Segment.isWordStart CodeUnit.quote = false ∧ CodeUnit.quote.isDigit = false := by
    decide
  rw [Segment.text_ofString, List.length_cons, ← stringLength_of_readString kept.1 kept.2]
  simp [tokenLength, other, Nat.add_comm]

theorem tokenLength_readOperator {u : CodeUnit} (start : ¬ Segment.isWordStart u)
    (digit : ¬ u.isDigit) (quote : u ≠ CodeUnit.quote) (rest : Text) :
    tokenLength (u :: rest) = (Segment.readOperator u rest).1.text.length := by
  simp only [tokenLength, start, digit, quote, if_false, Bool.false_eq_true]
  cases rest with
  | nil => rw [Segment.readOperator, Segment.text_readSingle]; rfl
  | cons v rest =>
    simp only [Segment.readOperator]
    cases Kind.doubles.lookup [u, v] with
    | none => rw [Segment.text_readSingle]; rfl
    | some kind => rfl

/-- The editor finds a token of the length of the segment that the scanner finds. -/
theorem tokenLength_first {u : CodeUnit} {rest : Text} (shown : isShown (Segment.first u rest).1) :
    tokenLength (u :: rest) = (Segment.first u rest).1.text.length := by
  unfold Segment.first at shown ⊢
  split_ifs at shown ⊢ with newline blank comment start digit quote
  · cases shown
  · cases shown
  · cases shown
  · simp [tokenLength, start, Segment.text, Nat.add_comm]
  · simp [tokenLength, start, digit, Segment.text, Nat.add_comm]
  · subst quote
    exact tokenLength_ofString shown
  · exact tokenLength_readOperator start digit quote rest

/-! ## Ranges -/

/-- A range on one line that covers exactly a piece of its text. -/
def Range.Covers (lines : List Text) (r : Range) (piece : Text) : Prop :=
  ∃ (n : Nat) (before after : Text), lines[n]? = some (before ++ piece ++ after) ∧
    r = ⟨⟨n, before.length⟩, ⟨n, before.length + piece.length⟩⟩

/-- The range of one character just past the end of the last line. -/
def Range.AtEnd (lines : List Text) (r : Range) : Prop :=
  ∃ (earlier : List Text) (last : Text), lines = earlier ++ [last] ∧
    r = ⟨⟨earlier.length, last.length⟩, ⟨earlier.length, last.length + 1⟩⟩

theorem tokenRange_of_standsAt {lines : List Text} {n : Nat} {before line : Text} {more : List Text}
    (here : lines.drop n = (before ++ line) :: more) :
    lines[n]? = some (before ++ line) ∧
      tokenRange lines ⟨n + 1, before.length + 1⟩ =
        ⟨⟨n, before.length⟩, ⟨n, before.length + tokenLength line⟩⟩ := by
  have found : lines[n]? = some (before ++ line) := by
    rw [← List.head?_drop, here, List.head?_cons]
  refine ⟨found, ?_⟩
  have row : (n + 1 : Int) - 1 = n := by omega
  have column : (before.length + 1 : Int) - 1 = before.length := by omega
  have text : restFrom (lineAt lines n) before.length = line := by
    change (lines.getD n []).drop before.length = line
    rw [List.getD_eq_getElem?_getD, found, Option.getD_some, List.drop_left]
  simp only [tokenRange, row, column, text]

/-- A lexeme or an illegal unit is covered by the range at its position. -/
theorem covers_of_standsAt {lines : List Text} {p : Position} {u : CodeUnit} {rest : Text}
    (stands : StandsAt lines p (u :: rest)) (shown : isShown (Segment.first u rest).1) :
    (tokenRange lines p).Covers lines (Segment.first u rest).1.text := by
  obtain ⟨n, before, line, more, rfl, found, here⟩ := stands
  have inside : u ≠ CodeUnit.newline := by
    rintro rfl
    cases shown
  obtain ⟨line', rfl, next⟩ := Text.lines_of_lines_cons inside found
  obtain ⟨same, whole⟩ := @Segment.first_of_lines u _ _ _ next
  obtain ⟨row, range⟩ := tokenRange_of_standsAt here
  rw [same] at shown ⊢
  refine ⟨n, before, (Segment.first u line').2, ?_, ?_⟩
  · rw [row, List.append_assoc, whole]
  · rw [range, tokenLength_first shown]

/-- At the end of the text the range is one character. -/
theorem atEnd_of_standsAt {lines : List Text} {p : Position} (stands : StandsAt lines p []) :
    (tokenRange lines p).AtEnd lines := by
  obtain ⟨n, before, line, more, rfl, found, here⟩ := stands
  obtain ⟨rfl, rfl⟩ := List.cons.inj (found.symm.trans (show Text.lines [] = [[]] from rfl))
  obtain ⟨row, range⟩ := tokenRange_of_standsAt here
  rw [List.append_nil] at here row
  refine ⟨lines.take n, before, ?_, ?_⟩
  · rw [← here, List.take_append_drop]
  · have short : (lines.take n).length = n := by
      have reached := (List.getElem?_eq_some_iff.mp row).1
      rw [List.length_take]
      omega
    rw [range, short]
    rfl

end Editor

end Cinder

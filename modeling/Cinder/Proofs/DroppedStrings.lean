import Cinder.Proofs.StringLiterals

/-!
# Ranges of dropped string literals

The scanner and the editor read what follows an opening quote each in its own way. They differ in
one point: a backslash that is the last unit of a line, or that stands before another end of a line
than a newline, belongs to the literal for the scanner, and for the editor the literal is over.
Main result: the mark of a literal that was dropped begins at its quote and goes to the end of what
was dropped, unless it is cut short at such a backslash.
-/
namespace Cinder

open Text (Item Items)

/-- Reading items after the opening quote, one comes to a backslash that escapes nothing but an end
of the line. What is before the first such backslash is `shown`. -/
def Text.CutShort (t shown : Text) : Prop :=
  ∃ items rest, Items (fun e => Editor.isLineEnd e = false) items ∧
    shown = CodeUnit.quote :: items ∧ t = shown ++ CodeUnit.backslash :: rest ∧
    ∀ e ∈ rest.head?, Editor.isLineEnd e = true

namespace Editor

/-! ## How far the editor reads -/

theorem stringLength_plain {u : CodeUnit} (notNewline : u ≠ CodeUnit.newline)
    (notQuote : u ≠ CodeUnit.quote) (notBackslash : u ≠ CodeUnit.backslash) (t : Text) :
    stringLength (u :: t) = 1 + stringLength t := by
  simp [stringLength.eq_def (u :: t), notNewline, notQuote, notBackslash]

theorem stringLength_escape {e : CodeUnit} (inLine : isLineEnd e = false) (t : Text) :
    stringLength (CodeUnit.backslash :: e :: t) = 2 + stringLength t := by
  have different : CodeUnit.backslash ≠ CodeUnit.newline ∧
    CodeUnit.backslash ≠ CodeUnit.quote := by decide
  simp [stringLength.eq_def (CodeUnit.backslash :: _), different, inLine]

theorem stringLength_backslash {t : Text} (ends : ∀ e ∈ t.head?, isLineEnd e = true) :
    stringLength (CodeUnit.backslash :: t) = 0 := by
  have different : CodeUnit.backslash ≠ CodeUnit.newline ∧
    CodeUnit.backslash ≠ CodeUnit.quote := by decide
  cases t with
  | nil => simp [stringLength, different]
  | cons e t => simp [stringLength.eq_def (CodeUnit.backslash :: _), different, ends e rfl]

theorem stringLength_items {items : Text} (read : Items (fun e => isLineEnd e = false) items)
    (t : Text) : stringLength (items ++ t) = items.length + stringLength t := by
  induction read with
  | nil => simp
  | cons first _ ih =>
    rw [List.append_assoc, List.length_append, Nat.add_assoc, ← ih]
    cases first with
    | plain notQuote notBackslash notNewline =>
      exact stringLength_plain notNewline notQuote notBackslash _
    | escape inLine => exact stringLength_escape inLine _

/-- The editor reads all that the scanner reads, or it stops at a backslash that escapes nothing but
an end of the line. -/
theorem stringLength_readString (t : Text) :
    stringLength t = (Segment.readString t).body.length ∨
      ∃ shown, Text.CutShort (CodeUnit.quote :: (Segment.readString t).body) shown := by
  fun_induction Segment.readString t with
  | case1 => exact .inl rfl
  | case2 rest => exact .inl (by simp [stringLength.eq_def (CodeUnit.newline :: _)])
  | case3 rest notNewline =>
    exact .inl (by simp [stringLength.eq_def (CodeUnit.quote :: _), notNewline])
  | case4 => exact .inr ⟨_, [], [], .nil, rfl, rfl, by simp⟩
  | case5 rest => exact .inr ⟨_, [], [], .nil, rfl, rfl, by simp⟩
  | case6 e rest notNewline reading _ _ ih =>
    cases inLine : isLineEnd e with
    | true => exact .inr ⟨_, [], e :: reading.body, .nil, rfl, rfl, by simp [inLine]⟩
    | false =>
      rcases ih with whole | ⟨_, items, more, read, rfl, cut, ends⟩
      · left
        rw [stringLength_escape inLine, whole, Nat.add_comm]
        rfl
      · right
        have body : reading.body = items ++ CodeUnit.backslash :: more := (List.cons.inj cut).2
        refine ⟨_, CodeUnit.backslash :: e :: items, more, ?_, rfl, ?_, ends⟩
        · exact .cons (.escape inLine) read
        · simp [body]
  | case7 u rest notNewline notQuote notBackslash reading ih =>
    rcases ih with whole | ⟨_, items, more, read, rfl, cut, ends⟩
    · left
      rw [stringLength_plain notNewline notQuote notBackslash, whole, Nat.add_comm]
      rfl
    · right
      have body : reading.body = items ++ CodeUnit.backslash :: more := (List.cons.inj cut).2
      refine ⟨_, u :: items, more, ?_, rfl, ?_, ends⟩
      · exact .cons (.plain notQuote notBackslash notNewline) read
      · simp [body]

/-- A backslash is the last unit that is read only if the line ends after it. -/
theorem head?_rest_of_backslash {t items : Text}
    (body : (Segment.readString t).body = items ++ [CodeUnit.backslash]) :
    ∀ e ∈ (Segment.readString t).rest.head?, isLineEnd e = true := by
  have unclosed : (Segment.readString t).closed = false := by
    rw [Bool.eq_false_iff]
    intro closed
    obtain ⟨others, -, same⟩ := Text.exists_items (Segment.closesQuote_readString closed)
    rw [body] at same
    have last := (List.append_inj' same rfl).2
    revert last
    decide
  have ends := Segment.atLineEnd_readString unclosed
  intro e mem
  rw [Text.atLineEnd, Option.all_eq_true] at ends
  obtain rfl : e = CodeUnit.newline := by simpa using ends e mem
  decide

theorem stringLength_of_cutShort {t shown : Text}
    (cut : Text.CutShort (CodeUnit.quote :: (Segment.readString t).body) shown) :
    1 + stringLength t = shown.length := by
  obtain ⟨items, rest, read, rfl, whole, ends⟩ := cut
  have body : (Segment.readString t).body = items ++ CodeUnit.backslash :: rest :=
    (List.cons.inj whole).2
  have stops : ∀ e ∈ (rest ++ (Segment.readString t).rest).head?, isLineEnd e = true := by
    cases rest with
    | nil => exact head?_rest_of_backslash body
    | cons e rest => exact ends
  have length : stringLength t = items.length := by
    rw [← Segment.body_append_rest t, body, List.append_assoc, List.cons_append,
      stringLength_items read, stringLength_backslash stops, Nat.add_zero]
  rw [length, List.length_cons, Nat.add_comm]

/-! ## Ranges -/

theorem tokenLength_quote (t : Text) : tokenLength (CodeUnit.quote :: t) = 1 + stringLength t := by
  have other : Segment.isWordStart CodeUnit.quote = false ∧ CodeUnit.quote.isDigit = false := by
    decide
  simp [tokenLength, other]

theorem Range.Covers.length_eq {lines : List Text} {r : Range} {piece other : Text}
    (covers : r.Covers lines piece) (covers' : r.Covers lines other) :
    piece.length = other.length := by
  obtain ⟨n, before, -, -, rfl⟩ := covers
  obtain ⟨m, before', -, -, same⟩ := covers'
  simp only [Range.mk.injEq, Spot.mk.injEq] at same
  omega

/-- The mark of a literal covers as much of it as the editor reads. -/
theorem covers_string {lines : List Text} {p : Position} {rest : Text}
    (stands : StandsAt lines p (CodeUnit.quote :: rest)) :
    let read := (Segment.first CodeUnit.quote rest).1.text
    let range := tokenRange lines p
    (range.Covers lines read ↔ ∀ shown, ¬ read.CutShort shown) ∧
      ∀ shown, read.CutShort shown → range.Covers lines shown := by
  intro read range
  obtain ⟨n, before, line, more, rfl, found, here⟩ := stands
  obtain ⟨line', rfl, next⟩ := Text.lines_of_lines_cons (by decide) found
  obtain ⟨same, whole⟩ := @Segment.first_of_lines CodeUnit.quote _ _ _ next
  obtain ⟨row, shape⟩ := tokenRange_of_standsAt here
  -- the scanner reads no further than the line, so both look at the same text
  have inLine : read = (Segment.first CodeUnit.quote line').1.text := congrArg Segment.text same
  have text : read = CodeUnit.quote :: (Segment.readString line').body :=
    inLine.trans (Segment.text_ofString _)
  rw [← inLine] at whole
  have covers : ∀ piece, piece <+: read → tokenLength (CodeUnit.quote :: line') = piece.length →
      range.Covers lines piece := by
    rintro piece ⟨after, split⟩ length
    refine ⟨n, before, after ++ (Segment.first CodeUnit.quote line').2, ?_, ?_⟩
    · rw [row, ← whole, ← split]
      simp
    · rw [show range = _ from shape, length]
  have cut : ∀ shown, read.CutShort shown → range.Covers lines shown := by
    intro shown short
    have length := short
    rw [text] at length
    obtain ⟨items, after, -, -, split, -⟩ := short
    refine covers shown ⟨_, split.symm⟩ ?_
    rw [tokenLength_quote, stringLength_of_cutShort length]
  refine ⟨⟨?_, ?_⟩, cut⟩
  · intro all shown short
    have length := all.length_eq (cut shown short)
    obtain ⟨items, after, -, -, split, -⟩ := short
    rw [split] at length
    simp at length
  · intro never
    refine covers read (List.prefix_refl read) ?_
    rw [text] at never
    rcases stringLength_readString line' with length | ⟨shown, short⟩
    · rw [tokenLength_quote, text, length, List.length_cons, Nat.add_comm]
    · exact absurd short (never shown)

/-! ## Reports of dropped literals -/

open Segment (Scanning)

theorem eq_quote_of_badString {u : CodeUnit} {rest t : Text} {flaw : StringFlaw}
    (bad : (Segment.first u rest).1 = .badString flaw t) : u = CodeUnit.quote := by
  unfold Segment.first at bad
  split_ifs at bad with newline blank comment start digit quote
  · exact quote
  · unfold Segment.readOperator Segment.readSingle at bad
    repeat' split at bad
    all_goals cases bad

/-- At every state of the scanner the editor finds what is left in its lines. -/
theorem standsAt_of_scanning {source before rest : Text} {tokens : List Token}
    {reports : List Diagnostic} (state : Scanning source before rest tokens reports) :
    StandsAt source.lines before.endPosition rest := by
  induction state with
  | start => exact .start source
  | @step before rest u tokens reports state ih =>
    rw [← Segment.after_of_fits (Segment.fits_first u rest)]
    exact ih.after

/-- A literal that is reported was dropped in some step of the scanner. -/
theorem exists_step_of_dropped {source before rest : Text} {tokens : List Token}
    {reports : List Diagnostic} {d : Diagnostic} {flaw : StringFlaw}
    (state : Scanning source before rest tokens reports)
    (mem : d ∈ (Scan.ofSegments before.endPosition (Segment.divide rest)).diagnostics)
    (dropped : d.problem = .droppedString flaw) :
    ∃ before rest tokens reports text,
      Scanning source before (CodeUnit.quote :: rest) tokens reports ∧
      (Segment.first CodeUnit.quote rest).1 = .badString flaw text ∧
      d = .error before.endPosition (.droppedString flaw) := by
  fun_induction Segment.divide rest generalizing before tokens reports with
  | case1 => cases mem
  | case2 u rest ih =>
    rcases List.mem_append.mp mem with here | later
    · rcases Segment.diagnostic?_cases (Option.mem_toList.mp here) with
        ⟨text, -, rfl⟩ | ⟨flaw', text, segment, rfl⟩ | ⟨v, -, rfl⟩
      · cases dropped
      · cases dropped
        obtain rfl := eq_quote_of_badString segment
        exact ⟨before, rest, tokens, reports, text, state, segment, rfl⟩
      · cases dropped
    · rw [Segment.after_of_fits (Segment.fits_first u rest)] at later
      exact ih state.step later

/-- Every text gets a document with a mark for each error of the scanner. If the error is about a
string literal, the scanner has dropped it in one step, and the mark begins at its opening quote. It
covers what was dropped exactly if the editor comes to no backslash that escapes nothing but an end
of the line; otherwise it covers what is before the first such backslash. -/
theorem dropped_strings_shown (text : Text) :
    ∃ later doc, Document.ofText text = .ok doc ∧
      doc.marks = (text.scan.diagnostics ++ later).map (mark text.lines) ∧
      ∀ d ∈ text.scan.diagnostics, ∀ flaw, d.problem = .droppedString flaw →
        ∃ before read left tokens reports,
          Scanning text before (read ++ left) tokens reports ∧
          Scanning text (before ++ read) left tokens (reports ++ [d]) ∧
          read.head? = some CodeUnit.quote ∧
          let range := (mark text.lines d).range
          range.start = ⟨before.endPosition.line - 1, before.endPosition.column - 1⟩ ∧
          (range.Covers text.lines read ↔ ∀ shown, ¬ read.CutShort shown) ∧
          ∀ shown, read.CutShort shown → range.Covers text.lines shown := by
  obtain ⟨later, doc, -, opened, shown, -⟩ := exists_document text
  refine ⟨later, doc, opened, shown, ?_⟩
  intro d mem flaw dropped
  obtain ⟨before, rest, tokens, reports, t, state, segment, rfl⟩ :=
    exists_step_of_dropped .start mem dropped
  have whole := Segment.text_append_first CodeUnit.quote rest
  have begins : (Segment.first CodeUnit.quote rest).1.text.head? = some CodeUnit.quote :=
    congrArg List.head? (Segment.text_ofString (Segment.readString rest))
  have next := state.step
  have covers := covers_string (standsAt_of_scanning state)
  rw [segment] at whole begins next covers
  refine ⟨before, t, (Segment.first CodeUnit.quote rest).2, tokens, reports, ?_, ?_, begins, rfl,
    covers⟩
  · rw [← whole] at state
    exact state
  · simpa [Segment.text, Segment.token?, Segment.diagnostic?] using next

/-- In `x "a\` with a carriage return before the newline the mark of the literal ends two units
before the newline. -/
theorem dropped_strings_shown_carriage_return :
    let text : Text := [120, 32, 34, 97, 92, 13, 10]
    let d := Diagnostic.error ⟨1, 3⟩ (.droppedString .unterminatedBadEscape)
    (d ∈ text.scan.diagnostics ∧ (mark text.lines d).range = ⟨⟨0, 2⟩, ⟨0, 4⟩⟩) ∧
      ∃ before read left tokens reports,
        Scanning text before (read ++ left) tokens reports ∧
        Scanning text (before ++ read) left tokens (reports ++ [d]) ∧
        ((mark text.lines d).range.Covers text.lines read ↔ ∀ shown, ¬ read.CutShort shown) := by
  intro text d
  have mem : d ∈ text.scan.diagnostics := by decide +kernel
  have range : (mark text.lines d).range = ⟨⟨0, 2⟩, ⟨0, 4⟩⟩ := by decide +kernel
  obtain ⟨later, doc, -, -, shown⟩ := dropped_strings_shown text
  obtain ⟨before, read, left, tokens, reports, state, next, -, -, covers, -⟩ :=
    shown d mem .unterminatedBadEscape rfl
  exact ⟨⟨mem, range⟩, before, read, left, tokens, reports, state, next, covers⟩

/-- All of `"a\` is dropped in one step, and the mark leaves the backslash out. -/
theorem dropped_string_not_covered :
    let text : Text := [34, 97, 92]
    let d := Diagnostic.error ⟨1, 1⟩ (.droppedString .unterminatedBadEscape)
    Scanning text [] (text ++ []) [] [] ∧ Scanning text ([] ++ text) [] [] ([] ++ [d]) ∧
      text.scan.diagnostics = [d] ∧ (mark text.lines d).range = ⟨⟨0, 0⟩, ⟨0, 2⟩⟩ ∧
      ¬ (mark text.lines d).range.Covers text.lines text := by
  intro text d
  have range : (mark text.lines d).range = ⟨⟨0, 0⟩, ⟨0, 2⟩⟩ := by decide +kernel
  refine ⟨.start, ?_, by decide +kernel, range, ?_⟩
  · exact @Scanning.step _ [] [97, 92] 34 _ _ .start
  · rw [range]
    rintro ⟨n, before, after, -, same⟩
    simp only [Range.mk.injEq, Spot.mk.injEq] at same
    have length : text.length = 3 := rfl
    omega

end Editor

end Cinder

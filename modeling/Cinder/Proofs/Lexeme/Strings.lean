import Cinder.Proofs.Lexeme

/-!
# String literals, well formed or not

What may follow an opening quote, stated without the scanner: whether a closing quote comes before the
end of the line, and whether each backslash on the way begins a valid escape. These two decide how a
string literal is read and how far.
-/
namespace Cinder

namespace Text

/-- What follows the opening quote of a literal that is closed: units other than a quote, a backslash
and a newline, and pairs of a backslash and any unit but a newline, then a quote. -/
def closesQuote : Text → Bool
  | [] => false
  | [u] => u = CodeUnit.quote
  | u :: v :: rest =>
    if u = CodeUnit.backslash then v ≠ CodeUnit.newline && closesQuote rest
    else u ≠ CodeUnit.newline && u ≠ CodeUnit.quote && closesQuote (v :: rest)

/-- Each backslash that is not itself escaped begins a valid escape. -/
def escapesWell : Text → Bool
  | [] => true
  | [u] => u ≠ CodeUnit.backslash
  | u :: v :: rest =>
    if u = CodeUnit.backslash then Segment.isEscape v && escapesWell rest
    else escapesWell (v :: rest)

/-- The line ends here. -/
def atLineEnd (t : Text) : Bool := t.head?.all (· = CodeUnit.newline)

theorem closesQuote_cons {u : CodeUnit} (notNewline : u ≠ CodeUnit.newline)
    (notQuote : u ≠ CodeUnit.quote) (notBackslash : u ≠ CodeUnit.backslash) (t : Text) :
    closesQuote (u :: t) = closesQuote t := by
  cases t with
  | nil => simp [closesQuote, notQuote]
  | cons v rest => simp [closesQuote, notNewline, notQuote, notBackslash]

theorem escapesWell_cons {u : CodeUnit} (notBackslash : u ≠ CodeUnit.backslash) (t : Text) :
    escapesWell (u :: t) = escapesWell t := by
  cases t with
  | nil => simp [escapesWell, notBackslash]
  | cons v rest => simp [escapesWell, notBackslash]

theorem isEscape_ne_newline {u : CodeUnit} (escape : Segment.isEscape u) :
    u ≠ CodeUnit.newline := by
  rintro rfl
  revert escape
  decide

/-- The body of a string literal is closed, and its escapes are valid. -/
theorem closesString_eq (t : Text) : t.closesString = (t.closesQuote && t.escapesWell) := by
  fun_induction closesString t with
  | case1 => rfl
  | case2 u =>
    by_cases quote : u = CodeUnit.quote
    · subst quote
      decide
    · simp [closesQuote, quote]
  | case3 v rest ih =>
    by_cases escape : Segment.isEscape v
    · simp [closesQuote, escapesWell, escape, ih, isEscape_ne_newline escape]
    · simp [escapesWell, escape]
  | case4 u v rest notBackslash ih =>
    simp [closesQuote, escapesWell, notBackslash, ih, Bool.and_assoc]

end Text

namespace Segment

variable {body rest : Text}

/-! ## What is read -/

theorem wellEscaped_readString (t : Text) :
    (readString t).wellEscaped = (readString t).body.escapesWell := by
  fun_induction readString t with
  | case6 e rest notNewline reading _ _ ih => simp [Text.escapesWell, ← ih, reading]
  | case7 u rest _ _ notBackslash reading ih =>
    rw [Text.escapesWell_cons notBackslash]
    exact ih
  | _ => rfl

theorem closesQuote_readString {t : Text} (closed : (readString t).closed) :
    (readString t).body.closesQuote := by
  fun_induction readString t with
  | case3 => rfl
  | case6 e rest notNewline reading _ _ ih =>
    simpa [Text.closesQuote, notNewline] using ih closed
  | case7 u rest notNewline notQuote notBackslash reading ih =>
    rw [Text.closesQuote_cons notNewline notQuote notBackslash]
    exact ih closed
  | _ => cases closed

theorem atLineEnd_readString {t : Text} (unclosed : (readString t).closed = false) :
    (readString t).rest.atLineEnd := by
  fun_induction readString t with
  | case3 => cases unclosed
  | case6 e rest notNewline reading _ _ ih => exact ih unclosed
  | case7 u rest notNewline notQuote notBackslash reading ih => exact ih unclosed
  | _ => simp_all [Text.atLineEnd]

/-! ## How it is read again -/

theorem readString_of_closesQuote (closes : body.closesQuote) (rest : Text) :
    readString (body ++ rest) = ⟨body, true, body.escapesWell, rest⟩ := by
  have different : CodeUnit.backslash ≠ CodeUnit.newline ∧ CodeUnit.backslash ≠ CodeUnit.quote ∧
    CodeUnit.quote ≠ CodeUnit.newline ∧ CodeUnit.quote ≠ CodeUnit.backslash := by decide
  fun_induction Text.closesQuote body with
  | case1 => cases closes
  | case2 u =>
    obtain rfl : u = CodeUnit.quote := by simpa using closes
    rw [List.singleton_append, readString.eq_def]
    simp [different, Text.escapesWell]
  | case3 v more ih =>
    obtain ⟨notNewline, closes⟩ : v ≠ CodeUnit.newline ∧ Text.closesQuote more := by
      simpa using closes
    simp [readString, ih closes, notNewline, different, Text.escapesWell]
  | case4 u v more notBackslash ih =>
    obtain ⟨⟨notNewline, notQuote⟩, closes⟩ :
        (u ≠ CodeUnit.newline ∧ u ≠ CodeUnit.quote) ∧ Text.closesQuote (v :: more) := by
      simpa using closes
    have inner : readString (v :: (more ++ rest)) = _ := ih closes
    rw [List.cons_append, List.cons_append, readString.eq_def]
    simp [inner, notNewline, notQuote, notBackslash, Text.escapesWell_cons]

theorem ne_quote_of_unclosed {u : CodeUnit}
    (unclosed : ∀ part : Text, part <+: u :: rest → part.closesQuote = false) :
    u ≠ CodeUnit.quote := by
  rintro rfl
  simpa [Text.closesQuote] using unclosed [CodeUnit.quote] ⟨rest, rfl⟩

/-- A line without a closing quote is read to its end. -/
theorem readString_of_unclosed (unclosed : ∀ part : Text, part <+: body → part.closesQuote = false)
    (inLine : CodeUnit.newline ∉ body) (ends : rest.atLineEnd) :
    readString (body ++ rest) = ⟨body, false, body.escapesWell, rest⟩ := by
  have different : CodeUnit.backslash ≠ CodeUnit.newline ∧
    CodeUnit.backslash ≠ CodeUnit.quote := by decide
  have stop : readString rest = ⟨[], false, true, rest⟩ := by
    cases rest with
    | nil => rfl
    | cons v more =>
      obtain rfl : v = CodeUnit.newline := by simpa [Text.atLineEnd] using ends
      simp [readString.eq_def]
  fun_induction Text.escapesWell body with
  | case1 => simpa using stop
  | case2 u =>
    have notNewline : u ≠ CodeUnit.newline := by
      rintro rfl
      simp at inLine
    by_cases backslash : u = CodeUnit.backslash
    · subst backslash
      cases rest with
      | nil => simp [readString, different]
      | cons v more =>
        obtain rfl : v = CodeUnit.newline := by simpa [Text.atLineEnd] using ends
        simp [readString, different]
    · rw [List.singleton_append, readString.eq_def]
      simp [notNewline, ne_quote_of_unclosed unclosed, backslash, stop]
  | case3 v more ih =>
    obtain ⟨notNewline, inLine⟩ : v ≠ CodeUnit.newline ∧ CodeUnit.newline ∉ more := by
      simp only [List.mem_cons, not_or] at inLine
      exact ⟨Ne.symm inLine.2.1, inLine.2.2⟩
    have unclosed' : ∀ part : Text, part <+: more → part.closesQuote = false := by
      rintro part ⟨after, rfl⟩
      simpa [Text.closesQuote, notNewline] using
        unclosed (CodeUnit.backslash :: v :: part) ⟨after, rfl⟩
    simp [readString, ih unclosed' inLine, notNewline, different]
  | case4 u v more notBackslash ih =>
    obtain ⟨notNewline, inLine⟩ : u ≠ CodeUnit.newline ∧ CodeUnit.newline ∉ v :: more := by
      rw [List.mem_cons, not_or] at inLine
      exact ⟨Ne.symm inLine.1, inLine.2⟩
    have notQuote := ne_quote_of_unclosed unclosed
    have unclosed' : ∀ part : Text, part <+: v :: more → part.closesQuote = false := by
      rintro part ⟨after, same⟩
      rw [← Text.closesQuote_cons notNewline notQuote notBackslash]
      exact unclosed (u :: part) ⟨after, by rw [List.cons_append, same]⟩
    have inner : readString (v :: (more ++ rest)) = _ := ih unclosed' inLine
    rw [List.cons_append, List.cons_append, readString.eq_def]
    simp [inner, notNewline, notQuote, notBackslash]

/-- What was read of a literal that is not closed has no closed part. -/
theorem unclosed_readString {t : Text} (unclosed : (readString t).closed = false) :
    ∀ part : Text, part <+: (readString t).body → part.closesQuote = false := by
  rintro part ⟨more, same⟩
  refine Bool.eq_false_iff.mpr fun closes => ?_
  have whole : part ++ (more ++ (readString t).rest) = t := by
    rw [← List.append_assoc, same, body_append_rest]
  have closed := congrArg StringReading.closed
    (readString_of_closesQuote closes (more ++ (readString t).rest))
  rw [whole, unclosed] at closed
  cases closed

end Segment

end Cinder

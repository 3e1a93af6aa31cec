import Cinder.Proofs.Lexeme.Strings
import Cinder.Proofs.Lines
import Mathlib.Data.List.Basic

/-!
# Scanning partitions the source

Which divisions of a text into segments are right, stated without the scanner: each segment is of its
kind, and nothing after it would make it longer. A text has exactly one such division, and the tokens
and diagnostics of a scan are those of its segments, from left to right, each at the position where its
segment begins.
-/
namespace Cinder

namespace Text

/-- The operators and marks. -/
def operators : List Text :=
  ["<<", ">>", "++", "--", "&&", "||", "==", "!=", "<=", ">=", "\x7b", "\x7d", "(", ")", ";", ",",
    ".", "+", "-", "*", "/", "!", "<", ">", "="]

def isOperator (t : Text) : Bool := operators.contains t

/-- A text of a class that cannot be continued within what follows it. -/
def Longest (isInClass : Text → Bool) (t rest : Text) : Prop :=
  isInClass t ∧ ∀ more, more <+: rest → isInClass (t ++ more) → more = []

/-- The position after a text: past its newlines, and past what follows the last of them. -/
def endPosition (t : Text) : Position :=
  ⟨1 + t.count CodeUnit.newline, 1 + (t.reverse.takeWhile (· != CodeUnit.newline)).length⟩

end Text

namespace Segment

/-- What a segment has to be, given the text after it. -/
inductive Fits : Segment → Text → Prop where
  | newline {rest : Text} : Fits newline rest
  /-- A space, a tab or a carriage return. -/
  | blank {u : CodeUnit} {rest : Text} (blank : u = 32 ∨ u = 9 ∨ u = 13) : Fits (.blank u) rest
  | comment {t rest : Text} (opens : Text.ofString "#" <+: t ∨ Text.ofString "//" <+: t)
      (inLine : CodeUnit.newline ∉ t) (ends : rest.atLineEnd) : Fits (.comment t) rest
  | keyword {kind : Kind} {t rest : Text} (longest : t.Longest Text.isWord rest)
      (reserved : t = kind.spelling) : Fits (.lexeme kind t) rest
  | name {t rest : Text} (longest : t.Longest Text.isWord rest)
      (free : ∀ kind : Kind, t ≠ kind.spelling) : Fits (.lexeme .identifier t) rest
  | number {t rest : Text} (longest : t.Longest Text.isDigits rest) :
      Fits (.lexeme .intLiteral t) rest
  | operator {kind : Kind} {t rest : Text} (longest : t.Longest Text.isOperator rest)
      (listed : t = kind.spelling) (apart : ¬ Text.ofString "//" <+: t ++ rest) :
      Fits (.lexeme kind t) rest
  | string {t rest : Text} (literal : t.isStringLiteral) : Fits (.lexeme .stringLiteral t) rest
  | badEscape {body rest : Text} (closes : body.closesQuote) (bad : body.escapesWell = false) :
      Fits (.badString .badEscape (CodeUnit.quote :: body)) rest
  /-- The literal runs to the end of its line. -/
  | unterminated {body rest : Text}
      (unclosed : ∀ part : Text, part <+: body → part.closesQuote = false)
      (inLine : CodeUnit.newline ∉ body) (ends : rest.atLineEnd) :
      Fits (.badString (if body.escapesWell then .unterminated else .unterminatedBadEscape)
        (CodeUnit.quote :: body)) rest
  /-- A unit that begins none of the others. -/
  | illegal {u : CodeUnit} {rest : Text}
      (other : u ∉ [CodeUnit.newline, 32, 9, 13, 35, CodeUnit.quote])
      (word : isWordStart u = false) (digit : u.isDigit = false)
      (stray : ∀ t : Text, t <+: u :: rest → t.isOperator = false) : Fits (.illegal u) rest

/-- What a segment at a position gives rise to: at most one token and one diagnostic. -/
inductive Gives (p : Position) : Segment → List Token → List Diagnostic → Prop where
  | newline : Gives p newline [] []
  | blank (u : CodeUnit) : Gives p (.blank u) [] []
  | comment (t : Text) : Gives p (.comment t) [] []
  | number {t : Text} (small : t.decimal ≤ 2147483647) :
      Gives p (.lexeme .intLiteral t) [⟨.intLiteral, t, p, some t.decimal⟩] []
  | tooLarge {t : Text} (large : 2147483647 < t.decimal) :
      Gives p (.lexeme .intLiteral t) [⟨.intLiteral, t, p, some 2147483647⟩]
        [.warning p .integerTooLarge]
  | lexeme {kind : Kind} (other : kind ≠ .intLiteral) (t : Text) :
      Gives p (.lexeme kind t) [⟨kind, t, p, none⟩] []
  | badString (flaw : StringFlaw) (t : Text) :
      Gives p (.badString flaw t) [] [.error p (.droppedString flaw)]
  | illegal (u : CodeUnit) : Gives p (.illegal u) [] [.error p (.illegalCharacter u)]

/-- The tokens and diagnostics of segments that follow a text and make up the rest of the source. -/
inductive Scanned : Text → List Segment → List Token → List Diagnostic → Prop where
  | stop (before : Text) : Scanned before [] [⟨.endOfInput, [], before.endPosition, none⟩] []
  | step {before : Text} {s : Segment} {rest : List Segment} {tokens later : List Token}
      {reports others : List Diagnostic} (fits : s.Fits (rest.flatMap text))
      (gives : s.Gives before.endPosition tokens reports)
      (next : Scanned (before ++ s.text) rest later others) :
      Scanned before (s :: rest) (tokens ++ later) (reports ++ others)

/-! ## Longest lexemes -/

variable {t rest : Text}

/-- A class whose members are continued unit by unit. -/
theorem longest_iff {isInClass : Text → Bool} {p : CodeUnit → Bool} (inside : isInClass t)
    (continued : ∀ more, isInClass (t ++ more) = more.all p) :
    t.Longest isInClass rest ↔ rest.head?.all (!p ·) := by
  constructor
  · rintro ⟨-, longest⟩
    cases rest with
    | nil => rfl
    | cons v rest =>
      cases part : p v with
      | false => simp [part]
      | true => cases longest [v] ⟨rest, rfl⟩ (by simp [continued, part])
  · intro outside
    refine ⟨inside, fun more parts member => ?_⟩
    cases more with
    | nil => rfl
    | cons v more =>
      obtain ⟨after, rfl⟩ := parts
      simp_all

theorem longest_word_iff (word : t.isWord) :
    t.Longest Text.isWord rest ↔ rest.head?.all (!isWordPart ·) := by
  refine longest_iff word fun more => ?_
  cases t with
  | nil => cases word
  | cons u t =>
    obtain ⟨start, inside⟩ := Bool.and_eq_true_iff.mp word
    simp [Text.isWord, start, inside]

theorem longest_digits_iff (digits : t.isDigits) :
    t.Longest Text.isDigits rest ↔ rest.head?.all (!CodeUnit.isDigit ·) := by
  refine longest_iff digits fun more => ?_
  cases t with
  | nil => cases digits
  | cons u t => simp_all [Text.isDigits]

theorem isOperator_iff : t.isOperator ↔ ∃ kind, (t, kind) ∈ Kind.doubles ++ Kind.singles := by
  have listed : Text.operators = (Kind.doubles ++ Kind.singles).map Prod.fst := rfl
  simp [Text.isOperator, listed, exists_or]

/-- The reserved words of the scanner are the kinds that are spelled as words. -/
theorem mem_keywords_iff {kind : Kind} (word : t.isWord) :
    (t, kind) ∈ Kind.keywords ↔ t = kind.spelling := by
  constructor
  · have all : ∀ entry ∈ Kind.keywords, entry.1 = entry.2.spelling := by decide
    exact all (t, kind)
  · rintro rfl
    have all : kind.spelling.isWord → (kind.spelling, kind) ∈ Kind.keywords := by
      cases kind <;> decide
    exact all word

theorem mem_operators_iff {kind : Kind} (operator : t.isOperator) :
    (t, kind) ∈ Kind.doubles ++ Kind.singles ↔ t = kind.spelling := by
  constructor
  · have all : ∀ entry ∈ Kind.doubles ++ Kind.singles, entry.1 = entry.2.spelling := by decide
    exact all (t, kind)
  · rintro rfl
    have all : kind.spelling.isOperator →
        (kind.spelling, kind) ∈ Kind.doubles ++ Kind.singles := by
      cases kind <;> decide
    exact all operator

theorem isMark_iff {u : CodeUnit} :
    isMark u ↔ u ∉ [CodeUnit.newline, 32, 9, 13, 35, CodeUnit.quote] ∧ isWordStart u = false ∧
      u.isDigit = false := by
  simp [isMark, isBlank]
  tauto

theorem lookup_eq_none_iff {entries : List (Text × Kind)} :
    entries.lookup t = none ↔ ∀ kind, (t, kind) ∉ entries := by
  rw [List.lookup_eq_none_iff]
  constructor
  · intro different kind mem
    simpa using different (t, kind) mem
  · rintro absent ⟨other, kind⟩ mem
    have : t ≠ other := fun same => absent kind (same ▸ mem)
    simpa using this

/-- The operators that a text can begin with. -/
theorem operator_cases {u : CodeUnit} (operator : t.isOperator) (parts : t <+: u :: rest) :
    t = [u] ∧ (∃ kind, ([u], kind) ∈ Kind.singles) ∨
      ∃ v more, rest = v :: more ∧ t = [u, v] ∧ ∃ kind, ([u, v], kind) ∈ Kind.doubles := by
  have lengths : (∀ entry ∈ Kind.doubles, entry.1.length = 2) ∧
      ∀ entry ∈ Kind.singles, entry.1.length = 1 := by decide
  obtain ⟨kind, mem⟩ := isOperator_iff.mp operator
  obtain ⟨after, same⟩ := parts
  rcases List.mem_append.mp mem with double | single
  · obtain ⟨v, w, rfl⟩ := List.length_eq_two.mp (lengths.1 _ double)
    cases same
    exact .inr ⟨w, after, rfl, rfl, kind, double⟩
  · obtain ⟨v, rfl⟩ := List.length_eq_one_iff.mp (lengths.2 _ single)
    cases same
    exact .inl ⟨rfl, kind, single⟩

/-! ## The segments that are found fit -/

theorem atLineEnd_dropWhile (t : Text) :
    Text.atLineEnd (t.dropWhile (· != CodeUnit.newline)) := by
  have stops := List.head?_dropWhile_not (· != CodeUnit.newline) t
  cases found : (t.dropWhile (· != CodeUnit.newline)).head? with
  | none => simp [Text.atLineEnd, found]
  | some u => simpa [Text.atLineEnd, found] using stops

theorem head?_dropWhile_all (p : CodeUnit → Bool) (t : Text) :
    (t.dropWhile p).head?.all (!p ·) := by
  have stops := List.head?_dropWhile_not p t
  cases found : (t.dropWhile p).head? with
  | none => rfl
  | some u => simpa [found] using stops

theorem first_of_comment {u : CodeUnit}
    (opens : u = 35 ∨ u = CodeUnit.slash ∧ rest.head? = some CodeUnit.slash) :
    first u rest = (.comment (u :: rest.takeWhile (· != CodeUnit.newline)),
      rest.dropWhile (· != CodeUnit.newline)) := by
  have others : u ≠ CodeUnit.newline ∧ isBlank u = false := by
    rcases opens with rfl | ⟨rfl, -⟩ <;> decide
  simp [first, others, opens]

theorem fits_comment {u : CodeUnit} (inside : u ≠ CodeUnit.newline)
    (opens : u = 35 ∨ u = CodeUnit.slash ∧ rest.head? = some CodeUnit.slash) :
    Fits (.comment (u :: rest.takeWhile (· != CodeUnit.newline)))
      (rest.dropWhile (· != CodeUnit.newline)) := by
  refine .comment ?_ ?_ (atLineEnd_dropWhile rest)
  · rcases opens with rfl | ⟨rfl, next⟩
    · exact .inl ⟨_, rfl⟩
    · cases rest with
      | nil => cases next
      | cons v rest =>
        cases next
        exact .inr ⟨_, rfl⟩
  · intro mem
    rcases List.mem_cons.mp mem with here | later
    · exact inside here.symm
    · simpa using List.all_eq_true.mp List.all_takeWhile _ later

theorem fits_word {u : CodeUnit} (start : isWordStart u) :
    Fits (.lexeme (Kind.ofWord (u :: rest.takeWhile isWordPart)) (u :: rest.takeWhile isWordPart))
      (rest.dropWhile isWordPart) := by
  have word : Text.isWord (u :: rest.takeWhile isWordPart) := by simp [Text.isWord, start]
  have longest := (longest_word_iff word).mpr (head?_dropWhile_all isWordPart rest)
  rw [Kind.ofWord]
  cases found : Kind.keywords.lookup (u :: rest.takeWhile isWordPart) with
  | none =>
    refine .name longest fun kind reserved => ?_
    exact lookup_eq_none_iff.mp found kind ((mem_keywords_iff word).mpr reserved)
  | some kind => exact .keyword longest ((mem_keywords_iff word).mp (Kind.mem_of_lookup found))

theorem fits_number {u : CodeUnit} (digit : u.isDigit) :
    Fits (.lexeme .intLiteral (u :: rest.takeWhile CodeUnit.isDigit))
      (rest.dropWhile CodeUnit.isDigit) := by
  have digits : Text.isDigits (u :: rest.takeWhile CodeUnit.isDigit) := by
    simp [Text.isDigits, digit]
  exact .number ((longest_digits_iff digits).mpr (head?_dropWhile_all CodeUnit.isDigit rest))

theorem fits_string (inLine : CodeUnit.newline ∉ (ofString (readString t)).text) :
    Fits (ofString (readString t)) (readString t).rest := by
  have escaped := wellEscaped_readString t
  rw [text_ofString, List.mem_cons, not_or] at inLine
  cases closed : (readString t).closed with
  | true =>
    have closes := closesQuote_readString closed
    cases good : (readString t).wellEscaped with
    | true =>
      have literal : Text.isStringLiteral (CodeUnit.quote :: (readString t).body) := by
        simp [Text.isStringLiteral, Text.closesString_eq, closes, ← escaped, good]
      simpa [ofString, closed, good] using Fits.string literal
    | false =>
      simpa [ofString, closed, good] using Fits.badEscape closes (escaped.symm.trans good)
  | false =>
    have fits := Fits.unterminated (unclosed_readString closed) inLine.2
      (atLineEnd_readString closed)
    rw [← escaped] at fits
    cases good : (readString t).wellEscaped <;> simpa [ofString, closed, good] using fits

theorem fits_readSingle {u : CodeUnit} (marks : isMark u)
    (apart : ¬ Text.ofString "//" <+: u :: rest)
    (short : ∀ v more kind, rest = v :: more → ([u, v], kind) ∉ Kind.doubles) :
    Fits (readSingle u rest).1 (readSingle u rest).2 := by
  have only : ∀ t : Text, t.isOperator → t <+: u :: rest →
      t = [u] ∧ ∃ kind, ([u], kind) ∈ Kind.singles := by
    intro t operator parts
    rcases operator_cases operator parts with single | ⟨v, more, next, rfl, kind, double⟩
    · exact single
    · exact absurd double (short v more kind next)
  rw [readSingle]
  cases found : Kind.singles.lookup [u] with
  | none =>
    obtain ⟨other, word, digit⟩ := isMark_iff.mp marks
    refine .illegal other word digit fun t parts => Bool.eq_false_iff.mpr fun operator => ?_
    obtain ⟨-, kind, single⟩ := only t operator parts
    exact lookup_eq_none_iff.mp found kind single
  | some kind =>
    have listed := List.mem_append_right Kind.doubles (Kind.mem_of_lookup found)
    have operator := isOperator_iff.mpr ⟨kind, listed⟩
    refine .operator ⟨operator, ?_⟩ ((mem_operators_iff operator).mp listed) apart
    rintro more ⟨after, rfl⟩ operator
    simpa using (only _ operator ⟨after, rfl⟩).1

theorem fits_readOperator {u : CodeUnit} (marks : isMark u)
    (apart : ¬ (u = CodeUnit.slash ∧ rest.head? = some CodeUnit.slash)) :
    Fits (readOperator u rest).1 (readOperator u rest).2 := by
  have apart' : ¬ Text.ofString "//" <+: u :: rest := by
    rintro ⟨after, same⟩
    cases same
    exact apart ⟨rfl, rfl⟩
  cases rest with
  | nil => exact fits_readSingle marks apart' (by simp)
  | cons v more =>
    rw [readOperator]
    cases found : Kind.doubles.lookup [u, v] with
    | none =>
      refine fits_readSingle marks apart' ?_
      rintro _ _ kind ⟨⟩
      exact lookup_eq_none_iff.mp found kind
    | some kind =>
      have listed := List.mem_append_left Kind.singles (Kind.mem_of_lookup found)
      have operator := isOperator_iff.mpr ⟨kind, listed⟩
      refine .operator ⟨operator, ?_⟩ ((mem_operators_iff operator).mp listed) apart'
      rintro longer ⟨after, rfl⟩ operator
      rcases operator_cases operator ⟨after, rfl⟩ with ⟨same, -⟩ | ⟨_, _, _, same, -⟩
      · cases same
      · exact (List.cons.inj (List.cons.inj same).2).2

/-- The first segment of a text fits. -/
theorem fits_first (u : CodeUnit) (rest : Text) : Fits (first u rest).1 (first u rest).2 := by
  by_cases newline : u = CodeUnit.newline
  · simpa [first, newline] using Fits.newline
  have inLine := newline_notMem_text newline rest
  by_cases blank : isBlank u
  · have listed : u = 32 ∨ u = 9 ∨ u = 13 := by simpa [isBlank, or_assoc] using blank
    simpa [first, newline, blank] using Fits.blank listed
  by_cases opens : u = 35 ∨ u = CodeUnit.slash ∧ rest.head? = some CodeUnit.slash
  · simpa [first_of_comment opens] using fits_comment newline opens
  by_cases start : isWordStart u
  · simpa [first_of_isWordStart start] using fits_word start
  by_cases digit : u.isDigit
  · simpa [first_of_isDigit digit] using fits_number digit
  by_cases quote : u = CodeUnit.quote
  · subst quote
    exact fits_string inLine
  · rw [not_or] at opens
    have marks : isMark u := by simp [isMark, newline, blank, start, digit, quote, opens.1]
    rw [first_of_isMark marks opens.2]
    exact fits_readOperator marks opens.2

/-! ## The segments that fit are found -/

theorem divide_comment (opens : Text.ofString "#" <+: t ∨ Text.ofString "//" <+: t)
    (inLine : CodeUnit.newline ∉ t) (ends : rest.atLineEnd) :
    divide (t ++ rest) = comment t :: divide rest := by
  cases t with
  | nil => simp [Text.ofString, Text.ofChar] at opens
  | cons u t =>
    have inside : t.all (· != CodeUnit.newline) := by
      refine List.all_eq_true.mpr fun v mem => ?_
      have : v ≠ CodeUnit.newline := fun same => inLine (same ▸ List.mem_cons_of_mem u mem)
      simpa using this
    have outside : rest.head?.all fun u => !(u != CodeUnit.newline) := by
      cases rest <;> simp_all [Text.atLineEnd]
    obtain ⟨taken, left⟩ := takeWhile_append_of_all inside outside
    have opens' : u = 35 ∨ u = CodeUnit.slash ∧ (t ++ rest).head? = some CodeUnit.slash := by
      rcases opens with ⟨after, same⟩ | ⟨after, same⟩
      · cases same
        exact .inl rfl
      · cases same
        exact .inr ⟨rfl, rfl⟩
    apply divide_of_first
    rw [first_of_comment opens', taken, left]

theorem endsBefore_word (word : t.isWord) : endsBefore t = (!isWordPart ·) := by
  cases t with
  | nil => cases word
  | cons u t =>
    funext v
    simp [endsBefore, (Bool.and_eq_true_iff.mp word).1]

theorem endsBefore_digits (digits : t.isDigits) : endsBefore t = (!CodeUnit.isDigit ·) := by
  cases t with
  | nil => cases digits
  | cons u t =>
    have digit : u.isDigit := by simp_all [Text.isDigits]
    funext v
    simp [endsBefore, isWordStart_of_isDigit digit, digit]

theorem divide_longest_word (longest : t.Longest Text.isWord rest) :
    divide (t ++ rest) = lexeme (Kind.ofWord t) t :: divide rest := by
  refine divide_word longest.1 ?_
  rw [endsBefore_word longest.1]
  exact (longest_word_iff longest.1).mp longest

theorem divide_keyword {kind : Kind} (longest : t.Longest Text.isWord rest)
    (reserved : t = kind.spelling) : divide (t ++ rest) = lexeme kind t :: divide rest := by
  have kinds : ∀ entry ∈ Kind.keywords, Kind.ofWord entry.1 = entry.2 := by decide
  have listed := (mem_keywords_iff longest.1).mpr reserved
  rw [divide_longest_word longest, kinds _ listed]

theorem divide_name (longest : t.Longest Text.isWord rest)
    (free : ∀ kind : Kind, t ≠ kind.spelling) :
    divide (t ++ rest) = lexeme .identifier t :: divide rest := by
  have absent : Kind.keywords.lookup t = none := by
    refine lookup_eq_none_iff.mpr fun kind reserved => ?_
    exact free kind ((mem_keywords_iff longest.1).mp reserved)
  rw [divide_longest_word longest, Kind.ofWord, absent]
  rfl

theorem divide_number (longest : t.Longest Text.isDigits rest) :
    divide (t ++ rest) = lexeme .intLiteral t :: divide rest := by
  refine divide_digits longest.1 ?_
  rw [endsBefore_digits longest.1]
  exact (longest_digits_iff longest.1).mp longest

theorem divide_operator {kind : Kind} (longest : t.Longest Text.isOperator rest)
    (listed : t = kind.spelling) (apart : ¬ Text.ofString "//" <+: t ++ rest) :
    divide (t ++ rest) = lexeme kind t :: divide rest := by
  have listed := (mem_operators_iff longest.1).mpr listed
  rcases List.mem_append.mp listed with double | single
  · exact divide_double double rest
  · refine divide_single single ?_
    obtain ⟨u, rfl, marks, -⟩ := exists_of_mem_singles single
    cases rest with
    | nil => rfl
    | cons v more =>
      have short : Kind.doubles.lookup [u, v] = none := by
        refine lookup_eq_none_iff.mpr fun kind double => ?_
        cases longest.2 [v] ⟨more, rfl⟩
          (isOperator_iff.mpr ⟨kind, List.mem_append_left _ double⟩)
      have apart' : ¬ (u = CodeUnit.slash ∧ v = CodeUnit.slash) := by
        rintro ⟨rfl, rfl⟩
        exact apart ⟨more, rfl⟩
      simp only [isMark, Bool.and_eq_true, decide_eq_true_eq, Bool.not_eq_true'] at marks
      simpa [endsBefore, marks, short] using not_and_or.mp apart'

theorem divide_of_readString {body : Text} {closed wellEscaped : Bool}
    (read : readString (body ++ rest) = ⟨body, closed, wellEscaped, rest⟩) :
    divide (CodeUnit.quote :: body ++ rest) =
      ofString ⟨body, closed, wellEscaped, rest⟩ :: divide rest := by
  apply divide_of_first
  change (ofString (readString (body ++ rest)), (readString (body ++ rest)).rest) = _
  rw [read]

theorem divide_illegal {u : CodeUnit} (marks : isMark u)
    (stray : ∀ t : Text, t <+: u :: rest → t.isOperator = false) :
    divide (u :: rest) = illegal u :: divide rest := by
  have absent : ∀ t : Text, t <+: u :: rest → ∀ kind, (t, kind) ∉ Kind.doubles ++ Kind.singles := by
    intro t parts kind listed
    have operator := isOperator_iff.mpr ⟨kind, listed⟩
    rw [stray t parts] at operator
    cases operator
  have single : readSingle u = (illegal u, ·) := by
    have none : Kind.singles.lookup [u] = none := lookup_eq_none_iff.mpr fun kind mem =>
      absent [u] ⟨rest, rfl⟩ kind (List.mem_append_right _ mem)
    funext rest
    rw [readSingle, none]
  refine @divide_of_first u [] rest (illegal u) ?_
  rw [List.nil_append, first_of_isMark marks]
  · cases rest with
    | nil => rw [readOperator, single]
    | cons v more =>
      have none : Kind.doubles.lookup [u, v] = none := lookup_eq_none_iff.mpr fun kind mem =>
        absent [u, v] ⟨more, rfl⟩ kind (List.mem_append_left _ mem)
      rw [readOperator, none, single]
  · -- A slash is an operator itself.
    rintro ⟨rfl, -⟩
    exact absent [CodeUnit.slash] ⟨rest, rfl⟩ .divide (by decide)

/-- A segment that fits is the first that is found. -/
theorem divide_of_fits {s : Segment} (fits : s.Fits rest) :
    divide (s.text ++ rest) = s :: divide rest := by
  cases fits with
  | newline => exact @divide_of_first CodeUnit.newline [] rest newline rfl
  | @blank u _ blank =>
    refine @divide_of_first u [] rest (.blank u) ?_
    rcases blank with rfl | rfl | rfl <;> rfl
  | comment opens inLine ends => exact divide_comment opens inLine ends
  | keyword longest reserved => exact divide_keyword longest reserved
  | name longest free => exact divide_name longest free
  | number longest => exact divide_number longest
  | operator longest listed apart => exact divide_operator longest listed apart
  | string literal => exact divide_string literal rest
  | @badEscape body _ closes bad =>
    have read := readString_of_closesQuote closes rest
    rw [bad] at read
    exact divide_of_readString read
  | @unterminated body _ unclosed inLine ends =>
    have divided := divide_of_readString (readString_of_unclosed unclosed inLine ends)
    cases good : body.escapesWell <;> simpa [ofString, text, good] using divided
  | illegal other word digit stray =>
    exact divide_illegal (isMark_iff.mpr ⟨other, word, digit⟩) stray

theorem exists_first_of_fits {s : Segment} (fits : s.Fits rest) :
    ∃ u more, s = (first u more).1 := by
  have divided := divide_of_fits fits
  cases whole : s.text ++ rest with
  | nil =>
    rw [whole, divide] at divided
    cases divided
  | cons u more =>
    rw [whole, divide] at divided
    exact ⟨u, more, (List.cons.inj divided).1.symm⟩

theorem text_ne_nil_of_fits {s : Segment} (fits : s.Fits rest) : s.text ≠ [] := by
  obtain ⟨u, more, rfl⟩ := exists_first_of_fits fits
  exact first_text_ne_nil u more

/-- No segment reaches over a newline. -/
theorem eq_newline_of_fits {s : Segment} (fits : s.Fits rest) (mem : CodeUnit.newline ∈ s.text) :
    s = newline := by
  obtain ⟨u, more, rfl⟩ := exists_first_of_fits fits
  by_cases here : u = CodeUnit.newline
  · rw [first, if_pos here]
  · exact absurd mem (newline_notMem_text here more)

/-! ## Positions -/

theorem endPosition_append_newline (before : Text) :
    (before ++ [CodeUnit.newline]).endPosition = before.endPosition.nextLine := by
  simp [Text.endPosition, Position.nextLine, Int.add_assoc]

theorem endPosition_append {t : Text} (inLine : CodeUnit.newline ∉ t) (before : Text) :
    (before ++ t).endPosition = before.endPosition.right t.length := by
  have inside : ∀ u ∈ t.reverse, u != CodeUnit.newline := by
    intro u mem
    have : u ≠ CodeUnit.newline := fun same => inLine (same ▸ List.mem_reverse.mp mem)
    simpa using this
  rw [Text.endPosition, Text.endPosition, List.count_append, List.count_eq_zero.mpr inLine,
    List.reverse_append, List.takeWhile_append_of_pos inside]
  simp [Position.right]
  omega

theorem after_of_fits {s : Segment} (fits : s.Fits rest) (before : Text) :
    s.after before.endPosition = (before ++ s.text).endPosition := by
  by_cases newline : s = newline
  · subst newline
    exact (endPosition_append_newline before).symm
  · have inLine : CodeUnit.newline ∉ s.text := fun mem => newline (eq_newline_of_fits fits mem)
    rw [endPosition_append inLine]
    cases s with
    | newline => exact absurd rfl newline
    | _ => rfl

/-! ## What the segments give rise to -/

theorem gives_number {p : Position} :
    Gives p (.lexeme .intLiteral t) ((lexeme .intLiteral t).token? p).toList
      ((lexeme .intLiteral t).diagnostic? p).toList := by
  simp only [token?, diagnostic?, isTooLarge, maxInt, Option.toList_some]
  by_cases large : 2147483647 < t.decimal
  · rw [Nat.min_eq_right (Nat.le_of_lt large)]
    simpa [large] using Gives.tooLarge large
  · rw [Nat.min_eq_left (Nat.le_of_not_lt large)]
    simpa [large] using Gives.number (Nat.le_of_not_lt large)

/-- Every segment gives rise to something. -/
theorem gives_self (s : Segment) (p : Position) :
    s.Gives p (s.token? p).toList (s.diagnostic? p).toList := by
  cases s with
  | newline => exact .newline
  | blank u => exact .blank u
  | comment t => exact .comment t
  | badString flaw t => exact .badString flaw t
  | illegal u => exact .illegal u
  | lexeme kind t =>
    by_cases number : kind = .intLiteral
    · subst number
      exact gives_number
    · have silent : (lexeme kind t).diagnostic? p = none := by
        rw [diagnostic?]
        · rintro text ⟨⟩
          exact number rfl
        all_goals simp
      rw [token?_lexeme number, silent]
      exact .lexeme number t

theorem Gives.unique {s : Segment} {p : Position} {tokens others : List Token}
    {reports diagnostics : List Diagnostic} (first : s.Gives p tokens reports)
    (second : s.Gives p others diagnostics) : tokens = others ∧ reports = diagnostics := by
  cases first <;> cases second <;> first | exact ⟨rfl, rfl⟩ | omega | contradiction

theorem flatMap_text_divide (source : Text) : (divide source).flatMap text = source := by
  fun_induction divide source with
  | case1 => rfl
  | case2 u rest ih => rw [List.flatMap_cons, ih, text_append_first]

/-- The division that is found, and what is made of it. -/
theorem scanned_divide (before source : Text) :
    Scanned before (divide source) (Scan.ofSegments before.endPosition (divide source)).tokens
      (Scan.ofSegments before.endPosition (divide source)).diagnostics := by
  fun_induction divide source generalizing before with
  | case1 => exact .stop before
  | case2 u rest ih =>
    have fits := fits_first u rest
    have next := ih (before ++ (first u rest).1.text)
    rw [← after_of_fits fits] at next
    refine .step ?_ (gives_self _ _) next
    rw [flatMap_text_divide]
    exact fits

namespace Scanned

variable {before : Text} {segments : List Segment} {tokens : List Token}
  {reports : List Diagnostic}

theorem divide_eq (scanned : Scanned before segments tokens reports) :
    divide (segments.flatMap text) = segments := by
  induction scanned with
  | stop before => rw [List.flatMap_nil, divide]
  | step fits gives next ih => rw [List.flatMap_cons, divide_of_fits fits, ih]

theorem ofSegments_eq (scanned : Scanned before segments tokens reports) :
    Scan.ofSegments before.endPosition segments = ⟨tokens, reports⟩ := by
  induction scanned with
  | stop before => rfl
  | step fits gives next ih =>
    obtain ⟨rfl, rfl⟩ := gives.unique (gives_self _ _)
    rw [Scan.ofSegments, after_of_fits fits, ih]

theorem proper (scanned : Scanned before segments tokens reports) {s : Segment}
    (mem : s ∈ segments) : s.text ≠ [] ∧ (CodeUnit.newline ∈ s.text → s = newline) := by
  induction scanned with
  | stop before => cases mem
  | step fits gives next ih =>
    rcases List.mem_cons.mp mem with rfl | later
    · exact ⟨text_ne_nil_of_fits fits, eq_newline_of_fits fits⟩
    · exact ih later

end Scanned

end Segment

open Segment in
/-- A source is made up of segments one after the other, none empty and none but newlines reaching over
a newline. Each fits where it stands, and the tokens and diagnostics of the scan are what the segments
give rise to where they begin, with the end of the input last. No other division fits, and no other
tokens and diagnostics belong to it. -/
theorem Text.scan_partitions (source : Text) :
    ∃ segments : List Segment, segments.flatMap Segment.text = source ∧
      (∀ s ∈ segments, s.text ≠ [] ∧ (CodeUnit.newline ∈ s.text → s = .newline)) ∧
      Scanned [] segments source.scan.tokens source.scan.diagnostics ∧
      ∀ others tokens reports, others.flatMap Segment.text = source →
        Scanned [] others tokens reports → others = segments ∧ source.scan = ⟨tokens, reports⟩ := by
  have scanned := scanned_divide [] source
  refine ⟨divide source, flatMap_text_divide source, fun s => scanned.proper, scanned, ?_⟩
  rintro others tokens reports rfl other
  have same := other.divide_eq
  refine ⟨same.symm, ?_⟩
  rw [Text.scan, same]
  exact other.ofSegments_eq

end Cinder

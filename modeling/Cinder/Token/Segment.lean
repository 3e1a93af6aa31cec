import Cinder.Problem
import Cinder.Token

/-!
The division of a source text into segments: newlines, blanks, comments, lexemes, and the two kinds
of text that are dropped with a report. Every unit of the source belongs to exactly one segment.
-/
namespace Cinder

inductive Segment where
  | newline
  | blank (unit : CodeUnit)
  | comment (text : Text)
  | lexeme (kind : Kind) (text : Text)
  | badString (flaw : StringFlaw) (text : Text)
  | illegal (unit : CodeUnit)

namespace Segment

/-- The part of the source that a segment covers. -/
def text : Segment → Text
  | newline => [CodeUnit.newline]
  | blank unit => [unit]
  | comment text => text
  | lexeme _ text => text
  | badString _ text => text
  | illegal unit => [unit]

def isBlank (u : CodeUnit) : Bool := u = 32 || u = 9 || u = 13

def isWordStart (u : CodeUnit) : Bool := u.isLower || u.isUpper || u = 95

def isWordPart (u : CodeUnit) : Bool := isWordStart u || u.isDigit

/-- What may follow a backslash in a string literal: `n`, `t`, a quote, `?` or a backslash. -/
def isEscape (u : CodeUnit) : Bool :=
  u = 110 || u = 116 || u = 39 || u = CodeUnit.quote || u = 63 || u = CodeUnit.backslash

/-- How reading a string literal went: what was read after the opening quote, whether it ended in a
quote, whether each backslash began a valid escape, and what is left. -/
structure StringReading where
  body : Text
  closed : Bool
  wellEscaped : Bool
  rest : Text

/-- Reads a string literal after its opening quote, to the closing quote or the end of the line. A
backslash that ends the line is read alone; any other takes the next unit with it. -/
def readString : Text → StringReading
  | [] => ⟨[], false, true, []⟩
  | u :: rest =>
    if u = CodeUnit.newline then ⟨[], false, true, u :: rest⟩
    else if u = CodeUnit.quote then ⟨[u], true, true, rest⟩
    else if u = CodeUnit.backslash then
      match rest with
      | [] => ⟨[u], false, false, []⟩
      | e :: rest =>
        if e = CodeUnit.newline then ⟨[u], false, false, e :: rest⟩
        else
          let reading := readString rest
          { reading with
            body := u :: e :: reading.body
            wellEscaped := isEscape e && reading.wellEscaped }
    else
      let reading := readString rest
      { reading with body := u :: reading.body }

/-- The segment of a string literal: its token, or the reason for dropping it. -/
def ofString (reading : StringReading) : Segment :=
  let text := CodeUnit.quote :: reading.body
  match reading.closed, reading.wellEscaped with
  | true, true => lexeme .stringLiteral text
  | true, false => badString .badEscape text
  | false, true => badString .unterminated text
  | false, false => badString .unterminatedBadEscape text

/-- Reads an operator or mark of one unit; any other unit is illegal. -/
def readSingle (u : CodeUnit) (rest : Text) : Segment × Text :=
  match Kind.singles.lookup [u] with
  | some kind => (lexeme kind [u], rest)
  | none => (illegal u, rest)

/-- Reads an operator or mark, the longer ones first. -/
def readOperator (u : CodeUnit) : Text → Segment × Text
  | [] => readSingle u []
  | v :: rest =>
    match Kind.doubles.lookup [u, v] with
    | some kind => (lexeme kind [u, v], rest)
    | none => readSingle u (v :: rest)

/-- The first segment of a text that begins with `u`, and the text after it. -/
def first (u : CodeUnit) (rest : Text) : Segment × Text :=
  if u = CodeUnit.newline then (newline, rest)
  else if isBlank u then (blank u, rest)
  else if u = 35 || u = CodeUnit.slash && rest.head? = some CodeUnit.slash then
    (comment (u :: rest.takeWhile (· != CodeUnit.newline)), rest.dropWhile (· != CodeUnit.newline))
  else if isWordStart u then
    let word := u :: rest.takeWhile isWordPart
    (lexeme (Kind.ofWord word) word, rest.dropWhile isWordPart)
  else if u.isDigit then
    (lexeme .intLiteral (u :: rest.takeWhile CodeUnit.isDigit), rest.dropWhile CodeUnit.isDigit)
  else if u = CodeUnit.quote then
    let reading := readString rest
    (ofString reading, reading.rest)
  else readOperator u rest

theorem body_append_rest (t : Text) : (readString t).body ++ (readString t).rest = t := by
  fun_induction readString t with
  | case6 e rest _ reading _ _ ih => simpa using ih
  | case7 u rest _ _ _ reading ih => simpa using ih
  | _ => simp_all

theorem text_ofString (reading : StringReading) :
    (ofString reading).text = CodeUnit.quote :: reading.body := by
  unfold ofString
  split <;> rfl

theorem text_readSingle (u : CodeUnit) (rest : Text) : (readSingle u rest).1.text = [u] := by
  unfold readSingle
  split <;> rfl

theorem rest_readSingle (u : CodeUnit) (rest : Text) : (readSingle u rest).2 = rest := by
  unfold readSingle
  split <;> rfl

theorem text_readOperator (u : CodeUnit) (rest : Text) :
    (readOperator u rest).1.text ++ (readOperator u rest).2 = u :: rest := by
  unfold readOperator
  split
  · simp [text_readSingle, rest_readSingle]
  · split
    · rfl
    · simp [text_readSingle, rest_readSingle]

/-- A segment and what is left make up the text. -/
theorem text_append_first (u : CodeUnit) (rest : Text) :
    (first u rest).1.text ++ (first u rest).2 = u :: rest := by
  unfold first
  split
  · next h => simp [text, h]
  split
  · simp [text]
  split
  · simp [text]
  split
  · simp [text]
  split
  · simp [text]
  split
  · next h => simp [text_ofString, body_append_rest, h]
  · exact text_readOperator u rest

theorem readOperator_text_ne_nil (u : CodeUnit) (rest : Text) :
    (readOperator u rest).1.text ≠ [] := by
  unfold readOperator
  split
  · simp [text_readSingle]
  · split
    · simp [text]
    · simp [text_readSingle]

theorem first_text_ne_nil (u : CodeUnit) (rest : Text) : (first u rest).1.text ≠ [] := by
  unfold first
  split
  · simp [text]
  split
  · simp [text]
  split
  · simp [text]
  split
  · simp [text]
  split
  · simp [text]
  split
  · simp [text_ofString]
  · exact readOperator_text_ne_nil u rest

theorem length_first (u : CodeUnit) (rest : Text) :
    (first u rest).2.length < (u :: rest).length := by
  have whole := congrArg List.length (text_append_first u rest)
  have part := List.length_pos_iff.mpr (first_text_ne_nil u rest)
  simp only [List.length_append] at whole
  omega

/-- The segments of a source text, from left to right. -/
def divide : Text → List Segment
  | [] => []
  | u :: rest => (first u rest).1 :: divide (first u rest).2
termination_by source => source.length
decreasing_by exact length_first u rest

end Segment

end Cinder

import Cinder.Token.Scan
import Mathlib.Tactic.SplitIfs

/-!
# Lexemes

Which texts are lexemes of which kind, stated without the scanner. Every lexeme that the scanner finds
is one of these, and the scanner finds each of them again before any text that does not extend it.
No segment reaches over a newline, so sources may be divided line by line.
-/
namespace Cinder

namespace Text

/-- A letter or underscore, then letters, underscores and digits. -/
def isWord : Text → Bool
  | [] => false
  | u :: rest => Segment.isWordStart u && rest.all Segment.isWordPart

/-- A word that is not reserved. -/
def isName (t : Text) : Bool := t.isWord && !(Kind.keywords.map Prod.fst).contains t

def isDigits (t : Text) : Bool := !t.isEmpty && t.all CodeUnit.isDigit

/-- What follows the opening quote of a string literal: plain units and escapes, then a quote. -/
def closesString : Text → Bool
  | [] => false
  | [u] => u = CodeUnit.quote
  | u :: v :: rest =>
    if u = CodeUnit.backslash then Segment.isEscape v && closesString rest
    else u ≠ CodeUnit.newline && u ≠ CodeUnit.quote && closesString (v :: rest)

def isStringLiteral : Text → Bool
  | [] => false
  | u :: rest => u = CodeUnit.quote && closesString rest

end Text

namespace Kind

/-- How a keyword, operator or mark is spelled. -/
def spelling : Kind → Text
  | intWord => "int"
  | boolWord => "bool"
  | voidWord => "void"
  | trueWord => "true"
  | falseWord => "false"
  | structWord => "struct"
  | cinWord => "cin"
  | coutWord => "cout"
  | ifWord => "if"
  | elseWord => "else"
  | whileWord => "while"
  | repeatWord => "repeat"
  | returnWord => "return"
  | leftBrace => "\x7b"
  | rightBrace => "\x7d"
  | leftParen => "("
  | rightParen => ")"
  | semicolon => ";"
  | comma => ","
  | dot => "."
  | write => "<<"
  | read => ">>"
  | increment => "++"
  | decrement => "--"
  | plus => "+"
  | minus => "-"
  | times => "*"
  | divide => "/"
  | not => "!"
  | and => "&&"
  | or => "||"
  | equal => "=="
  | notEqual => "!="
  | less => "<"
  | greater => ">"
  | lessEqual => "<="
  | greaterEqual => ">="
  | assign => "="
  | identifier | intLiteral | stringLiteral | endOfInput => []

/-- Whether a text is a lexeme of this kind. -/
def spells : Kind → Text → Bool
  | identifier, t => t.isName
  | intLiteral, t => t.isDigits
  | stringLiteral, t => t.isStringLiteral
  | endOfInput, _ => false
  | kind, t => t = kind.spelling

theorem ofWord_of_isName {t : Text} (name : t.isName) : ofWord t = identifier := by
  simp only [Text.isName, Bool.and_eq_true, Bool.not_eq_true', List.contains_eq_mem,
    decide_eq_false_iff_not] at name
  have free : keywords.lookup t = none := by
    rw [List.lookup_eq_none_iff]
    intro entry mem
    have : entry.1 ∈ keywords.map Prod.fst := List.mem_map_of_mem mem
    grind
  rw [ofWord, free]
  rfl

/-- A lexeme is a word, digits, a string literal, or an operator or mark. -/
theorem spells_cases {kind : Kind} {t : Text} (spelled : kind.spells t) :
    t.isWord ∧ ofWord t = kind ∨ kind = intLiteral ∧ t.isDigits ∨
      kind = stringLiteral ∧ t.isStringLiteral ∨ (t, kind) ∈ doubles ∨ (t, kind) ∈ singles := by
  cases kind with
  | identifier => exact .inl ⟨(Bool.and_eq_true_iff.mp spelled).1, ofWord_of_isName spelled⟩
  | intLiteral => exact .inr (.inl ⟨rfl, spelled⟩)
  | stringLiteral => exact .inr (.inr (.inl ⟨rfl, spelled⟩))
  | endOfInput => cases spelled
  | intWord | boolWord | voidWord | trueWord | falseWord | structWord | cinWord | coutWord
  | ifWord | elseWord | whileWord | repeatWord | returnWord =>
    obtain rfl := of_decide_eq_true spelled
    exact .inl (by decide)
  | _ =>
    obtain rfl := of_decide_eq_true spelled
    exact .inr (.inr (.inr (by decide)))

/-- A word is a name, or it is one of the reserved words. -/
theorem spells_ofWord {t : Text} (word : t.isWord) : (ofWord t).spells t := by
  by_cases reserved : (keywords.map Prod.fst).contains t
  · have all : (keywords.map Prod.fst).all fun t => (ofWord t).spells t := by decide
    exact List.all_eq_true.mp all t (by simpa using reserved)
  · have name : t.isName := by simp only [Text.isName, word, reserved]; rfl
    rw [ofWord_of_isName name]
    exact name

theorem mem_of_lookup {entries : List (Text × Kind)} {t : Text} {kind : Kind}
    (found : entries.lookup t = some kind) : (t, kind) ∈ entries := by
  obtain ⟨before, after, rfl, _⟩ := List.lookup_eq_some_iff.mp found
  simp

theorem spells_of_mem_doubles {t : Text} {kind : Kind} (mem : (t, kind) ∈ doubles) :
    kind.spells t := by
  have all : doubles.all fun entry => entry.2.spells entry.1 := by decide
  exact List.all_eq_true.mp all _ mem

theorem spells_of_mem_singles {t : Text} {kind : Kind} (mem : (t, kind) ∈ singles) :
    kind.spells t := by
  have all : singles.all fun entry => entry.2.spells entry.1 := by decide
  exact List.all_eq_true.mp all _ mem

end Kind

namespace Segment

/-! ## What the scanner finds -/

theorem closesString_body {t : Text} (closed : (readString t).closed)
    (wellEscaped : (readString t).wellEscaped) : (readString t).body.closesString := by
  fun_induction readString t with
  | case3 => rfl
  | case6 e rest notNewline reading _ _ ih =>
    obtain ⟨escape, wellEscaped⟩ := Bool.and_eq_true_iff.mp wellEscaped
    simpa [Text.closesString, escape] using ih closed wellEscaped
  | case7 u rest notNewline notQuote notBackslash reading ih =>
    have inner := ih closed wellEscaped
    change Text.closesString (u :: reading.body) = true
    cases body : reading.body with
    | nil => simp [reading, body, Text.closesString] at inner
    | cons v more =>
      rw [body] at inner
      simp [Text.closesString, notNewline, notQuote, notBackslash, inner]
  | _ => simp_all

theorem spells_ofString {t : Text} {kind : Kind} {text : Text}
    (found : ofString (readString t) = lexeme kind text) : kind.spells text := by
  unfold ofString at found
  split at found
  · next closed wellEscaped =>
    cases found
    simpa [Kind.spells, Text.isStringLiteral] using closesString_body closed wellEscaped
  all_goals cases found

theorem spells_readSingle {u : CodeUnit} {rest : Text} {kind : Kind} {text : Text}
    (found : (readSingle u rest).1 = lexeme kind text) : kind.spells text := by
  unfold readSingle at found
  split at found
  · next looked =>
    cases found
    exact Kind.spells_of_mem_singles (Kind.mem_of_lookup looked)
  · cases found

theorem spells_readOperator {u : CodeUnit} {rest : Text} {kind : Kind} {text : Text}
    (found : (readOperator u rest).1 = lexeme kind text) : kind.spells text := by
  unfold readOperator at found
  split at found
  · exact spells_readSingle found
  · split at found
    · next looked =>
      cases found
      exact Kind.spells_of_mem_doubles (Kind.mem_of_lookup looked)
    · exact spells_readSingle found

theorem spells_first {u : CodeUnit} {rest : Text} {kind : Kind} {text : Text}
    (found : (first u rest).1 = lexeme kind text) : kind.spells text := by
  unfold first at found
  split at found
  · cases found
  split at found
  · cases found
  split at found
  · cases found
  split at found
  · next start =>
    cases found
    apply Kind.spells_ofWord
    simp [Text.isWord, start]
  split at found
  · next digit =>
    cases found
    simp [Kind.spells, Text.isDigits, digit]
  split at found
  · exact spells_ofString found
  · exact spells_readOperator found

/-- Every lexeme of a source is a lexeme of its kind. -/
theorem spells_divide {source : Text} {kind : Kind} {text : Text}
    (mem : lexeme kind text ∈ divide source) : kind.spells text := by
  fun_induction divide source with
  | case1 => cases mem
  | case2 u rest ih =>
    rcases List.mem_cons.mp mem with found | mem
    · exact spells_first found.symm
    · exact ih mem

end Segment

/-- What every token of a source satisfies: its text is a lexeme of its kind, and a number is the
value of its digits, at most `maxInt`. -/
structure Token.Sound (t : Token) : Prop where
  spelled : t.kind.spells t.text
  value : t.kind = .intLiteral → t.value = some (min t.text.decimal maxInt : Nat)

namespace Segment

theorem token?_lexeme {kind : Kind} (other : kind ≠ .intLiteral) (text : Text) (p : Position) :
    (lexeme kind text).token? p = some ⟨kind, text, p, none⟩ := by
  rw [token?]
  exact other

theorem sound_token? {s : Segment} {p : Position} {t : Token} (found : s.token? p = some t)
    (spelled : ∀ kind text, s = lexeme kind text → kind.spells text) : t.Sound := by
  cases s with
  | lexeme kind text =>
    have spelled := spelled kind text rfl
    by_cases int : kind = .intLiteral
    · subst int
      cases found
      exact ⟨spelled, fun _ => rfl⟩
    · rw [token?_lexeme int] at found
      cases found
      exact ⟨spelled, fun kind => absurd kind int⟩
  | _ => cases found

theorem sound_ofSegments {ss : List Segment} {p : Position} {t : Token}
    (spelled : ∀ kind text, lexeme kind text ∈ ss → kind.spells text)
    (mem : t ∈ (Scan.ofSegments p ss).tokens) : t.kind = .endOfInput ∨ t.Sound := by
  induction ss generalizing p with
  | nil =>
    obtain rfl := List.mem_singleton.mp mem
    exact .inl rfl
  | cons s ss ih =>
    rcases List.mem_append.mp mem with found | mem
    · refine .inr (sound_token? (Option.mem_toList.mp found) ?_)
      rintro kind text rfl
      exact spelled kind text (by simp)
    · exact ih (fun kind text inside => spelled kind text (by simp [inside])) mem

/-- Every token of a source is sound, but for the end of the input. -/
theorem sound_scan {source : Text} {t : Token} (mem : t ∈ source.scan.tokens) :
    t.kind = .endOfInput ∨ t.Sound :=
  sound_ofSegments (fun _ _ => spells_divide) mem

/-! ## What the scanner finds again -/

theorem readString_append {body : Text} (closes : body.closesString) (rest : Text) :
    readString (body ++ rest) = ⟨body, true, true, rest⟩ := by
  fun_induction Text.closesString body with
  | case1 => cases closes
  | case2 u =>
    obtain rfl : u = CodeUnit.quote := by simpa using closes
    have notNewline : CodeUnit.quote ≠ CodeUnit.newline := by decide
    rw [List.singleton_append, readString.eq_def]
    simp [notNewline]
  | case3 v more ih =>
    obtain ⟨escape, closes⟩ := Bool.and_eq_true_iff.mp closes
    have notNewline : v ≠ CodeUnit.newline := by
      rintro rfl
      revert escape
      decide
    have other : CodeUnit.backslash ≠ CodeUnit.newline ∧ CodeUnit.backslash ≠ CodeUnit.quote := by
      decide
    simp [readString, ih closes, escape, notNewline, other]
  | case4 u v more notBackslash ih =>
    simp only [Bool.and_eq_true, decide_eq_true_eq] at closes
    have inner : readString (v :: (more ++ rest)) = ⟨v :: more, true, true, rest⟩ := ih closes.2
    rw [List.cons_append, List.cons_append, readString.eq_def]
    simp [inner, closes.1.1, closes.1.2, notBackslash]

/-- Whether a lexeme ends before this unit. -/
def endsBefore (text : Text) (v : CodeUnit) : Bool :=
  match text with
  | [] => false
  | u :: _ =>
    if isWordStart u then !isWordPart v
    else if u.isDigit then !v.isDigit
    else if u = CodeUnit.quote then true
    else (Kind.doubles.lookup (text ++ [v])).isNone
      && !(u = CodeUnit.slash && v = CodeUnit.slash)

theorem takeWhile_append_of_all {p : CodeUnit → Bool} {t rest : Text} (inside : t.all p)
    (outside : rest.head?.all (!p ·)) :
    (t ++ rest).takeWhile p = t ∧ (t ++ rest).dropWhile p = rest := by
  have pos : ∀ u ∈ t, p u := List.all_eq_true.mp inside
  rw [List.takeWhile_append_of_pos pos, List.dropWhile_append_of_pos pos]
  cases rest with
  | nil => simp
  | cons v more =>
    have fails : p v = false := by simpa using outside
    simp [fails]

theorem first_of_isWordStart {u : CodeUnit} (start : isWordStart u) (rest : Text) :
    first u rest =
      (lexeme (Kind.ofWord (u :: rest.takeWhile isWordPart)) (u :: rest.takeWhile isWordPart),
        rest.dropWhile isWordPart) := by
  have others : u ≠ CodeUnit.newline ∧ isBlank u = false ∧ u ≠ 35 ∧ u ≠ CodeUnit.slash := by
    refine ⟨?_, ?_, ?_, ?_⟩
    · rintro rfl
      revert start
      decide
    · rw [isBlank]
      grind [isWordStart, CodeUnit.isLower, CodeUnit.isUpper]
    · rintro rfl
      revert start
      decide
    · rintro rfl
      revert start
      decide
  simp [first, others, start]

theorem isWordStart_of_isDigit {u : CodeUnit} (digit : u.isDigit) : isWordStart u = false := by
  rw [isWordStart]
  grind [CodeUnit.isDigit, CodeUnit.isLower, CodeUnit.isUpper]

theorem first_of_isDigit {u : CodeUnit} (digit : u.isDigit) (rest : Text) :
    first u rest =
      (lexeme .intLiteral (u :: rest.takeWhile CodeUnit.isDigit),
        rest.dropWhile CodeUnit.isDigit) := by
  have others : u ≠ CodeUnit.newline ∧ isBlank u = false ∧ u ≠ 35 ∧ u ≠ CodeUnit.slash := by
    refine ⟨?_, ?_, ?_, ?_⟩
    · rintro rfl
      revert digit
      decide
    · rw [isBlank]
      grind [CodeUnit.isDigit]
    · rintro rfl
      revert digit
      decide
    · rintro rfl
      revert digit
      decide
  simp [first, others, digit, isWordStart_of_isDigit digit]

theorem divide_of_first {u : CodeUnit} {t rest : Text} {s : Segment}
    (found : first u (t ++ rest) = (s, rest)) : divide (u :: t ++ rest) = s :: divide rest := by
  rw [List.cons_append, divide, found]

theorem divide_word {t rest : Text} (word : t.isWord) (apart : rest.head?.all (endsBefore t)) :
    divide (t ++ rest) = lexeme (Kind.ofWord t) t :: divide rest := by
  cases t with
  | nil => cases word
  | cons u t =>
    obtain ⟨start, inside⟩ := Bool.and_eq_true_iff.mp word
    have same : endsBefore (u :: t) = (!isWordPart ·) := by
      funext v
      simp [endsBefore, start]
    have outside : rest.head?.all (!isWordPart ·) := same ▸ apart
    obtain ⟨taken, left⟩ := takeWhile_append_of_all inside outside
    apply divide_of_first
    rw [first_of_isWordStart start, taken, left]

theorem divide_digits {t rest : Text} (digits : t.isDigits)
    (apart : rest.head?.all (endsBefore t)) :
    divide (t ++ rest) = lexeme .intLiteral t :: divide rest := by
  cases t with
  | nil => cases digits
  | cons u t =>
    obtain ⟨digit, inside⟩ : u.isDigit ∧ t.all CodeUnit.isDigit := by
      simpa [Text.isDigits] using digits
    have same : endsBefore (u :: t) = (!CodeUnit.isDigit ·) := by
      funext v
      simp [endsBefore, isWordStart_of_isDigit digit, digit]
    have outside : rest.head?.all (!CodeUnit.isDigit ·) := same ▸ apart
    obtain ⟨taken, left⟩ := takeWhile_append_of_all inside outside
    apply divide_of_first
    rw [first_of_isDigit digit, taken, left]

theorem divide_string {t : Text} (literal : t.isStringLiteral) (rest : Text) :
    divide (t ++ rest) = lexeme .stringLiteral t :: divide rest := by
  cases t with
  | nil => cases literal
  | cons u t =>
    obtain ⟨rfl, closes⟩ : u = CodeUnit.quote ∧ Text.closesString t := by
      simpa [Text.isStringLiteral] using literal
    apply divide_of_first
    change (ofString (readString (t ++ rest)), (readString (t ++ rest)).rest) = _
    rw [readString_append closes]
    rfl

theorem divide_double {t : Text} {kind : Kind} (mem : (t, kind) ∈ Kind.doubles) (rest : Text) :
    divide (t ++ rest) = lexeme kind t :: divide rest := by
  simp only [Kind.doubles, List.mem_cons, Prod.mk.injEq, List.not_mem_nil, or_false] at mem
  rcases mem with ⟨rfl, rfl⟩ | ⟨rfl, rfl⟩ | ⟨rfl, rfl⟩ | ⟨rfl, rfl⟩ | ⟨rfl, rfl⟩ | ⟨rfl, rfl⟩ |
    ⟨rfl, rfl⟩ | ⟨rfl, rfl⟩ | ⟨rfl, rfl⟩ | ⟨rfl, rfl⟩
  all_goals exact divide_of_first rfl

/-- A unit that begins neither a word nor a number, string, comment or gap. -/
def isMark (u : CodeUnit) : Bool :=
  u ≠ CodeUnit.newline && !isBlank u && u ≠ 35 && !isWordStart u && !u.isDigit
    && u ≠ CodeUnit.quote

theorem exists_of_mem_singles {t : Text} {kind : Kind} (mem : (t, kind) ∈ Kind.singles) :
    ∃ u, t = [u] ∧ isMark u ∧ Kind.singles.lookup [u] = some kind := by
  have all : ∀ entry ∈ Kind.singles, entry.1.length = 1 ∧ entry.1.all isMark ∧
      Kind.singles.lookup entry.1 = some entry.2 := by decide
  obtain ⟨one, marks, looked⟩ := all _ mem
  obtain ⟨u, rfl⟩ := List.length_eq_one_iff.mp one
  exact ⟨u, rfl, by simpa using marks, looked⟩

theorem first_of_isMark {u : CodeUnit} {rest : Text} (marks : isMark u)
    (apart : ¬ (u = CodeUnit.slash ∧ rest.head? = some CodeUnit.slash)) :
    first u rest = readOperator u rest := by
  simp only [isMark, Bool.and_eq_true, decide_eq_true_eq, Bool.not_eq_true'] at marks
  obtain ⟨⟨⟨⟨⟨notNewline, notBlank⟩, notHash⟩, notStart⟩, notDigit⟩, notQuote⟩ := marks
  simp [first, notNewline, notBlank, notHash, notStart, notDigit, notQuote, apart]

theorem divide_single {t rest : Text} {kind : Kind} (mem : (t, kind) ∈ Kind.singles)
    (apart : rest.head?.all (endsBefore t)) :
    divide (t ++ rest) = lexeme kind t :: divide rest := by
  obtain ⟨u, rfl, marks, looked⟩ := exists_of_mem_singles mem
  apply divide_of_first
  rw [List.nil_append]
  have read : ∀ rest, readSingle u rest = (lexeme kind [u], rest) := by
    intro rest
    rw [readSingle, looked]
  cases rest with
  | nil => rw [first_of_isMark marks (by simp), readOperator, read]
  | cons v more =>
    have ends : endsBefore [u] v := by simpa using apart
    simp only [isMark, Bool.and_eq_true, decide_eq_true_eq, Bool.not_eq_true'] at marks
    simp only [endsBefore, marks, Bool.false_eq_true, if_false, Bool.and_eq_true,
      Option.isNone_iff_eq_none, List.singleton_append, Bool.not_eq_true', Bool.and_eq_false_iff,
      decide_eq_false_iff_not] at ends
    rw [first_of_isMark (by simp [isMark, marks]) (by grind), readOperator, ends.1]
    exact read _

/-- A lexeme is found again, before whatever does not extend it. -/
theorem divide_append {kind : Kind} {t rest : Text} (spelled : kind.spells t)
    (apart : rest.head?.all (endsBefore t)) :
    divide (t ++ rest) = lexeme kind t :: divide rest := by
  rcases Kind.spells_cases spelled with ⟨word, rfl⟩ | ⟨rfl, digits⟩ | ⟨rfl, literal⟩ | mem | mem
  · exact divide_word word apart
  · exact divide_digits digits apart
  · exact divide_string literal rest
  · exact divide_double mem rest
  · exact divide_single mem apart

/-! ## Lines -/

theorem takeWhile_append_newline {p : CodeUnit → Bool} (stops : p CodeUnit.newline = false)
    (rest more : Text) :
    (rest ++ CodeUnit.newline :: more).takeWhile p = rest.takeWhile p ∧
      (rest ++ CodeUnit.newline :: more).dropWhile p =
        rest.dropWhile p ++ CodeUnit.newline :: more := by
  induction rest with
  | nil => simp [stops]
  | cons u rest ih =>
    cases taken : p u with
    | true => simpa [taken] using ih
    | false => simp [taken]

theorem readString_append_newline (rest more : Text) :
    readString (rest ++ CodeUnit.newline :: more) =
      { readString rest with rest := (readString rest).rest ++ CodeUnit.newline :: more } := by
  fun_induction readString rest with
  | case1 => simp [readString.eq_def (CodeUnit.newline :: more)]
  | case2 => simp [readString.eq_def (CodeUnit.newline :: _)]
  | case3 rest notNewline => simp [readString.eq_def (CodeUnit.quote :: _), notNewline]
  | case4 notNewline notQuote =>
    simp [readString.eq_def (CodeUnit.backslash :: _), notNewline, notQuote]
  | case5 rest notNewline notQuote =>
    simp [readString.eq_def (CodeUnit.backslash :: _), notNewline, notQuote]
  | case6 e rest other reading notNewline notQuote ih =>
    simp [readString.eq_def (CodeUnit.backslash :: _), notNewline, notQuote, other, ih, reading]
  | case7 u rest notNewline notQuote notBackslash reading ih =>
    simp [readString.eq_def (u :: _), notNewline, notQuote, notBackslash, ih, reading]

theorem readSingle_append (u : CodeUnit) (rest more : Text) :
    readSingle u (rest ++ more) = ((readSingle u rest).1, (readSingle u rest).2 ++ more) := by
  unfold readSingle
  split <;> rfl

theorem readOperator_append_newline (u : CodeUnit) (rest more : Text) :
    readOperator u (rest ++ CodeUnit.newline :: more) =
      ((readOperator u rest).1, (readOperator u rest).2 ++ CodeUnit.newline :: more) := by
  cases rest with
  | nil =>
    have none : Kind.doubles.lookup [u, CodeUnit.newline] = none := by
      rw [List.lookup_eq_none_iff]
      have other : ∀ entry ∈ Kind.doubles, CodeUnit.newline ∉ entry.1 := by decide
      intro entry mem
      have := other entry mem
      grind
    have left : readOperator u (CodeUnit.newline :: more) =
        readSingle u (CodeUnit.newline :: more) := by rw [readOperator, none]
    rw [List.nil_append, left]
    exact readSingle_append u [] _
  | cons v rest =>
    rw [List.cons_append, readOperator, readOperator]
    cases Kind.doubles.lookup [u, v] with
    | none => exact readSingle_append u (v :: rest) _
    | some kind => rfl

/-- Text after a newline does not change the segment before it. -/
theorem first_append_newline (u : CodeUnit) (rest more : Text) :
    first u (rest ++ CodeUnit.newline :: more) =
      ((first u rest).1, (first u rest).2 ++ CodeUnit.newline :: more) := by
  have comment := @takeWhile_append_newline (· != CodeUnit.newline) (by simp) rest more
  have word := @takeWhile_append_newline isWordPart (by decide) rest more
  have digits := @takeWhile_append_newline CodeUnit.isDigit (by decide) rest more
  have slashes : (rest ++ CodeUnit.newline :: more).head? = some CodeUnit.slash ↔
      rest.head? = some CodeUnit.slash := by
    cases rest with
    | nil => simpa using show CodeUnit.newline ≠ CodeUnit.slash by decide
    | cons v rest => rfl
  simp only [first, comment, word, digits, slashes, readString_append_newline,
    readOperator_append_newline]
  split_ifs <;> rfl

theorem divide_append_newline (t more : Text) :
    divide (t ++ CodeUnit.newline :: more) = divide t ++ newline :: divide more := by
  fun_induction divide t with
  | case1 => exact @divide_of_first CodeUnit.newline [] more newline rfl
  | case2 u rest ih => rw [List.cons_append, divide, first_append_newline, ih, List.cons_append]

end Segment

end Cinder

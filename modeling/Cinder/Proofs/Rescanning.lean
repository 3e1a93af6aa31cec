import Cinder.Proofs.Cursor
import Cinder.Proofs.Partition
import Cinder.Proofs.RoundTrip

/-!
# Scanning the texts of tokens again

Every lexeme ends before a blank and before a newline, whatever its kind and whatever comes next. So
texts of tokens may be written one after another with any gaps between them: neither do two of them
become one, nor does one become a comment. Main result: they are scanned as the same tokens again,
and nothing is reported but the integer literals that are out of range.
-/
namespace Cinder

namespace Text

/-- Space, tab, carriage return and newline. -/
def gapUnits : List CodeUnit := [32, 9, 13, CodeUnit.newline]

/-- At least one unit, and blanks and newlines only. -/
def isGap (t : Text) : Bool := !t.isEmpty && t.all gapUnits.contains

/-- The texts one after another, with a separator after each but the last. -/
def spaced : List Text → List Text → Text
  | t :: texts, separator :: separators => t ++ (separator ++ spaced texts separators)
  | texts, _ => texts.flatten

end Text

/-- The tokens before the end of the input. -/
def Scan.inner (scan : Scan) : List Token := scan.tokens.filter (·.kind ≠ .endOfInput)

/-- A token as its lexeme gives rise to it. -/
structure Token.Lexed (t : Token) : Prop where
  spelled : t.kind.spells t.text
  token : (Segment.lexeme t.kind t.text).token? t.position = some t

/-! ## The tokens of a source -/

namespace Scan

theorem lexeme_mem_of_mem_tokens {ss : List Segment} {p : Position} {t : Token}
    (mem : t ∈ (ofSegments p ss).tokens) (inner : t.kind ≠ .endOfInput) :
    .lexeme t.kind t.text ∈ ss ∧ (Segment.lexeme t.kind t.text).token? t.position = some t := by
  induction ss generalizing p with
  | nil =>
    obtain rfl := List.mem_singleton.mp mem
    exact absurd rfl inner
  | cons s ss ih =>
    rcases List.mem_append.mp mem with here | later
    · have found := Option.mem_toList.mp here
      obtain ⟨rfl, rfl⟩ := Segment.token?_eq_some found
      exact ⟨List.mem_cons_self, found⟩
    · obtain ⟨inside, token⟩ := ih later
      exact ⟨List.mem_cons_of_mem s inside, token⟩

theorem lexed_of_mem_inner {source : Text} {t : Token} (mem : t ∈ source.scan.inner) :
    t.Lexed := by
  obtain ⟨mem, inner⟩ := List.mem_filter.mp mem
  obtain ⟨inside, token⟩ := lexeme_mem_of_mem_tokens mem (of_decide_eq_true inner)
  exact ⟨Segment.spells_divide inside, token⟩

theorem exists_tokens_eq (source : Text) :
    ∃ q, source.scan.tokens = source.scan.inner ++ [⟨.endOfInput, [], q, none⟩] := by
  obtain ⟨ts, q, whole, inner⟩ := exists_inner source
  have same : source.scan.inner = ts := by
    rw [Scan.inner, whole, List.filter_append, List.filter_eq_self.mpr (by simpa using inner)]
    simp
  exact ⟨q, by rw [same, whole]⟩

end Scan

/-! ## Gaps -/

/-- A lexeme ends before every unit of a gap. -/
theorem Segment.endsBefore_of_mem_gapUnits {kind : Kind} {t : Text} {v : CodeUnit}
    (spelled : kind.spells t) (gap : v ∈ Text.gapUnits) : endsBefore t v := by
  have outside : Text.gapUnits.all fun v => !isWordPart v && !v.isDigit := rfl
  have operators : (Kind.doubles ++ Kind.singles).all fun entry =>
      Text.gapUnits.all (endsBefore entry.1) := rfl
  simp only [List.all_eq_true, Bool.and_eq_true, Bool.not_eq_true'] at outside operators
  rcases Kind.spells_cases spelled with ⟨word, -⟩ | ⟨-, digits⟩ | ⟨-, literal⟩ | double | single
  · simp [endsBefore_word word, outside v gap]
  · simp [endsBefore_digits digits, outside v gap]
  · cases t with
    | nil => cases literal
    | cons u t =>
      obtain rfl : u = CodeUnit.quote := of_decide_eq_true (Bool.and_eq_true_iff.mp literal).1
      rfl
  · exact operators _ (List.mem_append_left _ double) v gap
  · exact operators _ (List.mem_append_right _ single) v gap

theorem Segment.exists_divide_gapUnit {u : CodeUnit} (gap : u ∈ Text.gapUnits) (rest : Text) :
    ∃ s, divide (u :: rest) = s :: divide rest ∧ s.isKept ∧ s.token? .start = none := by
  simp only [Text.gapUnits, List.mem_cons, List.not_mem_nil, or_false] at gap
  rcases gap with rfl | rfl | rfl | rfl
  · exact ⟨.blank 32, divide_of_fits (.blank (.inl rfl)), rfl, rfl⟩
  · exact ⟨.blank 9, divide_of_fits (.blank (.inr (.inl rfl))), rfl, rfl⟩
  · exact ⟨.blank 13, divide_of_fits (.blank (.inr (.inr rfl))), rfl, rfl⟩
  · exact ⟨.newline, divide_of_fits .newline, rfl, rfl⟩

namespace Writes

variable {t rest : Text} {ws : List Token}

/-- A gap adds no tokens to what follows it. -/
theorem gap (units : t.all Text.gapUnits.contains) (h : Writes rest ws) : Writes (t ++ rest) ws := by
  induction t with
  | nil => exact h
  | cons u t ih =>
    obtain ⟨unit, units⟩ : u ∈ Text.gapUnits ∧ t.all Text.gapUnits.contains := by
      simpa using units
    obtain ⟨s, divided, kept, silent⟩ := Segment.exists_divide_gapUnit unit (t ++ rest)
    have more := ih units
    constructor
    · rw [List.cons_append, divided]
      exact List.forall_mem_cons.mpr ⟨kept, more.kept⟩
    · rw [List.cons_append, divided, List.filterMap_cons, silent, more.tokens]

theorem lexed {token : Token} (lexed : token.Lexed)
    (apart : rest.head?.all (Segment.endsBefore token.text)) (h : Writes rest ws) :
    Writes (token.text ++ rest) (token.unplaced :: ws) := by
  refine lexeme lexed.spelled ?_ apart h
  rw [← Segment.unplaced_token? _ token.position, lexed.token, Option.map_some]

/-- Tokens are written by their texts with gaps between them. -/
theorem spaced {tokens : List Token} {separators : List Text} (lexed : ∀ t ∈ tokens, t.Lexed)
    (gaps : ∀ s ∈ separators, s.isGap) (count : separators.length = tokens.length - 1) :
    Writes (Text.spaced (tokens.map Token.text) separators) (tokens.map Token.unplaced) := by
  induction tokens generalizing separators with
  | nil => exact nil
  | cons t tokens ih =>
    rw [List.forall_mem_cons] at lexed
    cases separators with
    | nil =>
      obtain rfl : tokens = [] := by simpa using count.symm
      exact Writes.lexed lexed.1 rfl nil
    | cons separator separators =>
      rw [List.forall_mem_cons] at gaps
      have fewer : separators.length = tokens.length - 1 := by
        simp only [List.length_cons] at count
        omega
      have more := ih lexed.2 gaps.2 fewer
      obtain ⟨nonempty, units⟩ := Bool.and_eq_true_iff.mp gaps.1
      refine Writes.lexed lexed.1 ?_ (more.gap units)
      -- what follows the token begins with the first unit of the gap
      cases separator with
      | nil => cases nonempty
      | cons v separator =>
        have unit : v ∈ Text.gapUnits := by simpa using List.all_eq_true.mp units v
        exact Segment.endsBefore_of_mem_gapUnits lexed.1.spelled unit

end Writes

/-! ## Scanning again -/

/-- Lexemes with gaps between them are scanned as they are. -/
theorem Scan.exists_spaced {tokens : List Token} {separators : List Text}
    (lexed : ∀ t ∈ tokens, t.Lexed) (gaps : ∀ s ∈ separators, s.isGap)
    (count : separators.length = tokens.length - 1) :
    ∃ ts q, (Text.spaced (tokens.map Token.text) separators).scan =
        ⟨ts ++ [⟨.endOfInput, [], q, none⟩], integerWarnings (Token.integers ts)⟩ ∧
      ts.map Token.unplaced = tokens.map Token.unplaced := by
  have writes := Writes.spaced lexed gaps count
  obtain ⟨ts, q, found, same, reports⟩ := ofSegments_of_isKept writes.kept .start
  refine ⟨ts, q, ?_, same.trans writes.tokens⟩
  rw [← found, ← reports]
  rfl

theorem integerWarnings_integers (ts : List Token) :
    integerWarnings (Token.integers ts) =
      (ts.filter fun t => t.kind = .intLiteral ∧ 2147483647 < t.text.decimal).map fun t =>
        .warning t.position .integerTooLarge := by
  have large : ∀ t ∈ ts,
      (decide (2147483647 < t.text.decimal) && decide (t.kind = .intLiteral)) =
        decide (t.kind = .intLiteral ∧ 2147483647 < t.text.decimal) := by
    intro t _
    rw [Bool.and_comm, Bool.decide_and]
  rw [integerWarnings, Token.integers, List.filter_map, List.filter_filter, List.map_map]
  exact congrArg (List.map _) (List.filter_congr large)

/-- The texts of the tokens of a source, with any gaps between them, are scanned as tokens of the same
kinds, texts and values in the same order. All that is reported then are the integer literals that
are out of range, each of them once. -/
theorem Text.tokens_rescanned (source : Text) (separators : List Text)
    (gaps : ∀ s ∈ separators, s.isGap)
    (count : separators.length = source.scan.inner.length - 1) :
    let again := (spaced (source.scan.inner.map Token.text) separators).scan
    let content := fun t : Token => (t.kind, t.text, t.value)
    again.tokens.map content = source.scan.tokens.map content ∧
      again.diagnostics =
        (again.tokens.filter fun t => t.kind = .intLiteral ∧ 2147483647 < t.text.decimal).map
          fun t => .warning t.position .integerTooLarge := by
  intro again content
  obtain ⟨ts, q, scanned, same⟩ :=
    Scan.exists_spaced (fun t => Scan.lexed_of_mem_inner) gaps count
  have tokens : again.tokens = ts ++ [⟨.endOfInput, [], q, none⟩] := congrArg Scan.tokens scanned
  constructor
  · obtain ⟨q', whole⟩ := Scan.exists_tokens_eq source
    have bare : content ∘ Token.unplaced = content := rfl
    have inner : ts.map content = source.scan.inner.map content := by
      rw [← bare, ← List.map_map, same, List.map_map]
    rw [tokens, whole, List.map_append, inner, List.map_append]
    rfl
  · -- the end of the input is no integer literal
    have last : Token.integers again.tokens = Token.integers ts := by
      rw [tokens, Token.integers_append]
      simp [Token.integers]
    rw [← integerWarnings_integers, last]
    exact congrArg Scan.diagnostics scanned

/-- A plus after an increment, a string with a quote and the marks of comments in it, two slashes, and
an integer literal out of range. -/
theorem Text.tokens_rescanned_marks :
    let source : Text := "a+++\"\\\"#//\"/ / 2147483648 // b"
    let separators : List Text := ["\n", " ", "\t", "\r\n", " ", "\n \n"]
    let text : Text := "a\n++ +\t\"\\\"#//\"\r\n/ /\n \n2147483648"
    (∀ s ∈ separators, s.isGap) ∧ separators.length = source.scan.inner.length - 1 ∧
      spaced (source.scan.inner.map Token.text) separators = text ∧
      text.scan.tokens.map (fun t => (t.kind, t.text, t.value)) =
        source.scan.tokens.map (fun t => (t.kind, t.text, t.value)) ∧
      text.scan.diagnostics = [.warning ⟨5, 1⟩ .integerTooLarge] := by
  intro source separators text
  have gaps : ∀ s ∈ separators, s.isGap := by decide
  have count : separators.length = source.scan.inner.length - 1 := by decide +kernel
  have joined : spaced (source.scan.inner.map Token.text) separators = text := by decide +kernel
  obtain ⟨same, reports⟩ := Text.tokens_rescanned source separators gaps count
  rw [joined] at same reports
  refine ⟨gaps, count, joined, same, reports.trans ?_⟩
  decide +kernel

end Cinder

import Cinder.Proofs.LineByLine

/-!
# String literals are classified exactly

What a string literal is, by a grammar of its items, and what the scanner makes of a quote that it
comes to. It goes from segment to segment, and its state is what it has read, what is left, and what
it has found so far. Main result: at a quote it finds the literal that the line begins with there,
or else it drops what the grammar says is to be dropped, with one report that tells why.
-/
namespace Cinder

namespace Text

/-! ## The grammar of string literals -/

/-- The units that may follow a backslash in a string literal. -/
def escapes : Text := "nt'\"?\\"

/-- A plain unit, or a backslash and a unit that is allowed after it. -/
inductive Item (allowed : CodeUnit → Prop) : Text → Prop where
  | plain {u : CodeUnit} (notQuote : u ≠ CodeUnit.quote) (notBackslash : u ≠ CodeUnit.backslash)
      (notNewline : u ≠ CodeUnit.newline) : Item allowed [u]
  | escape {e : CodeUnit} (allow : allowed e) : Item allowed [CodeUnit.backslash, e]

/-- Items one after the other. -/
inductive Items (allowed : CodeUnit → Prop) : Text → Prop where
  | nil : Items allowed []
  | cons {item rest : Text} (first : Item allowed item) (others : Items allowed rest) :
      Items allowed (item ++ rest)

/-- Items between two quotes. -/
def Quoted (allowed : CodeUnit → Prop) (t : Text) : Prop :=
  ∃ items, Items allowed items ∧ t = CodeUnit.quote :: items ++ [CodeUnit.quote]

/-- Reading items from the left after a quote, one meets a backslash that is the last unit or that
stands before a unit that cannot be escaped. -/
def MeetsBadEscape (line : Text) : Prop :=
  ∃ items rest, Items (fun _ => True) items ∧
    line = CodeUnit.quote :: items ++ CodeUnit.backslash :: rest ∧ ∀ e ∈ rest.head?, e ∉ escapes

variable {allowed more : CodeUnit → Prop}

theorem Items.mono {t : Text} (items : Items allowed t) (less : ∀ e, allowed e → more e) :
    Items more t := by
  induction items with
  | nil => exact .nil
  | cons first _ ih =>
    cases first with
    | plain notQuote notBackslash notNewline =>
      exact .cons (.plain notQuote notBackslash notNewline) ih
    | escape allow => exact .cons (.escape (less _ allow)) ih

theorem Quoted.mono {t : Text} (quoted : Quoted allowed t) (less : ∀ e, allowed e → more e) :
    Quoted more t := by
  obtain ⟨items, read, rfl⟩ := quoted
  exact ⟨items, read.mono less, rfl⟩

theorem isEscape_iff {u : CodeUnit} : Segment.isEscape u ↔ u ∈ escapes := by
  have spelled : escapes = [110, 116, 39, CodeUnit.quote, 63, CodeUnit.backslash] := by decide
  rw [spelled]
  simp [Segment.isEscape, or_assoc]

/-! ## What follows the opening quote -/

theorem closesQuote_of_items {items : Text} (read : Items allowed items)
    (inLine : CodeUnit.newline ∉ items) : closesQuote (items ++ [CodeUnit.quote]) := by
  induction read with
  | nil => rfl
  | cons first _ ih =>
    have closes := ih fun mem => inLine (List.mem_append_right _ mem)
    cases first with
    | plain notQuote notBackslash notNewline =>
      rwa [List.append_assoc, List.singleton_append,
        closesQuote_cons notNewline notQuote notBackslash]
    | @escape e _ =>
      have notNewline : e ≠ CodeUnit.newline := by
        rintro rfl
        simp at inLine
      simpa [closesQuote, notNewline] using closes

theorem escapesWell_of_items {items : Text} (read : Items (· ∈ escapes) items) :
    escapesWell (items ++ [CodeUnit.quote]) := by
  induction read with
  | nil => rfl
  | cons first _ ih =>
    cases first with
    | plain _ notBackslash _ =>
      rwa [List.append_assoc, List.singleton_append, escapesWell_cons notBackslash]
    | escape listed => simpa [escapesWell, isEscape_iff.mpr listed] using ih

/-- What closes a quote is items and a quote. The escapes in it are valid if they are so in the
whole. -/
theorem exists_items {t : Text} (closes : t.closesQuote) :
    ∃ items, Items (fun e => t.escapesWell → e ∈ escapes) items ∧
      t = items ++ [CodeUnit.quote] := by
  fun_induction closesQuote t with
  | case1 => cases closes
  | case2 u =>
    obtain rfl : u = CodeUnit.quote := by simpa using closes
    exact ⟨[], .nil, rfl⟩
  | case3 v rest ih =>
    obtain ⟨-, closes⟩ : v ≠ CodeUnit.newline ∧ closesQuote rest := by simpa using closes
    obtain ⟨items, read, rfl⟩ := ih closes
    have both : escapesWell (CodeUnit.backslash :: v :: (items ++ [CodeUnit.quote])) →
        v ∈ escapes ∧ escapesWell (items ++ [CodeUnit.quote]) := by
      intro good
      simpa [escapesWell, isEscape_iff] using good
    refine ⟨CodeUnit.backslash :: v :: items, ?_, rfl⟩
    exact .cons (.escape fun good => (both good).1)
      (read.mono fun e listed good => listed (both good).2)
  | case4 u v rest notBackslash ih =>
    obtain ⟨⟨notNewline, notQuote⟩, closes⟩ :
        (u ≠ CodeUnit.newline ∧ u ≠ CodeUnit.quote) ∧ closesQuote (v :: rest) := by
      simpa using closes
    obtain ⟨items, read, same⟩ := ih closes
    rw [← escapesWell_cons notBackslash] at read
    refine ⟨u :: items, ?_, by rw [same, List.cons_append]⟩
    exact .cons (.plain notQuote notBackslash notNewline) read

theorem quoted_of_closesQuote {body : Text} (closes : body.closesQuote) :
    Quoted (fun e => body.escapesWell → e ∈ escapes) (CodeUnit.quote :: body) := by
  obtain ⟨items, read, same⟩ := exists_items closes
  exact ⟨items, read, by rw [List.cons_append, ← same]⟩

/-- A quoted text, seen from its opening quote. -/
theorem exists_body {t : Text} (quoted : Quoted allowed t) (inLine : CodeUnit.newline ∉ t) :
    ∃ body : Text, t = CodeUnit.quote :: body ∧ body.closesQuote := by
  obtain ⟨items, read, rfl⟩ := quoted
  refine ⟨items ++ [CodeUnit.quote], rfl, closesQuote_of_items read ?_⟩
  simp_all

theorem escapesWell_of_quoted {body : Text}
    (quoted : Quoted (· ∈ escapes) (CodeUnit.quote :: body)) :
    body.escapesWell := by
  obtain ⟨items, read, same⟩ := quoted
  obtain rfl : body = items ++ [CodeUnit.quote] := (List.cons.inj same).2
  exact escapesWell_of_items read

/-! ## Escapes in a line that is not closed -/

theorem escapesWell_of_meets {body : Text} (meets : MeetsBadEscape (CodeUnit.quote :: body)) :
    body.escapesWell = false := by
  obtain ⟨items, rest, read, same, bad⟩ := meets
  obtain rfl : body = items ++ CodeUnit.backslash :: rest := (List.cons.inj same).2
  clear same
  induction read with
  | nil =>
    cases rest with
    | nil => rfl
    | cons e rest =>
      have listed : ¬ Segment.isEscape e := fun escape => bad e rfl (isEscape_iff.mp escape)
      simp [escapesWell, listed]
  | cons first _ ih =>
    cases first with
    | plain _ notBackslash _ =>
      rwa [List.append_assoc, List.singleton_append, escapesWell_cons notBackslash]
    | escape _ => simp [escapesWell, ih]

/-- In a line without a closing quote every unit belongs to an item, up to the first backslash that
begins none that is valid. -/
theorem meets_of_escapesWell {body : Text}
    (unclosed : ∀ part : Text, part <+: body → part.closesQuote = false)
    (inLine : CodeUnit.newline ∉ body) (bad : body.escapesWell = false) :
    MeetsBadEscape (CodeUnit.quote :: body) := by
  suffices found : ∃ items rest : Text, Items (fun _ => True) items ∧
      body = items ++ CodeUnit.backslash :: rest ∧ ∀ e ∈ rest.head?, e ∉ escapes by
    obtain ⟨items, rest, read, rfl, stop⟩ := found
    exact ⟨items, rest, read, rfl, stop⟩
  fun_induction escapesWell body with
  | case1 => cases bad
  | case2 u =>
    obtain rfl : u = CodeUnit.backslash := by simpa using bad
    exact ⟨[], [], .nil, rfl, by simp⟩
  | case3 v rest ih =>
    by_cases escape : Segment.isEscape v
    · have notNewline := isEscape_ne_newline escape
      have unclosed' : ∀ part : Text, part <+: rest → part.closesQuote = false := by
        rintro part ⟨after, rfl⟩
        simpa [closesQuote, notNewline] using
          unclosed (CodeUnit.backslash :: v :: part) ⟨after, rfl⟩
      obtain ⟨items, more, read, rfl, stop⟩ :=
        ih unclosed' (by simp_all) (by simpa [escape] using bad)
      exact ⟨CodeUnit.backslash :: v :: items, more, .cons (.escape trivial) read, rfl, stop⟩
    · refine ⟨[], v :: rest, .nil, rfl, ?_⟩
      rintro e ⟨⟩ listed
      exact escape (isEscape_iff.mpr listed)
  | case4 u v rest notBackslash ih =>
    have notQuote := Segment.ne_quote_of_unclosed unclosed
    have notNewline : u ≠ CodeUnit.newline := by
      rintro rfl
      simp at inLine
    have unclosed' : ∀ part : Text, part <+: v :: rest → part.closesQuote = false := by
      rintro part ⟨after, same⟩
      rw [← closesQuote_cons notNewline notQuote notBackslash]
      exact unclosed (u :: part) ⟨after, by rw [List.cons_append, same]⟩
    obtain ⟨items, more, read, same, stop⟩ := ih unclosed' (by simp_all) bad
    refine ⟨u :: items, more, ?_, by rw [same, List.cons_append], stop⟩
    exact .cons (.plain notQuote notBackslash notNewline) read

end Text

/-! ## What is read -/

namespace Segment

open Text (Quoted MeetsBadEscape escapes)

variable {rest t : Text}

/-- What is read of a literal stands in its line. -/
theorem ne_newline_of_mem_body :
    ∀ u ∈ (readString rest).body, (u != CodeUnit.newline) = true := by
  intro u mem
  have inLine := newline_notMem_text (show CodeUnit.quote ≠ CodeUnit.newline by decide) rest
  change CodeUnit.newline ∉ (ofString (readString rest)).text at inLine
  rw [text_ofString] at inLine
  simpa using fun same : u = CodeUnit.newline => inLine (same ▸ List.mem_cons_of_mem _ mem)

theorem body_prefix_line (rest : Text) :
    (readString rest).body <+: rest.takeWhile (· != CodeUnit.newline) := by
  have whole : ((readString rest).body ++ (readString rest).rest).takeWhile (· != CodeUnit.newline)
      = _ := List.takeWhile_append_of_pos ne_newline_of_mem_body
  rw [body_append_rest] at whole
  exact ⟨_, whole.symm⟩

/-- A literal that is not closed is read to the end of its line. -/
theorem body_eq_line (unclosed : (readString rest).closed = false) :
    (readString rest).body = rest.takeWhile (· != CodeUnit.newline) := by
  have ends := atLineEnd_readString unclosed
  have outside : (readString rest).rest.head?.all fun u => !(u != CodeUnit.newline) := by
    rw [Text.atLineEnd] at ends
    cases found : (readString rest).rest.head? with
    | none => rfl
    | some u => simpa [found] using ends
  have inside : (readString rest).body.all (· != CodeUnit.newline) :=
    List.all_eq_true.mpr ne_newline_of_mem_body
  have taken := (takeWhile_append_of_all inside outside).1
  rw [body_append_rest] at taken
  exact taken.symm

/-- A closed literal that the line begins with is read up to its closing quote. -/
theorem readString_of_quoted {allowed : CodeUnit → Prop}
    (begins : t <+: CodeUnit.quote :: rest.takeWhile (· != CodeUnit.newline))
    (quoted : Quoted allowed t) :
    t = CodeUnit.quote :: (readString rest).body ∧ (readString rest).closed = true := by
  have inLine : CodeUnit.newline ∉ t := by
    intro mem
    rcases List.mem_cons.mp (begins.subset mem) with quote | inside
    · cases quote
    · simpa using List.all_eq_true.mp List.all_takeWhile _ inside
  obtain ⟨body, rfl, closes⟩ := Text.exists_body quoted inLine
  obtain ⟨after, same⟩ := (List.cons_prefix_cons.mp begins).2.trans (List.takeWhile_prefix _)
  rw [← same, readString_of_closesQuote closes after]
  exact ⟨rfl, rfl⟩

/-- The scanner reads a literal that the line begins with. -/
theorem ofString_of_literal
    (begins : t <+: CodeUnit.quote :: rest.takeWhile (· != CodeUnit.newline))
    (quoted : Quoted (· ∈ escapes) t) :
    ofString (readString rest) = lexeme .stringLiteral t := by
  obtain ⟨rfl, closed⟩ := readString_of_quoted begins quoted
  have good := Text.escapesWell_of_quoted quoted
  rw [← wellEscaped_readString] at good
  simp [ofString, closed, good]

/-- A literal that is closed but not valid is dropped. -/
theorem ofString_of_closed
    (begins : t <+: CodeUnit.quote :: rest.takeWhile (· != CodeUnit.newline))
    (quoted : Quoted (fun _ => True) t) (bad : ¬ Quoted (· ∈ escapes) t) :
    ofString (readString rest) = badString .badEscape t := by
  obtain ⟨rfl, closed⟩ := readString_of_quoted begins quoted
  have poor : (readString rest).wellEscaped = false := by
    rw [wellEscaped_readString, Bool.eq_false_iff]
    intro good
    refine bad ((Text.quoted_of_closesQuote (closesQuote_readString closed)).mono ?_)
    exact fun e listed => listed good
  simp [ofString, closed, poor]

open Classical in
/-- A line without a literal that is closed is dropped. -/
theorem ofString_of_unclosed
    (unclosed : ∀ t, t <+: CodeUnit.quote :: rest.takeWhile (· != CodeUnit.newline) →
      ¬ Quoted (fun _ => True) t) :
    let line := CodeUnit.quote :: rest.takeWhile (· != CodeUnit.newline)
    ofString (readString rest) =
      badString (if MeetsBadEscape line then .unterminatedBadEscape else .unterminated) line := by
  have closed : (readString rest).closed = false := by
    rw [Bool.eq_false_iff]
    intro closed
    refine unclosed _ (List.cons_prefix_cons.mpr ⟨rfl, body_prefix_line rest⟩) ?_
    exact (Text.quoted_of_closesQuote (closesQuote_readString closed)).mono fun _ _ => trivial
  have inLine : CodeUnit.newline ∉ (readString rest).body := by
    intro mem
    simpa using ne_newline_of_mem_body _ mem
  have escaped : (readString rest).wellEscaped = false ↔
      MeetsBadEscape (CodeUnit.quote :: (readString rest).body) := by
    rw [wellEscaped_readString]
    exact ⟨Text.meets_of_escapesWell (unclosed_readString closed) inLine,
      Text.escapesWell_of_meets⟩
  rw [← body_eq_line closed]
  intro line
  cases good : (readString rest).wellEscaped with
  | true =>
    have clean : ¬ MeetsBadEscape line := by
      rw [← escaped, good]
      exact Bool.noConfusion
    simp [ofString, closed, good, clean, line]
  | false => simp [ofString, closed, good, escaped.mp good, line]

/-! ## The states of the scanner -/

/-- The scanner has read a part of the source, the rest is left, and these tokens and diagnostics
have been found so far. -/
inductive Scanning (source : Text) : Text → Text → List Token → List Diagnostic → Prop where
  | start : Scanning source [] source [] []
  | step {before rest : Text} {u : CodeUnit} {tokens : List Token} {reports : List Diagnostic}
      (state : Scanning source before (u :: rest) tokens reports) :
      Scanning source (before ++ (first u rest).1.text) (first u rest).2
        (tokens ++ ((first u rest).1.token? before.endPosition).toList)
        (reports ++ ((first u rest).1.diagnostic? before.endPosition).toList)

/-- From every state on the scan goes its way. -/
theorem Scanning.scan_eq {source before rest : Text} {tokens : List Token}
    {reports : List Diagnostic} (state : Scanning source before rest tokens reports) :
    let later := Scan.ofSegments before.endPosition (divide rest)
    source.scan = ⟨tokens ++ later.tokens, reports ++ later.diagnostics⟩ := by
  induction state with
  | start => rfl
  | @step before rest u tokens reports state ih =>
    rw [ih, divide, Scan.ofSegments, after_of_fits (fits_first u rest)]
    simp

end Segment

open Segment in
/-- The scanner comes to a quote, and `line` is the rest of the line from there. If a part of the
line from its beginning is a string literal, this part is read, and it is the text of one token. If
none is, there is no token and one error at the quote. Then, if a part of the line from its
beginning is closed by a quote although an escape in it is not valid, this part is read. Otherwise
the whole line is read, and the error tells whether it has a bad escape. -/
theorem Text.strings_classified (source before rest : Text) (tokens : List Token)
    (reports : List Diagnostic)
    (state : Scanning source before (CodeUnit.quote :: rest) tokens reports) :
    let line := CodeUnit.quote :: rest.takeWhile (· != CodeUnit.newline)
    let Literal := fun t : Text => t <+: line ∧ Quoted (· ∈ escapes) t
    let Closed := fun t : Text => t <+: line ∧ Quoted (fun _ => True) t
    ∃ read left emitted raised,
      CodeUnit.quote :: rest = read ++ left ∧
      Scanning source (before ++ read) left (tokens ++ emitted) (reports ++ raised) ∧
      tokens ++ emitted <+: source.scan.tokens ∧ reports ++ raised <+: source.scan.diagnostics ∧
      ((∃ token ∈ emitted, token.kind = .stringLiteral) ↔ ∃ t, Literal t) ∧
      (∀ t, Literal t → read = t ∧
        emitted = [⟨.stringLiteral, t, before.endPosition, none⟩] ∧ raised = []) ∧
      ((∀ t, ¬ Literal t) → emitted = [] ∧ ∃ problem,
        raised = [.error before.endPosition problem] ∧
        (∀ t, Closed t → read = t ∧
          problem.message = "string literal with bad escaped character ignored") ∧
        ((∀ t, ¬ Closed t) → read = line ∧
          (MeetsBadEscape line → problem.message =
            "unterminated string literal with bad escaped character ignored") ∧
          (¬ MeetsBadEscape line → problem.message = "unterminated string literal ignored"))) := by
  intro line Literal Closed
  have next := state.step
  have found : ∀ t, Literal t →
      (first CodeUnit.quote rest).1 = lexeme .stringLiteral t :=
    fun t literal => ofString_of_literal literal.1 literal.2
  have dropped : (∀ t, ¬ Literal t) → ∃ flaw text,
      (first CodeUnit.quote rest).1 = badString flaw text ∧
      (∀ t, Closed t → flaw = .badEscape ∧ text = t) ∧
      ((∀ t, ¬ Closed t) → text = line ∧ (MeetsBadEscape line → flaw = .unterminatedBadEscape) ∧
        (¬ MeetsBadEscape line → flaw = .unterminated)) := by
    intro none
    by_cases some : ∃ t, Closed t
    · obtain ⟨t, closed⟩ := some
      have segment := ofString_of_closed closed.1 closed.2 fun quoted => none t ⟨closed.1, quoted⟩
      refine ⟨_, _, segment, fun s closed' => ⟨rfl, ?_⟩, fun never => absurd closed (never t)⟩
      exact (readString_of_quoted closed.1 closed.2).1.trans
        (readString_of_quoted closed'.1 closed'.2).1.symm
    · have never : ∀ t, ¬ Closed t := fun t closed => some ⟨t, closed⟩
      have segment := ofString_of_unclosed fun t begins quoted => never t ⟨begins, quoted⟩
      refine ⟨_, _, segment, fun t closed => absurd closed (never t), fun _ => ⟨rfl, ?_, ?_⟩⟩
      · exact fun meets => if_pos meets
      · exact fun clean => if_neg clean
  refine ⟨_, _, _, _, (text_append_first CodeUnit.quote rest).symm, next, ?_, ?_, ?_, ?_, ?_⟩
  · rw [next.scan_eq]
    exact List.prefix_append _ _
  · rw [next.scan_eq]
    exact List.prefix_append _ _
  · constructor
    · rintro ⟨token, mem, kind⟩
      by_contra none
      obtain ⟨flaw, text, segment, -⟩ := dropped fun t literal => none ⟨t, literal⟩
      rw [segment] at mem
      cases mem
    · rintro ⟨t, literal⟩
      rw [found t literal]
      exact ⟨_, List.mem_singleton_self _, rfl⟩
  · intro t literal
    rw [found t literal]
    exact ⟨rfl, rfl, rfl⟩
  · intro none
    obtain ⟨flaw, text, segment, closed, unclosed⟩ := dropped none
    rw [segment]
    refine ⟨rfl, .droppedString flaw, rfl, fun t h => ?_, fun never => ?_⟩
    · obtain ⟨rfl, rfl⟩ := closed t h
      exact ⟨rfl, rfl⟩
    · obtain ⟨rfl, bad, clean⟩ := unclosed never
      refine ⟨rfl, fun meets => ?_, fun good => ?_⟩
      · rw [bad meets]
        rfl
      · rw [clean good]
        rfl

open Segment in
/-- After `a "\q" ` the line ends in the two units `b\` of a literal that is not closed. -/
theorem Text.strings_classified_backslash :
    let before : Text := [97, 32, 34, 92, 113, 34, 32]
    let line : Text := [34, 98, 92]
    let tokens : List Token := [⟨.identifier, [97], ⟨1, 1⟩, none⟩]
    let earlier := Diagnostic.error ⟨1, 3⟩ (.droppedString .badEscape)
    Scanning (before ++ line) before line tokens [earlier] ∧
      (∀ t, t <+: line → ¬ Quoted (fun _ => True) t) ∧ MeetsBadEscape line ∧
      ∃ problem,
        Scanning (before ++ line) (before ++ line) [] tokens [earlier, .error ⟨1, 8⟩ problem] ∧
        problem.message = "unterminated string literal with bad escaped character ignored" := by
  intro before line tokens earlier
  have word : Scanning (before ++ line) [97] [32, 34, 92, 113, 34, 32, 34, 98, 92] tokens [] :=
    @Scanning.step _ [] _ 97 _ _ .start
  have blank : Scanning (before ++ line) [97, 32] [34, 92, 113, 34, 32, 34, 98, 92] tokens [] :=
    word.step
  have string := blank.step
  rw [show Text.endPosition [97, 32] = ⟨1, 3⟩ by decide] at string
  have state : Scanning (before ++ line) before line tokens [earlier] :=
    @Scanning.step _ _ _ 32 _ _ string
  have unclosed : ∀ t, t <+: line → ¬ Quoted (fun _ => True) t := by
    intro t begins quoted
    cases (@readString_of_quoted [98, 92] t (fun _ => True) begins quoted).2
  have meets : MeetsBadEscape line := by
    refine ⟨[98], [], ?_, rfl, by simp⟩
    exact .cons (.plain (by decide) (by decide) (by decide)) .nil
  obtain ⟨read, left, emitted, raised, whole, next, -, -, -, -, dropped⟩ :=
    Text.strings_classified (before ++ line) before [98, 92] tokens _ state
  obtain ⟨rfl, problem, rfl, -, rest⟩ := dropped fun t literal =>
    unclosed t literal.1 (literal.2.mono fun _ _ => trivial)
  obtain ⟨rfl, bad, -⟩ := rest fun t closed => unclosed t closed.1 closed.2
  obtain rfl : left = [] := List.append_cancel_left (whole.symm.trans (List.append_nil line).symm)
  rw [show before.endPosition = ⟨1, 8⟩ by decide] at next
  exact ⟨state, unclosed, meets, problem, next, bad meets⟩

end Cinder

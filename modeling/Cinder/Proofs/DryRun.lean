import Cinder.Proofs.InPlace

/-!
# Checking is a dry run

What `fmt --check` says about files and what `fmt` then does to them. A file without errors is called
formatted if and only if formatting in place does not write it. Of a missing file, or one with errors,
neither is said, and it is not written either. Printing with annotations is left out: the text that a
check compares a file with is then the annotated one.
-/
namespace Cinder

namespace Entry

/-- Whether an entry is as formatting makes it. -/
def settled (n : Nat) : Entry → Bool
  | file source =>
    match source.format (.blanks n) .plain with
    | .ok text => source = text
    | .error _ => true
  | directory => true

theorem settled_iff {entry : Entry} {n : Nat} : entry.settled n ↔ entry.formatted n = entry := by
  cases entry with
  | directory => simp [settled, formatted]
  | file source =>
    rw [settled, formatted]
    cases source.format (.blanks n) .plain with
    | error e => simp
    | ok text => simp [eq_comm]

end Entry

namespace Command

variable {s s₁ s₂ : Shell} {file : Text} {n : Nat}

/-- Whether a name stands for something that is as formatting makes it. -/
def Shell.settled (n : Nat) (s : Shell) (file : Text) : Bool := (s.entry? file).all (Entry.settled n)

/-- What a check says of a file, given whether it would stay as it is. -/
def checkLabel (same : Bool) : Text := if same then "Already formatted: " else "Would reformat: "

def checkLines (same : Text → Bool) (files : List Text) : Text :=
  files.flatMap fun file => checkLabel (same file) ++ file ++ [CodeUnit.newline]

/-- A check compares a file without errors with the text that would be printed. -/
theorem run_formatFile_check (options : FormatOptions) (checks : options.check = true)
    {source text : Text} (found : s.entry? file = some (.file source))
    (made : source.format (.blanks options.indentSize)
      (if options.stdout && options.annotate then .resolved else .plain) = .ok text) :
    (formatFile options file).run s =
      .ok (source = text : Bool) (s.tell (checkLabel (source = text)) file) := by
  rw [formatFile, run_bind run_resolve, run_bind (run_readFile_of_file found)]
  simp only [made, checks, if_true]
  by_cases same : source = text
  · simp only [same, if_true, decide_true, checkLabel]
    rfl
  · simp only [same, if_false, decide_false, checkLabel]
    rfl

/-- The shells differ only in what was printed, which tells of each file without errors whether it is
as formatting makes it. -/
structure Checks (n : Nat) (listed : List Text) (s s' : Shell) : Prop where
  directory : s'.directory = s.directory
  files : s'.files = s.files
  stdout : s'.stdout = s.stdout ++ checkLines (s.settled n) (listed.filter s.formats)

namespace Checks

variable {listed : List Text}

theorem entry?_eq (h : Checks n listed s s₁) (file : Text) : s₁.entry? file = s.entry? file := by
  rw [Shell.entry?, h.files, h.directory, Shell.entry?]

theorem formats_eq (h : Checks n listed s s₁) (file : Text) : s₁.formats file = s.formats file := by
  rw [Shell.formats, h.entry?_eq, Shell.formats]

theorem settled_eq (h : Checks n listed s s₁) (file : Text) :
    s₁.settled n file = s.settled n file := by
  rw [Shell.settled, h.entry?_eq, Shell.settled]

theorem cons (first : Checks n [file] s s₁) (others : Checks n listed s₁ s₂) :
    Checks n (file :: listed) s s₂ where
  directory := others.directory.trans first.directory
  files := others.files.trans first.files
  stdout := by
    rw [others.stdout, first.stdout, funext first.formats_eq, funext first.settled_eq,
      List.append_assoc, checkLines, checkLines, ← List.flatMap_append, ← List.filter_append]
    rfl

end Checks

namespace Reformats

variable {files : List Text}

theorem entry?_of_mem (h : Reformats n (files.map (Path.resolve s.directory)) s s₁)
    (mem : file ∈ files) : s₁.entry? file = (s.entry? file).map (Entry.formatted n) := by
  rw [h.entry?_eq, if_pos (List.mem_map_of_mem mem)]

theorem entry?_of_not_formats (h : Reformats n (files.map (Path.resolve s.directory)) s s₁)
    (mem : file ∈ files) (bad : s.formats file = false) : s₁.entry? file = s.entry? file := by
  rw [h.entry?_of_mem mem]
  cases found : s.entry? file with
  | none => rfl
  | some entry =>
    rw [Option.map_some, Entry.formatted_of_not_formats ((formats_of_entry found).symm.trans bad)]

/-- A file without errors is left as it is if it is as formatting makes it. -/
theorem settled_iff (h : Reformats n (files.map (Path.resolve s.directory)) s s₁)
    (mem : file ∈ files) (good : s.formats file) :
    s.settled n file ↔ s₁.entry? file = s.entry? file := by
  obtain ⟨source, found, -⟩ := formats_iff.mp good
  rw [h.entry?_of_mem mem, found, Option.map_some, Option.some.injEq, Shell.settled, found,
    Option.all_some]
  exact Entry.settled_iff

end Reformats

theorem rewrite?_eq_none_iff :
    s.files.rewrite? n (Path.resolve s.directory file) = none ↔ s.settled n file := by
  rw [FileSystem.rewrite?, ← Shell.entry?, Shell.settled]
  cases s.entry? file with
  | none => simp
  | some entry =>
    rw [Option.bind_some, Option.all_some, Entry.rewrite?_eq_none_iff, Entry.settled_iff]

theorem settled_of_not_formats (bad : s.formats file = false) : s.settled n file := by
  rw [Shell.settled]
  cases found : s.entry? file with
  | none => rfl
  | some entry =>
    rw [Option.all_some, Entry.settled_iff]
    exact Entry.formatted_of_not_formats ((formats_of_entry found).symm.trans bad) n

/-- The listed files that are not written are those that are as formatting makes them. -/
theorem not_written_iff {files : List Text} {writes : List (Path × Text)}
    (rewrites : s.files.Rewrites n (files.map (Path.resolve s.directory)) writes)
    (mem : file ∈ files) :
    Path.resolve s.directory file ∉ writes.map Prod.fst ↔ s.settled n file := by
  have written : Path.resolve s.directory file ∈ writes.map Prod.fst ↔
      ∃ text, s.files.rewrite? n (Path.resolve s.directory file) = some text := by
    simp only [List.mem_map, Prod.exists, exists_and_right, exists_eq_right, rewrites.mem_iff]
    exact exists_congr fun text => and_iff_right ⟨file, mem, rfl⟩
  rw [written, ← Option.ne_none_iff_exists', not_not, rewrite?_eq_none_iff]

theorem run_formatFile_checks {annotate stdout : Bool} (plain : ¬ (stdout ∧ annotate))
    (readable : s.entry? file ≠ some .directory) :
    ∃ s', (formatFile ⟨n, annotate, true, stdout⟩ file).run s =
        .ok (s.formats file && s.settled n file) s' ∧ Checks n [file] s s' := by
  cases good : s.formats file with
  | false =>
    obtain ⟨message, ran⟩ := run_formatFile_of_not_formats ⟨n, annotate, true, stdout⟩ readable good
    exact ⟨_, ran, rfl, rfl, by simp [good, checkLines]⟩
  | true =>
    obtain ⟨source, found, clean⟩ := formats_iff.mp good
    obtain ⟨text, made, -, -, -⟩ := Entry.exists_formatted clean n
    have known : s.settled n file = decide (source = text) := by
      rw [Shell.settled, found, Option.all_some, Entry.settled, made]
    have ran := run_formatFile_check ⟨n, annotate, true, stdout⟩ rfl found
      (by rwa [if_neg (by simpa using plain)])
    rw [← known] at ran
    exact ⟨_, ran, rfl, rfl, by simp [good, known, checkLines, Shell.tell]⟩

/-- A check says of each file what it would say of it alone. -/
theorem run_forFiles_checks {annotate stdout : Bool} (plain : ¬ (stdout ∧ annotate))
    (files : List Text) (s : Shell) (readable : ∀ file ∈ files, s.entry? file ≠ some .directory) :
    ∃ s', (forFiles (formatFile ⟨n, annotate, true, stdout⟩) files).run s =
        .ok (files.all fun file => s.formats file && s.settled n file) s' ∧ Checks n files s s' := by
  induction files generalizing s with
  | nil => exact ⟨s, rfl, rfl, rfl, by simp [checkLines]⟩
  | cons file rest ih =>
    obtain ⟨s₁, ran, first⟩ := run_formatFile_checks plain (readable file List.mem_cons_self)
    obtain ⟨s₂, later, others⟩ := ih s₁ fun other mem =>
      first.entry?_eq other ▸ readable other (List.mem_cons_of_mem file mem)
    rw [funext first.formats_eq, funext first.settled_eq] at later
    exact ⟨s₂, run_forFiles_cons ran later, first.cons others⟩

/-- A check over files of which none is a directory, unless they are to be printed with annotations,
changes and writes no file. It calls a file without errors formatted if and only if the run in place
leaves it as it is and does not write it, and says of the others that they would be reformatted. A
missing file, or one with errors, is passed over by the check, and the run in place neither changes
nor writes it. The check succeeds if no file is missing, has errors or would change. -/
theorem check_predicts_in_place (n : Nat) (annotate stdout : Bool) (plain : ¬ (stdout ∧ annotate))
    (files : List Text) (s : Shell) (readable : ∀ file ∈ files, s.entry? file ≠ some .directory) :
    ∃ checked s₁ written s₂ writes same,
      (forFiles (formatFile ⟨n, annotate, true, stdout⟩) files).run s = .ok checked s₁ ∧
      (forFiles (formatFile ⟨n, annotate, false, false⟩) files).run s = .ok written s₂ ∧
      s₁.files = s.files ∧ s₁.files.journal = s.files.journal ∧
      s₂.files.journal = s.files.journal ++ writes ∧
      s₁.stdout = s.stdout ++ checkLines same (files.filter s.formats) ∧
      (∀ file ∈ files, s.formats file → (same file ↔ s₂.entry? file = s.entry? file)) ∧
      (∀ file ∈ files, s.formats file = false → s₂.entry? file = s.entry? file) ∧
      (∀ file ∈ files, s.formats file →
        (same file ↔ Path.resolve s.directory file ∉ writes.map Prod.fst)) ∧
      (∀ file ∈ files, s.formats file = false →
        Path.resolve s.directory file ∉ writes.map Prod.fst) ∧
      (checked ↔ ∀ file ∈ files, s.formats file ∧ same file) := by
  obtain ⟨s₁, checked, checks⟩ := run_forFiles_checks plain files s readable
  obtain ⟨s₂, written, changed⟩ := run_forFiles_in_place n annotate files s readable
  obtain ⟨writes, journal, rewrites⟩ := changed.written
  exact ⟨_, s₁, _, s₂, writes, s.settled n, checked, written, checks.files,
    congrArg _ checks.files, journal, checks.stdout, fun file => changed.settled_iff,
    fun file => changed.entry?_of_not_formats, fun file mem _ => (not_written_iff rewrites mem).symm,
    fun file mem bad => (not_written_iff rewrites mem).mpr (settled_of_not_formats bad), by simp⟩

/-- One file is as formatting makes it, one is not and one has an error. -/
theorem check_predicts_in_place_of_three :
    let s : Shell := ⟨"/w", ⟨⟨[("/w/a", .file "int x;\n"), ("/w/b", .file "int  x;"),
      ("/w/c", .file "int x")]⟩, []⟩, [], []⟩
    let files : List Text := ["a", "b", "c"]
    (∀ file ∈ files, s.entry? file ≠ some .directory) ∧
    ∃ s₁ written s₂,
      (forFiles (formatFile ⟨2, false, true, true⟩) files).run s = .ok false s₁ ∧
      (forFiles (formatFile ⟨2, false, false, false⟩) files).run s = .ok written s₂ ∧
      s₁.stdout = "Already formatted: a\nWould reformat: b\n" ∧
      s₂.entry? "a" = s.entry? "a" ∧ s₂.entry? "b" ≠ s.entry? "b" ∧
      s₂.entry? "c" = s.entry? "c" ∧ s₁.files.journal = [] ∧
      ∀ file ∈ files, Path.resolve "/w" file ∈ s₂.files.journal.map Prod.fst ↔ file = "b" := by
  intro s files
  have readable : ∀ file ∈ files, s.entry? file ≠ some .directory := by
    intro file _ found
    simpa [s] using Table.mem_of_find? found
  refine ⟨readable, ?_⟩
  obtain ⟨checked, s₁, written, s₂, writes, same, ran, ran', -, silent, journal, told, good, bad,
    unwritten, passed, all⟩ :=
    check_predicts_in_place 2 false true (by simp) files s readable
  obtain ⟨_, ran'', changed⟩ := run_forFiles_in_place 2 false files s readable
  cases ran'.symm.trans ran''
  have broken_c : (Text.parse "int x").hasErrors = true := by
    rw [Text.parse_eq_parseOnTape]
    decide +kernel
  have format_a : Text.format (.blanks 2) .plain "int x;\n" = .ok (Text.ofString "int x;\n") := by
    apply Text.format_of_toOption
    rw [Text.format, Text.parse_eq_parseOnTape]
    decide +kernel
  have format_b : Text.format (.blanks 2) .plain "int  x;" = .ok (Text.ofString "int x;\n") := by
    apply Text.format_of_toOption
    rw [Text.format, Text.parse_eq_parseOnTape]
    decide +kernel
  have good_a : s.formats "a" := formats_iff.mpr ⟨_, rfl, Text.hasErrors_of_format format_a⟩
  have good_b : s.formats "b" := formats_iff.mpr ⟨_, rfl, Text.hasErrors_of_format format_b⟩
  have bad_c : s.formats "c" = false :=
    (formats_eq_false_iff (readable "c" (by simp [files]))).mpr (.inr ⟨_, rfl, broken_c⟩)
  have stays : s₂.entry? "a" = s.entry? "a" := by
    have found : s.entry? "a" = some (.file "int x;\n") := rfl
    apply (changed.settled_iff (by simp [files]) good_a).mp
    simp [Shell.settled, found, Entry.settled, format_a]
  have moves : s₂.entry? "b" ≠ s.entry? "b" := by
    have found : s.entry? "b" = some (.file "int  x;") := rfl
    have differs : Text.ofString "int  x;" ≠ "int x;\n" := by decide
    rw [ne_eq, ← changed.settled_iff (by simp [files]) good_b]
    simp [Shell.settled, found, Entry.settled, format_b, differs]
  have same_a : same "a" = true := (good "a" (by simp [files]) good_a).mpr stays
  have same_b : same "b" = false :=
    Bool.eq_false_iff.mpr fun h => moves ((good "b" (by simp [files]) good_b).mp h)
  have failed : checked = false := by
    refine Bool.eq_false_iff.mpr fun h => ?_
    simpa [bad_c] using (all.mp h "c" (by simp [files])).1
  have at_a := (unwritten "a" (by simp [files]) good_a).mp same_a
  have at_b : Path.resolve s.directory "b" ∈ writes.map Prod.fst := by
    by_contra absent
    have same := (unwritten "b" (by simp [files]) good_b).mpr absent
    rw [same_b] at same
    cases same
  have at_c := passed "c" (by simp [files]) bad_c
  refine ⟨s₁, _, s₂, failed ▸ ran, ran', ?_, stays, moves, bad "c" (by simp [files]) bad_c, silent,
    ?_⟩
  · have listed : files.filter s.formats = [Text.ofString "a", Text.ofString "b"] := by
      simp [files, good_a, good_b, bad_c]
    rw [told, listed]
    simp only [checkLines, List.flatMap_cons, List.flatMap_nil, same_a, same_b]
    rfl
  · have only : s₂.files.journal = writes := journal
    simp only [files, List.forall_mem_cons, only]
    exact ⟨iff_of_false at_a (by decide), iff_of_true at_b trivial, iff_of_false at_c (by decide),
      by simp⟩

/-- A text with errors is not called formatted, although formatting leaves it. With annotations to be
printed, a check compares a formatted text with the annotated one. -/
theorem check_departs_from_in_place :
    let s : Shell := ⟨"/w", ⟨⟨[("/w/a", .file "int x"),
      ("/w/b", .file "int x;\nvoid f() \x7b\n    x = 1;\n\x7d\n")]⟩, []⟩, [], []⟩
    (∃ s₁ s₂, (forFiles (formatFile ⟨4, false, true, false⟩) ["a"]).run s = .ok false s₁ ∧
      (forFiles (formatFile ⟨4, false, false, false⟩) ["a"]).run s = .ok false s₂ ∧
      s₁.stdout = [] ∧ s₂.entry? "a" = s.entry? "a") ∧
    ∃ s₁ s₂, (forFiles (formatFile ⟨4, true, true, true⟩) ["b"]).run s = .ok false s₁ ∧
      (forFiles (formatFile ⟨4, true, false, false⟩) ["b"]).run s = .ok true s₂ ∧
      s₁.stdout = "Would reformat: b\n" ∧ s₂.entry? "b" = s.entry? "b" := by
  intro s
  have readable : ∀ file, s.entry? file ≠ some .directory := by
    intro file found
    simpa [s] using Table.mem_of_find? found
  constructor
  · have broken : (Text.parse "int x").hasErrors = true := by
      rw [Text.parse_eq_parseOnTape]
      decide +kernel
    have bad : s.formats "a" = false :=
      (formats_eq_false_iff (readable "a")).mpr (.inr ⟨_, rfl, broken⟩)
    have plain : ¬ ((false : Bool) ∧ (false : Bool)) := by simp
    obtain ⟨s₁, ran, checks⟩ := run_forFiles_checks plain [Text.ofString "a"] s
      fun file _ => readable file
    obtain ⟨s₂, ran', changed⟩ := run_forFiles_in_place 4 false [Text.ofString "a"] s
      fun file _ => readable file
    refine ⟨s₁, s₂, ?_, ?_, ?_, changed.entry?_of_not_formats List.mem_cons_self bad⟩
    · simpa [bad] using ran
    · simpa [bad] using ran'
    · simpa [bad, s, checkLines] using checks.stdout
  · have plain : Text.format (.blanks 4) .plain "int x;\nvoid f() \x7b\n    x = 1;\n\x7d\n" =
        .ok "int x;\nvoid f() \x7b\n    x = 1;\n\x7d\n" := by
      apply Text.format_of_toOption
      rw [Text.format, Text.parse_eq_parseOnTape]
      decide +kernel
    have labelled : Text.format (.blanks 4) .resolved "int x;\nvoid f() \x7b\n    x = 1;\n\x7d\n" =
        .ok "int x;\nvoid f() \x7b\n    x(int) = 1;\n\x7d\n" := by
      apply Text.format_of_toOption
      rw [Text.format, Text.parse_eq_parseOnTape]
      decide +kernel
    have found : s.entry? "b" = some (.file "int x;\nvoid f() \x7b\n    x = 1;\n\x7d\n") := rfl
    have ran := run_formatFile_check ⟨4, true, true, true⟩ rfl found labelled
    have settled : s.settled 4 "b" := by
      simp [Shell.settled, found, Entry.settled, plain]
    have good : s.formats "b" := formats_iff.mpr ⟨_, found, Text.hasErrors_of_format plain⟩
    obtain ⟨s₂, ran', changed⟩ := run_forFiles_in_place 4 true [Text.ofString "b"] s
      fun file _ => readable file
    refine ⟨_, s₂, run_forFiles_cons ran rfl, ?_, rfl,
      (changed.settled_iff List.mem_cons_self good).mp settled⟩
    simpa [good] using ran'

end Command

end Cinder

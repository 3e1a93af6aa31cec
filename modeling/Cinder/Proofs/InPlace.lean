import Cinder.Command.Run
import Cinder.Proofs.Canonical

/-!
# Formatting in place

What `fmt` does to a file system. A run writes the listed files that have no errors and are not
formatted yet, and leaves all else alone, whatever names the files are listed under and however
often. After it, every file that can be formatted is, so another run finds nothing to do.
-/
namespace Cinder

/-! ## Entries -/

namespace Entry

/-- A file without errors. -/
def formats : Entry → Bool
  | file source => !source.parse.hasErrors
  | directory => false

/-- What an entry is after it was formatted in place. -/
def formatted (n : Nat) : Entry → Entry
  | file source =>
    match source.format (.blanks n) .plain with
    | .ok text => file text
    | .error _ => file source
  | directory => directory

/-- What formatting in place writes to an entry, if it would change. -/
def rewrite? (n : Nat) : Entry → Option Text
  | file source =>
    match source.format (.blanks n) .plain with
    | .ok text => if source = text then none else some text
    | .error _ => none
  | directory => none

theorem rewrite?_file {source text : Text} {n : Nat} : (file source).rewrite? n = some text ↔
    source.format (.blanks n) .plain = .ok text ∧ source ≠ text := by
  rw [rewrite?]
  cases source.format (.blanks n) .plain with
  | error e => simp
  | ok made =>
    by_cases same : source = made
    · simp only [if_pos same, reduceCtorEq, Except.ok.injEq, false_iff, not_and]
      rintro rfl
      exact absurd same
    · simp only [if_neg same, Option.some.injEq, Except.ok.injEq]
      exact ⟨fun made => ⟨made, made ▸ same⟩, And.left⟩

theorem rewrite?_eq_none_iff {entry : Entry} {n : Nat} :
    entry.rewrite? n = none ↔ entry.formatted n = entry := by
  cases entry with
  | directory => simp [rewrite?, formatted]
  | file source =>
    rw [rewrite?, formatted]
    cases source.format (.blanks n) .plain with
    | error e => simp
    | ok text => simp [eq_comm]

theorem formatted_of_not_formats {entry : Entry} (bad : entry.formats = false) (n : Nat) :
    entry.formatted n = entry := by
  cases entry with
  | directory => rfl
  | file source =>
    have errors : source.parse.hasErrors := by simpa [formats] using bad
    rw [formatted, Text.format_of_hasErrors errors]

/-- A file that formats holds its text afterwards, which formats to itself. -/
theorem exists_formatted {source : Text} (clean : source.parse.hasErrors = false) (n : Nat) :
    ∃ text, source.format (.blanks n) .plain = .ok text ∧ (file source).formatted n = file text ∧
      text.parse.hasErrors = false ∧ text.format (.blanks n) .plain = .ok text := by
  obtain ⟨text, made, clean', again⟩ := Text.exists_format clean n
  exact ⟨text, made, by rw [formatted, made], clean', by rw [again, made]⟩

@[simp] theorem formats_formatted (entry : Entry) (n : Nat) :
    (entry.formatted n).formats = entry.formats := by
  cases good : entry.formats with
  | false => rw [formatted_of_not_formats good, good]
  | true =>
    cases entry with
    | directory => cases good
    | file source =>
      obtain ⟨text, -, new, clean, -⟩ := exists_formatted (by simpa [formats] using good) n
      rw [new, formats, clean]
      rfl

@[simp] theorem formatted_formatted (entry : Entry) (n : Nat) :
    (entry.formatted n).formatted n = entry.formatted n := by
  cases good : entry.formats with
  | false => rw [formatted_of_not_formats good, formatted_of_not_formats good]
  | true =>
    cases entry with
    | directory => cases good
    | file source =>
      obtain ⟨text, -, new, -, again⟩ := exists_formatted (by simpa [formats] using good) n
      rw [new, formatted, again]

@[simp] theorem rewrite?_formatted (entry : Entry) (n : Nat) :
    (entry.formatted n).rewrite? n = none :=
  rewrite?_eq_none_iff.mpr (entry.formatted_formatted n)

end Entry

namespace FileSystem

theorem find?_write (fs : FileSystem) (p q : Path) (text : Text) :
    (fs.write p text).find? q = if q = p then some (.file text) else fs.find? q :=
  Table.find?_insert ..

/-- What formatting in place writes to a path, if what is there would change. -/
def rewrite? (fs : FileSystem) (n : Nat) (p : Path) : Option Text :=
  (fs.find? p).bind (Entry.rewrite? n)

theorem rewrite?_eq_some_iff {fs : FileSystem} {n : Nat} {p : Path} {text : Text} :
    fs.rewrite? n p = some text ↔ ∃ source, fs.find? p = some (.file source) ∧
      source.format (.blanks n) .plain = .ok text ∧ source ≠ text := by
  rw [rewrite?, Option.bind_eq_some_iff]
  constructor
  · rintro ⟨entry, found, changes⟩
    cases entry with
    | directory => cases changes
    | file source => exact ⟨source, found, Entry.rewrite?_file.mp changes⟩
  · rintro ⟨source, found, changes⟩
    exact ⟨_, found, Entry.rewrite?_file.mpr changes⟩

/-- The writes of formatting what is at these paths: to each that would change, once. -/
structure Rewrites (n : Nat) (paths : List Path) (fs : FileSystem)
    (writes : List (Path × Text)) : Prop where
  once : (writes.map Prod.fst).Nodup
  mem_iff : ∀ p text, (p, text) ∈ writes ↔ p ∈ paths ∧ fs.rewrite? n p = some text

end FileSystem

namespace Command

/-! ## One file -/

namespace Shell

/-- What a file name stands for. -/
def entry? (s : Shell) (file : Text) : Option Entry := s.files.find? (Path.resolve s.directory file)

/-- Whether a name stands for a file without errors. -/
def formats (s : Shell) (file : Text) : Bool := (s.entry? file).any Entry.formats

/-- Says something about a file. -/
def tell (s : Shell) (label file : Text) : Shell :=
  { s with stdout := s.stdout ++ (label ++ file ++ [CodeUnit.newline]) }

end Shell

/-- What is said of a file that formatting would not change. -/
def sameLabel (check : Bool) : Text := if check then "Already formatted: " else "Unchanged: "

variable {s s₁ s₂ : Shell} {file : Text} {n : Nat}

theorem formats_of_entry {entry : Entry} (found : s.entry? file = some entry) :
    s.formats file = entry.formats := by
  rw [Shell.formats, found, Option.any_some]

theorem formats_iff : s.formats file ↔
    ∃ source, s.entry? file = some (.file source) ∧ source.parse.hasErrors = false := by
  rw [Shell.formats, Option.any_eq_true]
  constructor
  · rintro ⟨entry, found, good⟩
    cases entry with
    | directory => cases good
    | file source => exact ⟨source, found, by simpa [Entry.formats] using good⟩
  · rintro ⟨source, found, clean⟩
    exact ⟨_, found, by rw [Entry.formats, clean, Bool.not_false]⟩

theorem formats_eq_false_iff (readable : s.entry? file ≠ some .directory) :
    s.formats file = false ↔ s.entry? file = none ∨
      ∃ source, s.entry? file = some (.file source) ∧ source.parse.hasErrors := by
  cases found : s.entry? file with
  | none => simp [Shell.formats, found]
  | some entry =>
    cases entry with
    | directory => exact absurd found readable
    | file source => simp [formats_of_entry found, Entry.formats]

/-! ## Steps -/

theorem run_bind {α β : Type} {x : Run α} {f : α → Run β} {a : α} (ran : x.run s = .ok a s₁) :
    (x >>= f).run s = (f a).run s₁ := by
  change EStateM.bind x f s = _
  rw [EStateM.bind, show x s = _ from ran]
  rfl

theorem run_resolve : (resolve file).run s = .ok (Path.resolve s.directory file) s := rfl

theorem run_readFile_of_missing {path : Path} (missing : s.files.find? path = none) :
    (readFile path).run s = .ok none
      { s with
        stderr := s.stderr ++ ("Error: File not found: " ++ path) ++ [CodeUnit.newline] } := by
  have looked : (get : Run Shell).run s = .ok s s := rfl
  rw [readFile, run_bind looked, missing]
  rfl

theorem run_readFile_of_file {path : Path} {text : Text}
    (found : s.files.find? path = some (.file text)) :
    (readFile path).run s = .ok (some text) s := by
  have looked : (get : Run Shell).run s = .ok s s := rfl
  rw [readFile, run_bind looked, found]
  rfl

/-- A file that is missing or has errors is complained about, and nothing else happens. -/
theorem run_formatFile_of_not_formats (options : FormatOptions)
    (readable : s.entry? file ≠ some .directory) (bad : s.formats file = false) :
    ∃ message, (formatFile options file).run s =
      .ok false { s with stderr := s.stderr ++ message } := by
  rcases (formats_eq_false_iff readable).mp bad with missing | ⟨source, found, errors⟩
  · refine ⟨"Error: File not found: " ++ Path.resolve s.directory file ++ [CodeUnit.newline], ?_⟩
    rw [formatFile, run_bind run_resolve, run_bind (run_readFile_of_missing missing),
      List.append_assoc s.stderr]
    rfl
  · refine ⟨file ++ ": " ++ (FormatError.source source.parse.errors).message
      ++ [CodeUnit.newline], ?_⟩
    rw [formatFile, run_bind run_resolve, run_bind (run_readFile_of_file found)]
    dsimp only
    rw [Text.format_of_hasErrors errors, ← List.append_assoc]
    rfl

/-- A file without errors is compared with its text. -/
theorem run_formatFile_of_text (options : FormatOptions) {source text : Text}
    (found : s.entry? file = some (.file source)) (quiet : options.stdout = false)
    (made : source.format (.blanks options.indentSize) .plain = .ok text) :
    (formatFile options file).run s =
      if source = text then .ok true (s.tell (sameLabel options.check) file)
      else if options.check then .ok false (s.tell "Would reformat: " file)
      else .ok true (Shell.tell
        { s with files := s.files.write (Path.resolve s.directory file) text }
        "Formatted: " file) := by
  rw [formatFile, run_bind run_resolve, run_bind (run_readFile_of_file found)]
  simp only [quiet, Bool.false_and, Bool.false_eq_true, if_false, made]
  by_cases same : source = text
  · cases checks : options.check <;> simp only [same, if_true, sameLabel] <;> rfl
  · cases checks : options.check <;> simp only [same, if_false, if_true] <;> rfl

/-! ## A list of files -/

/-- The shells differ by formatting the files at these paths, and in what was printed. -/
structure Reformats (n : Nat) (paths : List Path) (s s' : Shell) : Prop where
  directory : s'.directory = s.directory
  find? : ∀ path, s'.files.find? path =
    if path ∈ paths then (s.files.find? path).map (Entry.formatted n) else s.files.find? path
  written : ∃ writes, s'.files.journal = s.files.journal ++ writes ∧ s.files.Rewrites n paths writes

namespace Reformats

variable {path : Path} {paths : List Path}

theorem none (n : Nat) (s : Shell) : Reformats n [] s s where
  directory := rfl
  find? _ := by simp
  written := ⟨[], by simp, by simp, by simp⟩

theorem rewrite?_eq (h : Reformats n paths s s₁) (q : Path) :
    s₁.files.rewrite? n q = if q ∈ paths then .none else s.files.rewrite? n q := by
  rw [FileSystem.rewrite?, h.find?]
  split
  · cases s.files.find? q <;> simp
  · rfl

/-- The writes to the first path come before the others, and it is not written again. -/
theorem written_cons (first : Reformats n [path] s s₁) (others : Reformats n paths s₁ s₂) :
    ∃ writes, s₂.files.journal = s.files.journal ++ writes ∧
      s.files.Rewrites n (path :: paths) writes := by
  obtain ⟨here, journal, firsts⟩ := first.written
  obtain ⟨later, journal', rests⟩ := others.written
  have pending := first.rewrite?_eq
  refine ⟨here ++ later, by rw [journal', journal, List.append_assoc], ?_, fun q text => ?_⟩
  · rw [List.map_append]
    refine List.Nodup.append firsts.once rests.once fun q mem mem' => ?_
    obtain ⟨text, mem⟩ : ∃ text, (q, text) ∈ here := by simpa using mem
    obtain ⟨text', mem'⟩ : ∃ text, (q, text) ∈ later := by simpa using mem'
    have found := ((rests.mem_iff _ _).mp mem').2
    rw [pending, if_pos ((firsts.mem_iff _ _).mp mem).1] at found
    cases found
  · rw [List.mem_append, firsts.mem_iff, rests.mem_iff, pending]
    by_cases same : q = path <;> simp [same]

/-- A path may be listed again: what was formatted is formatted to itself. -/
theorem cons (first : Reformats n [path] s s₁) (others : Reformats n paths s₁ s₂) :
    Reformats n (path :: paths) s s₂ where
  written := first.written_cons others
  directory := others.directory.trans first.directory
  find? q := by
    rw [others.find?, first.find?]
    by_cases here : q = path <;> by_cases later : q ∈ paths <;>
      simp [here, later, Function.comp_def]

/-- Nothing is written where the file is as formatting makes it. -/
theorem of_settled (settled : ∀ entry, s.entry? file = some entry → entry.formatted n = entry)
    (directory : s₁.directory = s.directory) (files : s₁.files = s.files) :
    Reformats n [Path.resolve s.directory file] s s₁ where
  directory := directory
  find? q := by
    rw [files]
    split
    · rename_i here
      rw [List.mem_singleton.mp here, ← Shell.entry?]
      cases found : s.entry? file with
      | none => rfl
      | some entry => rw [Option.map_some, settled entry found]
    · rfl
  written := by
    refine ⟨[], by rw [files, List.append_nil], by simp, fun q text => ?_⟩
    simp only [List.not_mem_nil, false_iff, not_and]
    intro here found
    rw [List.mem_singleton.mp here, FileSystem.rewrite?, ← Shell.entry?] at found
    obtain ⟨entry, looked, changes⟩ := Option.bind_eq_some_iff.mp found
    rw [Entry.rewrite?_eq_none_iff.mpr (settled entry looked)] at changes
    cases changes

theorem entry?_eq (h : Reformats n paths s s₁) (file : Text) :
    s₁.entry? file = if Path.resolve s.directory file ∈ paths
      then (s.entry? file).map (Entry.formatted n) else s.entry? file := by
  rw [Shell.entry?, h.directory, h.find?]
  rfl

theorem formats_eq (h : Reformats n paths s s₁) (file : Text) :
    s₁.formats file = s.formats file := by
  rw [Shell.formats, h.entry?_eq]
  split
  · simp only [Option.any_map, Entry.formats_formatted, Shell.formats]
  · rfl

theorem readable (h : Reformats n paths s s₁) (readable : s.entry? file ≠ some .directory) :
    s₁.entry? file ≠ some .directory := by
  rw [h.entry?_eq]
  split
  · cases found : s.entry? file with
    | none => simp
    | some entry =>
      cases entry with
      | directory => exact absurd found readable
      | file source =>
        simp only [Option.map_some, Entry.formatted]
        split <;> simp
  · exact readable

end Reformats

/-- Formatting a file in place rewrites it if it has no errors, and touches no other. -/
theorem run_formatFile_in_place (n : Nat) (annotate : Bool)
    (readable : s.entry? file ≠ some .directory) :
    ∃ s', (formatFile ⟨n, annotate, false, false⟩ file).run s = .ok (s.formats file) s' ∧
      Reformats n [Path.resolve s.directory file] s s' := by
  cases good : s.formats file with
  | false =>
    obtain ⟨message, ran⟩ := run_formatFile_of_not_formats ⟨n, annotate, false, false⟩ readable good
    refine ⟨_, ran, .of_settled (fun entry found => ?_) rfl rfl⟩
    exact Entry.formatted_of_not_formats ((formats_of_entry found).symm.trans good) n
  | true =>
    obtain ⟨source, found, clean⟩ := formats_iff.mp good
    obtain ⟨text, made, new, -, -⟩ := Entry.exists_formatted clean n
    have ran := run_formatFile_of_text ⟨n, annotate, false, false⟩ found rfl made
    by_cases same : source = text
    · rw [if_pos same] at ran
      refine ⟨_, ran, .of_settled (fun entry found' => ?_) rfl rfl⟩
      cases found.symm.trans found'
      rw [new, same]
    · rw [if_neg same] at ran
      refine ⟨_, ran, rfl, fun path => ?_, [(_, text)], rfl, by simp, fun path text' => ?_⟩
      · refine (FileSystem.find?_write ..).trans
          (if_ctx_congr List.mem_singleton.symm (fun here => ?_) fun _ => rfl)
        rw [List.mem_singleton.mp here, ← Shell.entry?, found, Option.map_some, new]
      · have changes : (Entry.file source).rewrite? n = some text :=
          Entry.rewrite?_file.mpr ⟨made, same⟩
        rw [List.mem_singleton, List.mem_singleton, Prod.mk.injEq]
        refine and_congr_right fun here => ?_
        rw [here, FileSystem.rewrite?, ← Shell.entry?, found, Option.bind_some, changes,
          Option.some.injEq, eq_comm]

theorem run_forFiles_cons {action : Text → Run Bool} {first others : Bool} {rest : List Text}
    (ran : (action file).run s = .ok first s₁)
    (later : (forFiles action rest).run s₁ = .ok others s₂) :
    (forFiles action (file :: rest)).run s = .ok (first && others) s₂ := by
  rw [forFiles, run_bind ran, run_bind later]
  rfl

/-- A run in place does to each file what it would do to it alone. -/
theorem run_forFiles_in_place (n : Nat) (annotate : Bool) (files : List Text) (s : Shell)
    (readable : ∀ file ∈ files, s.entry? file ≠ some .directory) :
    ∃ s', (forFiles (formatFile ⟨n, annotate, false, false⟩) files).run s =
        .ok (files.all s.formats) s' ∧
      Reformats n (files.map (Path.resolve s.directory)) s s' := by
  induction files generalizing s with
  | nil => exact ⟨s, rfl, .none n s⟩
  | cons file rest ih =>
    obtain ⟨s₁, ran, first⟩ := run_formatFile_in_place n annotate (readable file List.mem_cons_self)
    obtain ⟨s₂, later, others⟩ := ih s₁ fun other mem =>
      first.readable (readable other (List.mem_cons_of_mem file mem))
    refine ⟨s₂, ?_, first.cons (first.directory ▸ others)⟩
    rw [funext first.formats_eq] at later
    exact run_forFiles_cons ran later

/-! ## Runs that find nothing to do -/

/-- What is said of files that formatting would not change. -/
def sameLines (check : Bool) (files : List Text) : Text :=
  files.flatMap fun file => sameLabel check ++ file ++ [CodeUnit.newline]

/-- The shells differ only in what was printed, which tells of each file without errors that it
stays as it is. -/
structure Stays (check : Bool) (listed : List Text) (s s' : Shell) : Prop where
  directory : s'.directory = s.directory
  files : s'.files = s.files
  stdout : s'.stdout = s.stdout ++ sameLines check (listed.filter s.formats)

namespace Stays

variable {check : Bool} {listed : List Text}

theorem entry?_eq (h : Stays check listed s s₁) (file : Text) : s₁.entry? file = s.entry? file := by
  rw [Shell.entry?, h.files, h.directory, Shell.entry?]

theorem formats_eq (h : Stays check listed s s₁) (file : Text) :
    s₁.formats file = s.formats file := by
  rw [Shell.formats, h.entry?_eq, Shell.formats]

theorem cons (first : Stays check [file] s s₁) (others : Stays check listed s₁ s₂) :
    Stays check (file :: listed) s s₂ where
  directory := others.directory.trans first.directory
  files := others.files.trans first.files
  stdout := by
    rw [others.stdout, first.stdout, funext first.formats_eq, List.append_assoc, sameLines,
      sameLines, ← List.flatMap_append, ← List.filter_append]
    rfl

end Stays

theorem run_formatFile_of_settled (n : Nat) (annotate check : Bool)
    (readable : s.entry? file ≠ some .directory)
    (settled : ∀ entry, s.entry? file = some entry → entry.formatted n = entry) :
    ∃ s', (formatFile ⟨n, annotate, check, false⟩ file).run s = .ok (s.formats file) s' ∧
      Stays check [file] s s' := by
  cases good : s.formats file with
  | false =>
    obtain ⟨message, ran⟩ := run_formatFile_of_not_formats ⟨n, annotate, check, false⟩ readable good
    exact ⟨_, ran, rfl, rfl, by simp [good, sameLines]⟩
  | true =>
    obtain ⟨source, found, clean⟩ := formats_iff.mp good
    obtain ⟨text, made, new, -, -⟩ := Entry.exists_formatted clean n
    have same : source = text := by simpa [new] using (settled _ found).symm
    have ran := run_formatFile_of_text ⟨n, annotate, check, false⟩ found rfl made
    rw [if_pos same] at ran
    exact ⟨_, ran, rfl, rfl, by simp [good, sameLines, Shell.tell]⟩

/-- A run over files that are all as formatting makes them. -/
theorem run_forFiles_of_settled (n : Nat) (annotate check : Bool) (files : List Text) (s : Shell)
    (readable : ∀ file ∈ files, s.entry? file ≠ some .directory)
    (settled : ∀ file ∈ files, ∀ entry, s.entry? file = some entry → entry.formatted n = entry) :
    ∃ s', (forFiles (formatFile ⟨n, annotate, check, false⟩) files).run s =
        .ok (files.all s.formats) s' ∧ Stays check files s s' := by
  induction files generalizing s with
  | nil => exact ⟨s, rfl, rfl, rfl, by simp [sameLines]⟩
  | cons file rest ih =>
    obtain ⟨s₁, ran, first⟩ := run_formatFile_of_settled n annotate check
      (readable file List.mem_cons_self) (settled file List.mem_cons_self)
    obtain ⟨s₂, later, others⟩ := ih s₁
      (fun other mem => first.entry?_eq other ▸ readable other (List.mem_cons_of_mem file mem))
      (fun other mem => first.entry?_eq other ▸ settled other (List.mem_cons_of_mem file mem))
    rw [funext first.formats_eq] at later
    exact ⟨s₂, run_forFiles_cons ran later, first.cons others⟩

/-- Formatting in place, with no directory among the files, always comes to an end. A listed file
without errors then holds its formatted text, and every other path what it held before. Those that
change are written, each once, and nothing else is. The exit code is 1 if a listed file is missing
or has errors. Another run, in place or to check, changes and writes no file, has the same exit code
and says of each file without errors that it stays as it is. -/
theorem in_place_converges (n : Nat) (annotate : Bool) (files : List Text) (s : Shell)
    (readable : ∀ file ∈ files, s.entry? file ≠ some .directory) :
    ∃ success s', (forFiles (formatFile ⟨n, annotate, false, false⟩) files).run s = .ok success s' ∧
      s'.directory = s.directory ∧
      (∀ file ∈ files, ∀ source, s.entry? file = some (.file source) →
        source.parse.hasErrors = false →
        ∃ text, source.format (.blanks n) .plain = .ok text ∧ s'.entry? file = some (.file text)) ∧
      (∀ path, (path ∈ files.map (Path.resolve s.directory) →
          ∀ source, s.files.find? path = some (.file source) → source.parse.hasErrors) →
        s'.files.find? path = s.files.find? path) ∧
      (∃ writes, s'.files.journal = s.files.journal ++ writes ∧ (writes.map Prod.fst).Nodup ∧
        ∀ path text, (path, text) ∈ writes ↔ path ∈ files.map (Path.resolve s.directory) ∧
          ∃ source, s.files.find? path = some (.file source) ∧
            source.format (.blanks n) .plain = .ok text ∧ source ≠ text) ∧
      (exitCode success = 1 ↔ ∃ file ∈ files, s.entry? file = none ∨
        ∃ source, s.entry? file = some (.file source) ∧ source.parse.hasErrors) ∧
      ∀ check, ∃ s'',
        (forFiles (formatFile ⟨n, annotate, check, false⟩) files).run s' = .ok success s'' ∧
        s''.files = s'.files ∧ s''.files.journal = s'.files.journal ∧
        s''.stdout = s'.stdout ++ sameLines check (files.filter s.formats) := by
  obtain ⟨s', ran, changed⟩ := run_forFiles_in_place n annotate files s readable
  refine ⟨files.all s.formats, s', ran, changed.directory, ?_, ?_, ?_, ?_, fun check => ?_⟩
  · intro file mem source found clean
    obtain ⟨text, made, new, -, -⟩ := Entry.exists_formatted clean n
    refine ⟨text, made, ?_⟩
    rw [changed.entry?_eq, if_pos (List.mem_map_of_mem mem), found, Option.map_some, new]
  · intro path apart
    rw [changed.find?]
    split
    · rename_i listed
      cases found : s.files.find? path with
      | none => rfl
      | some entry =>
        have bad : entry.formats = false := by
          cases entry with
          | directory => rfl
          | file source => rw [Entry.formats, apart listed source found, Bool.not_true]
        rw [Option.map_some, Entry.formatted_of_not_formats bad]
    · rfl
  · obtain ⟨writes, journal, rewrites⟩ := changed.written
    refine ⟨writes, journal, rewrites.once, fun path text => ?_⟩
    rw [rewrites.mem_iff]
    exact and_congr_right fun _ => FileSystem.rewrite?_eq_some_iff
  · have failed : exitCode (files.all s.formats) = 1 ↔ ∃ file ∈ files, s.formats file = false := by
      simp [exitCode]
    rw [failed]
    refine exists_congr fun file => and_congr_right fun mem => ?_
    exact formats_eq_false_iff (readable file mem)
  · have settled : ∀ file ∈ files, ∀ entry, s'.entry? file = some entry →
        entry.formatted n = entry := by
      intro file mem entry found
      rw [changed.entry?_eq, if_pos (List.mem_map_of_mem mem), Option.map_eq_some_iff] at found
      obtain ⟨old, -, rfl⟩ := found
      exact old.formatted_formatted n
    obtain ⟨s'', again, stays⟩ := run_forFiles_of_settled n annotate check files s'
      (fun file mem => changed.readable (readable file mem)) settled
    rw [funext changed.formats_eq] at again
    exact ⟨s'', again, stays.files, congrArg _ stays.files,
      funext changed.formats_eq ▸ stays.stdout⟩

/-- One file is listed under two names, another has an error and a third is missing. -/
theorem in_place_converges_two_names :
    let s : Shell := ⟨"/w", ⟨⟨[("/w/a", .file "int  x ;"), ("/w/b", .file "x")]⟩, []⟩, [], []⟩
    let files : List Text := ["a", "b", "./a", "c"]
    (∀ file ∈ files, s.entry? file ≠ some .directory) ∧
    ∃ s', (forFiles (formatFile ⟨2, false, false, false⟩) files).run s = .ok false s' ∧
      s'.entry? "a" = some (.file "int x;\n") ∧
      s'.files.find? "/w/b" = some (.file "x") ∧
      s'.files.journal = [(("/w/a" : Text), ("int x;\n" : Text))] := by
  intro s files
  have at_a : s.entry? "a" = some (.file "int  x ;") := rfl
  have at_b : s.files.find? "/w/b" = some (.file "x") := rfl
  have at_c : s.entry? "c" = none := rfl
  have broken : (Text.parse "x").hasErrors = true := by
    rw [Text.parse_eq_parseOnTape]
    decide +kernel
  have same : Text.format (.blanks 2) .plain "int  x ;" = .ok (Text.ofString "int x;\n") := by
    apply Text.format_of_toOption
    rw [Text.format, Text.parse_eq_parseOnTape]
    decide +kernel
  have readable : ∀ file ∈ files, s.entry? file ≠ some .directory := by
    intro file _ found
    simpa [s] using Table.mem_of_find? found
  refine ⟨readable, ?_⟩
  obtain ⟨success, s', ran, -, formatted, others, ⟨writes, journal, once, listed⟩, code, -⟩ :=
    in_place_converges 2 false files s readable
  have failed : exitCode success = 1 := code.mpr ⟨"c", by simp [files], .inl at_c⟩
  obtain ⟨text, made, written⟩ := formatted "a" (by simp [files]) "int  x ;" at_a
    (Text.hasErrors_of_format same)
  refine ⟨s', ?_, ?_, ?_, ?_⟩
  · cases success with
    | true => cases failed
    | false => exact ran
  · rw [written, Except.ok.inj (made.symm.trans same)]
  · rw [others "/w/b" fun _ source found => ?_, at_b]
    cases at_b.symm.trans found
    exact broken
  · have only : ∀ write, write ∈ writes ↔ write ∈ [(("/w/a" : Text), ("int x;\n" : Text))] := by
      rintro ⟨path, text⟩
      rw [listed, List.mem_singleton, Prod.mk.injEq]
      constructor
      · rintro ⟨-, source, found, made, -⟩
        have stored : (path, Entry.file source) ∈
            [(Text.ofString "/w/a", .file "int  x ;"), ("/w/b", .file "x")] :=
          Table.mem_of_find? found
        rcases List.mem_cons.mp stored with here | later
        · cases here
          exact ⟨rfl, (Except.ok.inj (same.symm.trans made)).symm⟩
        · cases List.mem_singleton.mp later
          cases (Text.format_of_hasErrors broken _ _).symm.trans made
      · rintro ⟨rfl, rfl⟩
        have resolved : Path.resolve s.directory "a" = "/w/a" := rfl
        exact ⟨List.mem_map.mpr ⟨"a", by simp [files], resolved⟩, _, resolved ▸ at_a, same,
          by decide⟩
    have exact := (List.perm_ext_iff_of_nodup (.of_map _ once) (by simp)).mpr only
    rw [journal, List.perm_singleton.mp exact]
    rfl

end Command

end Cinder

import Cinder.Command.Line
import Mathlib.Tactic.ByContra

/-!
# Groups of arguments

The arguments of a command are groups one after the other: a file, a flag, or an option together
with its value, whatever the value looks like. Main result: a command line is read exactly if it is
made of groups that are allowed, it says what the groups say, and otherwise the argument at which
the groups end is named. Groups that stand next to each other can be exchanged, unless both are files
or both set the same option.
-/
namespace Cinder.Command

def Flag.spelling : Flag → Text
  | check => "--check"
  | stdout => "--stdout"
  | annotate => "--annotate"
  | warningsAsErrors => "--warnings-as-errors"

def Setting.spelling : Setting → Text
  | indent => "--indent"
  | config => "--config"

/-- The unit that options begin with. -/
def dash : CodeUnit := CodeUnit.ofChar '-'

inductive Group where
  | file (name : Text)
  | flag (f : Flag)
  | setting (s : Setting) (value : Text)

namespace Group

/-- The arguments that a group is written with. -/
def args : Group → List Text
  | file name => [name]
  | flag f => [f.spelling]
  | setting s value => [s.spelling, value]

/-- A file does not begin with a dash; an option is one of those that are allowed. -/
def Allowed (allowed : List Text) : Group → Prop
  | file name => name.head? ≠ some dash
  | flag f => f.spelling ∈ allowed
  | setting s _ => s.spelling ∈ allowed

def file? : Group → Option Text
  | file name => some name
  | _ => none

def isFlag (f : Flag) : Group → Bool
  | flag g => f = g
  | _ => false

def value? (s : Setting) : Group → Option Text
  | setting t value => if s = t then some value else none
  | _ => none

/-- Groups whose order can make a difference. -/
inductive Compete : Group → Group → Prop where
  | files (name other : Text) : Compete (file name) (file other)
  | values (s : Setting) (value other : Text) : Compete (setting s value) (setting s other)

end Group

/-- What groups say: all the files in order, the flags that occur, and the last value of each
option. -/
def Line.ofGroups (groups : List Group) : Line where
  files := groups.filterMap Group.file?
  indentSize := (groups.filterMap (Group.value? .indent)).getLast?.map Number.read
  configPath := (groups.filterMap (Group.value? .config)).getLast?
  check := groups.any (Group.isFlag .check)
  stdout := groups.any (Group.isFlag .stdout)
  annotate := groups.any (Group.isFlag .annotate)
  warningsAsErrors := groups.any (Group.isFlag .warningsAsErrors)

/-- No group that is allowed begins with `arg` and goes on with `rest`: it is an option that is not
allowed, or its value is missing. -/
inductive Refused (allowed : List Text) : Text → List Text → UsageError → Prop where
  | unknownOption {arg : Text} {rest : List Text} (option : arg.head? = some dash)
      (other : arg ∉ allowed) : Refused allowed arg rest (.unknownOption arg)
  | missingValue {s : Setting} (listed : s.spelling ∈ allowed) :
      Refused allowed s.spelling [] (.missingValue s.spelling)

/-! ## Spellings -/

theorem lookup_flag (f : Flag) : choices.lookup f.spelling = some (.flag f) := by
  cases f <;> rfl

theorem lookup_setting (s : Setting) : choices.lookup s.spelling = some (.setting s) := by
  cases s <;> rfl

theorem head?_flag (f : Flag) : f.spelling.head? = some dash := by
  cases f <;> rfl

theorem head?_setting (s : Setting) : s.spelling.head? = some dash := by
  cases s <;> rfl

/-- Each of the options is spelled as a flag or as an option with a value. -/
theorem choice_cases {arg : Text} (known : arg ∈ choices.map Prod.fst) :
    (∃ f : Flag, arg = f.spelling) ∨ ∃ s : Setting, arg = s.spelling := by
  simp only [choices, List.map_cons, List.map_nil, List.mem_cons, List.not_mem_nil,
    or_false] at known
  rcases known with rfl | rfl | rfl | rfl | rfl | rfl
  · exact .inl ⟨.check, rfl⟩
  · exact .inl ⟨.stdout, rfl⟩
  · exact .inl ⟨.annotate, rfl⟩
  · exact .inl ⟨.warningsAsErrors, rfl⟩
  · exact .inr ⟨.indent, rfl⟩
  · exact .inr ⟨.config, rfl⟩

namespace Line

variable {allowed : List Text}

/-- A line that a group is added to. -/
def add (line : Line) : Group → Line
  | .file name => line.addFile name
  | .flag f => line.raise f
  | .setting s value => line.set value s

/-! ## Reading groups -/

/-- An option that is allowed is looked up. -/
theorem extend_option {arg : Text} (option : arg.head? = some dash) (listed : arg ∈ allowed)
    (line : Line) (rest : List Text) :
    extend allowed line (arg :: rest) =
      match choices.lookup arg with
      | none => extend allowed line rest
      | some (.flag f) => extend allowed (line.raise f) rest
      | some (.setting s) =>
        match rest with
        | [] => .error (.missingValue arg)
        | value :: rest => extend allowed (line.set value s) rest := by
  have dashed : (arg.head? != some 45) = false := by
    rw [option]
    rfl
  have accepted : (!allowed.contains arg) = false := by simpa using listed
  have unfolded := extend.eq_def allowed line (arg :: rest)
  simp only [dashed, accepted, Bool.false_eq_true, if_false] at unfolded
  exact unfolded

theorem extend_group {g : Group} (fits : g.Allowed allowed) (line : Line) (rest : List Text) :
    extend allowed line (g.args ++ rest) = extend allowed (line.add g) rest := by
  cases g with
  | file name =>
    have plain : (name.head? != some 45) = true := bne_iff_ne.mpr fits
    simp [Group.args, extend, plain, add]
  | flag f =>
    rw [Group.args, List.singleton_append, extend_option (head?_flag f) fits, lookup_flag]
    rfl
  | setting s value =>
    rw [Group.args, List.cons_append, extend_option (head?_setting s) fits, lookup_setting]
    rfl

theorem extend_groups {groups : List Group} (fit : ∀ g ∈ groups, g.Allowed allowed) (line : Line)
    (rest : List Text) :
    extend allowed line (groups.flatMap Group.args ++ rest)
      = extend allowed (groups.foldl add line) rest := by
  induction groups generalizing line with
  | nil => rfl
  | cons g groups ih =>
    obtain ⟨here, others⟩ := List.forall_mem_cons.mp fit
    rw [List.flatMap_cons, List.append_assoc, extend_group here, ih others, List.foldl_cons]

theorem extend_refused {arg : Text} {rest : List Text} {e : UsageError}
    (refused : Refused allowed arg rest e) (line : Line) :
    extend allowed line (arg :: rest) = .error e := by
  cases refused with
  | unknownOption option other =>
    have dashed : (arg.head? != some 45) = false := by
      rw [option]
      rfl
    simp [extend.eq_def allowed line, dashed, other]
  | @missingValue s listed =>
    rw [extend_option (head?_setting s) listed, lookup_setting]

/-! ## What groups say -/

theorem ofGroups_concat (groups : List Group) (g : Group) :
    ofGroups (groups ++ [g]) = (ofGroups groups).add g := by
  cases g with
  | file name => simp [ofGroups, add, addFile, Group.file?, Group.value?, Group.isFlag]
  | flag f => cases f <;> simp [ofGroups, add, raise, Group.file?, Group.value?, Group.isFlag]
  | setting s value =>
    cases s <;> simp [ofGroups, add, set, Group.file?, Group.value?, Group.isFlag]

theorem foldl_add (before groups : List Group) :
    groups.foldl add (ofGroups before) = ofGroups (before ++ groups) := by
  induction groups generalizing before with
  | nil => rw [List.append_nil, List.foldl_nil]
  | cons g groups ih =>
    rw [List.foldl_cons, ← ofGroups_concat, ih, List.append_assoc, List.singleton_append]

theorem parse_groups {groups : List Group} (fit : ∀ g ∈ groups, g.Allowed allowed) :
    parse allowed (groups.flatMap Group.args) = .ok (ofGroups groups) := by
  have read := extend_groups fit empty []
  rw [List.append_nil] at read
  rw [parse, read, extend]
  exact congrArg Except.ok (foldl_add [] groups)

/-! ## Splitting arguments -/

/-- Arguments are groups that are allowed, up to an argument with which none begins. -/
def Splits (allowed args : List Text) : Prop :=
  ∃ groups : List Group, (∀ g ∈ groups, g.Allowed allowed) ∧
    (args = groups.flatMap Group.args ∨
      ∃ arg rest e, args = groups.flatMap Group.args ++ arg :: rest ∧ Refused allowed arg rest e)

theorem Splits.cons {g : Group} {args : List Text} (fits : g.Allowed allowed)
    (splits : Splits allowed args) : Splits allowed (g.args ++ args) := by
  obtain ⟨groups, fit, whole | ⟨arg, rest, e, whole, refused⟩⟩ := splits
  · exact ⟨g :: groups, List.forall_mem_cons.mpr ⟨fits, fit⟩, .inl (by rw [whole]; rfl)⟩
  · refine ⟨g :: groups, List.forall_mem_cons.mpr ⟨fits, fit⟩, .inr ⟨arg, rest, e, ?_, refused⟩⟩
    rw [whole, List.flatMap_cons, List.append_assoc]

theorem Splits.refused {arg : Text} {rest : List Text} {e : UsageError}
    (refused : Refused allowed arg rest e) : Splits allowed (arg :: rest) :=
  ⟨[], nofun, .inr ⟨arg, rest, e, rfl, refused⟩⟩

theorem splits (known : ∀ option ∈ allowed, option ∈ choices.map Prod.fst) :
    ∀ args, Splits allowed args
  | [] => ⟨[], nofun, .inl rfl⟩
  | arg :: rest => by
    by_cases option : arg.head? = some dash
    · by_cases listed : arg ∈ allowed
      · rcases choice_cases (known arg listed) with ⟨f, rfl⟩ | ⟨s, rfl⟩
        · exact @Splits.cons allowed (.flag f) rest listed (splits known rest)
        · match rest with
          | [] => exact .refused (.missingValue listed)
          | value :: rest =>
            exact @Splits.cons allowed (.setting s value) rest listed (splits known rest)
      · exact .refused (.unknownOption option listed)
    · exact @Splits.cons allowed (.file arg) rest option (splits known rest)

/-! ## Exchanging groups -/

theorem add_comm {a b : Group} (free : ¬ a.Compete b) (line : Line) :
    (line.add a).add b = (line.add b).add a := by
  cases a with
  | file name =>
    cases b with
    | file other => exact absurd (.files name other) free
    | flag f => cases f <;> rfl
    | setting s value => cases s <;> rfl
  | flag f =>
    cases b with
    | file name => cases f <;> rfl
    | flag g => cases f <;> cases g <;> rfl
    | setting s value => cases f <;> cases s <;> rfl
  | setting s value =>
    cases b with
    | file name => cases s <;> rfl
    | flag f => cases s <;> cases f <;> rfl
    | setting t other =>
      cases s <;> cases t
      · exact absurd (.values .indent value other) free
      · rfl
      · rfl
      · exact absurd (.values .config value other) free

theorem parse_exchange {before : List Group} {a b : Group}
    (fit : ∀ g ∈ before ++ [a, b], g.Allowed allowed) (free : ¬ a.Compete b) (rest : List Text) :
    parse allowed ((before ++ [a, b]).flatMap Group.args ++ rest)
      = parse allowed ((before ++ [b, a]).flatMap Group.args ++ rest) := by
  have fit' : ∀ g ∈ before ++ [b, a], g.Allowed allowed := by
    intro g mem
    refine fit g ?_
    simp only [List.mem_append, List.mem_cons, List.not_mem_nil, or_false] at mem ⊢
    exact mem.imp id Or.symm
  rw [parse, parse, extend_groups fit, extend_groups fit', List.foldl_append, List.foldl_append]
  exact congrArg (extend allowed · rest) (add_comm free _)

/-- The options that are allowed are some of the known ones. Then arguments are read exactly if they
are groups that are allowed, and the line says what the groups say. There is an error exactly if
after some groups an argument comes with which no group begins, and the error names it. Two groups
that stand next to each other, whatever comes before and after them, make a difference by their
order only if both are files or both set the same option. -/
theorem line_of_groups (allowed : List Text)
    (known : ∀ option ∈ allowed, option ∈ choices.map Prod.fst) :
    (∀ args line, parse allowed args = .ok line ↔
      ∃ groups : List Group, (∀ g ∈ groups, g.Allowed allowed) ∧
        args = groups.flatMap Group.args ∧ line = ofGroups groups) ∧
    (∀ args e, parse allowed args = .error e ↔
      ∃ (groups : List Group) (arg : Text) (rest : List Text), (∀ g ∈ groups, g.Allowed allowed) ∧
        args = groups.flatMap Group.args ++ arg :: rest ∧ Refused allowed arg rest e) ∧
    ∀ (before : List Group) (a b : Group) (rest : List Text),
      (∀ g ∈ before ++ [a, b], g.Allowed allowed) →
      parse allowed ((before ++ [a, b]).flatMap Group.args ++ rest)
        ≠ parse allowed ((before ++ [b, a]).flatMap Group.args ++ rest) → a.Compete b := by
  have refusal : ∀ {groups : List Group} {arg rest e}, (∀ g ∈ groups, g.Allowed allowed) →
      Refused allowed arg rest e →
      parse allowed (groups.flatMap Group.args ++ arg :: rest) = .error e := by
    intro groups arg rest e fit refused
    rw [parse, extend_groups fit, extend_refused refused]
  refine ⟨?_, ?_, ?_⟩
  · intro args line
    constructor
    · intro read
      obtain ⟨groups, fit, rfl | ⟨arg, rest, e, rfl, refused⟩⟩ := splits known args
      · rw [parse_groups fit] at read
        exact ⟨groups, fit, rfl, (Except.ok.inj read).symm⟩
      · rw [refusal fit refused] at read
        cases read
    · rintro ⟨groups, fit, rfl, rfl⟩
      exact parse_groups fit
  · intro args e
    constructor
    · intro failed
      obtain ⟨groups, fit, rfl | ⟨arg, rest, e', rfl, refused⟩⟩ := splits known args
      · rw [parse_groups fit] at failed
        cases failed
      · rw [refusal fit refused] at failed
        cases failed
        exact ⟨groups, arg, rest, fit, rfl, refused⟩
    · rintro ⟨groups, arg, rest, fit, rfl, refused⟩
      exact refusal fit refused
  · intro before a b rest fit differ
    by_contra free
    exact differ (parse_exchange fit free rest)

/-- In `a --indent --stdout --config` the value of the first option looks like a flag, and the last
option has none. With a value at the end the line is read, and its two options can be exchanged. -/
theorem line_of_groups_value :
    let allowed : List Text := ["--stdout", "--indent", "--config"]
    let groups : List Group := [.file "a", .setting .indent "--stdout", .setting .config "b"]
    (∀ option ∈ allowed, option ∈ choices.map Prod.fst) ∧
      parse allowed ["a", "--indent", "--stdout", "--config"] = .error (.missingValue "--config") ∧
      parse allowed ["a", "--indent", "--stdout", "--config", "b"] = .ok (ofGroups groups) ∧
      parse allowed ["a", "--config", "b", "--indent", "--stdout"] = .ok (ofGroups groups) := by
  intro allowed groups
  have known : ∀ option ∈ allowed, option ∈ choices.map Prod.fst := by decide
  have config : Setting.config.spelling ∈ allowed := by decide
  have fit : ∀ g ∈ groups, g.Allowed allowed := by
    simp only [groups, List.forall_mem_cons]
    refine ⟨?_, ?_, config, nofun⟩
    · exact show (Text.ofString "a").head? ≠ some dash by decide
    · exact show Setting.indent.spelling ∈ allowed by decide
  obtain ⟨reads, fails, exchange⟩ := line_of_groups allowed known
  have read := (reads _ _).mpr ⟨groups, fit, rfl, rfl⟩
  refine ⟨known, ?_, read, ?_⟩
  · refine (fails _ _).mpr
      ⟨groups.take 2, Setting.config.spelling, [], ?_, rfl, .missingValue config⟩
    exact fun g mem => fit g (List.mem_of_mem_take mem)
  · by_contra differ
    have compete := exchange [.file "a"] (.setting .indent "--stdout") (.setting .config "b") [] fit
      fun same => differ (same.symm.trans read)
    cases compete

end Line

end Cinder.Command

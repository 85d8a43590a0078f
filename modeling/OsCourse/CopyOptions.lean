import OsCourse.FileCopy

/-! The options of `copy.c`. The usage text lists `-v` and `-f`, and the code
compares `argv[3]` with `-f` once it has found the target readable. -/
namespace OsCourse.CopyOptions
open Stdio FileCopy

/-- The disk takes `count` bytes: no `fputc` fails and `fclose` flushes the
rest of the buffer. -/
def GetsThrough (faults : Faults) (count : Nat) : Prop :=
  ¬ PutFails faults.puts count ∧ pendingAfter faults.puts count 0 0 ≤ faults.close

/-- `copy` succeeds and the target then holds what the source held, whenever
the disk takes the bytes. -/
def Overwrites (fs : FileSystem) (argv : List String) (source_file target_file : String) : Prop :=
  ∀ faults, GetsThrough faults ((fs.contentOf source_file).getD []).length →
    (copy fs argv faults).1 = .returns 0 ∧
      (copy fs argv faults).2.2.contentOf target_file = fs.contentOf source_file

/-- `copy` returns 1 with the target's content as it was, whatever the disk does. -/
def Refuses (fs : FileSystem) (argv : List String) (target_file : String) : Prop :=
  ∀ faults, (copy fs argv faults).1 = .returns 1 ∧
    (copy fs argv faults).2.2.contentOf target_file = fs.contentOf target_file

/-- An existing target is overwritten with `-f` among the options and left
alone without it, and no missing option is handed to `strcmp`. -/
def ObeysOptions (fs : FileSystem) (program source_file target_file : String)
    (options : List String) : Prop :=
  ((fs.openRead source_file).isSome → (fs.inode target_file).isSome →
    if "-f" ∈ options then
      Overwrites fs (program :: source_file :: target_file :: options) source_file target_file
    else Refuses fs (program :: source_file :: target_file :: options) target_file) ∧
  ∀ faults, (copy fs (program :: source_file :: target_file :: options) faults).1 ≠ .crashes

/-- The disks and options the code serves. `-f` comes first, or is not looked
for since the target cannot be read; then the target can be written and is not
the source itself, unless that is empty. Without `-f` some option is given, or
the target can be neither read nor written. -/
def OptionsServed (fs : FileSystem) (source_file target_file : String)
    (options : List String) : Prop :=
  (fs.openRead source_file).isSome → (fs.inode target_file).isSome →
    if "-f" ∈ options then
      (options.head? = some "-f" ∨ fs.openRead target_file = none) ∧
        (fs.openWrite target_file).isSome ∧
        (fs.inode source_file ≠ fs.inode target_file ∨ fs.contentOf source_file = some [])
    else
      options ≠ [] ∧ (fs.openRead target_file).isSome ∨
        fs.openRead target_file = none ∧ fs.openWrite target_file = none

/-- A disk on which every byte reaches the file at once. -/
def faultless : Faults := ⟨fun _ => .stored 1, 0⟩

instance : Inhabited Faults := ⟨faultless⟩

theorem faultless_put (count : Nat) : ¬ PutFails faultless.puts count := by
  rintro ⟨i, -, k, failed⟩
  cases failed

theorem faultless_gets_through (count : Nat) : GetsThrough faultless count := by
  refine ⟨faultless_put count, Nat.le_of_eq ?_⟩
  suffices none_pending : ∀ i, pendingAfter faultless.puts count i 0 = 0 from none_pending 0
  induction count with
  | zero => intro i; rfl
  | succ count ih => exact fun i => ih (i + 1)

theorem copy_onto_not_crashes (fs : FileSystem) (src : Nat) (target_file : String)
    (faults : Faults) : (copyOnto fs src target_file faults).1 ≠ .crashes := by
  cases opened : fs.openWrite target_file with
  | none => simp [copyOnto, opened]
  | some target =>
    simp only [copyOnto, opened]
    split <;> simp

/-- The null pointer is read exactly when no option is given and both files
can be read. -/
theorem copy_crashes_iff (fs : FileSystem) (program source_file target_file : String)
    (options : List String) (faults : Faults) :
    (copy fs (program :: source_file :: target_file :: options) faults).1 = .crashes ↔
      (fs.openRead source_file).isSome ∧ (fs.openRead target_file).isSome ∧ options = [] := by
  cases source : fs.openRead source_file with
  | none => simp [copy, source]
  | some src =>
    cases target : fs.openRead target_file with
    | none => simp [copy, source, target, copy_onto_not_crashes]
    | some tgt =>
      cases options with
      | nil => simp [copy, source, target]
      | cons flag options =>
        by_cases force : flag = "-f" <;>
          simp [copy, source, target, force, copy_onto_not_crashes]

/-- A target is overwritten exactly when the run is not refused and emptying
the target does not lose bytes of the source. -/
theorem overwrites_iff (fs : FileSystem) (program source_file target_file : String)
    (options : List String) :
    Overwrites fs (program :: source_file :: target_file :: options) source_file target_file ↔
      ¬ Refused fs source_file target_file options ∧
        (fs.inode source_file ≠ fs.inode target_file ∨ fs.contentOf source_file = some []) := by
  by_cases refused : Refused fs source_file target_file options
  · simp only [refused, not_true_eq_false, false_and, iff_false]
    intro overwrites
    exact copy_refused program faultless refused
      (overwrites faultless (faultless_gets_through _)).1
  obtain ⟨src, tgt, after, read, write, goes_on⟩ := copy_not_refused program refused
  obtain ⟨-, emptied, kept, alias_iff⟩ := open_write_spec write
  have source := open_read_inode read
  have before : fs.contentOf source_file = some (fs.content src) := by
    simp [FileSystem.contentOf, source]
  simp only [Overwrites, goes_on, before, refused, not_false_eq_true, true_and, Option.getD_some,
    Option.some.injEq]
  constructor
  · intro overwrites
    obtain ⟨-, copied⟩ := overwrites faultless (faultless_gets_through _)
    by_cases same : fs.inode source_file = fs.inode target_file
    · right
      have aliased : src = tgt := (alias_iff source_file src source).mpr (same ▸ source)
      rw [(copy_onto_outcome src write faultless).2.2, aliased, emptied] at copied
      simpa [copyLoop, fclose, aliased] using copied.symm
    · exact Or.inl same
  · intro separate faults through
    have reads : after.content src = fs.content src := by
      by_cases aliased : src = tgt
      · have same := (alias_iff source_file src source).mp aliased
        rcases separate with distinct | empty
        · exact absurd (source.trans same.symm) distinct
        · rw [aliased, emptied, ← aliased, empty]
      · exact kept src aliased
    obtain ⟨success, -, content⟩ := copy_onto_outcome src write faults
    rw [reads] at success content
    refine ⟨success.mpr through.1, content.trans ?_⟩
    rw [(closed_content_iff faults.puts (fs.content src) faults.close through.1).mpr through.2]

/-- A run leaves the target alone and returns 1 exactly when it is refused
without the missing option being read. -/
theorem refuses_iff (fs : FileSystem) (program source_file target_file : String)
    (options : List String) (source : (fs.openRead source_file).isSome)
    (unforced : "-f" ∉ options) :
    Refuses fs (program :: source_file :: target_file :: options) target_file ↔
      options ≠ [] ∧ (fs.openRead target_file).isSome ∨
        fs.openRead target_file = none ∧ fs.openWrite target_file = none := by
  obtain ⟨src, read⟩ := Option.isSome_iff_exists.mp source
  cases target : fs.openRead target_file with
  | some tgt =>
    cases options with
    | nil => simp [Refuses, copy, read, target]
    | cons flag options =>
      have other : flag ≠ "-f" := fun same => unforced (by simp [same])
      simp [Refuses, copy, read, target, other]
  | none =>
    cases write : fs.openWrite target_file with
    | none => simp [Refuses, copy, copyOnto, read, target, write]
    | some opened =>
      obtain ⟨tgt, after⟩ := opened
      simp only [Option.isSome_none, Bool.false_eq_true, and_false, reduceCtorEq, or_self,
        iff_false]
      intro refuses
      have returned := (copy_onto_outcome src write faultless).1.mpr (faultless_put _)
      have refused := (refuses faultless).1
      simp [copy, read, target, returned] at refused

/-- `copy` obeys its options on exactly these disks and options. -/
theorem copy_obeys_options_iff (fs : FileSystem) (program source_file target_file : String)
    (options : List String) :
    ObeysOptions fs program source_file target_file options ↔
      OptionsServed fs source_file target_file options := by
  have crashes : (∀ faults,
      (copy fs (program :: source_file :: target_file :: options) faults).1 ≠ .crashes) ↔
      ¬ ((fs.openRead source_file).isSome ∧ (fs.openRead target_file).isSome ∧ options = []) := by
    simp only [ne_eq, copy_crashes_iff, forall_const]
  have existing : (fs.openRead target_file).isSome → (fs.inode target_file).isSome := by
    intro read
    obtain ⟨tgt, read⟩ := Option.isSome_iff_exists.mp read
    rw [open_read_inode read, Option.isSome_some]
  rw [ObeysOptions, OptionsServed, crashes]
  by_cases source : (fs.openRead source_file).isSome
  swap
  · simp [source]
  by_cases force : "-f" ∈ options
  · have given : options ≠ [] := List.ne_nil_of_mem force
    have source_found : fs.openRead source_file ≠ none := Option.isSome_iff_ne_none.mp source
    have taken : ¬ Refused fs source_file target_file options ↔
        (options.head? = some "-f" ∨ fs.openRead target_file = none) ∧
          (fs.openWrite target_file).isSome := by
      simp only [Refused, source_found, false_or, not_or, not_and, ne_eq, not_not,
        Option.isSome_iff_ne_none]
      rw [← or_iff_not_imp_left, or_comm]
    simp only [source, force, if_true, overwrites_iff, taken, given, and_false, not_false_eq_true,
      and_true, and_assoc]
  · simp only [source, force, if_false, refuses_iff fs program source_file target_file options
      source force, true_and, forall_const]
    refine and_iff_left_of_imp fun served => ?_
    rintro ⟨read, none_given⟩
    rcases served (existing read) with ⟨given, -⟩ | ⟨unreadable, -⟩
    · exact given none_given
    · rw [unreadable] at read
      cases read

/-- A disk with two files, `txt1.txt` holding the letter `a` and `txt2.txt`
the letter `b`. -/
def twoFiles : FileSystem where
  inode path := if path = "txt1.txt" then some 0 else if path = "txt2.txt" then some 1 else none
  content i := if i = 0 then [0x61] else [0x62]
  readable _ := true
  writable _ := true
  creatable _ := true
  next := 2
  used := by
    intro path i found
    split at found
    · cases found
      exact Nat.two_pos
    · split at found
      · cases found
        exact Nat.one_lt_two
      · cases found

/-- With `-v` before it `-f` is not seen, and the target is left as it was. -/
theorem verbose_hides_force :
    ¬ ∀ (fs : FileSystem) (program source_file target_file : String) (options : List String),
      (∀ option ∈ options, option = "-v" ∨ option = "-f") →
      ObeysOptions fs program source_file target_file options := by
  intro obeys
  have served := (obeys twoFiles "copy" "txt1.txt" "txt2.txt" ["-v", "-f"] (by decide)).1
    (by decide) (by decide)
  rw [if_pos (by decide)] at served
  exact absurd (served ⟨fun _ => .stored 1, 0⟩ (faultless_gets_through _)).1 (by decide)

end OsCourse.CopyOptions

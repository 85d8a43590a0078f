import Mathlib.Logic.Function.Basic
import OsCourse.Stdio

/-! `copy.c`: copying one file over another. Names and files are kept apart,
since two names may denote one file, and the target's bytes pass through a
stdio buffer whose last flush is done by `fclose`. -/
namespace OsCourse.FileCopy
open Stdio

/-- The part of the file system `copy` sees. Files are numbered, `next` is a
number no name uses yet. -/
structure FileSystem where
  inode : String → Option Nat
  content : Nat → List Byte
  readable : Nat → Bool
  writable : Nat → Bool
  /-- Whether a missing file of this name could be created. -/
  creatable : String → Bool
  next : Nat
  used : ∀ path i, inode path = some i → i < next

/-- The bytes a name stands for. -/
def FileSystem.contentOf (fs : FileSystem) (path : String) : Option (List Byte) :=
  (fs.inode path).map fs.content

/-- `fopen(path, "r")` -/
def FileSystem.openRead (fs : FileSystem) (path : String) : Option Nat :=
  (fs.inode path).filter fs.readable

def FileSystem.store (fs : FileSystem) (i : Nat) (bytes : List Byte) : FileSystem :=
  { fs with content := Function.update fs.content i bytes }

/-- The file system with an empty new file under a name not in use. -/
def FileSystem.create (fs : FileSystem) (path : String) : FileSystem :=
  { fs.store fs.next [] with
    inode := Function.update fs.inode path (some fs.next)
    next := fs.next + 1
    used := by
      intro other i found
      by_cases same : other = path
      · subst same
        rw [Function.update_self] at found
        cases found
        exact Nat.lt_succ_self _
      · rw [Function.update_of_ne same] at found
        exact Nat.lt_succ_of_lt (fs.used other i found) }

/-- `fopen(path, "w")` empties the file or creates it. -/
def FileSystem.openWrite (fs : FileSystem) (path : String) : Option (Nat × FileSystem) :=
  match fs.inode path with
  | some i => if fs.writable i then some (i, fs.store i []) else none
  | none => if fs.creatable path then some (fs.next, fs.create path) else none

/-- An output stream: the bytes that reached the file and those in the buffer. -/
structure OutFile where
  written : List Byte
  pending : List Byte

/-- What one `fputc` does: it takes the byte or returns `EOF`, and meanwhile
some of the buffered bytes reach the file. -/
inductive Put where
  | stored (flushed : Nat)
  | failed (flushed : Nat)
  deriving DecidableEq

/-- The write failures of one run: the outcome of each `fputc`, and how many
of the bytes still buffered `fclose` gets to the file. -/
structure Faults where
  puts : Nat → Put
  close : Nat

def fputc (c : Byte) (f : OutFile) : Put → OutFile × Bool
  | .stored k => (⟨f.written ++ (f.pending ++ [c]).take k, (f.pending ++ [c]).drop k⟩, true)
  | .failed k => (⟨f.written ++ f.pending.take k, f.pending.drop k⟩, false)

/-- `fclose` on an output stream leaves these bytes in the file. Its return
value is dropped by the source. -/
def fclose (f : OutFile) (k : Nat) : List Byte := f.written ++ f.pending.take k

/-- The `while` loop of `main` and the value it leaves in `success`. -/
def copyLoop (puts : Nat → Put) : List Byte → Nat → OutFile → OutFile × Nat
  | [], _, tgt => (tgt, 0)
  | c :: src, i, tgt =>
    match fputc c tgt (puts i) with
    | (tgt, true) => copyLoop puts src (i + 1) tgt
    | (tgt, false) => (tgt, 1)

/-- From the opening of the target on. The source is read as the file stands
after that. -/
def copyOnto (fs : FileSystem) (src : Nat) (target_file : String) (faults : Faults) :
    Ending × List String × FileSystem :=
  match fs.openWrite target_file with
  | none => (.returns 1, ["Failed to create target file\n"], fs)
  | some (tgt, fs) =>
    let (out, success) := copyLoop faults.puts (fs.content src) 0 ⟨[], []⟩
    let fs := fs.store tgt (fclose out faults.close)
    if success = 0 then (.returns 0, ["Success\n"], fs)
    else (.returns 1, ["Failed to write to target file\n", "General failure\n"], fs)

/-- `main` of `copy.c`. `flag` is `argv[3]`, a null pointer when it was not given. -/
def copy (fs : FileSystem) (argv : List String) (faults : Faults) :
    Ending × List String × FileSystem :=
  match argv with
  | _ :: source_file :: target_file :: options =>
    let flag := options.head?
    match fs.openRead source_file with
    | none => (.returns 1, ["Failed to open source file\n"], fs)
    | some src =>
      if (fs.openRead target_file).isSome then
        match flag with
        | none => (.crashes, [], fs)
        | some flag =>
          if flag ≠ "-f" then (.returns 1, ["Target file exists\n"], fs)
          else copyOnto fs src target_file faults
      else copyOnto fs src target_file faults
  | _ => (.returns 1, ["Usage: copy <source_file> <target_file> [-v] [-f]\n"], fs)

/-! ## The write loop -/

/-- How many bytes are buffered after `count` successful `fputc` calls. -/
def pendingAfter (puts : Nat → Put) : Nat → Nat → Nat → Nat
  | 0, _, pending => pending
  | count + 1, i, pending =>
    match puts i with
    | .stored k => pendingAfter puts count (i + 1) (pending + 1 - k)
    | .failed k => pendingAfter puts count (i + 1) (pending - k)

/-- Some of the first `count` calls of `fputc` returns `EOF`. -/
def PutFails (puts : Nat → Put) (count : Nat) : Prop := ∃ i < count, ∃ k, puts i = .failed k

/-- Without a failing call every byte is in the file or in the buffer, in
order, and `success` keeps its value. -/
theorem copy_loop_stored (puts : Nat → Put) (src : List Byte) (i : Nat) (tgt : OutFile)
    (stored : ∀ j < src.length, ∃ k, puts (i + j) = .stored k) :
    (copyLoop puts src i tgt).2 = 0 ∧
      (copyLoop puts src i tgt).1.written ++ (copyLoop puts src i tgt).1.pending =
        tgt.written ++ tgt.pending ++ src ∧
      (copyLoop puts src i tgt).1.pending.length =
        pendingAfter puts src.length i tgt.pending.length := by
  induction src generalizing i tgt with
  | nil => simp [copyLoop, pendingAfter]
  | cons c src ih =>
    obtain ⟨k, first⟩ := stored 0 (by simp)
    rw [Nat.add_zero] at first
    have later : ∀ j < src.length, ∃ k, puts (i + 1 + j) = .stored k := by
      intro j bound
      have shifted := stored (j + 1) (by simpa using bound)
      rwa [show i + (j + 1) = i + 1 + j by omega] at shifted
    obtain ⟨flag, bytes, count⟩ := ih (i + 1)
      ⟨tgt.written ++ (tgt.pending ++ [c]).take k, (tgt.pending ++ [c]).drop k⟩ later
    have unfolded : copyLoop puts (c :: src) i tgt = copyLoop puts src (i + 1)
        ⟨tgt.written ++ (tgt.pending ++ [c]).take k, (tgt.pending ++ [c]).drop k⟩ := by
      simp only [copyLoop, first, fputc]
    rw [unfolded]
    refine ⟨flag, ?_, ?_⟩
    · rw [bytes]
      simp only [List.append_assoc, List.append_cancel_left_eq]
      rw [← List.append_assoc, List.take_append_drop, List.append_assoc, List.singleton_append]
    · rw [count]
      simp [pendingAfter, first]

/-- A failing call ends the loop with `success` set to 1. -/
theorem copy_loop_failed (puts : Nat → Put) (src : List Byte) (i : Nat) (tgt : OutFile)
    (fails : ∃ j < src.length, ∃ k, puts (i + j) = .failed k) :
    (copyLoop puts src i tgt).2 = 1 := by
  induction src generalizing i tgt with
  | nil =>
    obtain ⟨j, bound, _⟩ := fails
    exact absurd bound (Nat.not_lt_zero j)
  | cons c src ih =>
    cases first : puts i with
    | failed k => simp only [copyLoop, first, fputc]
    | stored k =>
      simp only [copyLoop, first, fputc]
      apply ih
      obtain ⟨j, bound, l, failed⟩ := fails
      cases j with
      | zero => simp [first] at failed
      | succ j =>
        exact ⟨j, by simpa using bound, l, by rwa [show i + 1 + j = i + (j + 1) by omega]⟩

theorem stored_of_faultless (faultless : ¬ PutFails puts count) :
    ∀ j < count, ∃ k, puts (0 + j) = .stored k := by
  intro j bound
  rw [Nat.zero_add]
  cases outcome : puts j with
  | stored k => exact ⟨k, rfl⟩
  | failed k => exact absurd ⟨j, bound, k, outcome⟩ faultless

theorem copy_loop_success_iff (puts : Nat → Put) (src : List Byte) :
    (copyLoop puts src 0 ⟨[], []⟩).2 = 0 ↔ ¬ PutFails puts src.length := by
  constructor
  · rintro success ⟨j, bound, k, failed⟩
    have ended := copy_loop_failed puts src 0 ⟨[], []⟩
      ⟨j, bound, k, by rwa [Nat.zero_add]⟩
    omega
  · intro faultless
    exact (copy_loop_stored puts src 0 ⟨[], []⟩ (stored_of_faultless faultless)).1

/-- After a loop without failures the file holds the source's bytes exactly
when `fclose` flushes all that is left in the buffer. -/
theorem closed_content_iff (puts : Nat → Put) (src : List Byte) (close : Nat)
    (faultless : ¬ PutFails puts src.length) :
    fclose (copyLoop puts src 0 ⟨[], []⟩).1 close = src ↔
      pendingAfter puts src.length 0 0 ≤ close := by
  obtain ⟨-, bytes, count⟩ :=
    copy_loop_stored puts src 0 ⟨[], []⟩ (stored_of_faultless faultless)
  simp only [List.append_nil, List.nil_append] at bytes
  rw [List.length_nil] at count
  rw [← count, fclose]
  generalize (copyLoop puts src 0 ⟨[], []⟩).1 = out at bytes
  constructor
  · intro whole
    have length := congrArg List.length (whole.trans bytes.symm)
    simp only [List.length_append, List.length_take] at length
    omega
  · intro enough
    rw [List.take_of_length_le enough, bytes]

/-! ## Success and the target's content -/

/-- What a reported success promises: the target now holds what the source
held when the program was started. -/
def FaithfulOnSuccess (fs : FileSystem) (argv : List String) (source_file target_file : String)
    (faults : Faults) : Prop :=
  (copy fs argv faults).1 = .returns 0 → (copy fs argv faults).2.1 = ["Success\n"] →
    (copy fs argv faults).2.2.contentOf target_file = fs.contentOf source_file

/-- The run ends before a byte is copied: an unreadable source, a target that
exists without `-f` as first option, or a target that cannot be written. -/
def Refused (fs : FileSystem) (source_file target_file : String) (options : List String) : Prop :=
  fs.openRead source_file = none ∨
    ((fs.openRead target_file).isSome ∧ options.head? ≠ some "-f") ∨
    fs.openWrite target_file = none

/-- The inputs on which a reported success is honest: the run is refused, or
there is nothing to copy, or source and target are two files and either an
`fputc` fails or `fclose` flushes the rest of the buffer. -/
def KeepsPromise (fs : FileSystem) (source_file target_file : String) (options : List String)
    (faults : Faults) : Prop :=
  Refused fs source_file target_file options ∨ fs.contentOf source_file = some [] ∨
    fs.inode source_file ≠ fs.inode target_file ∧
      (PutFails faults.puts ((fs.contentOf source_file).getD []).length ∨
        pendingAfter faults.puts ((fs.contentOf source_file).getD []).length 0 0 ≤ faults.close)

theorem open_read_inode {fs : FileSystem} (opened : fs.openRead path = some i) :
    fs.inode path = some i := by
  rw [FileSystem.openRead, Option.filter_eq_some_iff] at opened
  exact opened.1

/-- Opening the target for writing leaves it as an empty file of its own,
with the bytes of every other file kept. -/
theorem open_write_spec {fs after : FileSystem} (opened : fs.openWrite path = some (tgt, after)) :
    after.inode path = some tgt ∧ after.content tgt = [] ∧
      (∀ i, i ≠ tgt → after.content i = fs.content i) ∧
      (∀ other i, fs.inode other = some i → (i = tgt ↔ fs.inode path = some i)) := by
  unfold FileSystem.openWrite at opened
  cases found : fs.inode path with
  | some j =>
    simp only [found] at opened
    split at opened
    · cases opened
      refine ⟨found, Function.update_self .., fun i different =>
        Function.update_of_ne different .., fun other i _ => ?_⟩
      simp only [Option.some.injEq, eq_comm]
    · cases opened
  | none =>
    simp only [found] at opened
    split at opened
    · cases opened
      refine ⟨Function.update_self .., Function.update_self .., fun i different =>
        Function.update_of_ne different .., fun other i named => ?_⟩
      have below := fs.used other i named
      simp only [reduceCtorEq, iff_false]
      omega
    · cases opened

/-- Once the target is open, success is reported without any failing `fputc`,
and what the target holds then decides the promise. -/
theorem copy_onto_outcome {fs after : FileSystem} (src : Nat)
    (opened : fs.openWrite target_file = some (tgt, after)) (faults : Faults) :
    ((copyOnto fs src target_file faults).1 = .returns 0 ↔
        ¬ PutFails faults.puts (after.content src).length) ∧
      ((copyOnto fs src target_file faults).1 = .returns 0 →
        (copyOnto fs src target_file faults).2.1 = ["Success\n"]) ∧
      (copyOnto fs src target_file faults).2.2.contentOf target_file =
        some (fclose (copyLoop faults.puts (after.content src) 0 ⟨[], []⟩).1 faults.close) := by
  have target := (open_write_spec opened).1
  rw [← copy_loop_success_iff]
  unfold copyOnto
  simp only [opened]
  cases copyLoop faults.puts (after.content src) 0 ⟨[], []⟩ with
  | mk out success =>
    by_cases success_zero : success = 0 <;>
      simp [success_zero, FileSystem.contentOf, FileSystem.store, target]

/-- A run that is not refused opens both files and copies. -/
theorem copy_not_refused (program : String)
    (goes_on : ¬ Refused fs source_file target_file options) :
    ∃ src tgt after, fs.openRead source_file = some src ∧
      fs.openWrite target_file = some (tgt, after) ∧
      ∀ faults, copy fs (program :: source_file :: target_file :: options) faults =
        copyOnto fs src target_file faults := by
  simp only [Refused, not_or, not_and, not_not] at goes_on
  obtain ⟨source, option, target⟩ := goes_on
  obtain ⟨src, read⟩ := Option.ne_none_iff_exists'.mp source
  obtain ⟨⟨tgt, after⟩, write⟩ := Option.ne_none_iff_exists'.mp target
  refine ⟨src, tgt, after, read, write, fun faults => ?_⟩
  simp only [copy, read]
  split
  · rename_i existing
    simp only [option existing, ne_eq, not_true_eq_false, ↓reduceIte]
  · rfl

/-- A refused run does not report success. -/
theorem copy_refused (program : String) (faults : Faults)
    (refused : Refused fs source_file target_file options) :
    (copy fs (program :: source_file :: target_file :: options) faults).1 ≠ .returns 0 := by
  have no_target (src : Nat) (missing : fs.openWrite target_file = none) :
      (copyOnto fs src target_file faults).1 ≠ .returns 0 := by
    simp [copyOnto, missing]
  simp only [copy]
  cases read : fs.openRead source_file with
  | none => simp
  | some src =>
    rcases refused with source | ⟨existing, option⟩ | target
    · rw [read] at source
      cases source
    · simp only [existing, ↓reduceIte]
      cases first : options.head? with
      | none => simp
      | some flag =>
        have other : flag ≠ "-f" := fun same => option (by rw [first, same])
        simp [other]
    · dsimp only
      split
      · split
        · simp
        · split
          · simp
          · exact no_target src target
      · exact no_target src target

/-- `copy` keeps its promise on exactly these inputs, over all file systems,
options and patterns of write failures. -/
theorem copy_success_faithful_iff (fs : FileSystem) (program source_file target_file : String)
    (options : List String) (faults : Faults) :
    FaithfulOnSuccess fs (program :: source_file :: target_file :: options)
        source_file target_file faults ↔
      KeepsPromise fs source_file target_file options faults := by
  by_cases refused : Refused fs source_file target_file options
  · exact ⟨fun _ => Or.inl refused,
      fun _ success => absurd success (copy_refused program faults refused)⟩
  obtain ⟨src, tgt, after, read, write, goes_on⟩ := copy_not_refused program refused
  obtain ⟨opened, emptied, kept, alias_iff⟩ := open_write_spec write
  obtain ⟨success, printed, content⟩ := copy_onto_outcome src write faults
  have source := open_read_inode read
  have before : fs.contentOf source_file = some (fs.content src) := by
    simp [FileSystem.contentOf, source]
  have promise : FaithfulOnSuccess fs (program :: source_file :: target_file :: options)
      source_file target_file faults ↔
      (¬ PutFails faults.puts (after.content src).length →
        fclose (copyLoop faults.puts (after.content src) 0 ⟨[], []⟩).1 faults.close =
          fs.content src) := by
    rw [FaithfulOnSuccess, goes_on faults, ← success, content, before, Option.some.injEq]
    exact ⟨fun kept returned => kept returned (printed returned), fun kept returned _ => kept returned⟩
  rw [promise, KeepsPromise, before, Option.getD_some, Option.some.injEq,
    or_iff_right refused]
  by_cases same : fs.inode source_file = fs.inode target_file
  · -- the source was emptied together with the target
    have aliased : src = tgt := (alias_iff source_file src source).mpr (same ▸ source)
    have nothing : ¬ PutFails faults.puts ([] : List Byte).length := by
      rintro ⟨i, bound, _⟩
      exact absurd bound (Nat.not_lt_zero i)
    rw [aliased, emptied]
    simp only [nothing, not_false_eq_true, copyLoop, fclose, List.take_nil, List.append_nil,
      forall_const, ne_eq, same, not_true_eq_false, false_and, or_false]
    rw [eq_comm]
  · have distinct : src ≠ tgt := fun aliased =>
      same (source.trans ((alias_iff source_file src source).mp aliased).symm)
    rw [kept src distinct]
    have closing := closed_content_iff faults.puts (fs.content src) faults.close
    by_cases fails : PutFails faults.puts (fs.content src).length
    · simp [fails, same]
    · simp only [fails, not_false_eq_true, forall_const, false_or, ne_eq, same, true_and,
        closing fails]
      refine ⟨Or.inr, ?_⟩
      rintro (empty | enough)
      · simp [empty, pendingAfter]
      · exact enough

/-- A disk with one file, whose one byte is the letter `a`. -/
def oneFile : FileSystem where
  inode path := if path = "txt1.txt" then some 0 else none
  content _ := [0x61]
  readable _ := true
  writable _ := true
  creatable _ := true
  next := 1
  used := by
    intro path i found
    split at found
    · cases found
      exact Nat.one_pos
    · cases found

/-- Copying a file onto itself with `-f` succeeds and empties it, with no
write failing. -/
theorem copy_onto_itself_loses_content :
    ¬ ∀ (fs : FileSystem) (program source_file target_file : String) (options : List String)
      (faults : Faults), FaithfulOnSuccess fs (program :: source_file :: target_file :: options)
        source_file target_file faults := by
  intro faithful
  have kept := faithful oneFile "copy" "txt1.txt" "txt1.txt" ["-f"] ⟨fun _ => .stored 0, 1⟩
    (by decide) (by decide)
  exact absurd kept (by decide)

end OsCourse.FileCopy

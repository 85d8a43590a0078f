import OsCourse.FileCompare
import OsCourse.FileCopy

/-! A copy that is checked: `copy.c` first, then `cmp.c` on its two files. The
check is the only one there is, since `copy` drops what `fclose` returns. -/
namespace OsCourse.CheckedCopy
open Stdio FileCompare FileCopy

/-! ## `main` of `cmp.c` -/

/-- The loop over `argv`, with the option it does not know. -/
def readOptions : List String → (verbose ignore : Bool) → Except String (Bool × Bool)
  | [], verbose, ignore => .ok (verbose, ignore)
  | option :: rest, verbose, ignore =>
    if option = "-v" then readOptions rest true ignore
    else if option = "-i" then readOptions rest verbose true
    else .error option

inductive Output where
  /-- `"Usage: cmp <file1> <file2> [-v] [-i]\n"` -/
  | usage
  /-- `"Unknown option: %s\n"` -/
  | unknownOption (option : String)
  | line (line : Line)
  deriving DecidableEq

def compare (fs : FileSystem) (argv : List String) : Ending × List Output :=
  match argv with
  | _ :: file1 :: file2 :: options =>
    match readOptions options false false with
    | .error option => (.exits 1, [.unknownOption option])
    | .ok (verbose, ignore) =>
      let (ending, lines) := cmp file1 file2 ((fs.openRead file1).map fs.content)
        ((fs.openRead file2).map fs.content) verbose ignore
      (ending, lines.map .line)
  | _ => (.exits 1, [.usage])

/-! ## The property -/

/-- The byte behind the first `0xFF`. -/
def behindFirst : List Byte → Option Byte
  | [] => none
  | x :: rest => if x = 0xFF#8 then rest.head? else behindFirst rest

/-- When the check finds the two equal, with the source named first and with the
target named first. A byte `0xFF` ends the comparison, and what is compared then
is the byte behind it with itself. -/
structure Checks (source target : List Byte) (forward backward : Ending) : Prop where
  arrived : target <+: source
  forward : forward = .returns 0 ↔
    if 0xFF#8 ∈ target then behindFirst source = some 0xFF#8 else source.length ≤ target.length + 1
  backward : backward = .returns 0 ↔
    if 0xFF#8 ∈ target then behindFirst target = some 0xFF#8 else target = source

/-! ## The comparison of a file with a front of it -/

/-- Bytes that are the same in both files only move the numbers on. -/
theorem loop_same (ordinary : x ≠ 0xFF#8) (a b : List Byte) (line_num char_num : Int) :
    ∃ line_num' char_num', cmpLoop file1 file2 verbose ignore (x :: a) (x :: b) line_num char_num =
      cmpLoop file1 file2 verbose ignore a b line_num' char_num' := by
  rw [loop_bytes _ _ _ _ _ _ _ _ ordinary ordinary, if_neg (not_not.mpr rfl)]
  split
  · exact ⟨_, _, rfl⟩
  · exact ⟨_, _, rfl⟩

theorem forward_check (t u : List Byte) (line_num char_num : Int) :
    agreed (cmpLoop file1 file2 verbose ignore (t ++ u) t line_num char_num) = true ↔
      if 0xFF#8 ∈ t then behindFirst (t ++ u) = some 0xFF#8 else u.length ≤ 1 := by
  induction t generalizing line_num char_num with
  | nil =>
    rw [if_neg List.not_mem_nil, List.nil_append]
    cases u with
    | nil => simp [cmpLoop, agreed_after_eof]
    | cons x u =>
      have left : cmpLoop file1 file2 verbose ignore (x :: u) [] line_num char_num =
          ⟨u, [], true, []⟩ := by
        by_cases first : x = 0xFF#8
        · rw [first, loop_ff_first]
        · exact loop_second_ends _ _ _ _ _ _ _ first
      rw [left, agreed_after_eof]
      cases u <;> simp
  | cons x t ih =>
    by_cases first : x = 0xFF#8
    · subst first
      rw [List.cons_append, loop_ff_first, agreed_after_eof, if_pos List.mem_cons_self]
      simp [behindFirst]
    · obtain ⟨line_num', char_num', onward⟩ := loop_same first (t ++ u) t line_num char_num
      rw [List.cons_append, onward, ih]
      simp [behindFirst, first, Ne.symm first]

theorem backward_check (t u : List Byte) (line_num char_num : Int) :
    agreed (cmpLoop file1 file2 verbose ignore t (t ++ u) line_num char_num) = true ↔
      if 0xFF#8 ∈ t then behindFirst t = some 0xFF#8 else u = [] := by
  induction t generalizing line_num char_num with
  | nil =>
    rw [if_neg List.not_mem_nil, List.nil_append]
    cases u <;> simp [cmpLoop, agreed_after_eof]
  | cons x t ih =>
    by_cases first : x = 0xFF#8
    · subst first
      rw [List.cons_append, loop_ff_first, agreed_after_eof, if_pos List.mem_cons_self]
      simp [behindFirst]
    · obtain ⟨line_num', char_num', onward⟩ := loop_same first t (t ++ u) line_num char_num
      rw [List.cons_append, onward, ih]
      simp [behindFirst, first, Ne.symm first]

theorem checks_prefix (t u : List Byte) :
    Checks (t ++ u) t (cmp file1 file2 (some (t ++ u)) (some t) verbose ignore).1
      (cmp file2 file1 (some t) (some (t ++ u)) verbose ignore).1 := by
  have returns_zero (answer : Bool) : Ending.returns (if answer then 0 else 1) = .returns 0 ↔
      answer = true := by cases answer <;> simp
  refine ⟨List.prefix_append t u, ?_, ?_⟩
  · rw [cmp_returns, returns_zero, forward_check, List.length_append, Nat.add_le_add_iff_left]
  · rw [cmp_returns, returns_zero, backward_check]
    simp

/-! ## What a copy leaves -/

theorem readOptions_known (flags : List String) (known : ∀ flag ∈ flags, flag = "-v" ∨ flag = "-i")
    (verbose ignore : Bool) : ∃ found, readOptions flags verbose ignore = .ok found := by
  induction flags generalizing verbose ignore with
  | nil => exact ⟨_, rfl⟩
  | cons flag rest ih =>
    have later := ih fun other listed => known other (List.mem_cons_of_mem flag listed)
    rcases known flag List.mem_cons_self with rfl | rfl
    · exact later true ignore
    · exact later verbose true

/-- Without a failing `fputc` the target has a front of the source. -/
theorem closed_prefix (puts : Nat → Put) (src : List Byte) (close : Nat)
    (faultless : ¬ PutFails puts src.length) :
    fclose (copyLoop puts src 0 ⟨[], []⟩).1 close <+: src := by
  obtain ⟨-, bytes, -⟩ := copy_loop_stored puts src 0 ⟨[], []⟩ (stored_of_faultless faultless)
  refine ⟨(copyLoop puts src 0 ⟨[], []⟩).1.pending.drop close, ?_⟩
  rw [fclose, List.append_assoc, List.take_append_drop, bytes]
  rfl

/-- Opening the target changes no other name, and no file's permissions. -/
theorem open_write_other {fs after : FileSystem} (opened : fs.openWrite path = some (tgt, after)) :
    after.readable = fs.readable ∧ ∀ other, other ≠ path → after.inode other = fs.inode other := by
  unfold FileSystem.openWrite at opened
  cases found : fs.inode path with
  | some i =>
    simp only [found] at opened
    split at opened
    · cases opened
      exact ⟨rfl, fun _ _ => rfl⟩
    · cases opened
  | none =>
    simp only [found] at opened
    split at opened
    · cases opened
      exact ⟨rfl, fun other apart => Function.update_of_ne apart ..⟩
    · cases opened

theorem copy_onto_files {fs after : FileSystem} (src : Nat)
    (opened : fs.openWrite target_file = some (tgt, after)) (faults : Faults) :
    (copyOnto fs src target_file faults).2.2 = after.store tgt
      (fclose (copyLoop faults.puts (after.content src) 0 ⟨[], []⟩).1 faults.close) := by
  simp only [copyOnto, opened]
  split <;> rfl

/-- The file system a successful copy of one file to another leaves. -/
theorem copied_files {fs : FileSystem} (program : String)
    (copied : (copy fs (program :: source_file :: target_file :: options) faults).1 = .returns 0)
    (apart : fs.inode source_file ≠ fs.inode target_file) :
    ∃ source target, target <+: source ∧ fs.contentOf source_file = some source ∧
      let after := (copy fs (program :: source_file :: target_file :: options) faults).2.2
      (after.openRead source_file).map after.content = some source ∧
        after.contentOf target_file = some target := by
  have goes_on : ¬ Refused fs source_file target_file options := fun refused =>
    copy_refused program faults refused copied
  obtain ⟨src, tgt, opened_fs, read, write, copies⟩ := copy_not_refused program goes_on
  obtain ⟨opened, -, kept, alias_iff⟩ := open_write_spec write
  obtain ⟨readable, names⟩ := open_write_other write
  obtain ⟨success, -, content⟩ := copy_onto_outcome src write faults
  have source := open_read_inode read
  have distinct : src ≠ tgt := fun aliased =>
    apart (source.trans ((alias_iff source_file src source).mp aliased).symm)
  have name_apart : source_file ≠ target_file := fun same => apart (congrArg fs.inode same)
  rw [copies faults] at copied ⊢
  have faultless := success.mp copied
  rw [kept src distinct] at faultless content
  refine ⟨fs.content src, _, closed_prefix faults.puts _ faults.close faultless, ?_, ?_, content⟩
  · simp [FileSystem.contentOf, source]
  · have still_read : (opened_fs.store tgt
        (fclose (copyLoop faults.puts (opened_fs.content src) 0 ⟨[], []⟩).1 faults.close)).openRead
          source_file = some src := by
      rw [← read]
      unfold FileSystem.openRead FileSystem.store
      rw [names source_file name_apart, readable]
    rw [copy_onto_files src write faults, still_read, Option.map_some]
    exact congrArg some ((Function.update_of_ne distinct ..).trans (kept src distinct))

theorem compare_known (fs : FileSystem) (checker : String) (flags : List String)
    (known : ∀ flag ∈ flags, flag = "-v" ∨ flag = "-i") :
    ∃ verbose ignore, ∀ file1 file2, (compare fs (checker :: file1 :: file2 :: flags)).1 =
      (cmp file1 file2 ((fs.openRead file1).map fs.content) ((fs.openRead file2).map fs.content)
        verbose ignore).1 := by
  obtain ⟨⟨verbose, ignore⟩, found⟩ := readOptions_known flags known false false
  refine ⟨verbose, ignore, fun file1 file2 => ?_⟩
  simp only [compare, found]

/-- A copy between two files that reports success may still have lost the end of
the file. Checked with the target named first the loss is found, unless a byte
`0xFF` is among the copied ones; with the source named first, the loss of one
byte is not. -/
theorem checked_copy (fs : FileSystem) (program checker source_file target_file : String)
    (options flags : List String) (faults : Faults)
    (copied : (copy fs (program :: source_file :: target_file :: options) faults).1 = .returns 0)
    (apart : fs.inode source_file ≠ fs.inode target_file)
    (readable : ((copy fs (program :: source_file :: target_file :: options)
      faults).2.2.openRead target_file).isSome)
    (known : ∀ flag ∈ flags, flag = "-v" ∨ flag = "-i") :
    let after := (copy fs (program :: source_file :: target_file :: options) faults).2.2
    ∃ source target, fs.contentOf source_file = some source ∧
      after.contentOf target_file = some target ∧
      Checks source target (compare after (checker :: source_file :: target_file :: flags)).1
        (compare after (checker :: target_file :: source_file :: flags)).1 := by
  intro after
  obtain ⟨source, target, ⟨u, rfl⟩, before, still, arrived⟩ := copied_files program copied apart
  obtain ⟨verbose, ignore, compares⟩ := compare_known after checker flags known
  refine ⟨target ++ u, target, before, arrived, ?_⟩
  obtain ⟨i, opened⟩ := Option.isSome_iff_exists.mp readable
  have target_read : (after.openRead target_file).map after.content = some target := by
    rw [← arrived, FileSystem.contentOf, open_read_inode opened, opened]
  rw [compares, compares, still, target_read]
  exact checks_prefix target u

/-- A disk that takes no byte: the copy says "Success", and is checked. -/
theorem lost_byte_passes : ∃ source target, oneFile.contentOf "txt1.txt" = some source ∧
    (copy oneFile ["copy", "txt1.txt", "txt2.txt"] ⟨fun _ => .stored 0, 0⟩).2.2.contentOf
      "txt2.txt" = some target ∧
    Checks source target
      (compare (copy oneFile ["copy", "txt1.txt", "txt2.txt"] ⟨fun _ => .stored 0, 0⟩).2.2
        ["cmp", "txt1.txt", "txt2.txt", "-v"]).1
      (compare (copy oneFile ["copy", "txt1.txt", "txt2.txt"] ⟨fun _ => .stored 0, 0⟩).2.2
        ["cmp", "txt2.txt", "txt1.txt", "-v"]).1 :=
  checked_copy oneFile "copy" "cmp" "txt1.txt" "txt2.txt" [] ["-v"] ⟨fun _ => .stored 0, 0⟩
    (by decide) (by decide) (by decide) fun flag listed => Or.inl (List.mem_singleton.mp listed)

end OsCourse.CheckedCopy

import OsCourse.Stdio
import Mathlib.Data.BitVec

/-! `calculateChecksum` of `stnc.c`: the sum of the bytes of a file as signed
`char`s, read in chunks until the end of the file is reported. -/
namespace OsCourse.FileChecksum
open Stdio

/-- What a name stands for in the working directory. Opening a file that is
not readable fails; a directory can be opened for reading and never read. -/
inductive Entry where
  | file (content : List Byte) (readable writable : Bool)
  | directory
  deriving DecidableEq, Repr

/-- The working directory. Each name leads to a place, which may be empty; two
names that are linked lead to the same one. -/
structure Directory where
  place : String → Nat
  entry : Nat → Option Entry

def Directory.lookup (d : Directory) (filename : String) : Option Entry :=
  d.entry (d.place filename)

def chunkSize : Nat := 1024 * 1024

/-- The result of an `fread` and whether the end of the file is reported behind it. -/
structure Fread where
  bytes : List Byte
  eof : Bool
  deriving DecidableEq, Repr

/-- `(uint32_t)buffer[i]`, where `char` is signed -/
def widen (b : Byte) : BitVec 32 := b.signExtend 32

/-- The inner loop over the bytes of one `fread`. -/
def addBytes (checksum : BitVec 32) (bytes : List Byte) : BitVec 32 :=
  bytes.foldl (fun checksum b => checksum + widen b) checksum

/-- The outer loop, which tests `feof` in front of each `fread`. It is still
reading when the results given do not report the end. -/
def readLoop : List Fread → BitVec 32 → Option (BitVec 32)
  | [], _ => none
  | read :: more, checksum =>
    let checksum := addBytes checksum read.bytes
    if read.eof then some checksum else readLoop more checksum

/-- The results of `fread` on a regular file: full chunks, and then the short
one that meets the end. -/
def freads : (full : Nat) → List Byte → List Fread
  | 0, content => [⟨content, true⟩]
  | full + 1, content => ⟨content.take chunkSize, false⟩ :: freads full (content.drop chunkSize)

/-- `calculateChecksum` returns `-1` when the file cannot be opened, and does
not return at all for a directory, whose reads fail without an end of file. -/
def calculateChecksum (d : Directory) (filename : String) : Option (BitVec 32) :=
  match d.lookup filename with
  | none | some (.file _ false _) => some (-1)
  | some (.file content true _) => readLoop (freads (content.length / chunkSize) content) 0
  | some .directory => none

/-- The sum of the bytes. -/
def byteSum (bytes : List Byte) : BitVec 32 := (bytes.map widen).sum

theorem add_bytes_sum (checksum : BitVec 32) (bytes : List Byte) :
    addBytes checksum bytes = checksum + byteSum bytes := by
  unfold addBytes byteSum
  induction bytes generalizing checksum with
  | nil => exact (add_zero checksum).symm
  | cons b bytes ih =>
    rw [List.foldl_cons, ih, List.map_cons, List.sum_cons, add_assoc]

theorem byte_sum_append (front back : List Byte) :
    byteSum (front ++ back) = byteSum front + byteSum back := by
  unfold byteSum
  rw [List.map_append, List.sum_append]

/-- However a file is cut into reads, the loop returns the sum of its bytes
with the read that reports the end. -/
theorem read_loop_sum (reads : List Fread) (last : List Byte) (checksum : BitVec 32)
    (before : ∀ read ∈ reads, read.eof = false) :
    readLoop (reads ++ [⟨last, true⟩]) checksum =
      some (checksum + byteSum ((reads.map Fread.bytes).flatten ++ last)) := by
  induction reads generalizing checksum with
  | nil => simp [readLoop, add_bytes_sum]
  | cons read reads ih =>
    have more : read.eof = false := before read List.mem_cons_self
    rw [List.cons_append, readLoop, more, if_neg Bool.false_ne_true,
      ih _ fun other member => before other (List.mem_cons_of_mem _ member), add_bytes_sum,
      add_assoc, ← byte_sum_append, List.map_cons, List.flatten_cons, List.append_assoc]

/-- Reads that never report the end keep the loop going. -/
theorem read_loop_goes_on (reads : List Fread) (checksum : BitVec 32)
    (endless : ∀ read ∈ reads, read.eof = false) : readLoop reads checksum = none := by
  induction reads generalizing checksum with
  | nil => rfl
  | cons read reads ih =>
    have more : read.eof = false := endless read List.mem_cons_self
    rw [readLoop, more, if_neg Bool.false_ne_true]
    exact ih _ fun other member => endless other (List.mem_cons_of_mem _ member)

theorem freads_split (full : Nat) (content : List Byte) : ∃ reads last,
    freads full content = reads ++ [⟨last, true⟩] ∧ (∀ read ∈ reads, read.eof = false) ∧
      (reads.map Fread.bytes).flatten ++ last = content := by
  induction full generalizing content with
  | zero => exact ⟨[], content, rfl, nofun, rfl⟩
  | succ full ih =>
    obtain ⟨reads, last, same, before, whole⟩ := ih (content.drop chunkSize)
    refine ⟨⟨content.take chunkSize, false⟩ :: reads, last, ?_, ?_, ?_⟩
    · rw [freads, same]
      rfl
    · exact List.forall_mem_cons.mpr ⟨rfl, before⟩
    · rw [List.map_cons, List.flatten_cons, List.append_assoc, whole, List.take_append_drop]

/-- The checksum of a file that can be read. -/
theorem checksum_file (content : List Byte)
    (there : Directory.lookup d filename = some (.file content true writable)) :
    calculateChecksum d filename = some (byteSum content) := by
  obtain ⟨reads, last, same, before, whole⟩ := freads_split (content.length / chunkSize) content
  unfold calculateChecksum
  rw [there]
  simp only
  rw [same, read_loop_sum reads last 0 before, whole, zero_add]

/-! ## Every way to read a file -/

/-- A way `fread` may hand out the content until it reports the end. The last
piece may be empty. -/
structure Splitting (content : List Byte) where
  pieces : List (List Byte)
  last : List Byte
  whole : pieces.flatten ++ last = content
  asked : ∀ buffer ∈ pieces ++ [last], buffer.length ≤ chunkSize

def Splitting.reads (s : Splitting content) : List Fread :=
  s.pieces.map (fun buffer => ⟨buffer, false⟩) ++ [⟨s.last, true⟩]

theorem splitting_reads (s : Splitting content) : readLoop s.reads 0 = some (byteSum content) := by
  have before : ∀ read ∈ s.pieces.map (fun buffer => Fread.mk buffer false), read.eof = false := by
    intro read member
    obtain ⟨buffer, -, rfl⟩ := List.mem_map.mp member
    rfl
  have bytes : (s.pieces.map (fun buffer => Fread.mk buffer false)).map Fread.bytes = s.pieces := by
    rw [List.map_map]
    exact List.map_id _
  rw [Splitting.reads, read_loop_sum _ s.last 0 before, bytes, s.whole, zero_add]

/-- The sum modulo 2^32 of the bytes as signed numbers. -/
theorem byte_sum_signed (bytes : List Byte) :
    byteSum bytes = BitVec.ofInt 32 (bytes.map BitVec.toInt).sum := by
  induction bytes with
  | nil => rfl
  | cons b bytes ih =>
    have front : byteSum (b :: bytes) = widen b + byteSum bytes := List.sum_cons
    have extended : widen b = BitVec.ofInt 32 b.toInt := rfl
    rw [front, ih, extended, List.map_cons, List.sum_cons, BitVec.ofInt_add]

/-- The checksum depends on the bytes alone, however they are read, and adds up
over a concatenation. -/
theorem checksum_chunk_independent (content : List Byte) (s : Splitting content) :
    readLoop s.reads 0 = some (BitVec.ofInt 32 (content.map BitVec.toInt).sum) ∧
      (∀ s' : Splitting content, readLoop s'.reads 0 = readLoop s.reads 0) ∧
      (∀ d filename writable, Directory.lookup d filename = some (.file content true writable) →
        calculateChecksum d filename = readLoop s.reads 0) ∧
      ∀ (more : List Byte) (t : Splitting more) (both : Splitting (content ++ more)),
        ∃ x y, readLoop s.reads 0 = some x ∧ readLoop t.reads 0 = some y ∧
          readLoop both.reads 0 = some (x + y) := by
  refine ⟨?_, ?_, ?_, ?_⟩
  · rw [splitting_reads, byte_sum_signed]
  · intro s'
    rw [splitting_reads, splitting_reads]
  · intro d filename writable there
    rw [checksum_file content there, splitting_reads]
  · intro more t both
    refine ⟨_, _, splitting_reads s, splitting_reads t, ?_⟩
    rw [splitting_reads, byte_sum_append]

/-- A file of three bytes in two reads, and an empty one behind them. -/
def threeBytes : Splitting [0x61, 0xFF, 0x62] where
  pieces := [[0x61], [0xFF, 0x62]]
  last := []
  whole := rfl
  asked := by decide

theorem checksum_chunk_independent_at :
    readLoop threeBytes.reads 0 = some 194 ∧
      calculateChecksum ⟨fun _ => 0, fun _ => some (.file [0x61, 0xFF, 0x62] true true)⟩ "test.txt" =
        readLoop threeBytes.reads 0 := by
  obtain ⟨sum, -, file, -⟩ := checksum_chunk_independent [0x61, 0xFF, 0x62] threeBytes
  exact ⟨sum.trans (by decide), file _ _ true rfl⟩

/-! ## The end of the loop -/

/-- The results of `fread` on an open stream, for as long as it is read. -/
abbrev Reads := Nat → Fread

/-- A read that fails. It sets the error indicator, which the loop does not test. -/
def failedRead : Fread := ⟨[], false⟩

/-- After finitely many turns the loop is left. -/
def LoopEnds (reads : Reads) : Prop := ∃ n, (readLoop ((List.range n).map reads) 0).isSome

theorem read_loop_ends_iff (reads : List Fread) (checksum : BitVec 32) :
    (readLoop reads checksum).isSome ↔ ∃ read ∈ reads, read.eof = true := by
  induction reads generalizing checksum with
  | nil => simp [readLoop]
  | cons read reads ih =>
    rw [readLoop, List.exists_mem_cons_iff]
    cases reported : read.eof with
    | true => simp
    | false => simpa using ih _

/-- The loop of `calculateChecksum` ends exactly when some read reports the end
of the file. -/
theorem loop_ends_iff (reads : Reads) : LoopEnds reads ↔ ∃ n, (reads n).eof = true := by
  unfold LoopEnds
  constructor
  · rintro ⟨n, left⟩
    obtain ⟨read, member, reported⟩ := (read_loop_ends_iff _ 0).mp left
    obtain ⟨i, -, rfl⟩ := List.mem_map.mp member
    exact ⟨i, reported⟩
  · rintro ⟨i, reported⟩
    refine ⟨i + 1, (read_loop_ends_iff _ 0).mpr ⟨reads i, ?_, reported⟩⟩
    exact List.mem_map_of_mem (List.mem_range.mpr (Nat.lt_succ_self i))

/-- A directory can be opened for reading, and every read of it fails. -/
theorem directory_read_forever : ¬ ∀ reads : Reads, LoopEnds reads := by
  intro ends
  obtain ⟨n, left⟩ := ends fun _ => failedRead
  rw [read_loop_goes_on _ 0 fun read member => by
    obtain ⟨-, -, rfl⟩ := List.mem_map.mp member
    rfl] at left
  cases left

end OsCourse.FileChecksum

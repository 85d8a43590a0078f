import OsCourse.SendFile
import OsCourse.TransferVerdict

/-! The size of a test file of `stnc.c` on its way through `generateFile`,
`getFileSize` and `sendFile`: a `long`, then an `off_t`, and counters and
results that are `int`. -/
namespace OsCourse.FileSizes
open Stdio CInt FileChecksum SendFile

/-- The array `generateFile` writes from, which is not initialised. -/
abbrev Buffer := { buffer : List Byte // buffer.length = chunkSize }

/-- How `generateFile` ends. Its calls of `fwrite` are taken to write what they
are given. -/
inductive GenerateEnd where
  | generated (content : List Byte)
  /-- `"Error opening file '%s'\n"` -/
  | notOpened
  /-- `bytesWritten + bytesToWrite` leaves `int` -/
  | overflow
  deriving DecidableEq

/-- The bytes a turn of `generateFile` writes, where `sum` is what a whole chunk
would come to. -/
def bytesToWrite (sizeInBytes bytesWritten sum : Int) : Int :=
  if sum > sizeInBytes then narrow 32 (sizeInBytes - bytesWritten) else chunkSize

/-- One turn of the loop: the bytes it writes, and the new `bytesWritten`. -/
def generateTurn (sizeInBytes bytesWritten : Int) : Option (Int × Int) := do
  let sum ← checked 32 (bytesWritten + chunkSize)
  let next ← checked 32 (bytesWritten + bytesToWrite sizeInBytes bytesWritten sum)
  some (bytesToWrite sizeInBytes bytesWritten sum, next)

/-- The loop of `generateFile`, still running when the fuel is used up. -/
def generateLoop (buffer : Buffer) (sizeInBytes : Int) :
    (fuel : Nat) → (bytesWritten : Int) → (content : List Byte) → Option GenerateEnd
  | 0, _, _ => none
  | fuel + 1, bytesWritten, content =>
    if bytesWritten < sizeInBytes then
      match generateTurn sizeInBytes bytesWritten with
      | none => some .overflow
      | some (bytesToWrite, bytesWritten) =>
        generateLoop buffer sizeInBytes fuel bytesWritten
          (content ++ buffer.val.take bytesToWrite.toNat)
    else some (.generated content)

def generateFile (opened : Bool) (buffer : Buffer) (sizeInBytes : Int) (fuel : Nat) :
    Option GenerateEnd :=
  if opened then generateLoop buffer sizeInBytes fuel 0 [] else some .notOpened

/-- `getFileSize`, given the `st_size` of the file if there is one. -/
def getFileSize (st_size : Option Nat) : Int :=
  match st_size with
  | none => -1
  | some st_size => narrow 32 st_size

/-! ## The property and its condition -/

/-- A file of this size is generated as asked, reported with its size, and sent
without a counter that leaves its type. -/
def SizeExact (buffer : Buffer) (s : Nat) : Prop :=
  ∃ content, (∃ fuel, generateFile true buffer s fuel = some (.generated content)) ∧
    content.length = s ∧ getFileSize (some content.length) = s ∧
      ∀ (w : Setup) (reading : Reading content) (connection : Connection),
        sendFile w reading connection ≠ .overflow ∧ sendFile w reading connection ≠ .wild

/-- The largest size for which no sum of the loop leaves `int`. -/
def LARGEST : Nat := 2047 * chunkSize

/-! ## Generating a file -/

theorem chunk_size : chunkSize = 1048576 := rfl

/-- A turn writes a chunk, or what is missing when that is less. -/
theorem generate_turn (fits : s ≤ LARGEST) (more : bytesWritten < s) :
    generateTurn s bytesWritten =
      some (((min chunkSize (s - bytesWritten) : Nat) : Int),
        ((bytesWritten + min chunkSize (s - bytesWritten) : Nat) : Int)) := by
  have chunk := chunk_size
  unfold LARGEST at fits
  have first : checked 32 ((bytesWritten : Int) + chunkSize) = some ((bytesWritten : Int) + chunkSize) :=
    checked_int (by omega) (by omega)
  have next : bytesToWrite s bytesWritten (bytesWritten + chunkSize) =
      ((min chunkSize (s - bytesWritten) : Nat) : Int) := by
    unfold bytesToWrite
    split
    · rw [narrow_int (by omega) (by omega)]
      omega
    · omega
  have second : checked 32 ((bytesWritten : Int) + (min chunkSize (s - bytesWritten) : Nat)) =
      some ((bytesWritten : Int) + (min chunkSize (s - bytesWritten) : Nat)) :=
    checked_int (by omega) (by omega)
  unfold generateTurn
  rw [first, Option.bind_eq_bind, Option.bind_some, next, second, Option.bind_some, Nat.cast_add]

/-- Up to the largest size the loop writes what is missing. -/
theorem generate_writes (buffer : Buffer) (fits : s ≤ LARGEST) (fuel bytesWritten : Nat)
    (content : List Byte) (before : bytesWritten ≤ s) (enough : s - bytesWritten ≤ fuel * chunkSize) :
    ∃ file, generateLoop buffer s (fuel + 1) bytesWritten content = some (.generated file) ∧
      file.length = content.length + (s - bytesWritten) := by
  induction fuel generalizing bytesWritten content with
  | zero =>
    have done : ¬ (bytesWritten : Int) < s := by omega
    rw [generateLoop, if_neg done]
    exact ⟨content, rfl, by omega⟩
  | succ fuel ih =>
    rw [Nat.add_mul, Nat.one_mul] at enough
    rcases Nat.lt_or_ge bytesWritten s with more | full
    · obtain ⟨file, written, length⟩ := ih (bytesWritten + min chunkSize (s - bytesWritten))
        (content ++ buffer.val.take (min chunkSize (s - bytesWritten))) (by omega) (by omega)
      refine ⟨file, ?_, ?_⟩
      · rw [generateLoop, if_pos (by omega), generate_turn fits more]
        exact written
      · rw [length, List.length_append, List.length_take, buffer.property]
        omega
    · rw [generateLoop, if_neg (by omega)]
      exact ⟨content, rfl, by omega⟩

/-- Behind the largest size a turn writes a whole chunk, until with the 2048th
the sum leaves `int`. -/
theorem generate_turn_large (large : LARGEST < s) (below : chunks ≤ 2047) :
    generateTurn s ((chunks * chunkSize : Nat) : Int) =
      if chunks < 2047 then some ((chunkSize : Int), (((chunks + 1) * chunkSize : Nat) : Int))
      else none := by
  have sum : ((chunks * chunkSize : Nat) : Int) + chunkSize = (((chunks + 1) * chunkSize : Nat) : Int) := by
    rw [Nat.add_mul, Nat.one_mul, Nat.cast_add]
  unfold LARGEST at large
  unfold generateTurn
  rw [sum]
  split
  · rename_i room
    have fits : checked 32 (((chunks + 1) * chunkSize : Nat) : Int) =
        some (((chunks + 1) * chunkSize : Nat) : Int) := by
      rw [chunk_size]
      exact checked_int (by omega) (by omega)
    have whole : bytesToWrite s ((chunks * chunkSize : Nat) : Int) (((chunks + 1) * chunkSize : Nat) : Int) =
        chunkSize := by
      refine if_neg ?_
      rw [chunk_size] at large ⊢
      omega
    rw [fits, Option.bind_eq_bind, Option.bind_some, whole, sum, fits, Option.bind_some]
  · rename_i last
    have out : ¬ InRange 32 (((chunks + 1) * chunkSize : Nat) : Int) := by
      rw [in_range_int, chunk_size]
      omega
    rw [checked_none out, Option.bind_eq_bind, Option.bind_none]

/-- Such a file is never generated. -/
theorem generate_overflows (buffer : Buffer) (large : LARGEST < s) (fuel chunks : Nat)
    (content : List Byte) (below : chunks ≤ 2047) :
    generateLoop buffer s fuel ((chunks * chunkSize : Nat) : Int) content = none ∨
      generateLoop buffer s fuel ((chunks * chunkSize : Nat) : Int) content = some .overflow := by
  induction fuel generalizing chunks content with
  | zero => exact Or.inl rfl
  | succ fuel ih =>
    have more : ((chunks * chunkSize : Nat) : Int) < s := by
      unfold LARGEST at large
      rw [chunk_size] at large ⊢
      omega
    rw [generateLoop, if_pos more, generate_turn_large large below]
    rcases Nat.lt_or_ge chunks 2047 with room | last
    · rw [if_pos room]
      exact ih (chunks + 1) _ (by omega)
    · rw [if_neg (by omega)]
      exact Or.inr rfl

theorem not_generated (buffer : Buffer) (large : LARGEST < s) (fuel : Nat) (content : List Byte) :
    generateFile true buffer s fuel ≠ some (.generated content) := by
  have ends := generate_overflows buffer large fuel 0 [] (by omega)
  rw [Nat.zero_mul, Nat.cast_zero] at ends
  rw [generateFile, if_pos rfl]
  rcases ends with running | overflow
  · rw [running]
    exact nofun
  · rw [overflow]
    exact nofun

/-! ## All three -/

theorem get_file_size_iff (s : Nat) : getFileSize (some s) = s ↔ s < 2 ^ 31 := by
  rw [getFileSize, narrow_eq_iff (by omega), in_range_int]
  omega

/-- It is the result of the `getFileSize` of a transfer, read as an `int`. -/
theorem transfer_file_size (there : Directory.lookup d filename = some (.file content readable writable)) :
    (TransferVerdict.getFileSize d filename).toInt = getFileSize (some content.length) := by
  rw [TransferVerdict.getFileSize, there, getFileSize, narrow, BitVec.ofInt_natCast]

/-- Sizes are exact up to 2047 chunks, and no further. -/
theorem size_exact_iff (buffer : Buffer) (s : Nat) : SizeExact buffer s ↔ s ≤ 2047 * 2 ^ 20 := by
  have largest : LARGEST = 2047 * 2 ^ 20 := by norm_num [LARGEST, chunkSize]
  rw [← largest]
  constructor
  · rintro ⟨content, ⟨fuel, generated⟩, -⟩
    by_contra large
    exact not_generated buffer (Nat.lt_of_not_le large) fuel content generated
  · intro fits
    obtain ⟨content, generated, length⟩ := generate_writes buffer fits s 0 [] (by omega) (by
      rw [chunk_size]
      omega)
    have small : s < 2 ^ 31 := by
      rw [largest] at fits
      omega
    rw [List.length_nil, Nat.zero_add, Nat.sub_zero] at length
    rw [Nat.cast_zero] at generated
    have whole : generateFile true buffer s (s + 1) = some (.generated content) := by
      rw [generateFile, if_pos rfl, generated]
    refine ⟨content, ⟨s + 1, whole⟩, length, ?_, fun w reading connection => ?_⟩
    · rw [length]
      exact (get_file_size_iff s).mpr small
    · rw [send_file_eq w reading connection (by omega)]
      split
      · exact ⟨nofun, nofun⟩
      · exact ⟨nofun, nofun⟩

/-- The largest `int` is a size that is not generated. -/
theorem largest_int_overflows :
    ¬ ∀ (buffer : Buffer) (s : Nat), s < 2 ^ 63 → SizeExact buffer s := by
  intro exact_all
  obtain ⟨content, ⟨fuel, generated⟩, -⟩ :=
    exact_all ⟨List.replicate chunkSize 0, List.length_replicate⟩ (2 ^ 31 - 1) (by omega)
  have large : LARGEST < 2 ^ 31 - 1 := by decide
  exact not_generated _ large fuel content generated

end OsCourse.FileSizes

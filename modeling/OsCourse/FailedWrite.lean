import OsCourse.CharDevice

/-! A `device_write` whose copy from the user breaks off. `copy_from_user` has
then stored the bytes in front of the fault straight into the page. -/
namespace OsCourse.FailedWrite
open Stdio CharDevice

/-- A write within the page of which only so many leading bytes can be copied;
the kernel may fill the place of the others with zeros. -/
structure BrokenWrite where
  length : BitVec 64
  offset : Nat
  data : Nat → Byte
  copied : Nat
  pads : Bool
  fits : offset + length.toNat ≤ PAGE_SIZE
  short : copied < length.toNat

def BrokenWrite.copy (w : BrokenWrite) : Copy := ⟨w.length.toNat - w.copied, w.pads⟩

/-- The write is refused, and device and file offset are as before it. -/
def LeavesNoTrace (d : Device) (w : BrokenWrite) : Prop :=
  let outcome := deviceWrite d w.length w.offset w.data w.copy
  outcome.returned = -EFAULT ∧ outcome.device = d ∧ outcome.offset = w.offset

/-- The copied bytes are those the page holds at their place, and where zeros
are filled in it holds zeros. -/
def AlreadyThere (d : Device) (w : BrokenWrite) : Prop :=
  (∀ i < w.copied, w.data i = d.memory (w.offset + i)) ∧
    (w.pads = true → ∀ i, w.copied ≤ i → i < w.length.toNat → d.memory (w.offset + i) = 0)

/-- The driver reports the failure and leaves key and offset alone. -/
theorem broken_write (d : Device) (w : BrokenWrite) :
    deviceWrite d w.length w.offset w.data w.copy = ⟨-EFAULT, [],
      { d with memory := copyFromUser d.memory w.offset w.length.toNat w.data w.copy },
      w.offset, [⟨w.offset, w.length.toNat⟩]⟩ := by
  have count : (clampLength w.length).toNat = w.length.toNat :=
    clampLength_of_le (Nat.le_trans (Nat.le_add_left _ _) w.fits)
  have broken : w.copy.failed w.length.toNat ≠ 0 := by
    have short := w.short
    simp only [BrokenWrite.copy, Copy.failed]
    omega
  simp only [deviceWrite, count, if_pos broken]

/-- What the copy leaves at a position of the area. -/
theorem broken_copy (d : Device) (w : BrokenWrite) (bound : i < w.length.toNat) :
    copyFromUser d.memory w.offset w.length.toNat w.data w.copy (w.offset + i) =
      if i < w.copied then w.data i else if w.pads then 0 else d.memory (w.offset + i) := by
  have front : w.length.toNat - w.copy.failed w.length.toNat = w.copied := by
    have short := w.short
    simp only [BrokenWrite.copy, Copy.failed]
    omega
  rw [copyFromUser, front, Nat.add_sub_cancel_left]
  by_cases copied : i < w.copied
  · rw [if_pos (by omega), if_pos copied]
  · rw [if_neg (by omega), if_neg copied]
    simp [BrokenWrite.copy, bound]

theorem copy_outside (m : Nat → Byte) (dst count : Nat) (data : Nat → Byte) (c : Copy)
    (outside : ¬ (dst ≤ j ∧ j < dst + count)) : copyFromUser m dst count data c j = m j := by
  rw [copyFromUser, if_neg (by omega), if_neg fun inside => outside inside.2]

/-- A broken write leaves no trace exactly when what it stores is there already. -/
theorem leaves_no_trace_iff (d : Device) (w : BrokenWrite) : LeavesNoTrace d w ↔ AlreadyThere d w := by
  have memory : LeavesNoTrace d w ↔
      copyFromUser d.memory w.offset w.length.toNat w.data w.copy = d.memory := by
    unfold LeavesNoTrace
    rw [broken_write]
    constructor
    · rintro ⟨-, same, -⟩
      exact congrArg Device.memory same
    · intro same
      exact ⟨rfl, congrArg (Device.mk · d.key) same, rfl⟩
  rw [memory]
  constructor
  · intro same
    refine ⟨fun i copied => ?_, fun pads i behind bound => ?_⟩
    · have here := broken_copy d w (Nat.lt_trans copied w.short)
      rw [same, if_pos copied] at here
      exact here.symm
    · have here := broken_copy d w bound
      rwa [same, if_neg (Nat.not_lt.mpr behind), if_pos pads] at here
  · rintro ⟨front, behind⟩
    funext j
    by_cases area : w.offset ≤ j ∧ j < w.offset + w.length.toNat
    · obtain ⟨i, rfl⟩ := Nat.exists_eq_add_of_le area.1
      have bound : i < w.length.toNat := by omega
      rw [broken_copy d w bound]
      by_cases copied : i < w.copied
      · rw [if_pos copied, front i copied]
      · rw [if_neg copied]
        cases pads : w.pads with
        | true => exact (behind pads i (Nat.le_of_not_lt copied) bound).symm
        | false => rfl
    · exact copy_outside _ _ _ _ _ area

/-- Two bytes for an empty page, the second of which cannot be read. -/
def halfCopied : BrokenWrite := ⟨2, 0, fun _ => 0x41, 1, true, by decide, by decide⟩

/-- The first byte stays in the page. -/
theorem copied_byte_stays : ¬ ∀ d w, LeavesNoTrace d w := by
  intro always
  obtain ⟨-, same, -⟩ := always ⟨fun _ => 0, 0⟩ halfCopied
  have first_byte := congrFun (congrArg Device.memory same) 0
  exact absurd first_byte (by decide)

end OsCourse.FailedWrite

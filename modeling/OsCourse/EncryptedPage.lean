import OsCourse.CharDevice

/-! What the device promises about its page over whole runs: that decrypting
it gives back what users wrote, and that no access leaves it. -/
namespace OsCourse.EncryptedPage
open Stdio WordXor CharDevice Transition

/-! ## The page as plaintext -/

/-- A request to the device, at any file offset. The area of a write lies
within the page. -/
inductive Request where
  | write (length : BitVec 64) (offset : Nat) (data : Nat → Byte) (copy : Copy)
      (fits : offset + length.toNat ≤ PAGE_SIZE)
  | ioctl (ioctl_num : BitVec 32) (ioctl_param : BitVec 64)
  | read (length : BitVec 64) (offset : Nat) (copy : Copy)

def serve (d : Device) : Request → Option Device
  | .write length offset data copy _ => some (deviceWrite d length offset data copy).device
  | .ioctl ioctl_num ioctl_param => some (deviceIoctl d ioctl_num ioctl_param).2
  | .read length offset copy => some (deviceRead d length offset copy).device

/-- The byte most recently written at each position: a write that succeeds
replaces the bytes of its area, one that fails has written nothing. -/
def mostRecent (plain : Memory) (_ : Device) : Request → Memory
  | .write length offset data copy _ =>
    if copy.failed length.toNat = 0 then
      fun j => if offset ≤ j ∧ j < offset + length.toNat then data (j - offset) else plain j
    else plain
  | _ => plain

/-- Decrypting the whole page with the current key gives the bytes written. -/
def KeepsPlaintext (s : Device × Memory) : Prop :=
  ∀ j < PAGE_SIZE, decryptMemory s.1.memory 0 PAGE_SIZE s.1.key j = s.2 j

/-- The key byte a write of this length XORs into the byte at index `i` of its
area. Behind the last whole word there is none. -/
def writeMask (key : BitVec 32) (length i : Nat) : Byte :=
  if i < 4 * (length / 4) then keyByte key i else 0

/-- The requests that keep the plaintext. Under the key in force, a write
masks each byte of its area as decrypting the whole page unmasks it; and a
copy that fails leaves the page as it was. -/
def KeyFits (d : Device) : Request → Prop
  | .write length offset data copy _ =>
    if copy.failed length.toNat = 0 then
      ∀ i < length.toNat, writeMask d.key length.toNat i = keyByte d.key (offset + i)
    else ∀ j < PAGE_SIZE, copyFromUser d.memory offset length.toNat data copy j = d.memory j
  | _ => True

theorem decrypted (m : Memory) (key : BitVec 32) (inside : j < PAGE_SIZE) :
    decryptMemory m 0 PAGE_SIZE key j = m j ^^^ keyByte key j := by
  rw [decryptMemory, encryptMemory_page, if_pos inside]

theorem xor_masks (a b c : Byte) : (a ^^^ b) ^^^ c = a ↔ b = c := by
  rw [BitVec.xor_assoc]
  constructor
  · intro same
    have cancelled : b ^^^ c = 0 := by
      rw [← BitVec.xor_right_inj a, same]
      exact BitVec.xor_zero.symm
    exact BitVec.xor_eq_zero_iff.mp cancelled
  · rintro rfl
    rw [BitVec.xor_self]
    exact BitVec.xor_zero

/-- Re-keying moves the page from one key to another without touching what it
decrypts to. -/
theorem ioctl_keeps_plaintext (d : Device) (ioctl_num : BitVec 32) (ioctl_param : BitVec 64)
    (inside : j < PAGE_SIZE) :
    decryptMemory (deviceIoctl d ioctl_num ioctl_param).2.memory 0 PAGE_SIZE
        (deviceIoctl d ioctl_num ioctl_param).2.key j =
      decryptMemory d.memory 0 PAGE_SIZE d.key j := by
  rw [decrypted _ _ inside, decrypted _ _ inside]
  unfold deviceIoctl
  split
  · dsimp only
    split
    · simp only [decryptMemory, encryptMemory_page, inside, ↓reduceIte]
      rw [xor_masks]
    · rfl
  · rfl

theorem write_fits (d : Device) (data : Nat → Byte) (copy : Copy)
    (fits : offset + length.toNat ≤ PAGE_SIZE) :
    (deviceWrite d length offset data copy).device =
      if copy.failed length.toNat = 0 then
        ⟨encryptMemory (copyFromUser d.memory offset length.toNat data copy)
          offset length.toNat d.key, d.key⟩
      else ⟨copyFromUser d.memory offset length.toNat data copy, d.key⟩ := by
  have count : (clampLength length).toNat = length.toNat := clampLength_of_le (by omega)
  simp only [deviceWrite, count]
  by_cases whole : copy.failed length.toNat = 0 <;> simp [whole]

/-- The byte a successful write leaves at a position of its area. -/
theorem written_byte (d : Device) (data : Nat → Byte) (copy : Copy) (length offset : Nat)
    (whole : copy.failed length = 0) (inside : i < length) :
    encryptMemory (copyFromUser d.memory offset length data copy) offset length d.key (offset + i) =
      data i ^^^ writeMask d.key length i := by
  have copied : copyFromUser d.memory offset length data copy (offset + i) = data i := by
    rw [copyFromUser_done _ _ _ _ _ whole, if_pos (by omega), Nat.add_sub_cancel_left]
  rw [encryptMemory_apply, copied, Nat.add_sub_cancel_left, writeMask]
  by_cases word : i < 4 * (length / 4)
  · rw [if_pos (by omega), if_pos word]
  · rw [if_neg (by omega), if_neg word]
    exact BitVec.xor_zero.symm

theorem untouched_byte (d : Device) (data : Nat → Byte) (copy : Copy) (length offset : Nat)
    (whole : copy.failed length = 0) (outside : ¬ (offset ≤ j ∧ j < offset + length)) :
    encryptMemory (copyFromUser d.memory offset length data copy) offset length d.key j =
      d.memory j := by
  rw [encryptMemory_apply, if_neg (by omega), copyFromUser_done _ _ _ _ _ whole, if_neg outside]

/-- A successful write keeps the plaintext exactly when its masks are the
page's masks. -/
theorem write_keeps_plaintext_iff (d : Device) (plain data : Memory) (copy : Copy)
    (fits : offset + length.toNat ≤ PAGE_SIZE) (whole : copy.failed length.toNat = 0)
    (kept : KeepsPlaintext (d, plain)) :
    KeepsPlaintext ((deviceWrite d length offset data copy).device,
        mostRecent plain d (.write length offset data copy fits)) ↔
      ∀ i < length.toNat, writeMask d.key length.toNat i = keyByte d.key (offset + i) := by
  have key : (deviceWrite d length offset data copy).device.key = d.key := by
    rw [write_fits d data copy fits, if_pos whole]
  have memory : (deviceWrite d length offset data copy).device.memory = encryptMemory
      (copyFromUser d.memory offset length.toNat data copy) offset length.toNat d.key := by
    rw [write_fits d data copy fits, if_pos whole]
  simp only [KeepsPlaintext, mostRecent, whole, ↓reduceIte]
  constructor
  · intro after i bound
    have here := after (offset + i) (by omega)
    rw [decrypted _ _ (by omega), key, memory, written_byte d data copy _ _ whole bound,
      if_pos (by omega), Nat.add_sub_cancel_left] at here
    exact (xor_masks _ _ _).mp here
  · intro masks j inside
    rw [decrypted _ _ inside, key, memory]
    by_cases area : offset ≤ j ∧ j < offset + length.toNat
    · obtain ⟨i, rfl⟩ := Nat.exists_eq_add_of_le area.1
      have bound : i < length.toNat := by omega
      rw [written_byte d data copy _ _ whole bound, if_pos area, Nat.add_sub_cancel_left]
      exact (xor_masks _ _ _).mpr (masks i bound)
    · rw [untouched_byte d data copy _ _ whole area, if_neg area, ← decrypted _ _ inside]
      exact kept j inside

/-- A failed write counts as not written, so it keeps the plaintext exactly
when the copy left the page as it was. -/
theorem failed_write_keeps_plaintext_iff (d : Device) (plain data : Memory) (copy : Copy)
    (fits : offset + length.toNat ≤ PAGE_SIZE) (failed : copy.failed length.toNat ≠ 0)
    (kept : KeepsPlaintext (d, plain)) :
    KeepsPlaintext ((deviceWrite d length offset data copy).device,
        mostRecent plain d (.write length offset data copy fits)) ↔
      ∀ j < PAGE_SIZE, copyFromUser d.memory offset length.toNat data copy j = d.memory j := by
  rw [write_fits d data copy fits, if_neg failed]
  simp only [KeepsPlaintext, mostRecent, failed, ↓reduceIte]
  refine forall₂_congr fun j inside => ?_
  have before : d.memory j ^^^ keyByte d.key j = plain j := by
    rw [← decrypted _ _ inside]
    exact kept j inside
  rw [decrypted _ _ inside, ← before]
  exact BitVec.xor_left_inj _

/-- What one request does to the plaintext is decided by `KeyFits`. -/
theorem request_keeps_plaintext_iff (s : Device × Memory) (request : Request) (t : Device × Memory)
    (kept : KeepsPlaintext s) (stepped : recording serve mostRecent s request = some t) :
    KeepsPlaintext t ↔ KeyFits s.1 request := by
  obtain ⟨served, recorded⟩ := recording_some.mp stepped
  obtain ⟨after, plain⟩ := t
  simp only at served recorded
  subst recorded
  cases request with
  | write length offset data copy fits =>
    cases served
    by_cases whole : copy.failed length.toNat = 0
    · simp only [KeyFits, whole, ↓reduceIte]
      exact write_keeps_plaintext_iff s.1 s.2 data copy fits whole kept
    · simp only [KeyFits, whole, ↓reduceIte]
      exact failed_write_keeps_plaintext_iff s.1 s.2 data copy fits whole kept
  | ioctl ioctl_num ioctl_param =>
    cases served
    refine iff_of_true (fun j inside => ?_) trivial
    exact (ioctl_keeps_plaintext s.1 ioctl_num ioctl_param inside).trans (kept j inside)
  | read length offset copy =>
    have same : after = s.1 := by
      have := Option.some.inj served
      rw [← this]
      unfold deviceRead
      dsimp only
      split <;> rfl
    subst same
    exact iff_of_true kept trivial

theorem init_keeps_plaintext (memory : Memory) :
    KeepsPlaintext (charDeviceInit memory, memory) := by
  intro j inside
  rw [decrypted _ _ inside]
  simp only [charDeviceInit, encryptMemory_page, inside, ↓reduceIte, keyByte_zero]
  rw [xor_masks]

/-- From module load on, and through every run of requests, the page keeps
its plaintext exactly when each request fits the key in force at its time. -/
theorem page_keeps_plaintext_iff (memory : Memory) (requests : List Request) :
    Throughout (recording serve mostRecent) KeepsPlaintext (charDeviceInit memory, memory) requests ↔
      Along serve KeyFits (charDeviceInit memory) requests :=
  (throughout_iff_along request_keeps_plaintext_iff (init_keeps_plaintext memory)).trans
    (along_recording mostRecent memory)

/-- After the key 123 is set, a write of one byte is stored in the clear and
decrypts to another byte. -/
theorem short_write_loses_plaintext :
    ¬ ∀ (memory : Memory) (requests : List Request),
      Throughout (recording serve mostRecent) KeepsPlaintext
        (charDeviceInit memory, memory) requests := by
  intro keeps
  let letterA : Request := .write 1 0 (fun _ => 0x41) ⟨0, true⟩ (by decide)
  have run := keeps (fun _ => 0) [.ioctl IOCTL_SET_KEY 123, letterA]
  obtain ⟨keyed, stepped⟩ : ∃ s, recording serve mostRecent
      (charDeviceInit fun _ => 0, fun _ => 0) (.ioctl IOCTL_SET_KEY 123) = some s := ⟨_, rfl⟩
  have after := run.2 keyed stepped
  have fits := (request_keeps_plaintext_iff keyed letterA _ after.1 rfl).mp
    (throughout_start (after.2 _ rfl))
  have key : keyed.1.key = 123 := by
    cases stepped
    rfl
  have masked := fits 0 (by decide)
  rw [key] at masked
  exact absurd masked (by decide)

end OsCourse.EncryptedPage

import OsCourse.CharDevice

/-! What the device tells of kernel memory. Two systems that differ in memory
only are run side by side: no operation changes the XOR of their memories at an
address, except a write that stores the same user byte there in both. -/
namespace OsCourse.DeviceSecrecy
open Stdio WordXor CharDevice

/-- A call of the driver with its arguments. The offset is the one the kernel
hands in: the driver advances it, and the user may also choose it. -/
inductive DeviceCall where
  | read (length : BitVec 64) (offset : Nat) (copy : Copy)
  | write (length : BitVec 64) (offset : Nat) (data : Nat → Byte) (copy : Copy)
  | ioctl (ioctl_num : BitVec 32) (ioctl_param : BitVec 64)

def serve (d : Device) : DeviceCall → Device
  | .read length offset copy => (deviceRead d length offset copy).device
  | .write length offset data copy => (deviceWrite d length offset data copy).device
  | .ioctl ioctl_num ioctl_param => (deviceIoctl d ioctl_num ioctl_param).2

/-- The device after module load and the given calls, in the memory `kmalloc`
returned and whatever lies behind it. -/
def loadAndServe (memory : Memory) (calls : List DeviceCall) : Device :=
  calls.foldl serve (charDeviceInit memory)

/-- Each read of the calls gives the user the same bytes whatever was in the
memory before. -/
def RevealsUserDataOnly (calls : List DeviceCall) : Prop :=
  ∀ (memory other : Memory) (earlier : List DeviceCall) (length : BitVec 64) (offset : Nat)
    (copy : Copy), earlier ++ [.read length offset copy] <+: calls →
      (deviceRead (loadAndServe memory earlier) length offset copy).delivered =
        (deviceRead (loadAndServe other earlier) length offset copy).delivered

/-- The number of bytes a read or write asks for. -/
def requested (length : BitVec 64) : Nat := min (length.toNat % 2 ^ 32) PAGE_SIZE

/-- The area a call fills with bytes of the user's, or with the zeros that
`copy_from_user` puts in the place of those it could not fetch. -/
def DeviceCall.filled : DeviceCall → Area
  | .write length offset _ copy =>
    ⟨offset, if copy.pads then requested length
      else requested length - copy.failed (requested length)⟩
  | _ => ⟨0, 0⟩

/-- Some call has filled the address. -/
def Filled (calls : List DeviceCall) (address : Nat) : Prop :=
  ∃ c ∈ calls, c.filled.start ≤ address ∧ address < c.filled.start + c.filled.count

/-- Every byte a read gives to the user lies where a write before it has put
one. -/
def ReadsFilledOnly (calls : List DeviceCall) : Prop :=
  ∀ (earlier : List DeviceCall) (length : BitVec 64) (offset : Nat) (copy : Copy),
    earlier ++ [.read length offset copy] <+: calls →
      ∀ i < requested length - copy.failed (requested length), Filled earlier (offset + i)

/-! ## Two systems side by side -/

def difference (m n : Memory) : Memory := fun j => m j ^^^ n j

/-- The systems have the same key and differ by `diff`. -/
structure Apart (diff : Memory) (d e : Device) : Prop where
  key : d.key = e.key
  memory : difference d.memory e.memory = diff

/-- What is left of a difference where a call puts the same bytes into both. -/
def settle (diff : Memory) (c : DeviceCall) : Memory :=
  fun j => if c.filled.start ≤ j ∧ j < c.filled.start + c.filled.count then 0 else diff j

theorem settle_none (diff : Memory) (empty : c.filled = ⟨0, 0⟩) : settle diff c = diff := by
  funext j
  rw [settle, empty, if_neg fun inside => Nat.not_lt_zero j inside.2]

theorem settle_write (diff data : Memory) (length : BitVec 64) (offset j : Nat) (copy : Copy) :
    settle diff (.write length offset data copy) j =
      if offset ≤ j ∧ j < offset + (if copy.pads then requested length
        else requested length - copy.failed (requested length)) then 0 else diff j := rfl

/-- Both memories are masked with the same bytes. -/
theorem encrypt_difference (m n : Memory) (data length : Nat) (key : BitVec 32) :
    difference (encryptMemory m data length key) (encryptMemory n data length key) =
      difference m n := by
  funext j
  simp only [difference, encryptMemory_apply]
  split
  · rw [BitVec.xor_assoc, BitVec.xor_comm (keyByte key _), BitVec.xor_assoc, BitVec.xor_self]
    exact congrArg (m j ^^^ ·) BitVec.xor_zero
  · rfl

theorem copy_difference (m n : Memory) (offset : Nat) (length : BitVec 64) (data : Nat → Byte)
    (copy : Copy) :
    difference (copyFromUser m offset (requested length) data copy)
        (copyFromUser n offset (requested length) data copy) =
      settle (difference m n) (.write length offset data copy) := by
  funext j
  rw [settle_write]
  simp only [difference, copyFromUser]
  by_cases copied : offset ≤ j ∧ j < offset + (requested length - copy.failed (requested length))
  · have inside : offset ≤ j ∧ j < offset + (if copy.pads then requested length
        else requested length - copy.failed (requested length)) := by
      refine ⟨copied.1, ?_⟩
      split <;> omega
    rw [if_pos copied, if_pos copied, if_pos inside, BitVec.xor_self]
    rfl
  · rw [if_neg copied, if_neg copied]
    cases copy.pads with
    | false => simp only [Bool.false_eq_true, false_and, ↓reduceIte, copied]
    | true =>
      by_cases padded : offset ≤ j ∧ j < offset + requested length
      · simp only [padded, and_self, ↓reduceIte, BitVec.xor_self]
        rfl
      · simp only [padded, and_false, ↓reduceIte]

theorem serve_apart (apart : Apart diff d e) (c : DeviceCall) :
    Apart (settle diff c) (serve d c) (serve e c) := by
  obtain ⟨key, rfl⟩ := apart
  cases c with
  | read length offset copy =>
    rw [settle_none _ rfl]
    have kept (f : Device) : serve f (.read length offset copy) = f := by
      simp only [serve, deviceRead]
      split <;> rfl
    rw [kept, kept]
    exact ⟨key, rfl⟩
  | write length offset data copy =>
    simp only [serve, deviceWrite, clampLength_toNat]
    change Apart _ (if copy.failed (requested length) ≠ 0 then _ else _ : Outcome).device
      (if copy.failed (requested length) ≠ 0 then _ else _ : Outcome).device
    split
    · exact ⟨key, copy_difference _ _ _ _ _ _⟩
    · refine ⟨key, ?_⟩
      rw [key]
      exact (encrypt_difference _ _ _ _ _).trans (copy_difference _ _ _ _ _ _)
  | ioctl ioctl_num ioctl_param =>
    rw [settle_none _ rfl]
    simp only [serve, deviceIoctl, key]
    split
    · split
      · refine ⟨rfl, ?_⟩
        simp only [decryptMemory, encrypt_difference]
      · exact ⟨key, rfl⟩
    · exact ⟨key, rfl⟩

theorem settled (calls : List DeviceCall) (diff : Memory) (j : Nat) :
    (calls.foldl settle diff) j = 0 ↔ Filled calls j ∨ diff j = 0 := by
  induction calls generalizing diff with
  | nil => simp [Filled]
  | cons c rest ih =>
    rw [List.foldl_cons, ih, settle]
    simp only [Filled, List.mem_cons, exists_eq_or_imp]
    by_cases here : c.filled.start ≤ j ∧ j < c.filled.start + c.filled.count
    · simp [here]
    · simp [here]

theorem run_apart (calls : List DeviceCall) (apart : Apart diff d e) :
    Apart (calls.foldl settle diff) (calls.foldl serve d) (calls.foldl serve e) := by
  induction calls generalizing diff d e with
  | nil => exact apart
  | cons c rest ih => exact ih (serve_apart apart c)

/-- Two systems agree on an address exactly where the calls have filled it or
they agreed from the start. -/
theorem same_byte_iff (memory other : Memory) (calls : List DeviceCall) (j : Nat) :
    (loadAndServe memory calls).memory j = (loadAndServe other calls).memory j ↔
      Filled calls j ∨ memory j = other j := by
  have apart := run_apart calls
    (⟨rfl, encrypt_difference memory other 0 PAGE_SIZE 0⟩ :
      Apart (difference memory other) (charDeviceInit memory) (charDeviceInit other))
  have zero := settled calls (difference memory other) j
  rw [← apart.memory] at zero
  simpa [loadAndServe, difference, BitVec.xor_eq_zero_iff] using zero

theorem delivered_eq_iff (d e : Device) (length : BitVec 64) (offset : Nat) (copy : Copy) :
    (deviceRead d length offset copy).delivered = (deviceRead e length offset copy).delivered ↔
      ∀ i < requested length - copy.failed (requested length),
        d.memory (offset + i) = e.memory (offset + i) := by
  have bytes (f : Device) : (deviceRead f length offset copy).delivered =
      (List.range (requested length - copy.failed (requested length))).map
        fun i => f.memory (offset + i) := by
    simp only [deviceRead, clampLength_toNat]
    split <;> rfl
  rw [bytes, bytes, List.map_inj_left]
  simp only [List.mem_range]

/-- The reads of a run tell nothing of the memory the device was given exactly
when each byte they return has been written by the user before. -/
theorem reveals_user_data_only_iff (calls : List DeviceCall) :
    RevealsUserDataOnly calls ↔ ReadsFilledOnly calls := by
  constructor
  · intro reveals earlier length offset copy initial i inside
    have same := (delivered_eq_iff _ _ _ _ _).mp
      (reveals (fun _ => 0) (fun _ => 1) earlier length offset copy initial) i inside
    exact ((same_byte_iff _ _ _ _).mp same).resolve_right (by decide)
  · intro filled memory other earlier length offset copy initial
    refine (delivered_eq_iff _ _ _ _ _).mpr fun i inside => ?_
    exact (same_byte_iff _ _ _ _).mpr
      (Or.inl (filled earlier length offset copy initial i inside))

/-- The first byte read from a fresh device is what `kmalloc` left there. -/
theorem fresh_read_reveals_memory : ¬ ∀ calls, RevealsUserDataOnly calls := by
  intro reveals
  have same := reveals [.read 1 0 ⟨0, true⟩] (fun _ => 0) (fun _ => 1) [] 1 0 ⟨0, true⟩
    List.prefix_rfl
  have first := (delivered_eq_iff _ _ _ _ _).mp same 0 (by decide)
  rcases (same_byte_iff _ _ _ _).mp first with ⟨c, member, -⟩ | equal
  · cases member
  · cases equal

end OsCourse.DeviceSecrecy

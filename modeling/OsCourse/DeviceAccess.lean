import OsCourse.CharDevice

/-! The areas of kernel memory a run of reads and writes works on. The offset
of the open file is advanced by the driver alone, so it is the sum of what the
earlier calls moved. -/
namespace OsCourse.DeviceAccess
open Stdio CharDevice Transition

/-- A call on the opened device, at the file's own offset. -/
inductive FileCall where
  | read (length : BitVec 64) (copy : Copy)
  | write (length : BitVec 64) (data : Nat → Byte) (copy : Copy)

structure OpenFile where
  device : Device
  offset : Nat

/-- The driver entry behind a call. -/
def OpenFile.call (f : OpenFile) : FileCall → Outcome
  | .read length copy => deviceRead f.device length f.offset copy
  | .write length data copy => deviceWrite f.device length f.offset data copy

def OpenFile.step (f : OpenFile) (c : FileCall) : Option OpenFile :=
  some ⟨(f.call c).device, (f.call c).offset⟩

/-- `device_open` leaves the device alone; the offset of a new file is 0. -/
def opened (d : Device) : OpenFile := ⟨d, 0⟩

/-- The number of bytes a call asks for once its length has been narrowed to
32 bits and capped at the page size. -/
def FileCall.requested : FileCall → Nat
  | .read length _ => min (length.toNat % 2 ^ 32) PAGE_SIZE
  | .write length _ _ => min (length.toNat % 2 ^ 32) PAGE_SIZE

def FileCall.copy : FileCall → Copy
  | .read _ copy => copy
  | .write _ _ copy => copy

/-- The call's user copy goes through. -/
def FileCall.succeeds (c : FileCall) : Bool := c.copy.failed c.requested = 0

/-- The bytes the calls before have moved the offset by. -/
def advanced (calls : List FileCall) : Nat :=
  ((calls.filter FileCall.succeeds).map FileCall.requested).sum

/-- Every byte of the area belongs to the page. -/
def InPage (area : Area) : Prop :=
  ∀ byte, area.start ≤ byte → byte < area.start + area.count → byte < PAGE_SIZE

theorem in_page_iff (area : Area) :
    InPage area ↔ area.count = 0 ∨ area.start + area.count ≤ PAGE_SIZE := by
  constructor
  · intro inside
    by_cases empty : area.count = 0
    · exact Or.inl empty
    · have last := inside (area.start + (area.count - 1)) (by omega) (by omega)
      omega
  · rintro (empty | fits) byte lower upper <;> omega

/-- One call: where it leaves the offset, and the one area it works on. -/
theorem call_spec (f : OpenFile) (c : FileCall) :
    (f.call c).offset = f.offset + (if c.succeeds then c.requested else 0) ∧
      (∀ area ∈ (f.call c).touched, area = ⟨f.offset, c.requested⟩) ∧
      ⟨f.offset, c.requested⟩ ∈ (f.call c).touched := by
  cases c with
  | read length copy =>
    simp only [OpenFile.call, deviceRead, clampLength_toNat, FileCall.requested,
      FileCall.succeeds, FileCall.copy]
    by_cases whole : copy.failed (min (length.toNat % 2 ^ 32) PAGE_SIZE) = 0
    · simp only [whole, ne_eq, not_true_eq_false, ↓reduceIte, decide_true]
      simp
    · simp only [whole, ne_eq, not_false_eq_true, ↓reduceIte, decide_false, Bool.false_eq_true]
      simp
  | write length data copy =>
    simp only [OpenFile.call, deviceWrite, clampLength_toNat, FileCall.requested,
      FileCall.succeeds, FileCall.copy]
    by_cases whole : copy.failed (min (length.toNat % 2 ^ 32) PAGE_SIZE) = 0
    · simp only [whole, ne_eq, not_true_eq_false, ↓reduceIte, decide_true]
      simp
    · simp only [whole, ne_eq, not_false_eq_true, ↓reduceIte, decide_false, Bool.false_eq_true]
      simp

/-- A run never gets stuck, and its offset is what the calls have moved. -/
theorem run_offset (calls : List FileCall) (f : OpenFile) :
    ∃ g, exec OpenFile.step f calls = some g ∧ g.offset = f.offset + advanced calls := by
  induction calls generalizing f with
  | nil => exact ⟨f, rfl, rfl⟩
  | cons c calls ih =>
    obtain ⟨g, ran, offset⟩ := ih ⟨(f.call c).device, (f.call c).offset⟩
    refine ⟨g, exec_cons_some.mpr ⟨_, rfl, ran⟩, ?_⟩
    rw [offset, (call_spec f c).1]
    by_cases done : c.succeeds = true <;> simp [advanced, done, Nat.add_assoc]

/-- The driver works inside its page in a whole run of calls exactly when each
call that asks for any bytes still finds them there: those moved by the calls
before it and its own are at most a page. -/
theorem accesses_in_page_iff (d : Device) (calls : List FileCall) :
    (∀ earlier c, earlier ++ [c] <+: calls → ∀ f, exec OpenFile.step (opened d) earlier = some f →
        ∀ area ∈ (f.call c).touched, InPage area) ↔
      ∀ earlier c, earlier ++ [c] <+: calls →
        c.requested = 0 ∨ advanced earlier + c.requested ≤ PAGE_SIZE := by
  refine forall₃_congr fun earlier c initial => ?_
  obtain ⟨f, ran, offset⟩ := run_offset earlier (opened d)
  obtain ⟨-, only, used⟩ := call_spec f c
  have start : f.offset = advanced earlier := by
    rw [offset]
    exact Nat.zero_add _
  constructor
  · intro inside
    have area := (in_page_iff _).mp (inside f ran _ used)
    rwa [start] at area
  · intro fits g ran' area touched
    rw [ran] at ran'
    cases ran'
    rw [only area touched, in_page_iff, start]
    exact fits

/-- The shipped client reads a whole page and then writes it back through the
same descriptor, which puts the write behind the page. -/
theorem client_writes_behind_page :
    ¬ ∀ (d : Device) (calls : List FileCall) (earlier : List FileCall) (c : FileCall),
      earlier ++ [c] <+: calls → ∀ f, exec OpenFile.step (opened d) earlier = some f →
        ∀ area ∈ (f.call c).touched, InPage area := by
  intro inside
  let d : Device := ⟨fun _ => 0, 0⟩
  let reads : FileCall := .read 4096 ⟨0, true⟩
  let writes : FileCall := .write 4096 (fun _ => 0) ⟨0, true⟩
  obtain ⟨f, ran, offset⟩ := run_offset [reads] (opened d)
  have area := inside d [reads, writes] [reads] writes List.prefix_rfl f ran _
    (call_spec f writes).2.2
  have fits := (in_page_iff _).mp area
  rw [offset] at fits
  exact absurd fits (by decide)

/-! ## The count of one call -/

/-- The call works with this count: every copy and `encrypt_memory` get it, and
unless the copy faults the call adds it to the offset and returns it. -/
def WorksWith (count : Int) (offset : Nat) (o : Outcome) : Prop :=
  (∀ area ∈ o.touched, (area.count : Int) = count) ∧
    (o.returned = -EFAULT ∧ o.offset = offset ∨ o.returned = count ∧ o.offset = offset + count)

/-- For every `size_t` the clamped `int` is neither negative nor above the
length or the page, widening it to `size_t` keeps it, and both calls work with
it. -/
theorem clamped_count_sound (d : Device) (length : BitVec 64) (offset : Nat) (data : Nat → Byte)
    (c : Copy) :
    (0 ≤ (clampLength length).toInt ∧
        (clampLength length).toInt ≤ (min length.toNat PAGE_SIZE : Nat)) ∧
      (((clampLength length).signExtend 64).toNat : Int) = (clampLength length).toInt ∧
      WorksWith (clampLength length).toInt offset (deviceRead d length offset c) ∧
      WorksWith (clampLength length).toInt offset (deviceWrite d length offset data c) := by
  have count := clampLength_toNat length
  have positive : (clampLength length).toInt = (clampLength length).toNat := by
    apply BitVec.toInt_eq_toNat_of_lt
    unfold PAGE_SIZE at count
    omega
  rw [positive]
  refine ⟨⟨Int.natCast_nonneg _, ?_⟩, ?_, ?_, ?_⟩
  · rw [Int.ofNat_le, count]
    have low := Nat.mod_le length.toNat (2 ^ 32)
    omega
  · rw [widened_toNat, if_neg (by unfold PAGE_SIZE at count; omega), Nat.add_zero]
  · by_cases whole : c.failed (clampLength length).toNat = 0 <;>
      simp [WorksWith, deviceRead, whole]
  · by_cases whole : c.failed (clampLength length).toNat = 0 <;>
      simp [WorksWith, deviceWrite, whole]

/-- `2 ^ 32` vanishes in the narrowing, and `2 ^ 31` is taken as a page. -/
example : (clampLength (2 ^ 32)).toInt = 0 ∧ (clampLength (2 ^ 31)).toInt = 4096 := by decide

end OsCourse.DeviceAccess

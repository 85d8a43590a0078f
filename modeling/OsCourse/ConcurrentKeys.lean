import Mathlib.Algebra.Group.Nat.Even
import Mathlib.Data.List.Perm.Basic
import OsCourse.KeyChange

/-! `device_ioctl` called by several processes at once. The driver takes no
lock, so the steps of the calls interleave, and each of them reads the key
that is there at its time. -/
namespace OsCourse.ConcurrentKeys
open Stdio WordXor CharDevice KeyChange Transition

/-- What a call with `IOCTL_SET_KEY` does next. -/
inductive Phase where
  | comparing
  | decrypting
  | assigning
  | encrypting
  | returned
  deriving DecidableEq

structure KeyCall where
  new_key : BitVec 32
  phase : Phase
  deriving DecidableEq

/-- The device and the calls in progress. -/
structure Driver where
  device : Device
  calls : List KeyCall

/-- The calls begin with their arguments, narrowed to `int`. -/
def start (d : Device) (ioctl_params : List (BitVec 64)) : Driver :=
  ⟨d, ioctl_params.map fun ioctl_param => ⟨ioctl_param.setWidth 32, .comparing⟩⟩

def Driver.goto (s : Driver) (i : Nat) (c : KeyCall) (next : Phase) : Driver :=
  { s with calls := s.calls.set i { c with phase := next } }

/-- The next step of call `i`. -/
def step (s : Driver) (i : Nat) : Option Driver :=
  match s.calls[i]? with
  | none => none
  | some c =>
    match c.phase with
    | .comparing =>
      some (s.goto i c (if c.new_key ≠ s.device.key then .decrypting else .returned))
    | .decrypting => some { s.goto i c .assigning with
        device := ⟨decryptMemory s.device.memory 0 PAGE_SIZE s.device.key, s.device.key⟩ }
    | .assigning => some { s.goto i c .encrypting with device := ⟨s.device.memory, c.new_key⟩ }
    | .encrypting => some { s.goto i c .returned with
        device := ⟨encryptMemory s.device.memory 0 PAGE_SIZE s.device.key, s.device.key⟩ }
    | .returned => none

/-! ## The property and its condition -/

/-- Once all calls have returned, the page decrypts to what it did before them. -/
def KeepsPage (d : Device) (s : Driver) : Prop :=
  (∀ c ∈ s.calls, c.phase = .returned) → ∀ j < PAGE_SIZE,
    decryptMemory s.device.memory 0 PAGE_SIZE s.device.key j =
      decryptMemory d.memory 0 PAGE_SIZE d.key j

/-- Between its decryption and its encryption. -/
def KeyCall.midway (c : KeyCall) : Bool := c.phase = .assigning ∨ c.phase = .encrypting

/-- A call that is about to assign another key than the current one does so
while no other call is midway. -/
def Undisturbed (s : Driver) (i : Nat) : Prop :=
  match s.calls[i]? with
  | some ⟨new_key, .assigning⟩ =>
    new_key ≠ s.device.key → ∀ other ∈ s.calls.eraseIdx i, other.midway = false
  | _ => True

instance (s : Driver) (i : Nat) : Decidable (Undisturbed s i) := by
  unfold Undisturbed
  split <;> infer_instance

/-! ## The calls that are midway -/

def midways (s : Driver) : Nat := s.calls.countP KeyCall.midway

theorem midways_eraseIdx (found : s.calls[i]? = some c) :
    midways s = (s.calls.eraseIdx i).countP KeyCall.midway + if c.midway then 1 else 0 := by
  obtain ⟨bound, here⟩ := List.getElem?_eq_some_iff.mp found
  have order := List.getElem_cons_eraseIdx_perm bound
  rw [here] at order
  rw [midways, ← order.countP_eq, List.countP_cons]

theorem midways_goto {s : Driver} {c : KeyCall} (found : s.calls[i]? = some c) (next : Phase) :
    midways (s.goto i c next) = (s.calls.eraseIdx i).countP KeyCall.midway +
      if (KeyCall.mk c.new_key next).midway then 1 else 0 := by
  obtain ⟨bound, -⟩ := List.getElem?_eq_some_iff.mp found
  have order := List.set_perm_cons_eraseIdx bound (KeyCall.mk c.new_key next)
  rw [midways, Driver.goto, order.countP_eq, List.countP_cons]

/-- While an even number of calls is midway the page is encrypted under the
current key, and otherwise it is in the clear. -/
def Masked (d : Device) (s : Driver) : Prop :=
  s.device.memory = encryptMemory (decryptMemory d.memory 0 PAGE_SIZE d.key) 0 PAGE_SIZE
    (if Even (midways s) then s.device.key else 0)

/-- One more call midway, or one less, adds the key to the mask or takes it away. -/
theorem mask_toggled (n : Nat) (key : BitVec 32) :
    (if Even n then key else 0) ^^^ key = if Even (n + 1) then key else 0 := by
  by_cases even : Even n
  · simp [even, Nat.even_add_one]
  · simp [even, Nat.even_add_one]

theorem mask_untoggled (n : Nat) (key : BitVec 32) :
    (if Even (n + 1) then key else 0) ^^^ key = if Even n then key else 0 := by
  by_cases even : Even n
  · simp [even, Nat.even_add_one]
  · simp [even, Nat.even_add_one]

theorem step_masked (s : Driver) (i : Nat) (t : Driver) (masked : Masked d s)
    (undisturbed : Undisturbed s i) (stepped : step s i = some t) : Masked d t := by
  unfold step at stepped
  cases found : s.calls[i]? with
  | none => simp [found] at stepped
  | some c =>
    obtain ⟨new_key, phase⟩ := c
    have before := midways_eraseIdx found
    have after := midways_goto found
    unfold Masked at masked ⊢
    simp only [found] at stepped
    cases phase with
    | comparing =>
      cases stepped
      have same : midways (s.goto i ⟨new_key, .comparing⟩
          (if new_key ≠ s.device.key then .decrypting else .returned)) = midways s := by
        rw [after, before]
        split <;> rfl
      rw [same]
      exact masked
    | decrypting =>
      cases stepped
      have more : midways (s.goto i ⟨new_key, .decrypting⟩ .assigning) = midways s + 1 := by
        rw [after, before]
        rfl
      change decryptMemory s.device.memory 0 PAGE_SIZE s.device.key = encryptMemory _ 0 PAGE_SIZE
        (if Even (midways (s.goto i _ .assigning)) then s.device.key else 0)
      rw [more, decryptMemory, masked, encryptMemory_twice, mask_toggled]
    | assigning =>
      cases stepped
      have same : midways (s.goto i ⟨new_key, .assigning⟩ .encrypting) = midways s := by
        rw [after, before]
        rfl
      change s.device.memory = encryptMemory _ 0 PAGE_SIZE
        (if Even (midways (s.goto i _ .encrypting)) then new_key else 0)
      rw [same]
      by_cases current : new_key = s.device.key
      · rw [current]
        exact masked
      · -- this call is the only one midway, so the page is in the clear
        simp only [Undisturbed, found] at undisturbed
        have none_other := List.countP_eq_zero.mpr fun other member =>
          Bool.not_eq_true _ ▸ undisturbed current other member
        have own : (KeyCall.mk new_key .assigning).midway = true := rfl
        have odd : ¬ Even (midways s) := by
          rw [before, none_other, if_pos own]
          decide
        rw [masked, if_neg odd, if_neg odd]
    | encrypting =>
      cases stepped
      have fewer : midways (s.goto i ⟨new_key, .encrypting⟩ .returned) + 1 = midways s := by
        rw [after, before]
        rfl
      change encryptMemory s.device.memory 0 PAGE_SIZE s.device.key = encryptMemory _ 0 PAGE_SIZE
        (if Even (midways (s.goto i _ .returned)) then s.device.key else 0)
      rw [masked, encryptMemory_twice, ← fewer, mask_untoggled]
    | returned => cases stepped

theorem masked_keeps_page (masked : Masked d s) : KeepsPage d s := by
  intro returned j inside
  have none_midway : midways s = 0 := by
    refine List.countP_eq_zero.mpr fun c member => ?_
    simp [KeyCall.midway, returned c member]
  rw [decryptMemory, masked, none_midway, if_pos Even.zero, encryptMemory_twice, BitVec.xor_self]
  exact congrFun (encryptMemory_zero ..) j

theorem start_masked (d : Device) (ioctl_params : List (BitVec 64)) :
    Masked d (start d ioctl_params) := by
  have none_midway : midways (start d ioctl_params) = 0 := by
    refine List.countP_eq_zero.mpr fun c member => ?_
    obtain ⟨ioctl_param, -, rfl⟩ := List.mem_map.mp member
    exact Bool.false_ne_true
  unfold Masked
  rw [none_midway, if_pos Even.zero, decryptMemory, encryptMemory_twice]
  change d.memory = encryptMemory d.memory 0 PAGE_SIZE (d.key ^^^ d.key)
  rw [BitVec.xor_self]
  exact (encryptMemory_zero ..).symm

/-- However the calls interleave, the page keeps its content if no call changes
the key while another one is midway. -/
theorem undisturbed_calls_keep_page (d : Device) (ioctl_params : List (BitVec 64))
    (schedule : List Nat) (undisturbed : Along step Undisturbed (start d ioctl_params) schedule) :
    Throughout step (KeepsPage d) (start d ioctl_params) schedule :=
  throughout_imp (fun _ => masked_keeps_page)
    (throughout_of_along step_masked (start_masked d ioctl_params) undisturbed)

/-- Both calls may compare at first; the second then waits for the first. -/
theorem calls_one_after_the_other : Throughout step (KeepsPage (charDeviceInit fun _ => 0))
    (start (charDeviceInit fun _ => 0) [1, 2]) [0, 1, 0, 0, 0, 1, 1, 1] :=
  undisturbed_calls_keep_page _ _ _ (by decide)

/-- The same two calls: when both have decrypted the page, the first encrypts it
under its key, and the second once more under its own. -/
theorem interleaved_calls_lose_page : ¬ ∀ d ioctl_params schedule,
    Throughout step (KeepsPage d) (start d ioctl_params) schedule := by
  intro always
  let d : Device := ⟨fun _ => 0, 0⟩
  let twice : Memory := encryptMemory (encryptMemory
    (decryptMemory (decryptMemory d.memory 0 PAGE_SIZE 0) 0 PAGE_SIZE 0) 0 PAGE_SIZE 1) 0 PAGE_SIZE 2
  have ran : exec step (start d [1, 2]) [0, 1, 0, 1, 0, 0, 1, 1] =
      some ⟨⟨twice, 2⟩, [⟨1, .returned⟩, ⟨2, .returned⟩]⟩ := rfl
  have keeps := throughout_iff.mp (always d [1, 2] [0, 1, 0, 1, 0, 0, 1, 1]) _ List.prefix_rfl _ ran
  have first_byte := keeps (by decide) 0 (by decide)
  simp only [decryptMemory, twice, encryptMemory_twice, encryptMemory_page] at first_byte
  exact absurd first_byte (by decide)

end OsCourse.ConcurrentKeys

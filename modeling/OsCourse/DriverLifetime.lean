import OsCourse.DeviceAccess
import OsCourse.ModuleInit

/-! The driver over any number of loads. The kernel makes the calls of
`char_device_init` and `char_device_exit` one by one, and programs act in
between: a device is live from `cdev_add` to `cdev_del`. Neither `fops` nor
`cdev` names an owner, so an open file does not keep the module loaded. -/
namespace OsCourse.DriverLifetime
open Stdio WordXor CharDevice DeviceAccess ModuleInit Transition

inductive ModuleCall where
  | kernel (call : KernelCall)
  | kfree

def charDeviceExit : List ModuleCall :=
  [.kfree, .kernel .cdev_del, .kernel .device_destroy, .kernel .class_destroy,
    .kernel .unregister_chrdev_region, .kernel (.printk "Char device exited\n")]

/-- `kfree` of a null pointer is allowed. -/
def performCall (o : Outcomes) (held : Finset Resource) : ModuleCall → Option (Finset Resource)
  | .kernel call => perform o held call
  | .kfree => some (held \ {.buffer})

/-! ## The module -/

inductive ModuleFunction where
  | char_device_init
  | char_device_exit

def ModuleFunction.calls (o : Outcomes) : ModuleFunction → List ModuleCall
  | .char_device_init => (ModuleInit.charDeviceInit o).2.map .kernel
  | .char_device_exit => charDeviceExit

inductive Phase where
  | unloaded
  /-- The function is under way and has made this many of its calls. -/
  | inside (function : ModuleFunction) (o : Outcomes) (made : Nat)
  | live (o : Outcomes)

def Phase.inMemory : Phase → Bool
  | .unloaded => false
  | _ => true

/-- A module whose `init` returns an error is unloaded again. -/
def ModuleFunction.returned (o : Outcomes) : ModuleFunction → Phase
  | .char_device_init => if (ModuleInit.charDeviceInit o).1 = 0 then .live o else .unloaded
  | .char_device_exit => .unloaded

def ModuleFunction.progress (function : ModuleFunction) (o : Outcomes) (made : Nat) : Phase :=
  if made = (function.calls o).length then function.returned o else .inside function o made

/-! ## Programs -/

/-- An open file and the load whose `fops` it points to. -/
structure File where
  offset : Nat
  load : Nat

inductive Request where
  | fileCall (call : FileCall)
  | ioctl (ioctl_num : BitVec 32) (ioctl_param : BitVec 64)

/-- The areas `device_ioctl` gives to `decrypt_memory` and `encrypt_memory`. -/
def ioctlTouched (d : Device) (ioctl_num : BitVec 32) (ioctl_param : BitVec 64) : List Area :=
  if ioctl_num = IOCTL_SET_KEY ∧ ioctl_param.setWidth 32 ≠ d.key then
    [⟨0, PAGE_SIZE⟩, ⟨0, PAGE_SIZE⟩]
  else []

/-- What a request leaves, and the areas it works on. -/
structure Answered where
  device : Device
  offset : Nat
  touched : List Area

def Request.serve (d : Device) (offset : Nat) : Request → Answered
  | .fileCall call =>
    let outcome := (OpenFile.mk d offset).call call
    ⟨outcome.device, outcome.offset, outcome.touched⟩
  | .ioctl ioctl_num ioctl_param =>
    ⟨(deviceIoctl d ioctl_num ioctl_param).2, offset, ioctlTouched d ioctl_num ioctl_param⟩

structure Driver where
  phase : Phase
  held : Finset Resource
  device : Device
  loads : Nat
  files : Nat → Option File
  faulted : Bool

def start : Driver := ⟨.unloaded, ∅, ⟨fun _ => 0, 0⟩, 0, fun _ => none, false⟩

inductive Action where
  /-- The acquisitions of this load will go so, and `kmalloc` finds this in its page. -/
  | insmod (o : Outcomes) (memory : Memory)
  /-- The next call of the function under way. -/
  | moduleCall
  | rmmod
  | deviceOpen (fd : Nat)
  | request (fd : Nat) (r : Request)
  | deviceRelease (fd : Nat)

/-- The code behind the file is still the one it was opened with. -/
def Driver.backs (s : Driver) (f : File) : Bool := f.load = s.loads && s.phase.inMemory

/-- Bytes the driver holds. Without the buffer it holds none. -/
def Driver.owns (s : Driver) (area : Area) : Prop :=
  area.count = 0 ∨ .buffer ∈ s.held ∧ area.start + area.count ≤ PAGE_SIZE

instance (s : Driver) (area : Area) : Decidable (s.owns area) :=
  inferInstanceAs (Decidable (_ ∨ _))

def fault (s : Driver) : Driver := { s with faulted := true }

/-- The device behind a call of the module: `encrypt_memory` comes with `key = 0`. -/
def deviceAfter (d : Device) : ModuleCall → Device
  | .kernel .encrypt_memory => CharDevice.charDeviceInit d.memory
  | _ => d

def moduleCall (s : Driver) : Option Driver :=
  match s.phase with
  | .inside function o made =>
    (function.calls o)[made]?.map fun call =>
      match performCall o s.held call with
      | none => fault s
      | some held =>
        { s with
          held := held
          device := deviceAfter s.device call
          phase := function.progress o (made + 1) }
  | _ => none

def insmod (s : Driver) (o : Outcomes) (memory : Memory) : Option Driver :=
  match s.phase with
  | .unloaded =>
    some { s with
      phase := .inside .char_device_init o 0
      device := ⟨memory, 0⟩
      loads := s.loads + 1 }
  | _ => none

def rmmod (s : Driver) : Option Driver :=
  match s.phase with
  | .live o => some { s with phase := .inside .char_device_exit o 0 }
  | _ => none

def deviceOpen (s : Driver) (fd : Nat) : Option Driver :=
  if (s.files fd).isSome then none
  else if .cdev ∈ s.held then
    some { s with files := Function.update s.files fd (some ⟨(opened s.device).offset, s.loads⟩) }
  else some s

def request (s : Driver) (fd : Nat) (r : Request) : Option Driver :=
  (s.files fd).map fun f =>
    let answered := r.serve s.device f.offset
    if s.backs f ∧ ∀ area ∈ answered.touched, s.owns area then
      { s with
        device := answered.device
        files := Function.update s.files fd (some ⟨answered.offset, f.load⟩) }
    else fault s

def deviceRelease (s : Driver) (fd : Nat) : Option Driver :=
  (s.files fd).map fun f =>
    if s.backs f then { s with files := Function.update s.files fd none } else fault s

def act (s : Driver) : Action → Option Driver
  | .insmod o memory => insmod s o memory
  | .moduleCall => moduleCall s
  | .rmmod => rmmod s
  | .deviceOpen fd => deviceOpen s fd
  | .request fd r => request s fd r
  | .deviceRelease fd => deviceRelease s fd

/-- A fault ends the run. -/
def step (s : Driver) (a : Action) : Option Driver := if s.faulted then none else act s a

/-! ## The property and its condition -/

/-- Nothing is left of an unloaded module, and a live one holds all five. -/
def Settled (held : Finset Resource) : Phase → Prop
  | .unloaded => held = ∅
  | .inside _ _ _ => True
  | .live _ => held = allFive

def Sound (s : Driver) : Prop := s.faulted = false ∧ Settled s.held s.phase

/-- `memory_buffer` is a page: behind the `kmalloc` of `init`, if it gave one,
and until `exit` frees it. -/
def Phase.HasPage : Phase → Prop
  | .unloaded => False
  | .inside .char_device_init o made =>
    o.kmalloc = true ∧ .kernel .kmalloc ∈ (ModuleFunction.char_device_init.calls o).take made
  | .inside .char_device_exit _ made => .kfree ∉ charDeviceExit.take made
  | .live _ => True

/-- The request finds its page, and stays in it. -/
def Request.Fits (s : Driver) (f : File) : Request → Prop
  | .fileCall call =>
    call.requested = 0 ∨ s.phase.HasPage ∧ f.offset + call.requested ≤ PAGE_SIZE
  | .ioctl ioctl_num ioctl_param =>
    ioctl_num = IOCTL_SET_KEY → ioctl_param.setWidth 32 ≠ s.device.key → s.phase.HasPage

/-- A file is used and closed under the load it was opened in, and its requests
find their page. -/
def InTime (s : Driver) : Action → Prop
  | .request fd r => ∀ f, s.files fd = some f → s.backs f ∧ r.Fits s f
  | .deviceRelease fd => ∀ f, s.files fd = some f → s.backs f
  | _ => True

/-- Each load fails only in ways the tests of `char_device_init` see. -/
def Action.Seen : Action → Prop
  | .insmod o _ => FailuresSeen o
  | _ => True

/-! ## The calls of the two functions -/

theorem exec_kernel (calls : List KernelCall) (held : Finset Resource) :
    exec (performCall o) held (calls.map .kernel) = exec (perform o) held calls := by
  induction calls generalizing held with
  | nil => rfl
  | cons call rest ih => exact congrArg _ (funext ih)

theorem seen_all_or_nothing (seen : FailuresSeen o) : AllOrNothing o := by
  obtain ⟨region, deviceClass, device, cdev, kmalloc⟩ := o
  cases region with
  | error errno => exact region_failed errno deviceClass device cdev kmalloc
  | success =>
    cases deviceClass with
    | error errno => exact seen.elim
    | success =>
      cases device with
      | error errno => exact seen.elim
      | success =>
        cases cdev with
        | error errno => exact (cdev_failed_iff errno kmalloc).mpr seen
        | success => exact nothing_failed kmalloc

/-- What is held when the function is called. -/
def ModuleFunction.holds : ModuleFunction → Finset Resource
  | .char_device_init => ∅
  | .char_device_exit => allFive

/-- What is held in each phase. -/
def Holds (held : Finset Resource) : Phase → Prop
  | .unloaded => held = ∅
  | .inside function o made =>
    FailuresSeen o ∧ exec (performCall o) function.holds ((function.calls o).take made) = some held
  | .live o => FailuresSeen o ∧ held = allFive

theorem holds_settled (holds : Holds held phase) : Settled held phase := by
  cases phase with
  | unloaded => exact holds
  | inside function o made => trivial
  | live o => exact holds.2

theorem function_settles (seen : FailuresSeen o) (function : ModuleFunction) :
    ∃ final, exec (performCall o) function.holds (function.calls o) = some final ∧
      Holds final (function.returned o) := by
  cases function with
  | char_device_exit => exact ⟨∅, rfl, rfl⟩
  | char_device_init =>
    obtain ⟨final, ran, ends⟩ := seen_all_or_nothing seen
    refine ⟨final, (exec_kernel _ _).trans ran, ?_⟩
    unfold ModuleFunction.returned
    rcases ends with ⟨done, all⟩ | ⟨failed, none_held⟩
    · rw [if_pos done]
      exact ⟨seen, all⟩
    · rw [if_neg (Int.ne_of_lt failed)]
      exact none_held

/-- The next call of a function under way is on things that are held. -/
theorem call_performed (holds : Holds held (.inside function o made))
    (next : (function.calls o)[made]? = some call) :
    ∃ after, performCall o held call = some after ∧
      Holds after (function.progress o (made + 1)) := by
  obtain ⟨seen, ran⟩ := holds
  obtain ⟨final, whole, settled⟩ := function_settles seen function
  obtain ⟨after, performed, onward⟩ := exec_take_succ whole ran next
  refine ⟨after, performed, ?_⟩
  unfold ModuleFunction.progress
  split
  · rename_i last
    rw [last, List.take_length, whole] at onward
    cases onward
    exact settled
  · exact ⟨seen, onward⟩

/-! ## The buffer -/

theorem not_given (answer : Answer) (other : r ≠ .buffer) : .buffer ∉ answer.gives r := by
  cases answer with
  | success => simpa [Answer.gives] using other.symm
  | error errno => exact Finset.notMem_empty _

theorem buffer_after (performed : performCall o held call = some after) :
    .buffer ∈ after ↔
      .buffer ∈ held ∧ call ≠ .kfree ∨ o.kmalloc = true ∧ call = .kernel .kmalloc := by
  cases call with
  | kfree =>
    cases performed
    simp
  | kernel call =>
    change perform o held call = some after at performed
    unfold perform at performed
    split at performed
    · cases performed
      by_cases given : o.kmalloc = true <;> cases call <;>
        simp [KernelCall.releases, KernelCall.acquires, not_given, given]
    · cases performed

/-- Calls that free nothing hold the buffer once `kmalloc` has given it. -/
theorem buffer_gained (ran : exec (performCall o) held calls = some after)
    (kept : .kfree ∉ calls) :
    .buffer ∈ after ↔ .buffer ∈ held ∨ o.kmalloc = true ∧ .kernel .kmalloc ∈ calls := by
  induction calls generalizing held with
  | nil =>
    cases ran
    simp
  | cons call rest ih =>
    obtain ⟨middle, performed, onward⟩ := exec_cons_some.mp ran
    have not_freed : call ≠ .kfree := fun same => kept (same ▸ List.mem_cons_self)
    rw [ih onward fun later => kept (List.mem_cons_of_mem _ later), buffer_after performed]
    grind

/-- Calls that take nothing hold it until it is freed. -/
theorem buffer_lost (ran : exec (performCall o) held calls = some after)
    (taken : .kernel .kmalloc ∉ calls) : .buffer ∈ after ↔ .buffer ∈ held ∧ .kfree ∉ calls := by
  induction calls generalizing held with
  | nil =>
    cases ran
    simp
  | cons call rest ih =>
    obtain ⟨middle, performed, onward⟩ := exec_cons_some.mp ran
    have not_taken : call ≠ .kernel .kmalloc := fun same => taken (same ▸ List.mem_cons_self)
    rw [ih onward fun later => taken (List.mem_cons_of_mem _ later), buffer_after performed]
    grind

theorem buffer_held_iff (holds : Holds held phase) : .buffer ∈ held ↔ phase.HasPage := by
  cases phase with
  | unloaded =>
    rw [show held = ∅ from holds]
    exact iff_of_false (Finset.notMem_empty _) id
  | live o =>
    rw [holds.2]
    exact iff_of_true (by decide) trivial
  | inside function o made =>
    obtain ⟨-, ran⟩ := holds
    cases function with
    | char_device_init =>
      rw [buffer_gained ran]
      · simp [ModuleFunction.holds, Phase.HasPage]
      · intro freed
        simpa [ModuleFunction.calls] using List.mem_of_mem_take freed
    | char_device_exit =>
      rw [buffer_lost ran]
      · simp [ModuleFunction.holds, Phase.HasPage, ModuleFunction.calls, allFive]
      · intro taken
        simpa [ModuleFunction.calls, charDeviceExit] using List.mem_of_mem_take taken

/-! ## One action -/

def Kept (s : Driver) : Prop := Holds s.held s.phase

/-- A request works on bytes the driver owns exactly when it finds its page. -/
theorem owned_iff (kept : Kept s) (f : File) (r : Request) :
    (∀ area ∈ (r.serve s.device f.offset).touched, s.owns area) ↔ r.Fits s f := by
  have page := buffer_held_iff kept
  cases r with
  | fileCall call =>
    obtain ⟨-, only, used⟩ := call_spec ⟨s.device, f.offset⟩ call
    unfold Request.Fits
    rw [← page]
    constructor
    · exact fun owned => owned _ used
    · intro fits area touched
      rw [only area touched]
      exact fits
  | ioctl ioctl_num ioctl_param =>
    have whole : s.owns ⟨0, PAGE_SIZE⟩ ↔ s.phase.HasPage := by
      unfold Driver.owns
      rw [page]
      simp [PAGE_SIZE]
    change (∀ area ∈ ioctlTouched s.device ioctl_num ioctl_param, s.owns area) ↔
      (ioctl_num = IOCTL_SET_KEY → ioctl_param.setWidth 32 ≠ s.device.key → s.phase.HasPage)
    unfold ioctlTouched
    by_cases changes : ioctl_num = IOCTL_SET_KEY ∧ ioctl_param.setWidth 32 ≠ s.device.key
    · rw [if_pos changes, ← whole]
      simp [changes]
    · rw [if_neg changes]
      refine iff_of_true (fun area touched => by cases touched) ?_
      intro command key
      exact absurd ⟨command, key⟩ changes

/-- The next call of the module is never a fault. -/
theorem module_call_kept (kept : Kept s) (stepped : moduleCall s = some t) :
    t.faulted = s.faulted ∧ Kept t := by
  unfold moduleCall at stepped
  cases phase : s.phase with
  | unloaded =>
    rw [phase] at stepped
    cases stepped
  | live o =>
    rw [phase] at stepped
    cases stepped
  | inside function o made =>
    rw [phase] at stepped
    obtain ⟨call, next, done⟩ := Option.map_eq_some_iff.mp stepped
    unfold Kept at kept
    rw [phase] at kept
    obtain ⟨after, performed, onward⟩ := call_performed kept next
    rw [performed] at done
    cases done
    exact ⟨rfl, onward⟩

theorem insmod_kept (seen : FailuresSeen o) (kept : Kept s) (loads : insmod s o memory = some t) :
    t.faulted = s.faulted ∧ Kept t := by
  unfold insmod at loads
  split at loads
  · rename_i phase
    cases loads
    unfold Kept at kept
    rw [phase] at kept
    have nothing_held : s.held = ∅ := kept
    exact ⟨rfl, seen, congrArg some nothing_held.symm⟩
  · cases loads

theorem rmmod_kept (kept : Kept s) (unloads : rmmod s = some t) :
    t.faulted = s.faulted ∧ Kept t := by
  unfold rmmod at unloads
  split at unloads
  · rename_i o phase
    cases unloads
    unfold Kept at kept
    rw [phase] at kept
    obtain ⟨seen, all⟩ := kept
    exact ⟨rfl, seen, congrArg some all.symm⟩
  · cases unloads

theorem open_kept (kept : Kept s) (opens : deviceOpen s fd = some t) :
    t.faulted = s.faulted ∧ Kept t := by
  unfold deviceOpen at opens
  split at opens
  · cases opens
  · split at opens <;> cases opens <;> exact ⟨rfl, kept⟩

/-- A request faults exactly when its file is stale or it does not find its page. -/
theorem request_kept (kept : Kept s) (running : s.faulted = false)
    (served : request s fd r = some t) :
    (t.faulted = false ↔ InTime s (.request fd r)) ∧ Kept t := by
  obtain ⟨f, opened, done⟩ := Option.map_eq_some_iff.mp served
  have in_time : InTime s (.request fd r) ↔ s.backs f ∧ r.Fits s f := by
    simp only [InTime, opened, Option.some.injEq, forall_eq']
  rw [in_time, ← owned_iff kept f r]
  dsimp only at done
  split at done
  · rename_i owned
    cases done
    exact ⟨iff_of_true running owned, kept⟩
  · rename_i missed
    cases done
    exact ⟨iff_of_false (fun same => by cases same) missed, kept⟩

theorem release_kept (kept : Kept s) (running : s.faulted = false)
    (closed : deviceRelease s fd = some t) :
    (t.faulted = false ↔ InTime s (.deviceRelease fd)) ∧ Kept t := by
  obtain ⟨f, opened, done⟩ := Option.map_eq_some_iff.mp closed
  have in_time : InTime s (.deviceRelease fd) ↔ s.backs f := by
    simp only [InTime, opened, Option.some.injEq, forall_eq']
  rw [in_time]
  split at done
  · rename_i backed
    cases done
    exact ⟨iff_of_true running backed, kept⟩
  · rename_i missed
    cases done
    exact ⟨iff_of_false (fun same => by cases same) missed, kept⟩

/-- One action keeps what each phase holds, and faults exactly when it is not in
time. -/
theorem step_kept (seen : a.Seen) (kept : Kept s) (stepped : step s a = some t) :
    (t.faulted = false ↔ InTime s a) ∧ Kept t := by
  unfold step at stepped
  split at stepped
  · cases stepped
  · rename_i running
    have running := Bool.eq_false_of_not_eq_true running
    have no_request : t.faulted = s.faulted ∧ Kept t → (t.faulted = false ↔ True) ∧ Kept t :=
      fun same => ⟨iff_of_true (same.1.trans running) trivial, same.2⟩
    cases a with
    | insmod o memory => exact no_request (insmod_kept seen kept stepped)
    | moduleCall => exact no_request (module_call_kept kept stepped)
    | rmmod => exact no_request (rmmod_kept kept stepped)
    | deviceOpen fd => exact no_request (open_kept kept stepped)
    | request fd r => exact request_kept kept running stepped
    | deviceRelease fd => exact release_kept kept running stepped

/-! ## Every run -/

/-- As long as loads fail only in ways that `char_device_init` sees, nothing the
kernel or a program does in any order makes the driver use what it does not
hold, or leaves anything behind an unload, exactly when each file is used and
closed under the load it was opened in, each request finds the page there, and
no read or write goes on behind its end. -/
theorem driver_sound_iff (seen : ∀ a ∈ actions, a.Seen) :
    Throughout step Sound start actions ↔ Along step InTime start actions := by
  have empty : Kept start := rfl
  apply throughout_iff_along_of
    (fun s a t allowed kept stepped => (step_kept allowed kept stepped).2) ?_ seen empty ⟨rfl, rfl⟩
  intro s a t allowed kept sound stepped
  obtain ⟨in_time, kept_after⟩ := step_kept allowed kept stepped
  rw [← in_time]
  exact and_iff_left (holds_settled kept_after)

def allSucceed : Outcomes := ⟨.success, .success, .success, .success, true⟩

/-- A program has the device open before `init` comes to `kmalloc`. -/
def openedEarly : List Action :=
  .insmod allSucceed (fun _ => 0) :: List.replicate 5 .moduleCall ++ [.deviceOpen 3]

/-- Its read is of a page that is not there yet. -/
theorem early_read_faults : ¬ Throughout step Sound start
    (openedEarly ++ [.request 3 (.fileCall (.read 1 ⟨0, true⟩))]) := by
  intro sound
  have in_time := (driver_sound_iff (by
    simp [openedEarly, Action.Seen, FailuresSeen, allSucceed])).mp sound
  have early := along_at in_time (show exec step start openedEarly = some _ from rfl) rfl
  obtain ⟨-, asks_nothing | ⟨page, -⟩⟩ := early ⟨0, 1⟩ rfl
  · cases asks_nothing
  · have before : (ModuleFunction.char_device_init.calls allSucceed).take 5 =
        [.kernel .alloc_chrdev_region, .kernel .class_create, .kernel .device_create,
          .kernel .cdev_init, .kernel .cdev_add] := rfl
    have given := page.2
    rw [before] at given
    simp at given

end OsCourse.DriverLifetime

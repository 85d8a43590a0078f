import Mathlib.Data.Finset.Lattice.Lemmas
import Mathlib.Data.Finset.SDiff
import OsCourse.Transition

/-! `char_device_init`: the kernel calls it makes for each outcome of its five
acquisitions, and a ledger of what the module holds, which stops at the first
call on something that is not held. -/
namespace OsCourse.ModuleInit
open Transition

/-- An error number of the kernel, from 1 to `MAX_ERRNO`. -/
structure Errno where
  number : Nat
  positive : 0 < number
  bound : number ≤ 4095

def EPERM : Errno := ⟨1, by decide, by decide⟩
def ENOMEM : Errno := ⟨12, by decide, by decide⟩

inductive Pointer where
  | null
  | valid
  /-- `ERR_PTR(-errno)` -/
  | err (errno : Errno)

/-- How an acquisition goes. -/
inductive Answer where
  | success
  | error (errno : Errno)

/-- As a result of type `int`. -/
def Answer.code : Answer → Int
  | .success => 0
  | .error errno => -errno.number

/-- As a result of `class_create` and `device_create`. -/
def Answer.pointer : Answer → Pointer
  | .success => .valid
  | .error errno => .err errno

structure Outcomes where
  alloc_chrdev_region : Answer
  class_create : Answer
  device_create : Answer
  cdev_add : Answer
  kmalloc : Bool

def Outcomes.memory_buffer (o : Outcomes) : Pointer := if o.kmalloc then .valid else .null

instance (p : Pointer) : Decidable (p = .null) :=
  match p with
  | .null => isTrue rfl
  | .valid => isFalse (by simp)
  | .err _ => isFalse (by simp)

inductive KernelCall where
  | alloc_chrdev_region
  | class_create
  | device_create
  | cdev_init
  | cdev_add
  | kmalloc
  | encrypt_memory
  | cdev_del
  | device_destroy
  | class_destroy
  | unregister_chrdev_region
  | printk (text : String)

/-- The call before the rest of the function. -/
def before (call : KernelCall) (rest : Int × List KernelCall) : Int × List KernelCall :=
  (rest.1, call :: rest.2)

/-- What `char_device_init` returns, and its calls. -/
def charDeviceInit (o : Outcomes) : Int × List KernelCall :=
  before .alloc_chrdev_region <|
  if o.alloc_chrdev_region.code < 0 then
    (-1, [.printk "Failed to allocate character device region\n"])
  else before .class_create <|
  if o.class_create.pointer = .null then
    (-1, [.printk "Failed to create the device class\n", .unregister_chrdev_region])
  else before .device_create <|
  if o.device_create.pointer = .null then
    (-1, [.printk "Failed to create the device\n", .class_destroy, .unregister_chrdev_region])
  else before .cdev_init <| before .cdev_add <|
  if o.cdev_add.code = -1 then
    (-1, [.printk "Failed to add the character device\n", .device_destroy, .class_destroy,
      .unregister_chrdev_region])
  else before .kmalloc <|
  if o.memory_buffer = .null then
    (-1, [.printk "Failed to allocate memory buffer\n", .cdev_del, .device_destroy, .class_destroy,
      .unregister_chrdev_region])
  else before .encrypt_memory (0, [.printk "Char device initialized\n"])

/-! ## The ledger -/

inductive Resource where
  | region
  | deviceClass
  | device
  | cdev
  | buffer
  deriving DecidableEq

def allFive : Finset Resource := {.region, .deviceClass, .device, .cdev, .buffer}

/-- What a call is made on. -/
def KernelCall.needs : KernelCall → Finset Resource
  | .device_create => {.deviceClass, .region}
  | .cdev_add | .unregister_chrdev_region => {.region}
  | .encrypt_memory => {.buffer}
  | .cdev_del => {.cdev}
  | .device_destroy => {.deviceClass, .region, .device}
  | .class_destroy => {.deviceClass}
  | .alloc_chrdev_region | .class_create | .cdev_init | .kmalloc | .printk _ => ∅

def KernelCall.releases : KernelCall → Finset Resource
  | .cdev_del => {.cdev}
  | .device_destroy => {.device}
  | .class_destroy => {.deviceClass}
  | .unregister_chrdev_region => {.region}
  | _ => ∅

def Answer.gives (r : Resource) : Answer → Finset Resource
  | .success => {r}
  | .error _ => ∅

def KernelCall.acquires (o : Outcomes) : KernelCall → Finset Resource
  | .alloc_chrdev_region => o.alloc_chrdev_region.gives .region
  | .class_create => o.class_create.gives .deviceClass
  | .device_create => o.device_create.gives .device
  | .cdev_add => o.cdev_add.gives .cdev
  | .kmalloc => if o.kmalloc then {.buffer} else ∅
  | _ => ∅

/-- A call on a resource that was never acquired, or is released already, is a
fault. -/
def perform (o : Outcomes) (held : Finset Resource) (call : KernelCall) : Option (Finset Resource) :=
  if call.needs ⊆ held then some ((held \ call.releases) ∪ call.acquires o) else none

/-! ## The property and its condition -/

/-- No call is a fault, and the function holds everything behind a 0 and nothing
behind an error. -/
def AllOrNothing (o : Outcomes) : Prop :=
  ∃ held, exec (perform o) ∅ (charDeviceInit o).2 = some held ∧
    ((charDeviceInit o).1 = 0 ∧ held = allFive ∨ (charDeviceInit o).1 < 0 ∧ held = ∅)

/-- The failures the tests of the function see, behind which nothing has failed
that they do not see. -/
def FailuresSeen (o : Outcomes) : Prop :=
  match o.alloc_chrdev_region, o.class_create, o.device_create, o.cdev_add with
  | .error _, _, _, _ => True
  | .success, .success, .success, .success => True
  | .success, .success, .success, .error errno => errno = EPERM
  | _, _, _, _ => False

/-! ## Which failures are seen -/

theorem error_negative (errno : Errno) : (Answer.error errno).code < 0 := by
  have positive := errno.positive
  simp only [Answer.code]
  omega

theorem error_eq_minus_one (errno : Errno) : (Answer.error errno).code = -1 ↔ errno = EPERM := by
  obtain ⟨number, positive, bound⟩ := errno
  simp only [Answer.code, EPERM, Errno.mk.injEq]
  omega

theorem all_or_nothing_of_exec (init : charDeviceInit o = (code, calls))
    (ran : exec (perform o) ∅ calls = some held) :
    AllOrNothing o ↔ code = 0 ∧ held = allFive ∨ code < 0 ∧ held = ∅ := by
  unfold AllOrNothing
  rw [init]
  constructor
  · rintro ⟨other, ran', ends⟩
    rw [ran] at ran'
    cases ran'
    exact ends
  · exact fun ends => ⟨held, ran, ends⟩

theorem fault_not_all_or_nothing (init : (charDeviceInit o).2 = calls)
    (faults : exec (perform o) ∅ calls = none) : ¬ AllOrNothing o := by
  rintro ⟨held, ran, -⟩
  rw [init, faults] at ran
  cases ran

theorem region_failed (errno : Errno) (deviceClass device cdev : Answer) (kmalloc : Bool) :
    AllOrNothing ⟨.error errno, deviceClass, device, cdev, kmalloc⟩ := by
  have init : charDeviceInit ⟨.error errno, deviceClass, device, cdev, kmalloc⟩ =
      (-1, [.alloc_chrdev_region, .printk "Failed to allocate character device region\n"]) := by
    rw [charDeviceInit, if_pos (error_negative errno)]
    rfl
  exact (all_or_nothing_of_exec init rfl).mpr (Or.inr ⟨by decide, rfl⟩)

/-- The error pointer of `class_create` is handed to `device_create`. -/
theorem class_failed (errno : Errno) (device cdev : Answer) (kmalloc : Bool) :
    ¬ AllOrNothing ⟨.success, .error errno, device, cdev, kmalloc⟩ := by
  obtain ⟨rest, calls⟩ : ∃ rest, (charDeviceInit ⟨.success, .error errno, device, cdev, kmalloc⟩).2 =
      .alloc_chrdev_region :: .class_create :: .device_create :: rest := ⟨_, rfl⟩
  exact fault_not_all_or_nothing calls rfl

/-- Behind a class, no answer of `device_create` stops the function. -/
theorem init_behind_class (device cdev : Answer) (kmalloc : Bool) :
    charDeviceInit ⟨.success, .success, device, cdev, kmalloc⟩ =
      if cdev.code = -1 then
        (-1, [.alloc_chrdev_region, .class_create, .device_create, .cdev_init, .cdev_add,
          .printk "Failed to add the character device\n", .device_destroy, .class_destroy,
          .unregister_chrdev_region])
      else if kmalloc then
        (0, [.alloc_chrdev_region, .class_create, .device_create, .cdev_init, .cdev_add, .kmalloc,
          .encrypt_memory, .printk "Char device initialized\n"])
      else
        (-1, [.alloc_chrdev_region, .class_create, .device_create, .cdev_init, .cdev_add, .kmalloc,
          .printk "Failed to allocate memory buffer\n", .cdev_del, .device_destroy, .class_destroy,
          .unregister_chrdev_region]) := by
  have go_on : charDeviceInit ⟨.success, .success, device, cdev, kmalloc⟩ =
      before .alloc_chrdev_region (before .class_create (before .device_create (before .cdev_init
        (before .cdev_add (if cdev.code = -1 then
          (-1, [.printk "Failed to add the character device\n", .device_destroy, .class_destroy,
            .unregister_chrdev_region])
        else before .kmalloc (if (Outcomes.mk .success .success device cdev kmalloc).memory_buffer =
            .null then
          (-1, [.printk "Failed to allocate memory buffer\n", .cdev_del, .device_destroy,
            .class_destroy, .unregister_chrdev_region])
        else before .encrypt_memory (0, [.printk "Char device initialized\n"]))))))) := by
    cases device <;> rfl
  rw [go_on]
  by_cases seen : cdev.code = -1
  · rw [if_pos seen, if_pos seen]
    rfl
  · rw [if_neg seen, if_neg seen]
    cases kmalloc <;> rfl

/-- A device that could not be created is destroyed, or is missing behind a 0. -/
theorem device_failed (errno : Errno) (cdev : Answer) (kmalloc : Bool) :
    ¬ AllOrNothing ⟨.success, .success, .error errno, cdev, kmalloc⟩ := by
  have init := init_behind_class (.error errno) cdev kmalloc
  by_cases seen : cdev.code = -1
  · rw [if_pos seen] at init
    exact fault_not_all_or_nothing (congrArg Prod.snd init) (by cases cdev <;> rfl)
  · rw [if_neg seen] at init
    cases kmalloc with
    | false => exact fault_not_all_or_nothing (congrArg Prod.snd init) (by cases cdev <;> rfl)
    | true =>
      cases cdev with
      | success =>
        rw [all_or_nothing_of_exec init (show _ = some {.region, .deviceClass, .cdev, .buffer} from rfl)]
        decide
      | error other =>
        rw [all_or_nothing_of_exec init (show _ = some {.region, .deviceClass, .buffer} from rfl)]
        decide

/-- Of the errors of `cdev_add` only `-EPERM` is seen. -/
theorem cdev_failed_iff (errno : Errno) (kmalloc : Bool) :
    AllOrNothing ⟨.success, .success, .success, .error errno, kmalloc⟩ ↔ errno = EPERM := by
  have init := init_behind_class .success (.error errno) kmalloc
  by_cases seen : errno = EPERM
  · rw [if_pos ((error_eq_minus_one errno).mpr seen)] at init
    exact iff_of_true ((all_or_nothing_of_exec init rfl).mpr (Or.inr ⟨by decide, rfl⟩)) seen
  · rw [if_neg fun minus_one => seen ((error_eq_minus_one errno).mp minus_one)] at init
    refine iff_of_false ?_ seen
    cases kmalloc with
    | false => exact fault_not_all_or_nothing (congrArg Prod.snd init) rfl
    | true =>
      rw [all_or_nothing_of_exec init (show _ = some {.region, .deviceClass, .device, .buffer} from rfl)]
      decide

theorem nothing_failed (kmalloc : Bool) :
    AllOrNothing ⟨.success, .success, .success, .success, kmalloc⟩ := by
  have init := init_behind_class .success .success kmalloc
  cases kmalloc with
  | false => exact (all_or_nothing_of_exec init rfl).mpr (Or.inr ⟨by decide, by decide⟩)
  | true => exact (all_or_nothing_of_exec init rfl).mpr (Or.inl ⟨rfl, by decide⟩)

/-- Whatever the acquisitions come to, the function is all or nothing exactly
when its tests see each failure. -/
theorem all_or_nothing_iff (o : Outcomes) : AllOrNothing o ↔ FailuresSeen o := by
  obtain ⟨region, deviceClass, device, cdev, kmalloc⟩ := o
  cases region with
  | error errno => exact iff_of_true (region_failed errno deviceClass device cdev kmalloc) trivial
  | success =>
    cases deviceClass with
    | error errno => exact iff_of_false (class_failed errno device cdev kmalloc) id
    | success =>
      cases device with
      | error errno => exact iff_of_false (device_failed errno cdev kmalloc) id
      | success =>
        cases cdev with
        | error errno => exact cdev_failed_iff errno kmalloc
        | success => exact iff_of_true (nothing_failed kmalloc) trivial

/-- Without memory for the class the module goes on with the error pointer. -/
theorem error_pointer_is_used : ¬ ∀ o, AllOrNothing o := fun always =>
  class_failed ENOMEM .success .success true (always _)

end OsCourse.ModuleInit

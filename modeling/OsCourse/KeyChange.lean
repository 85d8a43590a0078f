import OsCourse.CharDevice

/-! Changing the key. Over the page, encrypting under two keys in turn is
encrypting under their XOR, so only the first and the last key of a run are
left in what it does to the page. -/
namespace OsCourse.KeyChange
open Stdio WordXor CharDevice

/-! ## One key change -/

/-- The device with its page moved to another key. -/
def rekeyed (d : Device) (new_key : BitVec 32) : Device :=
  ⟨encryptMemory d.memory 0 PAGE_SIZE (d.key ^^^ new_key), new_key⟩

/-- The body of `if (new_key != key)`. -/
def fullPath (d : Device) (new_key : BitVec 32) : Device :=
  ⟨encryptMemory (decryptMemory d.memory 0 PAGE_SIZE d.key) 0 PAGE_SIZE new_key, new_key⟩

theorem fullPath_rekeyed (d : Device) (new_key : BitVec 32) : fullPath d new_key = rekeyed d new_key := by
  unfold fullPath rekeyed decryptMemory
  rw [encryptMemory_twice]

theorem rekeyed_same (d : Device) : rekeyed d d.key = d := by
  unfold rekeyed
  rw [BitVec.xor_self]
  exact congrArg (Device.mk · d.key) (encryptMemory_zero ..)

theorem rekeyed_twice (d : Device) (middle last : BitVec 32) :
    rekeyed (rekeyed d middle) last = rekeyed d last := by
  have keys : (d.key ^^^ middle) ^^^ (middle ^^^ last) = d.key ^^^ last := by
    rw [BitVec.xor_assoc, ← BitVec.xor_assoc middle, BitVec.xor_self, BitVec.zero_xor]
  unfold rekeyed
  rw [encryptMemory_twice, keys]

theorem rekeyed_word (d : Device) (new_key : BitVec 32) (inside : i < PAGE_SIZE / 4) :
    wordAt (rekeyed d new_key).memory (4 * i) = wordAt d.memory (4 * i) ^^^ (d.key ^^^ new_key) := by
  have word := wordAt_xorWords (d.key ^^^ new_key) 0 d.memory inside
  rwa [Nat.zero_add] at word

/-- With the command `IOCTL_SET_KEY` the page moves to the argument, whether
the test finds a new key or not. -/
theorem ioctl_set_key (d : Device) (ioctl_param : BitVec 64) :
    deviceIoctl d IOCTL_SET_KEY ioctl_param = (0, rekeyed d (ioctl_param.setWidth 32)) := by
  unfold deviceIoctl
  rw [if_pos rfl]
  dsimp only
  split
  · exact congrArg (Prod.mk 0) (fullPath_rekeyed d _)
  · rename_i same
    rw [not_not.mp same, rekeyed_same]

theorem ioctl_rejected (d : Device) (ioctl_param : BitVec 64) (other : ioctl_num ≠ IOCTL_SET_KEY) :
    deviceIoctl d ioctl_num ioctl_param = (-EINVAL, d) := if_neg other

/-! ## Any sequence of calls -/

/-- A call of `device_ioctl`, or a read in between. -/
inductive Call where
  | ioctl (ioctl_num : BitVec 32) (ioctl_param : BitVec 64)
  | read (length : BitVec 64) (offset : Nat) (copy : Copy)

def serve (d : Device) : Call → Device
  | .ioctl ioctl_num ioctl_param => (deviceIoctl d ioctl_num ioctl_param).2
  | .read length offset copy => (deviceRead d length offset copy).device

def run (d : Device) (calls : List Call) : Device := calls.foldl serve d

/-- The argument of a `SET_KEY`, narrowed to `int`. -/
def Call.setsKey : Call → Option (BitVec 32)
  | .ioctl ioctl_num ioctl_param =>
    if ioctl_num = IOCTL_SET_KEY then some (ioctl_param.setWidth 32) else none
  | .read _ _ _ => none

/-- The last key the calls set, or the one before them. -/
def finalKey (k0 : BitVec 32) (calls : List Call) : BitVec 32 :=
  ((calls.filterMap Call.setsKey).getLast?).getD k0

/-- What a sequence of calls has done to the device. -/
structure PathIndependent (d : Device) (calls : List Call) : Prop where
  key : (run d calls).key = finalKey d.key calls
  words : ∀ i < PAGE_SIZE / 4, wordAt (run d calls).memory (4 * i) =
    wordAt d.memory (4 * i) ^^^ (d.key ^^^ finalKey d.key calls)
  behind : ∀ j, PAGE_SIZE ≤ j → (run d calls).memory j = d.memory j
  rejected : ∀ ioctl_num ioctl_param, ioctl_num ≠ IOCTL_SET_KEY →
    deviceIoctl (run d calls) ioctl_num ioctl_param = (-EINVAL, run d calls)
  shortcut : ∀ ioctl_param, deviceIoctl (run d calls) IOCTL_SET_KEY ioctl_param =
    (0, fullPath (run d calls) (ioctl_param.setWidth 32))
  restored : finalKey d.key calls = d.key → run d calls = d

theorem serve_rekeyed (d : Device) (c : Call) : serve d c = rekeyed d (c.setsKey.getD d.key) := by
  cases c with
  | ioctl ioctl_num ioctl_param =>
    by_cases set : ioctl_num = IOCTL_SET_KEY
    · subst set
      simp only [serve, ioctl_set_key, Call.setsKey, ↓reduceIte, Option.getD_some]
    · simp only [serve, ioctl_rejected d ioctl_param set, Call.setsKey, set, ↓reduceIte,
        Option.getD_none, rekeyed_same]
  | read length offset copy =>
    rw [Call.setsKey, Option.getD_none, rekeyed_same]
    unfold serve deviceRead
    dsimp only
    split <;> rfl

theorem final_key_append (k0 : BitVec 32) (calls : List Call) (c : Call) :
    finalKey k0 (calls ++ [c]) = c.setsKey.getD (finalKey k0 calls) := by
  unfold finalKey
  rw [List.filterMap_append]
  cases set : c.setsKey with
  | none => simp [set]
  | some new_key => simp [set]

/-- The calls amount to one change to the last key. -/
theorem run_rekeyed (d : Device) (calls : List Call) :
    run d calls = rekeyed d (finalKey d.key calls) := by
  induction calls using List.reverseRecOn with
  | nil => exact (rekeyed_same d).symm
  | append_singleton calls c ih =>
    have key : (run d calls).key = finalKey d.key calls := by
      rw [ih]
      rfl
    have last : run d (calls ++ [c]) = serve (run d calls) c := List.foldl_concat ..
    rw [last, serve_rekeyed, key, final_key_append, ih, rekeyed_twice]

/-- Whatever the calls are, the page is where a change from the first key to
the last one takes it. -/
theorem key_changes_path_independent (d : Device) (calls : List Call) : PathIndependent d calls := by
  have closed := run_rekeyed d calls
  refine ⟨?_, ?_, ?_, ?_, ?_, ?_⟩
  · rw [closed]
    rfl
  · intro i inside
    rw [closed]
    exact rekeyed_word d _ inside
  · intro j behind
    rw [closed]
    exact (encryptMemory_page ..).trans (if_neg (Nat.not_lt.mpr behind))
  · exact fun _ ioctl_param other => ioctl_rejected _ ioctl_param other
  · intro ioctl_param
    rw [ioctl_set_key, fullPath_rekeyed]
  · intro same
    rw [closed, same, rekeyed_same]

/-! ## The client -/

/-- `_IOR('k', 0, int *)` of `char_device.h`, the only one `main.c` includes. -/
def charDeviceHeader : BitVec 32 := ioc 2 0x6B 0 8

/-- `_IOW('k', 1, int)` of `ioctl_commands.h` -/
def ioctlCommandsHeader : BitVec 32 := ioc 1 0x6B 1 4

/-- A macro that several headers define has the last of these values. -/
def inForce (headers : List (BitVec 32)) : Option (BitVec 32) := headers.getLast?

/-- The client and the driver do mean the same command. -/
theorem same_command : inForce [charDeviceHeader] = some IOCTL_SET_KEY ∧
    inForce [ioctlCommandsHeader, charDeviceHeader] = some IOCTL_SET_KEY := ⟨rfl, rfl⟩

/-- `int key = ...; ioctl(fd, IOCTL_SET_KEY, &key)` of `main.c`, with `key` at
this address of the client's memory: the result, that memory and the device. -/
def clientSetKey (user : Memory) (d : Device) (key : BitVec 32) (address : BitVec 64) :
    Int × Memory × Device :=
  let user := storeWord user address.toNat key
  let (result, d) := deviceIoctl d charDeviceHeader address
  (result, user, d)

/-- Behind a call that succeeds the device has the client's key, and its page
holds the plaintext of before under that key. -/
def AgreeOnKey (user : Memory) (d : Device) (key : BitVec 32) (address : BitVec 64) : Prop :=
  let (result, _, after) := clientSetKey user d key address
  0 ≤ result → after.key = key ∧ ∀ i < PAGE_SIZE / 4, wordAt after.memory (4 * i) =
    wordAt (decryptMemory d.memory 0 PAGE_SIZE d.key) (4 * i) ^^^ key

/-- The device takes the address for the key, so they agree exactly when its
low half is the key. -/
theorem agree_on_key_iff (user : Memory) (d : Device) (key : BitVec 32) (address : BitVec 64) :
    AgreeOnKey user d key address ↔ address.setWidth 32 = key := by
  have called : clientSetKey user d key address =
      (0, storeWord user address.toNat key, rekeyed d (address.setWidth 32)) := by
    unfold clientSetKey
    rw [show charDeviceHeader = IOCTL_SET_KEY from rfl, ioctl_set_key]
  unfold AgreeOnKey
  rw [called]
  constructor
  · intro agree
    exact (agree (Int.le_refl 0)).1
  · rintro rfl -
    refine ⟨rfl, fun i inside => ?_⟩
    have plain : wordAt (decryptMemory d.memory 0 PAGE_SIZE d.key) (4 * i) =
        wordAt d.memory (4 * i) ^^^ d.key := by
      have word := wordAt_xorWords d.key 0 d.memory inside
      rwa [Nat.zero_add] at word
    rw [plain, rekeyed_word d _ inside, BitVec.xor_assoc]

/-- The key of `main.c`, somewhere on its stack. -/
theorem address_becomes_key : ¬ ∀ user d key address, AgreeOnKey user d key address := by
  intro always
  have agree := always (fun _ => 0) (charDeviceInit fun _ => 0) 123 0x7FFEE4A0B3C4#64 (by decide)
  exact absurd agree.1 (by decide)

end OsCourse.KeyChange

import Mathlib.Algebra.Ring.Nat
import OsCourse.Transition
import OsCourse.WordXor

/-! `char_device.c` and `encryption.h`: the encrypted memory device. Kernel
memory is given relative to `memory_buffer`, so the page is the first
`PAGE_SIZE` bytes and a larger address lies behind it. -/
namespace OsCourse.CharDevice
open Stdio WordXor

def PAGE_SIZE : Nat := 4096
def EFAULT : Int := 14
def EINVAL : Int := 22

/-- `_IOC(dir, type, nr, size)` of `linux/ioctl.h`. -/
def ioc (dir type nr size : Nat) : BitVec 32 :=
  BitVec.ofNat 32 (dir <<< 30 ||| size <<< 16 ||| type <<< 8 ||| nr)

/-- `_IOR('k', 0, int *)` of `char_device.h`. The driver includes that header
after `ioctl_commands.h`, so this definition is the one in force. -/
def IOCTL_SET_KEY : BitVec 32 := ioc 2 0x6B 0 8

structure Device where
  memory : Memory
  key : BitVec 32

/-- `encrypt_memory`: the key is XORed into the whole words of the area. -/
def encryptMemory (m : Memory) (data length : Nat) (key : BitVec 32) : Memory :=
  xorWords key data (length / 4) m

def decryptMemory (m : Memory) (data length : Nat) (key : BitVec 32) : Memory :=
  encryptMemory m data length key

/-- `int bytes = length; if (bytes > PAGE_SIZE) bytes = PAGE_SIZE;`. For the
comparison the `int` is widened to `unsigned long`, sign included. -/
def clampLength (length : BitVec 64) : BitVec 32 :=
  let bytes := length.setWidth 32
  if (bytes.signExtend 64).toNat > PAGE_SIZE then BitVec.ofNat 32 PAGE_SIZE else bytes

/-- How a user copy goes: the number of trailing bytes it could not copy, and
whether the kernel fills their place with zeros (`copy_from_user` does). -/
structure Copy where
  notCopied : Nat
  pads : Bool := true

def Copy.failed (c : Copy) (count : Nat) : Nat := min c.notCopied count

/-- The memory after `copy_from_user(memory + dst, data, count)`. -/
def copyFromUser (m : Memory) (dst count : Nat) (data : Nat → Byte) (c : Copy) : Memory :=
  fun j =>
    if dst ≤ j ∧ j < dst + (count - c.failed count) then data (j - dst)
    else if c.pads ∧ dst ≤ j ∧ j < dst + count then 0
    else m j

/-- An area the driver hands to a copy or to `encrypt_memory`. -/
structure Area where
  start : Nat
  count : Nat
  deriving DecidableEq, Repr

/-- What a call returns, the bytes it gives to the user, the device and the
file offset after it, and the areas of kernel memory it worked on. -/
structure Outcome where
  returned : Int
  delivered : List Byte
  device : Device
  offset : Nat
  touched : List Area

def deviceRead (d : Device) (length : BitVec 64) (offset : Nat) (c : Copy) : Outcome :=
  let bytes_to_read := (clampLength length).toNat
  let delivered := (List.range (bytes_to_read - c.failed bytes_to_read)).map
    fun i => d.memory (offset + i)
  if c.failed bytes_to_read ≠ 0 then ⟨-EFAULT, delivered, d, offset, [⟨offset, bytes_to_read⟩]⟩
  else ⟨bytes_to_read, delivered, d, offset + bytes_to_read, [⟨offset, bytes_to_read⟩]⟩

def deviceWrite (d : Device) (length : BitVec 64) (offset : Nat) (data : Nat → Byte) (c : Copy) :
    Outcome :=
  let bytes_to_write := (clampLength length).toNat
  let copied := copyFromUser d.memory offset bytes_to_write data c
  if c.failed bytes_to_write ≠ 0 then
    ⟨-EFAULT, [], { d with memory := copied }, offset, [⟨offset, bytes_to_write⟩]⟩
  else
    ⟨bytes_to_write, [], { d with memory := encryptMemory copied offset bytes_to_write d.key },
      offset + bytes_to_write, [⟨offset, bytes_to_write⟩, ⟨offset, bytes_to_write⟩]⟩

/-- `device_ioctl`. The argument is narrowed to `int` and used as the key. -/
def deviceIoctl (d : Device) (ioctl_num : BitVec 32) (ioctl_param : BitVec 64) : Int × Device :=
  if ioctl_num = IOCTL_SET_KEY then
    let new_key := ioctl_param.setWidth 32
    if new_key ≠ d.key then
      let memory := decryptMemory d.memory 0 PAGE_SIZE d.key
      (0, ⟨encryptMemory memory 0 PAGE_SIZE new_key, new_key⟩)
    else (0, d)
  else (-EINVAL, d)

/-- The device as `char_device_init` leaves it in the memory `kmalloc` gave. -/
def charDeviceInit (memory : Memory) : Device :=
  ⟨encryptMemory memory 0 PAGE_SIZE 0, 0⟩

/-! ## The operations in closed form -/

/-- An `int` widened to 64 bits, read as an unsigned number. -/
theorem widened_toNat (bytes : BitVec 32) : (bytes.signExtend 64).toNat =
    bytes.toNat + if 2 ^ 31 ≤ bytes.toNat then 2 ^ 64 - 2 ^ 32 else 0 := by
  have width := bytes.isLt
  rw [BitVec.toNat_signExtend, BitVec.toNat_setWidth_of_le (by omega), BitVec.msb_eq_decide]
  simp only [decide_eq_true_eq, Nat.add_one_sub_one]

/-- The narrowing and the mixed comparison amount to a cap on the low 32 bits. -/
theorem clampLength_toNat (length : BitVec 64) :
    (clampLength length).toNat = min (length.toNat % 2 ^ 32) PAGE_SIZE := by
  have low : (length.setWidth 32).toNat = length.toNat % 2 ^ 32 := BitVec.toNat_setWidth ..
  have width := (length.setWidth 32).isLt
  rw [← low, clampLength]
  generalize length.setWidth 32 = bytes at width
  by_cases large : (bytes.signExtend 64).toNat > PAGE_SIZE
  · rw [if_pos large]
    rw [widened_toNat] at large
    simp only [PAGE_SIZE, BitVec.toNat_ofNat] at *
    split at large <;> omega
  · rw [if_neg large]
    rw [widened_toNat] at large
    unfold PAGE_SIZE at *
    split at large <;> omega

theorem clampLength_of_le (small : length.toNat ≤ PAGE_SIZE) :
    (clampLength length).toNat = length.toNat := by
  rw [clampLength_toNat]
  unfold PAGE_SIZE at *
  omega

theorem encryptMemory_apply (m : Memory) (data length : Nat) (key : BitVec 32) (j : Nat) :
    encryptMemory m data length key j =
      if data ≤ j ∧ j < data + 4 * (length / 4) then m j ^^^ keyByte key (j - data) else m j :=
  xorWords_apply ..

/-- Over the whole page, encryption and decryption XOR each byte with the key
byte of its position. -/
theorem encryptMemory_page (m : Memory) (key : BitVec 32) (j : Nat) :
    encryptMemory m 0 PAGE_SIZE key j =
      if j < PAGE_SIZE then m j ^^^ keyByte key j else m j := by
  rw [encryptMemory_apply]
  have whole : 4 * (PAGE_SIZE / 4) = PAGE_SIZE := rfl
  simp only [whole, Nat.zero_le, true_and, Nat.zero_add, Nat.sub_zero]

/-- Two keys in turn are their XOR. -/
theorem encryptMemory_twice (m : Memory) (data length : Nat) (key other : BitVec 32) :
    encryptMemory (encryptMemory m data length key) data length other =
      encryptMemory m data length (key ^^^ other) := xorWords_xorWords ..

theorem encryptMemory_zero (m : Memory) (data length : Nat) : encryptMemory m data length 0 = m :=
  xorWords_zero ..

theorem copyFromUser_done (m : Memory) (dst count : Nat) (data : Nat → Byte) (c : Copy)
    (whole : c.failed count = 0) (j : Nat) :
    copyFromUser m dst count data c j = if dst ≤ j ∧ j < dst + count then data (j - dst) else m j := by
  rw [copyFromUser, whole, Nat.sub_zero]
  by_cases inside : dst ≤ j ∧ j < dst + count
  · simp only [inside, and_self, ↓reduceIte]
  · simp only [inside, and_false, ↓reduceIte]

end OsCourse.CharDevice

import OsCourse.Stdio

/-! Little-endian 32-bit words in a byte memory, and the effect of XORing one
key into consecutive words. Byte by byte such a loop XORs the key's own bytes
in turn, counted from where the loop starts. -/
namespace OsCourse.WordXor
open Stdio

abbrev Memory := Nat → Byte

/-- The word stored in the four bytes from `a` on. -/
def wordAt (m : Memory) (a : Nat) : BitVec 32 := m (a + 3) ++ m (a + 2) ++ m (a + 1) ++ m a

def storeWord (m : Memory) (a : Nat) (w : BitVec 32) : Memory :=
  fun j => if a ≤ j ∧ j < a + 4 then w.extractLsb' (8 * (j - a)) 8 else m j

/-- XORs the key into `count` consecutive words. -/
def xorWords (key : BitVec 32) (data : Nat) : Nat → Memory → Memory
  | 0, m => m
  | i + 1, m =>
    let m := xorWords key data i m
    storeWord m (data + 4 * i) (wordAt m (data + 4 * i) ^^^ key)

/-- Byte `i` of a key repeated for ever. -/
def keyByte (key : BitVec 32) (i : Nat) : Byte := key.extractLsb' (8 * (i % 4)) 8

@[simp] theorem keyByte_zero (i : Nat) : keyByte 0 i = 0 := by
  simp [keyByte]

theorem keyByte_add_four_mul (key : BitVec 32) (i j : Nat) :
    keyByte key (4 * i + j) = keyByte key j := by
  rw [keyByte, keyByte, Nat.mul_add_mod]

theorem extract_word (m : Memory) (a : Nat) (bound : i < 4) :
    (wordAt m a).extractLsb' (8 * i) 8 = m (a + i) := by
  apply BitVec.eq_of_getLsbD_eq
  intro bit small
  rcases (by omega : i = 0 ∨ i = 1 ∨ i = 2 ∨ i = 3) with rfl | rfl | rfl | rfl <;>
    simp (disch := omega) only [wordAt, BitVec.getLsbD_extractLsb', BitVec.getLsbD_append, small,
      decide_true, Bool.true_and, if_pos, if_neg] <;>
    exact congrArg _ (by omega)

theorem extract_xor (v w : BitVec 32) (start : Nat) :
    (v ^^^ w).extractLsb' start 8 = v.extractLsb' start 8 ^^^ w.extractLsb' start 8 := by
  apply BitVec.eq_of_getLsbD_eq
  intro bit small
  simp [small]

theorem storeWord_xor (m : Memory) (a : Nat) (key : BitVec 32) (j : Nat) :
    storeWord m a (wordAt m a ^^^ key) j =
      if a ≤ j ∧ j < a + 4 then m j ^^^ keyByte key (j - a) else m j := by
  unfold storeWord
  split
  · rename_i inside
    have bound : j - a < 4 := by omega
    rw [extract_xor, extract_word m a bound, keyByte, Nat.mod_eq_of_lt bound,
      Nat.add_sub_cancel' inside.1]
  · rfl

/-- The loop, byte by byte. -/
theorem xorWords_apply (key : BitVec 32) (data count : Nat) (m : Memory) (j : Nat) :
    xorWords key data count m j =
      if data ≤ j ∧ j < data + 4 * count then m j ^^^ keyByte key (j - data) else m j := by
  induction count with
  | zero =>
    rw [if_neg (by omega)]
    rfl
  | succ count ih =>
    rw [xorWords, storeWord_xor, ih]
    by_cases last : data + 4 * count ≤ j ∧ j < data + 4 * count + 4
    · have shift : j - data = 4 * count + (j - (data + 4 * count)) := by omega
      rw [if_pos last, if_neg (by omega), if_pos (by omega), shift, keyByte_add_four_mul]
    · rw [if_neg last]
      by_cases earlier : data ≤ j ∧ j < data + 4 * count
      · rw [if_pos earlier, if_pos (by omega)]
      · rw [if_neg earlier, if_neg (by omega)]

/-! ### Keys over one area -/

theorem keyByte_xor (key other : BitVec 32) (i : Nat) :
    keyByte (key ^^^ other) i = keyByte key i ^^^ keyByte other i := extract_xor ..

/-- A second loop over the same words XORs the two keys. -/
theorem xorWords_xorWords (key other : BitVec 32) (data count : Nat) (m : Memory) :
    xorWords other data count (xorWords key data count m) =
      xorWords (key ^^^ other) data count m := by
  funext j
  simp only [xorWords_apply, keyByte_xor]
  split
  · exact BitVec.xor_assoc _ _ _
  · rfl

theorem xorWords_zero (data count : Nat) (m : Memory) : xorWords 0 data count m = m := by
  funext j
  rw [xorWords_apply, keyByte_zero]
  split
  · exact BitVec.xor_zero
  · rfl

theorem word_ext {v w : BitVec 32}
    (same : ∀ i < 4, v.extractLsb' (8 * i) 8 = w.extractLsb' (8 * i) 8) : v = w := by
  apply BitVec.eq_of_getLsbD_eq
  intro bit small
  have here := congrArg (BitVec.getLsbD · (bit % 8)) (same (bit / 8) (by omega))
  have low : bit % 8 < 8 := Nat.mod_lt _ (by decide)
  simpa only [BitVec.getLsbD_extractLsb', low, decide_true, Bool.true_and,
    Nat.div_add_mod] using here

/-- The loop, word by word. -/
theorem wordAt_xorWords (key : BitVec 32) (data : Nat) (m : Memory) (bound : i < count) :
    wordAt (xorWords key data count m) (data + 4 * i) = wordAt m (data + 4 * i) ^^^ key := by
  apply word_ext
  intro j small
  have shift : data + 4 * i + j - data = 4 * i + j := by omega
  rw [extract_word _ _ small, extract_xor, extract_word _ _ small, xorWords_apply,
    if_pos (by omega), shift, keyByte_add_four_mul, keyByte, Nat.mod_eq_of_lt small]

end OsCourse.WordXor

import Mathlib.Data.Nat.Prime.Defs

/-! `PrimeCheck.hpp`: trial division up to the square root. The square root is
taken in double precision, where that of a 32-bit number truncates to the
integer square root. -/
namespace OsCourse.PrimeCheck

/-- The `for` loop of `isPrime` with `left` values of `i` still to be tried. -/
def primeLoop (num : Nat) : (left i : Nat) → Bool
  | 0, _ => true
  | left + 1, i => if num % i = 0 then false else primeLoop num left (i + 1)

def isPrime (num : BitVec 32) : Bool :=
  if num.toNat ≤ 1 then false
  else
    let sqrtNum := Nat.sqrt num.toNat
    primeLoop num.toNat (sqrtNum + 1 - 2) 2

/-- The loop answers whether none of the values it goes through divides. -/
theorem prime_loop_spec (num left i : Nat) :
    primeLoop num left i = true ↔ ∀ m, i ≤ m → m < i + left → ¬ m ∣ num := by
  induction left generalizing i with
  | zero =>
    refine iff_of_true rfl fun m lower upper => ?_
    omega
  | succ left ih =>
    unfold primeLoop
    by_cases divides : num % i = 0
    · rw [if_pos divides]
      refine iff_of_false Bool.false_ne_true fun none_divides => ?_
      exact none_divides i le_rfl (by omega) (Nat.dvd_of_mod_eq_zero divides)
    · rw [if_neg divides, ih (i + 1)]
      constructor
      · intro none_divides m lower upper
        rcases Nat.eq_or_lt_of_le lower with rfl | later
        · exact fun divisor => divides (Nat.mod_eq_zero_of_dvd divisor)
        · exact none_divides m later (by omega)
      · intro none_divides m lower upper
        exact none_divides m (by omega) (by omega)

/-- Trial division decides primality. -/
theorem is_prime_eq (num : BitVec 32) : isPrime num = decide num.toNat.Prime := by
  rw [Bool.eq_iff_iff, decide_eq_true_iff, Nat.prime_def_le_sqrt, isPrime]
  by_cases small : num.toNat ≤ 1
  · rw [if_pos small]
    refine iff_of_false Bool.false_ne_true fun prime => ?_
    exact absurd prime.1 (by omega)
  · rw [if_neg small, prime_loop_spec]
    constructor
    · intro none_divides
      exact ⟨by omega, fun m lower upper => none_divides m lower (by omega)⟩
    · rintro ⟨-, none_divides⟩ m lower upper
      exact none_divides m lower (by omega)

/-! ## The loop on `unsigned int` -/

/-- How the `for` loop is left. -/
inductive LoopEnd where
  | returns (answer : Bool)
  /-- `++i` went from the largest `unsigned int` to zero. -/
  | wraps
  deriving DecidableEq, Repr

/-- The `for` loop on the machine's numbers, still running when the fuel is
used up. -/
def trialLoop (num sqrtNum : BitVec 32) : (fuel : Nat) → (i : BitVec 32) → Option LoopEnd
  | 0, _ => none
  | fuel + 1, i =>
    if i ≤ sqrtNum then
      if num % i = 0 then some (.returns false)
      else if i = BitVec.allOnes 32 then some .wraps
      else trialLoop num sqrtNum fuel (i + 1)
    else some (.returns true)

def isPrimeRun (num : BitVec 32) (fuel : Nat) : Option LoopEnd :=
  if num ≤ 1 then some (.returns false)
  else
    let sqrtNum := BitVec.ofNat 32 (Nat.sqrt num.toNat)
    trialLoop num sqrtNum fuel 2

theorem mod_zero_iff (num i : BitVec 32) : num % i = 0 ↔ num.toNat % i.toNat = 0 := by
  rw [← BitVec.toNat_inj, BitVec.toNat_umod]
  rfl

/-- Below a square root of 16 bits no value of `i` is near the wrap, so the
loop does what `primeLoop` does. The induction is on the fuel, which lasts for
the values still to be tried. -/
theorem trial_loop_eq {num sqrtNum : BitVec 32} (narrow : sqrtNum.toNat < 2 ^ 16)
    (fuel : Nat) (i : BitVec 32) (near : i.toNat ≤ sqrtNum.toNat + 1)
    (enough : sqrtNum.toNat + 1 < i.toNat + fuel) :
    trialLoop num sqrtNum fuel i =
      some (.returns (primeLoop num.toNat (sqrtNum.toNat + 1 - i.toNat) i.toNat)) := by
  induction fuel generalizing i with
  | zero => omega
  | succ fuel ih =>
    unfold trialLoop
    by_cases inside : i ≤ sqrtNum
    · rw [if_pos inside]
      replace inside : i.toNat ≤ sqrtNum.toNat := inside
      obtain ⟨left, count⟩ : ∃ left, sqrtNum.toNat + 1 - i.toNat = left + 1 :=
        ⟨sqrtNum.toNat - i.toNat, by omega⟩
      rw [count, primeLoop]
      by_cases divides : num % i = 0
      · rw [if_pos divides, if_pos ((mod_zero_iff num i).mp divides)]
      · have below : i ≠ BitVec.allOnes 32 := by
          rintro rfl
          rw [BitVec.toNat_allOnes] at inside
          omega
        have next : (i + 1).toNat = i.toNat + 1 := by
          rw [BitVec.toNat_add_of_lt]
          · rfl
          · show i.toNat + 1 < 2 ^ 32
            omega
        rw [if_neg divides, if_neg below, if_neg (mt (mod_zero_iff num i).mpr divides),
          ih (i + 1) (by omega) (by omega), next]
        congr 3
        omega
    · rw [if_neg inside]
      replace inside : sqrtNum.toNat < i.toNat := BitVec.not_le.mp inside
      have done : sqrtNum.toNat + 1 - i.toNat = 0 := by omega
      rw [done, primeLoop]

theorem sqrt_narrow (num : BitVec 32) : Nat.sqrt num.toNat < 2 ^ 16 := by
  rw [Nat.sqrt_lt']
  exact num.isLt

/-- For every number the loop ends within 2^16 turns, without a wrap, and the
answer is whether the number is prime. -/
theorem is_prime_exact (num : BitVec 32) :
    isPrimeRun num (2 ^ 16) = some (.returns (decide num.toNat.Prime)) := by
  have narrow := sqrt_narrow num
  have root : (BitVec.ofNat 32 (Nat.sqrt num.toNat)).toNat = Nat.sqrt num.toNat := by
    rw [BitVec.toNat_ofNat]
    omega
  have small_iff : num ≤ 1 ↔ num.toNat ≤ 1 := Iff.rfl
  rw [← is_prime_eq, isPrimeRun, isPrime]
  by_cases small : num ≤ 1
  · rw [if_pos small, if_pos (small_iff.mp small)]
  · rw [if_neg small, if_neg (mt small_iff.mpr small)]
    have two_le : 1 ≤ Nat.sqrt num.toNat := by
      rw [Nat.le_sqrt']
      rw [small_iff] at small
      omega
    have two : (2 : BitVec 32).toNat = 2 := rfl
    rw [trial_loop_eq (root.symm ▸ narrow) (2 ^ 16) 2 (by omega) (by omega), root, two]

end OsCourse.PrimeCheck

import Mathlib.Data.BitVec

/-! Signed machine integers as C has them: arithmetic that is undefined where
the result leaves the type, and conversions that keep the low bits. Nothing
below names a program. -/
namespace OsCourse.CInt

/-- The values of a signed type of `width` bits. -/
def InRange (width : Nat) (z : Int) : Prop := -2 ^ (width - 1) ≤ z ∧ z < 2 ^ (width - 1)

instance (width : Nat) (z : Int) : Decidable (InRange width z) :=
  inferInstanceAs (Decidable (_ ∧ _))

/-- The result of an operation, which has none where it overflows. -/
def checked (width : Nat) (z : Int) : Option Int := if InRange width z then some z else none

/-- The conversion of a wider integer. -/
def narrow (width : Nat) (z : Int) : Int := (BitVec.ofInt width z).toInt

theorem in_range_int (z : Int) : InRange 32 z ↔ -2147483648 ≤ z ∧ z < 2147483648 := Iff.rfl

theorem checked_eq (fits : InRange width z) : checked width z = some z := if_pos fits

theorem checked_int (lower : -2147483648 ≤ z) (upper : z < 2147483648) : checked 32 z = some z :=
  checked_eq ⟨lower, upper⟩

theorem checked_none (out : ¬ InRange width z) : checked width z = none := if_neg out

theorem narrow_eq (positive : 0 < width) (fits : InRange width z) : narrow width z = z :=
  BitVec.toInt_ofInt_eq_self positive fits.1 fits.2

theorem narrow_int (lower : -2147483648 ≤ z) (upper : z < 2147483648) : narrow 32 z = z :=
  narrow_eq (by omega) ⟨lower, upper⟩

/-- A conversion keeps exactly the values of its type. -/
theorem narrow_eq_iff (positive : 0 < width) : narrow width z = z ↔ InRange width z := by
  refine ⟨fun same => ?_, narrow_eq positive⟩
  rw [← same]
  exact ⟨BitVec.le_toInt _, BitVec.toInt_lt⟩

end OsCourse.CInt

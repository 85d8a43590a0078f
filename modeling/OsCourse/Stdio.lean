import Mathlib.Data.List.Basic

/-! Bytes, the character functions of the C library that several of the programs
share, and what `recv` returns to them. A stream opened for reading is the list
of bytes still to come. -/
namespace OsCourse.Stdio

abbrev Byte := BitVec 8

/-- How a program's run ends: `main` (or the function it returns the value of)
returns a status, the program calls `exit`, or it dies on a null pointer. -/
inductive Ending where
  | returns (code : Nat)
  | exits (code : Nat)
  | crashes
  deriving DecidableEq, Repr

/-- The result of a `recv`: at least one byte, 0 where the peer is gone, or -1. -/
inductive Recv where
  | data (bytes : List Byte)
  | closed
  | error
  deriving DecidableEq, Repr

/-- What `fgetc` and `fputc` return at the end of a stream and on failure. -/
def EOF : Int := -1

/-- `fgetc`: the next byte as an `unsigned char` widened to `int`, or `EOF`. -/
def fgetc : List Byte → Int × List Byte
  | [] => (EOF, [])
  | b :: rest => (b.toNat, rest)

/-- Storing an `int` in a `char` keeps its low eight bits. `char` is signed on
the target, so the stored value reads back as `toInt`. -/
def toChar (c : Int) : Byte := BitVec.ofInt 8 c

/-- `toupper` in the C locale. -/
def toupper (c : Int) : Int := if 97 ≤ c ∧ c ≤ 122 then c - 32 else c

@[simp] theorem toChar_byte (b : Byte) : toChar (b.toNat : Int) = b := by
  simp [toChar]

@[simp] theorem toChar_toInt (b : Byte) : toChar b.toInt = b := by
  simp [toChar]

/-- The only byte a signed `char` confuses with `EOF` is `0xFF`. -/
theorem char_eq_eof (b : Byte) : b.toInt = EOF ↔ b = 0xFF#8 := by
  constructor
  · intro same
    apply BitVec.eq_of_toInt_eq
    simpa [EOF] using same
  · rintro rfl
    rfl

@[simp] theorem toChar_eof : toChar EOF = 0xFF#8 := rfl

/-- As `int` results, two `fgetc` calls agree exactly when both streams end
or both continue with one byte. -/
theorem fgetc_same (a b : List Byte) : (fgetc a).1 = (fgetc b).1 ↔ a.head? = b.head? := by
  have nonneg (x : Byte) : (x.toNat : Int) ≠ EOF := by simp only [EOF]; omega
  cases a with
  | nil =>
    cases b with
    | nil => simp [fgetc]
    | cons y b => simpa [fgetc] using (nonneg y).symm
  | cons x a =>
    cases b with
    | nil => simpa [fgetc] using nonneg x
    | cons y b =>
      simp only [fgetc, Int.natCast_inj, BitVec.toNat_inj, List.head?_cons, Option.some.injEq]

end OsCourse.Stdio

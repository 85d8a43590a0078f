import Mathlib.Tactic.FieldSimp
import Mathlib.Tactic.Linarith
import Mathlib.Data.Rat.Cast.Order
import OsCourse.CInt
import OsCourse.ControlMessages

/-! The elapsed time of a test in `stnc.c`. The client prints its start time
into a buffer of 20 bytes, the server scans it and prints the difference to
its own end time as two numbers with a dot between them. -/
namespace OsCourse.ElapsedTime
open Stdio CString Decimal ControlMessages CInt

/-- A `struct timeval` as `gettimeofday` fills it in. -/
structure Timeval where
  tv_sec : Int
  tv_usec : Nat
  long : InRange 64 tv_sec
  micro : tv_usec < 10 ^ 6

/-- `sizeof(start_time_str)` -/
def START_TIME_SIZE : Nat := 20

/-- `sprintf` into `start_time_str`, which is undefined behind its end. -/
def startTimeStr (start : Timeval) : Option (List Byte) :=
  let text := printInt start.tv_sec ++ DOT :: padded 6 start.tv_usec
  if text.length + 1 ≤ START_TIME_SIZE then some text else none

/-- `"Time difference: %d.%06d seconds\n"` -/
def differenceLine (number : List Byte) : List Byte :=
  ascii "Time difference: " ++ number ++ ascii " seconds\n"

/-- `printTimeDifference`, on the four numbers of its two times. -/
def printTimeDifference (startSec startUsec endSec endUsec : Int) : Option (List Byte) := do
  let seconds := narrow 32 (← checked 64 (endSec - startSec))
  let microseconds := narrow 32 (← checked 64 (endUsec - startUsec))
  if microseconds < 0 then
    let seconds ← checked 32 (seconds - 1)
    let microseconds ← checked 32 (microseconds + 1000000)
    some (differenceLine (printInt seconds ++ DOT :: paddedInt 6 microseconds))
  else some (differenceLine (printInt seconds ++ DOT :: paddedInt 6 microseconds))

/-- What is printed of a start time of the client and an end time of the
server, with the message received whole. `none` stands for undefined behaviour. -/
def elapsed (start finish : Timeval) : Option (List Byte) := do
  let text ← startTimeStr start
  match scanTime (cstr (recvInto cleared text) 0) with
  | (some sec, some usec) => printTimeDifference sec usec finish.tv_sec finish.tv_usec
  | _ => none

/-! ## The property and its condition -/

/-- The time in seconds. -/
def Timeval.seconds (t : Timeval) : ℚ := t.tv_sec + t.tv_usec / 10 ^ 6

/-- The number printed denotes the time between the two. -/
def PrintsDifference (start finish : Timeval) : Prop :=
  ∃ number, elapsed start finish = some (differenceLine number) ∧
    numeral number = some (finish.seconds - start.seconds)

/-! ## The start time -/

theorem start_time_length (start : Timeval) :
    (printInt start.tv_sec ++ DOT :: padded 6 start.tv_usec).length + 1 ≤ START_TIME_SIZE ↔
      -10 ^ 11 < start.tv_sec ∧ start.tv_sec < 10 ^ 12 := by
  have usec := (padded_spec start.micro (by omega)).1
  have size : START_TIME_SIZE = 20 := rfl
  have eleven := decimal_length_iff start.tv_sec.natAbs (k := 11) (by omega)
  have twelve := decimal_length_iff start.tv_sec.natAbs (k := 12) (by omega)
  simp only [List.length_append, List.length_cons, usec]
  unfold printInt
  split
  · simp only [List.length_cons]
    omega
  · omega

theorem elapsed_eq (start finish : Timeval) :
    elapsed start finish =
      if -10 ^ 11 < start.tv_sec ∧ start.tv_sec < 10 ^ 12 then
        printTimeDifference start.tv_sec start.tv_usec finish.tv_sec finish.tv_usec
      else none := by
  have range := start.long
  unfold InRange at range
  unfold elapsed startTimeStr
  simp only [start_time_length]
  split
  · rw [Option.bind_eq_bind, Option.bind_some, cstr_clean _ (time_text_clean _ start.micro),
      scan_time_int _ _ range.1 range.2 start.micro]
  · rfl

/-! ## The difference -/

/-- The two numbers printed: seconds and microseconds, none of these negative,
that together make up the difference. -/
theorem print_difference (start finish : Timeval)
    (near : (finish.tv_sec - start.tv_sec).natAbs < 2 ^ 31) :
    ∃ (seconds : Int) (microseconds : Nat), microseconds < 10 ^ 6 ∧
      seconds * 10 ^ 6 + microseconds =
        (finish.tv_sec - start.tv_sec) * 10 ^ 6 + (finish.tv_usec - start.tv_usec) ∧
      printTimeDifference start.tv_sec start.tv_usec finish.tv_sec finish.tv_usec =
        some (differenceLine (printInt seconds ++ DOT :: padded 6 microseconds)) := by
  have before := start.micro
  have after := finish.micro
  have long : InRange 64 (finish.tv_sec - start.tv_sec) := by
    unfold InRange
    omega
  have long' : InRange 64 ((finish.tv_usec : Int) - start.tv_usec) := by
    unfold InRange
    omega
  have sec : narrow 32 (finish.tv_sec - start.tv_sec) = finish.tv_sec - start.tv_sec :=
    narrow_int (by omega) (by omega)
  have usec : narrow 32 ((finish.tv_usec : Int) - start.tv_usec) = finish.tv_usec - start.tv_usec :=
    narrow_int (by omega) (by omega)
  unfold printTimeDifference
  simp only [checked_eq long, checked_eq long', Option.bind_eq_bind, Option.bind_some, sec, usec]
  split
  · rename_i borrow
    have seconds : checked 32 (finish.tv_sec - start.tv_sec - 1) =
        some (finish.tv_sec - start.tv_sec - 1) := checked_int (by omega) (by omega)
    have microseconds : checked 32 ((finish.tv_usec : Int) - start.tv_usec + 1000000) =
        some ((finish.tv_usec : Int) - start.tv_usec + 1000000) := checked_int (by omega) (by omega)
    refine ⟨finish.tv_sec - start.tv_sec - 1,
      ((finish.tv_usec : Int) - start.tv_usec + 1000000).natAbs, by omega, by omega, ?_⟩
    rw [seconds, microseconds, Option.bind_some, Option.bind_some, paddedInt, if_neg (by omega)]
  · rename_i enough
    refine ⟨finish.tv_sec - start.tv_sec, ((finish.tv_usec : Int) - start.tv_usec).natAbs, by omega,
      by omega, ?_⟩
    rw [paddedInt, if_neg enough]

theorem seconds_difference (start finish : Timeval) {seconds : Int} {microseconds : Nat}
    (whole : seconds * 10 ^ 6 + microseconds =
      (finish.tv_sec - start.tv_sec) * 10 ^ 6 + (finish.tv_usec - start.tv_usec)) :
    finish.seconds - start.seconds = seconds + microseconds / 10 ^ 6 := by
  have rational : (seconds : ℚ) * 10 ^ 6 + microseconds =
      (finish.tv_sec - start.tv_sec) * 10 ^ 6 + (finish.tv_usec - start.tv_usec) := by
    exact_mod_cast whole
  unfold Timeval.seconds
  field_simp
  linarith

/-- A numeral of seconds and microseconds denotes their sum unless a sign in
front of the seconds takes the microseconds with it. -/
theorem numeral_sum_iff (seconds : Int) (microseconds : Nat) (fits : microseconds < 10 ^ 6) :
    numeral (printInt seconds ++ DOT :: padded 6 microseconds) =
        some (seconds + microseconds / 10 ^ 6 : ℚ) ↔ 0 ≤ seconds ∨ microseconds = 0 := by
  rw [numeral_print seconds microseconds fits (by omega), Option.some.injEq]
  by_cases negative : seconds < 0
  · have magnitude : (seconds.natAbs : ℚ) = -seconds := by
      rw [Nat.cast_natAbs, abs_of_neg negative]
      push_cast
      rfl
    rw [if_pos negative, magnitude]
    constructor
    · intro same
      have zero : (microseconds : ℚ) = 0 := by
        field_simp at same
        linarith
      exact Or.inr (by exact_mod_cast zero)
    · rintro (positive | rfl)
      · omega
      · simp
  · have magnitude : (seconds.natAbs : ℚ) = seconds := by
      rw [Nat.cast_natAbs, abs_of_nonneg (by omega)]
    rw [if_neg negative, magnitude]
    exact iff_of_true rfl (Or.inl (by omega))

theorem sum_nonneg_iff (seconds : Int) {microseconds : Nat} (fits : microseconds < 10 ^ 6) :
    0 ≤ (seconds + microseconds / 10 ^ 6 : ℚ) ↔ 0 ≤ seconds := by
  have scaled : (seconds + microseconds / 10 ^ 6 : ℚ) =
      ((seconds * 10 ^ 6 + microseconds : Int) : ℚ) / 10 ^ 6 := by
    push_cast
    ring
  have positive : (0 : ℚ) < 10 ^ 6 := by norm_num
  rw [scaled, le_div_iff₀ positive, zero_mul, Int.cast_nonneg_iff]
  omega

theorem difference_line_injective : Function.Injective differenceLine := by
  intro number other same
  exact List.append_cancel_left (List.append_cancel_right same)

/-- The number printed denotes the elapsed time exactly when the start time fits
its buffer, and the clocks do not run backwards, unless by whole seconds. -/
theorem prints_difference_iff (start finish : Timeval)
    (near : (finish.tv_sec - start.tv_sec).natAbs < 2 ^ 31) :
    PrintsDifference start finish ↔
      (-10 ^ 11 < start.tv_sec ∧ start.tv_sec < 10 ^ 12) ∧
        (start.seconds ≤ finish.seconds ∨ start.tv_usec = finish.tv_usec) := by
  obtain ⟨seconds, microseconds, fits, whole, printed⟩ := print_difference start finish near
  have difference := seconds_difference start finish whole
  have before := start.micro
  have after := finish.micro
  unfold PrintsDifference
  rw [elapsed_eq, difference]
  split
  · rename_i short
    have forwards : start.seconds ≤ finish.seconds ↔ 0 ≤ seconds := by
      rw [← sub_nonneg, difference]
      exact sum_nonneg_iff seconds fits
    have exactly : start.tv_usec = finish.tv_usec ↔ microseconds = 0 := by omega
    rw [forwards, exactly, ← numeral_sum_iff seconds microseconds fits, printed]
    constructor
    · rintro ⟨number, same, denotes⟩
      cases difference_line_injective (Option.some.inj same)
      exact ⟨short, denotes⟩
    · rintro ⟨-, denotes⟩
      exact ⟨_, rfl, denotes⟩
  · rename_i long
    exact iff_of_false (by simp) fun condition => long condition.1

/-- One and a half seconds on the client's clock. -/
def startedAt : Timeval := ⟨1, 500000, by decide, by decide⟩

/-- The server's clock is three tenths of a second behind. -/
def finishedAt : Timeval := ⟨1, 200000, by decide, by decide⟩

theorem prints_difference_iff_at :
    PrintsDifference finishedAt startedAt ↔
      (-10 ^ 11 < finishedAt.tv_sec ∧ finishedAt.tv_sec < 10 ^ 12) ∧
        (finishedAt.seconds ≤ startedAt.seconds ∨ finishedAt.tv_usec = startedAt.tv_usec) :=
  prints_difference_iff finishedAt startedAt (by decide)

/-- For minus three tenths of a second `-1.700000` is printed. -/
theorem negative_difference_misprinted :
    ¬ ∀ start finish : Timeval, (finish.tv_sec - start.tv_sec).natAbs < 2 ^ 31 →
      PrintsDifference start finish := by
  intro prints
  obtain ⟨number, printed, denotes⟩ := prints startedAt finishedAt (by decide)
  have line : elapsed startedAt finishedAt =
      some (differenceLine (printInt (-1) ++ DOT :: padded 6 700000)) := by decide
  have same : number = printInt (-1) ++ DOT :: padded 6 700000 :=
    difference_line_injective (Option.some.inj (printed.symm.trans line))
  have difference : finishedAt.seconds - startedAt.seconds = (-1 : Int) + (700000 : Nat) / 10 ^ 6 :=
    seconds_difference startedAt finishedAt (by decide)
  rw [same, difference, numeral_sum_iff (-1) 700000 (by omega)] at denotes
  omega

end OsCourse.ElapsedTime

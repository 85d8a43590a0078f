import Mathlib.Data.List.TakeWhile
import Mathlib.Data.Nat.Digits.Lemmas
import Mathlib.Data.Rat.Defs
import OsCourse.Stdio

/-! Decimal numbers as C reads and writes them: `%d` and `%06ld` of `printf`,
the conversions of `atoi` and `sscanf` with their saturation, and what is left
of a number when its text is cut into pieces. Nothing below names a program. -/
namespace OsCourse.Decimal
open Stdio

def MINUS : Byte := 45#8

def PLUS : Byte := 43#8

def DOT : Byte := 46#8

/-- The character of a digit. -/
def digit (d : Nat) : Byte := BitVec.ofNat 8 (48 + d)

def isDigit (b : Byte) : Bool := decide (48 ≤ b.toNat ∧ b.toNat ≤ 57)

def isSpace (b : Byte) : Bool := decide (b = 32#8 ∨ (9 ≤ b.toNat ∧ b.toNat ≤ 13))

/-- The number a string of digits stands for. -/
def value (text : List Byte) : Nat :=
  Nat.ofDigits 10 (text.reverse.map fun b => b.toNat - 48)

/-! ## Printing -/

/-- `%lu` -/
def decimal (n : Nat) : List Byte :=
  if n = 0 then [digit 0] else (Nat.digits 10 n).reverse.map digit

/-- `%d` and `%ld` -/
def printInt (z : Int) : List Byte :=
  if z < 0 then MINUS :: decimal z.natAbs else decimal z.natAbs

/-- `%0<width>ld` of a number that is not negative. -/
def padded (width n : Nat) : List Byte :=
  List.replicate (width - (decimal n).length) (digit 0) ++ decimal n

/-- `%0<width>d`, where the sign counts as a character. -/
def paddedInt (width : Nat) (z : Int) : List Byte :=
  if z < 0 then MINUS :: padded (width - 1) z.natAbs else padded width z.natAbs

/-- The number a numeral with a fraction denotes. -/
def numeral (text : List Byte) : Option ℚ :=
  let negative := text.head? = some MINUS
  let body := if negative then text.tail else text
  let whole := body.takeWhile isDigit
  match body.drop whole.length with
  | [] => none
  | dot :: fraction =>
    if whole ≠ [] ∧ dot = DOT ∧ fraction ≠ [] ∧ fraction.all isDigit then
      let magnitude : ℚ := value whole + value fraction / 10 ^ fraction.length
      some (if negative then -magnitude else magnitude)
    else none

/-! ## Scanning -/

/-- What a numeric conversion finds: a minus sign, the digits, and the text
behind them. At most `width` characters are taken behind the white space. -/
def scan (width : Nat) (text : List Byte) : Option (Bool × List Byte × List Byte) :=
  let text := text.dropWhile isSpace
  let signed := text.head? = some MINUS ∨ text.head? = some PLUS
  let body := if signed then text.tail else text
  let digits := (body.take (if signed then width - 1 else width)).takeWhile isDigit
  if digits = [] then none
  else some (decide (text.head? = some MINUS), digits, body.drop digits.length)

/-- `strtol` and `%ld` saturate at the ends of `long`. -/
def toLong (negative : Bool) (n : Nat) : Int :=
  if negative then max (-(2 ^ 63)) (-n) else min (2 ^ 63 - 1) n

/-- `%u` goes through `strtoul`: saturation at `ULONG_MAX`, then the sign, then
the narrowing to 32 bits. -/
def toUnsigned (negative : Bool) (n : Nat) : BitVec 32 :=
  let magnitude : Int := min (2 ^ 64 - 1) n
  BitVec.ofInt 32 (if negative then -magnitude else magnitude)

/-- `atoi`, which is zero without a number. -/
def atoi (text : List Byte) : BitVec 32 :=
  match scan text.length text with
  | none => 0
  | some (negative, digits, _) => BitVec.ofInt 32 (toLong negative (value digits))

/-- `sscanf(text, "%u", &n)`, where `n` keeps its value without a number. -/
def scanUnsigned (text : List Byte) (n : BitVec 32) : BitVec 32 :=
  match scan text.length text with
  | none => n
  | some (negative, digits, _) => toUnsigned negative (value digits)

/-- `sscanf(text, "%ld.%06ld", &sec, &usec)`: what is assigned to the two. The
width 6 holds for the second number only. -/
def scanTime (text : List Byte) : Option Int × Option Int :=
  match scan text.length text with
  | none => (none, none)
  | some (negative, digits, rest) =>
    (some (toLong negative (value digits)),
      if rest.head? = some DOT then
        (scan 6 rest.tail).map fun (negative, digits, _) => toLong negative (value digits)
      else none)

/-! ## Digits -/

theorem is_digit_digit (small : d < 10) : isDigit (digit d) = true := by
  unfold isDigit digit
  simp only [BitVec.toNat_ofNat, decide_eq_true_eq]
  omega

theorem digit_value (small : d < 10) : (digit d).toNat - 48 = d := by
  unfold digit
  rw [BitVec.toNat_ofNat]
  omega

@[simp] theorem value_nil : value [] = 0 := rfl

theorem value_append (xs ys : List Byte) :
    value (xs ++ ys) = value xs * 10 ^ ys.length + value ys := by
  unfold value
  rw [List.reverse_append, List.map_append, Nat.ofDigits_append, List.length_map,
    List.length_reverse]
  ring

theorem digits_map_value (ds : List Nat) (small : ∀ d ∈ ds, d < 10) :
    (ds.map digit).map (fun b => b.toNat - 48) = ds := by
  rw [List.map_map]
  conv_rhs => rw [← List.map_id ds]
  exact List.map_congr_left fun d member => digit_value (small d member)

theorem value_decimal (n : Nat) : value (decimal n) = n := by
  unfold decimal
  split
  · rename_i zero
    rw [zero]
    decide
  · unfold value
    rw [← List.map_reverse, List.reverse_reverse,
      digits_map_value _ fun d member => Nat.digits_lt_base (by omega) member,
      Nat.ofDigits_digits]

theorem decimal_digits (n : Nat) : ∀ b ∈ decimal n, isDigit b = true := by
  intro b member
  unfold decimal at member
  split at member
  · rw [List.mem_singleton.mp member]
    exact is_digit_digit (by omega)
  · obtain ⟨d, given, rfl⟩ := List.mem_map.mp member
    exact is_digit_digit (Nat.digits_lt_base (by omega) (List.mem_reverse.mp given))

theorem decimal_ne_nil (n : Nat) : decimal n ≠ [] := by
  unfold decimal
  split
  · exact nofun
  · rename_i positive
    intro empty
    rw [List.map_eq_nil_iff, List.reverse_eq_nil_iff, Nat.digits_eq_nil_iff_eq_zero] at empty
    exact positive empty

theorem decimal_length_iff (n : Nat) (positive : 0 < k) : (decimal n).length ≤ k ↔ n < 10 ^ k := by
  unfold decimal
  split
  · rename_i zero
    rw [zero]
    exact iff_of_true positive (by positivity)
  · rw [List.length_map, List.length_reverse]
    exact Nat.digits_length_le_iff (by omega) n

theorem decimal_length (fits : n < 10 ^ k) (positive : 0 < k) : (decimal n).length ≤ k :=
  (decimal_length_iff n positive).mpr fits

/-- A positive number does not begin with a zero, so neither do its initial
pieces stand for nothing. -/
theorem value_front (positive : 0 < n) (whole : decimal n = front ++ back) (some_digit : front ≠ []) :
    0 < value front := by
  obtain ⟨first, rest, rfl⟩ := List.exists_cons_of_ne_nil some_digit
  have nonzero : n ≠ 0 := by omega
  have last := Nat.getLast_digit_ne_zero 10 nonzero
  rw [decimal, if_neg nonzero] at whole
  have head := congrArg List.head? whole
  rw [List.head?_map, List.head?_reverse, List.cons_append, List.head?_cons,
    List.getLast?_eq_getLast_of_ne_nil (Nat.digits_ne_nil_iff_ne_zero.mpr nonzero),
    Option.map_some, Option.some.injEq] at head
  have small := Nat.digits_lt_base (b := 10) (m := n) (by omega)
    (List.getLast_mem (Nat.digits_ne_nil_iff_ne_zero.mpr nonzero))
  have own : first.toNat - 48 ≠ 0 := by
    rw [← head, digit_value small]
    exact last
  have split := value_append [first] rest
  have one : value [first] = first.toNat - 48 := by
    simp [value]
  rw [one, List.singleton_append] at split
  rw [split]
  have : 0 < (first.toNat - 48) * 10 ^ rest.length :=
    Nat.mul_pos (Nat.pos_of_ne_zero own) (by positivity)
  omega

/-- A piece of a number stands for no more than the number, and for the
number itself only if it is the whole. -/
theorem value_piece (front piece back : List Byte) (whole : decimal n = front ++ piece ++ back) :
    value piece ≤ n ∧ (piece ≠ [] → value piece = n → front = [] ∧ back = []) := by
  have split : n = (value front * 10 ^ piece.length + value piece) * 10 ^ back.length +
      value back := by
    rw [← value_append, ← value_append, ← whole, value_decimal]
  have scale : 0 < 10 ^ back.length := by positivity
  have lower : value piece * 10 ^ back.length ≤ n := by
    rw [split, Nat.add_mul]
    omega
  refine ⟨(Nat.le_mul_of_pos_right _ scale).trans lower, fun some_digit same => ?_⟩
  by_cases zero : n = 0
  · -- the number is the single digit zero
    have length := congrArg List.length whole
    have single : (decimal n).length = 1 := by
      rw [zero]
      rfl
    have positive := List.length_pos_iff.mpr some_digit
    rw [single, List.length_append, List.length_append] at length
    exact ⟨List.length_eq_zero_iff.mp (by omega), List.length_eq_zero_iff.mp (by omega)⟩
  · have some_back : back = [] := by
      by_contra more
      have positive := List.length_pos_iff.mpr more
      have ten : 10 ^ 1 ≤ 10 ^ back.length := Nat.pow_le_pow_right (by omega) positive
      have : value piece * 10 ≤ value piece * 10 ^ back.length := Nat.mul_le_mul_left _ ten
      omega
    subst some_back
    refine ⟨?_, rfl⟩
    by_contra more
    rw [List.append_nil] at whole
    have positive := value_front (Nat.pos_of_ne_zero zero) whole more
    rw [List.length_nil, Nat.pow_zero, Nat.mul_one, value_nil, Nat.add_zero] at split
    have : 0 < value front * 10 ^ piece.length := Nat.mul_pos positive (by positivity)
    omega

/-! ## What a conversion finds -/

theorem digit_no_space (own : isDigit b = true) : isSpace b = false := by
  simp only [isDigit, decide_eq_true_eq] at own
  simp only [isSpace, decide_eq_false_iff_not, not_or, not_and]
  refine ⟨?_, by omega⟩
  rintro rfl
  exact absurd own (by decide)

theorem digit_no_sign (own : isDigit b = true) : b ≠ MINUS ∧ b ≠ PLUS := by
  refine ⟨?_, ?_⟩
  · rintro rfl
    exact absurd own (by decide)
  · rintro rfl
    exact absurd own (by decide)

/-- The digits taken are all that stand at the front, as far as the width goes. -/
theorem take_digits {text rest : List Byte} (digits : ∀ b ∈ text, isDigit b = true)
    (room : text.length ≤ width)
    (ends : ∀ b ∈ (rest.take (width - text.length)).head?, isDigit b = false) :
    ((text ++ rest).take width).takeWhile isDigit = text := by
  rw [List.take_append, List.take_of_length_le room]
  generalize rest.take (width - text.length) = behind at ends
  induction text with
  | nil =>
    cases behind with
    | nil => rfl
    | cons b behind => simp [ends b rfl]
  | cons b text ih =>
    rw [List.cons_append, List.takeWhile_cons, if_pos (digits b List.mem_cons_self),
      ih (fun c member => digits c (List.mem_cons_of_mem _ member))
        (by rw [List.length_cons] at room; omega)]

theorem scan_digits (digits : ∀ b ∈ text, isDigit b = true) (some_digit : text ≠ [])
    (room : text.length ≤ width)
    (ends : ∀ b ∈ (rest.take (width - text.length)).head?, isDigit b = false) :
    scan width (text ++ rest) = some (false, text, rest) := by
  have taken := take_digits digits room ends
  obtain ⟨first, more, rfl⟩ := List.exists_cons_of_ne_nil some_digit
  have own := digits first List.mem_cons_self
  obtain ⟨minus, plus⟩ := digit_no_sign own
  have unspaced : (first :: more ++ rest).dropWhile isSpace = first :: more ++ rest := by
    rw [List.cons_append, List.dropWhile_cons, if_neg (by simp [digit_no_space own])]
  unfold scan
  simp only [unspaced]
  simp only [List.cons_append, List.head?_cons, Option.some.injEq, minus, plus, or_self, ↓reduceIte]
  rw [← List.cons_append, taken, if_neg some_digit, List.drop_left]
  simp

theorem scan_minus (digits : ∀ b ∈ text, isDigit b = true) (some_digit : text ≠ [])
    (room : text.length < width)
    (ends : ∀ b ∈ (rest.take (width - 1 - text.length)).head?, isDigit b = false) :
    scan width (MINUS :: text ++ rest) = some (true, text, rest) := by
  have taken := take_digits digits (Nat.le_sub_one_of_lt room) ends
  have unspaced : (MINUS :: text ++ rest).dropWhile isSpace = MINUS :: text ++ rest := by
    rw [List.cons_append, List.dropWhile_cons, if_neg (by decide)]
  unfold scan
  simp only [unspaced]
  simp only [List.cons_append, List.head?_cons, true_or, ↓reduceIte, List.tail_cons]
  rw [taken, if_neg some_digit, List.drop_left]
  simp

/-- What is converted stands in the text, behind white space and a sign. -/
theorem scan_some (found : scan width text = some (negative, digits, rest)) :
    ∃ spaces sign, text = spaces ++ sign ++ digits ++ rest ∧ (∀ b ∈ spaces, isSpace b = true) ∧
      digits ≠ [] ∧ (∀ b ∈ digits, isDigit b = true) ∧
      (sign = [MINUS] ∧ negative = true ∨ (sign = [] ∨ sign = [PLUS]) ∧ negative = false) := by
  have split := List.takeWhile_append_dropWhile (p := isSpace) (l := text)
  have blank : ∀ b ∈ text.takeWhile isSpace, isSpace b = true := fun b member =>
    List.mem_takeWhile_imp member
  have digits_of (body : List Byte) (w : Nat) :
      (body.take w).takeWhile isDigit ++ body.drop ((body.take w).takeWhile isDigit).length = body :=
    List.prefix_iff_eq_append.mp ((List.takeWhile_prefix _).trans (List.take_prefix _ _))
  have all (body : List Byte) (w : Nat) : ∀ b ∈ (body.take w).takeWhile isDigit, isDigit b = true :=
    fun b member => List.mem_takeWhile_imp member
  unfold scan at found
  cases trimmed : text.dropWhile isSpace with
  | nil => simp [trimmed] at found
  | cons first body =>
    rw [trimmed] at split
    simp only [trimmed, List.head?_cons, Option.some.injEq, List.tail_cons] at found
    by_cases signed : first = MINUS ∨ first = PLUS
    · rw [if_pos signed, if_pos signed, ite_eq_iff] at found
      obtain ⟨-, ⟨⟩⟩ | ⟨some_digit, same⟩ := found
      simp only [Option.some.injEq, Prod.mk.injEq] at same
      obtain ⟨sign, rfl, rfl⟩ := same
      refine ⟨_, [first], ?_, blank, some_digit, all _ _, ?_⟩
      · rw [List.append_assoc, digits_of, List.append_assoc, List.singleton_append, split]
      · rcases signed with rfl | rfl
        · exact Or.inl ⟨rfl, by rw [← sign]; decide⟩
        · exact Or.inr ⟨Or.inr rfl, by rw [← sign]; decide⟩
    · rw [if_neg signed, if_neg signed, ite_eq_iff] at found
      obtain ⟨-, ⟨⟩⟩ | ⟨some_digit, same⟩ := found
      simp only [Option.some.injEq, Prod.mk.injEq] at same
      obtain ⟨sign, rfl, rfl⟩ := same
      refine ⟨_, [], ?_, blank, some_digit, all _ _, Or.inr ⟨Or.inl rfl, ?_⟩⟩
      · rw [List.append_nil, List.append_assoc, digits_of, split]
      · rw [← sign]
        exact decide_eq_false (not_or.mp signed).1

/-! ## Reading back what was printed -/

theorem print_chars (z : Int) : ∀ b ∈ printInt z, isDigit b = true ∨ b = MINUS := by
  intro b member
  unfold printInt at member
  split at member
  · rcases List.mem_cons.mp member with rfl | own
    · exact Or.inr rfl
    · exact Or.inl (decimal_digits _ b own)
  · exact Or.inl (decimal_digits _ b member)

/-- The text of an `int` is a sign and ten digits at most. -/
theorem print_length (x : BitVec 32) : (printInt x.toInt).length ≤ 11 := by
  have bounds := BitVec.toInt_lt (x := x)
  have lower := BitVec.le_toInt (x := x)
  have short : (decimal x.toInt.natAbs).length ≤ 10 := decimal_length (by omega) (by omega)
  unfold printInt
  split
  · rw [List.length_cons]
    omega
  · omega

/-- Two integers narrow to the same 32 bits when they are congruent. -/
theorem of_int_eq_iff (v : Int) (x : BitVec 32) :
    BitVec.ofInt 32 v = x ↔ (v - x.toInt) % 4294967296 = 0 := by
  constructor
  · rintro rfl
    rw [BitVec.toInt_ofInt, Int.bmod_def]
    split <;> omega
  · intro congruent
    apply BitVec.eq_of_toInt_eq
    have bounds := BitVec.toInt_lt (x := x)
    have lower := BitVec.le_toInt (x := x)
    rw [BitVec.toInt_ofInt, Int.bmod_def]
    split <;> omega

/-- Digits in front of anything but a digit are found as a whole. -/
theorem scan_number (rest : List Byte) (digits : ∀ b ∈ text, isDigit b = true)
    (some_digit : text ≠ []) (ends : ∀ b ∈ rest.head?, isDigit b = false) :
    scan (text ++ rest).length (text ++ rest) = some (false, text, rest) ∧
      scan (MINUS :: text ++ rest).length (MINUS :: text ++ rest) = some (true, text, rest) := by
  constructor
  · apply scan_digits digits some_digit (by simp)
    rw [List.length_append, Nat.add_sub_cancel_left, List.take_length]
    exact ends
  · apply scan_minus digits some_digit (by simp)
    rw [List.cons_append, List.length_cons, List.length_append, Nat.add_sub_cancel,
      Nat.add_sub_cancel_left, List.take_length]
    exact ends

theorem scan_print (z : Int) (rest : List Byte) (ends : ∀ b ∈ rest.head?, isDigit b = false) :
    scan (printInt z ++ rest).length (printInt z ++ rest) =
      some (decide (z < 0), decimal z.natAbs, rest) := by
  have found := scan_number rest (decimal_digits z.natAbs) (decimal_ne_nil z.natAbs) ends
  unfold printInt
  by_cases negative : z < 0
  · rw [if_pos negative, found.2, decide_eq_true negative]
  · rw [if_neg negative, found.1, decide_eq_false negative]

theorem atoi_print (x : BitVec 32) (rest : List Byte) (ends : ∀ b ∈ rest.head?, isDigit b = false) :
    atoi (printInt x.toInt ++ rest) = x := by
  have bounds := BitVec.toInt_lt (x := x)
  have lower := BitVec.le_toInt (x := x)
  unfold atoi
  rw [scan_print _ rest ends]
  simp only [value_decimal]
  rw [of_int_eq_iff]
  unfold toLong
  by_cases negative : x.toInt < 0
  · rw [if_pos (decide_eq_true negative)]
    omega
  · rw [if_neg (by simpa using negative)]
    omega

theorem unsigned_print (x n : BitVec 32) : scanUnsigned (printInt x.toInt) n = x := by
  have bounds := BitVec.toInt_lt (x := x)
  have lower := BitVec.le_toInt (x := x)
  have found := scan_print x.toInt [] nofun
  rw [List.append_nil] at found
  unfold scanUnsigned
  rw [found]
  simp only [value_decimal, toUnsigned]
  rw [of_int_eq_iff]
  by_cases negative : x.toInt < 0
  · rw [if_pos (decide_eq_true negative)]
    omega
  · rw [if_neg (by simpa using negative)]
    omega

theorem padded_spec (fits : n < 10 ^ width) (positive : 0 < width) :
    (padded width n).length = width ∧ (∀ b ∈ padded width n, isDigit b = true) ∧
      value (padded width n) = n := by
  have short := decimal_length fits positive
  refine ⟨?_, ?_, ?_⟩
  · rw [padded, List.length_append, List.length_replicate]
    omega
  · intro b member
    rcases List.mem_append.mp member with zero | own
    · rw [List.eq_of_mem_replicate zero]
      exact is_digit_digit (by omega)
    · exact decimal_digits n b own
  · have zeros : value (List.replicate (width - (decimal n).length) (digit 0)) = 0 := by
      generalize width - (decimal n).length = count
      induction count with
      | zero => rfl
      | succ count ih =>
        rw [List.replicate_succ', value_append, ih]
        decide
    rw [padded, value_append, zeros, value_decimal, Nat.zero_mul, Nat.zero_add]

/-- A time that was printed with its microseconds padded reads back, also one
before the epoch. -/
theorem scan_time_int (sec : Int) (usec : Nat) (lower : -2 ^ 63 ≤ sec) (upper : sec < 2 ^ 63)
    (fits : usec < 10 ^ 6) :
    scanTime (printInt sec ++ DOT :: padded 6 usec) = (some sec, some (usec : Int)) := by
  obtain ⟨length, digits, read⟩ := padded_spec fits (by omega)
  have some_digit : padded 6 usec ≠ [] := List.ne_nil_of_length_pos (by omega)
  have first := scan_print sec (DOT :: padded 6 usec) (fun b head => by cases head; decide)
  have second : scan 6 (padded 6 usec ++ []) = some (false, padded 6 usec, []) :=
    scan_digits digits some_digit (by omega) (by simp)
  rw [List.append_nil] at second
  have seconds : toLong (decide (sec < 0)) sec.natAbs = sec := by
    unfold toLong
    by_cases negative : sec < 0
    · rw [if_pos (decide_eq_true negative)]
      omega
    · rw [if_neg (by simpa using negative)]
      omega
  have microseconds : toLong false usec = usec := by
    simp only [toLong, Bool.false_eq_true, ↓reduceIte]
    omega
  unfold scanTime
  simp only [first, List.head?_cons, ↓reduceIte, List.tail_cons, second, Option.map_some,
    value_decimal, read, seconds, microseconds]

theorem print_nat (n : Nat) : printInt n = decimal n := by
  have unsigned : ¬ (n : Int) < 0 := by omega
  rw [printInt, if_neg unsigned, Int.natAbs_natCast]

theorem scan_time_print (sec usec : Nat) (small : sec < 10 ^ 12) (fits : usec < 10 ^ 6) :
    scanTime (decimal sec ++ DOT :: padded 6 usec) = (some (sec : Int), some (usec : Int)) := by
  rw [← print_nat]
  exact scan_time_int sec usec (by omega) (by omega) fits

/-! ## What a printed numeral denotes -/

theorem numeral_print (z : Int) (n : Nat) (fits : n < 10 ^ width) (positive : 0 < width) :
    numeral (printInt z ++ DOT :: padded width n) =
      some (if z < 0 then -(z.natAbs + n / 10 ^ width : ℚ) else (z.natAbs + n / 10 ^ width : ℚ)) := by
  obtain ⟨length, digits, read⟩ := padded_spec fits positive
  have some_digit : padded width n ≠ [] := List.ne_nil_of_length_pos (by omega)
  have whole : (decimal z.natAbs ++ DOT :: padded width n).takeWhile isDigit = decimal z.natAbs := by
    rw [List.takeWhile_append_of_pos (decimal_digits z.natAbs), List.takeWhile_cons,
      if_neg (by decide), List.append_nil]
  have fraction : (padded width n).all isDigit = true := List.all_eq_true.mpr digits
  unfold numeral printInt
  by_cases negative : z < 0
  · simp only [if_pos negative, List.cons_append, List.head?_cons, ↓reduceIte, List.tail_cons, whole,
      List.drop_left, decimal_ne_nil, some_digit, fraction, ne_eq, not_false_eq_true,
      and_self, value_decimal, read, length]
  · have unsigned : (decimal z.natAbs ++ DOT :: padded width n).head? ≠ some MINUS := by
      obtain ⟨first, rest, text⟩ := List.exists_cons_of_ne_nil (decimal_ne_nil z.natAbs)
      have own := decimal_digits z.natAbs first (text ▸ List.mem_cons_self)
      rw [text, List.cons_append, List.head?_cons, ne_eq, Option.some.injEq]
      exact (digit_no_sign own).1
    simp only [if_neg negative, unsigned, ↓reduceIte, whole, List.drop_left, decimal_ne_nil,
      some_digit, fraction, ne_eq, not_false_eq_true, and_self, value_decimal, read, length]

/-! ## Reading pieces of what was printed -/

theorem scan_all (digits : ∀ b ∈ text, isDigit b = true) (some_digit : text ≠ []) :
    scan text.length text = some (false, text, []) ∧
      scan (MINUS :: text).length (MINUS :: text) = some (true, text, []) := by
  have found := scan_number [] digits some_digit nofun
  simpa only [List.append_nil] using found

/-- The front of a negative number is its sign and the front of its digits. -/
theorem negative_front (whole : MINUS :: decimal n = front ++ back) (some_char : front ≠ []) :
    ∃ rest, front = MINUS :: rest ∧ decimal n = rest ++ back ∧ ∀ b ∈ rest, isDigit b = true := by
  obtain ⟨sign, rest, rfl⟩ := List.exists_cons_of_ne_nil some_char
  obtain ⟨rfl, tail⟩ := List.cons.inj whole
  have split : decimal n = rest ++ back := tail
  exact ⟨rest, rfl, split, fun b member =>
    decimal_digits _ b (split ▸ List.mem_append_left _ member)⟩

/-- A number that has lost its end is read as another one. -/
theorem atoi_front (x : BitVec 32) (whole : printInt x.toInt = front ++ back) (some_char : front ≠ [])
    (cut : back ≠ []) : atoi front ≠ x := by
  have bounds := BitVec.toInt_lt (x := x)
  have lower := BitVec.le_toInt (x := x)
  intro same
  unfold atoi at same
  unfold printInt at whole
  by_cases negative : x.toInt < 0
  · rw [if_pos negative] at whole
    obtain ⟨rest, rfl, split, digits⟩ := negative_front whole some_char
    by_cases empty : rest = []
    · -- a sign alone is no number
      subst empty
      have zero : x = 0 := same.symm
      subst zero
      exact absurd negative (by decide)
    · rw [(scan_all digits empty).2] at same
      have piece := value_piece [] rest back split
      simp only [toLong, ↓reduceIte, of_int_eq_iff] at same
      exact cut (piece.2 empty (by omega)).2
  · rw [if_neg negative] at whole
    have digits : ∀ b ∈ front, isDigit b = true := fun b member =>
      decimal_digits _ b (whole ▸ List.mem_append_left _ member)
    rw [(scan_all digits some_char).1] at same
    have piece := value_piece [] front back whole
    simp only [toLong, Bool.false_eq_true, ↓reduceIte, of_int_eq_iff] at same
    exact cut (piece.2 some_char (by omega)).2

/-- A piece of a number printed with `%d` is read by `%u` as that number only
if it is the whole, or all of `-2147483648` but its sign. -/
theorem unsigned_piece (x : BitVec 32) (whole : printInt x.toInt = front ++ piece ++ back)
    (some_char : piece ≠ []) (same : scanUnsigned piece 0 = x) :
    back = [] ∧ (front = [] ∨ front = [MINUS] ∧ x = BitVec.ofNat 32 (2 ^ 31)) := by
  have bounds := BitVec.toInt_lt (x := x)
  have lower := BitVec.le_toInt (x := x)
  unfold scanUnsigned at same
  unfold printInt at whole
  by_cases negative : x.toInt < 0
  · rw [if_pos negative] at whole
    cases front with
    | nil =>
      rw [List.nil_append] at whole
      obtain ⟨rest, rfl, split, digits⟩ := negative_front whole some_char
      by_cases empty : rest = []
      · subst empty
        have zero : x = 0 := same.symm
        subst zero
        exact absurd negative (by decide)
      · rw [(scan_all digits empty).2] at same
        have part := value_piece [] rest back split
        simp only [toUnsigned, ↓reduceIte, of_int_eq_iff] at same
        exact ⟨(part.2 empty (by omega)).2, Or.inl rfl⟩
    | cons sign rest =>
      obtain ⟨rfl, split⟩ := List.cons.inj whole
      replace split : decimal x.toInt.natAbs = rest ++ piece ++ back := split
      have digits : ∀ b ∈ piece, isDigit b = true := fun b member =>
        decimal_digits _ b (split ▸ List.mem_append_left _ (List.mem_append_right _ member))
      rw [(scan_all digits some_char).1] at same
      have part := value_piece rest piece back split
      simp only [toUnsigned, Bool.false_eq_true, ↓reduceIte, of_int_eq_iff] at same
      obtain ⟨rfl, rfl⟩ := part.2 some_char (by omega)
      refine ⟨rfl, Or.inr ⟨rfl, ?_⟩⟩
      apply BitVec.eq_of_toInt_eq
      have edge : (BitVec.ofNat 32 (2 ^ 31)).toInt = -2147483648 := by decide
      rw [edge]
      omega
  · rw [if_neg negative] at whole
    have digits : ∀ b ∈ piece, isDigit b = true := fun b member =>
      decimal_digits _ b (whole ▸ List.mem_append_left _ (List.mem_append_right _ member))
    rw [(scan_all digits some_char).1] at same
    have part := value_piece front piece back whole
    simp only [toUnsigned, Bool.false_eq_true, ↓reduceIte, of_int_eq_iff] at same
    obtain ⟨rfl, rfl⟩ := part.2 some_char (by omega)
    exact ⟨rfl, Or.inl rfl⟩

end OsCourse.Decimal

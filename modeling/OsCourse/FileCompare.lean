import OsCourse.Stdio

/-! `cmp.c`: the comparison of two files. The model keeps the shape of the
source loop. The first file is read before the second, each `fgetc` result is
narrowed to a `char` before it is compared with `EOF`, and one more byte of
each file is read after the loop. -/
namespace OsCourse.FileCompare
open Stdio

/-- What `cmp` prints, one entry for each `printf`. -/
inductive Line where
  /-- `"Error: Cannot open file\n"` -/
  | cannotOpen
  /-- `"Files differ at line %d, character %d:\n"` -/
  | filesDiffer (line_num char_num : Int)
  /-- `"%s: %c\n"` -/
  | shows (file : String) (ch : Byte)
  /-- `"equal\n"` -/
  | equal
  /-- `"distinct\n"` -/
  | distinct
  deriving DecidableEq, Repr

/-- The streams, the flag and the output when the comparison loop is left. -/
structure LoopEnd where
  fp1 : List Byte
  fp2 : List Byte
  equal : Bool
  printed : List Line
  deriving DecidableEq, Repr

/-- `ch = toupper(ch)` on a signed `char`, done only when `ignore` is set. -/
def fold (ignore : Bool) (ch : Byte) : Byte :=
  if ignore then toChar (toupper ch.toInt) else ch

/-- The `while` loop of `cmp`. -/
def cmpLoop (file1 file2 : String) (verbose ignore : Bool) :
    List Byte → List Byte → Int → Int → LoopEnd
  | [], fp2, _, _ => ⟨[], fp2, true, []⟩
  | c1 :: fp1, fp2, line_num, char_num =>
    let ch1 := toChar c1.toNat
    -- `&&` leaves the second file unread when the first test fails
    if ch1.toInt = EOF then ⟨fp1, fp2, true, []⟩
    else
      let ch2 := toChar (fgetc fp2).1
      let fp2 := (fgetc fp2).2
      if ch2.toInt = EOF then ⟨fp1, fp2, true, []⟩
      else
        let ch1 := fold ignore ch1
        let ch2 := fold ignore ch2
        if ch1 ≠ ch2 then
          ⟨fp1, fp2, false, if verbose then
            [.filesDiffer line_num char_num, .shows file1 ch1, .shows file2 ch2] else []⟩
        else if ch1 = 10 then cmpLoop file1 file2 verbose ignore fp1 fp2 (line_num + 1) 0
        else cmpLoop file1 file2 verbose ignore fp1 fp2 line_num (char_num + 1)

/-- `cmp`, given what `fopen` made of its two file names. -/
def cmp (file1 file2 : String) (fp1 fp2 : Option (List Byte)) (verbose ignore : Bool) :
    Ending × List Line :=
  match fp1, fp2 with
  | some fp1, some fp2 =>
    let e := cmpLoop file1 file2 verbose ignore fp1 fp2 1 0
    let equal := e.equal && (fgetc e.fp1).1 == (fgetc e.fp2).1
    if equal then (.returns 0, e.printed ++ if verbose then [.equal] else [])
    else (.returns 1, e.printed ++ if verbose then [.distinct] else [])
  | _, _ => (.exits 1, [.cannotOpen])

/-- The equality `cmp` is asked to decide: of the bytes, or of the bytes after
`toupper` when `ignore` is set. -/
def SameContent : Bool → List Byte → List Byte → Prop
  | false, a, b => a = b
  | true, a, b => a.map (fun ch => toChar (toupper ch.toInt)) =
      b.map (fun ch => toChar (toupper ch.toInt))

instance (ignore : Bool) (a b : List Byte) : Decidable (SameContent ignore a b) :=
  match ignore with
  | false => inferInstanceAs (Decidable (a = b))
  | true => inferInstanceAs (Decidable (_ = _))

theorem same_content_iff_map : SameContent ignore a b ↔ a.map (fold ignore) = b.map (fold ignore) := by
  cases ignore with
  | false =>
    have plain : fold false = id := funext fun _ => rfl
    simp [SameContent, plain]
  | true => exact Iff.rfl

/-- Upper-casing keeps `0xFF` apart from every other byte. -/
theorem fold_eq_ff (ignore : Bool) (ch : Byte) : fold ignore ch = 0xFF#8 ↔ ch = 0xFF#8 := by
  cases ignore with
  | false => simp [fold]
  | true =>
    simp only [fold, ↓reduceIte, toupper]
    split
    · rename_i lower
      have upper : (toChar (ch.toInt - 32)).toInt = ch.toInt - 32 := by
        rw [toChar, BitVec.toInt_ofInt_eq_self (by omega) (by omega) (by omega)]
      rw [← char_eq_eof, ← char_eq_eof, upper]
      simp only [EOF]
      omega
    · rw [toChar_toInt]

theorem same_content_cons :
    SameContent ignore (x :: a) (y :: b) ↔ fold ignore x = fold ignore y ∧ SameContent ignore a b := by
  simp [same_content_iff_map]

theorem same_content_nil_left : SameContent ignore [] b ↔ b = [] := by
  rw [same_content_iff_map, List.map_nil, eq_comm, List.map_eq_nil_iff]

theorem same_content_nil_right : SameContent ignore a [] ↔ a = [] := by
  simp [same_content_iff_map]

/-- A byte `0xFF` of one file alone makes the contents differ. -/
theorem not_same_of_ff (other : y ≠ 0xFF#8) :
    ¬ SameContent ignore (0xFF#8 :: a) (y :: b) ∧ ¬ SameContent ignore (y :: b) (0xFF#8 :: a) := by
  have differ : fold ignore y ≠ fold ignore 0xFF#8 := by
    rw [(fold_eq_ff ignore 0xFF#8).mpr rfl, ne_eq, fold_eq_ff]
    exact other
  simp only [same_content_cons, differ, differ.symm, false_and, not_false_eq_true, and_self]

section Loop
variable (file1 file2 : String) (verbose ignore : Bool) (a b : List Byte) (line_num char_num : Int)

/-- A byte `0xFF` of the first file ends the loop with the second file one
byte behind. -/
theorem loop_ff_first : cmpLoop file1 file2 verbose ignore (0xFF#8 :: a) b line_num char_num =
    ⟨a, b, true, []⟩ := by
  simp only [cmpLoop, toChar_byte, char_eq_eof, ↓reduceIte]

/-- The end of the second file is noticed after a byte of the first is gone. -/
theorem loop_second_ends (ordinary : x ≠ 0xFF#8) :
    cmpLoop file1 file2 verbose ignore (x :: a) [] line_num char_num = ⟨a, [], true, []⟩ := by
  simp only [cmpLoop, toChar_byte, char_eq_eof, ordinary, ↓reduceIte, fgetc, toChar_eof]

theorem loop_ff_second (ordinary : x ≠ 0xFF#8) :
    cmpLoop file1 file2 verbose ignore (x :: a) (0xFF#8 :: b) line_num char_num =
      ⟨a, b, true, []⟩ := by
  simp only [cmpLoop, toChar_byte, char_eq_eof, ordinary, ↓reduceIte, fgetc]

theorem loop_bytes (ordinary : x ≠ 0xFF#8) (ordinary' : y ≠ 0xFF#8) :
    cmpLoop file1 file2 verbose ignore (x :: a) (y :: b) line_num char_num =
      if fold ignore x ≠ fold ignore y then
        ⟨a, b, false, if verbose then [.filesDiffer line_num char_num,
          .shows file1 (fold ignore x), .shows file2 (fold ignore y)] else []⟩
      else if fold ignore x = 10 then
        cmpLoop file1 file2 verbose ignore a b (line_num + 1) 0
      else cmpLoop file1 file2 verbose ignore a b line_num (char_num + 1) := by
  simp only [cmpLoop, toChar_byte, char_eq_eof, ordinary, ordinary', ↓reduceIte, fgetc]

end Loop

/-- The loop is left at `a` and `b` in no way that spoils the answer. Ordinary
bytes are compared in lock step. When the second file ends first, or a byte
`0xFF` is taken for the end, the check behind the loop compares two bytes
whose positions need not agree, and its result has to be right by luck. -/
def StopsInStep (ignore : Bool) : List Byte → List Byte → Prop
  | [], _ => True
  | _ :: a, [] => a ≠ []
  | x :: a, y :: b =>
    if x = 0xFF#8 then
      if y = 0xFF#8 then a.head? = some 0xFF#8 ↔ SameContent ignore a b
      else a.head? ≠ some y
    else if y = 0xFF#8 then a.head? ≠ b.head?
    else if fold ignore x = fold ignore y then StopsInStep ignore a b
    else True

/-- The answer of the loop together with the check behind it. -/
def agreed (e : LoopEnd) : Bool := e.equal && (fgetc e.fp1).1 == (fgetc e.fp2).1

theorem agreed_after_eof (fp1 fp2 : List Byte) (printed : List Line) :
    agreed ⟨fp1, fp2, true, printed⟩ = true ↔ fp1.head? = fp2.head? := by
  simp [agreed, fgetc_same]

/-- Position by position: the loop and the check behind it answer as the
contents demand exactly when the loop stops in step. -/
theorem loop_agrees_iff (file1 file2 : String) (verbose ignore : Bool) (a b : List Byte)
    (line_num char_num : Int) :
    (agreed (cmpLoop file1 file2 verbose ignore a b line_num char_num) = true ↔
      SameContent ignore a b) ↔ StopsInStep ignore a b := by
  induction a generalizing b line_num char_num with
  | nil =>
    simp only [cmpLoop, agreed_after_eof, same_content_nil_left, StopsInStep]
    cases b <;> simp
  | cons x a ih =>
    by_cases first : x = 0xFF#8
    · subst first
      rw [loop_ff_first, agreed_after_eof]
      cases b with
      | nil => simp [same_content_nil_right, StopsInStep]
      | cons y b =>
        by_cases second : y = 0xFF#8
        · subst second
          simp [same_content_cons, StopsInStep]
        · simp [StopsInStep, second, (not_same_of_ff second).1]
    · cases b with
      | nil =>
        rw [loop_second_ends _ _ _ _ _ _ _ first, agreed_after_eof]
        simp [same_content_nil_right, StopsInStep]
      | cons y b =>
        by_cases second : y = 0xFF#8
        · subst second
          rw [loop_ff_second _ _ _ _ _ _ _ _ first, agreed_after_eof]
          simp [StopsInStep, first, (not_same_of_ff first).2]
        · rw [loop_bytes _ _ _ _ _ _ _ _ first second, same_content_cons]
          by_cases same : fold ignore x = fold ignore y
          · simp only [same, ne_eq, not_true_eq_false, ↓reduceIte, true_and, StopsInStep, first,
              second]
            split <;> exact ih b _ _
          · simp [same, agreed, StopsInStep, first, second]

theorem cmp_returns (file1 file2 : String) (a b : List Byte) (verbose ignore : Bool) :
    (cmp file1 file2 (some a) (some b) verbose ignore).1 =
      .returns (if agreed (cmpLoop file1 file2 verbose ignore a b 1 0) then 0 else 1) := by
  by_cases answer : agreed (cmpLoop file1 file2 verbose ignore a b 1 0) = true
  · rw [if_pos answer]
    exact congrArg Prod.fst (if_pos answer)
  · rw [if_neg answer]
    exact congrArg Prod.fst (if_neg answer)

/-- `cmp` answers 0 for the same content and 1 otherwise exactly on the file
pairs on which its loop stops in step. -/
theorem cmp_decides_equality_iff (file1 file2 : String) (a b : List Byte) (verbose ignore : Bool) :
    (cmp file1 file2 (some a) (some b) verbose ignore).1 =
        .returns (if SameContent ignore a b then 0 else 1) ↔ StopsInStep ignore a b := by
  rw [cmp_returns, ← loop_agrees_iff file1 file2 verbose ignore a b 1 0]
  by_cases answer : agreed (cmpLoop file1 file2 verbose ignore a b 1 0) = true <;>
    by_cases same : SameContent ignore a b <;> simp [answer, same]

/-- A file that continues another one by a single byte counts as equal to it. -/
theorem cmp_misses_one_extra_byte :
    ¬ ∀ (file1 file2 : String) (a b : List Byte) (verbose ignore : Bool),
      (cmp file1 file2 (some a) (some b) verbose ignore).1 =
        .returns (if SameContent ignore a b then 0 else 1) := by
  intro decides
  exact absurd (decides "txt1.txt" "txt2.txt" [0x61] [] false false) (by decide)

end OsCourse.FileCompare

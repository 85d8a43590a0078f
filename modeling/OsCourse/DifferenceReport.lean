import OsCourse.CInt
import OsCourse.FileCompare

/-! The report of `cmp.c` on the first difference of two files: the line and
the character its loop has counted to, and the two bytes. -/
namespace OsCourse.DifferenceReport
open Stdio CInt FileCompare

def NEWLINE : Byte := 10#8

/-- `"equal\n"` and `"distinct\n"` are no report on a difference. -/
def isReport : Line → Bool
  | .equal | .distinct => false
  | _ => true

/-- What `cmp` with `verbose` set prints as reports. -/
def reports (file1 file2 : String) (ignore : Bool) (a b : List Byte) : List Line :=
  (cmp file1 file2 (some a) (some b) true ignore).2.filter isReport

/-- The first index below both lengths at which the two differ. -/
structure FirstDifference (ignore : Bool) (a b : List Byte) (p : Nat) (x y : Byte) : Prop where
  first : a[p]? = some x
  second : b[p]? = some y
  differ : fold ignore x ≠ fold ignore y
  before : (a.take p).map (fold ignore) = (b.take p).map (fold ignore)

/-- The number of bytes behind the last newline. -/
def sinceNewline (before : List Byte) : Nat :=
  (before.reverse.takeWhile fun ch => decide (ch ≠ NEWLINE)).length

/-- The report on a difference behind these bytes. -/
def reportOn (file1 file2 : String) (ignore : Bool) (before : List Byte) (x y : Byte) : List Line :=
  [.filesDiffer (1 + before.count NEWLINE) (sinceNewline before),
    .shows file1 (fold ignore x), .shows file2 (fold ignore y)]

/-- The first difference is reported, with numbers that an `int` can hold, and
nothing when there is none. -/
def ReportsFirst (file1 file2 : String) (ignore : Bool) (a b : List Byte) : Prop :=
  (∀ p x y, FirstDifference ignore a b p x y →
    reports file1 file2 ignore a b = reportOn file1 file2 ignore (a.take p) x y ∧
      InRange 32 (1 + (a.take p).count NEWLINE) ∧ InRange 32 (sinceNewline (a.take p))) ∧
  ((∀ p x y, ¬ FirstDifference ignore a b p x y) → reports file1 file2 ignore a b = [])

/-- No byte up to the first difference is taken for the end of its file. -/
def NoByteIsEof (ignore : Bool) (a b : List Byte) : Prop :=
  ∀ p x y, FirstDifference ignore a b p x y → 0xFF#8 ∉ a.take p ∧ x ≠ 0xFF#8 ∧ y ≠ 0xFF#8

/-! ## Counting -/

/-- Upper-casing makes no newline and takes none away. -/
theorem fold_eq_newline (ignore : Bool) (ch : Byte) : fold ignore ch = NEWLINE ↔ ch = NEWLINE := by
  cases ignore with
  | false => exact Iff.rfl
  | true =>
    revert ch
    decide

/-- `char_num` behind some bytes that are the same in both files. -/
def column : (char_num : Int) → List Byte → Int
  | char_num, [] => char_num
  | char_num, ch :: rest => column (if ch = NEWLINE then 0 else char_num + 1) rest

theorem column_snoc (char_num : Int) (before : List Byte) (ch : Byte) :
    column char_num (before ++ [ch]) = if ch = NEWLINE then 0 else column char_num before + 1 := by
  induction before generalizing char_num with
  | nil => rfl
  | cons first before ih => exact ih _

theorem column_zero (before : List Byte) : column 0 before = sinceNewline before := by
  induction before using List.reverseRecOn with
  | nil => rfl
  | append_singleton before ch ih =>
    rw [column_snoc, sinceNewline, List.reverse_append, List.reverse_singleton, List.singleton_append,
      List.takeWhile_cons]
    by_cases newline : ch = NEWLINE
    · simp [newline]
    · rw [if_neg newline, if_pos (decide_eq_true newline), List.length_cons, ih, sinceNewline]
      rfl

/-! ## The loop -/

section Loop
variable (file1 file2 : String) (ignore : Bool)

theorem before_cons : ((x :: a).take (p + 1)).map (fold ignore) =
      ((y :: b).take (p + 1)).map (fold ignore) ↔
    fold ignore x = fold ignore y ∧ (a.take p).map (fold ignore) = (b.take p).map (fold ignore) := by
  simp only [List.take_succ_cons, List.map_cons, List.cons.injEq]

theorem first_difference_cons (same : fold ignore x = fold ignore y) :
    FirstDifference ignore (x :: a) (y :: b) (p + 1) x' y' ↔ FirstDifference ignore a b p x' y' := by
  constructor
  · rintro ⟨first, second, differ, before⟩
    exact ⟨first, second, differ, ((before_cons ignore).mp before).2⟩
  · rintro ⟨first, second, differ, before⟩
    exact ⟨first, second, differ, (before_cons ignore).mpr ⟨same, before⟩⟩

/-- The counters go on behind two ordinary bytes that are the same. -/
theorem loop_same (line_num char_num : Int) (same : fold ignore x = fold ignore y)
    (first : x ≠ 0xFF#8) (second : y ≠ 0xFF#8) :
    cmpLoop file1 file2 true ignore (x :: a) (y :: b) line_num char_num =
      cmpLoop file1 file2 true ignore a b (line_num + if x = NEWLINE then 1 else 0)
        (if x = NEWLINE then 0 else char_num + 1) := by
  have newline : fold ignore x = 10 ↔ x = NEWLINE := fold_eq_newline ignore x
  rw [loop_bytes _ _ _ _ _ _ _ _ first second, if_neg (not_not_intro same)]
  simp only [newline]
  split <;> simp

/-- With ordinary bytes the loop goes on to the first difference and reports it. -/
theorem loop_reports (line_num char_num : Int) (there : FirstDifference ignore a b p x y)
    (ordinary : 0xFF#8 ∉ a.take p) (first : x ≠ 0xFF#8) (second : y ≠ 0xFF#8) :
    (cmpLoop file1 file2 true ignore a b line_num char_num).printed =
      [.filesDiffer (line_num + (a.take p).count NEWLINE) (column char_num (a.take p)),
        .shows file1 (fold ignore x), .shows file2 (fold ignore y)] := by
  induction p generalizing a b line_num char_num with
  | zero =>
    obtain ⟨here, here', differ, -⟩ := there
    obtain ⟨rest, rfl⟩ := List.head?_eq_some_iff.mp (List.head?_eq_getElem? ▸ here)
    obtain ⟨rest', rfl⟩ := List.head?_eq_some_iff.mp (List.head?_eq_getElem? ▸ here')
    rw [loop_bytes _ _ _ _ _ _ _ _ first second, if_pos differ]
    simp [column]
  | succ p ih =>
    cases a with
    | nil => cases there.first
    | cons c a =>
      cases b with
      | nil => cases there.second
      | cons d b =>
        have heads : fold ignore c = fold ignore d := ((before_cons ignore).mp there.before).1
        simp only [List.take_succ_cons, List.mem_cons, not_or] at ordinary
        have ordinary_c : c ≠ 0xFF#8 := fun same => ordinary.1 same.symm
        have ordinary_d : d ≠ 0xFF#8 := by
          rw [ne_eq, ← fold_eq_ff ignore, ← heads, fold_eq_ff]
          exact ordinary_c
        have rest := (first_difference_cons ignore heads).mp there
        rw [loop_same file1 file2 ignore _ _ heads ordinary_c ordinary_d, ih _ _ rest ordinary.2,
          List.take_succ_cons, column, List.count_cons]
        congr 2
        by_cases newline : c = NEWLINE
        · simp only [newline, ↓reduceIte, BEq.rfl, Nat.cast_add, Nat.cast_one]
          omega
        · simp [newline]

/-- Without a first difference the loop can reach nothing is printed. -/
theorem loop_silent (line_num char_num : Int)
    (none_reached : ∀ p x y, FirstDifference ignore a b p x y →
      0xFF#8 ∈ a.take p ∨ x = 0xFF#8 ∨ y = 0xFF#8) :
    (cmpLoop file1 file2 true ignore a b line_num char_num).printed = [] := by
  induction a generalizing b line_num char_num with
  | nil => rfl
  | cons x a ih =>
    by_cases first : x = 0xFF#8
    · rw [first, loop_ff_first]
    · cases b with
      | nil => rw [loop_second_ends _ _ _ _ _ _ _ first]
      | cons y b =>
        by_cases second : y = 0xFF#8
        · rw [second, loop_ff_second _ _ _ _ _ _ _ _ first]
        · by_cases same : fold ignore x = fold ignore y
          · rw [loop_same file1 file2 ignore _ _ same first second]
            apply ih
            intro p x' y' later
            have reached := none_reached (p + 1) x' y' ((first_difference_cons ignore same).mpr later)
            simp only [List.take_succ_cons, List.mem_cons] at reached
            rcases reached with (own | behind) | bytes
            · exact absurd own.symm first
            · exact Or.inl behind
            · exact Or.inr bytes
          · have here : FirstDifference ignore (x :: a) (y :: b) 0 x y := ⟨rfl, rfl, same, rfl⟩
            rcases none_reached 0 x y here with front | own | own
            · cases front
            · exact absurd own first
            · exact absurd own second

end Loop

/-! ## The report -/

theorem not_earlier (one : FirstDifference ignore a b p x y)
    (other : FirstDifference ignore a b q x' y') : ¬ p < q := by
  intro earlier
  have here := congrArg (fun bytes => bytes[p]?) other.before
  simp only [List.getElem?_map, List.getElem?_take_of_lt earlier, one.first, one.second,
    Option.map_some, Option.some.injEq] at here
  exact one.differ here

theorem first_difference_unique (one : FirstDifference ignore a b p x y)
    (other : FirstDifference ignore a b q x' y') : p = q ∧ x = x' ∧ y = y' := by
  have same : p = q := Nat.le_antisymm (Nat.le_of_not_lt (not_earlier other one))
    (Nat.le_of_not_lt (not_earlier one other))
  subst same
  exact ⟨rfl, Option.some.inj (one.first.symm.trans other.first),
    Option.some.inj (one.second.symm.trans other.second)⟩

theorem reports_loop (file1 file2 : String) (ignore : Bool) (a b : List Byte) :
    reports file1 file2 ignore a b =
      (cmpLoop file1 file2 true ignore a b 1 0).printed.filter isReport := by
  have printed : (cmp file1 file2 (some a) (some b) true ignore).2 =
      (cmpLoop file1 file2 true ignore a b 1 0).printed ++
        [if agreed (cmpLoop file1 file2 true ignore a b 1 0) then .equal else .distinct] := by
    by_cases answer : agreed (cmpLoop file1 file2 true ignore a b 1 0) = true
    · rw [if_pos answer]
      exact congrArg Prod.snd (if_pos answer)
    · rw [if_neg answer]
      exact congrArg Prod.snd (if_neg answer)
  rw [reports, printed, List.filter_append]
  split <;> simp [isReport]

/-- What is counted in front of the first difference is below the length. -/
theorem counts_fit (small : a.length < 2 ^ 31) (there : FirstDifference ignore a b p x y) :
    InRange 32 (1 + (a.take p).count NEWLINE) ∧ InRange 32 (sinceNewline (a.take p)) := by
  have inside : p < a.length := (List.getElem?_eq_some_iff.mp there.first).1
  have length : (a.take p).length = p := List.length_take_of_le (by omega)
  have lines := List.count_le_length (a := NEWLINE) (l := a.take p)
  have chars : sinceNewline (a.take p) ≤ (a.take p).length := by
    have initial := (List.takeWhile_prefix (l := (a.take p).reverse)
      fun ch => decide (ch ≠ NEWLINE)).length_le
    rwa [List.length_reverse] at initial
  rw [in_range_int, in_range_int]
  omega

/-- The first difference is reported where it is exactly when no byte up to it is
taken for the end of a file. -/
theorem reports_first_iff (file1 file2 : String) (ignore : Bool) (a b : List Byte)
    (small : a.length < 2 ^ 31) :
    ReportsFirst file1 file2 ignore a b ↔ NoByteIsEof ignore a b := by
  unfold ReportsFirst
  rw [reports_loop]
  constructor
  · rintro ⟨report, -⟩ p x y there
    by_contra taken
    have silent := loop_silent file1 file2 ignore (a := a) (b := b) 1 0 (by
      intro q x' y' other
      obtain ⟨rfl, rfl, rfl⟩ := first_difference_unique there other
      by_contra ordinary
      obtain ⟨front, bytes⟩ := not_or.mp ordinary
      exact taken ⟨front, not_or.mp bytes⟩)
    have printed := (report p x y there).1
    rw [silent] at printed
    cases printed
  · intro ordinary
    refine ⟨fun p x y there => ⟨?_, counts_fit small there⟩, fun none_there => ?_⟩
    · obtain ⟨front, first, second⟩ := ordinary p x y there
      rw [loop_reports file1 file2 ignore 1 0 there front first second, column_zero]
      rfl
    · rw [loop_silent file1 file2 ignore 1 0 fun p x y there => absurd there (none_there p x y)]
      rfl

theorem reports_first_iff_at :
    ReportsFirst "txt1.txt" "txt2.txt" false [0x61] [0x62] ↔ NoByteIsEof false [0x61] [0x62] :=
  reports_first_iff "txt1.txt" "txt2.txt" false [0x61] [0x62] (by decide)

/-- A byte `0xFF` that differs is not reported. -/
theorem ff_not_reported :
    ¬ ∀ (file1 file2 : String) (ignore : Bool) (a b : List Byte), a.length < 2 ^ 31 →
      b.length < 2 ^ 31 → ReportsFirst file1 file2 ignore a b := by
  intro right
  have report := (right "txt1.txt" "txt2.txt" false [0xFF] [0x61] (by decide) (by decide)).1 0 0xFF 0x61
    ⟨rfl, rfl, by decide, rfl⟩
  exact absurd report.1 (by decide)

end OsCourse.DifferenceReport

import OsCourse.Stdio

/-! NUL-terminated texts in a byte memory, and `strtok` with the space as its
only delimiter. `strtok` writes the terminators of its tokens into the memory;
its successive results are the words of the text it was started on. Nothing
below names a program. -/
namespace OsCourse.CString
open Stdio

def NUL : Byte := 0#8

def SPACE : Byte := 32#8

/-- The text a pointer to `position` denotes. -/
def cstr (mem : List Byte) (position : Nat) : List Byte :=
  (mem.drop position).takeWhile fun b => decide (b ≠ NUL)

/-- The memory holds the text and its terminator at the position. -/
def Holds (mem : List Byte) (position : Nat) (text : List Byte) : Prop :=
  NUL ∉ text ∧ ∃ junk, mem.drop position = text ++ NUL :: junk

/-- What a call of `strtok` returns and leaves behind. -/
structure Scanned where
  token : Option Nat
  mem : List Byte
  save : Nat

/-- `strtok`, started on the text at `save` or continued there. -/
def strtok (mem : List Byte) (save : Nat) : Scanned :=
  let start := save + ((mem.drop save).takeWhile fun b => decide (b = SPACE)).length
  let word := (mem.drop start).takeWhile fun b => decide (b ≠ SPACE ∧ b ≠ NUL)
  if word = [] then ⟨none, mem, start⟩
  else
    let stop := start + word.length
    -- the delimiter behind the token is overwritten, the terminator of the text is kept
    if mem[stop]? = some SPACE then ⟨some start, mem.set stop NUL, stop + 1⟩
    else ⟨some start, mem, stop⟩

/-- The words of a text, with the letters of an unfinished one in front. -/
def wordsFrom (current : List Byte) : List Byte → List (List Byte)
  | [] => if current = [] then [] else [current]
  | b :: text =>
    if b = SPACE then
      if current = [] then wordsFrom [] text else current :: wordsFrom [] text
    else wordsFrom (current ++ [b]) text

/-- The words of a text, separated by one or more spaces. -/
def words (text : List Byte) : List (List Byte) := wordsFrom [] text

/-! ## Texts -/

theorem take_while_stops {p : Byte → Bool} (stops : p b = false) (text junk : List Byte) :
    (text ++ b :: junk).takeWhile p = text.takeWhile p := by
  induction text with
  | nil => simp [stops]
  | cons c text ih =>
    rw [List.cons_append, List.takeWhile_cons, List.takeWhile_cons, ih]

theorem take_while_all {p : Byte → Bool} {text : List Byte} (all : ∀ b ∈ text, p b = true) :
    text.takeWhile p = text := by
  induction text with
  | nil => rfl
  | cons b text ih =>
    rw [List.takeWhile_cons, if_pos (all b List.mem_cons_self),
      ih fun c member => all c (List.mem_cons_of_mem _ member)]

theorem cstr_of_holds (holds : Holds mem position text) : cstr mem position = text := by
  obtain ⟨clean, junk, there⟩ := holds
  rw [cstr, there, take_while_stops (by simp)]
  apply take_while_all
  intro b member
  simp only [decide_eq_true_eq]
  rintro rfl
  exact clean member

/-- A memory with a terminator holds the text in front of the first one. -/
theorem holds_cstr (terminated : NUL ∈ mem) : Holds mem 0 (cstr mem 0) := by
  obtain ⟨text, junk, there, clean⟩ := List.eq_append_cons_of_mem terminated
  have holds : Holds mem 0 text := ⟨clean, junk, there⟩
  rw [cstr_of_holds holds]
  exact holds

/-- A write behind the terminator of a text leaves the text alone. -/
theorem holds_set (holds : Holds mem position text) (behind : position + text.length < stop) :
    Holds (mem.set stop value) position text := by
  obtain ⟨clean, junk, there⟩ := holds
  refine ⟨clean, junk.set (stop - position - text.length - 1) value, ?_⟩
  rw [List.drop_set, if_neg (by omega), there, List.set_append_right _ _ (by omega)]
  obtain ⟨distance, far⟩ : ∃ distance, stop - position - text.length = distance + 1 :=
    ⟨stop - position - text.length - 1, by omega⟩
  rw [far]
  rfl

/-! ## Words -/

theorem words_space (text : List Byte) : words (SPACE :: text) = words text := by
  simp [words, wordsFrom]

theorem words_from_letters (letters : SPACE ∉ word) (current text : List Byte) :
    wordsFrom current (word ++ text) = wordsFrom (current ++ word) text := by
  induction word generalizing current with
  | nil => simp
  | cons b word ih =>
    have letter : b ≠ SPACE := fun same => letters (same ▸ List.mem_cons_self)
    have more : SPACE ∉ word := fun member => letters (List.mem_cons_of_mem _ member)
    rw [List.cons_append, wordsFrom, if_neg letter, ih more, List.append_assoc,
      List.singleton_append]

theorem words_word (letters : SPACE ∉ word) (some_letter : word ≠ []) (text : List Byte) :
    words word = [word] ∧ words (word ++ SPACE :: text) = word :: words text := by
  have alone := words_from_letters letters [] []
  have followed := words_from_letters letters [] (SPACE :: text)
  rw [List.append_nil] at alone
  constructor
  · simp [words, alone, wordsFrom, some_letter]
  · simp [words, followed, wordsFrom, some_letter]

theorem words_from_length (current text : List Byte) :
    (wordsFrom current text).length ≤ text.length + if current = [] then 0 else 1 := by
  induction text generalizing current with
  | nil =>
    unfold wordsFrom
    split <;> simp
  | cons b text ih =>
    unfold wordsFrom
    have fresh := ih []
    have longer := ih (current ++ [b])
    rw [if_pos rfl] at fresh
    rw [if_neg (by simp)] at longer
    split
    · split
      · simp only [List.length_cons]
        omega
      · simp only [List.length_cons]
        omega
    · simp only [List.length_cons]
      omega

theorem words_length (text : List Byte) : (words text).length ≤ text.length :=
  words_from_length [] text

theorem up_to_space (text : List Byte) : ∃ letters tail, text = letters ++ tail ∧
    SPACE ∉ letters ∧ (tail = [] ∨ ∃ more, tail = SPACE :: more) := by
  induction text with
  | nil => exact ⟨[], [], rfl, nofun, Or.inl rfl⟩
  | cons b text ih =>
    by_cases space : b = SPACE
    · exact ⟨[], b :: text, rfl, nofun, Or.inr ⟨text, space ▸ rfl⟩⟩
    · obtain ⟨letters, tail, whole, clean, ending⟩ := ih
      refine ⟨b :: letters, tail, by rw [whole]; rfl, ?_, ending⟩
      rintro (_ | ⟨_, member⟩)
      · exact space rfl
      · exact clean member

/-- A text starts with spaces and a word, unless it has no word at all. -/
theorem first_word (text : List Byte) :
    (words text = [] ∧ ∀ b ∈ text, b = SPACE) ∨
      ∃ spaces word tail, text = spaces ++ word ++ tail ∧ (∀ b ∈ spaces, b = SPACE) ∧
        word ≠ [] ∧ SPACE ∉ word ∧
        (tail = [] ∧ words text = [word] ∨
          ∃ more, tail = SPACE :: more ∧ words text = word :: words more) := by
  induction text with
  | nil => exact Or.inl ⟨rfl, nofun⟩
  | cons b text ih =>
    by_cases space : b = SPACE
    · subst space
      rw [words_space]
      rcases ih with ⟨none_left, all⟩ | ⟨spaces, word, tail, whole, all, letter, letters, ending⟩
      · exact Or.inl ⟨none_left, List.forall_mem_cons.mpr ⟨rfl, all⟩⟩
      · refine Or.inr ⟨SPACE :: spaces, word, tail, ?_, List.forall_mem_cons.mpr ⟨rfl, all⟩,
          letter, letters, ending⟩
        rw [whole]
        rfl
    · -- the word reaches up to the first space
      obtain ⟨letters, tail, whole, clean, ending⟩ := up_to_space text
      have letters' : SPACE ∉ b :: letters := by
        rintro (_ | ⟨_, member⟩)
        · exact space rfl
        · exact clean member
      refine Or.inr ⟨[], b :: letters, tail, by rw [whole]; rfl, nofun, nofun, letters', ?_⟩
      rw [whole]
      rcases ending with rfl | ⟨more, rfl⟩
      · rw [List.append_nil]
        exact Or.inl ⟨rfl, (words_word letters' nofun []).1⟩
      · exact Or.inr ⟨more, rfl, (words_word letters' nofun more).2⟩

/-! ## `strtok` -/

/-- Where `strtok` finds the first word of the text it scans. -/
theorem strtok_scan (clean : NUL ∉ spaces ++ word ++ tail) (all : ∀ b ∈ spaces, b = SPACE)
    (letters : SPACE ∉ word) (ending : tail = [] ∨ ∃ more, tail = SPACE :: more)
    (letter : word ≠ [])
    (there : mem.drop save = spaces ++ word ++ tail ++ NUL :: junk) :
    strtok mem save = if mem[save + spaces.length + word.length]? = some SPACE then
      ⟨some (save + spaces.length), mem.set (save + spaces.length + word.length) NUL,
        save + spaces.length + word.length + 1⟩
      else ⟨some (save + spaces.length), mem, save + spaces.length + word.length⟩ := by
  obtain ⟨first, rest, rfl⟩ := List.exists_cons_of_ne_nil letter
  have skipped : (mem.drop save).takeWhile (fun b => decide (b = SPACE)) = spaces := by
    have other : ¬ first = SPACE := fun same => letters (same ▸ List.mem_cons_self)
    rw [there, List.append_assoc, List.append_assoc, List.cons_append,
      take_while_stops (by simp [other])]
    apply take_while_all
    intro b member
    simp [all b member]
  have after : mem.drop (save + spaces.length) = first :: rest ++ (tail ++ NUL :: junk) := by
    rw [← List.drop_drop, there, List.append_assoc, List.append_assoc, List.drop_left]
  have scanned : (mem.drop (save + spaces.length)).takeWhile
      (fun b => decide (b ≠ SPACE ∧ b ≠ NUL)) = first :: rest := by
    have whole : (first :: rest).takeWhile (fun b => decide (b ≠ SPACE ∧ b ≠ NUL)) =
        first :: rest := by
      apply take_while_all
      intro b member
      simp only [decide_eq_true_eq]
      refine ⟨fun space => letters (space ▸ member), fun nul => clean (nul ▸ ?_)⟩
      simp only [List.mem_append]
      exact Or.inl (Or.inr member)
    rw [after]
    rcases ending with rfl | ⟨more, rfl⟩
    · rw [List.nil_append, take_while_stops (by simp), whole]
    · show (first :: rest ++ SPACE :: (more ++ NUL :: junk)).takeWhile _ = _
      rw [take_while_stops (by simp), whole]
  unfold strtok
  simp only [skipped, scanned]
  rw [if_neg letter]

theorem drop_behind {mem front back : List Byte} (there : mem.drop save = front ++ back) :
    mem.drop (save + front.length) = back := by
  rw [← List.drop_drop, there, List.drop_left]

theorem get_behind {mem front back : List Byte} (there : mem.drop save = front ++ b :: back) :
    mem[save + front.length]? = some b := by
  have head := congrArg List.head? (drop_behind there)
  rwa [List.head?_drop] at head

theorem strtok_length (mem : List Byte) (save : Nat) :
    (strtok mem save).mem.length = mem.length := by
  unfold strtok
  dsimp only
  split
  · rfl
  · split
    · exact List.length_set
    · rfl

/-- A text without a word left ends the scan. -/
theorem strtok_none (holds : Holds mem save text) (nothing : words text = []) :
    strtok mem save = ⟨none, mem, save + text.length⟩ := by
  obtain ⟨clean, junk, there⟩ := holds
  rcases first_word text with ⟨-, all⟩ | ⟨_, word, _, _, _, _, _, ⟨_, some_word⟩ | ⟨_, _, some_word⟩⟩
  · have skipped : (mem.drop save).takeWhile (fun b => decide (b = SPACE)) = text := by
      rw [there, take_while_stops (by decide)]
      apply take_while_all
      intro b member
      simp [all b member]
    unfold strtok
    simp only [skipped, drop_behind there]
    simp
  · rw [nothing] at some_word
    cases some_word
  · rw [nothing] at some_word
    cases some_word

/-- Otherwise the first word is returned, now a text of its own, the scan
goes on behind it, and no text in front is touched. -/
theorem strtok_some (holds : Holds mem save text) (next : words text = word :: more) :
    ∃ start tail, (strtok mem save).token = some start ∧ save ≤ start ∧
      Holds (strtok mem save).mem start word ∧
      Holds (strtok mem save).mem (strtok mem save).save tail ∧ words tail = more ∧
      start + word.length ≤ (strtok mem save).save ∧
      ∀ position other, position + other.length ≤ save → Holds mem position other →
        Holds (strtok mem save).mem position other := by
  obtain ⟨clean, junk, there⟩ := holds
  rcases first_word text with ⟨none_left, -⟩ | ⟨spaces, first, tail, whole, all, letter, letters,
    ending⟩
  · rw [next] at none_left
    cases none_left
  subst whole
  have scan := strtok_scan clean all letters
    (ending.imp (fun h => h.1) (fun ⟨m, h, _⟩ => ⟨m, h⟩)) letter there
  have positive : 0 < first.length := List.length_pos_iff.mpr letter
  have apart : NUL ∉ first ∧ NUL ∉ tail := by
    simp only [List.mem_append, not_or] at clean
    exact ⟨clean.1.2, clean.2⟩
  have at_word : mem.drop (save + spaces.length) = first ++ (tail ++ NUL :: junk) := by
    apply drop_behind
    rw [there]
    simp only [List.append_assoc]
  rcases ending with ⟨rfl, only⟩ | ⟨rest, rfl, split⟩
  · -- the word is the last one and ends with the text
    obtain ⟨rfl, rfl⟩ := List.cons.inj (next.symm.trans only)
    rw [if_neg (by rw [get_behind at_word]; decide)] at scan
    rw [scan]
    refine ⟨_, [], rfl, by omega, ⟨apart.1, junk, at_word⟩, ⟨nofun, junk, ?_⟩, rfl, Nat.le_refl _,
      fun position other _ holds => holds⟩
    exact drop_behind at_word
  · obtain ⟨rfl, rfl⟩ := List.cons.inj (next.symm.trans split)
    rw [if_pos (get_behind at_word)] at scan
    rw [scan]
    refine ⟨_, rest, rfl, by omega, ⟨apart.1, rest ++ NUL :: junk, ?_⟩, ⟨?_, junk, ?_⟩, rfl,
      Nat.le_succ _, fun position other front holds => holds_set holds (by omega)⟩
    · rw [List.drop_set, if_neg (by omega), at_word, Nat.add_sub_cancel_left,
        List.set_append_right _ _ (Nat.le_refl _), Nat.sub_self]
      rfl
    · exact fun member => apart.2 (List.mem_cons_of_mem _ member)
    · dsimp only
      rw [List.drop_set, if_pos (by omega), ← List.drop_drop, drop_behind at_word]
      rfl

end OsCourse.CString

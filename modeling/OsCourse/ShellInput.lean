import Mathlib.Data.List.TakeWhile
import OsCourse.ShellDescriptors

/-! The read loop of the shell against its whole input. A round is followed
from prompt to prompt: what `fgets` takes, the character that is stripped, and
what the calls of `strtok` leave in the buffer for a round that finds the input
at its end. -/
namespace OsCourse.ShellInput
open Stdio CString StShell ShellPipeline ShellDescriptors Transition

/-! ## The property -/

/-- The lines of an input, with the bytes of an unfinished one in front. -/
def linesFrom (current : List Byte) : List Byte → List (List Byte)
  | [] => if current = [] then [] else [current]
  | b :: input =>
    if b = NEWLINE then current :: linesFrom [] input else linesFrom (current ++ [b]) input

/-- The lines of an input, without their newlines. -/
def inputLines (input : List Byte) : List (List Byte) := linesFrom [] input

/-- Where a call of `strtok` writes. -/
def strtokWrites (mem : List Byte) (save : Nat) : List Nat :=
  let start := save + ((mem.drop save).takeWhile fun b => b = SPACE).length
  let word := (mem.drop start).takeWhile fun b => b ≠ SPACE ∧ b ≠ NUL
  if word = [] then []
  else if mem[start + word.length]? = some SPACE then [start + word.length] else []

/-- Where the calls of `strtok` in the token loop write. -/
def tokenWrites : (rounds : Nat) → List Byte → (token : Option Nat) → (save argc : Nat) → List Nat
  | 0, _, _, _, _ => []
  | _ + 1, _, none, _, _ => []
  | rounds + 1, mem, some token, save, argc =>
    if argc < MAX_ARGS - 1 then
      let next := strtok mem save
      strtokWrites mem save ++
        if cstr mem token = OUTPUT ∨ cstr mem token = APPEND then []
        else tokenWrites rounds next.mem next.token next.save
          (if cstr mem token = PIPE then 0 else argc + 1)
    else []

/-- Where a line whose newline has been replaced is written to. -/
def lineWrites (mem : List Byte) : List Nat :=
  if cstr mem 0 = EXIT then []
  else
    let first := strtok mem 0
    strtokWrites mem 0 ++ tokenWrites MAX_COMMAND_LEN first.mem first.token first.save 0

/-- The positions of `command` a round of the read loop writes: what `fgets`
stores, the character that is stripped and the terminators of the tokens. They
are unknown when `strlen` finds no end. -/
def roundWrites (s : Shell) : Option (List Int) :=
  let taken := if s.stdin = [] then 0 else (getLine (MAX_COMMAND_LEN - 1) s.stdin).1.length + 1
  let stored := (List.range taken).map Int.ofNat
  match strlen s.fgets.command with
  | none => none
  | some 0 => some (stored ++ [-1])
  | some (last + 1) => some (stored ++
      (last :: lineWrites (s.fgets.command.set last NUL)).map Int.ofNat)

/-- All writes of the round are inside the buffer. -/
def WritesInside (s : Shell) : Prop :=
  ∃ writes, roundWrites s = some writes ∧ ∀ i ∈ writes, 0 ≤ i ∧ i < MAX_COMMAND_LEN

/-- Who the bytes of the standard input are for. A pipe or a terminal may be the
shell's own. Children may also take input themselves, and of a file they share
the place: where `execvp` fails, `exit` moves it back to what the shell had read
of its buffer. -/
inductive Input where
  | own
  | shared
  deriving DecidableEq, Repr

/-- What children leave of the input that is left, by how many were started. -/
abbrev Children := Nat → List Byte → List Byte

/-- Children leave the shell's own input alone, and anything of a shared one. -/
def Input.Allows : Input → Children → Prop
  | .own, children => ∀ count left, children count left = left
  | .shared, _ => True

def Event.starts : Event → Bool
  | .execute _ _ _ => true
  | _ => false

/-- How many calls of `execute_command` have been made. -/
def started (s : Shell) : Nat := s.events.countP Event.starts

/-- The program from prompt to prompt, with what its children do to the input. -/
def nextRound (kernel : Kernel) (children : Children) (s : Shell) (_ : Unit) : Option Shell :=
  (nextPrompt kernel s ()).map fun t =>
    if started t = started s then t else { t with stdin := children (started t) t.stdin }

/-- What a round owes to its line of the input: it parses this line. When the
input has ended, it leaves the loop. -/
def RoundServes (kernel : Kernel) (s : Shell) (line : Option (List Byte)) : Prop :=
  WritesInside s ∧
    match line with
    | some line => typedText s = some line
    | none => ∃ t, readLoop kernel s = .leaves t

/-- Every round that is reached serves the line of its own number. -/
def LinesServed (kernel : Kernel) (children : Children) (s : Shell) : Prop :=
  ∀ rounds t, exec (nextRound kernel children) s rounds = some t →
    RoundServes kernel t (inputLines s.stdin)[rounds.length]?

/-- The loop comes to an end. -/
def LoopEnds (kernel : Kernel) (children : Children) (s : Shell) : Prop :=
  ∃ t last, Reachable (nextRound kernel children) s t ∧ readLoop kernel t = .leaves last

/-- The shell handles the input, whatever its children leave of it and whatever
its arrays hold at the start. -/
def HandlesInput (kernel : Kernel) (input : Input) (stdin : List Byte) : Prop :=
  ∀ children, input.Allows children → ∀ (command : CommandArray) (argv : Nat → Slot),
    LinesServed kernel children (startShell stdin command.bytes argv) ∧
      LoopEnds kernel children (startShell stdin command.bytes argv)

/-- A line that fits the buffer with its newline and terminator and can be
told from its end. -/
structure Plain (line : List Byte) : Prop where
  fits : line.length + 2 ≤ MAX_COMMAND_LEN
  text : ∀ b ∈ line, b ≠ NUL ∧ b ≠ NEWLINE

/-- What `strtok` leaves of a line: the spaces in front and the first word. -/
def stale (line : List Byte) : List Byte :=
  (line.takeWhile fun b => b = SPACE) ++
    (line.dropWhile fun b => b = SPACE).takeWhile fun b => b ≠ SPACE

/-- A line starts a child when it has a word in front of any redirection. -/
def StartsChild (line : List Byte) : Prop :=
  ∃ word more, words line = word :: more ∧ word ≠ OUTPUT ∧ word ≠ APPEND

/-- The inputs the shell handles, by what is left of the line in front: plain
lines up to one that says `exit`, or up to the end of the input when stripping
a character off what is left of the last one happens to give `exit`. With a
shared input none of the lines starts a child. -/
inductive Served (input : Input) : (left stdin : List Byte) → Prop where
  | exits (typed : stdin = EXIT ++ NEWLINE :: rest) : Served input left stdin
  | line (typed : stdin = line ++ NEWLINE :: rest) (plain : Plain line) (other : line ≠ EXIT)
      (childless : input = .shared → ¬ StartsChild line)
      (later : Served input (stale line) rest) : Served input left stdin
  | ends (left_over : left = EXIT ++ [b]) : Served input left []

theorem plain_one_line (plain : Plain line) : NEWLINE ∉ line :=
  fun member => (plain.text NEWLINE member).2 rfl

theorem plain_exit : Plain EXIT := ⟨by decide, by decide⟩

/-! ## Writes -/

theorem strtok_writes_bound (mem : List Byte) (save : Nat) :
    ∀ i ∈ strtokWrites mem save, i < mem.length := by
  unfold strtokWrites
  dsimp only
  split
  · exact nofun
  · split
    · rename_i space
      intro i member
      rw [List.mem_singleton.mp member]
      exact (List.getElem?_eq_some_iff.mp space).1
    · exact nofun

theorem token_writes_bound (rounds : Nat) (mem : List Byte) (token : Option Nat)
    (save argc : Nat) : ∀ i ∈ tokenWrites rounds mem token save argc, i < mem.length := by
  induction rounds generalizing mem token save argc with
  | zero => exact nofun
  | succ rounds ih =>
    cases token with
    | none => exact nofun
    | some position =>
      unfold tokenWrites
      split
      · intro i member
        rcases List.mem_append.mp member with here | later
        · exact strtok_writes_bound mem save i here
        · split at later
          · cases later
          · rw [← strtok_length mem save]
            exact ih _ _ _ _ i later
      · exact nofun

theorem line_writes_bound (mem : List Byte) : ∀ i ∈ lineWrites mem, i < mem.length := by
  unfold lineWrites
  split
  · exact nofun
  · intro i member
    rcases List.mem_append.mp member with first | later
    · exact strtok_writes_bound mem 0 i first
    · rw [← strtok_length mem 0]
      exact token_writes_bound _ _ _ _ _ i later

/-- `fgets` and `strtok` stay inside the buffer, so that the writes are inside
whenever there is a character to strip. -/
theorem writes_inside_iff (whole : s.command.length = MAX_COMMAND_LEN) :
    WritesInside s ↔ (typedText s).isSome := by
  have size := fgets_length whole
  have inside : ∀ n < MAX_COMMAND_LEN, 0 ≤ Int.ofNat n ∧ Int.ofNat n < MAX_COMMAND_LEN :=
    fun n below => ⟨Int.natCast_nonneg n, Int.ofNat_lt.mpr below⟩
  unfold WritesInside roundWrites typedText
  cases length : strlen s.fgets.command with
  | none => simp
  | some n =>
    cases n with
    | zero => simp
    | succ last =>
      simp only [Option.some.injEq, exists_eq_left', Option.isSome_some, iff_true]
      intro i member
      rcases List.mem_append.mp member with stored | later
      · obtain ⟨n, below, rfl⟩ := List.mem_map.mp stored
        apply inside n
        have room := get_line_length (MAX_COMMAND_LEN - 1) s.stdin
        simp only [List.mem_range] at below
        unfold MAX_COMMAND_LEN at *
        split at below <;> omega
      · obtain ⟨n, there, rfl⟩ := List.mem_map.mp later
        apply inside n
        rw [← size]
        rcases List.mem_cons.mp there with rfl | behind
        · exact strlen_le length
        · simpa using line_writes_bound _ n behind

/-! ## The text of a line -/

/-- Without its last character a text is still one. -/
theorem stripped_holds (holds : Holds mem 0 (line ++ [b])) :
    strlen mem = some (line.length + 1) ∧ Holds (mem.set line.length NUL) 0 line := by
  have text := cstr_of_holds holds
  obtain ⟨clean, junk, there⟩ := holds
  simp only [List.drop_zero] at there
  constructor
  · rw [strlen, if_pos (by simp [there]), text, List.length_append, List.length_singleton]
  · refine ⟨fun member => clean (List.mem_append_left _ member), NUL :: junk, ?_⟩
    rw [List.drop_zero, there, List.append_assoc, List.set_append_right _ _ (Nat.le_refl _),
      Nat.sub_self]
    rfl

/-- What gets parsed is the text in the buffer without its last character. -/
theorem typed_text_iff (holds : Holds s.fgets.command 0 text) :
    typedText s = some line ↔ ∃ b, text = line ++ [b] := by
  unfold typedText
  rcases List.eq_nil_or_concat text with rfl | ⟨front, b, rfl⟩
  · have none_left : strlen s.fgets.command = some 0 := by
      have terminated : NUL ∈ s.fgets.command := by
        obtain ⟨-, junk, there⟩ := holds
        simp only [List.drop_zero] at there
        simp [there]
      simp only [strlen, if_pos terminated, cstr_of_holds holds, List.length_nil]
    simp [none_left]
  · simp only [List.concat_eq_append] at holds ⊢
    obtain ⟨length, rest⟩ := stripped_holds holds
    simp only [length, cstr_of_holds rest, Option.some.injEq]
    constructor
    · rintro rfl
      exact ⟨b, rfl⟩
    · rintro ⟨c, same⟩
      exact (List.append_inj' same rfl).1

/-- At the end of the input the text is the one the line before has left. -/
theorem typed_at_end (ended : s.stdin = []) (holds : Holds s.command 0 left) :
    typedText s = some line ↔ ∃ b, left = line ++ [b] := by
  have same : s.fgets = s := if_pos ended
  rw [← same] at holds
  exact typed_text_iff holds

/-- Before the end of the input `fgets` leaves what it took up to a NUL. -/
theorem fgets_holds {s : Shell} (some_input : s.stdin ≠ []) : Holds s.fgets.command 0
    ((getLine (MAX_COMMAND_LEN - 1) s.stdin).1.takeWhile fun b => b ≠ NUL) := by
  unfold Shell.fgets
  rw [if_neg some_input]
  dsimp only
  generalize s.command.drop _ = junk
  generalize (getLine (MAX_COMMAND_LEN - 1) s.stdin).1 = taken
  have text : cstr (taken ++ NUL :: junk) 0 = taken.takeWhile fun b => b ≠ NUL := by
    rw [cstr, List.drop_zero, take_while_stops (by simp)]
  rw [← text]
  exact holds_cstr (by simp)

theorem get_line_of_line (room : Nat) (line rest : List Byte) :
    (getLine room (line ++ NEWLINE :: rest)).1.length ≤ line.length + 1 := by
  induction line generalizing room with
  | nil => cases room <;> simp [getLine]
  | cons b line ih =>
    cases room with
    | zero => simp [getLine]
    | succ room =>
      rw [List.cons_append, getLine]
      split
      · simp
      · simpa using ih room

theorem get_line_of_input (room : Nat) (input : List Byte) :
    (getLine room input).1.length ≤ input.length := by
  induction input generalizing room with
  | nil => cases room <;> simp [getLine]
  | cons b input ih =>
    cases room with
    | zero => simp [getLine]
    | succ room =>
      rw [getLine]
      split
      · simp
      · simpa using ih room

/-- A text with a character behind it is longer. -/
theorem cut_length {text line : List Byte} (cut : text.takeWhile p = line ++ [b]) :
    line.length + 1 ≤ text.length := by
  have shorter := (List.takeWhile_sublist p (l := text)).length_le
  rwa [cut, List.length_append, List.length_singleton] at shorter

/-- A line with a newline is parsed as it is exactly when it is plain. -/
theorem typed_line_iff {s : Shell} (typed : s.stdin = line ++ NEWLINE :: rest) (one_line : NEWLINE ∉ line) :
    typedText s = some line ↔ Plain line := by
  have some_input : s.stdin ≠ [] := by simp [typed]
  rw [typed_text_iff (fgets_holds some_input), typed]
  constructor
  · rintro ⟨b, taken⟩
    have room := get_line_length (MAX_COMMAND_LEN - 1) (line ++ NEWLINE :: rest)
    have within := get_line_of_line (MAX_COMMAND_LEN - 1) line rest
    have shorter := cut_length taken
    have fits : line.length + 2 ≤ MAX_COMMAND_LEN := by
      unfold MAX_COMMAND_LEN at *
      omega
    refine ⟨fits, fun c member => ⟨?_, fun same => one_line (same ▸ member)⟩⟩
    have inside : c ∈ line ++ [b] := List.mem_append_left _ member
    rw [← taken] at inside
    simpa using List.mem_takeWhile_imp inside
  · intro plain
    refine ⟨NEWLINE, ?_⟩
    have fits := plain.fits
    rw [get_line_whole line rest (by omega) fun b member => (plain.text b member).2]
    apply take_while_all
    intro b member
    simp only [decide_eq_true_eq]
    rcases List.mem_append.mp member with inside | last
    · exact (plain.text b inside).1
    · rw [List.mem_singleton.mp last]
      decide

/-- A last line without a newline loses a character. -/
theorem unfinished_line {s : Shell} (some_input : s.stdin ≠ []) : typedText s ≠ some s.stdin := by
  rw [ne_eq, typed_text_iff (fgets_holds some_input)]
  rintro ⟨b, taken⟩
  have within := get_line_of_input (MAX_COMMAND_LEN - 1) s.stdin
  have shorter := cut_length taken
  omega

/-! ## What a round leaves in the buffer -/

/-- A call of `strtok` keeps the texts in front of its scan, which only goes
forward. -/
theorem strtok_front (holds : Holds mem position text) (front : position + text.length ≤ save) :
    Holds (strtok mem save).mem position text ∧
      position + text.length ≤ (strtok mem save).save := by
  unfold strtok
  dsimp only
  split
  · exact ⟨holds, by dsimp only; omega⟩
  · rename_i letter
    have positive := List.length_pos_iff.mpr letter
    split
    · exact ⟨holds_set holds (by omega), by dsimp only; omega⟩
    · exact ⟨holds, by dsimp only; omega⟩

/-- What the token loop leaves of the input and of a text in front of it. -/
theorem token_loop_front (kernel : Kernel) (rounds : Nat) (s : Shell) (token : Option Nat)
    (save argc : Nat) (holds : Holds s.command position text)
    (front : position + text.length ≤ save) :
    (tokenLoop kernel rounds s token save argc).1.stdin = s.stdin ∧
      Holds (tokenLoop kernel rounds s token save argc).1.command position text := by
  have next (mem : List Byte) (save : Nat)
      (good : Holds mem position text ∧ position + text.length ≤ save) :
      Holds (strtok mem save).mem position text ∧
        position + text.length ≤ (strtok mem save).save := strtok_front good.1 good.2
  obtain ⟨input, -, kept, -⟩ :=
    token_loop_keeps kernel next rounds s token save argc ⟨holds, front⟩
  exact ⟨input, kept⟩

theorem end_line_stdin (s : Shell) (argc : Nat) : (endLine s argc).stdin = s.stdin := by
  unfold endLine
  dsimp only
  split <;> rfl

theorem stale_spaces (all : ∀ b ∈ line, b = SPACE) : stale line = line := by
  have spaces : (line.takeWhile fun b => b = SPACE) = line :=
    take_while_all (by simpa using all)
  have behind : (line.dropWhile fun b => b = SPACE) = [] :=
    List.dropWhile_eq_nil_iff.mpr (by simpa using all)
  rw [stale, spaces, behind, List.takeWhile_nil, List.append_nil]

theorem stale_word (all : ∀ b ∈ spaces, b = SPACE) (letter : word ≠ []) (letters : SPACE ∉ word)
    (ending : tail = [] ∨ ∃ more, tail = SPACE :: more) :
    stale (spaces ++ word ++ tail) = spaces ++ word := by
  obtain ⟨first, others, rfl⟩ := List.exists_cons_of_ne_nil letter
  have not_space : first ≠ SPACE := fun same => letters (same ▸ List.mem_cons_self)
  have in_front : ∀ b ∈ spaces, decide (b = SPACE) = true := by simpa using all
  have in_word : ∀ b ∈ first :: others, decide (b ≠ SPACE) = true := by
    intro b member
    simp only [decide_eq_true_eq]
    rintro rfl
    exact letters member
  rw [stale, List.append_assoc, List.takeWhile_append_of_pos in_front,
    List.dropWhile_append_of_pos in_front, List.cons_append,
    List.takeWhile_cons_of_neg (by simpa using not_space),
    List.dropWhile_cons_of_neg (by simpa using not_space), List.append_nil,
    ← List.cons_append, List.takeWhile_append_of_pos in_word]
  rcases ending with rfl | ⟨more, rfl⟩ <;> simp

/-- The first call of `strtok` ends the text behind the first word. -/
theorem strtok_stale (holds : Holds mem 0 line) :
    Holds (strtok mem 0).mem 0 (stale line) ∧ (stale line).length ≤ (strtok mem 0).save := by
  rcases first_word line with ⟨none_left, all⟩ | ⟨spaces, word, tail, rfl, all, letter, letters,
    ending⟩
  · rw [strtok_none holds none_left, stale_spaces all]
    exact ⟨holds, Nat.le_add_left _ _⟩
  · have ended : tail = [] ∨ ∃ more, tail = SPACE :: more :=
      ending.imp And.left fun ⟨more, typed, _⟩ => ⟨more, typed⟩
    obtain ⟨clean, junk, there⟩ := id holds
    rw [stale_word all letter letters ended, strtok_scan clean all letters ended letter there]
    have size : (spaces ++ word).length = 0 + spaces.length + word.length := by
      simp only [List.length_append, Nat.zero_add]
    simp only [List.drop_zero] at there
    rw [← size, there]
    rcases ended with rfl | ⟨more, rfl⟩
    · have apart : NUL ≠ SPACE := by decide
      rw [if_neg (by simp [apart]), ← there]
      simp only [List.append_nil] at holds
      exact ⟨holds, Nat.le_refl _⟩
    · rw [if_pos (by simp), List.append_assoc _ (SPACE :: more),
        List.set_append_right _ _ (Nat.le_refl _), Nat.sub_self]
      refine ⟨⟨fun member => clean (List.mem_append_left _ member), more ++ NUL :: junk, rfl⟩, ?_⟩
      exact Nat.le_succ _

/-! ## Children -/

theorem redirect_started (kernel : Kernel) (s : Shell) (save : Nat) (append : Bool) :
    started (redirect kernel s save append) = started s := by
  unfold redirect started
  dsimp only
  split <;> simp [Event.starts]

theorem startPipe_started (kernel : Kernel) (s : Shell) :
    started (startPipe kernel s) = started s + 1 := by
  simp [startPipe, Shell.execute, started, Event.starts]

theorem end_line_started (s : Shell) (argc : Nat) :
    started (endLine s argc) = started s + if argc = 0 then 0 else 1 := by
  unfold endLine started
  dsimp only
  split <;> simp [Shell.execute, Event.starts]

/-- The loop takes back no child, and a word it has taken ends up in one: behind
the loop or at a pipe. -/
theorem token_loop_started (kernel : Kernel) (rounds : Nat) (s : Shell) (token : Option Nat)
    (save argc : Nat) :
    started s ≤ started (tokenLoop kernel rounds s token save argc).1 ∧
      (argc ≠ 0 → (tokenLoop kernel rounds s token save argc).2 = 0 →
        started s < started (tokenLoop kernel rounds s token save argc).1) := by
  have stays (t : Shell) (same : started t = started s) :
      started s ≤ started t ∧ (argc ≠ 0 → argc = 0 → started s < started t) :=
    ⟨same.ge, fun some_word none_left => absurd none_left some_word⟩
  induction rounds generalizing s token save argc with
  | zero => exact stays s rfl
  | succ rounds ih =>
    cases token with
    | none => exact stays s rfl
    | some position =>
      unfold tokenLoop
      split
      · split
        · exact stays _ (redirect_started kernel s save false)
        · split
          · exact stays _ (redirect_started kernel s save true)
          · split
            · -- a pipe has started a child
              have piped := startPipe_started kernel s
              have onward := (ih { startPipe kernel s with command := (strtok s.command save).mem }
                (strtok s.command save).token (strtok s.command save).save 0
                fun t same => ⟨same.ge, fun some_word => absurd rfl some_word⟩).1
              have more := piped ▸ onward
              exact ⟨Nat.le_of_succ_le more, fun _ _ => more⟩
            · -- a word is taken into `argv`
              have onward := ih { s with
                argv := Function.update s.argv argc (.token position)
                command := (strtok s.command save).mem }
                (strtok s.command save).token (strtok s.command save).save (argc + 1)
                fun t same => ⟨same.ge, fun _ none_left => absurd none_left (Nat.succ_ne_zero _)⟩
              exact ⟨onward.1, fun _ => onward.2 (Nat.succ_ne_zero _)⟩
      · exact stays s rfl

/-- The line starts a child exactly when its first word is no redirection. -/
theorem line_started_iff (kernel : Kernel) (rounds : Nat) (s : Shell) (some_round : 0 < rounds)
    (pending : Pending s.command token save (words line)) :
    started (endLine (tokenLoop kernel rounds s token save 0).1
        (tokenLoop kernel rounds s token save 0).2) = started s ↔ ¬ StartsChild line := by
  obtain ⟨rounds, rfl⟩ := Nat.exists_eq_succ_of_ne_zero some_round.ne'
  rw [end_line_started]
  cases split : words line with
  | nil =>
    rw [split] at pending
    have ended : token = none := pending
    simp [ended, tokenLoop, StartsChild, split]
  | cons word more =>
    rw [split] at pending
    obtain ⟨position, tail, rfl, holds, -⟩ := pending
    have room : 0 < MAX_ARGS - 1 := by decide
    unfold tokenLoop
    rw [if_pos room, cstr_of_holds holds]
    by_cases output : word = OUTPUT
    · simp [output, StartsChild, split, redirect_started]
    by_cases append : word = APPEND
    · have other : APPEND ≠ OUTPUT := by decide
      simp [append, other, StartsChild, split, redirect_started]
    have starts : StartsChild line := ⟨word, more, split, output, append⟩
    rw [if_neg output, if_neg append, iff_false_right (not_not_intro starts)]
    split
    · have onward := (token_loop_started kernel rounds
        { startPipe kernel s with command := (strtok s.command save).mem }
        (strtok s.command save).token (strtok s.command save).save 0).1
      have more := (startPipe_started kernel s).symm.trans_le onward
      exact (Nat.lt_of_lt_of_le (Nat.lt_of_succ_le more) (Nat.le_add_right _ _)).ne'
    · obtain ⟨kept, gained⟩ := token_loop_started kernel rounds { s with
        argv := Function.update s.argv 0 (.token position)
        command := (strtok s.command save).mem }
        (strtok s.command save).token (strtok s.command save).save (0 + 1)
      have grown := gained (Nat.succ_ne_zero 0)
      split
      · rename_i none_left
        exact (grown none_left).ne'
      · exact (Nat.lt_succ_of_le kept).ne'

/-! ## Rounds -/

/-- A plain line other than `exit` is run, and the next prompt has what its
children leave of the rest of the input and a stale text in the buffer. -/
theorem plain_round (kernel : Kernel) (children : Children) {s : Shell}
    (whole : s.command.length = MAX_COMMAND_LEN)
    (typed : s.stdin = line ++ NEWLINE :: rest) (plain : Plain line) (other : line ≠ EXIT) :
    ∃ t, nextRound kernel children s () = some t ∧
      (¬ StartsChild line → t.stdin = rest) ∧
      (StartsChild line → t.stdin = children (started t) rest) ∧
      t.command.length = MAX_COMMAND_LEN ∧ Holds t.command 0 (stale line) := by
  obtain ⟨mem, holds, read⟩ := read_loop_line kernel s line rest plain.fits plain.text
  rw [← typed] at read
  obtain ⟨kept, front⟩ := strtok_stale holds
  have stepped : nextPrompt kernel s () = some (endLine
      (tokenLoop kernel MAX_COMMAND_LEN { s with stdin := rest, command := (strtok mem 0).mem }
        (strtok mem 0).token (strtok mem 0).save 0).1
      (tokenLoop kernel MAX_COMMAND_LEN { s with stdin := rest, command := (strtok mem 0).mem }
        (strtok mem 0).token (strtok mem 0).save 0).2) := by
    rw [nextPrompt, read, runLine, if_neg (by rwa [cstr_of_holds holds])]
  obtain ⟨input, text⟩ := token_loop_front kernel MAX_COMMAND_LEN
    { s with stdin := rest, command := (strtok mem 0).mem } (strtok mem 0).token
    (strtok mem 0).save 0 kept (by rwa [Nat.zero_add])
  have childless_iff := line_started_iff kernel MAX_COMMAND_LEN
    { s with stdin := rest, command := (strtok mem 0).mem } (by decide) (pending_next holds).1
  have length := next_prompt_length kernel s () _ whole stepped
  rw [← end_line_command] at text
  rw [← end_line_stdin] at input
  generalize endLine _ _ = t at stepped input text childless_iff length
  unfold nextRound
  rw [stepped, Option.map_some]
  split
  · rename_i same
    have childless := childless_iff.mp same
    exact ⟨_, rfl, fun _ => input, fun starts => absurd starts childless, length, text⟩
  · rename_i more
    have starts : StartsChild line := not_not.mp fun childless => more (childless_iff.mpr childless)
    exact ⟨_, rfl, fun childless => absurd starts childless,
      fun _ => congrArg (children (started t)) input, length, text⟩

/-- Behind a line that starts no child on a shared input the rest is still there. -/
theorem rest_left {input : Input} {children : Children} {t : Shell}
    (allowed : input.Allows children)
    (childless : input = .shared → ¬ StartsChild line)
    (untouched : ¬ StartsChild line → t.stdin = rest)
    (touched : StartsChild line → t.stdin = children (started t) rest) : t.stdin = rest := by
  by_cases starts : StartsChild line
  · cases input with
    | own => exact (touched starts).trans (allowed (started t) rest)
    | shared => exact absurd starts (childless rfl)
  · exact untouched starts

/-- The loop is left exactly when the parsed text is `exit`. -/
theorem leaves_iff (kernel : Kernel) (s : Shell) :
    (∃ last, readLoop kernel s = .leaves last) ↔ typedText s = some EXIT := by
  unfold readLoop typedText
  dsimp only
  cases length : strlen s.fgets.command with
  | none => simp
  | some n =>
    cases n with
    | zero => simp
    | succ last =>
      by_cases text : cstr (s.fgets.command.set last NUL) 0 = EXIT
      · simp [runLine, text]
      · simp [runLine, text]

/-- The line `exit` ends the loop. -/
theorem exit_round (kernel : Kernel) {s : Shell} (typed : s.stdin = EXIT ++ NEWLINE :: rest) :
    ∃ last, readLoop kernel s = .leaves last := by
  rw [leaves_iff, typed_line_iff typed (plain_one_line plain_exit)]
  exact plain_exit

theorem next_round_leaves (children : Children) (left : readLoop kernel s = .leaves last) :
    nextRound kernel children s () = none := by
  rw [nextRound, nextPrompt, left]
  rfl

/-! ## Lines -/

theorem lines_from_line (one_line : NEWLINE ∉ line) (current rest : List Byte) :
    linesFrom current (line ++ NEWLINE :: rest) = (current ++ line) :: inputLines rest := by
  induction line generalizing current with
  | nil => simp [linesFrom, inputLines]
  | cons b line ih =>
    have letter : b ≠ NEWLINE := fun same => one_line (same ▸ List.mem_cons_self)
    have more : NEWLINE ∉ line := fun member => one_line (List.mem_cons_of_mem _ member)
    rw [List.cons_append, linesFrom, if_neg letter, ih more, List.append_assoc,
      List.singleton_append]

theorem lines_from_unfinished (one_line : NEWLINE ∉ input) (current : List Byte)
    (some_byte : current ++ input ≠ []) : linesFrom current input = [current ++ input] := by
  induction input generalizing current with
  | nil =>
    simp only [List.append_nil] at some_byte ⊢
    rw [linesFrom, if_neg some_byte]
  | cons b input ih =>
    have letter : b ≠ NEWLINE := fun same => one_line (same ▸ List.mem_cons_self)
    have more : NEWLINE ∉ input := fun member => one_line (List.mem_cons_of_mem _ member)
    rw [linesFrom, if_neg letter, ih more _ (by simp), List.append_assoc, List.singleton_append]

/-! ## Runs -/

/-- A round and the rounds behind it. -/
theorem lines_served_iff (kernel : Kernel) (children : Children) {s t : Shell}
    (stepped : nextRound kernel children s () = some t)
    (lines : inputLines s.stdin = line :: inputLines t.stdin) :
    LinesServed kernel children s ↔
      RoundServes kernel s (some line) ∧ LinesServed kernel children t := by
  constructor
  · intro served
    constructor
    · have first := served [] s rfl
      rwa [lines] at first
    · intro rounds u ran
      have later := served (() :: rounds) u (exec_cons_some.mpr ⟨t, stepped, ran⟩)
      rwa [lines, List.length_cons, List.getElem?_cons_succ] at later
  · rintro ⟨first, later⟩ rounds u ran
    rw [lines]
    cases rounds with
    | nil =>
      cases ran
      exact first
    | cons round rounds =>
      obtain ⟨middle, step, onward⟩ := exec_cons_some.mp ran
      rw [stepped] at step
      cases step
      exact later rounds u onward

/-- A prompt at which the loop is left is the last one. -/
theorem lines_served_last (kernel : Kernel) (children : Children) {s : Shell}
    (left : readLoop kernel s = .leaves last)
    (serves : RoundServes kernel s (inputLines s.stdin)[0]?) : LinesServed kernel children s := by
  intro rounds u ran
  cases rounds with
  | nil =>
    cases ran
    exact serves
  | cons round rounds =>
    obtain ⟨middle, step, -⟩ := exec_cons_some.mp ran
    rw [next_round_leaves children left] at step
    cases step

/-- Parsing the right line is all a round has to do. -/
theorem round_serves_line (kernel : Kernel) {s : Shell} (whole : s.command.length = MAX_COMMAND_LEN)
    (typed : s.stdin = line ++ NEWLINE :: rest) (one_line : NEWLINE ∉ line) :
    RoundServes kernel s (some line) ↔ Plain line := by
  rw [RoundServes, writes_inside_iff whole, ← typed_line_iff typed one_line, and_iff_right_iff_imp]
  intro text
  rw [text, Option.isSome_some]

/-- A round fails when a child has left it a NUL. -/
theorem nul_not_served (kernel : Kernel) {s : Shell} (whole : s.command.length = MAX_COMMAND_LEN)
    (given : s.stdin = [NUL]) (due : Option (List Byte)) : ¬ RoundServes kernel s due := by
  rintro ⟨inside, -⟩
  obtain ⟨line, text⟩ := Option.isSome_iff_exists.mp ((writes_inside_iff whole).mp inside)
  have some_input : s.stdin ≠ [] := by simp [given]
  obtain ⟨b, taken⟩ := (typed_text_iff (fgets_holds some_input)).mp text
  have nothing : (getLine (MAX_COMMAND_LEN - 1) s.stdin).1 = [NUL] := by
    rw [given]
    rfl
  simp [nothing] at taken

/-- The rounds of a served input, by induction on the way it is served. -/
theorem served_runs (kernel : Kernel) (allowed : input.Allows children)
    (served : Served input left stdin) (s : Shell)
    (typed : s.stdin = stdin) (whole : s.command.length = MAX_COMMAND_LEN)
    (stale_text : stdin = [] → Holds s.command 0 left) :
    LinesServed kernel children s ∧ LoopEnds kernel children s := by
  induction served generalizing s with
  | @exits stdin rest left exit_typed =>
    have one_line := plain_one_line plain_exit
    rw [exit_typed] at typed
    obtain ⟨last, leaves⟩ := exit_round kernel typed
    refine ⟨lines_served_last kernel children leaves ?_, s, last, reachable_refl s, leaves⟩
    simp only [typed, inputLines, lines_from_line one_line]
    exact (round_serves_line kernel whole typed one_line).mpr plain_exit
  | @line stdin line rest left line_typed plain other childless later ih =>
    have one_line := plain_one_line plain
    rw [line_typed] at typed
    obtain ⟨t, stepped, untouched, touched, size, text⟩ :=
      plain_round kernel children whole typed plain other
    have left_input := rest_left allowed childless untouched touched
    obtain ⟨lines, last_prompt, last, reached, leaves⟩ := ih t left_input size fun _ => text
    refine ⟨(lines_served_iff kernel children stepped ?_).mpr
      ⟨(round_serves_line kernel whole typed one_line).mpr plain, lines⟩,
      last_prompt, last, reachable_cons stepped reached, leaves⟩
    simp only [typed, left_input, inputLines, lines_from_line one_line, List.nil_append]
  | @ends left b left_over =>
    have text := (typed_at_end typed (stale_text rfl)).mpr ⟨b, left_over⟩
    obtain ⟨last, leaves⟩ := (leaves_iff kernel s).mpr text
    refine ⟨lines_served_last kernel children leaves ?_, s, last, reachable_refl s, leaves⟩
    simp only [typed]
    exact ⟨(writes_inside_iff whole).mpr (by rw [text, Option.isSome_some]), last, leaves⟩

/-- Conversely an input whose lines are all served is one of these, by
induction on its length. The worst children leave a NUL of a shared input. -/
theorem served_of_lines (kernel : Kernel) (allowed : input.Allows children)
    (worst : input = .shared → ∀ count left, children count left = [NUL]) (length : Nat)
    (s : Shell) (size : s.stdin.length = length) (whole : s.command.length = MAX_COMMAND_LEN)
    (holds : Holds s.command 0 left) (served : LinesServed kernel children s) :
    Served input left s.stdin := by
  induction length using Nat.strong_induction_on generalizing s left with
  | _ length ih =>
    have first := served [] s rfl
    by_cases ended : s.stdin = []
    · rw [ended] at first ⊢
      obtain ⟨-, leaves⟩ := first
      obtain ⟨b, left_over⟩ := (typed_at_end ended holds).mp ((leaves_iff kernel s).mp leaves)
      exact .ends left_over
    by_cases newline : NEWLINE ∈ s.stdin
    · obtain ⟨line, rest, typed, one_line⟩ := List.eq_append_cons_of_mem newline
      have lines : inputLines s.stdin = line :: inputLines rest := by
        simp only [typed, inputLines, lines_from_line one_line, List.nil_append]
      rw [lines] at first
      have plain := (round_serves_line kernel whole typed one_line).mp first
      by_cases exits : line = EXIT
      · exact .exits (exits ▸ typed)
      obtain ⟨t, stepped, untouched, touched, kept, text⟩ :=
        plain_round kernel children whole typed plain exits
      have childless : input = .shared → ¬ StartsChild line := by
        intro shared starts
        have next := served [()] t (exec_cons_some.mpr ⟨t, stepped, rfl⟩)
        exact nul_not_served kernel kept ((touched starts).trans (worst shared _ _)) _ next
      have left_input := rest_left allowed childless untouched touched
      rw [← left_input] at lines
      have later := ((lines_served_iff kernel children stepped lines).mp served).2
      have shorter : t.stdin.length < length := by
        simp only [← size, typed, left_input, List.length_append, List.length_cons]
        omega
      exact .line typed plain exits childless (left_input ▸ ih _ shorter t rfl kept text later)
    · have only : inputLines s.stdin = [s.stdin] :=
        lines_from_unfinished newline [] (by rwa [List.nil_append])
      rw [only] at first
      exact absurd first.2 (unfinished_line ended)

/-- Of a shared input children may leave a NUL, of the shell's own all of it. -/
def worstChildren : Input → Children
  | .own => fun _ left => left
  | .shared => fun _ _ => [NUL]

/-- The shell handles exactly these inputs, whatever the kernel answers. -/
theorem handles_input_iff (kernel : Kernel) (input : Input) (stdin : List Byte) :
    HandlesInput kernel input stdin ↔ Served input [] stdin := by
  constructor
  · intro handles
    have zeros : Holds zeroed.bytes 0 [] :=
      ⟨nofun, List.replicate (MAX_COMMAND_LEN - 1) NUL, rfl⟩
    have allowed : input.Allows (worstChildren input) := by
      cases input with
      | own => exact fun _ _ => rfl
      | shared => trivial
    have worst : input = .shared → ∀ count left, worstChildren input count left = [NUL] := by
      rintro rfl count left
      rfl
    exact served_of_lines kernel allowed worst _ (startShell stdin zeroed.bytes fun _ => .wild) rfl
      zeroed.size zeros (handles _ allowed zeroed fun _ => .wild).1
  · intro served children allowed command argv
    refine served_runs kernel allowed served _ rfl command.size fun ended => ?_
    subst ended
    generalize nothing : ([] : List Byte) = stdin at served
    cases served with
    | exits typed => simp [← nothing] at typed
    | line typed => simp [← nothing] at typed
    | ends left_over => simp at left_over

/-- `ls` -/
def listing : List Byte := [108#8, 115#8, NEWLINE]

/-- After `ls` and the end of the input the shell goes on with `l`. -/
theorem end_of_input_runs_stale_text :
    ¬ ∀ (kernel : Kernel) (input : Input) (stdin : List Byte),
      HandlesInput kernel input stdin := by
  intro handles
  have stale_text : (exec (nextRound oneFile.toKernel (worstChildren .own))
      (startShell listing zeroed.bytes fun _ => .wild) [()]).bind typedText = some [108#8] := by
    decide
  obtain ⟨t, ran, text⟩ := Option.bind_eq_some_iff.mp stale_text
  have last := (handles oneFile.toKernel .own listing (worstChildren .own) (fun _ _ => rfl)
    zeroed fun _ => .wild).1 [()] t ran
  have leaves := (leaves_iff oneFile.toKernel t).mp last.2
  rw [text] at leaves
  exact absurd leaves (by decide)

end OsCourse.ShellInput

import Mathlib.Algebra.Ring.Nat
import OsCourse.ShellInput
import OsCourse.Simulation

/-! `basic_shell.c`: the read loop without an exit, in which the child of a
command that cannot be executed goes on with the loop as a shell of its own. The
bytes a process gets from `fgets` are its `stdin`. -/
namespace OsCourse.BasicShell
open Stdio CString Transition Simulation
open StShell (NEWLINE getLine strlen)
open ShellInput (stale)

/-- `char *argv[10]` -/
def ARGV_SIZE : Nat := 10

/-- `char command[1024]` -/
def COMMAND_SIZE : Nat := 1024

structure Shell where
  stdin : List Byte
  command : List Byte

/-- `fgets(command, 1024, stdin)`, which leaves the buffer alone at the end of
the input. -/
def Shell.fgets (s : Shell) : Shell :=
  if s.stdin = [] then s
  else
    let line := (getLine (COMMAND_SIZE - 1) s.stdin).1
    ⟨(getLine (COMMAND_SIZE - 1) s.stdin).2, line ++ NUL :: s.command.drop (line.length + 1)⟩

/-- The loop over the tokens and the null pointer behind them: the entries of
`argv` and the buffer, where `argv` has so many entries left. -/
def parse : (left : Nat) → (mem : List Byte) → (token : Option Nat) → (save : Nat) →
    Option (List Nat × List Byte)
  | 0, _, _, _ => none
  | _ + 1, mem, none, _ => some ([], mem)
  | left + 1, mem, some token, save =>
    let next := strtok mem save
    (parse left next.mem next.token next.save).map fun (argv, mem) => (token :: argv, mem)

/-- An access outside of the arrays: `strlen` reads behind a `command` without
terminator, the write at `strlen(command) - 1` goes in front of an empty one, and
`argv` has no entry left for a token or the null pointer. -/
inductive Access where
  | behindCommand
  | inFrontOfCommand
  | behindArgv
  deriving DecidableEq

/-- How a round ends: at the next prompt, behind a `fork` for a command, or with
an access outside of `command` or `argv`. -/
inductive Round where
  | prompts (s : Shell)
  | forks (argv : List (List Byte)) (s : Shell)
  | faults (access : Access)

def round (s : Shell) : Round :=
  let s := s.fgets
  match strlen s.command with
  | none => .faults .behindCommand
  | some 0 => .faults .inFrontOfCommand
  | some (last + 1) =>
    let mem := s.command.set last NUL
    let first := strtok mem 0
    match parse ARGV_SIZE first.mem first.token first.save with
    | none => .faults .behindArgv
    | some ([], mem) => .prompts { s with command := mem }
    | some (argv, mem) => .forks (argv.map (cstr mem)) { s with command := mem }

/-- A shell process from prompt to prompt. It does not wait for its children. -/
def nextPrompt (s : Shell) (_ : Unit) : Option Shell :=
  match round s with
  | .prompts t | .forks _ t => some t
  | .faults _ => none

/-- The commands a child is made for in a round. -/
def forked (s : Shell) (_ : Unit) : List (List (List Byte)) :=
  match round s with
  | .forks argv _ => [argv]
  | .prompts _ | .faults _ => []

/-- The shells that come to their fault, of this process and of its children and
theirs, in so many rounds. A child whose `execvp` finds the command is no shell. -/
def faulting (found : List (List Byte) → Bool) : (rounds : Nat) → Shell → Nat
  | 0, _ => 0
  | rounds + 1, s =>
    match round s with
    | .faults _ => 1
    | .prompts t => faulting found rounds t
    | .forks argv t =>
      faulting found rounds t + if found argv then 0 else faulting found rounds t

/-! ## One round -/

/-- The loop takes one word after the other. It needs an entry for each and one
for the null pointer. -/
theorem parse_words (left : Nat) {mem : List Byte} (holds : Holds mem save text) :
    (left ≤ (words text).length → parse left (strtok mem save).mem (strtok mem save).token
      (strtok mem save).save = none) ∧
    ((words text).length < left → ∃ argv final,
      parse left (strtok mem save).mem (strtok mem save).token (strtok mem save).save =
        some (argv, final) ∧ argv.map (cstr final) = words text ∧
      ∀ position other, position + other.length ≤ (strtok mem save).save →
        Holds (strtok mem save).mem position other → Holds final position other) := by
  induction left generalizing mem save text with
  | zero => exact ⟨fun _ => rfl, fun none_left => absurd none_left (Nat.not_lt_zero _)⟩
  | succ left ih =>
    cases split : words text with
    | nil =>
      rw [strtok_none holds split]
      refine ⟨fun more => absurd more (Nat.not_succ_le_zero _), fun _ => ?_⟩
      exact ⟨[], mem, rfl, rfl, fun _ _ _ kept => kept⟩
    | cons word more =>
      obtain ⟨start, tail, token, -, own, scan, rfl, before, -⟩ := strtok_some holds split
      obtain ⟨full, fits⟩ := ih scan
      rw [token]
      simp only [parse, List.length_cons, Option.map_eq_none_iff, Nat.succ_le_succ_iff,
        Nat.succ_lt_succ_iff]
      refine ⟨full, fun room => ?_⟩
      obtain ⟨argv, final, parsed, rest, kept⟩ := fits room
      obtain ⟨-, longer, front⟩ := ShellPipeline.pending_next scan
      refine ⟨start :: argv, final, ?_, ?_, fun position other fits there => ?_⟩
      · rw [parsed]
        rfl
      · have first : Holds final start word := kept start word (by omega) (front start word before own)
        rw [List.map_cons, rest, cstr_of_holds first]
      · exact kept position other (by omega) (front position other fits there)

/-- The round behind a text in the buffer: its last character is stripped and
the words of the rest are the command. -/
theorem round_text {s : Shell} (holds : Holds s.fgets.command 0 (line ++ [b])) :
    (ARGV_SIZE ≤ (words line).length → round s = .faults .behindArgv) ∧
    ((words line).length < ARGV_SIZE → ∃ t, t.stdin = s.fgets.stdin ∧
      Holds t.command 0 (stale line) ∧
      round s = if words line = [] then .prompts t else .forks (words line) t) := by
  obtain ⟨length, stripped⟩ := ShellInput.stripped_holds holds
  obtain ⟨text, front⟩ := ShellInput.strtok_stale stripped
  obtain ⟨full, fits⟩ := parse_words ARGV_SIZE stripped
  refine ⟨fun more => ?_, fun room => ?_⟩
  · simp only [round, length, full more]
  · obtain ⟨argv, final, parsed, given, kept⟩ := fits room
    refine ⟨{ s.fgets with command := final }, rfl, kept 0 _ (by omega) text, ?_⟩
    cases argv with
    | nil =>
      have nothing : words line = [] := given.symm
      simp only [round, length, parsed, nothing, ↓reduceIte]
    | cons token others =>
      have some_word : words line ≠ [] := by
        rw [← given]
        exact List.cons_ne_nil _ _
      simp only [round, length, parsed, given, if_neg some_word]

theorem round_empty {s : Shell} (holds : Holds s.fgets.command 0 []) :
    round s = .faults .inFrontOfCommand := by
  have terminated : NUL ∈ s.fgets.command := by
    obtain ⟨-, junk, there⟩ := holds
    simp only [List.drop_zero] at there
    simp [there]
  have length : strlen s.fgets.command = some 0 := by
    simp only [strlen, if_pos terminated, cstr_of_holds holds, List.length_nil]
  simp only [round, length]

/-- What such a round is to the process, to its children and to the shells that
come of it. -/
theorem round_made {command : List (List Byte)}
    (ran : round s = if command = [] then .prompts t else .forks command t) :
    nextPrompt s () = some t ∧ forked s () = (if command = [] then [] else [command]) ∧
      ∀ found rounds, faulting found (rounds + 1) s = faulting found rounds t +
        if command = [] ∨ found command then 0 else faulting found rounds t := by
  by_cases nothing : command = []
  · rw [if_pos nothing] at ran
    simp only [nextPrompt, forked, faulting, ran, nothing, ↓reduceIte, true_or, Nat.add_zero,
      implies_true, and_self]
  · rw [if_neg nothing] at ran
    simp only [nextPrompt, forked, faulting, ran, nothing, ↓reduceIte, false_or, implies_true,
      and_self]

/-- A round comes back only where there was a character to strip. -/
theorem round_goes_on {s t : Shell} (stepped : nextPrompt s () = some t) :
    ∃ line b, Holds s.fgets.command 0 (line ++ [b]) ∧ t.stdin = s.fgets.stdin ∧
      Holds t.command 0 (stale line) := by
  by_cases terminated : NUL ∈ s.fgets.command
  · have holds := holds_cstr terminated
    rcases List.eq_nil_or_concat (cstr s.fgets.command 0) with nothing | ⟨line, b, text⟩
    · rw [nothing] at holds
      simp only [nextPrompt, round_empty holds, reduceCtorEq] at stepped
    · rw [text, List.concat_eq_append] at holds
      obtain ⟨full, fits⟩ := round_text holds
      rcases Nat.lt_or_ge (words line).length ARGV_SIZE with room | more
      · obtain ⟨u, input, left, ran⟩ := fits room
        rw [(round_made ran).1] at stepped
        cases stepped
        exact ⟨line, b, holds, input, left⟩
      · simp only [nextPrompt, full more, reduceCtorEq] at stepped
  · have length : strlen s.fgets.command = none := if_neg terminated
    simp only [nextPrompt, round, length, reduceCtorEq] at stepped

theorem stuck_iff (s : Shell) : Stuck nextPrompt s ↔ ∃ access, round s = .faults access := by
  constructor
  · intro stuck
    have nothing := stuck ()
    cases ran : round s with
    | faults access => exact ⟨access, rfl⟩
    | prompts t => simp only [nextPrompt, ran, reduceCtorEq] at nothing
    | forks argv t => simp only [nextPrompt, ran, reduceCtorEq] at nothing
  · rintro ⟨access, faults⟩ a
    simp only [nextPrompt, faults]

/-! ## Every run comes to its fault -/

theorem get_line_split (room : Nat) (input : List Byte) :
    (getLine room input).1 ++ (getLine room input).2 = input := by
  induction input generalizing room with
  | nil => cases room <;> rfl
  | cons b input ih =>
    cases room with
    | zero => rfl
    | succ room =>
      rw [getLine]
      split
      · rfl
      · rw [List.cons_append, ih]

theorem get_line_takes {input : List Byte} (some_input : input ≠ []) (room : Nat) :
    (getLine (room + 1) input).2.length < input.length := by
  obtain ⟨b, rest, rfl⟩ := List.exists_cons_of_ne_nil some_input
  have split := congrArg List.length (get_line_split (room + 1) (b :: rest))
  have taken : 0 < (getLine (room + 1) (b :: rest)).1.length := by
    rw [getLine]
    split <;> exact Nat.succ_pos _
  rw [List.length_append] at split
  omega

theorem stale_length (line : List Byte) : (stale line).length ≤ line.length := by
  have split := congrArg List.length
    (List.takeWhile_append_dropWhile (p := fun b => decide (b = SPACE)) (l := line))
  have shorter := (List.takeWhile_sublist (fun b => decide (b ≠ SPACE))
    (l := line.dropWhile fun b => decide (b = SPACE))).length_le
  rw [List.length_append] at split
  rw [stale, List.length_append]
  omega

/-- The input that is left counts more than what the buffer can hold. -/
def toGo (s : Shell) : Nat := s.stdin.length * COMMAND_SIZE + (cstr s.command 0).length

theorem round_onward {s t : Shell} (stepped : nextPrompt s () = some t) : toGo t < toGo s := by
  obtain ⟨line, b, holds, input, left⟩ := round_goes_on stepped
  have text := stale_length line
  unfold toGo
  rw [input, cstr_of_holds left]
  by_cases ended : s.stdin = []
  · have same : s.fgets = s := if_pos ended
    rw [same] at holds ⊢
    rw [cstr_of_holds holds, List.length_append, List.length_singleton]
    omega
  · have taken : s.fgets = ⟨(getLine (COMMAND_SIZE - 1) s.stdin).2,
        (getLine (COMMAND_SIZE - 1) s.stdin).1 ++
          NUL :: s.command.drop ((getLine (COMMAND_SIZE - 1) s.stdin).1.length + 1)⟩ := if_neg ended
    have fewer : (getLine (COMMAND_SIZE - 1) s.stdin).2.length < s.stdin.length :=
      get_line_takes ended (COMMAND_SIZE - 2)
    have room := ShellDescriptors.get_line_length (COMMAND_SIZE - 1) s.stdin
    have within : (line ++ [b]).length ≤ (getLine (COMMAND_SIZE - 1) s.stdin).1.length := by
      rw [← cstr_of_holds holds, taken, cstr, List.drop_zero, take_while_stops (by simp)]
      exact (List.takeWhile_sublist _).length_le
    rw [taken]
    rw [List.length_append, List.length_singleton] at within
    have size : COMMAND_SIZE = 1024 := rfl
    simp only [size] at fewer room within ⊢
    omega

/-- No input ends a shell process in any other way: it never leaves its loop, and
after finitely many rounds it reads or writes outside of its arrays. -/
theorem every_process_faults (stdin command : List Byte) :
    ∃ t, Reachable nextPrompt ⟨stdin, command⟩ t ∧ ∃ access, round t = .faults access := by
  have kept (s : Shell) (a : Unit) (t : Shell) (_ : True) (_ : nextPrompt s a = some t) : True :=
    trivial
  have onward (s : Shell) (a : Unit) (t : Shell) (_ : True) (stepped : nextPrompt s a = some t) :
      toGo t < toGo s := round_onward stepped
  obtain ⟨t, reached, stuck⟩ := stuck_reachable kept onward (s := ⟨stdin, command⟩) trivial
  exact ⟨t, reached, (stuck_iff t).mp stuck⟩

/-! ## Lines that fit, and the end of the input -/

/-- A line that fits the buffer with its newline and terminator, whose words fit
`argv` with the null pointer. -/
structure Fits (line : List Byte) : Prop where
  room : line.length + 2 ≤ COMMAND_SIZE
  text : ∀ b ∈ line, b ≠ NUL ∧ b ≠ NEWLINE
  entries : (words line).length < ARGV_SIZE

/-- The lines as they are typed. -/
def typed (lines : List (List Byte)) : List Byte := lines.flatMap (· ++ [NEWLINE])

/-- The lines that are no command are passed over. -/
def commands (lines : List (List Byte)) : List (List (List Byte)) :=
  (lines.map words).filter (· ≠ [])

/-- A word without its last character, without its last two, and so on. -/
def shortened (word : List Byte) : List (List Byte) :=
  (List.range' 1 (word.length - 1)).reverse.map word.take

/-- The first word of a line, if any. -/
def firstWord (line : List Byte) : List Byte := (words line).head?.getD []

/-- The rounds of the shell that many times. -/
def rounds (n : Nat) : List Unit := List.replicate n ()

theorem shortened_snoc (front : List Byte) (b : Byte) :
    shortened (front ++ [b]) = if front = [] then [] else front :: shortened front := by
  have whole : (front ++ [b]).length - 1 = front.length := by
    rw [List.length_append, List.length_singleton, Nat.add_sub_cancel]
  have prefixes (k : Nat) (member : k ∈ List.range' 1 front.length) :
      (front ++ [b]).take k = front.take k := by
    apply List.take_append_of_le_length
    have := List.mem_range'_1.mp member
    omega
  have same : shortened (front ++ [b]) =
      (List.range' 1 front.length).reverse.map front.take := by
    rw [shortened, whole]
    apply List.map_congr_left
    intro k member
    exact prefixes k (List.mem_reverse.mp member)
  rw [same, shortened]
  by_cases nothing : front = []
  · simp [nothing]
  · obtain ⟨n, size⟩ : ∃ n, front.length = n + 1 :=
      ⟨front.length - 1, by have := List.length_pos_iff.mpr nothing; omega⟩
    rw [if_neg nothing, size, List.range'_concat, List.reverse_append, List.map_append,
      Nat.add_sub_cancel]
    simp
    omega

theorem words_spaces (all : ∀ b ∈ spaces, b = SPACE) (text : List Byte) :
    words (spaces ++ text) = words text := by
  induction spaces with
  | nil => rfl
  | cons b rest ih =>
    obtain rfl := all b List.mem_cons_self
    rw [List.cons_append, words_space, ih fun c member => all c (List.mem_cons_of_mem _ member)]

/-- What `strtok` leaves of a line is spaces and its first word. -/
theorem stale_shape (line : List Byte) : ∃ spaces, stale line = spaces ++ firstWord line ∧
    (∀ b ∈ spaces, b = SPACE) ∧ SPACE ∉ firstWord line := by
  rcases first_word line with ⟨none_left, all⟩ | ⟨spaces, word, tail, rfl, all, letter, letters,
    ending⟩
  · refine ⟨line, ?_, all, ?_⟩ <;> rw [firstWord, none_left]
    · rw [ShellInput.stale_spaces all]
      exact (List.append_nil line).symm
    · exact List.not_mem_nil
  · have ended : tail = [] ∨ ∃ more, tail = SPACE :: more :=
      ending.imp And.left fun ⟨more, typed, _⟩ => ⟨more, typed⟩
    have first : firstWord (spaces ++ word ++ tail) = word := by
      rcases ending with ⟨-, only⟩ | ⟨more, -, split⟩
      · rw [firstWord, only]
        rfl
      · rw [firstWord, split]
        rfl
    rw [first]
    exact ⟨spaces, ShellInput.stale_word all letter letters ended, all, letters⟩

/-- Such a text is left as it is. -/
theorem stale_kept (all : ∀ b ∈ spaces, b = SPACE) (letters : SPACE ∉ word) :
    stale (spaces ++ word) = spaces ++ word ∧
      words (spaces ++ word) = if word = [] then [] else [word] := by
  rw [words_spaces all]
  by_cases nothing : word = []
  · rw [nothing, List.append_nil]
    exact ⟨ShellInput.stale_spaces all, rfl⟩
  · have kept := ShellInput.stale_word all nothing letters (Or.inl rfl)
    rw [List.append_nil] at kept
    rw [if_neg nothing]
    exact ⟨kept, (words_word letters nothing []).1⟩

/-- In so many rounds the process comes to its fault: nothing is left to strip.
It has forked for these commands, and so many shells end like it, depending on
what can be executed. -/
structure Ends (s : Shell) (n : Nat) (made : List (List (List Byte)))
    (shells : (List (List Byte) → Bool) → Nat) : Prop where
  faults : ∃ t, exec nextPrompt s (rounds n) = some t ∧ round t = .faults .inFrontOfCommand
  made : trace nextPrompt forked s (rounds n) = made
  shells : ∀ found more, n < more → faulting found more s = shells found

theorem ends_here {s : Shell} (ended : s.stdin = []) (holds : Holds s.command 0 []) :
    Ends s 0 [] fun _ => 1 := by
  have same : s.fgets = s := if_pos ended
  have faults : round s = .faults .inFrontOfCommand := round_empty (by rwa [same])
  refine ⟨⟨s, rfl, faults⟩, rfl, fun found more room => ?_⟩
  obtain ⟨n, rfl⟩ : ∃ n, more = n + 1 := ⟨more - 1, by omega⟩
  rw [faulting, faults]

/-- A round in front. A command that cannot be executed doubles the shells. -/
theorem ends_behind {command : List (List Byte)}
    (ran : round s = if command = [] then .prompts t else .forks command t)
    (ends : Ends t n made shells) :
    Ends s (n + 1) ((if command = [] then [] else [command]) ++ made) fun found =>
      if command = [] ∨ found command then shells found else 2 * shells found := by
  obtain ⟨stepped, forks, counted⟩ := round_made ran
  obtain ⟨u, onward, faults⟩ := ends.faults
  refine ⟨⟨u, exec_cons_some.mpr ⟨t, stepped, onward⟩, faults⟩, ?_, fun found more room => ?_⟩
  · rw [← forks, ← ends.made]
    exact trace_cons stepped
  · obtain ⟨left, rfl⟩ : ∃ left, more = left + 1 := ⟨more - 1, by omega⟩
    rw [counted found left, ends.shells found left (Nat.lt_of_succ_lt_succ room)]
    split
    · rfl
    · rw [Nat.two_mul]

theorem spaces_end {s : Shell} (ended : s.stdin = []) (all : ∀ b ∈ spaces, b = SPACE)
    (holds : Holds s.command 0 spaces) : Ends s spaces.length [] fun _ => 1 := by
  induction spaces using List.reverseRecOn generalizing s with
  | nil => exact ends_here ended holds
  | append_singleton front b ih =>
    have others : ∀ c ∈ front, c = SPACE := fun c member => all c (List.mem_append_left _ member)
    have letters : SPACE ∉ ([] : List Byte) := List.not_mem_nil
    obtain ⟨kept, nothing⟩ := stale_kept others letters
    rw [List.append_nil, if_pos rfl] at nothing
    rw [List.append_nil] at kept
    have same : s.fgets = s := if_pos ended
    rw [← same] at holds
    obtain ⟨t, input, left, ran⟩ := (round_text holds).2 (by rw [nothing]; decide)
    rw [same] at input
    rw [kept] at left
    have behind := ends_behind ran (ih (input.trans ended) others left)
    simp only [nothing, ↓reduceIte, List.nil_append, true_or] at behind
    rw [List.length_append]
    exact behind

/-- At the end of the input each round strips a character off the same word. -/
theorem word_ends {s : Shell} (ended : s.stdin = []) (all : ∀ b ∈ spaces, b = SPACE)
    (letters : SPACE ∉ word) (holds : Holds s.command 0 (spaces ++ word)) :
    Ends s (spaces ++ word).length ((shortened word).map ([·])) fun found =>
      2 ^ (shortened word).countP fun command => !found [command] := by
  induction word using List.reverseRecOn generalizing s with
  | nil =>
    rw [List.append_nil] at holds ⊢
    exact spaces_end ended all holds
  | append_singleton front b ih =>
    have others : SPACE ∉ front := fun member => letters (List.mem_append_left _ member)
    obtain ⟨kept, parsed⟩ := stale_kept all others
    have room : (words (spaces ++ front)).length < ARGV_SIZE := by
      rw [parsed]
      split <;> simp [ARGV_SIZE]
    have same : s.fgets = s := if_pos ended
    rw [← same, ← List.append_assoc] at holds
    obtain ⟨t, input, left, ran⟩ := (round_text holds).2 room
    rw [same] at input
    rw [kept] at left
    have behind := ends_behind ran (ih (input.trans ended) others left)
    rw [parsed] at behind
    have size : (spaces ++ (front ++ [b])).length = (spaces ++ front).length + 1 := by
      rw [← List.append_assoc]
      exact List.length_append
    rw [shortened_snoc, size]
    by_cases nothing : front = []
    · subst nothing
      exact behind
    · simp only [nothing, ↓reduceIte, List.cons_ne_nil, false_or] at behind ⊢
      refine ⟨behind.faults, behind.made, fun found more room => ?_⟩
      rw [behind.shells found more room, List.countP_cons]
      cases found [front] with
      | true => simp
      | false =>
        simp only [Bool.false_eq_true, ↓reduceIte, Bool.not_false]
        rw [pow_succ, mul_comm]

/-- A line that fits is read, and its words are the command. -/
theorem line_round (s : Shell) (fits : Fits line) (input : s.stdin = line ++ NEWLINE :: rest) :
    ∃ t, t.stdin = rest ∧ Holds t.command 0 (stale line) ∧
      round s = if words line = [] then .prompts t else .forks (words line) t := by
  have some_input : s.stdin ≠ [] := by simp [input]
  have whole : getLine (COMMAND_SIZE - 1) (line ++ NEWLINE :: rest) = (line ++ [NEWLINE], rest) := by
    apply ShellPipeline.get_line_whole
    · have := fits.room
      omega
    · exact fun b member => (fits.text b member).2
  have taken : s.fgets =
      ⟨rest, line ++ [NEWLINE] ++ NUL :: s.command.drop ((line ++ [NEWLINE]).length + 1)⟩ := by
    rw [Shell.fgets, if_neg some_input, input, whole]
  have holds : Holds s.fgets.command 0 (line ++ [NEWLINE]) := by
    rw [taken]
    refine ⟨?_, _, rfl⟩
    rw [List.mem_append, not_or]
    refine ⟨fun member => (fits.text NUL member).1 rfl, ?_⟩
    decide
  obtain ⟨t, left, text, ran⟩ := (round_text holds).2 fits.entries
  refine ⟨t, ?_, text, ran⟩
  rw [left, taken]

/-- A line in front of what the rest of the input comes to. -/
theorem line_ends {s : Shell} (fits : Fits line) (input : s.stdin = line ++ NEWLINE :: rest)
    (later : ∀ t : Shell, t.stdin = rest → Holds t.command 0 (stale line) → Ends t n made shells) :
    Ends s (n + 1) (commands [line] ++ made) fun found =>
      2 ^ ((commands [line]).countP fun command => !found command) * shells found := by
  obtain ⟨t, left, text, ran⟩ := line_round s fits input
  have behind := ends_behind ran (later t left text)
  have alone : commands [line] = if words line = [] then [] else [words line] := by
    unfold commands
    rw [List.map_singleton, List.filter_singleton]
    by_cases nothing : words line = [] <;> simp [nothing]
  rw [alone]
  refine ⟨behind.faults, behind.made, fun found more room => ?_⟩
  rw [behind.shells found more room]
  by_cases nothing : words line = []
  · simp [nothing]
  · cases executed : found (words line) <;> simp [nothing, executed]

theorem commands_cons (line : List Byte) (lines : List (List Byte)) :
    commands (line :: lines) = commands [line] ++ commands lines := by
  unfold commands
  rw [← List.filter_append, ← List.map_append, List.singleton_append]

theorem input_ends (lines : List (List Byte)) (last : List Byte)
    (fits : ∀ line ∈ lines ++ [last], Fits line) (s : Shell)
    (input : s.stdin = typed (lines ++ [last])) :
    Ends s ((stale last).length + 1 + lines.length)
      (commands (lines ++ [last]) ++ (shortened (firstWord last)).map ([·])) fun found =>
        2 ^ ((commands (lines ++ [last])).countP fun command => !found command) *
          2 ^ (shortened (firstWord last)).countP fun command => !found [command] := by
  induction lines generalizing s with
  | nil =>
    have one : s.stdin = last ++ NEWLINE :: [] := by
      rw [input, typed, List.nil_append, List.flatMap_singleton]
    apply line_ends (fits last List.mem_cons_self) one
    intro t ended text
    obtain ⟨spaces, shape, all, letters⟩ := stale_shape last
    rw [shape] at text ⊢
    exact word_ends ended all letters text
  | cons line lines ih =>
    have first : s.stdin = line ++ NEWLINE :: typed (lines ++ [last]) := by
      rw [input, typed, List.cons_append, List.flatMap_cons, List.append_assoc]
      rfl
    have behind := line_ends (fits line List.mem_cons_self) first fun t left _ =>
      ih (fun other member => fits other (List.mem_cons_of_mem _ member)) t left
    rw [List.cons_append, commands_cons, List.append_assoc, List.length_cons]
    refine ⟨behind.faults, behind.made, fun found more room => ?_⟩
    rw [behind.shells found more room, List.countP_append, pow_add, mul_assoc]

/-- The run of a process on lines that fit. It forks for the words of each line
that has any, and the end of the input does not end it: it goes on with the first
word of the last line, a character shorter each time, until there is none to
strip and it writes in front of the buffer. -/
theorem input_served_then_overrun (lines : List (List Byte)) (last command : List Byte)
    (fits : ∀ line ∈ lines ++ [last], Fits line) :
    ∃ t, exec nextPrompt ⟨typed (lines ++ [last]), command⟩
        (rounds ((stale last).length + 1 + lines.length)) = some t ∧
      round t = .faults .inFrontOfCommand ∧
      trace nextPrompt forked ⟨typed (lines ++ [last]), command⟩
        (rounds ((stale last).length + 1 + lines.length)) =
          commands (lines ++ [last]) ++ (shortened (firstWord last)).map ([·]) := by
  have ends := input_ends lines last fits ⟨typed (lines ++ [last]), command⟩ rfl
  obtain ⟨t, ran, faults⟩ := ends.faults
  exact ⟨t, ran, faults, ends.made⟩

/-- `ls` and `cat` -/
def twoCommands : List (List Byte) := [[108#8, 115#8], [99#8, 97#8, 116#8]]

theorem two_commands_fit : ∀ line ∈ twoCommands, Fits line := by
  intro line member
  rcases List.mem_cons.mp member with rfl | member
  · exact ⟨by decide, by decide, by decide⟩
  · rw [List.mem_singleton.mp member]
    exact ⟨by decide, by decide, by decide⟩

theorem two_commands_then_overrun : ∃ t, exec nextPrompt ⟨typed twoCommands, []⟩ (rounds 5) = some t ∧
    round t = .faults .inFrontOfCommand ∧ trace nextPrompt forked ⟨typed twoCommands, []⟩ (rounds 5) =
      [[[108#8, 115#8]], [[99#8, 97#8, 116#8]], [[99#8, 97#8]], [[99#8]]] :=
  input_served_then_overrun [[108#8, 115#8]] [99#8, 97#8, 116#8] [] two_commands_fit

/-- Where all commands that are typed can be executed, the end of the input alone
makes shells out of one: each shortened word that is no command doubles them. -/
theorem end_of_input_multiplies (lines : List (List Byte)) (last command : List Byte)
    (fits : ∀ line ∈ lines ++ [last], Fits line) (found : List (List Byte) → Bool)
    (executed : ∀ c ∈ commands (lines ++ [last]), found c = true) (more : Nat)
    (enough : (stale last).length + 1 + lines.length < more) :
    faulting found more ⟨typed (lines ++ [last]), command⟩ =
      2 ^ (shortened (firstWord last)).countP fun word => !found [word] := by
  have ends := input_ends lines last fits ⟨typed (lines ++ [last]), command⟩ rfl
  have all_found : (commands (lines ++ [last])).countP (fun c => !found c) = 0 := by
    rw [List.countP_eq_zero]
    intro c member
    simp [executed c member]
  rw [ends.shells found more enough, all_found, pow_zero, one_mul]

/-- Neither `ca` nor `c` is a command. -/
theorem cat_leaves_four_shells :
    faulting (fun c => decide (c ∈ commands twoCommands)) 6 ⟨typed twoCommands, []⟩ = 4 :=
  end_of_input_multiplies [[108#8, 115#8]] [99#8, 97#8, 116#8] [] two_commands_fit
    (fun c => decide (c ∈ commands twoCommands)) (fun _ member => decide_eq_true member) 6
    (Nat.lt_succ_self 5)

end OsCourse.BasicShell

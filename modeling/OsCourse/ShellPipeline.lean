import OsCourse.StShell
import OsCourse.Transition
import Mathlib.Tactic.Common

/-! What the shell makes of a well-formed line. The token loop is followed over
the words of the line, stage by stage; what an earlier line has left in `argv`
and in the two descriptor variables is kept as it is, so that the result says
what it must have been. -/
namespace OsCourse.ShellPipeline
open Stdio CString StShell Transition

/-! ## Well-formed lines -/

/-- `> file` or `>> file` at the end of a line. -/
structure Redirection where
  append : Bool
  file : List Byte

def Redirection.typed (r : Redirection) : List (List Byte) :=
  [if r.append then APPEND else OUTPUT, r.file]

/-- The words of `c1 | c2 | ... | cn` and the redirection behind them. -/
def typedWords (redirection : Option Redirection) : List (List (List Byte)) → List (List Byte)
  | [] => (redirection.map Redirection.typed).getD []
  | [c] => c ++ (redirection.map Redirection.typed).getD []
  | c :: next :: rest => c ++ PIPE :: typedWords redirection (next :: rest)

def Ordinary (word : List Byte) : Prop := word ≠ PIPE ∧ word ≠ OUTPUT ∧ word ≠ APPEND

/-- A line of one or more commands that fits the buffer together with its
newline and terminator. -/
structure TypedLine where
  line : List Byte
  stages : List (List (List Byte))
  redirection : Option Redirection
  fits : line.length + 2 ≤ MAX_COMMAND_LEN
  text : ∀ b ∈ line, b ≠ NUL ∧ b ≠ NEWLINE
  command : line ≠ EXIT
  nonempty : stages ≠ []
  stage : ∀ c ∈ stages, c ≠ [] ∧ c.length ≤ MAX_ARGS - 1 ∧ ∀ word ∈ c, Ordinary word
  typed : words line = typedWords redirection stages

/-! ## The property -/

/-- The calls a line asks for when its first command reads from `input`: each
pipe is made in front of its writer, each reader takes the other end, and the
last command writes to the named file or to standard output. -/
def Expected (redirection : Option Redirection) (input : Int) :
    List (List (List Byte)) → List Event → Prop
  | [], _ => False
  | [c], events =>
    match redirection with
    | none => events = [.execute (some c) input STDOUT_FILENO]
    | some r => ∃ fd, events =
        [.openFile (some r.file) r.append (some fd), .execute (some c) input (Int.ofNat fd)]
  | c :: next :: rest, events => ∃ reads writes later, events =
        .pipe (some (reads, writes)) :: .execute (some c) input (Int.ofNat writes) :: later ∧
      Expected redirection (Int.ofNat reads) (next :: rest) later

/-- The shell comes back to the prompt and has made exactly these calls. -/
def RunsAsTyped (kernel : Kernel) (s : Shell) (line : TypedLine) : Prop :=
  ∃ t events, readLoop kernel s = .prompts t ∧ t.events = s.events ++ events ∧
    Expected line.redirection STDIN_FILENO line.stages events

/-- Every stage with a pipe or a redirection behind it leaves room in `argv`
for the loop to go on; the entry behind the words of a stage with a pipe was
null before the line and no stage in front reached it; and the kernel gives
what it is asked for. -/
def Ready (kernel : Kernel) (redirection : Option Redirection) (argv : Nat → Slot) :
    (longest asked : Nat) → List (List (List Byte)) → Prop
  | _, _, [] => False
  | _, asked, [c] =>
    redirection.isSome → c.length < MAX_ARGS - 1 ∧ (kernel.openFile asked).isSome
  | longest, asked, c :: next :: rest =>
    c.length < MAX_ARGS - 1 ∧ argv c.length = .null ∧ longest ≤ c.length ∧
      (kernel.pipe asked).isSome ∧
      Ready kernel redirection argv c.length (asked + 1) (next :: rest)

/-! ## Tokens and arguments -/

/-- The scan has returned the first of these words, and the others are in the
text it goes on with. -/
def Pending (mem : List Byte) (token : Option Nat) (save : Nat) : List (List Byte) → Prop
  | [] => token = none
  | word :: more => ∃ position tail, token = some position ∧ Holds mem position word ∧
      position + word.length ≤ save ∧ Holds mem save tail ∧ words tail = more

/-- The entries of `argv` from the first on point to these words, in front of
where the scan goes on. -/
def Filled (mem : List Byte) (argv : Nat → Slot) (save : Nat) (args : List (List Byte)) : Prop :=
  ∀ i word, args[i]? = some word →
    ∃ position, argv i = .token position ∧ Holds mem position word ∧
      position + word.length ≤ save

/-- A scan over a text returns its words one by one and keeps the texts in front. -/
theorem pending_next (holds : Holds mem save text) :
    Pending (strtok mem save).mem (strtok mem save).token (strtok mem save).save (words text) ∧
      save ≤ (strtok mem save).save ∧
      ∀ position other, position + other.length ≤ save → Holds mem position other →
        Holds (strtok mem save).mem position other := by
  cases split : words text with
  | nil =>
    rw [strtok_none holds split]
    exact ⟨rfl, Nat.le_add_right _ _, fun _ _ _ kept => kept⟩
  | cons word more =>
    obtain ⟨start, tail, token, behind, own, scan, later, before, kept⟩ := strtok_some holds split
    exact ⟨⟨start, tail, token, own, before, scan, later⟩, by omega, kept⟩

theorem filled_kept (filled : Filled mem argv save args) (longer : save ≤ save')
    (kept : ∀ position other, position + other.length ≤ save → Holds mem position other →
      Holds mem' position other) : Filled mem' argv save' args := by
  intro i word given
  obtain ⟨position, slot, holds, front⟩ := filled i word given
  exact ⟨position, slot, kept position word front holds, by omega⟩

/-- `execvp` sees exactly the words when the entry behind them is null. -/
theorem read_argv_iff (slots : ∀ j word, args[j]? = some word →
      ∃ position, argv (i + j) = .token position ∧ Holds mem position word)
    (room : args.length < left) :
    readArgv mem argv left i = some args ↔ argv (i + args.length) = .null := by
  induction args generalizing i left with
  | nil =>
    obtain ⟨left, rfl⟩ : ∃ more, left = more + 1 := ⟨left - 1, by simp at room; omega⟩
    unfold readArgv
    cases argv i <;> simp
  | cons word args ih =>
    obtain ⟨left, rfl⟩ : ∃ more, left = more + 1 := ⟨left - 1, by simp at room; omega⟩
    obtain ⟨position, slot, holds⟩ := slots 0 word rfl
    rw [Nat.add_zero] at slot
    have later : readArgv mem argv left (i + 1) = some args ↔
        argv (i + 1 + args.length) = .null := ih
      (fun j other given => by
        have shifted := slots (j + 1) other given
        rwa [show i + (j + 1) = i + 1 + j by omega] at shifted)
      (by simpa using room)
    unfold readArgv
    simp only [slot, Option.map_eq_some_iff, cstr_of_holds holds, List.cons.injEq, true_and,
      exists_eq_right, later, List.length_cons]
    rw [show i + 1 + args.length = i + (args.length + 1) by omega]

/-! ## The token loop -/

/-- One round of the loop takes an ordinary word into `argv`. -/
theorem token_loop_word (kernel : Kernel) (rounds : Nat) (s : Shell) (save argc : Nat)
    (holds : Holds s.command position word) (ordinary : Ordinary word)
    (room : argc < MAX_ARGS - 1) :
    tokenLoop kernel (rounds + 1) s (some position) save argc =
      tokenLoop kernel rounds { s with
        argv := Function.update s.argv argc (.token position)
        command := (strtok s.command save).mem }
        (strtok s.command save).token (strtok s.command save).save (argc + 1) := by
  obtain ⟨noPipe, noOutput, noAppend⟩ := ordinary
  rw [tokenLoop, if_pos room, cstr_of_holds holds, if_neg noOutput, if_neg noAppend, if_neg noPipe]

/-- The rounds over the words of a command. -/
theorem words_loop (kernel : Kernel) (rounds : Nat) (c : List (List Byte)) (s : Shell)
    (done : List (List Byte)) (pending : Pending s.command token save (c ++ more))
    (filled : Filled s.command s.argv save done) (ordinary : ∀ word ∈ c, Ordinary word)
    (room : done.length + c.length ≤ MAX_ARGS - 1) :
    ∃ mem argv token' save',
      tokenLoop kernel (c.length + rounds) s token save done.length =
        tokenLoop kernel rounds { s with command := mem, argv := argv } token' save'
          (done.length + c.length) ∧
      Pending mem token' save' more ∧ Filled mem argv save' (done ++ c) ∧
      ∀ j, done.length + c.length ≤ j → argv j = s.argv j := by
  induction c generalizing s done token save with
  | nil =>
    refine ⟨s.command, s.argv, token, save, by simp, pending, by simpa using filled, ?_⟩
    exact fun j _ => rfl
  | cons word c ih =>
    obtain ⟨position, tail, rfl, holds, front, scan, later⟩ := pending
    obtain ⟨next, longer, kept⟩ := pending_next scan
    rw [later] at next
    rw [List.length_cons] at room
    have filled' : Filled (strtok s.command save).mem
        (Function.update s.argv done.length (.token position))
        (strtok s.command save).save (done ++ [word]) := by
      intro i other given
      by_cases last : i = done.length
      · subst last
        simp only [List.getElem?_concat_length, Option.some.injEq] at given
        subst given
        exact ⟨position, Function.update_self _ _ _, kept _ _ front holds, by omega⟩
      · have earlier : i < done.length := by
          have bound := (List.getElem?_eq_some_iff.mp given).1
          rw [List.length_append, List.length_singleton] at bound
          omega
        rw [List.getElem?_append_left earlier] at given
        obtain ⟨place, slot, own, before⟩ := filled i other given
        exact ⟨place, by rw [Function.update_of_ne last, slot], kept _ _ before own, by omega⟩
    obtain ⟨mem, argv, token', save', loop, pending', all, untouched⟩ :=
      ih { s with
        argv := Function.update s.argv done.length (.token position)
        command := (strtok s.command save).mem } (done ++ [word]) next filled'
        (fun w member => ordinary w (List.mem_cons_of_mem _ member))
        (by rw [List.length_append, List.length_singleton]; omega)
    rw [List.length_append, List.length_singleton] at loop untouched
    refine ⟨mem, argv, token', save', ?_, pending', by simpa using all, fun j beyond => ?_⟩
    · rw [List.length_cons, show c.length + 1 + rounds = c.length + rounds + 1 by omega,
        token_loop_word kernel _ s save _ holds (ordinary word List.mem_cons_self) (by omega),
        loop, show done.length + 1 + c.length = done.length + (c.length + 1) by omega]
    · rw [List.length_cons] at beyond
      exact (untouched j (by omega)).trans (Function.update_of_ne (by omega) _ _)

theorem filled_slots (filled : Filled mem argv save args) : ∀ j word, args[j]? = some word →
    ∃ position, argv (0 + j) = .token position ∧ Holds mem position word := by
  intro j word given
  obtain ⟨position, slot, holds, -⟩ := filled j word given
  exact ⟨position, (Nat.zero_add j).symm ▸ slot, holds⟩

/-- The call behind the loop ends `argv` itself. -/
theorem end_line_events (s : Shell) (filled : Filled s.command s.argv save args)
    (some_word : args ≠ []) (room : args.length < MAX_ARGS) :
    (endLine s args.length).events = s.events ++ [.execute (some args) s.inFd s.outFd] := by
  have slots : ∀ j word, args[j]? = some word → ∃ position,
      Function.update s.argv args.length .null (0 + j) = .token position ∧
        Holds s.command position word := by
    intro j word given
    have bound := (List.getElem?_eq_some_iff.mp given).1
    obtain ⟨position, slot, holds⟩ := filled_slots filled j word given
    exact ⟨position, by rw [Function.update_of_ne (by omega), slot], holds⟩
  have ended : readArgv s.command (Function.update s.argv args.length .null) MAX_ARGS 0 =
      some args := by
    rw [read_argv_iff slots room, Nat.zero_add, Function.update_self]
  have argc : ¬ args.length = 0 := fun none_left => some_word (List.length_eq_zero_iff.mp none_left)
  unfold endLine
  simp only [argc, ↓reduceIte, Shell.execute, ended]

theorem token_loop_none (kernel : Kernel) (rounds : Nat) (s : Shell) (save argc : Nat) :
    tokenLoop kernel rounds s none save argc = (s, argc) := by
  cases rounds <;> rfl

/-- The loop stops short when `argv` has no room for another word. -/
theorem token_loop_full (kernel : Kernel) (rounds : Nat) (s : Shell) (token : Option Nat)
    (save : Nat) (full : ¬ argc < MAX_ARGS - 1) :
    tokenLoop kernel rounds s token save argc = (s, argc) := by
  cases rounds with
  | zero => rfl
  | succ rounds =>
    cases token with
    | none => rfl
    | some position => rw [tokenLoop, if_neg full]

theorem token_loop_redirect (kernel : Kernel) (rounds : Nat) (s : Shell) (append : Bool)
    (pending : Pending s.command token save [if append then APPEND else OUTPUT, file])
    (room : argc < MAX_ARGS - 1) (enough : 0 < rounds) :
    ∃ mem, tokenLoop kernel rounds s token save argc = ({ s with
        command := mem
        outFd := ((kernel.openFile s.asked).map Int.ofNat).getD (-1)
        asked := s.asked + 1
        events := s.events ++ [.openFile (some file) append (kernel.openFile s.asked)] }, argc) ∧
      ∀ position other, position + other.length ≤ save → Holds s.command position other →
        Holds mem position other := by
  obtain ⟨position, tail, rfl, holds, front, scan, later⟩ := pending
  obtain ⟨next, longer, kept⟩ := pending_next scan
  rw [later] at next
  obtain ⟨name, _, token, own, -⟩ := next
  obtain ⟨rounds, rfl⟩ : ∃ more, rounds = more + 1 := ⟨rounds - 1, by omega⟩
  refine ⟨(strtok s.command save).mem, ?_, kept⟩
  have branch : tokenLoop kernel (rounds + 1) s (some position) save argc =
      (redirect kernel s save append, argc) := by
    rw [tokenLoop, if_pos room, cstr_of_holds holds]
    cases append with
    | false => simp only [Bool.false_eq_true, ↓reduceIte]
    | true =>
      have other : APPEND ≠ OUTPUT := by decide
      simp only [↓reduceIte, other]
  rw [branch, redirect]
  simp only [token, cstr_of_holds own]

/-- The pipe of a stage and the start of its command. -/
theorem token_loop_pipe (kernel : Kernel) (rounds : Nat) (s : Shell)
    (pending : Pending s.command token save (PIPE :: more)) (room : argc < MAX_ARGS - 1) :
    ∃ mem token' save', tokenLoop kernel (rounds + 1) s token save argc =
        tokenLoop kernel rounds { startPipe kernel s with command := mem } token' save' 0 ∧
      Pending mem token' save' more := by
  obtain ⟨position, tail, rfl, holds, front, scan, later⟩ := pending
  obtain ⟨next, longer, kept⟩ := pending_next scan
  rw [later] at next
  refine ⟨_, _, _, ?_, next⟩
  rw [tokenLoop, if_pos room, cstr_of_holds holds, if_neg (by decide), if_neg (by decide),
    if_pos rfl]

/-! ## The stages of a line -/

/-- What the shell remembers of the entries of `argv` a line started with. -/
def Remembers (argv : Nat → Slot) (longest : Nat) (s : Shell) : Prop :=
  ∀ j, s.argv j = .null ↔ argv j = .null ∧ longest ≤ j

/-- The last command of a line, with its redirection. -/
theorem last_stage (kernel : Kernel) (redirection : Option Redirection) (s : Shell)
    (pending : Pending s.command token save (typedWords redirection [c])) (nonempty : c ≠ [])
    (short : c.length ≤ MAX_ARGS - 1) (ordinary : ∀ word ∈ c, Ordinary word)
    (enough : c.length < rounds) :
    ∃ events, (endLine (tokenLoop kernel rounds s token save 0).1
        (tokenLoop kernel rounds s token save 0).2).events = s.events ++ events ∧
      (Expected redirection input [c] events ↔ s.inFd = input ∧
        (redirection = none → s.outFd = STDOUT_FILENO) ∧
        (redirection.isSome → c.length < MAX_ARGS - 1 ∧ (kernel.openFile s.asked).isSome)) := by
  obtain ⟨left, rfl⟩ : ∃ left, rounds = c.length + (left + 1) := ⟨rounds - c.length - 1, by omega⟩
  obtain ⟨mem, argv, token', save', loop, pending', filled, -⟩ := words_loop kernel (left + 1) c s []
    pending (fun i word given => by simp at given) ordinary (by simpa using short)
  simp only [List.length_nil, Nat.zero_add, List.nil_append] at loop filled
  have room : c.length < MAX_ARGS := by
    unfold MAX_ARGS at short ⊢
    omega
  rw [loop]
  cases redirection with
  | none =>
    -- the words are followed by the end of the line
    have ended : token' = none := pending'
    rw [ended, token_loop_none]
    refine ⟨_, end_line_events { s with command := mem, argv := argv } filled nonempty room, ?_⟩
    simp [Expected]
  | some r =>
    by_cases more : c.length < MAX_ARGS - 1
    · obtain ⟨mem', branch, kept⟩ := token_loop_redirect kernel (left + 1)
        { s with command := mem, argv := argv } r.append pending' more (Nat.succ_pos left)
      rw [branch]
      refine ⟨_, (end_line_events _ (filled_kept filled le_rfl kept) nonempty room).trans
        (List.append_assoc _ _ _), ?_⟩
      cases answer : kernel.openFile s.asked with
      | none => simp [Expected]
      | some fd => simp [Expected, more, eq_comm]
    · -- the loop has ended in front of the redirection
      rw [token_loop_full kernel _ _ _ _ more]
      refine ⟨_, end_line_events { s with command := mem, argv := argv } filled nonempty room, ?_⟩
      simp [Expected, more]

/-- A command with a pipe behind it, when there is room to see the `|`. -/
theorem piped_stage (kernel : Kernel) (rounds : Nat) (s : Shell)
    (pending : Pending s.command token save (c ++ PIPE :: more))
    (room : c.length < MAX_ARGS - 1) (ordinary : ∀ word ∈ c, Ordinary word)
    (remembers : Remembers argv longest s) :
    ∃ args t token' save', tokenLoop kernel (c.length + (rounds + 1)) s token save 0 =
        tokenLoop kernel rounds t token' save' 0 ∧
      Pending t.command token' save' more ∧
      (args = some c ↔ argv c.length = .null ∧ longest ≤ c.length) ∧
      Remembers argv (max longest c.length) t ∧ t.asked = s.asked + 1 ∧
      t.outFd = STDOUT_FILENO ∧
      t.inFd = ((kernel.pipe s.asked).map fun ends => Int.ofNat ends.1).getD
        (kernel.leftover s.asked).1 ∧
      t.events = s.events ++ [.pipe (kernel.pipe s.asked), .execute args s.inFd
        (((kernel.pipe s.asked).map fun ends => Int.ofNat ends.2).getD
          (kernel.leftover s.asked).2)] := by
  obtain ⟨mem, now, token', save', loop, pending', filled, untouched⟩ :=
    words_loop kernel (rounds + 1) c s [] pending (fun i word given => by simp at given) ordinary
      (by simp only [List.length_nil]; omega)
  simp only [List.length_nil, Nat.zero_add, List.nil_append] at loop filled untouched
  obtain ⟨mem', token'', save'', branch, next⟩ :=
    token_loop_pipe kernel rounds { s with command := mem, argv := now } pending' room
  have read : readArgv mem now MAX_ARGS 0 = some c ↔ now (0 + c.length) = .null :=
    read_argv_iff (filled_slots filled) (by unfold MAX_ARGS at room ⊢; omega)
  rw [Nat.zero_add, untouched c.length le_rfl] at read
  have slots : ∀ j, now j = .null ↔ argv j = .null ∧ max longest c.length ≤ j := by
    intro j
    by_cases behind : c.length ≤ j
    · rw [untouched j behind, remembers j, Nat.max_le, and_iff_left behind]
    · obtain ⟨position, slot, -⟩ := filled j _ (List.getElem?_eq_getElem (Nat.lt_of_not_le behind))
      rw [slot, Nat.max_le]
      exact iff_of_false nofun fun null => behind null.2.2
  refine ⟨readArgv mem now MAX_ARGS 0, { startPipe kernel { s with command := mem, argv := now } with
    command := mem' }, token'', save'', loop.trans branch, next, ?_, slots, rfl, rfl, ?_, ?_⟩
  · exact read.trans (remembers c.length)
  · cases answer : kernel.pipe s.asked <;> simp [startPipe, answer]
  · cases answer : kernel.pipe s.asked <;> simp [startPipe, Shell.execute, answer]

/-- A command that fills `argv` hides the `|` behind it: it is started as the
last one of the line. -/
theorem full_stage (kernel : Kernel) (rounds : Nat) (s : Shell)
    (pending : Pending s.command token save (c ++ PIPE :: more)) (nonempty : c ≠ [])
    (full : c.length = MAX_ARGS - 1) (ordinary : ∀ word ∈ c, Ordinary word)
    (enough : c.length ≤ rounds) :
    (endLine (tokenLoop kernel rounds s token save 0).1
      (tokenLoop kernel rounds s token save 0).2).events =
        s.events ++ [.execute (some c) s.inFd s.outFd] := by
  obtain ⟨left, rfl⟩ := Nat.exists_eq_add_of_le enough
  obtain ⟨mem, now, token', save', loop, -, filled, -⟩ :=
    words_loop kernel left c s [] pending (fun i word given => by simp at given) ordinary
      (by simpa using full.le)
  simp only [List.length_nil, Nat.zero_add, List.nil_append] at loop filled
  rw [loop, token_loop_full kernel _ _ _ _ (by omega)]
  exact end_line_events { s with command := mem, argv := now } filled nonempty
    (by unfold MAX_ARGS at full ⊢; omega)

theorem expected_piped_iff : Expected redirection input (c :: next :: rest)
      (.pipe (some ends) :: .execute args inFd (Int.ofNat ends.2) :: later) ↔
    args = some c ∧ inFd = input ∧
      Expected redirection (Int.ofNat ends.1) (next :: rest) later := by
  rw [Expected]
  constructor
  · rintro ⟨reads, writes, others, same, onward⟩
    cases same
    exact ⟨rfl, rfl, onward⟩
  · rintro ⟨rfl, rfl, onward⟩
    exact ⟨ends.1, ends.2, later, rfl, onward⟩

/-- The calls made for the stages of a line are the expected ones exactly when
the descriptors, `argv` and the kernel are ready for them. -/
theorem stages_expected_iff (kernel : Kernel) (rounds : Nat) (redirection : Option Redirection)
    (stages : List (List (List Byte))) (s : Shell) (input : Int) (nonempty : stages ≠ [])
    (pending : Pending s.command token save (typedWords redirection stages))
    (commands : ∀ c ∈ stages, c ≠ [] ∧ c.length ≤ MAX_ARGS - 1 ∧ ∀ word ∈ c, Ordinary word)
    (remembers : Remembers argv longest s)
    (enough : (typedWords redirection stages).length < rounds) :
    ∃ events, (endLine (tokenLoop kernel rounds s token save 0).1
        (tokenLoop kernel rounds s token save 0).2).events = s.events ++ events ∧
      (Expected redirection input stages events ↔ s.inFd = input ∧
        (stages.length = 1 → redirection = none → s.outFd = STDOUT_FILENO) ∧
        Ready kernel redirection argv longest s.asked stages) := by
  induction stages generalizing s token save longest rounds input with
  | nil => exact absurd rfl nonempty
  | cons c rest ih =>
    obtain ⟨some_word, short, ordinary⟩ := commands c List.mem_cons_self
    cases rest with
    | nil =>
      have words_enough : c.length < rounds := by
        rw [typedWords, List.length_append] at enough
        omega
      obtain ⟨events, made, exact_when⟩ :=
        last_stage kernel redirection s pending some_word short ordinary words_enough
      refine ⟨events, made, exact_when.trans ?_⟩
      simp [Ready]
    | cons next rest =>
      rw [typedWords] at pending enough
      rw [List.length_append, List.length_cons] at enough
      by_cases room : c.length < MAX_ARGS - 1
      · obtain ⟨left, rfl⟩ : ∃ left, rounds = c.length + (left + 1) :=
          ⟨rounds - c.length - 1, by omega⟩
        obtain ⟨args, t, token', save', loop, pending', seen, remembers', asked, output, inFd, before⟩ :=
          piped_stage kernel left s pending room ordinary remembers
        obtain ⟨later, made, exact_when⟩ := ih left t
          (((kernel.pipe s.asked).map fun ends => Int.ofNat ends.1).getD (kernel.leftover s.asked).1)
          nofun pending' (fun c member => commands c (List.mem_cons_of_mem _ member)) remembers'
          (by omega)
        simp only [before, List.append_assoc, List.cons_append, List.nil_append] at made
        rw [loop]
        refine ⟨_, made, ?_⟩
        rw [inFd, output, asked] at exact_when
        cases answer : kernel.pipe s.asked with
        | none => simp [Expected, Ready, answer]
        | some ends =>
          rw [answer] at exact_when
          simp only [Option.map_some, Option.getD_some, true_and, implies_true] at exact_when
          apply expected_piped_iff.trans
          rw [exact_when, seen, Ready, answer]
          constructor
          · rintro ⟨⟨null, longer⟩, first, onward⟩
            rw [Nat.max_eq_right longer] at onward
            exact ⟨first, nofun, room, null, longer, rfl, onward⟩
          · rintro ⟨first, -, -, null, longer, -, onward⟩
            refine ⟨⟨null, longer⟩, first, ?_⟩
            rwa [Nat.max_eq_right longer]
      · -- `argv` is full in front of the `|`
        have made := full_stage kernel rounds s pending some_word (by omega) ordinary (by omega)
        exact ⟨_, made, by simp [Expected, Ready, room]⟩

/-! ## From prompt to prompt -/

/-- `fgets` takes a line that fits together with its newline. -/
theorem get_line_whole (line rest : List Byte) (fits : line.length < room)
    (text : ∀ b ∈ line, b ≠ NEWLINE) :
    getLine room (line ++ NEWLINE :: rest) = (line ++ [NEWLINE], rest) := by
  induction line generalizing room with
  | nil =>
    obtain ⟨room, rfl⟩ : ∃ more, room = more + 1 := ⟨room - 1, by simp at fits; omega⟩
    simp [getLine]
  | cons b line ih =>
    obtain ⟨room, rfl⟩ : ∃ more, room = more + 1 := ⟨room - 1, by simp at fits; omega⟩
    have letter : b ≠ NEWLINE := text b List.mem_cons_self
    rw [List.cons_append, getLine, if_neg letter,
      ih (by simpa using fits) fun c member => text c (List.mem_cons_of_mem _ member)]
    rfl

/-- The line without its newline is what gets parsed. -/
theorem read_loop_line (kernel : Kernel) (s : Shell) (line rest : List Byte)
    (fits : line.length + 2 ≤ MAX_COMMAND_LEN) (text : ∀ b ∈ line, b ≠ NUL ∧ b ≠ NEWLINE) :
    ∃ mem, Holds mem 0 line ∧ readLoop kernel { s with stdin := line ++ NEWLINE :: rest } =
      runLine kernel { s with stdin := rest, command := mem } := by
  have clean : NUL ∉ line := fun member => (text NUL member).1 rfl
  have taken : getLine (MAX_COMMAND_LEN - 1) (line ++ NEWLINE :: rest) = (line ++ [NEWLINE], rest) :=
    get_line_whole line rest (by omega) fun b member => (text b member).2
  obtain ⟨junk, read⟩ : ∃ junk, Shell.fgets { s with stdin := line ++ NEWLINE :: rest } =
      { s with stdin := rest, command := line ++ [NEWLINE] ++ NUL :: junk } := by
    refine ⟨s.command.drop ((line ++ [NEWLINE]).length + 1), ?_⟩
    rw [Shell.fgets, if_neg (by simp)]
    simp only [taken]
  have holds : Holds (line ++ [NEWLINE] ++ NUL :: junk) 0 (line ++ [NEWLINE]) := by
    refine ⟨?_, junk, rfl⟩
    simp only [List.mem_append, clean, List.mem_singleton, false_or]
    decide
  have length : strlen (line ++ [NEWLINE] ++ NUL :: junk) = some (line.length + 1) := by
    rw [strlen, if_pos (by simp), cstr_of_holds holds, List.length_append, List.length_singleton]
  have stripped : (line ++ [NEWLINE] ++ NUL :: junk).set line.length NUL =
      line ++ NUL :: NUL :: junk := by
    rw [List.append_assoc, List.set_append_right _ _ (Nat.le_refl _), Nat.sub_self]
    rfl
  refine ⟨line ++ NUL :: NUL :: junk, ⟨clean, NUL :: junk, rfl⟩, ?_⟩
  unfold readLoop
  simp only [read, length, stripped]

/-- Whatever lines came before, the shell runs exactly the pipeline that was
typed if and only if its first descriptor is standard input, a single command
without redirection finds standard output, and the stages are `Ready`. -/
theorem runs_as_typed_iff (kernel : Kernel) (s : Shell) (line : TypedLine) (rest : List Byte) :
    RunsAsTyped kernel { s with stdin := line.line ++ NEWLINE :: rest } line ↔
      s.inFd = STDIN_FILENO ∧
        (line.stages.length = 1 → line.redirection = none → s.outFd = STDOUT_FILENO) ∧
        Ready kernel line.redirection s.argv 0 s.asked line.stages := by
  obtain ⟨mem, holds, read⟩ := read_loop_line kernel s line.line rest line.fits line.text
  obtain ⟨next, -, -⟩ := pending_next holds
  rw [line.typed] at next
  have enough : (typedWords line.redirection line.stages).length < MAX_COMMAND_LEN := by
    have := words_length line.line
    have := line.fits
    rw [← line.typed]
    omega
  have remembers : Remembers s.argv 0 { s with stdin := rest, command := (strtok mem 0).mem } :=
    fun j => by simp
  obtain ⟨events, made, exact_when⟩ := stages_expected_iff kernel MAX_COMMAND_LEN line.redirection
    line.stages { s with stdin := rest, command := (strtok mem 0).mem } STDIN_FILENO line.nonempty
    next line.stage remembers enough
  have ran : readLoop kernel { s with stdin := line.line ++ NEWLINE :: rest } = .prompts
      (endLine (tokenLoop kernel MAX_COMMAND_LEN
        { s with stdin := rest, command := (strtok mem 0).mem }
        (strtok mem 0).token (strtok mem 0).save 0).1
        (tokenLoop kernel MAX_COMMAND_LEN
        { s with stdin := rest, command := (strtok mem 0).mem }
        (strtok mem 0).token (strtok mem 0).save 0).2) := by
    rw [read, runLine, if_neg (by rw [cstr_of_holds holds]; exact line.command)]
  refine Iff.trans ⟨?_, fun expected => ⟨_, events, ran, made, expected⟩⟩ exact_when
  rintro ⟨t, others, prompts, others_made, expected⟩
  rw [ran] at prompts
  cases prompts
  rw [made] at others_made
  exact List.append_cancel_left others_made ▸ expected

/-- `a | b` -/
def twoCommands : TypedLine where
  line := [97#8, 32#8, 124#8, 32#8, 98#8]
  stages := [[[97#8]], [[98#8]]]
  redirection := none
  fits := by decide
  text := by decide
  command := by decide
  nonempty := by decide
  stage := by
    intro c member
    simp only [List.mem_cons, List.not_mem_nil, or_false] at member
    rcases member with rfl | rfl <;> exact ⟨by decide, by decide, by simp [Ordinary, PIPE, OUTPUT, APPEND]⟩
  typed := by decide

theorem typed_events (typed : RunsAsTyped kernel s line) (stepped : nextPrompt kernel s () = some t) :
    ∃ events, t.events = s.events ++ events ∧
      Expected line.redirection STDIN_FILENO line.stages events := by
  obtain ⟨other, events, ran, made, expected⟩ := typed
  simp only [nextPrompt, ran, Option.some.injEq] at stepped
  exact ⟨events, stepped ▸ made, expected⟩

/-- A kernel whose pipes have the ends 3 and 4. -/
def pipesOnly : Kernel := ⟨fun _ => some (3, 4), fun _ => (0, 0), fun _ => none⟩

/-- The shell is given `a b c` and then `a | b`. -/
def threeWordsFirst : Shell :=
  startShell ([97#8, 32#8, 98#8, 32#8, 99#8, NEWLINE] ++ (twoCommands.line ++ [NEWLINE]))
    (List.replicate MAX_COMMAND_LEN NUL) fun _ => .wild

/-- The command in front of the pipe is then started with the three arguments
`a`, `|` and `b`. -/
theorem stale_arguments_reach_command :
    ¬ ∀ (kernel : Kernel) (stdin command : List Byte) (argv : Nat → Slot) (s : Shell)
      (line : TypedLine) (rest : List Byte), command.length = MAX_COMMAND_LEN →
      Reachable (nextPrompt kernel) (startShell stdin command argv) s →
      s.stdin = line.line ++ NEWLINE :: rest → RunsAsTyped kernel s line := by
  intro always
  have after_first : (exec (nextPrompt pipesOnly) threeWordsFirst [()]).map
      (fun s => (s.stdin, s.events.length)) = some (twoCommands.line ++ [NEWLINE], 1) := by decide
  have after_second : ((exec (nextPrompt pipesOnly) threeWordsFirst [()]).bind fun s =>
      nextPrompt pipesOnly s ()).map (fun t => t.events.drop 1) =
      some [.pipe (some (3, 4)), .execute (some [[97#8], [124#8], [98#8]]) 0 4,
        .execute (some [[98#8]]) 3 1] := by decide
  obtain ⟨s, ran, facts⟩ := Option.map_eq_some_iff.mp after_first
  obtain ⟨stdin, count⟩ := Prod.mk.inj facts
  rw [ran, Option.bind_some] at after_second
  obtain ⟨t, stepped, events⟩ := Option.map_eq_some_iff.mp after_second
  have typed := always pipesOnly _ _ _ s twoCommands [] List.length_replicate ⟨_, ran⟩ stdin
  obtain ⟨made, all, expected⟩ := typed_events typed stepped
  rw [all, ← count, List.drop_left] at events
  subst events
  obtain ⟨reads, writes, later, same, -⟩ := expected
  cases same

end OsCourse.ShellPipeline

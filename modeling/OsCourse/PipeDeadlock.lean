import OsCourse.ShellPipeline
import OsCourse.ShellProcesses

/-! Whether the shell can come to wait for a child for ever. It can exactly when
a command in front of a `|` writes more than the pipe holds, or one behind a `|`
reads its input to the end. -/
namespace OsCourse.PipeDeadlock
open Stdio StShell ShellPipeline ShellProcesses Transition

/-! ## The property and its condition -/

/-- The shell waits for a child that is blocked for good: in a `write` to a pipe
that is full, whose reader would be a later child, or in a `read` of an empty
pipe whose write end is open in the shell or in the child itself. -/
def Stuck (capacity : Nat) (s : System) : Prop :=
  ∃ c, s.running = some c ∧
    ((∃ left p, c.call = .write left ∧ c.table.lookup STDOUT_FILENO = some (.writeEnd p) ∧
        s.filled p = capacity) ∨
      ∃ p, c.call = .read ∧ c.table.lookup STDIN_FILENO = some (.readEnd p) ∧ s.filled p = 0 ∧
        (Held s.table (.writeEnd p) ∨ Held c.table (.writeEnd p)))

/-- Nothing can happen any more in such a state. -/
theorem stuck_forever (stuck : Stuck capacity s) (a : Action) : step capacity s a = none := by
  obtain ⟨c, running, ⟨left, p, call, output, full⟩ | ⟨p, call, input, empty, held⟩⟩ := stuck
  · simp only [step, running]
    cases a with
    | accept count =>
      simp only [childStep, call, output, full]
      split
      · rw [if_neg (by omega)]
      · rfl
    | shell => rfl
    | beginWrite | beginRead | deliver | endOfFile | exit => simp [childStep, call]
  · simp only [step, running]
    cases a with
    | deliver count =>
      simp only [childStep, call, input, empty]
      rw [if_neg (by omega)]
    | endOfFile =>
      simp only [childStep, call, input, empty, true_and]
      rw [if_neg (not_and_or.mpr (held.imp not_not_intro not_not_intro))]
    | shell => rfl
    | beginWrite | accept | beginRead | exit => simp [childStep, call]

/-- The descriptors the calls of a line bring into the shell. -/
def newFds : List Event → List Int
  | [] => []
  | .pipe (some (r, w)) :: rest => Int.ofNat r :: Int.ofNat w :: newFds rest
  | .openFile _ _ (some fd) :: rest => Int.ofNat fd :: newFds rest
  | _ :: rest => newFds rest

/-- They are distinct, and none of them is open before. -/
def Free (table : FdTable) (events : List Event) : Prop :=
  (newFds events).Nodup ∧ ∀ fd ∈ newFds events, fd ∉ table

/-- A pipeline in front of the calls `main` makes for it, which are those of a
line that `RunsAsTyped`. Descriptors and pipes of earlier lines may still be
there. -/
structure ParsedLine where
  redirection : Option Redirection
  stages : List (List (List Byte))
  events : List Event
  expected : Expected redirection STDIN_FILENO stages events
  commands : List Behaviour
  counted : commands.length = stages.length
  table : FdTable
  input : table.lookup STDIN_FILENO = some .other
  output : table.lookup STDOUT_FILENO = some .other
  free : Free table events
  pipes : Nat
  filled : Nat → Nat
  empty : ∀ p, pipes ≤ p → filled p = 0

def ParsedLine.start (p : ParsedLine) : System :=
  ⟨p.events, p.commands, p.table, p.pipes, p.filled, none⟩

/-- No run of the pipeline comes to a state in which the shell waits for ever. -/
def NeverStuck (capacity : Nat) (p : ParsedLine) : Prop :=
  ∀ actions, Throughout (step capacity) (fun s => ¬ Stuck capacity s) p.start actions

/-- No command but the first reads its input, and every command but the last
writes no more than a pipe holds. -/
def Fits (capacity : Nat) : (first : Bool) → List Behaviour → Prop
  | _, [] => True
  | first, b :: rest =>
    (first = false → b.reads = false) ∧ (rest ≠ [] → b.output ≤ capacity) ∧
      Fits capacity false rest

/-! ## The stages of the line -/

/-- Where a command reads: the first from the shell's own input, a later one
from a pipe that the shell still holds open for writing. -/
inductive Source (table : FdTable) (input : Int) : (first : Bool) → Prop
  | terminal (same : input = STDIN_FILENO) : Source table input true
  | piped (found : table.lookup input = some (.readEnd p)) (held : Held table (.writeEnd p)) :
      Source table input false

/-- The shell in front of a stage of the line. -/
structure AtStage (redirection : Option Redirection) (first : Bool) (input : Int)
    (stages : List (List (List Byte))) (events : List Event) (commands : List Behaviour)
    (table : FdTable) : Prop where
  expected : Expected redirection input stages events
  counted : commands.length = stages.length
  stdin : table.lookup STDIN_FILENO = some .other
  stdout : table.lookup STDOUT_FILENO = some .other
  source : Source table input first
  free : Free table events

theorem source_grown (grown : Grown before after) (source : Source before input first) :
    Source after input first := by
  cases source with
  | terminal same => exact .terminal same
  | piped found held => exact .piped (grown _ _ found) (held_grown grown held)

/-- The standard descriptors of a stage's command. -/
structure Wired (first : Bool) (shell child : FdTable) (output : Descriptor) : Prop where
  writes : child.lookup STDOUT_FILENO = some output
  terminal : first = true → child.lookup STDIN_FILENO = some .other
  piped : first = false →
    ∃ p, child.lookup STDIN_FILENO = some (.readEnd p) ∧ Held shell (.writeEnd p)

theorem child_wired (stdin : table.lookup STDIN_FILENO = some .other)
    (source : Source table input first) (output : table.lookup out_fd = some descriptor)
    (apart : input ≠ out_fd) (not_input : out_fd ≠ STDIN_FILENO) :
    Wired first table (childTable table input out_fd) descriptor := by
  cases source with
  | terminal same =>
    subst same
    obtain ⟨reads, writes⟩ := child_lookup table stdin output apart not_input
    exact ⟨writes, fun _ => reads, fun later => (by cases later)⟩
  | piped found held =>
    obtain ⟨reads, writes⟩ := child_lookup table found output apart not_input
    exact ⟨writes, fun start => (by cases start), fun _ => ⟨_, reads, held⟩⟩

/-- Where only the first command reads its input, it reads no pipe. -/
theorem wired_input {b : Behaviour} (wired : Wired first shell child output)
    (reads : first = false → b.reads = false) :
    b.reads = true → child.lookup STDIN_FILENO = some .other := by
  intro waits
  cases first with
  | true => exact wired.terminal rfl
  | false => exact absurd (reads rfl) (by simp [waits])

theorem source_mem (stdin : table.lookup STDIN_FILENO = some .other)
    (source : Source table input first) : input ∈ table := by
  cases source with
  | terminal same => exact same ▸ Finmap.mem_of_lookup_eq_some stdin
  | piped found held => exact Finmap.mem_of_lookup_eq_some found

/-- A file or a pipe's write end, just opened, becomes the output of the command. -/
theorem fresh_output_wired (stage : AtStage redirection first input stages events commands table)
    (grown : Grown table after) (fresh : out_fd ∉ table)
    (output : after.lookup out_fd = some descriptor) :
    Wired first after (childTable after input out_fd) descriptor := by
  have apart : input ≠ out_fd := by
    rintro rfl
    exact fresh (source_mem stage.stdin stage.source)
  have not_input : out_fd ≠ STDIN_FILENO := by
    rintro rfl
    exact fresh (Finmap.mem_of_lookup_eq_some stage.stdin)
  exact child_wired (grown _ _ stage.stdin) (source_grown grown stage.source) output apart not_input

/-- A stage with another one behind it: its pipe, its command, and the stage behind. -/
theorem piped_stage
    (stage : AtStage redirection first input (c :: next :: rest) events (b :: commands) table) :
    ∃ r w later, events = .pipe (some (r, w)) :: .execute (some c) input (Int.ofNat w) :: later ∧
      Int.ofNat r ∉ table ∧ Int.ofNat w ∉ table ∧ r ≠ w ∧
      ∀ pipe, Wired first (openPipe table r w pipe)
          (childTable (openPipe table r w pipe) input (Int.ofNat w)) (.writeEnd pipe) ∧
        AtStage redirection false (Int.ofNat r) (next :: rest) later commands
          (openPipe table r w pipe) := by
  obtain ⟨r, w, later, rfl, expected⟩ := stage.expected
  obtain ⟨distinct, unused⟩ := stage.free
  have r_free : Int.ofNat r ∉ table := unused _ (by simp [newFds])
  have w_free : Int.ofNat w ∉ table := unused _ (by simp [newFds])
  simp only [newFds, List.nodup_cons, List.mem_cons, not_or] at distinct
  obtain ⟨⟨r_w, r_later⟩, w_later, distinct⟩ := distinct
  have apart : r ≠ w := fun same => r_w (congrArg Int.ofNat same)
  refine ⟨r, w, later, rfl, r_free, w_free, apart, fun pipe => ?_⟩
  have grown := open_pipe_grown table pipe r_free w_free apart
  have writes : (openPipe table r w pipe).lookup (Int.ofNat w) = some (.writeEnd pipe) :=
    Finmap.lookup_insert _
  have reads : (openPipe table r w pipe).lookup (Int.ofNat r) = some (.readEnd pipe) := by
    rw [openPipe, Finmap.lookup_insert_of_ne _ r_w, Finmap.lookup_insert]
  refine ⟨fresh_output_wired stage grown w_free writes, ?_⟩
  exact {
    expected := expected
    counted := by simpa using stage.counted
    stdin := grown _ _ stage.stdin
    stdout := grown _ _ stage.stdout
    source := .piped reads (held_iff.mpr ⟨_, writes⟩)
    free := by
      refine ⟨distinct, fun fd new => ?_⟩
      have before : fd ∉ table := unused fd (by simp [newFds, new])
      simp only [openPipe, Finmap.mem_insert, not_or]
      exact ⟨fun same => w_later (same ▸ new), fun same => r_later (same ▸ new), before⟩ }

/-- The last stage, with a file or without. -/
theorem final_stage (stage : AtStage redirection first input [c] events commands table) :
    (events = [.execute (some c) input STDOUT_FILENO] ∧
        Wired first table (childTable table input STDOUT_FILENO) .other) ∨
      ∃ file append fd, events =
          [.openFile file append (some fd), .execute (some c) input (Int.ofNat fd)] ∧
        Int.ofNat fd ∉ table ∧
        Wired first (table.insert (Int.ofNat fd) .other)
          (childTable (table.insert (Int.ofNat fd) .other) input (Int.ofNat fd)) .other := by
  cases redirection with
  | none =>
    refine Or.inl ⟨stage.expected, ?_⟩
    have apart : input ≠ STDOUT_FILENO := by
      rintro rfl
      cases stage.source with
      | terminal same => cases same
      | piped found held => simp [stage.stdout] at found
    exact child_wired stage.stdin stage.source stage.stdout apart (by decide)
  | some r =>
    obtain ⟨fd, rfl⟩ := stage.expected
    have fresh : Int.ofNat fd ∉ table := stage.free.2 _ (by simp [newFds])
    exact Or.inr ⟨_, _, fd, rfl, fresh,
      fresh_output_wired stage (insert_grown table fresh) fresh (Finmap.lookup_insert table)⟩

/-! ## Pipelines that fit -/

/-- A child that will find no pipe to wait for: it reads the terminal only, and
what it writes goes into a pipe that is new and large enough. -/
structure CanFinish (capacity fresh pipes : Nat) (b : Behaviour) (child : FdTable) : Prop where
  input : b.reads = true → child.lookup STDIN_FILENO = some .other
  room : ∀ p, child.lookup STDOUT_FILENO = some (.writeEnd p) →
    fresh ≤ p ∧ p < pipes ∧ b.output ≤ capacity

/-- Every child the calls still to come will start can finish. The pipes from
`fresh` on have not been written to. -/
def Prepared (capacity : Nat) :
    (fresh : Nat) → FdTable → (pipes : Nat) → List Event → List Behaviour → Prop
  | fresh, table, pipes, .pipe (some (r, w)) :: rest, commands =>
    Prepared capacity fresh (openPipe table r w pipes) (pipes + 1) rest commands
  | fresh, table, pipes, .openFile _ _ (some fd) :: rest, commands =>
    Prepared capacity fresh (table.insert (Int.ofNat fd) .other) pipes rest commands
  | fresh, table, pipes, .execute _ in_fd out_fd :: rest, b :: commands =>
    CanFinish capacity fresh pipes b (childTable table in_fd out_fd) ∧
      Prepared capacity pipes table pipes rest commands
  | fresh, table, pipes, .pipe none :: rest, commands =>
    Prepared capacity fresh table pipes rest commands
  | fresh, table, pipes, .openFile _ _ none :: rest, commands =>
    Prepared capacity fresh table pipes rest commands
  | _, _, _, _, _ => True

/-- The child of a stage that writes to a new pipe or to none. -/
theorem can_finish (wired : Wired first shell child output)
    (reads : first = false → b.reads = false)
    (room : ∀ p, output = .writeEnd p → fresh ≤ p ∧ p < pipes ∧ b.output ≤ capacity) :
    CanFinish capacity fresh pipes b child where
  input := wired_input wired reads
  room := by
    intro p found
    rw [wired.writes] at found
    exact room p (Option.some.inj found)

theorem prepared_of_fits (stage : AtStage redirection first input stages events commands table)
    (fits : Fits capacity first commands) (older : fresh ≤ pipes) :
    Prepared capacity fresh table pipes events commands := by
  induction stages generalizing first input events commands table fresh pipes with
  | nil => exact stage.expected.elim
  | cons c rest ih =>
    obtain ⟨b, commands, rfl⟩ := List.exists_cons_of_length_eq_add_one stage.counted
    obtain ⟨reads, room, later_fits⟩ := fits
    cases rest with
    | nil =>
      obtain rfl : commands = [] := by simpa using stage.counted
      obtain ⟨rfl, wired⟩ | ⟨file, append, fd, rfl, -, wired⟩ := final_stage stage
      · exact ⟨can_finish wired reads fun p terminal => (by cases terminal), trivial⟩
      · exact ⟨can_finish wired reads fun p terminal => (by cases terminal), trivial⟩
    | cons next rest =>
      obtain ⟨r, w, later, rfl, -, -, -, behind⟩ := piped_stage stage
      obtain ⟨wired, stage'⟩ := behind pipes
      have more : commands ≠ [] := by
        rintro rfl
        simpa using stage.counted
      refine ⟨can_finish wired reads fun p same => ?_, ih stage' later_fits (Nat.le_refl _)⟩
      cases same
      exact ⟨older, Nat.lt_succ_self _, room more⟩

/-- The child has a terminal or a file to read, and its pipe has room for all
it has still to write. -/
structure ChildSound (capacity : Nat) (s : System) (c : Child) : Prop where
  input : c.awaitsEnd = true ∨ c.call = .read → c.table.lookup STDIN_FILENO = some .other
  room : ∀ p, c.table.lookup STDOUT_FILENO = some (.writeEnd p) →
    p < s.pipes ∧ s.filled p + c.toWrite ≤ capacity
  writing : ∀ left, c.call = .write left → 0 < left ∧ left ≤ c.toWrite

/-- Kept by every step. While a child runs, all pipes made so far may have been
written to. -/
def Sound (capacity : Nat) (s : System) : Prop :=
  ∃ fresh, fresh ≤ s.pipes ∧ (∀ p, fresh ≤ p → s.filled p = 0) ∧
    Prepared capacity fresh s.table s.pipes s.script s.commands ∧
    ∀ c, s.running = some c → fresh = s.pipes ∧ ChildSound capacity s c

theorem shell_step_sound (sound : Sound capacity s) (idle : s.running = none)
    (stepped : shellStep s = some t) : Sound capacity t := by
  obtain ⟨fresh, older, empty, prepared, -⟩ := sound
  cases shell_step_moves stepped with
  | opensPipe script =>
    rw [script] at prepared
    exact ⟨fresh, Nat.le_succ_of_le older, empty, prepared, by simp [idle]⟩
  | opensFile script =>
    rw [script] at prepared
    exact ⟨fresh, older, empty, prepared, by simp [idle]⟩
  | starts script queue =>
    rw [script, queue] at prepared
    obtain ⟨can, later⟩ := prepared
    refine ⟨s.pipes, Nat.le_refl _, fun p new => empty p (Nat.le_trans older new), later, ?_⟩
    rintro c ⟨rfl⟩
    refine ⟨rfl, ?_, ?_, ?_⟩
    · rintro (awaits | reading)
      · exact can.input awaits
      · cases reading
    · intro p found
      obtain ⟨new, made, fits⟩ := can.room p found
      refine ⟨made, ?_⟩
      simpa [empty p new] using fits
    · rintro left ⟨⟩
  | pipeFails script =>
    rw [script] at prepared
    exact ⟨fresh, older, empty, prepared, by simp [idle]⟩
  | fileFails script =>
    rw [script] at prepared
    exact ⟨fresh, older, empty, prepared, by simp [idle]⟩

/-- What the pipe has gained the child no longer has to write. -/
theorem written_sound (own : ChildSound capacity s c) (call : c.call = .write left)
    (some_bytes : 0 < count) (bound : count ≤ left)
    (change : filled = s.filled ∨ ∃ p, c.table.lookup STDOUT_FILENO = some (.writeEnd p) ∧
      filled = Function.update s.filled p (s.filled p + count)) :
    ChildSound capacity { s with filled := filled } { c with
      toWrite := c.toWrite - count
      call := if count = left then .none else .write (left - count) } := by
  obtain ⟨-, within⟩ := own.writing left call
  refine ⟨?_, fun p found => ?_, fun more still => ?_⟩
  · rintro (waits | reading)
    · exact own.input (.inl waits)
    · split at reading <;> cases reading
  · obtain ⟨made, room⟩ := own.room p found
    refine ⟨made, ?_⟩
    rcases change with rfl | ⟨q, output, rfl⟩
    · simp only
      omega
    · rw [output] at found
      cases found
      simp only [Function.update_self]
      omega
  · split at still
    · cases still
    · cases still
      exact ⟨by omega, by simp only; omega⟩

theorem child_step_sound (sound : Sound capacity s) (running : s.running = some c)
    (stepped : childStep capacity s c a = some t) : Sound capacity t := by
  obtain ⟨fresh, older, empty, prepared, every⟩ := sound
  obtain ⟨rfl, own⟩ := every c running
  cases child_step_moves stepped with
  | beginsWrite call some_bytes bound =>
    refine ⟨s.pipes, older, empty, prepared, ?_⟩
    rintro _ ⟨rfl⟩
    refine ⟨rfl, ?_, own.room, ?_⟩
    · rintro (waits | reading)
      · exact own.input (.inl waits)
      · cases reading
    · rintro _ ⟨rfl⟩
      exact ⟨some_bytes, bound⟩
  | @writes left count filled call some_bytes bound change =>
    have untouched : ∀ p, s.pipes ≤ p → filled p = 0 := by
      intro p new
      rcases change with rfl | ⟨q, output, rfl⟩
      · exact empty p new
      · have made := (own.room q output).1
        rw [Function.update_of_ne (by omega), empty p new]
    refine ⟨s.pipes, older, untouched, prepared, ?_⟩
    rintro _ ⟨rfl⟩
    have kept := written_sound own call some_bytes bound change
    exact ⟨rfl, kept.input, kept.room, kept.writing⟩
  | beginsRead call awaits =>
    refine ⟨s.pipes, older, empty, prepared, ?_⟩
    rintro _ ⟨rfl⟩
    exact ⟨rfl, fun _ => own.input (.inl awaits), own.room, fun _ writes => by cases writes⟩
  | readReturns call same =>
    obtain rfl := same (own.input (.inr call))
    refine ⟨s.pipes, older, empty, prepared, ?_⟩
    rintro _ ⟨rfl⟩
    exact ⟨rfl, fun _ => own.input (.inr call), own.room, fun _ writes => by cases writes⟩
  | exits => exact ⟨s.pipes, older, empty, prepared, fun _ gone => by cases gone⟩

theorem step_sound (sound : Sound capacity s) (stepped : step capacity s a = some t) :
    Sound capacity t := by
  unfold step at stepped
  split at stepped
  · rename_i c running
    exact child_step_sound sound running stepped
  · rename_i idle
    split at stepped
    · exact shell_step_sound sound idle stepped
    · cases stepped

/-- A child in such a state is not blocked: its pipe has room for what it is
writing, and it is not reading from a pipe. -/
theorem sound_not_stuck (sound : Sound capacity s) : ¬ Stuck capacity s := by
  obtain ⟨fresh, -, -, -, every⟩ := sound
  rintro ⟨c, running, ⟨left, p, call, output, full⟩ | ⟨p, call, input, -⟩⟩
  · obtain ⟨-, own⟩ := every c running
    have room := (own.room p output).2
    have := own.writing left call
    omega
  · obtain ⟨-, own⟩ := every c running
    rw [own.input (.inr call)] at input
    cases input

/-! ## Pipelines that do not -/

/-- A child that waits for the end of a pipe the shell holds open comes to wait
for ever: it takes what is in the pipe and reads on. -/
theorem reading_stuck (running : s.running = some c) (call : c.call = .none)
    (awaits : c.awaitsEnd = true) (input : c.table.lookup STDIN_FILENO = some (.readEnd p))
    (held : Held s.table (.writeEnd p)) :
    ∃ t, Reachable (step capacity) s t ∧ Stuck capacity t := by
  -- in a `read` of the empty pipe
  have blocked : ∀ u : System, u.running = some { c with call := .read } → u.table = s.table →
      u.filled p = 0 → Stuck capacity u := fun u reading same empty =>
    ⟨_, reading, .inr ⟨p, rfl, input, empty, .inl (same ▸ held)⟩⟩
  have begins : ∀ u : System, u.running = some c → step capacity u .beginRead =
      some { u with running := some { c with call := .read } } := by
    intro u idle
    simp [step, idle, childStep, call, awaits]
  by_cases empty : s.filled p = 0
  · exact ⟨_, reachable_cons (begins s running) (reachable_refl _), blocked _ rfl rfl empty⟩
  · let drained : System := { s with
      running := some c
      filled := Function.update s.filled p (s.filled p - s.filled p) }
    have taken : step capacity { s with running := some { c with call := .read } }
        (.deliver (s.filled p)) = some drained := by
      have some_bytes : 0 < s.filled p := Nat.pos_of_ne_zero empty
      simp [step, childStep, input, some_bytes, drained, ← call]
    refine ⟨{ drained with running := some { c with call := .read } }, ?_, ?_⟩
    · exact reachable_cons (begins s running) (reachable_cons taken
        (reachable_cons (begins drained rfl) (reachable_refl _)))
    · exact blocked _ rfl rfl (by simp [drained])

/-- A child with more to write than its pipe takes comes to wait for ever. -/
theorem writing_stuck (running : s.running = some c) (call : c.call = .none)
    (output : c.table.lookup STDOUT_FILENO = some (.writeEnd p)) (empty : s.filled p = 0)
    (much : capacity < c.toWrite) : ∃ t, Reachable (step capacity) s t ∧ Stuck capacity t := by
  have begins : step capacity s (.beginWrite c.toWrite) =
      some { s with running := some { c with call := .write c.toWrite } } := by
    simp [step, running, childStep, call]
    omega
  by_cases none_fits : capacity = 0
  · refine ⟨_, reachable_cons begins (reachable_refl _), ?_⟩
    exact ⟨_, rfl, .inl ⟨_, p, rfl, output, by simp [empty, none_fits]⟩⟩
  · have part : ¬ capacity = c.toWrite := by omega
    have accepted : step capacity { s with running := some { c with call := .write c.toWrite } }
        (.accept capacity) = some { s with
          running := some { c with
            toWrite := c.toWrite - capacity
            call := .write (c.toWrite - capacity) }
          filled := Function.update s.filled p capacity } := by
      simp [step, childStep, output, empty, part]
      omega
    refine ⟨_, reachable_cons begins (reachable_cons accepted (reachable_refl _)), ?_⟩
    exact ⟨_, rfl, .inl ⟨_, p, rfl, output, by simp⟩⟩

/-! ### The command of a stage, once its descriptors are there -/

/-- A later command that reads its input to the end waits for ever. -/
theorem reader_sticks (wired : Wired false table (childTable table in_fd out_fd) output)
    (reads : b.reads = true) : ∃ t, Reachable (step capacity)
      ⟨.execute argv in_fd out_fd :: rest, b :: commands, table, pipes, filled, none⟩ t ∧
      Stuck capacity t := by
  obtain ⟨p, input, held⟩ := wired.piped rfl
  have sticks : ∃ t, Reachable (step capacity) ⟨rest, commands, table, pipes, filled,
      some ⟨childTable table in_fd out_fd, b.output, b.reads, .none⟩⟩ t ∧ Stuck capacity t :=
    reading_stuck rfl rfl reads input held
  obtain ⟨t, onward, stuck⟩ := sticks
  exact ⟨t, reachable_cons (execute_starts capacity argv in_fd out_fd) onward, stuck⟩

/-- So does a command that writes more than its pipe holds. -/
theorem writer_sticks (wired : Wired first table (childTable table in_fd out_fd) (.writeEnd p))
    (empty : filled p = 0) (much : capacity < b.output) : ∃ t, Reachable (step capacity)
      ⟨.execute argv in_fd out_fd :: rest, b :: commands, table, pipes, filled, none⟩ t ∧
      Stuck capacity t := by
  have sticks : ∃ t, Reachable (step capacity) ⟨rest, commands, table, pipes, filled,
      some ⟨childTable table in_fd out_fd, b.output, b.reads, .none⟩⟩ t ∧ Stuck capacity t :=
    writing_stuck rfl rfl wired.writes empty much
  obtain ⟨t, onward, stuck⟩ := sticks
  exact ⟨t, reachable_cons (execute_starts capacity argv in_fd out_fd) onward, stuck⟩

/-- Any other command can finish, and its pipe holds what it wrote. -/
theorem command_finishes (wired : Wired first table (childTable table in_fd out_fd) (.writeEnd p))
    (empty : filled p = 0) (reads : first = false → b.reads = false) (fits : b.output ≤ capacity) :
    Reachable (step capacity)
      ⟨.execute argv in_fd out_fd :: rest, b :: commands, table, pipes, filled, none⟩
      ⟨rest, commands, table, pipes, Function.update filled p b.output, none⟩ := by
  have input : b.reads = true →
      (childTable table in_fd out_fd).lookup STDIN_FILENO = some .other := wired_input wired reads
  have room : filled p + b.output ≤ capacity := by omega
  have finishes : Reachable (step capacity)
      ⟨rest, commands, table, pipes, filled,
        some ⟨childTable table in_fd out_fd, b.output, b.reads, .none⟩⟩
      ⟨rest, commands, table, pipes, Function.update filled p (filled p + b.output), none⟩ :=
    child_finishes (c := ⟨_, b.output, b.reads, .none⟩) rfl rfl input wired.writes room
  rw [empty, Nat.zero_add] at finishes
  exact reachable_cons (execute_starts capacity argv in_fd out_fd) finishes

/-- The run goes through the commands that fit up to the first that does not. -/
theorem stuck_reachable (stage : AtStage redirection first input stages events commands table)
    (misfit : ¬ Fits capacity first commands) (empty : ∀ p, pipes ≤ p → filled p = 0) :
    ∃ t, Reachable (step capacity) ⟨events, commands, table, pipes, filled, none⟩ t ∧
      Stuck capacity t := by
  induction stages generalizing first input events commands table pipes filled with
  | nil => exact stage.expected.elim
  | cons c rest ih =>
    obtain ⟨b, commands, rfl⟩ := List.exists_cons_of_length_eq_add_one stage.counted
    cases rest with
    | nil =>
      obtain rfl : commands = [] := by simpa using stage.counted
      obtain ⟨rfl, reads⟩ : first = false ∧ b.reads = true := by simpa [Fits] using misfit
      obtain ⟨rfl, wired⟩ | ⟨file, append, fd, rfl, fresh, wired⟩ := final_stage stage
      · exact reader_sticks wired reads
      · obtain ⟨t, onward, stuck⟩ := reader_sticks wired reads
        exact ⟨t, reachable_cons (file_opens capacity fresh) onward, stuck⟩
    | cons next rest =>
      obtain ⟨r, w, later, rfl, r_free, w_free, apart, behind⟩ := piped_stage stage
      obtain ⟨wired, stage'⟩ := behind pipes
      have unwritten : filled pipes = 0 := empty pipes (Nat.le_refl _)
      suffices opened : ∃ t, Reachable (step capacity)
          ⟨.execute (some c) input (Int.ofNat w) :: later, b :: commands,
            openPipe table r w pipes, pipes + 1, filled, none⟩ t ∧ Stuck capacity t by
        obtain ⟨t, onward, stuck⟩ := opened
        exact ⟨t, reachable_cons (pipe_opens capacity r_free w_free apart) onward, stuck⟩
      by_cases waits : first = false ∧ b.reads = true
      · obtain ⟨rfl, reads⟩ := waits
        exact reader_sticks wired reads
      by_cases much : capacity < b.output
      · exact writer_sticks wired unwritten much
      -- this command fits, so a later one does not
      have reads : first = false → b.reads = false := fun later =>
        Bool.not_eq_true _ ▸ fun reads => waits ⟨later, reads⟩
      have fits : b.output ≤ capacity := Nat.le_of_not_lt much
      have later_misfit : ¬ Fits capacity false commands := fun later_fits =>
        misfit ⟨reads, fun _ => fits, later_fits⟩
      have later_empty : ∀ p, pipes + 1 ≤ p → Function.update filled pipes b.output p = 0 := by
        intro p new
        rw [Function.update_of_ne (by omega), empty p (by omega)]
      obtain ⟨t, onward, stuck⟩ := ih stage' later_misfit later_empty
      exact ⟨t, reachable_trans (command_finishes wired unwritten reads fits) onward, stuck⟩

/-! ## Every run of a pipeline -/

theorem ParsedLine.at_stage (p : ParsedLine) :
    AtStage p.redirection true STDIN_FILENO p.stages p.events p.commands p.table :=
  ⟨p.expected, p.counted, p.input, p.output, .terminal rfl, p.free⟩

theorem misfit_gets_stuck (p : ParsedLine) (misfit : ¬ Fits capacity true p.commands) :
    ¬ NeverStuck capacity p := by
  intro never
  obtain ⟨t, ⟨actions, ran⟩, stuck⟩ := stuck_reachable p.at_stage misfit p.empty
  exact throughout_iff.mp (never actions) actions List.prefix_rfl t ran stuck

/-- In every run the shell gets past each child it waits for if and only if no
command but the first reads its input and every command but the last writes no
more than a pipe holds. -/
theorem never_stuck_iff (capacity : Nat) (p : ParsedLine) :
    NeverStuck capacity p ↔ Fits capacity true p.commands := by
  constructor
  · intro never
    by_contra misfit
    exact misfit_gets_stuck p misfit never
  · intro fits actions
    have start : Sound capacity p.start := ⟨p.pipes, Nat.le_refl _, p.empty,
      prepared_of_fits p.at_stage fits (Nat.le_refl _), fun _ none_yet => by cases none_yet⟩
    exact throughout_of_invariant (fun _ _ _ => step_sound) (fun _ => sound_not_stuck) start actions

/-- `a | b` from a fresh shell, when `b` reads what `a` writes. -/
def readingSecond : ParsedLine where
  redirection := none
  stages := [[[97#8]], [[98#8]]]
  events := [.pipe (some (3, 4)), .execute (some [[97#8]]) 0 4, .execute (some [[98#8]]) 3 1]
  expected := ⟨3, 4, _, rfl, rfl⟩
  commands := [⟨1, false⟩, ⟨0, true⟩]
  counted := rfl
  table := (Finmap.singleton 0 .other).insert 1 .other
  input := by decide
  output := by decide
  free := ⟨by decide, by decide⟩
  pipes := 0
  filled := fun _ => 0
  empty := fun _ _ => rfl

/-- The shell then waits for `b`, and `b` for the end of a pipe that the shell
itself holds open. -/
theorem second_command_waits_for_shell : ¬ ∀ capacity p, NeverStuck capacity p := by
  intro always
  refine misfit_gets_stuck readingSecond (fun fits => ?_) (always 65536 readingSecond)
  have no_input : true = false := fits.2.2.1 rfl
  cases no_input

end OsCourse.PipeDeadlock

import Mathlib.Data.Finmap
import OsCourse.StShell
import OsCourse.Transition

/-! The processes of a pipeline of the shell. `main` makes the calls of the line one by
one and waits for each child before it goes on, so at any time the shell and at
most one child exist. Which process holds which end of a pipe is read off their
descriptor tables. -/
namespace OsCourse.ShellProcesses
open Stdio StShell Transition

/-- What a descriptor is open for: an end of a pipe, or the terminal or a file. -/
inductive Descriptor where
  | other
  | readEnd (pipe : Nat)
  | writeEnd (pipe : Nat)
  deriving DecidableEq, Repr

/-- The open descriptors of a process. -/
abbrev FdTable := Finmap fun _ : Int => Descriptor

/-- `dup2`, which fails for a descriptor that is not open. -/
def dup2 (table : FdTable) (old new : Int) : FdTable :=
  match table.lookup old with
  | some descriptor => table.insert new descriptor
  | none => table

/-- The child of `execute_command` up to `execvp`. Its table is a copy of the
shell's, so it holds the ends of all pipes made so far. -/
def childTable (table : FdTable) (in_fd out_fd : Int) : FdTable :=
  let table := if in_fd ≠ STDIN_FILENO then (dup2 table in_fd STDIN_FILENO).erase in_fd else table
  if out_fd ≠ STDOUT_FILENO then (dup2 table out_fd STDOUT_FILENO).erase out_fd else table

/-- A command: the bytes it writes to its output, and whether it reads its
input up to the end. -/
structure Behaviour where
  output : Nat
  reads : Bool

/-- Between two calls, or in a `write` of so many bytes more, or in a `read`. -/
inductive Call where
  | none
  | write (left : Nat)
  | read
  deriving DecidableEq, Repr

structure Child where
  table : FdTable
  toWrite : Nat
  awaitsEnd : Bool
  call : Call

/-- The shell's descriptors behind a call of `pipe`. -/
def openPipe (table : FdTable) (r w pipe : Nat) : FdTable :=
  (table.insert (Int.ofNat r) (.readEnd pipe)).insert (Int.ofNat w) (.writeEnd pipe)

/-- The calls `main` has still to make, the commands it will start in them, its
descriptors, the pipes made so far and the bytes in them, and the child it waits
for. -/
structure System where
  script : List Event
  commands : List Behaviour
  table : FdTable
  pipes : Nat
  filled : Nat → Nat
  running : Option Child

inductive Action where
  | shell
  | beginWrite (count : Nat)
  | accept (count : Nat)
  | beginRead
  | deliver (count : Nat)
  | endOfFile
  | exit
  deriving DecidableEq, Repr

/-- Some descriptor of the process is open for this. -/
def Held (table : FdTable) (descriptor : Descriptor) : Prop :=
  ∃ fd ∈ table.keys, table.lookup fd = some descriptor

instance (table : FdTable) (descriptor : Descriptor) : Decidable (Held table descriptor) := by
  unfold Held
  infer_instance

/-- The next call of `main`. The kernel gives out descriptors that are free. -/
def shellStep (s : System) : Option System :=
  match s.script with
  | .pipe (some (r, w)) :: rest =>
    if Int.ofNat r ∉ s.table ∧ Int.ofNat w ∉ s.table ∧ r ≠ w then
      some { s with
        script := rest
        table := openPipe s.table r w s.pipes
        pipes := s.pipes + 1 }
    else none
  | .openFile _ _ (some fd) :: rest =>
    if Int.ofNat fd ∉ s.table then
      some { s with script := rest, table := s.table.insert (Int.ofNat fd) .other }
    else none
  | .execute _ in_fd out_fd :: rest =>
    match s.commands with
    | command :: commands =>
      some { s with
        script := rest
        commands := commands
        running := some ⟨childTable s.table in_fd out_fd, command.output, command.reads, .none⟩ }
    | [] => none
  | .pipe none :: rest | .openFile _ _ none :: rest => some { s with script := rest }
  | [] => none

/-- A step of the child, or of the kernel on its behalf. A pipe takes bytes as
long as it has room, and its end of file is reported once no process holds a
write end. -/
def childStep (capacity : Nat) (s : System) (c : Child) : Action → Option System
  | .shell => none
  | .beginWrite count =>
    if c.call = .none ∧ 0 < count ∧ count ≤ c.toWrite then
      some { s with running := some { c with call := .write count } }
    else none
  | .accept count =>
    match c.call with
    | .write left =>
      if 0 < count ∧ count ≤ left then
        let c := { c with
          toWrite := c.toWrite - count
          call := if count = left then .none else .write (left - count) }
        match c.table.lookup STDOUT_FILENO with
        | some .other => some { s with running := some c }
        | some (.writeEnd p) =>
          if s.filled p + count ≤ capacity then
            some { s with
              running := some c
              filled := Function.update s.filled p (s.filled p + count) }
          else none
        | _ => none
      else none
    | _ => none
  | .beginRead =>
    if c.call = .none ∧ c.awaitsEnd then some { s with running := some { c with call := .read } }
    else none
  | .deliver count =>
    match c.call, c.table.lookup STDIN_FILENO with
    | .read, some .other => some { s with running := some { c with call := .none } }
    | .read, some (.readEnd p) =>
      if 0 < count ∧ count ≤ s.filled p then
        some { s with
          running := some { c with call := .none }
          filled := Function.update s.filled p (s.filled p - count) }
      else none
    | _, _ => none
  | .endOfFile =>
    match c.call, c.table.lookup STDIN_FILENO with
    | .read, some .other =>
      some { s with running := some { c with call := .none, awaitsEnd := false } }
    | .read, some (.readEnd p) =>
      if s.filled p = 0 ∧ ¬ Held s.table (.writeEnd p) ∧ ¬ Held c.table (.writeEnd p) then
        some { s with running := some { c with call := .none, awaitsEnd := false } }
      else none
    | _, _ => none
  | .exit =>
    if c.call = .none ∧ c.toWrite = 0 ∧ c.awaitsEnd = false then some { s with running := none }
    else none

/-- With a child running the shell is in `waitpid`. -/
def step (capacity : Nat) (s : System) (a : Action) : Option System :=
  match s.running with
  | some c => childStep capacity s c a
  | none => if a = .shell then shellStep s else none

/-! ## Descriptor tables -/

theorem lookup_dup2 (table : FdTable) (new : Int) (there : table.lookup old = some descriptor) :
    (dup2 table old new).lookup new = some descriptor ∧
      ∀ fd, fd ≠ new → (dup2 table old new).lookup fd = table.lookup fd := by
  unfold dup2
  rw [there]
  exact ⟨Finmap.lookup_insert table, fun fd other => Finmap.lookup_insert_of_ne table other⟩

/-- The child has the shell's two descriptors as its standard ones. -/
theorem child_lookup (table : FdTable) (input : table.lookup in_fd = some a)
    (output : table.lookup out_fd = some b) (apart : in_fd ≠ out_fd)
    (not_input : out_fd ≠ STDIN_FILENO) :
    (childTable table in_fd out_fd).lookup STDIN_FILENO = some a ∧
      (childTable table in_fd out_fd).lookup STDOUT_FILENO = some b := by
  have standard : STDIN_FILENO ≠ STDOUT_FILENO := by decide
  -- behind the first `if` the input is in place and the output is where it was
  have first : ∃ t : FdTable, childTable table in_fd out_fd =
      (if out_fd ≠ STDOUT_FILENO then (dup2 t out_fd STDOUT_FILENO).erase out_fd else t) ∧
      t.lookup STDIN_FILENO = some a ∧ t.lookup out_fd = some b := by
    by_cases same : in_fd = STDIN_FILENO
    · exact ⟨table, by simp [childTable, same], same ▸ input, output⟩
    · obtain ⟨placed, others⟩ := lookup_dup2 table STDIN_FILENO input
      refine ⟨(dup2 table in_fd STDIN_FILENO).erase in_fd, by simp [childTable, same], ?_, ?_⟩
      · rw [Finmap.lookup_erase_ne (Ne.symm same), placed]
      · rw [Finmap.lookup_erase_ne (Ne.symm apart), others out_fd not_input, output]
  obtain ⟨t, child, input', output'⟩ := first
  rw [child]
  by_cases same : out_fd = STDOUT_FILENO
  · subst same
    simpa using ⟨input', output'⟩
  · obtain ⟨placed, others⟩ := lookup_dup2 t STDOUT_FILENO output'
    rw [if_pos same, Finmap.lookup_erase_ne (Ne.symm not_input), others _ standard,
      Finmap.lookup_erase_ne (Ne.symm same), placed]
    exact ⟨input', rfl⟩

theorem held_iff : Held table descriptor ↔ ∃ fd, table.lookup fd = some descriptor := by
  constructor
  · rintro ⟨fd, -, found⟩
    exact ⟨fd, found⟩
  · rintro ⟨fd, found⟩
    exact ⟨fd, Finmap.mem_keys.mpr (Finmap.mem_of_lookup_eq_some found), found⟩

/-- The later table holds at least what the earlier one held. -/
def Grown (before after : FdTable) : Prop :=
  ∀ fd descriptor, before.lookup fd = some descriptor → after.lookup fd = some descriptor

theorem insert_grown (table : FdTable) (free : fd ∉ table) :
    Grown table (table.insert fd descriptor) := by
  intro other held found
  have apart : other ≠ fd := by
    rintro rfl
    exact free (Finmap.mem_of_lookup_eq_some found)
  rw [Finmap.lookup_insert_of_ne table apart, found]

theorem held_grown (grown : Grown before after) (held : Held before descriptor) :
    Held after descriptor := by
  obtain ⟨fd, found⟩ := held_iff.mp held
  exact held_iff.mpr ⟨fd, grown fd descriptor found⟩

theorem open_pipe_grown (table : FdTable) (pipe : Nat) (r_free : Int.ofNat r ∉ table)
    (w_free : Int.ofNat w ∉ table) (apart : r ≠ w) : Grown table (openPipe table r w pipe) := by
  have w_later : Int.ofNat w ∉ table.insert (Int.ofNat r) (Descriptor.readEnd pipe) := by
    rw [Finmap.mem_insert]
    exact not_or.mpr ⟨fun same => apart (Int.ofNat.inj same).symm, w_free⟩
  intro fd descriptor found
  exact insert_grown _ w_later fd descriptor (insert_grown table r_free fd descriptor found)

/-! ## What a step can do -/

/-- What the calls of `main` do. -/
inductive ShellMoves (s : System) : System → Prop
  | opensPipe (script : s.script = .pipe (some (r, w)) :: rest) :
      ShellMoves s { s with
        script := rest
        table := openPipe s.table r w s.pipes
        pipes := s.pipes + 1 }
  | opensFile (script : s.script = .openFile file append (some fd) :: rest) :
      ShellMoves s { s with
        script := rest
        table := s.table.insert (Int.ofNat fd) .other }
  | starts (script : s.script = .execute argv in_fd out_fd :: rest)
      (queue : s.commands = b :: commands) :
      ShellMoves s { s with
        script := rest
        commands := commands
        running := some ⟨childTable s.table in_fd out_fd, b.output, b.reads, .none⟩ }
  | pipeFails (script : s.script = .pipe none :: rest) : ShellMoves s { s with script := rest }
  | fileFails (script : s.script = .openFile file append none :: rest) :
      ShellMoves s { s with script := rest }

theorem shell_step_moves (stepped : shellStep s = some t) : ShellMoves s t := by
  unfold shellStep at stepped
  split at stepped
  · rename_i script
    split at stepped
    · cases stepped
      exact .opensPipe script
    · cases stepped
  · rename_i script
    split at stepped
    · cases stepped
      exact .opensFile script
    · cases stepped
  · rename_i script
    split at stepped
    · rename_i queue
      cases stepped
      exact .starts script queue
    · cases stepped
  · rename_i script
    cases stepped
    exact .pipeFails script
  · rename_i script
    cases stepped
    exact .fileFails script
  · cases stepped

/-- What a child does. A pipe it reads from may lose bytes in the return of the
`read`, which may also have been the end of file. -/
inductive ChildMoves (s : System) (c : Child) : System → Prop
  | beginsWrite (call : c.call = .none) (some_bytes : 0 < count) (bound : count ≤ c.toWrite) :
      ChildMoves s c { s with running := some { c with call := .write count } }
  | writes (call : c.call = .write left) (some_bytes : 0 < count) (bound : count ≤ left)
      (change : filled = s.filled ∨ ∃ p, c.table.lookup STDOUT_FILENO = some (.writeEnd p) ∧
        filled = Function.update s.filled p (s.filled p + count)) :
      ChildMoves s c { s with
        running := some { c with
          toWrite := c.toWrite - count
          call := if count = left then .none else .write (left - count) }
        filled := filled }
  | beginsRead (call : c.call = .none) (awaits : c.awaitsEnd = true) :
      ChildMoves s c { s with running := some { c with call := .read } }
  | readReturns (call : c.call = .read)
      (same : c.table.lookup STDIN_FILENO = some .other → filled = s.filled) :
      ChildMoves s c { s with
        running := some { c with call := .none, awaitsEnd := awaits }
        filled := filled }
  | exits : ChildMoves s c { s with running := none }

theorem child_step_moves (stepped : childStep capacity s c a = some t) : ChildMoves s c t := by
  cases a with
  | shell => cases stepped
  | beginWrite count =>
    simp only [childStep, Option.ite_none_right_eq_some, Option.some.injEq] at stepped
    obtain ⟨⟨call, some_bytes, bound⟩, rfl⟩ := stepped
    exact .beginsWrite call some_bytes bound
  | accept count =>
    simp only [childStep] at stepped
    split at stepped
    · rename_i call
      split at stepped
      · rename_i bounds
        split at stepped
        · cases stepped
          exact .writes call bounds.1 bounds.2 (.inl rfl)
        · rename_i output
          split at stepped
          · cases stepped
            exact .writes call bounds.1 bounds.2 (.inr ⟨_, output, rfl⟩)
          · cases stepped
        · cases stepped
      · cases stepped
    · cases stepped
  | beginRead =>
    simp only [childStep, Option.ite_none_right_eq_some, Option.some.injEq] at stepped
    obtain ⟨⟨call, awaits⟩, rfl⟩ := stepped
    exact .beginsRead call awaits
  | deliver count =>
    simp only [childStep] at stepped
    split at stepped
    · rename_i call input
      cases stepped
      exact .readReturns call fun _ => rfl
    · rename_i call input
      split at stepped
      · cases stepped
        exact .readReturns call fun terminal => by simp [input] at terminal
      · cases stepped
    · cases stepped
  | endOfFile =>
    simp only [childStep] at stepped
    split at stepped
    · rename_i call input
      cases stepped
      exact .readReturns call fun _ => rfl
    · rename_i call input
      split at stepped
      · cases stepped
        exact .readReturns call fun _ => rfl
      · cases stepped
    · cases stepped
  | exit =>
    simp only [childStep, Option.ite_none_right_eq_some, Option.some.injEq] at stepped
    obtain ⟨-, rfl⟩ := stepped
    exact .exits

/-! ## Steps that are there -/

/-- The last call for a stage leaves the shell in `waitpid`. -/
theorem execute_starts (capacity : Nat) (argv : Option (List (List Byte))) (in_fd out_fd : Int) :
    step capacity ⟨.execute argv in_fd out_fd :: rest, b :: commands, table, pipes, filled, none⟩
      .shell = some ⟨rest, commands, table, pipes, filled,
        some ⟨childTable table in_fd out_fd, b.output, b.reads, .none⟩⟩ := rfl

theorem pipe_opens (capacity : Nat) (r_free : Int.ofNat r ∉ table) (w_free : Int.ofNat w ∉ table)
    (apart : r ≠ w) : step capacity
      ⟨.pipe (some (r, w)) :: rest, commands, table, pipes, filled, none⟩ .shell =
        some ⟨rest, commands, openPipe table r w pipes, pipes + 1, filled, none⟩ := by
  simp only [step, ↓reduceIte, shellStep]
  rw [if_pos ⟨r_free, w_free, apart⟩]

theorem file_opens (capacity : Nat) (fresh : Int.ofNat fd ∉ table) : step capacity
      ⟨.openFile file append (some fd) :: rest, commands, table, pipes, filled, none⟩ .shell =
        some ⟨rest, commands, table.insert (Int.ofNat fd) .other, pipes, filled, none⟩ := by
  simp only [step, ↓reduceIte, shellStep]
  rw [if_pos fresh]

/-- A child that reads the terminal can come to its end of file. -/
theorem child_reads (running : s.running = some c) (call : c.call = .none)
    (input : c.awaitsEnd = true → c.table.lookup STDIN_FILENO = some .other) :
    Reachable (step capacity) s { s with running := some { c with awaitsEnd := false } } := by
  by_cases awaits : c.awaitsEnd = true
  · have begins : step capacity s .beginRead =
        some { s with running := some { c with call := .read } } := by
      simp [step, running, childStep, call, awaits]
    have ended : step capacity { s with running := some { c with call := .read } } .endOfFile =
        some { s with running := some { c with awaitsEnd := false } } := by
      simp [step, childStep, input awaits, call]
    exact reachable_cons begins (reachable_cons ended (reachable_refl _))
  · have same : { s with running := some { c with awaitsEnd := false } } = s := by
      rw [Bool.not_eq_true] at awaits
      rw [← awaits, ← running]
    rw [same]
    exact reachable_refl s

/-- A child whose output its pipe takes as a whole can write all of it. -/
theorem child_writes (running : s.running = some c) (call : c.call = .none)
    (output : c.table.lookup STDOUT_FILENO = some (.writeEnd p))
    (fits : s.filled p + c.toWrite ≤ capacity) :
    Reachable (step capacity) s { s with
      running := some { c with toWrite := 0 }
      filled := Function.update s.filled p (s.filled p + c.toWrite) } := by
  by_cases nothing : c.toWrite = 0
  · have same : { s with
        running := some { c with toWrite := 0 }
        filled := Function.update s.filled p (s.filled p + c.toWrite) } = s := by
      rw [nothing, Nat.add_zero, Function.update_eq_self, ← nothing, ← running]
    rw [same]
    exact reachable_refl s
  · have some_bytes : 0 < c.toWrite := Nat.pos_of_ne_zero nothing
    have begins : step capacity s (.beginWrite c.toWrite) =
        some { s with running := some { c with call := .write c.toWrite } } := by
      simp [step, running, childStep, call, some_bytes]
    have accepted : step capacity { s with running := some { c with call := .write c.toWrite } }
        (.accept c.toWrite) = some { s with
          running := some { c with toWrite := 0 }
          filled := Function.update s.filled p (s.filled p + c.toWrite) } := by
      simp [step, childStep, output, some_bytes, fits, call]
    exact reachable_cons begins (reachable_cons accepted (reachable_refl _))

/-- Such a child can finish, and only its own pipe is changed. -/
theorem child_finishes (running : s.running = some c) (call : c.call = .none)
    (input : c.awaitsEnd = true → c.table.lookup STDIN_FILENO = some .other)
    (output : c.table.lookup STDOUT_FILENO = some (.writeEnd p))
    (fits : s.filled p + c.toWrite ≤ capacity) :
    Reachable (step capacity) s { s with
      running := none
      filled := Function.update s.filled p (s.filled p + c.toWrite) } := by
  refine reachable_trans (child_reads running call input) ?_
  refine reachable_trans (child_writes rfl call output fits) ?_
  refine reachable_cons (a := .exit) ?_ (reachable_refl _)
  simp [step, childStep, call]

end OsCourse.ShellProcesses

import Mathlib.Data.Finset.Dedup
import Mathlib.Data.Finset.Lattice.Lemmas
import OsCourse.ShellPipeline

/-! The shell's descriptors from prompt to prompt, for lines of any form. What
a line asks the kernel for is read off its words; the shell closes nothing, so
whatever it is given stays open. -/
namespace OsCourse.ShellDescriptors
open Stdio CString StShell ShellPipeline Transition

/-! ## What a line asks for -/

/-- A call of `pipe`, or one of `open` that may have a file name. -/
inductive Ask where
  | pipe
  | openFile (named : Bool)
  deriving DecidableEq

/-- The calls behind the words of a line, with `argc` words taken so far, and
the number of words left for the command behind the loop. -/
def asks : (argc : Nat) → List (List Byte) → List Ask × Nat
  | argc, [] => ([], argc)
  | argc, word :: more =>
    if argc < MAX_ARGS - 1 then
      if word = OUTPUT ∨ word = APPEND then ([.openFile (!more.isEmpty)], argc)
      else if word = PIPE then (.pipe :: (asks 0 more).1, (asks 0 more).2)
      else asks (argc + 1) more
    else ([], argc)

/-- The descriptors the kernel gives for one of the calls. -/
def granted (kernel : Kernel) (asked : Nat) : Ask → List Nat
  | .pipe => ((kernel.pipe asked).map fun ends => [ends.1, ends.2]).getD []
  | .openFile named => if named then (kernel.openFile asked).toList else []

def grantedAll (kernel : Kernel) : (asked : Nat) → List Ask → List Nat
  | _, [] => []
  | asked, ask :: rest => granted kernel asked ask ++ grantedAll kernel (asked + 1) rest

/-- After calls that all fail, the descriptor variables are the standard ones:
there was no call, or the last one was a `pipe` and its array held a 0. -/
def StandardBehind (kernel : Kernel) : (asked : Nat) → List Ask → Prop
  | _, [] => True
  | asked, [.pipe] => (kernel.leftover asked).1 = STDIN_FILENO
  | _, [.openFile _] => False
  | asked, _ :: next :: rest => StandardBehind kernel (asked + 1) (next :: rest)

/-- A line that leaves no trace: the kernel grants it nothing, and a command
behind the loop resets the variables or finds them as they were. -/
def Harmless (kernel : Kernel) (asked : Nat) (line : List (List Byte)) : Prop :=
  grantedAll kernel asked (asks 0 line).1 = [] ∧
    ((asks 0 line).2 = 0 → StandardBehind kernel asked (asks 0 line).1)

/-! ## The property -/

def gained : Event → List Nat
  | .pipe ends => (ends.map fun ends => [ends.1, ends.2]).getD []
  | .openFile _ _ fd => fd.toList
  | .execute _ _ _ => []

/-- The descriptors the shell has open, beside those it was started with. -/
def openFds (inherited : Finset Nat) (s : Shell) : Finset Nat :=
  inherited ∪ (s.events.flatMap gained).toFinset

/-- What a prompt should find. -/
def CleanPrompt (inherited : Finset Nat) (s : Shell) : Prop :=
  s.inFd = STDIN_FILENO ∧ s.outFd = STDOUT_FILENO ∧ openFds inherited s = inherited

/-- A new descriptor is none of those that are open all the time. -/
structure FreshKernel (inherited : Finset Nat) extends Kernel where
  pipe_fresh : ∀ asked r w, pipe asked = some (r, w) → r ∉ inherited ∧ w ∉ inherited
  open_fresh : ∀ asked fd, openFile asked = some fd → fd ∉ inherited

/-- The text the shell parses at its next round, unless the buffer is empty or
has lost its terminator. -/
def typedText (s : Shell) : Option (List Byte) :=
  match strlen s.fgets.command with
  | none | some 0 => none
  | some (last + 1) => some (cstr (s.fgets.command.set last NUL) 0)

def HarmlessLine (kernel : Kernel) (s : Shell) : Prop :=
  ∀ text, typedText s = some text → text ≠ EXIT → Harmless kernel s.asked (words text)

/-! ## The token loop over any words -/

/-- The descriptor variables and everything gained so far. -/
structure Books where
  inFd : Int
  outFd : Int
  gained : List Nat

def books (s : Shell) : Books := ⟨s.inFd, s.outFd, s.events.flatMap gained⟩

/-- What a call of the line does to the books. -/
def serve (kernel : Kernel) (asked : Nat) (b : Books) : Ask → Books
  | .pipe => ⟨((kernel.pipe asked).map fun ends => Int.ofNat ends.1).getD (kernel.leftover asked).1,
      STDOUT_FILENO, b.gained ++ granted kernel asked .pipe⟩
  | .openFile named =>
    ⟨b.inFd, ((if named then kernel.openFile asked else none).map Int.ofNat).getD (-1),
      b.gained ++ granted kernel asked (.openFile named)⟩

def serveAll (kernel : Kernel) : (asked : Nat) → Books → List Ask → Books
  | _, b, [] => b
  | asked, b, ask :: rest => serveAll kernel (asked + 1) (serve kernel asked b ask) rest

/-- The branches of `>` and `>>` ask for a file if there is a word behind. -/
theorem redirect_books (kernel : Kernel) (s : Shell) (append : Bool)
    (pending : Pending (strtok s.command save).mem (strtok s.command save).token
      (strtok s.command save).save more) :
    books (redirect kernel s save append) =
      serve kernel s.asked (books s) (.openFile (!more.isEmpty)) := by
  unfold redirect
  cases more with
  | nil =>
    have ended : (strtok s.command save).token = none := pending
    simp [ended, books, serve, granted, gained]
  | cons word more =>
    obtain ⟨position, tail, found, -⟩ := pending
    simp [found, books, serve, granted, gained]

theorem startPipe_books (kernel : Kernel) (s : Shell) :
    books (startPipe kernel s) = serve kernel s.asked (books s) .pipe := by
  cases answer : kernel.pipe s.asked <;>
    simp [startPipe, Shell.execute, books, serve, granted, gained, answer]

/-- Whatever the words are, the loop makes exactly the calls they ask for. -/
theorem token_loop_asks (kernel : Kernel) (line : List (List Byte)) (s : Shell)
    (pending : Pending s.command token save line) (enough : line.length < rounds) (argc : Nat) :
    books (tokenLoop kernel rounds s token save argc).1 =
        serveAll kernel s.asked (books s) (asks argc line).1 ∧
      (tokenLoop kernel rounds s token save argc).2 = (asks argc line).2 := by
  induction line generalizing s token save argc rounds with
  | nil =>
    have ended : token = none := pending
    rw [ended, token_loop_none]
    exact ⟨rfl, rfl⟩
  | cons word more ih =>
    obtain ⟨rounds, rfl⟩ : ∃ fewer, rounds = fewer + 1 := ⟨rounds - 1, by omega⟩
    have later : more.length < rounds := by simpa using enough
    unfold asks
    by_cases room : argc < MAX_ARGS - 1
    · rw [if_pos room]
      obtain ⟨position, tail, rfl, holds, front, scan, rest⟩ := id pending
      obtain ⟨next, -, -⟩ := pending_next scan
      rw [rest] at next
      by_cases output : word = OUTPUT
      · rw [if_pos (Or.inl output), tokenLoop, if_pos room, cstr_of_holds holds, if_pos output]
        exact ⟨redirect_books kernel s false next, rfl⟩
      · by_cases append : word = APPEND
        · rw [if_pos (Or.inr append), tokenLoop, if_pos room, cstr_of_holds holds, if_neg output,
            if_pos append]
          exact ⟨redirect_books kernel s true next, rfl⟩
        · rw [if_neg (not_or.mpr ⟨output, append⟩)]
          by_cases piped : word = PIPE
          · subst piped
            obtain ⟨mem, token', save', loop, onward⟩ := token_loop_pipe kernel rounds s pending room
            obtain ⟨balance, left⟩ := ih { startPipe kernel s with command := mem } onward later 0
            rw [if_pos rfl, loop, balance, left]
            refine ⟨?_, rfl⟩
            rw [serveAll, ← startPipe_books]
            rfl
          · rw [if_neg piped, token_loop_word kernel rounds s save argc holds
              ⟨piped, output, append⟩ room]
            exact ih _ next later (argc + 1)
    · rw [if_neg room, token_loop_full kernel _ s token save room]
      exact ⟨rfl, rfl⟩

theorem serve_all_gained (kernel : Kernel) (asked : Nat) (b : Books) (line : List Ask) :
    (serveAll kernel asked b line).gained = b.gained ++ grantedAll kernel asked line := by
  induction line generalizing asked b with
  | nil => exact (List.append_nil _).symm
  | cons ask rest ih =>
    have first : (serve kernel asked b ask).gained = b.gained ++ granted kernel asked ask := by
      cases ask <;> rfl
    rw [serveAll, ih, first, grantedAll, List.append_assoc]

/-- After calls that all fail, the last one decides what is in the variables:
`|` sets both of them, and a failed `open` leaves no descriptor at all. -/
theorem serve_all_standard_iff (kernel : Kernel) (asked : Nat) (b : Books) (ask : Ask)
    (rest : List Ask) (nothing : grantedAll kernel asked (ask :: rest) = []) :
    ((serveAll kernel asked b (ask :: rest)).inFd = STDIN_FILENO ∧
        (serveAll kernel asked b (ask :: rest)).outFd = STDOUT_FILENO) ↔
      StandardBehind kernel asked (ask :: rest) := by
  induction rest generalizing asked b ask with
  | nil =>
    rw [grantedAll, grantedAll, List.append_nil] at nothing
    cases ask with
    | pipe =>
      have refused : kernel.pipe asked = none := by
        cases answer : kernel.pipe asked with
        | none => rfl
        | some ends => simp [granted, answer] at nothing
      simp [serveAll, serve, refused, StandardBehind]
    | openFile named =>
      have refused : (if named then kernel.openFile asked else none) = none := by
        cases named with
        | false => rfl
        | true => simpa [granted] using nothing
      simp [serveAll, serve, refused, StandardBehind, STDOUT_FILENO]
  | cons next rest ih =>
    have later := (List.append_eq_nil_iff.mp nothing).2
    have step := ih (asked + 1) (serve kernel asked b ask) next later
    cases ask <;> exact step

theorem granted_fresh (kernel : FreshKernel inherited) (asked : Nat) (line : List Ask) :
    ∀ fd ∈ grantedAll kernel.toKernel asked line, fd ∉ inherited := by
  induction line generalizing asked with
  | nil =>
    intro fd member
    cases member
  | cons ask rest ih =>
    intro fd member
    rcases List.mem_append.mp member with here | later
    · cases ask with
      | pipe =>
        cases answer : kernel.pipe asked with
        | none => simp [granted, answer] at here
        | some ends =>
          obtain ⟨reads, writes⟩ := kernel.pipe_fresh asked ends.1 ends.2 answer
          simp only [granted, answer, Option.map_some, Option.getD_some, List.mem_cons,
            List.not_mem_nil, or_false] at here
          rcases here with rfl | rfl
          · exact reads
          · exact writes
      | openFile named =>
        cases named with
        | false => simp [granted] at here
        | true =>
          simp only [granted, ↓reduceIte, Option.mem_toList] at here
          exact kernel.open_fresh asked fd here
    · exact ih (asked + 1) fd later

/-- The rest of the line: a command that is there is started, and the variables
are set back behind it. -/
theorem end_line_books (s : Shell) (argc : Nat) :
    books (endLine s argc) =
      if argc = 0 then books s else ⟨STDIN_FILENO, STDOUT_FILENO, (books s).gained⟩ := by
  unfold endLine
  by_cases none_left : argc = 0
  · simp only [none_left, ↓reduceIte]
    rfl
  · simp [none_left, books, Shell.execute, gained]

theorem open_kept_iff {inherited : Finset Nat} {old new : List Nat}
    (before : inherited ∪ old.toFinset = inherited)
    (fresh : ∀ fd ∈ new, fd ∉ inherited) :
    inherited ∪ (old ++ new).toFinset = inherited ↔ new = [] := by
  rw [List.toFinset_append, ← Finset.union_assoc, before, Finset.union_eq_left]
  constructor
  · intro kept
    refine List.eq_nil_iff_forall_not_mem.mpr fun fd member => fresh fd member ?_
    exact kept (List.mem_toFinset.mpr member)
  · rintro rfl
    exact Finset.empty_subset inherited

/-- From a clean prompt a line leads to a clean prompt exactly when it is
harmless. -/
theorem line_clean_iff (kernel : FreshKernel inherited) (clean : CleanPrompt inherited s)
    (line : List (List Byte)) (after : books t =
      if (asks 0 line).2 = 0 then serveAll kernel.toKernel s.asked (books s) (asks 0 line).1
      else ⟨STDIN_FILENO, STDOUT_FILENO,
        (serveAll kernel.toKernel s.asked (books s) (asks 0 line).1).gained⟩) :
    CleanPrompt inherited t ↔ Harmless kernel.toKernel s.asked line := by
  obtain ⟨input, output, same⟩ := clean
  have prompt : CleanPrompt inherited t ↔ (books t).inFd = STDIN_FILENO ∧
      (books t).outFd = STDOUT_FILENO ∧ inherited ∪ (books t).gained.toFinset = inherited := Iff.rfl
  have opened := open_kept_iff same (granted_fresh kernel s.asked (asks 0 line).1)
  have gains := serve_all_gained kernel.toKernel s.asked (books s) (asks 0 line).1
  rw [prompt, after]
  unfold Harmless
  by_cases none_left : (asks 0 line).2 = 0
  · simp only [none_left, ↓reduceIte, true_imp_iff]
    rw [gains, ← and_assoc]
    refine Iff.trans (and_congr_right fun _ => opened) (and_comm.trans (and_congr_right ?_))
    intro nothing
    cases calls : (asks 0 line).1 with
    | nil => exact iff_of_true ⟨input, output⟩ trivial
    | cons ask rest =>
      rw [calls] at nothing
      exact serve_all_standard_iff kernel.toKernel s.asked (books s) ask rest nothing
  · simp only [none_left, ↓reduceIte, true_and, false_imp_iff, and_true]
    rw [gains]
    exact opened

/-! ## From prompt to prompt -/

/-- The loop leaves the input alone, and works on the buffer through `strtok`
only. -/
theorem token_loop_keeps (kernel : Kernel) {good : List Byte → Nat → Prop}
    (next : ∀ mem save, good mem save → good (strtok mem save).mem (strtok mem save).save)
    (rounds : Nat) (s : Shell) (token : Option Nat) (save argc : Nat)
    (start : good s.command save) :
    (tokenLoop kernel rounds s token save argc).1.stdin = s.stdin ∧
      ∃ save', good (tokenLoop kernel rounds s token save argc).1.command save' := by
  induction rounds generalizing s token save argc with
  | zero => exact ⟨rfl, save, start⟩
  | succ rounds ih =>
    have onward := next s.command save start
    have redirected (append : Bool) : (redirect kernel s save append).stdin = s.stdin ∧
        ∃ save', good (redirect kernel s save append).command save' := by
      unfold redirect
      dsimp only
      split <;> exact ⟨rfl, _, onward⟩
    cases token with
    | none => exact ⟨rfl, save, start⟩
    | some position =>
      unfold tokenLoop
      split
      · split
        · exact redirected false
        · split
          · exact redirected true
          · split <;> exact ih _ _ _ _ onward
      · exact ⟨rfl, save, start⟩

theorem token_loop_length (kernel : Kernel) (rounds : Nat) (s : Shell) (token : Option Nat)
    (save argc : Nat) :
    (tokenLoop kernel rounds s token save argc).1.command.length = s.command.length := by
  have next (mem : List Byte) (save : Nat) (same : mem.length = s.command.length) :
      (strtok mem save).mem.length = s.command.length := (strtok_length mem save).trans same
  obtain ⟨-, -, kept⟩ := token_loop_keeps kernel next rounds s token save argc rfl
  exact kept

theorem get_line_length (room : Nat) (input : List Byte) : (getLine room input).1.length ≤ room := by
  induction room generalizing input with
  | zero => simp [getLine]
  | succ room ih =>
    cases input with
    | nil => simp [getLine]
    | cons b input =>
      unfold getLine
      split
      · simp
      · simpa using ih input

theorem fgets_length {s : Shell} (whole : s.command.length = MAX_COMMAND_LEN) :
    s.fgets.command.length = MAX_COMMAND_LEN := by
  unfold Shell.fgets
  split
  · exact whole
  · have fits := get_line_length (MAX_COMMAND_LEN - 1) s.stdin
    simp only [List.length_append, List.length_cons, List.length_drop, whole]
    unfold MAX_COMMAND_LEN at *
    omega

theorem fgets_books (s : Shell) : books s.fgets = books s ∧ s.fgets.asked = s.asked := by
  unfold Shell.fgets
  split <;> exact ⟨rfl, rfl⟩

theorem strlen_le (length : strlen mem = some n) : n ≤ mem.length := by
  unfold strlen at length
  split at length
  · rw [← Option.some.inj length]
    exact (List.takeWhile_sublist _).length_le
  · cases length

/-- The character in front of the terminator becomes one too. -/
theorem stripped_terminated (length : strlen mem = some (last + 1)) : NUL ∈ mem.set last NUL :=
  List.mem_set (strlen_le length) NUL

theorem end_line_command (s : Shell) (argc : Nat) : (endLine s argc).command = s.command := by
  unfold endLine
  dsimp only
  split <;> rfl

/-- A round that comes back to the prompt has run the words of the typed text,
which are fewer than the rounds of the token loop. -/
theorem next_prompt_line (kernel : Kernel) {s t : Shell}
    (whole : s.command.length = MAX_COMMAND_LEN) (stepped : nextPrompt kernel s () = some t) :
    ∃ text, typedText s = some text ∧ text ≠ EXIT ∧ t.command.length = MAX_COMMAND_LEN ∧
      books t = if (asks 0 (words text)).2 = 0
        then serveAll kernel s.asked (books s) (asks 0 (words text)).1
        else ⟨STDIN_FILENO, STDOUT_FILENO,
          (serveAll kernel s.asked (books s) (asks 0 (words text)).1).gained⟩ := by
  have buffer := fgets_length whole
  obtain ⟨kept, asked⟩ := fgets_books s
  rw [← kept, ← asked]
  generalize read : s.fgets = r at buffer
  unfold nextPrompt readLoop at stepped
  unfold typedText
  simp only [read] at stepped ⊢
  cases length : strlen r.command with
  | none => simp [length] at stepped
  | some n =>
    cases n with
    | zero => simp [length] at stepped
    | succ last =>
      simp only [length, runLine] at stepped ⊢
      have holds := holds_cstr (stripped_terminated length)
      refine ⟨_, rfl, ?_⟩
      generalize cstr (r.command.set last NUL) 0 = text at stepped holds ⊢
      generalize mem_eq : r.command.set last NUL = mem at stepped holds
      have size : mem.length = MAX_COMMAND_LEN := by
        rw [← mem_eq, List.length_set]
        exact buffer
      have enough : (words text).length < MAX_COMMAND_LEN := by
        obtain ⟨-, junk, there⟩ := holds
        have fewer := words_length text
        have filled := congrArg List.length there
        rw [List.drop_zero, size, List.length_append, List.length_cons] at filled
        omega
      by_cases leaves : text = EXIT
      · simp [leaves] at stepped
      · simp only [leaves, ↓reduceIte, Option.some.injEq] at stepped
        obtain ⟨pending, -, -⟩ := pending_next holds
        obtain ⟨balance, left⟩ := token_loop_asks kernel (words text)
          { r with command := (strtok mem 0).mem } pending enough 0
        refine ⟨leaves, ?_, ?_⟩
        · rw [← stepped, end_line_command, token_loop_length]
          exact (strtok_length mem 0).trans size
        · rw [← stepped, end_line_books, left, balance]
          rfl

/-- The array `command`, whatever is in it. -/
structure CommandArray where
  bytes : List Byte
  size : bytes.length = MAX_COMMAND_LEN

theorem next_prompt_length (kernel : Kernel) (s : Shell) (a : Unit) (t : Shell)
    (whole : s.command.length = MAX_COMMAND_LEN) (stepped : nextPrompt kernel s a = some t) :
    t.command.length = MAX_COMMAND_LEN := by
  obtain ⟨-, -, -, kept, -⟩ := next_prompt_line kernel whole stepped
  exact kept

theorem next_prompt_clean_iff (kernel : FreshKernel inherited) (s : Shell) (a : Unit) (t : Shell)
    (before : s.command.length = MAX_COMMAND_LEN ∧ CleanPrompt inherited s)
    (stepped : nextPrompt kernel.toKernel s a = some t) :
    (t.command.length = MAX_COMMAND_LEN ∧ CleanPrompt inherited t) ↔
      HarmlessLine kernel.toKernel s := by
  obtain ⟨text, typed, goes_on, kept, after⟩ := next_prompt_line kernel.toKernel before.1 stepped
  rw [and_iff_right kept, line_clean_iff kernel before.2 (words text) after]
  constructor
  · intro harmless other again _
    rw [typed] at again
    exact Option.some.inj again ▸ harmless
  · intro harmless
    exact harmless text typed goes_on

/-- Every prompt of a run finds the standard descriptors and no others open
than at the start if and only if each line that was run is harmless. -/
theorem prompts_clean_iff (kernel : FreshKernel inherited) (stdin : List Byte)
    (command : CommandArray) (argv : Nat → Slot) (rounds : List Unit) :
    Throughout (nextPrompt kernel.toKernel) (CleanPrompt inherited)
        (startShell stdin command.bytes argv) rounds ↔
      Along (nextPrompt kernel.toKernel) (fun s _ => HarmlessLine kernel.toKernel s)
        (startShell stdin command.bytes argv) rounds := by
  have clean : CleanPrompt inherited (startShell stdin command.bytes argv) :=
    ⟨rfl, rfl, Finset.union_empty inherited⟩
  rw [← throughout_and_invariant (next_prompt_length kernel.toKernel) command.size]
  exact throughout_iff_along (next_prompt_clean_iff kernel) ⟨command.size, clean⟩

/-- A kernel with room for one file more. -/
def oneFile : FreshKernel {0, 1, 2} where
  pipe := fun _ => none
  leftover := fun _ => (0, 0)
  openFile := fun _ => some 3
  pipe_fresh := by
    intro asked r w none_left
    cases none_left
  open_fresh := by
    intro asked fd given
    cases given
    decide

def zeroed : CommandArray := ⟨List.replicate MAX_COMMAND_LEN NUL, List.length_replicate⟩

/-- `> f` -/
def redirectionOnly : List Byte := [62#8, 32#8, 102#8, NEWLINE]

/-- `> f` alone on its line opens the file and goes back to the prompt with it
as the output of the next command. -/
theorem redirection_leaks_into_next_line :
    ¬ ∀ (inherited : Finset Nat) (kernel : FreshKernel inherited) (stdin : List Byte)
      (command : CommandArray) (argv : Nat → Slot) (rounds : List Unit),
      Throughout (nextPrompt kernel.toKernel) (CleanPrompt inherited)
        (startShell stdin command.bytes argv) rounds := by
  intro clean
  have leaks : (exec (nextPrompt oneFile.toKernel)
      (startShell redirectionOnly zeroed.bytes fun _ => .wild) [()]).map Shell.outFd = some 3 := by
    decide
  obtain ⟨t, ran, output⟩ := Option.map_eq_some_iff.mp leaks
  have prompts := clean _ oneFile redirectionOnly zeroed (fun _ => .wild) [()]
  have standard := (throughout_iff.mp prompts [()] List.prefix_rfl t ran).2.1
  rw [output] at standard
  cases standard

end OsCourse.ShellDescriptors

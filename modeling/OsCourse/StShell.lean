import OsCourse.CString
import Mathlib.Logic.Function.Basic

/-! `stshell.c`: the read loop of `main`, from one prompt to the next. The
command buffer is modelled byte by byte, because the entries of `argv` are
pointers into it, and everything declared before the loop keeps its value from
line to line. -/
namespace OsCourse.StShell
open Stdio CString

def MAX_ARGS : Nat := 10

def MAX_COMMAND_LEN : Nat := 1024

def STDIN_FILENO : Int := 0

def STDOUT_FILENO : Int := 1

def NEWLINE : Byte := 10#8

/-- `"exit"` -/
def EXIT : List Byte := [101#8, 120#8, 105#8, 116#8]

/-- `">"` -/
def OUTPUT : List Byte := [62#8]

/-- `">>"` -/
def APPEND : List Byte := [62#8, 62#8]

/-- `"|"` -/
def PIPE : List Byte := [124#8]

/-- An entry of `argv`: a null pointer, a pointer into `command`, or whatever
the stack held. -/
inductive Slot where
  | null
  | token (position : Nat)
  | wild
  deriving DecidableEq, Repr

/-- The calls of `main` that reach the kernel or `execute_command`, with their
results. A name that is a null pointer and an `argv` that does not end in its
array are `none`. -/
inductive Event where
  | pipe (ends : Option (Nat × Nat))
  | openFile (name : Option (List Byte)) (append : Bool) (fd : Option Nat)
  | execute (argv : Option (List (List Byte))) (inFd outFd : Int)
  deriving DecidableEq, Repr

/-- The kernel's answers by the number of the question. `leftover` is what
`pipefd` holds behind a `pipe` that fails. -/
structure Kernel where
  pipe : Nat → Option (Nat × Nat)
  leftover : Nat → Int × Int
  openFile : Nat → Option Nat

structure Shell where
  stdin : List Byte
  command : List Byte
  argv : Nat → Slot
  inFd : Int
  outFd : Int
  asked : Nat
  events : List Event

/-- What `fgets` takes from its input with room for `room` bytes. -/
def getLine : (room : Nat) → List Byte → List Byte × List Byte
  | 0, input => ([], input)
  | _, [] => ([], [])
  | room + 1, b :: input =>
    if b = NEWLINE then ([b], input)
    else (b :: (getLine room input).1, (getLine room input).2)

/-- `fgets(command, MAX_COMMAND_LEN, stdin)`, which leaves the buffer alone at
the end of the input. -/
def Shell.fgets (s : Shell) : Shell :=
  if s.stdin = [] then s
  else
    let line := (getLine (MAX_COMMAND_LEN - 1) s.stdin).1
    { s with
      stdin := (getLine (MAX_COMMAND_LEN - 1) s.stdin).2
      command := line ++ NUL :: s.command.drop (line.length + 1) }

def strlen (mem : List Byte) : Option Nat :=
  if NUL ∈ mem then some (cstr mem 0).length else none

/-- The strings `execvp` finds in `argv` from entry `i` on. -/
def readArgv (command : List Byte) (argv : Nat → Slot) : (left i : Nat) → Option (List (List Byte))
  | 0, _ => none
  | left + 1, i =>
    match argv i with
    | .null => some []
    | .token position =>
      (readArgv command argv left (i + 1)).map fun words => cstr command position :: words
    | .wild => none

/-- A call of `execute_command` by `main`. -/
def Shell.execute (s : Shell) (inFd outFd : Int) : Shell :=
  { s with events := s.events ++ [.execute (readArgv s.command s.argv MAX_ARGS 0) inFd outFd] }

section Lines
variable (kernel : Kernel)

/-- The branches of `>` and `>>`, with the scan of the line at `save`. -/
def redirect (s : Shell) (save : Nat) (append : Bool) : Shell :=
  let next := strtok s.command save
  match next.token with
  | none =>
    { s with command := next.mem, outFd := -1, events := s.events ++ [.openFile none append none] }
  | some token =>
    let fd := kernel.openFile s.asked
    { s with
      command := next.mem
      outFd := (fd.map Int.ofNat).getD (-1)
      asked := s.asked + 1
      events := s.events ++ [.openFile (some (cstr next.mem token)) append fd] }

/-- The branch of `|`. -/
def startPipe (s : Shell) : Shell :=
  let ends := kernel.pipe s.asked
  let pipefd := (ends.map fun (r, w) => (Int.ofNat r, Int.ofNat w)).getD (kernel.leftover s.asked)
  let s := { s with asked := s.asked + 1, events := s.events ++ [Event.pipe ends] }
  { s.execute s.inFd pipefd.2 with inFd := pipefd.1, outFd := STDOUT_FILENO }

/-- The `while` loop over the tokens of a line. Every round takes a token, so
a line never needs more rounds than it has bytes. -/
def tokenLoop : (rounds : Nat) → Shell → (token : Option Nat) → (save argc : Nat) → Shell × Nat
  | 0, s, _, _, argc => (s, argc)
  | _ + 1, s, none, _, argc => (s, argc)
  | rounds + 1, s, some token, save, argc =>
    if argc < MAX_ARGS - 1 then
      if cstr s.command token = OUTPUT then (redirect kernel s save false, argc)
      else if cstr s.command token = APPEND then (redirect kernel s save true, argc)
      else if cstr s.command token = PIPE then
        let next := strtok s.command save
        tokenLoop rounds { startPipe kernel s with command := next.mem } next.token next.save 0
      else
        let next := strtok s.command save
        tokenLoop rounds
          { s with argv := Function.update s.argv argc (.token token), command := next.mem }
          next.token next.save (argc + 1)
    else (s, argc)

/-- How a round of the read loop ends: at the next prompt, behind the loop, or
with a write in front of the buffer or a read behind it. -/
inductive Outcome where
  | prompts (s : Shell)
  | leaves (s : Shell)
  | faults

/-- From the end of the token loop to the next prompt. -/
def endLine (s : Shell) (argc : Nat) : Shell :=
  let s := { s with argv := Function.update s.argv argc .null }
  if argc = 0 then s
  else { s.execute s.inFd s.outFd with inFd := STDIN_FILENO, outFd := STDOUT_FILENO }

/-- A line whose newline has been replaced. -/
def runLine (s : Shell) : Outcome :=
  if cstr s.command 0 = EXIT then .leaves s
  else
    let first := strtok s.command 0
    let (s, argc) :=
      tokenLoop kernel MAX_COMMAND_LEN { s with command := first.mem } first.token first.save 0
    .prompts (endLine s argc)

/-- One round of the read loop. -/
def readLoop (s : Shell) : Outcome :=
  let s := s.fgets
  match strlen s.command with
  | none | some 0 => .faults
  | some (last + 1) => runLine kernel { s with command := s.command.set last NUL }

/-- The program as steps from prompt to prompt. -/
def nextPrompt (s : Shell) (_ : Unit) : Option Shell :=
  match readLoop kernel s with
  | .prompts t => some t
  | _ => none

end Lines

/-- `main` before its first prompt. The local arrays hold anything. -/
def startShell (stdin command : List Byte) (argv : Nat → Slot) : Shell :=
  ⟨stdin, command, argv, STDIN_FILENO, STDOUT_FILENO, 0, []⟩

end OsCourse.StShell

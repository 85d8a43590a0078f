import OsCourse.Decimal
import OsCourse.Halting

/-! `partB.c`, the performance test: the server a port number chooses, the
client a name chooses, and the endpoints the two go to. The system answers each
call, and hands out the lowest descriptor number not in use. -/
namespace OsCourse.PerformanceTest
open Stdio Decimal Halting

/-! ## The command line -/

/-- An option as `getopt` returns it. With `-s` comes `argv[2]` of that moment. -/
inductive Opt where
  | s (argv2 : Option (List Byte))
  | c (optarg : String)
  | p (optarg : String)
  | q
  | invalid

/-- The variables of `main`. -/
structure Arguments where
  server : Bool := false
  client : Bool := false
  performanceTest : Bool := false
  quietMode : Bool := false
  ip : Option String := none
  port : BitVec 32 := 0
  param : Option String := none

/-- What `main` comes to. `atoi` of a null pointer crashes. -/
inductive Start where
  | usage
  | invalidOption
  | invalidCommand
  | crashed
  | server (port : BitVec 32) (performanceTest quietMode : Bool)
  | client (ip : Option String) (port : BitVec 32) (param : Option String)

def readOption (a : Arguments) : Opt → Except Start Arguments
  | .s (some argv2) => .ok { a with server := true, port := atoi argv2 }
  | .s none => .error .crashed
  | .c optarg => .ok { a with client := true, ip := some optarg }
  | .p optarg => .ok { a with param := some optarg }
  | .q => .ok { a with quietMode := true }
  | .invalid => .error .invalidOption

def main (argc : Nat) (options : List Opt) : Start :=
  if argc < 2 then .usage
  else
    match options.foldlM readOption {} with
    | .error start => start
    | .ok a =>
      if a.server then .server a.port a.performanceTest a.quietMode
      else if a.client then .client a.ip a.port a.param
      else .invalidCommand

/-! ## The process -/

/-- What a descriptor stands for, as far as `accept` asks. -/
inductive Kind where
  | socket
  | listening
  | connected
  | file
  deriving DecidableEq

/-- The place a server opens and a client goes to, with `sinPort` as it is stored. -/
inductive Endpoint where
  | tcpIpv4 (sinPort : BitVec 16)
  | tcpIpv6 (sin6Port : BitVec 16)
  | udsStream (socketPath : String)
  | udsDgram (socketPath : String)
  | mmap (filename : String)
  | pipe (filename : String)
  deriving DecidableEq

inductive Event where
  | opens (endpoint : Endpoint)
  | goesTo (endpoint : Endpoint)
  | accepted (clientSock : Nat)
  | received (message : List Byte)
  | responded (clientSock : Nat) (response : String)
  | prints (text : String)
  deriving DecidableEq

/-- How a call goes. Only `recv` looks at the data. -/
inductive Answer where
  | fails
  | succeeds (data : List Byte)

inductive Halt where
  | waiting
  | exited (message : String)
  | crashed

/-- The open descriptors, the answers to come, and what has happened so far. -/
structure Process where
  table : List (Option Kind)
  answers : List Answer
  events : List Event

abbrev Program (α : Type) := ExceptT Halt (StateM Process) α

def emit (event : Event) : Program Unit :=
  modify fun p => { p with events := p.events ++ [event] }

/-- A call that blocks until it is answered, and ends the process if it fails. -/
def check (message : String) : Program (List Byte) := do
  match (← get).answers with
  | [] => throw .waiting
  | .fails :: rest =>
    modify fun p => { p with answers := rest }
    throw (.exited message)
  | .succeeds data :: rest =>
    modify fun p => { p with answers := rest }
    return data

def exitIf (condition : Prop) [Decidable condition] (halt : Halt) : Program Unit :=
  if condition then throw halt else pure ()

def emitIf (condition : Prop) [Decidable condition] (event : Event) : Program Unit :=
  if condition then emit event else pure ()

/-- The lowest number not in use, and the table with it. -/
def place (kind : Kind) : List (Option Kind) → Nat × List (Option Kind)
  | [] => (0, [some kind])
  | none :: rest => (0, some kind :: rest)
  | some used :: rest => ((place kind rest).1 + 1, some used :: (place kind rest).2)

def newDescriptor (kind : Kind) : Program Nat := do
  let (fd, table) := place kind (← get).table
  modify fun p => { p with table := table }
  return fd

def setDescriptor (fd : Nat) (entry : Option Kind) : Program Unit :=
  modify fun p => { p with table := p.table.set fd entry }

def close (fd : Nat) : Program Unit := setDescriptor fd none

def socket : Program Nat := do
  let _ ← check "Socket creation failed"
  newDescriptor .socket

/-- `accept` of anything that does not listen fails at once. -/
def accept (serverSock : Nat) (message : String) : Program Nat := do
  exitIf ((← get).table[serverSock]? ≠ some (some .listening)) (.exited message)
  let _ ← check message
  newDescriptor .connected

/-! ## The servers -/

/-- `htons` on a little-endian machine. -/
def htons (port : BitVec 16) : BitVec 16 := port.rotateLeft 8

/-- The body that the three stream servers share: one client is accepted, and
the listening socket is closed behind it. -/
def streamServer (endpoint : Endpoint) : Program Nat := do
  let serverSock ← socket
  let _ ← check "Binding failed"
  emit (.opens endpoint)
  let _ ← check "Listening failed"
  setDescriptor serverSock (some .listening)
  emit (.prints "Waiting for client connection...\n")
  let clientSock ← accept serverSock "Accepting failed"
  emit (.prints "Client connected\n")
  close serverSock
  return clientSock

def tcpIpv4Server (port : BitVec 32) : Program Nat :=
  streamServer (.tcpIpv4 (htons (port.setWidth 16)))

def tcpIpv6Server (port : BitVec 32) : Program Nat :=
  streamServer (.tcpIpv6 (htons (port.setWidth 16)))

/-- Whether there was an old socket file to unlink is not looked at. -/
def udsStreamServer (socketPath : String) : Program Nat :=
  streamServer (.udsStream socketPath)

def udsDgramServer (socketPath : String) : Program Nat := do
  let serverSock ← socket
  let _ ← check "Binding failed"
  emit (.opens (.udsDgram socketPath))
  emit (.prints "Waiting for data...\n")
  let _ ← check "Receiving failed"
  emit (.prints "Data received from client\n")
  close serverSock
  return 0

def mmapServer (filename : String) : Program Nat := do
  let _ ← check "File opening failed"
  let fd ← newDescriptor .file
  emit (.opens (.mmap filename))
  let _ ← check "File seek failed"
  let _ ← check "File write failed"
  let _ ← check "Memory mapping failed"
  close fd
  return 0

def pipeServer (filename : String) : Program Nat := do
  let _ ← check "FIFO creation failed"
  emit (.opens (.pipe filename))
  let _ ← check "Pipe opening failed"
  let fd ← newDescriptor .file
  let _ ← check "Read failed"
  close fd
  return 0

/-- An `int` that `htons` has taken and given. -/
def htonsInt (port : BitVec 32) : BitVec 32 := (htons (port.setWidth 16)).setWidth 32

/-- The `switch` over the port number. -/
def openServer (port : BitVec 32) (invalid : String) : Program Nat :=
  if port = 1 then tcpIpv4Server (htonsInt port)
  else if port = 2 then tcpIpv6Server (htonsInt port)
  else if port = 3 then udsDgramServer "socket_path"
  else if port = 4 then udsStreamServer "socket_path"
  else if port = 5 then mmapServer "file_path"
  else if port = 6 then pipeServer "pipe_path"
  else throw (.exited invalid)

def acceptConnection (serverSock : Nat) : Program Nat := do
  let clientSock ← accept serverSock "Error accepting client connection"
  emit (.accepted clientSock)
  return clientSock

def BUFFER_SIZE : Nat := 1024

def handleClientRequest (clientSock : Nat) : Program Unit := do
  let data ← check "Error reading from client socket"
  emit (.received (data.take BUFFER_SIZE))
  let _ ← check "Error sending response to client"
  emit (.responded clientSock "Server response")

/-- The `while (1)` loop, watched for a number of rounds. A failed accept has
ended the process, so the test for -1 has nothing to find. -/
def serve (serverSock : Nat) : (rounds : Nat) → Program Unit
  | 0 => pure ()
  | rounds + 1 => do
    let clientSock ← acceptConnection serverSock
    handleClientRequest clientSock
    close clientSock
    serve serverSock rounds

/-- What is printed in front of the elapsed time. -/
def resultLabel (port : BitVec 32) : String :=
  if port = 1 then "ipv4_tcp,"
  else if port = 2 then "ipv6_tcp,"
  else if port = 3 then "uds_dgram,"
  else if port = 4 then "uds_stream,"
  else if port = 5 then "mmap,"
  else if port = 6 then "pipe,"
  else ""

def runServer (port : BitVec 32) (performanceTest quietMode : Bool) (rounds : Nat) :
    Program Unit := do
  emitIf (performanceTest = false) (.prints "Starting server...\n")
  exitIf (port.toInt < 0 ∨ port.toInt > 65535) (.exited "Invalid port number\n")
  if performanceTest then
    let serverSock ← openServer port "Invalid port number for performance test\n"
    emitIf (quietMode = false) (.prints (resultLabel port))
    close serverSock
  else
    let serverSock ← openServer port "Invalid port number\n"
    serve serverSock rounds

/-! ## The clients -/

/-- The body that the socket clients share. -/
def socketClient (endpoint : Endpoint) : Program Nat := do
  let sock ← socket
  let _ ← check "Connection failed"
  emit (.goesTo endpoint)
  return sock

/-- `inet_pton` comes between. -/
def tcpIpv4Client (ip : Option String) (port : BitVec 32) : Program Nat := do
  let sock ← socket
  exitIf (ip = none) .crashed
  let _ ← check "Invalid IP address"
  let _ ← check "Connection failed"
  emit (.goesTo (.tcpIpv4 (htons (port.setWidth 16))))
  return sock

def udsStreamClient (socketPath : String) : Program Nat :=
  socketClient (.udsStream socketPath)

def udsDgramClient (socketPath : String) : Program Nat :=
  socketClient (.udsDgram socketPath)

def mmapClient (filename : String) : Program Nat := do
  let _ ← check "File opening failed"
  let fd ← newDescriptor .file
  emit (.goesTo (.mmap filename))
  let _ ← check "File stat failed"
  let _ ← check "Memory mapping failed"
  close fd
  return 0

def pipeClient (filename : String) : Program Nat := do
  let _ ← check "Pipe opening failed"
  let fd ← newDescriptor .file
  emit (.goesTo (.pipe filename))
  let _ ← check "Write failed"
  close fd
  return 0

/-- The chain over `param`. For `"ipv6_tcp"` the call is commented out, and
`clientSock` stays whatever it was. -/
def openClient (ip : Option String) (port : BitVec 32) (param : String) (uninitialised : Nat) :
    Program Nat :=
  if param = "ipv4_tcp" then tcpIpv4Client ip port
  else if param = "ipv6_tcp" then pure uninitialised
  else if param = "uds_dgram" then udsDgramClient "socket_path"
  else if param = "uds_stream" then udsStreamClient "socket_path"
  else if param = "mmap" then mmapClient "file_path"
  else if param = "pipe" then pipeClient "pipe_path"
  else throw (.exited "Invalid parameter\n")

def runClient (ip : Option String) (port : BitVec 32) (param : Option String)
    (uninitialised : Nat) : Program Unit := do
  emit (.prints "Starting client...\n")
  exitIf (port.toInt < 0 ∨ port.toInt > 65535) (.exited "Invalid port number\n")
  match param with
  | none => throw (.exited "Parameter missing\n")
  | some param =>
    let clientSock ← openClient ip port param uninitialised
    emit (.prints "Time: ")
    close clientSock

/-- What the environment decides of a run. -/
structure Environment where
  inherited : List (Option Kind)
  answers : List Answer
  uninitialised : Nat
  rounds : Nat

/-- The events of a run, as far as it goes. -/
def events (argc : Nat) (options : List Opt) (env : Environment) : List Event :=
  let process : Process := ⟨env.inherited, env.answers, []⟩
  match main argc options with
  | .server port performanceTest quietMode =>
    (runServer port performanceTest quietMode env.rounds process).2.events
  | .client ip port param => (runClient ip port param env.uninitialised process).2.events
  | _ => []

/-! ## What `main` comes to -/

/-- Nothing sets `performanceTest`, and the port comes with `-s` only. -/
structure Parsed (a : Arguments) : Prop where
  performanceTest : a.performanceTest = false
  port : a.server = false → a.port = 0

theorem readOption_parsed {a b : Arguments} {option : Opt} (parsed : Parsed a)
    (read : readOption a option = .ok b) : Parsed b := by
  cases option with
  | s argv2 =>
    cases argv2 <;> cases read
    exact ⟨parsed.performanceTest, fun no_server => by cases no_server⟩
  | invalid => cases read
  | _ =>
    cases read
    exact ⟨parsed.performanceTest, parsed.port⟩

/-- What the loop over the options comes to, if it ends. -/
theorem readOptions_ends (options : List Opt) (parsed : Parsed a) :
    match options.foldlM readOption a with
    | .error start => start = .crashed ∨ start = .invalidOption
    | .ok b => Parsed b := by
  induction options generalizing a with
  | nil => exact parsed
  | cons option rest ih =>
    rw [List.foldlM_cons]
    cases read : readOption a option with
    | ok next => exact ih (readOption_parsed parsed read)
    | error start =>
      cases option with
      | s argv2 =>
        cases argv2 <;> cases read
        exact Or.inl rfl
      | invalid =>
        cases read
        exact Or.inr rfl
      | _ => cases read

theorem main_cases (argc : Nat) (options : List Opt) :
    (∃ port quietMode, main argc options = .server port false quietMode) ∨
      (∃ ip param, main argc options = .client ip 0 param) ∨
      main argc options ∈ [.usage, .invalidOption, .invalidCommand, .crashed] := by
  have ends := readOptions_ends options (show Parsed {} from ⟨rfl, fun _ => rfl⟩)
  unfold main
  by_cases few : argc < 2
  · rw [if_pos few]
    exact Or.inr (Or.inr (by simp))
  rw [if_neg few]
  cases read : options.foldlM readOption {} with
  | error start =>
    rw [read] at ends
    rcases ends with rfl | rfl <;> exact Or.inr (Or.inr (by simp))
  | ok a =>
    rw [read] at ends
    obtain ⟨performanceTest, port⟩ := ends
    dsimp only
    split
    · rw [performanceTest]
      exact Or.inl ⟨_, _, rfl⟩
    · rename_i no_server
      rw [port (Bool.eq_false_of_not_eq_true no_server)]
      split
      · exact Or.inr (Or.inl ⟨_, _, rfl⟩)
      · exact Or.inr (Or.inr (by simp))

end OsCourse.PerformanceTest

import OsCourse.QuietMode

/-! How `stnc.c` chooses a transport: `main` sets flags from the strings behind
`-p`, `run_client` goes through them twice, and `run_server` through the names
it knows. The chains end without an `else`. -/
namespace OsCourse.TestSelection
open Stdio CString ControlMessages QuietMode

/-- The variables `main` sets from the options. -/
structure Arguments where
  client : Bool := false
  server : Bool := false
  test : Bool := false
  quiet : Bool := false
  ip : Option String := none
  port : Option String := none
  type : Option String := none
  param : Option String := none
  deriving DecidableEq

/-- The variables it sets from `type` and `param`. -/
structure Selection where
  ipv4 : Bool := false
  ipv6 : Bool := false
  uds : Bool := false
  isMmap : Bool := false
  isPipe : Bool := false
  tcp : Bool := false
  udp : Bool := false
  dgram : Bool := false
  stream : Bool := false
  filename : Option String := none
  deriving DecidableEq

/-- `argv[i]`. A null pointer stands behind the arguments, and anything behind that. -/
def argument (argv : List String) (beyond : Nat → Option String) (i : Nat) : Option String :=
  if i ≤ argv.length then argv[i]? else beyond i

/-- One round of the loop over `argv`. -/
def readArgument (argv : List String) (beyond : Nat → Option String) (a : Arguments) (i : Nat) :
    Arguments :=
  let behind := argument argv beyond
  if behind i = some "-c" then
    { a with client := true, ip := behind (i + 1), port := behind (i + 2) }
  else if behind i = some "-s" then { a with server := true, port := behind (i + 1) }
  else if behind i = some "-p" then
    { a with test := true, type := behind (i + 1), param := behind (i + 2) }
  else if behind i = some "-q" then { a with quiet := true }
  else a

def readArguments (argv : List String) (beyond : Nat → Option String) : Arguments :=
  (List.range' 1 (argv.length - 1)).foldl (readArgument argv beyond) {}

def selectType (s : Selection) (type : String) : Selection :=
  if type = "ipv4" then { s with ipv4 := true }
  else if type = "ipv6" then { s with ipv6 := true }
  else if type = "uds" then { s with uds := true }
  else if type = "mmap" then { s with isMmap := true }
  else if type = "pipe" then { s with isPipe := true }
  else s

def selectParam (s : Selection) (param : String) : Selection :=
  if param = "tcp" then { s with tcp := true }
  else if param = "udp" then { s with udp := true }
  else if param = "dgram" then { s with dgram := true }
  else if param = "stream" then { s with stream := true }
  else { s with filename := some param }

/-- What `main` comes to: the usage message, `"No type or param after -p\n"`, or
one of the two roles. -/
inductive Start where
  | usage
  | rejected
  | client (a : Arguments) (s : Selection)
  | server (a : Arguments)
  deriving DecidableEq

def takeRole (a : Arguments) (s : Selection) : Start :=
  if a.client then .client a s else if a.server then .server a else .usage

def main (argv : List String) (beyond : Nat → Option String) : Start :=
  if argv.length < 2 then .usage
  else
    let a := readArguments argv beyond
    if a.test ∧ a.client then
      match a.type, a.param with
      | some type, some param => takeRole a (selectParam (selectType {} type) param)
      | _, _ => .rejected
    else takeRole a {}

/-! ## The client and the server -/

inductive Domain where
  | AF_INET
  | AF_INET6
  | AF_UNIX
  deriving DecidableEq

inductive SocketType where
  | SOCK_STREAM
  | SOCK_DGRAM
  deriving DecidableEq

def IPPROTO_TCP : Nat := 6

/-- The arguments `sendFile` and `receiveFile` hand to `socket`. -/
structure Socket where
  domain : Domain
  type : SocketType
  protocol : Nat
  deriving DecidableEq

inductive Sending where
  | sendFile (ip : Option String) (socket : Socket)
  | copyFileToSharedMemoryMmap (sharedFilename : Option String)
  | sendFileFifo (fifoName : Option String)
  deriving DecidableEq

inductive Receiving where
  | receiveFile (socket : Socket)
  | copyFileFromSharedMemoryMmap
  | receiveFileFifo
  deriving DecidableEq

/-- A message on the control connection, or a call that sends the file. -/
inductive Event where
  | message (bytes : List Byte)
  | routine (sending : Sending)
  deriving DecidableEq

structure ClientRun where
  events : List Event
  ending : Ending
  deriving DecidableEq

/-- The messages in front of the test name. -/
structure Announced where
  filesize_str : List Byte
  checksum_str : List Byte
  start_time_str : List Byte

def utf8 (s : String) : List Byte := s.toUTF8.toList.map UInt8.toBitVec

/-- The first chain of `run_client`, which sends the name of the test. -/
def announceTest (s : Selection) : List Event :=
  if s.tcp ∧ s.ipv4 then [.message Test.ipv4Tcp.message]
  else if s.udp ∧ s.ipv4 then [.message Test.ipv4Udp.message]
  else if s.tcp ∧ s.ipv6 then [.message Test.ipv6Tcp.message]
  else if s.udp ∧ s.ipv6 then [.message Test.ipv6Udp.message]
  else if s.uds ∧ s.dgram then [.message Test.udsDgram.message]
  else if s.uds ∧ s.stream then [.message Test.udsStream.message]
  else if s.isMmap then [.message Test.mmap.message]
  else if s.isPipe then [.message Test.pipe.message]
  else []

/-- The second chain, which sends the file. The name of the shared file goes to
`strlen`, which does not come back from a null pointer. -/
def sendTestFile (ip : Option String) (s : Selection) : ClientRun :=
  if s.tcp ∧ s.ipv4 then ⟨[.routine (.sendFile ip ⟨.AF_INET, .SOCK_STREAM, IPPROTO_TCP⟩)], .exits 0⟩
  else if s.udp ∧ s.ipv4 then ⟨[.routine (.sendFile ip ⟨.AF_INET, .SOCK_DGRAM, 0⟩)], .exits 0⟩
  else if s.tcp ∧ s.ipv6 then
    ⟨[.routine (.sendFile ip ⟨.AF_INET6, .SOCK_STREAM, IPPROTO_TCP⟩)], .exits 0⟩
  else if s.udp ∧ s.ipv6 then ⟨[.routine (.sendFile ip ⟨.AF_INET6, .SOCK_DGRAM, 0⟩)], .exits 0⟩
  else if s.uds ∧ s.dgram then ⟨[.routine (.sendFile none ⟨.AF_UNIX, .SOCK_DGRAM, 0⟩)], .exits 0⟩
  else if s.uds ∧ s.stream then ⟨[.routine (.sendFile none ⟨.AF_UNIX, .SOCK_STREAM, 0⟩)], .exits 0⟩
  else if s.isMmap then
    match s.filename with
    | some filename =>
      ⟨[.routine (.copyFileToSharedMemoryMmap (some filename)), .message (utf8 filename)], .exits 0⟩
    | none => ⟨[.routine (.copyFileToSharedMemoryMmap none)], .crashes⟩
  else if s.isPipe then
    match s.filename with
    | some filename => ⟨[.message (utf8 filename), .routine (.sendFileFifo (some filename))], .exits 0⟩
    | none => ⟨[], .crashes⟩
  else ⟨[], .exits 0⟩

/-- How far the client gets with its control connection. -/
inductive Connection where
  | noSocket
  | badAddress
  | refused
  | made
  deriving DecidableEq

/-- `run_client` with `test` set. `atoi` and `inet_pton` follow the pointers
`port` and `ip`. -/
def runClient (a : Arguments) (s : Selection) (announced : Announced) (connection : Connection) :
    ClientRun :=
  if connection = .noSocket then ⟨[], .exits 1⟩
  else if a.port = none ∨ a.ip = none then ⟨[], .crashes⟩
  else if connection ≠ .made then ⟨[], .exits 1⟩
  else
    let sent := sendTestFile a.ip s
    ⟨.message announced.filesize_str :: .message announced.checksum_str ::
      .message announced.start_time_str :: (announceTest s ++ sent.events), sent.ending⟩

/-- The branch of `run_server` for a test. -/
def receiving : Test → Receiving
  | .ipv4Tcp => .receiveFile ⟨.AF_INET, .SOCK_STREAM, IPPROTO_TCP⟩
  | .ipv4Udp => .receiveFile ⟨.AF_INET, .SOCK_DGRAM, 0⟩
  | .ipv6Tcp => .receiveFile ⟨.AF_INET6, .SOCK_STREAM, IPPROTO_TCP⟩
  | .ipv6Udp => .receiveFile ⟨.AF_INET6, .SOCK_DGRAM, 0⟩
  | .udsDgram => .receiveFile ⟨.AF_UNIX, .SOCK_DGRAM, 0⟩
  | .udsStream => .receiveFile ⟨.AF_UNIX, .SOCK_STREAM, 0⟩
  | .mmap => .copyFileFromSharedMemoryMmap
  | .pipe => .receiveFileFifo

/-- The chain of `run_server` on the message it has received. -/
def dispatch (message : List Byte) : Option Receiving :=
  (testNamed (cstr (recvInto cleared message) 0)).map receiving

/-! ## The property and its condition -/

/-- The transport of a socket. -/
def Socket.transport (socket : Socket) : Test :=
  match socket.domain, socket.type with
  | .AF_INET, .SOCK_STREAM => .ipv4Tcp
  | .AF_INET, .SOCK_DGRAM => .ipv4Udp
  | .AF_INET6, .SOCK_STREAM => .ipv6Tcp
  | .AF_INET6, .SOCK_DGRAM => .ipv6Udp
  | .AF_UNIX, .SOCK_DGRAM => .udsDgram
  | .AF_UNIX, .SOCK_STREAM => .udsStream

def Sending.transport : Sending → Test
  | .sendFile _ socket => socket.transport
  | .copyFileToSharedMemoryMmap _ => .mmap
  | .sendFileFifo _ => .pipe

def Receiving.transport : Receiving → Test
  | .receiveFile socket => socket.transport
  | .copyFileFromSharedMemoryMmap => .mmap
  | .receiveFileFifo => .pipe

/-- The flags of a transport are set. -/
def Selected (s : Selection) : Test → Prop
  | .ipv4Tcp => s.tcp ∧ s.ipv4
  | .ipv4Udp => s.udp ∧ s.ipv4
  | .ipv6Tcp => s.tcp ∧ s.ipv6
  | .ipv6Udp => s.udp ∧ s.ipv6
  | .udsDgram => s.uds ∧ s.dgram
  | .udsStream => s.uds ∧ s.stream
  | .mmap => s.isMmap
  | .pipe => s.isPipe

/-- The transport and no other is selected, and with a file name where it needs one. -/
structure Selects (s : Selection) (test : Test) : Prop where
  only : ∀ other, Selected s other ↔ other = test
  named : test = .mmap ∨ test = .pipe → s.filename ≠ none

def Event.sending : Event → Option Sending
  | .routine sending => some sending
  | .message _ => none

/-- The name sent, the one routine run and the one the server goes to are those
of the transport. -/
structure Transfers (s : Selection) (run : ClientRun) (test : Test) : Prop where
  selects : Selects s test
  announced : run.events[3]? = some (.message test.message)
  sent : (run.events.filterMap Event.sending).map Sending.transport = [test]
  received : (dispatch test.message).map Receiving.transport = some test

/-- The client rejects its arguments, or whatever comes of its connection it
exits before it has sent anything or all goes by one transport. -/
def Consistent (argv : List String) (beyond : Nat → Option String) : Prop :=
  main argv beyond = .rejected ∨ ∃ a s, main argv beyond = .client a s ∧
    ∀ announced connection, runClient a s announced connection = ⟨[], .exits 1⟩ ∨
      ∃ test, Transfers s (runClient a s announced connection) test

/-- The pairs of a type and a parameter that stand for a transport. -/
def Supported (type param : String) : Prop :=
  (type = "ipv4" ∨ type = "ipv6") ∧ (param = "tcp" ∨ param = "udp") ∨
    type = "uds" ∧ (param = "dgram" ∨ param = "stream") ∨
    (type = "mmap" ∨ type = "pipe") ∧ param ∉ ["tcp", "udp", "dgram", "stream"]

/-! ## The chains -/

/-- The flags say which strings they were set from. -/
theorem selection_eq (type param : String) :
    selectParam (selectType {} type) param =
      { ipv4 := type = "ipv4", ipv6 := type = "ipv6", uds := type = "uds", isMmap := type = "mmap",
        isPipe := type = "pipe", tcp := param = "tcp", udp := param = "udp",
        dgram := param = "dgram", stream := param = "stream",
        filename := if param ∈ ["tcp", "udp", "dgram", "stream"] then none else some param } := by
  have types : selectType {} type =
      { ipv4 := type = "ipv4", ipv6 := type = "ipv6", uds := type = "uds", isMmap := type = "mmap",
        isPipe := type = "pipe" } := by
    unfold selectType
    split_ifs with first second third fourth fifth <;> simp_all
  rw [types, selectParam]
  split_ifs with first second third fourth <;> simp_all

/-- Exactly one transport is selected, with a file name if it needs one, by the
supported pairs. -/
theorem selects_iff (type param : String) :
    (∃ test, Selects (selectParam (selectType {} type) param) test) ↔ Supported type param := by
  rw [selection_eq]
  constructor
  · rintro ⟨test, only, named⟩
    have chosen := (only test).mpr rfl
    cases test with
    | ipv4Tcp | ipv4Udp | ipv6Tcp | ipv6Udp =>
      simp only [Selected, decide_eq_true_eq] at chosen
      obtain ⟨rfl, rfl⟩ := chosen
      exact Or.inl ⟨by decide, by decide⟩
    | udsDgram | udsStream =>
      simp only [Selected, decide_eq_true_eq] at chosen
      obtain ⟨rfl, rfl⟩ := chosen
      exact Or.inr (Or.inl ⟨rfl, by decide⟩)
    | mmap =>
      simp only [Selected, decide_eq_true_eq] at chosen
      have given := named (Or.inl rfl)
      exact Or.inr (Or.inr ⟨Or.inl chosen, fun socket => given (if_pos socket)⟩)
    | pipe =>
      simp only [Selected, decide_eq_true_eq] at chosen
      have given := named (Or.inr rfl)
      exact Or.inr (Or.inr ⟨Or.inr chosen, fun socket => given (if_pos socket)⟩)
  · rintro (⟨rfl | rfl, rfl | rfl⟩ | ⟨rfl, rfl | rfl⟩ | ⟨rfl | rfl, other⟩)
    · exact ⟨.ipv4Tcp, fun test => by cases test <;> simp [Selected], by simp⟩
    · exact ⟨.ipv4Udp, fun test => by cases test <;> simp [Selected], by simp⟩
    · exact ⟨.ipv6Tcp, fun test => by cases test <;> simp [Selected], by simp⟩
    · exact ⟨.ipv6Udp, fun test => by cases test <;> simp [Selected], by simp⟩
    · exact ⟨.udsDgram, fun test => by cases test <;> simp [Selected], by simp⟩
    · exact ⟨.udsStream, fun test => by cases test <;> simp [Selected], by simp⟩
    · refine ⟨.mmap, fun test => by cases test <;> simp [Selected], fun _ => ?_⟩
      simp only [if_neg other]
      exact Option.some_ne_none param
    · refine ⟨.pipe, fun test => by cases test <;> simp [Selected], fun _ => ?_⟩
      simp only [if_neg other]
      exact Option.some_ne_none param

/-- The server knows each name that is sent. -/
theorem dispatch_message (test : Test) : dispatch test.message = some (receiving test) := by
  cases test <;> rfl

theorem receiving_transport (test : Test) : (receiving test).transport = test := by
  cases test <;> rfl

/-- With one transport selected both chains of the client find it. -/
theorem chains_agree (selects : Selects s test) (ip : Option String) :
    announceTest s = [.message test.message] ∧
      ((sendTestFile ip s).events.filterMap Event.sending).map Sending.transport = [test] := by
  obtain ⟨only, named⟩ := selects
  have first := only .ipv4Tcp
  have second := only .ipv4Udp
  have third := only .ipv6Tcp
  have fourth := only .ipv6Udp
  have fifth := only .udsDgram
  have sixth := only .udsStream
  have seventh := only .mmap
  have eighth := only .pipe
  simp only [Selected] at first second third fourth fifth sixth seventh eighth
  simp only [announceTest, sendTestFile, first, second, third, fourth, fifth, sixth, seventh, eighth]
  cases test with
  | mmap =>
    obtain ⟨filename, given⟩ := Option.ne_none_iff_exists'.mp (named (Or.inl rfl))
    simp only [given]
    exact ⟨rfl, rfl⟩
  | pipe =>
    obtain ⟨filename, given⟩ := Option.ne_none_iff_exists'.mp (named (Or.inr rfl))
    simp only [given]
    exact ⟨rfl, rfl⟩
  | _ => exact ⟨rfl, rfl⟩

/-- With the connection made the client transfers the file right when exactly
one transport is selected. -/
theorem transfers_iff (ip : a.ip ≠ none) (port : a.port ≠ none) (announced : Announced) :
    (∃ test, Transfers s (runClient a s announced .made) test) ↔ ∃ test, Selects s test := by
  constructor
  · rintro ⟨test, transfers⟩
    exact ⟨test, transfers.selects⟩
  · rintro ⟨test, selects⟩
    obtain ⟨name, routine⟩ := chains_agree selects a.ip
    have run : runClient a s announced .made =
        ⟨.message announced.filesize_str :: .message announced.checksum_str ::
          .message announced.start_time_str ::
            ([.message test.message] ++ (sendTestFile a.ip s).events),
          (sendTestFile a.ip s).ending⟩ := by
      simp only [runClient, name, ip, port, reduceCtorEq, or_self, ↓reduceIte, ne_eq, not_true_eq_false]
    refine ⟨test, selects, ?_, ?_, ?_⟩
    · rw [run]
      rfl
    · rw [run]
      exact routine
    · rw [dispatch_message, Option.map_some, receiving_transport]

/-- A client comes by its transport exactly with a supported pair and an address. -/
theorem client_consistent_iff (a : Arguments) (type param : String) :
    (∀ announced connection,
      runClient a (selectParam (selectType {} type) param) announced connection = ⟨[], .exits 1⟩ ∨
        ∃ test, Transfers (selectParam (selectType {} type) param)
          (runClient a (selectParam (selectType {} type) param) announced connection) test) ↔
      a.ip ≠ none ∧ a.port ≠ none ∧ Supported type param := by
  constructor
  · intro consistent
    have run := consistent ⟨[], [], []⟩ .made
    by_cases missing : a.port = none ∨ a.ip = none
    · simp only [runClient, reduceCtorEq, ↓reduceIte, if_pos missing] at run
      rcases run with exits | ⟨test, transfers⟩
      · cases exits
      · cases transfers.announced
    · obtain ⟨port, ip⟩ := not_or.mp missing
      refine ⟨ip, port, (selects_iff type param).mp ((transfers_iff ip port ⟨[], [], []⟩).mp ?_)⟩
      refine run.resolve_left fun exits => ?_
      simp only [runClient, if_neg missing, reduceCtorEq, ↓reduceIte, ne_eq, not_true_eq_false,
        ClientRun.mk.injEq, false_and] at exits
  · rintro ⟨ip, port, supported⟩ announced connection
    have address : ¬ (a.port = none ∨ a.ip = none) := not_or.mpr ⟨port, ip⟩
    cases connection with
    | made => exact Or.inr ((transfers_iff ip port announced).mpr ((selects_iff type param).mpr supported))
    | noSocket | badAddress | refused =>
      apply Or.inl
      simp only [runClient, if_neg address, reduceCtorEq, ↓reduceIte, ne_eq, not_false_eq_true]

/-! ## The arguments -/

/-- A client for a test with a type, a parameter and an address. -/
structure Asked (a : Arguments) (type param : Option String) : Prop where
  client : a.client = true
  test : a.test = true
  type : a.type = type
  param : a.param = param

theorem main_rejects (asked : Asked (readArguments argv beyond) type param)
    (some_arguments : ¬ argv.length < 2) (missing : type = none ∨ param = none) :
    main argv beyond = .rejected := by
  obtain ⟨client, test, same_type, same_param⟩ := asked
  simp only [main, if_neg some_arguments, client, test, same_type, same_param, and_self, ↓reduceIte]
  rcases missing with rfl | rfl
  · rfl
  · cases type <;> rfl

theorem consistent_iff_of_asked (asked : Asked (readArguments argv beyond) (some type) (some param))
    (some_arguments : ¬ argv.length < 2) :
    Consistent argv beyond ↔ (readArguments argv beyond).ip ≠ none ∧
      (readArguments argv beyond).port ≠ none ∧ Supported type param := by
  obtain ⟨client, test, same_type, same_param⟩ := asked
  have role : main argv beyond =
      .client (readArguments argv beyond) (selectParam (selectType {} type) param) := by
    simp only [main, if_neg some_arguments, client, test, same_type, same_param, and_self,
      ↓reduceIte, takeRole]
  rw [← client_consistent_iff, Consistent, role]
  constructor
  · rintro (rejected | ⟨a, s, same, consistent⟩)
    · cases rejected
    · cases same
      exact consistent
  · intro consistent
    exact Or.inr ⟨_, _, rfl, consistent⟩

section Loop
variable {argv : List String} {beyond : Nat → Option String} {a : Arguments} {i : Nat}

theorem read_client (client : a.client = true) : (readArgument argv beyond a i).client = true := by
  simp only [readArgument]
  split_ifs
  · rfl
  · exact client
  · exact client
  · exact client
  · exact client

theorem read_asked (asked : Asked a type param) (other : argument argv beyond i ≠ some "-p") :
    Asked (readArgument argv beyond a i) type param := by
  obtain ⟨client, test, same_type, same_param⟩ := asked
  simp only [readArgument, if_neg other]
  split_ifs
  · exact ⟨rfl, test, same_type, same_param⟩
  · exact ⟨client, test, same_type, same_param⟩
  · exact ⟨client, test, same_type, same_param⟩
  · exact ⟨client, test, same_type, same_param⟩

/-- Of several `-p` the last one counts. -/
theorem read_asks (client : a.client = true) (flag : argument argv beyond i = some "-p") :
    Asked (readArgument argv beyond a i) (argument argv beyond (i + 1))
      (argument argv beyond (i + 2)) := by
  simp only [readArgument, flag, Option.some.injEq, String.reduceEq, ↓reduceIte]
  exact ⟨client, rfl, rfl, rfl⟩

/-- The client has an address to connect to. -/
structure Addressed (a : Arguments) : Prop where
  client : a.client = true
  ip : a.ip ≠ none
  port : a.port ≠ none

theorem read_addressed (addressed : Addressed a) (next : argument argv beyond (i + 1) ≠ none)
    (second : argument argv beyond (i + 2) ≠ none) : Addressed (readArgument argv beyond a i) := by
  obtain ⟨client, ip, port⟩ := addressed
  simp only [readArgument]
  split_ifs
  · exact ⟨rfl, next, second⟩
  · exact ⟨client, ip, next⟩
  · exact ⟨client, ip, port⟩
  · exact ⟨client, ip, port⟩
  · exact ⟨client, ip, port⟩

/-- No flag takes anything from the arguments. -/
theorem read_word (word : argument argv beyond i = some text)
    (plain : text ∉ ["-c", "-s", "-p", "-q"]) : readArgument argv beyond a i = a := by
  simp only [List.mem_cons, List.not_mem_nil, or_false, not_or] at plain
  simp only [readArgument, word, Option.some.injEq, plain, ↓reduceIte]

end Loop

theorem supported_plain (supported : Supported type param) : type ∉ ["-c", "-s", "-p", "-q"] := by
  rcases supported with ⟨rfl | rfl, -⟩ | ⟨rfl, -⟩ | ⟨rfl | rfl, -⟩ <;> decide

/-- The arguments of a client in the order of the usage message. -/
def commandLine (program ip port type param : String) : List String :=
  [program, "-c", ip, port, "-p", type, param]

section CommandLine
variable (program ip port type param : String) (beyond : Nat → Option String)

/-- The options up to `-p`, with strings that may be read as options themselves. -/
def begun : Arguments :=
  [1, 2, 3].foldl (readArgument (commandLine program ip port type param) beyond) {}

def front : Arguments :=
  readArgument (commandLine program ip port type param) beyond
    (begun program ip port type param beyond) 4

theorem read_commandLine :
    readArguments (commandLine program ip port type param) beyond =
      readArgument (commandLine program ip port type param) beyond
        (readArgument (commandLine program ip port type param) beyond
          (front program ip port type param beyond) 5) 6 := rfl

theorem argument_inside (inside : i < 7) :
    argument (commandLine program ip port type param) beyond i ≠ none := by
  have bound : i < (commandLine program ip port type param).length := inside
  rw [argument, if_pos (Nat.le_of_lt bound), List.getElem?_eq_getElem bound]
  exact Option.some_ne_none _

theorem begun_addressed : Addressed (begun program ip port type param beyond) := by
  have inside (i : Nat) (bound : i < 7) :=
    argument_inside program ip port type param beyond bound
  have first : Addressed
      (readArgument (commandLine program ip port type param) beyond {} 1) :=
    ⟨rfl, inside 2 (by omega), inside 3 (by omega)⟩
  have second := read_addressed first (inside 3 (by omega)) (inside 4 (by omega))
  exact read_addressed second (inside 4 (by omega)) (inside 5 (by omega))

theorem front_addressed : Addressed (front program ip port type param beyond) := by
  apply read_addressed (begun_addressed program ip port type param beyond)
  · exact Option.some_ne_none type
  · exact Option.some_ne_none param

theorem front_asked :
    Asked (front program ip port type param beyond) (some type) (some param) := by
  have flag : argument (commandLine program ip port type param) beyond 4 = some "-p" := rfl
  exact read_asks (begun_addressed program ip port type param beyond).client flag

/-- A `-p` in the place of the type or the parameter leaves one of them out. -/
theorem asked_without (flag : type = "-p" ∨ param = "-p") :
    ∃ given second, Asked (readArguments (commandLine program ip port type param) beyond)
      given second ∧ (given = none ∨ second = none) := by
  have asked := front_asked program ip port type param beyond
  have fifth : argument (commandLine program ip port type param) beyond 5 = some type := rfl
  have sixth : argument (commandLine program ip port type param) beyond 6 = some param := rfl
  rw [read_commandLine]
  by_cases last : param = "-p"
  · refine ⟨_, _, read_asks (read_client asked.client) (sixth.trans (congrArg some last)), ?_⟩
    exact Or.inl rfl
  · have first := flag.resolve_right last
    have again := read_asks asked.client (fifth.trans (congrArg some first))
    refine ⟨_, _, read_asked again ?_, Or.inr rfl⟩
    rw [sixth]
    exact fun same => last (Option.some.inj same)

theorem asked_with (type_plain : type ≠ "-p") (param_plain : param ≠ "-p") :
    Asked (readArguments (commandLine program ip port type param) beyond) (some type)
      (some param) := by
  have asked := front_asked program ip port type param beyond
  rw [read_commandLine]
  apply read_asked
  · apply read_asked asked
    exact fun same => type_plain (Option.some.inj same)
  · exact fun same => param_plain (Option.some.inj same)

/-- Behind the type, a parameter that is an option itself takes the address away. -/
theorem address_iff (type_plain : type ∉ ["-c", "-s", "-p", "-q"]) (param_plain : param ≠ "-p") :
    ((readArguments (commandLine program ip port type param) beyond).ip ≠ none ∧
      (readArguments (commandLine program ip port type param) beyond).port ≠ none) ↔
      param ∉ ["-c", "-s"] := by
  obtain ⟨-, ip_there, port_there⟩ := front_addressed program ip port type param beyond
  have fifth : argument (commandLine program ip port type param) beyond 5 = some type := rfl
  have sixth : argument (commandLine program ip port type param) beyond 6 = some param := rfl
  have seventh : argument (commandLine program ip port type param) beyond 7 = none := rfl
  rw [read_commandLine, read_word fifth type_plain]
  simp only [readArgument, sixth, seventh, Option.some.injEq, if_neg param_plain]
  split_ifs with client server quiet
  · simp [client]
  · simp [server]
  · simp [ip_there, port_there, client, server]
  · simp [ip_there, port_there, client, server]

/-- The client goes by one transport or rejects its arguments exactly with a pair
that stands for a transport and is not read as an option as well, or with a `-p`
in the place of the type or the parameter. -/
theorem selection_consistent_iff :
    Consistent (commandLine program ip port type param) beyond ↔
      type = "-p" ∨ param = "-p" ∨ Supported type param ∧ param ∉ ["-c", "-s"] := by
  have enough : ¬ (commandLine program ip port type param).length < 2 := by
    simp [commandLine]
  by_cases flag : type = "-p" ∨ param = "-p"
  · obtain ⟨given, second, asked, missing⟩ := asked_without program ip port type param beyond flag
    apply iff_of_true (Or.inl (main_rejects asked enough missing))
    exact flag.imp_right Or.inl
  · obtain ⟨type_plain, param_plain⟩ := not_or.mp flag
    rw [consistent_iff_of_asked
      (asked_with program ip port type param beyond type_plain param_plain) enough, ← and_assoc]
    constructor
    · rintro ⟨address, supported⟩
      refine Or.inr (Or.inr ⟨supported, ?_⟩)
      exact (address_iff program ip port type param beyond (supported_plain supported)
        param_plain).mp address
    · rintro (first | last | ⟨supported, plain⟩)
      · exact absurd first type_plain
      · exact absurd last param_plain
      · refine ⟨?_, supported⟩
        exact (address_iff program ip port type param beyond (supported_plain supported)
          param_plain).mpr plain

end CommandLine

/-- A type and a parameter that do not go together pass for a test without a
transport. -/
theorem mismatched_pair_passes :
    ¬ ∀ program ip port type param beyond,
      Consistent (commandLine program ip port type param) beyond := by
  intro always
  have consistent := always "stnc" "127.0.0.1" "5000" "ipv4" "foo" fun _ => none
  have asked := asked_with "stnc" "127.0.0.1" "5000" "ipv4" "foo" (fun _ => none) (by decide)
    (by decide)
  obtain ⟨-, -, supported⟩ := (consistent_iff_of_asked asked (by decide)).mp consistent
  simp [Supported] at supported

end OsCourse.TestSelection

import OsCourse.PerformanceTest

/-! What each call of the performance test leaves behind: conditions on the table
of descriptors and on the events so far, for each server and each client. -/
namespace OsCourse.PerformanceCalls
open Stdio Halting PerformanceTest

/-- Where the server of a port number waits. -/
def endpointOf (port : BitVec 32) : Option Endpoint :=
  if port = 1 then some (.tcpIpv4 (htons ((htonsInt port).setWidth 16)))
  else if port = 2 then some (.tcpIpv6 (htons ((htonsInt port).setWidth 16)))
  else if port = 3 then some (.udsDgram "socket_path")
  else if port = 4 then some (.udsStream "socket_path")
  else if port = 5 then some (.mmap "file_path")
  else if port = 6 then some (.pipe "pipe_path")
  else none

/-- Where the client of a name goes. -/
def destinationOf (port : BitVec 32) (param : String) : Option Endpoint :=
  if param = "ipv4_tcp" then some (.tcpIpv4 (htons (port.setWidth 16)))
  else if param = "uds_dgram" then some (.udsDgram "socket_path")
  else if param = "uds_stream" then some (.udsStream "socket_path")
  else if param = "mmap" then some (.mmap "file_path")
  else if param = "pipe" then some (.pipe "pipe_path")
  else none

/-- The numbers whose server leaves 0 in place of a socket. -/
def LeavesZero (port : BitVec 32) : Prop := port = 3 ∨ port = 5 ∨ port = 6

/-! ## The table -/

theorem place_self (kind : Kind) (table : List (Option Kind)) :
    (place kind table).2[(place kind table).1]? = some (some kind) := by
  induction table with
  | nil => rfl
  | cons entry rest ih =>
    cases entry with
    | none => rfl
    | some used => exact ih

theorem place_other (kind used : Kind) (table : List (Option Kind)) (fd : Nat) :
    (place kind table).2[fd]? = table[fd]? ∨
      (place kind table).1 = fd ∧ table[fd]? ≠ some (some used) := by
  induction table generalizing fd with
  | nil =>
    cases fd with
    | zero => exact Or.inr ⟨rfl, by simp⟩
    | succ fd => exact Or.inl rfl
  | cons entry rest ih =>
    cases fd with
    | zero =>
      cases entry with
      | none => exact Or.inr ⟨rfl, by simp⟩
      | some other => exact Or.inl rfl
    | succ fd =>
      cases entry with
      | none => exact Or.inl rfl
      | some other =>
        rcases ih fd with same | ⟨placed, free⟩
        · exact Or.inl same
        · exact Or.inr ⟨congrArg Nat.succ placed, free⟩

theorem placed_listening {fd : Nat} (other : kind ≠ .listening)
    (listens : (place kind table).2[fd]? = some (some .listening)) :
    table[fd]? = some (some .listening) := by
  rcases place_other kind .listening table fd with same | ⟨placed, -⟩
  · exact same ▸ listens
  · rw [← placed, place_self] at listens
    cases listens
    exact absurd rfl other

theorem closed_entry {table : List (Option Kind)} {other : Nat}
    (closed : (table.set fd none)[other]? = some (some kind)) :
    table[other]? = some (some kind) := by
  rw [List.getElem?_set] at closed
  split at closed
  · split at closed <;> cases closed
  · exact closed

/-! ## What each call leaves -/

/-- The events so far are of this kind. -/
def Only (allowed : Event → Prop) (p : Process) : Prop := ∀ event ∈ p.events, allowed event

def Holds (table : List (Option Kind) → Prop) (allowed : Event → Prop) (p : Process) : Prop :=
  table p.table ∧ Only allowed p

section Calls
variable {allowed : Event → Prop} {before : List (Option Kind) → Prop}

theorem check_leaves (message : String) :
    Leaves (Holds before allowed) (check message) (fun _ => Holds before allowed) (Only allowed) := by
  rintro ⟨table, answers, events⟩ holds result t ran
  cases answers with
  | nil =>
    cases ran
    exact holds.2
  | cons answer rest =>
    cases answer <;> cases ran
    · exact holds.2
    · exact holds

theorem emit_leaves (fits : allowed event) :
    Leaves (Holds before allowed) (emit event) (fun _ => Holds before allowed) (Only allowed) := by
  rintro p ⟨table, only⟩ result t ran
  cases ran
  refine ⟨table, fun other listed => ?_⟩
  rcases List.mem_append.mp listed with old | new
  · exact only other old
  · rw [List.mem_singleton.mp new]
    exact fits

theorem emitIf_leaves {condition : Prop} [Decidable condition] (fits : allowed event) :
    Leaves (Holds before allowed) (emitIf condition event) (fun _ => Holds before allowed)
      (Only allowed) := by
  unfold emitIf
  split
  · exact emit_leaves fits
  · exact leaves_pure fun _ holds => holds

theorem exitIf_leaves {condition : Prop} [Decidable condition] {pre halts : Process → Prop}
    (h : Halt) (ends : ∀ p, pre p → halts p) :
    Leaves pre (exitIf condition h) (fun _ p => ¬ condition ∧ pre p) halts := by
  unfold exitIf
  split
  · exact leaves_throw ends
  · rename_i on
    exact leaves_pure fun _ holds => ⟨on, holds⟩

theorem exitIf_passes {condition : Prop} [Decidable condition] (h : Halt) :
    Leaves (Holds before allowed) (exitIf condition h) (fun _ => Holds before allowed)
      (Only allowed) :=
  leaves_weaken (exitIf_leaves h fun _ holds => holds.2) (fun _ holds => holds) fun _ _ both => both.2

theorem setDescriptor_leaves (after : List (Option Kind) → Prop) (fd : Nat)
    (entry : Option Kind)
    (set : ∀ table, before table → after (table.set fd entry)) :
    Leaves (Holds before allowed) (setDescriptor fd entry) (fun _ => Holds after allowed)
      (Only allowed) := by
  rintro p ⟨table, only⟩ result t ran
  cases ran
  exact ⟨set _ table, only⟩

theorem newDescriptor_leaves (after : Nat → List (Option Kind) → Prop) (kind : Kind)
    (placed : ∀ table, before table → after (place kind table).1 (place kind table).2) :
    Leaves (Holds before allowed) (newDescriptor kind) (fun fd => Holds (after fd) allowed)
      (Only allowed) := by
  rintro p ⟨table, only⟩ result t ran
  cases ran
  exact ⟨placed _ table, only⟩

/-- An accept that returns was on a listening socket. -/
theorem accept_leaves (after : Nat → List (Option Kind) → Prop) (serverSock : Nat)
    (message : String)
    (accepted : ∀ table, before table → table[serverSock]? = some (some .listening) →
      after (place .connected table).1 (place .connected table).2) :
    Leaves (Holds before allowed) (accept serverSock message) (fun fd => Holds (after fd) allowed)
      (Only allowed) := by
  unfold accept
  apply leaves_get
  intro p
  apply leaves_then (exitIf_leaves _ fun q holds => holds.2.2)
  apply leaves_then
    (leaves_weaken (check_leaves message) ?_ fun _ _ holds => holds) ?_
  · exact fun table => before table ∧ table[serverSock]? = some (some .listening)
  · rintro q ⟨listens, rfl, holds⟩
    exact ⟨⟨holds.1, not_not.mp listens⟩, holds.2⟩
  · exact newDescriptor_leaves after .connected fun table both => accepted table both.1 both.2

theorem socket_leaves (after : Nat → List (Option Kind) → Prop)
    (placed : ∀ table, before table → after (place .socket table).1 (place .socket table).2) :
    Leaves (Holds before allowed) socket (fun fd => Holds (after fd) allowed) (Only allowed) :=
  leaves_then (check_leaves _) (newDescriptor_leaves after .socket placed)

theorem finish_leaves (result : Nat) :
    Leaves (Holds before allowed) (pure result : Program Nat)
      (fun fd p => fd = result ∧ Holds before allowed p) (Only allowed) :=
  leaves_pure fun _ holds => ⟨rfl, holds⟩

/-! ## What each server leaves -/

/-- A stream server has its client, and still the socket that listens. -/
def HasClient (serverSock clientSock : Nat) (table : List (Option Kind)) : Prop :=
  table[clientSock]? = some (some .connected) ∧ table[serverSock]? = some (some .listening)

theorem client_stays (has : HasClient serverSock clientSock table) :
    (table.set serverSock none)[clientSock]? = some (some .connected) := by
  obtain ⟨client, server⟩ := has
  have apart : serverSock ≠ clientSock := by
    rintro rfl
    rw [client] at server
    cases server
  rw [List.getElem?_set_ne apart]
  exact client

/-- A stream server gets its client, or halts before. -/
theorem streamServer_leaves {post : Nat → Process → Prop}
    (waits : allowed (.prints "Waiting for client connection...\n"))
    (opens : allowed (.opens endpoint))
    (connected : ∀ serverSock clientSock,
      Leaves (Holds (HasClient serverSock clientSock) allowed)
        (emit (.prints "Client connected\n") >>= fun _ => close serverSock >>= fun _ =>
          pure clientSock) post (Only allowed)) :
    Leaves (Holds before allowed) (streamServer endpoint) post (Only allowed) := by
  unfold streamServer
  apply leaves_bind (socket_leaves (fun _ _ => True) fun _ _ => trivial)
  intro serverSock
  apply leaves_then (check_leaves _)
  apply leaves_then (emit_leaves opens)
  apply leaves_then (check_leaves _)
  apply leaves_then (setDescriptor_leaves (fun _ => True) _ _ fun _ _ => trivial)
  apply leaves_then (emit_leaves waits)
  apply leaves_bind (accept_leaves (HasClient serverSock) _ _ ?_) (connected serverSock)
  intro table _ listens
  refine ⟨place_self .connected table, ?_⟩
  rcases place_other .connected .listening table serverSock with same | ⟨-, free⟩
  · exact same.trans listens
  · exact absurd listens free

/-- The socket of a stream server is the one of its client. -/
theorem streamServer_returns (prints : ∀ text, allowed (.prints text))
    (opens : allowed (.opens endpoint)) :
    Leaves (Holds before allowed) (streamServer endpoint)
      (fun fd => Holds (fun table => table[fd]? = some (some .connected)) allowed)
      (Only allowed) := by
  apply streamServer_leaves (prints _) opens
  intro serverSock clientSock
  apply leaves_then (emit_leaves (prints _))
  apply leaves_then (setDescriptor_leaves (fun table =>
    table[clientSock]? = some (some .connected)) _ _ fun _ => client_stays)
  exact leaves_pure fun _ holds => holds

/-- Where a stream server halts, no client has been connected. -/
theorem streamServer_connects
    (others : ∀ event, event ≠ .prints "Client connected\n" → allowed event) :
    Leaves (Holds before allowed) (streamServer endpoint)
      (fun fd p => p.table[fd]? = some (some .connected)) (Only allowed) := by
  apply streamServer_leaves (others _ (by decide)) (others _ (by simp))
  rintro serverSock clientSock p ⟨has, -⟩ result t ran
  cases ran
  exact client_stays has

/-- If descriptor 0 listens, it did from the start. -/
def ListensWhen (inherited : Prop) (table : List (Option Kind)) : Prop :=
  table[0]? = some (some .listening) → inherited

theorem listens_placed (other : kind ≠ .listening) (listens : ListensWhen inherited table) :
    ListensWhen inherited (place kind table).2 :=
  fun now => listens (placed_listening other now)

theorem close_leaves (fd : Nat) :
    Leaves (Holds (ListensWhen inherited) allowed) (close fd)
      (fun _ => Holds (ListensWhen inherited) allowed) (Only allowed) :=
  setDescriptor_leaves _ fd none fun _ listens now => listens (closed_entry now)

/-- The datagram server closes its socket and returns 0, as the next two do. -/
theorem udsDgramServer_leaves (prints : ∀ text, allowed (.prints text))
    (opens : allowed (.opens (.udsDgram socketPath))) :
    Leaves (Holds (ListensWhen inherited) allowed) (udsDgramServer socketPath)
      (fun fd p => fd = 0 ∧ Holds (ListensWhen inherited) allowed p) (Only allowed) := by
  unfold udsDgramServer
  apply leaves_bind (socket_leaves (fun _ => ListensWhen inherited) fun _ =>
    listens_placed fun same => by cases same)
  intro serverSock
  apply leaves_then (check_leaves _)
  apply leaves_then (emit_leaves opens)
  apply leaves_then (emit_leaves (prints _))
  apply leaves_then (check_leaves _)
  apply leaves_then (emit_leaves (prints _))
  apply leaves_then (close_leaves _)
  exact finish_leaves 0

theorem mmapServer_leaves (opens : allowed (.opens (.mmap filename))) :
    Leaves (Holds (ListensWhen inherited) allowed) (mmapServer filename)
      (fun fd p => fd = 0 ∧ Holds (ListensWhen inherited) allowed p) (Only allowed) := by
  unfold mmapServer
  apply leaves_then (check_leaves _)
  apply leaves_bind (newDescriptor_leaves (fun _ => ListensWhen inherited) _ fun _ =>
    listens_placed fun same => by cases same)
  intro fd
  apply leaves_then (emit_leaves opens)
  apply leaves_then (check_leaves _)
  apply leaves_then (check_leaves _)
  apply leaves_then (check_leaves _)
  apply leaves_then (close_leaves _)
  exact finish_leaves 0

theorem pipeServer_leaves (opens : allowed (.opens (.pipe filename))) :
    Leaves (Holds (ListensWhen inherited) allowed) (pipeServer filename)
      (fun fd p => fd = 0 ∧ Holds (ListensWhen inherited) allowed p) (Only allowed) := by
  unfold pipeServer
  apply leaves_then (check_leaves _)
  apply leaves_then (emit_leaves opens)
  apply leaves_then (check_leaves _)
  apply leaves_bind (newDescriptor_leaves (fun _ => ListensWhen inherited) _ fun _ =>
    listens_placed fun same => by cases same)
  intro fd
  apply leaves_then (check_leaves _)
  apply leaves_then (close_leaves _)
  exact finish_leaves 0

theorem stream_returns (prints : ∀ text, allowed (.prints text))
    (opens : allowed (.opens endpoint)) (listening : Prop) :
    Leaves (Holds before allowed) (streamServer endpoint)
      (fun fd => Holds (fun table => table[fd]? = some (some .listening) → listening) allowed)
      (Only allowed) := by
  apply leaves_weaken (streamServer_returns prints opens) fun _ holds => holds
  rintro fd p ⟨connected, only⟩
  refine ⟨fun listens => ?_, only⟩
  rw [connected] at listens
  cases listens

theorem zero_returns {listening inherited : Prop} {program : Program Nat}
    (zero : Leaves (Holds (ListensWhen inherited) allowed) program
      (fun fd p => fd = 0 ∧ Holds (ListensWhen inherited) allowed p) (Only allowed))
    (implies : inherited → listening) :
    Leaves (Holds (ListensWhen inherited) allowed) program
      (fun fd => Holds (fun table => table[fd]? = some (some .listening) → listening) allowed)
      (Only allowed) := by
  apply leaves_weaken zero fun _ holds => holds
  rintro fd p ⟨rfl, listens, only⟩
  exact ⟨fun now => implies (listens now), only⟩

/-- A server that returns something that listens has returned 0, and 0 was
listening before. -/
theorem openServer_leaves (prints : ∀ text, allowed (.prints text))
    (opens : ∀ endpoint, endpointOf port = some endpoint → allowed (.opens endpoint)) :
    Leaves (Holds (ListensWhen inherited) allowed) (openServer port invalid)
      (fun fd => Holds (fun table =>
        table[fd]? = some (some .listening) → inherited ∧ LeavesZero port) allowed)
      (Only allowed) := by
  unfold openServer
  by_cases one : port = 1
  · subst one
    exact stream_returns prints (opens _ rfl) _
  by_cases two : port = 2
  · subst two
    exact stream_returns prints (opens _ rfl) _
  by_cases three : port = 3
  · subst three
    exact zero_returns (udsDgramServer_leaves prints (opens _ rfl)) fun zero => ⟨zero, Or.inl rfl⟩
  by_cases four : port = 4
  · subst four
    exact stream_returns prints (opens _ rfl) _
  by_cases five : port = 5
  · subst five
    exact zero_returns (mmapServer_leaves (opens _ rfl)) fun zero => ⟨zero, Or.inr (Or.inl rfl)⟩
  by_cases six : port = 6
  · subst six
    exact zero_returns (pipeServer_leaves (opens _ rfl)) fun zero => ⟨zero, Or.inr (Or.inr rfl)⟩
  rw [if_neg one, if_neg two, if_neg three, if_neg four, if_neg five, if_neg six]
  exact leaves_throw fun _ holds => holds.2

/-- Where nothing listens the first round ends the process. -/
theorem serve_exits {p : Process} {serverSock : Nat}
    (nothing : p.table[serverSock]? ≠ some (some .listening)) (rounds : Nat) :
    serve serverSock (rounds + 1) p =
      (.error (.exited "Error accepting client connection"), p) := by
  have refused : accept serverSock "Error accepting client connection" p =
      (.error (.exited "Error accepting client connection"), p) := by
    unfold accept
    rw [bind_run]
    show (exitIf (p.table[serverSock]? ≠ some (some .listening)) _ >>= _ : Program Nat) p = _
    rw [exitIf, if_pos nothing]
    rfl
  rw [serve, bind_run, acceptConnection, bind_run, refused]

theorem serve_stops (serverSock rounds : Nat) :
    Leaves (Holds (fun table => table[serverSock]? ≠ some (some .listening)) allowed)
      (serve serverSock rounds) (fun _ => Only allowed) (Only allowed) := by
  cases rounds with
  | zero => exact leaves_pure fun _ holds => holds.2
  | succ rounds =>
    rintro p ⟨nothing, only⟩ result t ran
    rw [serve_exits nothing] at ran
    cases ran
    exact only

/-- A round goes on where something listens, and any number of them do. -/
theorem serve_leaves (rounds : Nat) (accepted : ∀ clientSock, allowed (.accepted clientSock))
    (received : ∀ message, allowed (.received message))
    (responded : ∀ clientSock response, allowed (.responded clientSock response)) :
    Leaves (Holds before allowed) (serve serverSock rounds) (fun _ => Only allowed)
      (Only allowed) := by
  induction rounds generalizing before with
  | zero => exact leaves_pure fun _ holds => holds.2
  | succ rounds ih =>
    have connects : Leaves (Holds before allowed) (acceptConnection serverSock)
        (fun _ => Holds (fun _ => True) allowed) (Only allowed) := by
      unfold acceptConnection
      apply leaves_bind (accept_leaves (fun _ _ => True) _ _ fun _ _ _ => trivial)
      intro clientSock
      apply leaves_then (emit_leaves (accepted clientSock))
      exact leaves_pure fun _ holds => holds
    have handles (clientSock : Nat) : Leaves (Holds (fun _ => True) allowed)
        (handleClientRequest clientSock) (fun _ => Holds (fun _ => True) allowed)
        (Only allowed) := by
      unfold handleClientRequest
      apply leaves_bind (check_leaves _)
      intro data
      apply leaves_then (emit_leaves (received _))
      apply leaves_then (check_leaves _)
      exact emit_leaves (responded _ _)
    unfold serve
    apply leaves_bind connects
    intro clientSock
    apply leaves_then (handles clientSock)
    apply leaves_then (setDescriptor_leaves (fun _ => True) _ _ fun _ _ => trivial)
    exact ih

/-- The server begins, and goes on to its port number. -/
theorem runServer_begins {port : BitVec 32} {rest : Program Unit}
    (prints : ∀ text, allowed (.prints text))
    (goes_on : Leaves (Holds before allowed) rest (fun _ => Only allowed) (Only allowed)) :
    Leaves (Holds before allowed)
      (emitIf (false = false) (.prints "Starting server...\n") >>= fun _ =>
        exitIf (port.toInt < 0 ∨ port.toInt > 65535) (.exited "Invalid port number\n") >>= fun _ =>
          rest) (fun _ => Only allowed) (Only allowed) := by
  apply leaves_then (emitIf_leaves (prints _))
  apply leaves_then (exitIf_passes _)
  exact goes_on

/-! ## What each client leaves -/

theorem socketClient_leaves (goes : allowed (.goesTo endpoint)) :
    Leaves (Holds before allowed) (socketClient endpoint)
      (fun _ => Holds (fun _ => True) allowed) (Only allowed) := by
  unfold socketClient
  apply leaves_bind (socket_leaves (fun _ _ => True) fun _ _ => trivial)
  intro sock
  apply leaves_then (check_leaves _)
  apply leaves_then (emit_leaves goes)
  exact leaves_pure fun _ holds => holds

theorem tcpIpv4Client_leaves (ip : Option String)
    (goes : allowed (.goesTo (.tcpIpv4 (htons (port.setWidth 16))))) :
    Leaves (Holds before allowed) (tcpIpv4Client ip port)
      (fun _ => Holds (fun _ => True) allowed) (Only allowed) := by
  unfold tcpIpv4Client
  apply leaves_bind (socket_leaves (fun _ _ => True) fun _ _ => trivial)
  intro sock
  apply leaves_then (exitIf_passes _)
  apply leaves_then (check_leaves _)
  apply leaves_then (check_leaves _)
  apply leaves_then (emit_leaves goes)
  exact leaves_pure fun _ holds => holds

theorem mmapClient_leaves (goes : allowed (.goesTo (.mmap filename))) :
    Leaves (Holds before allowed) (mmapClient filename)
      (fun _ => Holds (fun _ => True) allowed) (Only allowed) := by
  unfold mmapClient
  apply leaves_then (check_leaves _)
  apply leaves_bind (newDescriptor_leaves (fun _ _ => True) _ fun _ _ => trivial)
  intro fd
  apply leaves_then (emit_leaves goes)
  apply leaves_then (check_leaves _)
  apply leaves_then (check_leaves _)
  apply leaves_then (setDescriptor_leaves (fun _ => True) _ _ fun _ _ => trivial)
  exact leaves_pure fun _ holds => holds

theorem pipeClient_leaves (goes : allowed (.goesTo (.pipe filename))) :
    Leaves (Holds before allowed) (pipeClient filename)
      (fun _ => Holds (fun _ => True) allowed) (Only allowed) := by
  unfold pipeClient
  apply leaves_then (check_leaves _)
  apply leaves_bind (newDescriptor_leaves (fun _ _ => True) _ fun _ _ => trivial)
  intro fd
  apply leaves_then (emit_leaves goes)
  apply leaves_then (check_leaves _)
  apply leaves_then (setDescriptor_leaves (fun _ => True) _ _ fun _ _ => trivial)
  exact leaves_pure fun _ holds => holds

theorem openClient_leaves (ip : Option String) (uninitialised : Nat)
    (goes : ∀ endpoint, destinationOf port param = some endpoint → allowed (.goesTo endpoint)) :
    Leaves (Holds (fun _ => True) allowed) (openClient ip port param uninitialised)
      (fun _ => Holds (fun _ => True) allowed) (Only allowed) := by
  unfold openClient
  by_cases ipv4 : param = "ipv4_tcp"
  · subst ipv4
    exact tcpIpv4Client_leaves ip (goes _ rfl)
  by_cases ipv6 : param = "ipv6_tcp"
  · subst ipv6
    exact leaves_pure fun _ holds => holds
  by_cases dgram : param = "uds_dgram"
  · subst dgram
    exact socketClient_leaves (goes _ rfl)
  by_cases stream : param = "uds_stream"
  · subst stream
    exact socketClient_leaves (goes _ rfl)
  by_cases mmap : param = "mmap"
  · subst mmap
    exact mmapClient_leaves (goes _ rfl)
  by_cases pipe : param = "pipe"
  · subst pipe
    exact pipeClient_leaves (goes _ rfl)
  rw [if_neg ipv4, if_neg ipv6, if_neg dgram, if_neg stream, if_neg mmap, if_neg pipe]
  exact leaves_throw fun _ holds => holds.2

theorem runClient_leaves (ip : Option String) (param : Option String) (uninitialised : Nat)
    (prints : ∀ text, allowed (.prints text))
    (goes : ∀ endpoint, param.bind (destinationOf port) = some endpoint →
      allowed (.goesTo endpoint)) :
    Leaves (Holds (fun _ => True) allowed) (runClient ip port param uninitialised)
      (fun _ => Only allowed) (Only allowed) := by
  unfold runClient
  apply leaves_then (emit_leaves (prints _))
  apply leaves_then (exitIf_passes _)
  cases param with
  | none => exact leaves_throw fun _ holds => holds.2
  | some param =>
    apply leaves_bind (openClient_leaves ip uninitialised goes)
    intro clientSock
    apply leaves_then (emit_leaves (prints _))
    apply leaves_weaken (setDescriptor_leaves (fun _ => True) _ _ fun _ _ => trivial)
      (fun _ holds => holds) fun _ _ holds => holds.2

end Calls

end OsCourse.PerformanceCalls

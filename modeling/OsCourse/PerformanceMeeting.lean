import OsCourse.PerformanceCalls

/-! What the performance test comes to, with any arguments and under any answers
of the system: whom the server answers, and where a client meets it. -/
namespace OsCourse.PerformanceMeeting
open Halting PerformanceTest PerformanceCalls

/-- In some environment a request is answered. -/
def Responds (argc : Nat) (options : List Opt) (inherited : List (Option Kind)) : Prop :=
  ∃ env, env.inherited = inherited ∧
    ∃ clientSock response, .responded clientSock response ∈ events argc options env

/-- There are runs of the two in which the client goes where the server is. -/
def Meet (argc : Nat) (options : List Opt) (client_argc : Nat) (client_options : List Opt) : Prop :=
  ∃ endpoint env client_env, .opens endpoint ∈ events argc options env ∧
    .goesTo endpoint ∈ events client_argc client_options client_env

/-! ## Whom the server answers -/

def NoResponse (event : Event) : Prop := ∀ fd response, event ≠ .responded fd response

theorem silent_prints (text : String) : NoResponse (.prints text) := fun _ _ same => by cases same

/-- Unless 0 listens and is what the server goes on with, nobody is answered. -/
theorem no_response {listening : Prop} (rounds : Nat)
    (never : ¬ (listening ∧ LeavesZero port)) :
    Leaves (Holds (ListensWhen listening) NoResponse) (runServer port false quietMode rounds)
      (fun _ => Only NoResponse) (Only NoResponse) := by
  apply runServer_begins silent_prints
  apply leaves_bind (openServer_leaves silent_prints fun _ _ _ _ same => by cases same)
  intro serverSock
  apply leaves_weaken (serve_stops serverSock rounds) ?_ fun _ _ only => only
  rintro p ⟨listens, only⟩
  exact ⟨fun now => never (listens now), only⟩

theorem events_server (started : main argc options = .server port performanceTest quietMode)
    (env : Environment) : events argc options env =
      (runServer port performanceTest quietMode env.rounds
        ⟨env.inherited, env.answers, []⟩).2.events := by
  unfold events
  rw [started]

theorem events_client (started : main argc options = .client ip port param) (env : Environment) :
    events argc options env =
      (runClient ip port param env.uninitialised ⟨env.inherited, env.answers, []⟩).2.events := by
  unfold events
  rw [started]

theorem events_neither
    (neither : main argc options ∈ [.usage, .invalidOption, .invalidCommand, .crashed])
    (env : Environment) : events argc options env = [] := by
  simp only [List.mem_cons, List.not_mem_nil, or_false] at neither
  unfold events
  rcases neither with ended | ended | ended | ended <;> rw [ended]

/-- Whatever it halts with or returns, a run leaves only such events. -/
theorem leaves_only {program : Program Unit} {pre : Process → Prop} {allowed : Event → Prop}
    (leaves : Leaves pre program (fun _ => Only allowed) (Only allowed)) (p : Process)
    (holds : pre p) : ∀ event ∈ (program p).2.events, allowed event := by
  have left := leaves p holds (program p).1 (program p).2 rfl
  cases result : (program p).1 with
  | ok _ =>
    rw [result] at left
    exact left
  | error _ =>
    rw [result] at left
    exact left

theorem begins_allowed {allowed : Event → Prop} {table : List (Option Kind)}
    {answers : List Answer} : Only allowed ⟨table, answers, []⟩ := fun event none => by cases none

/-- With enough answers a server that goes on with a listening 0 answers there. -/
theorem zero_responds (zero : LeavesZero port) (quietMode : Bool) (rest : List (Option Kind)) :
    ∃ fd, Event.responded fd "Server response" ∈ (runServer port false quietMode 1
      ⟨some .listening :: rest, List.replicate 8 (.succeeds []), []⟩).2.events := by
  have last : ∃ fd, (runServer port false quietMode 1
      ⟨some .listening :: rest, List.replicate 8 (.succeeds []), []⟩).2.events.getLast? =
        some (Event.responded fd "Server response") := by
    rcases zero with rfl | rfl | rfl <;> exact ⟨_, rfl⟩
  obtain ⟨fd, ran⟩ := last
  exact ⟨fd, List.mem_of_getLast? ran⟩

/-- The numbers of the stream servers. -/
def Stream (port : BitVec 32) : Prop := port = 1 ∨ port = 2 ∨ port = 4

/-- How the server of a port number halts, if it does. -/
def halted (port : BitVec 32) (quietMode : Bool) (env : Environment) : Except Halt Unit :=
  (runServer port false quietMode env.rounds ⟨env.inherited, env.answers, []⟩).1

/-- The server does not get through a round of its loop, and once a client is
connected it exits in the next `accept`. -/
structure EndsWithClient (result : Except Halt Unit) (events : List Event) : Prop where
  halts : ∃ halt, result = .error halt
  accepts : .prints "Client connected\n" ∈ events →
    result = .error (.exited "Error accepting client connection")

def NotConnected (event : Event) : Prop := event ≠ .prints "Client connected\n"

/-- A stream server goes on with the socket of its client, which does not listen. -/
theorem stream_ends (endpoint : Endpoint) (rounds : Nat) (p : Process)
    (before : Only NotConnected p) :
    EndsWithClient ((streamServer endpoint >>= fun fd => serve fd (rounds + 1)) p).1
      ((streamServer endpoint >>= fun fd => serve fd (rounds + 1)) p).2.events := by
  have connects : Leaves (Holds (fun _ => True) NotConnected) (streamServer endpoint)
      (fun fd p => p.table[fd]? = some (some .connected)) (Only NotConnected) :=
    streamServer_connects fun event other => other
  have left := connects p ⟨trivial, before⟩ (streamServer endpoint p).1 (streamServer endpoint p).2 rfl
  rw [bind_run]
  rcases ran : streamServer endpoint p with ⟨result, t⟩
  rw [ran] at left
  cases result with
  | error halt => exact ⟨⟨halt, rfl⟩, fun connected => absurd rfl (left _ connected)⟩
  | ok fd =>
    have nothing : t.table[fd]? ≠ some (some .listening) := by
      intro listens
      rw [show t.table[fd]? = some (some .connected) from left] at listens
      cases listens
    dsimp only
    rw [serve_exits nothing rounds]
    exact ⟨⟨_, rfl⟩, fun _ => rfl⟩

/-- The server of a stream port is its stream server and the loop. -/
theorem stream_runs (stream : Stream port) (quietMode : Bool) (rounds : Nat) (p : Process) :
    ∃ endpoint, runServer port false quietMode rounds p =
      (streamServer endpoint >>= fun fd => serve fd rounds)
        { p with events := p.events ++ [.prints "Starting server...\n"] } := by
  rcases stream with rfl | rfl | rfl
  · exact ⟨_, rfl⟩
  · exact ⟨_, rfl⟩
  · exact ⟨_, rfl⟩

/-- The only clients that are ever answered are those of a socket the server was
started with. The stream servers go on to accept on the socket of their client
and exit. -/
theorem responds_iff (argc : Nat) (options : List Opt) (inherited : List (Option Kind)) :
    (Responds argc options inherited ↔ inherited[0]? = some (some .listening) ∧
      ∃ port quietMode, main argc options = .server port false quietMode ∧ LeavesZero port) ∧
    ∀ port quietMode env, main argc options = .server port false quietMode → Stream port →
      0 < env.rounds → EndsWithClient (halted port quietMode env) (events argc options env) := by
  refine ⟨⟨?_, ?_⟩, ?_⟩
  · rintro ⟨env, rfl, clientSock, response, responded⟩
    by_contra never
    rcases main_cases argc options with ⟨port, quietMode, started⟩ | ⟨ip, param, started⟩ | neither
    · have silent : Leaves _ (runServer port false quietMode env.rounds) _ _ :=
        no_response env.rounds fun both => never ⟨both.1, port, quietMode, started, both.2⟩
      rw [events_server started] at responded
      exact leaves_only silent ⟨env.inherited, env.answers, []⟩ ⟨id, begins_allowed⟩ _ responded _ _ rfl
    · have silent : Leaves _ (runClient ip 0 param env.uninitialised) _ (Only NoResponse) :=
        runClient_leaves ip param env.uninitialised silent_prints fun _ _ _ _ same => by cases same
      rw [events_client started] at responded
      exact leaves_only silent ⟨env.inherited, env.answers, []⟩ ⟨trivial, begins_allowed⟩ _ responded _ _ rfl
    · rw [events_neither neither] at responded
      cases responded
  · rintro ⟨listens, port, quietMode, started, zero⟩
    cases inherited with
    | nil => cases listens
    | cons entry rest =>
      cases listens
      obtain ⟨fd, responded⟩ := zero_responds zero quietMode rest
      refine ⟨⟨some .listening :: rest, List.replicate 8 (.succeeds []), 0, 1⟩, rfl, fd, "Server response", ?_⟩
      rw [events_server started]
      exact responded
  · intro port quietMode env started stream some_round
    obtain ⟨rounds, more⟩ := Nat.exists_eq_succ_of_ne_zero some_round.ne'
    obtain ⟨endpoint, ran⟩ := stream_runs stream quietMode env.rounds
      ⟨env.inherited, env.answers, []⟩
    rw [events_server started, halted, ran, more]
    apply stream_ends
    intro event listed
    rw [List.mem_singleton.mp listed, NotConnected]
    decide

example : halted 4 false ⟨[], List.replicate 8 (.succeeds []), 0, 1⟩ =
    .error (.exited "Error accepting client connection") := rfl

/-! ## Where the two meet -/

/-- Nothing else is opened, and nothing else gone to. -/
structure Stays (opened gone : Option Endpoint) (event : Event) : Prop where
  opens : ∀ endpoint, event = .opens endpoint → opened = some endpoint
  goesTo : ∀ endpoint, event = .goesTo endpoint → gone = some endpoint

theorem stays_silent {opened gone : Option Endpoint}
    (silent : ∀ endpoint, event ≠ .opens endpoint ∧ event ≠ .goesTo endpoint) :
    Stays opened gone event :=
  ⟨fun endpoint same => absurd same (silent endpoint).1,
    fun endpoint same => absurd same (silent endpoint).2⟩

theorem stays_prints {opened gone : Option Endpoint} (text : String) :
    Stays opened gone (.prints text) := stays_silent (by simp)

theorem server_stays (rounds : Nat) :
    Leaves (Holds (ListensWhen True) (Stays (endpointOf port) none))
      (runServer port false quietMode rounds) (fun _ => Only (Stays (endpointOf port) none))
      (Only (Stays (endpointOf port) none)) := by
  apply runServer_begins stays_prints
  apply leaves_bind (openServer_leaves stays_prints fun endpoint own => ?_)
  · intro serverSock
    apply serve_leaves rounds
    · exact fun clientSock => stays_silent (by simp)
    · exact fun message => stays_silent (by simp)
    · exact fun clientSock response => stays_silent (by simp)
  · constructor
    · intro other same
      cases same
      exact own
    · intro other same
      cases same

theorem opened_by_server (opens : .opens endpoint ∈ events argc options env) :
    ∃ port quietMode, main argc options = .server port false quietMode ∧
      endpointOf port = some endpoint := by
  rcases main_cases argc options with ⟨port, quietMode, started⟩ | ⟨ip, param, started⟩ | neither
  · rw [events_server started] at opens
    have stays := leaves_only (server_stays env.rounds) ⟨env.inherited, env.answers, []⟩
      ⟨fun _ => trivial, begins_allowed⟩ _ opens
    exact ⟨port, quietMode, started, stays.opens endpoint rfl⟩
  · rw [events_client started] at opens
    have elsewhere : Leaves _ (runClient ip 0 param env.uninitialised) _
        (Only fun event => event ≠ .opens endpoint) :=
      runClient_leaves ip param env.uninitialised (by simp) (by simp)
    exact absurd rfl (leaves_only elsewhere ⟨env.inherited, env.answers, []⟩
      ⟨trivial, begins_allowed⟩ _ opens)
  · rw [events_neither neither] at opens
    cases opens

theorem gone_by_client (goes : .goesTo endpoint ∈ events argc options env) :
    ∃ ip param, main argc options = .client ip 0 (some param) ∧
      destinationOf 0 param = some endpoint := by
  rcases main_cases argc options with ⟨port, quietMode, started⟩ | ⟨ip, param, started⟩ | neither
  · rw [events_server started] at goes
    have stays := leaves_only (server_stays env.rounds) ⟨env.inherited, env.answers, []⟩
      ⟨fun _ => trivial, begins_allowed⟩ _ goes
    cases stays.goesTo endpoint rfl
  · rw [events_client started] at goes
    have elsewhere : Leaves _ (runClient ip 0 param env.uninitialised) _
        (Only fun event => ∀ e, event = .goesTo e → param.bind (destinationOf 0) = some e) :=
      runClient_leaves ip param env.uninitialised (by simp) (by simp)
    have own := leaves_only elsewhere ⟨env.inherited, env.answers, []⟩
      ⟨trivial, begins_allowed⟩ _ goes endpoint rfl
    cases param with
    | none => cases own
    | some param => exact ⟨ip, param, started, own⟩
  · rw [events_neither neither] at goes
    cases goes

/-- The pairs of a port number and a name that stand for one place. -/
def SamePlace (port : BitVec 32) (param : String) : Prop :=
  port = 3 ∧ param = "uds_dgram" ∨ port = 4 ∧ param = "uds_stream" ∨
    port = 5 ∧ param = "mmap" ∨ port = 6 ∧ param = "pipe"

theorem destination_cases (client : destinationOf 0 param = some endpoint) :
    param = "ipv4_tcp" ∧ endpoint = .tcpIpv4 0 ∨
      param = "uds_dgram" ∧ endpoint = .udsDgram "socket_path" ∨
      param = "uds_stream" ∧ endpoint = .udsStream "socket_path" ∨
      param = "mmap" ∧ endpoint = .mmap "file_path" ∨
      param = "pipe" ∧ endpoint = .pipe "pipe_path" := by
  have port_zero : htons ((0 : BitVec 32).setWidth 16) = 0 := by decide
  unfold destinationOf at client
  rw [port_zero] at client
  split_ifs at client <;> cases client <;> simp_all

/-- Exchanging its bytes does not make 1 or 2 the port 0. -/
theorem same_place_of (server : endpointOf port = some endpoint)
    (client : destinationOf 0 param = some endpoint) : SamePlace port param := by
  have destination := destination_cases client
  unfold endpointOf at server
  split_ifs at server with one two three four five six
  · subst one
    cases server
    obtain ⟨-, exchanged⟩ : param = "ipv4_tcp" ∧ htons ((htonsInt 1).setWidth 16) = 0 := by
      simpa using destination
    exact absurd exchanged (by decide)
  · cases server
    simp at destination
  · cases server
    exact Or.inl ⟨three, by simpa using destination⟩
  · cases server
    exact Or.inr (Or.inl ⟨four, by simpa using destination⟩)
  · cases server
    exact Or.inr (Or.inr (Or.inl ⟨five, by simpa using destination⟩))
  · cases server
    exact Or.inr (Or.inr (Or.inr ⟨six, by simpa using destination⟩))

/-- With enough answers the two go to their place, each behind its first line. -/
theorem same_place_runs (same : SamePlace port param) (quietMode : Bool) (ip : Option String) :
    ∃ endpoint, .opens endpoint ∈ (runServer port false quietMode 0
        ⟨[], List.replicate 8 (.succeeds []), []⟩).2.events ∧
      .goesTo endpoint ∈ (runClient ip 0 (some param) 0
        ⟨[], List.replicate 8 (.succeeds []), []⟩).2.events := by
  rcases same with ⟨rfl, rfl⟩ | ⟨rfl, rfl⟩ | ⟨rfl, rfl⟩ | ⟨rfl, rfl⟩
  · exact ⟨.udsDgram "socket_path", List.mem_of_getElem? (i := 1) rfl,
      List.mem_of_getElem? (i := 1) rfl⟩
  · exact ⟨.udsStream "socket_path", List.mem_of_getElem? (i := 1) rfl,
      List.mem_of_getElem? (i := 1) rfl⟩
  · exact ⟨.mmap "file_path", List.mem_of_getElem? (i := 1) rfl,
      List.mem_of_getElem? (i := 1) rfl⟩
  · exact ⟨.pipe "pipe_path", List.mem_of_getElem? (i := 1) rfl,
      List.mem_of_getElem? (i := 1) rfl⟩

/-- A client ever goes to the place a server has opened only through a local
socket, the mapped file or the pipe: the TCP client has port 0, and the TCP
server its own number with the bytes exchanged. -/
theorem meet_iff (argc : Nat) (options : List Opt) (client_argc : Nat)
    (client_options : List Opt) :
    Meet argc options client_argc client_options ↔ ∃ port quietMode ip param,
      main argc options = .server port false quietMode ∧
        main client_argc client_options = .client ip 0 (some param) ∧ SamePlace port param := by
  constructor
  · rintro ⟨endpoint, env, client_env, opens, goes⟩
    obtain ⟨port, quietMode, started, server⟩ := opened_by_server opens
    obtain ⟨ip, param, client_started, client⟩ := gone_by_client goes
    exact ⟨port, quietMode, ip, param, started, client_started, same_place_of server client⟩
  · rintro ⟨port, quietMode, ip, param, started, client_started, same⟩
    let env : Environment := ⟨[], List.replicate 8 (.succeeds []), 0, 0⟩
    obtain ⟨endpoint, opens, goes⟩ := same_place_runs same quietMode ip
    refine ⟨endpoint, env, env, ?_, ?_⟩
    · rw [events_server started]
      exact opens
    · rw [events_client client_started]
      exact goes

end OsCourse.PerformanceMeeting

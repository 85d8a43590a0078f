import Mathlib.Data.List.TakeWhile
import Mathlib.Logic.Function.Basic
import OsCourse.ReactServer

/-! What the chat server shows of its clients. The connections are put beside
the machine: the n-th client accepted sends the n-th stream, `recv` hands over
any first part of what is left of it and returns 0 when nothing is left, and no
`recv` fails. -/
namespace OsCourse.MessageDisplay
open Stdio ReactorLoop ReactServer Transition

/-- What a client sends over its connection, and what of it the server has not
received yet. -/
structure Connection where
  sent : List Byte
  left : List Byte

/-- A connection at its end: what was sent over it and what was shown for it. -/
structure Finished where
  sent : List Byte
  shown : List Byte
  deriving DecidableEq

/-- The server and its clients, by descriptor. -/
structure Chat where
  machine : Machine
  accepted : Nat
  connection : Nat → Option Connection
  finished : List Finished

/-- The texts a line adds for the client `fd`. A new client starts afresh under
the descriptor of one that is gone. -/
def showLine (fd : Nat) (shown : List Byte) : Line → List Byte
  | .connected client_fd => if client_fd = fd then [] else shown
  | .received client_fd text => if client_fd = fd then shown ++ text else shown
  | _ => shown

/-- The message texts printed for the client `fd` since it connected, one after
the other. -/
def shownFor (fd : Nat) (printed : List Line) : List Byte := printed.foldl (showLine fd) []

section Streams
variable (streams : Nat → List Byte)

/-- The clients' side of the call a handler makes for `fd`, which takes the
server to `m`. -/
def answer (c : Chat) (m : Machine) (fd : Nat) : Reply → Option Chat
  | .accepted none => some { c with machine := m }
  | .accepted (some client_fd) =>
    let stream := streams c.accepted
    -- a client that is turned away has no connection any more
    let connection := if client_fd ∈ m.server.openFds then some ⟨stream, stream⟩ else none
    some { c with
      machine := m
      accepted := c.accepted + 1
      connection := Function.update c.connection client_fd connection }
  | .received (.data bytes) =>
    match c.connection fd with
    | some client =>
      if bytes <+: client.left then
        some { c with
          machine := m
          connection := Function.update c.connection fd
            (some { client with left := client.left.drop bytes.length }) }
      else none
    | none => none
  | .received .closed =>
    match c.connection fd with
    | some client =>
      if client.left = [] then
        some { c with
          machine := m
          connection := Function.update c.connection fd none
          finished := c.finished ++ [⟨client.sent, shownFor fd m.server.printed⟩] }
      else none
    | none => none
  | .received .error => none

/-- A step of the server with the clients behind it. -/
def chatStep (c : Chat) (action : Action) : Option Chat :=
  (step c.machine action).bind fun m =>
    match action, c.machine.phase with
    | .call reply, .scan _ fd => answer streams c m fd reply
    | _, _ => some { c with machine := m }

end Streams

/-- The server in front of its first client. -/
def chatStart (inherited : Finset Nat) (server_fd : Nat) : Chat :=
  ⟨serverStart inherited server_fd, 0, fun _ => none, []⟩

/-! ## Texts -/

/-- The zeros of the buffer show nothing. -/
theorem shown_text_eq (bytes : List Byte) : shownText bytes = bytes.takeWhile (· ≠ 0) := by
  unfold shownText
  generalize BUFFER_SIZE - bytes.length = zeros
  induction bytes with
  | nil => cases zeros <;> simp [List.replicate_succ]
  | cons b bytes ih => simp only [List.cons_append, List.takeWhile_cons, ih]

theorem zero_not_shown (bytes : List Byte) : 0 ∉ shownText bytes := by
  rw [shown_text_eq]
  intro member
  simpa using List.mem_takeWhile_imp member

theorem shown_text_clean (clean : 0 ∉ bytes) : shownText bytes = bytes := by
  rw [shown_text_eq, List.takeWhile_eq_self_iff]
  intro b member
  simp only [ne_eq, decide_not, Bool.not_eq_eq_eq_not, Bool.not_true, decide_eq_false_iff_not]
  rintro rfl
  exact clean member

@[simp] theorem shown_for_append (fd : Nat) (printed more : List Line) :
    shownFor fd (printed ++ more) = more.foldl (showLine fd) (shownFor fd printed) :=
  List.foldl_append

/-! ## One step -/

/-- What is shown for a connection so far is what was received, but for its
zeros. -/
def ShowsReceived (client : Connection) (shown : List Byte) : Prop :=
  0 ∉ shown ∧ ∃ received, client.sent = received ++ client.left ∧
    (0 ∉ received → shown = received)

/-- Every live connection is shown as received, and every finished one was
shown whole exactly when there was no zero in it. -/
structure Displayed (c : Chat) : Prop where
  live : ∀ fd client, c.connection fd = some client →
    ShowsReceived client (shownFor fd c.machine.server.printed)
  ended : ∀ f ∈ c.finished, (f.shown = f.sent ↔ 0 ∉ f.sent)

theorem shows_nothing (stream : List Byte) : ShowsReceived ⟨stream, stream⟩ [] :=
  ⟨nofun, [], rfl, fun _ => rfl⟩

/-- Another piece of the stream and the text shown of it. -/
theorem shows_more (shows_so_far : ShowsReceived client shown) (piece : bytes <+: client.left) :
    ShowsReceived { client with left := client.left.drop bytes.length }
      (shown ++ shownText bytes) := by
  obtain ⟨no_zero, received, sent, same⟩ := shows_so_far
  obtain ⟨rest, left⟩ := piece
  refine ⟨?_, received ++ bytes, ?_, fun clean => ?_⟩
  · simp only [List.mem_append, not_or]
    exact ⟨no_zero, zero_not_shown bytes⟩
  · rw [sent, ← left, List.drop_left, List.append_assoc]
  · simp only [List.mem_append, not_or] at clean
    rw [same clean.1, shown_text_clean clean.2]

/-- At its end a connection has been received whole. -/
theorem shown_whole_iff (shows_all : ShowsReceived client shown) (nothing_left : client.left = []) :
    shown = client.sent ↔ 0 ∉ client.sent := by
  obtain ⟨no_zero, received, sent, same⟩ := shows_all
  simp only [nothing_left, List.append_nil] at sent
  rw [sent]
  constructor
  · rintro rfl
    exact no_zero
  · exact same

/-- A step calls no handler and leaves the server as it is, or it is a handler's
call and the clients' answer to it. -/
theorem chat_step_cases (stepped : chatStep streams c action = some d) :
    (d = { c with machine := d.machine } ∧ d.machine.server = c.machine.server) ∨
      ∃ fd handler reply m, callHandler c.machine.server fd handler reply = some m.server ∧
        answer streams c m fd reply = some d := by
  obtain ⟨m, moved, answered⟩ := Option.bind_eq_some_iff.mp stepped
  cases action with
  | select ready =>
    cases answered
    exact Or.inl ⟨rfl, (step_select moved).2.1⟩
  | skip =>
    obtain ⟨temp_fds, fd, -, next⟩ := step_skip moved
    cases answered
    exact Or.inl ⟨rfl, by simp only [next]⟩
  | endPass =>
    have next := step_endPass moved
    cases answered
    exact Or.inl ⟨rfl, by simp only [next]⟩
  | call reply =>
    obtain ⟨temp_fds, fd, handler, phase, -, -, called, -⟩ := step_call moved
    simp only [phase] at answered
    exact Or.inr ⟨fd, handler, reply, m, called, answered⟩

/-- A line for no client in particular. -/
theorem displayed_of_same (displayed : Displayed c) (connection : d.connection = c.connection)
    (finished : d.finished = c.finished)
    (shown : ∀ fd, shownFor fd d.machine.server.printed = shownFor fd c.machine.server.printed) :
    Displayed d := by
  constructor
  · intro fd client live
    rw [shown]
    exact displayed.live fd client (connection ▸ live)
  · rw [finished]
    exact displayed.ended

/-- A change of one connection, and of the lines shown for it. -/
theorem live_update (displayed : Displayed c) (next : Option Connection) (printed : List Line)
    (others : ∀ other, other ≠ fd →
      shownFor other printed = shownFor other c.machine.server.printed)
    (own : ∀ client, next = some client → ShowsReceived client (shownFor fd printed)) :
    ∀ other client, Function.update c.connection fd next other = some client →
      ShowsReceived client (shownFor other printed) := by
  intro other client live
  by_cases same : other = fd
  · subst same
    rw [Function.update_self] at live
    exact own client live
  · rw [Function.update_of_ne same] at live
    rw [others other same]
    exact displayed.live other client live

/-- Accepting a client changes what is shown for no other. -/
theorem accept_shown (accepted : acceptClient s (some client_fd) = some t) (fd : Nat) :
    shownFor fd t.printed = if client_fd = fd then [] else shownFor fd s.printed := by
  obtain ⟨-, ⟨table, -, rfl⟩ | ⟨-, rfl⟩⟩ := acceptClient_some accepted <;> simp [showLine]

theorem accept_displayed (c : Chat) (m : Machine) (displayed : Displayed c)
    (accepted : acceptClient c.machine.server client_fd = some m.server)
    (answered : answer streams c m fd (.accepted client_fd) = some d) : Displayed d := by
  cases client_fd with
  | none =>
    cases answered
    refine displayed_of_same displayed rfl rfl fun other => ?_
    rw [← Option.some.inj accepted]
    simp [showLine]
  | some client_fd =>
    cases answered
    refine ⟨live_update displayed _ _ (fun other different => ?_) (fun client live => ?_),
      displayed.ended⟩
    · rw [accept_shown accepted other, if_neg (Ne.symm different)]
    · rw [accept_shown accepted client_fd, if_pos rfl]
      split at live
      · cases live
        exact shows_nothing _
      · cases live

theorem handle_displayed (c : Chat) (m : Machine) (displayed : Displayed c)
    (handled : handleClient c.machine.server fd result = some m.server)
    (answered : answer streams c m fd (.received result) = some d) : Displayed d := by
  cases result with
  | error => cases answered
  | data bytes =>
    have printed : m.server.printed =
        c.machine.server.printed ++ [.received fd (shownText bytes)] := by
      simp only [handleClient, Option.ite_none_right_eq_some, Option.some.injEq] at handled
      rw [← handled.2]
    simp only [answer] at answered
    split at answered
    · rename_i client live
      split at answered
      · rename_i piece
        cases answered
        refine ⟨live_update displayed _ _ (fun other different => ?_) (fun client' next => ?_),
          displayed.ended⟩
        · simp [printed, showLine, Ne.symm different]
        · cases next
          have more := shows_more (displayed.live fd client live) piece
          simpa only [printed, shown_for_append, List.foldl_cons, List.foldl_nil, showLine,
            if_true] using more
      · cases answered
    · cases answered
  | closed =>
    have printed : m.server.printed = c.machine.server.printed ++ [.disconnected fd] := by
      rw [← Option.some.inj handled]
    have shown (other : Nat) :
        shownFor other m.server.printed = shownFor other c.machine.server.printed := by
      simp only [printed, shown_for_append]
      rfl
    simp only [answer] at answered
    split at answered
    · rename_i client live
      split at answered
      · rename_i nothing_left
        cases answered
        constructor
        · exact live_update displayed none _ (fun other _ => shown other) nofun
        · refine List.forall_mem_append.mpr ⟨displayed.ended, ?_⟩
          rw [List.forall_mem_singleton, shown]
          exact shown_whole_iff (displayed.live fd client live) nothing_left
      · cases answered
    · cases answered

theorem step_displayed (c : Chat) (action : Action) (d : Chat) (displayed : Displayed c)
    (stepped : chatStep streams c action = some d) : Displayed d := by
  rcases chat_step_cases stepped with ⟨moved, server⟩ | ⟨fd, handler, reply, m, called, answered⟩
  · rw [moved]
    exact displayed_of_same displayed rfl rfl fun fd => by rw [server]
  · rcases callHandler_cases called with ⟨-, client_fd, rfl, accepted⟩ | ⟨-, result, rfl, handled⟩
    · exact accept_displayed c m displayed accepted answered
    · exact handle_displayed c m displayed handled answered

/-! ## Runs -/

theorem start_displayed (inherited : Finset Nat) (server_fd : Nat) :
    Displayed (chatStart inherited server_fd) := ⟨nofun, nofun⟩

/-- Whatever the clients send and however `recv` cuts it up, for every client
that has disconnected the texts printed for it are the stream it sent exactly
when this has no zero byte. -/
theorem displayed_iff_no_zero (streams : Nat → List Byte) (inherited : Finset Nat)
    (server_fd : Nat) (actions : List Action) :
    Throughout (chatStep streams) (fun c => ∀ f ∈ c.finished, (f.shown = f.sent ↔ 0 ∉ f.sent))
      (chatStart inherited server_fd) actions :=
  throughout_of_invariant step_displayed (fun _ displayed => displayed.ended)
    (start_displayed inherited server_fd) actions

/-- One client sends its stream in one piece and leaves. -/
def onePieceSent (stream : List Byte) : List Action :=
  [.select {3}, .skip, .skip, .skip, .call (.accepted (some 4)), .skip, .endPass,
   .select {4}, .skip, .skip, .skip, .skip, .call (.received (.data stream)), .endPass,
   .select {4}, .skip, .skip, .skip, .skip, .call (.received .closed)]

/-- The letters `a` and `b` with a zero byte between them. -/
def zeroInside : List Byte := [0x61, 0, 0x62]

/-- Of these only the `a` is shown. -/
theorem zero_cuts_message :
    ¬ ∀ (streams : Nat → List Byte) (inherited : Finset Nat) (server_fd : Nat)
      (actions : List Action), Throughout (chatStep streams)
        (fun c => ∀ f ∈ c.finished, f.shown = f.sent) (chatStart inherited server_fd) actions := by
  intro displayed
  let streams (_ : Nat) : List Byte := zeroInside
  have run := throughout_iff.mp (displayed streams {0, 1, 2} 3 (onePieceSent zeroInside)) _
    List.prefix_rfl
  have cut : (exec (chatStep streams) (chatStart {0, 1, 2} 3) (onePieceSent zeroInside)).map
      Chat.finished = some [⟨zeroInside, [0x61]⟩] := by
    decide
  obtain ⟨c, ran, finished⟩ := Option.map_eq_some_iff.mp cut
  have whole := run c ran _ (by rw [finished]; exact List.mem_singleton_self _)
  exact absurd whole (by decide)

end OsCourse.MessageDisplay

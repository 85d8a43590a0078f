import Mathlib.Data.Finset.Card
import Mathlib.Data.Finset.Lattice.Lemmas
import OsCourse.ReactServer

/-! The client table of `react_server.c` against the clients that are really
connected, and against the handler array of the reactor. The arguments are over
single calls of the two handlers; `startReactor` is then shown to make no other
calls than those. -/
namespace OsCourse.ClientTable
open Stdio ReactorLoop ReactServer Transition

/-! ## The table -/

/-- The non-zero entries. -/
def inUse (table : List Nat) : List Nat := table.filter (· ≠ 0)

theorem inUse_cons (entry : Nat) (rest : List Nat) :
    inUse (entry :: rest) = if entry = 0 then inUse rest else entry :: inUse rest := by
  unfold inUse
  rw [List.filter_cons]
  by_cases free : entry = 0 <;> simp [free]

/-- A client is refused exactly when no entry is free. -/
theorem takeSlot_none : takeSlot client_fd table = none ↔ 0 ∉ table := by
  induction table with
  | nil => simp [takeSlot]
  | cons entry rest ih =>
    unfold takeSlot
    by_cases free : entry = 0
    · simp [free]
    · simp [free, ih, Ne.symm free]

/-- A client that is taken finds a free entry. -/
theorem takeSlot_free (taken : takeSlot client_fd table = some after) : 0 ∈ table := by
  by_contra none_free
  rw [takeSlot_none.mpr none_free] at taken
  cases taken

theorem takeSlot_length (taken : takeSlot client_fd table = some after) :
    after.length = table.length := by
  induction table generalizing after with
  | nil => cases taken
  | cons entry rest ih =>
    unfold takeSlot at taken
    split at taken
    · cases taken
      rfl
    · obtain ⟨tail, later, rfl⟩ := Option.map_eq_some_iff.mp taken
      exact congrArg Nat.succ (ih later)

/-- An entry that is taken was free, so the client joins those in use. -/
theorem takeSlot_inUse (client : client_fd ≠ 0) (taken : takeSlot client_fd table = some after) :
    (inUse after).Perm (client_fd :: inUse table) := by
  induction table generalizing after with
  | nil => cases taken
  | cons entry rest ih =>
    unfold takeSlot at taken
    split at taken
    · rename_i free
      cases taken
      rw [inUse_cons, inUse_cons, if_neg client, if_pos free]
    · rename_i used
      obtain ⟨tail, later, rfl⟩ := Option.map_eq_some_iff.mp taken
      rw [inUse_cons, inUse_cons, if_neg used, if_neg used]
      exact ((ih later).cons entry).trans (List.Perm.swap client_fd entry (inUse rest))

theorem clearSlot_length (client_fd : Nat) (table : List Nat) :
    (clearSlot client_fd table).length = table.length := by
  induction table with
  | nil => rfl
  | cons entry rest ih =>
    unfold clearSlot
    split
    · rfl
    · exact congrArg Nat.succ ih

/-- The first entry with the client is given up, the others stay. -/
theorem clearSlot_inUse (client : client_fd ∈ inUse table) :
    (inUse table).Perm (client_fd :: inUse (clearSlot client_fd table)) := by
  induction table with
  | nil => cases client
  | cons entry rest ih =>
    unfold clearSlot
    by_cases found : entry = client_fd
    · subst found
      have used : entry ≠ 0 := by simpa using (List.mem_filter.mp client).2
      rw [if_pos rfl, inUse_cons, inUse_cons, if_neg used, if_pos rfl]
    · rw [if_neg found, inUse_cons, inUse_cons]
      rw [inUse_cons] at client
      split
      · rename_i free
        rw [if_pos free] at client
        exact ih client
      · rename_i used
        rw [if_neg used] at client
        have later := (List.mem_cons.mp client).resolve_left (Ne.symm found)
        exact ((ih later).cons entry).trans (List.Perm.swap client_fd entry _)

/-! ## Calls of the two handlers -/

/-- What the server hears from the network: a result of `accept`, and a result
of `recv` on the socket of a client. -/
inductive Event where
  | accepted (client_fd : Option Nat)
  | received (client_fd : Nat) (result : Recv)
  deriving DecidableEq

/-- The descriptors `accept` returns, as far as the handler array reaches. -/
def Assigned (client_fd : Nat) : Prop := 0 < client_fd ∧ client_fd < MAX_FDS

instance (client_fd : Nat) : Decidable (Assigned client_fd) :=
  inferInstanceAs (Decidable (0 < client_fd ∧ client_fd < MAX_FDS))

/-- The clients as the results of `accept` and `recv` alone tell of them, whatever
the server makes of them: all numbers accepted so far, and the clients that are
connected. -/
structure Clients where
  accepted : Finset Nat
  connected : Finset Nat

/-- A client is connected from its acceptance until `recv` returns 0 on its
socket. One that comes while `MAX_CLIENTS` are connected is not taken. -/
def Clients.hear (clients : Clients) : Event → Clients
  | .accepted none => clients
  | .accepted (some client_fd) =>
    { accepted := insert client_fd clients.accepted
      connected :=
        if clients.connected.card < MAX_CLIENTS then insert client_fd clients.connected
        else clients.connected }
  | .received client_fd .closed => { clients with connected := clients.connected.erase client_fd }
  | .received _ (.data _) | .received _ .error => clients

theorem Clients.hear_received (clients : Clients) (client_fd : Nat) (result : Recv) :
    (clients.hear (.received client_fd result)).accepted = clients.accepted := by
  cases result <;> rfl

/-- `accept` returns an assigned number, and only connected clients are heard. -/
def Clients.MayHear (clients : Clients) : Event → Prop
  | .accepted none => True
  | .accepted (some client_fd) => Assigned client_fd
  | .received client_fd _ => client_fd ∈ clients.connected

instance (clients : Clients) : ∀ e, Decidable (clients.MayHear e)
  | .accepted none => isTrue trivial
  | .accepted (some client_fd) => inferInstanceAs (Decidable (Assigned client_fd))
  | .received client_fd _ => inferInstanceAs (Decidable (client_fd ∈ clients.connected))

def handleEvent (s : Server) : Event → Option Server
  | .accepted client_fd => acceptClient s client_fd
  | .received client_fd result => handleClient s client_fd result

def eventStep (s : Server × Clients) (e : Event) : Option (Server × Clients) :=
  if s.2.MayHear e then (handleEvent s.1 e).map fun t => (t, s.2.hear e) else none

/-- The table lists the connected clients, each of them once and each watched
with its handler, these are the accepted ones not closed since, and a client that
finds the table full leaves nothing behind. -/
structure Exact (s : Server × Clients) : Prop where
  distinct : (inUse s.1.clientSockets).Nodup
  listed : ∀ fd, fd ∈ inUse s.1.clientSockets ↔ fd ∈ s.2.connected
  still_open : s.2.connected = s.2.accepted ∩ s.1.openFds
  watched : ∀ fd ∈ inUse s.1.clientSockets, fd ∈ s.1.reactor.readFds ∧
    s.1.reactor.handlers fd = some .handleClient ∧ (fd : Int) ≤ s.1.reactor.maxFd
  refused : (inUse s.1.clientSockets).length = MAX_CLIENTS → ∀ client_fd t,
    acceptClient s.1 (some client_fd) = some t →
      client_fd ∉ t.openFds ∧ t.reactor = s.1.reactor ∧ t.clientSockets = s.1.clientSockets

/-- The invariant behind it, which also speaks of the listening socket and of
the clients that have left and are still watched. -/
structure InStep (server_fd : Nat) (s : Server × Clients) : Prop where
  size : s.1.clientSockets.length = MAX_CLIENTS
  distinct : (inUse s.1.clientSockets).Nodup
  listed : ∀ fd, fd ∈ inUse s.1.clientSockets ↔ fd ∈ s.2.connected
  still_open : s.2.connected = s.2.accepted ∩ s.1.openFds
  handled : ∀ fd ∈ s.2.connected, fd ∈ s.1.reactor.readFds ∧
    s.1.reactor.handlers fd = some .handleClient
  bounded : Bounded s.1.reactor
  listening : server_fd ∈ s.1.openFds ∧ server_fd ∉ s.2.accepted ∧
    s.1.reactor.handlers server_fd = some .acceptClient
  known : ∀ fd ∈ s.1.reactor.readFds, fd = server_fd ∨ fd ∈ s.2.accepted

/-- The table has room exactly when an entry is free. -/
theorem inUse_lt_iff : (inUse table).length < table.length ↔ 0 ∈ table := by
  unfold inUse
  rw [List.length_filter_lt_length_iff_exists]
  simp

theorem inUse_le (table : List Nat) : (inUse table).length ≤ table.length :=
  List.length_filter_le _ _

/-- As many entries are in use as clients are connected. -/
theorem inUse_card (kept : InStep server_fd s) :
    (inUse s.1.clientSockets).length = s.2.connected.card := by
  have same : (inUse s.1.clientSockets).toFinset = s.2.connected := by
    ext fd
    rw [List.mem_toFinset, kept.listed]
  rw [← same, List.toFinset_card_of_nodup kept.distinct]

/-- The loop of `acceptClient` finds an entry while fewer than `MAX_CLIENTS` are
connected. -/
theorem slot_free_iff (kept : InStep server_fd s) :
    0 ∈ s.1.clientSockets ↔ s.2.connected.card < MAX_CLIENTS := by
  rw [← inUse_lt_iff, inUse_card kept, kept.size]

theorem exact_of_inStep (kept : InStep server_fd s) : Exact s := by
  refine ⟨kept.distinct, kept.listed, kept.still_open, fun fd used => ?_,
    fun full client_fd t accepted => ?_⟩
  · obtain ⟨watched, handler⟩ := kept.handled fd ((kept.listed fd).mp used)
    exact ⟨watched, handler, kept.bounded fd watched⟩
  · have none_free : 0 ∉ s.1.clientSockets := by
      rw [← inUse_lt_iff, kept.size, full]
      exact Nat.lt_irrefl MAX_CLIENTS
    obtain ⟨-, ⟨table, slot, -⟩ | ⟨-, rfl⟩⟩ := acceptClient_some accepted
    · exact absurd (takeSlot_free slot) none_free
    · exact ⟨Finset.notMem_erase client_fd _, rfl, rfl⟩

/-- What a handler prints is nothing to the table. -/
theorem inStep_printed (kept : InStep server_fd s) (printed : List Line) :
    InStep server_fd ({ s.1 with printed }, s.2) :=
  ⟨kept.size, kept.distinct, kept.listed, kept.still_open, kept.handled, kept.bounded,
    kept.listening, kept.known⟩

/-- A client that takes a free entry is connected, listed and watched. -/
theorem inStep_joined (kept : InStep server_fd s) (client : client_fd ≠ 0)
    (fresh : client_fd ∉ s.1.openFds) (slot : takeSlot client_fd s.1.clientSockets = some table)
    (printed : List Line) :
    InStep server_fd (⟨addFd s.1.reactor client_fd .handleClient, table,
      insert client_fd s.1.openFds, printed⟩,
        ⟨insert client_fd s.2.accepted, insert client_fd s.2.connected⟩) := by
  have joined := takeSlot_inUse client slot
  have new : client_fd ∉ s.2.connected := by
    rw [kept.still_open]
    exact fun old => fresh (Finset.mem_inter.mp old).2
  refine ⟨(takeSlot_length slot).trans kept.size, ?_, ?_, ?_, ?_, ?_, ?_, ?_⟩
  · refine joined.nodup_iff.mpr (List.nodup_cons.mpr ⟨?_, kept.distinct⟩)
    rw [kept.listed]
    exact new
  · intro fd
    rw [joined.mem_iff, List.mem_cons, Finset.mem_insert, kept.listed]
  · rw [kept.still_open]
    exact Finset.insert_inter_distrib s.2.accepted s.1.openFds client_fd
  · intro fd member
    by_cases same : fd = client_fd
    · subst same
      exact ⟨Finset.mem_insert_self _ _, Function.update_self _ _ _⟩
    · obtain ⟨watched, handler⟩ := kept.handled fd (Finset.mem_of_mem_insert_of_ne member same)
      refine ⟨Finset.mem_insert_of_mem watched, ?_⟩
      exact (Function.update_of_ne same _ _).trans handler
  · exact addFd_bounded _ _ _ kept.bounded
  · obtain ⟨still_open, other, handler⟩ := kept.listening
    have same : server_fd ≠ client_fd := fun same => fresh (same ▸ still_open)
    refine ⟨Finset.mem_insert_of_mem still_open, ?_, ?_⟩
    · exact fun member => other (Finset.mem_of_mem_insert_of_ne member same)
    · exact (Function.update_of_ne same _ _).trans handler
  · intro fd member
    rcases Finset.mem_insert.mp member with rfl | old
    · exact Or.inr (Finset.mem_insert_self _ _)
    · exact (kept.known fd old).imp_right Finset.mem_insert_of_mem

/-- A refused client is closed again, and its number counts as accepted only. -/
theorem inStep_refused (kept : InStep server_fd s) (fresh : client_fd ∉ s.1.openFds) :
    InStep server_fd (s.1, ⟨insert client_fd s.2.accepted, s.2.connected⟩) := by
  obtain ⟨still_open, other, handler⟩ := kept.listening
  have same : server_fd ≠ client_fd := fun same => fresh (same ▸ still_open)
  refine ⟨kept.size, kept.distinct, kept.listed, ?_, kept.handled, kept.bounded,
    ⟨still_open, ?_, handler⟩, ?_⟩
  · exact kept.still_open.trans (Finset.insert_inter_of_notMem fresh).symm
  · exact fun member => other (Finset.mem_of_mem_insert_of_ne member same)
  · exact fun fd member => (kept.known fd member).imp_right Finset.mem_insert_of_mem

theorem inStep_accepted (kept : InStep server_fd s) (client : client_fd ≠ 0)
    (accepted : acceptClient s.1 (some client_fd) = some t) :
    InStep server_fd (t, s.2.hear (.accepted (some client_fd))) := by
  have room := slot_free_iff kept
  simp only [Clients.hear]
  obtain ⟨fresh, ⟨table, slot, rfl⟩ | ⟨none_free, rfl⟩⟩ := acceptClient_some accepted
  · rw [if_pos (room.mp (takeSlot_free slot))]
    exact inStep_joined kept client fresh slot _
  · rw [if_neg (fun few => takeSlot_none.mp none_free (room.mpr few)), Finset.erase_insert fresh]
    exact inStep_printed (inStep_refused kept fresh) _

theorem inStep_received (kept : InStep server_fd s) (member : client_fd ∈ s.2.connected)
    (handled : handleClient s.1 client_fd result = some t) :
    InStep server_fd (t, s.2.hear (.received client_fd result)) := by
  cases result with
  | data bytes =>
    simp only [handleClient] at handled
    split at handled
    · cases handled
      exact inStep_printed kept _
    · cases handled
  | error =>
    cases handled
    exact inStep_printed kept _
  | closed =>
    cases handled
    have left := clearSlot_inUse ((kept.listed client_fd).mpr member)
    have distinct := List.nodup_cons.mp (left.nodup_iff.mp kept.distinct)
    refine ⟨(clearSlot_length _ _).trans kept.size, distinct.2, ?_, ?_, ?_, kept.bounded, ?_,
      kept.known⟩
    · intro fd
      refine Iff.trans ?_ Finset.mem_erase.symm
      rw [← kept.listed, left.mem_iff, List.mem_cons]
      constructor
      · intro used
        refine ⟨?_, Or.inr used⟩
        rintro rfl
        exact distinct.1 used
      · rintro ⟨other, used⟩
        exact used.resolve_left other
    · simp only [Clients.hear]
      rw [kept.still_open, Finset.inter_erase]
    · exact fun fd still => kept.handled fd (Finset.mem_of_mem_erase still)
    · obtain ⟨still_open, other, handler⟩ := kept.listening
      refine ⟨Finset.mem_erase.mpr ⟨?_, still_open⟩, other, handler⟩
      rintro rfl
      rw [kept.still_open] at member
      exact other (Finset.mem_inter.mp member).1

theorem event_inStep (s : Server × Clients) (e : Event) (t : Server × Clients)
    (kept : InStep server_fd s) (stepped : eventStep s e = some t) : InStep server_fd t := by
  unfold eventStep at stepped
  split at stepped
  case isFalse => cases stepped
  rename_i heard
  obtain ⟨u, handled, rfl⟩ := Option.map_eq_some_iff.mp stepped
  cases e with
  | accepted client =>
    cases client with
    | none =>
      cases handled
      exact inStep_printed kept _
    | some client_fd =>
      have assigned : Assigned client_fd := heard
      exact inStep_accepted kept (Nat.ne_of_gt assigned.1) handled
  | received client_fd result => exact inStep_received kept heard handled

theorem start_inStep (inherited : Finset Nat) (server_fd : Nat) :
    InStep server_fd ((serverStart inherited server_fd).server, ⟨∅, ∅⟩) := by
  have nothing : inUse (List.replicate MAX_CLIENTS 0) = [] := by decide
  refine ⟨List.length_replicate, ?_, ?_, ?_, ?_, ?_, ?_, ?_⟩
  · exact nothing ▸ List.nodup_nil
  · intro fd
    simp [serverStart, nothing]
  · exact (Finset.empty_inter _).symm
  · intro fd member
    simp at member
  · exact addFd_bounded createReactor server_fd Handler.acceptClient create_bounded
  · refine ⟨Finset.mem_insert_self _ _, Finset.notMem_empty _, Function.update_self _ _ _⟩
  · intro fd member
    exact Or.inl (by simpa [serverStart, startReactor, createReactor] using member)

/-! ## The calls `startReactor` makes -/

/-- What a handler hears from the system when it is called for `fd`. -/
def heardAt (fd : Nat) : Reply → Event
  | .accepted client_fd => .accepted client_fd
  | .received result => .received fd result

/-- The clients as the replies in the run tell of them. -/
def heardSoFar (clients : Clients) (m : Machine) : Action → Clients
  | .call reply =>
    match m.phase with
    | .scan _ fd => clients.hear (heardAt fd reply)
    | _ => clients
  | _ => clients

def AssignedReply : Action → Prop
  | .call (.accepted (some client_fd)) => Assigned client_fd
  | _ => True

instance (a : Action) : Decidable (AssignedReply a) := by
  unfold AssignedReply
  split <;> infer_instance

def machineStep (s : Machine × Clients) (a : Action) : Option (Machine × Clients) :=
  if AssignedReply a then recording step heardSoFar s a else none

/-- What is left of a pass are descriptors that are watched and open: a client
that leaves is handled, and a number given out anew was closed before. -/
structure Passing (server_fd : Nat) (s : Machine × Clients) : Prop where
  table : InStep server_fd (s.1.server, s.2)
  ready : ∀ temp_fds fd, s.1.phase = .scan temp_fds fd → ∀ x ∈ temp_fds, fd ≤ x →
    x ∈ s.1.server.reactor.readFds ∧ x ∈ s.1.server.openFds

/-- A handler closes its own client at most, and takes nothing out of the set. -/
theorem callHandler_keeps (called : callHandler s fd handler reply = some t) :
    s.reactor.readFds ⊆ t.reactor.readFds ∧ ∀ x ∈ s.openFds, x ≠ fd → x ∈ t.openFds := by
  rcases callHandler_cases called with ⟨-, client, -, accepted⟩ | ⟨-, result, -, handled⟩
  · cases client with
    | none =>
      cases accepted
      exact ⟨subset_rfl, fun x still _ => still⟩
    | some client_fd =>
      obtain ⟨fresh, ⟨table, -, rfl⟩ | ⟨-, rfl⟩⟩ := acceptClient_some accepted
      · exact ⟨Finset.subset_insert _ _, fun x still _ => Finset.mem_insert_of_mem still⟩
      · refine ⟨subset_rfl, fun x still _ => ?_⟩
        rw [Finset.erase_insert fresh]
        exact still
  · cases result with
    | data bytes =>
      simp only [handleClient] at handled
      split at handled
      · cases handled
        exact ⟨subset_rfl, fun x still _ => still⟩
      · cases handled
    | error =>
      cases handled
      exact ⟨subset_rfl, fun x still _ => still⟩
    | closed =>
      cases handled
      exact ⟨subset_rfl, fun x still other => Finset.mem_erase.mpr ⟨other, still⟩⟩

/-- `handleClient` is called for connected clients only. -/
theorem called_connected (passing : Passing server_fd s) (phase : s.1.phase = .scan temp_fds fd)
    (ready : fd ∈ temp_fds) (registered : s.1.server.reactor.handlers fd = some .handleClient) :
    fd ∈ s.2.connected := by
  obtain ⟨watched, still_open⟩ := passing.ready temp_fds fd phase fd ready (Nat.le_refl fd)
  have client : fd ∈ s.2.accepted := by
    refine (passing.table.known fd watched).resolve_left ?_
    rintro rfl
    rw [passing.table.listening.2.2] at registered
    cases registered
  rw [passing.table.still_open]
  exact Finset.mem_inter.mpr ⟨client, still_open⟩

/-- Each step of the reactor leaves the server alone or is one call of a handler. -/
theorem machine_simulates {s t : Machine × Clients} (passing : Passing server_fd s)
    (stepped : machineStep s a = some t) :
    (t.1.server, t.2) = (s.1.server, s.2) ∨
      ∃ e, eventStep (s.1.server, s.2) e = some (t.1.server, t.2) := by
  obtain ⟨m, clients⟩ := s
  obtain ⟨n, clients_after⟩ := t
  unfold machineStep at stepped
  split at stepped
  case isFalse => cases stepped
  rename_i assigned
  obtain ⟨plain, recorded⟩ := recording_some.mp stepped
  simp only at plain recorded
  subst recorded
  cases a with
  | select ready =>
    obtain ⟨-, server, -⟩ := step_select plain
    exact Or.inl (Prod.ext server rfl)
  | skip =>
    obtain ⟨-, -, -, rfl⟩ := step_skip plain
    exact Or.inl rfl
  | endPass =>
    rw [step_endPass plain]
    exact Or.inl rfl
  | call reply =>
    obtain ⟨temp_fds, fd, handler, phase, ready, registered, called, -⟩ := step_call plain
    refine Or.inr ⟨heardAt fd reply, ?_⟩
    simp only [eventStep, heardSoFar, phase]
    rcases callHandler_cases called with ⟨-, client, rfl, accepted⟩ | ⟨rfl, result, rfl, handled⟩
    · have may : clients.MayHear (.accepted client) := by
        cases client with
        | none => trivial
        | some client_fd => exact assigned
      simp only [heardAt, if_pos may, handleEvent, accepted, Option.map_some]
    · have may : clients.MayHear (.received fd result) :=
        called_connected passing phase ready registered
      simp only [heardAt, if_pos may, handleEvent, handled, Option.map_some]

theorem machine_passing (s : Machine × Clients) (a : Action) (t : Machine × Clients)
    (passing : Passing server_fd s) (stepped : machineStep s a = some t) :
    Passing server_fd t := by
  have table : InStep server_fd (t.1.server, t.2) := by
    rcases machine_simulates passing stepped with same | ⟨e, event⟩
    · exact same ▸ passing.table
    · exact event_inStep _ e _ passing.table event
  refine ⟨table, fun temp_fds fd phase x ready later => ?_⟩
  unfold machineStep at stepped
  split at stepped
  · obtain ⟨plain, -⟩ := recording_some.mp stepped
    cases a with
    | select ready_fds =>
      obtain ⟨-, server, called⟩ := step_select plain
      rw [server]
      rw [phase] at called
      obtain ⟨subset, all_open⟩ := select_scans called
      exact ⟨subset ready, all_open (server ▸ passing.table.bounded) (subset ready)⟩
    | call reply =>
      obtain ⟨old_fds, old, handler, before, -, -, called, next⟩ := step_call plain
      rw [phase] at next
      cases next
      obtain ⟨grown, kept⟩ := callHandler_keeps called
      obtain ⟨watched, still_open⟩ :=
        passing.ready _ _ before x ready (Nat.le_of_succ_le later)
      exact ⟨grown watched, kept x still_open (Nat.ne_of_gt later)⟩
    | skip =>
      obtain ⟨old_fds, old, before, next⟩ := step_skip plain
      rw [next] at phase ⊢
      cases phase
      exact passing.ready _ _ before x ready (Nat.le_of_succ_le later)
    | endPass =>
      rw [step_endPass plain] at phase
      simp only [whileRunning] at phase
      split at phase <;> cases phase
  · cases stepped

/-- In every state of the server the table is exact: whatever the order in
which clients connect, talk, fail and leave, and in every run of the reactor,
which hands the server nothing else. -/
theorem client_table_exact (inherited : Finset Nat) (server_fd : Nat) :
    (∀ events : List Event,
      Throughout eventStep Exact ((serverStart inherited server_fd).server, ⟨∅, ∅⟩) events) ∧
    ∀ actions : List Action,
      Throughout machineStep (fun s => Exact (s.1.server, s.2))
        (serverStart inherited server_fd, ⟨∅, ∅⟩) actions := by
  have start := start_inStep inherited server_fd
  constructor
  · exact throughout_of_invariant event_inStep (fun _ => exact_of_inStep) start
  · have passing : Passing server_fd (serverStart inherited server_fd, ⟨∅, ∅⟩) :=
      ⟨start, fun _ _ phase => by cases phase⟩
    exact throughout_of_invariant machine_passing (fun _ kept => exact_of_inStep kept.table) passing

end OsCourse.ClientTable

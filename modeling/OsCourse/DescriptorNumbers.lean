import Mathlib.Data.Finset.Card
import OsCourse.ClientTable
import OsCourse.Simulation

/-! The chat server under a system that hands out the lowest descriptor number
not in use, as `socket` and `accept` do. The listening socket then lies below all
its clients, so it has had its turn in a pass before any of them leaves. -/
namespace OsCourse.DescriptorNumbers
open Stdio ReactorLoop ReactServer ClientTable Transition Simulation

def LowestFree (openFds : Finset Nat) (fd : Nat) : Prop :=
  fd ∉ openFds ∧ ∀ lower < fd, lower ∈ openFds

instance (openFds : Finset Nat) (fd : Nat) : Decidable (LowestFree openFds fd) :=
  inferInstanceAs (Decidable (fd ∉ openFds ∧ ∀ lower < fd, lower ∈ openFds))

/-- As many numbers as are in use suffice for the next one. -/
theorem lowestFree_le (lowest : LowestFree openFds fd) : fd ≤ openFds.card := by
  have below : Finset.range fd ⊆ openFds := by
    intro lower member
    exact lowest.2 lower (Finset.mem_range.mp member)
  calc fd = (Finset.range fd).card := (Finset.card_range fd).symm
    _ ≤ openFds.card := Finset.card_le_card below

/-- The numbers the process had from the start are never closed. All others with
a handler are clients, and what has a handler is watched. -/
structure Settled (inherited : Finset Nat) (server_fd : Nat) (m : Machine) : Prop where
  running : m.server.reactor.running = true
  bounded : Bounded m.server.reactor
  kept : insert server_fd inherited ⊆ m.server.openFds
  handlers : ∀ fd handler, m.server.reactor.handlers fd = some handler →
    (handler = .acceptClient ∧ fd = server_fd) ∨
      (handler = .handleClient ∧ fd ∉ insert server_fd inherited)
  watched : ∀ fd handler, m.server.reactor.handlers fd = some handler →
    fd ∈ m.server.reactor.readFds

theorem start_settled (inherited : Finset Nat) (server_fd : Nat) :
    Settled inherited server_fd (serverStart inherited server_fd) := by
  have only (fd : Nat) (handler : Handler)
      (registered : (serverStart inherited server_fd).server.reactor.handlers fd = some handler) :
      handler = .acceptClient ∧ fd = server_fd := by
    by_cases same : fd = server_fd
    · subst same
      have this_one : some Handler.acceptClient = some handler :=
        (Function.update_self fd _ _).symm.trans registered
      cases this_one
      exact ⟨rfl, rfl⟩
    · have nothing : none = some handler := (Function.update_of_ne same _ _).symm.trans registered
      cases nothing
  refine ⟨rfl, addFd_bounded createReactor server_fd Handler.acceptClient create_bounded,
    Finset.Subset.refl _, fun fd handler registered => Or.inl (only fd handler registered),
    fun fd handler registered => ?_⟩
  rw [(only fd handler registered).2]
  exact Finset.mem_insert_self _ _

/-- With the same reactor only what is open can have changed. -/
theorem settled_same_reactor {m t : Machine} (settled : Settled inherited server_fd m)
    (reactor : t.server.reactor = m.server.reactor)
    (kept : insert server_fd inherited ⊆ t.server.openFds) : Settled inherited server_fd t := by
  refine ⟨?_, ?_, kept, ?_, ?_⟩ <;> rw [reactor]
  · exact settled.running
  · exact settled.bounded
  · exact settled.handlers
  · exact settled.watched

theorem settled_client {m : Machine} (settled : Settled inherited server_fd m)
    (registered : m.server.reactor.handlers fd = some .handleClient) :
    fd ∉ insert server_fd inherited := by
  rcases settled.handlers fd _ registered with ⟨other, -⟩ | ⟨-, client⟩
  · cases other
  · exact client

theorem accept_settled {m t : Machine} (settled : Settled inherited server_fd m)
    (accepted : acceptClient m.server client = some t.server) : Settled inherited server_fd t := by
  cases client with
  | none =>
    have server := (Option.some.inj accepted).symm
    exact settled_same_reactor settled (by rw [server]) (by rw [server]; exact settled.kept)
  | some client_fd =>
    obtain ⟨fresh, ⟨table, -, server⟩ | ⟨-, server⟩⟩ := acceptClient_some accepted
    · refine ⟨?_, ?_, ?_, ?_, ?_⟩ <;> rw [server]
      · exact settled.running
      · exact addFd_bounded _ _ _ settled.bounded
      · exact settled.kept.trans (Finset.subset_insert _ _)
      · intro fd handler registered
        by_cases same : fd = client_fd
        · subst same
          have only : some Handler.handleClient = some handler :=
            (Function.update_self fd _ _).symm.trans registered
          cases only
          exact Or.inr ⟨rfl, fun old => fresh (settled.kept old)⟩
        · apply settled.handlers fd handler
          exact (Function.update_of_ne same _ _).symm.trans registered
      · intro fd handler registered
        by_cases same : fd = client_fd
        · rw [same]
          exact Finset.mem_insert_self _ _
        · apply Finset.mem_insert_of_mem
          apply settled.watched fd handler
          exact (Function.update_of_ne same _ _).symm.trans registered
    · apply settled_same_reactor settled (by rw [server])
      rw [server, Finset.erase_insert fresh]
      exact settled.kept

/-- `handleClient` closes the descriptor of its client at most. -/
theorem handleClient_effect (handled : handleClient s client_fd result = some t) :
    t.reactor = s.reactor ∧ (result = .closed ∧ t.openFds = s.openFds.erase client_fd ∨
      result ≠ .closed ∧ t.openFds = s.openFds) := by
  cases result with
  | data bytes =>
    simp only [handleClient] at handled
    split at handled
    · cases handled
      exact ⟨rfl, Or.inr ⟨Recv.noConfusion, rfl⟩⟩
    · cases handled
  | closed =>
    cases handled
    exact ⟨rfl, Or.inl ⟨rfl, rfl⟩⟩
  | error =>
    cases handled
    exact ⟨rfl, Or.inr ⟨Recv.noConfusion, rfl⟩⟩

theorem client_settled {m t : Machine} (settled : Settled inherited server_fd m)
    (registered : m.server.reactor.handlers fd = some .handleClient)
    (handled : handleClient m.server fd result = some t.server) :
    Settled inherited server_fd t := by
  obtain ⟨reactor, ⟨-, left⟩ | ⟨-, same⟩⟩ := handleClient_effect handled
  · apply settled_same_reactor settled reactor
    intro old member
    rw [left]
    refine Finset.mem_erase.mpr ⟨?_, settled.kept member⟩
    rintro rfl
    exact settled_client settled registered member
  · apply settled_same_reactor settled reactor
    rw [same]
    exact settled.kept

theorem step_settled (m : Machine) (a : Action) (t : Machine)
    (settled : Settled inherited server_fd m) (stepped : step m a = some t) :
    Settled inherited server_fd t := by
  cases a with
  | select ready =>
    obtain ⟨-, server, -⟩ := step_select stepped
    apply settled_same_reactor settled <;> rw [server]
    exact settled.kept
  | call reply =>
    obtain ⟨temp_fds, fd, handler, -, -, registered, called, -⟩ := step_call stepped
    rcases callHandler_cases called with ⟨rfl, client, -, accepted⟩ | ⟨rfl, result, -, handled⟩
    · exact accept_settled settled accepted
    · exact client_settled settled registered handled
  | skip =>
    obtain ⟨temp_fds, fd, -, rfl⟩ := step_skip stepped
    exact settled_same_reactor settled rfl settled.kept
  | endPass =>
    rw [step_endPass stepped]
    exact settled_same_reactor settled rfl settled.kept

/-! ## The pass in which a client leaves -/

/-- The numbers below the listening socket were in use before it was made. -/
theorem client_above (lowest : LowestFree inherited server_fd)
    (client : fd ∉ insert server_fd inherited) : server_fd < fd := by
  rw [Finset.mem_insert, not_or] at client
  by_contra below
  apply client.2
  exact lowest.2 fd (Nat.lt_of_le_of_ne (Nat.le_of_not_lt below) client.1)

/-- The pass is past the listening socket, and a watched descriptor is closed. -/
structure Departing (server_fd : Nat) (temp_fds : Finset Nat) (fd : Nat) (m : Machine) : Prop where
  phase : m.phase = .scan temp_fds fd
  past : server_fd < fd
  closed : ¬ m.server.reactor.readFds ⊆ m.server.openFds
  inside : (fd : Int) ≤ m.server.reactor.maxFd + 1

/-- What the server still does of a pass: the turns of other clients. -/
def ServesOthers (a : Action) : Prop := a = .skip ∨ ∃ result, a = .call (.received result)

/-- The run behind a departure: other clients have their turns, no one is
accepted, and the next `select` ends the process. That is soon, and the server
does not come to a stand before. -/
structure Ending (after : List Action) (t : Machine) : Prop where
  shape : ∃ pass rest, after = pass ++ rest ∧ (∀ a ∈ pass, ServesOthers a) ∧
    (rest = [] ∨ rest = [.endPass] ∨ ∃ ready, rest = [.endPass, .select ready] ∧ t.phase = .exited)
  soon : (after.length : Int) ≤ t.server.reactor.maxFd + 2
  ends : Stuck step t ↔ t.phase = .exited

theorem departing_step (settled : Settled inherited server_fd m)
    (departing : Departing server_fd temp_fds fd m) (stepped : step m a = some t) :
    (ServesOthers a ∧ Departing server_fd temp_fds (fd + 1) t) ∨
      (a = .endPass ∧ t = ⟨m.server, .select⟩) := by
  have inside (other : a ≠ .endPass) : (fd : Int) ≤ m.server.reactor.maxFd := by
    by_contra beyond
    have ends : turn m.server.reactor temp_fds fd = .endPass := if_neg beyond
    cases a <;> simp [step, departing.phase, ends] at stepped other
  cases a with
  | select ready =>
    have before := (step_select stepped).1
    rw [departing.phase] at before
    cases before
  | call reply =>
    obtain ⟨_, _, handler, phase, -, registered, called, next⟩ := step_call stepped
    rw [departing.phase] at phase
    cases phase
    rcases callHandler_cases called with ⟨rfl, client, rfl, -⟩ | ⟨rfl, result, rfl, handled⟩
    · -- the listening socket had its turn before
      rcases settled.handlers fd _ registered with ⟨-, same⟩ | ⟨other, -⟩
      · exact absurd same (Nat.ne_of_gt departing.past)
      · cases other
    · obtain ⟨reactor, fewer⟩ := handleClient_effect handled
      have still : t.server.openFds ⊆ m.server.openFds := by
        rcases fewer with ⟨-, left⟩ | ⟨-, same⟩
        · rw [left]
          exact Finset.erase_subset _ _
        · rw [same]
      refine Or.inl ⟨Or.inr ⟨result, rfl⟩, next, Nat.lt_succ_of_lt departing.past, ?_, ?_⟩
      · rw [reactor]
        exact fun every => departing.closed (every.trans still)
      · rw [reactor]
        have := inside (fun same => by cases same)
        omega
  | skip =>
    obtain ⟨_, _, phase, rfl⟩ := step_skip stepped
    rw [departing.phase] at phase
    cases phase
    refine Or.inl ⟨Or.inl rfl, rfl, Nat.lt_succ_of_lt departing.past, departing.closed, ?_⟩
    have := inside (fun same => by cases same)
    change (↑(fd + 1) : Int) ≤ m.server.reactor.maxFd + 1
    omega
  | endPass =>
    refine Or.inr ⟨rfl, ?_⟩
    rw [step_endPass stepped, whileRunning, if_pos settled.running]

theorem exited_stuck (phase : m.phase = .exited) : Stuck step m := by
  intro a
  cases a <;> simp only [step, phase]

/-- In a pass there is a next turn, and before a `select` there is one. -/
theorem scan_enabled (phase : m.phase = .scan temp_fds fd) : ¬ Stuck step m := by
  intro stuck
  cases turned : turn m.server.reactor temp_fds fd with
  | endPass => simpa [step, phase, turned] using stuck .endPass
  | skip => simpa [step, phase, turned] using stuck .skip
  | call handler =>
    cases handler with
    | acceptClient =>
      simpa [step, phase, turned, callHandler, acceptClient] using stuck (.call (.accepted none))
    | handleClient =>
      simpa [step, phase, turned, callHandler, handleClient] using stuck (.call (.received .error))

theorem select_enabled (phase : m.phase = .select) : ¬ Stuck step m := by
  intro stuck
  have nothing := stuck (.select ∅)
  simp only [step, phase, Option.map_eq_none_iff, selectCall, Finset.empty_subset,
    ↓reduceIte] at nothing
  split at nothing <;> cases nothing

/-- `select` with a closed descriptor in its set is the last thing done. -/
theorem closed_select_ends (phase : m.phase = .select) (bounded : Bounded m.server.reactor)
    (closed : ¬ m.server.reactor.readFds ⊆ m.server.openFds) (ran : exec step m after = some t) :
    after = [] ∧ t = m ∨
      ∃ ready, after = [.select ready] ∧ t = ⟨m.server, .exited⟩ := by
  cases after with
  | nil => exact Or.inl ⟨rfl, (Option.some.inj ran).symm⟩
  | cons a rest =>
    obtain ⟨middle, stepped, onward⟩ := exec_cons_some.mp ran
    have is_select : ∃ ready, a = .select ready := by
      by_contra other
      obtain ⟨_, _, scanning⟩ := step_scans stepped fun ready same => other ⟨ready, same⟩
      rw [phase] at scanning
      cases scanning
    obtain ⟨ready, rfl⟩ := is_select
    obtain ⟨-, server, called⟩ := step_select stepped
    rw [(select_exits_iff _ _ ready bounded).mpr closed] at called
    have exits : middle = ⟨m.server, .exited⟩ := by
      rw [← server, Option.some.inj called]
    cases rest with
    | nil => exact Or.inr ⟨ready, rfl, (Option.some.inj onward).symm.trans exits⟩
    | cons b later =>
      obtain ⟨_, again, -⟩ := exec_cons_some.mp onward
      rw [exited_stuck (by rw [exits])] at again
      cases again

theorem departing_run (settled : Settled inherited server_fd m)
    (departing : Departing server_fd temp_fds fd m) (ran : exec step m after = some t) :
    (∃ pass rest, after = pass ++ rest ∧ (∀ a ∈ pass, ServesOthers a) ∧
      (rest = [] ∨ rest = [.endPass] ∨
        ∃ ready, rest = [.endPass, .select ready] ∧ t.phase = .exited)) ∧
      ((after.length + fd : Nat) : Int) ≤ t.server.reactor.maxFd + 3 ∧
        (Stuck step t ↔ t.phase = .exited) := by
  induction after generalizing m fd with
  | nil =>
    cases ran
    refine ⟨⟨[], [], rfl, nofun, Or.inl rfl⟩, ?_, ?_⟩
    · have := departing.inside
      simp only [List.length_nil]
      omega
    · rw [departing.phase]
      exact iff_of_false (scan_enabled departing.phase) nofun
  | cons a later ih =>
    obtain ⟨middle, stepped, onward⟩ := exec_cons_some.mp ran
    have next := step_settled m a middle settled stepped
    rcases departing_step settled departing stepped with ⟨serves, further⟩ | ⟨rfl, rfl⟩
    · obtain ⟨⟨pass, rest, rfl, others, final⟩, soon, ends⟩ := ih next further onward
      refine ⟨⟨a :: pass, rest, rfl, ?_, final⟩, ?_, ends⟩
      · intro b member
        rcases List.mem_cons.mp member with rfl | inner
        · exact serves
        · exact others b inner
      · simp only [List.length_cons] at soon ⊢
        omega
    · have inside := departing.inside
      rcases closed_select_ends (m := ⟨m.server, .select⟩) rfl settled.bounded departing.closed
        onward with ⟨rfl, rfl⟩ | ⟨ready, rfl, rfl⟩
      · refine ⟨⟨[], [.endPass], rfl, nofun, Or.inr (Or.inl rfl)⟩, ?_, ?_⟩
        · simp only [List.length_singleton]
          omega
        · exact iff_of_false (select_enabled rfl) nofun
      · refine ⟨⟨[], _, rfl, nofun, Or.inr (Or.inr ⟨ready, rfl, rfl⟩)⟩, ?_, ?_⟩
        · simp only [List.length_cons, List.length_nil]
          omega
        · exact iff_of_true (exited_stuck rfl) rfl

/-- The departure itself leaves a closed descriptor that is watched. -/
theorem departure (lowest : LowestFree inherited server_fd)
    (settled : Settled inherited server_fd m)
    (stepped : step m (.call (.received .closed)) = some t) :
    ∃ temp_fds fd, Departing server_fd temp_fds fd t := by
  obtain ⟨temp_fds, fd, handler, -, -, registered, called, next⟩ := step_call stepped
  rcases callHandler_cases called with ⟨-, client, other, -⟩ | ⟨rfl, result, same, handled⟩
  · cases other
  cases same
  obtain ⟨reactor, ⟨-, left⟩ | ⟨other, -⟩⟩ := handleClient_effect handled
  · have watched := settled.watched fd _ registered
    have above := client_above lowest (settled_client settled registered)
    refine ⟨temp_fds, fd + 1, next, Nat.lt_succ_of_lt above, ?_, ?_⟩
    · rw [reactor, left]
      exact fun every => Finset.notMem_erase fd _ (every watched)
    · rw [reactor]
      have := settled.bounded fd watched
      omega
  · exact absurd rfl other

/-- The first client that leaves ends the service: whatever happened before, the
pass it leaves in is the last one, no one is accepted any more, and the process
exits at the next `select`. -/
theorem departure_ends_service (inherited : Finset Nat) (server_fd : Nat)
    (lowest : LowestFree inherited server_fd) (before after : List Action) (t : Machine)
    (ran : exec step (serverStart inherited server_fd)
      (before ++ .call (.received .closed) :: after) = some t) : Ending after t := by
  rw [exec_append, Option.bind_eq_some_iff] at ran
  obtain ⟨m, first, ran⟩ := ran
  obtain ⟨n, stepped, onward⟩ := exec_cons_some.mp ran
  have settled := exec_invariant step_settled (start_settled inherited server_fd) first
  obtain ⟨temp_fds, fd, departing⟩ := departure lowest settled stepped
  obtain ⟨shape, soon, ends⟩ :=
    departing_run (step_settled m _ n settled stepped) departing onward
  refine ⟨shape, ?_, ends⟩
  have := departing.past
  omega

/-- Two clients connect, one of them leaves and the other is heard once more. -/
def clientsConnect : List Action :=
  [.select {3}, .skip, .skip, .skip, .call (.accepted (some 4)), .skip, .endPass,
   .select {3}, .skip, .skip, .skip, .call (.accepted (some 5)), .skip, .skip, .endPass,
   .select {4, 5}, .skip, .skip, .skip, .skip]

def otherClientHeard : List Action := [.call (.received (.data [104, 105])), .endPass, .select ∅]

theorem other_client_heard_last :
    ∃ t, exec step (serverStart {0, 1, 2} 3)
        (clientsConnect ++ .call (.received .closed) :: otherClientHeard) = some t ∧
      Ending otherClientHeard t := by
  have ran : exec step (serverStart {0, 1, 2} 3)
      (clientsConnect ++ .call (.received .closed) :: otherClientHeard) = some _ := rfl
  refine ⟨_, ran, ?_⟩
  exact departure_ends_service {0, 1, 2} 3 (by decide) clientsConnect otherClientHeard _ ran

/-! ## The range of the numbers -/

/-- `accept` returns the lowest number that is free. -/
def LowestReply (m : Machine) : Action → Prop
  | .call (.accepted (some client_fd)) => LowestFree m.server.openFds client_fd
  | _ => True

instance (m : Machine) : ∀ a, Decidable (LowestReply m a)
  | .call (.accepted (some client_fd)) =>
    inferInstanceAs (Decidable (LowestFree m.server.openFds client_fd))
  | .call (.accepted none) | .call (.received _) | .select _ | .skip | .endPass => isTrue trivial

def lowestStep (m : Machine) (a : Action) : Option Machine :=
  if LowestReply m a then step m a else none

/-- The table is exact, no client has the number that marks a free entry, and
all numbers are within `fd_set` and the handler array, the next one as well. -/
structure InRange (inherited : Finset Nat) (s : Machine × Clients) : Prop where
  table : Exact (s.1.server, s.2)
  client : 0 ∉ s.2.accepted
  watched : ∀ fd ∈ s.1.server.reactor.readFds, fd ≤ inherited.card + MAX_CLIENTS
  maxFd : s.1.server.reactor.maxFd ≤ (inherited.card + MAX_CLIENTS : Nat)
  next : ∀ client_fd, LowestFree s.1.server.openFds client_fd → Assigned client_fd

/-- What is open was inherited, is the listening socket or has been accepted. -/
structure Counted (inherited : Finset Nat) (server_fd : Nat) (s : Machine × Clients) :
    Prop where
  passing : Passing server_fd s
  settled : Settled inherited server_fd s.1
  origin : s.1.server.openFds ⊆ insert server_fd inherited ∪ s.2.accepted
  client : 0 ∉ s.2.accepted
  watched : ∀ fd ∈ s.1.server.reactor.readFds, fd ≤ inherited.card + MAX_CLIENTS
  maxFd : s.1.server.reactor.maxFd ≤ (inherited.card + MAX_CLIENTS : Nat)

/-- Besides those the process started with, only the clients in the table are open. -/
theorem open_le (counted : Counted inherited server_fd s) :
    s.1.server.openFds.card ≤ inherited.card + 1 + (inUse s.1.server.clientSockets).length := by
  have split : s.1.server.openFds ⊆
      insert server_fd inherited ∪ (inUse s.1.server.clientSockets).toFinset := by
    intro fd member
    rcases Finset.mem_union.mp (counted.origin member) with old | client
    · exact Finset.mem_union_left _ old
    · apply Finset.mem_union_right
      rw [List.mem_toFinset, counted.passing.table.listed, counted.passing.table.still_open]
      exact Finset.mem_inter.mpr ⟨client, member⟩
  calc s.1.server.openFds.card
      ≤ (insert server_fd inherited ∪ (inUse s.1.server.clientSockets).toFinset).card :=
        Finset.card_le_card split
    _ ≤ (insert server_fd inherited).card + (inUse s.1.server.clientSockets).toFinset.card :=
        Finset.card_union_le _ _
    _ ≤ inherited.card + 1 + (inUse s.1.server.clientSockets).length :=
        Nat.add_le_add (Finset.card_insert_le _ _) (List.toFinset_card_le _)

/-- Number 0 is open from the start or is the listening socket. -/
theorem lowest_positive (lowest : LowestFree inherited server_fd)
    (settled : Settled inherited server_fd m)
    (free : LowestFree m.server.openFds client_fd) : 0 < client_fd := by
  refine Nat.pos_of_ne_zero ?_
  rintro rfl
  apply free.1
  apply settled.kept
  rw [Finset.mem_insert]
  rcases Nat.eq_zero_or_pos server_fd with same | later
  · exact Or.inl same.symm
  · exact Or.inr (lowest.2 0 later)

theorem next_assigned (few : inherited.card + MAX_CLIENTS + 1 < MAX_FDS)
    (lowest : LowestFree inherited server_fd) (counted : Counted inherited server_fd s)
    (free : LowestFree s.1.server.openFds client_fd) : Assigned client_fd := by
  refine ⟨lowest_positive lowest counted.settled free, ?_⟩
  have number := lowestFree_le free
  have used := open_le counted
  have entries := inUse_le s.1.server.clientSockets
  rw [counted.passing.table.size] at entries
  omega

/-- A client that is registered takes a number below those of a full table. -/
theorem registered_le (counted : Counted inherited server_fd s)
    (free : LowestFree s.1.server.openFds client_fd)
    (slot : takeSlot client_fd s.1.server.clientSockets = some table) :
    client_fd ≤ inherited.card + MAX_CLIENTS := by
  have number := lowestFree_le free
  have used := open_le counted
  have entries : (inUse s.1.server.clientSockets).length < MAX_CLIENTS := by
    rw [← counted.passing.table.size, inUse_lt_iff]
    exact takeSlot_free slot
  omega

/-- Where neither the numbers given out nor the reactor change, closing some
changes nothing here. -/
theorem counted_same_reactor (counted : Counted inherited server_fd s)
    (passing : Passing server_fd t) (settled : Settled inherited server_fd t.1)
    (reactor : t.1.server.reactor = s.1.server.reactor)
    (fewer : t.1.server.openFds ⊆ s.1.server.openFds) (accepted : t.2.accepted = s.2.accepted) :
    Counted inherited server_fd t := by
  refine ⟨passing, settled, ?_, ?_, ?_, ?_⟩
  · rw [accepted]
    exact fewer.trans counted.origin
  · rw [accepted]
    exact counted.client
  · rw [reactor]
    exact counted.watched
  · rw [reactor]
    exact counted.maxFd

theorem counted_accepted (counted : Counted inherited server_fd s)
    (passing : Passing server_fd t) (settled : Settled inherited server_fd t.1)
    (free : LowestFree s.1.server.openFds client_fd) (positive : 0 < client_fd)
    (accepted : acceptClient s.1.server (some client_fd) = some t.1.server)
    (recorded : t.2.accepted = insert client_fd s.2.accepted) : Counted inherited server_fd t := by
  have old_client : 0 ∉ t.2.accepted := by
    rw [recorded, Finset.mem_insert, not_or]
    exact ⟨Nat.ne_of_lt positive, counted.client⟩
  obtain ⟨fresh, ⟨table, slot, server⟩ | ⟨-, server⟩⟩ := acceptClient_some accepted
  · have number := registered_le counted free slot
    refine ⟨passing, settled, ?_, old_client, ?_, ?_⟩ <;> rw [server]
    · rw [recorded, Finset.union_insert]
      exact Finset.insert_subset_insert _ counted.origin
    · intro fd member
      rcases Finset.mem_insert.mp member with rfl | old
      · exact number
      · exact counted.watched fd old
    · have before := counted.maxFd
      simp only [addFd]
      split <;> omega
  · refine ⟨passing, settled, ?_, old_client, ?_, ?_⟩ <;> rw [server]
    · rw [recorded, Finset.erase_insert fresh, Finset.union_insert]
      exact counted.origin.trans (Finset.subset_insert _ _)
    · exact counted.watched
    · exact counted.maxFd

theorem lowest_counted (few : inherited.card + MAX_CLIENTS + 1 < MAX_FDS)
    (lowest : LowestFree inherited server_fd) (s : Machine × Clients) (a : Action)
    (t : Machine × Clients) (counted : Counted inherited server_fd s)
    (stepped : recording lowestStep heardSoFar s a = some t) :
    Counted inherited server_fd t := by
  obtain ⟨taken, recorded⟩ := recording_some.mp stepped
  unfold lowestStep at taken
  split at taken
  case isFalse => cases taken
  rename_i free
  have assigned : AssignedReply a := by
    unfold AssignedReply
    split
    · exact next_assigned few lowest counted free
    · trivial
  have passing : Passing server_fd t := by
    apply machine_passing s a t counted.passing
    rw [machineStep, if_pos assigned]
    exact recording_some.mpr ⟨taken, recorded⟩
  have settled := step_settled s.1 a t.1 counted.settled taken
  have numbers := congrArg Clients.accepted recorded
  cases a with
  | select ready =>
    obtain ⟨-, server, -⟩ := step_select taken
    exact counted_same_reactor counted passing settled (by rw [server]) (by rw [server]) numbers
  | call reply =>
    obtain ⟨temp_fds, fd, handler, phase, -, -, called, -⟩ := step_call taken
    simp only [heardSoFar, phase] at numbers
    rcases callHandler_cases called with ⟨-, client, rfl, accepted⟩ | ⟨-, result, rfl, handled⟩
    · cases client with
      | none =>
        have server := (Option.some.inj accepted).symm
        exact counted_same_reactor counted passing settled (by rw [server]) (by rw [server]) numbers
      | some client_fd =>
        exact counted_accepted counted passing settled free
          (lowest_positive lowest counted.settled free) accepted numbers
    · have same_numbers := numbers.trans (Clients.hear_received s.2 fd result)
      obtain ⟨reactor, ⟨-, left⟩ | ⟨-, same⟩⟩ := handleClient_effect handled
      · refine counted_same_reactor counted passing settled reactor ?_ same_numbers
        rw [left]
        exact Finset.erase_subset _ _
      · exact counted_same_reactor counted passing settled reactor (by rw [same]) same_numbers
  | skip =>
    obtain ⟨temp_fds, fd, -, next⟩ := step_skip taken
    exact counted_same_reactor counted passing settled (by rw [next]) (by rw [next]) numbers
  | endPass =>
    have next := step_endPass taken
    exact counted_same_reactor counted passing settled (by rw [next]) (by rw [next]) numbers

theorem start_counted (lowest : LowestFree inherited server_fd) :
    Counted inherited server_fd (serverStart inherited server_fd, ⟨∅, ∅⟩) := by
  have number := lowestFree_le lowest
  refine ⟨⟨start_inStep inherited server_fd, fun _ _ phase => by cases phase⟩,
    start_settled inherited server_fd, Finset.subset_union_left, Finset.notMem_empty 0, ?_, ?_⟩
  · intro fd member
    have same : fd = server_fd := by
      simpa [serverStart, startReactor, createReactor] using member
    omega
  · simp only [serverStart, startReactor, addFd, createReactor]
    omega

/-- Under such a system the server keeps to its tables by itself: with few
enough descriptors from the start, every number it is given is a client's number
that `fd_set` and the handler array have room for, in every run. -/
theorem numbers_in_range (inherited : Finset Nat) (server_fd : Nat)
    (few : inherited.card + MAX_CLIENTS + 1 < MAX_FDS) (lowest : LowestFree inherited server_fd)
    (actions : List Action) :
    Throughout (recording lowestStep heardSoFar) (InRange inherited)
      (serverStart inherited server_fd, ⟨∅, ∅⟩) actions := by
  apply throughout_of_invariant (lowest_counted few lowest) ?_ (start_counted lowest)
  intro s counted
  exact ⟨exact_of_inStep counted.passing.table, counted.client, counted.watched, counted.maxFd,
    fun client_fd free => next_assigned few lowest counted free⟩

theorem numbers_in_range_two_clients :
    Throughout (recording lowestStep heardSoFar) (InRange {0, 1, 2})
      (serverStart {0, 1, 2} 3, ⟨∅, ∅⟩) clientsConnect :=
  numbers_in_range {0, 1, 2} 3 (by decide) (by decide) clientsConnect

end OsCourse.DescriptorNumbers

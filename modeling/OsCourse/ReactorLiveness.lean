import OsCourse.ReactServer

/-! Whether the descriptors the server watches are open. `handleClient` closes
the descriptor of a client that has left and nothing takes it out of
`read_fds`, so what can be said is exactly which runs are spared the closed
descriptor at the next `select`. -/
namespace OsCourse.ReactorLiveness
open Stdio ReactorLoop ReactServer Transition

/-- Before each call of `select` every watched descriptor is open, and the
process has not been ended by a failing one. -/
def SelectSafe (m : Machine) : Prop :=
  m.phase ≠ .exited ∧ (m.phase = .select → m.server.reactor.readFds ⊆ m.server.openFds)

/-- The clients that have left and whose descriptor number has not been given
to a newly registered client since. -/
def departed (gone : Finset Nat) (m : Machine) : Action → Finset Nat
  | .call (.received .closed) =>
    match m.phase with
    | .scan _ fd => insert fd gone
    | _ => gone
  | .call (.accepted (some client_fd)) =>
    if (takeSlot client_fd m.server.clientSockets).isSome then gone.erase client_fd else gone
  | _ => gone

/-- A pass may end only when every client that left has been replaced under
its descriptor number. -/
def AllReplaced (s : Machine × Finset Nat) (a : Action) : Prop := a = .endPass → s.2 = ∅

/-- The bookkeeping that holds in every run: the clients in `gone` are the
watched descriptors that are closed, and a pass handles watched ones only. -/
structure Tracked (s : Machine × Finset Nat) : Prop where
  running : s.1.server.reactor.running = true
  bounded : Bounded s.1.server.reactor
  closed : ∀ fd, fd ∈ s.2 ↔ fd ∈ s.1.server.reactor.readFds ∧ fd ∉ s.1.server.openFds
  watched : ∀ temp_fds fd, s.1.phase = .scan temp_fds fd → temp_fds ⊆ s.1.server.reactor.readFds

theorem whileRunning_select (running : r.running = true) : whileRunning r = .select := by
  rw [whileRunning, if_pos running]

/-- The new server keeps the bookkeeping of a pass whatever its reactor has
gained. -/
theorem tracked_scan {m t : Machine} (tracked : Tracked (m, gone))
    (phase : m.phase = .scan temp_fds fd) (next : t.phase = .scan temp_fds (fd + 1))
    (running : t.server.reactor.running = true) (bounded : Bounded t.server.reactor)
    (grown : m.server.reactor.readFds ⊆ t.server.reactor.readFds)
    (closed : ∀ fd, fd ∈ gone' ↔ fd ∈ t.server.reactor.readFds ∧ fd ∉ t.server.openFds) :
    Tracked (t, gone') := by
  refine ⟨running, bounded, closed, fun temp other same => ?_⟩
  rw [next] at same
  cases same
  exact (tracked.watched _ _ phase).trans grown

theorem accept_tracked {m t : Machine} (tracked : Tracked (m, gone))
    (phase : m.phase = .scan temp_fds fd) (next : t.phase = .scan temp_fds (fd + 1))
    (accepted : acceptClient m.server client = some t.server) :
    Tracked (t, departed gone m (.call (.accepted client))) := by
  cases client with
  | none =>
    cases server : t.server with
    | mk reactor clientSockets openFds printed =>
      rw [server] at accepted
      cases accepted
      refine tracked_scan tracked phase next ?_ ?_ ?_ ?_ <;> rw [server]
      · exact tracked.running
      · exact tracked.bounded
      · exact tracked.closed
  | some client_fd =>
    obtain ⟨fresh, ⟨table, slot, server⟩ | ⟨full, server⟩⟩ := acceptClient_some accepted
    · -- the client is registered, so its number counts as open again
      have registered : departed gone m (.call (.accepted (some client_fd))) =
          gone.erase client_fd := by
        simp only [departed, slot, Option.isSome_some, ↓reduceIte]
      rw [registered]
      refine tracked_scan tracked phase next ?_ ?_ ?_ ?_ <;> rw [server]
      · exact tracked.running
      · exact addFd_bounded _ _ _ tracked.bounded
      · exact Finset.subset_insert _ _
      · intro x
        have old := tracked.closed x
        simp only [addFd_readFds, Finset.mem_erase, Finset.mem_insert, not_or, old]
        tauto
    · have refused : departed gone m (.call (.accepted (some client_fd))) = gone := by
        simp only [departed, full, Option.isSome_none, Bool.false_eq_true, ↓reduceIte]
      have same : (insert client_fd m.server.openFds).erase client_fd = m.server.openFds :=
        Finset.erase_insert fresh
      rw [refused]
      refine tracked_scan tracked phase next ?_ ?_ ?_ ?_ <;> rw [server]
      · exact tracked.running
      · exact tracked.bounded
      · rw [same]
        exact tracked.closed

theorem client_tracked {m t : Machine} (tracked : Tracked (m, gone))
    (phase : m.phase = .scan temp_fds fd) (ready : fd ∈ temp_fds)
    (next : t.phase = .scan temp_fds (fd + 1))
    (handled : handleClient m.server fd result = some t.server) :
    Tracked (t, departed gone m (.call (.received result))) := by
  cases result with
  | data bytes =>
    simp only [handleClient] at handled
    split at handled
    · have server := (Option.some.inj handled).symm
      refine tracked_scan tracked phase next ?_ ?_ ?_ ?_ <;> rw [server]
      · exact tracked.running
      · exact tracked.bounded
      · exact tracked.closed
    · cases handled
  | error =>
    have server := (Option.some.inj handled).symm
    refine tracked_scan tracked phase next ?_ ?_ ?_ ?_ <;> rw [server]
    · exact tracked.running
    · exact tracked.bounded
    · exact tracked.closed
  | closed =>
    -- the descriptor is closed and stays watched
    have left : departed gone m (.call (.received .closed)) = insert fd gone := by
      simp only [departed, phase]
    have watched : fd ∈ m.server.reactor.readFds := tracked.watched _ _ phase ready
    have server := (Option.some.inj handled).symm
    rw [left]
    refine tracked_scan tracked phase next ?_ ?_ ?_ ?_ <;> rw [server]
    · exact tracked.running
    · exact tracked.bounded
    · intro x
      have old := tracked.closed x
      simp only [Finset.mem_insert, Finset.mem_erase, old]
      by_cases same : x = fd
      · subst same
        simp [watched]
      · simp [same]

theorem step_tracked (s : Machine × Finset Nat) (a : Action) (t : Machine × Finset Nat)
    (tracked : Tracked s) (stepped : recording step departed s a = some t) : Tracked t := by
  obtain ⟨m, gone⟩ := s
  obtain ⟨plain, recorded⟩ := recording_some.mp stepped
  obtain ⟨t, gone'⟩ := t
  simp only at plain recorded
  subst recorded
  cases a with
  | select ready =>
    obtain ⟨-, server, called⟩ := step_select plain
    refine ⟨server ▸ tracked.running, server ▸ tracked.bounded, server ▸ tracked.closed, ?_⟩
    intro temp_fds fd phase
    rw [phase] at called
    exact server ▸ (select_scans called).1
  | call reply =>
    obtain ⟨temp_fds, fd, handler, phase, ready, -, called, next⟩ := step_call plain
    rcases callHandler_cases called with ⟨-, client, rfl, accepted⟩ | ⟨-, result, rfl, handled⟩
    · exact accept_tracked tracked phase next accepted
    · exact client_tracked tracked phase ready next handled
  | skip =>
    obtain ⟨temp_fds, fd, phase, rfl⟩ := step_skip plain
    exact tracked_scan tracked phase rfl tracked.running tracked.bounded subset_rfl tracked.closed
  | endPass =>
    rw [step_endPass plain]
    refine ⟨tracked.running, tracked.bounded, tracked.closed, ?_⟩
    intro temp_fds fd phase
    rw [whileRunning_select tracked.running] at phase
    cases phase

theorem start_tracked (inherited : Finset Nat) (server_fd : Nat) :
    Tracked (serverStart inherited server_fd, ∅) := by
  refine ⟨rfl, addFd_bounded createReactor server_fd Handler.acceptClient create_bounded,
    fun fd => ?_, fun _ _ phase => ?_⟩
  · simp only [serverStart, startReactor, addFd_readFds, createReactor, Finset.notMem_empty,
      Finset.mem_insert, or_false, not_or, false_iff]
    rintro ⟨same, different, -⟩
    exact different same
  · cases phase

/-- In a tracked state that is safe, one step leads to an unsafe one exactly
when it ends a pass some client has left without being replaced. -/
theorem step_safe_iff (s : Machine × Finset Nat) (a : Action) (t : Machine × Finset Nat)
    (before : Tracked s ∧ SelectSafe s.1) (stepped : recording step departed s a = some t) :
    (Tracked t ∧ SelectSafe t.1) ↔ AllReplaced s a := by
  have tracked := step_tracked s a t before.1 stepped
  obtain ⟨plain, recorded⟩ := recording_some.mp stepped
  rw [and_iff_right tracked]
  cases a with
  | select ready =>
    obtain ⟨phase, server, called⟩ := step_select plain
    refine iff_of_true ⟨fun failed => ?_, fun again => ?_⟩ nofun
    · rw [failed, select_exits_iff _ _ _ before.1.bounded] at called
      exact called (before.2.2 phase)
    · rw [server]
      exact before.2.2 phase
  | call reply =>
    obtain ⟨temp_fds, fd, -, -, -, -, -, next⟩ := step_call plain
    exact iff_of_true ⟨by simp [next], by simp [next]⟩ nofun
  | skip =>
    obtain ⟨temp_fds, fd, -, next⟩ := step_skip plain
    exact iff_of_true ⟨by simp [next], by simp [next]⟩ nofun
  | endPass =>
    have next := step_endPass plain
    have phase : t.1.phase = .select := by
      rw [next]
      exact whileRunning_select before.1.running
    have same : t.2 = s.2 := recorded
    have none_closed : t.1.server.reactor.readFds ⊆ t.1.server.openFds ↔ t.2 = ∅ := by
      rw [Finset.eq_empty_iff_forall_notMem]
      refine forall_congr' fun fd => ?_
      rw [tracked.closed fd]
      tauto
    simp only [SelectSafe, AllReplaced, phase, none_closed, same, ne_eq, reduceCtorEq,
      not_false_eq_true, true_and, forall_const]

theorem start_safe (inherited : Finset Nat) (server_fd : Nat) :
    SelectSafe (serverStart inherited server_fd) := by
  refine ⟨nofun, fun _ => ?_⟩
  simp only [serverStart, startReactor, addFd_readFds, createReactor, insert_empty_eq,
    Finset.singleton_subset_iff, Finset.mem_insert, true_or]

/-- All descriptors watched at every `select` of a run are open exactly when,
in each pass, every client that leaves is replaced before the pass ends by a
newly registered client under the same descriptor number. -/
theorem watched_descriptors_open_iff (inherited : Finset Nat) (server_fd : Nat)
    (actions : List Action) :
    Throughout step SelectSafe (serverStart inherited server_fd) actions ↔
      Along (recording step departed) AllReplaced (serverStart inherited server_fd, ∅) actions := by
  rw [← throughout_recording departed ∅,
    ← throughout_and_invariant step_tracked (start_tracked inherited server_fd)]
  exact throughout_iff_along step_safe_iff
    ⟨start_tracked inherited server_fd, start_safe inherited server_fd⟩

/-- One client connects to the server and leaves again. -/
def oneClientLeaves : List Action :=
  [.select {3}, .skip, .skip, .skip, .call (.accepted (some 4)), .skip, .endPass,
   .select {4}, .skip, .skip, .skip, .skip, .call (.received .closed), .endPass, .select ∅]

/-- After that `select` fails and the whole server exits. -/
theorem leaving_client_ends_server :
    ¬ ∀ (inherited : Finset Nat) (server_fd : Nat) (actions : List Action),
      Throughout step SelectSafe (serverStart inherited server_fd) actions := by
  intro safe
  have run := throughout_iff.mp (safe {0, 1, 2} 3 oneClientLeaves) _ List.prefix_rfl
  have exits : (exec step (serverStart {0, 1, 2} 3) oneClientLeaves).map Machine.phase =
      some .exited := by decide
  obtain ⟨t, ran, phase⟩ := Option.map_eq_some_iff.mp exits
  exact (run t ran).1 phase

end OsCourse.ReactorLiveness

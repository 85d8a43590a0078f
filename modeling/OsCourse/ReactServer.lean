import Mathlib.Data.Finset.Basic
import OsCourse.ReactorLoop
import OsCourse.Stdio
import OsCourse.Transition

/-! `react_server.c` on top of the reactor: the chat server as a machine that
takes one step for each `select`, each handler called and each turn of the
`for` loop. The replies of `accept` and `recv` are inputs of the steps. -/
namespace OsCourse.ReactServer
open Stdio ReactorLoop Transition

def MAX_CLIENTS : Nat := 10
def BUFFER_SIZE : Nat := 1024

/-- The two functions registered with `addFd`. -/
inductive Handler where
  | acceptClient
  | handleClient
  deriving DecidableEq

/-- What the server prints, one entry for each `printf` and `perror`. -/
inductive Line where
  /-- `"Received message from client %d: %s"` -/
  | received (client_fd : Nat) (text : List Byte)
  /-- `"Client %d disconnected\n"` -/
  | disconnected (client_fd : Nat)
  /-- `"Error receiving message from client"` -/
  | recvError
  /-- `"Error accepting client connection"` -/
  | acceptError
  /-- `"Client %d connected succsesfully\n"` -/
  | connected (client_fd : Nat)
  /-- `"Maximum number of clients reached. Connection closed: %d\n"` -/
  | refused (client_fd : Nat)
  deriving DecidableEq

/-- The server process: the reactor, the client table, the descriptors it has
open and its output. -/
structure Server where
  reactor : Reactor Handler
  clientSockets : List Nat
  openFds : Finset Nat
  printed : List Line

/-- The `for` loop of `acceptClient`: the first free entry takes the client. -/
def takeSlot (client_fd : Nat) : List Nat → Option (List Nat)
  | [] => none
  | entry :: rest =>
    if entry = 0 then some (client_fd :: rest) else (takeSlot client_fd rest).map (entry :: ·)

/-- The `for` loop of `handleClient`: the first entry with the client is freed. -/
def clearSlot (client_fd : Nat) : List Nat → List Nat
  | [] => []
  | entry :: rest => if entry = client_fd then 0 :: rest else entry :: clearSlot client_fd rest

/-- What `%s` prints of the zeroed buffer `recv` has filled from its start. -/
def shownText (bytes : List Byte) : List Byte :=
  (bytes ++ List.replicate (BUFFER_SIZE - bytes.length) 0).takeWhile (· ≠ 0)

/-- `handleClient`. `recv` is asked for at most `BUFFER_SIZE - 1` bytes. -/
def handleClient (s : Server) (client_fd : Nat) : Recv → Option Server
  | .data bytes =>
    if bytes ≠ [] ∧ bytes.length ≤ BUFFER_SIZE - 1 then
      some { s with printed := s.printed ++ [.received client_fd (shownText bytes)] }
    else none
  | .closed => some
    { s with
      printed := s.printed ++ [.disconnected client_fd]
      openFds := s.openFds.erase client_fd
      clientSockets := clearSlot client_fd s.clientSockets }
  | .error => some { s with printed := s.printed ++ [.recvError] }

/-- `acceptClient`. The system hands out a descriptor that is not open, or -1. -/
def acceptClient (s : Server) : Option Nat → Option Server
  | none => some { s with printed := s.printed ++ [.acceptError] }
  | some client_fd =>
    if client_fd ∈ s.openFds then none
    else
      let printed := s.printed ++ [.connected client_fd]
      let openFds := insert client_fd s.openFds
      match takeSlot client_fd s.clientSockets with
      | some clientSockets =>
        some ⟨addFd s.reactor client_fd .handleClient, clientSockets, openFds, printed⟩
      | none => some { s with
          printed := printed ++ [.refused client_fd]
          openFds := openFds.erase client_fd }

/-- The system's answer to the call a handler makes. -/
inductive Reply where
  | accepted (client_fd : Option Nat)
  | received (result : Recv)
  deriving DecidableEq

def callHandler (s : Server) (fd : Nat) : Handler → Reply → Option Server
  | .acceptClient, .accepted client_fd => acceptClient s client_fd
  | .handleClient, .received result => handleClient s fd result
  | _, _ => none

structure Machine where
  server : Server
  phase : Phase

inductive Action where
  | select (ready : Finset Nat)
  | call (reply : Reply)
  | skip
  | endPass
  deriving DecidableEq

/-- One step of `startReactor` with the server's handlers. -/
def step (m : Machine) : Action → Option Machine
  | .select ready =>
    match m.phase with
    | .select =>
      (selectCall m.server.reactor m.server.openFds ready).map fun phase => { m with phase }
    | _ => none
  | .call reply =>
    match m.phase with
    | .scan temp_fds fd =>
      match turn m.server.reactor temp_fds fd with
      | .call handler => (callHandler m.server fd handler reply).map fun server =>
          ⟨server, .scan temp_fds (fd + 1)⟩
      | _ => none
    | _ => none
  | .skip =>
    match m.phase with
    | .scan temp_fds fd =>
      match turn m.server.reactor temp_fds fd with
      | .skip => some { m with phase := .scan temp_fds (fd + 1) }
      | _ => none
    | _ => none
  | .endPass =>
    match m.phase with
    | .scan temp_fds fd =>
      match turn m.server.reactor temp_fds fd with
      | .endPass => some { m with phase := whileRunning m.server.reactor }
      | _ => none
    | _ => none

/-- `main` up to the first `select`: the listening socket is open beside the
descriptors the process inherited, and it is watched. -/
def serverStart (inherited : Finset Nat) (server_fd : Nat) : Machine :=
  let (reactor, phase) := startReactor (addFd createReactor server_fd .acceptClient)
  ⟨⟨reactor, List.replicate MAX_CLIENTS 0, insert server_fd inherited, []⟩, phase⟩

/-! ## What each step can do -/

theorem step_select (stepped : step m (.select ready) = some t) :
    m.phase = .select ∧ t.server = m.server ∧
      selectCall m.server.reactor m.server.openFds ready = some t.phase := by
  unfold step at stepped
  cases phase : m.phase with
  | select =>
    simp only [phase, Option.map_eq_some_iff] at stepped
    obtain ⟨next, called, rfl⟩ := stepped
    exact ⟨rfl, rfl, called⟩
  | scan temp_fds fd => simp [phase] at stepped
  | returned => simp [phase] at stepped
  | exited => simp [phase] at stepped

/-- Everything but `select` happens in a pass over the descriptors. -/
theorem step_scans (stepped : step m action = some t) (other : ∀ ready, action ≠ .select ready) :
    ∃ temp_fds fd, m.phase = .scan temp_fds fd := by
  unfold step at stepped
  cases phase : m.phase with
  | scan temp_fds fd => exact ⟨temp_fds, fd, rfl⟩
  | select | returned | exited =>
    cases action with
    | select ready => exact absurd rfl (other ready)
    | call reply => simp [phase] at stepped
    | skip => simp [phase] at stepped
    | endPass => simp [phase] at stepped

/-- A handler is called only for a descriptor of the set `select` left. -/
theorem step_call (stepped : step m (.call reply) = some t) :
    ∃ temp_fds fd handler, m.phase = .scan temp_fds fd ∧ fd ∈ temp_fds ∧
      m.server.reactor.handlers fd = some handler ∧
      callHandler m.server fd handler reply = some t.server ∧
      t.phase = .scan temp_fds (fd + 1) := by
  obtain ⟨temp_fds, fd, phase⟩ := step_scans stepped nofun
  simp only [step, phase] at stepped
  cases turned : turn m.server.reactor temp_fds fd with
  | skip => simp [turned] at stepped
  | endPass => simp [turned] at stepped
  | call handler =>
    simp only [turned, Option.map_eq_some_iff] at stepped
    obtain ⟨server, called, rfl⟩ := stepped
    unfold turn at turned
    split at turned
    · split at turned
      · rename_i ready
        split at turned
        · rename_i found
          cases turned
          exact ⟨temp_fds, fd, handler, phase, ready, found, called, rfl⟩
        · cases turned
      · cases turned
    · cases turned

theorem step_skip (stepped : step m .skip = some t) :
    ∃ temp_fds fd, m.phase = .scan temp_fds fd ∧ t = ⟨m.server, .scan temp_fds (fd + 1)⟩ := by
  obtain ⟨temp_fds, fd, phase⟩ := step_scans stepped nofun
  simp only [step, phase] at stepped
  split at stepped
  · cases stepped
    exact ⟨temp_fds, fd, phase, rfl⟩
  · cases stepped

theorem step_endPass (stepped : step m .endPass = some t) :
    t = ⟨m.server, whileRunning m.server.reactor⟩ := by
  obtain ⟨temp_fds, fd, phase⟩ := step_scans stepped nofun
  simp only [step, phase] at stepped
  split at stepped
  · cases stepped
    rfl
  · cases stepped

/-- The replies a handler call can take, with the server it leaves. -/
theorem callHandler_cases (called : callHandler s fd handler reply = some t) :
    (handler = .acceptClient ∧ ∃ client_fd, reply = .accepted client_fd ∧
        acceptClient s client_fd = some t) ∨
      (handler = .handleClient ∧ ∃ result, reply = .received result ∧
        handleClient s fd result = some t) := by
  cases handler with
  | acceptClient =>
    cases reply with
    | accepted client_fd => exact Or.inl ⟨rfl, client_fd, rfl, called⟩
    | received result => cases called
  | handleClient =>
    cases reply with
    | accepted client_fd => cases called
    | received result => exact Or.inr ⟨rfl, result, rfl, called⟩

theorem acceptClient_some (accepted : acceptClient s (some client_fd) = some t) :
    client_fd ∉ s.openFds ∧
      ((∃ table, takeSlot client_fd s.clientSockets = some table ∧
          t = ⟨addFd s.reactor client_fd .handleClient, table, insert client_fd s.openFds,
            s.printed ++ [.connected client_fd]⟩) ∨
        (takeSlot client_fd s.clientSockets = none ∧ t = { s with
          printed := s.printed ++ [.connected client_fd] ++ [.refused client_fd]
          openFds := (insert client_fd s.openFds).erase client_fd })) := by
  simp only [acceptClient] at accepted
  split at accepted
  · cases accepted
  · rename_i fresh
    refine ⟨fresh, ?_⟩
    cases slot : takeSlot client_fd s.clientSockets with
    | some table =>
      simp only [slot, Option.some.injEq] at accepted
      exact Or.inl ⟨table, rfl, accepted.symm⟩
    | none =>
      simp only [slot, Option.some.injEq] at accepted
      exact Or.inr ⟨rfl, accepted.symm⟩

end OsCourse.ReactServer

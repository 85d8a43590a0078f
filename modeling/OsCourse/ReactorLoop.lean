import Mathlib.Data.Finset.Insert
import Mathlib.Logic.Function.Basic
import Mathlib.Order.Lattice

/-! `reactor.c`: the set of watched descriptors, the handler table and the
loop of `startReactor`, for handlers of any kind. A descriptor is a natural
number; `FD_SET` and the table are defined below `MAX_FDS` only, which is also
the number of descriptors a process may have open. -/
namespace OsCourse.ReactorLoop

def MAX_FDS : Nat := 1024

structure Reactor (Handler : Type) where
  readFds : Finset Nat
  maxFd : Int
  handlers : Nat → Option Handler
  running : Bool

variable {Handler : Type}

def createReactor : Reactor Handler := ⟨∅, -1, fun _ => none, false⟩

def stopReactor (r : Reactor Handler) : Reactor Handler := { r with running := false }

def addFd (r : Reactor Handler) (fd : Nat) (handler : Handler) : Reactor Handler :=
  { r with
    readFds := insert fd r.readFds
    maxFd := if (fd : Int) > r.maxFd then fd else r.maxFd
    handlers := Function.update r.handlers fd (some handler) }

/-- Where `startReactor` stands: before a call of `select`, in the `for` loop
with the set `select` left, behind the `while` loop, or in `exit(1)`. -/
inductive Phase where
  | select
  | scan (temp_fds : Finset Nat) (fd : Nat)
  | returned
  | exited
  deriving DecidableEq

/-- Setting `running` and testing it for the first time. -/
def startReactor (r : Reactor Handler) : Reactor Handler × Phase :=
  ({ r with running := true }, .select)

/-- The test of the `while` loop. -/
def whileRunning (r : Reactor Handler) : Phase := if r.running then .select else .returned

/-- `select(max_fd + 1, &temp_fds, ...)` looks at the descriptors up to
`max_fd`. It fails when one of them is closed, and otherwise leaves any of the
watched ones in the set. -/
def selectCall (r : Reactor Handler) (openFds ready : Finset Nat) : Option Phase :=
  if ∃ fd ∈ r.readFds, (fd : Int) < r.maxFd + 1 ∧ fd ∉ openFds then some .exited
  else if ready ⊆ r.readFds then some (.scan ready 0)
  else none

/-- What the `for` loop does at a descriptor. -/
inductive Turn (Handler : Type) where
  | call (handler : Handler)
  | skip
  | endPass

def turn (r : Reactor Handler) (temp_fds : Finset Nat) (fd : Nat) : Turn Handler :=
  if (fd : Int) ≤ r.maxFd then
    if fd ∈ temp_fds then
      match r.handlers fd with
      | some handler => .call handler
      | none => .skip
    else .skip
  else .endPass

@[simp] theorem addFd_readFds (r : Reactor Handler) (fd : Nat) (handler : Handler) :
    (addFd r fd handler).readFds = insert fd r.readFds := rfl

@[simp] theorem addFd_running (r : Reactor Handler) (fd : Nat) (handler : Handler) :
    (addFd r fd handler).running = r.running := rfl

/-- No watched descriptor lies above `max_fd`. -/
def Bounded (r : Reactor Handler) : Prop := ∀ fd ∈ r.readFds, (fd : Int) ≤ r.maxFd

theorem create_bounded : Bounded (createReactor : Reactor Handler) := by
  intro fd watched
  cases watched

theorem addFd_bounded (r : Reactor Handler) (fd : Nat) (handler : Handler) (bounded : Bounded r) :
    Bounded (addFd r fd handler) := by
  intro other watched
  have below : (addFd r fd handler).maxFd = max (fd : Int) r.maxFd := by
    simp only [addFd]
    split <;> omega
  rw [below]
  rcases Finset.mem_insert.mp watched with rfl | old
  · exact le_max_left _ _
  · exact le_max_of_le_right (bounded other old)

/-- With all of them within `max_fd`, `select` fails on the first closed one. -/
theorem select_exits_iff (r : Reactor Handler) (openFds ready : Finset Nat) (bounded : Bounded r) :
    selectCall r openFds ready = some .exited ↔ ¬ r.readFds ⊆ openFds := by
  unfold selectCall
  by_cases closed : ∃ fd ∈ r.readFds, (fd : Int) < r.maxFd + 1 ∧ fd ∉ openFds
  · rw [if_pos closed]
    obtain ⟨fd, watched, -, gone⟩ := closed
    exact iff_of_true rfl fun every => gone (every watched)
  · rw [if_neg closed]
    refine iff_of_false (by split <;> simp) (not_not.mpr fun fd watched => ?_)
    by_contra gone
    exact closed ⟨fd, watched, Int.lt_add_one_of_le (bounded fd watched), gone⟩

/-- What `select` leaves is watched, and all that is watched is open. -/
theorem select_scans (called : selectCall r openFds ready = some (.scan temp_fds fd)) :
    temp_fds ⊆ r.readFds ∧ (Bounded r → r.readFds ⊆ openFds) := by
  have all_open (bounded : Bounded r) : r.readFds ⊆ openFds := by
    by_contra closed
    rw [(select_exits_iff r openFds ready bounded).mpr closed] at called
    cases called
  refine ⟨?_, all_open⟩
  unfold selectCall at called
  split at called
  · cases called
  · split at called
    · rename_i subset
      cases called
      exact subset
    · cases called

end OsCourse.ReactorLoop

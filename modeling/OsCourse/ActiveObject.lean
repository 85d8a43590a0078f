import Mathlib.Logic.Function.Basic
import OsCourse.Transition

/-! `ActiveObject.hpp` for tasks of any kind. Any number of threads may put
tasks into the queue of the object, stop it and join it; a task that does so
counts as one more of these threads. -/
namespace OsCourse.ActiveObject
open Transition

/-- An entry of the queue: a task, or the empty function `stop` puts in. -/
inductive TaskFunction (Task : Type) where
  | task (body : Task)
  | empty

/-- The thread of the object: not started, in `dequeue`, in a task, before the
load of `stopRequested_`, behind its loop. -/
inductive Worker (Task : Type) where
  | unstarted
  | waiting
  | running (task : TaskFunction Task)
  | testing
  | left

/-- Where a thread that uses the object stands. `stop` has stored the flag and
is about to enqueue; `join` waits for the end of the object's thread. -/
inductive Caller where
  | idle
  | stopping
  | joining
  deriving DecidableEq

variable {Thread Task : Type}

/-- The object and its users, with the number of calls of `stop` that have
returned. -/
structure Object (Thread Task : Type) where
  active : Bool
  stopRequested : Bool
  joinable : Bool
  queue : List (TaskFunction Task)
  worker : Worker Task
  callers : Thread → Caller
  stopsReturned : Nat

/-- The constructor, on a queue that may hold tasks already. -/
def newObject (queue : List (TaskFunction Task)) : Object Thread Task :=
  ⟨false, false, false, queue, .unstarted, fun _ => .idle, 0⟩

inductive Action (Thread Task : Type) where
  | createActiveObject
  | enqueue (caller : Thread) (body : Task)
  | storeFlag (caller : Thread)
  | wakeUp (caller : Thread)
  | join (caller : Thread)
  | joined (caller : Thread)
  | dequeue
  | finish
  | test

def Object.goto [DecidableEq Thread] (s : Object Thread Task) (caller : Thread) (next : Caller) :
    Object Thread Task :=
  { s with callers := Function.update s.callers caller next }

/-- The loop of `createActiveObject`. -/
def workerStep (s : Object Thread Task) : Action Thread Task → Option (Object Thread Task)
  | .createActiveObject =>
    match s.worker with
    | .unstarted => some { s with active := true, joinable := true, worker := .waiting }
    | _ => none
  | .dequeue =>
    match s.worker, s.queue with
    | .waiting, task :: rest => some { s with queue := rest, worker := .running task }
    | _, _ => none
  | .finish =>
    match s.worker with
    | .running _ => some { s with worker := .testing }
    | _ => none
  | .test =>
    match s.worker with
    | .testing => some { s with worker := if s.stopRequested then .left else .waiting }
    | _ => none
  | _ => none

/-- The calls of `enqueue`, `stop` and `join`. -/
def callerStep [DecidableEq Thread] (s : Object Thread Task) :
    Action Thread Task → Option (Object Thread Task)
  | .enqueue caller body =>
    if s.callers caller = .idle then some { s with queue := s.queue ++ [.task body] } else none
  | .storeFlag caller =>
    if s.callers caller = .idle then
      some { s.goto caller .stopping with stopRequested := true }
    else none
  | .wakeUp caller =>
    if s.callers caller = .stopping then
      some { s.goto caller .idle with
        queue := s.queue ++ [.empty]
        stopsReturned := s.stopsReturned + 1 }
    else none
  | .join caller =>
    if s.callers caller = .idle ∧ s.joinable then some (s.goto caller .joining) else none
  | .joined caller =>
    match s.worker with
    | .left =>
      if s.callers caller = .joining then some { s.goto caller .idle with joinable := false }
      else none
    | _ => none
  | _ => none

def step [DecidableEq Thread] (s : Object Thread Task) (a : Action Thread Task) :
    Option (Object Thread Task) :=
  match a with
  | .createActiveObject | .dequeue | .finish | .test => workerStep s a
  | _ => callerStep s a

/-! ## Stopping -/

/-- The thread has taken a task and has not tested the flag behind it yet. -/
def Worker.busy : Worker Task → Prop
  | .running _ | .testing => True
  | _ => False

/-- Once a `stop` has returned, a thread that was started and has not left its
loop is between taking a task and testing the flag, or finds a task queued. -/
def NotStranded (s : Object Thread Task) : Prop :=
  0 < s.stopsReturned → s.worker ≠ .unstarted → s.worker ≠ .left → s.worker.busy ∨ s.queue ≠ []

/-- The flag is set before the empty task is queued, so the thread that takes
it, or any task behind it, finds the flag set. -/
structure Stoppable (s : Object Thread Task) : Prop where
  flag : 0 < s.stopsReturned ∨ (∃ caller, s.callers caller = .stopping) → s.stopRequested = true
  awake : 0 < s.stopsReturned → s.worker = .left ∨ s.worker.busy ∨ s.queue ≠ []

/-- A step of the object's own thread touches neither the flag nor the callers. -/
theorem worker_step_frame (stepped : workerStep s a = some t) :
    t.stopRequested = s.stopRequested ∧ t.callers = s.callers ∧
      t.stopsReturned = s.stopsReturned := by
  unfold workerStep at stepped
  repeat' split at stepped
  all_goals first | cases stepped; exact ⟨rfl, rfl, rfl⟩ | cases stepped

/-- Where a step leads the object's own thread: it starts with the queue it was
given, takes a task, ends one, leaves if the flag is set, or waits again. -/
theorem worker_step_cases {s t : Object Thread Task} (stepped : workerStep s a = some t) :
    (s.worker = .unstarted ∧ t.worker = .waiting ∧ t.queue = s.queue) ∨ t.worker.busy ∨
      (s.stopRequested = true ∧ t.worker = .left) ∨ (s.stopRequested = false ∧ s.worker = .testing) := by
  unfold workerStep at stepped
  cases a with
  | createActiveObject =>
    simp only at stepped
    split at stepped
    · cases stepped
      exact Or.inl ⟨‹_›, rfl, rfl⟩
    · cases stepped
  | dequeue | finish =>
    simp only at stepped
    split at stepped
    · cases stepped
      exact Or.inr (Or.inl trivial)
    · cases stepped
  | test =>
    simp only at stepped
    split at stepped
    · rename_i testing
      cases stepped
      cases flag : s.stopRequested with
      | true => exact Or.inr (Or.inr (Or.inl ⟨rfl, rfl⟩))
      | false => exact Or.inr (Or.inr (Or.inr ⟨rfl, testing⟩))
    · cases stepped
  | enqueue | storeFlag | wakeUp | join | joined => cases stepped

theorem worker_stoppable (stoppable : Stoppable s) (stepped : workerStep s a = some t) :
    Stoppable t := by
  obtain ⟨flag, callers, returned⟩ := worker_step_frame stepped
  refine ⟨?_, ?_⟩
  · rw [flag, callers, returned]
    exact stoppable.flag
  · rw [returned]
    intro some_stop
    have set := stoppable.flag (Or.inl some_stop)
    rcases worker_step_cases stepped with ⟨unstarted, -, queue⟩ | busy | ⟨-, left⟩ | ⟨unset, -⟩
    · rw [queue]
      rcases stoppable.awake some_stop with left | busy | queued
      · rw [unstarted] at left
        cases left
      · rw [unstarted] at busy
        cases busy
      · exact Or.inr (Or.inr queued)
    · exact Or.inr (Or.inl busy)
    · exact Or.inl left
    · rw [set] at unset
      cases unset

theorem new_stoppable (queue : List (TaskFunction Task)) :
    Stoppable (newObject queue : Object Thread Task) := by
  refine ⟨?_, fun some_stop => absurd some_stop (Nat.lt_irrefl 0)⟩
  rintro (some_stop | ⟨caller, stopping⟩)
  · exact absurd some_stop (Nat.lt_irrefl 0)
  · cases stopping

section Callers
variable [DecidableEq Thread]

/-- A thread that has not gone into `stop` finds the flag as it was. -/
theorem goto_stopping {s : Object Thread Task} (next : Caller) (other : next ≠ .stopping)
    (stops : ∃ caller, (s.goto own next).callers caller = .stopping) :
    ∃ caller, s.callers caller = .stopping := by
  obtain ⟨caller, stopping⟩ := stops
  by_cases same : caller = own
  · subst same
    simp only [Object.goto, Function.update_self] at stopping
    exact absurd stopping other
  · simp only [Object.goto, Function.update_of_ne same] at stopping
    exact ⟨caller, stopping⟩

theorem caller_stoppable {s t : Object Thread Task} (stoppable : Stoppable s)
    (stepped : callerStep s a = some t) : Stoppable t := by
  have grown (more : List (TaskFunction Task)) (some_stop : 0 < s.stopsReturned) :
      s.worker = .left ∨ s.worker.busy ∨ s.queue ++ more ≠ [] := by
    rcases stoppable.awake some_stop with left | busy | queued
    · exact Or.inl left
    · exact Or.inr (Or.inl busy)
    · exact Or.inr (Or.inr (List.append_ne_nil_of_left_ne_nil queued more))
  unfold callerStep at stepped
  cases a with
  | enqueue caller body =>
    simp only at stepped
    split at stepped
    · cases stepped
      exact ⟨stoppable.flag, grown [.task body]⟩
    · cases stepped
  | storeFlag caller =>
    simp only at stepped
    split at stepped
    · cases stepped
      exact ⟨fun _ => rfl, stoppable.awake⟩
    · cases stepped
  | wakeUp caller =>
    simp only at stepped
    split at stepped
    · rename_i stopping
      cases stepped
      have set := stoppable.flag (Or.inr ⟨caller, stopping⟩)
      exact ⟨fun _ => set, fun _ => Or.inr (Or.inr (by simp))⟩
    · cases stepped
  | join caller =>
    simp only at stepped
    split at stepped
    · cases stepped
      refine ⟨fun stops => stoppable.flag (stops.imp_right (goto_stopping .joining (by decide))), ?_⟩
      exact stoppable.awake
    · cases stepped
  | joined caller =>
    simp only at stepped
    split at stepped
    · split at stepped
      · cases stepped
        refine ⟨fun stops => stoppable.flag (stops.imp_right (goto_stopping .idle (by decide))), ?_⟩
        exact stoppable.awake
      · cases stepped
    · cases stepped
  | createActiveObject | dequeue | finish | test => cases stepped

theorem step_stoppable (s : Object Thread Task) (a : Action Thread Task) (t : Object Thread Task)
    (stoppable : Stoppable s) (stepped : step s a = some t) : Stoppable t := by
  unfold step at stepped
  cases a with
  | createActiveObject | dequeue | finish | test => exact worker_stoppable stoppable stepped
  | enqueue | storeFlag | wakeUp | join | joined => exact caller_stoppable stoppable stepped

/-- However the calls of `enqueue`, `stop` and `join` and the steps of the
object's thread interleave, no `stop` leaves that thread waiting at an empty
queue. -/
theorem stop_strands_no_worker (queue : List (TaskFunction Task))
    (actions : List (Action Thread Task)) :
    Throughout step NotStranded (newObject queue : Object Thread Task) actions := by
  refine throughout_of_invariant step_stoppable ?_ (new_stoppable queue) actions
  intro s stoppable some_stop _ inside
  exact (stoppable.awake some_stop).resolve_left inside

end Callers
end OsCourse.ActiveObject

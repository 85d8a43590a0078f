import OsCourse.PrimeCheck
import OsCourse.Transition
import Mathlib.Logic.Function.Basic

/-! `StPipeline::run` and the threads of its four active objects. The tasks of
all iterations hold a reference to one and the same cell, the loop variable
`num`, whose storage each iteration takes up again. Threads interleave between
any two accesses to the cell, the queues and the stop flags. -/
namespace OsCourse.Pipeline
open PrimeCheck Transition

/-- The active objects of `run`, each with its own queue. -/
inductive Ao where
  | ao1
  | ao2
  | ao3
  | ao4
  deriving DecidableEq, Repr

/-- The order in which `run` stops and joins them. -/
def Ao.next : Ao → Option Ao
  | .ao1 => some .ao2
  | .ao2 => some .ao3
  | .ao3 => some .ao4
  | .ao4 => none

/-- `task1` and the two closures nested in it. -/
inductive Stage where
  | first
  | second
  | third
  deriving DecidableEq, Repr

/-- The active object whose queue the closure is put into. -/
def Stage.home : Stage → Ao
  | .first => .ao1
  | .second => .ao2
  | .third => .ao3

/-- `num += 11`, `num -= 13` and `num += 2`. -/
def Stage.update : Stage → BitVec 32 → BitVec 32
  | .first, num => num + 11
  | .second, num => num - 13
  | .third, num => num + 2

/-- An entry of a queue: a closure of the iteration `item`, or the empty
function of `stop`. -/
inductive Task where
  | stage (stage : Stage) (item : Nat)
  | wake
  deriving DecidableEq, Repr

/-- What a closure does next. `load` and `store` are the two halves of its
update of `num`; `finish` is its last statement. -/
inductive Point where
  | printNum
  | printPrime
  | load
  | store (num : BitVec 32)
  | finish
  deriving DecidableEq, Repr

/-- The thread of an active object: in `dequeue`, in a task, in the empty
task, before the load of `stopRequested_`, behind its loop. -/
inductive Worker where
  | waiting
  | running (stage : Stage) (item : Nat) (point : Point)
  | woken
  | testing
  | done
  deriving DecidableEq, Repr

def Task.call : Task → Worker
  | .stage closure item => .running closure item .printNum
  | .wake => .woken

/-- Where `run` stands. `stop` stores the flag and then enqueues. -/
inductive Main where
  | loop (i : Nat)
  | enqueue (i : Nat)
  | stop (ao : Ao)
  | wakeUp (ao : Ao)
  | join (ao : Ao)
  | returned
  deriving DecidableEq, Repr

/-- A read of `num` by a closure. `number` and `prime` print a line from the
value read, `update` is the load of an assignment. -/
inductive Event where
  | number (stage : Stage) (item : Nat) (num : BitVec 32)
  | prime (stage : Stage) (item : Nat) (num : BitVec 32) (answer : Bool)
  | update (stage : Stage) (item : Nat) (num : BitVec 32)
  deriving DecidableEq, Repr

/-- The program together with two histories: the tasks each thread has
completed and the reads of `num`. -/
structure Run where
  main : Main
  num : BitVec 32
  queues : Ao → List Task
  workers : Ao → Worker
  stopRequested : Ao → Bool
  executed : Ao → List Task
  log : List Event

def Run.enqueue (s : Run) (ao : Ao) (task : Task) : Run :=
  { s with queues := Function.update s.queues ao (s.queues ao ++ [task]) }

def Run.goto (s : Run) (ao : Ao) (worker : Worker) : Run :=
  { s with workers := Function.update s.workers ao worker }

def Run.record (s : Run) (event : Event) : Run := { s with log := s.log ++ [event] }

/-- A task returns to the loop of the thread. -/
def Run.complete (s : Run) (ao : Ao) (task : Task) : Run :=
  { s.goto ao .testing with executed := Function.update s.executed ao (s.executed ao ++ [task]) }

/-- The last statement of a closure. -/
def Run.finish (s : Run) (item : Nat) : Stage → Run
  | .first => s.enqueue .ao2 (.stage .second item)
  | .second => s.enqueue .ao3 (.stage .third item)
  | .third => s.record (.number .third item s.num)

def runTask (s : Run) (ao : Ao) (stage : Stage) (item : Nat) : Point → Run
  | .printNum =>
    (s.record (.number stage item s.num)).goto ao (.running stage item .printPrime)
  | .printPrime =>
    (s.record (.prime stage item s.num (isPrime s.num))).goto ao (.running stage item .load)
  | .load =>
    (s.record (.update stage item s.num)).goto ao
      (.running stage item (.store (stage.update s.num)))
  | .store num => { s with num := num }.goto ao (.running stage item .finish)
  | .finish => (s.finish item stage).complete ao (.stage stage item)

/-- The loop of `createActiveObject`. -/
def workerStep (s : Run) (ao : Ao) : Option Run :=
  match s.workers ao with
  | .waiting =>
    match s.queues ao with
    | [] => none
    | task :: rest =>
      some ({ s with queues := Function.update s.queues ao rest }.goto ao task.call)
  | .running stage item point => some (runTask s ao stage item point)
  | .woken => some (s.complete ao .wake)
  | .testing => some (s.goto ao (if s.stopRequested ao then .done else .waiting))
  | .done => none

section Program
variable (rand : BitVec 32 → Nat → BitVec 31) (seed : BitVec 32) (N : Nat)

/-- The number of iteration `i`, from the sequence `srand(seed_)` starts. -/
def generateNumber (i : Nat) : BitVec 32 :=
  BitVec.ofNat 32 ((rand seed i).toNat % 900000 + 100000)

def mainStep (s : Run) : Option Run :=
  match s.main with
  | .loop i =>
    if i < N then some { s with main := .enqueue i, num := generateNumber rand seed i }
    else some { s with main := .stop .ao1 }
  | .enqueue i => some { s.enqueue .ao1 (.stage .first i) with main := .loop (i + 1) }
  | .stop ao =>
    some { s with main := .wakeUp ao, stopRequested := Function.update s.stopRequested ao true }
  | .wakeUp ao =>
    some { s.enqueue ao .wake with main := (ao.next.map Main.stop).getD (.join .ao1) }
  | .join ao =>
    if s.workers ao = .done then
      some { s with main := (ao.next.map Main.join).getD .returned }
    else none
  | .returned => none

inductive Thread where
  | main
  | worker (ao : Ao)
  deriving DecidableEq, Repr

def step (s : Run) : Thread → Option Run
  | .main => mainStep rand seed N s
  | .worker ao => workerStep s ao

end Program

/-- `run` has started its threads. -/
def runStart : Run :=
  ⟨.loop 0, 0, fun _ => [], fun _ => .waiting, fun _ => false, fun _ => [], []⟩

/-! ## What one step can do -/

def Worker.inHand : Worker → List Task
  | .running stage item _ => [.stage stage item]
  | .woken => [.wake]
  | _ => []

/-- Every task put into the queue so far, in that order. -/
def delivered (s : Run) (ao : Ao) : List Task :=
  s.executed ao ++ (s.workers ao).inHand ++ s.queues ao

/-- The tasks a closure's last statement puts into a queue. -/
def Stage.passes (item : Nat) : Stage → Ao → List Task
  | .first, ao => if ao = .ao2 then [.stage .second item] else []
  | .second, ao => if ao = .ao3 then [.stage .third item] else []
  | .third, _ => []

/-- The tasks the thread's next step puts into a queue. -/
def arrives (s : Run) : Thread → Ao → List Task
  | .main, ao =>
    match s.main with
    | .enqueue i => if ao = .ao1 then [.stage .first i] else []
    | .wakeUp stopped => if ao = stopped then [.wake] else []
    | _ => []
  | .worker owner, ao =>
    match s.workers owner with
    | .running stage item .finish => stage.passes item ao
    | _ => []

/-- The task the thread's next step completes. -/
def completes (s : Run) : Thread → Ao → List Task
  | .main, _ => []
  | .worker owner, ao =>
    match s.workers owner with
    | .running stage item .finish => if ao = owner then [.stage stage item] else []
    | .woken => if ao = owner then [.wake] else []
    | _ => []

@[simp] theorem waiting_in_hand : Worker.waiting.inHand = [] := rfl

@[simp] theorem testing_in_hand : Worker.testing.inHand = [] := rfl

@[simp] theorem done_in_hand : Worker.done.inHand = [] := rfl

@[simp] theorem call_in_hand (task : Task) : task.call.inHand = [task] := by
  cases task <;> rfl

theorem enqueue_queues (s : Run) (ao : Ao) (task : Task) (other : Ao) :
    (s.enqueue ao task).queues other =
      s.queues other ++ if other = ao then [task] else [] := by
  by_cases same : other = ao
  · subst same
    simp [Run.enqueue]
  · simp [Run.enqueue, same]

theorem queued_task {s : Run} (queued : task ∈ (s.enqueue ao new).queues other) :
    task ∈ s.queues other ∨ other = ao ∧ task = new := by
  rw [enqueue_queues] at queued
  rcases List.mem_append.mp queued with old | fresh
  · exact Or.inl old
  · split at fresh
    · rename_i same
      exact Or.inr ⟨same, List.mem_singleton.mp fresh⟩
    · cases fresh

theorem finish_queues (s : Run) (item : Nat) (stage : Stage) (ao : Ao) :
    (s.finish item stage).queues ao = s.queues ao ++ stage.passes item ao := by
  cases stage with
  | first => exact enqueue_queues s .ao2 _ ao
  | second => exact enqueue_queues s .ao3 _ ao
  | third => exact (List.append_nil _).symm

@[simp] theorem finish_workers (s : Run) (item : Nat) (stage : Stage) :
    (s.finish item stage).workers = s.workers := by cases stage <;> rfl

@[simp] theorem finish_executed (s : Run) (item : Nat) (stage : Stage) :
    (s.finish item stage).executed = s.executed := by cases stage <;> rfl

@[simp] theorem finish_main (s : Run) (item : Nat) (stage : Stage) :
    (s.finish item stage).main = s.main := by cases stage <;> rfl

@[simp] theorem finish_stop_requested (s : Run) (item : Nat) (stage : Stage) :
    (s.finish item stage).stopRequested = s.stopRequested := by cases stage <;> rfl

@[simp] theorem finish_num (s : Run) (item : Nat) (stage : Stage) :
    (s.finish item stage).num = s.num := by cases stage <;> rfl

/-- A step of the main thread is the start of an iteration or the end of the
loop, its `enqueue`, one of the two halves of `stop`, or a `join`. -/
theorem main_step_cases (stepped : mainStep rand seed N s = some t) :
    (∃ i, s.main = .loop i ∧ i < N ∧
      t = { s with main := .enqueue i, num := generateNumber rand seed i }) ∨
    (∃ i, s.main = .loop i ∧ N ≤ i ∧ t = { s with main := .stop .ao1 }) ∨
    (∃ i, s.main = .enqueue i ∧
      t = { s.enqueue .ao1 (.stage .first i) with main := .loop (i + 1) }) ∨
    (∃ ao, s.main = .stop ao ∧ t = { s with
      main := .wakeUp ao, stopRequested := Function.update s.stopRequested ao true }) ∨
    (∃ ao, s.main = .wakeUp ao ∧ t =
      { s.enqueue ao .wake with main := (ao.next.map Main.stop).getD (.join .ao1) }) ∨
    (∃ ao, s.main = .join ao ∧ s.workers ao = .done ∧
      t = { s with main := (ao.next.map Main.join).getD .returned }) := by
  unfold mainStep at stepped
  cases main : s.main with
  | loop i =>
    simp only [main] at stepped
    by_cases more : i < N
    · rw [if_pos more] at stepped
      exact Or.inl ⟨i, rfl, more, (Option.some.inj stepped).symm⟩
    · rw [if_neg more] at stepped
      exact Or.inr (Or.inl ⟨i, rfl, Nat.le_of_not_lt more, (Option.some.inj stepped).symm⟩)
  | enqueue i =>
    simp only [main, Option.some.injEq] at stepped
    exact Or.inr (Or.inr (Or.inl ⟨i, rfl, stepped.symm⟩))
  | stop ao =>
    simp only [main, Option.some.injEq] at stepped
    exact Or.inr (Or.inr (Or.inr (Or.inl ⟨ao, rfl, stepped.symm⟩)))
  | wakeUp ao =>
    simp only [main, Option.some.injEq] at stepped
    exact Or.inr (Or.inr (Or.inr (Or.inr (Or.inl ⟨ao, rfl, stepped.symm⟩))))
  | join ao =>
    simp only [main] at stepped
    by_cases done : s.workers ao = .done
    · rw [if_pos done] at stepped
      exact Or.inr (Or.inr (Or.inr (Or.inr (Or.inr
        ⟨ao, rfl, done, (Option.some.inj stepped).symm⟩))))
    · rw [if_neg done] at stepped
      cases stepped
  | returned => simp [main] at stepped

/-- A worker's step is a dequeue, a statement of its task, the empty task or
the test of the flag. -/
theorem worker_step_cases (stepped : workerStep s ao = some t) :
    (∃ task rest, s.workers ao = .waiting ∧ s.queues ao = task :: rest ∧
      t = { s with queues := Function.update s.queues ao rest }.goto ao task.call) ∨
    (∃ stage item point, s.workers ao = .running stage item point ∧
      t = runTask s ao stage item point) ∨
    (s.workers ao = .woken ∧ t = s.complete ao .wake) ∨
    (s.workers ao = .testing ∧
      t = s.goto ao (if s.stopRequested ao then .done else .waiting)) := by
  unfold workerStep at stepped
  cases worker : s.workers ao with
  | waiting =>
    cases queue : s.queues ao with
    | nil => simp [worker, queue] at stepped
    | cons task rest =>
      simp only [worker, queue, Option.some.injEq] at stepped
      exact Or.inl ⟨task, rest, rfl, rfl, stepped.symm⟩
  | running stage item point =>
    simp only [worker, Option.some.injEq] at stepped
    exact Or.inr (Or.inl ⟨stage, item, point, rfl, stepped.symm⟩)
  | woken =>
    simp only [worker, Option.some.injEq] at stepped
    exact Or.inr (Or.inr (Or.inl ⟨rfl, stepped.symm⟩))
  | testing =>
    simp only [worker, Option.some.injEq] at stepped
    exact Or.inr (Or.inr (Or.inr ⟨rfl, stepped.symm⟩))
  | done => simp [worker] at stepped

end OsCourse.Pipeline

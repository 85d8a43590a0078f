import OsCourse.PipelineCompleteness
import OsCourse.Simulation

/-! `run` returns however its threads are scheduled. Every task a step puts
into a queue is paid for by the steps it will take, so each step uses up one
unit of what is left to do, and the threads block each other in no state. -/
namespace OsCourse.PipelineTermination
open Pipeline PipelineOrder PipelineCompleteness Transition Simulation

/-! ## What is left to do -/

/-- The steps of the tasks a closure passes on, and of those they pass on. -/
def passedWork : Stage → Nat
  | .first => 14
  | .second => 7
  | .third => 0

/-- The steps from the `dequeue` of a task to the test behind it, with those
of the tasks it passes on. -/
def taskWork : Task → Nat
  | .stage stage _ => 7 + passedWork stage
  | .wake => 3

def pointWork : Point → Nat
  | .printNum => 5
  | .printPrime => 4
  | .load => 3
  | .store _ => 2
  | .finish => 1

def workerWork : Worker → Nat
  | .running stage _ point => pointWork point + 1 + passedWork stage
  | .woken => 2
  | .testing => 1
  | .waiting | .done => 0

/-- What the main thread has left to do, with the tasks it will enqueue: 23
steps an iteration, five for each `stop` and one for each `join`. -/
def mainWork (N : Nat) : Main → Nat
  | .loop i => 23 * (N - i) + 25
  | .enqueue i => 23 * (N - (i + 1)) + 47
  | .stop ao => 5 * (4 - position ao) + 4
  | .wakeUp ao => 5 * (4 - position ao) + 3
  | .join ao => 4 - position ao
  | .returned => 0

def aoWork (s : Run) (ao : Ao) : Nat :=
  ((s.queues ao).map taskWork).sum + workerWork (s.workers ao)

def total (f : Ao → Nat) : Nat := f .ao1 + f .ao2 + f .ao3 + f .ao4

def work (N : Nat) (s : Run) : Nat := mainWork N s.main + total (aoWork s)

/-- A change at one active object changes the total by as much. -/
theorem total_change {f g : Ao → Nat} (owner : Ao) (others : ∀ ao, ao ≠ owner → g ao = f ao) :
    total g + f owner = total f + g owner := by
  have first := others .ao1
  have second := others .ao2
  have third := others .ao3
  have fourth := others .ao4
  unfold total
  cases owner <;> simp at first second third fourth <;> omega

theorem enqueue_work (s : Run) (ao : Ao) (task : Task) :
    total (aoWork (s.enqueue ao task)) = total (aoWork s) + taskWork task := by
  have changed := total_change (f := aoWork s) (g := aoWork (s.enqueue ao task)) ao
    fun other different => by simp [aoWork, Run.enqueue, different]
  have own : aoWork (s.enqueue ao task) ao = aoWork s ao + taskWork task := by
    simp [aoWork, Run.enqueue]
    omega
  omega

theorem goto_work {s : Run} (worker : s.workers ao = old) (new : Worker) :
    total (aoWork (s.goto ao new)) + workerWork old = total (aoWork s) + workerWork new := by
  have changed := total_change (f := aoWork s) (g := aoWork (s.goto ao new)) ao
    fun other different => by simp [aoWork, Run.goto, different]
  have own : aoWork (s.goto ao new) ao + workerWork old = aoWork s ao + workerWork new := by
    simp [aoWork, Run.goto, worker]
    omega
  omega

/-- From one statement of a closure to the next. -/
theorem point_work {s : Run} (worker : s.workers ao = .running stage item point) (later : Point)
    (next : pointWork later + 1 = pointWork point) :
    total (aoWork (s.goto ao (.running stage item later))) + 1 = total (aoWork s) := by
  have moved : _ + (pointWork point + 1 + passedWork stage) =
    _ + (pointWork later + 1 + passedWork stage) := goto_work worker (.running stage item later)
  omega

theorem dequeue_work {s : Run} (queue : s.queues ao = task :: rest) :
    total (aoWork { s with queues := Function.update s.queues ao rest }) + taskWork task =
      total (aoWork s) := by
  have changed := total_change (f := aoWork s)
    (g := aoWork { s with queues := Function.update s.queues ao rest }) ao
    fun other different => by simp [aoWork, different]
  have own : aoWork { s with queues := Function.update s.queues ao rest } ao + taskWork task =
      aoWork s ao := by
    simp [aoWork, queue]
    omega
  omega

/-- The last statement of a closure pays for what it passes on. -/
theorem finish_work (s : Run) (item : Nat) (stage : Stage) :
    total (aoWork (s.finish item stage)) = total (aoWork s) + passedWork stage := by
  cases stage with
  | first => exact enqueue_work s .ao2 _
  | second => exact enqueue_work s .ao3 _
  | third => rfl

theorem call_work (task : Task) : workerWork task.call + 1 = taskWork task := by
  cases task with
  | stage stage item => exact Nat.add_right_comm 6 (passedWork stage) 1
  | wake => rfl

section Program
variable {rand : BitVec 32 → Nat → BitVec 31} {seed : BitVec 32} {N : Nat}

theorem worker_work (stepped : workerStep s ao = some t) :
    total (aoWork t) + 1 = total (aoWork s) := by
  rcases worker_step_cases stepped with ⟨task, rest, worker, queue, rfl⟩ |
    ⟨stage, item, point, worker, rfl⟩ | ⟨worker, rfl⟩ | ⟨worker, rfl⟩
  · have taken := dequeue_work queue
    have called : _ + 0 = _ + workerWork task.call :=
      goto_work (s := { s with queues := Function.update s.queues ao rest }) worker task.call
    have left := call_work task
    omega
  · cases point with
    | printNum => exact point_work worker .printPrime rfl
    | printPrime => exact point_work worker .load rfl
    | load => exact point_work worker (.store (stage.update s.num)) rfl
    | store num => exact point_work worker .finish rfl
    | finish =>
      have passed := finish_work s item stage
      have held : (s.finish item stage).workers ao = .running stage item .finish := by
        rw [finish_workers, worker]
      have moved : total (aoWork ((s.finish item stage).goto ao .testing)) +
        (2 + passedWork stage) = total (aoWork (s.finish item stage)) + 1 := goto_work held .testing
      show total (aoWork ((s.finish item stage).goto ao .testing)) + 1 = _
      omega
  · have moved : total (aoWork (s.goto ao .testing)) + 2 = total (aoWork s) + 1 :=
      goto_work worker .testing
    exact Nat.succ_inj.mp moved
  · have moved := goto_work worker (if s.stopRequested ao then .done else .waiting)
    have nothing : workerWork (if s.stopRequested ao then .done else .waiting) = 0 := by
      split <;> rfl
    rw [nothing] at moved
    exact moved

theorem main_work (stepped : mainStep rand seed N s = some t) : work N t + 1 = work N s := by
  unfold work
  rcases main_step_cases stepped with ⟨i, main, more, rfl⟩ | ⟨i, main, last, rfl⟩ |
    ⟨i, main, rfl⟩ | ⟨stopped, main, rfl⟩ | ⟨stopped, main, rfl⟩ | ⟨joined, main, done, rfl⟩
  · simp only [main, mainWork]
    show _ + total (aoWork s) + 1 = _
    omega
  · simp only [main, mainWork, position]
    show _ + total (aoWork s) + 1 = _
    omega
  · have put : _ = _ + 21 := enqueue_work s .ao1 (.stage .first i)
    simp only [main, mainWork]
    show _ + total (aoWork (s.enqueue .ao1 (.stage .first i))) + 1 = _
    omega
  · simp only [main, mainWork]
    show _ + total (aoWork s) + 1 = _
    omega
  · have put : _ = _ + 3 := enqueue_work s stopped .wake
    simp only [main]
    show _ + total (aoWork (s.enqueue stopped .wake)) + 1 = _
    cases stopped <;> simp [Ao.next, mainWork, position] <;> omega
  · simp only [main]
    show _ + total (aoWork s) + 1 = _
    cases joined <;> simp [Ao.next, mainWork, position] <;> omega

theorem step_work (s : Run) (thread : Thread) (t : Run)
    (stepped : step rand seed N s thread = some t) : work N t + 1 = work N s := by
  cases thread with
  | main => exact main_work stepped
  | worker ao =>
    have less := worker_work stepped
    unfold work
    rw [worker_main stepped]
    omega

/-! ## Nobody waits for good -/

/-- A thread that has executed its empty task finds the flag set at the test
behind it. -/
def Leaves (s : Run) : Prop :=
  ∀ ao, .wake ∈ s.executed ao → s.workers ao = .testing ∨ s.workers ao = .done

theorem wake_flag (stopping : Stopping s) (sent : .wake ∈ delivered s ao) :
    s.stopRequested ao = true := by
  have counted := stopping.wakes ao
  have once := List.count_pos_iff.mpr sent
  have wakes : wakeSent s.main ao = true := by
    by_contra unsent
    rw [if_neg unsent] at counted
    omega
  rw [stopping.flags]
  cases main : s.main <;> simp [main, wakeSent, flagStored] at wakes ⊢ <;> omega

theorem executed_delivered (s : Run) (ao : Ao) (done : task ∈ s.executed ao) :
    task ∈ delivered s ao :=
  List.mem_append_left _ (List.mem_append_left _ done)

theorem step_leaves (stopping : Stopping s) (leaves : Leaves s)
    (stepped : step rand seed N s thread = some t) : Leaves t := by
  cases thread with
  | main =>
    intro ao woke
    have executed : t.executed ao = s.executed ao :=
      (main_extends stepped ao).2.trans (List.append_nil _)
    rw [main_workers stepped]
    exact leaves ao (executed ▸ woke)
  | worker owner =>
    intro ao woke
    have grown : t.executed ao = s.executed ao ++ completes s (.worker owner) ao :=
      (worker_extends stepped ao).2
    by_cases other : ao ≠ owner
    · have nothing : completes s (.worker owner) ao = [] := by
        simp only [completes, if_neg other]
        split <;> rfl
      rw [nothing, List.append_nil] at grown
      rw [worker_others stepped other]
      exact leaves ao (grown ▸ woke)
    · have own : ao = owner := not_not.mp other
      subst own
      rcases worker_step_cases stepped with ⟨task, rest, worker, queue, rfl⟩ |
        ⟨stage, item, point, worker, rfl⟩ | ⟨worker, rfl⟩ | ⟨worker, rfl⟩
      · rcases leaves ao woke with early | early <;> rw [worker] at early <;> cases early
      · cases point with
        | finish => exact Or.inl (by simp [runTask, Run.complete, Run.goto])
        | printNum | printPrime | load | store =>
          rcases leaves ao woke with early | early <;> rw [worker] at early <;> cases early
      · exact Or.inl (by simp [Run.complete, Run.goto])
      · have flag := wake_flag stopping (executed_delivered s ao woke)
        exact Or.inr (by simp [Run.goto, flag])

/-- The invariants of all runs, with the one about the empty tasks. -/
def Live (N : Nat) (s : Run) : Prop := Sound N s ∧ Leaves s

theorem step_live (s : Run) (thread : Thread) (t : Run) (live : Live N s)
    (stepped : step rand seed N s thread = some t) : Live N t :=
  ⟨step_sound s thread t live.1 stepped, step_leaves live.1.2 live.2 stepped⟩

theorem start_live : Live N runStart := ⟨start_sound, nofun⟩

/-- A thread that can take no step has left its loop or waits in `dequeue`. -/
theorem worker_stuck (stuck : workerStep s ao = none) :
    s.workers ao = .done ∨ s.workers ao = .waiting ∧ s.queues ao = [] := by
  unfold workerStep at stuck
  cases worker : s.workers ao with
  | done => exact Or.inl rfl
  | waiting =>
    cases queue : s.queues ao with
    | nil => exact Or.inr ⟨rfl, rfl⟩
    | cons task rest => simp [worker, queue] at stuck
  | running | woken | testing => simp [worker] at stuck

/-- A thread that has been sent its empty task is not left waiting. -/
theorem woken_not_waiting (live : Live N s) (sent : wakeSent s.main ao = true)
    (stuck : workerStep s ao = none) : s.workers ao = .done := by
  rcases worker_stuck stuck with done | ⟨waiting, empty⟩
  · exact done
  · -- the empty task is not queued, so the thread has executed it and tests no more
    have counted := live.1.2.wakes ao
    rw [if_pos sent] at counted
    have woke : .wake ∈ delivered s ao := List.count_pos_iff.mp (counted ▸ Nat.one_pos)
    simp only [delivered, waiting, waiting_in_hand, empty, List.append_nil] at woke
    rcases live.2 ao woke with early | early <;> rw [waiting] at early <;> cases early

theorem stuck_iff_returned (live : Live N s) :
    Stuck (step rand seed N) s ↔ s.main = .returned := by
  constructor
  · intro stuck
    have blocked : mainStep rand seed N s = none := stuck .main
    unfold mainStep at blocked
    cases main : s.main with
    | returned => rfl
    | join ao =>
      have sent : wakeSent s.main ao = true := by
        rw [main]
        rfl
      have done := woken_not_waiting live sent (stuck (.worker ao))
      simp [main, done] at blocked
    | loop i =>
      simp only [main] at blocked
      split at blocked <;> cases blocked
    | enqueue | stop | wakeUp => simp [main] at blocked
  · intro back thread
    cases thread with
    | main => simp only [step, mainStep, back]
    | worker ao =>
      have done := live.1.2.joined ao (by rw [back]; rfl)
      simp only [step, workerStep, done]

/-- Under every schedule `run` returns: no run is longer than 23 steps an item
and 25 more, the threads come to a standstill only where `run` has returned,
and from every state they can get there. -/
theorem run_always_returns (rand : BitVec 32 → Nat → BitVec 31) (seed : BitVec 32) (N : Nat)
    (threads : List Thread) (s : Run) (ran : exec (step rand seed N) runStart threads = some s) :
    threads.length ≤ 23 * N + 25 ∧ (Stuck (step rand seed N) s ↔ s.main = .returned) ∧
      ∃ t, Reachable (step rand seed N) s t ∧ t.main = .returned := by
  have decreases : ∀ s thread t, Live N s → step rand seed N s thread = some t →
      work N t < work N s := fun s thread t _ stepped =>
    Nat.lt_of_succ_le (Nat.le_of_eq (step_work s thread t stepped))
  have live : Live N s := exec_invariant step_live start_live ran
  refine ⟨?_, stuck_iff_returned live, ?_⟩
  · have bounded := run_length step_live decreases start_live ran
    exact Nat.le_of_add_right_le bounded
  · obtain ⟨t, onward, stuck⟩ := stuck_reachable step_live decreases live
    obtain ⟨threads, more⟩ := onward
    exact ⟨t, ⟨threads, more⟩, (stuck_iff_returned (exec_invariant step_live live more)).mp stuck⟩

end Program

/-- The bound is met: one item through all stages takes all of its 48 steps. -/
theorem orderly_run_uses_all : ∃ s, exec (step (fun _ _ => 0) 0 1) runStart orderlyRun = some s ∧
    orderlyRun.length = 23 * 1 + 25 ∧ Stuck (step (fun _ _ => 0) 0 1) s := by
  have outcome : (exec (step (fun _ _ => 0) 0 1) runStart orderlyRun).map Run.main =
      some .returned := by decide
  obtain ⟨s, ran, back⟩ := Option.map_eq_some_iff.mp outcome
  have ends := (run_always_returns _ 0 1 orderlyRun s ran).2.1
  exact ⟨s, ran, rfl, ends.mpr back⟩

end OsCourse.PipelineTermination

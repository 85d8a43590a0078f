import OsCourse.Pipeline
import Mathlib.Data.List.Range

/-! The order in which tasks pass through the pipeline. What a queue has been
given so far consists of what its thread has completed, the task in hand and
what is still queued; every step appends to these histories only. -/
namespace OsCourse.PipelineOrder
open Pipeline Transition

section Program
variable {rand : BitVec 32 → Nat → BitVec 31} {seed : BitVec 32} {N : Nat}

theorem main_workers (stepped : mainStep rand seed N s = some t) : t.workers = s.workers := by
  rcases main_step_cases stepped with ⟨i, main, more, rfl⟩ | ⟨i, main, last, rfl⟩ |
    ⟨i, main, rfl⟩ | ⟨stopped, main, rfl⟩ | ⟨stopped, main, rfl⟩ | ⟨joined, main, done, rfl⟩ <;>
  rfl

/-- The history of a queue and that of its thread after one step. -/
def Extends (s : Run) (thread : Thread) (t : Run) : Prop :=
  ∀ ao, delivered t ao = delivered s ao ++ arrives s thread ao ∧
    t.executed ao = s.executed ao ++ completes s thread ao

/-- An `enqueue` extends what its queue has been given. -/
theorem enqueue_delivered (s : Run) (owner : Ao) (task : Task) (ao : Ao) :
    delivered (s.enqueue owner task) ao =
      delivered s ao ++ if ao = owner then [task] else [] := by
  rw [delivered, enqueue_queues, ← List.append_assoc]
  rfl

theorem main_extends (stepped : mainStep rand seed N s = some t) : Extends s .main t := by
  intro ao
  rcases main_step_cases stepped with ⟨i, main, more, rfl⟩ | ⟨i, main, last, rfl⟩ |
    ⟨i, main, rfl⟩ | ⟨stopped, main, rfl⟩ | ⟨stopped, main, rfl⟩ | ⟨joined, main, done, rfl⟩
  · simp [delivered, arrives, completes, main]
  · simp [delivered, arrives, completes, main]
  · simp only [arrives, completes, main, List.append_nil]
    exact ⟨enqueue_delivered s .ao1 _ ao, rfl⟩
  · simp [delivered, arrives, completes, main]
  · simp only [arrives, completes, main, List.append_nil]
    exact ⟨enqueue_delivered s stopped _ ao, rfl⟩
  · simp [delivered, arrives, completes, main]

/-- A completed task moves from the hand to the history of its thread. -/
theorem complete_extends (s : Run) (owner : Ao) (task : Task) (held : (s.workers owner).inHand = [task])
    (ao : Ao) : delivered (s.complete owner task) ao = delivered s ao ∧
      (s.complete owner task).executed ao =
        s.executed ao ++ if ao = owner then [task] else [] := by
  by_cases same : ao = owner
  · subst same
    simp [delivered, Run.complete, Run.goto, held]
  · simp [delivered, Run.complete, Run.goto, same]

/-- A thread that only changes what it is about to do next changes neither history. -/
theorem goto_extends (s : Run) (owner : Ao) (worker : Worker)
    (same : worker.inHand = (s.workers owner).inHand) (ao : Ao) :
    delivered (s.goto owner worker) ao = delivered s ao ∧
      (s.goto owner worker).executed ao = s.executed ao := by
  refine ⟨?_, rfl⟩
  by_cases own : ao = owner
  · subst own
    simp [delivered, Run.goto, same]
  · simp [delivered, Run.goto, own]

theorem worker_extends (stepped : workerStep s owner = some t) : Extends s (.worker owner) t := by
  intro ao
  rcases worker_step_cases stepped with ⟨task, rest, worker, queue, rfl⟩ |
    ⟨stage, item, point, worker, rfl⟩ | ⟨worker, rfl⟩ | ⟨worker, rfl⟩
  · -- the head of the queue is now in hand
    simp only [arrives, completes, worker, List.append_nil]
    refine ⟨?_, rfl⟩
    by_cases same : ao = owner
    · subst same
      simp [delivered, Run.goto, worker, queue]
    · simp [delivered, Run.goto, same]
  · cases point with
    | finish =>
      simp only [runTask, arrives, completes, worker]
      have held : ((s.finish item stage).workers owner).inHand = [.stage stage item] := by
        rw [finish_workers, worker]
        rfl
      obtain ⟨given, done⟩ := complete_extends (s.finish item stage) owner _ held ao
      rw [given, done, finish_executed]
      refine ⟨?_, rfl⟩
      rw [delivered, finish_workers, finish_executed, finish_queues, ← List.append_assoc]
      rfl
    | printNum | printPrime | load | store =>
      simp only [runTask, arrives, completes, worker, List.append_nil]
      exact goto_extends _ owner _ (by simp [Run.record, worker, Worker.inHand]) ao
  · simp only [arrives, completes, worker, List.append_nil]
    exact complete_extends s owner .wake (by rw [worker]; rfl) ao
  · simp only [arrives, completes, worker, List.append_nil]
    refine goto_extends s owner _ ?_ ao
    rw [worker]
    split <;> rfl

/-- The histories grow by exactly what `arrives` and `completes` say. -/
theorem step_extends (stepped : step rand seed N s thread = some t) : Extends s thread t := by
  cases thread with
  | main => exact main_extends stepped
  | worker owner => exact worker_extends stepped

/-! ## Items -/

def itemOf : Task → Option Nat
  | .stage _ item => some item
  | .wake => none

/-- The iterations the tasks of a list belong to. -/
def items (tasks : List Task) : List Nat := tasks.filterMap itemOf

@[simp] theorem items_nil : items [] = [] := rfl

@[simp] theorem items_stage (stage : Stage) (item : Nat) (tasks : List Task) :
    items (.stage stage item :: tasks) = item :: items tasks := rfl

@[simp] theorem items_wake (tasks : List Task) : items (.wake :: tasks) = items tasks := rfl

@[simp] theorem items_append (first second : List Task) :
    items (first ++ second) = items first ++ items second := List.filterMap_append

/-- The iterations whose number has been put into the first queue. -/
def enqueued (N : Nat) (s : Run) : Nat :=
  match s.main with
  | .loop i | .enqueue i => i
  | _ => N

/-- The loop goes through the iterations below `N`. -/
def InLoop (N : Nat) : Main → Prop
  | .loop i => i ≤ N
  | .enqueue i => i < N
  | _ => True

/-- A task belongs into the queue it is in. -/
def AtHome (ao : Ao) (task : Task) : Prop :=
  match task with
  | .stage stage _ => stage.home = ao
  | .wake => True

/-- The queues pass the items on in the order of their generation. -/
structure Ordered (N : Nat) (s : Run) : Prop where
  home : ∀ ao, ∀ task ∈ delivered s ao, AtHome ao task
  first : items (delivered s .ao1) = List.range (enqueued N s)
  second : items (delivered s .ao2) = items (s.executed .ao1)
  third : items (delivered s .ao3) = items (s.executed .ao2)
  inLoop : InLoop N s.main

theorem passes_home (stage : Stage) (item : Nat) (ao : Ao) :
    ∀ task ∈ stage.passes item ao, AtHome ao task := by
  cases stage <;> simp only [Stage.passes] <;> (try split) <;> simp_all [AtHome, Stage.home]

/-- Whatever arrives in a queue belongs there. -/
theorem arrives_home (s : Run) (thread : Thread) (ao : Ao) :
    ∀ task ∈ arrives s thread ao, AtHome ao task := by
  intro task arrived
  cases thread with
  | main =>
    simp only [arrives] at arrived
    split at arrived
    · split at arrived
      · rename_i own
        rw [List.mem_singleton.mp arrived, own]
        rfl
      · cases arrived
    · split at arrived
      · rw [List.mem_singleton.mp arrived]
        trivial
      · cases arrived
    · cases arrived
  | worker owner =>
    simp only [arrives] at arrived
    split at arrived
    · exact passes_home _ _ _ task arrived
    · cases arrived

/-- A thread hands each item on in the step that completes its task. -/
theorem worker_arrives (owner : Ao) (ordered : Ordered N s) :
    items (arrives s (.worker owner) .ao1) = [] ∧
      items (arrives s (.worker owner) .ao2) = items (completes s (.worker owner) .ao1) ∧
      items (arrives s (.worker owner) .ao3) = items (completes s (.worker owner) .ao2) := by
  simp only [arrives, completes]
  cases worker : s.workers owner with
  | running stage item point =>
    cases point with
    | finish =>
      have held : Task.stage stage item ∈ delivered s owner := by
        simp [delivered, worker, Worker.inHand]
      have home : stage.home = owner := ordered.home owner _ held
      subst home
      cases stage <;> exact ⟨rfl, rfl, rfl⟩
    | printNum | printPrime | load | store => exact ⟨rfl, rfl, rfl⟩
  | woken =>
    refine ⟨rfl, ?_, ?_⟩ <;> simp only <;> split <;> rfl
  | waiting | testing | done => exact ⟨rfl, rfl, rfl⟩

theorem worker_main (stepped : workerStep s owner = some t) : t.main = s.main := by
  rcases worker_step_cases stepped with ⟨task, rest, worker, queue, rfl⟩ |
    ⟨stage, item, point, worker, rfl⟩ | ⟨worker, rfl⟩ | ⟨worker, rfl⟩
  · rfl
  · cases point with
    | finish => exact finish_main s item stage
    | printNum | printPrime | load | store => rfl
  · rfl
  · rfl

/-- The main thread gives the items to the first queue in the order of their
generation. -/
theorem main_arrives (bounds : InLoop N s.main) (stepped : mainStep rand seed N s = some t) :
    InLoop N t.main ∧
      List.range (enqueued N t) = List.range (enqueued N s) ++ items (arrives s .main .ao1) ∧
      items (arrives s .main .ao2) = [] ∧ items (arrives s .main .ao3) = [] := by
  rcases main_step_cases stepped with ⟨i, main, more, rfl⟩ | ⟨i, main, last, rfl⟩ |
    ⟨i, main, rfl⟩ | ⟨stopped, main, rfl⟩ | ⟨stopped, main, rfl⟩ | ⟨joined, main, done, rfl⟩
  · simp [enqueued, arrives, main, InLoop, more]
  · have within : i ≤ N := by simpa only [main, InLoop] using bounds
    have count : i = N := Nat.le_antisymm within last
    simp [enqueued, arrives, InLoop, main, count]
  · have next : i < N := by simpa only [main, InLoop] using bounds
    simp [enqueued, arrives, main, List.range_succ, InLoop, Nat.succ_le_of_lt next]
  · simp [enqueued, arrives, main, InLoop]
  · cases stopped <;> simp [enqueued, arrives, main, InLoop, Ao.next]
  · cases joined <;> simp [enqueued, arrives, main, InLoop, Ao.next]

theorem home_kept (home : ∀ ao, ∀ task ∈ delivered s ao, AtHome ao task)
    (extends_ : Extends s thread t) : ∀ ao, ∀ task ∈ delivered t ao, AtHome ao task := by
  intro ao task given
  rw [(extends_ ao).1, List.mem_append] at given
  rcases given with old | new
  · exact home ao task old
  · exact arrives_home s thread ao task new

theorem step_ordered (s : Run) (thread : Thread) (t : Run) (ordered : Ordered N s)
    (stepped : step rand seed N s thread = some t) : Ordered N t := by
  have grown := step_extends stepped
  have home := home_kept ordered.home grown
  cases thread with
  | main =>
    obtain ⟨bounds, first, second, third⟩ := main_arrives ordered.inLoop stepped
    refine ⟨home, ?_, ?_, ?_, bounds⟩
    · rw [(grown .ao1).1, items_append, ordered.first, first]
    · rw [(grown .ao2).1, items_append, ordered.second, second, (grown .ao1).2]
      simp [completes]
    · rw [(grown .ao3).1, items_append, ordered.third, third, (grown .ao2).2]
      simp [completes]
  | worker owner =>
    obtain ⟨first, second, third⟩ := worker_arrives owner ordered
    have main : t.main = s.main := worker_main stepped
    have count : enqueued N t = enqueued N s := by
      unfold enqueued
      rw [main]
    refine ⟨home, ?_, ?_, ?_, main ▸ ordered.inLoop⟩
    · rw [(grown .ao1).1, items_append, ordered.first, first, count, List.append_nil]
    · rw [(grown .ao2).1, items_append, ordered.second, second, (grown .ao1).2, items_append]
    · rw [(grown .ao3).1, items_append, ordered.third, third, (grown .ao2).2, items_append]

theorem start_ordered : Ordered N runStart := by
  refine ⟨?_, rfl, rfl, rfl, Nat.zero_le N⟩
  intro ao task given
  cases given

/-! ## Consequences -/

theorem executed_first (s : Run) (ao : Ao) : items (s.executed ao) <+: items (delivered s ao) := by
  unfold delivered
  rw [List.append_assoc, items_append]
  exact List.prefix_append _ _

theorem enqueued_le (bounds : InLoop N s.main) : enqueued N s ≤ N := by
  unfold enqueued
  cases main : s.main with
  | loop i | enqueue i =>
    rw [main] at bounds
    unfold InLoop at bounds
    simp only
    omega
  | stop | wakeUp | join | returned => exact le_rfl

theorem prefix_range (initial : taken <+: List.range n) : taken = List.range taken.length := by
  have length := initial.length_le
  rw [List.length_range] at length
  have := List.prefix_iff_eq_take.mp initial
  rwa [List.take_range, min_eq_left length] at this

/-- Each stage has been given an initial segment of the items, in order. -/
theorem delivered_enqueued (ordered : Ordered N s) (stage : Stage) :
    items (delivered s stage.home) <+: List.range (enqueued N s) := by
  have first : items (delivered s .ao1) <+: List.range (enqueued N s) := by
    rw [ordered.first]
  have second : items (delivered s .ao2) <+: List.range (enqueued N s) := by
    rw [ordered.second]
    exact (executed_first s .ao1).trans first
  cases stage with
  | first => exact first
  | second => exact second
  | third =>
    show items (delivered s .ao3) <+: List.range (enqueued N s)
    rw [ordered.third]
    exact (executed_first s .ao2).trans second

theorem delivered_range (ordered : Ordered N s) (stage : Stage) :
    items (delivered s stage.home) <+: List.range N := by
  refine (delivered_enqueued ordered stage).trans (List.prefix_iff_eq_take.mpr ?_)
  simp [List.take_range, enqueued_le ordered.inLoop]

/-! ## The order of the stages -/

/-- The item of a task of this stage. -/
def itemAt (stage : Stage) : Task → Option Nat
  | .stage own item => if own = stage then some item else none
  | .wake => none

/-- The items whose task of this stage has run, in the order in which they did. -/
def processed (s : Run) (stage : Stage) : List Nat :=
  (s.executed stage.home).filterMap (itemAt stage)

/-- The same with the item whose task the thread has in hand. -/
def started (s : Run) (stage : Stage) : List Nat :=
  (s.executed stage.home ++ (s.workers stage.home).inHand).filterMap (itemAt stage)

/-- Each stage takes the items up in the order in which the stage in front of
it is through with them, and no stage runs on another thread. -/
structure InOrder (N : Nat) (s : Run) : Prop where
  generation : processed s .first <+: List.range N
  second : processed s .second <+: processed s .first
  third : processed s .third <+: processed s .second
  once : ∀ stage, (processed s stage).Nodup
  alone : ∀ ao stage item, Task.stage stage item ∈ s.executed ao → ao = stage.home
  taken_first : started s .first <+: List.range N
  taken_second : started s .second <+: processed s .first
  taken_third : started s .third <+: processed s .second

/-- In its own queue, the tasks of a stage are all the tasks with an item. -/
theorem items_at_home (tasks : List Task) (home : ∀ task ∈ tasks, AtHome stage.home task) :
    tasks.filterMap (itemAt stage) = items tasks := by
  have injective : ∀ own : Stage, own.home = stage.home → own = stage := by
    intro own same
    cases own <;> cases stage <;> first | rfl | cases same
  refine List.filterMap_congr fun task member => ?_
  cases task with
  | stage own item =>
    have same : own = stage := injective own (home _ member)
    simp only [itemAt, same, ↓reduceIte, itemOf]
  | wake => rfl

theorem processed_items (ordered : Ordered N s) (stage : Stage) :
    processed s stage = items (s.executed stage.home) := by
  apply items_at_home
  intro task executed
  apply ordered.home
  simp [delivered, executed]

theorem started_items (ordered : Ordered N s) (stage : Stage) :
    started s stage = items (s.executed stage.home ++ (s.workers stage.home).inHand) := by
  apply items_at_home
  intro task taken
  apply ordered.home
  exact List.mem_append_left _ taken

theorem processed_started (s : Run) (stage : Stage) : processed s stage <+: started s stage := by
  rw [processed, started, List.filterMap_append]
  exact List.prefix_append _ _

/-- What a thread has taken up is an initial segment of what its queue was given. -/
theorem started_delivered (ordered : Ordered N s) (stage : Stage) :
    started s stage <+: items (delivered s stage.home) := by
  rw [started_items ordered, delivered, items_append _ (s.queues stage.home)]
  exact List.prefix_append _ _

theorem ordered_in_order (ordered : Ordered N s) : InOrder N s := by
  have first := started_delivered ordered .first
  have second : started s .second <+: processed s .first := by
    rw [processed_items ordered .first]
    exact ordered.second ▸ started_delivered ordered .second
  have third : started s .third <+: processed s .second := by
    rw [processed_items ordered .second]
    exact ordered.third ▸ started_delivered ordered .third
  have range := first.trans (delivered_range ordered .first)
  refine ⟨(processed_started s .first).trans range, (processed_started s .second).trans second,
    (processed_started s .third).trans third, ?_, ?_, range, second, third⟩
  · intro stage
    have initial := ((processed_started s stage).trans (started_delivered ordered stage)).trans
      (delivered_range ordered stage)
    exact initial.sublist.nodup List.nodup_range
  · intro ao stage item executed
    have home := ordered.home ao (.stage stage item) (by simp [delivered, executed])
    exact home.symm

end Program

/-- Whatever the threads do, each stage processes the items in the order of
their generation, none twice, and none before the stage in front of it has. -/
theorem stages_in_order (rand : BitVec 32 → Nat → BitVec 31) (seed : BitVec 32) (N : Nat)
    (threads : List Thread) : Throughout (step rand seed N) (InOrder N) runStart threads := by
  exact throughout_of_invariant step_ordered (fun _ => ordered_in_order) start_ordered threads

end OsCourse.PipelineOrder

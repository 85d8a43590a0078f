import OsCourse.PipelineOrder

/-! What the pipeline has done when `run` returns. A thread that finds its
flag set leaves after the task it has just completed, whatever is still queued
or still to come, so completeness is decided at the moments `run` stores the
flags. -/
namespace OsCourse.PipelineCompleteness
open Pipeline PipelineOrder Transition

/-! ## The property -/

/-- How often the threads together have executed a task. -/
def timesExecuted (s : Run) (task : Task) : Nat :=
  (s.executed .ao1 ++ s.executed .ao2 ++ s.executed .ao3 ++ s.executed .ao4).count task

/-- Every item has been through each stage exactly once, and the first three
queues hold no task. -/
def Complete (N : Nat) (s : Run) : Prop :=
  (∀ stage, ∀ item < N, timesExecuted s (.stage stage item) = 1) ∧
    ∀ stage : Stage, s.queues stage.home = []

/-- When `run` stores the flag of one of the three stages, the thread of that
stage has executed all its items and waits in `dequeue`. -/
def StopsAtRest (N : Nat) (s : Run) (thread : Thread) : Prop :=
  thread = .main → ∀ stage : Stage, s.main = .stop stage.home →
    s.workers stage.home = .waiting ∧ (s.executed stage.home).length = N

/-! ## Stopping and joining -/

def position : Ao → Nat
  | .ao1 => 0
  | .ao2 => 1
  | .ao3 => 2
  | .ao4 => 3

/-- `run` is past the store of the flag. -/
def flagStored : Main → Ao → Bool
  | .loop _, _ | .enqueue _, _ => false
  | .stop next, ao => position ao < position next
  | .wakeUp next, ao => position ao ≤ position next
  | .join _, _ | .returned, _ => true

/-- `run` is past the `enqueue` of the empty task. -/
def wakeSent : Main → Ao → Bool
  | .loop _, _ | .enqueue _, _ => false
  | .stop next, ao | .wakeUp next, ao => position ao < position next
  | .join _, _ | .returned, _ => true

/-- `run` has joined the thread. -/
def hasJoined : Main → Ao → Bool
  | .join next, ao => position ao < position next
  | .returned, _ => true
  | _, _ => false

structure Stopping (s : Run) : Prop where
  flags : ∀ ao, s.stopRequested ao = flagStored s.main ao
  wakes : ∀ ao, (delivered s ao).count .wake = if wakeSent s.main ao then 1 else 0
  joined : ∀ ao, hasJoined s.main ao = true → s.workers ao = .done

section Program
variable {rand : BitVec 32 → Nat → BitVec 31} {seed : BitVec 32} {N : Nat}

theorem worker_flags (stepped : workerStep s owner = some t) : t.stopRequested = s.stopRequested := by
  rcases worker_step_cases stepped with ⟨task, rest, worker, queue, rfl⟩ |
    ⟨stage, item, point, worker, rfl⟩ | ⟨worker, rfl⟩ | ⟨worker, rfl⟩
  · rfl
  · cases point with
    | finish => exact finish_stop_requested s item stage
    | printNum | printPrime | load | store => rfl
  · rfl
  · rfl

/-- A thread's step leaves the other threads where they are. -/
theorem worker_others (stepped : workerStep s owner = some t) (other : ao ≠ owner) :
    t.workers ao = s.workers ao := by
  rcases worker_step_cases stepped with ⟨task, rest, worker, queue, rfl⟩ |
    ⟨stage, item, point, worker, rfl⟩ | ⟨worker, rfl⟩ | ⟨worker, rfl⟩
  · simp [Run.goto, other]
  · cases point with
    | finish => simp [runTask, Run.complete, Run.goto, other]
    | printNum | printPrime | load | store => simp [runTask, Run.record, Run.goto, other]
  · simp [Run.complete, Run.goto, other]
  · simp [Run.goto, other]

theorem done_stays (stepped : workerStep s owner = some t) (done : s.workers ao = .done) :
    t.workers ao = .done := by
  by_cases own : ao = owner
  · subst own
    simp [workerStep, done] at stepped
  · rw [worker_others stepped own, done]

theorem passes_no_wake (stage : Stage) (item : Nat) (ao : Ao) :
    (stage.passes item ao).count .wake = 0 := by
  cases stage <;> simp only [Stage.passes] <;> (try split) <;> rfl

theorem flag_after_wake (next ao : Ao) :
    flagStored ((next.next.map Main.stop).getD (.join .ao1)) ao = flagStored (.wakeUp next) ao := by
  cases next <;> cases ao <;> rfl

theorem wake_after_wake (next ao : Ao) :
    wakeSent ((next.next.map Main.stop).getD (.join .ao1)) ao =
      (wakeSent (.wakeUp next) ao || decide (ao = next)) := by
  cases next <;> cases ao <;> rfl

theorem joined_after_wake (next ao : Ao) :
    hasJoined ((next.next.map Main.stop).getD (.join .ao1)) ao = false := by
  cases next <;> cases ao <;> rfl

theorem after_join (next ao : Ao) :
    flagStored ((next.next.map Main.join).getD .returned) ao = true ∧
      wakeSent ((next.next.map Main.join).getD .returned) ao = true ∧
      hasJoined ((next.next.map Main.join).getD .returned) ao =
        (hasJoined (.join next) ao || decide (ao = next)) := by
  cases next <;> cases ao <;> exact ⟨rfl, rfl, rfl⟩

/-- The empty tasks that arrive are those the main thread sends. -/
theorem worker_no_wake (s : Run) (owner ao : Ao) :
    (arrives s (.worker owner) ao).count .wake = 0 := by
  unfold arrives
  simp only
  split
  · exact passes_no_wake _ _ ao
  · rfl

theorem flag_after_store (next ao : Ao) :
    flagStored (.wakeUp next) ao = (flagStored (.stop next) ao || decide (ao = next)) := by
  cases next <;> cases ao <;> rfl

theorem main_stopping (stopping : Stopping s) (stepped : mainStep rand seed N s = some t) :
    Stopping t := by
  have grown := main_extends stepped
  have wakes : ∀ ao, (delivered t ao).count .wake =
      (if wakeSent s.main ao then 1 else 0) + (arrives s .main ao).count .wake := by
    intro ao
    rw [(grown ao).1, List.count_append, stopping.wakes ao]
  rcases main_step_cases stepped with ⟨i, main, more, rfl⟩ | ⟨i, main, last, rfl⟩ |
    ⟨i, main, rfl⟩ | ⟨stopped, main, rfl⟩ | ⟨stopped, main, rfl⟩ | ⟨joined, main, done, rfl⟩
  · refine ⟨fun ao => ?_, fun ao => ?_, fun ao earlier => by cases earlier⟩
    · simp only [stopping.flags, main, flagStored]
    · simp [wakes, main, arrives, wakeSent]
  · refine ⟨fun ao => ?_, fun ao => ?_, fun ao earlier => by cases earlier⟩
    · simp only [stopping.flags, main]
      cases ao <;> rfl
    · simp only [wakes, main, arrives, List.count_nil]
      cases ao <;> rfl
  · refine ⟨fun ao => ?_, fun ao => ?_, fun ao earlier => by cases earlier⟩
    · simp only [Run.enqueue, stopping.flags, main, flagStored]
    · simp only [wakes, main, arrives, wakeSent]
      by_cases own : ao = .ao1 <;> simp [own]
  · refine ⟨fun ao => ?_, fun ao => ?_, fun ao earlier => by cases earlier⟩
    · simp only [flag_after_store, Function.update_apply, stopping.flags, main]
      by_cases own : ao = stopped <;> simp [own]
    · simp [wakes, main, arrives, wakeSent]
  · refine ⟨fun ao => ?_, fun ao => ?_, fun ao earlier => ?_⟩
    · simp only [Run.enqueue, flag_after_wake, stopping.flags, main]
    · -- the thread has not been sent an empty task before
      simp only [wakes, main, arrives, wake_after_wake]
      by_cases own : ao = stopped
      · simp [own, wakeSent]
      · simp [own]
    · simp only [joined_after_wake, Bool.false_eq_true] at earlier
  · refine ⟨fun ao => ?_, fun ao => ?_, fun ao earlier => ?_⟩
    · rw [stopping.flags, main]
      exact (after_join joined ao).1.symm
    · refine (wakes ao).trans ?_
      show _ = if wakeSent ((joined.next.map Main.join).getD .returned) ao then 1 else 0
      rw [(after_join joined ao).2.1]
      simp only [arrives, main, wakeSent, List.count_nil]
      rfl
    · simp only [(after_join joined ao).2.2, Bool.or_eq_true, decide_eq_true_eq] at earlier
      rcases earlier with earlier | rfl
      · exact stopping.joined ao (main ▸ earlier)
      · exact done

theorem step_stopping (s : Run) (thread : Thread) (t : Run) (stopping : Stopping s)
    (stepped : step rand seed N s thread = some t) : Stopping t := by
  cases thread with
  | main => exact main_stopping stopping stepped
  | worker owner =>
    have main : t.main = s.main := worker_main stepped
    refine ⟨fun ao => ?_, fun ao => ?_, fun ao earlier => ?_⟩
    · rw [worker_flags stepped, main]
      exact stopping.flags ao
    · rw [(step_extends stepped ao).1, List.count_append, worker_no_wake, main]
      exact stopping.wakes ao
    · exact done_stays stepped (stopping.joined ao (main ▸ earlier))

theorem start_stopping : Stopping runStart := ⟨fun _ => rfl, fun _ => rfl, nofun⟩

/-! ## The last task of a thread -/

/-- Whether the thread comes to another test of the flag. -/
def testsAgain : Worker → Nat
  | .waiting | .running _ _ _ | .woken => 1
  | .testing | .done => 0

/-- How many tasks a thread with its flag set will have executed when it leaves. -/
def budget (s : Run) (ao : Ao) : Nat := (s.executed ao).length + testsAgain (s.workers ao)

theorem call_tests_again (task : Task) : testsAgain task.call = 1 := by
  cases task <;> rfl

/-- With the flag set, the number of tasks a thread will execute is settled. -/
theorem worker_budget (stepped : workerStep s owner = some t) (flag : s.stopRequested ao = true) :
    budget t ao = budget s ao := by
  by_cases other : ao ≠ owner
  · have executed : t.executed ao = s.executed ao := by
      rw [(worker_extends stepped ao).2]
      simp only [completes]
      split <;> simp [other]
    rw [budget, budget, worker_others stepped other, executed]
  · have own : ao = owner := not_not.mp other
    subst own
    rcases worker_step_cases stepped with ⟨task, rest, worker, queue, rfl⟩ |
      ⟨stage, item, point, worker, rfl⟩ | ⟨worker, rfl⟩ | ⟨worker, rfl⟩
    · simp only [budget, Run.goto, worker, Function.update_self, call_tests_again]
      rfl
    · cases point with
      | finish => simp [budget, runTask, Run.complete, Run.goto, worker, testsAgain]
      | printNum | printPrime | load | store =>
        simp [budget, runTask, Run.record, Run.goto, worker, testsAgain]
    · simp [budget, Run.complete, Run.goto, worker, testsAgain]
    · simp [budget, Run.goto, worker, flag, testsAgain]

theorem main_budget (stepped : mainStep rand seed N s = some t) (ao : Ao) :
    budget t ao = budget s ao := by
  have executed : t.executed ao = s.executed ao := by
    rw [(main_extends stepped ao).2]
    exact List.append_nil _
  rw [budget, budget, executed, main_workers stepped]

/-- Each stopped thread of a stage will have executed its `N` items and the
empty task. -/
def RunsOut (N : Nat) (s : Run) : Prop :=
  ∀ stage : Stage, s.stopRequested stage.home = true → budget s stage.home = N + 1

/-- The invariants of all runs. -/
def Sound (N : Nat) (s : Run) : Prop := Ordered N s ∧ Stopping s

theorem step_sound (s : Run) (thread : Thread) (t : Run) (sound : Sound N s)
    (stepped : step rand seed N s thread = some t) : Sound N t :=
  ⟨step_ordered s thread t sound.1 stepped, step_stopping s thread t sound.2 stepped⟩

theorem start_sound : Sound N runStart := ⟨start_ordered, start_stopping⟩

theorem length_split (tasks : List Task) :
    tasks.length = (items tasks).length + tasks.count .wake := by
  induction tasks with
  | nil => rfl
  | cons task rest ih =>
    cases task with
    | stage stage item =>
      have other : (Task.stage stage item :: rest).count .wake = rest.count .wake :=
        List.count_cons_of_ne (by simp)
      simp only [List.length_cons, items_stage]
      omega
    | wake =>
      simp only [List.length_cons, items_wake, List.count_cons_self]
      omega

theorem delivered_length (sound : Sound N s) (stage : Stage) :
    (delivered s stage.home).length ≤ N + if wakeSent s.main stage.home then 1 else 0 := by
  have items_le := (delivered_range sound.1 stage).length_le
  rw [List.length_range] at items_le
  rw [length_split, sound.2.wakes]
  omega

theorem held_length (s : Run) (ao : Ao) :
    (delivered s ao).length =
      (s.executed ao).length + (s.workers ao).inHand.length + (s.queues ao).length := by
  simp only [delivered, List.length_append]

/-- Before its flag is stored a thread has at most its items to execute, so
the right number is left to it only when it is at rest behind all of them. -/
theorem budget_before_stop (sound : Sound N s) (stage : Stage)
    (unsent : wakeSent s.main stage.home = false) :
    budget s stage.home = N + 1 ↔
      s.workers stage.home = .waiting ∧ (s.executed stage.home).length = N := by
  have most := delivered_length sound stage
  rw [unsent, held_length] at most
  unfold budget
  cases worker : s.workers stage.home <;>
    simp [worker, testsAgain, Worker.inHand] at most ⊢ <;> omega

theorem worker_runs_out (stepped : workerStep s owner = some t) : RunsOut N t ↔ RunsOut N s := by
  refine forall_congr' fun stage => ?_
  rw [worker_flags stepped]
  refine imp_congr_right fun flag => ?_
  rw [worker_budget stepped flag]

/-- The main thread leaves the right number to every stopped thread exactly
when it stops the next one at rest. -/
theorem main_runs_out (sound : Sound N s) (stepped : mainStep rand seed N s = some t) :
    RunsOut N t ↔ RunsOut N s ∧ StopsAtRest N s .main := by
  have budgets := main_budget stepped
  have unstopped (elsewhere : ∀ ao, s.main ≠ .stop ao) (flags : t.stopRequested = s.stopRequested) :
      RunsOut N t ↔ RunsOut N s ∧ StopsAtRest N s .main := by
    have no_store : StopsAtRest N s .main := fun _ stage main => absurd main (elsewhere _)
    rw [and_iff_left no_store]
    simp only [RunsOut, flags, budgets]
  rcases main_step_cases stepped with ⟨i, main, more, rfl⟩ | ⟨i, main, last, rfl⟩ |
    ⟨i, main, rfl⟩ | ⟨stopped, main, rfl⟩ | ⟨stopped, main, rfl⟩ | ⟨joined, main, done, rfl⟩
  · exact unstopped (by simp [main]) rfl
  · exact unstopped (by simp [main]) rfl
  · exact unstopped (by simp [main]) rfl
  · have unsent : wakeSent s.main stopped = false := by
      rw [main]
      exact decide_eq_false (lt_irrefl _)
    simp only [RunsOut, budgets, StopsAtRest, forall_const, main, Main.stop.injEq]
    rw [← forall_and]
    refine forall_congr' fun stage => ?_
    by_cases own : stage.home = stopped
    · have rest := budget_before_stop sound stage (own ▸ unsent)
      have late : s.stopRequested stage.home = false := by
        rw [sound.2.flags, main, own]
        exact decide_eq_false (lt_irrefl _)
      rw [own] at rest late ⊢
      simp [late, rest]
    · have different : ¬ stopped = stage.home := fun same => own same.symm
      simp [own, different]
  · exact unstopped (by simp [main]) rfl
  · exact unstopped (by simp [main]) rfl

theorem step_runs_out_iff (s : Run) (thread : Thread) (t : Run) (before : Sound N s ∧ RunsOut N s)
    (stepped : step rand seed N s thread = some t) :
    (Sound N t ∧ RunsOut N t) ↔ StopsAtRest N s thread := by
  rw [and_iff_right (step_sound s thread t before.1 stepped)]
  cases thread with
  | main => rw [main_runs_out before.1 stepped, and_iff_right before.2]
  | worker owner => exact iff_of_true ((worker_runs_out stepped).mpr before.2) nofun

theorem runs_out_regained (s : Run) (thread : Thread) (t : Run) (sound : Sound N s)
    (stepped : step rand seed N s thread = some t) (after : RunsOut N t) : RunsOut N s := by
  cases thread with
  | main => exact ((main_runs_out sound stepped).mp after).1
  | worker owner => exact (worker_runs_out stepped).mp after

/-! ## When `run` has returned -/

theorem home_injective {one other : Stage} (same : one.home = other.home) : one = other := by
  cases one <;> cases other <;> simp [Stage.home] at same ⊢

/-- In its own queue a closure is told by its iteration alone. -/
theorem count_at_home (stage : Stage) (item : Nat) (tasks : List Task)
    (home : ∀ task ∈ tasks, AtHome stage.home task) :
    tasks.count (.stage stage item) = (items tasks).count item := by
  induction tasks with
  | nil => rfl
  | cons task rest ih =>
    have later := ih fun task given => home task (List.mem_cons_of_mem _ given)
    cases task with
    | stage other own =>
      have same : other = stage := home_injective (home _ List.mem_cons_self)
      subst same
      simp only [items_stage, List.count_cons, later]
      simp
    | wake =>
      rw [items_wake, ← later]
      exact List.count_cons_of_ne (by simp)

theorem count_elsewhere (stage : Stage) (item : Nat) (tasks : List Task) (other : ao ≠ stage.home)
    (home : ∀ task ∈ tasks, AtHome ao task) : tasks.count (.stage stage item) = 0 := by
  rw [List.count_eq_zero]
  intro given
  exact other (home _ given).symm

theorem times_executed (ordered : Ordered N s) (stage : Stage) (item : Nat) :
    timesExecuted s (.stage stage item) = (items (s.executed stage.home)).count item := by
  have home : ∀ ao, ∀ task ∈ s.executed ao, AtHome ao task := by
    intro ao task executed
    apply ordered.home ao task
    simp [delivered, executed]
  have own := count_at_home stage item _ (home stage.home)
  have elsewhere (ao : Ao) (other : ao ≠ stage.home) :=
    count_elsewhere stage item (s.executed ao) other (home ao)
  simp only [timesExecuted, List.count_append]
  rw [← own, elsewhere .ao4 (by cases stage <;> simp [Stage.home])]
  cases stage with
  | first => simp [elsewhere .ao2 (by decide), elsewhere .ao3 (by decide), Stage.home]
  | second => simp [elsewhere .ao1 (by decide), elsewhere .ao3 (by decide), Stage.home]
  | third => simp [elsewhere .ao1 (by decide), elsewhere .ao2 (by decide), Stage.home]

theorem count_range (n item : Nat) : (List.range n).count item = if item < n then 1 else 0 := by
  rw [List.nodup_range.count]
  simp only [List.mem_range]

/-- A stage whose thread has left is complete when the thread has executed
one task more than there are items. -/
theorem stage_complete_iff (sound : Sound N s) (stage : Stage)
    (done : s.workers stage.home = .done) (sent : wakeSent s.main stage.home = true) :
    ((∀ item < N, timesExecuted s (.stage stage item) = 1) ∧ s.queues stage.home = []) ↔
      budget s stage.home = N + 1 := by
  have most := delivered_length sound stage
  have wakes := sound.2.wakes stage.home
  have initial := (executed_first s stage.home).trans (delivered_range sound.1 stage)
  have range := prefix_range initial
  have split := length_split (delivered s stage.home)
  have parts := held_length s stage.home
  rw [if_pos sent] at most wakes
  simp only [done, done_in_hand, List.length_nil] at parts
  simp only [times_executed sound.1, budget, done, testsAgain, Nat.add_zero]
  constructor
  · rintro ⟨once, empty⟩
    have executed : s.executed stage.home = delivered s stage.home := by
      simp [delivered, done, empty]
    have all : ¬ (items (s.executed stage.home)).length < N := by
      intro fewer
      have missing := once _ fewer
      rw [range, count_range] at missing
      simp at missing
    rw [empty, List.length_nil] at parts
    rw [← executed] at split wakes
    omega
  · intro count
    have empty : s.queues stage.home = [] := List.length_eq_zero_iff.mp (by omega)
    have executed : s.executed stage.home = delivered s stage.home := by
      simp [delivered, done, empty]
    rw [← executed] at split wakes
    have all : (items (s.executed stage.home)).length = N := by omega
    refine ⟨fun item below => ?_, empty⟩
    rw [range, all, count_range, if_pos below]

theorem complete_iff_runs_out (sound : Sound N s) (back : s.main = .returned) :
    Complete N s ↔ RunsOut N s := by
  have stages (stage : Stage) := stage_complete_iff sound stage
    (sound.2.joined stage.home (by rw [back]; rfl)) (by rw [back]; rfl)
  have flags (ao : Ao) : s.stopRequested ao = true := by
    rw [sound.2.flags, back]
    rfl
  unfold Complete RunsOut
  rw [← forall_and]
  refine forall_congr' fun stage => ?_
  rw [stages stage, forall_prop_of_true (flags stage.home)]

/-- A run that returns has taken every item through all three stages and left
no task behind exactly when it stored the flag of each stage at rest. -/
theorem pipeline_complete_iff (rand : BitVec 32 → Nat → BitVec 31) (seed : BitVec 32) (N : Nat)
    (threads : List Thread) (t : Run)
    (ran : exec (step rand seed N) runStart threads = some t) (back : t.main = .returned) :
    Complete N t ↔ Along (step rand seed N) (StopsAtRest N) runStart threads := by
  have sound : Sound N t := exec_invariant step_sound start_sound ran
  have start : RunsOut N runStart := nofun
  rw [complete_iff_runs_out sound back,
    ← throughout_iff_along step_runs_out_iff ⟨start_sound, start⟩,
    throughout_and_invariant step_sound start_sound]
  constructor
  · exact throughout_of_last step_sound runs_out_regained start_sound ran
  · intro holds
    exact throughout_iff.mp holds threads List.prefix_rfl t ran

end Program

/-- The main thread after the loop of a run with one item. -/
def oneItem : List Thread := List.replicate 3 .main

def stopAll : List Thread := List.replicate 8 .main

def joinAll : List Thread := List.replicate 4 .main

/-- A thread executes one closure, and returns to its loop or leaves. -/
def closureOf (ao : Ao) : List Thread := List.replicate 7 (.worker ao)

def wakeOf (ao : Ao) : List Thread := List.replicate 3 (.worker ao)

/-- Every stage is stopped when its thread has nothing left to do. -/
def orderlyRun : List Thread :=
  oneItem ++ closureOf .ao1 ++ closureOf .ao2 ++ closureOf .ao3 ++ stopAll ++
    wakeOf .ao1 ++ wakeOf .ao2 ++ wakeOf .ao3 ++ wakeOf .ao4 ++ joinAll

theorem orderly_run_stops_at_rest :
    Along (step (fun _ _ => 0) 0 1) (StopsAtRest 1) runStart orderlyRun := by
  have outcome : (exec (step (fun _ _ => 0) 0 1) runStart orderlyRun).map (fun t =>
      (t.main, (timesExecuted t (.stage .first 0), timesExecuted t (.stage .second 0),
        timesExecuted t (.stage .third 0)), (t.queues .ao1, t.queues .ao2, t.queues .ao3))) =
      some (.returned, (1, 1, 1), ([], [], [])) := by decide
  obtain ⟨t, ran, last⟩ := Option.map_eq_some_iff.mp outcome
  simp only [Prod.mk.injEq] at last
  obtain ⟨back, ⟨first, second, third⟩, queue1, queue2, queue3⟩ := last
  refine (pipeline_complete_iff _ 0 1 orderlyRun t ran back).mp ⟨?_, ?_⟩
  · intro stage item below
    have only : item = 0 := by omega
    subst only
    cases stage with
    | first => exact first
    | second => exact second
    | third => exact third
  · intro stage
    cases stage with
    | first => exact queue1
    | second => exact queue2
    | third => exact queue3

/-- The flags are stored while the only item is still in the first queue, and
the second thread takes its empty task before the item arrives. -/
def hastyRun : List Thread :=
  oneItem ++ stopAll ++ wakeOf .ao2 ++ closureOf .ao1 ++ wakeOf .ao3 ++ wakeOf .ao4 ++ joinAll

/-- The item is then never processed by the second stage. -/
theorem hasty_run_loses_item :
    ¬ ∀ (rand : BitVec 32 → Nat → BitVec 31) (seed : BitVec 32) (N : Nat) (threads : List Thread)
      (t : Run), exec (step rand seed N) runStart threads = some t → t.main = .returned →
      Complete N t := by
  intro complete
  have outcome : (exec (step (fun _ _ => 0) 0 1) runStart hastyRun).map (fun t =>
      (t.main, timesExecuted t (.stage .second 0))) = some (.returned, 0) := by decide
  obtain ⟨t, ran, last⟩ := Option.map_eq_some_iff.mp outcome
  simp only [Prod.mk.injEq] at last
  have once := (complete (fun _ _ => 0) 0 1 hastyRun t ran last.1).1 .second 0 Nat.one_pos
  rw [last.2] at once
  cases once

end OsCourse.PipelineCompleteness

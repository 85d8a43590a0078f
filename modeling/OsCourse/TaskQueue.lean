import Mathlib.Algebra.BigOperators.Ring.Finset
import OsCourse.Transition

/-! `Queue.hpp` under any number of producers and consumers. A step is one
stretch of a call that holds the mutex, or the `notify_one` behind it. -/
namespace OsCourse.TaskQueue
open Transition

/-- Where a thread stands: outside of both calls, in `enqueue` with the item
pushed and the lock given back, asleep in `wait`, or woken there and about to
test the predicate again. -/
inductive Phase where
  | idle
  | pushed
  | asleep
  | woken
  deriving DecidableEq

variable {Thread T : Type}

/-- The queue, its threads, and the items `dequeue` has returned and to whom. -/
structure Queue (Thread T : Type) where
  queue : List T
  phase : Thread → Phase
  returned : List (Thread × T)

def emptyQueue : Queue Thread T := ⟨[], fun _ => .idle, []⟩

inductive Action (Thread T : Type) where
  | push (caller : Thread) (item : T)
  | notifyOne (caller : Thread) (sleeper : Option Thread)
  | test (caller : Thread)
  | spurious (sleeper : Thread)

section Steps
variable [DecidableEq Thread]

def Queue.goto (s : Queue Thread T) (caller : Thread) (next : Phase) : Queue Thread T :=
  { s with phase := Function.update s.phase caller next }

/-- `enqueue` up to `unlock`. -/
def push (s : Queue Thread T) (caller : Thread) (item : T) : Option (Queue Thread T) :=
  if s.phase caller = .idle then
    some { s.goto caller .pushed with queue := s.queue ++ [item] }
  else none

/-- The predicate of `wait` under the lock, on entry to `dequeue` or behind a
wake-up: takes the front item, or falls asleep. -/
def testPredicate (s : Queue Thread T) (caller : Thread) : Option (Queue Thread T) :=
  if s.phase caller = .idle ∨ s.phase caller = .woken then
    match s.queue with
    | item :: rest =>
      some { s.goto caller .idle with queue := rest, returned := s.returned ++ [(caller, item)] }
    | [] => some (s.goto caller .asleep)
  else none

def wake (s : Queue Thread T) (sleeper : Thread) : Option (Queue Thread T) :=
  if s.phase sleeper = .asleep then some (s.goto sleeper .woken) else none

/-- Where a thread moves and does not fall asleep, the sleepers slept before. -/
theorem goto_asleep {s : Queue Thread T} (awake : next ≠ .asleep)
    (sleeps : ∃ t, (s.goto mover next).phase t = .asleep) : ∃ t, s.phase t = .asleep := by
  obtain ⟨t, asleep⟩ := sleeps
  by_cases same : t = mover
  · subst same
    simp only [Queue.goto, Function.update_self] at asleep
    exact absurd asleep awake
  · simp only [Queue.goto, Function.update_of_ne same] at asleep
    exact ⟨t, asleep⟩

end Steps

section Counting
variable [Fintype Thread]

/-- How many threads stand at a place. -/
def population (phase : Thread → Phase) (place : Phase) : Nat :=
  (Finset.univ.filter fun t => phase t = place).card

theorem population_pos {phase : Thread → Phase} :
    0 < population phase place ↔ ∃ t, phase t = place := by
  unfold population
  rw [Finset.card_pos]
  constructor
  · rintro ⟨t, found⟩
    exact ⟨t, (Finset.mem_filter.mp found).2⟩
  · rintro ⟨t, found⟩
    exact ⟨t, Finset.mem_filter.mpr ⟨Finset.mem_univ t, found⟩⟩

/-- The threads about to act on a queued item. -/
def aboutToAct (s : Queue Thread T) : Nat :=
  population s.phase .pushed + population s.phase .woken

/-- While somebody sleeps, the queued items are no more than the threads about
to act, so with an item queued there is one. -/
structure Attended (s : Queue Thread T) : Prop where
  counted : (∃ t, s.phase t = .asleep) → s.queue.length ≤ aboutToAct s
  somebody : (∃ t, s.phase t = .asleep) → s.queue ≠ [] →
    ∃ t, s.phase t = .pushed ∨ s.phase t = .woken

theorem attended_of_counted {s : Queue Thread T}
    (counted : (∃ t, s.phase t = .asleep) → s.queue.length ≤ aboutToAct s) : Attended s := by
  refine ⟨counted, fun sleeper queued => ?_⟩
  have room : 0 < aboutToAct s :=
    Nat.lt_of_lt_of_le (List.length_pos_iff.mpr queued) (counted sleeper)
  unfold aboutToAct at room
  rcases Nat.eq_zero_or_pos (population s.phase .pushed) with none_pushed | pushers
  · rw [none_pushed, Nat.zero_add] at room
    obtain ⟨t, woken⟩ := population_pos.mp room
    exact ⟨t, Or.inr woken⟩
  · obtain ⟨t, pushed⟩ := population_pos.mp pushers
    exact ⟨t, Or.inl pushed⟩

variable [DecidableEq Thread]

/-- `notify_one` wakes some sleeper, and nobody only where nobody sleeps. -/
def notifyOne (s : Queue Thread T) (caller : Thread) :
    Option Thread → Option (Queue Thread T)
  | some sleeper =>
    if s.phase caller = .pushed then wake (s.goto caller .idle) sleeper else none
  | none =>
    if s.phase caller = .pushed ∧ ∀ sleeper, s.phase sleeper ≠ .asleep then
      some (s.goto caller .idle)
    else none

def step (s : Queue Thread T) : Action Thread T → Option (Queue Thread T)
  | .push caller item => push s caller item
  | .notifyOne caller sleeper => notifyOne s caller sleeper
  | .test caller => testPredicate s caller
  | .spurious sleeper => wake s sleeper

/-- A thread that moves leaves one place and arrives at one. -/
theorem population_update (phase : Thread → Phase) (mover : Thread) (next place : Phase) :
    population (Function.update phase mover next) place + (if phase mover = place then 1 else 0) =
      population phase place + (if next = place then 1 else 0) := by
  have others : ∑ t ∈ Finset.univ.erase mover,
      (if Function.update phase mover next t = place then 1 else 0) =
      ∑ t ∈ Finset.univ.erase mover, (if phase t = place then 1 else 0) := by
    refine Finset.sum_congr rfl fun t other => ?_
    rw [Function.update_of_ne (Finset.ne_of_mem_erase other)]
  unfold population
  rw [Finset.card_filter, Finset.card_filter,
    ← Finset.add_sum_erase Finset.univ _ (Finset.mem_univ mover),
    ← Finset.add_sum_erase Finset.univ (fun t => if phase t = place then 1 else 0)
      (Finset.mem_univ mover), others, Function.update_self]
  omega

theorem aboutToAct_goto (s : Queue Thread T) (mover : Thread) (next : Phase) :
    aboutToAct (s.goto mover next) +
        (if s.phase mover = .pushed ∨ s.phase mover = .woken then 1 else 0) =
      aboutToAct s + (if next = .pushed ∨ next = .woken then 1 else 0) := by
  have pushers := population_update s.phase mover next .pushed
  have sleepers := population_update s.phase mover next .woken
  unfold aboutToAct Queue.goto
  cases from_ : s.phase mover <;> cases next <;> simp [from_] at pushers sleepers ⊢ <;> omega

theorem push_attended {s : Queue Thread T} (attended : Attended s)
    (stepped : push s caller item = some t) : Attended t := by
  unfold push at stepped
  split at stepped
  · rename_i outside
    cases stepped
    refine attended_of_counted fun sleeps => ?_
    have before := attended.counted (goto_asleep (by decide) sleeps)
    have moved := aboutToAct_goto s caller .pushed
    rw [outside] at moved
    simp at moved
    have grown : (s.queue ++ [item]).length = s.queue.length + 1 := List.length_append
    exact grown ▸ moved ▸ Nat.succ_le_succ before
  · cases stepped

theorem wake_attended {s : Queue Thread T} (attended : Attended s)
    (stepped : wake s sleeper = some t) : Attended t := by
  unfold wake at stepped
  split at stepped
  · rename_i asleep
    cases stepped
    refine attended_of_counted fun _ => ?_
    have before := attended.counted ⟨sleeper, asleep⟩
    have moved := aboutToAct_goto s sleeper .woken
    rw [asleep] at moved
    simp at moved
    exact moved ▸ Nat.le_succ_of_le before
  · cases stepped

theorem notify_attended {s : Queue Thread T} (attended : Attended s)
    (stepped : notifyOne s caller sleeper = some t) : Attended t := by
  cases sleeper with
  | none =>
    -- nobody sleeps, so the notification is lost and nobody misses it
    simp only [notifyOne] at stepped
    split at stepped
    · rename_i alone
      cases stepped
      refine attended_of_counted fun sleeps => ?_
      obtain ⟨u, asleep⟩ := goto_asleep (by decide) sleeps
      exact absurd asleep (alone.2 u)
    · cases stepped
  | some sleeper =>
    simp only [notifyOne, wake] at stepped
    split at stepped
    · rename_i pushed
      split at stepped
      · rename_i asleep
        cases stepped
        refine attended_of_counted fun _ => ?_
        have before := attended.counted (goto_asleep (by decide) ⟨sleeper, asleep⟩)
        have left := aboutToAct_goto s caller .idle
        have arrived := aboutToAct_goto (s.goto caller .idle) sleeper .woken
        rw [pushed] at left
        rw [asleep] at arrived
        simp at left arrived
        rw [← left, ← arrived] at before
        exact before
      · cases stepped
    · cases stepped

theorem test_attended {s : Queue Thread T} (attended : Attended s)
    (stepped : testPredicate s caller = some t) : Attended t := by
  unfold testPredicate at stepped
  split at stepped
  · rename_i tests
    split at stepped
    · rename_i item rest queued
      cases stepped
      refine attended_of_counted fun sleeps => ?_
      have before := attended.counted (goto_asleep (by decide) sleeps)
      have moved := aboutToAct_goto s caller .idle
      rw [queued, List.length_cons] at before
      -- a newcomer leaves the counted threads as they are, a woken one is counted no more
      have fewer : aboutToAct s ≤ aboutToAct (s.goto caller .idle) + 1 := by
        rw [if_neg (by decide : ¬(Phase.idle = .pushed ∨ Phase.idle = .woken))] at moved
        split at moved
        · exact Nat.le_of_eq moved.symm
        · exact Nat.le_succ_of_le (Nat.le_of_eq moved.symm)
      exact Nat.le_of_succ_le_succ (Nat.le_trans before fewer)
    · rename_i queued
      cases stepped
      refine attended_of_counted fun _ => ?_
      have nothing : (s.goto caller .asleep).queue.length = 0 := by
        rw [show (s.goto caller .asleep).queue = s.queue from rfl, queued]
        rfl
      exact nothing ▸ Nat.zero_le _
  · cases stepped

theorem step_attended (s : Queue Thread T) (a : Action Thread T) (t : Queue Thread T)
    (attended : Attended s) (stepped : step s a = some t) : Attended t := by
  cases a with
  | push caller item => exact push_attended attended stepped
  | notifyOne caller sleeper => exact notify_attended attended stepped
  | test caller => exact test_attended attended stepped
  | spurious sleeper => exact wake_attended attended stepped

/-- However the calls interleave and whoever is woken, with or without a
notification, no item stays queued with a consumer asleep and nobody about to
act. -/
theorem no_lost_wake_up (actions : List (Action Thread T)) :
    Throughout step Attended (emptyQueue : Queue Thread T) actions := by
  have start : Attended (emptyQueue : Queue Thread T) := attended_of_counted fun _ => Nat.zero_le _
  exact throughout_of_invariant step_attended (fun _ attended => attended) start actions

end Counting
end OsCourse.TaskQueue

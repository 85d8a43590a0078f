import OsCourse.Simulation
import OsCourse.TaskQueue

/-! What `Queue.hpp` is for: a queue whose calls happen at once, in some order,
and answer with the items in the order these were put in. The class refines it
under any interleaving, and every call it can answer is answered. -/
namespace OsCourse.QueueRefinement
open TaskQueue Transition Simulation

variable {Thread T : Type}

/-! ## The abstract queue -/

/-- The items still queued and the answers given. -/
structure Fifo (Thread T : Type) where
  items : List T
  answers : List (Thread × T)

inductive Call (Thread T : Type) where
  | enqueue (item : T)
  | dequeue (caller : Thread)

/-- A call that happens at once. A `dequeue` has to wait for an item. -/
def Fifo.call (f : Fifo Thread T) : Call Thread T → Option (Fifo Thread T)
  | .enqueue item => some { f with items := f.items ++ [item] }
  | .dequeue caller =>
    match f.items with
    | [] => none
    | item :: rest => some ⟨rest, f.answers ++ [(caller, item)]⟩

def Call.put : Call Thread T → Option T
  | .enqueue item => some item
  | .dequeue _ => none

/-- The answers, and behind them what is queued, are the items put in. -/
theorem fifo_order {f g : Fifo Thread T} (ran : exec Fifo.call f calls = some g) :
    g.answers.map Prod.snd ++ g.items =
      f.answers.map Prod.snd ++ f.items ++ calls.filterMap Call.put := by
  induction calls generalizing f with
  | nil =>
    cases ran
    exact (List.append_nil _).symm
  | cons call rest ih =>
    obtain ⟨middle, called, onward⟩ := exec_cons_some.mp ran
    cases call with
    | enqueue item =>
      cases called
      have first : (Call.enqueue item :: rest : List (Call Thread T)).filterMap Call.put =
        item :: rest.filterMap Call.put := rfl
      rw [ih onward, first]
      simp only [List.append_assoc, List.singleton_append]
    | dequeue caller =>
      simp only [Fifo.call] at called
      split at called
      · cases called
      · rename_i item later queued
        cases called
        have first : (Call.dequeue caller :: rest : List (Call Thread T)).filterMap Call.put =
          rest.filterMap Call.put := rfl
        rw [ih onward, first, queued]
        simp only [List.map_append, List.map_cons, List.map_nil, List.append_assoc,
          List.singleton_append]

/-! ## The class refines it -/

/-- `isEmpty`, under the lock. -/
def isEmpty (s : Queue Thread T) : Bool := s.queue.isEmpty

def contents (s : Queue Thread T) : Fifo Thread T := ⟨s.queue, s.returned⟩

/-- Where a call takes effect: the push, and the test that finds an item. -/
def takesEffect (s : Queue Thread T) : Action Thread T → List (Call Thread T)
  | .push _ item => [.enqueue item]
  | .test caller =>
    match s.queue with
    | [] => []
    | _ :: _ => [.dequeue caller]
  | .notifyOne _ _ | .spurious _ => []

/-- The items the actions push. -/
def Action.item : Action Thread T → Option T
  | .push _ item => some item
  | .notifyOne _ _ | .test _ | .spurious _ => none

theorem effect_put (s : Queue Thread T) (a : Action Thread T) :
    (takesEffect s a).filterMap Call.put = (Action.item a).toList := by
  cases a with
  | push caller item => rfl
  | notifyOne caller sleeper => rfl
  | test caller =>
    unfold takesEffect
    cases s.queue <;> rfl
  | spurious sleeper => rfl

/-- The calls of `dequeue` a step begins. A woken thread tests again within
its call. -/
def begins (s : Queue Thread T) : Action Thread T → List Thread
  | .test caller => if s.phase caller = .idle then [caller] else []
  | .push _ _ | .notifyOne _ _ | .spurious _ => []

/-- A call of `dequeue` is under way. -/
def waits : Phase → Nat
  | .asleep | .woken => 1
  | .idle | .pushed => 0

/-- A test is made by a call that begins with it or is under way. -/
theorem begins_test {s : Queue Thread T} (tests : s.phase caller = .idle ∨ s.phase caller = .woken) :
    (begins s (.test caller)).length + waits (s.phase caller) = 1 := by
  rcases tests with before | before <;> simp [begins, before, waits]

section Refinement
variable [Fintype Thread] [DecidableEq Thread]

/-- What one step can do. -/
theorem step_cases {s : Queue Thread T} (stepped : step s a = some t) :
    (∃ caller item, a = .push caller item ∧ s.phase caller = .idle ∧
      t = { s.goto caller .pushed with queue := s.queue ++ [item] }) ∨
    (∃ caller sleeper, a = .notifyOne caller (some sleeper) ∧ s.phase caller = .pushed ∧
      s.phase sleeper = .asleep ∧ t = (s.goto caller .idle).goto sleeper .woken) ∨
    (∃ caller, a = .notifyOne caller none ∧ s.phase caller = .pushed ∧
      t = s.goto caller .idle) ∨
    (∃ caller item rest, a = .test caller ∧ (s.phase caller = .idle ∨ s.phase caller = .woken) ∧
      s.queue = item :: rest ∧ t = { s.goto caller .idle with
        queue := rest, returned := s.returned ++ [(caller, item)] }) ∨
    (∃ caller, a = .test caller ∧ (s.phase caller = .idle ∨ s.phase caller = .woken) ∧
      s.queue = [] ∧ t = s.goto caller .asleep) ∨
    (∃ sleeper, a = .spurious sleeper ∧ s.phase sleeper = .asleep ∧ t = s.goto sleeper .woken) := by
  cases a with
  | push caller item =>
    simp only [step, push] at stepped
    split at stepped
    · rename_i outside
      exact Or.inl ⟨caller, item, rfl, outside, (Option.some.inj stepped).symm⟩
    · cases stepped
  | notifyOne caller sleeper =>
    cases sleeper with
    | none =>
      simp only [step, notifyOne] at stepped
      split at stepped
      · rename_i alone
        exact Or.inr (Or.inr (Or.inl ⟨caller, rfl, alone.1, (Option.some.inj stepped).symm⟩))
      · cases stepped
    | some sleeper =>
      simp only [step, notifyOne, wake] at stepped
      split at stepped
      · rename_i pushed
        split at stepped
        · rename_i asleep
          have other : sleeper ≠ caller := by
            intro same
            simp [Queue.goto, same] at asleep
          simp only [Queue.goto, Function.update_of_ne other] at asleep
          exact Or.inr (Or.inl
            ⟨caller, sleeper, rfl, pushed, asleep, (Option.some.inj stepped).symm⟩)
        · cases stepped
      · cases stepped
  | test caller =>
    simp only [step, testPredicate] at stepped
    split at stepped
    · rename_i tests
      split at stepped
      · rename_i item rest queued
        exact Or.inr (Or.inr (Or.inr (Or.inl
          ⟨caller, item, rest, rfl, tests, queued, (Option.some.inj stepped).symm⟩)))
      · rename_i queued
        exact Or.inr (Or.inr (Or.inr (Or.inr (Or.inl
          ⟨caller, rfl, tests, queued, (Option.some.inj stepped).symm⟩))))
    · cases stepped
  | spurious sleeper =>
    simp only [step, wake] at stepped
    split at stepped
    · rename_i asleep
      exact Or.inr (Or.inr (Or.inr (Or.inr (Or.inr
        ⟨sleeper, rfl, asleep, (Option.some.inj stepped).symm⟩))))
    · cases stepped

theorem queue_refines : Refines step takesEffect Fifo.call
    (contents : Queue Thread T → Fifo Thread T) fun _ => True := by
  intro s a t _ stepped
  rcases step_cases stepped with ⟨caller, item, rfl, outside, rfl⟩ |
    ⟨caller, sleeper, rfl, pushed, asleep, rfl⟩ | ⟨caller, rfl, pushed, rfl⟩ |
    ⟨caller, item, rest, rfl, tests, queued, rfl⟩ | ⟨caller, rfl, tests, queued, rfl⟩ |
    ⟨sleeper, rfl, asleep, rfl⟩
  · rfl
  · rfl
  · rfl
  · simp only [takesEffect, contents, queued, exec_cons, Fifo.call, Option.bind_some, exec_nil]
  · simp only [takesEffect, contents, queued, exec_nil, Queue.goto]
  · rfl

theorem effects_put (ran : exec step s actions = some t) :
    (trace step takesEffect s actions).filterMap Call.put =
      actions.filterMap (Action.item : Action Thread T → Option T) := by
  induction actions generalizing s with
  | nil => rfl
  | cons a rest ih =>
    obtain ⟨middle, stepped, onward⟩ := exec_cons_some.mp ran
    have first : (a :: rest).filterMap Action.item =
        (Action.item a).toList ++ rest.filterMap Action.item := by cases a <;> rfl
    rw [trace_cons stepped, List.filterMap_append, effect_put, ih onward, first]

theorem calls_simulated {s : Queue Thread T} (ran : exec step emptyQueue actions = some s) :
    exec Fifo.call ⟨[], []⟩ (trace step takesEffect emptyQueue actions) = some (contents s) :=
  exec_trace queue_refines (fun _ _ _ _ _ => trivial) trivial ran

/-- What has come out and what is queued are the pushes in their order. -/
theorem items_in_order {s : Queue Thread T} (ran : exec step emptyQueue actions = some s) :
    s.returned.map Prod.snd ++ s.queue = actions.filterMap Action.item :=
  (fifo_order (calls_simulated ran)).trans (effects_put ran)

/-- Under any interleaving the calls of `Queue.hpp` answer as if each had
happened at once within its own duration: the items come out in the order of
their pushes, each once, and the rest is still queued. -/
theorem queue_linearizable (actions : List (Action Thread T)) (s : Queue Thread T)
    (ran : exec step emptyQueue actions = some s) :
    exec Fifo.call ⟨[], []⟩ (trace step takesEffect emptyQueue actions) = some (contents s) ∧
      s.returned.map Prod.snd ++ s.queue = actions.filterMap Action.item ∧
      (isEmpty s = true ↔ s.returned.length = (actions.filterMap Action.item).length) := by
  have order := items_in_order ran
  refine ⟨calls_simulated ran, order, ?_⟩
  have counted := congrArg List.length order
  rw [List.length_append, List.length_map] at counted
  rw [isEmpty, List.isEmpty_iff, ← List.length_eq_zero_iff]
  omega

end Refinement

/-- A consumer that fell asleep is woken by the first push and takes its item,
with the second still queued. -/
theorem queue_linearizable_woken : ∃ s : Queue Bool Nat,
    exec step emptyQueue [.test false, .push true 7, .notifyOne true (some false),
      .push true 8, .test false] = some s ∧
    s.returned.map Prod.snd ++ s.queue = [7, 8] ∧ s.returned = [(false, 7)] := by
  have ran : exec step (emptyQueue : Queue Bool Nat) [.test false, .push true 7,
      .notifyOne true (some false), .push true 8, .test false] = some _ := rfl
  exact ⟨_, ran, (queue_linearizable _ _ ran).2.1, rfl⟩

/-! ## Answering every call -/

/-- How many steps the thread brings about before it is outside again or
asleep: its own, and the test of the sleeper it wakes. -/
def toGo : Phase → Nat
  | .pushed => 2
  | .woken => 1
  | .idle | .asleep => 0

section Counting
variable [Fintype Thread]

/-- What the threads weigh together, each by the place where it stands. -/
def weigh (weight : Phase → Nat) (phase : Thread → Phase) : Nat := ∑ t, weight (phase t)

/-- What the items and the calls of `dequeue` so far amount to. -/
structure Counted (items calls : Nat) (s : Queue Thread T) : Prop where
  items : s.returned.length + s.queue.length = items
  calls : s.returned.length + weigh waits s.phase = calls
  attended : Attended s

/-- Then as many calls are answered as there are items and calls. -/
theorem settled_answers {s : Queue Thread T} (counted : Counted items calls s)
    (settled : ∀ t, s.phase t = .idle ∨ s.phase t = .asleep) :
    s.returned.length = min items calls := by
  have acting : aboutToAct s = 0 := by
    refine Nat.eq_zero_of_not_pos fun someone => ?_
    unfold aboutToAct at someone
    rcases Nat.add_pos_iff_pos_or_pos.mp someone with pushers | woken
    · obtain ⟨t, place⟩ := population_pos.mp pushers
      rcases settled t with other | other <;> rw [place] at other <;> cases other
    · obtain ⟨t, place⟩ := population_pos.mp woken
      rcases settled t with other | other <;> rw [place] at other <;> cases other
  have items := counted.items
  have calls := counted.calls
  by_cases sleeps : ∃ t, s.phase t = .asleep
  · have nothing := counted.attended.counted sleeps
    omega
  · have nobody : weigh waits s.phase = 0 := by
      refine Finset.sum_eq_zero fun t _ => ?_
      rcases settled t with place | place
      · rw [place]
        rfl
      · exact absurd ⟨t, place⟩ sleeps
    omega

end Counting

section Progress
variable [Fintype Thread] [DecidableEq Thread]

/-- The step belongs to a call under way. A spurious wake-up belongs to none. -/
def underWay (s : Queue Thread T) : Action Thread T → Bool
  | .notifyOne _ _ => true
  | .test caller => s.phase caller = .woken
  | .push _ _ | .spurious _ => false

/-- The calls under way go on, and no other begins. -/
def onward (s : Queue Thread T) (a : Action Thread T) : Option (Queue Thread T) :=
  if underWay s a then step s a else none

theorem weigh_update (weight : Phase → Nat) (phase : Thread → Phase) (mover : Thread)
    (next : Phase) : weigh weight (Function.update phase mover next) + weight (phase mover) =
      weigh weight phase + weight next := by
  have others : ∑ t ∈ Finset.univ.erase mover, weight (Function.update phase mover next t) =
      ∑ t ∈ Finset.univ.erase mover, weight (phase t) :=
    Finset.sum_congr rfl fun t other => by
      rw [Function.update_of_ne (Finset.ne_of_mem_erase other)]
  unfold weigh
  rw [← Finset.add_sum_erase Finset.univ _ (Finset.mem_univ mover),
    ← Finset.add_sum_erase Finset.univ (fun t => weight (phase t)) (Finset.mem_univ mover),
    others, Function.update_self]
  omega

/-- `notify_one` moves its caller and the sleeper it wakes. -/
theorem weigh_notify (weight : Phase → Nat) {phase : Thread → Phase}
    (pushed : phase caller = .pushed) (asleep : phase sleeper = .asleep) :
    weigh weight (Function.update (Function.update phase caller .idle) sleeper .woken) +
        weight .pushed + weight .asleep =
      weigh weight phase + weight .idle + weight .woken := by
  have other : sleeper ≠ caller := by
    rintro rfl
    rw [asleep] at pushed
    cases pushed
  have left := weigh_update weight phase caller .idle
  have arrived := weigh_update weight (Function.update phase caller .idle) sleeper .woken
  rw [pushed] at left
  rw [Function.update_of_ne other, asleep] at arrived
  omega

/-- The calls of `dequeue` are those answered and those under way. -/
theorem step_begins {s : Queue Thread T} (stepped : step s a = some t) :
    t.returned.length + weigh waits t.phase =
      s.returned.length + weigh waits s.phase + (begins s a).length := by
  rcases step_cases stepped with ⟨caller, item, rfl, outside, rfl⟩ |
    ⟨caller, sleeper, rfl, pushed, asleep, rfl⟩ | ⟨caller, rfl, pushed, rfl⟩ |
    ⟨caller, item, rest, rfl, tests, queued, rfl⟩ | ⟨caller, rfl, tests, queued, rfl⟩ |
    ⟨sleeper, rfl, asleep, rfl⟩
  · have moved := weigh_update waits s.phase caller .pushed
    rw [outside] at moved
    exact congrArg (s.returned.length + ·) moved
  · exact congrArg (s.returned.length + ·) (Nat.add_right_cancel (weigh_notify waits pushed asleep))
  · have moved := weigh_update waits s.phase caller .idle
    rw [pushed] at moved
    exact congrArg (s.returned.length + ·) moved
  · have moved : weigh waits (Function.update s.phase caller .idle) + waits (s.phase caller) =
      weigh waits s.phase + 0 := weigh_update waits s.phase caller .idle
    have one := begins_test tests
    show (s.returned ++ [(caller, item)]).length +
      weigh waits (Function.update s.phase caller .idle) = _
    rw [List.length_append, List.length_singleton]
    omega
  · have moved : weigh waits (Function.update s.phase caller .asleep) + waits (s.phase caller) =
      weigh waits s.phase + 1 := weigh_update waits s.phase caller .asleep
    have one := begins_test tests
    show s.returned.length + weigh waits (Function.update s.phase caller .asleep) = _
    omega
  · have moved := weigh_update waits s.phase sleeper .woken
    rw [asleep] at moved
    exact congrArg (s.returned.length + ·) (Nat.add_right_cancel moved)

theorem onward_step {s : Queue Thread T} (stepped : onward s a = some t) :
    step s a = some t ∧ underWay s a = true := by
  unfold onward at stepped
  split at stepped
  · rename_i ends
    exact ⟨stepped, ends⟩
  · cases stepped

/-- No call begins, and one step less is left to do. -/
theorem onward_to_go {s : Queue Thread T} (stepped : onward s a = some t) :
    begins s a = [] ∧ Action.item a = none ∧ weigh toGo t.phase < weigh toGo s.phase := by
  obtain ⟨plain, ends⟩ := onward_step stepped
  rcases step_cases plain with ⟨caller, item, rfl, outside, rfl⟩ |
    ⟨caller, sleeper, rfl, pushed, asleep, rfl⟩ | ⟨caller, rfl, pushed, rfl⟩ |
    ⟨caller, item, rest, rfl, tests, queued, rfl⟩ | ⟨caller, rfl, tests, queued, rfl⟩ |
    ⟨sleeper, rfl, asleep, rfl⟩
  · cases ends
  · have moved := weigh_notify toGo pushed asleep
    exact ⟨rfl, rfl, Nat.lt_of_succ_lt_succ (Nat.lt_of_succ_le (Nat.le_of_eq moved))⟩
  · have moved := weigh_update toGo s.phase caller .idle
    rw [pushed] at moved
    exact ⟨rfl, rfl, Nat.lt_of_succ_lt (Nat.lt_of_succ_le (Nat.le_of_eq moved))⟩
  · have woken : s.phase caller = .woken := of_decide_eq_true ends
    have moved := weigh_update toGo s.phase caller .idle
    rw [woken] at moved
    refine ⟨?_, rfl, Nat.lt_of_succ_le (Nat.le_of_eq moved)⟩
    simp [begins, woken]
  · have woken : s.phase caller = .woken := of_decide_eq_true ends
    have moved := weigh_update toGo s.phase caller .asleep
    rw [woken] at moved
    refine ⟨?_, rfl, Nat.lt_of_succ_le (Nat.le_of_eq moved)⟩
    simp [begins, woken]
  · cases ends

/-- Where the calls under way can take no step, every thread is outside or asleep. -/
theorem stuck_settled {s : Queue Thread T} (stuck : Stuck onward s) (thread : Thread) :
    s.phase thread = .idle ∨ s.phase thread = .asleep := by
  cases place : s.phase thread with
  | idle => exact Or.inl rfl
  | asleep => exact Or.inr rfl
  | pushed =>
    by_cases sleeps : ∃ sleeper, s.phase sleeper = .asleep
    · obtain ⟨sleeper, asleep⟩ := sleeps
      have other : sleeper ≠ thread := by
        rintro rfl
        rw [asleep] at place
        cases place
      have enabled := stuck (.notifyOne thread (some sleeper))
      simp [onward, underWay, step, notifyOne, wake, place, Queue.goto,
        Function.update_of_ne other, asleep] at enabled
    · have enabled := stuck (.notifyOne thread none)
      simp [onward, underWay, step, notifyOne, place, not_exists.mp sleeps] at enabled
  | woken =>
    have enabled := stuck (.test thread)
    simp only [onward, underWay, place, decide_true, if_true, step, testPredicate, or_true] at enabled
    split at enabled <;> cases enabled

theorem step_items {s : Queue Thread T} (stepped : step s a = some t) :
    t.returned.length + t.queue.length =
      s.returned.length + s.queue.length + (Action.item a).toList.length := by
  have order := fifo_order (queue_refines s a t trivial stepped)
  have counted := congrArg List.length order
  rw [effect_put] at counted
  simpa only [contents, List.length_append, List.length_map] using counted

theorem counted_reached {s : Queue Thread T} (ran : exec step emptyQueue actions = some s) :
    Counted (actions.filterMap Action.item).length (trace step begins emptyQueue actions).length s := by
  have counted := congrArg List.length (items_in_order ran)
  rw [List.length_append, List.length_map] at counted
  have calls := trace_length (fun _ _ _ => step_begins) ran
  have nobody : weigh waits (emptyQueue : Queue Thread T).phase = 0 :=
    Finset.sum_eq_zero fun _ _ => rfl
  rw [nobody] at calls
  refine ⟨counted, calls.trans (Nat.zero_add _), ?_⟩
  exact exec_invariant step_attended (attended_of_counted fun _ => Nat.zero_le _) ran

theorem onward_counted (s : Queue Thread T) (a : Action Thread T) (t : Queue Thread T)
    (counted : Counted items calls s) (stepped : onward s a = some t) :
    Counted items calls t := by
  obtain ⟨plain, _⟩ := onward_step stepped
  obtain ⟨none_begun, none_put, _⟩ := onward_to_go stepped
  refine ⟨?_, ?_, step_attended s a t counted.attended plain⟩
  · have same := step_items plain
    rw [none_put] at same
    exact same.trans counted.items
  · have same := step_begins plain
    rw [none_begun] at same
    exact same.trans counted.calls

/-- From whatever state the interleaving of any calls has led to: when no more
calls begin, those under way come to rest in boundedly many steps, whoever is
woken and in whatever order they go on. Then as many calls of `dequeue` have
been answered as there were calls of it and items for them. -/
theorem calls_answered (actions more : List (Action Thread T)) (s t : Queue Thread T)
    (ran : exec step emptyQueue actions = some s) (continued : exec onward s more = some t) :
    more.length ≤ weigh toGo s.phase ∧
      (Stuck onward t → t.returned.length = min (actions.filterMap Action.item).length
        (trace step begins emptyQueue actions).length) := by
  have start := counted_reached ran
  constructor
  · have bounded := run_length onward_counted
      (fun _ _ _ _ stepped => (onward_to_go stepped).2.2) start continued
    exact Nat.le_of_add_right_le bounded
  · intro stuck
    exact settled_answers (exec_invariant onward_counted start continued) (stuck_settled stuck)

end Progress

/-- Two consumers fall asleep and a producer pushes one item. -/
def oneItem : Queue (Fin 3) Nat :=
  (exec step emptyQueue [.test 0, .test 1, .push 2 5]).getD emptyQueue

/-- The notification reaches the second consumer, which takes the item. -/
def oneAnswered : Queue (Fin 3) Nat :=
  (exec onward oneItem [.notifyOne 2 (some 1), .test 1]).getD emptyQueue

/-- The other consumer stays asleep: two calls and one item make one answer. -/
theorem calls_answered_one : oneAnswered.phase 0 = .asleep ∧
    2 ≤ weigh toGo oneItem.phase ∧ oneAnswered.returned.length = min 1 2 := by
  have ran : exec step emptyQueue [.test 0, .test 1, .push 2 5] = some oneItem := rfl
  have continued : exec onward oneItem [.notifyOne 2 (some 1), .test 1] = some oneAnswered := rfl
  have settled : Stuck onward oneAnswered := by
    have places : ∀ t, oneAnswered.phase t ≠ .pushed ∧ oneAnswered.phase t ≠ .woken := by decide
    intro a
    cases a with
    | push caller item => rfl
    | spurious sleeper => rfl
    | test caller =>
      simp only [onward, underWay, (places caller).2, decide_false, Bool.false_eq_true, if_false]
    | notifyOne caller sleeper =>
      cases sleeper <;> simp [onward, underWay, step, notifyOne, (places caller).1]
  obtain ⟨bounded, answered⟩ := calls_answered _ _ _ _ ran continued
  exact ⟨rfl, bounded, answered settled⟩

end OsCourse.QueueRefinement

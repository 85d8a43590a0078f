import OsCourse.Transition

/-! A system that refines another step by step, and systems that come to an
end. The events of a run are what an observer of the upper system sees of it.
Nothing below names a program. -/
namespace OsCourse.Simulation
open Transition

variable {State Action Upper Event : Type}

/-- The events of a run. Actions behind a stuck one emit nothing. -/
def trace (step : State → Action → Option State) (emits : State → Action → List Event) :
    State → List Action → List Event
  | _, [] => []
  | s, a :: rest =>
    match step s a with
    | none => []
    | some t => emits s a ++ trace step emits t rest

section Refinement
variable (step : State → Action → Option State) (emits : State → Action → List Event)

/-- The events a step emits take the upper system from the abstraction of the
state before it to that of the state behind it. A step without events leaves
the abstraction as it is. -/
def Refines (upper : Upper → Event → Option Upper) (abstraction : State → Upper)
    (inv : State → Prop) : Prop :=
  ∀ s a t, inv s → step s a = some t →
    exec upper (abstraction s) (emits s a) = some (abstraction t)

end Refinement

variable {step : State → Action → Option State} {emits : State → Action → List Event}
  {upper : Upper → Event → Option Upper} {abstraction : State → Upper} {inv : State → Prop}

theorem trace_cons (stepped : step s a = some t) :
    trace step emits s (a :: rest) = emits s a ++ trace step emits t rest := by
  simp only [trace, stepped]

/-- The simulation rule: the events of a run are a run of the upper system. -/
theorem exec_trace (refines : Refines step emits upper abstraction inv)
    (kept : ∀ s a t, inv s → step s a = some t → inv t) (start : inv s)
    (ran : exec step s actions = some t) :
    exec upper (abstraction s) (trace step emits s actions) = some (abstraction t) := by
  induction actions generalizing s with
  | nil =>
    cases ran
    rfl
  | cons a rest ih =>
    obtain ⟨middle, stepped, onward⟩ := exec_cons_some.mp ran
    rw [trace_cons stepped, exec_append, refines s a middle start stepped]
    exact ih (kept s a middle start stepped) onward

/-- A quantity that grows by one with each event counts the events. -/
theorem trace_length {count : State → Nat}
    (counts : ∀ s a t, step s a = some t → count t = count s + (emits s a).length)
    (ran : exec step s actions = some t) :
    count t = count s + (trace step emits s actions).length := by
  induction actions generalizing s with
  | nil =>
    cases ran
    rfl
  | cons a rest ih =>
    obtain ⟨middle, stepped, onward⟩ := exec_cons_some.mp ran
    rw [trace_cons stepped, List.length_append, ← Nat.add_assoc, ← counts s a middle stepped]
    exact ih onward

/-! ### Coming to an end -/

/-- No action is enabled. -/
def Stuck (step : State → Action → Option State) (s : State) : Prop := ∀ a, step s a = none

section Measure
variable {measure : State → Nat}

/-- Where every step uses up some of a measure, the measure bounds the run. -/
theorem run_length (kept : ∀ s a t, inv s → step s a = some t → inv t)
    (decreases : ∀ s a t, inv s → step s a = some t → measure t < measure s)
    (start : inv s) (ran : exec step s actions = some t) :
    actions.length + measure t ≤ measure s := by
  induction actions generalizing s with
  | nil =>
    cases ran
    exact Nat.le_of_eq (Nat.zero_add _)
  | cons a rest ih =>
    obtain ⟨middle, stepped, onward⟩ := exec_cons_some.mp ran
    have less := decreases s a middle start stepped
    have later := ih (kept s a middle start stepped) onward
    rw [List.length_cons, Nat.succ_add]
    exact Nat.lt_of_le_of_lt later less

/-- Such a system can always run to where nothing is enabled. -/
theorem stuck_reachable (kept : ∀ s a t, inv s → step s a = some t → inv t)
    (decreases : ∀ s a t, inv s → step s a = some t → measure t < measure s)
    (start : inv s) : ∃ t, Reachable step s t ∧ Stuck step t := by
  induction left : measure s using Nat.strong_induction_on generalizing s with
  | _ n ih =>
    by_cases stuck : Stuck step s
    · exact ⟨s, reachable_refl s, stuck⟩
    · obtain ⟨a, enabled⟩ := not_forall.mp stuck
      obtain ⟨middle, stepped⟩ := Option.ne_none_iff_exists'.mp enabled
      obtain ⟨t, onward, ended⟩ := ih (measure middle)
        (left ▸ decreases s a middle start stepped) (kept s a middle start stepped) rfl
      exact ⟨t, reachable_cons stepped onward, ended⟩

end Measure
end OsCourse.Simulation

import Mathlib.Data.List.Infix

/-! Runs of a step function under explicit actions. A program is given by
`step : State → Action → Option State`, where `none` means that the action is
not enabled. Nothing below names a program: the modules that import this one
instantiate `exec` and use its rules by name. -/
namespace OsCourse.Transition

variable {State Action Ghost : Type}

section Runs
variable (step : State → Action → Option State)

/-- Takes the actions in order and is stuck at the first one not enabled. -/
def exec : State → List Action → Option State
  | s, [] => some s
  | s, a :: rest => (step s a).bind fun t => exec t rest

/-- Every step the run really takes meets the condition in the state before
it. Actions behind a stuck one are not part of the run. -/
def Along (cond : State → Action → Prop) : State → List Action → Prop
  | _, [] => True
  | s, a :: rest => ∀ t, step s a = some t → cond s a ∧ Along cond t rest

/-- The property holds of every state the run passes through, ends included. -/
def Throughout (good : State → Prop) : State → List Action → Prop
  | s, [] => good s
  | s, a :: rest => good s ∧ ∀ t, step s a = some t → Throughout good t rest

/-- A state some finite run from `start` ends in. -/
def Reachable (start s : State) : Prop := ∃ actions, exec step start actions = some s

end Runs

variable {step : State → Action → Option State} {cond : State → Action → Prop}
  {good inv : State → Prop}

@[simp] theorem exec_nil (s : State) : exec step s [] = some s := rfl

theorem exec_cons (s : State) (a : Action) (rest : List Action) :
    exec step s (a :: rest) = (step s a).bind fun t => exec step t rest := rfl

theorem exec_cons_some : exec step s (a :: rest) = some t ↔
    ∃ middle, step s a = some middle ∧ exec step middle rest = some t := by
  rw [exec_cons, Option.bind_eq_some_iff]

theorem exec_append (first second : List Action) :
    exec step s (first ++ second) = (exec step s first).bind fun t => exec step t second := by
  induction first generalizing s with
  | nil => rfl
  | cons a rest ih =>
    rw [List.cons_append, exec_cons, exec_cons, Option.bind_assoc]
    exact congrArg _ (funext fun t => ih)

/-- A run in the middle of which its next action is looked up by its number. -/
theorem exec_take_succ (whole : exec step s actions = some final)
    (ran : exec step s (actions.take n) = some t) (next : actions[n]? = some a) :
    ∃ u, step t a = some u ∧ exec step s (actions.take (n + 1)) = some u := by
  have onward : exec step t (actions.drop n) = some final := by
    rwa [← List.take_append_drop n actions, exec_append, ran] at whole
  obtain ⟨short, rfl⟩ := List.getElem?_eq_some_iff.mp next
  rw [List.drop_eq_getElem_cons short] at onward
  obtain ⟨u, stepped, -⟩ := exec_cons_some.mp onward
  refine ⟨u, stepped, ?_⟩
  rw [List.take_add_one, next, Option.toList_some, exec_append, ran]
  exact exec_cons_some.mpr ⟨u, stepped, rfl⟩

theorem reachable_refl (s : State) : Reachable step s s := ⟨[], rfl⟩

theorem reachable_cons (stepped : step s a = some middle) (onward : Reachable step middle t) :
    Reachable step s t := by
  obtain ⟨actions, ran⟩ := onward
  exact ⟨a :: actions, exec_cons_some.mpr ⟨middle, stepped, ran⟩⟩

theorem reachable_trans (first : Reachable step s middle) (onward : Reachable step middle t) :
    Reachable step s t := by
  obtain ⟨actions, ran⟩ := first
  induction actions generalizing s with
  | nil =>
    cases ran
    exact onward
  | cons a rest ih =>
    obtain ⟨next, stepped, later⟩ := exec_cons_some.mp ran
    exact reachable_cons stepped (ih later)

theorem throughout_start (holds : Throughout step good s actions) : good s := by
  cases actions with
  | nil => exact holds
  | cons a rest => exact holds.1

/-- `Throughout` speaks of exactly the states reached by an initial segment
of the actions. -/
theorem throughout_iff : Throughout step good s actions ↔
    ∀ first, first <+: actions → ∀ t, exec step s first = some t → good t := by
  induction actions generalizing s with
  | nil =>
    constructor
    · intro holds first initial t ran
      rw [List.prefix_nil.mp initial, exec_nil] at ran
      exact Option.some.inj ran ▸ holds
    · intro every
      exact every [] List.prefix_rfl s rfl
  | cons a rest ih =>
    constructor
    · rintro ⟨here, later⟩ first initial t ran
      cases first with
      | nil => exact Option.some.inj ran ▸ here
      | cons b tail =>
        obtain ⟨rfl, short⟩ := List.cons_prefix_cons.mp initial
        obtain ⟨middle, stepped, onward⟩ := exec_cons_some.mp ran
        exact ih.mp (later middle stepped) tail short t onward
    · intro every
      refine ⟨every [] List.nil_prefix s rfl, fun t stepped => ih.mpr ?_⟩
      intro first initial u ran
      exact every (a :: first) (List.cons_prefix_cons.mpr ⟨rfl, initial⟩) u
        (exec_cons_some.mpr ⟨t, stepped, ran⟩)

theorem throughout_imp (weaker : ∀ t, good t → inv t)
    (holds : Throughout step good s actions) : Throughout step inv s actions :=
  throughout_iff.mpr fun first initial t ran =>
    weaker t (throughout_iff.mp holds first initial t ran)

/-- The condition holds of the step taken behind any initial segment. -/
theorem along_at (holds : Along step cond s (first ++ a :: rest))
    (ran : exec step s first = some t) (stepped : step t a = some u) : cond t a := by
  induction first generalizing s with
  | nil =>
    cases ran
    exact (holds u stepped).1
  | cons b tail ih =>
    obtain ⟨middle, taken, onward⟩ := exec_cons_some.mp ran
    exact ih (holds middle taken).2 onward

/-- A condition on the steps is checked by running them. -/
instance decidableAlong [∀ s a, Decidable (cond s a)] :
    ∀ s actions, Decidable (Along step cond s actions)
  | _, [] => isTrue trivial
  | s, a :: rest =>
    match stepped : step s a with
    | none => isTrue fun t taken => by simp [stepped] at taken
    | some t =>
      have := decidableAlong t rest
      decidable_of_iff (cond s a ∧ Along step cond t rest)
        ⟨fun holds u taken => Option.some.inj (stepped.symm.trans taken) ▸ holds,
          fun holds => holds t stepped⟩

/-- The invariant rule under a condition on the steps taken. -/
theorem throughout_of_along
    (kept : ∀ s a t, inv s → cond s a → step s a = some t → inv t)
    (start : inv s) (holds : Along step cond s actions) : Throughout step inv s actions := by
  induction actions generalizing s with
  | nil => exact start
  | cons a rest ih =>
    refine ⟨start, fun t stepped => ?_⟩
    obtain ⟨here, later⟩ := holds t stepped
    exact ih (kept s a t start here stepped) later

/-- The plain invariant rule: kept by every step, so it holds after every run. -/
theorem exec_invariant (kept : ∀ s a t, inv s → step s a = some t → inv t)
    (start : inv s) (ran : exec step s actions = some t) : inv t := by
  induction actions generalizing s with
  | nil => exact Option.some.inj ran ▸ start
  | cons a rest ih =>
    obtain ⟨middle, stepped, onward⟩ := exec_cons_some.mp ran
    exact ih (kept s a middle start stepped) onward

/-- What follows from such an invariant holds in every state of every run. -/
theorem throughout_of_invariant (kept : ∀ s a t, inv s → step s a = some t → inv t)
    (weaker : ∀ t, inv t → good t) (start : inv s) (actions : List Action) :
    Throughout step good s actions :=
  throughout_iff.mpr fun _ _ t ran => weaker t (exec_invariant kept start ran)

/-- An invariant of all steps may be assumed of, or dropped from, a property
of whole runs. -/
theorem throughout_and_invariant (kept : ∀ s a t, inv s → step s a = some t → inv t)
    (start : inv s) :
    Throughout step (fun t => inv t ∧ good t) s actions ↔ Throughout step good s actions := by
  constructor
  · exact throughout_imp fun _ both => both.2
  · intro holds
    refine throughout_iff.mpr fun first initial t ran => ⟨?_, ?_⟩
    · exact exec_invariant kept start ran
    · exact throughout_iff.mp holds first initial t ran

/-- A condition that is exact for one step is exact for whole runs, for actions
of a given kind from states with an invariant. -/
theorem throughout_iff_along_of {allowed : Action → Prop}
    (kept : ∀ s a t, allowed a → inv s → step s a = some t → inv t)
    (exact_step : ∀ s a t, allowed a → inv s → good s → step s a = some t → (good t ↔ cond s a))
    (each : ∀ a ∈ actions, allowed a) (holds : inv s) (start : good s) :
    Throughout step good s actions ↔ Along step cond s actions := by
  induction actions generalizing s with
  | nil => exact ⟨fun _ => trivial, fun _ => start⟩
  | cons a rest ih =>
    have allowed_here := each a List.mem_cons_self
    have onward : ∀ t, step s a = some t → good t →
        (Throughout step good t rest ↔ Along step cond t rest) := fun t stepped =>
      ih (fun b later => each b (List.mem_cons_of_mem a later))
        (kept s a t allowed_here holds stepped)
    constructor
    · rintro ⟨_, later⟩ t stepped
      have next := throughout_start (later t stepped)
      exact ⟨(exact_step s a t allowed_here holds start stepped).mp next,
        (onward t stepped next).mp (later t stepped)⟩
    · intro along
      refine ⟨start, fun t stepped => ?_⟩
      obtain ⟨here, later⟩ := along t stepped
      have next := (exact_step s a t allowed_here holds start stepped).mpr here
      exact (onward t stepped next).mpr later

/-- For all actions and states: the property survives a run if and only if each
step taken meets the condition. -/
theorem throughout_iff_along
    (exact_step : ∀ s a t, good s → step s a = some t → (good t ↔ cond s a))
    (start : good s) : Throughout step good s actions ↔ Along step cond s actions :=
  throughout_iff_along_of (fun _ _ _ (_ : True) (_ : True) _ => (trivial : True))
    (fun s a t _ _ => exact_step s a t) (fun _ _ => trivial) trivial start

/-- What no step can regain held all along if it holds at the end. -/
theorem throughout_of_last (kept : ∀ s a t, inv s → step s a = some t → inv t)
    (regained : ∀ s a t, inv s → step s a = some t → good t → good s)
    (start : inv s) (ran : exec step s actions = some t) (last : good t) :
    Throughout step good s actions := by
  induction actions generalizing s with
  | nil => exact Option.some.inj ran ▸ last
  | cons a rest ih =>
    obtain ⟨middle, stepped, onward⟩ := exec_cons_some.mp ran
    have later := ih (kept s a middle start stepped) onward
    refine ⟨regained s a middle start stepped (throughout_start later), fun u again => ?_⟩
    rw [stepped] at again
    exact Option.some.inj again ▸ later

/-! ### History variables

A ghost value recorded beside the state observes the run and does not steer
it, so runs with and without it correspond. -/

/-- The step that also records its action in the ghost value. -/
def recording (step : State → Action → Option State) (record : Ghost → State → Action → Ghost)
    (s : State × Ghost) (a : Action) : Option (State × Ghost) :=
  (step s.1 a).map fun t => (t, record s.2 s.1 a)

theorem recording_some {record : Ghost → State → Action → Ghost} :
    recording step record s a = some t ↔
      step s.1 a = some t.1 ∧ t.2 = record s.2 s.1 a := by
  rw [recording, Option.map_eq_some_iff]
  constructor
  · rintro ⟨u, stepped, rfl⟩
    exact ⟨stepped, rfl⟩
  · rintro ⟨stepped, recorded⟩
    exact ⟨t.1, stepped, Prod.ext rfl recorded.symm⟩

/-- Recording changes no run: the states passed through are the same. -/
theorem throughout_recording (record : Ghost → State → Action → Ghost) (ghost : Ghost) :
    Throughout (recording step record) (fun s => good s.1) (s, ghost) actions ↔
      Throughout step good s actions := by
  induction actions generalizing s ghost with
  | nil => exact Iff.rfl
  | cons a rest ih =>
    refine and_congr Iff.rfl ⟨fun later t stepped => ?_, fun later t stepped => ?_⟩
    · exact (ih (record ghost s a)).mp
        (later (t, record ghost s a) (recording_some.mpr ⟨stepped, rfl⟩))
    · obtain ⟨plain, recorded⟩ := recording_some.mp stepped
      have := (ih (record ghost s a)).mpr (later t.1 plain)
      rwa [← recorded] at this

theorem along_recording (record : Ghost → State → Action → Ghost) (ghost : Ghost) :
    Along (recording step record) (fun s a => cond s.1 a) (s, ghost) actions ↔
      Along step cond s actions := by
  induction actions generalizing s ghost with
  | nil => exact Iff.rfl
  | cons a rest ih =>
    constructor
    · intro holds t stepped
      obtain ⟨here, later⟩ := holds (t, record ghost s a) (recording_some.mpr ⟨stepped, rfl⟩)
      exact ⟨here, (ih (record ghost s a)).mp later⟩
    · intro holds t stepped
      obtain ⟨plain, recorded⟩ := recording_some.mp stepped
      obtain ⟨here, later⟩ := holds t.1 plain
      have next := (ih (record ghost s a)).mpr later
      rw [← recorded] at next
      exact ⟨here, next⟩

end OsCourse.Transition

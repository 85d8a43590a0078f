import Mathlib.Data.List.Basic

/-! Programs over a state that may end early, as a process does in `exit`, and
rules for what they leave behind: one condition for a program that returns, one
for a program that has halted. Nothing below names a program. -/
namespace OsCourse.Halting

variable {Halt State α β : Type}

/-- From a state with `pre` the program returns with `post`, or halts with `halt`. -/
def Leaves (pre : State → Prop) (program : ExceptT Halt (StateM State) α)
    (post : α → State → Prop) (halt : State → Prop) : Prop :=
  ∀ s, pre s → ∀ result t, program s = (result, t) →
    match result with
    | .ok a => post a t
    | .error _ => halt t

variable {pre : State → Prop} {post : β → State → Prop} {halt : State → Prop}

theorem leaves_pure (here : ∀ s, pre s → post b s) :
    Leaves pre (pure b : ExceptT Halt (StateM State) β) post halt := by
  rintro s holds result t ran
  cases ran
  exact here s holds

theorem leaves_throw (here : ∀ s, pre s → halt s) :
    Leaves pre (throw h : ExceptT Halt (StateM State) β) post halt := by
  rintro s holds result t ran
  cases ran
  exact here s holds

theorem bind_run (program : ExceptT Halt (StateM State) α)
    (next : α → ExceptT Halt (StateM State) β) (s : State) :
    (program >>= next) s = match program s with
      | (.ok a, t) => next a t
      | (.error h, t) => (.error h, t) := by
  change (match program s with | (a, t) => ExceptT.bindCont next a t) = _
  rcases program s with ⟨_ | _, t⟩ <;> rfl

theorem leaves_bind {program : ExceptT Halt (StateM State) α}
    {next : α → ExceptT Halt (StateM State) β} {middle : α → State → Prop}
    (first : Leaves pre program middle halt) (rest : ∀ a, Leaves (middle a) (next a) post halt) :
    Leaves pre (program >>= next) post halt := by
  rintro s holds result u ran
  rw [bind_run] at ran
  rcases returned : program s with ⟨outcome, t⟩
  rw [returned] at ran
  have between := first s holds outcome t returned
  cases outcome with
  | ok a => exact rest a t between result u ran
  | error h =>
    cases ran
    exact between

/-- The first program is run for what it does only. -/
theorem leaves_then {program : ExceptT Halt (StateM State) α}
    {next : ExceptT Halt (StateM State) β} {middle : State → Prop}
    (first : Leaves pre program (fun _ => middle) halt) (rest : Leaves middle next post halt) :
    Leaves pre (program >>= fun _ => next) post halt := leaves_bind first fun _ => rest

/-- A program that reads the state goes on under what it has read. -/
theorem leaves_get {next : State → ExceptT Halt (StateM State) β}
    (rest : ∀ read, Leaves (fun s => s = read ∧ pre s) (next read) post halt) :
    Leaves pre (get >>= next) post halt := by
  rintro s holds result t ran
  exact rest s s ⟨rfl, holds⟩ result t ran

theorem leaves_weaken {program : ExceptT Halt (StateM State) β} {stronger : State → Prop}
    {weaker : β → State → Prop} (leaves : Leaves pre program post halt)
    (before : ∀ s, stronger s → pre s) (after : ∀ b s, post b s → weaker b s) :
    Leaves stronger program weaker halt := by
  rintro s holds result t ran
  have left := leaves s (before s holds) result t ran
  cases result with
  | ok b => exact after b t left
  | error h => exact left

end OsCourse.Halting

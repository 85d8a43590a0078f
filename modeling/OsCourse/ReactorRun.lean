import Mathlib.Data.Finset.Lattice.Lemmas
import OsCourse.DispatchPass

/-! `startReactor` as a whole: pass after pass, with any handlers, until one of
them asks it to stop or `select` fails. -/
namespace OsCourse.ReactorRun
open ReactorLoop DispatchPass

variable {Handler World : Type}

/-- How far the `while` loop has come with the results of `select` it was given:
it waits for the next one, has ended, or is in `exit(1)`. -/
inductive Ending where
  | waiting
  | returned
  | exited
  deriving DecidableEq

structure Run (Handler World : Type) where
  reactor : Reactor Handler
  world : World
  passes : List (Pass Handler World)
  ending : Ending

/-- The `while` loop. Each `select` fails or finds these descriptors readable,
and then leaves the watched ones among them. -/
def loop (body : Handler → Nat → World → List (Request Handler) × World) :
    List (Option (Finset Nat)) → Reactor Handler → World → Option (Run Handler World)
  | [], r, world => some ⟨r, world, [], if r.running then .waiting else .returned⟩
  | result :: later, r, world =>
    if r.running then
      match result with
      | none => some ⟨r, world, [], .exited⟩
      | some readable =>
        (scan body (MAX_FDS + 1) (r.readFds ∩ readable) 0 r world).bind fun pass =>
          (loop body later pass.reactor pass.world).map fun run =>
            { run with passes := pass :: run.passes }
    else some ⟨r, world, [], .returned⟩

/-- `startReactor`, after the given requests to a new reactor. -/
def startReactor (body : Handler → Nat → World → List (Request Handler) × World)
    (requests : List (Request Handler)) (results : List (Option (Finset Nat))) (world : World) :
    Option (Run Handler World) :=
  loop body results (started requests) world

/-- The test of the loop in `waitForReactor`, behind which the reactor is freed. -/
def waits (r : Reactor Handler) : Bool := r.running

/-! ## The property -/

/-- A handler has asked the reactor to stop. -/
def Stops (events : List (Event Handler)) : Prop := .requested .stopReactor ∈ events

/-- The descriptors that are readable and have a handler by then. -/
def readyNow (history : List (Event Handler)) (readable : Finset Nat) : Finset Nat :=
  readable.filter fun fd => (registered history fd).isSome

section Property
variable (body : Handler → Nat → World → List (Request Handler) × World)

/-- Each pass serves what is ready by then, with the handlers registered by then
and in the world the pass before it has left. -/
def Served (history : List (Event Handler)) (world : World) :
    List (Option (Finset Nat)) → List (Pass Handler World) → Prop
  | _, [] => True
  | some readable :: results, pass :: later =>
    Dispatches body history (readyNow history readable) world pass ∧
      Served (history ++ pass.events) pass.world results later
  | _, _ => False

/-- The passes of a run serve what is ready, the last one may be told to stop
and no other, and that is how the loop ends, unless `select` fails. -/
structure Correct (history : List (Event Handler)) (world : World)
    (results : List (Option (Finset Nat))) (run : Run Handler World) : Prop where
  served : Served body history world results run.passes
  earlier : ∀ pass ∈ run.passes.dropLast, ¬ Stops pass.events
  returned : run.ending = .returned ↔ ∃ pass ∈ run.passes, Stops pass.events
  exited : run.ending = .exited ↔
    results[run.passes.length]? = some none ∧ ∀ pass ∈ run.passes, ¬ Stops pass.events
  waiting : run.ending = .waiting → run.passes.length = results.length
  freed : run.ending = .returned → waits run.reactor = false

end Property

/-! ## What a pass leaves -/

/-- The reactor is what its history has made of it, and watches exactly the
descriptors with a handler. -/
structure Made (r : Reactor Handler) (history : List (Event Handler)) : Prop where
  records : Records r history
  watched : ∀ fd, (r.handlers fd).isSome → fd ∈ r.readFds

theorem request_made (made : Made r history) (q : Request Handler) :
    Made (request r q) (history ++ [.requested q]) := by
  refine ⟨request_records made.records q, fun fd some_handler => ?_⟩
  cases q with
  | stopReactor => exact made.watched fd some_handler
  | addFd new handler =>
    by_cases same : fd = new.val
    · exact same ▸ Finset.mem_insert_self _ _
    · apply Finset.mem_insert_of_mem
      apply made.watched
      simpa only [request, addFd, Function.update_of_ne same] using some_handler

theorem requests_made (made : Made r history) (requests : List (Request Handler)) :
    Made (requests.foldl request r) (history ++ requests.map .requested) := by
  induction requests generalizing r history with
  | nil => simpa using made
  | cons q rest ih =>
    have next := ih (request_made made q)
    rwa [List.append_assoc, List.singleton_append] at next

theorem called_made (made : Made r history) (fd : Nat) (handler : Handler) :
    Made r (history ++ [.called fd handler]) :=
  ⟨called_records made.records fd handler, made.watched⟩

theorem started_made (requests : List (Request Handler)) :
    Made (started requests) (requests.map .requested) := by
  have create : Made (createReactor : Reactor Handler) [] :=
    ⟨create_records, fun _ some_handler => by cases some_handler⟩
  have made := requests_made create requests
  exact ⟨started_records requests, made.watched⟩

/-- Only a request to stop takes the flag away. -/
theorem requests_running (requests : List (Request Handler)) (r : Reactor Handler) :
    (requests.foldl request r).running = true ↔
      r.running = true ∧ .stopReactor ∉ requests := by
  induction requests generalizing r with
  | nil => simp
  | cons q rest ih =>
    simp only [List.foldl_cons, ih, List.mem_cons, not_or]
    cases q with
    | addFd fd handler => simp [request]
    | stopReactor => simp [request, stopReactor]

/-- A pass keeps its book, and its flag is gone behind it exactly if a handler
has asked to stop. -/
theorem scan_made (body : Handler → Nat → World → List (Request Handler) × World) (fuel : Nat)
    {pass : Pass Handler World} (made : Made r history)
    (ran : scan body fuel ready fd r world = some pass) :
    Made pass.reactor (history ++ pass.events) ∧
      (pass.reactor.running = true ↔ r.running = true ∧ ¬ Stops pass.events) := by
  induction fuel generalizing fd r history world pass with
  | zero => cases ran
  | succ fuel ih =>
    unfold scan at ran
    split at ran
    · cases ran
      refine ⟨by simpa using made, ?_⟩
      simp [Stops]
    · exact ih made ran
    · rename_i handler _
      obtain ⟨later, onward, rfl⟩ := Option.map_eq_some_iff.mp ran
      have next := requests_made (called_made made fd handler) (body handler fd world).1
      obtain ⟨book, flag⟩ := ih next onward
      constructor
      · simpa only [List.append_assoc, List.nil_append, List.cons_append] using book
      · have asked : Stops (.called fd handler :: ((body handler fd world).1.map .requested ++
            later.events)) ↔ .stopReactor ∈ (body handler fd world).1 ∨ Stops later.events := by
          simp [Stops]
        simp only [flag, requests_running, asked, not_or, and_assoc]

/-! ## The loop -/

theorem ready_now (made : Made r history) (readable : Finset Nat) :
    r.readFds ∩ readable = readyNow history readable := by
  ext fd
  simp only [readyNow, Finset.mem_inter, Finset.mem_filter, ← made.records.handlers fd]
  constructor
  · exact fun both => ⟨both.2, made.records.watched fd both.1⟩
  · exact fun both => ⟨made.watched fd both.2, both.1⟩

/-- A pass of the loop ends and serves what is ready. -/
theorem pass_made (body : Handler → Nat → World → List (Request Handler) × World)
    (made : Made r history) (readable : Finset Nat) (world : World) :
    ∃ pass, scan body (MAX_FDS + 1) (r.readFds ∩ readable) 0 r world = some pass ∧
      Dispatches body history (readyNow history readable) world pass ∧
      Made pass.reactor (history ++ pass.events) ∧
      (pass.reactor.running = true ↔ r.running = true ∧ ¬ Stops pass.events) := by
  have everything : ahead (readyNow history readable) 0 = readyNow history readable :=
    Finset.filter_true_of_mem fun _ _ => Nat.zero_le _
  have watched : r.readFds ∩ readable ⊆ r.readFds := Finset.inter_subset_left
  obtain ⟨pass, ran, dispatches⟩ := scan_dispatches body (MAX_FDS + 1) (Nat.zero_le _)
    (by omega) made.records watched world
  simp only [ready_now made, everything] at ran dispatches ⊢
  obtain ⟨book, flag⟩ := scan_made body (MAX_FDS + 1) made ran
  exact ⟨pass, ran, dispatches, book, flag⟩

theorem loop_stopped (body : Handler → Nat → World → List (Request Handler) × World)
    (stopped : r.running = false) (results : List (Option (Finset Nat))) (world : World) :
    loop body results r world = some ⟨r, world, [], .returned⟩ := by
  cases results with
  | nil => simp [loop, stopped]
  | cons result later => simp [loop, stopped]

section Passes
variable {body : Handler → Nat → World → List (Request Handler) × World}

theorem no_pass_correct (r : Reactor Handler) (world : World) (history : List (Event Handler)) :
    Correct body history world [] (Run.mk r world [] .waiting) ∧
      ∀ later, Correct body history world (none :: later) (Run.mk r world [] .exited) := by
  constructor
  · refine ⟨trivial, ?_, ?_, ?_, fun _ => rfl, ?_⟩ <;> simp
  · intro later
    refine ⟨trivial, ?_, ?_, ?_, ?_, ?_⟩ <;> simp

/-- The pass in which a handler asks to stop is the last one. -/
theorem last_pass_correct {r : Reactor Handler} {pass : Pass Handler World}
    (dispatches : Dispatches body history (readyNow history readable) world pass)
    (stops : Stops pass.events) (stopped : r.running = false)
    (later : List (Option (Finset Nat))) :
    Correct body history world (some readable :: later)
      (Run.mk r pass.world [pass] .returned) := by
  refine ⟨⟨dispatches, by simp [Served]⟩, ?_, ?_, ?_, ?_, fun _ => stopped⟩
  · simp
  · simpa using stops
  · simpa using fun _ => stops
  · simp

/-- A pass in which none does is followed by the others. -/
theorem next_pass_correct {run : Run Handler World} {pass : Pass Handler World}
    (dispatches : Dispatches body history (readyNow history readable) world pass)
    (goes_on : ¬ Stops pass.events)
    (correct : Correct body (history ++ pass.events) pass.world later run) :
    Correct body history world (some readable :: later)
      { run with passes := pass :: run.passes } := by
  refine ⟨⟨dispatches, correct.served⟩, fun other member => ?_, ?_, ?_, fun waits => ?_,
    correct.freed⟩
  · cases passes : run.passes with
    | nil => simp [passes] at member
    | cons first rest =>
      rw [passes, List.dropLast_cons_cons] at member
      rcases List.mem_cons.mp member with rfl | inner
      · exact goes_on
      · exact correct.earlier other (passes ▸ inner)
  · simpa [goes_on] using correct.returned
  · simpa [goes_on] using correct.exited
  · simpa using correct.waiting waits

end Passes

/-- By induction on the results of `select`. -/
theorem loop_correct (body : Handler → Nat → World → List (Request Handler) × World)
    (results : List (Option (Finset Nat))) (made : Made r history) (running : r.running = true)
    (world : World) :
    ∃ run, loop body results r world = some run ∧ Correct body history world results run := by
  induction results generalizing r history world with
  | nil =>
    refine ⟨⟨r, world, [], .waiting⟩, by simp [loop, running], ?_⟩
    exact (no_pass_correct r world history).1
  | cons result later ih =>
    cases result with
    | none =>
      refine ⟨⟨r, world, [], .exited⟩, by simp [loop, running], ?_⟩
      exact (no_pass_correct r world history).2 later
    | some readable =>
      obtain ⟨pass, ran, dispatches, book, flag⟩ := pass_made body made readable world
      simp only [loop, running, ↓reduceIte, ran, Option.bind_some]
      by_cases stops : Stops pass.events
      · have stopped : pass.reactor.running = false := by
          cases still : pass.reactor.running with
          | false => rfl
          | true => exact absurd stops (flag.mp still).2
        simp only [loop_stopped body stopped, Option.map_some]
        exact ⟨_, rfl, last_pass_correct dispatches stops stopped later⟩
      · obtain ⟨run, onward, correct⟩ := ih book (flag.mpr ⟨running, stops⟩) pass.world
        simp only [onward, Option.map_some]
        exact ⟨_, rfl, next_pass_correct dispatches stops correct⟩

/-- Whatever was asked of the reactor before, whatever its handlers do and
whatever becomes readable, `startReactor` serves each pass in full, ends with the
first pass in which a handler asks it to, and then nothing waits for it. -/
theorem reactor_runs_until_stopped
    (body : Handler → Nat → World → List (Request Handler) × World)
    (requests : List (Request Handler)) (results : List (Option (Finset Nat))) (world : World) :
    ∃ run, startReactor body requests results world = some run ∧
      Correct body (requests.map .requested) world results run :=
  loop_correct body results (started_made requests) rfl world

end OsCourse.ReactorRun

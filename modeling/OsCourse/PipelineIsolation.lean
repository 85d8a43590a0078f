import OsCourse.PipelineOrder

/-! What the closures read from the shared cell. The values come out right as
long as `run` takes up the cell for the next number only when no earlier item
still needs it. -/
namespace OsCourse.PipelineIsolation
open Pipeline PipelineOrder PrimeCheck Transition

/-! ## The property -/

/-- The value an item with number `n` brings to a stage. -/
def Stage.input : Stage → BitVec 32 → BitVec 32
  | .first, n => n
  | .second, n => n + 11
  | .third, n => n - 2

def Event.item : Event → Nat
  | .number _ item _ => item
  | .prime _ item _ _ => item
  | .update _ item _ => item

/-- What the closures of an item read and print, from the first to the last. -/
def lifetime (item : Nat) (n : BitVec 32) : List Event :=
  [.number .first item n, .prime .first item n (decide n.toNat.Prime), .update .first item n,
   .number .second item (n + 11), .prime .second item (n + 11) (decide (n + 11).toNat.Prime),
   .update .second item (n + 11),
   .number .third item (n - 2), .prime .third item (n - 2) (decide (n - 2).toNat.Prime),
   .update .third item (n - 2), .number .third item n]

def ofItem (item : Nat) (log : List Event) : List Event :=
  log.filter fun event => decide (Event.item event = item)

/-- Every item has read and printed what its own number demands. -/
def Isolated (rand : BitVec 32 → Nat → BitVec 31) (seed : BitVec 32) (s : Run) : Prop :=
  ∀ item, ofItem item s.log <+: lifetime item (generateNumber rand seed item)

/-- A number is generated only when all items before it have left the last stage. -/
def GeneratesAlone (N : Nat) (s : Run) (thread : Thread) : Prop :=
  thread = .main → ∀ i < N, s.main = .loop i →
    ∀ earlier < i, Task.stage .third earlier ∈ s.executed .ao3

/-! ## The items on their way -/

section Program
variable {rand : BitVec 32 → Nat → BitVec 31} {seed : BitVec 32} {N : Nat}

/-- The items a thread has in hand or still in its queue. -/
def pending (s : Run) (ao : Ao) : List Nat := items ((s.workers ao).inHand ++ s.queues ao)

theorem items_delivered (s : Run) (ao : Ao) :
    (items (delivered s ao)).length = (items (s.executed ao)).length + (pending s ao).length := by
  simp only [delivered, pending, List.append_assoc, items_append, List.length_append]

/-- Every item enqueued and not yet through the last stage is pending once. -/
theorem pending_total (ordered : Ordered N s) :
    enqueued N s = (items (s.executed .ao3)).length + (pending s .ao1).length +
      (pending s .ao2).length + (pending s .ao3).length := by
  have first := items_delivered s .ao1
  have second := items_delivered s .ao2
  have third := items_delivered s .ao3
  rw [ordered.first, List.length_range] at first
  rw [ordered.second] at second
  rw [ordered.third] at third
  omega

/-- How many numbers have been generated. -/
def generated (N : Nat) (s : Run) : Nat :=
  match s.main with
  | .loop i => i
  | .enqueue i => i + 1
  | _ => N

/-- How many of its reads an item has behind it. -/
def readsBefore (stage : Stage) (point : Point) : Nat :=
  (match stage with | .first => 0 | .second => 3 | .third => 6) +
    match point with | .printNum => 0 | .printPrime => 1 | .load => 2 | .store _ | .finish => 3

/-- The cell and the history fit the statement an item is at. -/
structure Fits (rand : BitVec 32 → Nat → BitVec 31) (seed : BitVec 32) (s : Run)
    (stage : Stage) (item : Nat) (point : Point) : Prop where
  cell : s.num = if point = .finish then stage.update (Stage.input stage (generateNumber rand seed item))
    else Stage.input stage (generateNumber rand seed item)
  reads : ofItem item s.log =
    (lifetime item (generateNumber rand seed item)).take (readsBefore stage point)
  loaded : ∀ num, point = .store num →
    num = stage.update (Stage.input stage (generateNumber rand seed item))

/-- At most one item is on its way, and the cell holds its value. -/
structure Solo (rand : BitVec 32 → Nat → BitVec 31) (seed : BitVec 32) (N : Nat) (s : Run) :
    Prop where
  ordered : Ordered N s
  alone : generated N s ≤ (items (s.executed .ao3)).length + 1
  fresh : ∀ i, s.main = .enqueue i → s.num = generateNumber rand seed i
  held : ∀ ao stage item point, s.workers ao = .running stage item point →
    Fits rand seed s stage item point
  queued : ∀ ao stage item, Task.stage stage item ∈ s.queues ao →
    Fits rand seed s stage item .printNum
  later : ∀ item, enqueued N s ≤ item → ofItem item s.log = []
  isolated : Isolated rand seed s

/-- An item is in hand at one thread, and no other is on its way. -/
structure Lone (s : Run) (owner : Ao) : Prop where
  workers : ∀ ao, ao ≠ owner → ∀ stage item point, s.workers ao ≠ .running stage item point
  queues : ∀ ao stage item, Task.stage stage item ∉ s.queues ao
  main : ∀ i, s.main ≠ .enqueue i

theorem mem_items (given : Task.stage stage item ∈ tasks) : item ∈ items tasks :=
  List.mem_filterMap.mpr ⟨_, given, rfl⟩

theorem pending_ao4 (ordered : Ordered N s) : pending s .ao4 = [] := by
  rw [List.eq_nil_iff_forall_not_mem]
  intro item given
  obtain ⟨task, member, same⟩ := List.mem_filterMap.mp given
  have home := ordered.home .ao4 task (by
    simp only [delivered, List.append_assoc]
    exact List.mem_append_right _ member)
  cases task with
  | stage stage own => cases stage <;> cases home
  | wake => cases same

/-- The room left for items on their way. -/
theorem pending_le (solo : Solo rand seed N s) :
    (pending s .ao1).length + (pending s .ao2).length + (pending s .ao3).length +
      (pending s .ao4).length + (generated N s - enqueued N s) ≤ 1 := by
  have total := pending_total solo.ordered
  have none_last := pending_ao4 solo.ordered
  have alone := solo.alone
  have : enqueued N s ≤ generated N s := by
    unfold enqueued generated
    cases s.main <;> simp
  rw [none_last, List.length_nil]
  omega

/-- Two threads have at most one item between them. -/
theorem pending_pair (solo : Solo rand seed N s) (other : ao ≠ owner) :
    (pending s owner).length + (pending s ao).length + (generated N s - enqueued N s) ≤ 1 := by
  have room := pending_le solo
  cases owner <;> cases ao <;> first | contradiction | omega

theorem lone_worker (solo : Solo rand seed N s) (worker : s.workers owner = .running stage item point) :
    Lone s owner := by
  have own : (pending s owner).length = 1 + (items (s.queues owner)).length := by
    simp [pending, worker, Worker.inHand]
    omega
  have elsewhere (ao : Ao) (other : ao ≠ owner) : pending s ao = [] := by
    have pair := pending_pair solo other
    exact List.length_eq_zero_iff.mp (by omega)
  have room : (pending s owner).length + (generated N s - enqueued N s) ≤ 1 := by
    have total := pending_le solo
    cases owner <;> omega
  refine ⟨fun ao other stage item point running => ?_, fun ao stage item given => ?_,
    fun i main => ?_⟩
  · have nothing := elsewhere ao other
    simp [pending, running, Worker.inHand] at nothing
  · by_cases other : ao = owner
    · subst other
      have empty : items (s.queues ao) = [] := List.length_eq_zero_iff.mp (by omega)
      exact absurd (mem_items given) (by simp [empty])
    · have member : item ∈ pending s ao := by
        rw [pending, items_append]
        exact List.mem_append_right _ (mem_items given)
      exact absurd member (by simp [elsewhere ao other])
  · have : generated N s - enqueued N s = 1 := by
      simp [generated, enqueued, main]
    omega

/-! ## One step -/

theorem of_item_append (item : Nat) (log : List Event) (event : Event) :
    ofItem item (log ++ [event]) =
      ofItem item log ++ if Event.item event = item then [event] else [] := by
  simp only [ofItem, List.filter_append, List.filter_cons, List.filter_nil]
  split <;> rename_i same <;> simp only [decide_eq_true_eq] at same <;> simp [same]

theorem take_next (initial : taken = List.take k whole) (next : whole[k]? = some event) :
    taken ++ [event] = List.take (k + 1) whole := by
  rw [List.take_add_one, next, ← initial]
  rfl

/-- The reads of a stage, as the item's lifetime has them. -/
theorem lifetime_reads (stage : Stage) (item : Nat) (n : BitVec 32) :
    (lifetime item n)[readsBefore stage .printNum]? =
        some (.number stage item (Stage.input stage n)) ∧
      (lifetime item n)[readsBefore stage .printPrime]? =
        some (.prime stage item (Stage.input stage n) (isPrime (Stage.input stage n))) ∧
      (lifetime item n)[readsBefore stage .load]? =
        some (.update stage item (Stage.input stage n)) := by
  rw [is_prime_eq]
  cases stage <;> exact ⟨rfl, rfl, rfl⟩

/-- Each stage leaves the value the next one starts from. -/
theorem stage_chain (n : BitVec 32) :
    Stage.first.update (Stage.input .first n) = Stage.input .second n ∧
      Stage.second.update (Stage.input .second n) = Stage.input .third n ∧
      Stage.third.update (Stage.input .third n) = n := by
  refine ⟨rfl, ?_, ?_⟩
  · simp only [Stage.update, Stage.input]
    bv_omega
  · simp only [Stage.update, Stage.input]
    bv_omega

/-- What holds again when the one item on its way has taken a step. -/
theorem solo_of_lone (solo : Solo rand seed N s) (lone : Lone s owner) (ordered : Ordered N t)
    (main : t.main = s.main) (executed : s.executed .ao3 <+: t.executed .ao3)
    (workers : ∀ ao, ao ≠ owner → t.workers ao = s.workers ao)
    (held : ∀ stage item point, t.workers owner = .running stage item point →
      Fits rand seed t stage item point)
    (queued : ∀ ao stage item, Task.stage stage item ∈ t.queues ao →
      Task.stage stage item ∈ s.queues ao ∨ Fits rand seed t stage item .printNum)
    (log : t.log = s.log ∨ ∃ event, t.log = s.log ++ [event] ∧
      Event.item event < enqueued N s ∧
      ofItem (Event.item event) t.log <+:
        lifetime (Event.item event) (generateNumber rand seed (Event.item event))) :
    Solo rand seed N t := by
  have count : enqueued N t = enqueued N s := by
    unfold enqueued
    rw [main]
  have numbers : generated N t = generated N s := by
    unfold generated
    rw [main]
  refine ⟨ordered, ?_, fun i enqueue => ?_, fun ao stage item point running => ?_,
    fun ao stage item given => ?_, fun item beyond => ?_, fun item => ?_⟩
  · have longer := (List.IsPrefix.filterMap itemOf executed).length_le
    have alone := solo.alone
    unfold items at alone ⊢
    omega
  · exact absurd (main ▸ enqueue) (lone.main i)
  · by_cases own : ao = owner
    · exact held stage item point (own ▸ running)
    · exact absurd ((workers ao own).symm.trans running) (lone.workers ao own stage item point)
  · rcases queued ao stage item given with old | fits
    · exact absurd old (lone.queues ao stage item)
    · exact fits
  · rcases log with same | ⟨event, more, below, -⟩
    · rw [same]
      exact solo.later item (count ▸ beyond)
    · have other : ¬ Event.item event = item := by omega
      rw [more, of_item_append, if_neg other, solo.later item (count ▸ beyond)]
      rfl
  · rcases log with same | ⟨event, more, below, initial⟩
    · rw [same]
      exact solo.isolated item
    · by_cases own : Event.item event = item
      · exact own ▸ initial
      · rw [more, of_item_append, if_neg own, List.append_nil]
        exact solo.isolated item

theorem held_below (ordered : Ordered N s) (worker : s.workers owner = .running stage item point) :
    stage.home = owner ∧ item < enqueued N s := by
  have held : Task.stage stage item ∈ delivered s owner := by
    simp [delivered, worker, Worker.inHand]
  have home : stage.home = owner := ordered.home owner _ held
  subst home
  exact ⟨rfl, List.mem_range.mp ((delivered_enqueued ordered stage).subset (mem_items held))⟩

/-- A read of the item on its way finds the value and the place in the
item's history that belong to it. -/
theorem read_solo (solo : Solo rand seed N s) (worker : s.workers owner = .running stage item point)
    (ordered : Ordered N ((s.record event).goto owner (.running stage item next)))
    (own : Event.item event = item)
    (place : (lifetime item (generateNumber rand seed item))[readsBefore stage point]? = some event)
    (count : readsBefore stage next = readsBefore stage point + 1)
    (before : point ≠ .finish) (after : next ≠ .finish)
    (loaded : ∀ num, next = .store num →
      num = stage.update (Stage.input stage (generateNumber rand seed item))) :
    Solo rand seed N ((s.record event).goto owner (.running stage item next)) := by
  have lone := lone_worker solo worker
  have fits := solo.held owner stage item point worker
  have reads : ofItem item (s.log ++ [event]) =
      (lifetime item (generateNumber rand seed item)).take (readsBefore stage next) := by
    rw [of_item_append, if_pos own, count]
    exact take_next fits.reads place
  refine solo_of_lone solo lone ordered rfl List.prefix_rfl ?_ ?_ ?_ ?_
  · intro ao other
    exact Function.update_of_ne other _ _
  · intro stage' item' point' running
    simp only [Run.goto, Function.update_self, Worker.running.injEq] at running
    obtain ⟨rfl, rfl, rfl⟩ := running
    refine ⟨?_, reads, loaded⟩
    have cell := fits.cell
    rw [if_neg before] at cell
    rw [if_neg after]
    exact cell
  · exact fun ao stage item given => Or.inl given
  · refine Or.inr ⟨event, rfl, own ▸ (held_below solo.ordered worker).2, ?_⟩
    rw [own]
    exact reads ▸ List.take_prefix _ _

/-- The task a closure passes on finds the cell and the history as it needs them. -/
theorem passed_fits {t : Run} (fits : Fits rand seed s stage item .finish)
    (num : t.num = s.num) (log : stage ≠ .third → t.log = s.log)
    (passed : Task.stage stage' item' ∈ stage.passes item ao) :
    Fits rand seed t stage' item' .printNum := by
  obtain ⟨second, third, -⟩ := stage_chain (generateNumber rand seed item)
  have cell := fits.cell
  rw [if_pos rfl] at cell
  cases stage with
  | first =>
    simp only [Stage.passes, List.mem_ite_nil_right, List.mem_singleton, Task.stage.injEq] at passed
    obtain ⟨-, rfl, rfl⟩ := passed
    refine ⟨?_, ?_, fun num same => by cases same⟩
    · rw [if_neg (by decide), num, cell, second]
    · rw [log (by decide)]
      exact fits.reads
  | second =>
    simp only [Stage.passes, List.mem_ite_nil_right, List.mem_singleton, Task.stage.injEq] at passed
    obtain ⟨-, rfl, rfl⟩ := passed
    refine ⟨?_, ?_, fun num same => by cases same⟩
    · rw [if_neg (by decide), num, cell, third]
    · rw [log (by decide)]
      exact fits.reads
  | third => cases passed

/-- The last statement of a closure hands the item over as the next stage
expects it. -/
theorem finish_solo (solo : Solo rand seed N s) (worker : s.workers owner = .running stage item .finish)
    (ordered : Ordered N ((s.finish item stage).complete owner (.stage stage item))) :
    Solo rand seed N ((s.finish item stage).complete owner (.stage stage item)) := by
  have lone := lone_worker solo worker
  have fits := solo.held owner stage item .finish worker
  have cell := fits.cell
  rw [if_pos rfl] at cell
  refine solo_of_lone solo lone ordered (finish_main s item stage) ?_ ?_ ?_ ?_ ?_
  · by_cases last : Ao.ao3 = owner
    · subst last
      simp [Run.complete, Run.goto]
    · simp [Run.complete, Run.goto, last]
  · intro ao other
    simp [Run.complete, Run.goto, other]
  · intro stage' item' point' running
    simp [Run.complete, Run.goto] at running
  · intro ao stage' item' given
    have passed : Task.stage stage' item' ∈ s.queues ao ++ stage.passes item ao := by
      rw [← finish_queues]
      exact given
    rcases List.mem_append.mp passed with old | new
    · exact Or.inl old
    · refine Or.inr (passed_fits fits (finish_num s item stage) (fun early => ?_) new)
      cases stage with
      | first | second => rfl
      | third => exact absurd rfl early
  · cases stage with
    | first | second => exact Or.inl rfl
    | third =>
      refine Or.inr ⟨.number .third item s.num, rfl, (held_below solo.ordered worker).2, ?_⟩
      have value : s.num = generateNumber rand seed item := by
        rw [cell, (stage_chain _).2.2]
      have own : Event.item (.number .third item s.num) = item := rfl
      have reads : ofItem item (s.log ++ [.number .third item s.num]) =
          (lifetime item (generateNumber rand seed item)).take 10 := by
        rw [of_item_append, if_pos own]
        exact take_next fits.reads (by rw [value]; rfl)
      exact reads ▸ List.take_prefix _ _

theorem running_solo (solo : Solo rand seed N s) (worker : s.workers owner = .running stage item point)
    (ordered : Ordered N (runTask s owner stage item point)) :
    Solo rand seed N (runTask s owner stage item point) := by
  have fits := solo.held owner stage item point worker
  have cell := fits.cell
  obtain ⟨number, prime, update⟩ :=
    lifetime_reads stage item (generateNumber rand seed item)
  cases point with
  | printNum =>
    rw [if_neg (by decide)] at cell
    exact read_solo solo worker ordered rfl (cell ▸ number) rfl (by decide) (by decide)
      (fun num same => by cases same)
  | printPrime =>
    rw [if_neg (by decide)] at cell
    exact read_solo solo worker ordered rfl (cell ▸ prime) rfl (by decide) (by decide)
      (fun num same => by cases same)
  | load =>
    rw [if_neg (by decide)] at cell
    apply read_solo solo worker ordered rfl (cell ▸ update) rfl (by decide) (by simp)
    intro num same
    rw [← cell]
    exact (Point.store.inj same).symm
  | store num =>
    have lone := lone_worker solo worker
    refine solo_of_lone solo lone ordered rfl List.prefix_rfl ?_ ?_ ?_ (Or.inl rfl)
    · intro ao other
      exact Function.update_of_ne other _ _
    · intro stage' item' point' running
      simp only [runTask, Run.goto, Function.update_self, Worker.running.injEq] at running
      obtain ⟨rfl, rfl, rfl⟩ := running
      exact ⟨fits.loaded num rfl, fits.reads, fun num same => by cases same⟩
    · exact fun ao stage item given => Or.inl given
  | finish => exact finish_solo solo worker ordered

theorem fits_congr {t : Run} (num : t.num = s.num) (log : t.log = s.log)
    (fits : Fits rand seed s stage item point) : Fits rand seed t stage item point :=
  ⟨num ▸ fits.cell, log ▸ fits.reads, fits.loaded⟩

/-- A step that neither touches the cell nor starts a number keeps every item
where it fits. -/
theorem solo_of_frame (solo : Solo rand seed N s) {t : Run} (ordered : Ordered N t)
    (generates : generated N t = generated N s) (count : enqueued N s ≤ enqueued N t)
    (main : ∀ i, t.main = .enqueue i → s.main = .enqueue i)
    (num : t.num = s.num) (log : t.log = s.log)
    (executed : items (s.executed .ao3) <+: items (t.executed .ao3))
    (held : ∀ ao stage item point, t.workers ao = .running stage item point →
      s.workers ao = .running stage item point ∨
        point = .printNum ∧ Task.stage stage item ∈ s.queues ao)
    (queued : ∀ ao stage item, Task.stage stage item ∈ t.queues ao →
      Task.stage stage item ∈ s.queues ao ∨ stage = .first ∧ s.main = .enqueue item) :
    Solo rand seed N t := by
  refine ⟨ordered, ?_, fun i enqueue => ?_, fun ao stage item point running => ?_,
    fun ao stage item given => ?_, fun item beyond => ?_, fun item => ?_⟩
  · have longer := executed.length_le
    have alone := solo.alone
    omega
  · rw [num]
    exact solo.fresh i (main i enqueue)
  · rcases held ao stage item point running with same | ⟨rfl, taken⟩
    · exact fits_congr num log (solo.held ao stage item point same)
    · exact fits_congr num log (solo.queued ao stage item taken)
  · rcases queued ao stage item given with old | ⟨rfl, enqueue⟩
    · exact fits_congr num log (solo.queued ao stage item old)
    · -- the number generated last is now on its way
      have unread : ofItem item s.log = [] := solo.later item (by simp [enqueued, enqueue])
      refine ⟨?_, ?_, fun num same => by cases same⟩
      · rw [if_neg (by decide), num]
        exact solo.fresh item enqueue
      · rw [log, unread]
        rfl
  · rw [log]
    exact solo.later item (count.trans beyond)
  · rw [log]
    exact solo.isolated item

theorem worker_solo (solo : Solo rand seed N s) (ordered : Ordered N t)
    (stepped : workerStep s owner = some t) : Solo rand seed N t := by
  rcases worker_step_cases stepped with ⟨task, rest, worker, queue, rfl⟩ |
    ⟨stage, item, point, worker, rfl⟩ | ⟨worker, rfl⟩ | ⟨worker, rfl⟩
  · refine solo_of_frame solo ordered rfl le_rfl (fun _ same => same) rfl rfl List.prefix_rfl ?_ ?_
    · intro ao stage item point running
      by_cases own : ao = owner
      · subst own
        simp only [Run.goto, Function.update_self] at running
        cases task with
        | stage taken number =>
          cases running
          exact Or.inr ⟨rfl, queue ▸ List.mem_cons_self⟩
        | wake => cases running
      · exact Or.inl (by simpa [Run.goto, own] using running)
    · intro ao stage item given
      by_cases own : ao = owner
      · subst own
        simp only [Run.goto, Function.update_self] at given
        exact Or.inl (queue ▸ List.mem_cons_of_mem _ given)
      · exact Or.inl (by simpa [Run.goto, own] using given)
  · exact running_solo solo worker ordered
  · refine solo_of_frame solo ordered rfl le_rfl (fun _ same => same) rfl rfl ?_ ?_ ?_
    · rw [(complete_extends s owner .wake (by rw [worker]; rfl) .ao3).2, items_append]
      exact List.prefix_append _ _
    · intro ao stage item point running
      by_cases own : ao = owner
      · simp [Run.complete, Run.goto, own] at running
      · exact Or.inl (by simpa [Run.complete, Run.goto, own] using running)
    · exact fun ao stage item given => Or.inl given
  · refine solo_of_frame solo ordered rfl le_rfl (fun _ same => same) rfl rfl List.prefix_rfl ?_ ?_
    · intro ao stage item point running
      by_cases own : ao = owner
      · subst own
        simp only [Run.goto, Function.update_self] at running
        split at running <;> cases running
      · exact Or.inl (by simpa [Run.goto, own] using running)
    · exact fun ao stage item given => Or.inl given

/-- When all earlier items have left the last stage, none is on its way. -/
theorem none_pending (ordered : Ordered N s) (main : s.main = .loop i)
    (alone : ∀ earlier < i, Task.stage .third earlier ∈ s.executed .ao3) :
    (items (s.executed .ao3)).length = i ∧ ∀ ao, pending s ao = [] := by
  have total := pending_total ordered
  have last := pending_ao4 ordered
  have initial := prefix_range ((executed_first s .ao3).trans (delivered_range ordered .third))
  have count : enqueued N s = i := by simp only [enqueued, main]
  have enough : ¬ (items (s.executed .ao3)).length < i := by
    intro fewer
    have member := mem_items (alone _ fewer)
    rw [initial, List.length_range, List.mem_range] at member
    omega
  refine ⟨by omega, fun ao => List.length_eq_zero_iff.mp ?_⟩
  cases ao with
  | ao1 | ao2 | ao3 => omega
  | ao4 => rw [last, List.length_nil]

/-- Generating the next number is harmless when no item is on its way. -/
theorem generate_solo (solo : Solo rand seed N s) (main : s.main = .loop i)
    (alone : ∀ earlier < i, Task.stage .third earlier ∈ s.executed .ao3)
    (ordered : Ordered N { s with main := .enqueue i, num := generateNumber rand seed i }) :
    Solo rand seed N { s with main := .enqueue i, num := generateNumber rand seed i } := by
  obtain ⟨all, nothing⟩ := none_pending solo.ordered main alone
  refine ⟨ordered, ?_, fun j enqueue => ?_, fun ao stage item point running => ?_,
    fun ao stage item given => ?_, fun item beyond => ?_, solo.isolated⟩
  · exact Nat.succ_le_succ all.ge
  · cases enqueue
    rfl
  · have empty := nothing ao
    rw [pending, running] at empty
    cases empty
  · have member : item ∈ pending s ao := by
      rw [pending, items_append]
      exact List.mem_append_right _ (mem_items given)
    rw [nothing ao] at member
    cases member
  · exact solo.later item (by simpa only [enqueued, main] using beyond)

theorem main_solo (solo : Solo rand seed N s) (alone : GeneratesAlone N s .main)
    (ordered : Ordered N t) (stepped : mainStep rand seed N s = some t) : Solo rand seed N t := by
  have frame (generates : generated N t = generated N s) (count : enqueued N s ≤ enqueued N t)
      (main : ∀ i, t.main = .enqueue i → s.main = .enqueue i)
      (num : t.num = s.num) (log : t.log = s.log) :=
    solo_of_frame solo ordered generates count main num log
      (by rw [(main_extends stepped .ao3).2]; simp [completes])
      (fun ao stage item point running => Or.inl (main_workers stepped ▸ running))
  rcases main_step_cases stepped with ⟨i, main, more, rfl⟩ | ⟨i, main, last, rfl⟩ |
    ⟨i, main, rfl⟩ | ⟨stopped, main, rfl⟩ | ⟨stopped, main, rfl⟩ | ⟨joined, main, done, rfl⟩
  · exact generate_solo solo main (alone rfl i more main) ordered
  · have within : i ≤ N := by simpa only [main, InLoop] using solo.ordered.inLoop
    refine frame ?_ ?_ (fun i given => by cases given) rfl rfl fun ao stage item given => Or.inl given
    · simp only [generated, main]
      omega
    · simpa only [enqueued, main] using within
  · refine frame ?_ ?_ (fun i given => by cases given) rfl rfl fun ao stage item given => ?_
    · simp [generated, main]
    · simp [enqueued, main]
    · rcases queued_task given with old | ⟨-, new⟩
      · exact Or.inl old
      · cases new
        exact Or.inr ⟨rfl, main⟩
  · refine frame ?_ ?_ (fun i given => by cases given) rfl rfl fun ao stage item given => Or.inl given
    · simp [generated, main]
    · simp [enqueued, main]
  · refine frame ?_ ?_ ?_ rfl rfl fun ao stage item given => ?_
    · cases stopped <;> simp [generated, main, Ao.next]
    · cases stopped <;> simp [enqueued, main, Ao.next]
    · intro i given
      cases stopped <;> cases given
    · rcases queued_task given with old | ⟨-, new⟩
      · exact Or.inl old
      · cases new
  · refine frame ?_ ?_ ?_ rfl rfl fun ao stage item given => Or.inl given
    · cases joined <;> simp [generated, main, Ao.next]
    · cases joined <;> simp [enqueued, main, Ao.next]
    · intro i given
      cases joined <;> cases given

theorem step_solo (s : Run) (thread : Thread) (t : Run) (solo : Solo rand seed N s)
    (alone : GeneratesAlone N s thread) (stepped : step rand seed N s thread = some t) :
    Solo rand seed N t := by
  have ordered := step_ordered s thread t solo.ordered stepped
  cases thread with
  | main => exact main_solo solo alone ordered stepped
  | worker owner => exact worker_solo solo ordered stepped

theorem start_solo : Solo rand seed N runStart := by
  refine ⟨start_ordered, Nat.zero_le _, nofun, nofun, fun ao stage item given => ?_,
    fun item _ => rfl, fun item => List.nil_prefix⟩
  cases given

end Program

/-- In every run that generates each number only when the items before it have
left the last stage, all items read and print what their own numbers demand. -/
theorem items_isolated (rand : BitVec 32 → Nat → BitVec 31) (seed : BitVec 32) (N : Nat)
    (threads : List Thread)
    (alone : Along (step rand seed N) (GeneratesAlone N) runStart threads) :
    Throughout (step rand seed N) (Isolated rand seed) runStart threads :=
  throughout_imp (fun _ solo => solo.isolated)
    (throughout_of_along step_solo start_solo alone)

/-- The schedule is checked by running it. -/
instance (N : Nat) (s : Run) (thread : Thread) : Decidable (GeneratesAlone N s thread) :=
  inferInstanceAs (Decidable (thread = .main → ∀ i < N, s.main = .loop i →
    ∀ earlier < i, Task.stage .third earlier ∈ s.executed .ao3))

/-- A closure is dequeued, has its five statements run and returns to the loop. -/
def throughStage (ao : Ao) : List Thread := List.replicate 7 (.worker ao)

/-- Two items go through the three stages, the second one generated when the
first is through. -/
def oneAfterAnother : List Thread :=
  [.main, .main] ++ throughStage .ao1 ++ throughStage .ao2 ++ throughStage .ao3 ++
    [.main, .main] ++ throughStage .ao1 ++ throughStage .ao2 ++ throughStage .ao3

theorem two_items_isolated :
    (exec (step (fun _ i => BitVec.ofNat 31 i) 0 2) runStart oneAfterAnother).map
        (fun s => s.executed .ao3) = some [.stage .third 0, .stage .third 1] ∧
      Throughout (step (fun _ i => BitVec.ofNat 31 i) 0 2)
        (Isolated (fun _ i => BitVec.ofNat 31 i) 0) runStart oneAfterAnother :=
  ⟨by decide +kernel, items_isolated _ 0 2 oneAfterAnother (by decide +kernel)⟩

/-- The main thread generates the second number before the first task is run. -/
def secondNumberFirst : List Thread :=
  [.main, .main, .main, .worker .ao1, .worker .ao1]

/-- The task of the first item then prints the number of the second. -/
theorem second_number_printed_for_first :
    ¬ ∀ (rand : BitVec 32 → Nat → BitVec 31) (seed : BitVec 32) (N : Nat) (threads : List Thread),
      Throughout (step rand seed N) (Isolated rand seed) runStart threads := by
  intro isolated
  have run := throughout_iff.mp (isolated (fun _ i => BitVec.ofNat 31 i) 0 2 secondNumberFirst)
    _ List.prefix_rfl
  have printed : (exec (step (fun _ i => BitVec.ofNat 31 i) 0 2) runStart secondNumberFirst).map
      Run.log = some [.number .first 0 100001] := by decide
  obtain ⟨t, ran, log⟩ := Option.map_eq_some_iff.mp printed
  have first := run t ran 0
  rw [log] at first
  obtain ⟨rest, whole⟩ := first
  have head := (List.cons.inj whole).1
  simp [generateNumber] at head

end OsCourse.PipelineIsolation

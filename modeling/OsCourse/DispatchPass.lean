import Mathlib.Data.Finset.Filter
import OsCourse.ReactorLoop

/-! One pass of the loop in `startReactor`. The handlers may be any functions
that come back; what they ask of the reactor takes effect while the pass goes on. -/
namespace OsCourse.DispatchPass
open ReactorLoop

/-- What a handler may ask of the reactor, with a descriptor there is an entry for. -/
inductive Request (Handler : Type) where
  | addFd (fd : Fin MAX_FDS) (handler : Handler)
  | stopReactor

variable {Handler World : Type}

def request (r : Reactor Handler) : Request Handler → Reactor Handler
  | .addFd fd handler => addFd r fd handler
  | .stopReactor => stopReactor r

/-- The reactor in the loop, after the given requests to a new one. -/
def started (requests : List (Request Handler)) : Reactor Handler :=
  (startReactor (requests.foldl request createReactor)).1

inductive Event (Handler : Type) where
  | requested (q : Request Handler)
  | called (fd : Nat) (handler : Handler)

/-- The reactor and the rest of the world behind a pass, and what happened in it. -/
structure Pass (Handler World : Type) where
  reactor : Reactor Handler
  world : World
  events : List (Event Handler)

/-- The `for` loop from `fd` on, in so many rounds at most. A handler makes its
requests and leaves the world as it likes. -/
def scan (body : Handler → Nat → World → List (Request Handler) × World) :
    Nat → Finset Nat → Nat → Reactor Handler → World → Option (Pass Handler World)
  | 0, _, _, _, _ => none
  | fuel + 1, temp_fds, fd, r, world =>
    match turn r temp_fds fd with
    | .endPass => some ⟨r, world, []⟩
    | .skip => scan body fuel temp_fds (fd + 1) r world
    | .call handler =>
      let (requests, world) := body handler fd world
      (scan body fuel temp_fds (fd + 1) (requests.foldl request r) world).map fun later =>
        { later with events := .called fd handler :: (requests.map .requested ++ later.events) }

def Event.calledFd : Event Handler → Option Nat
  | .called fd _ => some fd
  | .requested _ => none

def Event.registers (fd : Nat) : Event Handler → Option Handler
  | .requested (.addFd other handler) => if other.val = fd then some handler else none
  | _ => none

/-- The handler most recently registered for a descriptor. -/
def registered (history : List (Event Handler)) (fd : Nat) : Option Handler :=
  history.reverse.findSome? (Event.registers fd)

/-- Each call is one of the handler that was registered last by then. -/
def CallsLatest (history : List (Event Handler)) : List (Event Handler) → Prop
  | [] => True
  | .requested q :: rest => CallsLatest (history ++ [.requested q]) rest
  | .called fd handler :: rest =>
    registered history fd = some handler ∧ CallsLatest (history ++ [.called fd handler]) rest

/-- The events are calls, each followed by the requests its handler makes in the
world it finds, which is the one the call before it has left. -/
inductive Handled (body : Handler → Nat → World → List (Request Handler) × World) :
    World → List (Event Handler) → World → Prop where
  | nothing (world : World) : Handled body world [] world
  | call (fd : Nat) (handler : Handler) (world : World)
      (rest : Handled body (body handler fd world).2 later final) :
      Handled body world
        (.called fd handler :: ((body handler fd world).1.map .requested ++ later)) final

/-- The ready descriptors are served in ascending order, once each, and no
others: the handler registered last by then is run for each of them. -/
structure Dispatches (body : Handler → Nat → World → List (Request Handler) × World)
    (history : List (Event Handler)) (ready : Finset Nat) (world : World)
    (pass : Pass Handler World) : Prop where
  ascending : (pass.events.filterMap Event.calledFd).Pairwise (· < ·)
  ready_only : ∀ fd, fd ∈ pass.events.filterMap Event.calledFd ↔ fd ∈ ready
  latest : CallsLatest history pass.events
  handled : Handled body world pass.events pass.world

/-! ## The reactor and its history -/

theorem registered_append (history : List (Event Handler)) (e : Event Handler) (fd : Nat) :
    registered (history ++ [e]) fd = (e.registers fd).or (registered history fd) := by
  rw [registered, List.reverse_append, List.reverse_singleton, List.singleton_append,
    List.findSome?_cons]
  cases e.registers fd <;> rfl

/-- The table holds what was registered last, and for exactly the watched descriptors. -/
structure Records (r : Reactor Handler) (history : List (Event Handler)) : Prop where
  handlers : ∀ fd, r.handlers fd = registered history fd
  watched : ∀ fd ∈ r.readFds, (r.handlers fd).isSome
  bounded : Bounded r
  below : r.maxFd < MAX_FDS

theorem create_records : Records (createReactor : Reactor Handler) [] where
  handlers _ := rfl
  watched _ member := by cases member
  bounded := create_bounded
  below := (by decide : (-1 : Int) < MAX_FDS)

theorem request_records (records : Records r history) (q : Request Handler) :
    Records (request r q) (history ++ [.requested q]) := by
  cases q with
  | stopReactor =>
    refine ⟨fun fd => ?_, records.watched, records.bounded, records.below⟩
    rw [registered_append]
    exact records.handlers fd
  | addFd fd handler =>
    refine ⟨fun other => ?_, fun other member => ?_, addFd_bounded r fd handler records.bounded, ?_⟩
    · rw [registered_append]
      by_cases same : fd.val = other
      · simp [request, addFd, Event.registers, same]
      · simp [request, addFd, Event.registers, same, Function.update_of_ne (Ne.symm same),
          records.handlers other]
    · by_cases same : other = fd.val
      · simp [request, addFd, same]
      · have old := (Finset.mem_insert.mp member).resolve_left same
        simp only [request, addFd, Function.update_of_ne same]
        exact records.watched other old
    · have below := records.below
      have inside := fd.isLt
      simp only [request, addFd]
      split <;> omega

theorem requests_records (records : Records r history) (requests : List (Request Handler)) :
    Records (requests.foldl request r) (history ++ requests.map .requested) := by
  induction requests generalizing r history with
  | nil => simpa using records
  | cons q rest ih =>
    have next := ih (request_records records q)
    rwa [List.append_assoc, List.singleton_append] at next

theorem started_records (requests : List (Request Handler)) :
    Records (started requests) (requests.map .requested) := by
  obtain ⟨handlers, watched, bounded, below⟩ := requests_records create_records requests
  exact ⟨handlers, watched, bounded, below⟩

theorem called_records (records : Records r history) (fd : Nat) (handler : Handler) :
    Records r (history ++ [.called fd handler]) := by
  refine ⟨fun other => ?_, records.watched, records.bounded, records.below⟩
  rw [registered_append]
  exact records.handlers other

/-- No descriptor ceases to be watched. -/
theorem requests_watched (requests : List (Request Handler)) (r : Reactor Handler) :
    r.readFds ⊆ (requests.foldl request r).readFds := by
  induction requests generalizing r with
  | nil => exact Finset.Subset.refl _
  | cons q rest ih =>
    refine Finset.Subset.trans ?_ (ih (request r q))
    cases q with
    | addFd fd handler => exact Finset.subset_insert _ _
    | stopReactor => exact Finset.Subset.refl _

/-! ## The loop -/

theorem calledFds_requests (requests : List (Request Handler)) :
    (requests.map Event.requested).filterMap Event.calledFd = [] := by
  rw [List.filterMap_map]
  exact List.filterMap_eq_nil_iff.mpr fun _ _ => rfl

theorem callsLatest_requests (requests : List (Request Handler)) :
    CallsLatest history (requests.map .requested ++ later) ↔
      CallsLatest (history ++ requests.map .requested) later := by
  induction requests generalizing history with
  | nil => simp
  | cons q rest ih =>
    simp only [List.map_cons, List.cons_append, CallsLatest, ih, List.append_assoc,
      List.nil_append]

/-- The ready descriptors that are still ahead of the loop. -/
def ahead (ready : Finset Nat) (fd : Nat) : Finset Nat := ready.filter (fd ≤ ·)

theorem dispatches_call {body : Handler → Nat → World → List (Request Handler) × World}
    {later : Pass Handler World} (member : fd ∈ ready)
    (now : registered history fd = some handler)
    (rest : Dispatches body (history ++ [.called fd handler] ++
        (body handler fd world).1.map .requested)
      (ahead ready (fd + 1)) (body handler fd world).2 later) :
    Dispatches body history (ahead ready fd) world { later with
      events := .called fd handler :: ((body handler fd world).1.map .requested ++ later.events) } := by
  have calls : (Event.called fd handler :: ((body handler fd world).1.map .requested ++
      later.events)).filterMap Event.calledFd = fd :: later.events.filterMap Event.calledFd := by
    rw [List.filterMap_cons, List.filterMap_append, calledFds_requests]
    rfl
  refine ⟨?_, fun other => ?_, ?_, .call fd handler world rest.handled⟩
  · rw [calls]
    refine List.pairwise_cons.mpr ⟨fun other among => ?_, rest.ascending⟩
    exact (Finset.mem_filter.mp ((rest.ready_only other).mp among)).2
  · rw [calls, List.mem_cons, rest.ready_only]
    simp only [ahead, Finset.mem_filter]
    constructor
    · rintro (rfl | ⟨among, later⟩)
      · exact ⟨member, Nat.le_refl _⟩
      · exact ⟨among, Nat.le_of_succ_le later⟩
    · rintro ⟨among, from_here⟩
      rcases Nat.eq_or_lt_of_le from_here with rfl | later
      · exact Or.inl rfl
      · exact Or.inr ⟨among, later⟩
  · exact ⟨now, (callsLatest_requests (body handler fd world).1).mpr rest.latest⟩

theorem ahead_skip (other : fd ∉ ready) : ahead ready (fd + 1) = ahead ready fd := by
  ext place
  simp only [ahead, Finset.mem_filter, Nat.succ_le_iff]
  refine and_congr_right fun among => ⟨Nat.le_of_lt, fun from_here => ?_⟩
  apply Nat.lt_of_le_of_ne from_here
  rintro rfl
  exact other among

/-- The bound may grow while the loop runs, but never to `MAX_FDS`, and all
ready descriptors are within it from the start. -/
theorem scan_dispatches (body : Handler → Nat → World → List (Request Handler) × World)
    (fuel : Nat) {r : Reactor Handler} (inside : fd ≤ MAX_FDS) (enough : MAX_FDS < fd + fuel)
    (records : Records r history) (watched : ready ⊆ r.readFds) (world : World) :
    ∃ pass, scan body fuel ready fd r world = some pass ∧
      Dispatches body history (ahead ready fd) world pass := by
  induction fuel generalizing fd r history world with
  | zero => omega
  | succ fuel ih =>
    rw [scan]
    by_cases bound : (fd : Int) ≤ r.maxFd
    · have room : fd + 1 ≤ MAX_FDS := by
        have below := records.below
        omega
      by_cases member : fd ∈ ready
      · obtain ⟨handler, found⟩ := Option.isSome_iff_exists.mp
          (records.watched fd (watched member))
        have now : turn r ready fd = .call handler := by
          simp only [turn, if_pos bound, if_pos member, found]
        obtain ⟨pass, ran, dispatches⟩ := ih room (by omega)
          (requests_records (called_records records fd handler) (body handler fd world).1)
          (Finset.Subset.trans watched (requests_watched (body handler fd world).1 r))
          (body handler fd world).2
        simp only [now, ran, Option.map_some]
        refine ⟨_, rfl, dispatches_call member ?_ dispatches⟩
        rw [← records.handlers fd, found]
      · have now : turn r ready fd = .skip := by
          simp only [turn, if_pos bound, if_neg member]
        simp only [now]
        rw [← ahead_skip member]
        exact ih room (by omega) records watched world
    · have now : turn r ready fd = .endPass := if_neg bound
      simp only [now]
      refine ⟨_, rfl, List.Pairwise.nil, fun other => ?_, trivial, .nothing world⟩
      refine iff_of_false List.not_mem_nil fun among => ?_
      obtain ⟨member, later⟩ := Finset.mem_filter.mp among
      have within := records.bounded other (watched member)
      omega

/-- From whatever the reactor was asked before, and whatever the handlers ask of
it, the pass ends and has run the handler of each ready descriptor. -/
theorem pass_dispatches (body : Handler → Nat → World → List (Request Handler) × World)
    (requests : List (Request Handler)) (ready : Finset Nat) (world : World)
    (watched : ready ⊆ (started requests).readFds) :
    ∃ pass, scan body (MAX_FDS + 1) ready 0 (started requests) world = some pass ∧
      Dispatches body (requests.map .requested) ready world pass := by
  have everything : ahead ready 0 = ready := Finset.filter_true_of_mem fun _ _ => Nat.zero_le _
  have pass := scan_dispatches body (MAX_FDS + 1) (Nat.zero_le _) (by omega)
    (started_records requests) watched world
  rwa [everything] at pass

/-- Two descriptors with the same handler. -/
def twoWatched : List (Request Bool) := [.addFd ⟨3, by decide⟩ false, .addFd ⟨5, by decide⟩ false]

/-- A handler that registers another one for a descriptor ahead and for a new
one, and counts how often it is run. -/
def replacesAhead (_ : Bool) (_ : Nat) (count : Nat) : List (Request Bool) × Nat :=
  ([.addFd ⟨5, by decide⟩ true, .addFd ⟨7, by decide⟩ true], count + 1)

theorem handler_replaced_ahead :
    ∃ pass, scan replacesAhead (MAX_FDS + 1) {3, 5} 0 (started twoWatched) 0 = some pass ∧
      Dispatches replacesAhead (twoWatched.map .requested) {3, 5} 0 pass :=
  pass_dispatches replacesAhead twoWatched {3, 5} 0 (by decide)

end OsCourse.DispatchPass

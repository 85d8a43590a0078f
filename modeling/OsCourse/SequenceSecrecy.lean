import OsCourse.PageSequence

/-! What the reads of a sequence tell of the memory `kmalloc` returned. A page
does not know how much of it was written, and a read copies as many bytes of it
as it is asked for. -/
namespace OsCourse.SequenceSecrecy
open Stdio CharDevice CursorList Transition PageSequence

/-- A write with the page `kmalloc` returns, or a read with the way its copy goes. -/
inductive SequenceCall where
  | write (data : List Byte) (kmalloc : Pointer)
  | read (length : Nat) (copy : Copy)

/-- The call where the memory held the given contents before. -/
def SequenceCall.inMemory (memory : Nat → Contents) : SequenceCall → Call
  | .write data kmalloc => .write data (kmalloc.map fun new_page => (new_page, memory new_page))
  | .read length copy => .read length copy

/-- Calls from the initialisation on. No page is returned twice, and no read
is made of an empty sequence. -/
structure SequenceRun where
  kernel : Kernel
  calls : List SequenceCall
  proper : ∀ memory,
    (exec step (sequenceInit kernel) (calls.map (SequenceCall.inMemory memory))).isSome

/-- What each of the calls gives to the user. -/
def deliveries (k : Kernel) : List Call → Option (List (List Byte))
  | [] => some []
  | c :: rest => do
    let reply ← serve k c
    let later ← deliveries reply.kernel rest
    some (reply.delivered :: later)

def SequenceRun.deliveries (run : SequenceRun) (memory : Nat → Contents) :
    Option (List (List Byte)) :=
  SequenceSecrecy.deliveries (sequenceInit run.kernel)
    (run.calls.map (SequenceCall.inMemory memory))

/-- The user gets the same bytes whatever the new pages held before. -/
def RevealsWrittenOnly (run : SequenceRun) : Prop :=
  ∀ memory other, run.deliveries memory = run.deliveries other

/-! ## What was written into the pages -/

/-- A page and the bytes a write has put to its front. -/
structure Written where
  page : Nat
  data : List Byte
  fits : data.length ≤ PAGE_SIZE

def Written.contents (memory : Nat → Contents) (w : Written) : Contents :=
  (memory w.page).memcpy w.data w.fits

/-- The number of bytes a read copies. -/
def copied (length : Nat) (copy : Copy) : Nat :=
  if length ≤ PAGE_SIZE then length - copy.failed length else 0

/-- The ring of the pages behind a call. -/
def writtenServe (ring : Carousel Written) : SequenceCall → Carousel Written
  | .write _ none => ring
  | .write data (some page) =>
    if fits : data.length ≤ PAGE_SIZE then ring.append ⟨page, data, fits⟩ else ring
  | .read length copy =>
    if ring.current.isSome ∧ length ≤ PAGE_SIZE ∧ copy.failed length = 0 then ring.advance
    else ring

/-- A read copies no more than was written into the page under the cursor. -/
def WithinWritten (ring : Carousel Written) : SequenceCall → Prop
  | .write _ _ => True
  | .read length copy => ∀ w, ring.current = some w → copied length copy ≤ w.data.length

def ReadsWithinWritten : Carousel Written → List SequenceCall → Prop
  | _, [] => True
  | ring, c :: rest => WithinWritten ring c ∧ ReadsWithinWritten (writtenServe ring c) rest

/-- What a call gives to the user. -/
def given (memory : Nat → Contents) (ring : Carousel Written) : SequenceCall → List Byte
  | .write _ _ => []
  | .read length copy =>
    match ring.current with
    | none => []
    | some w => (w.contents memory).bytes.take (copied length copy)

def givenAll (memory : Nat → Contents) : Carousel Written → List SequenceCall → List (List Byte)
  | _, [] => []
  | ring, c :: rest => given memory ring c :: givenAll memory (writtenServe ring c) rest

/-- The contents of the pages do not steer the ring. -/
theorem ringServe_written (memory : Nat → Contents) (ring : Carousel Written) (c : SequenceCall) :
    (ringServe (ring.map (Written.contents memory)) (c.inMemory memory)).1.2 =
        given memory ring c ∧
      (ringServe (ring.map (Written.contents memory)) (c.inMemory memory)).2 =
        (writtenServe ring c).map (Written.contents memory) := by
  cases c with
  | write data kmalloc =>
    simp only [SequenceCall.inMemory, ringServe, given, writtenServe]
    by_cases fits : data.length ≤ PAGE_SIZE
    · cases kmalloc with
      | none => simp [fits]
      | some page => simp [fits, Carousel.map_append, Written.contents, Contents.memcpy]
    · cases kmalloc with
      | none => simp [fits]
      | some page => simp [fits]
  | read length copy =>
    simp only [SequenceCall.inMemory, ringServe, given, writtenServe, Carousel.map_current]
    cases ring.current with
    | none => simp
    | some w =>
      by_cases fits : length ≤ PAGE_SIZE
      · by_cases whole : copy.failed length = 0
        · simp [copied, fits, whole, Carousel.map_advance]
        · simp [copied, fits, whole]
      · simp [copied, fits]

/-- A run gives the user the front of each page it comes by. -/
theorem deliveries_eq (memory : Nat → Contents) (calls : List SequenceCall)
    (represents : Represents k (ring.map (Written.contents memory)))
    (proper : (exec step k (calls.map (SequenceCall.inMemory memory))).isSome) :
    deliveries k (calls.map (SequenceCall.inMemory memory)) = some (givenAll memory ring calls) := by
  induction calls generalizing k ring with
  | nil => rfl
  | cons c rest ih =>
    obtain ⟨last, ran⟩ := Option.isSome_iff_exists.mp proper
    obtain ⟨middle, stepped, onward⟩ := exec_cons_some.mp ran
    unfold step at stepped
    split at stepped
    · rename_i allowed
      obtain ⟨reply, served, answer, next⟩ := serve_refines represents allowed
      obtain ⟨bytes, after⟩ := ringServe_written memory ring c
      rw [served, Option.map_some, Option.some.injEq] at stepped
      rw [after] at next
      have later := ih next (by rw [stepped, onward]; rfl)
      have delivered : reply.delivered = given memory ring c :=
        (congrArg Prod.snd answer).trans bytes
      simp only [List.map_cons, deliveries, served, Option.bind_eq_bind, Option.bind_some, later,
        delivered]
      rfl
    · cases stepped

/-! ## Two memories -/

/-- Memory that holds one byte everywhere. -/
def uniform (byte : Byte) : Contents := ⟨List.replicate PAGE_SIZE byte, List.length_replicate⟩

theorem take_contents (memory : Nat → Contents) (w : Written) (within : n ≤ w.data.length) :
    (w.contents memory).bytes.take n = w.data.take n := List.take_append_of_le_length within

/-- The first byte behind the written ones is one of the memory's. -/
theorem contents_behind (byte : Byte) (w : Written) (room : w.data.length < PAGE_SIZE) :
    (w.contents fun _ => uniform byte).bytes[w.data.length]? = some byte := by
  have there : w.data.length < (uniform byte).bytes.length := by
    rw [(uniform byte).size]
    exact room
  simp only [Written.contents, Contents.memcpy]
  rw [List.getElem?_append_right (Nat.le_refl _), Nat.sub_self, List.getElem?_drop, Nat.add_zero,
    List.getElem?_eq_getElem there]
  simp [uniform]

theorem copied_le (length : Nat) (copy : Copy) : copied length copy ≤ PAGE_SIZE := by
  unfold copied
  split <;> omega

theorem given_same_iff (ring : Carousel Written) (c : SequenceCall) :
    (∀ memory other, given memory ring c = given other ring c) ↔ WithinWritten ring c := by
  cases c with
  | write data kmalloc => exact ⟨fun _ => trivial, fun _ _ _ => rfl⟩
  | read length copy =>
    constructor
    · intro same w now
      refine Nat.le_of_not_lt fun beyond => ?_
      have room : w.data.length < PAGE_SIZE := Nat.lt_of_lt_of_le beyond (copied_le length copy)
      have equal := congrArg (·[w.data.length]?) (same (fun _ => uniform 0) fun _ => uniform 1)
      simp only [given, now, List.getElem?_take_of_lt beyond, contents_behind _ w room] at equal
      exact absurd equal (by decide)
    · intro within memory other
      simp only [given]
      cases now : ring.current with
      | none => rfl
      | some w =>
        simp only [take_contents _ w (within w now)]

theorem givenAll_same_iff (ring : Carousel Written) (calls : List SequenceCall) :
    (∀ memory other, givenAll memory ring calls = givenAll other ring calls) ↔
      ReadsWithinWritten ring calls := by
  induction calls generalizing ring with
  | nil => exact ⟨fun _ => trivial, fun _ _ _ => rfl⟩
  | cons c rest ih =>
    simp only [givenAll, List.cons.injEq, ReadsWithinWritten, forall_and, given_same_iff, ih]

theorem run_deliveries (run : SequenceRun) (memory : Nat → Contents) :
    run.deliveries memory = some (givenAll memory Carousel.empty run.calls) :=
  deliveries_eq memory run.calls (empty_represents rfl rfl rfl) (run.proper memory)

/-- The reads tell nothing of the memory behind the written bytes exactly when
none of them asks for more than the page under the cursor was given. -/
theorem reveals_written_only_iff (run : SequenceRun) :
    RevealsWrittenOnly run ↔ ReadsWithinWritten Carousel.empty run.calls := by
  simp only [RevealsWrittenOnly, run_deliveries, Option.some.injEq]
  exact givenAll_same_iff Carousel.empty run.calls

/-- One byte is written, and two are read. -/
def longRead : SequenceRun where
  kernel := ⟨∅, none, none, none⟩
  calls := [.write [0x41] (some 0), .read 2 ⟨0, true⟩]
  proper := by
    intro memory
    rfl

theorem long_read_reveals_memory : ¬ ∀ run, RevealsWrittenOnly run := by
  intro reveals
  have same := (givenAll_same_iff Carousel.empty longRead.calls).mp
    (by simpa only [RevealsWrittenOnly, run_deliveries, Option.some.injEq] using reveals longRead)
  obtain ⟨-, within, -⟩ := same
  exact absurd (within _ rfl) (by decide)

end OsCourse.SequenceSecrecy

import OsCourse.PageSequence

/-! Reads of a sequence that may be empty. `sequence_read` sets a `current` that
is `NULL` to `head` and follows it without a further test. -/
namespace OsCourse.SequenceSafety
open Stdio CharDevice CursorList Transition PageSequence

/-- A page `kmalloc` returns is not in use. Nothing keeps the callers from
reading an empty sequence. -/
def Fresh (k : Kernel) : Call → Prop
  | .write _ (some (new_page, _)) => new_page ∉ k.heap
  | _ => True

instance (k : Kernel) : ∀ c, Decidable (Fresh k c)
  | .write _ (some (new_page, _)) => inferInstanceAs (Decidable (new_page ∉ k.heap))
  | .write _ none | .init | .destroy | .read _ _ => isTrue trivial

/-- A call made at any time. A run ends where one follows `NULL`. -/
def anyStep (k : Kernel) (c : Call) : Option Kernel :=
  if Fresh k c then (serve k c).map Returned.kernel else none

/-- A read never follows `NULL`, however its copy goes; without a page to read it
returns an error and nothing changes. -/
def ReadsSafely (k : Kernel) (length : Nat) : Prop :=
  ∀ copy, ∃ reply, sequenceRead k length copy = some reply ∧
    (k.head = none → reply.code < 0 ∧ reply.kernel = k)

/-- With all pointers `NULL` a read comes back only where it does not get to
the page. -/
theorem sequenceRead_empty (head : k.head = none) (current : k.current = none)
    (fits : length ≤ PAGE_SIZE) (copy : Copy) :
    sequenceRead k length copy =
      if 0 < length ∧ copy.failed length = length then some ⟨-EFAULT, [], k⟩ else none := by
  obtain ⟨heap, first, last, place⟩ := k
  simp only at head current
  subst head current
  simp only [sequenceRead, if_pos fits, ↓reduceIte, Option.bind_none]

theorem sequenceRead_long (k : Kernel) (long : ¬ length ≤ PAGE_SIZE) (copy : Copy) :
    sequenceRead k length copy = some ⟨-1, [], k⟩ := if_neg long

theorem empty_current (links : Linked k ring nodes) (head : k.head = none) : k.current = none := by
  have nothing := (linked_head links).mp head
  rw [← links.pages, List.map_eq_nil_iff] at nothing
  rw [links.current, nothing]
  rfl

/-- A read of an empty sequence that comes back leaves it as it is. -/
theorem empty_read_kept (links : Linked k ring nodes) (head : k.head = none)
    (read : sequenceRead k length copy = some reply) : reply.kernel = k := by
  by_cases fits : length ≤ PAGE_SIZE
  · rw [sequenceRead_empty head (empty_current links head) fits] at read
    split at read
    · cases read
      rfl
    · cases read
  · rw [sequenceRead_long k fits] at read
    cases read
    rfl

/-- The pointers stay those of a ring, also where reads are made of nothing. -/
theorem anyStep_represents (k : Kernel) (c : Call) (t : Kernel)
    (represents : ∃ ring, Represents k ring) (stepped : anyStep k c = some t) :
    ∃ ring, Represents t ring := by
  obtain ⟨ring, nodes, links⟩ := represents
  unfold anyStep at stepped
  split at stepped
  · rename_i fresh
    obtain ⟨reply, served, rfl⟩ := Option.map_eq_some_iff.mp stepped
    by_cases proper : Proper k c
    · obtain ⟨other, again, -, next⟩ := serve_refines ⟨nodes, links⟩ proper
      rw [served] at again
      cases again
      exact ⟨_, next⟩
    · cases c with
      | read length copy =>
        have head : k.head = none := Classical.not_not.mp proper
        rw [empty_read_kept links head served]
        exact ⟨ring, nodes, links⟩
      | write data kmalloc => exact absurd (by cases kmalloc <;> exact fresh) proper
      | init => exact absurd trivial proper
      | destroy => exact absurd trivial proper
  · cases stepped

/-- With a page in the sequence, and with a length that is too long, a read is
safe, and never otherwise. -/
theorem reads_safely_iff (links : Linked k ring nodes) (length : Nat) :
    ReadsSafely k length ↔ k.head ≠ none ∨ PAGE_SIZE < length := by
  constructor
  · intro safe
    refine or_iff_not_imp_left.mpr fun nothing => Nat.lt_of_not_le fun fits => ?_
    have head : k.head = none := Classical.not_not.mp nothing
    obtain ⟨reply, read, -⟩ := safe ⟨0, true⟩
    have nothing_fails : ¬ (0 < length ∧ (⟨0, true⟩ : Copy).failed length = length) := by
      rw [Copy.failed, Nat.zero_min]
      omega
    rw [sequenceRead_empty head (empty_current links head) fits, if_neg nothing_fails] at read
    cases read
  · rintro (filled | long) copy
    · obtain ⟨reply, served, -, -⟩ := read_refines links length copy filled
      exact ⟨reply, served, fun head => absurd head filled⟩
    · exact ⟨_, sequenceRead_long k (Nat.not_le.mpr long) copy, fun _ => ⟨Int.negSucc_lt_zero 0, rfl⟩⟩

/-- At any time behind the initialisation, whatever was called, a read is safe
exactly when there is a page, or it asks for more than a page holds. -/
theorem reads_safely_with_page (k : Kernel) (calls : List Call) :
    Throughout anyStep
      (fun k => ∀ length, ReadsSafely k length ↔ k.head ≠ none ∨ PAGE_SIZE < length)
      (sequenceInit k) calls := by
  refine throughout_of_invariant anyStep_represents ?_ ⟨_, empty_represents rfl rfl rfl⟩ calls
  rintro t ⟨ring, nodes, links⟩ length
  exact reads_safely_iff links length

/-- A read right behind the initialisation follows `NULL`. -/
theorem first_read_follows_null :
    ¬ ∀ k calls, Throughout anyStep (fun k => ∀ length, ReadsSafely k length)
      (sequenceInit k) calls := by
  intro always
  obtain ⟨reply, read, -⟩ := always ⟨∅, none, none, none⟩ [] 1 ⟨0, true⟩
  cases read

end OsCourse.SequenceSafety

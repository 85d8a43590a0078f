import OsCourse.HeapChain
import OsCourse.SequenceSafety

/-! The pages of a sequence among those of the kernel. Whatever is called, the
pages the sequence has allocated are the ones `sequence_destroy` would free now,
each once, and all others are as they were. Only an initialisation of a
sequence with pages loses them. -/
namespace OsCourse.SequenceMemory
open Stdio CharDevice CursorList HeapChain Transition PageSequence SequenceSafety

/-- The pages at these addresses belong to the sequence, and the rest of the
kernel's pages is as it was found. -/
structure Owned (found : Heap) (k : Kernel) (addresses : List Nat) : Prop where
  linked : Chain Page.next k.heap k.head addresses
  distinct : addresses.Nodup
  tail : k.tail = addresses.getLast?
  others : ∀ address, address ∉ addresses → k.heap.lookup address = found.lookup address
  apart : ∀ address ∈ addresses, found.lookup address = none

/-- Destroying the sequence now would leave the pages as they were found. -/
structure Accounted (found : Heap) (k : Kernel) : Prop where
  owned : ∃ addresses, Owned found k addresses
  destroyed : sequenceDestroy k = some ⟨found, none, none, none⟩

/-- The sequence is initialised only without pages. -/
def InitialisedEmpty (k : Kernel) (c : Call) : Prop := c = .init → k.head = none

/-- The loop of `sequence_destroy` frees the chain and nothing else. -/
theorem free_chain {heap : Heap} (chain : Chain Page.next heap pointer addresses)
    (distinct : addresses.Nodup) : ∃ left, freePages heap pointer = some left ∧
      ∀ address, left.lookup address =
        if address ∈ addresses then none else heap.lookup address := by
  induction addresses generalizing heap pointer with
  | nil =>
    obtain rfl : pointer = none := chain
    exact ⟨heap, by rw [freePages], fun address => by simp⟩
  | cons first rest ih =>
    obtain ⟨rfl, page, found, later⟩ := chain
    obtain ⟨new, rest_distinct⟩ := List.nodup_cons.mp distinct
    have rest_chain : Chain Page.next (heap.erase first) page.next rest := by
      apply chain_frame later
      intro address member
      refine Finmap.lookup_erase_ne ?_
      rintro rfl
      exact new member
    obtain ⟨left, freed, gone⟩ := ih rest_chain rest_distinct
    refine ⟨left, ?_, fun address => ?_⟩
    · rw [freePages]
      split
      · rename_i other same
        rw [found] at same
        cases same
        exact freed
      · rename_i missing
        rw [found] at missing
        cases missing
    · rw [gone]
      by_cases here : address = first
      · subst here
        simp [new]
      · simp [here, Finmap.lookup_erase_ne here]

theorem owned_destroyed (owned : Owned found k addresses) :
    sequenceDestroy k = some ⟨found, none, none, none⟩ := by
  obtain ⟨left, freed, gone⟩ := free_chain owned.linked owned.distinct
  have same : left = found := by
    apply Finmap.ext_lookup
    intro address
    rw [gone]
    split
    · rename_i member
      exact (owned.apart address member).symm
    · rename_i member
      exact owned.others address member
  rw [sequenceDestroy, freed, same]
  rfl

theorem owned_accounted (owned : Owned found k addresses) : Accounted found k :=
  ⟨⟨addresses, owned⟩, owned_destroyed owned⟩

theorem empty_owned (found : Heap) (current : Pointer) :
    Owned found ⟨found, none, none, current⟩ [] :=
  ⟨rfl, List.nodup_nil, rfl, fun _ _ => rfl, nofun⟩

/-- A page that is not in use is none of the sequence's and none of the others. -/
theorem fresh_page (owned : Owned found k addresses) (fresh : new_page ∉ k.heap) :
    new_page ∉ addresses ∧ found.lookup new_page = none := by
  have outside : new_page ∉ addresses := by
    intro member
    obtain ⟨page, there⟩ := chain_found owned.linked member
    exact fresh (Finmap.mem_of_lookup_eq_some there)
  refine ⟨outside, ?_⟩
  rw [← owned.others new_page outside]
  exact Finmap.lookup_eq_none.mpr fresh

/-- A page written to an empty sequence is its only one. -/
theorem first_page_owned (owned : Owned found k []) (fresh : new_page ∉ k.heap) (data : Contents) :
    Owned found ⟨k.heap.insert new_page ⟨data, none⟩, some new_page, some new_page, some new_page⟩
      [new_page] := by
  refine ⟨⟨rfl, ⟨data, none⟩, Finmap.lookup_insert k.heap, rfl⟩, List.nodup_singleton _, rfl,
    fun address other => ?_, fun address member => ?_⟩
  · rw [Finmap.lookup_insert_of_ne _ (fun same => other (List.mem_singleton.mpr same))]
    exact owned.others address List.not_mem_nil
  · rw [List.mem_singleton.mp member]
    exact (fresh_page owned fresh).2

theorem new_page_placed (heap : Heap) (old : new_page ≠ last) (data : Contents) (page : Page) :
    ((heap.insert new_page ⟨data, none⟩).insert last page).lookup new_page =
      some ⟨data, none⟩ := by
  rw [Finmap.lookup_insert_of_ne _ old, Finmap.lookup_insert]

/-- A further page is linked behind the last one. -/
theorem next_page_owned (owned : Owned found k (front ++ [last])) (fresh : new_page ∉ k.heap)
    (there : k.heap.lookup last = some page) (data : Contents) (current : Pointer) :
    Owned found ⟨(k.heap.insert new_page ⟨data, none⟩).insert last { page with next := some new_page },
      k.head, some new_page, current⟩ (front ++ [last] ++ [new_page]) := by
  obtain ⟨outside, unknown⟩ := fresh_page owned fresh
  have last_old : last ≠ new_page := by
    rintro rfl
    exact outside (List.mem_append_right front (List.mem_singleton.mpr rfl))
  have last_final : last ∉ front := by
    intro member
    exact List.disjoint_of_nodup_append owned.distinct member (List.mem_singleton.mpr rfl)
  refine ⟨?_, ?_, ?_, fun address other => ?_, fun address member => ?_⟩
  · apply chain_snoc owned.linked (fun address member => ?_) (Finmap.lookup_insert _) rfl
      (new_page_placed k.heap last_old.symm data _) rfl
    have inner : address ≠ last := by
      rintro rfl
      exact last_final member
    have old : address ≠ new_page := by
      rintro rfl
      exact outside (List.mem_append_left _ member)
    rw [Finmap.lookup_insert_of_ne _ inner, Finmap.lookup_insert_of_ne _ old]
  · refine List.Nodup.append owned.distinct (List.nodup_singleton _) ?_
    intro address member new
    rw [List.mem_singleton.mp new] at member
    exact outside member
  · simp
  · simp only [List.mem_append, List.mem_singleton, not_or] at other
    rw [Finmap.lookup_insert_of_ne _ other.1.2, Finmap.lookup_insert_of_ne _ other.2]
    apply owned.others
    simp [other.1]
  · rcases List.mem_append.mp member with old | new
    · exact owned.apart address old
    · rw [List.mem_singleton.mp new]
      exact unknown

theorem owned_head (owned : Owned found k addresses) : k.head = addresses.head? :=
  chain_starts owned.linked

/-- The page that was last is still there when the new one is linked to it. -/
theorem write_keeps (owned : Owned found k addresses) (fresh : Fresh k (.write data kmalloc))
    (written : sequenceWrite k data kmalloc = some reply) :
    ∃ later, Owned found reply.kernel later := by
  unfold sequenceWrite at written
  split at written
  · rename_i fits
    cases kmalloc with
    | none =>
      cases written
      exact ⟨addresses, owned⟩
    | some memory =>
      obtain ⟨new_page, memory⟩ := memory
      rcases List.eq_nil_or_concat addresses with rfl | ⟨front, last, rfl⟩
      · simp only [owned_head owned, List.head?_nil, Option.some.injEq] at written
        rw [← written]
        exact ⟨_, first_page_owned owned fresh _⟩
      · rw [List.concat_eq_append] at owned
        obtain ⟨page, there⟩ := chain_found owned.linked
          (List.mem_append_right front (List.mem_singleton.mpr rfl))
        have old : last ≠ new_page := by
          rintro rfl
          exact fresh (Finmap.mem_of_lookup_eq_some there)
        obtain ⟨head, starts⟩ : ∃ head, k.head = some head := by
          rw [owned_head owned]
          cases front <;> exact ⟨_, rfl⟩
        have tail : k.tail = some last := by rw [owned.tail]; simp
        simp only [starts, tail, Option.bind_eq_bind, Option.bind_some,
          Finmap.lookup_insert_of_ne _ old, there, Option.some.injEq] at written
        rw [← written, ← starts]
        exact ⟨_, next_page_owned owned fresh there _ _⟩
  · cases written
    exact ⟨addresses, owned⟩

/-- A read moves the cursor alone. -/
theorem read_moves_cursor (read : sequenceRead k length copy = some reply) :
    ∃ current, reply.kernel = { k with current } := by
  simp only [sequenceRead] at read
  generalize (if k.current = none then k.head else k.current) = current at read
  split at read
  · cases there : current.bind k.heap.lookup with
    | none =>
      simp only [there] at read
      split at read
      · cases read
        exact ⟨_, rfl⟩
      · cases read
    | some page =>
      simp only [there] at read
      split at read <;> cases read <;> exact ⟨_, rfl⟩
  · cases read
    exact ⟨_, rfl⟩

theorem cursor_owned (owned : Owned found k addresses) (current : Pointer) :
    Owned found { k with current } addresses :=
  ⟨owned.linked, owned.distinct, owned.tail, owned.others, owned.apart⟩

/-- The pages of a sequence that is initialised over them stay in the kernel. -/
theorem init_loses (owned : Owned found k addresses) (filled : k.head ≠ none) :
    k.heap ≠ found := by
  intro same
  obtain ⟨address, starts⟩ := Option.ne_none_iff_exists'.mp filled
  have member : address ∈ addresses := by
    rw [owned_head owned] at starts
    exact List.mem_of_mem_head? starts
  obtain ⟨page, there⟩ := chain_found owned.linked member
  rw [same, owned.apart address member] at there
  cases there

theorem init_accounted_iff (accounted : Accounted found k) :
    Accounted found (sequenceInit k) ↔ k.head = none := by
  obtain ⟨⟨addresses, owned⟩, -⟩ := accounted
  constructor
  · intro initialised
    by_contra filled
    have destroyed : some (Kernel.mk k.heap none none none) = some ⟨found, none, none, none⟩ := by
      rw [← initialised.destroyed, sequenceDestroy, sequenceInit, freePages]
      rfl
    apply init_loses owned filled
    exact congrArg Kernel.heap (Option.some.inj destroyed)
  · intro head
    obtain rfl : addresses = [] := by
      rw [owned_head owned] at head
      exact List.head?_eq_none_iff.mp head
    have same : k.heap = found :=
      Finmap.ext_lookup fun address => owned.others address List.not_mem_nil
    rw [sequenceInit, same]
    exact owned_accounted (empty_owned found none)

/-- What one call does to the account. -/
theorem step_accounted_iff (accounted : Accounted found k) (stepped : anyStep k c = some next) :
    Accounted found next ↔ InitialisedEmpty k c := by
  obtain ⟨⟨addresses, owned⟩, destroyed⟩ := accounted
  unfold anyStep at stepped
  split at stepped
  case isFalse => cases stepped
  rename_i fresh
  obtain ⟨reply, served, rfl⟩ := Option.map_eq_some_iff.mp stepped
  cases c with
  | init =>
    cases served
    have empty : InitialisedEmpty k .init ↔ k.head = none := ⟨fun holds => holds rfl, fun h _ => h⟩
    rw [empty]
    exact init_accounted_iff ⟨⟨addresses, owned⟩, destroyed⟩
  | destroy =>
    simp only [serve, destroyed, Option.map_some, Option.some.injEq] at served
    rw [← served]
    exact iff_of_true (owned_accounted (empty_owned found none)) (fun same => by cases same)
  | write data kmalloc =>
    obtain ⟨later, kept⟩ := write_keeps owned fresh served
    exact iff_of_true (owned_accounted kept) (fun same => by cases same)
  | read length copy =>
    obtain ⟨current, moved⟩ := read_moves_cursor served
    rw [moved]
    exact iff_of_true (owned_accounted (cursor_owned owned current)) (fun same => by cases same)

/-- From its initialisation on the sequence neither loses a page nor touches
one of another owner, whatever is called, an empty sequence read included, exactly
if it is never initialised again over pages it has. -/
theorem pages_accounted_iff (k : Kernel) (calls : List Call) :
    Throughout anyStep (Accounted k.heap) (sequenceInit k) calls ↔
      Along anyStep InitialisedEmpty (sequenceInit k) calls := by
  have start : Accounted k.heap (sequenceInit k) := owned_accounted (empty_owned k.heap none)
  apply throughout_iff_along ?_ start
  intro s c t accounted stepped
  exact step_accounted_iff accounted stepped

end OsCourse.SequenceMemory

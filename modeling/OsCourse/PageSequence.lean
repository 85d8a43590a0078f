import Mathlib.Data.Finmap
import OsCourse.CharDevice
import OsCourse.CursorList

/-! `sequence.c`: pages linked from `head` to `tail`, and a read cursor among
them. The heap holds the pages that are allocated; a function has no result
where it follows a pointer to none of them. -/
namespace OsCourse.PageSequence
open Stdio CharDevice CursorList Transition

/-- The array `data` of a page. -/
structure Contents where
  bytes : List Byte
  size : bytes.length = PAGE_SIZE

/-- An address, or `NULL`. -/
abbrev Pointer := Option Nat

structure Page where
  data : Contents
  next : Pointer

abbrev Heap := Finmap fun _ : Nat => Page

/-- The kernel's pages and the `struct sequence`. -/
structure Kernel where
  heap : Heap
  head : Pointer
  tail : Pointer
  current : Pointer

/-- What a call returns, the bytes it copies to the user and the kernel it leaves. -/
structure Returned where
  code : Int
  delivered : List Byte
  kernel : Kernel

/-- A page of `data` and of what the memory held behind it is full. -/
theorem started_size (memory : Contents) {data : List Byte} (fits : data.length ≤ PAGE_SIZE) :
    (data ++ memory.bytes.drop data.length).length = PAGE_SIZE := by
  rw [List.length_append, List.length_drop, memory.size]
  exact Nat.add_sub_of_le fits

/-- `memcpy` to the start of the array. -/
def Contents.memcpy (memory : Contents) (data : List Byte) (fits : data.length ≤ PAGE_SIZE) :
    Contents where
  bytes := data ++ memory.bytes.drop data.length
  size := started_size memory fits

def sequenceInit (k : Kernel) : Kernel := { k with head := none, tail := none, current := none }

theorem erase_card_lt {heap : Heap} (found : heap.lookup curr = some page) :
    (heap.erase curr).keys.card < heap.keys.card := by
  rw [Finmap.keys_erase]
  exact Finset.card_erase_lt_of_mem (Finmap.mem_keys.mpr (Finmap.mem_of_lookup_eq_some found))

/-- The loop of `sequence_destroy`. -/
def freePages (heap : Heap) : Pointer → Option Heap
  | none => some heap
  | some curr =>
    match _ : heap.lookup curr with
    | some page => freePages (heap.erase curr) page.next
    | none => none
termination_by heap.keys.card
decreasing_by exact erase_card_lt ‹_›

def sequenceDestroy (k : Kernel) : Option Kernel :=
  (freePages k.heap k.head).map fun heap => ⟨heap, none, none, none⟩

/-- `sequence_write` of the bytes at `data`. `kmalloc` returns a page that is not
in use, with what its memory holds, or fails. -/
def sequenceWrite (k : Kernel) (data : List Byte) (kmalloc : Option (Nat × Contents)) :
    Option Returned :=
  if fits : data.length ≤ PAGE_SIZE then
    match kmalloc with
    | none => some ⟨-1, [], k⟩
    | some (new_page, memory) =>
      let heap := k.heap.insert new_page ⟨memory.memcpy data fits, none⟩
      match k.head with
      | none => some ⟨0, [], ⟨heap, some new_page, some new_page, some new_page⟩⟩
      | some head => do
        let tail ← k.tail
        let page ← heap.lookup tail
        some ⟨0, [],
          ⟨heap.insert tail { page with next := some new_page }, some head, some new_page, k.current⟩⟩
  else some ⟨-1, [], k⟩

/-- `sequence_read`. Of a page that is not there nothing can be copied, and
behind the copy its `next` is read. -/
def sequenceRead (k : Kernel) (length : Nat) (copy : Copy) : Option Returned :=
  if length ≤ PAGE_SIZE then
    let current := if k.current = none then k.head else k.current
    match current.bind k.heap.lookup with
    | none =>
      if 0 < length ∧ copy.failed length = length then some ⟨-EFAULT, [], { k with current }⟩
      else none
    | some page =>
      let delivered := page.data.bytes.take (length - copy.failed length)
      if copy.failed length ≠ 0 then some ⟨-EFAULT, delivered, { k with current }⟩
      else
        let current := if page.next = none then k.head else page.next
        some ⟨0, delivered, { k with current }⟩
  else some ⟨-1, [], k⟩

inductive Call where
  | init
  | destroy
  | write (data : List Byte) (kmalloc : Option (Nat × Contents))
  | read (length : Nat) (copy : Copy)

def serve (k : Kernel) : Call → Option Returned
  | .init => some ⟨0, [], sequenceInit k⟩
  | .destroy => (sequenceDestroy k).map fun k => ⟨0, [], k⟩
  | .write data kmalloc => sequenceWrite k data kmalloc
  | .read length copy => sequenceRead k length copy

/-- A page `kmalloc` returns is not in use, and reads are made of a sequence
with a page in it. -/
def Proper (k : Kernel) : Call → Prop
  | .write _ (some (new_page, _)) => new_page ∉ k.heap
  | .read _ _ => k.head ≠ none
  | _ => True

instance (k : Kernel) (c : Call) : Decidable (Proper k c) := by
  unfold Proper
  split <;> infer_instance

def step (k : Kernel) (c : Call) : Option Kernel :=
  if Proper k c then (serve k c).map Returned.kernel else none

/-! ## The ring behind the pointers -/

/-- What the calls do to a ring of pages with a cursor: the code returned and
the bytes copied, and the ring behind the call. A write appends a page of the
bytes written, with what the memory held behind them. -/
def ringServe (ring : Carousel Contents) : Call → (Int × List Byte) × Carousel Contents
  | .init => ((0, []), Carousel.empty)
  | .destroy => ((0, []), Carousel.empty)
  | .write data kmalloc =>
    if fits : data.length ≤ PAGE_SIZE then
      match kmalloc with
      | none => ((-1, []), ring)
      | some (_, memory) =>
        ((0, []), ring.append ⟨data ++ memory.bytes.drop data.length, started_size memory fits⟩)
    else ((-1, []), ring)
  | .read length copy =>
    match ring.current with
    | none => ((-1, []), ring)
    | some page =>
      if length ≤ PAGE_SIZE then
        if copy.failed length = 0 then ((0, page.bytes.take length), ring.advance)
        else ((-EFAULT, page.bytes.take (length - copy.failed length)), ring)
      else ((-1, []), ring)

/-- The addresses and contents of the pages in their order: each page links to
the next one, the last to none, and the three pointers are where they belong. -/
structure Linked (k : Kernel) (ring : Carousel Contents) (nodes : List (Nat × Contents)) :
    Prop where
  pages : nodes.map Prod.snd = ring.items
  distinct : (nodes.map Prod.fst).Nodup
  linked : ∀ i address data, nodes[i]? = some (address, data) →
    k.heap.lookup address = some ⟨data, nodes[i + 1]?.map Prod.fst⟩
  head : k.head = nodes[0]?.map Prod.fst
  tail : k.tail = nodes.getLast?.map Prod.fst
  current : k.current = nodes[ring.cursor]?.map Prod.fst

variable {k : Kernel} {ring : Carousel Contents} {nodes front : List (Nat × Contents)}

def Represents (k : Kernel) (ring : Carousel Contents) : Prop := ∃ nodes, Linked k ring nodes

theorem empty_represents (head : k.head = none) (tail : k.tail = none)
    (current : k.current = none) : Represents k Carousel.empty := by
  refine ⟨[], rfl, List.nodup_nil, ?_, head, tail, current⟩
  intro i address data found
  cases found

/-- Where a page is under the cursor, `current` is its address. -/
theorem linked_current (links : Linked k ring nodes) (now : ring.current = some page) :
    ∃ address, nodes[ring.cursor]? = some (address, page) ∧ k.current = some address := by
  have found : (nodes.map Prod.snd)[ring.cursor]? = some page := links.pages ▸ now
  rw [List.getElem?_map, Option.map_eq_some_iff] at found
  obtain ⟨⟨address, data⟩, here, rfl⟩ := found
  refine ⟨address, here, ?_⟩
  rw [links.current, here]
  rfl

theorem linked_head (links : Linked k ring nodes) : k.head = none ↔ ring.items = [] := by
  rw [links.head, ← links.pages]
  cases nodes with
  | nil => simp
  | cons node rest => simp

theorem length_pages (links : Linked k ring nodes) : ring.items.length = nodes.length := by
  rw [← links.pages, List.length_map]

/-- The loop comes to the end of the list and frees what it passed. -/
theorem free_pages_ends (nodes : List (Nat × Contents)) {heap : Heap}
    (distinct : (nodes.map Prod.fst).Nodup)
    (linked : ∀ i address data, nodes[i]? = some (address, data) →
      heap.lookup address = some ⟨data, nodes[i + 1]?.map Prod.fst⟩) :
    ∃ left, freePages heap (nodes[0]?.map Prod.fst) = some left := by
  induction nodes generalizing heap with
  | nil => exact ⟨heap, by simp [freePages]⟩
  | cons node rest ih =>
    obtain ⟨address, data⟩ := node
    have here := linked 0 address data rfl
    obtain ⟨new, later⟩ := List.nodup_cons.mp distinct
    have rest_linked (i : Nat) (other : Nat) (contents : Contents)
        (found : rest[i]? = some (other, contents)) :
        (heap.erase address).lookup other = some ⟨contents, rest[i + 1]?.map Prod.fst⟩ := by
      have different : other ≠ address := by
        rintro rfl
        exact new (List.mem_map.mpr ⟨_, List.mem_of_getElem? found, rfl⟩)
      rw [Finmap.lookup_erase_ne different]
      exact linked (i + 1) other contents found
    obtain ⟨left, freed⟩ := ih later rest_linked
    refine ⟨left, ?_⟩
    simp only [List.getElem?_cons_zero, Option.map_some]
    rw [freePages]
    split
    · rename_i page found
      rw [here] at found
      cases found
      exact freed
    · rename_i missing
      rw [here] at missing
      cases missing

theorem destroy_represents (represents : Represents k ring) :
    ∃ left, sequenceDestroy k = some left ∧ Represents left Carousel.empty := by
  obtain ⟨nodes, links⟩ := represents
  obtain ⟨left, freed⟩ := free_pages_ends nodes links.distinct links.linked
  rw [← links.head] at freed
  refine ⟨⟨left, none, none, none⟩, ?_, empty_represents rfl rfl rfl⟩
  rw [sequenceDestroy, freed]
  rfl

/-- The first page is head, tail and current at once. -/
theorem first_page_represents (nothing : ring.items = []) (new_page : Nat) (page : Contents) :
    Represents ⟨k.heap.insert new_page ⟨page, none⟩, some new_page, some new_page, some new_page⟩
      (ring.append page) := by
  have cursor : (ring.append page).cursor = 0 := by simp [Carousel.append, nothing]
  refine ⟨[(new_page, page)], ?_, List.nodup_singleton _, ?_, rfl, rfl, ?_⟩
  · simp [Carousel.append, nothing]
  · intro i address data found
    rw [List.getElem?_singleton] at found
    split at found
    · rename_i first
      cases found
      subst first
      exact Finmap.lookup_insert k.heap
    · cases found
  · rw [cursor]
    rfl

/-- `kmalloc` returns none of the pages of the list. -/
theorem page_not_new {i address : Nat} {data : Contents} (links : Linked k ring nodes)
    (fresh : new_page ∉ k.heap) (found : nodes[i]? = some (address, data)) :
    address ≠ new_page := by
  rintro rfl
  exact fresh (Finmap.mem_of_lookup_eq_some (links.linked i _ data found))

/-- With a further page behind the last one each page has its successor. -/
theorem next_page_linked (links : Linked k ring (front ++ [(last, data)]))
    (fresh : new_page ∉ k.heap) (page : Contents)
    (found : (front ++ [(last, data)] ++ [(new_page, page)])[i]? = some (address, contents)) :
    ((k.heap.insert new_page ⟨page, none⟩).insert last ⟨data, some new_page⟩).lookup address =
      some ⟨contents, (front ++ [(last, data)] ++ [(new_page, page)])[i + 1]?.map Prod.fst⟩ := by
  rcases Nat.lt_trichotomy i front.length with inner | rfl | outer
  · -- a page in front of the last one stays as it is
    rw [List.getElem?_append_left (by simp; omega)] at found
    have different : address ≠ last := by
      rintro rfl
      rw [List.getElem?_append_left inner] at found
      have distinct := links.distinct
      rw [List.map_append] at distinct
      refine List.disjoint_of_nodup_append distinct ?_ (List.mem_singleton.mpr rfl)
      exact List.mem_map.mpr ⟨_, List.mem_of_getElem? found, rfl⟩
    rw [Finmap.lookup_insert_of_ne _ different,
      Finmap.lookup_insert_of_ne _ (page_not_new links fresh found),
      links.linked i address contents found,
      List.getElem?_append_left (by simp; omega : i + 1 < (front ++ [(last, data)]).length)]
  · simp only [List.append_assoc, List.cons_append, List.nil_append,
      List.getElem?_append_right (Nat.le_refl _), Nat.sub_self, List.getElem?_cons_zero,
      Option.some.injEq, Prod.mk.injEq] at found
    obtain ⟨rfl, rfl⟩ := found
    rw [Finmap.lookup_insert]
    simp
  · have last_old : last ≠ new_page :=
      page_not_new links fresh (List.getElem?_concat_length (l := front) (a := (last, data)))
    obtain ⟨bound, here⟩ := List.getElem?_eq_some_iff.mp found
    have final : i = front.length + 1 := by
      simp at bound
      omega
    subst final
    simp at here
    obtain ⟨rfl, rfl⟩ := here
    rw [Finmap.lookup_insert_of_ne _ (Ne.symm last_old), Finmap.lookup_insert]
    simp

/-- A further page is linked behind the last one. -/
theorem next_page_represents (links : Linked k ring (front ++ [(last, data)]))
    (fresh : new_page ∉ k.heap) (page : Contents) :
    Represents ⟨(k.heap.insert new_page ⟨page, none⟩).insert last ⟨data, some new_page⟩,
      k.head, some new_page, k.current⟩ (ring.append page) := by
  have cursor_inside : ring.cursor < (front ++ [(last, data)]).length := by
    rw [← length_pages links]
    apply ring.inside
    rw [← links.pages]
    simp
  have same_cursor : (ring.append page).cursor = ring.cursor := by
    simp [Carousel.append, ← links.pages]
  refine ⟨front ++ [(last, data)] ++ [(new_page, page)], ?_, ?_, ?_, ?_, ?_, ?_⟩
  · rw [List.map_append, links.pages]
    rfl
  · rw [List.map_append]
    apply links.distinct.append (List.nodup_singleton _)
    intro address old new
    obtain ⟨⟨_, contents⟩, member, rfl⟩ := List.mem_map.mp old
    obtain ⟨i, found⟩ := List.mem_iff_getElem?.mp member
    exact page_not_new links fresh found (List.mem_singleton.mp new)
  · exact fun i address contents => next_page_linked links fresh page
  · have first : (front ++ [(last, data)] ++ [(new_page, page)])[0]? =
        (front ++ [(last, data)])[0]? := List.getElem?_append_left (by simp)
    rw [first]
    exact links.head
  · simp
  · rw [same_cursor, links.current, List.getElem?_append_left cursor_inside]

/-- A successful write puts the page at the end of the ring. -/
theorem write_refines (links : Linked k ring nodes) (proper : Proper k (.write data kmalloc)) :
    ∃ reply, serve k (.write data kmalloc) = some reply ∧
      (reply.code, reply.delivered) = (ringServe ring (.write data kmalloc)).1 ∧
      Represents reply.kernel (ringServe ring (.write data kmalloc)).2 := by
  by_cases fits : data.length ≤ PAGE_SIZE
  · cases kmalloc with
    | none =>
      simp only [serve, sequenceWrite, ringServe, dif_pos fits]
      exact ⟨_, rfl, rfl, nodes, links⟩
    | some memory =>
      obtain ⟨new_page, memory⟩ := memory
      simp only [serve, sequenceWrite, ringServe, dif_pos fits]
      rcases List.eq_nil_or_concat nodes with rfl | ⟨front, ⟨last, contents⟩, rfl⟩
      · have nothing : k.head = none := links.head
        rw [nothing]
        exact ⟨_, rfl, rfl, first_page_represents ((linked_head links).mp nothing) new_page _⟩
      · rw [List.concat_eq_append] at links
        obtain ⟨head, there⟩ : ∃ head, k.head = some head := by
          refine Option.ne_none_iff_exists'.mp fun nothing => ?_
          have empty := (linked_head links).mp nothing
          simp [← links.pages] at empty
        have tail : k.tail = some last := by
          rw [links.tail]
          simp
        have found := links.linked front.length last contents (by simp)
        have old : last ≠ new_page := page_not_new links proper List.getElem?_concat_length
        have next := next_page_represents links proper (memory.memcpy data fits)
        rw [there] at next ⊢
        refine ⟨⟨0, [], _⟩, ?_, rfl, next⟩
        simp only [tail, Option.bind_eq_bind, Option.bind_some,
          Finmap.lookup_insert_of_ne _ old, found]
  · simp only [serve, sequenceWrite, ringServe, dif_neg fits]
    exact ⟨_, rfl, rfl, nodes, links⟩

/-- The page behind the cursor is linked there, or it is the first one again. -/
theorem advance_represents (links : Linked k ring nodes) (now : ring.current = some page) :
    ∃ address next, k.current = some address ∧ k.heap.lookup address = some ⟨page, next⟩ ∧
      Represents { k with current := if next = none then k.head else next } ring.advance := by
  obtain ⟨address, here, current⟩ := linked_current links now
  have found := links.linked _ _ _ here
  have bound : ring.cursor < nodes.length := (List.getElem?_eq_some_iff.mp here).1
  refine ⟨address, _, current, found, nodes, links.pages, links.distinct, links.linked,
    links.head, links.tail, ?_⟩
  have cursor : ring.advance.cursor = (ring.cursor + 1) % nodes.length := by
    rw [← length_pages links]
    rfl
  rw [cursor]
  by_cases wraps : ring.cursor + 1 = nodes.length
  · rw [wraps, Nat.mod_self, List.getElem?_eq_none (Nat.le_refl _)]
    exact links.head
  · have inside : ring.cursor + 1 < nodes.length := by omega
    rw [Nat.mod_eq_of_lt inside, List.getElem?_eq_getElem inside]
    rfl

/-- With the cursor on a page the first repair of `current` changes nothing. -/
theorem sequenceRead_found (current : k.current = some address)
    (found : k.heap.lookup address = some page) (fits : length ≤ PAGE_SIZE) (copy : Copy) :
    sequenceRead k length copy =
      some (if copy.failed length = 0 then ⟨0, page.data.bytes.take length,
          { k with current := if page.next = none then k.head else page.next }⟩
        else ⟨-EFAULT, page.data.bytes.take (length - copy.failed length), k⟩) := by
  obtain ⟨heap, head, tail, place⟩ := k
  simp only at current found
  subst current
  simp only [sequenceRead, if_pos fits, reduceCtorEq, ↓reduceIte, Option.bind_some, found]
  by_cases whole : copy.failed length = 0
  · simp only [whole, ne_eq, not_true_eq_false, ↓reduceIte, Nat.sub_zero]
  · simp only [whole, ne_eq, not_false_eq_true, ↓reduceIte]

/-- A successful read returns the front of the page under the cursor and moves
the cursor on. -/
theorem read_refines (links : Linked k ring nodes) (length : Nat) (copy : Copy)
    (proper : Proper k (.read length copy)) :
    ∃ reply, serve k (.read length copy) = some reply ∧
      (reply.code, reply.delivered) = (ringServe ring (.read length copy)).1 ∧
      Represents reply.kernel (ringServe ring (.read length copy)).2 := by
  have filled : ring.items ≠ [] := fun nothing => proper ((linked_head links).mpr nothing)
  obtain ⟨page, now⟩ := ring.current_isSome filled
  obtain ⟨address, next, current, found, advanced⟩ := advance_represents links now
  by_cases fits : length ≤ PAGE_SIZE
  · have read := sequenceRead_found current found fits copy
    simp only [serve, read, ringServe, now, if_pos fits]
    by_cases whole : copy.failed length = 0
    · simp only [if_pos whole]
      exact ⟨_, rfl, rfl, advanced⟩
    · simp only [if_neg whole]
      exact ⟨_, rfl, rfl, nodes, links⟩
  · simp only [serve, sequenceRead, ringServe, if_neg fits, now]
    exact ⟨_, rfl, rfl, nodes, links⟩

/-- Every call finds its pages and does to the ring what it is meant to do. -/
theorem serve_refines (represents : Represents k ring) (proper : Proper k c) :
    ∃ reply, serve k c = some reply ∧ (reply.code, reply.delivered) = (ringServe ring c).1 ∧
      Represents reply.kernel (ringServe ring c).2 := by
  obtain ⟨nodes, links⟩ := represents
  cases c with
  | init => exact ⟨_, rfl, rfl, empty_represents rfl rfl rfl⟩
  | destroy =>
    obtain ⟨left, destroyed, empty⟩ := destroy_represents ⟨nodes, links⟩
    exact ⟨_, by rw [serve, destroyed]; rfl, rfl, empty⟩
  | write data kmalloc => exact write_refines links proper
  | read length copy => exact read_refines links length copy proper

/-! ## Whole runs -/

/-- Reads of the given lengths one behind the other, all of them successful. -/
def readAll (k : Kernel) : List Nat → Option (List (List Byte))
  | [] => some []
  | length :: rest => do
    let reply ← sequenceRead k length ⟨0, true⟩
    if reply.code = 0 then
      let later ← readAll reply.kernel rest
      some (reply.delivered :: later)
    else none

theorem read_all_visits (lengths : List Nat) (represents : Represents k ring)
    (fit : ∀ length ∈ lengths, length ≤ PAGE_SIZE) (filled : ring.items ≠ []) :
    readAll k lengths = some (List.zipWith (fun page length => page.bytes.take length)
      (Carousel.visited lengths.length ring) lengths) := by
  induction lengths generalizing k ring with
  | nil => rfl
  | cons length rest ih =>
    obtain ⟨nodes, links⟩ := represents
    obtain ⟨page, now⟩ := ring.current_isSome filled
    obtain ⟨address, next, current, found, advanced⟩ := advance_represents links now
    have read := sequenceRead_found current found (fit length List.mem_cons_self) ⟨0, true⟩
    have whole : (⟨0, true⟩ : Copy).failed length = 0 := Nat.zero_min length
    have later := ih advanced (fun other member => fit other (List.mem_cons_of_mem _ member)) filled
    rw [if_pos whole] at read
    simp only [readAll, read, Option.bind_eq_bind, Option.bind_some, ↓reduceIte, later]
    rw [List.length_cons, Carousel.visited, now]
    rfl

/-- What holds of the sequence and of the ring its calls have made, at any time.
The pointers are those of the ring. No call that is made then fails to find a
page, and it answers as the ring does. As many reads as there are pages return
each page once, from the one under the cursor on. -/
structure IsRing (s : Kernel × Carousel Contents) : Prop where
  represented : Represents s.1 s.2
  answers : ∀ c, Proper s.1 c → ∃ reply, serve s.1 c = some reply ∧
    (reply.code, reply.delivered) = (ringServe s.2 c).1
  round : ∀ lengths : List Nat, lengths.length = s.2.items.length →
    (∀ length ∈ lengths, length ≤ PAGE_SIZE) →
      readAll s.1 lengths = some (List.zipWith (fun page length => page.bytes.take length)
        (s.2.items.rotate s.2.cursor) lengths)

theorem isRing_of_represents (represents : Represents k ring) : IsRing (k, ring) := by
  refine ⟨represents, fun c proper => ?_, fun lengths size fit => ?_⟩
  · obtain ⟨reply, served, answer, -⟩ := serve_refines represents proper
    exact ⟨reply, served, answer⟩
  · by_cases filled : ring.items = []
    · rw [filled, List.length_nil, List.length_eq_zero_iff] at size
      subst size
      simp [readAll]
    · rw [read_all_visits lengths represents fit filled, size, Carousel.visited_round]

/-- The step of a run, with the ring beside the kernel. -/
def withRing : Kernel × Carousel Contents → Call → Option (Kernel × Carousel Contents) :=
  recording step fun ring _ c => (ringServe ring c).2

def InStep (s : Kernel × Carousel Contents) : Prop := Represents s.1 s.2

theorem step_inStep (s : Kernel × Carousel Contents) (c : Call) (t : Kernel × Carousel Contents)
    (represents : InStep s) (stepped : withRing s c = some t) : InStep t := by
  obtain ⟨plain, recorded⟩ := recording_some.mp stepped
  unfold step at plain
  split at plain
  · rename_i proper
    obtain ⟨reply, served, -, next⟩ := serve_refines represents proper
    rw [served, Option.map_some, Option.some.injEq] at plain
    rw [InStep, ← plain, recorded]
    exact next
  · cases plain

/-- From its initialisation on the sequence is a ring with a cursor, whatever is
called, whatever `kmalloc` returns and whichever copies fail. -/
theorem sequence_is_ring (k : Kernel) (calls : List Call) :
    Throughout withRing IsRing (sequenceInit k, Carousel.empty) calls := by
  have start : InStep (sequenceInit k, Carousel.empty) := empty_represents rfl rfl rfl
  exact throughout_of_invariant step_inStep (fun _ => isRing_of_represents) start calls

end OsCourse.PageSequence

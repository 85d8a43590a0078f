import Mathlib.Data.Finmap

/-! Cells of a heap linked by addresses: what a chain is, what it keeps when
the heap changes elsewhere, and how a cell is put behind its last one. Nothing
below names a program. -/
namespace OsCourse.HeapChain

variable {Cell : Type}

/-- From the pointer on, the cells at these addresses are linked each to the
next and the last to nothing. -/
def Chain (next : Cell → Option Nat) (heap : Finmap fun _ : Nat => Cell) :
    Option Nat → List Nat → Prop
  | pointer, [] => pointer = none
  | pointer, address :: rest =>
    pointer = some address ∧ ∃ cell, heap.lookup address = some cell ∧
      Chain next heap (next cell) rest

variable {next : Cell → Option Nat} {heap other : Finmap fun _ : Nat => Cell}

theorem chain_starts (chain : Chain next heap pointer addresses) :
    pointer = addresses.head? := by
  cases addresses with
  | nil => exact chain
  | cons address rest => exact chain.1

/-- The cells of a chain are in the heap. -/
theorem chain_found (chain : Chain next heap pointer addresses) (member : address ∈ addresses) :
    ∃ cell, heap.lookup address = some cell := by
  induction addresses generalizing pointer with
  | nil => cases member
  | cons first rest ih =>
    obtain ⟨_, cell, found, later⟩ := chain
    rcases List.mem_cons.mp member with rfl | inner
    · exact ⟨cell, found⟩
    · exact ih later inner

/-- A heap with the same cells at these addresses has the same chain. -/
theorem chain_frame (chain : Chain next heap pointer addresses)
    (same : ∀ address ∈ addresses, other.lookup address = heap.lookup address) :
    Chain next other pointer addresses := by
  induction addresses generalizing pointer with
  | nil => exact chain
  | cons first rest ih =>
    obtain ⟨starts, cell, found, later⟩ := chain
    refine ⟨starts, cell, ?_, ih later fun address member => ?_⟩
    · rw [same first List.mem_cons_self, found]
    · exact same address (List.mem_cons_of_mem first member)

/-- A new cell is put behind the last one by a change of that one alone. -/
theorem chain_snoc (chain : Chain next heap pointer (front ++ [last]))
    (same : ∀ address ∈ front, other.lookup address = heap.lookup address)
    (linked : other.lookup last = some cell) (onward : next cell = some new)
    (placed : other.lookup new = some final) (ends : next final = none) :
    Chain next other pointer (front ++ [last] ++ [new]) := by
  induction front generalizing pointer with
  | nil => exact ⟨chain.1, cell, linked, onward, final, placed, ends⟩
  | cons first rest ih =>
    obtain ⟨starts, here, found, later⟩ := chain
    refine ⟨starts, here, ?_, ih later fun address member => ?_⟩
    · rw [same first List.mem_cons_self, found]
    · exact same address (List.mem_cons_of_mem first member)

end OsCourse.HeapChain

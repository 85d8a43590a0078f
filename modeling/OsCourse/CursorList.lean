import Mathlib.Data.List.Rotate

/-! A list with a cursor that goes round. New items are put at the end wherever
the cursor stands. Nothing below names a program. -/
namespace OsCourse.CursorList

variable {Item Other : Type}

/-- The cursor stands on an item if there is any. -/
structure Carousel (Item : Type) where
  items : List Item
  cursor : Nat
  inside : items ≠ [] → cursor < items.length

namespace Carousel

def empty : Carousel Item := ⟨[], 0, fun filled => absurd rfl filled⟩

def current (c : Carousel Item) : Option Item := c.items[c.cursor]?

/-- The cursor stays where it is, and stands on the first item ever put in. -/
def append (c : Carousel Item) (item : Item) : Carousel Item where
  items := c.items ++ [item]
  cursor := if c.items.isEmpty then 0 else c.cursor
  inside := by
    intro _
    rw [List.length_append]
    split
    · exact Nat.succ_pos _
    · rename_i filled
      exact Nat.lt_add_right 1 (c.inside fun nothing => filled (nothing ▸ rfl))

def advance (c : Carousel Item) : Carousel Item where
  items := c.items
  cursor := (c.cursor + 1) % c.items.length
  inside := fun filled => Nat.mod_lt _ (List.length_pos_of_ne_nil filled)

/-- The same cursor among other items. -/
def map (f : Item → Other) (c : Carousel Item) : Carousel Other where
  items := c.items.map f
  cursor := c.cursor
  inside := by
    intro filled
    rw [List.length_map]
    exact c.inside fun nothing => filled (by rw [nothing, List.map_nil])

theorem map_current (f : Item → Other) (c : Carousel Item) :
    (c.map f).current = c.current.map f := List.getElem?_map

theorem map_append (f : Item → Other) (c : Carousel Item) (item : Item) :
    (c.append item).map f = (c.map f).append (f item) := by
  simp only [map, append, List.map_append, List.map_singleton, List.isEmpty_map]

theorem map_advance (f : Item → Other) (c : Carousel Item) :
    c.advance.map f = (c.map f).advance := by
  simp only [map, advance, List.length_map]

/-- The items under the cursor in so many steps. -/
def visited : Nat → Carousel Item → List Item
  | 0, _ => []
  | n + 1, c => c.current.toList ++ visited n c.advance

theorem current_isSome (c : Carousel Item) (filled : c.items ≠ []) :
    ∃ item, c.current = some item :=
  ⟨_, List.getElem?_eq_getElem (c.inside filled)⟩

/-- The list turned to the cursor starts with the current item, and advancing
turns it by one more. -/
theorem rotate_cursor (c : Carousel Item) (now : c.current = some item) :
    ∃ later, c.items.rotate c.cursor = item :: later ∧
      c.advance.items.rotate c.advance.cursor = later ++ [item] := by
  obtain ⟨bound, here⟩ := List.getElem?_eq_some_iff.mp now
  have turned : c.items.rotate c.cursor =
      item :: (c.items.drop (c.cursor + 1) ++ c.items.take c.cursor) := by
    rw [List.rotate_eq_drop_append_take (Nat.le_of_lt bound), List.drop_eq_getElem_cons bound, here,
      List.cons_append]
  refine ⟨_, turned, ?_⟩
  change c.items.rotate ((c.cursor + 1) % c.items.length) = _
  rw [List.rotate_mod, ← List.rotate_rotate, turned, List.rotate_cons_succ, List.rotate_zero]

theorem visited_eq (n : Nat) (c : Carousel Item) (round : n ≤ c.items.length) :
    visited n c = (c.items.rotate c.cursor).take n := by
  induction n generalizing c with
  | zero => rfl
  | succ n ih =>
    have filled : c.items ≠ [] := fun nothing => by simp [nothing] at round
    obtain ⟨item, now⟩ := c.current_isSome filled
    obtain ⟨later, turned, advanced⟩ := c.rotate_cursor now
    have size : later.length + 1 = c.items.length := by
      rw [← List.length_cons, ← turned, List.length_rotate]
    rw [visited, now, ih c.advance (Nat.le_of_succ_le round), advanced, turned,
      List.take_append_of_le_length (by omega)]
    rfl

/-- As many steps as there are items visit each of them once, from the one
under the cursor on. -/
theorem visited_round (c : Carousel Item) :
    visited c.items.length c = c.items.rotate c.cursor := by
  rw [visited_eq _ c (Nat.le_refl _)]
  exact List.take_of_length_le (List.length_rotate ..).le

end Carousel
end OsCourse.CursorList

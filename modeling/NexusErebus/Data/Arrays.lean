import Mathlib.Data.List.Basic

/-!
# Arrays with identity

A typed array of a script is a place in memory.  Two names may stand for one array, and then what
is written under one is read under the other.  A heap is the list of the arrays allocated so far,
and a reference is a place in that list.

Whatever is done to arrays that are allocated later leaves the earlier ones as they are
(`Extends`).
-/

namespace Arrays

/-- A reference to an array. -/
abbrev Ref := Nat

/-- The arrays allocated so far. -/
structure Heap (α : Type) where
  cells : List (List α)

namespace Heap

variable {α : Type}

def empty : Heap α := ⟨[]⟩

/-- The number of arrays. -/
def size (H : Heap α) : Nat := H.cells.length

/-- The contents of an array. -/
def read (H : Heap α) (r : Ref) : List α := H.cells[r]?.getD []

/-- A new array. -/
def alloc (H : Heap α) (xs : List α) : Ref × Heap α := (H.size, ⟨H.cells ++ [xs]⟩)

/-- Overwrite every entry of an array. -/
def fill (H : Heap α) (a : α) (r : Ref) : Heap α := ⟨H.cells.modify r (List.map fun _ => a)⟩

@[simp] theorem alloc_fst (H : Heap α) (xs : List α) : (H.alloc xs).1 = H.size := rfl

@[simp] theorem size_alloc (H : Heap α) (xs : List α) : (H.alloc xs).2.size = H.size + 1 := by
  simp [alloc, size]

@[simp] theorem size_fill (H : Heap α) (a : α) (r : Ref) : (H.fill a r).size = H.size := by
  simp [fill, size]

@[simp] theorem read_alloc_self (H : Heap α) (xs : List α) : (H.alloc xs).2.read H.size = xs := by
  simp [alloc, read, size]

@[simp] theorem read_fill_self (H : Heap α) (a : α) (r : Ref) :
    (H.fill a r).read r = (H.read r).map fun _ => a := by
  simp only [fill, read, List.getElem?_modify_eq]
  cases H.cells[r]? with
  | none => rfl
  | some xs => rfl

theorem read_fill_ne (H : Heap α) (a : α) {r r' : Ref} (h : r ≠ r') :
    (H.fill a r).read r' = H.read r' := by
  simp only [fill, read, List.getElem?_modify_ne _ _ h]

/-- The second heap has the arrays of the first, and others. -/
structure Extends (H H' : Heap α) : Prop where
  size_le : H.size ≤ H'.size
  read_eq : ∀ r < H.size, H'.read r = H.read r

namespace Extends

theorem refl (H : Heap α) : Extends H H := ⟨Nat.le_refl _, fun _ _ => rfl⟩

theorem trans {H₁ H₂ H₃ : Heap α} (h : Extends H₁ H₂) (h' : Extends H₂ H₃) : Extends H₁ H₃ :=
  ⟨Nat.le_trans h.size_le h'.size_le, fun r hr =>
    (h'.read_eq r (Nat.lt_of_lt_of_le hr h.size_le)).trans (h.read_eq r hr)⟩

theorem alloc {H H' : Heap α} (h : Extends H H') (xs : List α) : Extends H (H'.alloc xs).2 := by
  refine h.trans ⟨by simp, fun r hr => ?_⟩
  simp only [Heap.alloc, read]
  rw [List.getElem?_append_left hr]

/-- Filling an array that is newer than the first heap. -/
theorem fill {H H' : Heap α} (h : Extends H H') (a : α) {r : Ref} (hr : H.size ≤ r) :
    Extends H (H'.fill a r) :=
  ⟨Nat.le_trans h.size_le (Nat.le_of_eq (size_fill ..).symm), fun r' hr' =>
    (read_fill_ne H' a (Nat.ne_of_gt (Nat.lt_of_lt_of_le hr' hr))).trans (h.read_eq r' hr')⟩

end Extends

end Heap

end Arrays

/-!
# Stable sorting

`sortBy` puts a list in order and keeps elements that compare as equal in the order in
which they came. The lists of the engine are short, so each element is simply inserted at
its place.
-/

namespace Holdfast

/-- Insert an element before the first one that it does not have to follow. -/
def insertBy {α : Type} (le : α → α → Bool) (x : α) : List α → List α
  | [] => [x]
  | y :: ys => if le x y then x :: y :: ys else y :: insertBy le x ys

/-- The elements of a list in order, equal ones as they came. -/
def sortBy {α : Type} (le : α → α → Bool) : List α → List α
  | [] => []
  | x :: xs => insertBy le x (sortBy le xs)

@[simp] theorem mem_insertBy {α : Type} {le : α → α → Bool} {x y : α} {ys : List α} :
    y ∈ insertBy le x ys ↔ y = x ∨ y ∈ ys := by
  induction ys with
  | nil => simp [insertBy]
  | cons z zs ih =>
    rw [insertBy]
    split
    · simp
    · simp only [List.mem_cons, ih]
      grind

@[simp] theorem mem_sortBy {α : Type} {le : α → α → Bool} {y : α} {xs : List α} :
    y ∈ sortBy le xs ↔ y ∈ xs := by
  induction xs with
  | nil => simp [sortBy]
  | cons x xs ih => simp [sortBy, ih]

theorem insertBy_perm {α : Type} (le : α → α → Bool) (x : α) (ys : List α) :
    (insertBy le x ys).Perm (x :: ys) := by
  induction ys with
  | nil => exact .refl _
  | cons y ys ih =>
    rw [insertBy]
    split
    · exact .refl _
    · exact (ih.cons y).trans (.swap x y ys)

/-- Sorting only moves elements. -/
theorem sortBy_perm {α : Type} (le : α → α → Bool) (xs : List α) : (sortBy le xs).Perm xs := by
  induction xs with
  | nil => exact .refl _
  | cons x xs ih => exact (insertBy_perm le x _).trans (ih.cons x)

theorem pairwise_insertBy {α : Type} {le : α → α → Bool}
    (htotal : ∀ a b, le a b = true ∨ le b a = true)
    (htrans : ∀ a b c, le a b = true → le b c = true → le a c = true) {x : α} {ys : List α}
    (h : ys.Pairwise fun a b => le a b = true) :
    (insertBy le x ys).Pairwise fun a b => le a b = true := by
  induction ys with
  | nil => simp [insertBy]
  | cons y ys ih =>
    obtain ⟨hy, hys⟩ := List.pairwise_cons.1 h
    rw [insertBy]
    split
    · rename_i hxy
      refine List.pairwise_cons.2 ⟨fun z hz => ?_, h⟩
      rcases List.mem_cons.1 hz with rfl | hz
      · exact hxy
      · exact htrans x y z hxy (hy z hz)
    · rename_i hxy
      refine List.pairwise_cons.2 ⟨fun z hz => ?_, ih hys⟩
      rcases mem_insertBy.1 hz with rfl | hz
      · exact (htotal z y).resolve_left hxy
      · exact hy z hz

/-- Sorting puts the elements in order. -/
theorem pairwise_sortBy {α : Type} {le : α → α → Bool}
    (htotal : ∀ a b, le a b = true ∨ le b a = true)
    (htrans : ∀ a b c, le a b = true → le b c = true → le a c = true) (xs : List α) :
    (sortBy le xs).Pairwise fun a b => le a b = true := by
  induction xs with
  | nil => exact .nil
  | cons x xs ih => exact pairwise_insertBy htotal htrans ih

end Holdfast

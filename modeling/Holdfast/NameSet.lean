/-!
# Sets of names

Package and transport names are kept in sets whose listing is part of the engine's
answers. A `NameSet` stores its members in strictly increasing order, so two sets with
the same members are the same value and every listing is sorted.

* `NameSet.insert`, `NameSet.erase`, `NameSet.ofList`, `NameSet.union` build sets;
* `NameSet.mem_insert`, `NameSet.mem_erase`, `NameSet.mem_ofList` say what they hold;
* `NameSet.ext` says that the members determine the set.

Names compare by their code points, which is also the order of their UTF-8 bytes.
-/

namespace Holdfast

/-- Put `x` into a strictly increasing list, unless it is there already. -/
def insertSorted (x : String) : List String → List String
  | [] => [x]
  | y :: ys =>
    if x < y then x :: y :: ys
    else if x = y then y :: ys
    else y :: insertSorted x ys

theorem mem_insertSorted {x y : String} {ys : List String} :
    y ∈ insertSorted x ys ↔ y = x ∨ y ∈ ys := by
  induction ys with
  | nil => simp [insertSorted]
  | cons z zs ih =>
    rw [insertSorted]
    split
    · simp
    · split
      · rename_i hxz
        subst hxz
        simp
      · simp only [List.mem_cons, ih]
        constructor
        · rintro (h | h | h) <;> simp [h]
        · rintro (h | h | h) <;> simp [h]

theorem pairwise_insertSorted {x : String} {ys : List String} (h : ys.Pairwise (· < ·)) :
    (insertSorted x ys).Pairwise (· < ·) := by
  induction ys with
  | nil => simp [insertSorted]
  | cons z zs ih =>
    rw [insertSorted]
    obtain ⟨hz, hzs⟩ := List.pairwise_cons.1 h
    split
    · rename_i hxz
      refine List.pairwise_cons.2 ⟨fun y hy => ?_, h⟩
      rcases List.mem_cons.1 hy with rfl | hy
      · exact hxz
      · exact String.lt_trans hxz (hz y hy)
    · split
      · exact h
      · rename_i hxz hne
        refine List.pairwise_cons.2 ⟨fun y hy => ?_, ih hzs⟩
        rcases mem_insertSorted.1 hy with rfl | hy
        · exact Std.lt_of_le_of_ne (Std.not_lt.1 hxz) (Ne.symm hne)
        · exact hz y hy

/-- A finite set of names, listed in increasing order. -/
structure NameSet where
  toList : List String
  sorted : toList.Pairwise (· < ·)

namespace NameSet

instance : Membership String NameSet := ⟨fun s x => x ∈ s.toList⟩

instance (x : String) (s : NameSet) : Decidable (x ∈ s) :=
  inferInstanceAs (Decidable (x ∈ s.toList))

theorem mem_def {x : String} {s : NameSet} : x ∈ s ↔ x ∈ s.toList := Iff.rfl

instance : DecidableEq NameSet := fun a b =>
  decidable_of_iff (a.toList = b.toList) (by cases a; cases b; simp)

/-- The set without members. -/
def empty : NameSet := ⟨[], List.Pairwise.nil⟩

instance : EmptyCollection NameSet := ⟨empty⟩

instance : Inhabited NameSet := ⟨empty⟩

/-- The set with one more member. -/
def insert (s : NameSet) (x : String) : NameSet :=
  ⟨insertSorted x s.toList, pairwise_insertSorted s.sorted⟩

/-- The set with one member less. -/
def erase (s : NameSet) (x : String) : NameSet :=
  ⟨s.toList.filter (· ≠ x), s.sorted.filter _⟩

/-- The members of a list. -/
def ofList (xs : List String) : NameSet := xs.foldl insert empty

/-- The members of either set. -/
def union (s t : NameSet) : NameSet := t.toList.foldl insert s

/-- Number of members. -/
def size (s : NameSet) : Nat := s.toList.length

/-- Whether the set has no member. -/
def isEmpty (s : NameSet) : Bool := s.toList.isEmpty

/-- Whether `x` is a member. -/
def contains (s : NameSet) (x : String) : Bool := decide (x ∈ s)

@[simp] theorem contains_eq {s : NameSet} {x : String} : s.contains x = true ↔ x ∈ s := by
  simp [contains]

@[simp] theorem not_mem_empty {x : String} : ¬ x ∈ (empty : NameSet) := by
  simp [mem_def, empty]

@[simp] theorem mem_insert {s : NameSet} {x y : String} :
    y ∈ s.insert x ↔ y = x ∨ y ∈ s := mem_insertSorted

@[simp] theorem mem_erase {s : NameSet} {x y : String} :
    y ∈ s.erase x ↔ y ∈ s ∧ y ≠ x := by
  simp [mem_def, erase]

theorem mem_foldl_insert {xs : List String} {s : NameSet} {y : String} :
    y ∈ xs.foldl insert s ↔ y ∈ s ∨ y ∈ xs := by
  induction xs generalizing s with
  | nil => simp
  | cons x xs ih => simp only [List.foldl_cons, ih, mem_insert, List.mem_cons]; grind

@[simp] theorem mem_ofList {xs : List String} {y : String} : y ∈ ofList xs ↔ y ∈ xs := by
  simp [ofList, mem_foldl_insert]

@[simp] theorem mem_union {s t : NameSet} {y : String} : y ∈ s.union t ↔ y ∈ s ∨ y ∈ t :=
  mem_foldl_insert

/-- Strictly increasing lists with the same members are equal. -/
theorem eq_of_mem_iff : ∀ {xs ys : List String}, xs.Pairwise (· < ·) → ys.Pairwise (· < ·) →
    (∀ z, z ∈ xs ↔ z ∈ ys) → xs = ys
  | [], [], _, _, _ => rfl
  | [], y :: _, _, _, h => by simpa using (h y).2 (by simp)
  | x :: _, [], _, _, h => by simpa using (h x).1 (by simp)
  | x :: xs, y :: ys, hx, hy, h => by
    obtain ⟨hx₁, hx₂⟩ := List.pairwise_cons.1 hx
    obtain ⟨hy₁, hy₂⟩ := List.pairwise_cons.1 hy
    have hxy : x = y := by
      rcases List.mem_cons.1 ((h x).1 (by simp)) with hh | hxin
      · exact hh
      · rcases List.mem_cons.1 ((h y).2 (by simp)) with hh | hyin
        · exact hh.symm
        · exact absurd (hy₁ x hxin) (String.lt_asymm (hx₁ y hyin))
    subst hxy
    have : xs = ys := by
      refine eq_of_mem_iff hx₂ hy₂ fun z => ?_
      constructor
      · intro hz
        rcases List.mem_cons.1 ((h z).1 (by simp [hz])) with rfl | hz'
        · exact absurd (hx₁ z hz) (String.lt_irrefl z)
        · exact hz'
      · intro hz
        rcases List.mem_cons.1 ((h z).2 (by simp [hz])) with rfl | hz'
        · exact absurd (hy₁ z hz) (String.lt_irrefl z)
        · exact hz'
    rw [this]

/-- The members determine the set. -/
theorem ext {s t : NameSet} (h : ∀ x, x ∈ s ↔ x ∈ t) : s = t := by
  obtain ⟨xs, hxs⟩ := s
  obtain ⟨ys, hys⟩ := t
  have : xs = ys := eq_of_mem_iff hxs hys h
  subst this
  rfl

end NameSet

end Holdfast

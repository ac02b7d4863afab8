import Mathlib

/-! Families of rows, the update of one of their entries, and the number of entries with a
given property when one entry changes.
-/

namespace Xv6.Library

open Function Finset

variable {ι κ α : Type} {columns : Finset κ} {property : α → Bool} {k : κ}

/-- How many of the entries in the given columns have the property. -/
def countEntries [Fintype ι] (columns : Finset κ) (property : α → Bool) (f : ι → κ → α)
    : Nat :=
  ∑ i, ∑ k ∈ columns, (property (f i k)).toNat

theorem countEntries_eq_card [Fintype ι] (property : α → Bool) (f : ι → κ → α)
    : countEntries columns property f
      = ((univ ×ˢ columns).filter fun x => property (f x.1 x.2) = true).card := by
  rw [countEntries, ← sum_product', card_filter]
  refine sum_congr rfl fun x _ => ?_
  cases property (f x.1 x.2) <;> rfl

/-- Some entry has the property exactly when the count is positive. -/
theorem countEntries_pos [Fintype ι] {f : ι → κ → α}
    : 0 < countEntries columns property f
      ↔ ∃ i, ∃ k ∈ columns, property (f i k) = true := by
  simp [countEntries, Nat.pos_iff_ne_zero]

/-- Families with the same entries in the counted columns have the same count. -/
theorem countEntries_congr [Fintype ι] {β : Type} {property' : β → Bool} {f : ι → κ → α}
    {f' : ι → κ → β} (same : ∀ i, ∀ k ∈ columns, property (f i k) = property' (f' i k))
    : countEntries columns property f = countEntries columns property' f' :=
  sum_congr rfl fun i _ => sum_congr rfl fun k inside => by rw [same i k inside]

/-- How many members of a family have the property. -/
def countWhere [Fintype ι] (property : α → Bool) (f : ι → α) : Nat :=
  ∑ i, (property (f i)).toNat

theorem countWhere_pos [Fintype ι] (property : α → Bool) (f : ι → α) (i : ι)
    (found : property (f i) = true)
    : 0 < countWhere property f := by
  have one : (property (f i)).toNat = 1 := by rw [found, Bool.toNat_true]
  have bound := single_le_sum_of_canonicallyOrdered (s := univ)
    (f := fun j => (property (f j)).toNat) (mem_univ i)
  unfold countWhere
  omega

theorem countWhere_eq_zero [Fintype ι] {f : ι → α}
    : countWhere property f = 0 ↔ ∀ i, property (f i) = false := by
  simp [countWhere]

/-- The count is the size of the set of members with the property. -/
theorem countWhere_eq_card [Fintype ι] (property : α → Bool) (f : ι → α)
    : countWhere property f = (univ.filter fun i => property (f i) = true).card := by
  rw [card_filter]
  refine sum_congr rfl fun i _ => ?_
  cases property (f i) <;> rfl

/-- Families whose members agree on the property have the same count. -/
theorem countWhere_congr [Fintype ι] {f g : ι → α} (same : ∀ i, property (f i) = property (g i))
    : countWhere property f = countWhere property g :=
  sum_congr rfl fun i _ => by rw [same i]

/-- A property that only one member can have is counted once if it occurs. -/
theorem countWhere_unique [Fintype ι] (property : α → Bool) (f : ι → α)
    (unique : ∀ i j, property (f i) = true → property (f j) = true → i = j)
    [Decidable (∃ i, property (f i) = true)]
    : countWhere property f = if ∃ i, property (f i) = true then 1 else 0 := by
  unfold countWhere
  split_ifs with some
  · obtain ⟨i, found⟩ := some
    rw [sum_eq_single i, found, Bool.toNat_true]
    · intro j _ other
      rw [Bool.eq_false_iff.mpr fun found' => other (unique j i found' found), Bool.toNat_false]
    · exact fun missing => (missing (mem_univ i)).elim
  · refine sum_eq_zero fun i _ => ?_
    rw [Bool.eq_false_iff.mpr fun found => some ⟨i, found⟩, Bool.toNat_false]

variable [DecidableEq ι]

/-- Changing one member moves a sum by what the old and the new value contribute. -/
theorem sum_update [Fintype ι] (weight : ι → α → Nat) (f : ι → α) (i : ι) (value : α)
    : ∑ j, weight j (update f i value j) + weight i (f i)
      = ∑ j, weight j (f j) + weight i value := by
  have others
      : ∑ j ∈ univ.erase i, weight j (update f i value j)
        = ∑ j ∈ univ.erase i, weight j (f j) :=
    sum_congr rfl fun j inside => by rw [update_of_ne (mem_erase.mp inside).1]
  rw [← add_sum_erase univ _ (mem_univ i),
    ← add_sum_erase univ (fun j => weight j (f j)) (mem_univ i), update_self]
  omega

theorem countWhere_update [Fintype ι] (property : α → Bool) (f : ι → α) (i : ι) (value : α)
    : countWhere property (update f i value) + (property (f i)).toNat
      = countWhere property f + (property value).toNat :=
  sum_update (fun _ value => (property value).toNat) f i value

variable [DecidableEq κ]

/-- The family with another value in row `i`, column `k`. -/
def setAt (f : ι → κ → α) (i : ι) (k : κ) (value : α) : ι → κ → α :=
  update f i (update (f i) k value)

section

variable (f : ι → κ → α)
include f

@[simp] theorem setAt_same (i : ι) (k : κ) (value : α) : setAt f i k value i k = value := by
  simp [setAt]

@[simp] theorem setAt_self (i : ι) (k : κ) : setAt f i k (f i k) = f := by
  simp [setAt]

theorem setAt_other {i j : ι} {l : κ} (value : α) (other : ¬(j = i ∧ l = k))
    : setAt f i k value j l = f j l := by
  by_cases row : j = i
  · subst row
    have column : l ≠ k := fun same => other ⟨rfl, same⟩
    simp [setAt, column]
  · simp [setAt, row]

theorem setAt_eq (i j : ι) (k l : κ) (value : α)
    : setAt f i k value j l = if j = i ∧ l = k then value else f j l := by
  by_cases same : j = i ∧ l = k
  · obtain ⟨rfl, rfl⟩ := same
    simp
  · rw [setAt_other f value same, if_neg same]

/-- The last of two values stands. -/
theorem setAt_setAt (i : ι) (k : κ) (old new : α)
    : setAt (setAt f i k old) i k new = setAt f i k new := by
  funext j l
  simp only [setAt_eq]
  split_ifs <;> rfl

theorem setAt_comm (i : ι) {l : κ} (differ : k ≠ l) (a b : α)
    : setAt (setAt f i k a) i l b = setAt (setAt f i l b) i k a := by
  funext j m
  simp only [setAt_eq]
  split_ifs with one two
  · exact absurd (two.2.symm.trans one.2) differ
  all_goals rfl

end

/-- Changing one entry moves the count by what the old and the new value contribute. -/
theorem countEntries_setAt [Fintype ι] (property : α → Bool) (f : ι → κ → α) (i : ι)
    (member : k ∈ columns) (value : α)
    : countEntries columns property (setAt f i k value) + (property (f i k)).toNat
      = countEntries columns property f + (property value).toNat := by
  have row
      : ∑ l ∈ columns, (property (setAt f i k value i l)).toNat
          + (property (f i k)).toNat
        = ∑ l ∈ columns, (property (f i l)).toNat + (property value).toNat := by
    rw [← add_sum_erase columns _ member,
      ← add_sum_erase columns (fun l => (property (f i l)).toNat) member]
    have rest : ∑ l ∈ columns.erase k, (property (setAt f i k value i l)).toNat
        = ∑ l ∈ columns.erase k, (property (f i l)).toNat :=
      sum_congr rfl fun l inside => by
        rw [setAt_other f value fun same => (mem_erase.mp inside).1 same.2]
    rw [setAt_same]
    omega
  have others
      : ∑ j ∈ univ.erase i, ∑ l ∈ columns, (property (setAt f i k value j l)).toNat
        = ∑ j ∈ univ.erase i, ∑ l ∈ columns, (property (f j l)).toNat :=
    sum_congr rfl fun j inside => sum_congr rfl fun l _ => by
      rw [setAt_other f value fun same => (mem_erase.mp inside).1 same.1]
  unfold countEntries
  rw [← add_sum_erase univ _ (mem_univ i),
    ← add_sum_erase univ (fun j => ∑ l ∈ columns, (property (f j l)).toNat) (mem_univ i)]
  omega

/-- A column that is not counted does not matter. -/
theorem countEntries_setAt_outside [Fintype ι] (property : α → Bool) (f : ι → κ → α) (i : ι)
    (outside : k ∉ columns) (value : α)
    : countEntries columns property (setAt f i k value)
      = countEntries columns property f :=
  sum_congr rfl fun j _ => sum_congr rfl fun l inside => by
    have other : ¬(j = i ∧ l = k) := fun same => outside (same.2 ▸ inside)
    rw [setAt_other f value other]

end Xv6.Library

import Mathlib

/-! Tables whose places hold an entry or nothing, and the list of what they hold. -/

namespace Xv6.Library

open Function

variable {α : Type} {table : Nat → Option α} {size i : Nat} {a : α}

/-- The entries of the first `size` places, in order. -/
def entries (table : Nat → Option α) (size : Nat) : List α := (List.range size).filterMap table

theorem mem_entries : a ∈ entries table size ↔ ∃ i < size, table i = some a := by
  simp [entries]

theorem entries_none (empty : ∀ i, table i = none) : entries table size = [] := by
  simp [entries, empty]

theorem entries_congr {other : Nat → Option α} (same : ∀ i < size, table i = other i)
    : entries table size = entries other size :=
  List.filterMap_congr fun i member => same i (List.mem_range.mp member)

theorem entries_succ (table : Nat → Option α) (size : Nat)
    : entries table (size + 1) = entries table size ++ (table size).toList := by
  rw [entries, List.range_succ]
  cases here : table size <;> simp [entries, here]

/-- An entry in a place that was empty. -/
theorem entries_insert (below : i < size) (empty : table i = none)
    : (entries (update table i (some a)) size).Perm (a :: entries table size) := by
  induction size with
  | zero => omega
  | succ size ih =>
    rw [entries_succ, entries_succ]
    rcases Nat.lt_or_eq_of_le (Nat.le_of_lt_succ below) with before | here
    · rw [update_of_ne (Nat.ne_of_gt before)]
      exact (ih before).append_right _
    · subst here
      rw [update_self, empty]
      have before : entries (update table i (some a)) i = entries table i :=
        entries_congr fun j less => update_of_ne (Nat.ne_of_lt less) ..
      rw [before, Option.toList_none, List.append_nil]
      exact List.perm_append_singleton a _

/-- An entry that is taken out. -/
theorem entries_remove (below : i < size) (here : table i = some a)
    : (entries table size).Perm (a :: entries (update table i none) size) := by
  have inserted : (entries (update (update table i none) i (some a)) size).Perm
      (a :: entries (update table i none) size) :=
    entries_insert below (update_self ..)
  rwa [update_idem, ← here, update_eq_self] at inserted

/-- In a table without repetitions an entry has one place. -/
theorem entries_place {j : Nat} (distinct : (entries table size).Nodup) (below : i < size)
    (below' : j < size) (here : table i = some a) (there : table j = some a)
    : i = j := by
  by_contra other
  have removed := (entries_remove below here).nodup_iff.mp distinct
  refine (List.nodup_cons.mp removed).1 (mem_entries.mpr ⟨j, below', ?_⟩)
  rw [update_of_ne (Ne.symm other), there]

end Xv6.Library

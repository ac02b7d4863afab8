import Mathlib

/-! A finite map kept in a table of slots. Each slot is empty or holds a key and its value; keys
are inserted in any empty slot or after the last one, and erased by emptying their slot.
-/

namespace Xv6.Library.SlotMap

open Function

variable {K V : Type} {n n' i : Nat} {slot slot' : Nat → Option (K × V)}
  {map : K → Option V} {k : K} {v : V}

/-- The first `n` slots hold the pairs of `map`, each of them once. -/
structure Represents (n : Nat) (slot : Nat → Option (K × V)) (map : K → Option V) : Prop where
  held : ∀ i < n, ∀ k v, slot i = some (k, v) → map k = some v
  found : ∀ k v, map k = some v → ∃ i < n, slot i = some (k, v)
  once : ∀ i < n, ∀ j < n, ∀ k v w, slot i = some (k, v) → slot j = some (k, w) → i = j

theorem Represents.congr (represents : Represents n slot map)
    (same : ∀ i < n, slot' i = slot i)
    : Represents n slot' map := by
  refine ⟨fun i inside => ?_, fun k v isThere => ?_, fun i inside j inside' => ?_⟩
  · rw [same i inside]
    exact represents.held i inside
  · obtain ⟨i, inside, holds⟩ := represents.found k v isThere
    exact ⟨i, inside, (same i inside).trans holds⟩
  · rw [same i inside, same j inside']
    exact represents.once i inside j inside'

theorem Represents.none_iff (represents : Represents n slot map)
    : map k = none ↔ ∀ i < n, ∀ v, slot i ≠ some (k, v) := by
  constructor
  · intro absent i inside v holds
    rw [represents.held i inside k v holds] at absent
    cases absent
  · intro absent
    cases isThere : map k with
    | none => rfl
    | some v =>
      obtain ⟨i, inside, holds⟩ := represents.found k v isThere
      exact absurd holds (absent i inside v)

variable [DecidableEq K]

/-- A key that is absent is inserted in an empty slot or behind the last one. -/
theorem Represents.insert (represents : Represents n slot map) (absent : map k = none)
    (empty : i < n → slot i = none) (count : n' = max n (i + 1)) (next : i ≤ n)
    (placed : slot' i = some (k, v)) (others : ∀ j < n, j ≠ i → slot' j = slot j)
    : Represents n' slot' (update map k (some v)) := by
  subst count
  have old (j : Nat) (inside : j < max n (i + 1)) (other : j ≠ i) : j < n := by omega
  have away (j : Nat) (inside : j < n) (w : V) (holds : slot j = some (k, w)) : False :=
    represents.none_iff.mp absent j inside w holds
  refine ⟨fun j inside key w holds => ?_, fun key w isThere => ?_,
    fun j inside j' inside' key w w' holds holds' => ?_⟩
  · by_cases mine : j = i
    · rw [mine, placed] at holds
      cases holds
      rw [update_self]
    · have inside := old j inside mine
      rw [others j inside mine] at holds
      have other : key ≠ k := by
        rintro rfl
        exact away j inside w holds
      rw [update_of_ne other]
      exact represents.held j inside key w holds
  · by_cases mine : key = k
    · rw [mine, update_self] at isThere
      cases isThere
      exact ⟨i, by omega, mine ▸ placed⟩
    · rw [update_of_ne mine] at isThere
      obtain ⟨j, inside, holds⟩ := represents.found key w isThere
      refine ⟨j, by omega, (others j inside fun same => ?_).trans holds⟩
      rw [same, empty (same ▸ inside)] at holds
      cases holds
  · by_cases mine : j = i
    · by_cases mine' : j' = i
      · rw [mine, mine']
      · rw [mine, placed] at holds
        cases holds
        rw [others j' (old j' inside' mine') mine'] at holds'
        exact (away j' (old j' inside' mine') w' holds').elim
    · rw [others j (old j inside mine) mine] at holds
      by_cases mine' : j' = i
      · rw [mine', placed] at holds'
        cases holds'
        exact (away j (old j inside mine) w holds).elim
      · rw [others j' (old j' inside' mine') mine'] at holds'
        exact represents.once j (old j inside mine) j' (old j' inside' mine') key w w' holds holds'

/-- A key is erased by emptying its slot. -/
theorem Represents.erase (represents : Represents n slot map) (inside : i < n)
    (holds : slot i = some (k, v)) (emptied : slot' i = none)
    (others : ∀ j < n, j ≠ i → slot' j = slot j)
    : Represents n slot' (update map k none) := by
  have kept (j : Nat) (inside : j < n) (entry : K × V) (after : slot' j = some entry)
      : j ≠ i ∧ slot j = some entry := by
    have other : j ≠ i := fun same => by
      rw [same, emptied] at after
      cases after
    exact ⟨other, others j inside other ▸ after⟩
  refine ⟨fun j inside' key w after => ?_, fun key w isThere => ?_,
    fun j inside j' inside' key w w' after after' => ?_⟩
  · obtain ⟨other, before⟩ := kept j inside' _ after
    have otherKey : key ≠ k := by
      rintro rfl
      exact other (represents.once j inside' i inside key w v before holds)
    rw [update_of_ne otherKey]
    exact represents.held j inside' key w before
  · by_cases mine : key = k
    · rw [mine, update_self] at isThere
      cases isThere
    · rw [update_of_ne mine] at isThere
      obtain ⟨j, inside', before⟩ := represents.found key w isThere
      refine ⟨j, inside', (others j inside' fun same => ?_).trans before⟩
      rw [same, holds] at before
      cases before
      exact mine rfl
  · exact represents.once j inside j' inside' key w w' (kept j inside _ after).2
      (kept j' inside' _ after').2

end Xv6.Library.SlotMap

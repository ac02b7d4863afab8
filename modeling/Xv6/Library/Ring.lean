import Mathlib

/-! A ring buffer between two counters that run freely and wrap around. Its capacity divides
the range of the counters, so that a counter keeps its place in the buffer when it wraps.
-/

namespace Xv6.Library

open Function

variable {α : Type} {capacity width : Nat} [NeZero capacity]

/-- The place of a counter in the buffer. -/
def ringIndex (capacity : Nat) [NeZero capacity] (counter : BitVec width) : Fin capacity :=
  Fin.ofNat capacity counter.toNat

/-- What is in the buffer from counter `first` up to counter `last`. -/
def ringContents (data : Fin capacity → α) (first last : BitVec width) : List α :=
  (List.range (last - first).toNat).map
    (fun k => data (ringIndex capacity (first + BitVec.ofNat width k)))

@[simp] theorem ringContents_length (data : Fin capacity → α) (first last : BitVec width)
    : (ringContents data first last).length = (last - first).toNat := by
  simp [ringContents]

@[simp] theorem ringContents_empty (data : Fin capacity → α) (counter : BitVec width)
    : ringContents data counter counter = [] := by
  simp [ringContents]

theorem ringIndex_add (fits : capacity ∣ 2 ^ width) (counter : BitVec width) (k : Nat)
    : (ringIndex capacity (counter + BitVec.ofNat width k)).val
      = (counter.toNat + k) % capacity := by
  simp only [ringIndex, BitVec.toNat_add, BitVec.toNat_ofNat, Nat.add_mod_mod]
  exact Nat.mod_mod_of_dvd _ fits

/-- Counters that are less than a round apart have different places. -/
theorem ringIndex_ne (fits : capacity ∣ 2 ^ width) (counter : BitVec width) {k n : Nat}
    (less : k < n) (round : n < capacity)
    : ringIndex capacity (counter + BitVec.ofNat width k)
      ≠ ringIndex capacity (counter + BitVec.ofNat width n) := by
  intro same
  have same := congrArg Fin.val same
  rw [ringIndex_add fits, ringIndex_add fits] at same
  have equal : k ≡ n [MOD capacity] := Nat.ModEq.add_left_cancel' counter.toNat same
  rw [Nat.ModEq, Nat.mod_eq_of_lt round, Nat.mod_eq_of_lt (by omega)] at equal
  omega

theorem add_sub_toNat (first last : BitVec width)
    : first + BitVec.ofNat width (last - first).toNat = last := by
  rw [BitVec.ofNat_toNat, BitVec.setWidth_eq, BitVec.add_comm, BitVec.sub_add_cancel]

theorem toNat_succ {counter : BitVec width} (room : counter.toNat + 1 < 2 ^ width)
    : (counter + 1).toNat = counter.toNat + 1 := by
  have one : (1 : BitVec width).toNat = 1 % 2 ^ width := BitVec.toNat_ofNat 1 width
  rw [BitVec.toNat_add, one, Nat.add_mod_mod]
  exact Nat.mod_eq_of_lt room

/-- What is put at `last` comes after everything in the buffer. -/
theorem ringContents_push (fits : capacity ∣ 2 ^ width) (small : capacity < 2 ^ width)
    (data : Fin capacity → α) {first last : BitVec width}
    (room : (last - first).toNat < capacity) (a : α)
    : ringContents (update data (ringIndex capacity last) a) first (last + 1)
      = ringContents data first last ++ [a] := by
  have length : (last + 1 - first).toNat = (last - first).toNat + 1 := by
    rw [add_sub_right_comm]
    exact toNat_succ (by omega)
  rw [ringContents, length, List.range_succ, List.map_append]
  congr 1
  · refine List.map_congr_left fun k inside => update_of_ne ?_ ..
    have other := ringIndex_ne fits first (List.mem_range.mp inside) room
    rwa [add_sub_toNat] at other
  · rw [List.map_singleton, add_sub_toNat, update_self]

/-- What is at `first` comes before everything else in the buffer. -/
theorem ringContents_pop (data : Fin capacity → α) {first last : BitVec width}
    (some : first ≠ last)
    : ringContents data first last
      = data (ringIndex capacity first) :: ringContents data (first + 1) last := by
  have shift : last - first = last - (first + 1) + 1 := by
    rw [sub_add_eq_sub_sub, sub_add_cancel]
  have room : (last - (first + 1)).toNat + 1 < 2 ^ width := by
    refine Nat.lt_of_le_of_ne (last - (first + 1)).isLt fun wraps => some ?_
    have none : last - first = 0 := by
      have one : (1 : BitVec width).toNat = 1 % 2 ^ width := BitVec.toNat_ofNat 1 width
      refine BitVec.eq_of_toNat_eq ?_
      rw [shift, BitVec.toNat_add, one, Nat.add_mod_mod, wraps, Nat.mod_self]
      rfl
    exact (sub_eq_zero.mp none).symm
  rw [ringContents, shift, toNat_succ room, List.range_succ_eq_map, List.map_cons, List.map_map]
  congr 1
  · simp
  · refine List.map_congr_left fun k _ => ?_
    simp only [comp_apply, Nat.succ_eq_add_one, BitVec.ofNat_add]
    rw [add_comm (BitVec.ofNat width k), ← add_assoc]
    rfl

end Xv6.Library

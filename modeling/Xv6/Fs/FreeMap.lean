import Xv6.Fs.Ownership

/-! `balloc` and `bfree` for every size of the disk and every content of the free map. -/

namespace Xv6.Fs

open Function Library Disk

variable {sb : Superblock} {s s' : Store} {b : Nat}

/-- The map has the bits of block 0 and of its own blocks. -/
structure SelfMarked (sb : Superblock) (view : Nat → Block) : Prop where
  boot : marked sb view 0 = true
  own : ∀ b < sb.size, sb.BBLOCK b < sb.size → marked sb view (sb.BBLOCK b) = true

/-- Block `b` was free, and `balloc` has taken it. A `bfree` undoes that, except for the data of
the block.
-/
structure Allocates (sb : Superblock) (s : Store) (b : Nat) (s' : Store) : Prop where
  bound : b < sb.size
  free : marked sb s.view b = false
  bits : ∀ i < BPB, (s'.view (sb.BBLOCK b)).getLsbD i
    = (decide (i = b % BPB) || (s.view (sb.BBLOCK b)).getLsbD i)
  zeroed : s'.view b = 0
  others : ∀ other, other ≠ b → other ≠ sb.BBLOCK b → s'.view other = s.view other
  back : (bfree sb b).Returns s' fun _ s'' => ∀ other, other ≠ b → s''.view other = s.view other

theorem allocates_of_taken (self : SelfMarked sb s.view) (bound : b < sb.size)
    (free : marked sb s.view b = false) (isTaken : s'.view = taken sb s.view b)
    : Allocates sb s b s' := by
  have apart : sb.BBLOCK b ≠ b := by
    intro same
    have own := self.own b bound
    rw [same, free] at own
    exact absurd (own bound) Bool.false_ne_true
  have map : s'.view (sb.BBLOCK b) = setField (s.view (sb.BBLOCK b)) (b % BPB) 1#1 := by
    rw [isTaken, taken, update_of_ne apart, update_self]
  have others : ∀ other, other ≠ b → other ≠ sb.BBLOCK b → s'.view other = s.view other := by
    intro other notBlock notMap
    rw [isTaken, taken_other notBlock notMap]
  refine ⟨bound, free, fun i inside => ?_, ?_, others, ?_⟩
  · rw [map, getLsbD_setBit _ inside]
    by_cases here : i = b % BPB
    · simp [here]
    · simp [here]
  · rw [isTaken, taken_self]
  · have bit : b % BPB < BPB := Nat.mod_lt b (by decide)
    have test : ¬(s'.view (sb.BBLOCK b)).getLsbD (b % BPB) = false := by
      rw [map, getLsbD_setBit _ bit]
      simp
    simp only [bfree, Prog.returns_bind, returns_bread, if_neg test, returns_setData,
      returns_logWrite, returns_brelse]
    intro other notBlock
    by_cases isMap : other = sb.BBLOCK b
    · rw [isMap, update_self, map]
      apply BitVec.eq_of_getLsbD_eq
      intro i inside
      rw [getLsbD_setBit _ inside, getLsbD_setBit _ inside]
      by_cases here : i = b % BPB
      · rw [if_pos here, here]
        exact free.symm
      · rw [if_neg here, if_neg here]
    · rw [update_of_ne isMap]
      exact others other notBlock isMap

/-- `balloc` takes a free block, and fails exactly when there is none. -/
theorem balloc_sound_and_complete (small : sb.size ≤ 2 ^ 31) (self : SelfMarked sb s.view)
    : (balloc sb).Returns s fun b s' =>
        (b ≠ 0 → b < 2 ^ 31 ∧ Allocates sb s b s') ∧ (b = 0 → s'.view = s.view)
        ∧ (b = 0 ↔ ∀ c < sb.size, marked sb s.view c = true) := by
  refine (balloc_returns sb s).mono fun b s' outcome => ?_
  rcases outcome with ⟨rfl, same, full⟩ | ⟨bound, free, isTaken⟩
  · refine ⟨fun nonzero => absurd rfl nonzero, fun _ => same, iff_of_true rfl fun c inside => ?_⟩
    have unfree := Finset.filter_eq_empty_iff.mp full (Finset.mem_range.mpr inside)
    simpa using unfree
  · have nonzero : b ≠ 0 := by
      intro zero
      rw [zero, self.boot] at free
      cases free
    refine ⟨fun _ => ⟨Nat.lt_of_lt_of_le bound small, allocates_of_taken self bound free isTaken⟩,
      fun zero => absurd zero nonzero, iff_of_false nonzero fun all => ?_⟩
    rw [all b bound] at free
    cases free

/-- A disk of three blocks. The last one is the free map. -/
def threeBlocks (map : Block) : Superblock × Store :=
  (⟨3, 0, 0, 2⟩, .boot (update (fun _ => 0) 2 map))

theorem balloc_takes_block_one
    : SelfMarked (threeBlocks 5).1 (threeBlocks 5).2.view
      ∧ (balloc (threeBlocks 5).1).Returns (threeBlocks 5).2 fun b _ => b ≠ 0 := by
  have self : SelfMarked (threeBlocks 5).1 (threeBlocks 5).2.view :=
    ⟨by decide +kernel, by decide +kernel⟩
  refine ⟨self, (balloc_sound_and_complete (by decide) self).mono fun b s' outcome zero => ?_⟩
  have marks := outcome.2.2.mp zero 1 (by decide)
  revert marks
  decide +kernel

/-- The free map does not have its own bit: `balloc` takes that block and clears the map. -/
theorem balloc_clears_the_map
    : marked (threeBlocks 3).1 (threeBlocks 3).2.view 0 = true
      ∧ (balloc (threeBlocks 3).1).Returns (threeBlocks 3).2 fun b s' =>
          b = 2 ∧ marked (threeBlocks 3).1 s'.view 0 = false := by
  refine ⟨by decide +kernel, (balloc_returns _ _).mono fun b s' outcome => ?_⟩
  rcases outcome with ⟨_, _, full⟩ | ⟨bound, free, isTaken⟩
  · exact absurd full (by decide +kernel)
  · have others : ∀ c < 3, marked (threeBlocks 3).1 (threeBlocks 3).2.view c = false → c = 2 := by
      decide +kernel
    have isMap := others b bound free
    rw [isTaken, isMap]
    exact ⟨rfl, by decide +kernel⟩

end Xv6.Fs

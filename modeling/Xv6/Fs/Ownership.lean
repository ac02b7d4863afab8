import Xv6.Fs.Inodes
import Xv6.Library.IndexTree

/-! Who owns a disk block. The free map has the bits of the blocks before the data blocks, and of
each block that an inode lists, directly or in an index block. No block is listed twice.
-/

namespace Xv6.Fs

open Function Library IndexTree Disk

variable {inum bn first bi : Nat}

-- The layout of the disk

/-- The disk is laid out as boot block, super block, log, inodes, free map and data blocks. A
`struct dirent` can name every inode.
-/
structure Superblock.WellFormed (sb : Superblock) : Prop where
  start : 1 < sb.inodestart
  inodes : sb.inodestart + sb.ninodes / IPB + 1 ≤ sb.bmapstart
  ninodes : sb.ninodes ≤ 2 ^ 16
  size : sb.size < 2 ^ 31

/-- The first data block. -/
def Superblock.dataStart (sb : Superblock) : Nat := sb.bmapstart + sb.size / BPB + 1

variable {sb : Superblock}

theorem Superblock.bmapstart_le_BBLOCK (sb : Superblock) (b : Nat) : sb.bmapstart ≤ sb.BBLOCK b :=
  Nat.le_add_left ..

theorem Superblock.inodestart_le_IBLOCK (sb : Superblock) (inum : Nat)
    : sb.inodestart ≤ sb.IBLOCK inum :=
  Nat.le_add_left ..

theorem Superblock.bmapstart_lt_dataStart (sb : Superblock) : sb.bmapstart < sb.dataStart :=
  Nat.lt_succ_of_le (Nat.le_add_right ..)

theorem Superblock.WellFormed.bmapstart_pos (wf : sb.WellFormed) : 0 < sb.bmapstart :=
  Nat.lt_of_lt_of_le (Nat.succ_pos _) wf.inodes

/-- The free map ends before the data blocks. -/
theorem Superblock.BBLOCK_lt {b : Nat} (bound : b < sb.size) : sb.BBLOCK b < sb.dataStart := by
  have := Nat.div_le_div_right (c := BPB) bound.le
  unfold BBLOCK dataStart
  omega

/-- The inode blocks end before the free map. -/
theorem Superblock.WellFormed.IBLOCK_lt (wf : sb.WellFormed) (bound : inum < sb.ninodes)
    : sb.IBLOCK inum < sb.bmapstart := by
  have := Nat.div_le_div_right (c := IPB) bound.le
  have := wf.inodes
  unfold IBLOCK
  omega

/-- Whether the free map has the bit of the block. -/
def marked (sb : Superblock) (view : Nat → Block) (b : Nat) : Bool :=
  (view (sb.BBLOCK b)).getLsbD (b % BPB)

/-- The blocks that `balloc` could return. -/
def freeBlocks (sb : Superblock) (view : Nat → Block) : Finset Nat :=
  (Finset.range sb.size).filter fun b => marked sb view b = false

/-- The free blocks are those the map does not mark. -/
theorem mem_freeBlocks {view : Nat → Block} {b : Nat}
    : b ∈ freeBlocks sb view ↔ b < sb.size ∧ marked sb view b = false := by
  simp [freeBlocks]

-- The blocks of an inode

/-- A word of the `addrs` of an inode. -/
abbrev Root := Nat × Fin (NDIRECT + 2)

/-- The levels of index blocks below a word of `addrs`. -/
def levels (r : Root) : Nat := if r.2.val < NDIRECT then 0 else if r.2.val = NDIRECT then 1 else 2

/-- A place that keeps a block number: a word of `addrs`, or of an index block below it. -/
abbrev Slot := Position Root (Fin NINDIRECT)

/-- Word `i` of index block `b`. -/
def entryOf (view : Nat → Block) (b : Nat) (i : Fin NINDIRECT) : Nat := word (view b) i

/-- The block number in the slot, with 0 for none. -/
def address (view : Nat → Block) (addrs : Nat → Fin (NDIRECT + 2) → Nat) (slot : Slot) : Nat :=
  locate (fun r : Root => addrs r.1 r.2) (entryOf view) slot

/-- The slot of block `bn` of an inode. -/
def blockSlot (inum bn : Nat) : Slot :=
  if bn < NDIRECT then ((inum, Fin.ofNat _ bn), [])
  else if bn - NDIRECT < NINDIRECT then ((inum, Fin.ofNat _ NDIRECT), [Fin.ofNat _ (bn - NDIRECT)])
  else
    ((inum, Fin.ofNat _ (NDIRECT + 1)),
      [Fin.ofNat _ ((bn - NDIRECT - NINDIRECT) / NINDIRECT),
        Fin.ofNat _ ((bn - NDIRECT - NINDIRECT) % NINDIRECT)])

/-- A block of a file is listed under the file. -/
theorem blockSlot_inum (inum bn : Nat) : (blockSlot inum bn).1.1 = inum := by
  unfold blockSlot
  split_ifs <;> rfl

/-- Every block number of a file leads to a leaf of the index tree. -/
theorem blockSlot_leaf (inum bn : Nat) : Leaf levels (blockSlot inum bn) := by
  unfold blockSlot
  split_ifs with direct single
  · have value : (Fin.ofNat (NDIRECT + 2) bn).val = bn :=
      Nat.mod_eq_of_lt (by omega)
    simp only [Leaf, levels, value, if_pos direct, List.length_nil]
  · rfl
  · rfl

/-- The first blocks are listed in the inode. -/
theorem blockSlot_direct (inum : Nat) (direct : bn < NDIRECT)
    : blockSlot inum bn = ((inum, ⟨bn, Nat.lt_add_right 2 direct⟩), []) := by
  rw [blockSlot, if_pos direct]
  exact congrArg (fun k => ((inum, k), [])) (Fin.ext (Nat.mod_eq_of_lt (Nat.lt_add_right 2 direct)))

/-- The next ones are listed in the single-indirect block. -/
theorem blockSlot_single (inum : Nat) (indirect : ¬bn < NDIRECT) (single : bn - NDIRECT < NINDIRECT)
    : blockSlot inum bn = ((inum, ⟨NDIRECT, by decide⟩), [] ++ [⟨bn - NDIRECT, single⟩]) := by
  rw [blockSlot, if_neg indirect, if_pos single]
  exact Prod.ext rfl (congrArg (fun i => [i]) (Fin.ext (Nat.mod_eq_of_lt single)))

theorem high_lt (double : bn - NDIRECT - NINDIRECT < NDINDIRECT)
    : (bn - NDIRECT - NINDIRECT) / NINDIRECT < NINDIRECT :=
  Nat.div_lt_of_lt_mul double

theorem low_lt (bn : Nat) : (bn - NDIRECT - NINDIRECT) % NINDIRECT < NINDIRECT :=
  Nat.mod_lt _ (by decide)

/-- The rest is listed two levels down. -/
theorem blockSlot_double (inum : Nat) (indirect : ¬bn < NDIRECT)
    (beyond : ¬bn - NDIRECT < NINDIRECT) (double : bn - NDIRECT - NINDIRECT < NDINDIRECT)
    : blockSlot inum bn
      = ((inum, ⟨NDIRECT + 1, by decide⟩),
          ([] ++ [⟨_, high_lt double⟩]) ++ [⟨_, low_lt bn⟩]) := by
  rw [blockSlot, if_neg indirect, if_neg beyond]
  exact Prod.ext rfl (congrArg₂ (fun i j => [i, j]) (Fin.ext (Nat.mod_eq_of_lt (high_lt double)))
    (Fin.ext (Nat.mod_eq_of_lt (low_lt bn))))

/-- Different blocks of files are listed in different places. -/
theorem blockSlot_inj {inum' bn' : Nat} (bound : bn < MAXFILE) (bound' : bn' < MAXFILE)
    (same : blockSlot inum bn = blockSlot inum' bn')
    : inum = inum' ∧ bn = bn' := by
  have direct : NDIRECT = 11 := rfl
  have single : NINDIRECT = 256 := rfl
  have most : MAXFILE = 65803 := rfl
  unfold blockSlot at same
  split_ifs at same <;>
    simp only [Prod.mk.injEq, Fin.ext_iff, Fin.val_ofNat, List.cons.injEq] at same <;>
    simp only [direct, single] at * <;>
    omega

-- The invariant

/-- Each block has one owner, and the free map knows which ones have. -/
structure Owned (sb : Superblock) (view : Nat → Block) (addrs : Nat → Fin (NDIRECT + 2) → Nat)
    : Prop where
  layout : sb.WellFormed
  boot : view 0 = 0
  forest : Forest 0 levels (fun r : Root => addrs r.1 r.2) (entryOf view)
  data : ∀ slot, Within levels slot → address view addrs slot ≠ 0
    → sb.dataStart ≤ address view addrs slot ∧ address view addrs slot < sb.size
  bits : ∀ b < sb.size, marked sb view b = true
    ↔ b < sb.dataStart ∨ ∃ slot, Within levels slot ∧ address view addrs slot = b

variable {view view' : Nat → Block} {addrs addrs' : Nat → Fin (NDIRECT + 2) → Nat} {a b : Nat}

/-- Block 0 lists nothing: a missing index block reads as one without entries. -/
theorem entryOf_zero (boot : view 0 = 0) (i : Fin NINDIRECT) : entryOf view 0 i = 0 := by
  rw [entryOf, boot, word_zero]

/-- A block is listed in one place only. -/
theorem Owned.single (owned : Owned sb view addrs) {slot other : Slot}
    (within : Within levels slot) (withinOther : Within levels other)
    (same : address view addrs slot = address view addrs other)
    (present : address view addrs other ≠ 0)
    : slot = other :=
  owned.forest.single slot other within withinOther same fun none => present (same.symm.trans none)

/-- A block that is not marked is a data block that is listed nowhere. -/
theorem Owned.unmarked (owned : Owned sb view addrs) (bound : a < sb.size)
    (free : marked sb view a = false)
    : sb.dataStart ≤ a ∧ Fresh levels (fun r : Root => addrs r.1 r.2) (entryOf view) a := by
  have bits := owned.bits a bound
  rw [free] at bits
  refine ⟨?_, fun slot within isA => ?_⟩
  · by_contra low
    exact Bool.noConfusion (bits.mpr (.inl (by omega)))
  · exact Bool.noConfusion (bits.mpr (.inr ⟨slot, within, isA⟩))

theorem Superblock.dataStart_pos (sb : Superblock) : 0 < sb.dataStart := Nat.succ_pos _

-- Taking a block

/-- The blocks after `balloc` has taken block `a`. -/
def taken (sb : Superblock) (view : Nat → Block) (a : Nat) : Nat → Block :=
  update
    (update view (sb.BBLOCK a) (setField (view (sb.BBLOCK a)) (a % BPB) 1#1)) a 0

@[simp] theorem taken_self (view : Nat → Block) : taken sb view a a = 0 := update_self ..

/-- `balloc` changes the new block and one block of the free map. -/
theorem taken_other {b : Nat} (other : b ≠ a) (outside : b ≠ sb.BBLOCK a)
    : taken sb view a b = view b := by
  rw [taken, update_of_ne other, update_of_ne outside]

/-- Changing the bit of a block in the map. -/
theorem marked_setBit {value : BitVec 1}
    : marked sb
        (update view (sb.BBLOCK a) (setField (view (sb.BBLOCK a)) (a % BPB) value)) b
      = if b = a then value.getLsbD 0 else marked sb view b := by
  have small : b % BPB < BPB := Nat.mod_lt _ (by decide)
  unfold marked
  by_cases here : sb.BBLOCK b = sb.BBLOCK a
  · rw [here, update_self, getLsbD_setBit _ small]
    have quotient : b / BPB = a / BPB := by
      unfold Superblock.BBLOCK at here
      omega
    by_cases same : b = a
    · rw [if_pos same, if_pos (by rw [same])]
    · rw [if_neg same, if_neg]
      intro rest
      refine same ?_
      rw [← Nat.div_add_mod b BPB, quotient, rest, Nat.div_add_mod]
  · rw [update_of_ne here, if_neg]
    rintro rfl
    exact here rfl

/-- `balloc` marks the block it returns and no other. -/
theorem marked_taken (above : sb.dataStart ≤ a) (bound : b < sb.size)
    : marked sb (taken sb view a) b = true ↔ b = a ∨ marked sb view b = true := by
  have apart : sb.BBLOCK b ≠ a := by
    have := Superblock.BBLOCK_lt bound
    omega
  have same : marked sb (taken sb view a) b
      = marked sb
          (update view (sb.BBLOCK a) (setField (view (sb.BBLOCK a)) (a % BPB) 1#1)) b :=
    congrArg (BitVec.getLsbD · (b % BPB)) (update_of_ne apart ..)
  rw [same, marked_setBit]
  by_cases isA : b = a
  · simp [isA]
  · simp [isA]

/-- The scan of a block of the free map stops at a clear bit. -/
theorem freeBit_some {data : Block} (found : freeBit sb first data = some bi)
    : bi < BPB ∧ first + bi < sb.size ∧ data.getLsbD bi = false := by
  have member := List.mem_of_find?_eq_some found
  have free := List.find?_some found
  simp only [Bool.and_eq_true, decide_eq_true_eq, Bool.not_eq_true'] at free
  exact ⟨List.mem_range.mp member, free⟩

/-- It finds nothing when all bits of the block are set. -/
theorem freeBit_none {data : Block} (none : freeBit sb first data = none) (bound : bi < BPB)
    (inside : first + bi < sb.size)
    : data.getLsbD bi = true := by
  have taken := List.find?_eq_none.mp none bi (List.mem_range.mpr bound)
  simpa [inside] using taken

/-- What `balloc` returns: a block that it has taken, or 0 because all blocks have owners. -/
def Taken (sb : Superblock) (view : Nat → Block) (b : Nat) (s' : Store) : Prop :=
  (b = 0 ∧ s'.view = view ∧ freeBlocks sb view = ∅)
  ∨ (b < sb.size ∧ marked sb view b = false ∧ s'.view = taken sb view b)

/-- The bits of one round stand in one block of the free map. -/
theorem ballocBit (sb : Superblock) (block : Nat) (bound : bi < BPB)
    : sb.BBLOCK (block * BPB + bi) = sb.BBLOCK (block * BPB) ∧ (block * BPB + bi) % BPB = bi := by
  unfold Superblock.BBLOCK
  rw [Nat.add_comm (block * BPB), Nat.add_mul_div_right _ _ (by decide : 0 < BPB),
    Nat.add_mul_mod_self_right, Nat.div_eq_of_lt bound, Nat.mod_eq_of_lt bound,
    Nat.mul_div_cancel _ (by decide : 0 < BPB), Nat.zero_add]
  exact ⟨rfl, rfl⟩

/-- The outer loop of `balloc`, by induction on the rounds: the blocks it has passed are marked. -/
theorem ballocFrom_returns {s : Store} {rounds block : Nat}
    (rest : sb.size ≤ (block + rounds) * BPB)
    (earlier : ∀ b < block * BPB, b < sb.size → marked sb s.view b = true)
    : (ballocFrom sb rounds (block * BPB)).Returns s (Taken sb s.view) := by
  induction rounds generalizing block with
  | zero =>
    refine Prog.returns_pure.mpr (.inl ⟨rfl, rfl, ?_⟩)
    refine Finset.filter_eq_empty_iff.mpr fun b member free => ?_
    have bound := Finset.mem_range.mp member
    rw [earlier b (Nat.lt_of_lt_of_le bound rest) bound] at free
    cases free
  | succ rounds ih =>
    rw [ballocFrom_succ, Prog.returns_bind, returns_bread]
    cases search : freeBit sb (block * BPB) (s.view (sb.BBLOCK (block * BPB))) with
    | some bi =>
      obtain ⟨bound, inside, free⟩ := freeBit_some search
      obtain ⟨sameBlock, sameBit⟩ := ballocBit sb block bound
      simp only [bzero, Prog.returns_bind, returns_setData, returns_logWrite,
        returns_brelse, returns_bread, Prog.returns_pure]
      refine .inr ⟨inside, ?_, ?_⟩
      · rw [marked, sameBlock, sameBit]
        exact free
      · rw [taken, sameBlock, sameBit]
    | none =>
      rw [← Nat.succ_mul]
      refine ih (by rwa [Nat.succ_add]) (fun b before bound => ?_)
      by_cases old : b < block * BPB
      · exact earlier b old bound
      · obtain ⟨bi, rfl⟩ := Nat.exists_eq_add_of_le (Nat.le_of_not_lt old)
        have small : bi < BPB := by
          rw [Nat.succ_mul] at before
          omega
        obtain ⟨sameBlock, sameBit⟩ := ballocBit sb block small
        rw [marked, sameBlock, sameBit]
        exact freeBit_none search small bound

/-- `balloc` takes a free block, or there is none. -/
theorem balloc_returns (sb : Superblock) (s : Store)
    : (balloc sb).Returns s (Taken sb s.view) := by
  have all : sb.size ≤ (0 + (sb.size + (BPB - 1)) / BPB) * BPB := by
    rw [show BPB = 8192 from rfl]
    omega
  have none : ∀ b < 0 * BPB, b < sb.size → marked sb s.view b = true := by
    intro b before
    exact absurd before (Nat.not_lt_zero b)
  have returns := ballocFrom_returns all none
  rwa [Nat.zero_mul] at returns

end Xv6.Fs

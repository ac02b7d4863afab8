import Xv6.Fs.Ownership

/-! `bmap`: the way to a block of an inode is completed with blocks that nobody owned, as far as
there are any.
-/

namespace Xv6.Fs

open Function Library IndexTree Disk

variable {sb : Superblock} {view view' view'' : Nat → Block}
  {addrs addrs' addrs'' : Nat → Fin (NDIRECT + 2) → Nat} {a : Nat}
variable {slot : Slot} {r : Root} {path : List (Fin NINDIRECT)} {addr : Nat}

-- One more block

/-- The slot lies on the way to the target. -/
def OnWay (slot target : Slot) : Prop := slot.1 = target.1 ∧ slot.2 <+: target.2

theorem OnWay.refl (slot : Slot) : OnWay slot slot := ⟨rfl, List.prefix_rfl⟩

theorem OnWay.append (r : Root) (path rest : List (Fin NINDIRECT))
    : OnWay (r, path) (r, path ++ rest) :=
  ⟨rfl, List.prefix_append path rest⟩

/-- The steps of the way that lead to no block yet. -/
def missing (view : Nat → Block) (addrs : Nat → Fin (NDIRECT + 2) → Nat) (target : Slot)
    : Finset Nat :=
  (Finset.range (target.2.length + 1)).filter fun n =>
    address view addrs (target.1, target.2.take n) = 0

theorem mem_missing {target : Slot} {n : Nat}
    : n ∈ missing view addrs target
      ↔ n ≤ target.2.length ∧ address view addrs (target.1, target.2.take n) = 0 := by
  simp [missing]

/-- The slot is filled with the block, and nothing else changes in the trees. -/
structure Filled (sb : Superblock) (slot : Slot) (a : Nat) (view : Nat → Block)
    (addrs : Nat → Fin (NDIRECT + 2) → Nat) (view' : Nat → Block)
    (addrs' : Nat → Fin (NDIRECT + 2) → Nat)
    : Prop where
  within : Within levels slot
  empty : address view addrs slot = 0
  bound : a < sb.size
  free : marked sb view a = false
  boot : view' 0 = 0
  addresses : ∀ other, Within levels other
    → address view' addrs' other = if other = slot then a else address view addrs other
  bits : ∀ b < sb.size, marked sb view' b = true ↔ b = a ∨ marked sb view b = true

/-- Filling a slot with a free block keeps the blocks apart. -/
theorem Owned.filled (owned : Owned sb view addrs) {slot : Slot}
    (filled : Filled sb slot a view addrs view' addrs')
    : Owned sb view' addrs' := by
  obtain ⟨above, fresh⟩ := owned.unmarked filled.bound filled.free
  refine ⟨owned.layout, filled.boot,
    owned.forest.grow fresh (entryOf_zero filled.boot) filled.addresses,
    fun other within present => ?_, fun b bound => ?_⟩
  · rw [filled.addresses other within] at present ⊢
    split_ifs at present ⊢
    · exact ⟨above, filled.bound⟩
    · exact owned.data other within present
  · rw [filled.bits b bound, owned.bits b bound]
    constructor
    · rintro (rfl | low | ⟨other, within, isB⟩)
      · exact .inr ⟨slot, filled.within, by rw [filled.addresses slot filled.within, if_pos rfl]⟩
      · exact .inl low
      · by_cases low : b < sb.dataStart
        · exact .inl low
        · refine .inr ⟨other, within, ?_⟩
          rw [filled.addresses other within, if_neg, isB]
          rintro rfl
          have := filled.empty
          have := sb.dataStart_pos
          omega
    · rintro (low | ⟨other, within, isB⟩)
      · exact .inr (.inl low)
      · rw [filled.addresses other within] at isB
        split_ifs at isB
        · exact .inl isB.symm
        · exact .inr (.inr ⟨other, within, isB⟩)

/-- Filling a slot takes one block from the free ones. -/
theorem Filled.freeBlocks {slot : Slot} (filled : Filled sb slot a view addrs view' addrs')
    : (freeBlocks sb view').card + 1 = (freeBlocks sb view).card := by
  have erased : Fs.freeBlocks sb view' = (Fs.freeBlocks sb view).erase a := by
    ext b
    rw [Finset.mem_erase, mem_freeBlocks, mem_freeBlocks]
    by_cases bound : b < sb.size
    · have bits := filled.bits b bound
      rw [← Bool.not_eq_true, ← Bool.not_eq_true]
      tauto
    · simp [bound]
  rw [erased]
  exact Finset.card_erase_add_one (mem_freeBlocks.mpr ⟨filled.bound, filled.free⟩)

/-- A slot on the way is one of its steps. -/
theorem Filled.missing {slot target : Slot} (filled : Filled sb slot a view addrs view' addrs')
    (owned : Owned sb view addrs) (onWay : OnWay slot target) (within : Within levels target)
    : (missing view' addrs' target).card + 1 = (missing view addrs target).card := by
  obtain ⟨sameRoot, isPrefix⟩ := onWay
  have isTake : slot.2 = target.2.take slot.2.length := List.prefix_iff_eq_take.mp isPrefix
  have short := isPrefix.length_le
  have present : a ≠ 0 := by
    have := (owned.unmarked filled.bound filled.free).1
    have := sb.dataStart_pos
    omega
  have erased : Fs.missing view' addrs' target
      = (Fs.missing view addrs target).erase slot.2.length := by
    ext n
    rw [Finset.mem_erase, mem_missing, mem_missing]
    by_cases bound : n ≤ target.2.length
    · have inside : Within levels (target.1, target.2.take n) :=
        le_trans (List.length_take_le' n target.2) within
      rw [filled.addresses _ inside]
      by_cases here : n = slot.2.length
      · have same : (target.1, target.2.take n) = slot :=
          Prod.ext sameRoot.symm (by rw [here, ← isTake])
        rw [if_pos same]
        exact ⟨fun gone => absurd gone.2 present, fun gone => absurd here gone.1⟩
      · have other : (target.1, target.2.take n) ≠ slot := by
          intro same
          have lengths := congrArg (fun s : Slot => s.2.length) same
          simp only [List.length_take] at lengths
          omega
        rw [if_neg other]
        exact ⟨fun gone => ⟨here, gone⟩, And.right⟩
    · simp [bound]
  rw [erased]
  refine Finset.card_erase_add_one (mem_missing.mpr ⟨short, ?_⟩)
  rw [← isTake, ← sameRoot]
  exact filled.empty

-- The way to a slot

/-- What completing the way to a slot leaves as it was. A data block that is new has no contents.
-/
structure Extends (sb : Superblock) (target : Slot) (view : Nat → Block)
    (addrs : Nat → Fin (NDIRECT + 2) → Nat) (view' : Nat → Block)
    (addrs' : Nat → Fin (NDIRECT + 2) → Nat)
    : Prop where
  owned : Owned sb view' addrs'
  addresses : ∀ slot, Within levels slot → address view' addrs' slot = address view addrs slot
    ∨ (OnWay slot target ∧ address view addrs slot = 0)
  data : ∀ slot, Leaf levels slot → address view addrs slot ≠ 0
    → view' (address view addrs slot) = view (address view addrs slot)
  fresh : ∀ slot, Leaf levels slot → address view addrs slot = 0 → address view' addrs' slot ≠ 0
    → view' (address view' addrs' slot) = 0
  low : ∀ b < sb.bmapstart, view' b = view b
  count : (freeBlocks sb view').card + (missing view addrs target).card
    = (freeBlocks sb view).card + (missing view' addrs' target).card

theorem Leaf.within (leaf : Leaf levels slot) : Within levels slot := Nat.le_of_eq leaf

theorem Extends.refl (owned : Owned sb view addrs) (target : Slot)
    : Extends sb target view addrs view addrs :=
  ⟨owned, fun _ _ => .inl rfl, fun _ _ _ => rfl, fun _ _ none some => (some none).elim,
    fun _ _ => rfl, rfl⟩

theorem Extends.kept {target : Slot} (extends_ : Extends sb target view addrs view' addrs')
    (within : Within levels slot) (present : address view addrs slot ≠ 0)
    : address view' addrs' slot = address view addrs slot :=
  (extends_.addresses slot within).resolve_right fun empty => present empty.2

/-- Growing twice towards one slot is growing towards it. -/
theorem Extends.trans {target : Slot} (first : Extends sb target view addrs view' addrs')
    (second : Extends sb target view' addrs' view'' addrs'')
    : Extends sb target view addrs view'' addrs'' := by
  refine ⟨second.owned, fun slot within => ?_, fun slot leaf present => ?_,
    fun slot leaf none some => ?_, fun b low => (second.low b low).trans (first.low b low), ?_⟩
  · rcases first.addresses slot within with same | changed
    · rw [← same]
      exact second.addresses slot within
    · exact .inr changed
  · have same := first.kept (Leaf.within leaf) present
    rw [← first.data slot leaf present, ← same]
    exact second.data slot leaf (same ▸ present)
  · by_cases middle : address view' addrs' slot = 0
    · exact second.fresh slot leaf middle some
    · rw [second.kept (Leaf.within leaf) middle, second.data slot leaf middle]
      exact first.fresh slot leaf none middle
  · have := first.count
    have := second.count
    omega

/-- Filling a slot on the way. -/
theorem Filled.extends {target : Slot} (filled : Filled sb slot a view addrs view' addrs')
    (owned : Owned sb view addrs) (onWay : OnWay slot target) (within : Within levels target)
    (data : ∀ slot, Leaf levels slot → address view addrs slot ≠ 0
      → view' (address view addrs slot) = view (address view addrs slot))
    (empty : view' a = 0) (low : ∀ b < sb.bmapstart, view' b = view b)
    : Extends sb target view addrs view' addrs' := by
  refine ⟨owned.filled filled, fun other inside => ?_, data, fun other leaf none some => ?_, low,
    ?_⟩
  · rw [filled.addresses other inside]
    split_ifs with same
    · subst same
      exact .inr ⟨onWay, filled.empty⟩
    · exact .inl rfl
  · rw [filled.addresses other (Leaf.within leaf)] at some ⊢
    split_ifs at some ⊢ with same
    · exact empty
    · exact (some none).elim
  · have := filled.freeBlocks
    have := filled.missing owned onWay within
    omega

-- `bmap`

section

variable (owned : Owned sb view addrs) (bound : a < sb.size) (free : marked sb view a = false)
include owned bound free

/-- Taking a free block does not change the blocks in use. -/
theorem Owned.taken_kept (within : Within levels slot)
    : taken sb view a (address view addrs slot) = view (address view addrs slot) := by
  obtain ⟨above, fresh⟩ := owned.unmarked bound free
  refine taken_other (fresh slot within) ?_
  have low := sb.bmapstart_le_BBLOCK a
  have high := Superblock.BBLOCK_lt bound
  have start := owned.layout.bmapstart_pos
  by_cases present : address view addrs slot = 0
  · omega
  · have := (owned.data slot within present).1
    omega

theorem Owned.taken_low {b : Nat} (low : b < sb.bmapstart) : taken sb view a b = view b := by
  have above := (owned.unmarked bound free).1
  have := sb.bmapstart_le_BBLOCK a
  have := sb.bmapstart_lt_dataStart
  exact taken_other (by omega) (by omega)

theorem Owned.taken_boot : taken sb view a 0 = 0 := by
  rw [owned.taken_low bound free owned.layout.bmapstart_pos, owned.boot]

/-- A word of `addrs` is given a block. -/
theorem Owned.fill_root {inum : Nat} {k : Fin (NDIRECT + 2)} (empty : addrs inum k = 0)
    : Filled sb ((inum, k), []) a view addrs (taken sb view a)
        (update addrs inum (update (addrs inum) k a)) := by
  have roots : (fun r : Root =>
        update addrs inum (update (addrs inum) k a) r.1 r.2)
      = update (fun r : Root => addrs r.1 r.2) (inum, k) a := by
    funext r
    obtain ⟨i, j⟩ := r
    by_cases isI : i = inum
    · subst isI
      by_cases isK : j = k
      · subst isK
        simp
      · simp [isK]
    · simp [isI]
  refine ⟨Nat.zero_le _, empty, bound, free, owned.taken_boot bound free, fun other within => ?_,
    fun b inside => marked_taken (owned.unmarked bound free).1 inside⟩
  unfold address
  rw [roots]
  refine owned.forest.locate_plant empty (fun i => ?_)
    (fun p inner => funext fun i => ?_) other within
  · rw [entryOf, taken_self, word_zero]
  · exact congrArg (word · i) (owned.taken_kept bound free inner.within)

/-- A word of an index block is given a block. -/
theorem Owned.fill_entry {x : Nat} {i : Fin NINDIRECT} (inner : Inner levels (r, path))
    (parent : address view addrs (r, path) = x) (present : x ≠ 0) (empty : word (view x) i = 0)
    : Filled sb (r, path ++ [i]) a view addrs
        (update (taken sb view a) x (setWord (view x) i a)) addrs := by
  obtain ⟨above, fresh⟩ := owned.unmarked bound free
  have notA : a ≠ x := fun same => fresh _ inner.within (parent.trans same.symm)
  have high : sb.dataStart ≤ x := by
    have := (owned.data _ inner.within (parent ▸ present)).1
    rwa [parent] at this
  have small : a < 2 ^ 32 := by
    have := owned.layout.size
    omega
  refine ⟨inner.snoc i, ?_, bound, free, ?_, fun other within => ?_, fun b inside => ?_⟩
  · rw [address, locate_snoc]
    exact (congrArg (fun y => word (view y) i) parent).trans empty
  · rw [update_of_ne present.symm, owned.taken_boot bound free]
  · refine owned.forest.locate_attach inner parent present empty (fun j => ?_) (funext fun j => ?_)
      (fun p innerP other => funext fun j => ?_) other within
    · rw [entryOf, update_of_ne notA, taken_self, word_zero]
    · rw [entryOf, update_self]
      by_cases same : j = i
      · subst same
        rw [update_self, word_setWord_same _ j.isLt small]
      · rw [update_of_ne same, word_setWord_other _ j.isLt fun isI => same (Fin.ext isI)]
        rfl
    · rw [entryOf, update_of_ne other]
      exact congrArg (word · j) (owned.taken_kept bound free innerP.within)
  · have apart : sb.BBLOCK b ≠ x := by
      have := Superblock.BBLOCK_lt inside
      omega
    rw [← marked_taken above inside, marked, update_of_ne apart, marked]

end

/-- What is found in a slot when the way to the target has been completed as far as it could be. -/
structure Mapped (sb : Superblock) (slot target : Slot) (view : Nat → Block)
    (addrs : Nat → Fin (NDIRECT + 2) → Nat) (addr : Nat) (view' : Nat → Block)
    (addrs' : Nat → Fin (NDIRECT + 2) → Nat)
    : Prop where
  grows : Extends sb target view addrs view' addrs'
  found : addr = address view' addrs' slot
  full : addr = 0 → freeBlocks sb view' = ∅

variable {s : Store} {ip : Inode} {target : Slot}

section

variable (owned : Owned sb s.view addrs)
include owned

/-- An entry of the inode is found, or filled with a free block while there is one. -/
theorem inodeBlock_returns (mine : addrs ip.inum = ip.addrs) {k : Fin (NDIRECT + 2)}
    (onWay : OnWay ((ip.inum, k), []) target) (within : Within levels target)
    : (inodeBlock sb ip k).Returns s fun result s' =>
        result.2 = { ip with addrs := result.2.addrs }
        ∧ Mapped sb ((ip.inum, k), []) target s.view addrs result.1 s'.view
            (update addrs ip.inum result.2.addrs) := by
  have same : update addrs ip.inum ip.addrs = addrs := by
    rw [← mine, update_eq_self]
  unfold inodeBlock
  split_ifs with empty
  · refine (balloc_returns sb s).bind fun b s' result => ?_
    rcases result with ⟨rfl, unchanged, full⟩ | ⟨bound, free, isTaken⟩
    · rw [if_pos rfl, Prog.returns_pure, unchanged, same]
      refine ⟨rfl, .refl owned target, ?_, fun _ => full⟩
      rw [address, locate_nil, mine, empty]
    · have positive : b ≠ 0 := by
        have := (owned.unmarked bound free).1
        have := sb.dataStart_pos
        omega
      rw [if_neg positive, Prog.returns_pure, isTaken]
      rw [← mine] at empty
      have filled := owned.fill_root bound free empty
      have addrsEq : (ip.setAddr k b).addrs = update (addrs ip.inum) k b := by
        rw [mine]
        rfl
      simp only [addrsEq]
      refine ⟨?_, filled.extends owned onWay within
        (fun slot leaf _ => owned.taken_kept bound free (Leaf.within leaf)) (taken_self _)
        (fun b low => owned.taken_low bound free low), ?_, fun isZero => (positive isZero).elim⟩
      · rw [← addrsEq]
        rfl
      · rw [filled.addresses _ filled.within, if_pos rfl]
  · rw [Prog.returns_pure, same]
    refine ⟨rfl, .refl owned target, ?_, fun isZero => (empty isZero).elim⟩
    rw [address, locate_nil, mine]

/-- An entry of an index block is found, or filled with a free block while there is one. -/
theorem indexBlock_returns {x : Nat} {i : Fin NINDIRECT} (inner : Inner levels (r, path))
    (parent : address s.view addrs (r, path) = x) (present : x ≠ 0)
    (onWay : OnWay (r, path ++ [i]) target) (within : Within levels target)
    : (indexBlock sb x i).Returns s fun addr s' =>
        Mapped sb (r, path ++ [i]) target s.view addrs addr s'.view addrs := by
  have entry : address s.view addrs (r, path ++ [i]) = word (s.view x) i := by
    rw [address, locate_snoc]
    exact congrArg (fun y => word (s.view y) i) parent
  rw [indexBlock, Prog.returns_bind, returns_bread]
  split_ifs with empty
  · refine (balloc_returns sb s).bind fun b s' result => ?_
    rcases result with ⟨rfl, unchanged, full⟩ | ⟨bound, free, isTaken⟩
    · simp only [ne_eq, not_true_eq_false, if_false, Prog.returns_bind, Prog.returns_pure,
        returns_brelse, unchanged]
      exact ⟨.refl owned target, (entry.trans empty).symm, fun _ => full⟩
    · have positive : b ≠ 0 := by
        have := (owned.unmarked bound free).1
        have := sb.dataStart_pos
        omega
      have filled := owned.fill_entry bound free inner parent present empty
      have notB : b ≠ x := fun same =>
        (owned.unmarked bound free).2 _ inner.within (parent.trans same.symm)
      simp only [ne_eq, positive, not_false_eq_true, if_true, Prog.returns_bind, Prog.returns_pure,
        returns_brelse, returns_setData, returns_logWrite, isTaken]
      refine ⟨filled.extends owned onWay within (fun slot leaf some => ?_) ?_ fun b low => ?_, ?_,
        fun isZero => (positive isZero).elim⟩
      · rw [update_of_ne, owned.taken_kept bound free (Leaf.within leaf)]
        -- A data block is not an index block.
        intro same
        have isInner := owned.single (Leaf.within leaf) inner.within (same.trans parent.symm)
          (parent.symm ▸ present)
        subst isInner
        exact (Nat.ne_of_lt inner) leaf
      · rw [update_of_ne notB, taken_self]
      · rw [update_of_ne, owned.taken_low bound free low]
        have := (owned.data _ inner.within (parent ▸ present)).1
        have := sb.bmapstart_lt_dataStart
        omega
      · rw [filled.addresses _ filled.within, if_pos rfl]
  · simp only [Prog.returns_bind, returns_brelse, Prog.returns_pure]
    exact ⟨.refl owned target, entry.symm, fun isZero => (empty isZero).elim⟩

theorem indexBlock_boot (full : freeBlocks sb s.view = ∅) (i : Nat)
    : (indexBlock sb 0 i).Returns s fun addr s' => addr = 0 ∧ s'.view = s.view := by
  rw [indexBlock, Prog.returns_bind, returns_bread, owned.boot, if_pos (word_zero i)]
  refine (balloc_returns sb s).bind fun b s' result => ?_
  rcases result with ⟨rfl, unchanged, _⟩ | ⟨bound, free, _⟩
  · simp only [ne_eq, not_true_eq_false, if_false, Prog.returns_bind, Prog.returns_pure,
      returns_brelse]
    exact ⟨trivial, unchanged⟩
  · have member := mem_freeBlocks.mpr ⟨bound, free⟩
    rw [full] at member
    exact absurd member (Finset.notMem_empty b)

end

theorem Mapped.after {slot' target : Slot} {addr' : Nat}
    (second : Mapped sb slot' target view' addrs' addr' view'' addrs'')
    (first : Mapped sb slot target view addrs addr view' addrs')
    : Mapped sb slot' target view addrs addr' view'' addrs'' :=
  ⟨first.grows.trans second.grows, second.found, second.full⟩

theorem Mapped.none {rest : List (Fin NINDIRECT)} {target : Slot}
    (mapped : Mapped sb (r, path) target view addrs 0 view' addrs')
    : Mapped sb (r, path ++ rest) target view addrs 0 view' addrs' :=
  ⟨mapped.grows, (locate_below (entryOf_zero mapped.grows.owned.boot) mapped.found.symm rest).symm,
    mapped.full⟩

/-- `bmap` returns the block of a file, with the missing ones on the way to it added. -/
theorem bmap_returns (owned : Owned sb s.view addrs) (mine : addrs ip.inum = ip.addrs) {bn : Nat}
    (bound : bn < MAXFILE)
    : (bmap sb ip bn).Returns s fun result s' =>
        result.2 = { ip with addrs := result.2.addrs }
        ∧ Mapped sb (blockSlot ip.inum bn) (blockSlot ip.inum bn) s.view addrs result.1 s'.view
            (update addrs ip.inum result.2.addrs) := by
  have within := Leaf.within (blockSlot_leaf ip.inum bn)
  unfold bmap
  split_ifs with direct single double
  · rw [blockSlot_direct _ direct] at within ⊢
    exact inodeBlock_returns owned mine (.refl _) within
  · rw [blockSlot_single _ direct single] at within ⊢
    refine (inodeBlock_returns owned mine (.append _ _ _) within).bind fun result s' first => ?_
    obtain ⟨addr, ip'⟩ := result
    obtain ⟨same, mapped⟩ := first
    simp only at same mapped ⊢
    by_cases none : addr = 0
    · subst none
      rw [if_pos rfl, Prog.returns_pure]
      exact ⟨same, mapped.none⟩
    · rw [if_neg none]
      refine (indexBlock_returns mapped.grows.owned within.init mapped.found.symm none (.refl _)
        within).bind fun addr' s'' second => ?_
      exact Prog.returns_pure.mpr ⟨same, second.after mapped⟩
  · rw [blockSlot_double _ direct single double] at within ⊢
    have way : OnWay ((ip.inum, ⟨NDIRECT + 1, by decide⟩), [])
        ((ip.inum, ⟨NDIRECT + 1, by decide⟩),
          ([] ++ [⟨_, high_lt double⟩]) ++ [⟨_, low_lt bn⟩]) :=
      ⟨rfl, List.nil_prefix⟩
    refine (inodeBlock_returns owned mine way within).bind fun result s' first => ?_
    obtain ⟨addr, ip'⟩ := result
    obtain ⟨same, mapped⟩ := first
    simp only at same mapped ⊢
    by_cases none : addr = 0
    · subst none
      rw [if_pos rfl, Prog.returns_pure]
      exact ⟨same, mapped.none.none⟩
    · rw [if_neg none]
      refine (indexBlock_returns mapped.grows.owned within.init.within.init mapped.found.symm none
        (.append _ _ _) within).bind fun addr' s'' second => ?_
      have both := second.after mapped
      by_cases none' : addr' = 0
      · subst none'
        refine (indexBlock_boot both.grows.owned (both.full rfl) _).bind fun addr'' last third => ?_
        obtain ⟨rfl, unchanged⟩ := third
        rw [Prog.returns_pure, unchanged]
        exact ⟨same, both.none⟩
      · refine (indexBlock_returns both.grows.owned within.init both.found.symm none' (.refl _)
          within).bind fun addr'' last third => ?_
        exact Prog.returns_pure.mpr ⟨same, third.after both⟩
  · exact absurd bound (by
      have : MAXFILE = NDIRECT + NINDIRECT + NDINDIRECT := rfl
      omega)

theorem missing_eq_empty (boot : view 0 = 0) {target : Slot}
    (present : address view addrs target ≠ 0)
    : missing view addrs target = ∅ := by
  refine Finset.eq_empty_of_forall_notMem fun n isMissing => present ?_
  have below := locate_below (entryOf_zero boot) (mem_missing.mp isMissing).2 (target.2.drop n)
  rwa [List.take_append_drop] at below

/-- `bmap` succeeds when there are blocks enough. -/
theorem Mapped.enough_iff {target : Slot}
    (mapped : Mapped sb target target view addrs addr view' addrs')
    : addr ≠ 0 ↔ (missing view addrs target).card ≤ (freeBlocks sb view).card := by
  have count := mapped.grows.count
  by_cases none : addr = 0
  · have last : target.2.length ∈ missing view' addrs' target := by
      rw [mem_missing, List.take_length]
      exact ⟨Nat.le_refl _, mapped.found.symm.trans none⟩
    have some := Finset.card_pos.mpr ⟨_, last⟩
    rw [mapped.full none, Finset.card_empty] at count
    refine iff_of_false (not_not_intro none) ?_
    omega
  · rw [missing_eq_empty mapped.grows.owned.boot (mapped.found ▸ none), Finset.card_empty] at count
    refine iff_of_true none ?_
    omega

end Xv6.Fs

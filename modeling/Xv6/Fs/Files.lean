import Xv6.Fs.Contents

/-! The files on disk: `iupdate`, `readi` and `writei` on the inodes that are allocated. Each of
them owns its blocks and has a block for each of its bytes.
-/

namespace Xv6.Fs

open Function Library IndexTree Disk

variable {sb : Superblock} {view view' : Nat → Block}
  {addrs addrs' : Nat → Fin (NDIRECT + 2) → Nat}
variable {inum src : Nat} {off n : BitVec 32} {source : Source} {mem : Nat → Byte} {s : Store}

-- Inodes on disk

/-- Inode `inum` on disk. -/
def dinodeAt (sb : Superblock) (view : Nat → Block) (inum : Nat) : Dinode :=
  getDinode (view (sb.IBLOCK inum)) (inum % IPB)

def Allocated (sb : Superblock) (view : Nat → Block) (inum : Nat) : Prop :=
  0 < inum ∧ inum < sb.ninodes ∧ (dinodeAt sb view inum).type ≠ 0

instance (sb : Superblock) (view : Nat → Block) (inum : Nat)
    : Decidable (Allocated sb view inum) :=
  inferInstanceAs (Decidable (0 < inum ∧ inum < sb.ninodes ∧ (dinodeAt sb view inum).type ≠ 0))

/-- The block numbers that an inode lists; one that is not allocated lists none. -/
def diskAddrs (sb : Superblock) (view : Nat → Block) (inum : Nat) (k : Fin (NDIRECT + 2)) : Nat :=
  if Allocated sb view inum then (dinodeAt sb view inum).addrs k else 0

/-- The inode in memory, as `ilock` reads it. -/
def inodeAt (sb : Superblock) (view : Nat → Block) (inum : Nat) : Inode :=
  { dinodeAt sb view inum with inum := inum }

/-- The inodes that are allocated own their blocks, and have all the blocks below their size. -/
structure Sound (sb : Superblock) (view : Nat → Block) : Prop where
  owned : Owned sb view (diskAddrs sb view)
  whole : ∀ inum, Allocated sb view inum
    → ∀ bn, bn * BSIZE < (dinodeAt sb view inum).size.toNat
    → bn < MAXFILE ∧ address view (diskAddrs sb view) (blockSlot inum bn) ≠ 0

theorem diskAddrs_allocated (allocated : Allocated sb view inum)
    : diskAddrs sb view inum = (inodeAt sb view inum).addrs :=
  funext fun _ => if_pos allocated

/-- A block inside the size of an allocated file is there. -/
theorem Sound.block (sound : Sound sb view) (allocated : Allocated sb view inum) {i : Nat}
    (inside : i < (dinodeAt sb view inum).size.toNat)
    : i / BSIZE < MAXFILE
      ∧ address view (diskAddrs sb view) (blockSlot inum (i / BSIZE)) ≠ 0 :=
  sound.whole inum allocated (i / BSIZE) (Nat.lt_of_le_of_lt (Nat.div_mul_le_self i BSIZE) inside)

theorem Sound.size_le (sound : Sound sb view) (allocated : Allocated sb view inum)
    : (dinodeAt sb view inum).size.toNat ≤ MAXFILE * BSIZE := by
  by_contra large
  have := (sound.whole inum allocated MAXFILE (by omega)).1
  omega

/-- A disk without inodes is sound when its free map has the blocks before the data blocks. -/
theorem Sound.blank (layout : sb.WellFormed) (boot : view 0 = 0)
    (none : ∀ inum < sb.ninodes, ¬Allocated sb view inum)
    (bits : ∀ b < sb.size, marked sb view b = true ↔ b < sb.dataStart)
    : Sound sb view := by
  have missing (slot : Slot) : address view (diskAddrs sb view) slot = 0 := by
    have root : address view (diskAddrs sb view) (slot.1, []) = 0 :=
      if_neg fun allocated => none slot.1.1 allocated.2.1 allocated
    exact locate_below (entryOf_zero boot) root slot.2
  have absent (slot : Slot) {P : Prop} (present : address view (diskAddrs sb view) slot ≠ 0) : P :=
    absurd (missing slot) present
  refine ⟨⟨layout, boot, ⟨entryOf_zero boot, fun slot other _ _ _ present => absent slot present⟩,
    fun slot _ present => absent slot present, fun b bound => (bits b bound).trans ?_⟩,
    fun inum allocated => absurd allocated (none inum allocated.2.1)⟩
  refine ⟨.inl, fun owned => ?_⟩
  rcases owned with low | ⟨slot, _, isB⟩
  · exact low
  · rw [← isB, missing slot]
    exact sb.dataStart_pos

section

variable (wf : sb.WellFormed) (low : ∀ b < sb.bmapstart, view' b = view b)
include wf low

theorem dinodeAt_low (bound : inum < sb.ninodes)
    : dinodeAt sb view' inum = dinodeAt sb view inum := by
  rw [dinodeAt, low _ (wf.IBLOCK_lt bound), dinodeAt]

theorem allocated_low (inum : Nat) : Allocated sb view' inum ↔ Allocated sb view inum := by
  refine and_congr_right fun _ => and_congr_right fun bound => ?_
  rw [dinodeAt_low wf low bound]

theorem diskAddrs_low : diskAddrs sb view' = diskAddrs sb view := by
  funext inum k
  unfold diskAddrs
  by_cases allocated : Allocated sb view inum
  · rw [if_pos allocated, if_pos ((allocated_low wf low inum).mpr allocated),
      dinodeAt_low wf low allocated.2.1]
  · rw [if_neg allocated, if_neg fun after => allocated ((allocated_low wf low inum).mp after)]

end

-- `iupdate`

/-- The blocks after `iupdate`. -/
def updated (sb : Superblock) (view : Nat → Block) (ip : Inode) : Nat → Block :=
  update view (sb.IBLOCK ip.inum)
    (setDinode (view (sb.IBLOCK ip.inum)) (ip.inum % IPB) ip.toDinode)

/-- `iupdate` writes one entry of the inode table and touches nothing else. -/
theorem iupdate_returns (sb : Superblock) (ip : Inode) (s : Store)
    : (iupdate sb ip).Returns s fun _ s' => s'.view = updated sb s.view ip := by
  simp only [iupdate, Prog.returns_bind, returns_bread, returns_setData, returns_logWrite,
    returns_brelse]
  rfl

variable {ip : Inode}

/-- After an `iupdate` the inode it is for reads back what was written, every other one is as
before.
-/
theorem dinodeAt_updated (small : ∀ k, ip.addrs k < 2 ^ 32) (inum : Nat)
    : dinodeAt sb (updated sb view ip) inum
      = if inum = ip.inum then ip.toDinode else dinodeAt sb view inum := by
  have slot : ip.inum % IPB < IPB := Nat.mod_lt _ (by decide)
  have slot' : inum % IPB < IPB := Nat.mod_lt _ (by decide)
  unfold dinodeAt updated
  by_cases same : inum = ip.inum
  · rw [if_pos same, same, update_self, getDinode_setDinode_same _ slot _ small]
  · rw [if_neg same]
    by_cases block : sb.IBLOCK inum = sb.IBLOCK ip.inum
    · rw [block, update_self, getDinode_setDinode_other _ slot']
      intro rest
      refine same ?_
      have quotient : inum / IPB = ip.inum / IPB := Nat.add_right_cancel block
      rw [← Nat.div_add_mod inum IPB, quotient, rest, Nat.div_add_mod]
    · rw [update_of_ne block]

/-- An `iupdate` leaves the blocks outside the inode table alone. -/
theorem updated_other (wf : sb.WellFormed) (bound : ip.inum < sb.ninodes) {b : Nat}
    (other : b = 0 ∨ sb.bmapstart ≤ b)
    : updated sb view ip b = view b := by
  have := wf.IBLOCK_lt bound
  have := wf.start
  refine update_of_ne ?_ ..
  rcases other with rfl | high
  · have := sb.inodestart_le_IBLOCK ip.inum
    omega
  · omega

/-- The trees stay when the blocks from the free map on do. -/
theorem Owned.high_frame (owned : Owned sb view addrs)
    (high : ∀ b, b = 0 ∨ sb.bmapstart ≤ b → view' b = view b)
    : Owned sb view' addrs
      ∧ (∀ slot, Within levels slot → address view' addrs slot = address view addrs slot)
      ∧ ∀ inum i, contentByte view' addrs inum i = contentByte view addrs inum i := by
  have blocks (slot : Slot) (within : Within levels slot)
      : view' (address view addrs slot) = view (address view addrs slot) := by
    refine high _ ?_
    by_cases none : address view addrs slot = 0
    · exact .inl none
    · have := (owned.data slot within none).1
      have := sb.bmapstart_lt_dataStart
      exact .inr (by omega)
  have inner (slot : Slot) (isInner : Inner levels slot) := blocks slot isInner.within
  refine ⟨owned.frame inner (fun b _ => high _ (.inr (sb.bmapstart_le_BBLOCK b)))
    ((high 0 (.inl rfl)).trans owned.boot), fun slot => address_frame inner, fun inum i => ?_⟩
  have within := Leaf.within (blockSlot_leaf inum (i / BSIZE))
  rw [contentByte, address_frame inner within, blocks _ within, contentByte]

theorem Owned.small (owned : Owned sb view addrs) (inum : Nat) (k : Fin (NDIRECT + 2))
    : addrs inum k < 2 ^ 32 := by
  have root : address view addrs ((inum, k), []) = addrs inum k := rfl
  have := owned.layout.size
  by_cases none : addrs inum k = 0
  · omega
  · have := (owned.data ((inum, k), []) (Nat.zero_le _) (by rwa [root])).2
    omega

/-- What an operation on one inode leaves: the other inodes and their bytes. -/
structure Untouched (sb : Superblock) (inum : Nat) (view view' : Nat → Block) : Prop where
  allocated : ∀ other, other ≠ inum → (Allocated sb view' other ↔ Allocated sb view other)
  dinode : ∀ other, other ≠ inum → Allocated sb view other
    → dinodeAt sb view' other = dinodeAt sb view other
  bytes : ∀ other i, other ≠ inum → i / BSIZE < MAXFILE
    → contentByte view' (diskAddrs sb view') other i = contentByte view (diskAddrs sb view) other i

theorem Untouched.refl (sb : Superblock) (inum : Nat) (view : Nat → Block)
    : Untouched sb inum view view :=
  ⟨fun _ _ => Iff.rfl, fun _ _ _ => rfl, fun _ _ _ _ => rfl⟩

theorem Untouched.trans {view'' : Nat → Block} (first : Untouched sb inum view view')
    (second : Untouched sb inum view' view'')
    : Untouched sb inum view view'' where
  allocated := fun other isOther =>
    (second.allocated other isOther).trans (first.allocated other isOther)
  dinode := fun other isOther allocated =>
    (second.dinode other isOther ((first.allocated other isOther).mpr allocated)).trans
      (first.dinode other isOther allocated)
  bytes := fun other i isOther inside =>
    (second.bytes other i isOther inside).trans (first.bytes other i isOther inside)

theorem allocated_updated (allocated : Allocated sb view ip.inum) (typed : ip.type ≠ 0)
    (small : ∀ k, ip.addrs k < 2 ^ 32) (inum : Nat)
    : Allocated sb (updated sb view ip) inum ↔ Allocated sb view inum := by
  unfold Allocated
  rw [dinodeAt_updated small]
  by_cases same : inum = ip.inum
  · subst same
    rw [if_pos rfl]
    exact ⟨fun _ => allocated, fun _ => ⟨allocated.1, allocated.2.1, typed⟩⟩
  · rw [if_neg same]

theorem diskAddrs_updated (allocated : Allocated sb view ip.inum) (typed : ip.type ≠ 0)
    (small : ∀ k, ip.addrs k < 2 ^ 32)
    : diskAddrs sb (updated sb view ip)
      = update (diskAddrs sb view) ip.inum ip.addrs := by
  funext inum k
  have stays := allocated_updated allocated typed small inum
  by_cases same : inum = ip.inum
  · subst same
    rw [update_self, diskAddrs, if_pos (stays.mpr allocated), dinodeAt_updated small,
      if_pos rfl]
  · rw [update_of_ne same]
    simp only [diskAddrs, stays, dinodeAt_updated small, if_neg same]

/-- An inode in memory is ahead of the disk: its block numbers are `ip.addrs`, and the others have
not been touched.
-/
structure Ahead (sb : Superblock) (ip : Inode) (view view' : Nat → Block) : Prop where
  owned : Owned sb view' (update (diskAddrs sb view) ip.inum ip.addrs)
  low : ∀ b < sb.bmapstart, view' b = view b
  others : ∀ slot, Within levels slot → slot.1.1 ≠ ip.inum
    → address view' (update (diskAddrs sb view) ip.inum ip.addrs) slot
      = address view (diskAddrs sb view) slot
  bytes : ∀ other i, other ≠ ip.inum → i / BSIZE < MAXFILE
    → contentByte view' (update (diskAddrs sb view) ip.inum ip.addrs) other i
      = contentByte view (diskAddrs sb view) other i

/-- `iupdate` brings the disk up to date. -/
structure Committed (sb : Superblock) (ip : Inode) (view view' view'' : Nat → Block) : Prop where
  sound : Sound sb view''
  untouched : Untouched sb ip.inum view view''
  allocated : Allocated sb view'' ip.inum
  inode : inodeAt sb view'' ip.inum = ip
  free : freeBlocks sb view'' = freeBlocks sb view'
  bytes : ∀ i, contentByte view'' (diskAddrs sb view'') ip.inum i
    = contentByte view' (update (diskAddrs sb view) ip.inum ip.addrs) ip.inum i

/-- Writing the inode back makes the disk agree with what the call did in memory. -/
theorem Ahead.commit (ahead : Ahead sb ip view view') (sound : Sound sb view)
    (allocated : Allocated sb view ip.inum) (typed : ip.type ≠ 0)
    (whole : ∀ bn, bn * BSIZE < ip.size.toNat → bn < MAXFILE
      ∧ address view' (update (diskAddrs sb view) ip.inum ip.addrs) (blockSlot ip.inum bn)
        ≠ 0)
    : Committed sb ip view view' (updated sb view' ip) := by
  have wf := sound.owned.layout
  have small (k : Fin (NDIRECT + 2)) : ip.addrs k < 2 ^ 32 := by
    have := ahead.owned.small ip.inum k
    rwa [update_self] at this
  have allocated' := (allocated_low wf ahead.low ip.inum).mpr allocated
  have sameAllocated (inum : Nat)
      : Allocated sb (updated sb view' ip) inum ↔ Allocated sb view inum :=
    (allocated_updated allocated' typed small inum).trans (allocated_low wf ahead.low inum)
  have addrsEq : diskAddrs sb (updated sb view' ip)
      = update (diskAddrs sb view) ip.inum ip.addrs := by
    rw [diskAddrs_updated allocated' typed small, diskAddrs_low wf ahead.low]
  have dinode (inum : Nat) (isAllocated : Allocated sb view inum)
      : dinodeAt sb (updated sb view' ip) inum
        = if inum = ip.inum then ip.toDinode else dinodeAt sb view inum := by
    rw [dinodeAt_updated small, dinodeAt_low wf ahead.low isAllocated.2.1]
  have high (b : Nat) (other : b = 0 ∨ sb.bmapstart ≤ b) : updated sb view' ip b = view' b :=
    updated_other wf allocated.2.1 other
  obtain ⟨owned, sameAddress, sameByte⟩ := ahead.owned.high_frame high
  refine ⟨⟨addrsEq ▸ owned, fun inum isAllocated bn inside => ?_⟩,
    ⟨fun other _ => sameAllocated other, fun other isOther isAllocated => ?_,
      fun other i isOther inside => ?_⟩,
    (sameAllocated ip.inum).mpr allocated, ?_, ?_, fun i => ?_⟩
  · rw [addrsEq, sameAddress _ (Leaf.within (blockSlot_leaf inum bn))]
    have before := (sameAllocated inum).mp isAllocated
    rw [dinode inum before] at inside
    split_ifs at inside with same
    · rw [same]
      exact whole bn inside
    · rw [ahead.others _ (Leaf.within (blockSlot_leaf inum bn)) (by rwa [blockSlot_inum])]
      exact sound.whole inum before bn inside
  · rw [dinode other isAllocated, if_neg isOther]
  · rw [addrsEq, sameByte]
    exact ahead.bytes other i isOther inside
  · rw [inodeAt, dinode ip.inum allocated, if_pos rfl]
  · refine Finset.filter_congr fun b _ => ?_
    rw [marked, updated_other wf allocated.2.1 (.inr (sb.bmapstart_le_BBLOCK b)), marked]
  · rw [addrsEq, sameByte]

-- `writei`

/-- `writei` has written `tot` bytes. -/
structure Written (sb : Superblock) (source : Source) (mem : Nat → Byte) (src off n inum : Nat)
    (view : Nat → Block) (tot : Nat) (ip' : Inode) (view' : Nat → Block)
    : Prop where
  sound : Sound sb view'
  untouched : Untouched sb inum view view'
  allocated : Allocated sb view' inum
  inode : ip' = inodeAt sb view' inum
  size : (dinodeAt sb view' inum).size.toNat = max (dinodeAt sb view inum).size.toNat (off + tot)
  same : ∃ size addrs, dinodeAt sb view' inum
    = { dinodeAt sb view inum with size := size, addrs := addrs }
  most : tot ≤ n
  stopped : source.Total → tot < n → freeBlocks sb view' = ∅
  bytes : source.Total ∨ tot = n → ∀ i, i / BSIZE < MAXFILE
    → contentByte view' (diskAddrs sb view') inum i
      = if off ≤ i ∧ i < off + tot then mem (src + (i - off))
        else contentByte view (diskAddrs sb view) inum i

/-- The size that `writei` leaves. -/
def grownSize (size : BitVec 32) (off : BitVec 32) (tot : Nat) : BitVec 32 :=
  if size < off + BitVec.ofNat 32 tot then off + BitVec.ofNat 32 tot else size

/-- The size after a write is the larger of the old size and the end of the write. -/
theorem toNat_grownSize {size : BitVec 32} {tot : Nat} (fits : off.toNat + tot < 2 ^ 32)
    : (grownSize size off tot).toNat = max size.toNat (off.toNat + tot) := by
  have sum : (off + BitVec.ofNat 32 tot).toNat = off.toNat + tot := by
    rw [BitVec.toNat_add, BitVec.toNat_ofNat]
    omega
  unfold grownSize
  split_ifs with less
  · rw [BitVec.lt_def] at less
    omega
  · rw [BitVec.lt_def] at less
    omega

/-- The loop of `writei` and the `iupdate` after it. -/
theorem Looped.written
    {s' : Store} {tot : Nat} {ip' : Inode} (sound : Sound sb s.view)
    (allocated : Allocated sb s.view inum) (start : off ≤ (dinodeAt sb s.view inum).size)
    (limit : off.toNat + n.toNat ≤ MAXFILE * BSIZE)
    (looped : Looped sb source mem src off.toNat n.toNat 0 s.view (diskAddrs sb s.view)
      (inodeAt sb s.view inum) (tot, ip') s')
    : Written sb source mem src off.toNat n.toNat inum s.view tot
        { ip' with size := grownSize ip'.size off tot }
        (updated sb s'.view { ip' with size := grownSize ip'.size off tot }) := by
  have most : tot ≤ n.toNat := looped.bound
  have sizes : MAXFILE * BSIZE < 2 ^ 32 := by decide
  obtain ⟨newAddrs, rfl⟩ : ∃ newAddrs, ip' = { inodeAt sb s.view inum with addrs := newAddrs } :=
    ⟨_, looped.same⟩
  have wrote : Wrote sb (source.Total ∨ tot = n.toNat) mem src off.toNat 0 inum s.view
      (diskAddrs sb s.view) tot s'.view (update (diskAddrs sb s.view) inum newAddrs) :=
    looped.wrote
  have sizeEq : (grownSize (dinodeAt sb s.view inum).size off tot).toNat
      = max (dinodeAt sb s.view inum).size.toNat (off.toNat + tot) :=
    toNat_grownSize (by omega)
  have ahead : Ahead sb
      { inodeAt sb s.view inum with
        size := grownSize (dinodeAt sb s.view inum).size off tot
        addrs := newAddrs }
      s.view s'.view :=
    ⟨wrote.owned, wrote.low, fun slot within other =>
      (wrote.addresses slot within).resolve_right fun mine => other mine.1, wrote.others⟩
  have committed := ahead.commit sound allocated allocated.2.2 fun bn inside => by
    simp only [sizeEq] at inside
    have within := Leaf.within (blockSlot_leaf inum bn)
    by_cases old : bn * BSIZE < (dinodeAt sb s.view inum).size.toNat
    · obtain ⟨bound, present⟩ := sound.whole inum allocated bn old
      exact ⟨bound, (wrote.kept within present).symm ▸ present⟩
    · have before : bn * BSIZE < off.toNat + tot := (lt_max_iff.mp inside).resolve_left old
      have inFile : bn * BSIZE < MAXFILE * BSIZE :=
        before.trans_le ((Nat.add_le_add_left most _).trans limit)
      refine ⟨lt_of_mul_lt_mul_right inFile (Nat.zero_le BSIZE), ?_⟩
      have mapped := wrote.mapped (bn * BSIZE) (start.trans (Nat.le_of_not_lt old)) before
      rwa [Nat.mul_div_cancel _ (by decide)] at mapped
  have dinode := congrArg Inode.toDinode committed.inode
  refine ⟨committed.sound, committed.untouched, committed.allocated, committed.inode.symm, ?_,
    ⟨_, newAddrs, dinode⟩, most, fun total less => ?_, fun clean i inside => ?_⟩
  · exact (congrArg (fun dip => dip.size.toNat) dinode).trans sizeEq
  · exact committed.free.trans (looped.stopped total less)
  · exact (committed.bytes i).trans (wrote.bytes clean i inside)

/-- The request is one that `writei` serves. -/
def Accepts (size off n : BitVec 32) : Prop := off ≤ size ∧ off.toNat + n.toNat ≤ MAXFILE * BSIZE

/-- What `writei` accepts, as the source tests it in 32 bits. -/
theorem accepts_iff {size : BitVec 32}
    : Accepts size off n
      ↔ ¬(size < off ∨ off + n < off) ∧ ¬BitVec.ofNat 32 (MAXFILE * BSIZE) < off + n := by
  have limitEq : (BitVec.ofNat 32 (MAXFILE * BSIZE)).toNat = MAXFILE * BSIZE := by decide
  rw [not_or, BitVec.not_lt, add_lt_iff, BitVec.lt_def, BitVec.toNat_add, and_assoc]
  refine and_congr_right fun _ => ?_
  by_cases fits : off.toNat + n.toNat < 2 ^ 32
  · omega
  · omega

/-- A write that is not accepted returns `-1` at once. -/
theorem writei_rejected (rejected : ¬Accepts ip.size off n) (source : Source) (src : Nat)
    : writei sb ip source src off n = pure (-1, ip) := by
  rw [accepts_iff] at rejected
  unfold writei
  split_ifs with outside large
  · rfl
  · rfl
  · exact absurd ⟨outside, large⟩ rejected

theorem writei_accepted (accepted : Accepts ip.size off n) (source : Source) (src : Nat)
    : writei sb ip source src off n
      = (do
        let result ← writeiLoop sb source src off.toNat n.toNat n.toNat 0 ip
        let ip := { result.2 with size := grownSize result.2.size off result.1 }
        iupdate sb ip
        return (BitVec.ofNat 32 result.1, ip)) := by
  obtain ⟨inside, small⟩ := accepts_iff.mp accepted
  rw [writei, if_neg inside, if_neg small]
  refine congrArg _ (funext fun result => ?_)
  have sized : (if result.2.size < off + BitVec.ofNat 32 result.1 then
      { result.2 with size := off + BitVec.ofNat 32 result.1 } else result.2)
      = { result.2 with size := grownSize result.2.size off result.1 } := by
    unfold grownSize
    split_ifs <;> rfl
  simp only [sized]

/-- `writei` returns on a sound disk, and what it wrote is what the loop took. -/
theorem writei_returns (lawful : source.Lawful mem) (sound : Sound sb s.view)
    (allocated : Allocated sb s.view inum)
    : (writei sb (inodeAt sb s.view inum) source src off n).Returns s fun result s' =>
        (¬Accepts (dinodeAt sb s.view inum).size off n
          ∧ result = (-1, inodeAt sb s.view inum) ∧ s' = s)
        ∨ (Accepts (dinodeAt sb s.view inum).size off n
          ∧ ∃ tot, result.1 = BitVec.ofNat 32 tot
            ∧ Written sb source mem src off.toNat n.toNat inum s.view tot result.2 s'.view) := by
  by_cases accepted : Accepts (inodeAt sb s.view inum).size off n
  · rw [writei_accepted accepted]
    refine (writeiLoop_returns lawful sound.owned (diskAddrs_allocated allocated) accepted.2
      (Nat.zero_le _) (Nat.le_refl _)).bind fun result s' looped => ?_
    refine (iupdate_returns sb _ s').bind fun _ s'' after => Prog.returns_pure.mpr ?_
    have written := looped.written sound allocated accepted.1 accepted.2
    exact .inr ⟨accepted, result.1, rfl, after ▸ written⟩
  · rw [writei_rejected accepted, Prog.returns_pure]
    exact .inl ⟨accepted, rfl, rfl⟩

/-- A write within one block is done as a whole, if there are blocks enough, or not at all. -/
theorem writei_block (lawful : source.Lawful mem) (total : source.Total) (sound : Sound sb s.view)
    (allocated : Allocated sb s.view inum) (accepted : Accepts (dinodeAt sb s.view inum).size off n)
    (some : 0 < n.toNat) (inBlock : off.toNat % BSIZE + n.toNat ≤ BSIZE)
    : (writei sb (inodeAt sb s.view inum) source src off n).Returns s fun result s' =>
        ∃ tot, result.1 = BitVec.ofNat 32 tot
          ∧ tot = (if (missing s.view (diskAddrs sb s.view)
                (blockSlot inum (off.toNat / BSIZE))).card ≤ (freeBlocks sb s.view).card
              then n.toNat else 0)
          ∧ Written sb source mem src off.toNat n.toNat inum s.view tot result.2 s'.view := by
  have bound : off.toNat / BSIZE < MAXFILE := by
    rw [Nat.div_lt_iff_lt_mul (by decide)]
    have := accepted.2
    omega
  have mine := diskAddrs_allocated allocated
  have served : Accepts (inodeAt sb s.view inum).size off n := accepted
  rw [writei_accepted served]
  refine ((writeiLoop_returns lawful sound.owned mine accepted.2 (Nat.zero_le _)
    (Nat.le_refl _)).and (writeiLoop_block total sound.owned mine some inBlock bound)).bind
    fun result s' both => ?_
  refine (iupdate_returns sb _ s').bind fun _ s'' after => Prog.returns_pure.mpr ?_
  have written := both.1.written sound allocated accepted.1 accepted.2
  exact ⟨result.1, rfl, both.2, after ▸ written⟩

end Xv6.Fs

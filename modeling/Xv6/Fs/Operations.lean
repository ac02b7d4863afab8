import Xv6.Fs.Truncate
import Xv6.Fs.FileRead

/-! The operations on inodes, one after the other: `ialloc`, `writei`, `dirlink`, `itrunc` and the
freeing part of `iput` keep the disk sound, and on a sound disk `readi` only reads.
-/

namespace Xv6.Fs

open Library IndexTree Disk

variable {sb : Superblock} {view : Nat → Block} {s : Store} {inum : Nat} {ip : Inode}

-- Inodes that come and go

/-- What is written over an inode without blocks, of whatever type. -/
theorem Sound.overwrite (sound : Sound sb view) (ip : Inode) (bound : ip.inum < sb.ninodes)
    (before : diskAddrs sb view ip.inum = fun _ => 0)
    (none : ip.addrs = fun _ => 0) (empty : ip.size = 0)
    : Sound sb (updated sb view ip) ∧ Untouched sb ip.inum view (updated sb view ip)
      ∧ dinodeAt sb (updated sb view ip) ip.inum = ip.toDinode := by
  have wf := sound.owned.layout
  have small (k : Fin (NDIRECT + 2)) : ip.addrs k < 2 ^ 32 := by
    rw [none]
    exact Nat.two_pow_pos 32
  have dinode (inum : Nat) : dinodeAt sb (updated sb view ip) inum
      = if inum = ip.inum then ip.toDinode else dinodeAt sb view inum :=
    dinodeAt_updated small inum
  have others (inum : Nat) (other : inum ≠ ip.inum)
      : Allocated sb (updated sb view ip) inum ↔ Allocated sb view inum := by
    unfold Allocated
    rw [dinode inum, if_neg other]
  have addrsEq : diskAddrs sb (updated sb view ip) = diskAddrs sb view := by
    funext inum k
    by_cases mine : inum = ip.inum
    · subst mine
      rw [before]
      unfold diskAddrs
      split_ifs
      · rw [dinode, if_pos rfl, none]
      · rfl
    · simp only [diskAddrs, others inum mine, dinode inum, if_neg mine]
  have high (b : Nat) (other : b = 0 ∨ sb.bmapstart ≤ b) : updated sb view ip b = view b :=
    updated_other wf bound other
  obtain ⟨owned, sameAddress, sameByte⟩ := sound.owned.high_frame high
  refine ⟨⟨addrsEq ▸ owned, fun inum isAllocated bn inside => ?_⟩,
    ⟨others, fun inum other _ => ?_, fun inum i _ _ => ?_⟩, ?_⟩
  · rw [dinode inum] at inside
    split_ifs at inside with mine
    · rw [empty] at inside
      exact absurd inside (Nat.not_lt_zero _)
    · rw [addrsEq, sameAddress _ (Leaf.within (blockSlot_leaf inum bn))]
      exact sound.whole inum ((others inum mine).mp isAllocated) bn inside
  · rw [dinode inum, if_neg other]
  · rw [addrsEq, sameByte]
  · rw [dinode ip.inum, if_pos rfl]

/-- What `ialloc` writes for a new inode. -/
def newInode (type : BitVec 16) (inum : Nat) : Inode :=
  { type := type, major := 0, minor := 0, nlink := 0, size := 0, addrs := fun _ => 0, inum := inum }

/-- The search of `ialloc` returns a free inode with its type written, or none with nothing
changed.
-/
theorem iallocFrom_returns (type : BitVec 16) {rest first : Nat} (positive : 0 < first)
    (bound : first + rest ≤ sb.ninodes)
    : (iallocFrom sb type rest first).Returns s fun result s' =>
        (result = none ∧ s'.view = s.view)
        ∨ ∃ inum, result = some inum ∧ 0 < inum ∧ inum < sb.ninodes
          ∧ (dinodeAt sb s.view inum).type = 0
          ∧ s'.view = updated sb s.view (newInode type inum) := by
  induction rest generalizing first with
  | zero => exact Prog.returns_pure.mpr (.inl ⟨rfl, rfl⟩)
  | succ rest ih =>
    rw [iallocFrom, Prog.returns_bind, returns_bread]
    split_ifs with free
    · simp only [Prog.returns_bind, returns_setData, returns_logWrite, returns_brelse,
        Prog.returns_pure]
      exact .inr ⟨first, rfl, positive, by omega, free, rfl⟩
    · exact ih (Nat.succ_pos _) (by omega)

/-- `ialloc` gives out an inode that was free, without blocks. -/
theorem ialloc_returns (sound : Sound sb s.view) (type : BitVec 16)
    : (ialloc sb type).Returns s fun result s' =>
        (result = none ∧ s'.view = s.view)
        ∨ ∃ inum, result = some inum ∧ ¬Allocated sb s.view inum ∧ Sound sb s'.view
          ∧ Untouched sb inum s.view s'.view
          ∧ inodeAt sb s'.view inum = newInode type inum := by
  by_cases some : 1 ≤ sb.ninodes
  · refine (iallocFrom_returns type Nat.one_pos (by omega)).mono fun result s' found => ?_
    rcases found with none | ⟨inum, isSome, positive, bound, free, after⟩
    · exact .inl none
    have unallocated : ¬Allocated sb s.view inum := fun allocated => allocated.2.2 free
    obtain ⟨soundAfter, untouched, dinode⟩ :=
      sound.overwrite (newInode type inum) bound (funext fun k => if_neg unallocated) rfl rfl
    rw [after]
    refine .inr ⟨inum, isSome, unallocated, soundAfter, untouched, ?_⟩
    exact congrArg (Inode.mk · inum) dinode
  · have none : sb.ninodes - 1 = 0 := by omega
    rw [ialloc, none]
    exact Prog.returns_pure.mpr (.inl ⟨rfl, rfl⟩)

/-- The freeing part of `iput`. -/
theorem ifree_returns (sound : Sound sb s.view) (allocated : Allocated sb s.view inum)
    : (ifree sb (inodeAt sb s.view inum)).Returns s fun _ s' =>
        Sound sb s'.view ∧ Untouched sb inum s.view s'.view ∧ ¬Allocated sb s'.view inum := by
  refine (itrunc_returns sound allocated).bind fun ip' s₁ cleared => ?_
  refine (iupdate_returns sb _ s₁).mono fun _ s₂ after => ?_
  obtain rfl := cleared.inode
  have mine := diskAddrs_allocated cleared.allocated
  have none : (inodeAt sb s₁.view inum).addrs = fun _ => 0 :=
    congrArg Dinode.addrs cleared.dinode
  obtain ⟨soundAfter, untouched, dinode⟩ :=
    cleared.sound.overwrite { inodeAt sb s₁.view inum with type := 0 } allocated.2.1
      (mine.trans none) none (congrArg Dinode.size cleared.dinode)
  rw [after]
  refine ⟨soundAfter, cleared.untouched.trans untouched, fun isAllocated => ?_⟩
  exact isAllocated.2.2 (congrArg Dinode.type dinode)

-- `readi`

/-- The number of bytes that `readi` is to read. -/
def readCount (size off n : BitVec 32) : Nat :=
  if 2 ^ 32 ≤ off.toNat + n.toNat then 0 else min n.toNat (size.toNat - off.toNat)

theorem readi_eq (sb : Superblock) (ip : Inode) (sink : Sink) (dst : Nat) (off n : BitVec 32)
    : readi sb ip sink dst off n
      = readiLoop sb sink dst off.toNat (readCount ip.size off n) (readCount ip.size off n) 0 []
        ip := by
  unfold readi readCount
  by_cases wraps : 2 ^ 32 ≤ off.toNat + n.toNat
  · rw [if_pos (.inr (add_lt_iff.mpr wraps)), if_pos wraps]
    rfl
  · have sum : (off + n).toNat = off.toNat + n.toNat := by
      rw [BitVec.toNat_add, Nat.mod_eq_of_lt (Nat.lt_of_not_le wraps)]
    rw [if_neg wraps]
    by_cases past : ip.size < off
    · rw [if_pos (.inl past)]
      rw [Nat.sub_eq_zero_of_le past.le, Nat.min_zero]
      rfl
    · rw [if_neg (not_or.mpr ⟨past, fun less => wraps (add_lt_iff.mp less)⟩)]
      have start := BitVec.not_lt.mp past
      split_ifs with clamped
      · rw [BitVec.lt_def] at clamped
        dsimp only
        rw [BitVec.toNat_sub_of_le start, Nat.min_eq_right (by omega)]
      · rw [BitVec.lt_def] at clamped
        rw [Nat.min_eq_left (by omega)]

section

variable (sound : Sound sb view) (allocated : Allocated sb view inum)
include sound allocated

/-- All blocks that `readi` visits are there. -/
theorem Sound.visited (off n : BitVec 32)
    : ∀ i, off.toNat + 0 ≤ i → i < off.toNat + readCount (inodeAt sb view inum).size off n
      → i / BSIZE < MAXFILE
        ∧ address view (diskAddrs sb view) (blockSlot inum (i / BSIZE)) ≠ 0 := by
  intro i after before
  refine sound.block allocated ?_
  have size : (inodeAt sb view inum).size = (dinodeAt sb view inum).size := rfl
  rw [size] at before
  unfold readCount at before
  split_ifs at before
  · omega
  · omega

/-- `readi` changes no block and no field of the inode. -/
theorem readi_peek (sink : Sink) (dst : Nat) (off n : BitVec 32)
    : ∃ read, (readi sb (inodeAt sb view inum) sink dst off n).peek view = some read
      ∧ read.ip = inodeAt sb view inum := by
  rw [readi_eq]
  exact readiLoop_peek sound.owned.boot (diskAddrs_allocated allocated)
    (sound.visited allocated off n)

/-- Into the kernel, `readi` reads the bytes of the file up to its size. -/
theorem readi_kernel (dst : Nat) (off n : BitVec 32)
    : (readi sb (inodeAt sb view inum) kernelSink dst off n).peek view
      = some ⟨BitVec.ofNat 32 (readCount (dinodeAt sb view inum).size off n),
        placed dst (window (contentByte view (diskAddrs sb view) inum) off.toNat
          (readCount (dinodeAt sb view inum).size off n)),
        inodeAt sb view inum⟩ := by
  rw [readi_eq]
  exact readiLoop_kernel sound.owned.boot (diskAddrs_allocated allocated)
    (sound.visited allocated off n) (Nat.zero_le _) (Nat.le_refl _)

end

theorem runIn_of_peek {α : Type} {p : Prog α} {value : α} (outstanding : Bool)
    (reads : p.peek s.view = some value)
    : runIn outstanding p s = .ok (value, s) := by
  induction p with
  | done v =>
    cases reads
    rfl
  | bread blockno k ih => exact ih _ reads
  | brelse blockno k ih => exact ih reads
  | setData blockno data k ih | bwrite blockno k ih | bunpin blockno k ih | logWrite blockno k ih
  | readLh k ih | setLh blocks k ih | panic message => cases reads

-- Directory entries

/-- Entry `i` of the directory. -/
def direntAt (sb : Superblock) (view : Nat → Block) (inum i : Nat) : Dirent :=
  .ofMemory fun j => contentByte view (diskAddrs sb view) inum (Dirent.bytes * i + j)

theorem readDirent_peek (sound : Sound sb view) (allocated : Allocated sb view inum)
    (off : BitVec 32)
    : ∃ de, (readDirent sb (inodeAt sb view inum) off).peek view
      = some (de, inodeAt sb view inum) := by
  obtain ⟨read, reads, same⟩ := readi_peek sound allocated kernelSink 0 off 16
  rw [readDirent, Prog.peek_bind_some reads, same]
  split_ifs
  · exact ⟨_, rfl⟩
  · exact ⟨none, rfl⟩

-- Operations

/-- The data of a `write`. A copy from user memory may fail at any of the bytes. -/
structure Data where
  source : Source
  mem : Nat → Byte
  lawful : source.Lawful mem

inductive Op where
  | ialloc (type : BitVec 16)
  | writei (inum : Nat) (data : Data) (src : Nat) (off n : BitVec 32)
  | dirlink (inum : Nat) (name : Chars) (target : Nat)
  | itrunc (inum : Nat)
  | iput (inum : Nat) (last : Bool)

/-- The operation works on inode `inum`. -/
def Op.On (inum : Nat) : Op → Prop
  | .ialloc _ => False
  | .writei i .. | .dirlink i .. | .itrunc i | .iput i _ => i = inum

/-- The operation under the lock of its inode. For `iput`, `last` says that it drops the last
reference, and that the inode in memory is valid.
-/
def Op.perform (sb : Superblock) : Op → Prog Unit
  | .ialloc type => do
      let _ ← Fs.ialloc sb type
  | .writei inum data src off n => do
      let ip ← readInode sb inum
      let _ ← Fs.writei sb ip data.source src off n
  | .dirlink inum name target => do
      let dp ← readInode sb inum
      let _ ← Fs.dirlink sb dp name target
  | .itrunc inum => do
      let ip ← readInode sb inum
      let _ ← Fs.itrunc sb ip
  | .iput inum last => do
      let ip ← readInode sb inum
      if last ∧ ip.nlink = 0 then ifree sb ip

/-- A step: the inodes that operations work on are allocated, and the operation does not panic. -/
def OpStep (sb : Superblock) (before : Store) (op : Op) (after : Store) : Prop :=
  (∀ inum, op.On inum → Allocated sb before.view inum)
  ∧ (op.perform sb).run before = .ok ((), after)

instance (op : Op) (inum : Nat) : Decidable (op.On inum) := by
  cases op <;> dsimp only [Op.On] <;> infer_instance

instance (sb : Superblock) (view : Nat → Block)
    : (op : Op) → Decidable (∀ inum, op.On inum → Allocated sb view inum)
  | .ialloc _ => .isTrue fun _ isOn => isOn.elim
  | .writei i .. | .dirlink i .. | .itrunc i | .iput i _ =>
    decidable_of_iff (Allocated sb view i) ⟨fun here _ isOn => isOn ▸ here, fun all => all i rfl⟩

/-- The store after an operation. -/
def Op.next (sb : Superblock) (s : Store) (op : Op) : Option Store :=
  if ∀ inum, op.On inum → Allocated sb s.view inum then
    ((op.perform sb).run s).toOption.map Prod.snd
  else
    none

theorem Op.next_sound (sb : Superblock) (s : Store) (op l : Op) (s' : Store)
    (taken : labelled (Op.next sb) s op = some (l, s'))
    : OpStep sb s l s' ∧ id l = op := by
  obtain ⟨taken, same⟩ := labelled_sound (Op.next sb) s op l s' taken
  unfold Op.next at taken
  split_ifs at taken with held
  cases run : (l.perform sb).run s with
  | error message =>
    rw [run] at taken
    cases taken
  | ok result =>
    rw [run] at taken
    cases taken
    exact ⟨⟨held, run⟩, same⟩

/-- What an operation leaves of a sound disk. -/
structure Op.Kept (sb : Superblock) (op : Op) (view view' : Nat → Block) : Prop where
  sound : Sound sb view'
  others : ∀ inum, Allocated sb view inum → ¬op.On inum
    → Allocated sb view' inum ∧ dinodeAt sb view' inum = dinodeAt sb view inum
      ∧ ∀ i, i / BSIZE < MAXFILE
        → contentByte view' (diskAddrs sb view') inum i
          = contentByte view (diskAddrs sb view) inum i

theorem Op.Kept.of_untouched {op : Op} {view' : Nat → Block} (sound : Sound sb view')
    (untouched : Untouched sb inum view view')
    (target : ∀ other, Allocated sb view other → ¬op.On other → other ≠ inum)
    : op.Kept sb view view' := by
  refine ⟨sound, fun other allocated away => ?_⟩
  have isOther := target other allocated away
  exact ⟨(untouched.allocated other isOther).mpr allocated,
    untouched.dinode other isOther allocated, fun i => untouched.bytes other i isOther⟩

theorem readInode_peek (allocated : Allocated sb view inum)
    : (readInode sb inum).peek view = some (inodeAt sb view inum) := by
  have typed : ¬(getDinode (view (sb.IBLOCK inum)) (inum % IPB)).type = 0 := allocated.2.2
  simp only [readInode, Prog.peek_bind, peek_bread, Option.bind_some, if_neg typed]
  rfl

/-- The loops of `dirlookup` and `dirlink` leave the directory as it is. -/
theorem dirlookupLoop_ensures (sound : Sound sb s.view) (allocated : Allocated sb s.view inum)
    (name : Chars) (rounds : Nat) (off : BitVec 32)
    : (dirlookupLoop sb name rounds off (inodeAt sb s.view inum)).Ensures s fun result s' =>
        result.2 = inodeAt sb s.view inum ∧ s' = s := by
  induction rounds generalizing off with
  | zero => exact Prog.ensures_pure ⟨rfl, rfl⟩
  | succ rounds ih =>
    rw [dirlookupLoop]
    split_ifs with inside
    · obtain ⟨de, reads⟩ := readDirent_peek sound allocated off
      refine Prog.ensures_peek reads ?_
      cases de with
      | none => exact Prog.ensures_panic
      | some de =>
        dsimp only
        split_ifs
        · exact ih (off + 16)
        · exact Prog.ensures_pure ⟨rfl, rfl⟩
        · exact ih (off + 16)
    · exact Prog.ensures_pure ⟨rfl, rfl⟩

/-- The loop over a directory changes no block. -/
theorem emptyLoop_ensures (sound : Sound sb s.view) (allocated : Allocated sb s.view inum)
    (rounds : Nat) (off : BitVec 32)
    : (emptyLoop sb rounds off (inodeAt sb s.view inum)).Ensures s fun result s' =>
        result.2 = inodeAt sb s.view inum ∧ s' = s := by
  induction rounds generalizing off with
  | zero => exact Prog.ensures_pure ⟨rfl, rfl⟩
  | succ rounds ih =>
    rw [emptyLoop]
    split_ifs with inside
    · obtain ⟨de, reads⟩ := readDirent_peek sound allocated off
      refine Prog.ensures_peek reads ?_
      cases de with
      | none => exact Prog.ensures_panic
      | some de =>
        dsimp only
        split_ifs
        · exact Prog.ensures_pure ⟨rfl, rfl⟩
        · exact ih (off + 16)
    · exact Prog.ensures_pure ⟨rfl, rfl⟩

theorem kernelSource_lawful (mem : Nat → Byte) : (kernelSource mem).Lawful mem :=
  ⟨fun _ _ => List.prefix_rfl, fun _ _ _ => rfl⟩

/-- `writei` keeps the disk sound and the other files as they are. -/
theorem writei_kept {source : Source} {mem : Nat → Byte} (lawful : source.Lawful mem)
    {src : Nat} {off n : BitVec 32} (sound : Sound sb s.view)
    (allocated : Allocated sb s.view inum)
    : (writei sb (inodeAt sb s.view inum) source src off n).Returns s fun _ s' =>
        Sound sb s'.view ∧ Untouched sb inum s.view s'.view := by
  refine (writei_returns lawful sound allocated).mono fun result s' outcome => ?_
  rcases outcome with ⟨_, _, rfl⟩ | ⟨_, _, _, written⟩
  · exact ⟨sound, .refl sb inum s'.view⟩
  · exact ⟨written.sound, written.untouched⟩

/-- `dirlink` keeps the disk sound and the other files as they are. -/
theorem dirlink_kept (name : Chars) (target : Nat) (sound : Sound sb s.view)
    (allocated : Allocated sb s.view inum)
    : (dirlink sb (inodeAt sb s.view inum) name target).Ensures s fun _ s' =>
        Sound sb s'.view ∧ Untouched sb inum s.view s'.view := by
  have lookup : (dirlookup sb (inodeAt sb s.view inum) name).Ensures s fun result s' =>
      result.2 = inodeAt sb s.view inum ∧ s' = s := by
    unfold dirlookup
    split_ifs
    · exact Prog.ensures_panic
    · exact dirlookupLoop_ensures sound allocated name _ 0
  refine lookup.bind ?_
  rintro ⟨found, dp⟩ _ ⟨rfl, rfl⟩
  dsimp only
  split_ifs
  · exact Prog.ensures_pure ⟨sound, .refl sb inum _⟩
  · refine (emptyLoop_ensures sound allocated _ 0).bind ?_
    rintro ⟨off, dp⟩ _ ⟨rfl, rfl⟩
    refine Prog.Ensures.bind (p := writeDirent sb _ _ _) ?_ fun _ _ kept => Prog.ensures_pure kept
    exact (writei_kept (kernelSource_lawful _) sound allocated).ensures.bind fun _ _ kept =>
      Prog.ensures_pure kept

/-- One operation. -/
theorem OpStep.kept {op : Op} {before after : Store} (sound : Sound sb before.view)
    (step : OpStep sb before op after)
    : op.Kept sb before.view after.view := by
  obtain ⟨held, run⟩ := step
  suffices (op.perform sb).Ensures before fun _ s' => op.Kept sb before.view s'.view from
    this _ _ run
  cases op with
  | ialloc type =>
    refine (ialloc_returns sound type).ensures.bind fun result s' outcome => Prog.ensures_pure ?_
    rcases outcome with ⟨_, same⟩ | ⟨inum, _, free, sound', untouched, _⟩
    · rw [same]
      exact .of_untouched sound (.refl sb 0 _) fun other allocated _ => allocated.1.ne'
    · refine .of_untouched sound' untouched ?_
      rintro other allocated _ rfl
      exact free allocated
  | writei inum data src off n =>
    have allocated := held inum rfl
    refine Prog.ensures_peek (readInode_peek allocated) ?_
    refine (writei_kept data.lawful sound allocated).ensures.bind fun _ s' kept =>
      Prog.ensures_pure ?_
    exact .of_untouched kept.1 kept.2 fun other _ away same => away same.symm
  | dirlink inum name target =>
    have allocated := held inum rfl
    refine Prog.ensures_peek (readInode_peek allocated) ?_
    refine (dirlink_kept name target sound allocated).bind fun _ s' kept => Prog.ensures_pure ?_
    exact .of_untouched kept.1 kept.2 fun other _ away same => away same.symm
  | itrunc inum =>
    have allocated := held inum rfl
    refine Prog.ensures_peek (readInode_peek allocated) ?_
    refine (itrunc_returns sound allocated).ensures.bind fun _ s' cleared => Prog.ensures_pure ?_
    exact .of_untouched cleared.sound cleared.untouched fun other _ away same => away same.symm
  | iput inum last =>
    have allocated := held inum rfl
    refine Prog.ensures_peek (readInode_peek allocated) ?_
    split_ifs
    · refine (ifree_returns sound allocated).ensures.mono fun _ s' freed => ?_
      exact .of_untouched freed.1 freed.2.1 fun other _ away same => away same.symm
    · refine Prog.ensures_pure ?_
      exact .of_untouched sound (.refl sb inum _) fun other _ away same => away same.symm

-- A small disk

/-- A disk of 20 blocks with one block of inodes. -/
def shortDisk : Superblock where
  size := 20
  ninodes := 4
  inodestart := 2
  bmapstart := 3

/-- The disk without any inode. -/
def blankDisk : Store := ⟨fun _ => 0, Function.update (fun _ => 0) 3 15, []⟩

theorem blankDisk_sound : Sound shortDisk blankDisk.view :=
  .blank ⟨by decide, by decide, by decide, by decide⟩ rfl (by decide +kernel) (by decide +kernel)

theorem shortDisk_file : ∃ s : Store, Sound shortDisk s.view ∧ Allocated shortDisk s.view 1 := by
  have create : ((Op.ialloc 2).perform shortDisk).Returns blankDisk fun _ s =>
      Allocated shortDisk s.view 1 := by
    decide +kernel
  obtain ⟨_, s, run, allocated⟩ := create
  have created : OpStep shortDisk blankDisk (.ialloc 2) s := ⟨fun _ isOn => isOn.elim, run⟩
  exact ⟨s, (created.kept blankDisk_sound).sound, allocated⟩

end Xv6.Fs

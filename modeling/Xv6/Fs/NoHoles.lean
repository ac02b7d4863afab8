import Xv6.Fs.Operations

/-! No file has a hole below its size, so that `readi` never allocates a block.
-/

namespace Xv6.Fs

open Function Library IndexTree Disk

variable {sb : Superblock} {view : Nat → Block}

-- Holes

/-- The addresses at the index levels that lead to the block in the slot; the last one is its
own.
-/
def wayTo (view : Nat → Block) (addrs : Nat → Fin (NDIRECT + 2) → Nat) (slot : Slot) : List Nat :=
  slot.2.inits.map fun path => address view addrs (slot.1, path)

/-- The number of blocks that a file of the size spans. -/
def blockCount (size : BitVec 32) : Nat := (size.toNat + (BSIZE - 1)) / BSIZE

/-- Inodes have all the blocks below their size, with the index blocks that lead to them. -/
def NoHoles (sb : Superblock) (view : Nat → Block) : Prop :=
  ∀ inum < sb.ninodes, Allocated sb view inum
    → ∀ bn < blockCount (dinodeAt sb view inum).size,
      bn < MAXFILE ∧ ∀ addr ∈ wayTo view (diskAddrs sb view) (blockSlot inum bn), addr ≠ 0

instance (sb : Superblock) (view : Nat → Block) : Decidable (NoHoles sb view) :=
  inferInstanceAs (Decidable (∀ inum < sb.ninodes, Allocated sb view inum
    → ∀ bn < blockCount (dinodeAt sb view inum).size,
      bn < MAXFILE ∧ ∀ addr ∈ wayTo view (diskAddrs sb view) (blockSlot inum bn), addr ≠ 0))

theorem lt_blockCount {size : BitVec 32} {bn : Nat}
    : bn < blockCount size ↔ bn * BSIZE < size.toNat := by
  simp only [blockCount, show BSIZE = 1024 from rfl]
  omega

theorem Owned.wayTo_ne_zero {addrs : Nat → Fin (NDIRECT + 2) → Nat} (boot : view 0 = 0)
    {slot : Slot} (present : address view addrs slot ≠ 0)
    : ∀ addr ∈ wayTo view addrs slot, addr ≠ 0 := by
  intro addr member none
  obtain ⟨path, isInit, rfl⟩ := List.mem_map.mp member
  obtain ⟨rest, whole⟩ := (List.mem_inits path slot.2).mp isInit
  have below := locate_below (entryOf_zero boot) none rest
  rw [whole] at below
  exact present below

theorem Sound.noHoles (sound : Sound sb view) : NoHoles sb view := by
  intro inum _ allocated bn inside
  obtain ⟨bound, present⟩ := sound.whole inum allocated bn (lt_blockCount.mp inside)
  exact ⟨bound, Owned.wayTo_ne_zero sound.owned.boot present⟩

theorem NoHoles.sound (owned : Owned sb view (diskAddrs sb view)) (noHoles : NoHoles sb view)
    : Sound sb view := by
  refine ⟨owned, fun inum allocated bn inside => ?_⟩
  obtain ⟨bound, way⟩ := noHoles inum allocated.2.1 allocated bn (lt_blockCount.mpr inside)
  refine ⟨bound, way _ (List.mem_map.mpr ⟨_, ?_, rfl⟩)⟩
  exact (List.mem_inits _ _).mpr List.prefix_rfl

-- Reading

theorem Sound.run {start final : Store} {history : List (Op × Store)}
    (sound : Sound sb start.view) (run : Run (OpStep sb) start history final)
    : Sound sb final.view := by
  induction run with
  | nil => exact sound
  | next _ taken ih => exact (taken.kept ih).sound

/-- After any operations there is still no hole. Then `bmap` finds each block below the size, and
`readi` ends outside of transactions, without a change of the blocks or of the inode.
-/
theorem readi_never_allocates {start final : Store} {history : List (Op × Store)}
    (owned : Owned sb start.view (diskAddrs sb start.view)) (noHoles : NoHoles sb start.view)
    (run : Run (OpStep sb) start history final)
    : NoHoles sb final.view
      ∧ ∀ inum, Allocated sb final.view inum
        → (∀ bn < blockCount (dinodeAt sb final.view inum).size, ∃ addr, addr ≠ 0
          ∧ runIn false (bmap sb (inodeAt sb final.view inum) bn) final
            = .ok ((addr, inodeAt sb final.view inum), final))
          ∧ ∀ sink dst off n, ∃ read, read.ip = inodeAt sb final.view inum
            ∧ runIn false (readi sb (inodeAt sb final.view inum) sink dst off n) final
              = .ok (read, final) := by
  have sound := (noHoles.sound owned).run run
  refine ⟨sound.noHoles, fun inum allocated => ⟨fun bn inside => ?_, fun sink dst off n => ?_⟩⟩
  · obtain ⟨bound, present⟩ := sound.whole inum allocated bn (lt_blockCount.mp inside)
    refine ⟨_, present, runIn_of_peek false ?_⟩
    exact bmap_peek sound.owned.boot (diskAddrs_allocated allocated) bound present
  · obtain ⟨read, reads, same⟩ := readi_peek sound allocated sink dst off n
    exact ⟨read, same, runIn_of_peek false reads⟩

/-- A file is created and three bytes are written. -/
theorem readi_reads_new_file
    : ∃ history final, Run (OpStep shortDisk) blankDisk history final ∧ history.length = 2
      ∧ Allocated shortDisk final.view 1 ∧ (dinodeAt shortDisk final.view 1).size = 3
      ∧ NoHoles shortDisk final.view := by
  obtain ⟨history, final, run, _, length, allocated, size⟩ :=
    run_of_follows (Op.next_sound shortDisk)
    blankDisk [.ialloc 2, .writei 1 ⟨_, _, kernelSource_lawful fun _ => 7⟩ 0 0 3]
    (fun history final => history.length = 2 ∧ Allocated shortDisk final.view 1
      ∧ (dinodeAt shortDisk final.view 1).size = 3)
    (by decide +kernel)
  exact ⟨history, final, run, length, allocated, size,
    (readi_never_allocates blankDisk_sound.owned blankDisk_sound.noHoles run).1⟩

/-- File 1 has 12 blocks, but the free map lacks the bit of its index block 6. -/
def unmarkedDisk : Store :=
  let one : Dinode :=
    ⟨2, 0, 0, 1, 12288, fun k => if k.val < 11 then 8 + k.val else if k.val = 11 then 6 else 0⟩
  let two : Dinode := ⟨2, 0, 0, 1, 0, fun _ => 0⟩
  let view := update (fun _ => (0 : Block)) 2 (setDinode (setDinode 0 1 one) 2 two)
  let view := update view 3 (BitVec.ofNat 8192 (2 ^ 19 - 1 - 2 ^ 6))
  ⟨fun _ => 0, update view 6 (setWord 0 0 7), []⟩

/-- A disk of 273 blocks. -/
def longDisk : Superblock where
  size := 273
  ninodes := 3
  inodestart := 2
  bmapstart := 3

/-- File 1 has all blocks that the inode and a single index block can list. One block is free. -/
def filledDisk : Store :=
  let one : Dinode := ⟨2, 0, 0, 1, 267 * 1024, fun k => if k.val < 12 then 4 + k.val else 0⟩
  let view := update (fun _ => (0 : Block)) 2 (setDinode 0 1 one)
  let view := update (update view 3 (BitVec.ofNat 8192 (2 ^ 272 - 1))) 4 7
  ⟨fun _ => 0, update view 15 ((List.range 256).foldl (fun data i => setWord data i (16 + i)) 0),
    []⟩

/-- Where block `b` is listed. -/
def filledSlot (b : Nat) : Slot :=
  if b < 16 then ((1, @Fin.ofNat _ naddrs_neZero (b - 4)), [])
  else ((1, @Fin.ofNat _ naddrs_neZero 11), [Fin.ofNat _ (b - 16)])

abbrev filledAddress : Slot → Nat :=
  address filledDisk.view (diskAddrs longDisk filledDisk.view)

theorem filledDisk_slot {slot : Slot} (within : Within levels slot)
    (present : filledAddress slot ≠ 0)
    : 4 ≤ filledAddress slot ∧ filledAddress slot < 272
      ∧ filledSlot (filledAddress slot) = slot := by
  have direct : ∀ k : Fin (NDIRECT + 2), filledAddress ((1, k), []) ≠ 0 → k.val < 12
      ∧ 4 ≤ filledAddress ((1, k), []) ∧ filledAddress ((1, k), []) < 272
      ∧ filledSlot (filledAddress ((1, k), [])) = ((1, k), []) := by
    decide +kernel
  have single : ∀ i : Fin NINDIRECT, 4 ≤ filledAddress ((1, 11), [i])
      ∧ filledAddress ((1, 11), [i]) < 272
      ∧ filledSlot (filledAddress ((1, 11), [i])) = ((1, 11), [i]) := by
    decide +kernel
  obtain ⟨⟨inum, k⟩, path⟩ := slot
  have root : filledAddress ((inum, k), []) ≠ 0 :=
    fun none => present (locate_below (entryOf_zero rfl) none path)
  have isOne : inum = 1 := by
    by_contra other
    refine root (if_neg fun allocated => ?_)
    have others : ∀ i < 3, i ≠ 1 → ¬Allocated longDisk filledDisk.view i := by decide +kernel
    exact others inum allocated.2.1 other allocated
  subst isOne
  obtain ⟨low, listed⟩ := direct k root
  cases path with
  | nil => exact listed
  | cons i rest =>
    simp only [Within, levels, List.length_cons] at within
    have size : NDIRECT = 11 := rfl
    split_ifs at within with isDirect isSingle
    · omega
    · obtain rfl : k = 11 := Fin.ext isSingle
      obtain rfl : rest = [] := List.eq_nil_of_length_eq_zero (by omega)
      exact single i
    · omega

theorem filledDisk_sound : Sound longDisk filledDisk.view := by
  have bits : ∀ b < 273, (marked longDisk filledDisk.view b = true ↔ b < 272)
      ∧ (4 ≤ b → b < 272
        → (filledSlot b).2.length ≤ levels (filledSlot b).1
          ∧ filledAddress (filledSlot b) = b) := by
    decide +kernel
  refine NoHoles.sound ⟨⟨by decide, by decide, by decide, by decide⟩, rfl,
    ⟨entryOf_zero rfl, fun slot other within withinOther same present => ?_⟩,
    fun slot within present => ?_, fun b bound => (bits b bound).1.trans ?_⟩ (by decide +kernel)
  · have listed := (filledDisk_slot within present).2.2
    have listedOther := (filledDisk_slot withinOther fun none => present (same.trans none)).2.2
    rw [← listed, ← listedOther]
    exact congrArg filledSlot same
  · obtain ⟨low, high, _⟩ := filledDisk_slot within present
    exact ⟨low, Nat.lt_trans high (by decide)⟩
  · refine ⟨fun marked => ?_, fun owned => ?_⟩
    · by_cases low : b < 4
      · exact .inl low
      · exact .inr ⟨filledSlot b, (bits b bound).2 (by omega) marked⟩
    · rcases owned with low | ⟨slot, within, isB⟩
      · exact Nat.lt_trans low (by decide)
      · by_cases none : b = 0
        · omega
        · rw [← isB]
          exact (filledDisk_slot within fun isZero => none (isB.symm.trans isZero)).2.1

/-- The same disk with a boot block that is not zero. -/
def bootedDisk : Store := { filledDisk with view := update filledDisk.view 0 (setWord 0 0 271) }

theorem bootedDisk_sound : Sound longDisk (update bootedDisk.view 0 0) := by
  have zero : update bootedDisk.view 0 0 = filledDisk.view :=
    (update_idem ..).trans (update_eq_self 0 filledDisk.view)
  rw [zero]
  exact filledDisk_sound

/-- A layout in which the inodes lie among the data blocks. -/
def mixedLayout : Superblock where
  size := 10
  ninodes := 3
  inodestart := 3
  bmapstart := 2

/-- The disk with an empty file. -/
def mixedDisk : Store :=
  let view := update (fun _ => (0 : Block)) 2 7
  ⟨fun _ => 0, update view 3 (setDinode 0 1 ⟨2, 0, 0, 1, 0, fun _ => 0⟩), []⟩

/-- No file on the disk has a block, and the free map has the blocks before the data blocks. -/
theorem mixedDisk_blank
    : mixedDisk.view 0 = 0
      ∧ (∀ inum < 3, ∀ k, diskAddrs mixedLayout mixedDisk.view inum k = 0)
      ∧ ∀ b < 10, marked mixedLayout mixedDisk.view b = true ↔ b < mixedLayout.dataStart := by
  decide +kernel

/-- A write makes a hole. First, the free map is wrong: a write to file 2 takes the index block of
file 1, and a `read` of file 1 panics. Then, only the boot block is not zero: `bmap` goes on with it
when there is no block for the second index. Last, only the layout is wrong: the file gets the block
of the inodes, and its bytes are an inode.
-/
theorem wrong_disk_makes_hole
    : (NoHoles shortDisk unmarkedDisk.view
        ∧ ∃ history final, Run (OpStep shortDisk) unmarkedDisk history final
          ∧ ¬NoHoles shortDisk final.view
          ∧ Except.map (fun _ => ())
              (runIn false (readi shortDisk (inodeAt shortDisk final.view 1) kernelSink 0 11264 1)
                final)
            = .error "log_write outside of trans")
      ∧ (NoHoles longDisk bootedDisk.view ∧ Sound longDisk (update bootedDisk.view 0 0)
        ∧ ∃ history final, Run (OpStep longDisk) bootedDisk history final
          ∧ ¬NoHoles longDisk final.view)
      ∧ NoHoles mixedLayout mixedDisk.view ∧ mixedDisk.view 0 = 0
      ∧ (∀ inum < 3, ∀ k, diskAddrs mixedLayout mixedDisk.view inum k = 0)
      ∧ (∀ b < 10, marked mixedLayout mixedDisk.view b = true ↔ b < mixedLayout.dataStart)
      ∧ ∃ history final, Run (OpStep mixedLayout) mixedDisk history final
        ∧ ¬NoHoles mixedLayout final.view := by
  obtain ⟨boot, none, bits⟩ := mixedDisk_blank
  refine ⟨⟨by decide +kernel, ?_⟩, ⟨by decide +kernel, bootedDisk_sound, ?_⟩, by decide +kernel,
    boot, none, bits, ?_⟩
  · obtain ⟨history, final, run, _, hole⟩ := run_of_follows (Op.next_sound shortDisk) unmarkedDisk
      [.writei 2 ⟨_, _, kernelSource_lawful fun _ => 0⟩ 0 0 1]
      (fun _ s => ¬NoHoles shortDisk s.view
        ∧ Except.map (fun _ => ())
            (runIn false (readi shortDisk (inodeAt shortDisk s.view 1) kernelSink 0 11264 1) s)
          = .error "log_write outside of trans")
      (by decide +kernel)
    exact ⟨history, final, run, hole⟩
  · obtain ⟨history, final, run, _, hole⟩ := run_of_follows (Op.next_sound longDisk) bootedDisk
      [.writei 1 ⟨_, _, kernelSource_lawful fun _ => 0⟩ 0 (267 * 1024) 1]
      (fun _ s => ¬NoHoles longDisk s.view) (by decide +kernel)
    exact ⟨history, final, run, hole⟩
  · obtain ⟨history, final, run, _, hole⟩ := run_of_follows (Op.next_sound mixedLayout) mixedDisk
      [.writei 1 ⟨_, _, kernelSource_lawful fun _ => 1⟩ 0 0 137]
      (fun _ s => ¬NoHoles mixedLayout s.view) (by decide +kernel)
    exact ⟨history, final, run, hole⟩

/-- After any operations no block has two owners, and the files that none of them worked on are
as they were.
-/
theorem operations_keep_other_files {start final : Store} {history : List (Op × Store)}
    (sound : Sound sb start.view) (run : Run (OpStep sb) start history final)
    : Sound sb final.view ∧ ∀ inum, Allocated sb start.view inum
      → (∀ step ∈ history, ¬step.1.On inum)
      → Allocated sb final.view inum ∧ dinodeAt sb final.view inum = dinodeAt sb start.view inum
        ∧ ∀ i, i / BSIZE < MAXFILE → contentByte final.view (diskAddrs sb final.view) inum i
          = contentByte start.view (diskAddrs sb start.view) inum i := by
  induction run with
  | nil => exact ⟨sound, fun _ allocated _ => ⟨allocated, rfl, fun _ _ => rfl⟩⟩
  | next _ taken ih =>
    have kept := taken.kept ih.1
    refine ⟨kept.sound, fun inum allocated away => ?_⟩
    obtain ⟨here, dinode, bytes⟩ :=
      ih.2 inum allocated fun step earlier => away step (.tail _ earlier)
    obtain ⟨here', dinode', bytes'⟩ := kept.others inum here (away _ (.head _))
    exact ⟨here', dinode'.trans dinode, fun i inside => (bytes' i inside).trans (bytes i inside)⟩

/-- Witness: file 2 is created, written and truncated on the disk that file 1 fills. -/
theorem writing_keeps_other_file
    : ∃ history final, Run (OpStep longDisk) filledDisk history final ∧ history.length = 3
      ∧ Allocated longDisk final.view 2
      ∧ contentByte filledDisk.view (diskAddrs longDisk filledDisk.view) 1 0 = 7
      ∧ contentByte final.view (diskAddrs longDisk final.view) 1 0 = 7 := by
  obtain ⟨history, final, run, _, length, away, allocated⟩ :=
    run_of_follows (Op.next_sound longDisk) filledDisk
      [.ialloc 2, .writei 2 ⟨_, _, kernelSource_lawful fun _ => 9⟩ 0 0 3, .itrunc 2]
      (fun history final => history.length = 3 ∧ (∀ step ∈ history, ¬step.1.On 1)
        ∧ Allocated longDisk final.view 2)
      (by decide +kernel)
  have start : Allocated longDisk filledDisk.view 1
      ∧ contentByte filledDisk.view (diskAddrs longDisk filledDisk.view) 1 0 = 7 := by
    decide +kernel
  obtain ⟨_, _, bytes⟩ := (operations_keep_other_files filledDisk_sound run).2 1 start.1 away
  exact ⟨history, final, run, length, allocated, start.2, (bytes 0 (by decide)).trans start.2⟩

end Xv6.Fs

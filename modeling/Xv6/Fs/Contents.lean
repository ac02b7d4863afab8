import Xv6.Fs.Growth

/-! The bytes of a file. A block that is missing counts as zeros, so that completing the way to a
block changes no byte of any file; writing a data block changes the bytes of one file.
-/

namespace Xv6.Fs

open Function Library IndexTree Disk

variable {sb : Superblock} {view view' : Nat → Block}
  {addrs addrs' : Nat → Fin (NDIRECT + 2) → Nat}
variable {slot : Slot} {bn other i pos m : Nat} {s : Store}

-- Writes that leave the trees as they are

/-- The addresses of a file depend on its index blocks only. -/
theorem address_frame
    (inner : ∀ slot, Inner levels slot
      → view' (address view addrs slot) = view (address view addrs slot))
    (within : Within levels slot)
    : address view' addrs slot = address view addrs slot := by
  have agree (p : Slot) (isInner : Inner levels p)
      : entryOf view' (address view addrs p) = entryOf view (address view addrs p) :=
    funext fun i => congrArg (word · i) (inner p isInner)
  exact locate_agree agree slot within

section

variable (owned : Owned sb view addrs)
include owned

/-- The owners stay the same when the inner blocks, the free map and block 0 do. -/
theorem Owned.frame
    (inner : ∀ slot, Inner levels slot
      → view' (address view addrs slot) = view (address view addrs slot))
    (map : ∀ b < sb.size, view' (sb.BBLOCK b) = view (sb.BBLOCK b)) (boot : view' 0 = 0)
    : Owned sb view' addrs := by
  have same {slot : Slot} (within : Within levels slot) := address_frame inner within
  refine ⟨owned.layout, boot,
    owned.forest.prune (entryOf_zero boot) fun p within => .inl (same within),
    fun slot within => ?_, fun b bound => ?_⟩
  · rw [same within]
    exact owned.data slot within
  · rw [marked, map b bound]
    refine (owned.bits b bound).trans (or_congr Iff.rfl (exists_congr fun slot => ?_))
    exact and_congr_right fun within => by rw [same within]

/-- A block of a file is no block of the bitmap. -/
theorem Owned.address_ne_BBLOCK (within : Within levels slot)
    (present : address view addrs slot ≠ 0) {b : Nat} (bound : b < sb.size)
    : sb.BBLOCK b ≠ address view addrs slot := by
  have := (owned.data slot within present).1
  have := Superblock.BBLOCK_lt bound
  omega

/-- A data block is written. -/
theorem Owned.write_data (leaf : Leaf levels slot) (present : address view addrs slot ≠ 0)
    (data : Block)
    : Owned sb (update view (address view addrs slot) data) addrs
      ∧ ∀ other, Within levels other
        → address (update view (address view addrs slot) data) addrs other
          = address view addrs other := by
  have inner (other : Slot) (isInner : Inner levels other)
      : update view (address view addrs slot) data (address view addrs other)
        = view (address view addrs other) := by
    refine update_of_ne (fun same => ?_) ..
    have isLeaf := owned.single isInner.within (Leaf.within leaf) same present
    subst isLeaf
    exact (Nat.ne_of_lt isInner) leaf
  refine ⟨owned.frame inner (fun b bound => ?_) ?_, fun other => address_frame inner⟩
  · exact update_of_ne (owned.address_ne_BBLOCK (Leaf.within leaf) present bound) ..
  · rw [update_of_ne present.symm, owned.boot]

end

-- The bytes of a file

/-- Byte `i` of an inode. -/
def contentByte (view : Nat → Block) (addrs : Nat → Fin (NDIRECT + 2) → Nat) (inum i : Nat)
    : Byte :=
  byte (view (address view addrs (blockSlot inum (i / BSIZE)))) (i % BSIZE)

/-- Growing a file changes no byte: a new block reads as zero, as the missing one did. -/
theorem Extends.contentByte {target : Slot} (grows : Extends sb target view addrs view' addrs')
    (boot : view 0 = 0) (inum i : Nat)
    : contentByte view' addrs' inum i = contentByte view addrs inum i := by
  have leaf := blockSlot_leaf inum (i / BSIZE)
  unfold Fs.contentByte
  by_cases present : address view addrs (blockSlot inum (i / BSIZE)) = 0
  · rw [present, boot]
    by_cases found : address view' addrs' (blockSlot inum (i / BSIZE)) = 0
    · rw [found, grows.owned.boot, byte_zero]
    · rw [grows.fresh _ leaf present found, byte_zero]
  · rw [grows.kept (Leaf.within leaf) present, grows.data _ leaf present]

/-- Writing a data block changes the bytes in the block. -/
theorem Owned.contentByte_write (owned : Owned sb view addrs) {inum : Nat} (bound : bn < MAXFILE)
    (present : address view addrs (blockSlot inum bn) ≠ 0) (data : Block)
    (inside : i / BSIZE < MAXFILE)
    : contentByte (update view (address view addrs (blockSlot inum bn)) data) addrs other i
      = if other = inum ∧ i / BSIZE = bn then byte data (i % BSIZE)
        else contentByte view addrs other i := by
  have leaf := blockSlot_leaf inum bn
  have leafO := blockSlot_leaf other (i / BSIZE)
  unfold contentByte
  rw [(owned.write_data leaf present data).2 _ (Leaf.within leafO)]
  split_ifs with here
  · obtain ⟨rfl, rfl⟩ := here
    rw [update_self]
  · rw [update_of_ne]
    intro same
    have slots := owned.single (Leaf.within leafO) (Leaf.within leaf) same present
    exact here (blockSlot_inj inside bound slots)

-- Reading

variable {ip : Inode}

theorem inodeBlock_peek {k : Fin (NDIRECT + 2)} (present : ip.addrs k ≠ 0)
    : (inodeBlock sb ip k).peek view = some (ip.addrs k, ip) := by
  rw [inodeBlock, if_neg present]
  rfl

theorem indexBlock_peek {x : Nat} (present : word (view x) i ≠ 0)
    : (indexBlock sb x i).peek view = some (word (view x) i) := by
  rw [indexBlock, Prog.peek_bind_some peek_bread, if_neg present]
  rfl

/-- `bmap` of a block that is there only reads. -/
theorem bmap_peek (boot : view 0 = 0) (mine : addrs ip.inum = ip.addrs) (bound : bn < MAXFILE)
    (present : address view addrs (blockSlot ip.inum bn) ≠ 0)
    : (bmap sb ip bn).peek view = some (address view addrs (blockSlot ip.inum bn), ip) := by
  -- Nothing on the way is missing either.
  have before {r : Root} {path : List (Fin NINDIRECT)} {i : Fin NINDIRECT}
      (found : address view addrs (r, path ++ [i]) ≠ 0)
      : address view addrs (r, path) ≠ 0 := fun none =>
    found (locate_below (entryOf_zero boot) none [i])
  have root (k : Fin (NDIRECT + 2)) : address view addrs ((ip.inum, k), []) = ip.addrs k := by
    rw [address, locate_nil, mine]
  have entry (r : Root) (path : List (Fin NINDIRECT)) (i : Fin NINDIRECT)
      : address view addrs (r, path ++ [i]) = word (view (address view addrs (r, path))) i :=
    locate_snoc ..
  unfold bmap
  split_ifs with direct single double
  · rw [blockSlot_direct _ direct, root] at present ⊢
    exact inodeBlock_peek present
  · rw [blockSlot_single _ direct single] at present ⊢
    have parent := before present
    rw [entry, root] at present ⊢
    rw [root] at parent
    rw [Prog.peek_bind_some (inodeBlock_peek parent)]
    simp only [if_neg parent]
    rw [Prog.peek_bind_some (indexBlock_peek present)]
    rfl
  · rw [blockSlot_double _ direct single double] at present ⊢
    have parent := before present
    have grandparent := before parent
    rw [entry, entry, root] at present ⊢
    rw [entry, root] at parent
    rw [root] at grandparent
    rw [Prog.peek_bind_some (inodeBlock_peek grandparent)]
    simp only [if_neg grandparent]
    rw [Prog.peek_bind_some (indexBlock_peek parent), Prog.peek_bind_some (indexBlock_peek present)]
    rfl
  · exact absurd bound (by
      have : MAXFILE = NDIRECT + NINDIRECT + NDINDIRECT := rfl
      omega)

/-- Consecutive bytes. -/
def window (f : Nat → Byte) (start count : Nat) : List Byte :=
  (List.range count).map fun i => f (start + i)

@[simp] theorem window_length (f : Nat → Byte) (start count : Nat)
    : (window f start count).length = count := by
  simp [window]

/-- Two adjacent windows are one. -/
theorem window_append (f : Nat → Byte) (start first second : Nat)
    : window f start first ++ window f (start + first) second
      = window f start (first + second) := by
  simp [window, List.range_add, Nat.add_assoc]

theorem chunk_place {j : Nat} (bound : m ≤ BSIZE - pos % BSIZE) (inside : j < m)
    : (pos + j) / BSIZE = pos / BSIZE ∧ (pos + j) % BSIZE = pos % BSIZE + j := by
  simp only [show BSIZE = 1024 from rfl] at *
  omega

/-- A part of one block is the window of the file that it holds. -/
theorem loadBytes_window (view : Nat → Block) (addrs : Nat → Fin (NDIRECT + 2) → Nat) (inum : Nat)
    (bound : m ≤ BSIZE - pos % BSIZE)
    : loadBytes (view (address view addrs (blockSlot inum (pos / BSIZE)))) (pos % BSIZE) m
      = window (contentByte view addrs inum) pos m := by
  refine List.map_congr_left fun j member => ?_
  obtain ⟨block, offset⟩ := chunk_place bound (List.mem_range.mp member)
  rw [contentByte, block, offset]

variable {sink : Sink} {dst off n rounds tot : Nat} {stores : List (Nat × Byte)}

section

variable (boot : view 0 = 0) (mine : addrs ip.inum = ip.addrs)
include boot mine

/-- One round of `readi` in a block that is there. -/
theorem readiLoop_round (more : tot < n) (bound : (off + tot) / BSIZE < MAXFILE)
    (present : address view addrs (blockSlot ip.inum ((off + tot) / BSIZE)) ≠ 0)
    (isMin : m = min (n - tot) (BSIZE - (off + tot) % BSIZE))
    : (readiLoop sb sink dst off n (rounds + 1) tot stores ip).peek view
      = if (sink (dst + tot) (window (contentByte view addrs ip.inum) (off + tot) m)).1 then
          (readiLoop sb sink dst off n rounds (tot + m)
            (stores ++ (sink (dst + tot) (window (contentByte view addrs ip.inum) (off + tot) m)).2)
            ip).peek view
        else
          some ⟨-1,
            stores ++ (sink (dst + tot) (window (contentByte view addrs ip.inum) (off + tot) m)).2,
            ip⟩ := by
  have loads := loadBytes_window view addrs ip.inum (show m ≤ BSIZE - (off + tot) % BSIZE by omega)
  rw [readiLoop, if_pos more, Prog.peek_bind_some (bmap_peek boot mine bound present)]
  simp only [if_neg present, ← isMin]
  rw [Prog.peek_bind_some peek_bread, loads]
  split_ifs <;> rfl

/-- Reading blocks that are there only reads, wherever the bytes go. -/
theorem readiLoop_peek
    (whole : ∀ i, off + tot ≤ i → i < off + n
      → i / BSIZE < MAXFILE ∧ address view addrs (blockSlot ip.inum (i / BSIZE)) ≠ 0)
    : ∃ read, (readiLoop sb sink dst off n rounds tot stores ip).peek view = some read
      ∧ read.ip = ip := by
  induction rounds generalizing tot stores with
  | zero => exact ⟨_, rfl, rfl⟩
  | succ rounds ih =>
    by_cases more : tot < n
    · obtain ⟨bound, present⟩ := whole (off + tot) (Nat.le_refl _) (by omega)
      rw [readiLoop_round boot mine more bound present rfl]
      split_ifs
      · exact ih fun i after before => whole i (by omega) before
      · exact ⟨_, rfl, rfl⟩
    · rw [readiLoop, if_neg more]
      exact ⟨_, rfl, rfl⟩

/-- Reading blocks that are there into kernel memory. -/
theorem readiLoop_kernel
    (whole : ∀ i, off + tot ≤ i → i < off + n
      → i / BSIZE < MAXFILE ∧ address view addrs (blockSlot ip.inum (i / BSIZE)) ≠ 0)
    (progress : tot ≤ n) (enough : n - tot ≤ rounds)
    : (readiLoop sb kernelSink dst off n rounds tot
        (placed dst (window (contentByte view addrs ip.inum) off tot)) ip).peek view
      = some ⟨BitVec.ofNat 32 n, placed dst (window (contentByte view addrs ip.inum) off n),
        ip⟩ := by
  induction rounds generalizing tot with
  | zero =>
    obtain rfl : tot = n := by omega
    rfl
  | succ rounds ih =>
    by_cases more : tot < n
    · obtain ⟨bound, present⟩ := whole (off + tot) (Nat.le_refl _) (by omega)
      have offset : (off + tot) % BSIZE < BSIZE := Nat.mod_lt _ (by decide)
      set m := min (n - tot) (BSIZE - (off + tot) % BSIZE) with isMin
      rw [readiLoop_round boot mine more bound present isMin, kernelSink]
      have stores := placed_append dst (window (contentByte view addrs ip.inum) off tot)
        (window (contentByte view addrs ip.inum) (off + tot) m)
      rw [window_length, window_append] at stores
      rw [← stores]
      exact ih (fun i after before => whole i (by omega) before) (by omega) (by omega)
    · rw [readiLoop, if_neg more]
      obtain rfl : tot = n := by omega
      rfl

end

-- Writing

/-- Bytes stored into a block of a file, from byte `pos` of the file on. -/
theorem Owned.contentByte_chunk (owned : Owned sb view addrs) {inum : Nat}
    (bound : pos / BSIZE < MAXFILE)
    (present : address view addrs (blockSlot inum (pos / BSIZE)) ≠ 0) {values : List Byte}
    (fits : values.length ≤ BSIZE - pos % BSIZE) (inside : i / BSIZE < MAXFILE)
    : contentByte
        (update view (address view addrs (blockSlot inum (pos / BSIZE)))
          (storeBytes (view (address view addrs (blockSlot inum (pos / BSIZE)))) (pos % BSIZE)
            values))
        addrs other i
      = if other = inum ∧ pos ≤ i ∧ i < pos + values.length then values.getD (i - pos) 0
        else contentByte view addrs other i := by
  have offset : pos % BSIZE < BSIZE := Nat.mod_lt _ (by decide)
  have small : i % BSIZE < BSIZE := Nat.mod_lt _ (by decide)
  rw [owned.contentByte_write bound present _ inside, byte_storeBytes (by omega) small]
  by_cases here : other = inum ∧ pos ≤ i ∧ i < pos + values.length
  · obtain ⟨rfl, after, before⟩ := here
    obtain ⟨j, rfl⟩ := Nat.exists_eq_add_of_le after
    obtain ⟨block, place⟩ := chunk_place fits (show j < values.length by omega)
    rw [if_pos ⟨rfl, block⟩, place, if_pos (by omega), if_pos ⟨rfl, after, before⟩,
      Nat.add_sub_cancel_left, Nat.add_sub_cancel_left]
  · split_ifs with block window
    · -- The same place of the block is the same place of the file.
      refine (here ⟨block.1, ?_⟩).elim
      simp only [show BSIZE = 1024 from rfl] at *
      omega
    · obtain ⟨rfl, isBlock⟩ := block
      rw [contentByte, isBlock]
    · rfl

/-- A copy gets a first part of the bytes in memory, and all of them if it succeeds. -/
structure Source.Lawful (source : Source) (mem : Nat → Byte) : Prop where
  part : ∀ addr m, (source addr m).2 <+: window mem addr m
  whole : ∀ addr m, (source addr m).1 = true → (source addr m).2 = window mem addr m

/-- Copies always succeed. -/
def Source.Total (source : Source) : Prop := ∀ addr m, (source addr m).1 = true

/-- What a part of `writei` does, that has written the data from byte `tot` up to byte `tot'`. The
bytes in the file are known if the part is `clean`: a copy that fails leaves some of its bytes.
-/
structure Wrote (sb : Superblock) (clean : Prop) (mem : Nat → Byte) (src off tot inum : Nat)
    (view : Nat → Block) (addrs : Nat → Fin (NDIRECT + 2) → Nat) (tot' : Nat)
    (view' : Nat → Block) (addrs' : Nat → Fin (NDIRECT + 2) → Nat)
    : Prop where
  progress : tot ≤ tot'
  owned : Owned sb view' addrs'
  low : ∀ b < sb.bmapstart, view' b = view b
  addresses : ∀ slot, Within levels slot → address view' addrs' slot = address view addrs slot
    ∨ (slot.1.1 = inum ∧ address view addrs slot = 0)
  mapped : ∀ i, off + tot ≤ i → i < off + tot'
    → address view' addrs' (blockSlot inum (i / BSIZE)) ≠ 0
  others : ∀ other i, other ≠ inum → i / BSIZE < MAXFILE
    → contentByte view' addrs' other i = contentByte view addrs other i
  bytes : clean → ∀ i, i / BSIZE < MAXFILE
    → contentByte view' addrs' inum i
      = if off + tot ≤ i ∧ i < off + tot' then mem (src + (i - off))
        else contentByte view addrs inum i

variable {mem : Nat → Byte} {src tot' tot'' inum : Nat} {clean : Prop} {view'' : Nat → Block}
  {addrs'' : Nat → Fin (NDIRECT + 2) → Nat}

theorem Wrote.kept (wrote : Wrote sb clean mem src off tot inum view addrs tot' view' addrs')
    (within : Within levels slot) (present : address view addrs slot ≠ 0)
    : address view' addrs' slot = address view addrs slot :=
  (wrote.addresses slot within).resolve_right fun none => present none.2

/-- Two adjacent parts of a write are one. -/
theorem Wrote.trans (first : Wrote sb True mem src off tot inum view addrs tot' view' addrs')
    (second : Wrote sb clean mem src off tot' inum view' addrs' tot'' view'' addrs'')
    : Wrote sb clean mem src off tot inum view addrs tot'' view'' addrs'' := by
  have forward := first.progress
  have further := second.progress
  refine ⟨by omega, second.owned, fun b low => (second.low b low).trans (first.low b low),
    fun slot within => ?_, fun i after before => ?_, fun other i isOther inside => ?_,
    fun isClean i inside => ?_⟩
  · rcases first.addresses slot within with same | changed
    · rw [← same]
      exact second.addresses slot within
    · exact .inr changed
  · by_cases early : i < off + tot'
    · have present := first.mapped i after early
      rw [second.kept (Leaf.within (blockSlot_leaf _ _)) present]
      exact present
    · exact second.mapped i (by omega) before
  · exact (second.others other i isOther inside).trans (first.others other i isOther inside)
  · rw [second.bytes isClean i inside, first.bytes trivial i inside]
    by_cases late : off + tot' ≤ i ∧ i < off + tot''
    · rw [if_pos late, if_pos (by omega)]
    · rw [if_neg late]
      by_cases early : off + tot ≤ i ∧ i < off + tot'
      · rw [if_pos early, if_pos (by omega)]
      · rw [if_neg early, if_neg (by omega)]

theorem Extends.wrote (grows : Extends sb (blockSlot inum bn) view addrs view' addrs')
    (boot : view 0 = 0)
    : Wrote sb clean mem src off tot inum view addrs tot view' addrs' := by
  refine ⟨Nat.le_refl _, grows.owned, grows.low, fun slot within => ?_,
    fun i after before => by omega, fun other i _ _ => grows.contentByte boot other i,
    fun _ i _ => ?_⟩
  · refine (grows.addresses slot within).imp_right fun changed => ⟨?_, changed.2⟩
    rw [changed.1.1, blockSlot_inum]
  · rw [if_neg (by omega), grows.contentByte boot]

section

variable (owned : Owned sb view addrs) (bound : (off + tot) / BSIZE < MAXFILE)
  (present : address view addrs (blockSlot inum ((off + tot) / BSIZE)) ≠ 0)
include owned bound present

/-- Bytes have been stored in a block that is there. -/
theorem Owned.wrote {values : List Byte} (fits : values.length ≤ BSIZE - (off + tot) % BSIZE)
    (reached : tot' ≤ tot + values.length) (progress : tot ≤ tot')
    (isData : clean → tot' = tot + values.length ∧ values = window mem (src + tot) values.length)
    : Wrote sb clean mem src off tot inum view addrs tot'
        (update view (address view addrs (blockSlot inum ((off + tot) / BSIZE)))
          (storeBytes (view (address view addrs (blockSlot inum ((off + tot) / BSIZE))))
            ((off + tot) % BSIZE) values))
        addrs := by
  have leaf := blockSlot_leaf inum ((off + tot) / BSIZE)
  obtain ⟨ownedAfter, same⟩ := owned.write_data leaf present
    (storeBytes (view (address view addrs (blockSlot inum ((off + tot) / BSIZE))))
      ((off + tot) % BSIZE) values)
  refine ⟨progress, ownedAfter, fun b low => ?_, fun slot within => .inl (same slot within),
    fun i after before => ?_, fun other i isOther inside => ?_, fun isClean i inside => ?_⟩
  · refine update_of_ne ?_ ..
    have := (owned.data _ (Leaf.within leaf) present).1
    have := sb.bmapstart_lt_dataStart
    omega
  · obtain ⟨j, rfl⟩ := Nat.exists_eq_add_of_le after
    rw [same _ (Leaf.within (blockSlot_leaf _ _)),
      (chunk_place fits (show j < values.length by omega)).1]
    exact present
  · rw [owned.contentByte_chunk bound present fits inside, if_neg fun here => isOther here.1]
  · obtain ⟨rfl, isWindow⟩ := isData isClean
    rw [owned.contentByte_chunk bound present fits inside]
    by_cases here : off + tot ≤ i ∧ i < off + (tot + values.length)
    · rw [if_pos here, if_pos ⟨rfl, here.1, by omega⟩, isWindow]
      obtain ⟨j, rfl⟩ := Nat.exists_eq_add_of_le here.1
      have small : j < values.length := by omega
      rw [List.getD_eq_getElem?_getD, Nat.add_sub_cancel_left]
      simp only [window, List.getElem?_map, List.getElem?_range small, Option.map_some,
        Option.getD_some]
      congr 1
      omega
    · rw [if_neg here, if_neg (by omega)]

/-- Storing a part of one block writes that window of the file and no other byte. -/
theorem Owned.wrote_window (mem : Nat → Byte) (src : Nat) (fits : m ≤ BSIZE - (off + tot) % BSIZE)
    : Wrote sb True mem src off tot inum view addrs (tot + m)
        (update view (address view addrs (blockSlot inum ((off + tot) / BSIZE)))
          (storeBytes (view (address view addrs (blockSlot inum ((off + tot) / BSIZE))))
            ((off + tot) % BSIZE) (window mem (src + tot) m)))
        addrs := by
  have length := window_length mem (src + tot) m
  exact owned.wrote bound present (by rwa [length]) (by rw [length]) (Nat.le_add_right ..)
    fun _ => by rw [length]; exact ⟨rfl, rfl⟩

end

/-- What the loop of `writei` returns. With copies that succeed it stops early for want of a block
only.
-/
structure Looped (sb : Superblock) (source : Source) (mem : Nat → Byte) (src off n tot : Nat)
    (view : Nat → Block) (addrs : Nat → Fin (NDIRECT + 2) → Nat) (ip : Inode)
    (result : Nat × Inode) (s' : Store)
    : Prop where
  same : result.2 = { ip with addrs := result.2.addrs }
  bound : result.1 ≤ n
  stopped : source.Total → result.1 < n → freeBlocks sb s'.view = ∅
  wrote : Wrote sb (source.Total ∨ result.1 = n) mem src off tot ip.inum view addrs result.1
    s'.view (update addrs ip.inum result.2.addrs)

variable {source : Source}

theorem Looped.ended (owned : Owned sb s.view addrs) (mine : addrs ip.inum = ip.addrs)
    (isEnd : tot = n)
    : Looped sb source mem src off n tot s.view addrs ip (tot, ip) s := by
  have same : update addrs ip.inum ip.addrs = addrs := by
    rw [← mine, update_eq_self]
  refine ⟨rfl, isEnd.le, fun _ less => absurd less (by omega), ?_⟩
  simp only [same]
  exact (Extends.refl owned (blockSlot ip.inum 0)).wrote owned.boot

/-- The loop of `writei` returns, with the bytes it counts written and no other. -/
theorem writeiLoop_returns (lawful : source.Lawful mem) (owned : Owned sb s.view addrs)
    (mine : addrs ip.inum = ip.addrs) (limit : off + n ≤ MAXFILE * BSIZE) (progress : tot ≤ n)
    (enough : n - tot ≤ rounds)
    : (writeiLoop sb source src off n rounds tot ip).Returns s
        (Looped sb source mem src off n tot s.view addrs ip) := by
  induction rounds generalizing tot ip addrs s with
  | zero => exact Prog.returns_pure.mpr (.ended owned mine (by omega))
  | succ rounds ih =>
    rw [writeiLoop]
    by_cases more : tot < n
    · rw [if_pos more]
      have bound : (off + tot) / BSIZE < MAXFILE := by
        rw [Nat.div_lt_iff_lt_mul (by decide)]
        omega
      refine (bmap_returns owned mine bound).bind fun result s' found => ?_
      obtain ⟨addr, ip'⟩ := result
      obtain ⟨same, mapped⟩ := found
      obtain ⟨newAddrs, rfl⟩ : ∃ newAddrs, ip' = { ip with addrs := newAddrs } := ⟨_, same⟩
      simp only at mapped ⊢
      have grown (clean : Prop) : Wrote sb clean mem src off tot ip.inum s.view addrs tot s'.view
          (update addrs ip.inum newAddrs) :=
        mapped.grows.wrote owned.boot
      by_cases none : addr = 0
      · rw [if_pos none, Prog.returns_pure]
        exact ⟨same, progress, fun _ _ => mapped.full none, grown _⟩
      · have offset : (off + tot) % BSIZE < BSIZE := Nat.mod_lt _ (by decide)
        rw [if_neg none, Prog.returns_bind, returns_bread]
        have some : 0 < min (n - tot) (BSIZE - (off + tot) % BSIZE) := by omega
        have inData := min_le_left (n - tot) (BSIZE - (off + tot) % BSIZE)
        have inBlock := min_le_right (n - tot) (BSIZE - (off + tot) % BSIZE)
        generalize min (n - tot) (BSIZE - (off + tot) % BSIZE) = m at some inData inBlock ⊢
        have part := (lawful.part (src + tot) m).length_le
        have whole := lawful.whole (src + tot) m
        have found := mapped.found
        rw [window_length] at part
        subst found
        rcases isCopy : source (src + tot) m with ⟨ok, copied⟩
        simp only [isCopy] at part whole ⊢
        rw [Prog.returns_bind, returns_setData]
        cases ok with
        | true =>
          obtain rfl := whole rfl
          simp only [if_true, Prog.returns_bind, returns_logWrite, returns_brelse]
          have chunk := mapped.grows.owned.wrote_window bound none mem src inBlock
          refine (ih chunk.owned (update_self ..) (by omega) (by omega)).mono
            fun result last looped => ?_
          have wrote := looped.wrote
          rw [update_idem] at wrote
          exact ⟨looped.same, looped.bound, looped.stopped,
            ((grown True).trans chunk).trans wrote⟩
        | false =>
          simp only [Bool.false_eq_true, if_false, Prog.returns_bind, returns_brelse,
            Prog.returns_pure]
          have failed : ¬(source.Total ∨ tot = n) := by
            rintro (total | isEnd)
            · have ok := total (src + tot) m
              rw [isCopy] at ok
              cases ok
            · omega
          exact ⟨same, progress, fun total => absurd (.inl total) failed,
            (grown True).trans (mapped.grows.owned.wrote bound none (part.trans inBlock)
              (Nat.le_add_right ..) (Nat.le_refl _) fun clean => absurd clean failed)⟩
    · rw [if_neg more]
      exact Prog.returns_pure.mpr (.ended owned mine (by omega))

theorem writeiLoop_end (isEnd : tot = n)
    : writeiLoop sb source src off n rounds tot ip = pure (tot, ip) := by
  cases rounds with
  | zero => rfl
  | succ rounds => rw [writeiLoop, if_neg (Nat.not_lt_of_le isEnd.ge)]

/-- A write within one block is done as a whole, if there are blocks enough, or not at all. -/
theorem writeiLoop_block (total : source.Total) (owned : Owned sb s.view addrs)
    (mine : addrs ip.inum = ip.addrs) (some : 0 < n) (inBlock : off % BSIZE + n ≤ BSIZE)
    (bound : off / BSIZE < MAXFILE)
    : (writeiLoop sb source src off n n 0 ip).Returns s fun result _ =>
        result.1
          = if (missing s.view addrs (blockSlot ip.inum (off / BSIZE))).card
              ≤ (freeBlocks sb s.view).card
            then n else 0 := by
  obtain ⟨rounds, rfl⟩ := Nat.exists_eq_succ_of_ne_zero some.ne'
  refine (bmap_returns owned mine bound).bind fun result s' found => ?_
  obtain ⟨addr, ip'⟩ := result
  have enough := found.2.enough_iff
  simp only [Nat.add_zero, Nat.sub_zero]
  by_cases none : addr = 0
  · rw [if_pos none, Prog.returns_pure, if_neg (fun fits => enough.mpr fits none)]
  · rw [if_neg none, if_pos (enough.mp none), Nat.min_eq_left (by omega)]
    have ok := total src (rounds + 1)
    rcases isCopy : source src (rounds + 1) with ⟨copied, bytes⟩
    rw [isCopy] at ok
    obtain rfl : copied = true := ok
    simp only [Prog.returns_bind, returns_bread, returns_setData, if_true, returns_logWrite,
      returns_brelse]
    rw [writeiLoop_end (Nat.zero_add _), Prog.returns_pure, Nat.zero_add]

end Xv6.Fs

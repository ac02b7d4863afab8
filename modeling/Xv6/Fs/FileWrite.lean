import Xv6.Fs.NoHoles
import Xv6.Library.Counting

/-! `filewrite` of `kernel/file.c` by processes that share one `struct file` of type `FD_INODE`.
A step is what a round of the loop does between `begin_op` and `end_op`; the offset of the file is
read and moved under the lock of the inode.
-/

namespace Xv6.Fs

open Function Library IndexTree Disk

-- Calls

/-- The `struct file`, without the offset. -/
structure OpenFile where
  writable : Bool
  inum : Nat

/-- The arguments of a call; `n` is an `int`. -/
structure WriteCall where
  addr : Nat
  n : BitVec 32

/-- Where a call is: before a round of its loop, with `i` bytes written, or at its end. -/
inductive Progress where
  | loop (i : Nat)
  | returned (ret : Int)
deriving DecidableEq

/-- The first test of `filewrite`. -/
def OpenFile.enter (f : OpenFile) : Progress := if f.writable then .loop 0 else .returned (-1)

/-- `n1` of a round. -/
def WriteCall.chunkSize (call : WriteCall) (i : Nat) : Nat :=
  min (call.n.toInt - i).toNat maxChunk

/-- The file is written between `ilock` and `iunlock`; `write` of both `fs_ops` is `writei`. -/
def writeChunk (sb : Superblock) (inum : Nat) (source : Source) (src : Nat) (off : BitVec 32)
    (n1 : Nat)
    : Prog (BitVec 32) := do
  let ip ← readInode sb inum
  let (r, _) ← writei sb ip source src off (BitVec.ofNat 32 n1)
  return r

section

variable {ι : Type} [DecidableEq ι]

/-- The calls that share the file. -/
structure Writers (ι : Type) where
  off : BitVec 32
  store : Store
  calls : ι → Progress

/-- A round of a call, the end of its loop, or an operation on another inode. The data is that of
user memory at the time of the round.
-/
inductive WriteAction (ι : Type) where
  | chunk (c : ι) (data : Data)
  | finish (c : ι)
  | other (op : Op)

/-- A round that got `r` from `writei`. -/
def Writers.wrote (s : Writers ι) (c : ι) (i n1 : Nat) (r : BitVec 32) (store : Store)
    : Writers ι where
  off := if 0 < r.toInt then s.off + r else s.off
  store := store
  calls := update s.calls c
    -- on an error the loop ends with i < n
    (if r.toInt ≠ n1 then .returned (-1) else .loop (i + n1))

def WriteStep (sb : Superblock) (f : OpenFile) (calls : ι → WriteCall) (before : Writers ι)
    : WriteAction ι → Writers ι → Prop
  | .chunk c data, after =>
    ∃ i r store, before.calls c = .loop i ∧ (i : Int) < (calls c).n.toInt
      ∧ (writeChunk sb f.inum data.source ((calls c).addr + i) before.off
          ((calls c).chunkSize i)).run before.store = .ok (r, store)
      ∧ after = before.wrote c i ((calls c).chunkSize i) r store
  | .finish c, after =>
    ∃ i, before.calls c = .loop i ∧ ¬(i : Int) < (calls c).n.toInt
      ∧ after = { before with
        calls := update before.calls c
          (.returned (if (i : Int) = (calls c).n.toInt then (calls c).n.toInt else -1)) }
  | .other op, after =>
    ¬op.On f.inum ∧ ∃ store, OpStep sb before.store op store
      ∧ after = { before with store := store }

-- Chunks

/-- What a round writes: the bytes of its call from `first` on, at `start` in the file. -/
structure Chunk (ι : Type) where
  call : ι
  first : Nat
  start : Nat
  bytes : List Byte

/-- The places of the file that the chunk covers. -/
def Chunk.range (chunk : Chunk ι) : Finset Nat :=
  Finset.Ico chunk.start (chunk.start + chunk.bytes.length)

def chunkOf (calls : ι → WriteCall) (before : Writers ι) : WriteAction ι → Option (Chunk ι)
  | .chunk c data =>
    match before.calls c with
    | .loop i => some {
        call := c
        first := i
        start := before.off.toNat
        bytes := window data.mem ((calls c).addr + i) ((calls c).chunkSize i) }
    | .returned _ => none
  | .finish _ | .other _ => none

/-- The chunks of a history, newest first. -/
def chunks (calls : ι → WriteCall) (history : List (WriteAction ι × Writers ι)) : List (Chunk ι) :=
  history.filterMap fun entry => chunkOf calls entry.2 entry.1

end

-- One chunk

variable {sb : Superblock} {inum : Nat} {s : Store}

/-- All `n1` bytes have been written at `off`, and nothing else. -/
structure ChunkWritten (sb : Superblock) (inum : Nat) (mem : Nat → Byte) (src off n1 : Nat)
    (view view' : Nat → Block)
    : Prop where
  limit : off + n1 ≤ MAXFILE * BSIZE
  inside : off + n1 ≤ (dinodeAt sb view' inum).size.toNat
  size : (dinodeAt sb view inum).size.toNat ≤ (dinodeAt sb view' inum).size.toNat
  bytes : ∀ i < MAXFILE * BSIZE, contentByte view' (diskAddrs sb view') inum i
    = if off ≤ i ∧ i < off + n1 then mem (src + (i - off))
      else contentByte view (diskAddrs sb view) inum i

theorem chunkSize_le (call : WriteCall) (i : Nat) : call.chunkSize i ≤ maxChunk := min_le_right ..

theorem toInt_ofNat {tot : Nat} (small : tot ≤ maxChunk) : (BitVec.ofNat 32 tot).toInt = tot := by
  have most : maxChunk = 3072 := rfl
  have value : (BitVec.ofNat 32 tot).toNat = tot := Nat.mod_eq_of_lt (by omega)
  rw [BitVec.toInt_eq_toNat_of_lt (by omega), value]

theorem writeChunk_ensures (sound : Sound sb s.view) (allocated : Allocated sb s.view inum)
    (data : Data) (src : Nat) (off : BitVec 32) {n1 : Nat} (small : n1 ≤ maxChunk)
    : (writeChunk sb inum data.source src off n1).Ensures s fun r s' =>
        Sound sb s'.view ∧ Allocated sb s'.view inum
        ∧ (r.toInt = n1 → ChunkWritten sb inum data.mem src off.toNat n1 s.view s'.view) := by
  have count : (BitVec.ofNat 32 n1).toNat = n1 :=
    Nat.mod_eq_of_lt (small.trans_lt (by decide))
  refine Prog.ensures_peek (readInode_peek allocated) ?_
  refine (writei_returns data.lawful sound allocated).ensures.bind fun result s' outcome =>
    Prog.ensures_pure ?_
  rcases outcome with ⟨_, rfl, rfl⟩ | ⟨accepted, tot, isTot, written⟩
  · refine ⟨sound, allocated, fun same => ?_⟩
    have negative : (-1 : BitVec 32).toInt = -1 := rfl
    rw [negative] at same
    omega
  · refine ⟨written.sound, written.allocated, fun same => ?_⟩
    have limit := accepted.2
    have most := written.most
    rw [count] at written limit most
    rw [isTot, toInt_ofNat (most.trans small)] at same
    obtain rfl : tot = n1 := by omega
    have size := written.size
    refine ⟨limit, size ▸ le_max_right .., size ▸ le_max_left .., fun i inside => ?_⟩
    exact written.bytes (.inr rfl) i (Nat.div_lt_of_lt_mul (Nat.mul_comm .. ▸ inside))

-- The layout of the chunks

/-- The bytes that a call has written. -/
def Progress.written : Progress → Nat
  | .loop i => i
  | .returned ret => ret.toNat

section

variable {ι : Type} {f : OpenFile} {calls : ι → WriteCall}
  {before after : Writers ι} {history : List (WriteAction ι × Writers ι)}
variable {first : Nat}

/-- The chunk stands in the file, behind all chunks before it. -/
structure Chunk.Stands (sb : Superblock) (inum : Nat) (s : Writers ι) (chunk : Chunk ι) : Prop where
  below : chunk.start + chunk.bytes.length ≤ s.off.toNat
  done : chunk.first + chunk.bytes.length ≤ (s.calls chunk.call).written
  inside : chunk.start + chunk.bytes.length ≤ (dinodeAt sb s.store.view inum).size.toNat
  bytes : window (contentByte s.store.view (diskAddrs sb s.store.view) inum) chunk.start
    chunk.bytes.length = chunk.bytes

/-- The later chunk is behind the earlier one, in the file and in the data of their call. -/
def Chunk.After (later earlier : Chunk ι) : Prop :=
  earlier.start + earlier.bytes.length ≤ later.start
  ∧ (later.call = earlier.call → earlier.first + earlier.bytes.length ≤ later.first)

/-- The bytes of the chunks of a call. -/
def chunkBytes [DecidableEq ι] (c : ι) (list : List (Chunk ι)) : Nat :=
  ((list.filter fun chunk => chunk.call = c).map fun chunk => chunk.bytes.length).sum

/-- No call has failed so far. -/
structure Laid [DecidableEq ι] [Fintype ι] (sb : Superblock) (inum : Nat) (calls : ι → WriteCall)
    (first : Nat)
    (history : List (WriteAction ι × Writers ι)) (s : Writers ι)
    : Prop where
  off : s.off.toNat = first + ∑ c, (s.calls c).written
  running : ∀ c, s.calls c = .returned (calls c).n.toInt
    ∨ ∃ i : Nat, s.calls c = .loop i ∧ (i : Int) ≤ (calls c).n.toInt
  stands : ∀ chunk ∈ chunks calls history, chunk.Stands sb inum s
  ordered : (chunks calls history).Pairwise Chunk.After
  whole : ∀ c, chunkBytes c (chunks calls history) = (s.calls c).written

theorem chunks_cons_some {action : WriteAction ι} {chunk : Chunk ι}
    (some : chunkOf calls before action = some chunk)
    : chunks calls ((action, before) :: history) = chunk :: chunks calls history :=
  List.filterMap_cons_some some

/-- What stands in the file stays there when neither its bytes nor the progress of the calls go
back.
-/
theorem Chunk.Stands.mono {chunk : Chunk ι} (stands : chunk.Stands sb inum before)
    (off : before.off.toNat ≤ after.off.toNat)
    (done : (before.calls chunk.call).written ≤ (after.calls chunk.call).written)
    (size : (dinodeAt sb before.store.view inum).size.toNat
      ≤ (dinodeAt sb after.store.view inum).size.toNat)
    (bytes : ∀ i < before.off.toNat, i < (dinodeAt sb before.store.view inum).size.toNat
      → contentByte after.store.view (diskAddrs sb after.store.view) inum i
        = contentByte before.store.view (diskAddrs sb before.store.view) inum i)
    : chunk.Stands sb inum after := by
  refine ⟨stands.below.trans off, stands.done.trans done, stands.inside.trans size, ?_⟩
  refine Eq.trans ?_ stands.bytes
  refine List.map_congr_left fun k within => ?_
  rw [List.mem_range] at within
  have below := stands.below
  have inside := stands.inside
  exact bytes _ (by omega) (by omega)

variable [DecidableEq ι] [Fintype ι]

/-- A round that has written its chunk. -/
theorem Laid.chunk {first : Nat} (laid : Laid sb inum calls first history before)
    (sound : Sound sb before.store.view) (allocated : Allocated sb before.store.view inum) {c : ι}
    {data : Data} {i n1 : Nat} {r : BitVec 32} {store : Store}
    (isLoop : before.calls c = .loop i) (more : (i : Int) < (calls c).n.toInt)
    (isSize : n1 = (calls c).chunkSize i) (whole : r.toInt = n1)
    (written : ChunkWritten sb inum data.mem ((calls c).addr + i) before.off.toNat n1
      before.store.view store.view)
    : Laid sb inum calls first ((.chunk c data, before) :: history)
        (before.wrote c i n1 r store) := by
  have small : n1 ≤ maxChunk := isSize ▸ chunkSize_le (calls c) i
  have positive : 0 < n1 ∧ (i + n1 : Int) ≤ (calls c).n.toInt := by
    have most : maxChunk = 3072 := rfl
    rw [isSize, WriteCall.chunkSize]
    omega
  have isCount : r = BitVec.ofNat 32 n1 :=
    BitVec.eq_of_toInt_eq (whole.trans (toInt_ofNat small).symm)
  have countNat : r.toNat = n1 := by
    rw [isCount]
    exact Nat.mod_eq_of_lt (small.trans_lt (by decide))
  have off : (before.wrote c i n1 r store).off.toNat = before.off.toNat + n1 := by
    have limit := written.limit
    have sizes : MAXFILE * BSIZE < 2 ^ 32 := by decide
    rw [Writers.wrote, if_pos (by omega), BitVec.toNat_add, countNat, Nat.mod_eq_of_lt (by omega)]
  have progress : (before.wrote c i n1 r store).calls
      = update before.calls c (.loop (i + n1)) := by
    rw [Writers.wrote, if_neg (not_not_intro whole)]
  have here : chunkOf calls before (.chunk c data)
      = some ⟨c, i, before.off.toNat, window data.mem ((calls c).addr + i) n1⟩ := by
    rw [isSize]
    simp only [chunkOf, isLoop]
  have stands (chunk : Chunk ι) (old : chunk ∈ chunks calls history)
      : chunk.Stands sb inum (before.wrote c i n1 r store) := by
    refine (laid.stands chunk old).mono (off ▸ Nat.le_add_right ..) ?_ written.size
      fun k below inside => ?_
    · rw [progress]
      by_cases mine : chunk.call = c
      · rw [mine, isLoop, update_self]
        exact Nat.le_add_right ..
      · rw [update_of_ne mine]
    · have limit := sound.size_le allocated
      refine (written.bytes k (inside.trans_le limit)).trans (if_neg ?_)
      omega
  refine ⟨?_, fun c' => ?_, ?_, ?_, fun c' => ?_⟩
  · have sum := sum_update (fun _ => Progress.written) before.calls c (.loop (i + n1))
    rw [isLoop] at sum
    simp only [Progress.written] at sum
    rw [off, laid.off, progress]
    simp only [Progress.written]
    omega
  · rw [progress]
    by_cases mine : c' = c
    · rw [mine, update_self]
      exact .inr ⟨i + n1, rfl, by exact_mod_cast positive.2⟩
    · rw [update_of_ne mine]
      exact laid.running c'
  · rw [chunks_cons_some here]
    refine List.forall_mem_cons.mpr ⟨⟨?_, ?_, ?_, ?_⟩, stands⟩
    · simp only [window_length, off, le_refl]
    · simp only [window_length, progress, update_self, Progress.written, le_refl]
    · rw [window_length]
      exact written.inside
    · simp only [window_length]
      refine List.map_congr_left fun k within => ?_
      rw [List.mem_range] at within
      have limit := written.limit
      have place : before.off.toNat ≤ before.off.toNat + k
          ∧ before.off.toNat + k < before.off.toNat + n1 := by omega
      exact (written.bytes _ (by omega)).trans
        ((if_pos place).trans (by rw [Nat.add_sub_cancel_left]))
  · rw [chunks_cons_some here]
    refine List.pairwise_cons.mpr ⟨fun earlier old => ?_, laid.ordered⟩
    refine ⟨(laid.stands earlier old).below, fun (same : c = earlier.call) => ?_⟩
    have done := (laid.stands earlier old).done
    rwa [← same, isLoop] at done
  · rw [chunks_cons_some here, progress]
    have old := laid.whole c'
    by_cases mine : c' = c
    · subst mine
      rw [isLoop] at old
      rw [update_self]
      simp only [chunkBytes, List.filter_cons, decide_true, if_true, List.map_cons, List.sum_cons,
        window_length] at old ⊢
      simp only [Progress.written] at old ⊢
      omega
    · have other : ¬c = c' := fun same => mine same.symm
      rw [update_of_ne mine, ← old]
      simp only [chunkBytes, List.filter_cons, decide_eq_true_eq, if_neg other]

/-- A call leaves its loop. -/
theorem Laid.finish (laid : Laid sb inum calls first history before) {c : ι} {i : Nat}
    (isLoop : before.calls c = .loop i) (last : ¬(i : Int) < (calls c).n.toInt)
    : Laid sb inum calls first ((.finish c, before) :: history)
        { before with
          calls := update before.calls c
            (.returned (if (i : Int) = (calls c).n.toInt then (calls c).n.toInt else -1)) } := by
  have isEnd : (i : Int) = (calls c).n.toInt := by
    rcases laid.running c with returned | ⟨j, isLoop', bound⟩
    · rw [isLoop] at returned
      cases returned
    · rw [isLoop] at isLoop'
      cases isLoop'
      omega
  rw [if_pos isEnd]
  have same (c' : ι) : (update before.calls c (.returned (calls c).n.toInt) c').written
      = (before.calls c').written := by
    by_cases mine : c' = c
    · rw [mine, update_self, isLoop, ← isEnd]
      exact Int.toNat_natCast i
    · rw [update_of_ne mine]
  refine ⟨?_, fun c' => ?_, fun chunk old => ?_, laid.ordered, fun c' => ?_⟩
  · simp only [same]
    exact laid.off
  · by_cases mine : c' = c
    · exact .inl (by rw [mine]; exact update_self ..)
    · simp only [update_of_ne mine]
      exact laid.running c'
  · exact (laid.stands chunk old).mono (Nat.le_refl _) (same _).ge (Nat.le_refl _) fun _ _ _ => rfl
  · exact (laid.whole c').trans (same c').symm

theorem Laid.other (laid : Laid sb inum calls first history before)
    (sound : Sound sb before.store.view) (allocated : Allocated sb before.store.view inum) {op : Op}
    {store : Store} (step : OpStep sb before.store op store) (away : ¬op.On inum)
    : Laid sb inum calls first ((.other op, before) :: history)
        { before with store := store } := by
  obtain ⟨_, same, bytes⟩ := (step.kept sound).others inum allocated away
  refine ⟨laid.off, laid.running, fun chunk old => ?_, laid.ordered, laid.whole⟩
  refine (laid.stands chunk old).mono (Nat.le_refl _) (Nat.le_refl _) ?_ fun k _ inside => ?_
  · exact (congrArg (fun dip => dip.size.toNat) same).ge
  · have limit := sound.size_le allocated
    exact bytes k (Nat.div_lt_of_lt_mul (Nat.mul_comm .. ▸ inside.trans_le limit))

-- Runs

/-- The disk is sound, and no call has failed or one of them has. -/
structure Sharing (sb : Superblock) (f : OpenFile) (calls : ι → WriteCall) (first : Nat)
    (history : List (WriteAction ι × Writers ι)) (s : Writers ι)
    : Prop where
  sound : Sound sb s.store.view
  allocated : Allocated sb s.store.view f.inum
  laid : Laid sb f.inum calls first history s ∨ ∃ c, s.calls c = .returned (-1)

theorem Sharing.step {first : Nat} {action : WriteAction ι}
    (sharing : Sharing sb f calls first history before)
    (step : WriteStep sb f calls before action after)
    : Sharing sb f calls first ((action, before) :: history) after := by
  obtain ⟨sound, allocated, laid⟩ := sharing
  cases action with
  | chunk c data =>
    obtain ⟨i, r, store, isLoop, more, run, rfl⟩ := step
    obtain ⟨sound', allocated', whole⟩ :=
      writeChunk_ensures sound allocated data _ before.off (chunkSize_le (calls c) i) _ _ run
    refine ⟨sound', allocated', ?_⟩
    by_cases failed : r.toInt ≠ ((calls c).chunkSize i : Nat)
    · refine .inr ⟨c, ?_⟩
      rw [Writers.wrote, if_pos failed]
      exact update_self ..
    · rcases laid with laid | ⟨c', returned⟩
      · have done := not_ne_iff.mp failed
        exact .inl (laid.chunk sound allocated isLoop more rfl done (whole done))
      · refine .inr ⟨c', ?_⟩
        have other : c' ≠ c := by
          rintro rfl
          rw [isLoop] at returned
          cases returned
        exact (update_of_ne other ..).trans returned
  | finish c =>
    obtain ⟨i, isLoop, last, rfl⟩ := step
    refine ⟨sound, allocated, ?_⟩
    rcases laid with laid | ⟨c', returned⟩
    · exact .inl (laid.finish isLoop last)
    · refine .inr ⟨c', ?_⟩
      have other : c' ≠ c := by
        rintro rfl
        rw [isLoop] at returned
        cases returned
      exact (update_of_ne other ..).trans returned
  | other op =>
    obtain ⟨away, store, taken, rfl⟩ := step
    have kept := taken.kept sound
    refine ⟨kept.sound, (kept.others _ allocated away).1, ?_⟩
    rcases laid with laid | returned
    · exact .inl (laid.other sound allocated taken away)
    · exact .inr returned

/-- Before the first step. -/
theorem Sharing.start {start : Writers ι} (nonneg : ∀ c, 0 ≤ (calls c).n.toInt)
    (sound : Sound sb start.store.view) (allocated : Allocated sb start.store.view f.inum)
    (entered : ∀ c, start.calls c = f.enter)
    : Sharing sb f calls start.off.toNat [] start := by
  refine ⟨sound, allocated, ?_⟩
  by_cases some : f.writable = true ∨ IsEmpty ι
  · have zero (c : ι) : start.calls c = .loop 0 := by
      rcases some with writable | none
      · rw [entered c, OpenFile.enter, if_pos writable]
      · exact none.elim c
    refine .inl ⟨?_, fun c => .inr ⟨0, zero c, nonneg c⟩, fun _ member => absurd member
      List.not_mem_nil, .nil, fun c => ?_⟩
    · simp only [zero, Progress.written, Finset.sum_const_zero, Nat.add_zero]
    · rw [zero c]
      rfl
  · obtain ⟨readOnly, notEmpty⟩ := not_or.mp some
    obtain ⟨c⟩ := not_isEmpty_iff.mp notEmpty
    exact .inr ⟨c, by rw [entered c, OpenFile.enter, if_neg readOnly]⟩

theorem Sharing.run {start final : Writers ι} {first : Nat}
    (sharing : Sharing sb f calls first [] start)
    (run : Run (WriteStep sb f calls) start history final)
    : Sharing sb f calls first history final := by
  induction run with
  | nil => exact sharing
  | next _ taken ih => exact ih.step taken

/-- When all calls have returned their `n`, which are not negative, the chunks cover different
places of the file, their bytes stand there, those of each call in order and all of them, and the
offset has moved by the sum of the `n`.
-/
theorem writers_lose_nothing {start final : Writers ι} (nonneg : ∀ c, 0 ≤ (calls c).n.toInt)
    (sound : Sound sb start.store.view) (allocated : Allocated sb start.store.view f.inum)
    (entered : ∀ c, start.calls c = f.enter)
    (run : Run (WriteStep sb f calls) start history final)
    (returned : ∀ c, final.calls c = .returned (calls c).n.toInt)
    : (chunks calls history).Pairwise (fun a b => Disjoint a.range b.range)
      ∧ (∀ chunk ∈ chunks calls history,
        chunk.start + chunk.bytes.length ≤ (dinodeAt sb final.store.view f.inum).size.toNat
        ∧ window (contentByte final.store.view (diskAddrs sb final.store.view) f.inum) chunk.start
          chunk.bytes.length = chunk.bytes)
      ∧ (chunks calls history).Pairwise Chunk.After
      ∧ (∀ c, (chunkBytes c (chunks calls history) : Int) = (calls c).n.toInt)
      ∧ (final.off.toNat : Int) = start.off.toNat + ∑ c, (calls c).n.toInt := by
  obtain ⟨_, _, outcome⟩ := (Sharing.start nonneg sound allocated entered).run run
  have laid : Laid sb f.inum calls start.off.toNat history final := by
    refine outcome.resolve_right ?_
    rintro ⟨c, failed⟩
    rw [returned c] at failed
    have := nonneg c
    have := Progress.returned.inj failed
    omega
  have value (c : ι) : ((final.calls c).written : Int) = (calls c).n.toInt := by
    rw [returned c]
    exact Int.toNat_of_nonneg (nonneg c)
  refine ⟨laid.ordered.imp fun after => ?_, fun chunk member => ?_, laid.ordered, fun c => ?_, ?_⟩
  · refine Finset.disjoint_left.mpr fun k inLater inEarlier => ?_
    rw [Chunk.range, Finset.mem_Ico] at inLater inEarlier
    have := after.1
    omega
  · exact ⟨(laid.stands chunk member).inside, (laid.stands chunk member).bytes⟩
  · rw [laid.whole c, value c]
  · rw [laid.off]
    push_cast
    simp only [value]

end

-- Runs of one and of two calls

theorem WriteStep.of_run {ι : Type} [DecidableEq ι] {f : OpenFile} {calls : ι → WriteCall}
    {before : Writers ι} {c : ι} {data : Data} {i src n1 : Nat} {off r : BitVec 32} {store : Store}
    (run : (writeChunk sb f.inum data.source src off n1).run before.store = .ok (r, store))
    (isLoop : before.calls c = .loop i) (more : (i : Int) < (calls c).n.toInt)
    (isSrc : (calls c).addr + i = src) (isOff : before.off = off)
    (isSize : (calls c).chunkSize i = n1)
    : WriteStep sb f calls before (.chunk c data) (before.wrote c i n1 r store) := by
  subst isSrc isOff isSize
  exact ⟨i, r, store, isLoop, more, run, rfl⟩

/-- A call on file 1 returns its count, which is not negative, and a chunk does not stand in the
file.
-/
def LosesBytes (sb : Superblock) (store : Store) : Prop :=
  ∃ (calls : Unit → WriteCall) (start : Writers Unit) (history : _) (final : Writers Unit),
    start.store = store ∧ (∀ c, 0 ≤ (calls c).n.toInt) ∧ Allocated sb store.view 1
    ∧ (∀ c, start.calls c = OpenFile.enter ⟨true, 1⟩)
    ∧ Run (WriteStep sb ⟨true, 1⟩ calls) start history final
    ∧ (∀ c, final.calls c = .returned (calls c).n.toInt)
    ∧ ∃ chunk ∈ chunks calls history,
      window (contentByte final.store.view (diskAddrs sb final.store.view) 1) chunk.start
        chunk.bytes.length ≠ chunk.bytes

/-- One chunk, with a byte that is another one in the end. -/
theorem losesBytes_of_chunk {store : Store} (off : BitVec 32) (mem : Nat → Byte) (n i : Nat)
    (small : n ≤ maxChunk) (here : i < n) (allocated : Allocated sb store.view 1)
    (written : (writeChunk sb 1 (kernelSource mem) 0 off n).Returns store fun r s =>
      r = BitVec.ofNat 32 n ∧ contentByte s.view (diskAddrs sb s.view) 1 (off.toNat + i) ≠ mem i)
    : LosesBytes sb store := by
  obtain ⟨_, after, run, rfl, lost⟩ := written
  have value : (BitVec.ofNat 32 n).toInt = n := by
    have : maxChunk = 3072 := rfl
    rw [BitVec.toInt_eq_toNat_of_lt] <;> simp only [BitVec.toNat_ofNat] <;> omega
  let calls : Unit → WriteCall := fun _ => ⟨0, BitVec.ofNat 32 n⟩
  let data : Data := ⟨_, mem, kernelSource_lawful mem⟩
  let start : Writers Unit := ⟨off, store, fun _ => .loop 0⟩
  have size : (calls ()).chunkSize 0 = n := by
    simp only [WriteCall.chunkSize, calls, value]
    omega
  have first : WriteStep sb ⟨true, 1⟩ calls start (.chunk () data)
      (start.wrote () 0 n (BitVec.ofNat 32 n) after) :=
    .of_run run rfl (by simp only [calls, value]; omega) rfl rfl size
  have there : (start.wrote () 0 n (BitVec.ofNat 32 n) after).calls () = .loop n := by
    simp [Writers.wrote, value]
  have second : WriteStep sb ⟨true, 1⟩ calls _ (.finish ()) _ :=
    ⟨n, there, by simp [calls, value], rfl⟩
  refine ⟨calls, start, _, _, rfl, fun _ => by simp [calls, value], allocated, fun _ => rfl,
    .next (.next .nil first) second, fun _ => by simp [calls, value], _, List.mem_singleton.mpr rfl,
    ?_⟩
  change window _ off.toNat (window mem (0 + 0) ((calls ()).chunkSize 0)).length
    ≠ window mem (0 + 0) ((calls ()).chunkSize 0)
  rw [size, window_length]
  intro same
  have byte := congrArg (fun bytes : List Byte => bytes.getD i 0) same
  simp only [window, List.getD_eq_getElem?_getD, List.getElem?_map, List.getElem?_range here,
    Option.map_some, Option.getD_some, Nat.zero_add] at byte
  exact lost byte

/-- File 1 lists block 5 twice. -/
def doubledDisk : Store :=
  let one : Dinode := ⟨2, 0, 0, 1, 2048, fun k => if k.val < 2 then 5 else 0⟩
  ⟨fun _ => 0, update (update (fun _ => (0 : Block)) 2 (setDinode 0 1 one)) 3 47, []⟩

/-- A call with count -1 returns it, and the offset stays. A call on a disk that is not consistent
loses bytes: where a file lists a block twice, where only the boot block is not zero, and where only
the layout is wrong.
-/
theorem counts_and_disks_lose_bytes
    : (∃ (calls : Unit → WriteCall) (start : Writers Unit) (history : _) (final : Writers Unit),
        Sound shortDisk start.store.view ∧ Allocated shortDisk start.store.view 1
        ∧ (∀ c, start.calls c = OpenFile.enter ⟨true, 1⟩)
        ∧ Run (WriteStep shortDisk ⟨true, 1⟩ calls) start history final
        ∧ (∀ c, final.calls c = .returned (calls c).n.toInt)
        ∧ (final.off.toNat : Int) ≠ start.off.toNat + ∑ c, (calls c).n.toInt)
      ∧ (NoHoles shortDisk doubledDisk.view ∧ LosesBytes shortDisk doubledDisk)
      ∧ (NoHoles longDisk bootedDisk.view ∧ Sound longDisk (update bootedDisk.view 0 0)
        ∧ LosesBytes longDisk bootedDisk)
      ∧ NoHoles mixedLayout mixedDisk.view ∧ mixedDisk.view 0 = 0
      ∧ (∀ inum < 3, ∀ k, diskAddrs mixedLayout mixedDisk.view inum k = 0)
      ∧ (∀ b < 10, marked mixedLayout mixedDisk.view b = true ↔ b < mixedLayout.dataStart)
      ∧ LosesBytes mixedLayout mixedDisk := by
  refine ⟨?_, ⟨by decide +kernel, ?_⟩, ⟨by decide +kernel, bootedDisk_sound, ?_⟩, by decide +kernel,
    mixedDisk_blank.1, mixedDisk_blank.2.1, mixedDisk_blank.2.2, ?_⟩
  · obtain ⟨store, sound, allocated⟩ := shortDisk_file
    let calls : Unit → WriteCall := fun _ => ⟨0, -1⟩
    let start : Writers Unit := ⟨0, store, fun _ => .loop 0⟩
    let final : Writers Unit := { start with calls := update start.calls () (.returned (-1)) }
    have step : WriteStep shortDisk ⟨true, 1⟩ calls start (.finish ()) final :=
      ⟨0, rfl, by decide, rfl⟩
    have sum : (0 : Int) ≠ 0 + ∑ c, (calls c).n.toInt := by decide
    exact ⟨calls, start, _, final, sound, allocated, fun _ => rfl, .next .nil step, fun _ => rfl,
      sum⟩
  · exact losesBytes_of_chunk 0 (fun i => if i = 1024 then 9 else 7) 1025 0 (by decide)
      (by decide) (by decide +kernel) (by decide +kernel)
  · exact losesBytes_of_chunk (266 * 1024) (fun i => if i = 1024 then 9 else 7) 1025 0
      (by decide) (by decide) (by decide +kernel) (by decide +kernel)
  · exact losesBytes_of_chunk 0 (fun _ => 1) 137 64 (by decide) (by decide) (by decide +kernel)
      (by decide +kernel)

/-- A call of 2 bytes and one of 3 bytes. -/
def twoCalls (second : Bool) : WriteCall := if second then ⟨10, 3⟩ else ⟨0, 2⟩

/-- The two calls write to a new file. -/
theorem two_writers_lose_nothing
    : ∃ (start : Writers Bool) (history : _) (final : Writers Bool),
      Run (WriteStep shortDisk ⟨true, 1⟩ twoCalls) start history final
      ∧ (∀ c, final.calls c = .returned (twoCalls c).n.toInt)
      ∧ (chunks twoCalls history).length = 2
      ∧ (final.off.toNat : Int) = start.off.toNat + ∑ c, (twoCalls c).n.toInt := by
  have writes : ((Op.ialloc 2).perform shortDisk).Returns blankDisk fun _ s₁ =>
      Allocated shortDisk s₁.view 1
      ∧ (writeChunk shortDisk 1 (kernelSource fun _ => 7) 0 0 2).Returns s₁ fun r s₂ =>
        r = 2 ∧ (writeChunk shortDisk 1 (kernelSource fun _ => 7) 10 2 3).Returns s₂
          fun r _ => r = 3 := by
    decide +kernel
  obtain ⟨_, s₁, run₁, allocated, _, s₂, run₂, rfl, _, s₃, run₃, rfl⟩ := writes
  have created : OpStep shortDisk blankDisk (.ialloc 2) s₁ := ⟨fun _ isOn => isOn.elim, run₁⟩
  have sound := (created.kept blankDisk_sound).sound
  let data : Data := ⟨_, fun _ => 7, kernelSource_lawful fun _ => 7⟩
  let start : Writers Bool := ⟨0, s₁, fun _ => .loop 0⟩
  let middle := start.wrote false 0 2 2 s₂
  let last := middle.wrote true 0 3 3 s₃
  have first : WriteStep shortDisk ⟨true, 1⟩ twoCalls start (.chunk false data) middle :=
    .of_run run₂ rfl (by decide) rfl rfl (by decide)
  have second : WriteStep shortDisk ⟨true, 1⟩ twoCalls middle (.chunk true data) last :=
    .of_run run₃ rfl (by decide) rfl rfl (by decide)
  let after : Writers Bool := { last with calls := update last.calls false (.returned 2) }
  let final : Writers Bool := { after with calls := update after.calls true (.returned 3) }
  have third : WriteStep shortDisk ⟨true, 1⟩ twoCalls last (.finish false) after :=
    ⟨2, rfl, by decide, rfl⟩
  have fourth : WriteStep shortDisk ⟨true, 1⟩ twoCalls after (.finish true) final :=
    ⟨3, rfl, by decide, rfl⟩
  have run := Run.next (.next (.next (.next .nil first) second) third) fourth
  have returned (c : Bool) : final.calls c = .returned (twoCalls c).n.toInt := by
    cases c <;> rfl
  exact ⟨start, _, final, run, returned, rfl,
    (writers_lose_nothing (by decide) sound allocated (fun _ => rfl) run returned).2.2.2.2⟩

end Xv6.Fs

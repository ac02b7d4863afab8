import Xv6.Fs.FileRead

/-! How much a `read` transfers. Where the count stays a positive number, it is a bound; a
negative count becomes a large unsigned one on its way to `readi` and to `rd_read`.
-/

namespace Xv6.Fs

open Library Disk Pipes

-- Copies

theorem placed_eq_nil {dst : Nat} {bytes : List Byte} : placed dst bytes = [] ↔ bytes = [] := by
  cases bytes <;> simp [placed]

/-- A copy stores a first part of the bytes, and succeeds if this is all of them. -/
def Sink.Lawful (sink : Sink) : Prop :=
  ∀ dst bytes, ∃ k ≤ bytes.length,
    sink dst bytes = (decide (k = bytes.length), placed dst (bytes.take k))

/-- The loop of `copyout`, by induction on its rounds: it stores a part of the bytes, and all if
it succeeds.
-/
theorem copyoutLoop_lawful (user : UserSpace) {rounds : Nat} {dstva : Nat} {src : List Byte}
    (enough : src.length ≤ rounds)
    : ∃ k ≤ src.length,
        copyoutLoop user rounds dstva src
          = (decide (k = src.length), placed dstva (src.take k)) := by
  induction rounds generalizing dstva src with
  | zero =>
    have empty : src = [] := List.eq_nil_of_length_eq_zero (by omega)
    subst empty
    exact ⟨0, Nat.le_refl _, rfl⟩
  | succ rounds ih =>
    unfold copyoutLoop
    split_ifs with empty writable
    · subst empty
      exact ⟨0, Nat.le_refl _, rfl⟩
    · have offset : dstva % PGSIZE < PGSIZE := Nat.mod_lt _ (by decide)
      set n := min (PGSIZE - dstva % PGSIZE) src.length with isMin
      have shorter : (src.drop n).length ≤ rounds := by
        rw [List.length_drop]
        omega
      obtain ⟨k, bound, rest⟩ := @ih (dstva - dstva % PGSIZE + PGSIZE) (src.drop n) shorter
      rw [List.length_drop] at bound rest
      refine ⟨n + k, by omega, ?_⟩
      dsimp only
      rw [rest]
      refine Prod.ext (by simp only [decide_eq_decide]; omega) ?_
      have length : (src.take n).length = n := by
        rw [List.length_take]
        omega
      rw [List.take_add, placed_append, length]
      -- The next page begins where the chunk ends, unless it was the last one.
      rcases Nat.lt_or_ge n src.length with more | last
      · rw [show dstva - dstva % PGSIZE + PGSIZE = dstva + n by
          have := Nat.mod_le dstva PGSIZE
          omega]
      · rw [List.drop_eq_nil_of_le last]
        simp [placed]
    · refine ⟨0, Nat.zero_le _, ?_⟩
      have : src.length ≠ 0 := fun none => empty (List.eq_nil_of_length_eq_zero none)
      simp [placed, this.symm]

/-- `copyout` stores a part of the bytes, and all if it succeeds. -/
theorem copyout_lawful (user : UserSpace) : Sink.Lawful (copyout user) :=
  fun _ _ => copyoutLoop_lawful user (Nat.le_refl _)

/-- Whether the first byte arrives depends on its page. -/
theorem copyout_nothing {user : UserSpace} {dst : Nat} {bytes : List Byte} (some : bytes ≠ [])
    : (copyout user dst bytes).2 = [] ↔ user.writable (dst / PGSIZE) = false := by
  obtain ⟨rounds, length⟩ := Nat.exists_eq_succ_of_ne_zero
    (Nat.ne_of_gt (List.length_pos_iff.mpr some))
  rw [copyout, length, copyoutLoop, if_neg some]
  have offset : dst % PGSIZE < PGSIZE := Nat.mod_lt _ (by decide)
  split_ifs with writable
  · simp only [writable, Bool.true_eq_false, iff_false]
    intro nothing
    have taken := placed_eq_nil.mp (List.append_eq_nil_iff.mp nothing).1
    have := congrArg List.length taken
    simp only [List.length_take, List.length_nil] at this
    omega
  · simpa using writable

/-- What a transfer that is asked for `n` bytes returns and has stored: at most `n` bytes, and
their number or -1.
-/
structure Transfer (dst n : Nat) (r : BitVec 32) (stores : List (Nat × Byte)) : Prop where
  stored : ∃ bytes, stores = placed dst bytes ∧ bytes.length ≤ n
    ∧ (r = BitVec.ofNat 32 bytes.length ∨ r = -1)

/-- A call that returns what it has stored. -/
theorem Transfer.of_bytes {dst n : Nat} {bytes : List Byte} (bound : bytes.length ≤ n)
    : Transfer dst n (BitVec.ofNat 32 bytes.length) (placed dst bytes) :=
  ⟨bytes, rfl, bound, .inl rfl⟩

/-- A call that fails after it has stored something. -/
theorem Transfer.failed {dst n : Nat} {bytes : List Byte} (bound : bytes.length ≤ n)
    : Transfer dst n (-1) (placed dst bytes) :=
  ⟨bytes, rfl, bound, .inr rfl⟩

theorem Transfer.nothing {dst n : Nat} : Transfer dst n (-1) [] :=
  ⟨[], rfl, Nat.zero_le _, .inr rfl⟩

/-- A further chunk after what is stored. -/
theorem Sink.Lawful.more {sink : Sink} (lawful : sink.Lawful) (dst : Nat)
    (stored bytes : List Byte)
    : ∃ k ≤ bytes.length,
        (sink (dst + stored.length) bytes).1 = decide (k = bytes.length)
        ∧ placed dst stored ++ (sink (dst + stored.length) bytes).2
          = placed dst (stored ++ bytes.take k) := by
  obtain ⟨k, bound, copied⟩ := lawful (dst + stored.length) bytes
  refine ⟨k, bound, ?_, ?_⟩
  · rw [copied]
  · rw [copied, placed_append]

-- readi

/-- A sequence that returns has run both its parts. -/
theorem runIn_bind {α β : Type} {outstanding : Bool} {p : Prog α} {next : α → Prog β}
    {s : Store} {result : β × Store} (run : runIn outstanding (p >>= next) s = .ok result)
    : ∃ value s', runIn outstanding p s = .ok (value, s')
      ∧ runIn outstanding (next value) s' = .ok result := by
  change runIn outstanding (p.bind next) s = .ok result at run
  induction p generalizing s with
  | done value => exact ⟨value, s, rfl, run⟩
  | bread blockno k ih => exact ih _ run
  | setData blockno data k ih => exact ih run
  | bwrite blockno k ih => exact ih run
  | brelse blockno k ih => exact ih run
  | bunpin blockno k ih => exact ih run
  | logWrite blockno k ih =>
    simp only [Prog.bind, runIn] at run ⊢
    split_ifs at run ⊢
    exact ih run
  | readLh k ih => exact ih _ run
  | setLh blocks k ih => exact ih run
  | panic message => cases run

theorem loadBytes_length (data : Block) (offset count : Nat)
    : (loadBytes data offset count).length = count := by
  simp [loadBytes]

variable {outstanding : Bool} {sb : Superblock} {sink : Sink} {s s' : Store}

/-- The loop stores what it is asked for at most, after what is there already. -/
theorem readiLoop_transfer (lawful : sink.Lawful) {dst off n rounds : Nat} {bytes : List Byte}
    {ip : Inode} {read : Read} (bound : bytes.length ≤ n)
    (run
      : runIn outstanding
          (readiLoop sb sink dst off n rounds bytes.length (placed dst bytes) ip) s
        = .ok (read, s'))
    : Transfer dst n read.tot read.stores ∧ ∃ more, read.stores = placed dst bytes ++ more := by
  induction rounds generalizing bytes ip s with
  | zero =>
    cases run
    exact ⟨.of_bytes bound, [], (List.append_nil _).symm⟩
  | succ rounds ih =>
    rw [readiLoop] at run
    split_ifs at run with more
    · obtain ⟨⟨addr, ip'⟩, s₁, _, run⟩ := runIn_bind run
      dsimp only at run
      split_ifs at run with zero
      · cases run
        exact ⟨.of_bytes bound, [], (List.append_nil _).symm⟩
      · obtain ⟨data, s₂, _, run⟩ := runIn_bind run
        set m := min (n - bytes.length) (BSIZE - (off + bytes.length) % BSIZE) with isMin
        obtain ⟨k, taken, ok, stored⟩ :=
          lawful.more dst bytes (loadBytes data ((off + bytes.length) % BSIZE) m)
        rw [loadBytes_length] at taken ok
        have length
            : (bytes ++ (loadBytes data ((off + bytes.length) % BSIZE) m).take k).length
              = bytes.length + k := by
          rw [List.length_append, List.length_take, loadBytes_length]
          omega
        rw [ok, stored] at run
        split_ifs at run with all
        · rw [decide_eq_true_eq] at all
          have whole : bytes.length + m = bytes.length + k := by rw [all]
          rw [whole, ← length] at run
          obtain ⟨transfer, rest, same⟩ := ih (by omega) run
          exact ⟨transfer, _, by rw [same, placed_append, List.append_assoc]⟩
        · cases run
          exact ⟨.failed (by omega), _, placed_append ..⟩
    · cases run
      exact ⟨.of_bytes bound, [], (List.append_nil _).symm⟩

/-- The loop stores nothing if and only if it does not get its first byte. -/
theorem readiLoop_nothing {user : UserSpace} {dst off n rounds : Nat} {ip : Inode} {read : Read}
    (positive : 0 < n)
    (run
      : runIn outstanding (readiLoop sb (copyout user) dst off n (rounds + 1) 0 [] ip) s
        = .ok (read, s'))
    : read.stores = []
      ↔ (∃ ip' s₁, runIn outstanding (bmap sb ip (off / BSIZE)) s = .ok ((0, ip'), s₁))
        ∨ user.writable (dst / PGSIZE) = false := by
  rw [readiLoop, if_pos positive] at run
  obtain ⟨⟨addr, ip'⟩, s₁, mapped, run⟩ := runIn_bind run
  rw [Nat.add_zero] at mapped run
  dsimp only at run
  split_ifs at run with zero
  · subst zero
    cases run
    exact iff_of_true rfl (.inl ⟨ip', s', mapped⟩)
  · have found : ¬∃ ip' s₁,
        runIn outstanding (bmap sb ip (off / BSIZE)) s = .ok ((0, ip'), s₁) := by
      rintro ⟨_, _, none⟩
      cases mapped.symm.trans none
      exact zero rfl
    obtain ⟨data, s₂, _, run⟩ := runIn_bind run
    set m := min (n - 0) (BSIZE - off % BSIZE) with isMin
    have offset : off % BSIZE < BSIZE := Nat.mod_lt _ (by decide)
    have some : loadBytes data (off % BSIZE) m ≠ [] := by
      intro empty
      have length := congrArg List.length empty
      rw [loadBytes_length, List.length_nil] at length
      omega
    rw [or_iff_right found, ← copyout_nothing some]
    obtain ⟨_, s₃, _, run⟩ := runIn_bind run
    rw [Nat.add_zero, List.nil_append] at run
    split_ifs at run with ok
    · -- A copy that succeeds has stored something, and the rest of the loop keeps it.
      obtain ⟨k, taken, copied⟩ := copyout_lawful user dst (loadBytes data (off % BSIZE) m)
      rw [copied, decide_eq_true_eq] at ok
      rw [copied, ok, List.take_length] at run ⊢
      have length : 0 + m = (loadBytes data (off % BSIZE) m).length := by
        rw [loadBytes_length, Nat.zero_add]
      rw [length] at run
      have made : placed dst (loadBytes data (off % BSIZE) m) ≠ [] :=
        fun none => some (placed_eq_nil.mp none)
      obtain ⟨_, more, same⟩ :=
        readiLoop_transfer (copyout_lawful user) (by rw [loadBytes_length]; omega) run
      rw [same]
      exact iff_of_false (fun none => made (List.append_eq_nil_iff.mp none).1) made
    · cases run
      rfl

/-- The count of `readi` after its second test. -/
def clamped (size off n : BitVec 32) : BitVec 32 := if size < off + n then size - off else n

/-- What `readi` comes to: nothing, or its loop with a count that stays in the file. -/
inductive Started (sb : Superblock) (ip : Inode) (sink : Sink) (dst : Nat) (off n : BitVec 32)
    : Prog Read → Prop
  | outside (test : ip.size < off ∨ 2 ^ 32 ≤ off.toNat + n.toNat)
    : Started sb ip sink dst off n (pure ⟨0, [], ip⟩)
  | inside (start : off ≤ ip.size) (fits : off.toNat + n.toNat < 2 ^ 32) (count : Nat)
    (bound : count ≤ n.toNat)
    (positive : 0 < count ↔ off < ip.size ∧ n ≠ 0)
    : Started sb ip sink dst off n (readiLoop sb sink dst off.toNat count count 0 [] ip)

/-- How `readi` begins: it refuses, has nothing to read, or enters its loop. -/
theorem readi_started (sb : Superblock) (ip : Inode) (sink : Sink) (dst : Nat)
    (off n : BitVec 32)
    : Started sb ip sink dst off n (readi sb ip sink dst off n) := by
  unfold readi
  by_cases outside : ip.size < off ∨ off + n < off
  · rw [if_pos outside]
    exact .outside (outside.imp_right add_lt_iff.mp)
  · rw [if_neg outside]
    obtain ⟨start, fits⟩ := not_or.mp outside
    rw [add_lt_iff, Nat.not_le] at fits
    refine .inside (BitVec.not_lt.mp start) fits (clamped ip.size off n).toNat ?_ ?_
    · unfold clamped
      split_ifs with past
      · rw [BitVec.lt_def, BitVec.toNat_add, Nat.mod_eq_of_lt fits] at past
        rw [BitVec.toNat_sub_of_le (BitVec.not_lt.mp start)]
        omega
      · exact Nat.le_refl _
    · have zero : n ≠ 0 ↔ 0 < n.toNat := by
        rw [Nat.pos_iff_ne_zero, ne_eq, BitVec.toNat_eq]
        rfl
      rw [zero, BitVec.lt_def]
      unfold clamped
      rw [BitVec.lt_def, Nat.not_lt] at start
      split_ifs with past
      · rw [BitVec.lt_def, BitVec.toNat_add, Nat.mod_eq_of_lt fits] at past
        rw [BitVec.toNat_sub_of_le (BitVec.le_def.mpr start)]
        omega
      · rw [BitVec.lt_def, BitVec.toNat_add] at past
        omega

-- rd_read

theorem Ramdisk.chunk_length {rd : Ramdisk} {pos m : Nat} {bytes : List Byte}
    (found : rd.chunk pos m = some bytes)
    : bytes.length = m := by
  unfold Ramdisk.chunk at found
  split at found
  · cases found
    simp
  · split_ifs at found
    cases found
    simp

/-- `rd_read` has no bytes for a hole when there is no spare page. -/
theorem Ramdisk.chunk_none {rd : Ramdisk} {pos m : Nat}
    : rd.chunk pos m = none
      ↔ rd.walk (pos / PGSIZE) = none ∧ rd.spare (pos / PGSIZE) = false := by
  unfold Ramdisk.chunk
  cases rd.walk (pos / PGSIZE) with
  | some page => simp
  | none => cases rd.spare (pos / PGSIZE) <;> simp

/-- The loop of `rd_read`, by induction on its rounds. -/
theorem rdReadLoop_transfer {rd : Ramdisk} (lawful : sink.Lawful) {dst off n rounds : Nat}
    {bytes : List Byte} (bound : bytes.length ≤ n)
    : Transfer dst n
        (rdReadLoop rd sink dst off n rounds bytes.length (placed dst bytes)).1
        (rdReadLoop rd sink dst off n rounds bytes.length (placed dst bytes)).2
      ∧ ∃ more, (rdReadLoop rd sink dst off n rounds bytes.length (placed dst bytes)).2
          = placed dst bytes ++ more := by
  induction rounds generalizing bytes with
  | zero => exact ⟨.of_bytes bound, [], (List.append_nil _).symm⟩
  | succ rounds ih =>
    rw [rdReadLoop]
    split_ifs with less
    · set m := min (PGSIZE - (off + bytes.length) % PGSIZE) (n - bytes.length)
      dsimp only
      cases found : rd.chunk (off + bytes.length) m with
      | none => exact ⟨.failed bound, [], (List.append_nil _).symm⟩
      | some chunk =>
        have chunkLength := Ramdisk.chunk_length found
        obtain ⟨k, taken, ok, stored⟩ := lawful.more dst bytes chunk
        have length : (bytes ++ chunk.take k).length = bytes.length + k := by
          rw [List.length_append, List.length_take]
          omega
        dsimp only
        rw [ok, stored]
        split_ifs with all
        · rw [decide_eq_true_eq] at all
          have whole : bytes.length + m = (bytes ++ chunk.take k).length := by omega
          rw [whole]
          obtain ⟨transfer, rest, same⟩ := @ih (bytes ++ chunk.take k) (by omega)
          exact ⟨transfer, _, by rw [same, placed_append, List.append_assoc]⟩
        · exact ⟨.failed (by omega), _, placed_append ..⟩
    · exact ⟨.of_bytes bound, [], (List.append_nil _).symm⟩

/-- When the loop stores nothing. -/
theorem rdReadLoop_nothing {rd : Ramdisk} {user : UserSpace} {dst off n rounds : Nat}
    (positive : 0 < n)
    : (rdReadLoop rd (copyout user) dst off n (rounds + 1) 0 []).2 = []
      ↔ (rd.walk (off / PGSIZE) = none ∧ rd.spare (off / PGSIZE) = false)
        ∨ user.writable (dst / PGSIZE) = false := by
  rw [rdReadLoop, if_pos positive]
  dsimp only
  rw [Nat.add_zero, Nat.add_zero, Nat.sub_zero, Nat.zero_add]
  simp only [List.nil_append]
  set m := min (PGSIZE - off % PGSIZE) n
  have offset : off % PGSIZE < PGSIZE := Nat.mod_lt _ (by decide)
  cases found : rd.chunk off m with
  | none => exact iff_of_true rfl (.inl (Ramdisk.chunk_none.mp found))
  | some chunk =>
    have chunkLength := Ramdisk.chunk_length found
    have some : chunk ≠ [] := by
      rintro rfl
      rw [List.length_nil] at chunkLength
      omega
    have notHole : ¬(rd.walk (off / PGSIZE) = none ∧ rd.spare (off / PGSIZE) = false) := by
      intro hole
      exact nomatch (Ramdisk.chunk_none.mpr hole).symm.trans found
    rw [or_iff_right notHole, ← copyout_nothing some]
    dsimp only
    split_ifs with ok
    · obtain ⟨k, taken, copied⟩ := copyout_lawful user dst chunk
      rw [copied, decide_eq_true_eq] at ok
      rw [copied, ok, List.take_length, ← chunkLength]
      have made : placed dst chunk ≠ [] := fun none => some (placed_eq_nil.mp none)
      obtain ⟨_, more, same⟩ :=
        @rdReadLoop_transfer (copyout user) rd (copyout_lawful user) dst off n rounds chunk
          (by omega)
      rw [same]
      exact iff_of_false (fun none => made (List.append_eq_nil_iff.mp none).1) made
    · rfl

/-- What `rd_read` comes to: nothing, or its loop with a count that stays on the disk. -/
inductive RdStarted (rd : Ramdisk) (sink : Sink) (dst : Nat) (off n : BitVec 32)
    : BitVec 32 × List (Nat × Byte) → Prop
  | outside (test : rd.loaded = false ∨ RD_SIZE ≤ off.toNat)
    : RdStarted rd sink dst off n (-1, [])
  | inside (loaded : rd.loaded = true) (start : off.toNat < RD_SIZE) (count : Nat)
    (fits : off.toNat + count ≤ RD_SIZE)
    (bound : 0 ≤ n.toInt → count ≤ n.toNat)
    (negative : n.toInt < 0 → (0 < count ↔ off.toNat + n.toNat < 2 ^ 32))
    : RdStarted rd sink dst off n (rdReadLoop rd sink dst off.toNat count count 0 [])

/-- How `rd_read` begins. -/
theorem rdRead_started (rd : Ramdisk) (sink : Sink) (dst : Nat) (off n : BitVec 32)
    : RdStarted rd sink dst off n (rdRead rd sink dst off n) := by
  unfold rdRead
  by_cases outside : rd.loaded = false ∨ RD_SIZE ≤ off.toNat
  · rw [if_pos outside]
    exact .outside outside
  · rw [if_neg outside]
    obtain ⟨loaded, start⟩ := not_or.mp outside
    rw [Nat.not_le] at start
    have size : RD_SIZE = 268435456 := rfl
    have small : (BitVec.ofNat 32 RD_SIZE - off).toNat = 268435456 - off.toNat :=
      BitVec.toNat_sub_of_le (BitVec.le_def.mpr (Nat.le_of_lt start))
    have sum := BitVec.toNat_add off n
    have count (x : BitVec 32) : x.toInt.toNat = if 2 * x.toNat < 2 ^ 32 then x.toNat else 0 := by
      rw [BitVec.toInt_eq_toNat_cond]
      have := x.isLt
      split_ifs <;> omega
    have sign : 0 ≤ n.toInt ↔ 2 * n.toNat < 2 ^ 32 := by
      rw [BitVec.toInt_eq_toNat_cond]
      split_ifs <;> omega
    rw [size] at start small
    refine .inside (by simpa using loaded) start _ ?_ ?_ ?_ <;> rw [size]
    · split_ifs with past <;> rw [count] <;> split_ifs <;> omega
    · split_ifs with past <;> rw [count] <;> split_ifs <;> omega
    · split_ifs with past <;> rw [count] <;> split_ifs <;> omega

-- piperead

section

variable {P : Type} [DecidableEq P]

/-- The copying loop of `piperead`, by induction on its rounds. -/
theorem copyLoop_transfer (lawful : sink.Lawful) (p : P) {addr rounds : Nat} {n : BitVec 32}
    {pipe : State P} {bytes : List Byte} (bound : bytes.length ≤ n.toInt.toNat)
    : Transfer addr n.toInt.toNat
        (copyLoop sink p addr n rounds bytes.length pipe (placed addr bytes)).1
        (copyLoop sink p addr n rounds bytes.length pipe (placed addr bytes)).2 := by
  induction rounds generalizing bytes pipe with
  | zero => exact .of_bytes bound
  | succ rounds ih =>
    set ch := pipe.pipe.data (ringIndex 512 pipe.pipe.nread) with isCh
    obtain ⟨k, taken, ok, stored⟩ := lawful.more addr bytes [ch]
    rw [copyLoop, ← isCh, ok]
    unfold copyRound
    split_ifs with more empty all
    · exact .of_bytes bound
    · rw [decide_eq_true_eq] at all
      rw [stored, all]
      have length : bytes.length + 1 = (bytes ++ [ch]).length := by simp
      rw [length]
      exact ih (by rw [← length]; omega)
    · rename_i first
      rw [List.eq_nil_of_length_eq_zero first]
      exact .nothing
    · exact .of_bytes bound
    · exact .of_bytes bound

/-- `piperead` returns what it has stored. -/
theorem piperead_transfer (lawful : sink.Lawful) (p : P) (pipe : Option (State P)) (addr : Nat)
    (n : BitVec 32)
    : Transfer addr n.toInt.toNat (piperead sink p pipe addr n).1
        (piperead sink p pipe addr n).2 := by
  cases pipe with
  | none => exact .nothing
  | some s =>
    have start : ([] : List Byte).length ≤ n.toInt.toNat := Nat.zero_le _
    exact copyLoop_transfer lawful p start

-- fileread

/-- A call of `fileread` keeps to its count: it stores at most `max(n, 0)` bytes, from `addr` on,
returns at most that, and moves the offset by what it returns.
-/
structure WithinCount (f : File) (addr : Nat) (n : BitVec 32) (read : FileRead) : Prop where
  stores : ∃ bytes, read.stores = placed addr bytes ∧ (bytes.length : Int) ≤ max n.toInt 0
  result : read.r.toInt ≤ max n.toInt 0
  off : f.type ≠ .pipe → (read.off.toNat : Int) = f.off.toNat + max read.r.toInt 0

/-- `bmap` has no block for the first byte to be read. -/
def NoBlock (outstanding : Bool) (sb : Superblock) (f : File) (s : Store) : Prop :=
  ∃ ip s', runIn outstanding (bmap sb f.ip (f.off.toNat / BSIZE)) s = .ok ((0, ip), s')

/-- The count is not negative, or it is not taken for a large one, or there is no first byte
that could be transferred.
-/
def KeepsCount (outstanding : Bool) (sb : Superblock) (w : World P) (f : File) (addr : Nat)
    (n : BitVec 32) (s : Store)
    : Prop :=
  0 ≤ n.toInt
  ∨ match f.type with
    | .pipe | .none => True
    | .inode =>
      2 ^ 32 ≤ f.off.toNat + n.toNat ∨ f.ip.size ≤ f.off
      ∨ NoBlock outstanding sb f s ∨ w.user.writable (addr / PGSIZE) = false
    | .device =>
      2 ^ 32 ≤ f.off.toNat + n.toNat ∨ w.ramdisk.loaded = false ∨ RD_SIZE ≤ f.off.toNat
      ∨ (w.ramdisk.walk (f.off.toNat / PGSIZE) = none
        ∧ w.ramdisk.spare (f.off.toNat / PGSIZE) = false)
      ∨ w.user.writable (addr / PGSIZE) = false

/-- A transfer keeps to the count that `fileread` was given, unless this is negative and
something is stored.
-/
theorem withinCount_iff {f : File} {addr m : Nat} {n : BitVec 32} {read : FileRead}
    (transfer : Transfer addr m read.r read.stores) (bound : 0 ≤ n.toInt → m ≤ n.toNat)
    (moves : f.type ≠ .pipe → read.off = f.advance read.r ∧ f.off.toNat + m < 2 ^ 32)
    : WithinCount f addr n read ↔ 0 ≤ n.toInt ∨ read.stores = [] := by
  obtain ⟨bytes, stored, length, result⟩ := transfer.stored
  have value := BitVec.toInt_eq_toNat_cond n
  have limit := n.isLt
  constructor
  · intro within
    obtain ⟨bytes', stored', length'⟩ := within.stores
    refine or_iff_not_imp_left.mpr fun negative => ?_
    have empty : bytes' = [] := List.eq_nil_of_length_eq_zero (by omega)
    rw [stored', empty]
    rfl
  · intro keeps
    have few : (bytes.length : Int) ≤ max n.toInt 0 := by
      rcases keeps with positive | nothing
      · have := bound positive
        split_ifs at value <;> omega
      · rw [stored, placed_eq_nil] at nothing
        rw [nothing]
        exact Int.le_max_right ..
    have returned : read.r.toInt = bytes.length ∨ read.r.toInt = -1 := by
      refine result.imp (fun same => ?_) (fun same => by rw [same]; rfl)
      rw [same, BitVec.toInt_eq_toNat_cond, BitVec.toNat_ofNat]
      split_ifs <;> omega
    refine ⟨⟨bytes, stored, few⟩, by omega, fun notPipe => ?_⟩
    obtain ⟨moved, fits⟩ := moves notPipe
    rw [moved, File.advance]
    have rValue := BitVec.toInt_eq_toNat_cond read.r
    split_ifs with positive
    · rw [BitVec.toNat_add]
      split_ifs at rValue <;> omega
    · omega

variable {w : World P} {f : File} {addr : Nat} {n : BitVec 32} {read : FileRead}

section

variable (readable : f.readable = true)
  (run : runIn outstanding (fileread sb w f addr n) s = .ok (read, s'))
include readable run

/-- Inode files. -/
theorem inode_withinCount_iff (isInode : f.type = .inode)
    : WithinCount f addr n read ↔ KeepsCount outstanding sb w f addr n s := by
  rw [fileread, if_neg (by simp [readable]), isInode] at run
  obtain ⟨inner, s₁, run, last⟩ := runIn_bind run
  cases last
  have started := readi_started sb f.ip (copyout w.user) addr f.off n
  generalize readi sb f.ip (copyout w.user) addr f.off n = program at run started
  rw [KeepsCount, isInode]
  cases started with
  | outside test =>
    cases run
    have transfer : Transfer addr 0 0 [] := ⟨[], rfl, Nat.le_refl _, .inl rfl⟩
    rw [withinCount_iff transfer (fun _ => Nat.zero_le _) (fun _ => ⟨rfl, f.off.isLt⟩)]
    refine or_congr_right (iff_of_true rfl ?_)
    exact test.elim (fun past => .inr (.inl (BitVec.le_of_lt past))) .inl
  | inside start fits count bound positive =>
    have first : ([] : List Byte).length ≤ count := Nat.zero_le _
    have transfer := (readiLoop_transfer (copyout_lawful w.user) first run).1
    rw [withinCount_iff transfer (fun _ => bound) (fun _ => ⟨rfl, by omega⟩)]
    refine or_congr_right' fun negative => ?_
    have notZero : n ≠ 0 := fun zero => negative (by rw [zero]; decide)
    rw [or_iff_right (Nat.not_le.mpr fits), ← BitVec.not_lt]
    cases count with
    | zero =>
      cases run
      exact iff_of_true rfl (.inl fun less => Nat.lt_irrefl 0 (positive.mpr ⟨less, notZero⟩))
    | succ rounds =>
      rw [or_iff_right (not_not_intro (positive.mp (Nat.succ_pos _)).1)]
      exact readiLoop_nothing (Nat.succ_pos _) run

/-- The ramdisk. -/
theorem ramdisk_withinCount_iff (isDevice : f.type = .device) (isRamdisk : f.major.toInt = RD_MAJOR)
    : WithinCount f addr n read ↔ KeepsCount outstanding sb w f addr n s := by
  rw [fileread, if_neg (by simp [readable]), isDevice] at run
  dsimp only at run
  rw [isRamdisk, if_neg (by decide), World.devsw, if_pos rfl] at run
  have nothing : Transfer addr 0 (-1) [] := .nothing
  have stays : f.advance (-1) = f.off := rfl
  rw [KeepsCount, isDevice]
  dsimp only
  cases loaded : w.ramdisk.loaded with
  | false =>
    rw [loaded] at run
    cases run
    rw [withinCount_iff nothing (fun _ => Nat.zero_le _) (fun _ => ⟨stays.symm, f.off.isLt⟩)]
    exact or_congr_right (iff_of_true rfl (.inr (.inl rfl)))
  | true =>
    rw [loaded, if_pos rfl] at run
    have started := rdRead_started w.ramdisk (copyout w.user) addr f.off n
    dsimp only at run
    generalize rdRead w.ramdisk (copyout w.user) addr f.off n = result at run started
    cases started with
    | outside test =>
      cases run
      rw [withinCount_iff nothing (fun _ => Nat.zero_le _) (fun _ => ⟨rfl, f.off.isLt⟩)]
      rw [loaded] at test
      exact or_congr_right (iff_of_true rfl (.inr (.inr (.inl (test.resolve_left nofun)))))
    | inside isLoaded start count fits bound negative =>
      cases run
      have first : ([] : List Byte).length ≤ count := Nat.zero_le _
      have transfer := (@rdReadLoop_transfer (copyout w.user) w.ramdisk
        (copyout_lawful w.user) addr f.off.toNat count count [] first).1
      have size : RD_SIZE = 268435456 := rfl
      rw [withinCount_iff transfer bound (fun _ => ⟨rfl, by omega⟩)]
      refine or_congr_right' fun isNegative => ?_
      have notMissing : ¬(true = false) := nofun
      rw [or_iff_right notMissing, or_iff_right (Nat.not_le.mpr start)]
      cases count with
      | zero => exact iff_of_true rfl (.inl (by omega))
      | succ rounds =>
        have noWrap : ¬2 ^ 32 ≤ f.off.toNat + n.toNat := by omega
        rw [or_iff_right noWrap]
        exact rdReadLoop_nothing (Nat.succ_pos _)

/-- Pipes. -/
theorem pipe_withinCount (isPipe : f.type = .pipe)
    : WithinCount f addr n read := by
  rw [fileread, if_neg (by simp [readable]), isPipe] at run
  have transfer := piperead_transfer (copyout_lawful w.user) w.p w.pipe addr n
  dsimp only at run
  cases run
  refine (withinCount_iff transfer (fun positive => ?_) (absurd isPipe)).mpr ?_
  · have := BitVec.toInt_eq_toNat_cond n
    split_ifs at this <;> omega
  · refine or_iff_not_imp_left.mpr fun negative => ?_
    obtain ⟨bytes, stored, bound, _⟩ := transfer.stored
    have empty : bytes = [] := List.eq_nil_of_length_eq_zero (by omega)
    rw [stored, empty]
    rfl

end

/-- A `fileread` from a file, from the ramdisk or from a pipe keeps to its count if and only if
this is not negative, or no byte could be transferred anyway.
-/
theorem fileread_within_count (readable : f.readable = true)
    (isRamdisk : f.type = .device → f.major.toInt = RD_MAJOR)
    (run : runIn outstanding (fileread sb w f addr n) s = .ok (read, s'))
    : WithinCount f addr n read ↔ KeepsCount outstanding sb w f addr n s := by
  cases type : f.type with
  | none =>
    rw [fileread, if_neg (by simp [readable]), type] at run
    cases run
  | pipe =>
    rw [KeepsCount, type]
    exact iff_of_true (pipe_withinCount readable run type) (.inr trivial)
  | inode => exact inode_withinCount_iff readable run type
  | device => exact ramdisk_withinCount_iff readable run type (isRamdisk type)

end

/-- A file of five bytes, in block 50. -/
def smallFile : File where
  type := .inode
  readable := true
  ip :=
    { type := 2, major := 0, minor := 0, nlink := 1, size := 5, inum := 7
      addrs := fun k => if k.val = 0 then 50 else 0 }
  off := 0
  major := 0

/-- A process whose first two pages can be written. -/
def smallWorld : World Unit where
  user :=
    { writable := fun page => decide (page < 2)
      bound := fun _ writable => Nat.lt_trans (of_decide_eq_true writable) (by decide) }
  ramdisk := ⟨false, fun _ => none, fun _ => true⟩
  others := fun _ => none
  p := ()
  pipe := none

def smallDisk : Superblock := ⟨1000, 200, 32, 45⟩

def emptyStore : Store := ⟨fun _ => 0, fun _ => 0, []⟩

theorem runIn_of_value {α : Type} {outstanding : Bool} {p : Prog α} {s : Store} {value : α}
    (returned : (runIn outstanding p s).toOption.map Prod.fst = some value)
    : ∃ s', runIn outstanding p s = .ok (value, s') := by
  cases run : runIn outstanding p s with
  | error message =>
    rw [run] at returned
    cases returned
  | ok result =>
    rw [run] at returned
    cases returned
    exact ⟨result.2, rfl⟩

theorem small_read_within_count
    : ∃ read s',
        runIn false (fileread smallDisk smallWorld smallFile 4096 3) emptyStore = .ok (read, s')
        ∧ KeepsCount false smallDisk smallWorld smallFile 4096 3 emptyStore
        ∧ WithinCount smallFile 4096 3 read := by
  have returned
      : (runIn false (fileread smallDisk smallWorld smallFile 4096 3) emptyStore).toOption.map
          Prod.fst
        = some ⟨3, 3, placed 4096 [0, 0, 0]⟩ := by
    decide +kernel
  obtain ⟨s', run⟩ := runIn_of_value returned
  have keeps : KeepsCount false smallDisk smallWorld smallFile 4096 3 emptyStore :=
    .inl (by decide)
  have notDevice : smallFile.type = .device → smallFile.major.toInt = RD_MAJOR := nofun
  exact ⟨_, s', run, keeps, (fileread_within_count rfl notDevice run).mpr keeps⟩

/-- A `read` of -1 bytes reads the whole file. -/
theorem negative_count_reads_file
    : ∃ read s',
        runIn false (fileread smallDisk smallWorld smallFile 4096 (-1)) emptyStore
          = .ok (read, s')
        ∧ read.r = 5 ∧ read.stores.length = 5 ∧ ¬WithinCount smallFile 4096 (-1) read := by
  have returned
      : (runIn false (fileread smallDisk smallWorld smallFile 4096 (-1)) emptyStore).toOption.map
          Prod.fst
        = some ⟨5, 5, placed 4096 [0, 0, 0, 0, 0]⟩ := by
    decide +kernel
  obtain ⟨s', run⟩ := runIn_of_value returned
  refine ⟨_, s', run, rfl, rfl, fun within => ?_⟩
  have result := within.result
  revert result
  decide

end Xv6.Fs

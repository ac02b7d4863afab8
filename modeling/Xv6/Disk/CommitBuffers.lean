import Xv6.Disk.Commit

/-! A commit needs one buffer besides those its transaction has pinned. It runs to its end exactly
when the transaction leaves one, and no block of the transaction is the log block it is copied to.
-/

namespace Xv6.Disk.Commit

open Library
open Disk.BufferCache

variable {log : Log} {pinned : List UInt32} {s after : Cache}

-- Both buffers of a round

/-- The commit holds a buffer of the log and the buffer of a pinned block. -/
structure Holding (log : Log) (pinned : List UInt32) (block : UInt32) (lbuf dbuf : Fin NBUF)
    (s : Cache) : Prop where
  working : Working log.dev pinned s
  first : s.point .log = .holding lbuf
  second : s.point .home = .holding dbuf
  caches : Caches s log.dev block dbuf

namespace Reading

variable {blockno block : UInt32} {lbuf : Fin NBUF}

theorem read (reading : Reading log pinned blockno lbuf s) (real : log.dev ≠ 0)
    (member : block ∈ pinned) (other : block ≠ blockno)
    : ∃ dbuf after, bread .home log.dev block s = .ok (dbuf, after)
      ∧ Holding log pinned block lbuf dbuf after := by
  have working := reading.working
  obtain ⟨dbuf, caches⟩ := working.cached block member
  have apart : dbuf ≠ lbuf := by
    rintro rfl
    exact other (caches.2.symm.trans reading.caches.2)
  have free : s.locked dbuf = false := by
    refine Bool.eq_false_iff.mpr fun locked => ?_
    obtain ⟨use, holding⟩ := (working.locks dbuf).mp locked
    cases use with
    | log =>
      rw [reading.first] at holding
      cases holding
      exact apart rfl
    | home =>
      rw [reading.second] at holding
      cases holding
  obtain ⟨after, run, moved⟩ := working.bread_cached reading.second
    (working.lookup_found real caches) free
  refine ⟨dbuf, after, run, moved.working, ?_, moved.own, ?_⟩
  · rw [moved.points]
    exact reading.first
  · exact ⟨(moved.keys dbuf).1.trans caches.1, (moved.keys dbuf).2.trans caches.2⟩

theorem stuck (reading : Reading log pinned blockno lbuf s) (real : log.dev ≠ 0)
    : bread .home log.dev blockno s = .error "waits for ever" := by
  have locked := (reading.working.locks lbuf).mpr ⟨.log, reading.first⟩
  exact Working.bread_locked reading.second
    (reading.working.lookup_found real reading.caches) locked

end Reading

/-- A round can run: there is a buffer for its log block, and that is another block. -/
def RoundRuns (log : Log) (s : Cache) (tail : Nat) (block : UInt32) : Prop :=
  HasBuffer s log.dev (slot log tail) ∧ block ≠ slot log tail

namespace Ready

variable {block : UInt32} {tail : Nat}

theorem reads (ready : Ready log pinned s) (real : log.dev ≠ 0) (member : block ∈ pinned)
    (runs : RoundRuns log s tail block)
    : ∃ lbuf dbuf after, Holding log pinned block lbuf dbuf after
      ∧ ∀ next : Fin NBUF → Fin NBUF → Code Unit,
          (bread .log log.dev (slot log tail) >>= fun lbuf =>
            bread .home log.dev block >>= next lbuf) s
          = next lbuf dbuf after := by
  obtain ⟨lbuf, middle, run, reading⟩ := ready.read runs.1
  obtain ⟨dbuf, after, run', holding⟩ := reading.read real member runs.2
  refine ⟨lbuf, dbuf, after, holding, fun next => ?_⟩
  rw [bind_ok run, bind_ok run']

theorem reads_fail (ready : Ready log pinned s) (real : log.dev ≠ 0)
    (stops : ¬RoundRuns log s tail block) (next : Fin NBUF → Fin NBUF → Code Unit)
    : ∃ message, (bread .log log.dev (slot log tail) >>= fun lbuf =>
        bread .home log.dev block >>= next lbuf) s = .error message := by
  by_cases room : HasBuffer s log.dev (slot log tail)
  · have same : block = slot log tail := not_not.mp fun other => stops ⟨room, other⟩
    obtain ⟨lbuf, middle, run, reading⟩ := ready.read room
    rw [bind_ok run, same]
    exact ⟨_, bind_error (reading.stuck real)⟩
  · exact ⟨_, bind_error (ready.read_fails room)⟩

end Ready

namespace Holding

variable {block : UInt32} {lbuf dbuf : Fin NBUF}

/-- A round of `write_log` ends with both buffers released. -/
theorem writeLog_ends (holding : Holding log pinned block lbuf dbuf s)
    : ∃ after, Ready log pinned after
      ∧ ∀ next : Code Unit, (do bwrite lbuf; brelse .home; brelse .log; next) s = next after := by
  have written := holding.working.bwrite_run holding.first
  obtain ⟨middle, run, released⟩ := holding.working.brelse_run holding.second
  have first : middle.point .log = .holding lbuf := by
    rw [released.points]
    exact holding.first
  obtain ⟨after, run', released'⟩ := released.working.brelse_run first
  refine ⟨after, ⟨released'.working, fun use => ?_⟩, fun next => ?_⟩
  · cases use with
    | log => exact released'.own
    | home =>
      rw [released'.points]
      exact released.own
  · rw [bind_ok written, bind_ok run, bind_ok run']

/-- A round of `install_trans` ends with both buffers released and one block unpinned. -/
theorem install_ends {rest : List UInt32} (holding : Holding log (block :: rest) block lbuf dbuf s)
    (real : log.dev ≠ 0) (distinct : (block :: rest).Nodup)
    : ∃ after, Ready log rest after
      ∧ ∀ next : Code Unit,
          (do bwrite dbuf; bunpin dbuf; brelse .log; brelse .home; next) s = next after := by
  have written := holding.working.bwrite_run holding.second
  have some : 0 < s.pins dbuf := by
    rw [holding.working.pins dbuf,
      if_pos ⟨holding.caches.1, holding.caches.2 ▸ List.mem_cons_self⟩]
    exact Nat.one_pos
  have unpinned : bunpin dbuf s = .ok ((),
      { s.decref dbuf with pins := Function.update s.pins dbuf (s.pins dbuf - 1) }) := by
    unfold bunpin
    rw [bind_ok (take_ok (.bunpin dbuf) some).1]
    rfl
  have working := holding.working.unpin distinct holding.caches real
  obtain ⟨middle, run, released⟩ := working.brelse_run holding.first
  have second : middle.point .home = .holding dbuf := by
    rw [released.points]
    exact holding.second
  obtain ⟨after, run', released'⟩ := released.working.brelse_run second
  refine ⟨after, ⟨released'.working, fun use => ?_⟩, fun next => ?_⟩
  · cases use with
    | log =>
      rw [released'.points]
      exact released.own
    | home => exact released'.own
  · rw [bind_ok written, bind_ok unpinned, bind_ok run, bind_ok run']

end Holding

-- Buffers that are left

/-- The pinned buffers are as many as the pinned blocks. -/
theorem Working.card_pinned {dev : UInt32} (working : Working dev pinned s) (real : dev ≠ 0)
    (distinct : pinned.Nodup)
    : (Finset.univ.filter fun b => s.pins b ≠ 0).card = pinned.length := by
  obtain ⟨order, sound⟩ := working.sound
  have pins : ∀ b, s.pins b ≠ 0 ↔ (s.buf b).dev = dev ∧ (s.buf b).blockno ∈ pinned := by
    intro b
    rw [working.pins b]
    split_ifs with key
    · simp [key]
    · simp [key]
  have blocks : (Finset.univ.filter fun b => s.pins b ≠ 0).image (fun b => (s.buf b).blockno)
      = pinned.toFinset := by
    ext block
    simp only [Finset.mem_image, Finset.mem_filter, Finset.mem_univ, true_and, List.mem_toFinset,
      pins]
    constructor
    · rintro ⟨b, ⟨_, member⟩, rfl⟩
      exact member
    · intro member
      obtain ⟨b, devs, rfl⟩ := working.cached block member
      exact ⟨b, ⟨devs, member⟩, rfl⟩
  have injective : Set.InjOn (fun b => (s.buf b).blockno)
      (Finset.univ.filter fun b => s.pins b ≠ 0 : Finset (Fin NBUF)) := by
    intro b first b' second same
    have first' := (pins b).mp (Finset.mem_filter.mp (Finset.mem_coe.mp first)).2
    have second' := (pins b').mp (Finset.mem_filter.mp (Finset.mem_coe.mp second)).2
    exact sound.unique b' b (second'.1 ▸ real) (first'.1.trans second'.1.symm) same
  rw [← Finset.card_image_of_injOn injective, blocks, List.toFinset_card_of_nodup distinct]

namespace Ready

/-- A transaction that is smaller than the cache leaves a buffer. -/
theorem room (ready : Ready log pinned s) (real : log.dev ≠ 0) (distinct : pinned.Nodup)
    (fewer : pinned.length < NBUF)
    : ∃ b, (s.buf b).refcnt = 0 := by
  obtain ⟨order, sound⟩ := ready.working.sound
  have card := ready.working.card_pinned real distinct
  obtain ⟨b, free⟩ : ∃ b, b ∉ Finset.univ.filter fun b => s.pins b ≠ 0 := by
    by_contra all
    push Not at all
    rw [Finset.eq_univ_iff_forall.mpr all, Finset.card_univ, Fintype.card_fin] at card
    omega
  have unpinned : s.pins b = 0 := by simpa using free
  have nobody : users s b = 0 := Finset.sum_eq_zero fun use _ => by rw [ready.idle use]; rfl
  refine ⟨b, ?_⟩
  rw [eq_zero_iff, sound.counted b, nobody, unpinned]

/-- A transaction as large as the cache leaves buffers for its own blocks only. -/
theorem full (ready : Ready log pinned s) (real : log.dev ≠ 0) (distinct : pinned.Nodup)
    (all : NBUF ≤ pinned.length) {blockno : UInt32} (buffer : HasBuffer s log.dev blockno)
    : blockno ∈ pinned := by
  obtain ⟨order, sound⟩ := ready.working.sound
  have card := ready.working.card_pinned real distinct
  have every : Finset.univ.filter (fun b => s.pins b ≠ 0) = Finset.univ := by
    refine Finset.eq_univ_of_card _ ?_
    have bound := Finset.card_le_univ (Finset.univ.filter fun b => s.pins b ≠ 0)
    rw [Fintype.card_fin] at bound ⊢
    omega
  have pinnedAll : ∀ b, s.pins b ≠ 0 := by
    intro b
    have member : b ∈ Finset.univ.filter fun b => s.pins b ≠ 0 := by
      rw [every]
      exact Finset.mem_univ b
    exact (Finset.mem_filter.mp member).2
  rcases buffer with ⟨b, unused⟩ | ⟨b, caches⟩
  · have counted := sound.counted b
    rw [unused] at counted
    change 0 = _ at counted
    have positive := pinnedAll b
    omega
  · have pins := pinnedAll b
    rw [ready.working.pins b] at pins
    have key := of_not_not fun not => pins (if_neg not)
    exact caches.2 ▸ key.2

end Ready

-- The parts of a commit

/-- No block is the log block it is copied to, from index `tail` on. -/
def Apart (log : Log) (tail : Nat) (blocks : List UInt32) : Prop :=
  ∀ i block, blocks[i]? = some block → block ≠ slot log (tail + i)

theorem Apart.head {tail : Nat} {block : UInt32} {rest : List UInt32}
    (apart : Apart log tail (block :: rest))
    : block ≠ slot log tail :=
  apart 0 block rfl

theorem Apart.tail {tail : Nat} {block : UInt32} {rest : List UInt32}
    (apart : Apart log tail (block :: rest))
    : Apart log (tail + 1) rest := by
  intro i block' found
  have later := apart (i + 1) block' found
  rwa [Nat.add_right_comm]

theorem Apart.cons {tail : Nat} {block : UInt32} {rest : List UInt32}
    (head : block ≠ slot log tail) (apart : Apart log (tail + 1) rest)
    : Apart log tail (block :: rest) := by
  intro i block' found
  cases i with
  | zero =>
    cases found
    exact head
  | succ i =>
    have later := apart i block' found
    rwa [Nat.add_right_comm] at later

namespace Ready

theorem writeLogLoop_runs (ready : Ready log pinned s) (real : log.dev ≠ 0)
    (distinct : pinned.Nodup) (fewer : pinned.length < NBUF) {tail : Nat} {rest : List UInt32}
    (part : rest ⊆ pinned) (apart : Apart log tail rest)
    : ∃ after, writeLogLoop log tail rest s = .ok ((), after) ∧ Ready log pinned after := by
  induction rest generalizing s tail with
  | nil => exact ⟨s, rfl, ready⟩
  | cons block rest ih =>
    obtain ⟨lbuf, dbuf, middle, holding, run⟩ := ready.reads real (part List.mem_cons_self)
      ⟨.inl (ready.room real distinct fewer), apart.head⟩
    obtain ⟨next, ready', ends⟩ := holding.writeLog_ends
    obtain ⟨after, rest', ready''⟩ := ih ready'
      (fun block' member => part (List.mem_cons_of_mem block member)) apart.tail
    refine ⟨after, ?_, ready''⟩
    exact (run _).trans ((ends _).trans rest')

/-- A `write_log` that ended had buffers for all its log blocks. -/
theorem of_writeLogLoop (ready : Ready log pinned s) (real : log.dev ≠ 0) {tail : Nat}
    {rest : List UInt32} (part : rest ⊆ pinned)
    (run : writeLogLoop log tail rest s = .ok ((), after))
    : Ready log pinned after ∧ Apart log tail rest
      ∧ (pinned.Nodup → NBUF ≤ pinned.length
        → ∀ i, i < rest.length → slot log (tail + i) ∈ pinned) := by
  induction rest generalizing s tail with
  | nil =>
    cases run
    refine ⟨ready, fun i block found => ?_, fun _ _ i less => ?_⟩
    · cases found
    · cases less
  | cons block rest ih =>
    by_cases runs : RoundRuns log s tail block
    · obtain ⟨lbuf, dbuf, middle, holding, reads⟩ :=
        ready.reads real (part List.mem_cons_self) runs
      obtain ⟨next, ready', ends⟩ := holding.writeLog_ends
      have later := (ends _).symm.trans ((reads _).symm.trans run)
      obtain ⟨ready'', apart, cached⟩ := ih ready'
        (fun block' member => part (List.mem_cons_of_mem block member)) later
      refine ⟨ready'', Apart.cons runs.2 apart, fun distinct all i less => ?_⟩
      cases i with
      | zero => exact ready.full real distinct all runs.1
      | succ i =>
        have member := cached distinct all i (Nat.lt_of_succ_lt_succ less)
        rwa [Nat.add_right_comm] at member
    · obtain ⟨message, stops⟩ := ready.reads_fail real runs
        (fun lbuf _ => do bwrite lbuf; brelse .home; brelse .log; writeLogLoop log (tail + 1) rest)
      have both := stops.symm.trans run
      cases both

theorem writeHead_runs (ready : Ready log pinned s) (room : HasBuffer s log.dev log.start)
    : ∃ after, writeHead log s = .ok ((), after) ∧ Ready log pinned after := by
  obtain ⟨buf, middle, run, reading⟩ := ready.read room
  have written := reading.working.bwrite_run reading.first
  obtain ⟨after, run', released⟩ := reading.working.brelse_run reading.first
  refine ⟨after, ?_, released.working, fun use => ?_⟩
  · unfold writeHead
    rw [bind_ok run, bind_ok written]
    exact run'
  · cases use with
    | log => exact released.own
    | home =>
      rw [released.points]
      exact reading.second

theorem of_writeHead (ready : Ready log pinned s) (run : writeHead log s = .ok ((), after))
    : HasBuffer s log.dev log.start := by
  by_contra none
  have stops : writeHead log s = .error "bget: no buffers" := bind_error (ready.read_fails none)
  rw [stops] at run
  cases run

theorem installLoop_runs (ready : Ready log rest s) (real : log.dev ≠ 0) (distinct : rest.Nodup)
    (fewer : rest.length < NBUF) {tail : Nat} (apart : Apart log tail rest)
    : ∃ after, installLoop log tail rest s = .ok ((), after) ∧ Ready log [] after := by
  induction rest generalizing s tail with
  | nil => exact ⟨s, rfl, ready⟩
  | cons block rest ih =>
    obtain ⟨lbuf, dbuf, middle, holding, run⟩ := ready.reads real List.mem_cons_self
      ⟨.inl (ready.room real distinct fewer), apart.head⟩
    obtain ⟨next, ready', ends⟩ := holding.install_ends real distinct
    obtain ⟨after, rest', ready''⟩ := ih ready' distinct.of_cons
      (Nat.lt_of_succ_lt fewer) apart.tail
    exact ⟨after, (run _).trans ((ends _).trans rest'), ready''⟩

end Ready

-- The commit

theorem Loaded.ready (loaded : Loaded log s) : Ready log log.lh s := by
  have pins : ∀ b, s.pins b
      = if (s.buf b).dev = log.dev ∧ (s.buf b).blockno ∈ log.lh then 1 else 0 := by
    intro b
    split_ifs with key
    · obtain ⟨b', caches, _, one⟩ := loaded.pinned _ key.2
      have real : (s.buf b).dev ≠ 0 := key.1 ▸ loaded.dev
      rw [← loaded.unique b b' real ⟨caches.1.trans key.1.symm, caches.2⟩, one]
    · refine (loaded.others b fun block member caches => key ?_).2
      exact ⟨caches.1, caches.2 ▸ member⟩
  have counts : ∀ b, (s.buf b).refcnt.toNat = s.pins b := by
    intro b
    by_cases key : (s.buf b).dev = log.dev ∧ (s.buf b).blockno ∈ log.lh
    · obtain ⟨b', caches, count, one⟩ := loaded.pinned _ key.2
      have real : (s.buf b).dev ≠ 0 := key.1 ▸ loaded.dev
      rw [← loaded.unique b b' real ⟨caches.1.trans key.1.symm, caches.2⟩, count, one]
      rfl
    · have free := loaded.others b fun block member caches => key
        ⟨caches.1, caches.2 ▸ member⟩
      rw [free.1, free.2]
      rfl
  obtain ⟨order, nodup, all, threads⟩ := loaded.listed
  have nobody : ∀ b, users s b = 0 := fun b =>
    Finset.sum_eq_zero fun use _ => by rw [loaded.idle use]; rfl
  refine ⟨⟨⟨order, nodup, all, threads, ?_, ?_⟩, ?_, ?_, ?_, pins⟩, loaded.idle⟩
  · intro b b' real devs blocks
    exact loaded.unique b b' real ⟨devs, blocks⟩
  · intro b
    rw [counts b, nobody b, Nat.zero_add]
  · intro b
    rw [loaded.unlocked b]
    constructor
    · intro same
      cases same
    · rintro ⟨use, holding⟩
      rw [loaded.idle use] at holding
      cases holding
  · intro use use' b holding
    rw [loaded.idle use] at holding
    cases holding
  · intro block member
    obtain ⟨b, caches, _⟩ := loaded.pinned block member
    exact ⟨b, caches⟩

theorem Ready.released (ready : Ready log [] s) (b : Fin NBUF)
    : (s.buf b).refcnt = 0 ∧ s.pins b = 0 := by
  obtain ⟨order, sound⟩ := ready.working.sound
  have unpinned : s.pins b = 0 := by simp [ready.working.pins b]
  have nobody : users s b = 0 := Finset.sum_eq_zero fun use _ => by rw [ready.idle use]; rfl
  refine ⟨?_, unpinned⟩
  rw [eq_zero_iff, sound.counted b, nobody, unpinned]

/-- The log blocks and the header of a full log are more than a transaction can hold. -/
theorem slots_exceed {blocks : List UInt32} (header : log.start ∈ blocks)
    (slots : ∀ i, i < NBUF → slot log i ∈ blocks)
    : NBUF < blocks.length := by
  have indices : ∀ i, i < NBUF → (UInt32.ofNat i).toNat = i := by
    intro i less
    exact UInt32.toNat_ofNat_of_lt' (less.trans (by decide))
  have nodup : (log.start :: (List.range NBUF).map (slot log)).Nodup := by
    rw [List.nodup_cons]
    constructor
    · intro member
      obtain ⟨i, less, same⟩ := List.mem_map.mp member
      have zero : UInt32.ofNat i + 1 = 0 := by
        have moved : log.start + (UInt32.ofNat i + 1) = log.start + 0 := by
          rw [← add_assoc, add_zero]
          exact same
        exact add_left_cancel moved
      have value := congrArg UInt32.toNat zero
      have small : i < 30 := List.mem_range.mp less
      rw [UInt32.toNat_add, indices i small] at value
      change (i + 1) % 4294967296 = 0 at value
      omega
    · refine List.Nodup.map_on ?_ List.nodup_range
      intro i first j second same
      have equal : UInt32.ofNat i = UInt32.ofNat j := add_left_cancel (add_right_cancel same)
      have value := congrArg UInt32.toNat equal
      rwa [indices i (List.mem_range.mp first), indices j (List.mem_range.mp second)] at value
  have below : log.start :: (List.range NBUF).map (slot log) ⊆ blocks := by
    intro block member
    rcases List.mem_cons.mp member with rfl | inside
    · exact header
    · obtain ⟨i, less, rfl⟩ := List.mem_map.mp inside
      exact slots i (List.mem_range.mp less)
  have bound := nodup.length_le_of_subset below
  simp only [List.length_cons, List.length_map, List.length_range] at bound
  omega

/-- A commit runs to its end and leaves no buffer pinned exactly when its transaction leaves a
buffer of the cache, and none of its blocks is the log block it is copied to.
-/
theorem commit_ends_iff (loaded : Loaded log s)
    : (∃ after, commit log s = .ok ((), after)
        ∧ ∀ b, (after.buf b).refcnt = 0 ∧ after.pins b = 0)
      ↔ log.lh.length < NBUF
        ∧ ∀ tail block, log.lh[tail]? = some block → block ≠ slot log tail := by
  have ready := loaded.ready
  have zero : Apart log 0 log.lh
      ↔ ∀ tail block, log.lh[tail]? = some block → block ≠ slot log tail := by
    simp only [Apart, Nat.zero_add]
  rw [← zero]
  constructor
  · rintro ⟨after, run, _⟩
    by_cases some : 0 < log.lh.length
    · rw [commit, if_pos some] at run
      obtain ⟨_, first, written, run⟩ := bind_eq_ok run
      obtain ⟨_, second, headed, run⟩ := bind_eq_ok run
      obtain ⟨ready', apart, cached⟩ := ready.of_writeLogLoop loaded.dev (List.Subset.refl _)
        written
      refine ⟨?_, apart⟩
      by_contra all
      rw [Nat.not_lt] at all
      have header := ready'.full loaded.dev loaded.distinct all (ready'.of_writeHead headed)
      have slots : ∀ i, i < NBUF → slot log i ∈ log.lh := by
        intro i less
        have member := cached loaded.distinct all i (less.trans_le all)
        rwa [Nat.zero_add] at member
      exact absurd loaded.fits (Nat.not_le.mpr (slots_exceed header slots))
    · have none : log.lh = [] := List.eq_nil_of_length_eq_zero (by omega)
      rw [none]
      refine ⟨by decide, fun i block found => ?_⟩
      cases found
  · rintro ⟨fewer, apart⟩
    by_cases some : 0 < log.lh.length
    · obtain ⟨first, written, ready₁⟩ := ready.writeLogLoop_runs loaded.dev loaded.distinct fewer
        (List.Subset.refl _) apart
      obtain ⟨second, headed, ready₂⟩ := ready₁.writeHead_runs
        (.inl (ready₁.room loaded.dev loaded.distinct fewer))
      obtain ⟨third, installed, ready₃⟩ := ready₂.installLoop_runs loaded.dev loaded.distinct fewer
        apart
      have erasing : Ready { log with lh := [] } [] third := ⟨ready₃.working, ready₃.idle⟩
      obtain ⟨after, erased, ready₄⟩ := erasing.writeHead_runs
        (.inl (ready₃.room loaded.dev List.nodup_nil (by decide)))
      refine ⟨after, ?_, ready₄.released⟩
      rw [commit, if_pos some]
      exact (bind_ok written).trans ((bind_ok headed).trans ((bind_ok installed).trans erased))
    · have none : log.lh = [] := List.eq_nil_of_length_eq_zero (by omega)
      rw [none] at ready
      exact ⟨s, by rw [commit, if_neg some]; rfl, ready.released⟩

/-- A cache whose first `n` buffers have been pinned by a transaction. -/
def pinnedCache (n : Nat) : Cache where
  buf b := if b.val < n then
      { valid := true, dev := 1, blockno := UInt32.ofNat (100 + b.val), refcnt := 1 }
    else {}
  links := binit ⟨id, id⟩
  locked _ := false
  point _ := .idle
  pins b := if b.val < n then 1 else 0

/-- The transaction that has pinned them, of a log that begins at block 2. -/
def transactionOf (n : Nat) : Log where
  start := 2
  dev := 1
  lh := (List.range n).map fun i => UInt32.ofNat (100 + i)

theorem block_inj {i j : Nat} (first : i < 30) (second : j < 30)
    (same : UInt32.ofNat (100 + i) = UInt32.ofNat (100 + j))
    : i = j := by
  have value := congrArg UInt32.toNat same
  rw [UInt32.toNat_ofNat_of_lt' (by change _ < 2 ^ 32; omega),
    UInt32.toNat_ofNat_of_lt' (by change _ < 2 ^ 32; omega)] at value
  omega

theorem pinnedCache_loaded {n : Nat} (fits : n ≤ NBUF)
    : Loaded (transactionOf n) (pinnedCache n) := by
  have booted : Booted ({ pinnedCache n with buf := fun _ => {}, pins := fun _ => 0 } : Cache) :=
    ⟨⟨_, rfl⟩, fun _ => rfl, fun _ => rfl, fun _ => rfl, fun _ => rfl⟩
  have sound := booted.sound
  have used {b : Fin NBUF} (real : ((pinnedCache n).buf b).dev ≠ 0) : b.val < n := by
    by_contra beyond
    exact real (by simp [pinnedCache, beyond])
  have real : (transactionOf n).dev ≠ 0 := show (1 : UInt32) ≠ 0 by decide
  refine ⟨real, ?_, ?_, ⟨_, sound.nodup, sound.all, sound.threads⟩, ?_, fun _ => rfl,
    fun _ => rfl, ?_, ?_⟩
  · refine List.Nodup.map_on ?_ List.nodup_range
    intro i first j second same
    exact block_inj ((List.mem_range.mp first).trans_le fits)
      ((List.mem_range.mp second).trans_le fits) same
  · rw [transactionOf, List.length_map, List.length_range]
    exact fits
  · intro b b' real caches
    have first := used real
    have second : b'.val < n := used (by rw [caches.1]; exact real)
    have same := caches.2
    simp only [pinnedCache, first, second] at same
    exact Fin.ext (block_inj b'.isLt b.isLt same)
  · intro block member
    obtain ⟨i, less, rfl⟩ := List.mem_map.mp member
    have small := List.mem_range.mp less
    refine ⟨⟨i, small.trans_le fits⟩, ?_⟩
    simp [Caches, pinnedCache, transactionOf, small]
  · intro b free
    by_cases small : b.val < n
    · refine (free _ (List.mem_map.mpr ⟨b.val, List.mem_range.mpr small, rfl⟩) ?_).elim
      simp [Caches, pinnedCache, transactionOf, small]
    · simp [pinnedCache, small]

/-- A transaction of 29 blocks is committed in a cache of 30 buffers. -/
theorem large_transaction_commits
    : (transactionOf 29).lh.length = 29
      ∧ ∃ after, commit (transactionOf 29) (pinnedCache 29) = .ok ((), after)
        ∧ ∀ b, (after.buf b).refcnt = 0 ∧ after.pins b = 0 := by
  refine ⟨by simp [transactionOf], ?_⟩
  refine (commit_ends_iff (pinnedCache_loaded (by decide))).mpr ⟨by simp [transactionOf], ?_⟩
  have apart : ∀ tail : Fin 29, UInt32.ofNat (100 + tail.val) ≠ slot (transactionOf 29) tail := by
    decide
  intro tail block found
  obtain ⟨less, same⟩ := List.getElem?_eq_some_iff.mp found
  have small : tail < 29 := by simpa [transactionOf] using less
  have value : block = UInt32.ofNat (100 + tail) := by simpa [transactionOf] using same.symm
  rw [value]
  exact apart ⟨tail, small⟩

/-- A transaction that fills the log leaves no buffer for the first log block. -/
theorem full_transaction_panics
    : ∃ log s, Loaded log s ∧ log.lh.length = Log.LOGBLOCKS
      ∧ commit log s = .error "bget: no buffers" := by
  have loaded := pinnedCache_loaded (n := 30) (by decide)
  have none : ¬HasBuffer (pinnedCache 30) (transactionOf 30).dev (slot (transactionOf 30) 0) := by
    have used : ∀ b, ((pinnedCache 30).buf b).refcnt ≠ 0 := by decide
    have absent : ∀ b, ((pinnedCache 30).buf b).blockno ≠ slot (transactionOf 30) 0 := by decide
    rintro (⟨b, unused⟩ | ⟨b, _, caches⟩)
    · exact used b unused
    · exact absent b caches
  refine ⟨_, _, loaded, List.length_map _, ?_⟩
  have stops : writeLog (transactionOf 30) (pinnedCache 30) = .error "bget: no buffers" :=
    bind_error (loaded.ready.read_fails none)
  exact bind_error stops

end Xv6.Disk.Commit

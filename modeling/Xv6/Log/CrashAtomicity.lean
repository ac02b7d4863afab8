import Xv6.Log.Redo

/-! A transaction reaches the disk as a whole or not at all, wherever `commit` is cut and
however often recovery is cut after it. The disk is always in one of two phases: settled,
with an empty header, or committed, with a header whose log blocks hold the transaction.
-/

namespace Xv6.Log

open Function Library Disk

variable {start tail : Nat}

/-- The blocks of the log: the header and `LOGBLOCKS` data blocks. -/
def InLog (start blockno : Nat) : Prop := start ≤ blockno ∧ blockno ≤ start + LOGBLOCKS

/-- The header is empty and every block outside the log holds `target`. -/
structure Settled (start : Nat) (target disk : Nat → Block) : Prop where
  empty : headerN (disk start) = 0
  outside : ∀ blockno, ¬InLog start blockno → disk blockno = target blockno

/-- The header names `blocks`, whose contents in `target` lie in the log; every other block
outside the log already holds `target`.
-/
structure Committed (start : Nat) (blocks : List Nat) (target disk : Nat → Block) : Prop where
  header : headerList (disk start) = blocks
  copies : ∀ i (bound : i < blocks.length), disk (start + i + 1) = target blocks[i]
  others : ∀ blockno, ¬InLog start blockno → blockno ∉ blocks → disk blockno = target blockno

-- The block writes of each function

/-- The writes of `write_log` from index `tail` on. -/
def logCopies (start tail : Nat) (content : Nat → Block) : List Nat → List (Nat × Block)
  | [] => []
  | home :: rest => (start + tail + 1, content home) :: logCopies start (tail + 1) content rest

/-- The writes of `install_trans` when the log blocks hold `target`. -/
def homeCopies (target : Nat → Block) (blocks : List Nat) : List (Nat × Block) :=
  blocks.map (fun home => (home, target home))

theorem logCopies_length (start tail : Nat) (content : Nat → Block) (blocks : List Nat)
    : (logCopies start tail content blocks).length = blocks.length := by
  induction blocks generalizing tail with
  | nil => rfl
  | cons home rest ih => simp [logCopies, ih]

theorem logCopies_congr {left right : Nat → Block} {blocks : List Nat}
    (same : ∀ home ∈ blocks, left home = right home)
    : logCopies start tail left blocks = logCopies start tail right blocks := by
  induction blocks generalizing tail with
  | nil => rfl
  | cons home rest ih =>
    rw [logCopies, logCopies, same home (List.mem_cons_self),
      ih (fun later member => same later (List.mem_cons_of_mem _ member))]

theorem logCopies_inLog {content : Nat → Block} {blocks : List Nat} {write : Nat × Block}
    (member : write ∈ logCopies start tail content blocks)
    : start + tail + 1 ≤ write.1 ∧ write.1 ≤ start + tail + blocks.length := by
  induction blocks generalizing tail with
  | nil => simp [logCopies] at member
  | cons home rest ih =>
    rcases List.mem_cons.mp member with rfl | later
    · simp
    · have bounds := ih later
      simp only [List.length_cons]
      omega

theorem applyWrites_logCopies (start tail : Nat) (content : Nat → Block) (blocks : List Nat)
    (disk : Nat → Block) (i : Nat) (bound : i < blocks.length)
    : applyWrites (logCopies start tail content blocks) disk (start + tail + i + 1)
      = content blocks[i] := by
  induction blocks generalizing tail disk i with
  | nil => simp at bound
  | cons home rest ih =>
    rw [logCopies, applyWrites_cons]
    cases i with
    | zero =>
      rw [applyWrites_other]
      · simp
      · intro write member
        have bounds := logCopies_inLog member
        omega
    | succ i =>
      rw [show start + tail + (i + 1) + 1 = start + (tail + 1) + i + 1 by omega]
      exact ih (tail + 1) _ i (by simpa using bound)

/-- Installing leaves `target` in the home blocks and nothing changed elsewhere. -/
theorem applyWrites_homeCopies (target : Nat → Block) (blocks : List Nat)
    (disk : Nat → Block) (blockno : Nat)
    : applyWrites (homeCopies target blocks) disk blockno
      = if blockno ∈ blocks then target blockno else disk blockno := by
  induction blocks generalizing disk with
  | nil => simp [homeCopies]
  | cons home rest ih =>
    have step := ih (update disk home (target home))
    simp only [homeCopies, List.map_cons, applyWrites_cons] at step ⊢
    rw [step]
    by_cases later : blockno ∈ rest
    · simp [later]
    · by_cases same : blockno = home
      · simp [same]
      · simp [same]

theorem writeHead_run (start : Nat) (s : Store)
    : (writeHead start).run s
      = .ok ((), { s with
          disk := update s.disk start (headerFor s.lh (s.view start))
          view := update s.view start (headerFor s.lh (s.view start)) })
      ∧ (writeHead start).writes s = [(start, headerFor s.lh (s.view start))] := by
  constructor
  · simp [writeHead, Prog.run_bind, headerFor]
  · simp [writeHead, Prog.writes_bind, headerFor]

/-- `write_log` copies the cached home blocks behind the header. -/
theorem writeLogFrom_run (start tail : Nat) (blocks : List Nat) (s : Store)
    (outside : ∀ home ∈ blocks, home ≤ start + tail ∨ start + tail + blocks.length < home)
    : (writeLogFrom start tail blocks).run s
      = .ok ((), { s with
          disk := applyWrites (logCopies start tail s.view blocks) s.disk
          view := applyWrites (logCopies start tail s.view blocks) s.view })
      ∧ (writeLogFrom start tail blocks).writes s = logCopies start tail s.view blocks := by
  induction blocks generalizing tail s with
  | nil => exact ⟨rfl, rfl⟩
  | cons home rest ih =>
    let copied : Store := { s with
      disk := update s.disk (start + tail + 1) (s.view home)
      view := update s.view (start + tail + 1) (s.view home) }
    have away : ∀ later ∈ rest,
        later ≤ start + (tail + 1) ∧ later ≠ start + tail + 1
          ∨ start + (tail + 1) + rest.length < later := by
      intro later member
      have bounds := outside later (List.mem_cons_of_mem _ member)
      simp only [List.length_cons] at bounds
      omega
    obtain ⟨run, writes⟩ := ih (tail + 1) copied
      (fun later member => (away later member).imp_left And.left)
    have same : logCopies start (tail + 1) copied.view rest
        = logCopies start (tail + 1) s.view rest := by
      apply logCopies_congr
      intro later member
      have other : later ≠ start + tail + 1 := by
        have bounds := away later member
        omega
      exact update_of_ne other _ _
    rw [same] at run writes
    constructor
    · simpa [writeLogFrom, Prog.run_bind, logCopies] using run
    · simpa [writeLogFrom, Prog.writes_bind, logCopies] using writes

/-- `install_trans` copies the log blocks to their homes. -/
theorem installTransFrom_run (start : Nat) (recovering : Bool) (tail : Nat)
    (blocks : List Nat) (target : Nat → Block) (s : Store)
    (outside : ∀ home ∈ blocks, home ≤ start + tail ∨ start + tail + blocks.length < home)
    (copies : ∀ i (bound : i < blocks.length), s.view (start + tail + i + 1) = target blocks[i])
    : (installTransFrom start recovering tail blocks).run s
      = .ok ((), { s with
          disk := applyWrites (homeCopies target blocks) s.disk
          view := applyWrites (homeCopies target blocks) s.view })
      ∧ (installTransFrom start recovering tail blocks).writes s
        = homeCopies target blocks := by
  induction blocks generalizing tail s with
  | nil => exact ⟨rfl, rfl⟩
  | cons home rest ih =>
    have first : s.view (start + tail + 1) = target home := copies 0 (by simp)
    let installed : Store := { s with
      disk := update s.disk home (target home)
      view := update s.view home (target home) }
    have next : ∀ i (bound : i < rest.length),
        installed.view (start + (tail + 1) + i + 1) = target rest[i] := by
      intro i bound
      have copy := copies (i + 1) (by simpa using bound)
      have away := outside home (List.mem_cons_self)
      simp only [List.length_cons] at away
      have other : start + (tail + 1) + i + 1 ≠ home := by omega
      simp only [installed]
      rw [update_of_ne other]
      simpa [Nat.add_assoc, Nat.add_comm, Nat.add_left_comm] using copy
    have below : ∀ later ∈ rest,
        later ≤ start + (tail + 1) ∨ start + (tail + 1) + rest.length < later := by
      intro later member
      have bounds := outside later (List.mem_cons_of_mem _ member)
      simp only [List.length_cons] at bounds
      omega
    obtain ⟨run, writes⟩ := ih (tail + 1) installed below next
    constructor
    · cases recovering <;>
        simpa [installTransFrom, Prog.run_bind, homeCopies, first, installed] using run
    · cases recovering <;>
        simpa [installTransFrom, Prog.writes_bind, homeCopies, first, installed]
          using writes

-- The two phases of the disk

section

variable {start : Nat} {blocks : List Nat} {target disk : Nat → Block} {header : Block}

theorem settled_of_header (empty : headerN header = 0)
    (outside : ∀ blockno, ¬InLog start blockno → disk blockno = target blockno)
    : Settled start target (update disk start header) := by
  refine ⟨by simpa using empty, ?_⟩
  intro blockno away
  have other : blockno ≠ start := by
    rintro rfl
    exact away ⟨Nat.le_refl _, Nat.le_add_right _ _⟩
  rw [update_of_ne other]
  exact outside blockno away

section

variable (committed : Committed start blocks target disk) (room : blocks.length ≤ LOGBLOCKS)
  (away : ∀ home ∈ blocks, ¬InLog start home)
include committed room away

/-- Any part of the installation leaves a committed disk committed. -/
theorem Committed.install_some (count : Nat)
    : Committed start blocks target
        (applyWrites ((homeCopies target blocks).take count) disk) := by
  have untouched : ∀ blockno, InLog start blockno ∨ blockno ∉ blocks →
      applyWrites ((homeCopies target blocks).take count) disk blockno = disk blockno := by
    intro blockno kept
    apply applyWrites_other
    intro write member same
    obtain ⟨home, homeMember, rfl⟩ := List.mem_map.mp (List.mem_of_mem_take member)
    subst same
    exact kept.elim (away _ homeMember) (fun absent => absent homeMember)
  refine ⟨?_, ?_, ?_⟩
  · rw [untouched start (Or.inl ⟨Nat.le_refl _, Nat.le_add_right _ _⟩)]
    exact committed.header
  · intro i bound
    rw [untouched (start + i + 1) (Or.inl ⟨by omega, by omega⟩)]
    exact committed.copies i bound
  · intro blockno outside absent
    rw [untouched blockno (Or.inr absent)]
    exact committed.others blockno outside absent

/-- Installing and clearing the header, cut after `count` writes. -/
theorem Committed.finish_cut (empty : headerN header = 0) (count : Nat)
    : if count ≤ blocks.length
      then Committed start blocks target
        (applyWrites ((homeCopies target blocks ++ [(start, header)]).take count) disk)
      else Settled start target
        (applyWrites ((homeCopies target blocks ++ [(start, header)]).take count) disk) := by
  have length : (homeCopies target blocks).length = blocks.length := by simp [homeCopies]
  split
  · rw [List.take_append_of_le_length (by omega)]
    exact committed.install_some room away count
  · rw [List.take_of_length_le (by simp [length]; omega), applyWrites_append]
    apply settled_of_header empty
    intro blockno outside
    rw [applyWrites_homeCopies]
    by_cases member : blockno ∈ blocks
    · simp [member]
    · simpa [member] using committed.others blockno outside member

end

end

-- Recovery

section

variable {start : Nat} {blocks : List Nat} {target disk : Nat → Block}

theorem outside_log (room : blocks.length ≤ LOGBLOCKS) (away : ∀ home ∈ blocks, ¬InLog start home)
    : ∀ home ∈ blocks, home ≤ start + 0 ∨ start + 0 + blocks.length < home := by
  intro home member
  have outside := away home member
  simp only [InLog] at outside
  omega

/-- `install_trans` copies the log blocks of the transaction to their homes. -/
theorem installTrans_run (recovering : Bool) {s : Store} (room : s.lh.length ≤ LOGBLOCKS)
    (away : ∀ home ∈ s.lh, ¬InLog start home)
    (copies : ∀ i (bound : i < s.lh.length), s.view (start + 0 + i + 1) = target s.lh[i])
    : (installTrans start recovering).run s
      = .ok ((), { s with
          disk := applyWrites (homeCopies target s.lh) s.disk
          view := applyWrites (homeCopies target s.lh) s.view })
      ∧ (installTrans start recovering).writes s = homeCopies target s.lh :=
  installTransFrom_run start recovering 0 s.lh target s (outside_log room away) copies

theorem headerFor_nil_empty (data : Block) : headerN (headerFor [] data) = 0 := by
  rw [headerFor_headerN [] data (by simp)]
  rfl

/-- Recovery installs what the header names and then clears it.
Witness: the four functions one after the other, each by its own run lemma.
-/
theorem recoverFromLog_run (target : Nat → Block) (room : blocks.length ≤ LOGBLOCKS)
    (away : ∀ home ∈ blocks, ¬InLog start home) (header : headerList (disk start) = blocks)
    (copies : ∀ i (bound : i < blocks.length), disk (start + i + 1) = target blocks[i])
    : (∃ s, (recoverFromLog start).run (.boot disk) = .ok ((), s))
      ∧ (recoverFromLog start).writes (.boot disk)
        = homeCopies target blocks ++ [(start, headerFor [] (disk start))] := by
  have read : (readHead start).run (.boot disk)
      = .ok ((), { Store.boot disk with lh := blocks }) := by
    rw [← header]
    rfl
  have readWrites : (readHead start).writes (.boot disk) = [] := by
    simp [readHead, Prog.writes_bind]
  have installed := installTrans_run true (s := { Store.boot disk with lh := blocks }) room away
    (by simpa [Store.boot] using copies)
  have kept : applyWrites (homeCopies target blocks) disk start = disk start := by
    rw [applyWrites_homeCopies]
    have inside : start ∉ blocks :=
      fun member => away start member ⟨Nat.le_refl _, Nat.le_add_right _ _⟩
    simp [inside]
  constructor
  · exact ⟨_, (Prog.run_bind_ok read).trans <|
      (Prog.run_bind_ok installed.1).trans <|
      (Prog.run_bind_ok (run_setLh _ _)).trans (writeHead_run start _).1⟩
  · rw [recoverFromLog, Prog.writes_bind_ok read, readWrites,
      Prog.writes_bind_ok installed.1, installed.2,
      Prog.writes_bind_ok (run_setLh _ _), (writeHead_run start _).2]
    simp [Store.boot, kept]

theorem Settled.recover_cut (settled : Settled start target disk) (count : Nat)
    : Settled start target ((recoverFromLog start).crashAfter (.boot disk) count) := by
  have header := headerList_of_zero settled.empty
  rw [Prog.crashAfter, (recoverFromLog_run disk (by simp) (by simp) header
    (by simp)).2]
  cases count with
  | zero => exact settled
  | succ count =>
    have cleared := settled_of_header (headerFor_nil_empty (disk start)) settled.outside
    simpa [homeCopies, Store.boot] using cleared

/-- Any number of recoveries, each cut after some number of its block writes. -/
inductive RecoveryAttempts (start : Nat) (disk : Nat → Block) : (Nat → Block) → Prop
  | none : RecoveryAttempts start disk disk
  | cut {before} (count : Nat) (attempts : RecoveryAttempts start disk before)
    : RecoveryAttempts start disk ((recoverFromLog start).crashAfter (.boot before) count)

theorem Settled.attempts (settled : Settled start target disk) {after : Nat → Block}
    (attempts : RecoveryAttempts start disk after)
    : Settled start target after := by
  induction attempts with
  | none => exact settled
  | cut count _ ih => exact ih.recover_cut count

theorem Settled.recovers (settled : Settled start target disk)
    : ∃ s,
        (recoverFromLog start).run (.boot disk) = .ok ((), s) ∧ Settled start target s.disk := by
  obtain ⟨⟨s, run⟩, writes⟩ := recoverFromLog_run disk (by simp) (by simp)
    (headerList_of_zero settled.empty) (by simp)
  refine ⟨s, run, ?_⟩
  have cut := settled.recover_cut ((recoverFromLog start).writes (.boot disk)).length
  rw [Prog.crashAfter, List.take_length] at cut
  rw [Prog.run_disk run]
  exact cut

section

variable (committed : Committed start blocks target disk) (room : blocks.length ≤ LOGBLOCKS)
  (away : ∀ home ∈ blocks, ¬InLog start home)
include committed room away

theorem Committed.recover_cut (count : Nat)
    : if count ≤ blocks.length
      then Committed start blocks target ((recoverFromLog start).crashAfter (.boot disk) count)
      else Settled start target ((recoverFromLog start).crashAfter (.boot disk) count) := by
  rw [Prog.crashAfter,
    (recoverFromLog_run target room away committed.header committed.copies).2]
  exact committed.finish_cut room away (headerFor_nil_empty _) count

theorem Committed.attempts {after : Nat → Block}
    (attempts : RecoveryAttempts start disk after)
    : Committed start blocks target after ∨ Settled start target after := by
  induction attempts with
  | none => exact Or.inl committed
  | cut count _ ih =>
    rcases ih with still | settled
    · have phase := still.recover_cut room away count
      split at phase
      · exact Or.inl phase
      · exact Or.inr phase
    · exact Or.inr (settled.recover_cut count)

/-- A completed recovery of a committed disk settles it on the transaction's contents. -/
theorem Committed.recovers
    : ∃ s,
        (recoverFromLog start).run (.boot disk) = .ok ((), s) ∧ Settled start target s.disk := by
  obtain ⟨⟨s, run⟩, writes⟩ :=
    recoverFromLog_run target room away committed.header committed.copies
  refine ⟨s, run, ?_⟩
  have cut := committed.recover_cut room away
    ((recoverFromLog start).writes (.boot disk)).length
  have past : ¬((recoverFromLog start).writes (.boot disk)).length ≤ blocks.length := by
    simp [writes, homeCopies]
  rw [if_neg past, Prog.crashAfter, List.take_length] at cut
  rw [Prog.run_disk run]
  exact cut

end

end

-- Commit

/-- A transaction that is ready to commit: its header fits the log, its home blocks lie
outside the log, and the header on disk is the empty one the last commit or recovery left.
-/
structure Pending (start : Nat) (s : Store) : Prop where
  room : s.lh.length ≤ LOGBLOCKS
  outside : ∀ home ∈ s.lh, ¬InLog start home
  words : ∀ home ∈ s.lh, home < 2 ^ 32
  empty : headerN (s.disk start) = 0

/-- What the disk holds once the transaction is installed. -/
def Store.committedTo (s : Store) (blockno : Nat) : Block :=
  if blockno ∈ s.lh then s.view blockno else s.disk blockno

section

variable {start : Nat} {s : Store} {count : Nat}

/-- The store once `write_log` has copied the transaction. -/
def Store.logged (start : Nat) (s : Store) : Store :=
  { s with
    disk := applyWrites (logCopies start 0 s.view s.lh) s.disk
    view := applyWrites (logCopies start 0 s.view s.lh) s.view }

theorem Pending.writeLog_run (pending : Pending start s)
    : (writeLog start).run s = .ok ((), Store.logged start s)
      ∧ (writeLog start).writes s = logCopies start 0 s.view s.lh :=
  writeLogFrom_run start 0 s.lh s (outside_log pending.room pending.outside)

theorem Pending.logCopies_away (pending : Pending start s) {blockno : Nat}
    (away : blockno = start ∨ ¬InLog start blockno) (count : Nat) (disk : Nat → Block)
    : applyWrites ((logCopies start 0 s.view s.lh).take count) disk blockno = disk blockno := by
  apply applyWrites_other
  intro write member same
  have bounds := logCopies_inLog (List.mem_of_mem_take member)
  have room := pending.room
  simp only [InLog] at away
  omega

/-- The header that `write_head` puts on disk for the transaction. -/
def Store.header (start : Nat) (s : Store) : Block :=
  headerFor s.lh ((Store.logged start s).view start)

section

variable (pending : Pending start s)
include pending

/-- Once the first `write_head` is on disk, the transaction is committed. -/
theorem Pending.committed
    : Committed start s.lh (Store.committedTo s)
        (update (Store.logged start s).disk start (Store.header start s)) := by
  refine ⟨?_, ?_, ?_⟩
  · simpa [Store.header] using headerList_headerFor s.lh _ pending.room pending.words
  · intro i bound
    rw [update_of_ne (by omega)]
    have copy := applyWrites_logCopies start 0 s.view s.lh s.disk i bound
    simpa [Store.committedTo, Store.logged] using copy
  · intro blockno outside absent
    have other : blockno ≠ start := by
      rintro rfl
      exact outside ⟨Nat.le_refl _, Nat.le_add_right _ _⟩
    have kept := pending.logCopies_away (Or.inr outside)
      (logCopies start 0 s.view s.lh).length s.disk
    rw [update_of_ne other]
    simpa [Store.committedTo, absent, Store.logged] using kept

/-- The block writes of a commit: the log blocks, the header, the home blocks and the empty
header.
-/
theorem Pending.commit_writes (some : 0 < s.lh.length)
    : ∃ header,
        headerN header = 0
        ∧ (commit start).writes s
          = logCopies start 0 s.view s.lh
            ++ (start, Store.header start s)
              :: (homeCopies (Store.committedTo s) s.lh ++ [(start, header)]) := by
  obtain ⟨logRun, logWrites⟩ := pending.writeLog_run
  let published : Store := { Store.logged start s with
    disk := update (Store.logged start s).disk start (Store.header start s)
    view := update (Store.logged start s).view start (Store.header start s) }
  have headRun : (writeHead start).run (Store.logged start s) = .ok ((), published) :=
    (writeHead_run start (Store.logged start s)).1
  have copies : ∀ i (bound : i < s.lh.length),
      published.view (start + 0 + i + 1) = Store.committedTo s s.lh[i] := by
    intro i bound
    have copy := applyWrites_logCopies start 0 s.view s.lh s.view i bound
    have other : start + 0 + i + 1 ≠ start := by omega
    simp only [published]
    rw [update_of_ne other]
    simpa [Store.committedTo, Store.logged] using copy
  have installed := installTrans_run false (s := published) pending.room pending.outside copies
  refine ⟨headerFor [] (applyWrites (homeCopies (Store.committedTo s) s.lh)
    published.view start), headerFor_nil_empty _, ?_⟩
  rw [commit, Prog.writes_bind_ok (run_readLh s), if_pos some, Prog.writes_bind_ok logRun,
    logWrites, Prog.writes_bind_ok headRun, (writeHead_run start (Store.logged start s)).2,
    Prog.writes_bind_ok installed.1, installed.2,
    Prog.writes_bind_ok (run_setLh _ _), (writeHead_run start _).2]
  simp [Store.header, Store.logged, published]

/-- Cutting a commit before the first `write_head` leaves the old contents settled. -/
theorem Pending.cut_before_head (early : count ≤ s.lh.length)
    : Settled start s.disk ((commit start).crashAfter s count) := by
  have shown : (commit start).crashAfter s count
      = applyWrites ((logCopies start 0 s.view s.lh).take count) s.disk := by
    rw [Prog.crashAfter]
    by_cases some : 0 < s.lh.length
    · obtain ⟨header, _, writes⟩ := pending.commit_writes some
      rw [writes, List.take_append_of_le_length (by rw [logCopies_length]; exact early)]
    · have none : s.lh = [] := List.eq_nil_of_length_eq_zero (by omega)
      simp [commit, Prog.writes_bind, none, logCopies]
  rw [shown]
  constructor
  · rw [pending.logCopies_away (Or.inl rfl)]
    exact pending.empty
  · intro blockno outside
    exact pending.logCopies_away (Or.inr outside) count s.disk

/-- Cutting a commit later leaves it committed or settled on the new contents. -/
theorem Pending.cut_after_head (some : 0 < s.lh.length) (late : s.lh.length < count)
    : Committed start s.lh (Store.committedTo s) ((commit start).crashAfter s count)
      ∨ Settled start (Store.committedTo s) ((commit start).crashAfter s count) := by
  obtain ⟨header, empty, writes⟩ := pending.commit_writes some
  obtain ⟨rest, rfl⟩ : ∃ rest, count = s.lh.length + (rest + 1) :=
    ⟨count - s.lh.length - 1, by omega⟩
  have length := logCopies_length start 0 s.view s.lh
  have phase := pending.committed.finish_cut pending.room pending.outside empty rest
  have shown : (commit start).crashAfter s (s.lh.length + (rest + 1))
      = applyWrites ((homeCopies (Store.committedTo s) s.lh ++ [(start, header)]).take rest)
          (update (Store.logged start s).disk start (Store.header start s)) := by
    rw [Prog.crashAfter, writes, ← length, List.take_length_add_append,
      applyWrites_append]
    rfl
  rw [shown]
  split at phase
  · exact Or.inl phase
  · exact Or.inr phase

end

/-- Crash atomicity of `commit`. Cut it after any number of block writes, cut any number of
recoveries, and let one recovery complete: outside the log the disk is unchanged when the
first `write_head` had not reached it, and otherwise holds the whole transaction.
-/
theorem commit_crash_atomic (start : Nat) (s : Store) (pending : Pending start s)
    (count : Nat) {disk : Nat → Block}
    (attempts : RecoveryAttempts start ((commit start).crashAfter s count) disk)
    : ∃ s',
        (recoverFromLog start).run (.boot disk) = .ok ((), s')
        ∧ headerN (s'.disk start) = 0
        ∧ ∀ blockno,
            ¬InLog start blockno
            → s'.disk blockno
              = if ((writeLog start).writes s).length < count ∧ blockno ∈ s.lh
                then s.view blockno else s.disk blockno := by
  have logged : ((writeLog start).writes s).length = s.lh.length := by
    rw [pending.writeLog_run.2, logCopies_length]
  rw [logged]
  by_cases reached : s.lh.length < count
  · by_cases some : 0 < s.lh.length
    · obtain ⟨s', run, settled⟩ : ∃ s',
          (recoverFromLog start).run (.boot disk) = .ok ((), s')
          ∧ Settled start (Store.committedTo s) s'.disk := by
        rcases pending.cut_after_head some reached with committed | settled
        · rcases committed.attempts pending.room pending.outside attempts with still | done
          · exact still.recovers pending.room pending.outside
          · exact done.recovers
        · exact (settled.attempts attempts).recovers
      refine ⟨s', run, settled.empty, ?_⟩
      intro blockno outside
      simpa [reached, Store.committedTo] using settled.outside blockno outside
    · have none : s.lh = [] := List.eq_nil_of_length_eq_zero (by omega)
      have idle : (commit start).crashAfter s count = (commit start).crashAfter s 0 := by
        simp [Prog.crashAfter, commit, Prog.writes_bind, none]
      rw [idle] at attempts
      obtain ⟨s', run, settled⟩ :=
        ((pending.cut_before_head (Nat.zero_le _)).attempts attempts).recovers
      refine ⟨s', run, settled.empty, ?_⟩
      intro blockno outside
      simpa [none] using settled.outside blockno outside
  · obtain ⟨s', run, settled⟩ :=
      ((pending.cut_before_head (by omega)).attempts attempts).recovers
    refine ⟨s', run, settled.empty, ?_⟩
    intro blockno outside
    simpa [reached] using settled.outside blockno outside

end

/-- Three modified blocks over an empty disk, with the log at block 2. -/
def threeBlocks : Store where
  disk := fun _ => 0
  view := fun blockno => BitVec.ofNat 8192 blockno
  lh := [60, 40, 50]

/-- A crash right after the first `write_head`, then a recovery cut after two of its writes, and
another one cut after its first: the last recovery still delivers all three blocks, and no other.
-/
theorem threeBlocks_recover
    : ∃ s',
        (recoverFromLog 2).run (.boot
          ((recoverFromLog 2).crashAfter (.boot ((recoverFromLog 2).crashAfter (.boot
            ((commit 2).crashAfter threeBlocks 4)) 2)) 1))
          = .ok ((), s')
        ∧ ∀ blockno, 33 ≤ blockno
          → s'.disk blockno
            = if blockno ∈ threeBlocks.lh then BitVec.ofNat 8192 blockno else 0 := by
  have homes {home : Nat} (member : home ∈ threeBlocks.lh) : 33 ≤ home ∧ home < 2 ^ 32 := by
    simp only [threeBlocks, List.mem_cons, List.not_mem_nil, or_false] at member
    omega
  have away {blockno : Nat} (above : 33 ≤ blockno) : ¬InLog 2 blockno := fun inside => by
    have := inside.2
    simp only [LOGBLOCKS, MAXOPBLOCKS] at this
    omega
  have pending : Pending 2 threeBlocks := {
    room := by decide
    outside := fun home member => away (homes member).1
    words := fun home member => (homes member).2
    empty := getField_zero 0 32
  }
  have logged : ((writeLog 2).writes threeBlocks).length = 3 := by
    rw [pending.writeLog_run.2, logCopies_length]
    rfl
  obtain ⟨s', run, _, contents⟩ := commit_crash_atomic 2 threeBlocks pending 4
    (.cut 1 (.cut 2 (.none : RecoveryAttempts 2 ((commit 2).crashAfter threeBlocks 4) _)))
  refine ⟨s', run, fun blockno above => ?_⟩
  rw [contents blockno (away above), logged]
  simp [threeBlocks]

end Xv6.Log

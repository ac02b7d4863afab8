import Xv6.Disk.BufferRecency
import Xv6.Library.Fallible
import Xv6.Log.Redo

/-! The commit of `kernel/log.c` on the buffer cache. It uses two buffers at a time, one for a
block of the log and one for a block of the transaction; what is written through them is in
`Xv6.Log.Redo`. A commit that has to wait for a buffer it has locked itself waits for ever.
-/

namespace Xv6.Disk.Commit

open Function Library
open Disk.BufferCache

variable {point : Point}

inductive Use where
  | log
  | home
  deriving DecidableEq

theorem Use.all (use : Use) : use ∈ [Use.log, Use.home] := by
  cases use <;> simp

instance : Fintype Use := Fintype.ofList [.log, .home] Use.all

abbrev Cache : Type := State Use

/-- Code over the buffer cache; an error is a panic. -/
abbrev Code : Type → Type := StateT Cache (Except String)

/-- `struct log`: where the log is, and the blocks of the transaction in `lh`. -/
structure Log where
  start : UInt32
  dev : UInt32
  lh : List UInt32

/-- Takes the next step, if that is ever possible: nobody else is at work. -/
def take (action : Action Use) : Code Outcome := fun s =>
  if Enabled s action then .ok (s.run action) else .error "waits for ever"

/-- The rest of `bread` once `bget` has found a buffer. -/
def lockAndFill (use : Use) (b : Fin NBUF) : Code (Fin NBUF) := do
  let _ ← take (.acquiresleep use)
  if ((← get).buf b).valid then
    return b
  else
    let _ ← take (.fill use)
    return b

def bread (use : Use) (dev blockno : UInt32) : Code (Fin NBUF) := do
  match ← take (.bget use dev blockno) with
  | .cached b | .recycled b => lockAndFill use b
  | .noBuffers => throw "bget: no buffers"
  | .endless | .done => throw "bget does not end"

def bwrite (b : Fin NBUF) : Code Unit := do
  if (← get).locked b then return () else throw "bwrite"

def brelse (use : Use) : Code Unit := do
  let _ ← take (.releasesleep use)
  let _ ← take (.brelse use)

def bunpin (b : Fin NBUF) : Code Unit := do
  let _ ← take (.bunpin b)

def writeLogLoop (log : Log) (tail : Nat) : List UInt32 → Code Unit
  | [] => return ()
  | block :: rest => do
      let lbuf ← bread .log log.dev (log.start + UInt32.ofNat tail + 1)
      let _ ← bread .home log.dev block
      bwrite lbuf
      brelse .home
      brelse .log
      writeLogLoop log (tail + 1) rest

def writeLog (log : Log) : Code Unit := writeLogLoop log 0 log.lh

def writeHead (log : Log) : Code Unit := do
  let buf ← bread .log log.dev log.start
  bwrite buf
  brelse .log

/-- The loop of `install_trans(0)`. -/
def installLoop (log : Log) (tail : Nat) : List UInt32 → Code Unit
  | [] => return ()
  | block :: rest => do
      let _ ← bread .log log.dev (log.start + UInt32.ofNat tail + 1)
      let dbuf ← bread .home log.dev block
      bwrite dbuf
      bunpin dbuf
      brelse .log
      brelse .home
      installLoop log (tail + 1) rest

def installTrans (log : Log) : Code Unit := installLoop log 0 log.lh

def commit (log : Log) : Code Unit :=
  if 0 < log.lh.length then do
    writeLog log
    writeHead log
    installTrans log
    writeHead { log with lh := [] }
  else
    return ()

/-- Buffer `b` caches the block. -/
def Caches (s : Cache) (dev blockno : UInt32) (b : Fin NBUF) : Prop :=
  (s.buf b).dev = dev ∧ (s.buf b).blockno = blockno

/-- A transaction is ready for its commit: each of its blocks is in the cache with the
reference that `log_write` has taken, and no other buffer is in use.
-/
structure Loaded (log : Log) (s : Cache) : Prop where
  dev : log.dev ≠ 0
  distinct : log.lh.Nodup
  fits : log.lh.length ≤ Log.LOGBLOCKS
  listed : ∃ order : List (Fin NBUF), order.Nodup ∧ (∀ b, b ∈ order) ∧ s.links.Threads order
  unique : ∀ b b', (s.buf b).dev ≠ 0 → Caches s (s.buf b).dev (s.buf b).blockno b' → b' = b
  idle : ∀ use, s.point use = .idle
  unlocked : ∀ b, s.locked b = false
  pinned : ∀ block ∈ log.lh, ∃ b, Caches s log.dev block b
    ∧ (s.buf b).refcnt = 1 ∧ s.pins b = 1
  others : ∀ b, (∀ block ∈ log.lh, ¬Caches s log.dev block b)
    → (s.buf b).refcnt = 0 ∧ s.pins b = 0

-- The state of the cache during a commit

/-- `pinned` are the blocks that are still pinned; a buffer is locked when the commit has it. -/
structure Working (dev : UInt32) (pinned : List UInt32) (s : Cache) : Prop where
  sound : ∃ order, Sound s order
  locks : ∀ b, s.locked b = true ↔ ∃ use, s.point use = .holding b
  alone : ∀ use use' b, s.point use = .holding b → s.point use' = .holding b → use' = use
  cached : ∀ block ∈ pinned, ∃ b, Caches s dev block b
  pins : ∀ b, s.pins b = if (s.buf b).dev = dev ∧ (s.buf b).blockno ∈ pinned then 1 else 0

namespace Working

variable {dev : UInt32} {pinned : List UInt32} {s after : Cache} {b : Fin NBUF}

/-- There are two users of buffers. -/
theorem users_le (s : Cache) (b : Fin NBUF) : users s b ≤ 2 := by
  have each : ∀ use ∈ Finset.univ, (s.point use).weight b ≤ 1 := by
    intro use _
    cases s.point use with
    | idle => exact Nat.zero_le 1
    | waiting c | holding c | releasing c => exact Bool.toNat_le _
  exact (Finset.sum_le_card_nsmul _ _ 1 each).trans_eq rfl

/-- Their counts do not overflow. -/
theorem roomy (working : Working dev pinned s) : Roomy s := by
  intro b
  obtain ⟨order, sound⟩ := working.sound
  have counted := sound.counted b
  have few := users_le s b
  have pins : s.pins b ≤ 1 := by
    rw [working.pins b]
    split_ifs <;> omega
  omega

/-- A step that leaves the keys, the pins and the locks alone. -/
theorem keep (working : Working dev pinned s) (sound : ∃ order, Sound after order)
    (keys : ∀ b, (after.buf b).dev = (s.buf b).dev ∧ (after.buf b).blockno = (s.buf b).blockno)
    (pins : after.pins = s.pins) (locked : after.locked = s.locked)
    (held : ∀ use b, after.point use = .holding b ↔ s.point use = .holding b)
    : Working dev pinned after := by
  refine ⟨sound, ?_, ?_, ?_, ?_⟩
  · intro b
    simp only [locked, held]
    exact working.locks b
  · intro use use' b
    simp only [held]
    exact working.alone use use' b
  · intro block member
    obtain ⟨b, caches⟩ := working.cached block member
    exact ⟨b, (keys b).1.trans caches.1, (keys b).2.trans caches.2⟩
  · intro b
    rw [pins, (keys b).1, (keys b).2]
    exact working.pins b

variable {use : Use}

theorem held_goTo {old point : Point} (here : s.point use = old) (before : ∀ b, old ≠ .holding b)
    (next : ∀ b, point ≠ .holding b) (use' : Use) (b : Fin NBUF)
    : update s.point use point use' = .holding b ↔ s.point use' = .holding b := by
  by_cases own : use' = use
  · subst own
    rw [update_self, here]
    exact ⟨fun same => (next b same).elim, fun same => (before b same).elim⟩
  · rw [update_of_ne own]

section

variable (working : Working dev pinned s) (sound : ∃ order, Sound after order)
include working sound

/-- The buffer that is recycled is not pinned, and neither is the block it is for. -/
theorem recycle {dev' blockno : UInt32}
    (recycled : after.buf = update s.buf b
      { valid := false, dev := dev', blockno := blockno, refcnt := 1 })
    (unused : s.pins b = 0) (absent : ∀ c, ¬Caches s dev' blockno c) (pins : after.pins = s.pins)
    (locked : after.locked = s.locked)
    (held : ∀ use b, after.point use = .holding b ↔ s.point use = .holding b)
    : Working dev pinned after := by
  have others : ∀ c, c ≠ b → after.buf c = s.buf c := by
    intro c other
    rw [recycled, update_of_ne other]
  have own : after.buf b = { valid := false, dev := dev', blockno := blockno, refcnt := 1 } := by
    rw [recycled, update_self]
  refine ⟨sound, ?_, ?_, ?_, ?_⟩
  · intro c
    simp only [locked, held]
    exact working.locks c
  · intro use use' c
    simp only [held]
    exact working.alone use use' c
  · intro block member
    obtain ⟨c, caches⟩ := working.cached block member
    have other : c ≠ b := by
      rintro rfl
      have one := working.pins c
      rw [if_pos ⟨caches.1, caches.2.symm ▸ member⟩, unused] at one
      cases one
    refine ⟨c, ?_⟩
    rw [Caches, others c other]
    exact caches
  · intro c
    rw [pins]
    by_cases here : c = b
    · subst here
      have fresh : ¬(dev' = dev ∧ blockno ∈ pinned) := by
        rintro ⟨rfl, member⟩
        obtain ⟨c', caches⟩ := working.cached blockno member
        exact absent c' caches
      rw [unused, own, if_neg fresh]
    · rw [others c here]
      exact working.pins c

/-- The commit takes a lock that nobody has. -/
theorem locks_buffer (waiting : s.point use = .waiting b) (free : s.locked b = false)
    (state : after = { s.goTo use (.holding b) with locked := update s.locked b true })
    : Working dev pinned after := by
  subst state
  have nobody : ∀ use', s.point use' ≠ .holding b := by
    intro use' holding
    have locked := (working.locks b).mpr ⟨use', holding⟩
    rw [free] at locked
    cases locked
  have points : ∀ use', use' ≠ use → (s.goTo use (.holding b)).point use' = s.point use' :=
    fun use' other => update_of_ne other _ _
  have own : (s.goTo use (.holding b)).point use = .holding b := update_self _ _ _
  refine ⟨sound, ?_, ?_, working.cached, working.pins⟩
  · intro c
    by_cases here : c = b
    · subst here
      simp only [update_self, true_iff]
      exact ⟨use, own⟩
    · simp only [update_of_ne here]
      rw [working.locks c]
      constructor
      · rintro ⟨use', holding⟩
        have other : use' ≠ use := by
          rintro rfl
          rw [waiting] at holding
          cases holding
        exact ⟨use', (points use' other).trans holding⟩
      · rintro ⟨use', holding⟩
        have other : use' ≠ use := by
          rintro rfl
          rw [show (s.goTo use' (.holding b)).point use' = .holding b from own] at holding
          cases holding
          exact here rfl
        exact ⟨use', (points use' other).symm.trans holding⟩
  · intro use₁ use₂ c first second
    by_cases here₁ : use₁ = use
    · by_cases here₂ : use₂ = use
      · rw [here₁, here₂]
      · have second' := (points use₂ here₂).symm.trans second
        rw [here₁] at first
        cases own.symm.trans first
        exact (nobody use₂ second').elim
    · have first' := (points use₁ here₁).symm.trans first
      by_cases here₂ : use₂ = use
      · rw [here₂] at second
        cases own.symm.trans second
        exact (nobody use₁ first').elim
      · exact working.alone use₁ use₂ c first' ((points use₂ here₂).symm.trans second)

/-- The commit gives a lock back. -/
theorem unlocks_buffer (holding : s.point use = .holding b)
    (state : after
      = { s.goTo use (.releasing b) with locked := update s.locked b false })
    : Working dev pinned after := by
  subst state
  have others : ∀ use' c, (s.goTo use (.releasing b)).point use' = .holding c
      ↔ use' ≠ use ∧ s.point use' = .holding c := by
    intro use' c
    by_cases here : use' = use
    · simp [State.goTo, here]
    · simp [State.goTo, here]
  refine ⟨sound, ?_, ?_, working.cached, working.pins⟩
  · intro c
    simp only [others]
    by_cases here : c = b
    · subst here
      simp only [update_self]
      constructor
      · intro same
        cases same
      · rintro ⟨use', other, also⟩
        exact (other (working.alone use use' c holding also)).elim
    · simp only [update_of_ne here]
      rw [working.locks c]
      constructor
      · rintro ⟨use', also⟩
        refine ⟨use', ?_, also⟩
        rintro rfl
        rw [holding] at also
        cases also
        exact here rfl
      · rintro ⟨use', _, also⟩
        exact ⟨use', also⟩
  · intro use₁ use₂ c
    simp only [others]
    exact fun first second => working.alone use₁ use₂ c first.2 second.2

end

/-- `bunpin` takes one block off the pinned ones. -/
theorem unpin {block : UInt32} {rest : List UInt32} (working : Working dev (block :: rest) s)
    (distinct : (block :: rest).Nodup) (caches : Caches s dev block b) (real : dev ≠ 0)
    : Working dev rest
        { s.decref b with pins := update s.pins b (s.pins b - 1) } := by
  obtain ⟨order, sound⟩ := working.sound
  have fresh : block ∉ rest := (List.nodup_cons.mp distinct).1
  have one : s.pins b = 1 := by
    rw [working.pins b, if_pos ⟨caches.1, caches.2 ▸ List.mem_cons_self⟩]
  have keys := key_decref s b
  refine ⟨⟨order, sound.unpinned (by omega)⟩, working.locks, working.alone, ?_, ?_⟩
  · intro block' member
    obtain ⟨c, caches'⟩ := working.cached block' (List.mem_cons_of_mem block member)
    exact ⟨c, (keys c).1.trans caches'.1, (keys c).2.trans caches'.2⟩
  · intro c
    simp only [(keys c).1, (keys c).2]
    by_cases here : c = b
    · subst here
      rw [update_self, one, if_neg]
      rintro ⟨_, member⟩
      exact fresh (caches.2 ▸ member)
    · rw [update_of_ne here, working.pins c]
      by_cases same : (s.buf c).dev = dev
      · have other : (s.buf c).blockno ≠ block := by
          intro also
          have dev' : (s.buf c).dev = (s.buf b).dev := same.trans caches.1.symm
          have blockno' : (s.buf c).blockno = (s.buf b).blockno := also.trans caches.2.symm
          exact here (sound.unique b c (caches.1 ▸ real) dev' blockno')
        simp [other]
      · simp [same]

/-- `brelse` leaves the blocks that are cached. -/
theorem brelse_keys (s : Cache) (use : Use) (b c : Fin NBUF)
    : ((s.brelse use b).buf c).dev = (s.buf c).dev
      ∧ ((s.brelse use b).buf c).blockno = (s.buf c).blockno := by
  have kept := key_decref s b c
  unfold State.brelse
  dsimp only
  split_ifs <;> exact kept

theorem brelse_same (s : Cache) (use : Use) (b : Fin NBUF)
    : (s.brelse use b).pins = s.pins ∧ (s.brelse use b).locked = s.locked
      ∧ (s.brelse use b).point = update s.point use .idle := by
  unfold State.brelse
  dsimp only
  split_ifs <;> exact ⟨rfl, rfl, rfl⟩

/-- Every step but `bpin` and `bunpin` keeps what is pinned. -/
theorem step (working : Working dev pinned s) {entry : Action Use × Outcome}
    (taken : Step s entry after)
    (plain : ∀ b, entry.1 ≠ .bpin b ∧ entry.1 ≠ .bunpin b)
    : Working dev pinned after := by
  obtain ⟨order, sound⟩ := working.sound
  have sound' : ∃ order, Sound after order := ⟨_, sound.step working.roomy taken⟩
  cases taken.change with
  | @cached use _ _ b idle found =>
    refine working.keep sound' (key_incref s b) rfl rfl ?_
    exact held_goTo (s := s) idle (by simp) (by simp)
  | @recycled use _ _ b idle absent found =>
    have unused : s.pins b = 0 := by
      have counted := sound.counted b
      rw [(sound.last_unused found).1] at counted
      change 0 = _ at counted
      omega
    refine working.recycle sound' rfl unused (sound.not_cached absent) rfl rfl ?_
    exact held_goTo (s := s) idle (by simp) (by simp)
  | noBuffers none => exact working
  | endless circles => exact working
  | @locks use b waiting =>
    obtain ⟨c, waiting', free⟩ := taken.1
    cases waiting.symm.trans waiting'
    exact working.locks_buffer sound' waiting free rfl
  | @fills use b holding =>
    refine working.keep sound' ?_ rfl rfl fun _ _ => Iff.rfl
    intro c
    by_cases here : c = b
    · subst here
      simp [State.setBuf]
    · simp [State.setBuf, here]
  | unlocks holding => exact working.unlocks_buffer sound' holding rfl
  | @releases use b releasing =>
    obtain ⟨pins, locked, points⟩ := brelse_same s use b
    refine working.keep sound' (brelse_keys s use b) pins locked ?_
    rw [points]
    exact held_goTo releasing (by simp) (by simp)
  | @pins b => exact ((plain b).1 rfl).elim
  | @unpins b pinned => exact ((plain b).2 rfl).elim

end Working

-- Reading and releasing blocks

variable {dev : UInt32} {pinned : List UInt32} {s after : Cache}

/-- An action that is enabled is taken. -/
theorem take_ok (action : Action Use) (enabled : Enabled s action)
    : take action s = .ok (s.run action)
      ∧ Step s (action, (s.run action).1) (s.run action).2 :=
  ⟨if_pos enabled, enabled, rfl⟩

/-- A use goes on to `point`, and all buffers keep their blocks. -/
structure Moved (dev : UInt32) (pinned : List UInt32) (s : Cache) (use : Use) (point : Point)
    (after : Cache) : Prop where
  working : Working dev pinned after
  points : after.point = update s.point use point
  keys : ∀ c, (after.buf c).dev = (s.buf c).dev ∧ (after.buf c).blockno = (s.buf c).blockno

theorem Moved.own {use : Use} (moved : Moved dev pinned s use point after)
    : after.point use = point := by
  rw [moved.points, update_self]

/-- Moves of one user in a row. -/
theorem Moved.trans {use : Use} {next : Point} {last : Cache}
    (first : Moved dev pinned s use point after) (second : Moved dev pinned after use next last)
    : Moved dev pinned s use next last where
  working := second.working
  points := by rw [second.points, first.points, update_idem]
  keys c := ⟨(second.keys c).1.trans (first.keys c).1, (second.keys c).2.trans (first.keys c).2⟩

namespace Working

variable {b : Fin NBUF} {dev' blockno : UInt32}

variable {use : Use}

section

variable (working : Working dev pinned s)
include working

/-- `acquiresleep` of a free buffer. -/
theorem take_acquiresleep (waiting : s.point use = .waiting b) (free : s.locked b = false)
    : ∃ after, take (.acquiresleep use) s = .ok (.done, after)
      ∧ Moved dev pinned s use (.holding b) after := by
  obtain ⟨run, taken⟩ := take_ok (.acquiresleep use) ⟨b, waiting, free⟩
  have locked : s.run (.acquiresleep use)
      = (.done, { s.goTo use (.holding b) with locked := update s.locked b true }) := by
    simp only [State.run, waiting]
  have working' := working.step taken (by simp)
  rw [locked] at run working'
  exact ⟨_, run, working', rfl, fun c => ⟨rfl, rfl⟩⟩

theorem take_fill (holding : s.point use = .holding b)
    : ∃ after, take (.fill use) s = .ok (.done, after)
      ∧ Moved dev pinned s use (.holding b) after := by
  obtain ⟨run, taken⟩ := take_ok (.fill use) ⟨b, holding⟩
  have filled : s.run (.fill use) = (.done, s.setBuf b { s.buf b with valid := true }) := by
    simp only [State.run, holding]
  have working' := working.step taken (by simp)
  rw [filled] at run working'
  refine ⟨_, run, working', ?_, ?_⟩
  · rw [← holding, update_eq_self]
    rfl
  · intro c
    by_cases here : c = b
    · subst here
      simp [State.setBuf]
    · simp [State.setBuf, here]

/-- `releasesleep` before `brelse`. -/
theorem take_releasesleep (holding : s.point use = .holding b)
    : ∃ after, take (.releasesleep use) s = .ok (.done, after)
      ∧ Moved dev pinned s use (.releasing b) after := by
  obtain ⟨run, taken⟩ := take_ok (.releasesleep use) ⟨b, holding⟩
  have unlocked : s.run (.releasesleep use)
      = (.done,
        { s.goTo use (.releasing b) with locked := update s.locked b false }) := by
    simp only [State.run, holding]
  have working' := working.step taken (by simp)
  rw [unlocked] at run working'
  exact ⟨_, run, working', rfl, fun c => ⟨rfl, rfl⟩⟩

theorem take_brelse (releasing : s.point use = .releasing b)
    : ∃ after, take (.brelse use) s = .ok (.done, after)
      ∧ Moved dev pinned s use .idle after := by
  obtain ⟨run, taken⟩ := take_ok (.brelse use) ⟨b, releasing⟩
  have released : s.run (.brelse use) = (.done, s.brelse use b) := by
    simp only [State.run, releasing]
  have working' := working.step taken (by simp)
  rw [released] at run working'
  obtain ⟨_, _, points⟩ := brelse_same s use b
  exact ⟨_, run, working', points, brelse_keys s use b⟩

/-- `bread` from the buffer on. -/
theorem lockAndFill_run (waiting : s.point use = .waiting b) (free : s.locked b = false)
    : ∃ after, lockAndFill use b s = .ok (b, after)
      ∧ Moved dev pinned s use (.holding b) after := by
  obtain ⟨middle, run, locked⟩ := working.take_acquiresleep waiting free
  unfold lockAndFill
  rw [bind_ok run, bind_ok (get_run _)]
  split_ifs with valid
  · exact ⟨middle, rfl, locked⟩
  · obtain ⟨after, run', filled⟩ := locked.working.take_fill locked.own
    rw [bind_ok run']
    exact ⟨after, rfl, locked.trans filled⟩

/-- `brelse` as a whole. -/
theorem brelse_run (holding : s.point use = .holding b)
    : ∃ after, brelse use s = .ok ((), after) ∧ Moved dev pinned s use .idle after := by
  obtain ⟨middle, run, unlocked⟩ := working.take_releasesleep holding
  obtain ⟨after, run', released⟩ := unlocked.working.take_brelse unlocked.own
  unfold brelse
  rw [bind_ok run, bind_ok run']
  exact ⟨after, rfl, unlocked.trans released⟩

/-- `bwrite` does not change the cache. -/
theorem bwrite_run (holding : s.point use = .holding b) : bwrite b s = .ok ((), s) := by
  have locked := (working.locks b).mpr ⟨use, holding⟩
  unfold bwrite
  rw [bind_ok (get_run s), if_pos locked]
  rfl

/-- A block that is cached is read if nobody has locked its buffer. -/
theorem bread_cached (idle : s.point use = .idle) (found : s.lookup dev' blockno = .found b)
    (free : s.locked b = false)
    : ∃ after, bread use dev' blockno s = .ok (b, after)
      ∧ Moved dev pinned s use (.holding b) after := by
  obtain ⟨run, taken⟩ := take_ok (.bget use dev' blockno) idle
  have got : s.run (.bget use dev' blockno)
      = (.cached b, (s.incref b).goTo use (.waiting b)) := by
    simp only [State.run, State.bget, found]
  have working' := working.step taken (by simp)
  rw [got] at run working'
  obtain ⟨after, run', filled⟩ := working'.lockAndFill_run (update_self _ _ _) free
  unfold bread
  rw [bind_ok run]
  refine ⟨after, run', filled.working, ?_, fun c => ?_⟩
  · rw [filled.points]
    exact update_idem _ _ _
  · obtain ⟨dev₁, block₁⟩ := filled.keys c
    obtain ⟨dev₂, block₂⟩ := key_incref s b c
    exact ⟨dev₁.trans dev₂, block₁.trans block₂⟩

/-- An unused buffer is not locked. -/
theorem unused_unlocked (unused : (s.buf b).refcnt = 0) : s.locked b = false := by
  obtain ⟨order, sound⟩ := working.sound
  refine Bool.eq_false_iff.mpr fun locked => ?_
  obtain ⟨use, holding⟩ := (working.locks b).mp locked
  have refers : (s.point use).weight b = 1 := by
    rw [holding]
    simp [Point.weight]
  have positive := sound.positive refers
  rw [unused] at positive
  exact Nat.lt_irrefl 0 positive

/-- A block that is not cached gets a buffer without references. -/
theorem bread_recycled (idle : s.point use = .idle) (absent : s.lookup dev' blockno = .absent)
    (found : s.unused = .found b)
    : ∃ after, bread use dev' blockno s = .ok (b, after) ∧ Working dev pinned after
      ∧ after.point = update s.point use (.holding b)
      ∧ Caches after dev' blockno b := by
  obtain ⟨order, sound⟩ := working.sound
  have free := working.unused_unlocked (sound.last_unused found).1
  obtain ⟨run, taken⟩ := take_ok (.bget use dev' blockno) idle
  have got : s.run (.bget use dev' blockno)
      = (.recycled b, (s.setBuf b
          { valid := false, dev := dev', blockno := blockno, refcnt := 1 }).goTo use
            (.waiting b)) := by
    simp only [State.run, State.bget, absent, found]
  have working' := working.step taken (by simp)
  rw [got] at run working'
  obtain ⟨after, run', filled⟩ := working'.lockAndFill_run (update_self _ _ _) free
  unfold bread
  rw [bind_ok run]
  refine ⟨after, run', filled.working, ?_, ?_⟩
  · rw [filled.points]
    exact update_idem _ _ _
  · have keys := filled.keys b
    simpa [Caches, State.goTo, State.setBuf] using keys

end

/-- `bread` panics when all buffers are in use. -/
theorem bread_full (idle : s.point use = .idle) (absent : s.lookup dev' blockno = .absent)
    (none : s.unused = .absent)
    : bread use dev' blockno s = .error "bget: no buffers" := by
  have got : s.run (.bget use dev' blockno) = (.noBuffers, s) := by
    simp only [State.run, State.bget, absent, none]
  have run := (take_ok (.bget use dev' blockno) idle).1
  rw [got] at run
  unfold bread
  rw [bind_ok run]
  rfl

/-- A buffer that the commit has already locked is waited for. -/
theorem bread_locked (idle : s.point use = .idle) (found : s.lookup dev' blockno = .found b)
    (locked : s.locked b = true)
    : bread use dev' blockno s = .error "waits for ever" := by
  have got : s.run (.bget use dev' blockno)
      = (.cached b, (s.incref b).goTo use (.waiting b)) := by
    simp only [State.run, State.bget, found]
  have run := (take_ok (.bget use dev' blockno) idle).1
  rw [got] at run
  have blocked : ¬Enabled ((s.incref b).goTo use (.waiting b)) (.acquiresleep use) := by
    rintro ⟨c, waiting, free⟩
    rw [show ((s.incref b).goTo use (.waiting b)).point use = .waiting b from
      update_self _ _ _] at waiting
    cases waiting
    exact Bool.noConfusion (locked.symm.trans free)
  have stops : take (.acquiresleep use) ((s.incref b).goTo use (.waiting b))
      = .error "waits for ever" := if_neg blocked
  unfold bread
  rw [bind_ok run]
  exact bind_error stops

/-- The buffer that caches a block is found. -/
theorem lookup_found (working : Working dev pinned s) (real : dev' ≠ 0)
    (caches : Caches s dev' blockno b)
    : s.lookup dev' blockno = .found b := by
  obtain ⟨order, sound⟩ := working.sound
  cases looked : s.lookup dev' blockno with
  | found c =>
    obtain ⟨devs, blocks⟩ := sound.is_cached looked
    rw [sound.unique b c (caches.1 ▸ real) (devs.trans caches.1.symm)
      (blocks.trans caches.2.symm)]
  | absent => exact (sound.not_cached looked b caches).elim
  | endless =>
    rw [sound.lookup_eq] at looked
    exact (Sound.ofOption_ne_endless _ looked).elim

end Working

-- One round of the two loops

/-- The commit has no buffer at the moment. -/
structure Ready (log : Log) (pinned : List UInt32) (s : Cache) : Prop where
  working : Working log.dev pinned s
  idle : ∀ use, s.point use = .idle

/-- The block of the log with index `tail`. -/
def slot (log : Log) (tail : Nat) : UInt32 := log.start + UInt32.ofNat tail + 1

/-- There is a buffer for the block. -/
def HasBuffer (s : Cache) (dev blockno : UInt32) : Prop :=
  (∃ b, (s.buf b).refcnt = 0) ∨ ∃ b, Caches s dev blockno b

/-- The commit holds one buffer of the log. -/
structure Reading (log : Log) (pinned : List UInt32) (blockno : UInt32) (lbuf : Fin NBUF)
    (s : Cache) : Prop where
  working : Working log.dev pinned s
  first : s.point .log = .holding lbuf
  second : s.point .home = .idle
  caches : Caches s log.dev blockno lbuf

namespace Ready

variable {log : Log} {blockno : UInt32}

theorem unlocked (ready : Ready log pinned s) (b : Fin NBUF) : s.locked b = false := by
  refine Bool.eq_false_iff.mpr fun locked => ?_
  obtain ⟨use, holding⟩ := (ready.working.locks b).mp locked
  rw [ready.idle use] at holding
  cases holding

/-- `bread` succeeds when there is a buffer for the block. -/
theorem read (ready : Ready log pinned s) (room : HasBuffer s log.dev blockno)
    : ∃ lbuf after, bread .log log.dev blockno s = .ok (lbuf, after)
      ∧ Reading log pinned blockno lbuf after := by
  have working := ready.working
  obtain ⟨order, sound⟩ := working.sound
  have second {after : Cache} {b : Fin NBUF}
      (points : after.point = update s.point .log (.holding b))
      : after.point .log = .holding b ∧ after.point .home = .idle := by
    rw [points]
    exact ⟨update_self _ _ _, ready.idle .home⟩
  cases looked : s.lookup log.dev blockno with
  | found b =>
    obtain ⟨after, run, moved⟩ := working.bread_cached (ready.idle .log) looked
      (ready.unlocked b)
    obtain ⟨here, there⟩ := second moved.points
    obtain ⟨devs, blocks⟩ := sound.is_cached looked
    refine ⟨b, after, run, moved.working, here, there, ?_⟩
    exact ⟨(moved.keys b).1.trans devs, (moved.keys b).2.trans blocks⟩
  | absent =>
    cases free : s.unused with
    | found b =>
      obtain ⟨after, run, working', points, caches⟩ :=
        working.bread_recycled (ready.idle .log) looked free
      obtain ⟨here, there⟩ := second points
      exact ⟨b, after, run, working', here, there, caches⟩
    | absent =>
      rcases room with ⟨b, unused⟩ | ⟨b, caches⟩
      · exact (sound.all_used free b unused).elim
      · exact (sound.not_cached looked b caches).elim
    | endless =>
      rw [sound.unused_eq] at free
      exact (Sound.ofOption_ne_endless _ free).elim
  | endless =>
    rw [sound.lookup_eq] at looked
    exact (Sound.ofOption_ne_endless _ looked).elim

/-- It panics when there is none. -/
theorem read_fails (ready : Ready log pinned s) (none : ¬HasBuffer s log.dev blockno)
    : bread .log log.dev blockno s = .error "bget: no buffers" := by
  obtain ⟨order, sound⟩ := ready.working.sound
  have absent : s.lookup log.dev blockno = .absent := by
    cases looked : s.lookup log.dev blockno with
    | found b => exact (none (.inr ⟨b, sound.is_cached looked⟩)).elim
    | absent => rfl
    | endless =>
      rw [sound.lookup_eq] at looked
      exact (Sound.ofOption_ne_endless _ looked).elim
  have full : s.unused = .absent := by
    cases free : s.unused with
    | found b => exact (none (.inl ⟨b, (sound.last_unused free).1⟩)).elim
    | absent => rfl
    | endless =>
      rw [sound.unused_eq] at free
      exact (Sound.ofOption_ne_endless _ free).elim
  exact Working.bread_full (ready.idle .log) absent full

end Ready

end Xv6.Disk.Commit

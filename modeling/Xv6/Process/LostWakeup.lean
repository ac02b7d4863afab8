import Xv6.Process.LockHolders

/-! No wakeup is lost: a process releases `lk` in `sleep` only once it has its `p->lock`, and
`wakeup` takes this lock, so that a caller that holds `lk` finds it asleep.
-/

namespace Xv6.Process.Locking

open Function Library

variable {Lock Cpu : Type} {s before after : State Lock Cpu}

section

variable {entry : Action Lock Cpu × Outcome Lock}
variable {p i q w : Slot} {loop loop' : Loop} {chan : Chan} {l : Lock}

-- What a wakeup has passed

/-- Process `q` neither sleeps in `sleep(chan, l)` nor is about to. -/
structure Clear (s : State Lock Cpu) (chan : Chan) (l : Lock) (q : Slot) : Prop where
  notReady : s.point q ≠ .sleepReady chan l
  notAsleep : ¬(s.point q = .asleep chan l ∧ (s.table.proc q).state = .sleeping)

/-- The only way into the sleep of `sleep(chan, l)` leads past the release of `l`. -/
structure Approach (before after : State Lock Cpu) : Prop where
  ready
    : ∀ q chan l, after.point q = .sleepReady chan l
      → before.point q = .sleepReady chan l ∨ before.point q = .sleepLocked chan l
  asleep
    : ∀ q chan l, after.point q = .asleep chan l → (after.table.proc q).state = .sleeping
      → before.point q = .sleepReady chan l
        ∨ (before.point q = .asleep chan l ∧ (before.table.proc q).state = .sleeping)

theorem Approach.refl (s : State Lock Cpu) : Approach s s :=
  ⟨fun _ _ _ => .inl, fun _ _ _ asleep sleeping => .inr ⟨asleep, sleeping⟩⟩

/-- A step that moves `p` to a point outside of the sleep and puts nobody else to sleep. -/
theorem Approach.of_outside {point : Point Lock}
    (points : after.point = update before.point p point)
    (outside : ∀ chan l, point ≠ .sleepReady chan l ∧ point ≠ .asleep chan l)
    (states
      : ∀ q, q ≠ p → (after.table.proc q).state = .sleeping
        → (before.table.proc q).state = .sleeping)
    : Approach before after := by
  refine ⟨fun q chan l ready => ?_, fun q chan l asleep sleeping => ?_⟩
  · rw [points] at ready
    by_cases here : q = p
    · subst here
      rw [update_self] at ready
      exact ((outside chan l).1 ready).elim
    · rw [update_of_ne here] at ready
      exact .inl ready
  · rw [points] at asleep
    by_cases here : q = p
    · subst here
      rw [update_self] at asleep
      exact ((outside chan l).2 asleep).elim
    · rw [update_of_ne here] at asleep
      exact .inr ⟨asleep, states q here sleeping⟩

theorem Approach.nextTurn (points : after.point = before.point) (table : after.table = before.table)
    : Approach before (after.nextTurn p loop i).2 := by
  rcases nextTurn_cases after p loop i with ⟨j, _, more⟩ | ⟨_, ended⟩
  · rw [more]
    refine .of_outside (congrArg (update · p _) points) (fun _ _ => ⟨(by simp), (by simp)⟩)
      fun q _ => ?_
    rw [← table]
    exact id
  · rw [ended]
    refine .of_outside (congrArg (update · p _) points) (fun _ _ => ⟨(by simp), (by simp)⟩)
      fun q _ => ?_
    rw [← table]
    exact id

/-- The slot has had its turn. -/
def Phase.Passed (i : Slot) (phase : Phase) (q : Slot) : Prop :=
  q < i ∨ (q = i ∧ ∃ found, phase = .leave found)

/-- How a process has come to a turn of a loop. -/
inductive Progress (before after : State Lock Cpu) (w : Slot) (loop : Loop) (i : Slot)
    : Phase → Prop
  | same {phase : Phase} (here : before.point w = .turn loop i phase)
    : Progress before after w loop i phase
  | start (first : i = 0) : Progress before after w loop i .enter
  | next (j : Slot) (phase : Phase) (here : before.point w = .turn loop j phase)
    (isNext : i.val = j.val + 1)
    (done : loop.skips w j = true ∨ phase = .leave false)
    : Progress before after w loop i .enter
  | lock (here : before.point w = .turn loop i .enter)
    : Progress before after w loop i .locked
  | turn (here : before.point w = .turn loop i .locked)
    (table : after.table = loop.turn before.table i) (found : Bool)
    : Progress before after w loop i (.leave found)

variable {phase : Phase}

theorem Progress.of_other {point : Point Lock}
    (points : after.point = update before.point p point)
    (outside : ∀ loop i phase, point ≠ .turn loop i phase)
    (here : after.point w = .turn loop i phase)
    : Progress before after w loop i phase := by
  rw [points] at here
  by_cases me : w = p
  · subst me
    rw [update_self] at here
    exact (outside loop i phase here).elim
  · rw [update_of_ne me] at here
    exact .same here

variable {phase' : Phase}

theorem Progress.of_turn {j : Slot}
    (points : after.point = update before.point p (.turn loop' j phase'))
    (mine : Progress before after p loop' j phase') (here : after.point w = .turn loop i phase)
    : Progress before after w loop i phase := by
  rw [points] at here
  by_cases me : w = p
  · subst me
    rw [update_self] at here
    cases here
    exact mine
  · rw [update_of_ne me] at here
    exact .same here

theorem Progress.nextTurn {middle : State Lock Cpu} {j : Slot}
    (points : middle.point = before.point) (mine : before.point p = .turn loop' j phase')
    (done : loop'.skips p j = true ∨ phase' = .leave false)
    (here : (middle.nextTurn p loop' j).2.point w = .turn loop i phase)
    : Progress before (middle.nextTurn p loop' j).2 w loop i phase := by
  rcases nextTurn_cases middle p loop' j with ⟨k, isNext, more⟩ | ⟨_, ended⟩
  · rw [more] at here ⊢
    exact .of_turn (congrArg (update · p _) points) (.next j phase' mine isNext done) here
  · rw [ended] at here ⊢
    exact .of_other (congrArg (update · p _) points) (by simp) here

variable [DecidableEq Lock]

/-- A turn puts nobody to sleep, and a turn of `wakeup` wakes who sleeps on its channel. -/
theorem Loop.turn_sleeping {t : Table} (loop : Loop)
    (sleeping : ((loop.turn t i).proc q).state = .sleeping)
    : (t.proc q).state = .sleeping := by
  by_cases here : q = i
  · subst here
    cases loop with
    | wakeup chan =>
      simp only [Loop.turn, wakeupTurn] at sleeping
      split_ifs at sleeping with slept
      · exact slept.1
      · exact sleeping
    | kkill pid =>
      simp only [Loop.turn, kkillTurn] at sleeping
      split_ifs at sleeping with same slept
      · exact slept
      · simpa using sleeping
      · exact sleeping
  · rwa [loop.turn_other here] at sleeping

theorem Approach.advance {result : Outcome Lock × State Lock Cpu} (advanced : Advanced s p result)
    : Approach s result.2 := by
  have others {value : Proc} (q : Slot) (other : q ≠ p)
      (sleeping : ((s.table.set p value).proc q).state = .sleeping)
      : (s.table.proc q).state = .sleeping := by
    rwa [Table.set_proc_other _ _ other] at sleeping
  cases advanced with
  | yield here | tidy lk here => exact .of_outside rfl (fun _ _ => ⟨(by simp), (by simp)⟩) others
  | back here | unlock lk here | relock lk here free | lock loop i here free
  | found loop i here =>
    exact .of_outside rfl (fun _ _ => ⟨(by simp), (by simp)⟩) fun _ _ => id
  | turn loop i here =>
    exact .of_outside rfl (fun _ _ => ⟨(by simp), (by simp)⟩) fun q _ => loop.turn_sleeping
  | skip loop i here skips | next loop i here => exact .nextTurn rfl rfl
  | sleepRelease chan lk here =>
    refine ⟨fun q chan' l ready => ?_, fun q chan' l asleep sleeping => ?_⟩
    · by_cases me : q = p
      · subst me
        simp only [State.goTo, update_self] at ready
        cases ready
        exact .inr here
      · simp only [State.goTo, update_of_ne me] at ready
        exact .inl ready
    · by_cases me : q = p
      · subst me
        simp [State.goTo] at asleep
      · simp only [State.goTo, update_of_ne me] at asleep
        exact .inr ⟨asleep, sleeping⟩
  | sleep chan lk here =>
    refine ⟨fun q chan' l ready => ?_, fun q chan' l asleep sleeping => ?_⟩
    · by_cases me : q = p
      · subst me
        simp [State.switchOut] at ready
      · simp only [State.switchOut, update_of_ne me] at ready
        exact .inl ready
    · by_cases me : q = p
      · subst me
        simp only [State.switchOut, update_self] at asleep
        cases asleep
        exact .inl here
      · simp only [State.switchOut, update_of_ne me] at asleep
        exact .inr ⟨asleep, others q me sleeping⟩

theorem State.setLk_self (s : State Lock Cpu) (lk : Lock) (holder : Option Slot)
    : (s.setLk lk holder).lk lk = holder :=
  update_self ..

theorem Advanced.keeps_lk {result : Outcome Lock × State Lock Cpu} (advanced : Advanced s p result)
    (inLoop : result.2.point w ≠ .run) (holder : result.2.lk l = some w)
    : s.lk l = some w := by
  have same {point : Point Lock} {holder' : Option Slot} {lk : Lock}
      (holder : ((s.setLk lk holder').goTo p point).lk l = some w) (other : holder' ≠ some w)
      : s.lk l = some w := by
    by_cases here : l = lk
    · subst here
      exact (other ((s.setLk_self l holder').symm.trans holder)).elim
    · exact (update_of_ne here ..).symm.trans holder
  cases advanced with
  | sleepRelease chan lk here => exact same holder (by simp)
  | relock lk here free =>
    refine same holder fun isMe => inLoop ?_
    cases isMe
    exact update_self ..
  | skip loop i here skips =>
    rcases nextTurn_cases s p loop i with ⟨j, _, more⟩ | ⟨_, ended⟩
    · rwa [more] at holder
    · rwa [ended] at holder
  | next loop i here =>
    rcases nextTurn_cases (s.setPlock i none) p loop i with ⟨j, _, more⟩ | ⟨_, ended⟩
    · rwa [more] at holder
    · rwa [ended] at holder
  | yield | back | sleep | tidy | unlock | lock | turn | found => exact holder

variable [DecidableEq Cpu]

theorem Approach.step (fits : AllFit before) (taken : Step before entry after)
    : Approach before after := by
  obtain ⟨action, outcome⟩ := entry
  obtain ⟨enabled, rfl, rfl⟩ := taken.inv
  cases action with
  | acquire p lk | release p lk =>
    exact ⟨(Approach.refl before).ready, (Approach.refl before).asleep⟩
  | yield p | sleep p chan lk | call p loop =>
    exact .of_outside rfl (fun _ _ => ⟨(by simp), (by simp)⟩) fun _ _ => id
  | advance p => exact .advance (advance_cases enabled)
  | scheduler c =>
    simp only [Action.run, State.schedule]
    cases before.cpu c with
    | scan p | leave p | gone p =>
      exact ⟨(Approach.refl before).ready, (Approach.refl before).asleep⟩
    | locked p =>
      dsimp only
      split_ifs with isRunnable
      · have off := (fits p).runnable isRunnable
        refine .of_outside rfl (fun chan l => ?_) fun q other sleeping => ?_
        · rcases Point.resume_cases off with back | ⟨l, awake⟩
          · rw [back]
            exact ⟨(by simp), (by simp)⟩
          · rw [awake]
            exact ⟨(by simp), (by simp)⟩
        · have same : ((schedule before.table p).proc q) = before.table.proc q :=
            Table.set_proc_other _ _ other
          exact same ▸ sleeping
      · exact ⟨(Approach.refl before).ready, (Approach.refl before).asleep⟩

/-- While another process holds `l`, nobody begins to sleep in `sleep(chan, l)`. -/
theorem Clear.step (clear : Clear before chan l q) (held : Held before) (fits : AllFit before)
    (taken : Step before entry after) (holder : before.lk l = some w)
    (outside : ∀ chan, before.point w ≠ .sleepLocked chan l)
    : Clear after chan l q := by
  have approach := Approach.step fits taken
  refine ⟨fun ready => ?_, fun asleep => ?_⟩
  · rcases approach.ready q chan l ready with ready | locked
    · exact clear.notReady ready
    · have same : w = q := Option.some.inj (holder.symm.trans (held.lk q chan l locked))
      subst same
      exact outside chan locked
  · rcases approach.asleep q chan l asleep.1 asleep.2 with ready | asleep
    · exact clear.notReady ready
    · exact clear.notAsleep asleep

theorem Step.progress (fits : AllFit before) (taken : Step before entry after)
    (here : after.point w = .turn loop i phase)
    : Progress before after w loop i phase := by
  obtain ⟨action, outcome⟩ := entry
  obtain ⟨enabled, rfl, rfl⟩ := taken.inv
  cases action with
  | acquire p lk | release p lk => exact .same here
  | yield p | sleep p chan lk => exact .of_other rfl (by simp) here
  | call p loop' => exact .of_turn rfl (.start rfl) here
  | advance p =>
    have advanced := advance_cases (s := before) enabled
    simp only [Action.run] at here ⊢
    generalize before.advance p = result at advanced here ⊢
    cases advanced with
    | yield mine | back mine | sleepRelease chan lk mine | sleep chan lk mine | tidy lk mine
    | unlock lk mine | relock lk mine free | found loop' i' mine =>
      exact .of_other rfl (by simp) here
    | skip loop' j mine skips => exact .nextTurn rfl mine (.inl skips) here
    | lock loop' j mine free => exact .of_turn rfl (.lock mine) here
    | turn loop' j mine => exact .of_turn rfl (.turn mine rfl _) here
    | next loop' j mine => exact .nextTurn rfl mine (.inr rfl) here
  | scheduler c =>
    simp only [Action.run, State.schedule] at here ⊢
    cases cpu : before.cpu c with
    | scan p | leave p | gone p =>
      rw [cpu] at here
      exact .same here
    | locked p =>
      rw [cpu] at here
      dsimp only at here ⊢
      split_ifs at here ⊢ with isRunnable
      · refine .of_other rfl (fun loop i phase => ?_) here
        rcases Point.resume_cases ((fits p).runnable isRunnable) with back | ⟨l, awake⟩
        · rw [back]
          simp
        · rw [awake]
          simp
      · exact .same here

/-- Inside of a loop a process takes no spinlock. -/
theorem Step.keeps_lk (taken : Step before entry after) (here : after.point w = .turn loop i phase)
    (holder : after.lk l = some w)
    : before.lk l = some w := by
  obtain ⟨action, outcome⟩ := entry
  obtain ⟨enabled, rfl, rfl⟩ := taken.inv
  cases action with
  | acquire p lk =>
    by_cases same : l = lk
    · subst same
      have isMe : some p = some w := (before.setLk_self l (some p)).symm.trans holder
      cases isMe
      exact nomatch enabled.1.symm.trans here
    · exact (update_of_ne same ..).symm.trans holder
  | release p lk =>
    by_cases same : l = lk
    · subst same
      exact nomatch (before.setLk_self l none).symm.trans holder
    · exact (update_of_ne same ..).symm.trans holder
  | yield p | sleep p chan lk | call p loop' => exact holder
  | advance p =>
    refine (advance_cases enabled).keeps_lk ?_ holder
    intro running
    exact nomatch running.symm.trans here
  | scheduler c =>
    simp only [Action.run, State.schedule] at holder
    cases cpu : before.cpu c with
    | scan p | leave p | gone p =>
      rw [cpu] at holder
      exact holder
    | locked p =>
      rw [cpu] at holder
      dsimp only at holder
      split_ifs at holder <;> exact holder

/-- A `wakeup(chan)` whose caller holds `l` leaves nobody behind in `sleep(chan, l)`. -/
def Scanned (s : State Lock Cpu) : Prop :=
  ∀ w chan i phase l, s.point w = .turn (.wakeup chan) i phase → s.lk l = some w
    → ∀ q, phase.Passed i q → Clear s chan l q

theorem wakeupTurn_not_sleeping {t : Table} (onChan : (t.proc i).chan = some chan)
    : ((wakeupTurn t i chan).proc i).state ≠ .sleeping := by
  unfold wakeupTurn
  split_ifs with slept
  · simp
  · exact fun sleeping => slept ⟨sleeping, onChan⟩

/-- The turn itself clears the slot: its process cannot be between the two locks. -/
theorem Clear.turn (held : Held before) (fits : AllFit before) (taken : Step before entry after)
    (here : before.point w = .turn (.wakeup chan) i .locked)
    (table : after.table = wakeupTurn before.table i chan)
    : Clear after chan l i := by
  have approach := Approach.step fits taken
  have lock : before.plock i = some (.proc w) := held.proc w i (by rw [here]; rfl)
  have notMine {point : Point Lock} (there : before.point i = point)
      (holds : point.holds i = some i) (other : point ≠ .turn (.wakeup chan) i .locked)
      : False := by
    have mine := held.proc i i (by rw [there]; exact holds)
    have same : w = i := by simpa using lock.symm.trans mine
    subst same
    exact other (there.symm.trans here)
  refine ⟨fun ready => ?_, fun asleep => ?_⟩
  · rcases approach.ready i chan l ready with there | there
    · exact notMine there rfl (by simp)
    · exact notMine there rfl (by simp)
  · rcases approach.asleep i chan l asleep.1 asleep.2 with there | ⟨there, sleeping⟩
    · exact notMine there rfl (by simp)
    · obtain ⟨chan', l', isThere, onChan⟩ := (fits i).sleeping sleeping
      cases there.symm.trans isThere
      refine wakeupTurn_not_sleeping onChan ?_
      rw [← table]
      exact asleep.2

theorem Scanned.step (scanned : Scanned before) (held : Held before) (fits : AllFit before)
    (taken : Step before entry after)
    : Scanned after := by
  intro w chan i phase l here holder q passed
  have holder' := Step.keeps_lk taken here holder
  have keep {j : Slot} {phase' : Phase} (was : before.point w = .turn (.wakeup chan) j phase')
      (earlier : phase'.Passed j q)
      : Clear after chan l q :=
    (scanned w chan j phase' l was holder' q earlier).step held fits taken holder'
      fun _ => by rw [was]; simp
  cases Step.progress fits taken here with
  | same was => exact keep was passed
  | start first =>
    subst first
    rcases passed with less | ⟨_, found, leaves⟩
    · exact absurd less (by simp)
    · cases leaves
  | next j phase' was isNext done =>
    have upTo : q < j ∨ q = j := by
      rcases passed with less | ⟨_, found, leaves⟩
      · rw [Fin.lt_def, isNext] at less
        rcases Nat.lt_succ_iff_lt_or_eq.mp less with less | same
        · exact .inl less
        · exact .inr (Fin.ext same)
      · cases leaves
    rcases upTo with less | rfl
    · exact keep was (.inl less)
    · rcases done with skips | rfl
      · have isMe : q = w := by simpa [Loop.skips] using skips
        subst isMe
        exact ⟨by rw [here]; simp, by rw [here]; simp⟩
      · exact keep was (.inr ⟨rfl, false, rfl⟩)
  | lock was =>
    rcases passed with less | ⟨_, found, leaves⟩
    · exact keep was (.inl less)
    · cases leaves
  | turn was table found =>
    rcases passed with less | ⟨rfl, _⟩
    · exact keep was (.inl less)
    · exact Clear.turn held fits taken was table

-- Runs

structure Consistent (s : State Lock Cpu) : Prop where
  held : Held s
  fits : AllFit s
  scanned : Scanned s

omit [DecidableEq Lock] [DecidableEq Cpu] in
theorem Consistent.boot {table : Table}
    (quiet : ∀ p, (table.proc p).state ≠ .sleeping)
    : Consistent (boot table : State Lock Cpu) :=
  ⟨⟨fun _ _ => nofun, fun _ _ => nofun, fun _ _ _ => nofun, fun _ _ => nofun,
    fun _ _ _ => nofun, fun _ _ _ => nofun⟩,
    fun p => .of_awake (quiet p) (fun _ => rfl) fun _ either => either.elim nofun nofun,
    fun _ _ _ _ _ => nofun⟩

theorem consistent {table : Table} {history : History Lock Cpu} {final : State Lock Cpu}
    (quiet : ∀ p, (table.proc p).state ≠ .sleeping) (run : Run Step (boot table) history final)
    : Consistent final := by
  induction run with
  | nil => exact .boot quiet
  | next _ taken reached =>
    exact ⟨reached.held.step reached.fits taken, reached.fits.step taken,
      reached.scanned.step reached.held reached.fits taken⟩

/-- How a `wakeup` returns: it has been through the last slot. -/
theorem Step.returns {w : Slot} {chan : Chan}
    (taken : Step before (.advance w, .woken chan) after)
    : ∃ i phase, before.point w = .turn (.wakeup chan) i phase ∧ (∀ q, q ≤ i)
      ∧ (i = w ∨ phase = .leave false) ∧ after.point w = .run := by
  have advanced := advance_cases (s := before) taken.1
  have returns : before.advance w = (.woken chan, after) := taken.2
  have ends {loop : Loop} (isEnd : (loop.ends : Outcome Lock) = .woken chan)
      : loop = .wakeup chan := by
    cases loop <;> cases isEnd
    rfl
  generalize before.advance w = result at advanced returns
  cases advanced with
  | skip loop i here skips =>
    rcases nextTurn_cases before w loop i with ⟨j, _, more⟩ | ⟨last, ended⟩
    · cases more.symm.trans returns
    · obtain ⟨isEnd, rfl⟩ := Prod.mk.inj (ended.symm.trans returns)
      have isWakeup := ends isEnd
      subst isWakeup
      exact ⟨i, .enter, here, last, .inl (by simpa [Loop.skips] using skips),
        update_self ..⟩
  | next loop i here =>
    rcases nextTurn_cases (before.setPlock i none) w loop i with ⟨j, _, more⟩ | ⟨last, ended⟩
    · cases more.symm.trans returns
    · obtain ⟨isEnd, rfl⟩ := Prod.mk.inj (ended.symm.trans returns)
      have isWakeup := ends isEnd
      subst isWakeup
      exact ⟨i, .leave false, here, last, .inr rfl, update_self ..⟩
  | yield | back | sleepRelease | sleep | tidy | unlock | relock | lock | turn | found =>
    cases returns

theorem Consistent.woken (consistent : Consistent before)
    (taken : Step before (.advance w, .woken chan) after) (holder : before.lk l = some w) (q : Slot)
    : Clear after chan l q := by
  obtain ⟨i, phase, here, last, done, returned⟩ := Step.returns taken
  have keep (passed : phase.Passed i q) : Clear after chan l q :=
    (consistent.scanned w chan i phase l here holder q passed).step consistent.held
      consistent.fits taken holder fun _ => by rw [here]; simp
  rcases lt_or_eq_of_le (last q) with less | same
  · exact keep (.inl less)
  · rcases done with isMe | rfl
    · have me : q = w := same.trans isMe
      subst me
      exact ⟨by rw [returned]; simp, by rw [returned]; simp⟩
    · exact keep (.inr ⟨same, false, rfl⟩)

/-- A process that leaves `sleep` has taken `lk` and has cleared its channel before. -/
theorem Consistent.slept (consistent : Consistent before)
    (taken : Step before (.advance q, .slept l) after)
    : after.lk l = some q ∧ (after.table.proc q).chan = none := by
  have advanced := advance_cases (s := before) taken.1
  have returns : before.advance q = (.slept l, after) := taken.2
  generalize before.advance q = result at advanced returns
  have notEnds (loop : Loop) : loop.ends ≠ .slept l := by cases loop <;> simp [Loop.ends]
  cases advanced with
  | relock lk here free =>
    cases returns
    exact ⟨update_self .., (consistent.fits q).tidy l (.inr here)⟩
  | skip loop i here skips =>
    rcases nextTurn_cases before q loop i with ⟨j, _, more⟩ | ⟨_, ended⟩
    · cases more.symm.trans returns
    · exact (notEnds loop (Prod.mk.inj (ended.symm.trans returns)).1).elim
  | next loop i here =>
    rcases nextTurn_cases (before.setPlock i none) q loop i with ⟨j, _, more⟩ | ⟨_, ended⟩
    · cases more.symm.trans returns
    · exact (notEnds loop (Prod.mk.inj (ended.symm.trans returns)).1).elim
  | yield | back | sleepRelease | sleep | tidy | unlock | lock | turn | found =>
    cases returns

/-- In every run from a state in which nobody sleeps: when a call of `wakeup(chan)` returns and
its caller holds `l`, whoever is still `SLEEPING` on `chan` has called `sleep` with another lock,
and nobody is about to sleep in `sleep(chan, l)`. All others have made their last check under `l`
before the caller took it, and have been made `RUNNABLE`, by this call or earlier. A process that
leaves `sleep(chan, l)` holds `l` and has no channel.
-/
theorem no_wakeup_is_lost {table : Table} {history : History Lock Cpu} {final : State Lock Cpu}
    (quiet : ∀ p, (table.proc p).state ≠ .sleeping) (run : Run Step (boot table) history final)
    : (∀ w chan l after, Step final (.advance w, .woken chan) after → final.lk l = some w
        → ∀ q, after.point q ≠ .sleepReady chan l
          ∧ ((after.table.proc q).state = .sleeping → (after.table.proc q).chan = some chan
            → ∃ l', l' ≠ l ∧ after.point q = .asleep chan l'))
      ∧ ∀ q l after, Step final (.advance q, .slept l) after
          → after.lk l = some q ∧ (after.table.proc q).chan = none := by
  have reached := consistent quiet run
  refine ⟨fun w chan l after taken holder q =>
      ⟨(reached.woken taken holder q).notReady, fun sleeping onChan => ?_⟩,
    fun q l after taken => reached.slept taken⟩
  obtain ⟨chan', l', there, onChan'⟩ := (reached.fits.step taken q).sleeping sleeping
  obtain rfl : chan' = chan := Option.some.inj (onChan'.symm.trans onChan)
  refine ⟨l', ?_, there⟩
  rintro rfl
  exact (reached.woken taken holder q).notAsleep ⟨there, sleeping⟩

end

/-- Slots 0 and 1 can run. -/
def twoProcesses : Table :=
  { procinit with
    proc := fun p => if p.val < 2 then { state := .runnable, pid := 1 } else {} }

/-- Process 0 has released the lock in `sleep` when process 1 takes it and calls `wakeup`. It
falls asleep before the first turn, which has to wait for its `p->lock`.
-/
def sleepAgainstWakeup : List (Action Unit (Fin 2) × Outcome Unit) :=
  [(.scheduler 0, .done), (.scheduler 0, .done), (.advance 0, .done),
    (.scheduler 1, .done), (.scheduler 1, .done), (.scheduler 1, .done), (.scheduler 1, .done),
    (.scheduler 1, .done), (.advance 1, .done),
    (.acquire 0 (), .done), (.sleep 0 (.object 7) (), .done), (.advance 0, .done),
    (.acquire 1 (), .done), (.call 1 (.wakeup (.object 7)), .done),
    (.advance 0, .done), (.scheduler 0, .done)]
  ++ List.replicate 189 (.advance 1, .done)

theorem sleepAgainstWakeup_follows
    : Follows (guarded Action.Enabled Action.run) (boot twoProcesses) sleepAgainstWakeup
        (fun _ final => final.lk () = some 1 ∧ Action.Enabled final (.advance 1)
          ∧ (Action.run final (.advance 1)).1 = .woken (.object 7)) := by
  decide +kernel

/-- Nobody sleeps when this `wakeup` returns. -/
theorem wakeup_waits_for_sleeper
    : ∃ history final after, Run Step (boot twoProcesses) history final
      ∧ steps history = sleepAgainstWakeup
      ∧ Step final (.advance 1, .woken (.object 7)) after
      ∧ ∀ q, (after.table.proc q).state = .sleeping
        → (after.table.proc q).chan ≠ some (.object 7) := by
  obtain ⟨history, final, run, same, holder, enabled, outcome⟩ :=
    sleepAgainstWakeup_follows.toRun
  have quiet (p : Slot) : (twoProcesses.proc p).state ≠ .sleeping := by
    simp only [twoProcesses]
    split_ifs <;> simp
  obtain ⟨woken, _⟩ := no_wakeup_is_lost quiet run
  have taken : Step final (.advance 1, .woken (.object 7)) (Action.run final (.advance 1)).2 :=
    ⟨enabled, Prod.ext outcome rfl⟩
  refine ⟨history, final, _, run, same, taken, fun q sleeping onChan => ?_⟩
  obtain ⟨_, other, _⟩ := (woken 1 (.object 7) () _ taken holder q).2 sleeping onChan
  exact other rfl

end Xv6.Process.Locking

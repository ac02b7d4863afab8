import Xv6.Process.Locking

/-! Who holds which lock: a `p->lock` is held where the points of the processes and of the
schedulers say, and what the table says of a process fits the point where it is.
-/

namespace Xv6.Process.Locking

open Function Library

variable {Lock Cpu : Type} {s before after : State Lock Cpu} {p i : Slot} {table : Table}

-- Steps

/-- What the next step of process `p` in one of its calls comes to. -/
inductive Advanced [DecidableEq Lock] (s : State Lock Cpu) (p : Slot)
    : Outcome Lock × State Lock Cpu → Prop
  | yield (here : s.point p = .yielding)
    : Advanced s p (.done, s.switchOut (Process.yield s.table p) p .off)
  | back (here : s.point p = .back)
    : Advanced s p (.done, (s.setPlock p none).goTo p .run)
  | sleepRelease (chan : Chan) (lk : Lock) (here : s.point p = .sleepLocked chan lk)
    : Advanced s p (.done, (s.setLk lk none).goTo p (.sleepReady chan lk))
  | sleep (chan : Chan) (lk : Lock) (here : s.point p = .sleepReady chan lk)
    : Advanced s p (.done, s.switchOut (Process.sleep s.table p chan) p (.asleep chan lk))
  | tidy (lk : Lock) (here : s.point p = .awake lk)
    : Advanced s p (.done, { s with table := wake s.table p }.goTo p (.tidy lk))
  | unlock (lk : Lock) (here : s.point p = .tidy lk)
    : Advanced s p (.done, (s.setPlock p none).goTo p (.relock lk))
  | relock (lk : Lock) (here : s.point p = .relock lk) (free : s.lk lk = none)
    : Advanced s p (.slept lk, (s.setLk lk (some p)).goTo p .run)
  | skip (loop : Loop) (i : Slot) (here : s.point p = .turn loop i .enter)
    (skips : loop.skips p i = true)
    : Advanced s p (s.nextTurn p loop i)
  | lock (loop : Loop) (i : Slot) (here : s.point p = .turn loop i .enter)
    (free : s.plock i = none)
    : Advanced s p
        (.done, (s.setPlock i (some (.proc p))).goTo p (.turn loop i .locked))
  | turn (loop : Loop) (i : Slot) (here : s.point p = .turn loop i .locked)
    : Advanced s p
        (.done,
          { s with table := loop.turn s.table i }.goTo p
            (.turn loop i (.leave (loop.finds s.table i))))
  | found (loop : Loop) (i : Slot) (here : s.point p = .turn loop i (.leave true))
    : Advanced s p (.killed true, (s.setPlock i none).goTo p .run)
  | next (loop : Loop) (i : Slot) (here : s.point p = .turn loop i (.leave false))
    : Advanced s p ((s.setPlock i none).nextTurn p loop i)

/-- The cases of one step of a process, with what each of them assumes. -/
theorem advance_cases [DecidableEq Lock] (ready : (s.point p).Ready s p)
    : Advanced s p (s.advance p) := by
  unfold State.advance
  cases here : s.point p with
  | yielding => exact .yield here
  | back => exact .back here
  | sleepLocked chan lk => exact .sleepRelease chan lk here
  | sleepReady chan lk => exact .sleep chan lk here
  | awake lk => exact .tidy lk here
  | tidy lk => exact .unlock lk here
  | relock lk =>
    rw [here] at ready
    exact .relock lk here ready
  | turn loop i phase =>
    rw [here] at ready
    match phase with
    | .enter =>
      dsimp only
      split_ifs with skips
      · exact .skip loop i here skips
      · exact .lock loop i here (ready.resolve_left skips)
    | .locked => exact .turn loop i here
    | .leave true => exact .found loop i here
    | .leave false => exact .next loop i here
  | off | run | asleep chan lk =>
    rw [here] at ready
    exact ready.elim

theorem nextTurn_cases (s : State Lock Cpu) (p : Slot) (loop : Loop) (i : Slot)
    : (∃ j : Slot, j.val = i.val + 1
        ∧ s.nextTurn p loop i = (.done, s.goTo p (.turn loop j .enter)))
      ∨ ((∀ j : Slot, j ≤ i) ∧ s.nextTurn p loop i = (loop.ends, s.goTo p .run)) := by
  unfold State.nextTurn
  split_ifs with more
  · exact .inl ⟨⟨i.val + 1, more⟩, rfl, rfl⟩
  · exact .inr ⟨fun j => Fin.le_def.mpr (by omega), rfl⟩

-- Locks

/-- The slot whose `p->lock` process `p` holds. -/
def Point.holds (p : Slot) : Point Lock → Option Slot
  | .back | .yielding | .sleepLocked _ _ | .sleepReady _ _ | .awake _ | .tidy _ => some p
  | .turn _ i .locked | .turn _ i (.leave _) => some i
  | .off | .run | .asleep _ _ | .relock _ | .turn _ _ .enter => none

def CpuPoint.holds : CpuPoint → Option Slot
  | .locked p | .leave p => some p
  | .scan _ | .gone _ => none

/-- The process is on a CPU. -/
def Point.executing : Point Lock → Bool
  | .off | .asleep _ _ => false
  | _ => true

/-- Locks are where the points say. -/
structure Held (s : State Lock Cpu) : Prop where
  proc : ∀ p i, (s.point p).holds p = some i → s.plock i = some (.proc p)
  cpu : ∀ c i, (s.cpu c).holds = some i → s.plock i = some .scheduler
  oneCpu : ∀ c c' i, (s.cpu c).holds = some i → (s.cpu c').holds = some i → c = c'
  gone : ∀ c p, s.cpu c = .gone p → (s.point p).executing = true
  oneGone : ∀ c c' p, s.cpu c = .gone p → s.cpu c' = .gone p → c = c'
  lk : ∀ p chan l, s.point p = .sleepLocked chan l → s.lk l = some p

/-- What a process is doing fits its slot of the table. -/
structure Fits (point : Point Lock) (pr : Proc) : Prop where
  sleeping : pr.state = .sleeping → ∃ chan l, point = .asleep chan l ∧ pr.chan = some chan
  runnable : pr.state = .runnable → point.executing = false
  tidy : ∀ l, point = .tidy l ∨ point = .relock l → pr.chan = none

variable {point : Point Lock}

/-- A step of a process that stays on its CPU: the locks of the others stay with them. -/
theorem Held.move (held : Held before) (moves : after.point = update before.point p point)
    (cpus : after.cpu = before.cpu)
    (others
      : ∀ i holder, before.plock i = some holder → holder ≠ .proc p
        → after.plock i = some holder)
    (mine : ∀ i, point.holds p = some i → after.plock i = some (.proc p))
    (lks : after.lk = before.lk)
    (mylk : ∀ chan l, point = .sleepLocked chan l → before.lk l = some p)
    (executing : point.executing = true)
    : Held after := by
  have points {q : Slot} (other : q ≠ p) : after.point q = before.point q := by
    rw [moves, update_of_ne other]
  have here : after.point p = point := by
    rw [moves, update_self]
  refine ⟨fun q i holds => ?_, fun c i holds => ?_, fun c c' i => ?_, fun c q gone => ?_,
    fun c c' q => ?_, fun q chan l there => ?_⟩
  · by_cases me : q = p
    · subst me
      exact mine i (here ▸ holds)
    · rw [points me] at holds
      exact others i _ (held.proc q i holds) (by simpa using me)
  · rw [cpus] at holds
    exact others i _ (held.cpu c i holds) (by simp)
  · rw [cpus]
    exact held.oneCpu c c' i
  · by_cases me : q = p
    · rw [me, here]
      exact executing
    · rw [cpus] at gone
      rw [points me]
      exact held.gone c q gone
  · rw [cpus]
    exact held.oneGone c c' q
  · rw [lks]
    by_cases me : q = p
    · subst me
      exact mylk chan l (here ▸ there)
    · rw [points me] at there
      exact held.lk q chan l there

/-- A process that holds its own lock may leave the CPU. -/
theorem Held.switchOut (held : Held s) (mine : (s.point p).holds p = some p)
    (off : point.executing = false)
    : Held (s.switchOut table p point) := by
  have lock := held.proc p p mine
  have noHolds : point.holds p = none := by
    cases point <;> simp_all [Point.holds, Point.executing]
  have noLk (chan : Chan) (l : Lock) : point ≠ .sleepLocked chan l := by
    rintro rfl
    cases off
  have cpuHolds {c : Cpu} {i : Slot} (holds : ((s.switchOut table p point).cpu c).holds = some i)
      : (s.cpu c = .gone p ∧ i = p) ∨ (i ≠ p ∧ (s.cpu c).holds = some i) := by
    simp only [State.switchOut] at holds
    split_ifs at holds with gone
    · cases holds
      exact .inl ⟨gone, rfl⟩
    · refine .inr ⟨?_, holds⟩
      rintro rfl
      exact nomatch lock.symm.trans (held.cpu c i holds)
  refine ⟨fun q i holds => ?_, fun c i holds => ?_, fun c c' i holds holds' => ?_,
    fun c q gone => ?_, fun c c' q gone gone' => ?_, fun q chan l here => ?_⟩
  · by_cases me : q = p
    · subst me
      simp [State.switchOut, noHolds] at holds
    · simp only [State.switchOut, update_of_ne me] at holds
      have other : i ≠ p := by
        rintro rfl
        exact me (by simpa using (held.proc q i holds).symm.trans lock)
      simpa only [State.switchOut, update_of_ne other] using held.proc q i holds
  · rcases cpuHolds holds with ⟨_, rfl⟩ | ⟨other, holds⟩
    · simp [State.switchOut]
    · simpa only [State.switchOut, update_of_ne other] using held.cpu c i holds
  · rcases cpuHolds holds with ⟨gone, rfl⟩ | ⟨other, holds⟩
    · rcases cpuHolds holds' with ⟨gone', _⟩ | ⟨other, _⟩
      · exact held.oneGone c c' i gone gone'
      · exact (other rfl).elim
    · rcases cpuHolds holds' with ⟨_, same⟩ | ⟨_, holds'⟩
      · exact (other same).elim
      · exact held.oneCpu c c' i holds holds'
  · simp only [State.switchOut] at gone
    split_ifs at gone with wasGone
    have me : q ≠ p := by
      rintro rfl
      exact wasGone gone
    simpa only [State.switchOut, update_of_ne me] using held.gone c q gone
  · simp only [State.switchOut] at gone gone'
    split_ifs at gone gone'
    exact held.oneGone c c' q gone gone'
  · by_cases me : q = p
    · subst me
      simp only [State.switchOut, update_self] at here
      exact (noLk chan l here).elim
    · simp only [State.switchOut, update_of_ne me] at here
      exact held.lk q chan l here

/-- A process releases the lock of slot `i` and moves on. -/
theorem Held.release (held : Held s) (mine : (s.point p).holds p = some i)
    (noHolds : point.holds p = none) (executing : point.executing = true)
    : Held ((s.setPlock i none).goTo p point) := by
  refine held.move rfl rfl (fun j holder isHolder other => ?_)
    (fun j holds => nomatch noHolds.symm.trans holds) rfl (fun chan l here => ?_) executing
  · have apart : j ≠ i := by
      rintro rfl
      exact other (Option.some.inj (isHolder.symm.trans (held.proc p j mine)))
    exact (update_of_ne apart ..).trans isHolder
  · subst here
    cases noHolds

/-- A process takes the lock of slot `i` and moves on. -/
theorem Held.acquire (held : Held s) (free : s.plock i = none) (holds : point.holds p = some i)
    (executing : point.executing = true)
    (mylk : ∀ chan l, point = .sleepLocked chan l → s.lk l = some p)
    : Held ((s.setPlock i (some (.proc p))).goTo p point) := by
  refine held.move rfl rfl (fun j holder isHolder other => ?_) (fun j isHeld => ?_) rfl mylk
    executing
  · have apart : j ≠ i := by
      rintro rfl
      exact nomatch free.symm.trans isHolder
    exact (update_of_ne apart ..).trans isHolder
  · cases holds.symm.trans isHeld
    exact update_self ..

/-- A process moves on with the locks it has. -/
theorem Held.stay (held : Held s)
    (same : point.holds p = (s.point p).holds p ∨ point.holds p = none)
    (executing : point.executing = true) (noLk : ∀ chan l, point ≠ .sleepLocked chan l)
    : Held ({ s with table := table }.goTo p point) := by
  refine held.move rfl rfl (fun j holder isHolder other => isHolder) (fun j isHeld => ?_) rfl
    (fun chan l here => (noLk chan l here).elim) executing
  rcases same with same | none
  · exact held.proc p j (same ▸ isHeld)
  · exact nomatch none.symm.trans isHeld

theorem Held.setLk [DecidableEq Lock] {lk : Lock} {holder : Option Slot} (held : Held s)
    (free : ∀ q chan, s.point q = .sleepLocked chan lk → holder = some q)
    : Held (s.setLk lk holder) := by
  refine ⟨held.proc, held.cpu, held.oneCpu, held.gone, held.oneGone, fun q chan l here => ?_⟩
  by_cases same : l = lk
  · subst same
    exact (update_self ..).trans (free q chan here)
  · exact (update_of_ne same ..).trans (held.lk q chan l here)

theorem Held.nextTurn {loop : Loop} (held : Held s)
    : Held (s.nextTurn p loop i).2 := by
  rcases nextTurn_cases s p loop i with ⟨j, _, more⟩ | ⟨_, ended⟩
  · rw [more]
    exact held.stay (.inr rfl) rfl (by simp)
  · rw [ended]
    exact held.stay (.inr rfl) rfl (by simp)

/-- A step of a process keeps the locks with their holders. -/
theorem Held.advance [DecidableEq Lock] {result : Outcome Lock × State Lock Cpu} (held : Held s)
    (advanced : Advanced s p result)
    : Held result.2 := by
  cases advanced with
  | yield here | sleep chan lk here => exact held.switchOut (by rw [here]; rfl) rfl
  | back here | unlock lk here | found loop i here =>
    exact held.release (by rw [here]; rfl) rfl rfl
  | sleepRelease chan lk here =>
    have mine := held.lk p chan lk here
    have moved : Held (s.goTo p (.sleepReady chan lk)) :=
      held.stay (.inl (by rw [here]; rfl)) rfl (by simp)
    refine moved.setLk fun q chan' isThere => ?_
    have other : q ≠ p := by
      rintro rfl
      exact nomatch (update_self ..).symm.trans isThere
    have there : s.point q = .sleepLocked chan' lk :=
      (update_of_ne other ..).symm.trans isThere
    exact (other (Option.some.inj ((held.lk q chan' lk there).symm.trans mine))).elim
  | tidy lk here | turn loop i here => exact held.stay (.inl (by rw [here]; rfl)) rfl (by simp)
  | relock lk here free =>
    have taken : Held (s.setLk lk (some p)) :=
      held.setLk fun q chan there => nomatch free.symm.trans (held.lk q chan lk there)
    exact taken.stay (.inr rfl) rfl (by simp)
  | skip loop i here skips => exact held.nextTurn
  | lock loop i here free => exact held.acquire free rfl rfl (by simp)
  | next loop i here =>
    have mine : (s.point p).holds p = some i := by
      rw [here]
      rfl
    rcases nextTurn_cases (s.setPlock i none) p loop i with ⟨j, _, more⟩ | ⟨_, ended⟩
    · rw [more]
      exact held.release mine rfl rfl
    · rw [ended]
      exact held.release mine rfl rfl

section

variable [DecidableEq Cpu] {c : Cpu}

/-- A step of a `scheduler` that runs nobody. -/
theorem Held.schedule {i : Slot} {holder : Option Holder} {point : CpuPoint} (held : Held s)
    (mine : s.plock i = none ∨ (s.cpu c).holds = some i)
    (place : ∀ j, point.holds = some j → j = i ∧ holder = some .scheduler)
    (runsNobody : ∀ p, point ≠ .gone p)
    : Held ((s.setPlock i holder).setCpu c point) := by
  have others {c' : Cpu} {j : Slot} (other : c' ≠ c) (holds : (s.cpu c').holds = some j)
      : j ≠ i := by
    rintro rfl
    rcases mine with free | mine
    · exact nomatch free.symm.trans (held.cpu c' j holds)
    · exact other (held.oneCpu c' c j holds mine)
  have cpuHolds {c' : Cpu} {j : Slot}
      (holds : (((s.setPlock i holder).setCpu c point).cpu c').holds = some j)
      : (c' = c ∧ j = i ∧ holder = some .scheduler)
        ∨ (c' ≠ c ∧ j ≠ i ∧ (s.cpu c').holds = some j) := by
    by_cases me : c' = c
    · simp only [State.setCpu, me, update_self] at holds
      exact .inl ⟨me, place j holds⟩
    · simp only [State.setCpu, update_of_ne me] at holds
      exact .inr ⟨me, others me holds, holds⟩
  have cpuGone {c' : Cpu} {p : Slot}
      (gone : ((s.setPlock i holder).setCpu c point).cpu c' = .gone p)
      : s.cpu c' = .gone p := by
    by_cases me : c' = c
    · simp only [State.setCpu, me, update_self] at gone
      exact (runsNobody p gone).elim
    · simpa only [State.setCpu, State.setPlock, update_of_ne me] using gone
  refine ⟨fun q j holds => ?_, fun c' j holds => ?_, fun c' c'' j holds holds' => ?_,
    fun c' q gone => held.gone c' q (cpuGone gone),
    fun c' c'' q gone gone' => held.oneGone c' c'' q (cpuGone gone) (cpuGone gone'), held.lk⟩
  · have lock := held.proc q j holds
    have other : j ≠ i := by
      rintro rfl
      rcases mine with free | mine
      · exact nomatch free.symm.trans lock
      · exact nomatch (held.cpu c j mine).symm.trans lock
    simpa only [State.setCpu, State.setPlock, update_of_ne other] using lock
  · rcases cpuHolds holds with ⟨_, rfl, isScheduler⟩ | ⟨_, other, holds⟩
    · simpa [State.setCpu, State.setPlock] using isScheduler
    · simpa only [State.setCpu, State.setPlock, update_of_ne other]
        using held.cpu c' j holds
  · rcases cpuHolds holds with ⟨rfl, rfl, _⟩ | ⟨_, other, holds⟩
    · rcases cpuHolds holds' with ⟨rfl, _, _⟩ | ⟨_, other, _⟩
      · rfl
      · exact (other rfl).elim
    · rcases cpuHolds holds' with ⟨_, same, _⟩ | ⟨_, _, holds'⟩
      · exact (other same).elim
      · exact held.oneCpu c' c'' j holds holds'

theorem Point.resume_cases {point : Point Lock} (off : point.executing = false)
    : point.resume = .back ∨ ∃ l, point.resume = .awake l := by
  cases point with
  | off => exact .inl rfl
  | asleep chan l => exact .inr ⟨l, rfl⟩
  | _ => cases off

theorem Point.resume_holds {point : Point Lock} (off : point.executing = false) (p : Slot)
    : point.resume.holds p = some p ∧ point.resume.executing = true := by
  rcases Point.resume_cases off with back | ⟨l, awake⟩
  · rw [back]
    exact ⟨rfl, rfl⟩
  · rw [awake]
    exact ⟨rfl, rfl⟩

/-- A process the scheduler has locked may be switched to. -/
theorem Held.switchIn {p : Slot} (held : Held s) (locked : s.cpu c = .locked p)
    (off : (s.point p).executing = false)
    : Held (s.switchIn c p) := by
  have mine : (s.cpu c).holds = some p := by
    rw [locked]
    rfl
  have lock := held.cpu c p mine
  have point {q : Slot} (other : q ≠ p) : (s.switchIn c p).point q = s.point q :=
    update_of_ne other ..
  have pointHere : (s.switchIn c p).point p = (s.point p).resume := update_self ..
  have plock {i : Slot} (other : i ≠ p) : (s.switchIn c p).plock i = s.plock i :=
    update_of_ne other ..
  have plockHere : (s.switchIn c p).plock p = some (.proc p) := update_self ..
  have cpu {c' : Cpu} (other : c' ≠ c) : (s.switchIn c p).cpu c' = s.cpu c' :=
    update_of_ne other ..
  have cpuHere : (s.switchIn c p).cpu c = .gone p := update_self ..
  have cpuHolds {c' : Cpu} {j : Slot} (holds : ((s.switchIn c p).cpu c').holds = some j)
      : j ≠ p ∧ (s.cpu c').holds = some j := by
    have other : c' ≠ c := by
      rintro rfl
      rw [cpuHere] at holds
      cases holds
    rw [cpu other] at holds
    refine ⟨?_, holds⟩
    rintro rfl
    exact other (held.oneCpu c' c j holds mine)
  have cpuGone {c' : Cpu} {q : Slot} (gone : (s.switchIn c p).cpu c' = .gone q)
      : (c' = c ∧ q = p) ∨ (q ≠ p ∧ s.cpu c' = .gone q) := by
    by_cases me : c' = c
    · rw [me, cpuHere] at gone
      exact .inl ⟨me, (CpuPoint.gone.inj gone).symm⟩
    · rw [cpu me] at gone
      refine .inr ⟨?_, gone⟩
      rintro rfl
      exact nomatch off.symm.trans (held.gone c' q gone)
  refine ⟨fun q j holds => ?_, fun c' j holds => ?_, fun c' c'' j holds holds' => ?_,
    fun c' q gone => ?_, fun c' c'' q gone gone' => ?_, fun q chan l here => ?_⟩
  · by_cases me : q = p
    · subst me
      rw [pointHere, (Point.resume_holds off q).1] at holds
      cases holds
      exact plockHere
    · rw [point me] at holds
      have other : j ≠ p := by
        rintro rfl
        exact nomatch lock.symm.trans (held.proc q j holds)
      rw [plock other]
      exact held.proc q j holds
  · obtain ⟨other, holds⟩ := cpuHolds holds
    rw [plock other]
    exact held.cpu c' j holds
  · exact held.oneCpu c' c'' j (cpuHolds holds).2 (cpuHolds holds').2
  · rcases cpuGone gone with ⟨_, rfl⟩ | ⟨other, gone⟩
    · rw [pointHere]
      exact (Point.resume_holds off q).2
    · rw [point other]
      exact held.gone c' q gone
  · rcases cpuGone gone with ⟨rfl, rfl⟩ | ⟨other, gone⟩
    · rcases cpuGone gone' with ⟨rfl, _⟩ | ⟨other, _⟩
      · rfl
      · exact (other rfl).elim
    · rcases cpuGone gone' with ⟨_, same⟩ | ⟨_, gone'⟩
      · exact (other same).elim
      · exact held.oneGone c' c'' q gone gone'
  · by_cases me : q = p
    · subst me
      rw [pointHere] at here
      rcases Point.resume_cases off with back | ⟨l, awake⟩
      · exact nomatch back.symm.trans here
      · exact nomatch awake.symm.trans here
    · rw [point me] at here
      exact held.lk q chan l here

variable [DecidableEq Lock]

/-- Each step of the scheduler keeps the locks with their holders. -/
theorem Held.step {entry : Action Lock Cpu × Outcome Lock} (held : Held before)
    (fits : ∀ p, Fits (before.point p) (before.table.proc p)) (taken : Step before entry after)
    : Held after := by
  obtain ⟨action, outcome⟩ := entry
  obtain ⟨enabled, rfl, rfl⟩ := taken.inv
  cases action with
  | acquire p lk =>
    exact held.setLk fun q chan there => nomatch enabled.2.symm.trans (held.lk q chan lk there)
  | release p lk =>
    refine held.setLk fun q chan there => ?_
    have same : p = q := Option.some.inj (enabled.2.symm.trans (held.lk q chan lk there))
    subst same
    exact nomatch enabled.1.symm.trans there
  | yield p => exact held.acquire enabled.2.1 rfl rfl (by simp)
  | sleep p chan lk =>
    refine held.acquire enabled.2.1 rfl rfl fun chan' l same => ?_
    cases same
    exact (enabled.2.2 lk).mpr rfl
  | call p loop => exact held.stay (.inr rfl) rfl (by simp)
  | advance p => exact held.advance (advance_cases enabled)
  | scheduler c =>
    simp only [Action.run, State.schedule]
    cases here : before.cpu c with
    | scan p =>
      have free : before.plock p = none := by
        have ready : (before.cpu c).Ready before := enabled
        rwa [here] at ready
      exact held.schedule (.inl free) (fun j same => ⟨(Option.some.inj same).symm, rfl⟩) (by simp)
    | locked p =>
      have mine : (before.cpu c).holds = some p := by
        rw [here]
        rfl
      dsimp only
      split_ifs with isRunnable
      · exact held.switchIn here ((fits p).runnable isRunnable)
      · have same : before.setPlock p (some .scheduler) = before := by
          rw [← held.cpu c p mine, State.setPlock, update_eq_self]
        rw [← same]
        exact held.schedule (.inr mine) (fun j same => ⟨(Option.some.inj same).symm, rfl⟩) (by simp)
    | leave p => exact held.schedule (.inr (by rw [here]; rfl)) (by simp [CpuPoint.holds]) (by simp)
    | gone p => exact held

end

-- Processes and their slots

/-- An entry that is not asleep fits a point under the two conditions that remain. -/
theorem Fits.of_awake {pr : Proc} (notSleeping : pr.state ≠ .sleeping)
    (runnable : pr.state = .runnable → point.executing = false)
    (tidy : ∀ l, point = .tidy l ∨ point = .relock l → pr.chan = none)
    : Fits point pr :=
  ⟨fun asleep => (notSleeping asleep).elim, runnable, tidy⟩

theorem Fits.executing {point : Point Lock} {pr : Proc} (fits : Fits point pr)
    (executing : point.executing = true)
    : pr.state ≠ .sleeping ∧ pr.state ≠ .runnable := by
  refine ⟨fun asleep => ?_, fun runnable => ?_⟩
  · obtain ⟨chan, l, rfl, _⟩ := fits.sleeping asleep
    cases executing
  · exact nomatch (fits.runnable runnable).symm.trans executing

theorem Fits.goOn {point' : Point Lock} {pr : Proc} (fits : Fits point pr)
    (executing : point.executing = true)
    (tidy : ∀ l, point' = .tidy l ∨ point' = .relock l → pr.chan = none)
    : Fits point' pr :=
  have awake := fits.executing executing
  .of_awake awake.1 (fun runnable => (awake.2 runnable).elim) tidy

/-- A turn of a loop wakes a sleeper at most. -/
theorem Fits.turn {t : Table} (fits : Fits point (t.proc i)) (loop : Loop)
    : Fits point ((loop.turn t i).proc i) := by
  have woken {pr : Proc} (slept : (t.proc i).state = .sleeping) (state : pr.state = .runnable)
      : Fits point pr := by
    obtain ⟨chan, l, rfl, _⟩ := fits.sleeping slept
    refine .of_awake (by rw [state]; decide) (fun _ => rfl) fun l' either => ?_
    exact either.elim (by simp) (by simp)
  cases loop with
  | wakeup chan =>
    simp only [Loop.turn, wakeupTurn]
    split_ifs with slept
    · rw [Table.set_proc_self]
      exact woken slept.1 rfl
    · exact fits
  | kkill pid =>
    simp only [Loop.turn, kkillTurn]
    split_ifs with same slept
    · rw [Table.set_proc_self]
      exact woken slept rfl
    · rw [Table.set_proc_self]
      exact ⟨fits.sleeping, fits.runnable, fits.tidy⟩
    · exact fits

theorem Loop.turn_other {t : Table} {q : Slot} (loop : Loop) (other : q ≠ i)
    : (loop.turn t i).proc q = t.proc q := by
  cases loop with
  | wakeup chan =>
    simp only [Loop.turn, wakeupTurn]
    split_ifs
    · exact Table.set_proc_other _ _ other
    · rfl
  | kkill pid =>
    simp only [Loop.turn, kkillTurn]
    split_ifs
    · exact Table.set_proc_other _ _ other
    · exact Table.set_proc_other _ _ other
    · rfl

/-- Every process fits its slot. -/
def AllFit (s : State Lock Cpu) : Prop :=
  ∀ p, Fits (s.point p) (s.table.proc p)

/-- One process changes its point and its entry, the others still fit. -/
theorem AllFit.set {value : Proc} (fits : AllFit s) (mine : Fits point value)
    : ∀ q, Fits (update s.point p point q) ((s.table.set p value).proc q) := by
  intro q
  by_cases here : q = p
  · subst here
    rw [update_self, Table.set_proc_self]
    exact mine
  · rw [update_of_ne here, Table.set_proc_other _ _ here]
    exact fits q

theorem AllFit.stay (fits : AllFit s) (executing : (s.point p).executing = true)
    (tidy : ∀ l, point = .tidy l ∨ point = .relock l → (s.table.proc p).chan = none)
    : ∀ q, Fits (update s.point p point q) (s.table.proc q) := by
  intro q
  by_cases here : q = p
  · subst here
    rw [update_self]
    exact (fits q).goOn executing tidy
  · rw [update_of_ne here]
    exact fits q

theorem AllFit.nextTurn {loop : Loop} (fits : AllFit s) (executing : (s.point p).executing = true)
    : AllFit (s.nextTurn p loop i).2 := by
  rcases nextTurn_cases s p loop i with ⟨j, _, more⟩ | ⟨_, ended⟩
  · rw [more]
    exact fits.stay executing fun l either => either.elim (by simp) (by simp)
  · rw [ended]
    exact fits.stay executing fun l either => either.elim (by simp) (by simp)

/-- A step of a process keeps every entry fitting its point. -/
theorem AllFit.advance [DecidableEq Lock] {result : Outcome Lock × State Lock Cpu} (fits : AllFit s)
    (advanced : Advanced s p result)
    : AllFit result.2 := by
  cases advanced with
  | yield here =>
    exact fits.set
      (.of_awake (by simp) (fun _ => rfl) fun l either => either.elim (by simp) (by simp))
  | sleep chan lk here =>
    exact fits.set
      ⟨fun _ => ⟨chan, lk, rfl, rfl⟩, (by simp), fun l either => either.elim (by simp) (by simp)⟩
  | tidy lk here =>
    have awake := (fits p).executing (by rw [here]; rfl)
    exact fits.set
      (.of_awake awake.1 (fun runnable => (awake.2 runnable).elim) fun _ _ => rfl)
  | unlock lk here =>
    exact fits.stay (by rw [here]; rfl) fun l _ => (fits p).tidy lk (.inl here)
  | back here | sleepRelease chan lk here | relock lk here free | lock loop i here free
  | found loop i here =>
    exact fits.stay (by rw [here]; rfl) fun l either => either.elim (by simp) (by simp)
  | skip loop i here skips => exact fits.nextTurn (by rw [here]; rfl)
  | next loop i here =>
    exact AllFit.nextTurn (s := s.setPlock i none) fits (by
      change (s.point p).executing = true
      rw [here]
      rfl)
  | turn loop i here =>
    have turned : AllFit { s with table := loop.turn s.table i } := by
      intro q
      by_cases this : q = i
      · subst this
        exact (fits q).turn loop
      · rw [loop.turn_other this]
        exact fits q
    refine turned.stay ?_ fun l either => either.elim (by simp) (by simp)
    rw [here]
    rfl

section

variable [DecidableEq Lock] [DecidableEq Cpu] {entry : Action Lock Cpu × Outcome Lock}

/-- Each step keeps every entry of the table fitting the point of its process. -/
theorem AllFit.step (fits : AllFit before) (taken : Step before entry after)
    : AllFit after := by
  obtain ⟨action, outcome⟩ := entry
  obtain ⟨enabled, rfl, rfl⟩ := taken.inv
  cases action with
  | acquire p lk | release p lk => exact fits
  | yield p | sleep p chan lk =>
    exact fits.stay (by rw [enabled.1]; rfl) fun l either => either.elim (by simp) (by simp)
  | call p loop =>
    have here : before.point p = .run := enabled
    exact fits.stay (by rw [here]; rfl) fun l either => either.elim (by simp) (by simp)
  | advance p => exact fits.advance (advance_cases enabled)
  | scheduler c =>
    simp only [Action.run, State.schedule]
    cases before.cpu c with
    | scan p | leave p | gone p => exact fits
    | locked p =>
      dsimp only
      split_ifs with isRunnable
      · have off := (fits p).runnable isRunnable
        refine fits.set (.of_awake (by simp) (by simp) fun l either => ?_)
        rcases Point.resume_cases off with back | ⟨l, awake⟩
        · rw [back] at either
          exact either.elim (by simp) (by simp)
        · rw [awake] at either
          exact either.elim (by simp) (by simp)
      · exact fits

end

end Xv6.Process.Locking

import Xv6.Process.Family

/-! How `kexit` and `kwait` pair up: each exit leaves one record, which stays with the zombie
until a `kwait` of its parent takes it, and nobody sleeps in `kwait` past a zombie child.
-/

namespace Xv6.Process.System

open Function Library

variable {old new pr : Proc} {t : Table} {p : Slot}

/-- What the exit of a process leaves for `kwait`, and who is to take it. -/
structure Exit where
  pid : BitVec 32
  status : BitVec 32
  parent : Option Slot
  deriving DecidableEq

/-- A record goes to `initproc` when the parent exits before it has taken it. -/
def Exit.handOver (exit : Exit) (p : Slot) (initproc : Option Slot) : Exit :=
  if exit.parent = some p then { exit with parent := initproc } else exit

/-- How a step changes the record of slot `pp`. -/
def Exit.next (pp : Slot) (before : State) (exit : Option Exit) : Action × Outcome → Option Exit
  | (.kexit p status, _) =>
    if p = pp then
      some ⟨(before.table.proc p).pid, status, (before.table.proc p).parent⟩
    else
      exit.map (·.handOver p before.table.initproc)
  | (_, .reported child _ _) => if child = pp then none else exit
  | _ => exit

/-- The exit of the process in slot `pp` that no `kwait` has reported yet. -/
def exitOf (pp : Slot) : History → Option Exit
  | [] => none
  | (entry, before) :: earlier => Exit.next pp before (exitOf pp earlier) entry

/-- Whether the step is an exit of the process in slot `pp`. -/
def Exits (pp : Slot) : Action × Outcome → Bool
  | (.kexit p _, _) => p == pp
  | _ => false

/-- Whether the step reports the process in slot `pp`. -/
def Reports (pp : Slot) : Action × Outcome → Bool
  | (_, .reported child _ _) => child == pp
  | _ => false

def exits (pp : Slot) (history : History) : Nat :=
  history.countP (fun entry => Exits pp entry.1)

def reports (pp : Slot) (history : History) : Nat :=
  history.countP (fun entry => Reports pp entry.1)

/-- No zombie has `p` as its parent. -/
def NoZombie (t : Table) (p : Slot) : Prop :=
  ∀ pp, (t.proc pp).parent = some p → (t.proc pp).state ≠ .zombie

variable {before after : State} {entry : Action × Outcome} {history : History} {pp : Slot}

-- What one step does to one slot

/-- A zombie stays what it is, and nothing else becomes one. -/
structure Persists (old new : Proc) : Prop where
  zombie : new.state = .zombie ↔ old.state = .zombie
  same
    : old.state = .zombie
      → new.pid = old.pid ∧ new.xstate = old.xstate ∧ new.parent = old.parent

/-- What stays keeps its exit. -/
theorem Stays.persists (stays : Stays old new) : Persists old new :=
  ⟨stays.state_iff rfl,
    fun zombie => ⟨(stays.zombie zombie).1, (stays.zombie zombie).2, stays.parent⟩⟩

theorem Persists.refl (old : Proc) : Persists old old := Stays.persists (.refl old)

/-- What has not exited has no exit to keep. -/
theorem Persists.of_not_zombie (notOld : old.state ≠ .zombie) (notNew : new.state ≠ .zombie)
    : Persists old new :=
  ⟨⟨fun zombie => (notNew zombie).elim, fun zombie => (notOld zombie).elim⟩,
    fun zombie => (notOld zombie).elim⟩

/-- A step leaves the zombie in slot `pp`, or makes one of the process there, or hands it over,
or takes it away.
-/
inductive Fate (pp : Slot) (before after : State) : Action × Outcome → Prop
  | kept {entry : Action × Outcome} (noExit : ∀ p status, entry.1 ≠ .kexit p status)
    (noReport : ∀ pid status, entry.2 ≠ .reported pp pid status)
    (persists : Persists (before.table.proc pp) (after.table.proc pp))
    : Fate pp before after entry
  | exited {status : BitVec 32} (running : (before.table.proc pp).state = .running)
    (zombie : (after.table.proc pp).state = .zombie)
    (xstate : (after.table.proc pp).xstate = status)
    (pid : (after.table.proc pp).pid = (before.table.proc pp).pid)
    (parent : (after.table.proc pp).parent = (before.table.proc pp).parent)
    : Fate pp before after (.kexit pp status, .done)
  | adopted {p : Slot} {status : BitVec 32} (other : p ≠ pp)
    (adopted : Adopted p before.table.initproc (before.table.proc pp) (after.table.proc pp))
    : Fate pp before after (.kexit p status, .done)
  | reported {p : Slot} {copyoutOk : Bool} (zombie : (before.table.proc pp).state = .zombie)
    (parent : (before.table.proc pp).parent = some p)
    (gone : (after.table.proc pp).state = .unused)
    : Fate pp before after
        (.kwait p copyoutOk,
          .reported pp (before.table.proc pp).pid (before.table.proc pp).xstate)

/-- `kwait` finds a child that has exited. -/
theorem zombieChild_some {child : Slot} (found : zombieChild t p = some child)
    : (t.proc child).parent = some p ∧ (t.proc child).state = .zombie := by
  simpa using Table.scan_some found

/-- It finds none only if there is none. -/
theorem zombieChild_none (none : zombieChild t p = none)
    : NoZombie t p := by
  intro pp isParent isZombie
  have failed := List.find?_eq_none.mp none pp (List.mem_finRange pp)
  simp [isParent, isZombie] at failed

/-- Steps that neither exit nor report. -/
theorem Fate.of_stays {action : Action} {outcome : Outcome}
    (stays : ∀ i, Stays (before.table.proc i) (after.table.proc i))
    (noExit : ∀ p status, action ≠ .kexit p status)
    (noReport : ∀ child pid status, outcome ≠ .reported child pid status)
    : Fate pp before after (action, outcome) :=
  .kept noExit (noReport pp) (Stays.persists (stays pp))

/-- The first process starts alive. -/
theorem userinit_not_zombie (unused : (t.proc pp).state = .unused)
    : ((userinit t).proc pp).state ≠ .zombie := by
  unfold userinit allocproc
  cases t.scan (fun p => p.state == .unused) with
  | none =>
    rw [unused]
    decide
  | some p =>
    by_cases here : pp = p
    · simp [here]
    · simp only [Table.set_proc_other _ _ here]
      change (t.proc pp).state ≠ .zombie
      rw [unused]
      decide

/-- What a step can do to the exit of a process. -/
theorem Step.fate (family : Family before) (taken : Step before entry after) (pp : Slot)
    : Fate pp before after entry := by
  obtain ⟨action, outcome⟩ := entry
  obtain ⟨enabled, rfl, rfl⟩ := taken.inv
  have live {p : Slot} (running : (before.table.proc p).state = .running)
      : (before.table.proc p).state.live = true := by
    rw [running]
    rfl
  cases action with
  | userinit =>
    have unused := family.kin.started enabled pp
    exact .kept (by simp) (by simp [Action.run])
      (.of_not_zombie (by rw [unused]; decide) (userinit_not_zombie unused))
  | kforkAlloc p np memory uvmcopyOk =>
    simp only [Action.run]
    split
    · next t failed =>
        exact .of_stays (kforkTurn_refused family.kin.free failed).stays (by simp) (by simp)
    · next np' t forked =>
        have taken := kforkTurn_taken forked
        refine .kept (by simp) (by simp) ?_
        by_cases here : pp = np'
        · subst here
          refine .of_not_zombie (by rw [taken.free]; decide) ?_
          change (t.proc pp).state ≠ .zombie
          rw [taken.used]
          decide
        · change Persists _ (t.proc pp)
          rw [taken.others pp here]
          exact .refl _
  | kforkParent p np =>
    have used : (before.table.proc np).state = .used :=
      (family.forks.owns p).used (by rw [enabled.2]; rfl)
    refine .kept (by simp) (by simp [Action.run]) ?_
    change Persists _ ((kforkParent before.table np p).proc pp)
    by_cases here : pp = np
    · subst here
      refine .of_not_zombie (by rw [used]; decide) ?_
      rw [kforkParent_state, used]
      decide
    · rw [kforkParent, Table.set_proc_other _ _ here]
      exact .refl _
  | kforkRunnable p np =>
    have used : (before.table.proc np).state = .used :=
      (family.forks.owns p).used (by rw [enabled.2]; rfl)
    refine .kept (by simp) (by simp [Action.run]) ?_
    change Persists _ ((kforkRunnable before.table np).proc pp)
    by_cases here : pp = np
    · subst here
      refine .of_not_zombie (by rw [used]; decide) ?_
      rw [kforkRunnable, Table.set_proc_self]
      simp
    · rw [kforkRunnable, Table.set_proc_other _ _ here]
      exact .refl _
  | kexit p status =>
    by_cases here : p = pp
    · subst here
      obtain ⟨zombie, xstate, pid, parent⟩ := kexit_self before.table p status
      rw [if_neg (family.kin.notOwn p)] at parent
      exact .exited enabled.1.1 zombie xstate pid parent
    · exact .adopted here (kexit_adopted before.table p status (Ne.symm here))
  | kwait p copyoutOk =>
    have waited := kwait_cases before p copyoutOk
    generalize Action.run before (.kwait p copyoutOk) = result at waited ⊢
    cases waited with
    | reported child found ok =>
      obtain ⟨isParent, zombie⟩ := zombieChild_some found
      by_cases here : pp = child
      · subst here
        exact .reported zombie isParent (by simp [State.goTo, freeproc])
      · refine .kept (by simp) (fun pid status same => here ?_) ?_
        · cases same
          rfl
        · change Persists _ ((freeproc before.table child).proc pp)
          rw [freeproc, Table.set_proc_other _ _ here]
          exact .refl _
    | faulted child found fault | gaveUp none reason | slept none =>
      exact .of_stays (fun i => .refl _) (by simp) (by simp)
  | kwaitSleep p | sleep p address | yield p =>
    exact .of_stays (Stays.of_set (.of_live (live enabled.1) rfl rfl)) (by simp)
      (by simp [Action.run])
  | wakeup p address => exact .of_stays (Stays.wakeupTurn _ _ _) (by simp) (by simp [Action.run])
  | schedule p =>
    refine .of_stays ?_ (by simp) (by simp [Action.run])
    rcases resume_cases before p with ⟨_, same⟩ | ⟨_, same⟩ | same
    all_goals simp only [Action.run, same]
    · exact .wake_schedule enabled.1
    · exact .wake_schedule enabled.1
    · exact .schedule enabled.1
  | kkill p pid => exact .of_stays (Stays.kkillTurn _ _ _) (by simp) (by simp [Action.run])
  | setkilled p =>
    exact .of_stays (Stays.of_set (.of_live (live enabled.1) (live enabled.1) rfl)) (by simp)
      (by simp [Action.run])

-- Records of exits

/-- The record that the slot itself holds. -/
def exitRecord (pr : Proc) : Option Exit :=
  if pr.state = .zombie then some ⟨pr.pid, pr.xstate, pr.parent⟩ else none

theorem exitRecord_zombie (zombie : pr.state = .zombie)
    : exitRecord pr = some ⟨pr.pid, pr.xstate, pr.parent⟩ :=
  if_pos zombie

theorem exitRecord_none (notZombie : pr.state ≠ .zombie) : exitRecord pr = none :=
  if_neg notZombie

/-- A record is that of a zombie. -/
theorem exitRecord_some {exit : Exit} (isExit : exitRecord pr = some exit)
    : pr.state = .zombie ∧ pr.pid = exit.pid ∧ pr.xstate = exit.status
      ∧ pr.parent = exit.parent := by
  by_cases zombie : pr.state = .zombie
  · rw [exitRecord_zombie zombie] at isExit
    cases isExit
    exact ⟨zombie, rfl, rfl, rfl⟩
  · rw [exitRecord_none zombie] at isExit
    cases isExit

/-- A zombie keeps its pid, status and parent. -/
theorem exitRecord_persists (persists : Persists old new)
    : exitRecord new = exitRecord old := by
  by_cases zombie : old.state = .zombie
  · obtain ⟨pid, xstate, parent⟩ := persists.same zombie
    rw [exitRecord_zombie zombie, exitRecord_zombie (persists.zombie.mpr zombie), pid, xstate,
      parent]
  · rw [exitRecord_none zombie, exitRecord_none fun now => zombie (persists.zombie.mp now)]

/-- A zombie that is adopted changes its parent only. -/
theorem exitRecord_adopted {init : Option Slot} (adopted : Adopted p init old new)
    : exitRecord new = (exitRecord old).map (·.handOver p init) := by
  by_cases zombie : old.state = .zombie
  · have now : new.state = .zombie := by
      rcases adopted.state with same | ⟨live, _⟩
      · exact same.trans zombie
      · rw [zombie] at live
        cases live
    rw [exitRecord_zombie zombie, exitRecord_zombie now, adopted.pid, adopted.xstate,
      adopted.parent]
    simp only [Option.map_some, Exit.handOver]
    split_ifs <;> rfl
  · have now : new.state ≠ .zombie := by
      rcases adopted.state with same | ⟨_, live⟩
      · exact same ▸ zombie
      · intro isZombie
        rw [isZombie] at live
        cases live
    rw [exitRecord_none zombie, exitRecord_none now]
    rfl

/-- Other steps leave the record. -/
theorem Exit.next_kept {exit : Option Exit} (noExit : ∀ p status, entry.1 ≠ .kexit p status)
    (noReport : ∀ pid status, entry.2 ≠ .reported pp pid status)
    : Exit.next pp before exit entry = exit := by
  unfold Exit.next
  split
  · next p status _ => exact (noExit p status rfl).elim
  · next child pid status _ =>
      refine if_neg ?_
      rintro rfl
      exact noReport pid status rfl
  · rfl

/-- A step changes the record in the slot as it changes the record of the history. -/
theorem Fate.record (fate : Fate pp before after entry)
    : exitRecord (after.table.proc pp)
      = Exit.next pp before (exitRecord (before.table.proc pp)) entry := by
  cases fate with
  | kept noExit noReport persists =>
    rw [Exit.next_kept noExit noReport]
    exact exitRecord_persists persists
  | exited running zombie xstate pid parent =>
    rw [exitRecord_zombie zombie, xstate, pid, parent]
    simp [Exit.next]
  | adopted other adopted =>
    rw [exitRecord_adopted adopted]
    simp [Exit.next, other]
  | reported zombie parent gone =>
    rw [exitRecord_none (by rw [gone]; decide)]
    simp [Exit.next]

/-- Exits are reported once each, except for the one that is still to be. -/
theorem Fate.counts (fate : Fate pp before after entry)
    : (if Exits pp entry then 1 else 0) + (exitRecord (before.table.proc pp)).toList.length
      = (if Reports pp entry then 1 else 0) + (exitRecord (after.table.proc pp)).toList.length := by
  cases fate with
  | kept noExit noReport persists =>
    have notExits : Exits pp entry = false := by
      unfold Exits
      split
      · next p status _ => exact (noExit p status rfl).elim
      · rfl
    have notReports : Reports pp entry = false := by
      unfold Reports
      split
      · next child pid status =>
          refine beq_eq_false_iff_ne.mpr ?_
          rintro rfl
          exact noReport pid status rfl
      · rfl
    rw [notExits, notReports, exitRecord_persists persists]
  | exited running zombie xstate pid parent =>
    rw [exitRecord_zombie zombie, exitRecord_none (by rw [running]; decide)]
    simp [Exits, Reports]
  | adopted other adopted =>
    rw [exitRecord_adopted adopted]
    cases exitRecord (before.table.proc pp) <;> simp [Exits, Reports, other]
  | reported zombie parent gone =>
    rw [exitRecord_zombie zombie, exitRecord_none (by rw [gone]; decide)]
    simp [Exits, Reports]

/-- The zombies of the table are the exits that nobody has reported. -/
structure Recorded (history : History) (s : State) : Prop where
  family : Family s
  exit : ∀ pp, exitOf pp history = exitRecord (s.table.proc pp)
  counts
    : ∀ pp, exits pp history
        = reports pp history + (exitRecord (s.table.proc pp)).toList.length

/-- The records follow every step. -/
theorem Recorded.step (recorded : Recorded history before) (taken : Step before entry after)
    : Recorded ((entry, before) :: history) after := by
  refine ⟨recorded.family.step taken, fun pp => ?_, fun pp => ?_⟩
  · rw [exitOf, recorded.exit pp]
    exact (taken.fate recorded.family pp).record.symm
  · have counts := (taken.fate recorded.family pp).counts
    have earlier := recorded.counts pp
    simp only [exits, reports, List.countP_cons] at earlier ⊢
    omega

theorem Recorded.boot : Recorded [] boot :=
  ⟨.boot, fun _ => rfl, fun _ => rfl⟩

-- Nobody waits past a zombie

/-- A process on its way to sleep in `kwait`, or asleep there, has no zombie child. -/
structure Waits (s : State) : Prop where
  dozing : ∀ p, s.point p = .dozing → NoZombie s.table p
  waiting
    : ∀ p, s.point p = .waiting → (s.table.proc p).state = .sleeping
      → (s.table.proc p).chan = some (.proc p) ∧ NoZombie s.table p

/-- Without an exit no child becomes a zombie. -/
theorem Fate.noZombie (fate : ∀ pp, Fate pp before after entry)
    (noExit : ∀ p status, entry.1 ≠ .kexit p status) (none : NoZombie before.table p)
    : NoZombie after.table p := by
  intro pp isParent zombie
  cases fate pp with
  | kept _ _ persists =>
    have earlier := persists.zombie.mp zombie
    obtain ⟨_, _, parent⟩ := persists.same earlier
    exact none pp (parent ▸ isParent) earlier
  | exited | adopted => exact noExit _ _ rfl
  | reported _ _ gone => exact nomatch gone.symm.trans zombie

/-- Whoever sleeps after a `wakeup` slept elsewhere before. -/
theorem wakeup_asleep {me : Option Slot} {chan : Option Chan} {q : Slot}
    (asleep : ((wakeup t me chan).proc q).state = .sleeping)
    : (wakeup t me chan).proc q = t.proc q ∧ (some q ≠ me → (t.proc q).chan ≠ chan) := by
  simp only [wakeup] at asleep ⊢
  split_ifs at asleep ⊢ with woken
  · exact ⟨rfl, fun other same => woken ⟨other, asleep, same⟩⟩

/-- The exit of `p` wakes the parent of every zombie it makes or hands over. -/
theorem kexit_asleep {q : Slot} {status : BitVec 32} (other : q ≠ p)
    (asleep : ((kexit t p status).proc q).state = .sleeping)
    : (t.proc q).state = .sleeping
      ∧ ((kexit t p status).proc q).chan = (t.proc q).chan
      ∧ ((t.proc q).chan = some (.proc q)
        → ((reparent t p).proc p).parent ≠ some q
          ∧ ∀ pp, (t.proc pp).parent = some p → t.initproc ≠ some q) := by
  have notMe : some q ≠ some p := fun same => other (Option.some.inj same)
  rw [kexit, Table.set_proc_other _ _ other] at asleep ⊢
  obtain ⟨same, notParent⟩ := wakeup_asleep asleep
  rw [same] at asleep ⊢
  have loop : ((reparentLoop t p).proc q).state = (t.proc q).state
      ∧ ((reparentLoop t p).proc q).chan = (t.proc q).chan := by
    simp only [reparentLoop]
    split_ifs <;> exact ⟨rfl, rfl⟩
  have reparented : (reparent t p).proc q = (reparentLoop t p).proc q
      ∧ ∀ pp, (t.proc pp).parent = some p
        → ((reparentLoop t p).proc q).chan ≠ t.initproc.map .proc := by
    unfold reparent at asleep ⊢
    dsimp only at asleep ⊢
    split_ifs at asleep ⊢ with orphan
    · obtain ⟨same, notInit⟩ := wakeup_asleep asleep
      exact ⟨same, fun _ _ => notInit notMe⟩
    · refine ⟨rfl, fun pp isParent => ?_⟩
      refine (orphan (List.any_eq_true.mpr ⟨pp, List.mem_finRange pp, ?_⟩)).elim
      rw [isParent, beq_self_eq_true]
  rw [reparented.1] at asleep notParent ⊢
  refine ⟨loop.1 ▸ asleep, loop.2, fun onSelf => ⟨fun isParent => ?_, fun pp isParent isInit => ?_⟩⟩
  · exact notParent notMe (by rw [loop.2, onSelf, isParent]; rfl)
  · exact reparented.2 pp isParent (by rw [loop.2, onSelf, isInit]; rfl)

/-- `kexit` wakes the parent that waits for it. -/
theorem Waits.kexit (waits : Waits before) {p : Slot} {status : BitVec 32}
    (here : before.point p = .run) (unlocked : ∀ q, before.unlocked q)
    : Waits (before.stayWith (kexit before.table p status)) := by
  refine ⟨fun q dozing => (unlocked q dozing).elim, fun q isWaiting asleep => ?_⟩
  have other : q ≠ p := by
    rintro rfl
    exact nomatch here.symm.trans isWaiting
  obtain ⟨slept, chan, notWoken⟩ := kexit_asleep other asleep
  obtain ⟨onSelf, none⟩ := waits.waiting q isWaiting slept
  obtain ⟨notParent, notInit⟩ := notWoken onSelf
  refine ⟨chan.trans onSelf, fun pp isParent zombie => ?_⟩
  by_cases isExit : pp = p
  · subst isExit
    obtain ⟨_, _, _, parent⟩ := kexit_self before.table pp status
    have reparented := (Adopted.reparent before.table pp pp).parent
    exact notParent (reparented.trans (parent.symm.trans isParent))
  · have adopted := kexit_adopted before.table p status isExit
    have zombie' : (before.table.proc pp).state = .zombie := by
      rcases adopted.state with same | ⟨_, live⟩
      · exact same.symm.trans zombie
      · rw [show ((Process.kexit before.table p status).proc pp).state = .zombie from zombie]
          at live
        cases live
    have parent := adopted.parent.symm.trans isParent
    split_ifs at parent with child
    · exact notInit pp child parent
    · exact none pp parent zombie'

/-- Whoever is asleep after the section has not been touched by it. -/
def Undisturbed (t t' : Table) : Prop :=
  ∀ q, (t'.proc q).state = .sleeping → t'.proc q = t.proc q

/-- A process that is awake disturbs no sleeper. -/
theorem Undisturbed.set {value : Proc} (awake : value.state ≠ .sleeping)
    : Undisturbed t (t.set p value) := by
  intro q asleep
  by_cases here : q = p
  · rw [here, Table.set_proc_self] at asleep
    exact (awake asleep).elim
  · exact Table.set_proc_other _ _ here

theorem Undisturbed.trans {t' t'' : Table} (first : Undisturbed t t') (second : Undisturbed t' t'')
    : Undisturbed t t'' := by
  intro q asleep
  have same := second q asleep
  rw [same] at asleep ⊢
  exact first q asleep

theorem Undisturbed.allocprocFound (t : Table) (p : Slot) (memory : Memory)
    : Undisturbed t (allocprocFound t p memory).2 := by
  have used : Undisturbed t ((allocpid t).2.set p
      { (allocpid t).2.proc p with pid := (allocpid t).1, state := .used }) :=
    Undisturbed.set (t := (allocpid t).2) (by simp)
  cases memory with
  | noTrapframe | noPagetable => exact used.trans (.set (by simp))
  | ok => exact used

/-- `kfork` does not touch sleepers. -/
theorem Undisturbed.kforkTurn (t : Table) (np : Slot) (memory : Memory) (uvmcopyOk : Bool)
    : Undisturbed t (kforkTurn t np memory uvmcopyOk).2 := by
  have allocated := Undisturbed.allocprocFound t np memory
  by_cases unused : (t.proc np).state = .unused
  · rw [Process.kforkTurn, if_pos unused]
    generalize Process.allocprocFound t np memory = result at allocated ⊢
    rcases result with ⟨_ | np', t'⟩
    · exact allocated
    · cases uvmcopyOk with
      | true => exact allocated
      | false => exact allocated.trans (.set (by simp))
  · rw [Process.kforkTurn, if_neg unused]
    exact fun q _ => rfl

theorem Undisturbed.userinit (t : Table) : Undisturbed t (userinit t) := by
  unfold Process.userinit allocproc
  cases t.scan (fun p => p.state == .unused) with
  | none => exact fun q _ => rfl
  | some p => exact (allocprocFound t p .ok).trans (.set (by simp))

/-- A turn of `wakeup` makes fewer sleepers. -/
theorem Undisturbed.wakeupTurn (t : Table) (p : Slot) (chan : Chan)
    : Undisturbed t (wakeupTurn t p chan) := by
  unfold Process.wakeupTurn
  split_ifs
  · exact .set (by simp)
  · exact fun q _ => rfl

/-- So does a turn of `kkill`. -/
theorem Undisturbed.kkillTurn (t : Table) (p : Slot) (pid : BitVec 32)
    : Undisturbed t (kkillTurn t p pid) := by
  unfold Process.kkillTurn
  dsimp only
  split_ifs with _ asleep
  · exact .set (by simp)
  · exact .set asleep
  · exact fun q _ => rfl

/-- A step without an exit leaves nobody waiting in vain. -/
theorem Waits.stay (waits : Waits before) (fate : ∀ pp, Fate pp before (before.stayWith t) entry)
    (noExit : ∀ p status, entry.1 ≠ .kexit p status) (undisturbed : Undisturbed before.table t)
    : Waits (before.stayWith t) := by
  refine ⟨fun q dozing => ?_, fun q isWaiting asleep => ?_⟩
  · exact Fate.noZombie fate noExit (waits.dozing q dozing)
  · have same : (before.stayWith t).table.proc q = before.table.proc q := undisturbed q asleep
    rw [same] at asleep ⊢
    obtain ⟨onSelf, none⟩ := waits.waiting q isWaiting asleep
    exact ⟨onSelf, Fate.noZombie fate noExit none⟩

/-- Sections that make no zombies and move their process on: it dozes when it has looked at its
children, and sleeps in `kwait` when it has dozed.
-/
theorem Waits.move {point : Point} (waits : Waits before)
    (fate : ∀ pp, Fate pp before (before.goTo t p point) entry)
    (noExit : ∀ p status, entry.1 ≠ .kexit p status)
    (undisturbed : ∀ q, q ≠ p → (t.proc q).state = .sleeping → t.proc q = before.table.proc q)
    (dozing : point = .dozing → NoZombie before.table p)
    (waiting : point = .waiting → before.point p = .dozing ∧ (t.proc p).chan = some (.proc p))
    : Waits (before.goTo t p point) := by
  have pointHere : (before.goTo t p point).point p = point := update_self ..
  have points {q : Slot} (other : q ≠ p) : (before.goTo t p point).point q = before.point q :=
    update_of_ne other ..
  refine ⟨fun q isDozing => ?_, fun q isWaiting asleep => ?_⟩
  · refine Fate.noZombie fate noExit ?_
    by_cases here : q = p
    · subst here
      exact dozing (pointHere.symm.trans isDozing)
    · exact waits.dozing q (points here ▸ isDozing)
  · by_cases here : q = p
    · subst here
      obtain ⟨was, chan⟩ := waiting (pointHere.symm.trans isWaiting)
      exact ⟨chan, Fate.noZombie fate noExit (waits.dozing q was)⟩
    · have same : (before.goTo t p point).table.proc q = before.table.proc q :=
        undisturbed q here asleep
      rw [same] at asleep ⊢
      obtain ⟨onSelf, none⟩ := waits.waiting q (points here ▸ isWaiting) asleep
      exact ⟨onSelf, Fate.noZombie fate noExit none⟩

/-- No step leaves a process waiting in vain. -/
theorem Waits.step (waits : Waits before) (family : Family before)
    (taken : Step before entry after)
    : Waits after := by
  have fate := taken.fate family
  obtain ⟨action, outcome⟩ := entry
  obtain ⟨enabled, rfl, rfl⟩ := taken.inv
  cases action with
  | userinit => exact waits.stay fate (by simp) (.userinit _)
  | kforkAlloc p np memory uvmcopyOk =>
    have undisturbed := Undisturbed.kforkTurn before.table np memory uvmcopyOk
    simp only [Action.run] at fate ⊢
    generalize kforkTurn before.table np memory uvmcopyOk = result at fate undisturbed ⊢
    rcases result with ⟨_ | np', t⟩
    · exact waits.stay fate (by simp) undisturbed
    · exact waits.move fate (by simp) (fun q _ => undisturbed q) (by simp) (by simp)
  | kforkParent p np =>
    have used : (before.table.proc np).state = .used :=
      (family.forks.owns p).used (by rw [enabled.2]; rfl)
    refine waits.move fate (by simp) (fun q _ => Undisturbed.set ?_ q) (by simp) (by simp)
    rw [used]
    simp
  | kforkRunnable p np =>
    have undisturbed : Undisturbed before.table (kforkRunnable before.table np) := .set (by simp)
    exact waits.move fate (by simp) (fun q _ => undisturbed q) (by simp) (by simp)
  | kexit p status => exact waits.kexit enabled.1.2 enabled.2.2
  | kwait p copyoutOk =>
    have waited := kwait_cases before p copyoutOk
    generalize Action.run before (.kwait p copyoutOk) = result at waited fate ⊢
    cases waited with
    | reported child found ok =>
      have undisturbed : Undisturbed before.table (freeproc before.table child) :=
        .set (by simp)
      exact waits.move fate (by simp) (fun q _ => undisturbed q) (by simp) (by simp)
    | faulted child found fault | gaveUp none reason =>
      exact waits.move fate (by simp) (fun q _ _ => rfl) (by simp) (by simp)
    | slept none =>
      exact waits.move fate (by simp) (fun q _ _ => rfl) (fun _ => zombieChild_none none) (by simp)
  | kwaitSleep p =>
    refine waits.move fate (by simp) (fun q other _ => Table.set_proc_other _ _ other) (by simp)
      fun _ => ⟨enabled.2, ?_⟩
    rw [sleep, Table.set_proc_self]
  | sleep p address =>
    exact waits.move fate (by simp) (fun q other _ => Table.set_proc_other _ _ other) (by simp)
      (by simp)
  | wakeup p address => exact waits.stay fate (by simp) (.wakeupTurn _ _ _)
  | yield p => exact waits.stay fate (by simp) (.set (by simp))
  | schedule p =>
    have scheduled : Undisturbed before.table (schedule before.table p) := .set (by simp)
    have woken : Undisturbed before.table (wake (schedule before.table p) p) :=
      scheduled.trans (.set (by simp [schedule]))
    simp only [Action.run] at fate ⊢
    rcases resume_cases before p with ⟨_, same⟩ | ⟨_, same⟩ | same <;> rw [same] at fate ⊢
    · exact waits.move fate (by simp) (fun q _ => woken q) (by simp) (by simp)
    · exact waits.move fate (by simp) (fun q _ => woken q) (by simp) (by simp)
    · exact waits.stay fate (by simp) scheduled
  | kkill p pid => exact waits.stay fate (by simp) (.kkillTurn _ _ _)
  | setkilled p =>
    refine waits.stay fate (by simp) (.set ?_)
    rw [enabled.1]
    simp

theorem Waits.boot : Waits boot :=
  ⟨fun _ => nofun, fun _ => nofun⟩

-- Exit and wait

structure Paired (history : History) (s : State) : Prop where
  recorded : Recorded history s
  waits : Waits s

/-- In every run each exit is reported at most once, after it was made. -/
theorem paired {final : State} (run : Run Step boot history final) : Paired history final :=
  Run.always ⟨.boot, .boot⟩
    (fun _ _ _ _ paired taken =>
      ⟨paired.recorded.step taken, paired.waits.step paired.recorded.family taken⟩)
    run

/-- A zombie has a parent that lives. -/
theorem Family.zombie_parent {s : State} (family : Family s)
    (zombie : (s.table.proc pp).state = .zombie)
    : ∃ q, (s.table.proc pp).parent = some q ∧ (s.table.proc q).state.live = true := by
  have notInit : s.table.initproc ≠ some pp := by
    intro isInit
    have live := (family.kin.init pp isInit).1
    rw [zombie] at live
    cases live
  obtain ⟨q, isParent⟩ :=
    Option.ne_none_iff_exists'.mp (family.kin.hasParent pp (.inr zombie) notInit)
  exact ⟨q, isParent, family.kin.parentLive pp q isParent⟩

/-- In every run, exits and reports of a slot alternate. An exit that has not been reported is a
zombie with the pid and the status of the exit, whose parent is alive: the one it had, or
`initproc` once that one has exited. A successful `kwait` is made by this parent and takes this
record; a failed one changes nothing, and fails for a copy, a kill or because nobody has the
caller as its parent. Nobody falls asleep or stays asleep in `kwait` while it has a zombie child.
-/
theorem exit_and_wait_pair_up {final : State} (run : Run Step boot history final)
    : (∀ pp, exits pp history = reports pp history + (exitOf pp history).toList.length)
      ∧ (∀ pp exit, exitOf pp history = some exit
          → (final.table.proc pp).state = .zombie
            ∧ (final.table.proc pp).pid = exit.pid
            ∧ (final.table.proc pp).xstate = exit.status
            ∧ (final.table.proc pp).parent = exit.parent
            ∧ ∃ q, exit.parent = some q ∧ (final.table.proc q).state.live = true)
      ∧ (∀ pp, (final.table.proc pp).state = .zombie → (exitOf pp history).isSome = true)
      ∧ (∀ p copyoutOk child pid status after,
          Step final (.kwait p copyoutOk, .reported child pid status) after
          → exitOf child history = some ⟨pid, status, some p⟩)
      ∧ (∀ p outcome after, Step final (.kwait p false, outcome) after
          → after.table = final.table)
      ∧ (∀ p copyoutOk after, Step final (.kwait p copyoutOk, .failed) after
          → (copyoutOk = false ∧ ¬NoZombie final.table p)
            ∨ (final.table.proc p).killed = true
            ∨ ∀ pp, (final.table.proc pp).parent ≠ some p)
      ∧ (∀ p copyoutOk after, Step final (.kwait p copyoutOk, .sleeps) after
          → NoZombie final.table p)
      ∧ ∀ p,
          (final.point p = .dozing
            ∨ (final.point p = .waiting ∧ (final.table.proc p).state = .sleeping))
          → NoZombie final.table p := by
  obtain ⟨recorded, waits⟩ := paired run
  have waited {p : Slot} {copyoutOk : Bool} {outcome : Outcome} {after : State}
      (taken : Step final (.kwait p copyoutOk, outcome) after)
      : Waited final p copyoutOk (outcome, after) := by
    have cases := kwait_cases final p copyoutOk
    rwa [taken.2] at cases
  refine ⟨fun pp => ?_, fun pp exit isExit => ?_, fun pp zombie => ?_,
    fun p ok child pid status after taken => ?_, fun p outcome after taken => ?_,
    fun p ok after taken => ?_, fun p ok after taken => ?_, fun p asleep => ?_⟩
  · rw [recorded.exit pp]
    exact recorded.counts pp
  · rw [recorded.exit pp] at isExit
    obtain ⟨zombie, pid, xstate, parent⟩ := exitRecord_some isExit
    exact ⟨zombie, pid, xstate, parent, parent ▸ recorded.family.zombie_parent zombie⟩
  · rw [recorded.exit pp, exitRecord_zombie zombie]
    rfl
  · cases waited taken with
    | reported child found _ =>
      obtain ⟨isParent, zombie⟩ := zombieChild_some found
      rw [recorded.exit, exitRecord_zombie zombie, isParent]
  · cases waited taken with
    | reported child found ok => cases ok
    | faulted child found fault | gaveUp none reason | slept none => rfl
  · cases waited taken with
    | faulted child found fault =>
      obtain ⟨isParent, zombie⟩ := zombieChild_some found
      exact .inl ⟨fault, fun none => none child isParent zombie⟩
    | gaveUp none reason => exact .inr reason.symm
  · cases waited taken with
    | slept none => exact zombieChild_none none
  · rcases asleep with dozing | ⟨waiting, asleep⟩
    · exact waits.dozing p dozing
    · exact (waits.waiting p waiting asleep).2

/-- `init` forks a child and waits for it. The child exits with status 7, and the first `kwait`
that finds it cannot store the status.
-/
def exitAndFault : List (Action × Outcome) :=
  [(.userinit, .done), (.schedule 0, .done), (.kforkAlloc 0 1 .ok true, .forked (some 1)),
    (.kforkParent 0 1, .done), (.kforkRunnable 0 1, .done), (.kwait 0 true, .sleeps),
    (.kwaitSleep 0, .done), (.schedule 1, .done), (.kexit 1 7, .done), (.schedule 0, .done),
    (.kwait 0 false, .failed)]

theorem exitAndFault_follows
    : Follows (guarded Action.Enabled Action.run) boot exitAndFault
        (fun history final => exitOf 1 history = some ⟨2, 7, some 0⟩ ∧ exits 1 history = 1
          ∧ Action.Enabled final (.kwait 0 true)
          ∧ (Action.run final (.kwait 0 true)).1 = .reported 1 2 7) := by
  decide +kernel

/-- The child of `exitAndFault` is still there, to be reported once. -/
theorem faulted_child_is_reported_later
    : ∃ history final, Run Step boot history final ∧ steps history = exitAndFault
      ∧ exitOf 1 history = some ⟨2, 7, some 0⟩
      ∧ exits 1 history = 1 ∧ reports 1 history = 0
      ∧ (final.table.proc 1).state = .zombie
      ∧ (∃ after, Step final (.kwait 0 true, .reported 1 2 7) after) := by
  obtain ⟨history, final, run, same, exit, once, enabled, outcome⟩ := exitAndFault_follows.toRun
  obtain ⟨counts, zombies, _⟩ := exit_and_wait_pair_up run
  refine ⟨history, final, run, same, exit, once, ?_, (zombies 1 _ exit).1, _,
    enabled, Prod.ext outcome rfl⟩
  have pending := counts 1
  rw [exit, once] at pending
  simpa using pending.symm

end Xv6.Process.System

import Xv6.Process.System

/-! Who is whose parent. Parents are alive: a process that exits hands its children over to
`initproc`, and nobody but the parent takes a zombie out of the table.
-/

namespace Xv6.Process

variable {t t' : Table} {np i : Slot} {memory : Memory} {uvmcopyOk : Bool}

/-- The process can still run. -/
def ProcState.live : ProcState → Bool
  | .sleeping | .runnable | .running => true
  | .unused | .used | .zombie => false

/-- A section leaves the slot to the same process, in the same family. -/
structure Stays (old new : Proc) : Prop where
  parent : new.parent = old.parent
  state : new.state = old.state ∨ (old.state.live = true ∧ new.state.live = true)
  zombie : old.state = .zombie → new.pid = old.pid ∧ new.xstate = old.xstate

namespace Stays

variable {old middle new : Proc}

theorem refl (old : Proc) : Stays old old := ⟨rfl, .inl rfl, fun _ => ⟨rfl, rfl⟩⟩

/-- Whether a process lives is not changed. -/
theorem live_iff (stays : Stays old new) : new.state.live = old.state.live := by
  rcases stays.state with same | ⟨before, after⟩
  · rw [same]
  · rw [before, after]

/-- Neither is any other state. -/
theorem state_iff (stays : Stays old new) {state : ProcState} (notLive : state.live = false)
    : new.state = state ↔ old.state = state := by
  rcases stays.state with same | ⟨before, after⟩
  · rw [same]
  · constructor
    · rintro rfl
      exact absurd (notLive.symm.trans after) (by decide)
    · rintro rfl
      exact absurd (notLive.symm.trans before) (by decide)

theorem trans (first : Stays old middle) (second : Stays middle new) : Stays old new := by
  refine ⟨second.parent.trans first.parent, ?_, fun zombie => ?_⟩
  · rcases second.state with same | ⟨live, live'⟩
    · rw [same]
      exact first.state
    · exact .inr ⟨first.live_iff ▸ live, live'⟩
  · have stillZombie := (first.state_iff rfl).mpr zombie
    rw [(second.zombie stillZombie).1, (second.zombie stillZombie).2]
    exact first.zombie zombie

/-- A change of one process that stays. -/
theorem of_set {t : Table} {p : Slot} {value : Proc} (stays : Stays (t.proc p) value) (i : Slot)
    : Stays (t.proc i) ((t.set p value).proc i) := by
  by_cases here : i = p
  · rw [here, Table.set_proc_self]
    exact stays
  · rw [Table.set_proc_other _ _ here]
    exact refl _

/-- A living process may change as long as it lives. -/
theorem of_live (before : old.state.live = true) (after : new.state.live = true)
    (parent : new.parent = old.parent)
    : Stays old new := by
  refine ⟨parent, .inr ⟨before, after⟩, fun zombie => ?_⟩
  rw [zombie] at before
  cases before

/-- A turn of `wakeup` changes sleepers only. -/
theorem wakeupTurn (t : Table) (p : Slot) (chan : Chan) (i : Slot)
    : Stays (t.proc i) ((wakeupTurn t p chan).proc i) := by
  unfold Process.wakeupTurn
  split_ifs with woken
  · refine of_set ?_ i
    exact of_live (by rw [woken.1]; rfl) rfl rfl
  · exact refl _

/-- A turn of `kkill` sets the flag and wakes a sleeper. -/
theorem kkillTurn (t : Table) (p : Slot) (pid : BitVec 32) (i : Slot)
    : Stays (t.proc i) ((kkillTurn t p pid).proc i) := by
  unfold Process.kkillTurn
  split_ifs with same
  · refine of_set ?_ i
    split_ifs with asleep
    · exact of_live (by rw [asleep]; rfl) rfl rfl
    · exact ⟨rfl, .inl rfl, fun _ => ⟨rfl, rfl⟩⟩
  · exact refl _

/-- Scheduling a process. -/
theorem schedule {t : Table} {p : Slot} (runnable : (t.proc p).state = .runnable)
    : ∀ i, Stays (t.proc i) ((schedule t p).proc i) :=
  of_set (of_live (by rw [runnable]; rfl) rfl rfl)

theorem wake_schedule {t : Table} {p : Slot} (runnable : (t.proc p).state = .runnable) (i : Slot)
    : Stays (t.proc i) ((wake (Process.schedule t p) p).proc i) := by
  refine (schedule runnable i).trans (of_set ?_ i)
  exact ⟨rfl, .inl rfl, fun _ => ⟨rfl, rfl⟩⟩

theorem of_free (before : old.state = .unused) (after : new.state = .unused)
    (parent : new.parent = old.parent)
    : Stays old new := by
  refine ⟨parent, .inl (after.trans before.symm), fun zombie => ?_⟩
  rw [before] at zombie
  cases zombie

end Stays

-- What kfork and kexit do to the table

/-- A free slot is taken for a new process. -/
structure Taken (t : Table) (np : Slot) (t' : Table) : Prop where
  free : (t.proc np).state = .unused
  used : (t'.proc np).state = .used
  parent : (t'.proc np).parent = (t.proc np).parent
  others : ∀ i, i ≠ np → t'.proc i = t.proc i
  init : t'.initproc = t.initproc

/-- A failed allocation leaves all slots to their processes. -/
structure Refused (t t' : Table) : Prop where
  stays : ∀ i, Stays (t.proc i) (t'.proc i)
  init : t'.initproc = t.initproc

/-- `freeproc` takes back what `allocproc` has done. -/
theorem Refused.freeproc {t t' : Table} {np : Slot} (taken : Taken t np t')
    (orphan : (t.proc np).parent = none)
    : Refused t (freeproc t' np) := by
  refine ⟨fun i => ?_, taken.init⟩
  by_cases here : i = np
  · subst here
    exact .of_free taken.free (by simp [Process.freeproc]) (by simp [Process.freeproc, orphan])
  · rw [Process.freeproc, Table.set_proc_other _ _ here, taken.others i here]
    exact .refl _

/-- `allocproc` takes an unused slot. -/
theorem Taken.of_unused (unused : (t.proc np).state = .unused)
    : Taken t np ((allocpid t).2.set np
        { (allocpid t).2.proc np with pid := (allocpid t).1, state := .used }) :=
  ⟨unused, by simp, by simp [allocpid],
    fun i other => by rw [Table.set_proc_other _ _ other]; rfl, rfl⟩

/-- `allocproc` that succeeds has taken the slot. -/
theorem allocprocFound_taken {p : Slot} (unused : (t.proc p).state = .unused)
    (allocated : allocprocFound t p memory = (some np, t'))
    : np = p ∧ Taken t np t' := by
  cases memory <;> cases allocated
  exact ⟨rfl, .of_unused unused⟩

/-- `allocproc` that fails leaves the slot unused. -/
theorem allocprocFound_refused {p : Slot} (unused : (t.proc p).state = .unused)
    (orphan : (t.proc p).parent = none) (failed : allocprocFound t p memory = (none, t'))
    : Refused t t' := by
  cases memory <;> cases failed <;> exact .freeproc (.of_unused unused) orphan

/-- `kfork` that succeeds has taken the slot. -/
theorem kforkTurn_taken (forked : kforkTurn t i memory uvmcopyOk = (some np, t'))
    : Taken t np t' := by
  by_cases unused : (t.proc i).state = .unused
  · rw [kforkTurn, if_pos unused] at forked
    split at forked
    · cases forked
    · next allocated =>
        cases uvmcopyOk <;> cases forked
        exact (allocprocFound_taken unused allocated).2
  · rw [kforkTurn, if_neg unused] at forked
    cases forked

/-- `kfork` that fails leaves the slot unused. -/
theorem kforkTurn_refused (orphans : ∀ i, (t.proc i).state = .unused → (t.proc i).parent = none)
    (failed : kforkTurn t i memory uvmcopyOk = (none, t'))
    : Refused t t' := by
  by_cases unused : (t.proc i).state = .unused
  · rw [kforkTurn, if_pos unused] at failed
    split at failed
    · next refused =>
        cases failed
        exact allocprocFound_refused unused (orphans i unused) refused
    · next np t'' allocated =>
        obtain ⟨rfl, taken⟩ := allocprocFound_taken unused allocated
        cases uvmcopyOk <;> cases failed
        exact .freeproc taken (orphans np unused)
  · rw [kforkTurn, if_neg unused] at failed
    cases failed
    exact ⟨fun i => .refl _, rfl⟩

/-- Entering the parent changes no state. -/
theorem kforkParent_state (t : Table) (np p i : Slot)
    : ((kforkParent t np p).proc i).state = (t.proc i).state := by
  by_cases isChild : i = np
  · rw [isChild, kforkParent, Table.set_proc_self]
  · rw [kforkParent, Table.set_proc_other _ _ isChild]

/-- The exit of `p` as another process sees it: its children go to `initproc`. -/
structure Adopted (p : Slot) (init : Option Slot) (old new : Proc) : Prop where
  parent : new.parent = if old.parent = some p then init else old.parent
  state : new.state = old.state ∨ (old.state.live = true ∧ new.state.live = true)
  pid : new.pid = old.pid
  xstate : new.xstate = old.xstate

/-- Waking a process does not change its parent. -/
theorem Adopted.wakeup {p : Slot} {init : Option Slot} {old : Proc} {t : Table} {i : Slot}
    (adopted : Adopted p init old (t.proc i)) (me : Option Slot) (chan : Option Chan)
    : Adopted p init old ((wakeup t me chan).proc i) := by
  simp only [Process.wakeup]
  split_ifs with woken
  · refine ⟨adopted.parent, .inr ⟨?_, rfl⟩, adopted.pid, adopted.xstate⟩
    rcases adopted.state with same | ⟨live, _⟩
    · rw [← same, woken.2.1]
      rfl
    · exact live
  · exact adopted

/-- `reparent` gives the children to `initproc`. -/
theorem Adopted.reparent (t : Table) (p i : Slot)
    : Adopted p t.initproc (t.proc i) ((reparent t p).proc i) := by
  have loop : Adopted p t.initproc (t.proc i) ((reparentLoop t p).proc i) := by
    simp only [reparentLoop]
    split_ifs with child
    · exact ⟨by rw [if_pos child], .inl rfl, rfl, rfl⟩
    · exact ⟨by rw [if_neg child], .inl rfl, rfl, rfl⟩
  unfold Process.reparent
  dsimp only
  split
  · exact loop.wakeup _ _
  · exact loop

/-- `kexit` changes other processes only by giving them to `initproc`. -/
theorem kexit_adopted (t : Table) (p : Slot) (status : BitVec 32) (other : i ≠ p)
    : Adopted p t.initproc (t.proc i) ((kexit t p status).proc i) := by
  rw [kexit, Table.set_proc_other _ _ other]
  exact (Adopted.reparent t p i).wakeup _ _

/-- The process that exits is a zombie with its status. -/
theorem kexit_self (t : Table) (p : Slot) (status : BitVec 32)
    : ((kexit t p status).proc p).state = .zombie
      ∧ ((kexit t p status).proc p).xstate = status
      ∧ ((kexit t p status).proc p).pid = (t.proc p).pid
      ∧ ((kexit t p status).proc p).parent
        = if (t.proc p).parent = some p then t.initproc else (t.proc p).parent := by
  have adopted := (Adopted.reparent t p p).wakeup (some p)
    (((Process.reparent t p).proc p).parent.map .proc)
  rw [kexit, Table.set_proc_self]
  exact ⟨rfl, rfl, adopted.pid, adopted.parent⟩

theorem reparent_initproc (t : Table) (p : Slot) : (reparent t p).initproc = t.initproc := by
  unfold reparent
  dsimp only
  split <;> rfl

theorem kexit_initproc (t : Table) (p : Slot) (status : BitVec 32)
    : (kexit t p status).initproc = t.initproc :=
  reparent_initproc t p

theorem wakeupTurn_initproc (t : Table) (p : Slot) (chan : Chan)
    : (wakeupTurn t p chan).initproc = t.initproc := by
  unfold wakeupTurn
  split_ifs <;> rfl

theorem kkillTurn_initproc (t : Table) (p : Slot) (pid : BitVec 32)
    : (kkillTurn t p pid).initproc = t.initproc := by
  unfold kkillTurn
  split_ifs <;> rfl

namespace System

open Function Library

variable {t : Table} {p : Slot}

/-- Parents are alive, and every process that has run has one, except for `initproc`. -/
structure Kin (t : Table) : Prop where
  parentLive : ∀ pp q, (t.proc pp).parent = some q → (t.proc q).state.live = true
  hasParent
    : ∀ pp, (t.proc pp).state.live = true ∨ (t.proc pp).state = .zombie → t.initproc ≠ some pp
      → (t.proc pp).parent ≠ none
  notOwn : ∀ pp, (t.proc pp).parent ≠ some pp
  init
    : ∀ i, t.initproc = some i → (t.proc i).state.live = true ∧ (t.proc i).parent = none
  free : ∀ pp, (t.proc pp).state = .unused → (t.proc pp).parent = none
  started : t.initproc = none → ∀ p, (t.proc p).state = .unused

/-- The child that a `kfork` is setting up. -/
def Point.child : Point → Option Slot
  | .fork np | .forkEnd np => some np
  | .run | .dozing | .waiting | .woken | .sleeping => none

/-- The slot that process `p` is setting up is in the state it has left it in. -/
def Point.Owns (t : Table) (p : Slot) : Point → Prop
  | .fork np => (t.proc np).state = .used ∧ (t.proc np).parent = none
  | .forkEnd np => (t.proc np).state = .used ∧ (t.proc np).parent = some p
  | .run | .dozing | .waiting | .woken | .sleeping => True

/-- A slot that is being set up belongs to one `kfork`, and only live processes are inside of
the kernel.
-/
structure Forks (s : State) : Prop where
  owns : ∀ p, (s.point p).Owns s.table p
  forker : ∀ p q np, (s.point p).child = some np → (s.point q).child = some np → p = q
  busy : ∀ p, s.point p ≠ .run → (s.table.proc p).state.live = true

structure Family (s : State) : Prop where
  kin : Kin s.table
  forks : Forks s

-- Parents

namespace Kin

variable {t t' : Table}

theorem procinit : Kin procinit where
  parentLive _ _ isParent := nomatch isParent
  hasParent _ either := either.elim nofun nofun
  notOwn _ := nofun
  init _ isInit := nomatch isInit
  free _ _ := rfl
  started _ _ := rfl

section

variable (kin : Kin t)
include kin

theorem of_stays (stays : ∀ i, Stays (t.proc i) (t'.proc i)) (init : t'.initproc = t.initproc)
    : Kin t' := by
  refine ⟨fun pp q => ?_, fun pp either notInit => ?_, fun pp => ?_, fun i isInit => ?_,
    fun pp unused => ?_, fun none p => ?_⟩
  · rw [(stays pp).parent, (stays q).live_iff]
    exact kin.parentLive pp q
  · rw [(stays pp).parent]
    rw [(stays pp).live_iff, (stays pp).state_iff rfl] at either
    exact kin.hasParent pp either (init ▸ notInit)
  · rw [(stays pp).parent]
    exact kin.notOwn pp
  · rw [(stays i).live_iff, (stays i).parent]
    exact kin.init i (init ▸ isInit)
  · rw [(stays pp).parent]
    exact kin.free pp (((stays pp).state_iff rfl).mp unused)
  · exact ((stays p).state_iff rfl).mpr (kin.started (init ▸ none) p)

/-- There is a first process as soon as there is any. -/
theorem init_exists {p : Slot} (inUse : (t.proc p).state ≠ .unused) : t.initproc ≠ none :=
  fun none => inUse (kin.started none p)

/-- Only the slot of a process that cannot run changes. -/
theorem replace {p : Slot} (idle : (t.proc p).state.live = false) (inUse : t.initproc ≠ none)
    (others : ∀ i, i ≠ p → t'.proc i = t.proc i) (init : t'.initproc = t.initproc)
    (parent : ∀ q, (t'.proc p).parent = some q → (t.proc q).state.live = true)
    (hasParent
      : (t'.proc p).state.live = true ∨ (t'.proc p).state = .zombie → (t'.proc p).parent ≠ none)
    (free : (t'.proc p).state = .unused → (t'.proc p).parent = none)
    : Kin t' := by
  have same {i : Slot} (live : (t.proc i).state.live = true) : t'.proc i = t.proc i := by
    refine others i ?_
    rintro rfl
    exact nomatch idle.symm.trans live
  refine ⟨fun pp q isParent => ?_, fun pp either notInit => ?_, fun pp isParent => ?_,
    fun i isInit => ?_, fun pp unused => ?_, fun none => (inUse (init ▸ none)).elim⟩
  · have live : (t.proc q).state.live = true := by
      by_cases here : pp = p
      · exact parent q (here ▸ isParent)
      · rw [others pp here] at isParent
        exact kin.parentLive pp q isParent
    rw [same live]
    exact live
  · by_cases here : pp = p
    · subst here
      exact hasParent either
    · rw [others pp here] at either ⊢
      exact kin.hasParent pp either (init ▸ notInit)
  · by_cases here : pp = p
    · subst here
      exact nomatch idle.symm.trans (parent pp isParent)
    · rw [others pp here] at isParent
      exact kin.notOwn pp isParent
  · rw [init] at isInit
    rw [same (kin.init i isInit).1]
    exact kin.init i isInit
  · by_cases here : pp = p
    · subst here
      exact free unused
    · rw [others pp here] at unused ⊢
      exact kin.free pp unused

/-- A new slot is nobody's parent and nobody's child yet. -/
theorem taken {p np : Slot} (taken : Taken t np t') (running : (t.proc p).state = .running)
    : Kin t' := by
  refine kin.replace (by rw [taken.free]; rfl) (kin.init_exists (by rw [running]; decide))
    taken.others taken.init (fun q isParent => ?_) (fun either => ?_) fun unused => ?_
  · exact kin.parentLive np q (taken.parent ▸ isParent)
  · rw [taken.used] at either
    exact either.elim nofun nofun
  · exact nomatch taken.used.symm.trans unused

/-- `kfork` makes the caller the parent. -/
theorem kforkParent {p np : Slot} (used : (t.proc np).state = .used)
    (running : (t.proc p).state = .running)
    : Kin (kforkParent t np p) := by
  have parent : ((Process.kforkParent t np p).proc np).parent = some p := by
    rw [Process.kforkParent, Table.set_proc_self]
  refine kin.replace (by rw [used]; rfl) (kin.init_exists (by rw [running]; decide))
    (fun _ other => Table.set_proc_other _ _ other) rfl (fun q isParent => ?_) (fun _ => ?_)
    fun unused => ?_
  · cases parent.symm.trans isParent
    rw [running]
    rfl
  · rw [parent]
    exact nofun
  · rw [kforkParent_state, used] at unused
    cases unused

/-- The child starts to run once it has a parent. -/
theorem kforkRunnable {np : Slot} (used : (t.proc np).state = .used)
    (parent : (t.proc np).parent ≠ none)
    : Kin (kforkRunnable t np) := by
  have parents : ((Process.kforkRunnable t np).proc np).parent = (t.proc np).parent := by
    rw [Process.kforkRunnable, Table.set_proc_self]
  refine kin.replace (by rw [used]; rfl) (kin.init_exists (by rw [used]; decide))
    (fun _ other => Table.set_proc_other _ _ other) rfl (fun q isParent => ?_) (fun _ => ?_)
    fun unused => ?_
  · exact kin.parentLive np q (parents ▸ isParent)
  · rw [parents]
    exact parent
  · rw [Process.kforkRunnable, Table.set_proc_self] at unused
    cases unused

/-- A process that exits hands its children over. -/
theorem kexit {p : Slot} {status : BitVec 32} (running : (t.proc p).state = .running)
    (notInit : t.initproc ≠ some p)
    : Kin (kexit t p status) := by
  have zombie := (kexit_self t p status).1
  have parents (i : Slot) : ((Process.kexit t p status).proc i).parent
      = if (t.proc i).parent = some p then t.initproc else (t.proc i).parent := by
    by_cases here : i = p
    · rw [here]
      exact (kexit_self t p status).2.2.2
    · exact (kexit_adopted t p status here).parent
  have live {i : Slot} (other : i ≠ p)
      : ((Process.kexit t p status).proc i).state.live = (t.proc i).state.live := by
    rcases (kexit_adopted t p status other).state with same | ⟨before, after⟩
    · rw [same]
    · rw [before, after]
  have started := kin.init_exists (p := p) (by rw [running]; decide)
  have initLive {i : Slot} (isInit : t.initproc = some i)
      : ((Process.kexit t p status).proc i).state.live = true := by
    rw [live (by rintro rfl; exact notInit isInit)]
    exact (kin.init i isInit).1
  refine ⟨fun pp q isParent => ?_, fun pp either other => ?_, fun pp => ?_,
    fun i isInit => ?_, fun pp unused => ?_, fun none => ?_⟩
  · rw [parents] at isParent
    split_ifs at isParent with child
    · exact initLive isParent
    · rw [live (by rintro rfl; exact child isParent)]
      exact kin.parentLive pp q isParent
  · rw [parents]
    split_ifs with child
    · exact started
    · rw [kexit_initproc] at other
      refine kin.hasParent pp ?_ other
      by_cases here : pp = p
      · rw [here, running]
        exact .inl rfl
      · rw [live here] at either
        rcases (kexit_adopted t p status here).state with same | ⟨before, _⟩
        · exact either.imp_right fun isZombie => same ▸ isZombie
        · exact .inl before
  · rw [parents]
    split_ifs with child
    · intro isInit
      rw [(kin.init pp isInit).2] at child
      cases child
    · exact kin.notOwn pp
  · rw [kexit_initproc] at isInit
    refine ⟨initLive isInit, ?_⟩
    have orphan := (kin.init i isInit).2
    rw [parents, if_neg (by rw [orphan]; exact nofun), orphan]
  · have here : pp ≠ p := by
      rintro rfl
      exact nomatch zombie.symm.trans unused
    have earlier : (t.proc pp).state = .unused := by
      rcases (kexit_adopted t p status here).state with same | ⟨_, after⟩
      · exact same.symm.trans unused
      · rw [unused] at after
        cases after
    have orphan := kin.free pp earlier
    rw [parents, if_neg (by rw [orphan]; exact nofun), orphan]
  · exact (started (kexit_initproc t p status ▸ none)).elim

/-- A zombie has no children, so that it can be taken out of the table. -/
theorem reap {child : Slot} (zombie : (t.proc child).state = .zombie) : Kin (freeproc t child) := by
  have freed : ((freeproc t child).proc child).state = .unused
      ∧ ((freeproc t child).proc child).parent = none := by simp [freeproc]
  refine kin.replace (by rw [zombie]; rfl) (kin.init_exists (by rw [zombie]; decide))
    (fun _ other => Table.set_proc_other _ _ other) rfl (fun q isParent => ?_)
    (fun either => ?_) fun _ => freed.2
  · cases freed.2.symm.trans isParent
  · rw [freed.1] at either
    exact either.elim nofun nofun

/-- The first process has no parent. -/
theorem userinit (empty : t.initproc = none) : Kin (userinit t) := by
  have unused := kin.started empty
  have orphans (i : Slot) : (t.proc i).parent = none := kin.free i (unused i)
  unfold Process.userinit allocproc
  cases found : t.scan (fun p => p.state == .unused) with
  | none => exact kin
  | some p =>
    have taken := Taken.of_unused (unused p)
    set t' := (allocpid t).2.set p
      { (allocpid t).2.proc p with pid := (allocpid t).1, state := .used }
    let first : Table := { t' with initproc := some p }
    have others {i : Slot} (other : i ≠ p)
        : (first.set p { first.proc p with state := .runnable }).proc i = t.proc i := by
      rw [Table.set_proc_other _ _ other]
      exact taken.others i other
    have parents (i : Slot)
        : ((first.set p { first.proc p with state := .runnable }).proc i).parent = none := by
      by_cases here : i = p
      · rw [here, Table.set_proc_self]
        exact taken.parent.trans (orphans p)
      · rw [others here]
        exact orphans i
    refine ⟨fun pp q isParent => ?_, fun pp either notInit => ?_, fun pp => ?_,
      fun i isInit => ?_, fun pp _ => parents pp, nofun⟩
    · exact nomatch (parents pp).symm.trans isParent
    · have here : pp ≠ p := fun same => notInit (by rw [same]; rfl)
      rw [others here, unused pp] at either
      exact either.elim nofun nofun
    · exact fun isParent => nomatch (parents pp).symm.trans isParent
    · cases isInit
      refine ⟨?_, parents p⟩
      rw [Table.set_proc_self]
      rfl

end

end Kin

-- Children that are being set up

variable {point : Point}

theorem Point.child_cases {np : Slot} (child : point.child = some np)
    : point = .fork np ∨ point = .forkEnd np := by
  cases point <;> cases child
  · exact .inl rfl
  · exact .inr rfl

/-- The child of a `fork` that is under way is not running yet. -/
theorem Point.Owns.used {np : Slot} (owns : point.Owns t p) (child : point.child = some np)
    : (t.proc np).state = .used := by
  cases point <;> cases child <;> exact owns.1

/-- Another table with the same slot. -/
theorem Point.Owns.keep {t' : Table} (owns : point.Owns t p)
    (same
      : ∀ np, point.child = some np
        → (t'.proc np).state = .used ∧ (t'.proc np).parent = (t.proc np).parent)
    : point.Owns t' p := by
  cases point with
  | fork np | forkEnd np =>
    obtain ⟨used, parent⟩ := same np rfl
    exact ⟨used, parent.trans owns.2⟩
  | run | dozing | waiting | woken | sleeping => trivial

namespace Forks

variable {s : State} {t : Table}

/-- A step that concerns neither the children of forks nor their parents. -/
theorem stay (forks : Forks s)
    (children
      : ∀ q np, (s.point q).child = some np
        → (t.proc np).state = .used ∧ (t.proc np).parent = (s.table.proc np).parent)
    (live : ∀ q, s.point q ≠ .run → (t.proc q).state.live = true)
    : Forks (s.stayWith t) :=
  ⟨fun q => (forks.owns q).keep (children q), forks.forker, live⟩

/-- A section that moves its process on. -/
theorem move (forks : Forks s) {p : Slot} {point : Point}
    (children
      : ∀ q np, q ≠ p → (s.point q).child = some np
        → (t.proc np).state = .used ∧ (t.proc np).parent = (s.table.proc np).parent)
    (live : ∀ q, q ≠ p → s.point q ≠ .run → (t.proc q).state.live = true)
    (owns : point.Owns t p)
    (forker : ∀ q np, q ≠ p → point.child = some np → (s.point q).child ≠ some np)
    (alive : (t.proc p).state.live = true)
    : Forks (s.goTo t p point) := by
  have points {q : Slot} (other : q ≠ p) : (s.goTo t p point).point q = s.point q :=
    update_of_ne other ..
  have pointHere : (s.goTo t p point).point p = point := update_self ..
  refine ⟨fun q => ?_, fun q q' np left right => ?_, fun q notRun => ?_⟩
  · by_cases here : q = p
    · rw [here, pointHere]
      exact owns
    · rw [points here]
      exact (forks.owns q).keep fun np => children q np here
  · by_cases here : q = p <;> by_cases here' : q' = p
    · rw [here, here']
    · rw [here, pointHere] at left
      rw [points here'] at right
      exact (forker q' np here' left right).elim
    · rw [points here] at left
      rw [here', pointHere] at right
      exact (forker q np here right left).elim
    · rw [points here] at left
      rw [points here'] at right
      exact forks.forker q q' np left right
  · by_cases here : q = p
    · rw [here]
      exact alive
    · rw [points here] at notRun
      exact live q here notRun

end Forks

-- Steps

/-- A process that is not in `fork` owns no child. -/
theorem Point.owns_of_no_child (none : point.child = none)
    : point.Owns t p := by
  cases point <;> trivial

/-- What one pass of `kwait` comes to. -/
inductive Waited (s : State) (p : Slot) (copyoutOk : Bool) : Outcome × State → Prop
  | reported (child : Slot) (found : zombieChild s.table p = some child) (ok : copyoutOk = true)
    : Waited s p copyoutOk
        (.reported child (s.table.proc child).pid (s.table.proc child).xstate,
          s.goTo (freeproc s.table child) p .run)
  | faulted (child : Slot) (found : zombieChild s.table p = some child)
    (fault : copyoutOk = false)
    : Waited s p copyoutOk (.failed, s.goTo s.table p .run)
  | gaveUp (none : zombieChild s.table p = none)
    (reason
      : (∀ pp, (s.table.proc pp).parent ≠ some p) ∨ (s.table.proc p).killed = true)
    : Waited s p copyoutOk (.failed, s.goTo s.table p .run)
  | slept (none : zombieChild s.table p = none)
    : Waited s p copyoutOk (.sleeps, s.goTo s.table p .dozing)

/-- Where a process goes on when it is scheduled. -/
theorem resume_cases (s : State) (p : Slot)
    : (s.point p = .waiting ∧ s.resume p = s.goTo (wake (schedule s.table p) p) p .woken)
      ∨ (s.point p = .sleeping ∧ s.resume p = s.goTo (wake (schedule s.table p) p) p .run)
      ∨ s.resume p = s.stayWith (schedule s.table p) := by
  unfold State.resume
  cases s.point p with
  | waiting => exact .inl ⟨rfl, rfl⟩
  | sleeping => exact .inr (.inl ⟨rfl, rfl⟩)
  | run | fork np | forkEnd np | dozing | woken => exact .inr (.inr rfl)

/-- What `kwait` finds: a zombie, children to wait for, or none. -/
theorem kwait_cases (s : State) (p : Slot) (copyoutOk : Bool)
    : Waited s p copyoutOk (Action.run s (.kwait p copyoutOk)) := by
  simp only [Action.run]
  cases found : zombieChild s.table p with
  | some child =>
    have scanned := found
    unfold zombieChild at scanned
    cases copyoutOk with
    | true =>
      simp only [kwait, scanned]
      exact .reported child found rfl
    | false =>
      simp only [kwait, scanned]
      exact .faulted child found rfl
  | none =>
    have scanned := found
    unfold zombieChild at scanned
    simp only [kwait, scanned]
    split_ifs with stop
    · refine .gaveUp found ?_
      simpa using stop
    · exact .slept found

namespace Family

variable {s before after : State} {t : Table} {entry : Action × Outcome} {p : Slot}

theorem boot : Family boot :=
  ⟨.procinit, fun _ => trivial, fun _ _ _ child => (nomatch child),
    fun _ notRun => (notRun rfl).elim⟩

theorem stay (family : Family s) (stays : ∀ i, Stays (s.table.proc i) (t.proc i))
    (init : t.initproc = s.table.initproc)
    : Family (s.stayWith t) := by
  refine ⟨family.kin.of_stays stays init, family.forks.stay (fun q np child => ?_)
    fun q notRun => ?_⟩
  · rw [(stays np).state_iff rfl]
    exact ⟨(family.forks.owns q).used child, (stays np).parent⟩
  · rw [(stays q).live_iff]
    exact family.forks.busy q notRun

/-- The same when the process moves on, outside of `kfork`. -/
theorem move {point : Point} (family : Family s) (stays : ∀ i, Stays (s.table.proc i) (t.proc i))
    (init : t.initproc = s.table.initproc) (outside : point.child = none)
    (alive : (s.table.proc p).state.live = true)
    : Family (s.goTo t p point) := by
  refine ⟨family.kin.of_stays stays init, family.forks.move (fun q np _ child => ?_)
    (fun q _ notRun => ?_) (Point.owns_of_no_child outside) (fun q np _ child => ?_) ?_⟩
  · rw [(stays np).state_iff rfl]
    exact ⟨(family.forks.owns q).used child, (stays np).parent⟩
  · rw [(stays q).live_iff]
    exact family.forks.busy q notRun
  · exact nomatch outside.symm.trans child
  · rw [(stays p).live_iff]
    exact alive

section

variable (family : Family s)
include family

/-- The process moves on and changes the slot of a process that cannot run. -/
theorem replace {np : Slot} {point : Point} (kin : Kin t)
    (others : ∀ i, i ≠ np → t.proc i = s.table.proc i)
    (idle : (s.table.proc np).state.live = false) (running : (s.table.proc p).state = .running)
    (apart : ∀ q child, q ≠ p → (s.point q).child = some child → child ≠ np)
    (owns : point.Owns t p) (own : ∀ child, point.child = some child → child = np)
    : Family (s.goTo t p point) := by
  have live {q : Slot} (alive : (s.table.proc q).state.live = true)
      : (t.proc q).state.live = true := by
    have other : q ≠ np := by
      rintro rfl
      exact nomatch idle.symm.trans alive
    rw [others q other]
    exact alive
  refine ⟨kin, family.forks.move (fun q child other isChild => ?_)
    (fun q _ notRun => live (family.forks.busy q notRun)) owns
    (fun q child other isNew isChild => apart q child other isChild (own child isNew))
    (live (by rw [running]; rfl))⟩
  rw [others child (apart q child other isChild)]
  exact ⟨(family.forks.owns q).used isChild, rfl⟩

/-- The slots that other processes set up are not the one that `p` does. -/
theorem apart {np : Slot} (here : (s.point p).child = some np) (q child : Slot) (other : q ≠ p)
    (isChild : (s.point q).child = some child)
    : child ≠ np := by
  rintro rfl
  exact other (family.forks.forker q p child isChild here)

/-- The first part of `fork`: a slot is taken. -/
theorem kforkAlloc {np : Slot} (taken : Taken s.table np t)
    (running : (s.table.proc p).state = .running)
    : Family (s.goTo t p (.fork np)) := by
  refine family.replace (family.kin.taken taken running) taken.others
    (by rw [taken.free]; rfl) running (fun q child _ isChild => ?_) ⟨taken.used, ?_⟩
    fun _ isNew => (Option.some.inj isNew).symm
  · rintro rfl
    exact nomatch taken.free.symm.trans ((family.forks.owns q).used isChild)
  · rw [taken.parent]
    exact family.kin.free np taken.free

/-- The second part: the child gets its parent. -/
theorem kforkParent {p np : Slot} (running : (s.table.proc p).state = .running)
    (here : s.point p = .fork np)
    : Family (s.goTo (kforkParent s.table np p) p (.forkEnd np)) := by
  have own : (Point.fork np).Owns s.table p := here ▸ family.forks.owns p
  refine family.replace (family.kin.kforkParent own.1 running)
    (fun _ other => Table.set_proc_other _ _ other) (by rw [own.1]; rfl) running
    (family.apart (by rw [here]; rfl)) ⟨?_, ?_⟩ fun _ isNew => (Option.some.inj isNew).symm
  · rw [kforkParent_state]
    exact own.1
  · rw [Process.kforkParent, Table.set_proc_self]

/-- The last part: the child can run. -/
theorem kforkRunnable {p np : Slot} (running : (s.table.proc p).state = .running)
    (here : s.point p = .forkEnd np)
    : Family (s.goTo (kforkRunnable s.table np) p .run) := by
  have own : (Point.forkEnd np).Owns s.table p := here ▸ family.forks.owns p
  refine family.replace (family.kin.kforkRunnable own.1 (by rw [own.2]; exact nofun))
    (fun _ other => Table.set_proc_other _ _ other) (by rw [own.1]; rfl) running
    (family.apart (by rw [here]; rfl)) trivial nofun

/-- The children of a process that exits get a parent that lives. -/
theorem kexit {p : Slot} {status : BitVec 32} (running : (s.table.proc p).state = .running)
    (here : s.point p = .run) (notInit : s.table.initproc ≠ some p)
    : Family (s.stayWith (kexit s.table p status)) := by
  have notForker {q child : Slot} (isChild : (s.point q).child = some child) : q ≠ p := by
    rintro rfl
    rw [here] at isChild
    cases isChild
  refine ⟨family.kin.kexit running notInit, family.forks.stay (fun q child isChild => ?_)
    fun q notRun => ?_⟩
  · have used := (family.forks.owns q).used isChild
    have other : child ≠ p := by
      rintro rfl
      exact nomatch used.symm.trans running
    have adopted := kexit_adopted s.table p status other
    have notHis : (s.table.proc child).parent ≠ some p := by
      have owns := family.forks.owns q
      rcases Point.child_cases isChild with isFork | isFork <;> rw [isFork] at owns
      · rw [owns.2]
        exact nofun
      · rw [owns.2]
        exact fun same => notForker isChild (Option.some.inj same)
    refine ⟨?_, by rw [adopted.parent, if_neg notHis]⟩
    rcases adopted.state with same | ⟨live, _⟩
    · rw [same, used]
    · rw [used] at live
      cases live
  · have other : q ≠ p := fun same => notRun (same ▸ here)
    have live := family.forks.busy q notRun
    rcases (kexit_adopted s.table p status other).state with same | ⟨_, after⟩
    · rw [same]
      exact live
    · exact after

/-- `kwait` frees a zombie, which has no children. -/
theorem reap {child : Slot} (zombie : (s.table.proc child).state = .zombie)
    (running : (s.table.proc p).state = .running)
    : Family (s.goTo (freeproc s.table child) p .run) := by
  refine family.replace (family.kin.reap zombie) (fun _ other => Table.set_proc_other _ _ other)
    (by rw [zombie]; rfl) running (fun q np _ isChild => ?_) trivial nofun
  rintro rfl
  exact nomatch zombie.symm.trans ((family.forks.owns q).used isChild)

/-- A process that was waiting goes on. -/
theorem resume (runnable : (s.table.proc p).state = .runnable) : Family (s.resume p) := by
  have alive : (s.table.proc p).state.live = true := by
    rw [runnable]
    rfl
  rcases resume_cases s p with ⟨_, same⟩ | ⟨_, same⟩ | same <;> rw [same]
  · exact family.move (.wake_schedule runnable) rfl rfl alive
  · exact family.move (.wake_schedule runnable) rfl rfl alive
  · exact family.stay (.schedule runnable) rfl

end

/-- Every step keeps the family in order. -/
theorem step (family : Family before) (taken : Step before entry after) : Family after := by
  obtain ⟨action, outcome⟩ := entry
  obtain ⟨enabled, rfl, rfl⟩ := taken.inv
  have live {p : Slot} (running : (before.table.proc p).state = .running)
      : (before.table.proc p).state.live = true := by
    rw [running]
    rfl
  cases action with
  | userinit =>
    refine ⟨family.kin.userinit enabled, family.forks.stay (fun q np child => ?_)
      fun q notRun => ?_⟩
    · have used := (family.forks.owns q).used child
      exact nomatch (family.kin.started enabled np).symm.trans used
    · have alive := family.forks.busy q notRun
      rw [family.kin.started enabled q] at alive
      cases alive
  | kforkAlloc p np memory uvmcopyOk =>
    simp only [Action.run]
    split
    · next t failed =>
        have refused := kforkTurn_refused family.kin.free failed
        exact family.stay refused.stays refused.init
    · next np' t forked => exact family.kforkAlloc (kforkTurn_taken forked) enabled.1.1
  | kforkParent p np => exact family.kforkParent enabled.1 enabled.2
  | kforkRunnable p np => exact family.kforkRunnable enabled.1 enabled.2
  | kexit p status => exact family.kexit enabled.1.1 enabled.1.2 enabled.2.1
  | kwait p copyoutOk =>
    have running : (before.table.proc p).state = .running :=
      enabled.1.elim And.left And.left
    have waited := kwait_cases before p copyoutOk
    generalize Action.run before (.kwait p copyoutOk) = result at waited ⊢
    cases waited with
    | reported child found ok =>
      have test := Table.scan_some found
      simp only [Bool.and_eq_true, beq_iff_eq] at test
      exact family.reap test.2 running
    | faulted child found fault | gaveUp none reason | slept none =>
      exact family.move (fun i => .refl _) rfl rfl (live running)
  | kwaitSleep p | sleep p address =>
    exact family.move (Stays.of_set (.of_live (live enabled.1) rfl rfl)) rfl rfl
      (live enabled.1)
  | wakeup p address => exact family.stay (Stays.wakeupTurn _ _ _) (wakeupTurn_initproc ..)
  | yield p => exact family.stay (Stays.of_set (.of_live (live enabled.1) rfl rfl)) rfl
  | schedule p => exact family.resume enabled.1
  | kkill p pid => exact family.stay (Stays.kkillTurn _ _ _) (kkillTurn_initproc ..)
  | setkilled p =>
    exact family.stay (Stays.of_set (.of_live (live enabled.1) (live enabled.1) rfl)) rfl

end Family

end System

end Xv6.Process

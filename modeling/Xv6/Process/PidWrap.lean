import Xv6.Process.KillFlags

/-! Whether pids stay positive and distinct. `allocpid` never looks at the pids in use, so all
rests on `nextpid` being above them, up to the point where the `int` wraps.
-/

namespace Xv6.Process

open Library

variable {t t' before after : Table} {memory : Memory} {uvmcopyOk : Bool} {np : Slot}

/-- Pids are given out only while `nextpid` is a positive `int`. -/
def Action.PidsLeft (t : Table) : Action → Prop
  | .userinit | .kforkAlloc _ _ _ => 0 < t.nextpid.toInt
  | _ => True

/-- The slots in use have distinct positive pids below `nextpid`. -/
structure Table.PidsBelow (t : Table) : Prop where
  bound : 0 < t.nextpid.toNat ∧ t.nextpid.toNat ≤ 2 ^ 31
  pid
    : ∀ i, (t.proc i).state ≠ .unused
        → 0 < (t.proc i).pid.toNat ∧ (t.proc i).pid.toNat < t.nextpid.toNat
  distinct
    : ∀ i j, (t.proc i).state ≠ .unused → (t.proc j).state ≠ .unused
        → (t.proc i).pid = (t.proc j).pid → i = j

-- What one critical section does to the pids

/-- A slot that is in use afterwards was in use before, with the same pid. -/
def KeepsPid (old new : Proc) : Prop :=
  new.state ≠ .unused → old.state ≠ .unused ∧ new.pid = old.pid

theorem KeepsPid.of_set {p : Slot} {value : Proc} (keeps : KeepsPid (t.proc p) value) (i : Slot)
    : KeepsPid (t.proc i) ((t.set p value).proc i) := by
  by_cases here : i = p
  · rw [here, Table.set_proc_self]
    exact keeps
  · rw [Table.set_proc_other _ _ here]
    exact fun inUse => ⟨inUse, rfl⟩

theorem KeepsPid.freeproc (t : Table) (p i : Slot)
    : KeepsPid (t.proc i) ((freeproc t p).proc i) :=
  of_set (fun inUse => absurd rfl inUse) i

/-- One pid is used up, for slot `np` if that is in use afterwards. -/
structure Spent (t : Table) (np : Slot) (t' : Table) : Prop where
  next : t'.nextpid = t.nextpid + 1
  pid : (t'.proc np).state ≠ .unused → (t'.proc np).pid = t.nextpid
  others : ∀ i, i ≠ np → t'.proc i = t.proc i

theorem Spent.set {value : Proc} (spent : Spent t np t')
    (pid : value.state ≠ .unused → value.pid = t.nextpid)
    : Spent t np (t'.set np value) := by
  refine ⟨spent.next, ?_, fun i other => ?_⟩
  · rw [Table.set_proc_self]
    exact pid
  · rw [Table.set_proc_other _ _ other]
    exact spent.others i other

/-- An allocation takes a slot, or it fails; a failure for memory has used up a pid, too. -/
inductive Allocation (t : Table) : Option Slot × Table → Prop where
  | full : Allocation t (none, t)
  | failed {np : Slot} {t' : Table} (spent : Spent t np t') : Allocation t (none, t')
  | taken {np : Slot} {t' : Table} (spent : Spent t np t')
    (used : (t'.proc np).state = .used)
    : Allocation t (some np, t')

/-- `allocproc` spends one pid, or finds no unused entry. -/
theorem allocproc_allocation (t : Table) (memory : Memory)
    : Allocation t (allocproc t memory) := by
  unfold allocproc
  cases t.scan (fun p => p.state == .unused) with
  | none => exact .full
  | some np =>
    have spent : Spent t np ((allocpid t).2.set np
        { (allocpid t).2.proc np with pid := (allocpid t).1, state := .used }) := by
      refine ⟨rfl, ?_, fun i other => Table.set_proc_other _ _ other⟩
      rw [Table.set_proc_self]
      exact fun _ => rfl
    cases memory with
    | noTrapframe | noPagetable => exact .failed (spent.set (fun inUse => absurd rfl inUse))
    | ok => exact .taken spent (by rw [Table.set_proc_self])

/-- The allocating half of a fork spends at most one pid. -/
theorem kforkAlloc_allocation (t : Table) (memory : Memory) (uvmcopyOk : Bool)
    : Allocation t (kforkAlloc t memory uvmcopyOk) := by
  unfold kforkAlloc
  have allocated := allocproc_allocation t memory
  generalize allocproc t memory = result at allocated
  cases allocated with
  | full => exact .full
  | failed spent => exact .failed spent
  | taken spent used =>
    cases uvmcopyOk with
    | false => exact .failed (spent.set (fun inUse => absurd rfl inUse))
    | true => exact .taken spent used

/-- The entry a fork returns is in use. -/
theorem kforkAlloc_inUse (forked : (kforkAlloc t memory uvmcopyOk).1 = some np)
    : ((kforkAlloc t memory uvmcopyOk).2.proc np).state ≠ .unused := by
  have allocated := kforkAlloc_allocation t memory uvmcopyOk
  generalize kforkAlloc t memory uvmcopyOk = result at allocated forked
  cases allocated with
  | full | failed => cases forked
  | taken _ used =>
    cases forked
    rw [used]
    decide

/-- What a critical section does to `nextpid` and the pids. -/
inductive PidStep (t : Table) (action : Action) (t' : Table) : Prop where
  | kept (next : t'.nextpid = t.nextpid) (pids : ∀ i, KeepsPid (t.proc i) (t'.proc i))
  | spent (left : action.PidsLeft t → 0 < t.nextpid.toInt) (np : Slot) (spent : Spent t np t')

namespace PidStep

variable {action : Action}

theorem same (t : Table) : PidStep t action t :=
  .kept rfl (fun _ inUse => ⟨inUse, rfl⟩)

theorem of_set {p : Slot} {value : Proc} (inUse : (t.proc p).state ≠ .unused)
    (pid : value.pid = (t.proc p).pid)
    : PidStep t action (t.set p value) :=
  .kept rfl (KeepsPid.of_set (fun _ => ⟨inUse, pid⟩))

theorem of_state {p : Slot} {value : Proc} {state : ProcState}
    (now : (t.proc p).state = state) (inUse : state ≠ .unused) (pid : value.pid = (t.proc p).pid)
    : PidStep t action (t.set p value) :=
  of_set (now ▸ inUse) pid

end PidStep

theorem reparent_nextpid (t : Table) (p : Slot) : (reparent t p).nextpid = t.nextpid := by
  unfold reparent
  dsimp only
  split <;> rfl

theorem kexit_nextpid (t : Table) (p : Slot) (status : BitVec 32)
    : (kexit t p status).nextpid = t.nextpid :=
  reparent_nextpid t p

/-- `kexit` changes no pid. -/
theorem kexit_keepsPid {p : Slot} {status : BitVec 32} (running : (t.proc p).state = .running)
    (i : Slot)
    : KeepsPid (t.proc i) ((kexit t p status).proc i) := by
  have adopted := reparent_kept t p i
  have woken := wakeup_kept (reparent t p) (some p)
    (((reparent t p).proc p).parent.map .proc) i
  have pid := woken.2.2.trans adopted.2.2
  rw [kexit]
  by_cases here : i = p
  · subst here
    rw [Table.set_proc_self]
    exact fun _ => ⟨by rw [running]; decide, pid⟩
  · rw [Table.set_proc_other _ _ here]
    exact fun inUse => ⟨fun free => inUse ((woken.1.trans adopted.1).mpr free), pid⟩

/-- Each step keeps the pids, frees an entry or spends the next pid on one. -/
theorem Step.pids {action : Action} (step : Step before action after)
    : PidStep before action after := by
  obtain ⟨enabled, rfl⟩ := step
  cases action with
  | userinit =>
    have allocated := allocproc_allocation before .ok
    simp only [Action.run, userinit]
    generalize allocproc before .ok = result at allocated
    cases allocated with
    | full => exact .same _
    | failed spent => exact .spent id _ spent
    | @taken np t' spent used =>
      exact .spent id np (Spent.set ⟨spent.next, spent.pid, spent.others⟩
        (fun _ => spent.pid (by rw [used]; decide)))
  | kforkAlloc p memory uvmcopyOk =>
    have allocated := kforkAlloc_allocation before memory uvmcopyOk
    simp only [Action.run]
    generalize kforkAlloc before memory uvmcopyOk = result at allocated
    cases allocated with
    | full => exact .same _
    | failed spent | taken spent used => exact .spent id _ spent
  | kforkParent p np | kforkRunnable p np => exact .of_state enabled.2 (by decide) rfl
  | kexit p status => exact .kept (kexit_nextpid before p status) (kexit_keepsPid enabled.1)
  | kwait p copyoutOk =>
    simp only [Action.run, kwait]
    split
    · split
      · exact .kept rfl (KeepsPid.freeproc before _)
      · exact .same _
    · split
      · exact .same _
      · exact .of_state enabled (by decide) rfl
  | sleep p chan | wake p | yield p | schedule p | setkilled p =>
    exact .of_state enabled (by decide) rfl
  | wakeup me chan =>
    refine .kept rfl (fun i inUse => ?_)
    obtain ⟨unused, -, pid⟩ := wakeup_kept before me (some chan) i
    exact ⟨fun free => inUse (unused.mpr free), pid⟩
  | kkill pid =>
    simp only [Action.run, kkill]
    split
    · exact .same _
    · refine .kept rfl (KeepsPid.of_set ?_)
      split
      · next asleep =>
          exact fun _ => ⟨fun free => (by cases asleep.symm.trans free), rfl⟩
      · exact fun inUse => ⟨inUse, rfl⟩

-- Pids over whole runs

theorem procinit_pidsBelow : procinit.PidsBelow :=
  ⟨⟨by decide, by decide⟩, fun _ inUse => absurd rfl inUse, fun _ _ inUse => absurd rfl inUse⟩

namespace Table.PidsBelow

theorem kept (below : t.PidsBelow) (next : t'.nextpid = t.nextpid)
    (pids : ∀ i, KeepsPid (t.proc i) (t'.proc i))
    : t'.PidsBelow := by
  refine ⟨next ▸ below.bound, fun i inUse => ?_, fun i j inUse inUse' same => ?_⟩
  · obtain ⟨before, pid⟩ := pids i inUse
    rw [next, pid]
    exact below.pid i before
  · obtain ⟨before, pid⟩ := pids i inUse
    obtain ⟨before', pid'⟩ := pids j inUse'
    rw [pid, pid'] at same
    exact below.distinct i j before before' same

/-- The next pid is above all others, so the new process shares it with nobody. -/
theorem spent (below : t.PidsBelow) (left : 0 < t.nextpid.toInt) (spent : Spent t np t')
    : t'.PidsBelow := by
  have small : t.nextpid.toNat < 2 ^ 31 := by
    rw [BitVec.toInt_eq_toNat_cond] at left
    split_ifs at left <;> omega
  have next : t'.nextpid.toNat = t.nextpid.toNat + 1 := by
    rw [spent.next]
    exact Nat.mod_eq_of_lt (by change _ + 1 < 2 ^ 32; omega)
  have older {i : Slot} (other : i ≠ np) (inUse : (t'.proc i).state ≠ .unused)
      : 0 < (t'.proc i).pid.toNat ∧ (t'.proc i).pid.toNat < t.nextpid.toNat := by
    rw [spent.others i other] at inUse ⊢
    exact below.pid i inUse
  have newest (inUse : (t'.proc np).state ≠ .unused)
      : (t'.proc np).pid.toNat = t.nextpid.toNat := by
    rw [spent.pid inUse]
  refine ⟨by omega, fun i inUse => ?_, fun i j inUse inUse' same => ?_⟩
  · by_cases isNew : i = np
    · subst isNew
      rw [newest inUse, next]
      exact ⟨below.bound.1, Nat.lt_succ_self _⟩
    · have pid := older isNew inUse
      omega
  · by_cases isNew : i = np <;> by_cases isNew' : j = np
    · rw [isNew, isNew']
    · subst isNew
      have pid := older isNew' inUse'
      rw [← same, newest inUse] at pid
      omega
    · subst isNew'
      have pid := older isNew inUse
      rw [same, newest inUse'] at pid
      omega
    · rw [spent.others i isNew] at inUse same
      rw [spent.others j isNew'] at inUse' same
      exact below.distinct i j inUse inUse' same

/-- A step that spends a pid while there is one left keeps the pids below the next one. -/
theorem step {action : Action} (below : before.PidsBelow) (left : action.PidsLeft before)
    (step : Step before action after)
    : after.PidsBelow := by
  cases step.pids with
  | kept next pids => exact below.kept next pids
  | spent positive np spent => exact below.spent (positive left) spent

/-- While the pids are below the next one, those in use are positive. -/
theorem positive (below : t.PidsBelow) {i : Slot} (inUse : (t.proc i).state ≠ .unused)
    : 0 < (t.proc i).pid.toInt := by
  have bound := below.bound
  have pid := below.pid i inUse
  rw [BitVec.toInt_eq_toNat_of_lt (by omega)]
  omega

end Table.PidsBelow

/-- In every run that gives out pids only while `nextpid` is positive, no two slots in use share
a pid, and the pid of the next child is positive and new.
-/
theorem pids_stay_unique {history : List (Action × Table)} (run : Run Step procinit history t)
    (each : EachStep (fun before action => Action.PidsLeft before action) history)
    : (∀ i j, (t.proc i).state ≠ .unused → (t.proc j).state ≠ .unused
        → (t.proc i).pid = (t.proc j).pid → i = j)
      ∧ ∀ p memory uvmcopyOk np after, Step t (.kforkAlloc p memory uvmcopyOk) after
        → (Action.kforkAlloc p memory uvmcopyOk).PidsLeft t
        → (kforkAlloc t memory uvmcopyOk).1 = some np
        → 0 < (after.proc np).pid.toInt
          ∧ ∀ q, q ≠ np → (after.proc q).state ≠ .unused
              → (after.proc q).pid ≠ (after.proc np).pid := by
  have below := run.invariant procinit_pidsBelow
    (fun _ _ _ below left step => below.step left step) each
  refine ⟨below.distinct, fun p memory uvmcopyOk np after step left forked => ?_⟩
  have below' := below.step left step
  have inUse := kforkAlloc_inUse forked
  rw [← show after = (kforkAlloc t memory uvmcopyOk).2 from step.2] at inUse
  refine ⟨below'.positive inUse, fun q other inUse' same => ?_⟩
  exact other (below'.distinct q np inUse' inUse same)

-- The counter wraps

/-- The first process after `n - 2` forks that failed for memory. -/
def afterFailedForks (n : BitVec 32) : Table := { firstProcess with nextpid := n }

/-- A fork that fails has still spent its pid. -/
theorem failed_fork_spends_a_pid (n : BitVec 32)
    : Step (afterFailedForks n) (.kforkAlloc 0 .noTrapframe true) (afterFailedForks (n + 1)) := by
  have found : (afterFailedForks n).scan (fun p => p.state == .unused) = some 1 := by
    change firstProcess.scan (fun p => p.state == .unused) = some 1
    decide
  have free : firstProcess.proc 1 = {} := by decide
  refine ⟨rfl, ?_⟩
  rw [Action.run, kforkAlloc, allocproc, found]
  simp [allocpid, freeproc, Table.set, afterFailedForks, free]

/-- Failing forks bring the next pid to any value. -/
theorem failed_forks_run (n : Nat)
    : ∃ history, Run Step procinit history (afterFailedForks (2 + BitVec.ofNat 32 n)) := by
  induction n with
  | zero => exact ⟨_, firstProcess_run⟩
  | succ n ih =>
    obtain ⟨history, run⟩ := ih
    have next : 2 + BitVec.ofNat 32 n + 1 = 2 + BitVec.ofNat 32 (n + 1) := by
      rw [BitVec.add_assoc, BitVec.ofNat_add]
      rfl
    exact ⟨_, run.next (next ▸ failed_fork_spends_a_pid (2 + BitVec.ofNat 32 n))⟩

/-- After enough forks that failed for memory, `kfork` returns a negative pid; after some more,
it returns the pid of the first process.
-/
theorem pids_wrap
    : ∃ history t history' t',
        Run Step procinit history t
        ∧ Run Step procinit history' t'
        ∧ (∃ after, Step t (.kforkAlloc 0 .ok true) after
          ∧ (kforkAlloc t .ok true).1 = some 1 ∧ (after.proc 1).pid.toInt < 0)
        ∧ ∃ after, Step t' (.kforkAlloc 0 .ok true) after
          ∧ (kforkAlloc t' .ok true).1 = some 1
          ∧ (after.proc 0).state ≠ .unused ∧ (after.proc 0).pid = (after.proc 1).pid := by
  obtain ⟨history, run⟩ := failed_forks_run (2 ^ 31 - 2)
  obtain ⟨history', run'⟩ := failed_forks_run (2 ^ 32 - 1)
  have running (n : BitVec 32)
      : (Action.kforkAlloc 0 .ok true).Enabled (afterFailedForks n) := rfl
  refine ⟨history, _, history', _, run, run', ⟨_, ⟨running _, rfl⟩, ?_, ?_⟩,
    _, ⟨running _, rfl⟩, ?_, ?_, ?_⟩
    <;> decide +kernel

/-- The first fork of the first process gives its child pid 2. -/
theorem first_child_has_its_own_pid
    : (firstProcess.proc 0).pid = 1
      ∧ ((kforkAlloc firstProcess .ok true).2.proc 1).pid = 2
      ∧ 0 < ((kforkAlloc firstProcess .ok true).2.proc 1).pid.toInt := by
  have each : EachStep (fun before action => Action.PidsLeft before action)
      [(Action.schedule 0, userinit procinit), (.userinit, procinit)] :=
    .cons trivial (.cons (show 0 < procinit.nextpid.toInt by decide) .nil)
  refine ⟨by decide, by decide, ?_⟩
  exact ((pids_stay_unique firstProcess_run each).2 0 .ok true 1 _ ⟨rfl, rfl⟩
    (show 0 < firstProcess.nextpid.toInt by decide) (by decide)).1

end Xv6.Process

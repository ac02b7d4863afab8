import Xv6.Library.Runs
import Xv6.Process.Table

/-! Who may set `p->killed`, and whether a flag can outlive the process it was meant for.
Only `freeproc` clears the flag, so everything rests on no `UNUSED` slot ever being marked.
-/

namespace Xv6.Process

open Library

/-- The action marks slot `i` as killed: `kkill` found it, or its process faulted. -/
def Action.Names (t : Table) (i : Slot) : Action → Prop
  | .kkill pid => t.scan (fun p => p.pid == pid) = some i
  | .setkilled p => p = i
  | _ => False

-- What one critical section can do to one slot

/-- The effect of a critical section on one slot, as far as kill flags are concerned. -/
inductive SlotChange (named : Prop) (old new : Proc) : Prop where
  | kept (unused : new.state = .unused ↔ old.state = .unused)
    (killed : new.killed = old.killed) (pid : new.pid = old.pid)
  | created (before : old.state = .unused) (after : new.state ≠ .unused)
    (killed : new.killed = old.killed)
  | freed (unused : new.state = .unused) (killed : new.killed = false) (pid : new.pid = 0)
  | marked (target : named) (unused : new.state = .unused ↔ old.state = .unused)
    (pid : new.pid = old.pid)

theorem SlotChange.refl (named : Prop) (old : Proc) : SlotChange named old old :=
  .kept Iff.rfl rfl rfl

theorem SlotChange.of_set (named : Slot → Prop) (t : Table) (p : Slot) {value : Proc}
    (change : SlotChange (named p) (t.proc p) value) (i : Slot)
    : SlotChange (named i) (t.proc i) ((t.set p value).proc i) := by
  by_cases same : i = p
  · subst same
    simpa using change
  · rw [t.set_proc_other value same]
    exact .refl _ _

theorem freeproc_change (named : Slot → Prop) (t : Table) (p i : Slot)
    : SlotChange (named i) (t.proc i) ((freeproc t p).proc i) :=
  SlotChange.of_set named t p (.freed rfl rfl rfl) i

theorem wakeup_kept (t : Table) (me : Option Slot) (chan : Option Chan) (i : Slot)
    : (((wakeup t me chan).proc i).state = .unused ↔ (t.proc i).state = .unused)
      ∧ ((wakeup t me chan).proc i).killed = (t.proc i).killed
      ∧ ((wakeup t me chan).proc i).pid = (t.proc i).pid := by
  simp only [wakeup]
  split
  · rename_i woken
    simp [woken.2.1]
  · simp

/-- `reparent` leaves every state class, flag and pid alone. -/
theorem reparent_kept (t : Table) (p i : Slot)
    : (((reparent t p).proc i).state = .unused ↔ (t.proc i).state = .unused)
      ∧ ((reparent t p).proc i).killed = (t.proc i).killed
      ∧ ((reparent t p).proc i).pid = (t.proc i).pid := by
  have loop : ((reparentLoop t p).proc i).state = (t.proc i).state
      ∧ ((reparentLoop t p).proc i).killed = (t.proc i).killed
      ∧ ((reparentLoop t p).proc i).pid = (t.proc i).pid := by
    simp only [reparentLoop]
    split <;> simp
  simp only [reparent]
  split
  · have woken := wakeup_kept (reparentLoop t p) (some p)
      ((reparentLoop t p).initproc.map .proc) i
    rw [loop.1, loop.2.1, loop.2.2] at woken
    exact woken
  · simp [loop]

section

variable (named : Slot → Prop) (t : Table)
include named t

/-- `kexit` turns a slot in use into a zombie and keeps all flags. -/
theorem kexit_change (p : Slot) (status : BitVec 32) (running : (t.proc p).state = .running)
    (i : Slot)
    : SlotChange (named i) (t.proc i) ((kexit t p status).proc i) := by
  have adopted := reparent_kept t p i
  have woken := wakeup_kept (reparent t p) (some p)
    (((reparent t p).proc p).parent.map .proc) i
  simp only [kexit]
  by_cases same : i = p
  · subst same
    refine .kept ?_ ?_ ?_
    · simp [running]
    · simpa using woken.2.1.trans adopted.2.1
    · simpa using woken.2.2.trans adopted.2.2
  · rw [Table.set_proc_other _ _ same]
    exact .kept (woken.1.trans adopted.1) (woken.2.1.trans adopted.2.1)
      (woken.2.2.trans adopted.2.2)

/-- `allocproc` brings a free slot into use with the flag it carried, or leaves it free. -/
theorem allocproc_change (memory : Memory) (i : Slot)
    : SlotChange (named i) (t.proc i) ((allocproc t memory).2.proc i)
      ∧ ((allocproc t memory).1 = some i
          → (t.proc i).state = .unused
            ∧ ((allocproc t memory).2.proc i).state = .used
            ∧ ((allocproc t memory).2.proc i).killed = (t.proc i).killed) := by
  unfold allocproc
  cases found : t.scan (fun p => p.state == .unused) with
  | none => exact ⟨.refl _ _, by simp⟩
  | some p =>
    have free : (t.proc p).state = .unused := by simpa using Table.scan_some found
    cases memory with
    | noTrapframe | noPagetable =>
      refine ⟨?_, by simp⟩
      by_cases same : i = p
      · subst same
        exact .freed (by simp [freeproc]) (by simp [freeproc]) (by simp [freeproc])
      · simp only [freeproc, Table.set_proc_other _ _ same]
        exact .refl _ _
    | ok =>
      by_cases same : i = p
      · subst same
        exact ⟨.created free (by simp) (by simp [allocpid]), by simp [allocpid, free]⟩
      · refine ⟨?_, ?_⟩
        · simp only [Table.set_proc_other _ _ same]
          exact .refl _ _
        · intro chosen
          exact absurd (Option.some.inj chosen).symm same

/-- `kfork` up to the release of the child's lock: the child inherits the slot's flag. -/
theorem kforkAlloc_change (memory : Memory) (uvmcopyOk : Bool) (i : Slot)
    : SlotChange (named i) (t.proc i) ((kforkAlloc t memory uvmcopyOk).2.proc i)
      ∧ ((kforkAlloc t memory uvmcopyOk).1 = some i
          → (t.proc i).state = .unused
            ∧ ((kforkAlloc t memory uvmcopyOk).2.proc i).killed = (t.proc i).killed) := by
  have allocated := allocproc_change named t memory i
  unfold kforkAlloc
  cases taken : allocproc t memory with
  | mk child t' =>
    rw [taken] at allocated
    cases child with
    | none => exact ⟨allocated.1, by simp⟩
    | some np =>
      cases uvmcopyOk with
      | true => exact ⟨allocated.1, fun chosen => by
          have facts := allocated.2 chosen
          exact ⟨facts.1, facts.2.2⟩⟩
      | false =>
        refine ⟨?_, by simp⟩
        by_cases same : i = np
        · subst same
          exact .freed (by simp [freeproc]) (by simp [freeproc]) (by simp [freeproc])
        · simpa [freeproc, Table.set_proc_other _ _ same] using allocated.1

/-- `userinit` brings the first free slot into use. -/
theorem userinit_change (i : Slot) : SlotChange (named i) (t.proc i) ((userinit t).proc i) := by
  have allocated := allocproc_change named t .ok i
  unfold userinit
  cases taken : allocproc t .ok with
  | mk child t' =>
    rw [taken] at allocated
    cases child with
    | none => exact allocated.1
    | some p =>
      by_cases same : i = p
      · subst same
        have facts := allocated.2 rfl
        exact .created facts.1 (by simp) (by simpa using facts.2.2)
      · simpa [Table.set_proc_other _ _ same] using allocated.1

/-- One pass of `kwait` frees a zombie, or puts a running process to sleep. -/
theorem kwait_change (p : Slot) (copyoutOk : Bool) (running : (t.proc p).state = .running)
    (i : Slot)
    : SlotChange (named i) (t.proc i) ((kwait t p copyoutOk).2.proc i) := by
  unfold kwait
  split
  · split
    · exact freeproc_change named t _ i
    · exact .refl _ _
  · dsimp only
    split
    · exact .refl _ _
    · refine SlotChange.of_set named t p ?_ i
      exact .kept (by simp [running]) rfl rfl

end

theorem kkill_change (t : Table) (pid : BitVec 32) (i : Slot)
    : SlotChange ((Action.kkill pid).Names t i) (t.proc i) ((kkill t pid).2.proc i) := by
  unfold kkill
  split
  · exact .refl _ _
  · rename_i p found
    refine SlotChange.of_set (fun q => (Action.kkill pid).Names t q) t p
      (.marked found ?_ ?_) i
    · split <;> simp_all
    · split <;> rfl

/-- Every critical section changes each slot in one of the four ways.
Witness: one lemma for each function; the remaining ones overwrite a slot in use.
-/
theorem Step.slotChange {before after : Table} {action : Action}
    (step : Step before action after) (i : Slot)
    : SlotChange (action.Names before i) (before.proc i) (after.proc i) := by
  obtain ⟨enabled, rfl⟩ := step
  cases action with
  | userinit => exact userinit_change (fun _ => False) before i
  | kforkAlloc p memory uvmcopyOk =>
    exact (kforkAlloc_change (fun _ => False) before memory uvmcopyOk i).1
  | kforkParent p np =>
    refine SlotChange.of_set (fun _ => False) before np ?_ i
    exact .kept Iff.rfl rfl rfl
  | kforkRunnable p np =>
    refine SlotChange.of_set (fun _ => False) before np ?_ i
    exact .kept (by simp [enabled.2]) rfl rfl
  | kexit p status => exact kexit_change (fun _ => False) before p status enabled.1 i
  | kwait p copyoutOk => exact kwait_change (fun _ => False) before p copyoutOk enabled i
  | sleep p chan | yield p =>
    have running : (before.proc p).state = .running := enabled
    refine SlotChange.of_set (fun _ => False) before p ?_ i
    exact .kept (by simp [running]) rfl rfl
  | wake p =>
    refine SlotChange.of_set (fun _ => False) before p ?_ i
    exact .kept Iff.rfl rfl rfl
  | wakeup me chan =>
    have kept := wakeup_kept before me (some chan) i
    exact .kept kept.1 kept.2.1 kept.2.2
  | schedule p =>
    have runnable : (before.proc p).state = .runnable := enabled
    refine SlotChange.of_set (fun _ => False) before p ?_ i
    exact .kept (by simp [runnable]) rfl rfl
  | kkill pid => exact kkill_change before pid i
  | setkilled p =>
    refine SlotChange.of_set (fun q => (Action.setkilled p).Names before q) before p ?_ i
    exact .marked rfl Iff.rfl rfl

-- Flags over whole runs

/-- An `UNUSED` slot has a clear flag and pid 0. -/
def Table.FreeSlotsClear (t : Table) : Prop :=
  ∀ i, (t.proc i).state = .unused → (t.proc i).killed = false ∧ (t.proc i).pid = 0

/-- A `kkill` meets a slot in use before any `UNUSED` slot that carries the same pid. -/
def Action.TargetsInUse (t : Table) : Action → Prop
  | .kkill pid =>
    ∀ i,
      (t.proc i).state = .unused
      → (t.proc i).pid = pid
      → ∃ j, j < i ∧ (t.proc j).state ≠ .unused ∧ (t.proc j).pid = pid
  | _ => True

/-- A step of the history named the process that is now in slot `i`: the slot has been in
use ever since.
-/
def NamedSinceCreation (history : List (Action × Table)) (i : Slot) : Prop :=
  ∃ later action before earlier,
    history = later ++ (action, before) :: earlier
    ∧ action.Names before i
    ∧ (before.proc i).state ≠ .unused
    ∧ ∀ entry ∈ later, (entry.2.proc i).state ≠ .unused

/-- What `kkill` promises: it returns 0 only for a slot in use with that pid, and changes
no other slot.
-/
def KillHitsProcess (t : Table) (pid : BitVec 32) : Prop :=
  (kkill t pid).1 = 0
  → ∃ i value,
      (t.proc i).state ≠ .unused ∧ (t.proc i).pid = pid ∧ (kkill t pid).2 = t.set i value

variable {t : Table}

theorem Action.TargetsInUse.scan_inUse {pid : BitVec 32}
    (targets : (Action.kkill pid).TargetsInUse t) {i : Slot}
    (found : t.scan (fun p => p.pid == pid) = some i)
    : (t.proc i).state ≠ .unused := by
  intro unused
  have hit : (t.proc i).pid = pid := by simpa using Table.scan_some found
  obtain ⟨j, earlier, _, same⟩ := targets i unused hit
  have missed := Table.scan_first found earlier
  simp [same] at missed

/-- A critical section that marks no `UNUSED` slot keeps all free slots clear. -/
theorem Table.FreeSlotsClear.step {before after : Table} {action : Action}
    (clear : before.FreeSlotsClear) (targets : action.TargetsInUse before)
    (step : Step before action after)
    : after.FreeSlotsClear := by
  intro i unused
  cases step.slotChange i with
  | kept same killed pid =>
    rw [killed, pid]
    exact clear i (same.mp unused)
  | created _ inUse _ => exact absurd unused inUse
  | freed _ killed pid => exact ⟨killed, pid⟩
  | marked target same pid =>
    have free := same.mp unused
    cases action with
    | kkill wanted => exact absurd free (targets.scan_inUse target)
    | setkilled p =>
      have running : (before.proc p).state = .running := step.1
      rw [show p = i from target] at running
      simp [running] at free
    | _ => exact target.elim

theorem procinit_freeSlotsClear : procinit.FreeSlotsClear :=
  fun _ _ => ⟨rfl, rfl⟩

/-- A set flag of a live process goes back to a step that named that process.
Witness: induction on the run; a new process takes over a clear flag, and any other change
of the flag is a naming step or `freeproc`.
-/
theorem Run.killed_named {history : List (Action × Table)} (run : Run Step procinit history t)
    (each : EachStep (fun before action => Action.TargetsInUse before action) history) {i : Slot}
    (live : (t.proc i).state ≠ .unused) (killed : (t.proc i).killed = true)
    : NamedSinceCreation history i := by
  induction run with
  | nil => exact absurd rfl live
  | @next history before action after run step ih =>
    have clear := run.invariant procinit_freeSlotsClear
      (fun _ _ _ clear targets step => clear.step targets step) each.tail
    cases step.slotChange i with
    | kept same flag _ =>
      have wasLive : (before.proc i).state ≠ .unused := fun free => live (same.mpr free)
      obtain ⟨later, named, middle, earlier, rfl, names, inUse, since⟩ :=
        ih each.tail wasLive (flag ▸ killed)
      refine ⟨(action, before) :: later, named, middle, earlier, rfl, names, inUse, ?_⟩
      intro entry member
      rcases List.mem_cons.mp member with newest | old
      · exact newest ▸ wasLive
      · exact since entry old
    | created free _ flag =>
      rw [flag, (clear i free).1] at killed
      exact absurd killed Bool.false_ne_true
    | freed free _ _ => exact absurd free live
    | marked target same _ =>
      exact ⟨[], action, before, history, rfl, target,
        fun free => live (same.mpr free), by simp⟩

/-- On a table with clear free slots, `kkill` keeps its promise exactly when the first slot
with the pid is in use.
Witness: the scan's slot is the only one that changes, and its flag does change when it is
free.
-/
theorem killHitsProcess_iff (clear : t.FreeSlotsClear) (pid : BitVec 32)
    : KillHitsProcess t pid ↔ (Action.kkill pid).TargetsInUse t := by
  constructor
  · intro hits i unused same
    cases found : t.scan (fun p => p.pid == pid) with
    | none =>
      have missed := List.find?_eq_none.mp found i (List.mem_finRange i)
      simp [same] at missed
    | some k =>
      have hit : (t.proc k).pid = pid := by simpa using Table.scan_some found
      have inUse : (t.proc k).state ≠ .unused := by
        intro free
        obtain ⟨j, value, live, _, changed⟩ := hits (by simp [kkill, found])
        have other : k ≠ j := fun h => live (h ▸ free)
        have flag : ((kkill t pid).2.proc k).killed = true := by
          simp [kkill, found, free]
        rw [changed, Table.set_proc_other _ _ other, (clear k free).1] at flag
        exact absurd flag Bool.false_ne_true
      refine ⟨k, ?_, inUse, hit⟩
      rcases lt_trichotomy k i with earlier | rfl | later
      · exact earlier
      · exact absurd unused inUse
      · have missed := Table.scan_first found later
        simp [same] at missed
  · intro targets returned
    cases found : t.scan (fun p => p.pid == pid) with
    | none => simp [kkill, found] at returned
    | some k =>
      have hit : (t.proc k).pid = pid := by simpa using Table.scan_some found
      exact ⟨k, _, targets.scan_inUse found, hit, by simp only [kkill, found]; rfl⟩

/-- In every run whose `kkill` calls meet a slot in use first, `kkill` hits only processes
(exactly under that condition), free slots carry no flag, a new child starts unmarked, and
a marked process was named by `kkill` or a fault of its own since its creation.
-/
theorem kill_flags_stay_with_their_process {history : List (Action × Table)} {t : Table}
    (run : Run Step procinit history t)
    (each : EachStep (fun before action => Action.TargetsInUse before action) history)
    : (∀ pid, KillHitsProcess t pid ↔ (Action.kkill pid).TargetsInUse t)
      ∧ (∀ i, (t.proc i).state = .unused → (t.proc i).killed = false)
      ∧ (∀ memory uvmcopyOk np,
          (kforkAlloc t memory uvmcopyOk).1 = some np
          → ((kforkAlloc t memory uvmcopyOk).2.proc np).killed = false)
      ∧ (∀ i,
          (t.proc i).state ≠ .unused
          → (t.proc i).killed = true
          → NamedSinceCreation history i) := by
  have clear := run.invariant procinit_freeSlotsClear
    (fun _ _ _ clear targets step => clear.step targets step) each
  refine ⟨killHitsProcess_iff clear, fun i free => (clear i free).1, ?_, ?_⟩
  · intro memory uvmcopyOk np forked
    obtain ⟨free, flag⟩ :=
      (kforkAlloc_change (fun _ => False) t memory uvmcopyOk np).2 forked
    rw [flag]
    exact (clear np free).1
  · intro i live killed
    exact Run.killed_named run each live killed

/-- The table once the first process runs. -/
def firstProcess : Table := schedule (userinit procinit) 0

theorem firstProcess_run
    : Run Step procinit
        [(.schedule 0, userinit procinit), (.userinit, procinit)] firstProcess :=
  .next (.next .nil ⟨rfl, rfl⟩) ⟨rfl, rfl⟩

/-- The condition is met by `kkill(1)` on the first process, which it marks by name. -/
theorem kill_one_marks_the_first_process
    : ((kkill firstProcess 1).2.proc 0).killed = true
      ∧ NamedSinceCreation
          [(.kkill 1, firstProcess), (.schedule 0, userinit procinit), (.userinit, procinit)]
          0 := by
  have each : EachStep (fun before action => Action.TargetsInUse before action)
      [(Action.kkill 1, firstProcess), (.schedule 0, userinit procinit),
        (.userinit, procinit)] := by
    intro entry member
    simp only [List.mem_cons, List.not_mem_nil, or_false] at member
    rcases member with rfl | rfl | rfl
    · have apart : ∀ i, (firstProcess.proc i).state = .unused → (firstProcess.proc i).pid ≠ 1 := by
        decide
      exact fun i free same => absurd same (apart i free)
    · trivial
    · trivial
  have killed : ((kkill firstProcess 1).2.proc 0).killed = true := by decide
  have step : Step firstProcess (.kkill 1) (kkill firstProcess 1).2 := ⟨trivial, rfl⟩
  exact ⟨killed,
    (kill_flags_stay_with_their_process (firstProcess_run.next step) each).2.2.2 0
      (by decide) killed⟩

/-- `kkill(0)` returns 0 although no process has pid 0: it marks the free slot 1, and the
next child of the first process is born killed.
-/
theorem kill_zero_marks_a_free_slot
    : Run Step procinit
        [(.schedule 0, userinit procinit), (.userinit, procinit)] firstProcess
      ∧ (kkill firstProcess 0).1 = 0
      ∧ (∀ i, (firstProcess.proc i).state ≠ .unused → (firstProcess.proc i).pid ≠ 0)
      ∧ ((kkill firstProcess 0).2.proc 1).state = .unused
      ∧ ((kkill firstProcess 0).2.proc 1).killed = true
      ∧ (kforkAlloc (kkill firstProcess 0).2 .ok true).1 = some 1
      ∧ ((kforkAlloc (kkill firstProcess 0).2 .ok true).2.proc 1).killed = true := by
  refine ⟨firstProcess_run, ?_⟩
  decide

end Xv6.Process

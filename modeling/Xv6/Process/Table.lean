import Mathlib
import Xv6.Param

/-! The process table of `kernel/proc.c`: the fields that `p->lock` and `wait_lock`
protect, and the critical sections that change them. Page tables, trapframes, open files
and the working directory hang off other models.
-/

namespace Xv6.Process

instance nproc_neZero : NeZero NPROC := ⟨by decide⟩

/-- A slot of `proc[NPROC]`. -/
abbrev Slot := Fin NPROC

/-- `enum procstate`. -/
inductive ProcState where
  | unused
  | used
  | sleeping
  | runnable
  | running
  | zombie
  deriving DecidableEq, Repr

/-- What a process sleeps on: the address of a process slot or of another object. -/
inductive Chan where
  | proc (slot : Slot)
  | object (address : Nat)
  deriving DecidableEq, Repr

/-- `struct proc`, as far as scheduling, `kill` and `wait` read it. A C `int` is a 32-bit
word, so a negative pid is its two's complement; a null pointer is `none`.
-/
structure Proc where
  state : ProcState := .unused
  chan : Option Chan := none
  killed : Bool := false
  xstate : BitVec 32 := 0
  pid : BitVec 32 := 0
  parent : Option Slot := none
  deriving DecidableEq, Repr

/-- `proc[NPROC]` with `nextpid` and `initproc`. -/
structure Table where
  proc : Slot → Proc
  nextpid : BitVec 32
  initproc : Option Slot

/-- The table `procinit` leaves: static storage is zero, every slot is `UNUSED`. -/
def procinit : Table where
  proc := fun _ => {}
  nextpid := 1
  initproc := none

/-- Overwrites one slot of the table. -/
def Table.set (t : Table) (p : Slot) (value : Proc) : Table :=
  { t with proc := Function.update t.proc p value }

@[simp] theorem Table.set_proc_self (t : Table) (p : Slot) (value : Proc)
    : (t.set p value).proc p = value := by
  simp [Table.set]

theorem Table.set_proc_other (t : Table) {p q : Slot} (value : Proc) (other : q ≠ p)
    : (t.set p value).proc q = t.proc q := by
  simp [Table.set, other]

/-- `for(p = proc; p < &proc[NPROC]; p++)` up to the first slot that passes the test. -/
def Table.scan (t : Table) (test : Proc → Bool) : Option Slot :=
  (List.finRange NPROC).find? (fun p => test (t.proc p))

theorem Table.scan_some {t : Table} {test : Proc → Bool} {p : Slot}
    (found : t.scan test = some p)
    : test (t.proc p) = true := by
  simpa using List.find?_some found

theorem Table.scan_first {t : Table} {test : Proc → Bool} {p q : Slot}
    (found : t.scan test = some p) (earlier : q < p)
    : test (t.proc q) = false := by
  obtain ⟨_, index, bound, at_index, before⟩ :=
    List.find?_eq_some_iff_getElem.mp found
  have place : index = p.val := by simpa using congrArg Fin.val at_index
  have smaller : q.val < index := place ▸ Fin.lt_def.mp earlier
  simpa using before q.val smaller

/-- `allocpid`: the counter wraps like any 32-bit word. -/
def allocpid (t : Table) : BitVec 32 × Table :=
  (t.nextpid, { t with nextpid := t.nextpid + 1 })

/-- `freeproc` clears every field it shares with this model, `killed` included. -/
def freeproc (t : Table) (p : Slot) : Table :=
  t.set p { t.proc p with
    pid := 0, parent := none, chan := none, killed := false, xstate := 0, state := .unused }

/-- Whether the page allocations of a new process succeed. -/
inductive Memory where
  | noTrapframe
  | noPagetable
  | ok
  deriving DecidableEq, Repr

/-- `allocproc`: takes the first `UNUSED` slot, and gives it back through `freeproc` when
the trapframe or the page table cannot be allocated. `killed` is not written.
-/
def allocproc (t : Table) (memory : Memory) : Option Slot × Table :=
  match t.scan (fun p => p.state == .unused) with
  | none => (none, t)
  | some p =>
    let (pid, t) := allocpid t
    let t := t.set p { t.proc p with pid := pid, state := .used }
    match memory with
    | .noTrapframe | .noPagetable => (none, freeproc t p)
    | .ok => (some p, t)

/-- `userinit` makes the first process runnable. -/
def userinit (t : Table) : Table :=
  match allocproc t .ok with
  | (none, t) => t
  | (some p, t) =>
    let t := { t with initproc := some p }
    t.set p { t.proc p with state := .runnable }

/-- The part of `kfork` up to the release of `np->lock`: `allocproc`, then `uvmcopy`,
whose failure frees the slot again. The child is `USED` and has no parent yet.
-/
def kforkAlloc (t : Table) (memory : Memory) (uvmcopyOk : Bool) : Option Slot × Table :=
  match allocproc t memory with
  | (none, t) => (none, t)
  | (some np, t) => if uvmcopyOk then (some np, t) else (none, freeproc t np)

/-- The `wait_lock` section of `kfork`. -/
def kforkParent (t : Table) (np p : Slot) : Table :=
  t.set np { t.proc np with parent := some p }

/-- The last section of `kfork`. -/
def kforkRunnable (t : Table) (np : Slot) : Table :=
  t.set np { t.proc np with state := .runnable }

/-- `wakeup(chan)` run by process `me`, which is skipped. -/
def wakeup (t : Table) (me : Option Slot) (chan : Option Chan) : Table :=
  { t with
    proc := fun p =>
      let pr := t.proc p
      if some p ≠ me ∧ pr.state = .sleeping ∧ pr.chan = chan
      then { pr with state := .runnable } else pr }

/-- The loop of `reparent(p)` over the table, without its wakeups. -/
def reparentLoop (t : Table) (p : Slot) : Table :=
  { t with
    proc := fun pp =>
      let pr := t.proc pp
      if pr.parent = some p then { pr with parent := t.initproc } else pr }

/-- `reparent(p)`: the children of `p` go to `initproc`, which is woken. -/
def reparent (t : Table) (p : Slot) : Table :=
  let orphan := (List.finRange NPROC).any (fun pp => (t.proc pp).parent == some p)
  let t := reparentLoop t p
  if orphan then wakeup t (some p) (t.initproc.map .proc) else t

/-- `kexit(status)` from `reparent` on, all of it under `wait_lock`. -/
def kexit (t : Table) (p : Slot) (status : BitVec 32) : Table :=
  let t := reparent t p
  let t := wakeup t (some p) ((t.proc p).parent.map .proc)
  t.set p { t.proc p with xstate := status, state := .zombie }

/-- What one pass of `kwait` over the table ends in. -/
inductive WaitResult where
  | reaped (pid : BitVec 32)
  | failed
  | sleeps
  deriving DecidableEq, Repr

/-- One pass of the `kwait` loop of process `p`; `copyoutOk` says whether the status can be
stored for the caller.
-/
def kwait (t : Table) (p : Slot) (copyoutOk : Bool) : WaitResult × Table :=
  match t.scan (fun pp => pp.parent == some p && pp.state == .zombie) with
  | some pp =>
    if copyoutOk then (.reaped (t.proc pp).pid, freeproc t pp) else (.failed, t)
  | none =>
    let havekids := (List.finRange NPROC).any (fun pp => (t.proc pp).parent == some p)
    if !havekids || (t.proc p).killed then (.failed, t)
    else (.sleeps,
      t.set p { t.proc p with chan := some (.proc p), state := .sleeping })

/-- `sleep(chan, lk)` up to the switch to the scheduler. -/
def sleep (t : Table) (p : Slot) (chan : Chan) : Table :=
  t.set p { t.proc p with chan := some chan, state := .sleeping }

/-- The tail of `sleep`, once the scheduler has picked the process again. -/
def wake (t : Table) (p : Slot) : Table :=
  t.set p { t.proc p with chan := none }

/-- `yield`. -/
def yield (t : Table) (p : Slot) : Table :=
  t.set p { t.proc p with state := .runnable }

/-- The `RUNNABLE` branch of `scheduler`. -/
def schedule (t : Table) (p : Slot) : Table :=
  t.set p { t.proc p with state := .running }

/-- `kkill(pid)`: the first slot with that pid is marked, whatever its state. The first
component is what the call returns.
-/
def kkill (t : Table) (pid : BitVec 32) : BitVec 32 × Table :=
  match t.scan (fun p => p.pid == pid) with
  | none => (-1, t)
  | some p =>
    let pr := { t.proc p with killed := true }
    (0, t.set p (if pr.state = .sleeping then { pr with state := .runnable } else pr))

/-- `setkilled`, called by `usertrap` on an unexpected fault of the running process. -/
def setkilled (t : Table) (p : Slot) : Table :=
  t.set p { t.proc p with killed := true }

/-- The critical sections of `kernel/proc.c`, each by the process that runs it. -/
inductive Action where
  | userinit
  | kforkAlloc (p : Slot) (memory : Memory) (uvmcopyOk : Bool)
  | kforkParent (p np : Slot)
  | kforkRunnable (p np : Slot)
  | kexit (p : Slot) (status : BitVec 32)
  | kwait (p : Slot) (copyoutOk : Bool)
  | sleep (p : Slot) (chan : Chan)
  | wake (p : Slot)
  | wakeup (me : Option Slot) (chan : Chan)
  | yield (p : Slot)
  | schedule (p : Slot)
  | kkill (pid : BitVec 32)
  | setkilled (p : Slot)
  deriving DecidableEq, Repr

/-- Some process can be at the start of the critical section: it is on a CPU, and a slot it
is still setting up is `USED`. `kexit` by `initproc` panics, so it has no step.
-/
def Action.Enabled (t : Table) : Action → Prop
  | .userinit => t.initproc = none
  | .kforkAlloc p _ _ => (t.proc p).state = .running
  | .kforkParent p np => (t.proc p).state = .running ∧ (t.proc np).state = .used
  | .kforkRunnable p np => (t.proc p).state = .running ∧ (t.proc np).state = .used
  | .kexit p _ => (t.proc p).state = .running ∧ t.initproc ≠ some p
  | .kwait p _ => (t.proc p).state = .running
  | .sleep p _ => (t.proc p).state = .running
  | .wake p => (t.proc p).state = .running
  | .wakeup _ _ => True
  | .yield p => (t.proc p).state = .running
  | .schedule p => (t.proc p).state = .runnable
  | .kkill _ => True
  | .setkilled p => (t.proc p).state = .running

/-- The table after a critical section. -/
def Action.run (t : Table) : Action → Table
  | .userinit => Process.userinit t
  | .kforkAlloc _ memory uvmcopyOk => (Process.kforkAlloc t memory uvmcopyOk).2
  | .kforkParent p np => Process.kforkParent t np p
  | .kforkRunnable _ np => Process.kforkRunnable t np
  | .kexit p status => Process.kexit t p status
  | .kwait p copyoutOk => (Process.kwait t p copyoutOk).2
  | .sleep p chan => Process.sleep t p chan
  | .wake p => Process.wake t p
  | .wakeup me chan => Process.wakeup t me (some chan)
  | .yield p => Process.yield t p
  | .schedule p => Process.schedule t p
  | .kkill pid => (Process.kkill t pid).2
  | .setkilled p => Process.setkilled t p

/-- One critical section, taken by a process that is able to. -/
def Step (before : Table) (action : Action) (after : Table) : Prop :=
  action.Enabled before ∧ after = action.run before

end Xv6.Process

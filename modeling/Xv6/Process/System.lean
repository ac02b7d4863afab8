import Xv6.Library.Runs
import Xv6.Process.Table

/-! Processes that run through the critical sections of `kernel/proc.c`, interleaved in any
order. A section of `wait_lock` is one step, with the sections of `p->lock` inside of it, and
every other section of a `p->lock` is one, too: each turn of the loops of `allocproc`, `wakeup`
and `kkill`. The table alone does not say what a process does next: one that has allocated a
child goes on with its own `kfork`, and one that sleeps in `kwait` looks for its children again.
-/

namespace Xv6.Process

-- Turns of the loops

/-- `allocproc` from `found:` on. -/
def allocprocFound (t : Table) (p : Slot) (memory : Memory) : Option Slot × Table :=
  let (pid, t) := allocpid t
  let t := t.set p { t.proc p with pid := pid, state := .used }
  match memory with
  | .noTrapframe | .noPagetable => (none, freeproc t p)
  | .ok => (some p, t)

/-- The section of `np->lock` in `kfork`, when `allocproc` has come to slot `np`. In a slot that
is in use it changes nothing.
-/
def kforkTurn (t : Table) (np : Slot) (memory : Memory) (uvmcopyOk : Bool)
    : Option Slot × Table :=
  if (t.proc np).state = .unused then
    match allocprocFound t np memory with
    | (none, t) => (none, t)
    | (some np, t) => if uvmcopyOk then (some np, t) else (none, freeproc t np)
  else
    (none, t)

/-- One turn of `wakeup`. -/
def wakeupTurn (t : Table) (p : Slot) (chan : Chan) : Table :=
  if (t.proc p).state = .sleeping ∧ (t.proc p).chan = some chan then
    t.set p { t.proc p with state := .runnable }
  else
    t

/-- One turn of `kkill`. -/
def kkillTurn (t : Table) (p : Slot) (pid : BitVec 32) : Table :=
  if (t.proc p).pid = pid then
    let pr := { t.proc p with killed := true }
    t.set p (if pr.state = .sleeping then { pr with state := .runnable } else pr)
  else
    t

namespace System

open Library

-- Processes

/-- Where a process is between two of its sections. `fork np` and `forkEnd np` are the gaps of
`kfork`. In `kwait`, `dozing` is the process that has released `wait_lock` with its `p->lock`
held and is about to sleep, `waiting` is its sleep and `woken` the end of it; `sleeping` is any
other call of `sleep`.
-/
inductive Point where
  | run
  | fork (np : Slot)
  | forkEnd (np : Slot)
  | dozing
  | waiting
  | woken
  | sleeping
  deriving DecidableEq

structure State where
  table : Table
  point : Slot → Point

/-- The critical sections. `address` is what other parts of the kernel sleep on. -/
inductive Action where
  | userinit
  | kforkAlloc (p np : Slot) (memory : Memory) (uvmcopyOk : Bool)
  | kforkParent (p np : Slot)
  | kforkRunnable (p np : Slot)
  | kexit (p : Slot) (status : BitVec 32)
  | kwait (p : Slot) (copyoutOk : Bool)
  | kwaitSleep (p : Slot)
  | sleep (p : Slot) (address : Nat)
  | wakeup (p : Slot) (address : Nat)
  | yield (p : Slot)
  | schedule (p : Slot)
  | kkill (p : Slot) (pid : BitVec 32)
  | setkilled (p : Slot)
  deriving DecidableEq

/-- What a section tells its caller. `reported` is a `kwait` that returns `pid`, with the
status it has stored.
-/
inductive Outcome where
  | done
  | forked (np : Option Slot)
  | reported (child : Slot) (pid status : BitVec 32)
  | failed
  | sleeps
  deriving DecidableEq

/-- The child that a pass of `kwait` stops at. -/
def zombieChild (t : Table) (p : Slot) : Option Slot :=
  t.scan (fun pp => pp.parent == some p && pp.state == .zombie)

/-- Between two steps a `p->lock` is held by nobody but its own process on the way to sleep. -/
def State.unlocked (s : State) (p : Slot) : Prop :=
  s.point p ≠ .dozing

instance (s : State) (p : Slot) : Decidable (s.unlocked p) :=
  inferInstanceAs (Decidable (s.point p ≠ .dozing))

/-- The process is on a CPU and at the given point. -/
def State.isAt (s : State) (p : Slot) (point : Point) : Prop :=
  (s.table.proc p).state = .running ∧ s.point p = point

instance (s : State) (p : Slot) (point : Point) : Decidable (s.isAt p point) :=
  inferInstanceAs (Decidable ((s.table.proc p).state = .running ∧ s.point p = point))

/-- The locks of the children that `kwait` looks at can be taken: all of them, up to the one it
stops at.
-/
def State.scannable (s : State) (p : Slot) : Prop :=
  ∀ pp, (s.table.proc pp).parent = some p
    → (∀ child, zombieChild s.table p = some child → pp ≤ child)
    → s.unlocked pp

instance (s : State) (p : Slot) : Decidable (s.scannable p) :=
  inferInstanceAs (Decidable
    (∀ pp, (s.table.proc pp).parent = some p
      → (∀ child, zombieChild s.table p = some child → pp ≤ child)
      → s.unlocked pp))

/-- The process is at the start of the section, and the locks it takes are free. `kexit` takes
all of them, for its wakeups.
-/
def Action.Enabled (s : State) : Action → Prop
  | .userinit => s.table.initproc = none
  | .kforkAlloc p np _ _ => s.isAt p .run ∧ s.unlocked np
  | .kforkParent p np => s.isAt p (.fork np)
  | .kforkRunnable p np => s.isAt p (.forkEnd np)
  | .kexit p _ => s.isAt p .run ∧ s.table.initproc ≠ some p ∧ ∀ q, s.unlocked q
  | .kwait p _ => (s.isAt p .run ∨ s.isAt p .woken) ∧ s.scannable p
  | .kwaitSleep p => s.isAt p .dozing
  | .sleep p _ => s.isAt p .run
  | .wakeup p _ | .kkill p _ => s.unlocked p
  | .yield p | .setkilled p => (s.table.proc p).state = .running ∧ s.unlocked p
  | .schedule p => (s.table.proc p).state = .runnable ∧ s.unlocked p

instance (s : State) (action : Action) : Decidable (action.Enabled s) := by
  cases action <;> dsimp only [Action.Enabled] <;> infer_instance

/-- Moves process `p` on, with the table that its section leaves. -/
def State.goTo (s : State) (table : Table) (p : Slot) (point : Point) : State :=
  { table := table, point := Function.update s.point p point }

/-- Leaves every process at its point. -/
def State.stayWith (s : State) (table : Table) : State :=
  { s with table := table }

/-- The section of `p->lock` that `scheduler` begins. A process that has slept ends it with the
tail of `sleep`.
-/
def State.resume (s : State) (p : Slot) : State :=
  let t := Process.schedule s.table p
  match s.point p with
  | .waiting => s.goTo (wake t p) p .woken
  | .sleeping => s.goTo (wake t p) p .run
  | .run | .fork _ | .forkEnd _ | .dozing | .woken => s.stayWith t

def Action.run (s : State) : Action → Outcome × State
  | .userinit => (.done, s.stayWith (Process.userinit s.table))
  | .kforkAlloc p np memory uvmcopyOk =>
    match kforkTurn s.table np memory uvmcopyOk with
    | (none, table) => (.forked none, s.stayWith table)
    | (some np, table) => (.forked (some np), s.goTo table p (.fork np))
  | .kforkParent p np => (.done, s.goTo (Process.kforkParent s.table np p) p (.forkEnd np))
  | .kforkRunnable p np => (.done, s.goTo (Process.kforkRunnable s.table np) p .run)
  | .kexit p status => (.done, s.stayWith (Process.kexit s.table p status))
  | .kwait p copyoutOk =>
    match Process.kwait s.table p copyoutOk, zombieChild s.table p with
    | (.reaped pid, table), some pp =>
      (.reported pp pid (s.table.proc pp).xstate, s.goTo table p .run)
    -- The rest of `sleep` is the next section.
    | (.sleeps, _), _ => (.sleeps, s.goTo s.table p .dozing)
    | (_, table), _ => (.failed, s.goTo table p .run)
  | .kwaitSleep p => (.done, s.goTo (Process.sleep s.table p (.proc p)) p .waiting)
  | .sleep p address =>
    (.done, s.goTo (Process.sleep s.table p (.object address)) p .sleeping)
  | .wakeup p address => (.done, s.stayWith (wakeupTurn s.table p (.object address)))
  | .yield p => (.done, s.stayWith (Process.yield s.table p))
  | .schedule p => (.done, s.resume p)
  | .kkill p pid => (.done, s.stayWith (kkillTurn s.table p pid))
  | .setkilled p => (.done, s.stayWith (Process.setkilled s.table p))

abbrev Step : State → Action × Outcome → State → Prop :=
  GuardedStep Action.Enabled Action.run

/-- The system after `procinit`. -/
def boot : State := ⟨procinit, fun _ => .run⟩

abbrev History := List ((Action × Outcome) × State)

end System

end Xv6.Process

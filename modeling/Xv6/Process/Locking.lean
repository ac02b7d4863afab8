import Xv6.Process.System

/-! `sleep`, `wakeup`, `kkill`, `yield` and `scheduler` of `kernel/proc.c`, lock by lock. A step
is one `acquire`, one `release` or one change made under a lock. Processes call these functions
with spinlocks of the rest of the kernel held, and every CPU runs its own `scheduler`.
-/

namespace Xv6.Process.Locking

open Function Library

/-- The loops that take every `p->lock` in turn. -/
inductive Loop where
  | wakeup (chan : Chan)
  | kkill (pid : BitVec 32)
  deriving DecidableEq

/-- A turn of a loop: before its `acquire`, with the lock, and before its `release`. The loop
ends with a turn that has `found` what it looks for.
-/
inductive Phase where
  | enter
  | locked
  | leave (found : Bool)
  deriving DecidableEq

/-- Where a process is. `off` is a process that has been switched out in `yield` or has not run
yet, and `back` is the end of both. In `sleep(chan, lk)` a process holds both locks at
`sleepLocked` and only its `p->lock` at `sleepReady`; it is switched out at `asleep`, is back
with its `p->lock` at `awake`, has cleared `chan` at `tidy` and waits for `lk` at `relock`.
-/
inductive Point (Lock : Type) where
  | off
  | back
  | run
  | yielding
  | sleepLocked (chan : Chan) (lk : Lock)
  | sleepReady (chan : Chan) (lk : Lock)
  | asleep (chan : Chan) (lk : Lock)
  | awake (lk : Lock)
  | tidy (lk : Lock)
  | relock (lk : Lock)
  | turn (loop : Loop) (i : Slot) (phase : Phase)
  deriving DecidableEq

/-- Where the `scheduler` of a CPU is: before the `acquire` of a slot, with the lock, gone into
the process, and back with the lock.
-/
inductive CpuPoint where
  | scan (p : Slot)
  | locked (p : Slot)
  | gone (p : Slot)
  | leave (p : Slot)
  deriving DecidableEq

/-- Who holds a `p->lock`. `swtch` hands it over between a process and a `scheduler`. -/
inductive Holder where
  | proc (p : Slot)
  | scheduler
  deriving DecidableEq

structure State (Lock Cpu : Type) where
  table : Table
  point : Slot → Point Lock
  lk : Lock → Option Slot
  plock : Slot → Option Holder
  cpu : Cpu → CpuPoint

/-- Nobody runs yet and all locks are free. -/
def boot {Lock Cpu : Type} (table : Table) : State Lock Cpu :=
  { table := table, point := fun _ => .off, lk := fun _ => none, plock := fun _ => none,
    cpu := fun _ => .scan 0 }

/-- `acquire` and `release` of a spinlock, calls of the functions, with the first `acquire` of
`yield` and `sleep`, the next step of a process inside of them, and of a `scheduler`.
-/
inductive Action (Lock Cpu : Type) where
  | acquire (p : Slot) (lk : Lock)
  | release (p : Slot) (lk : Lock)
  | yield (p : Slot)
  | sleep (p : Slot) (chan : Chan) (lk : Lock)
  | call (p : Slot) (loop : Loop)
  | advance (p : Slot)
  | scheduler (c : Cpu)
  deriving DecidableEq

/-- Which function returns with the step, if one does. -/
inductive Outcome (Lock : Type) where
  | done
  | slept (lk : Lock)
  | woken (chan : Chan)
  | killed (found : Bool)
  deriving DecidableEq

/-- `wakeup` skips its caller. -/
def Loop.skips (p i : Slot) : Loop → Bool
  | .wakeup _ => i == p
  | .kkill _ => false

def Loop.turn (t : Table) (i : Slot) : Loop → Table
  | .wakeup chan => wakeupTurn t i chan
  | .kkill pid => kkillTurn t i pid

def Loop.finds (t : Table) (i : Slot) : Loop → Bool
  | .wakeup _ => false
  | .kkill pid => (t.proc i).pid == pid

def Loop.ends {Lock : Type} : Loop → Outcome Lock
  | .wakeup chan => .woken chan
  | .kkill _ => .killed false

variable {Lock Cpu : Type}

/-- The lock that the next step of a process takes is free. -/
def Point.Ready (s : State Lock Cpu) (p : Slot) : Point Lock → Prop
  | .off | .run | .asleep _ _ => False
  | .relock lk => s.lk lk = none
  | .turn loop i .enter => loop.skips p i = true ∨ s.plock i = none
  | .back | .yielding | .sleepLocked _ _ | .sleepReady _ _ | .awake _ | .tidy _
  | .turn _ _ .locked | .turn _ _ (.leave _) => True

def CpuPoint.Ready (s : State Lock Cpu) : CpuPoint → Prop
  | .scan p => s.plock p = none
  | .gone _ => False
  | .locked _ | .leave _ => True

/-- Nobody gives up the CPU with a spinlock held: `sched` would panic. -/
def Action.Enabled (s : State Lock Cpu) : Action Lock Cpu → Prop
  | .acquire p lk => s.point p = .run ∧ s.lk lk = none
  | .release p lk => s.point p = .run ∧ s.lk lk = some p
  | .yield p => s.point p = .run ∧ s.plock p = none ∧ ∀ l, s.lk l ≠ some p
  | .sleep p _ lk => s.point p = .run ∧ s.plock p = none ∧ ∀ l, s.lk l = some p ↔ l = lk
  | .call p _ => s.point p = .run
  | .advance p => (s.point p).Ready s p
  | .scheduler c => (s.cpu c).Ready s

instance [DecidableEq Lock] (s : State Lock Cpu) (p : Slot) (point : Point Lock)
    : Decidable (point.Ready s p) := by
  unfold Point.Ready
  split <;> infer_instance

instance (s : State Lock Cpu) (point : CpuPoint) : Decidable (point.Ready s) := by
  cases point <;> dsimp only [CpuPoint.Ready] <;> infer_instance

instance [Fintype Lock] [DecidableEq Lock] (s : State Lock Cpu) (action : Action Lock Cpu)
    : Decidable (action.Enabled s) := by
  cases action <;> dsimp only [Action.Enabled] <;> infer_instance

def State.goTo (s : State Lock Cpu) (p : Slot) (point : Point Lock) : State Lock Cpu :=
  { s with point := update s.point p point }

def State.setPlock (s : State Lock Cpu) (p : Slot) (holder : Option Holder) : State Lock Cpu :=
  { s with plock := update s.plock p holder }

def State.setLk [DecidableEq Lock] (s : State Lock Cpu) (lk : Lock) (holder : Option Slot)
    : State Lock Cpu :=
  { s with lk := update s.lk lk holder }

def State.setCpu [DecidableEq Cpu] (s : State Lock Cpu) (c : Cpu) (point : CpuPoint)
    : State Lock Cpu :=
  { s with cpu := update s.cpu c point }

/-- `sched` of process `p`: the CPU goes on in its `scheduler`, which now has `p->lock`. -/
def State.switchOut (s : State Lock Cpu) (table : Table) (p : Slot) (point : Point Lock)
    : State Lock Cpu :=
  { s with
    table := table
    point := update s.point p point
    plock := update s.plock p (some .scheduler)
    cpu := fun c => if s.cpu c = .gone p then .leave p else s.cpu c }

/-- Where a process goes on when it is switched in. -/
def Point.resume : Point Lock → Point Lock
  | .asleep _ lk => .awake lk
  | .off => .back
  | point => point

/-- The `RUNNABLE` branch of `scheduler`, up to `swtch`. -/
def State.switchIn [DecidableEq Cpu] (s : State Lock Cpu) (c : Cpu) (p : Slot)
    : State Lock Cpu :=
  { (s.setCpu c (.gone p)).setPlock p (some (.proc p)) with
    table := schedule s.table p
    point := update s.point p (s.point p).resume }

/-- The loop variable moves on, and the call returns after the last slot. -/
def State.nextTurn (s : State Lock Cpu) (p : Slot) (loop : Loop) (i : Slot)
    : Outcome Lock × State Lock Cpu :=
  if last : i.val + 1 < NPROC then
    (.done, s.goTo p (.turn loop ⟨i.val + 1, last⟩ .enter))
  else
    (loop.ends, s.goTo p .run)

def State.advance [DecidableEq Lock] (s : State Lock Cpu) (p : Slot)
    : Outcome Lock × State Lock Cpu :=
  match s.point p with
  | .yielding => (.done, s.switchOut (yield s.table p) p .off)
  | .back => (.done, (s.setPlock p none).goTo p .run)
  | .sleepLocked chan lk => (.done, (s.setLk lk none).goTo p (.sleepReady chan lk))
  | .sleepReady chan lk =>
    (.done, s.switchOut (sleep s.table p chan) p (.asleep chan lk))
  | .awake lk => (.done, { s with table := wake s.table p }.goTo p (.tidy lk))
  | .tidy lk => (.done, (s.setPlock p none).goTo p (.relock lk))
  | .relock lk => (.slept lk, (s.setLk lk (some p)).goTo p .run)
  | .turn loop i .enter =>
    if loop.skips p i then s.nextTurn p loop i
    else (.done, (s.setPlock i (some (.proc p))).goTo p (.turn loop i .locked))
  | .turn loop i .locked =>
    (.done, { s with table := loop.turn s.table i }.goTo p
      (.turn loop i (.leave (loop.finds s.table i))))
  | .turn _ i (.leave true) => (.killed true, (s.setPlock i none).goTo p .run)
  | .turn loop i (.leave false) => (s.setPlock i none).nextTurn p loop i
  | .off | .run | .asleep _ _ => (.done, s)

def State.schedule [DecidableEq Cpu] (s : State Lock Cpu) (c : Cpu) : State Lock Cpu :=
  match s.cpu c with
  | .scan p => (s.setPlock p (some .scheduler)).setCpu c (.locked p)
  | .locked p =>
    if (s.table.proc p).state = .runnable then s.switchIn c p
    else s.setCpu c (.leave p)
  | .leave p => (s.setPlock p none).setCpu c (.scan (p + 1))
  | .gone _ => s

section

variable [DecidableEq Lock] [DecidableEq Cpu]

def Action.run (s : State Lock Cpu) : Action Lock Cpu → Outcome Lock × State Lock Cpu
  | .acquire p lk => (.done, s.setLk lk (some p))
  | .release _ lk => (.done, s.setLk lk none)
  | .yield p => (.done, (s.setPlock p (some (.proc p))).goTo p .yielding)
  | .sleep p chan lk =>
    (.done, (s.setPlock p (some (.proc p))).goTo p (.sleepLocked chan lk))
  | .call p loop => (.done, s.goTo p (.turn loop 0 .enter))
  | .advance p => s.advance p
  | .scheduler c => (.done, s.schedule c)

abbrev Step
    : State Lock Cpu → Action Lock Cpu × Outcome Lock → State Lock Cpu → Prop :=
  GuardedStep Action.Enabled Action.run

end

abbrev History (Lock Cpu : Type) :=
  List ((Action Lock Cpu × Outcome Lock) × State Lock Cpu)

end Xv6.Process.Locking

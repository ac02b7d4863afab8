import Xv6.Library.Monitor
import Xv6.Library.Ring
import Xv6.Library.Runs

/-! One pipe of `kernel/pipe.c` and the calls on it. A call takes `pi->lock` in one step, and
then makes one step for each round of its loops; sleeping gives the lock back. What `copyin`
reads and whether `copyout` succeeds is open. The page of the pipe, which `pipeclose` frees
when both ends are closed, is not modelled.
-/

namespace Xv6.Pipes

open Function Library

abbrev Byte := BitVec 8

/-- `PIPESIZE` is 512. -/
instance pipeSize_neZero : NeZero 512 := ⟨by decide⟩

/-- The fields of `struct pipe` that processes sleep on. -/
inductive Chan where
  | nread
  | nwrite
  deriving DecidableEq

/-- `struct pipe` without its lock. -/
structure Pipe where
  data : Fin 512 → Byte
  nread : BitVec 32
  nwrite : BitVec 32
  readopen : Bool
  writeopen : Bool

/-- Where a process is: outside, at the head of the loop of `pipewrite`, or at the head of the
first or the second loop of `piperead`. `n` bytes are asked for and `i` are done.
-/
inductive Point where
  | idle
  | write (n : BitVec 32) (i : Nat)
  | read (n : BitVec 32)
  | copy (n : BitVec 32) (i : Nat)
  deriving DecidableEq

/-- The pipe, who holds its lock, and the processes. -/
structure State (P : Type) where
  pipe : Pipe
  lock : Option P
  killed : P → Bool
  threads : P → Thread Chan Point

/-- `pipewrite` and `piperead` are the calls, `acquire` takes the lock at their start or at the
end of `sleep`. `writeRound`, `waitRound` and `copyRound` are one round of a loop, or what
follows the loop.
-/
inductive Action (P : Type) where
  | pipewrite (p : P) (n : BitVec 32)
  | piperead (p : P) (n : BitVec 32)
  | acquire (p : P)
  | writeRound (p : P) (n : BitVec 32) (i : Nat) (copyin : Option Byte)
  | waitRound (p : P) (n : BitVec 32)
  | copyRound (p : P) (n : BitVec 32) (i : Nat) (copyout : Bool)
  | pipeclose (p : P) (writable : Bool)
  | kkill (p : P)
  deriving DecidableEq

inductive Outcome where
  | pending
  | appended (ch : Byte)
  | delivered (ch : Byte)
  | returned (result : Int)
  deriving DecidableEq

variable {P : Type} [DecidableEq P]

/-- The process is awake and at the start of the step; a round needs the lock. -/
def Action.Enabled (s : State P) : Action P → Prop
  | .pipewrite p _ | .piperead p _ => s.threads p = { point := .idle }
  | .pipeclose p _ => s.threads p = { point := .idle } ∧ s.lock = none
  | .acquire p =>
    s.lock = none ∧ (s.threads p).asleep = none ∧ (s.threads p).point ≠ .idle
  | .writeRound p n i _ => s.lock = some p ∧ s.threads p = { point := .write n i }
  | .waitRound p n => s.lock = some p ∧ s.threads p = { point := .read n }
  | .copyRound p n i _ => s.lock = some p ∧ s.threads p = { point := .copy n i }
  | .kkill _ => True

instance (s : State P) (action : Action P) : Decidable (action.Enabled s) := by
  cases action <;> dsimp only [Action.Enabled] <;> infer_instance

-- Rounds

/-- `pi->data[pi->nwrite++ % PIPESIZE] = ch`. -/
def Pipe.push (pipe : Pipe) (ch : Byte) : Pipe :=
  { pipe with
    data := update pipe.data (ringIndex 512 pipe.nwrite) ch
    nwrite := pipe.nwrite + 1 }

/-- `sleep(chan, &pi->lock)`. -/
def State.sleep (s : State P) (p : P) (chan : Chan) : Outcome × State P :=
  (.pending, { s with lock := none, threads := sleepOn s.threads p chan })

/-- `release(&pi->lock); return result`. -/
def State.leave (s : State P) (p : P) (result : Int) : Outcome × State P :=
  (.returned result, { s with lock := none, threads := goTo s.threads p .idle })

def State.wakeup (s : State P) (chan : Chan) : State P :=
  { s with threads := Library.wakeup s.threads chan }

/-- A round of the loop of `pipewrite`, and its end. -/
def writeRound (s : State P) (p : P) (n : BitVec 32) (i : Nat) (copyin : Option Byte)
    : Outcome × State P :=
  if (i : Int) < n.toInt then
    if s.pipe.readopen = false ∨ s.killed p = true then
      s.leave p (-1)
    else if s.pipe.nwrite = s.pipe.nread + 512 then
      (s.wakeup .nread).sleep p .nwrite
    else
      match copyin with
      | none => (s.wakeup .nread).leave p i
      | some ch =>
        (.appended ch,
          { s with
            pipe := s.pipe.push ch
            threads := goTo s.threads p (.write n (i + 1)) })
  else
    (s.wakeup .nread).leave p i

/-- A round of the first loop of `piperead`. -/
def waitRound (s : State P) (p : P) (n : BitVec 32) : Outcome × State P :=
  if s.pipe.nread = s.pipe.nwrite ∧ s.pipe.writeopen = true then
    if s.killed p = true then s.leave p (-1) else s.sleep p .nread
  else
    (.pending, { s with threads := goTo s.threads p (.copy n 0) })

/-- A round of the second loop of `piperead`, and its end. -/
def copyRound (s : State P) (p : P) (n : BitVec 32) (i : Nat) (copyout : Bool)
    : Outcome × State P :=
  if (i : Int) < n.toInt then
    if s.pipe.nread = s.pipe.nwrite then
      (s.wakeup .nwrite).leave p i
    else if copyout then
      (.delivered (s.pipe.data (ringIndex 512 s.pipe.nread)),
        { s with
          pipe := { s.pipe with nread := s.pipe.nread + 1 }
          threads := goTo s.threads p (.copy n (i + 1)) })
    else
      (s.wakeup .nwrite).leave p (if i = 0 then -1 else i)
  else
    (s.wakeup .nwrite).leave p i

/-- `pipeclose`. -/
def pipeclose (s : State P) (writable : Bool) : State P :=
  if writable then
    { s with pipe := { s.pipe with writeopen := false } }.wakeup .nread
  else
    { s with pipe := { s.pipe with readopen := false } }.wakeup .nwrite

def Action.run (s : State P) : Action P → Outcome × State P
  | .pipewrite p n => (.pending, { s with threads := goTo s.threads p (.write n 0) })
  | .piperead p n => (.pending, { s with threads := goTo s.threads p (.read n) })
  | .acquire p => (.pending, { s with lock := some p })
  | .writeRound p n i copyin => Pipes.writeRound s p n i copyin
  | .waitRound p n => Pipes.waitRound s p n
  | .copyRound p n i copyout => Pipes.copyRound s p n i copyout
  | .pipeclose _ writable => (.pending, Pipes.pipeclose s writable)
  | .kkill p =>
    (.pending,
      { s with killed := update s.killed p true, threads := rouse s.threads p })

abbrev Step : State P → Action P × Outcome → State P → Prop :=
  GuardedStep Action.Enabled Action.run

/-- A new pipe. `pipealloc` leaves whatever the page of the pipe held in `data`. -/
def pipealloc (data : Fin 512 → Byte) (killed : P → Bool) : State P where
  pipe := { data := data, nread := 0, nwrite := 0, readopen := true, writeopen := true }
  lock := none
  killed := killed
  threads := fun _ => { point := .idle }

abbrev History (P : Type) := List ((Action P × Outcome) × State P)

end Xv6.Pipes

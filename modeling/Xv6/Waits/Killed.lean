import Xv6.Pipes.Calls
import Xv6.Process.Table
import Xv6.Semaphore.Table

/-! The loops in which a system call waits for another process or for the user, and what each of
them does for a process that was killed: `kwait`, `sys_pause`, `piperead`, `pipewrite`,
`consoleread` and `sem_p`.
-/

namespace Xv6.Waits

open Library

/-- What a round of a waiting loop ends in. -/
inductive Verdict where
  | returns (result : Int)
  | sleeps
  | goesOn
  deriving DecidableEq

-- sys_pause

/-- `if (n < 0) n = 0`. -/
def pauseTicks (n : BitVec 32) : BitVec 32 := if n.toInt < 0 then 0 else n

/-- A round of the loop of `sys_pause`. Its test compares unsigned numbers. -/
def pauseRound (killed : Bool) (ticks ticks0 n : BitVec 32) : Verdict :=
  if ticks - ticks0 < pauseTicks n then
    if killed then .returns (-1) else .sleeps
  else
    .returns 0

-- consoleread

/-- `INPUT_BUF_SIZE` of `kernel/console.c` is 128. -/
instance inputBuf_neZero : NeZero 128 := ⟨by decide⟩

/-- `cons`, as far as `consoleread` reads it. -/
structure Cons where
  buf : Fin 128 → BitVec 8
  r : BitVec 32
  w : BitVec 32

/-- `C('D')`. -/
def ctrlD : BitVec 8 := 0x04

def newline : BitVec 8 := 0x0A

/-- A turn of the outer loop of `consoleread`, or one of the inner loop, or the end. `n` bytes of
`target` are missing. It leaves `cons` and the new `n`.
-/
def consoleRound (killed : Bool) (cons : Cons) (target n : BitVec 32) (copyoutOk : Bool)
    : Verdict × Cons × BitVec 32 :=
  if 0 < n.toInt then
    if cons.r = cons.w then
      (if killed then .returns (-1) else .sleeps, cons, n)
    else
      let c := cons.buf (ringIndex 128 cons.r)
      let next := { cons with r := cons.r + 1 }
      if c = ctrlD then
        (.returns (target - n).toInt, if n < target then cons else next, n)
      else if copyoutOk then
        if c = newline then (.returns (target - (n - 1)).toInt, next, n - 1)
        else (.goesOn, next, n - 1)
      else
        (.returns (target - n).toInt, next, n)
  else
    (.returns (target - n).toInt, cons, n)

-- All of them

/-- A process that evaluates its loop: the state it finds, and where it is in its call. -/
inductive Wait (P : Type) where
  | kwait (t : Process.Table) (p : Process.Slot) (copyoutOk : Bool)
  | pause (killed : Bool) (ticks ticks0 n : BitVec 32)
  | piperead (s : Pipes.State P) (p : P) (n : BitVec 32)
  | pipewrite (s : Pipes.State P) (p : P) (n : BitVec 32) (i : Nat) (copyin : Option Pipes.Byte)
  | consoleread (killed : Bool) (cons : Cons) (target n : BitVec 32) (copyoutOk : Bool)
  | semP (killed : Bool) (s : Semaphore.State P) (p : P) (id : BitVec 32) (place : Semaphore.Place)

variable {P : Type}

/-- `killed(myproc())`. -/
def Wait.killed : Wait P → Bool
  | .kwait t p _ => (t.proc p).killed
  | .piperead s p _ | .pipewrite s p _ _ _ => s.killed p
  | .pause killed _ _ _ | .consoleread killed _ _ _ _ | .semP killed _ _ _ _ => killed

/-- What the loop waits for is not there: no child has exited, the time is not over, the pipe is
empty or full while its other end is open, no input has arrived, or the semaphore is not positive.
-/
def Wait.Waiting : Wait P → Prop
  | .kwait t p _ => ∀ pp, (t.proc pp).parent = some p → (t.proc pp).state ≠ .zombie
  | .pause _ ticks ticks0 n => ticks - ticks0 < pauseTicks n
  | .piperead s _ _ => s.pipe.nread = s.pipe.nwrite ∧ s.pipe.writeopen = true
  | .pipewrite s _ n i _ =>
    (i : Int) < n.toInt ∧ s.pipe.nwrite = s.pipe.nread + 512 ∧ s.pipe.readopen = true
  | .consoleread _ cons _ n _ => 0 < n.toInt ∧ cons.r = cons.w
  | .semP _ s _ _ place => (s.sems place).value.toInt ≤ 0

/-- A round that has not returned has put its process to sleep, or goes on. -/
def awakeOr {Chan Point : Type} (thread : Thread Chan Point) : Verdict :=
  if thread.asleep.isSome then .sleeps else .goesOn

variable [DecidableEq P]

/-- What the round does. -/
def Wait.verdict : Wait P → Verdict
  | .kwait t p copyoutOk =>
    match (Process.kwait t p copyoutOk).1 with
    | .reaped pid => .returns pid.toInt
    | .failed => .returns (-1)
    | .sleeps => .sleeps
  | .pause killed ticks ticks0 n => pauseRound killed ticks ticks0 n
  | .piperead s p n =>
    match Pipes.waitRound s p n with
    | (.returned result, _) => .returns result
    | (_, s') => awakeOr (s'.threads p)
  | .pipewrite s p n i copyin =>
    match Pipes.writeRound s p n i copyin with
    | (.returned result, _) => .returns result
    | (_, s') => awakeOr (s'.threads p)
  | .consoleread killed cons target n copyoutOk =>
    (consoleRound killed cons target n copyoutOk).1
  | .semP _ s p id place =>
    match Semaphore.Action.run s (.semPBody p id place) with
    | (some result, _) => .returns result.toInt
    | (none, s') => awakeOr (s'.threads p)

/-- The loop of `sem_p`, which does not look at `killed`. -/
def Wait.isSemP : Wait P → Bool
  | .semP _ _ _ _ _ => true
  | _ => false

theorem kwait_killed {t : Process.Table} {p : Process.Slot} {copyoutOk : Bool}
    (killed : (t.proc p).killed = true)
    (waiting : ∀ pp, (t.proc pp).parent = some p → (t.proc pp).state ≠ .zombie)
    : (Process.kwait t p copyoutOk).1 = .failed := by
  have none : t.scan (fun pp => pp.parent == some p && pp.state == .zombie) = .none := by
    refine List.find?_eq_none.mpr fun pp _ => ?_
    simpa using waiting pp
  rw [Process.kwait, none]
  simp [killed]

/-- A process that finds itself killed while it still has to wait returns -1 without sleeping,
if and only if it does not wait in `sem_p`.
-/
theorem killed_leaves_wait_iff (wait : Wait P) (killed : wait.killed = true)
    (waiting : wait.Waiting)
    : wait.verdict = .returns (-1) ↔ wait.isSemP = false := by
  cases wait with
  | kwait t p copyoutOk =>
    refine iff_of_true ?_ rfl
    rw [Wait.verdict, kwait_killed killed waiting]
  | pause isKilled ticks ticks0 n =>
    refine iff_of_true ?_ rfl
    simp only [Wait.killed, Wait.Waiting] at killed waiting
    rw [Wait.verdict, pauseRound, if_pos waiting, if_pos killed]
  | piperead s p n =>
    refine iff_of_true ?_ rfl
    simp only [Wait.killed, Wait.Waiting] at killed waiting
    have leaves : Pipes.waitRound s p n = s.leave p (-1) := by
      unfold Pipes.waitRound
      rw [if_pos waiting, if_pos killed]
    rw [Wait.verdict, leaves]
    rfl
  | pipewrite s p n i copyin =>
    refine iff_of_true ?_ rfl
    have leaves : Pipes.writeRound s p n i copyin = s.leave p (-1) := by
      unfold Pipes.writeRound
      rw [if_pos waiting.1, if_pos (.inr killed)]
    rw [Wait.verdict, leaves]
    rfl
  | consoleread isKilled cons target n copyoutOk =>
    refine iff_of_true ?_ rfl
    rw [Wait.verdict, consoleRound, if_pos waiting.1, if_pos waiting.2]
    exact if_pos killed
  | semP isKilled s p id place =>
    refine iff_of_false ?_ Bool.noConfusion
    have sleeps : (Wait.semP isKilled s p id place).verdict = .sleeps := by
      simp only [Wait.Waiting] at waiting
      simp [Wait.verdict, Semaphore.Action.run, waiting, awakeOr]
    rw [sleeps]
    exact Verdict.noConfusion

/-- Witness: a process that is killed in `pause(10)`. -/
theorem killed_pause_returns
    : (Wait.pause true 5 0 10 : Wait Unit).Waiting
      ∧ (Wait.pause true 5 0 10 : Wait Unit).verdict = .returns (-1) := by
  have waiting : (5 : BitVec 32) - 0 < pauseTicks 10 := by decide
  exact ⟨waiting, (killed_leaves_wait_iff (.pause true 5 0 10) rfl waiting).mpr rfl⟩

/-- A process that was killed in its sleep goes back to sleep on a semaphore of value 0. -/
theorem killed_sem_p_sleeps
    : ∃ history s, Run Semaphore.Step Semaphore.seminit history s
      ∧ steps history = [(.semCreate () 3 0, some 0), (.semP () 3, none), (.semPBody () 3 0, none),
        (.kkill (), none)]
      ∧ (Semaphore.Action.semPBody () 3 0).Enabled s
      ∧ (Wait.semP true s () 3 0).killed = true ∧ (Wait.semP true s () 3 0).Waiting
      ∧ (Wait.semP true s () 3 0).verdict = .sleeps := by
  obtain ⟨history, s, run, same, follows⟩ :=
    Follows.toRun (show Follows (guarded Semaphore.Action.Enabled Semaphore.Action.run)
      Semaphore.seminit
      [(.semCreate () 3 0, some 0), (.semP () 3, none), (.semPBody () 3 0, none), (.kkill (), none)]
      (fun _ s => (Semaphore.Action.semPBody () 3 0).Enabled s
        ∧ (Wait.semP true s () 3 0).killed = true ∧ (s.sems 0).value.toInt ≤ 0
        ∧ (Wait.semP true s () 3 0).verdict = .sleeps) by decide +kernel)
  exact ⟨history, s, run, same, follows⟩

end Xv6.Waits

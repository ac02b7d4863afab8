import Xv6.Pipes.Calls

/-! Who sleeps on a pipe. Every call wakes the other side before it leaves, except for the
`pipewrite` that finds itself killed after it has appended something: apart from that no reader
sleeps on a pipe that has something for it, and no writer on one that has room.
-/

namespace Xv6.Pipes

open Library

variable {P : Type} {before after s : State P} {entry : Action P × Outcome}

-- The two sides

/-- A reader has no reason to wait. -/
def Pipe.Readable (pipe : Pipe) : Prop := pipe.nread ≠ pipe.nwrite ∨ pipe.writeopen = false

/-- A writer has no reason to wait. -/
def Pipe.Writable (pipe : Pipe) : Prop :=
  pipe.nwrite ≠ pipe.nread + 512 ∨ pipe.readopen = false

/-- The holder of the lock is in the loop of `pipewrite` and will not leave it through its
error exit, so that it wakes the readers.
-/
def State.Writes (s : State P) : Prop :=
  ∃ p n i, s.lock = some p ∧ (s.threads p).point = .write n i
    ∧ ((i : Int) < n.toInt → s.pipe.readopen = true ∧ s.killed p = false)

/-- The holder of the lock is in the second loop of `piperead` and wakes the writers at its
end.
-/
def State.Copies (s : State P) : Prop :=
  ∃ p n i, s.lock = some p ∧ (s.threads p).point = .copy n i

structure Settled (s : State P) : Prop where
  readers : Served s.threads .nread s.pipe.Readable s.Writes
  writers : Served s.threads .nwrite s.pipe.Writable s.Copies

/-- In `pipewrite`, with more to write. -/
def Point.Unfinished : Point → Prop
  | .write n i => (i : Int) < n.toInt
  | _ => False

/-- Nobody kills a process that has the lock and more to write while a reader sleeps that has
no reason to wait any more.
-/
def KillsAtRest (before : State P) (entry : Action P × Outcome) : Prop :=
  match entry.1 with
  | .kkill p =>
    before.lock = some p → (before.threads p).point.Unfinished → before.pipe.Readable
    → ∀ q, (before.threads q).asleep ≠ some .nread
  | _ => True

instance (pipe : Pipe) : Decidable pipe.Readable :=
  inferInstanceAs (Decidable (pipe.nread ≠ pipe.nwrite ∨ pipe.writeopen = false))

instance (point : Point) : Decidable point.Unfinished := by
  cases point <;> dsimp only [Point.Unfinished] <;> infer_instance

instance [DecidableEq P] [Fintype P] (before : State P)
    : (entry : Action P × Outcome) → Decidable (KillsAtRest before entry)
  | (.kkill p, _) =>
    inferInstanceAs (Decidable
      (before.lock = some p → (before.threads p).point.Unfinished → before.pipe.Readable
        → ∀ q, (before.threads q).asleep ≠ some .nread))
  | (.pipewrite _ _, _) | (.piperead _ _, _) | (.acquire _, _) | (.writeRound _ _ _ _, _)
  | (.waitRound _ _, _) | (.copyRound _ _ _ _, _) | (.pipeclose _ _, _) =>
    inferInstanceAs (Decidable True)

theorem State.not_writes_of_lock (free : s.lock = none) : ¬s.Writes := by
  rintro ⟨p, n, i, holds, _⟩
  exact nomatch free.symm.trans holds

theorem State.not_copies_of_lock (free : s.lock = none) : ¬s.Copies := by
  rintro ⟨p, n, i, holds, _⟩
  exact nomatch free.symm.trans holds

variable {point : Point}

theorem State.writes_at (holds : s.lock = some p) (here : s.threads p = { point := point })
    (writes : s.Writes)
    : ∃ n i, point = .write n i
      ∧ ((i : Int) < n.toInt → s.pipe.readopen = true ∧ s.killed p = false) := by
  obtain ⟨p', n, i, holds', point', goesOn⟩ := writes
  cases holds.symm.trans holds'
  rw [here] at point'
  exact ⟨n, i, point', goesOn⟩

theorem State.copies_at (holds : s.lock = some p) (here : s.threads p = { point := point })
    (copies : s.Copies)
    : ∃ n i, point = .copy n i := by
  obtain ⟨p', n, i, holds', point'⟩ := copies
  cases holds.symm.trans holds'
  rw [here] at point'
  exact ⟨n, i, point'⟩

-- Steps

theorem Settled.pipealloc (data : Fin 512 → Byte) (killed : P → Bool)
    : Settled (pipealloc data killed) :=
  ⟨.of_awake nofun, .of_awake nofun⟩

theorem Settled.pipeclose (settled : Settled s) {writable : Bool} (free : s.lock = none)
    : Settled (pipeclose s writable) := by
  unfold Pipes.pipeclose
  split
  · exact ⟨.of_awake fun q asleep => (asleep_of_wakeup asleep).1 rfl,
      settled.writers.keep (fun _ asleep => (asleep_of_wakeup asleep).2) id
        fun copies => (State.not_copies_of_lock free copies).elim⟩
  · exact ⟨settled.readers.keep (fun _ asleep => (asleep_of_wakeup asleep).2) id
        fun writes => (State.not_writes_of_lock free writes).elim,
      .of_awake fun q asleep => (asleep_of_wakeup asleep).1 rfl⟩

variable [DecidableEq P]

section

variable (settled : Settled s)
include settled

theorem Settled.leave {result : Int} (notWrites : ¬s.Writes) (notCopies : ¬s.Copies)
    : Settled (s.leave p result).2 where
  readers := settled.readers.keep (fun _ asleep => (asleep_of_goTo asleep).2) id
    fun writes => (notWrites writes).elim
  writers := settled.writers.keep (fun _ asleep => (asleep_of_goTo asleep).2) id
    fun copies => (notCopies copies).elim

theorem Settled.writeRound {p : P} {n : BitVec 32} {i : Nat} {copyin : Option Byte}
    (holds : s.lock = some p) (here : s.threads p = { point := .write n i })
    : Settled (writeRound s p n i copyin).2 := by
  have notCopies : ¬s.Copies := fun copies => by
    obtain ⟨_, _, isCopy⟩ := State.copies_at holds here copies
    cases isCopy
  -- at its normal end `pipewrite` has woken all readers
  have finish : Settled ((s.wakeup .nread).leave p i).2 :=
    ⟨.of_awake fun q asleep => (asleep_of_wakeup (asleep_of_goTo asleep).2).1 rfl,
      settled.writers.keep (fun _ asleep => (asleep_of_wakeup (asleep_of_goTo asleep).2).2) id
        fun copies => (notCopies copies).elim⟩
  unfold Pipes.writeRound
  split_ifs with more stop full
  · refine settled.leave (fun writes => ?_) notCopies
    obtain ⟨n', i', same, goesOn⟩ := State.writes_at holds here writes
    cases same
    obtain ⟨isOpen, alive⟩ := goesOn more
    simp [isOpen, alive] at stop
  · refine ⟨.of_awake fun q asleep => ?_, .of_not_ready ?_⟩
    · rcases asleep_of_sleepOn asleep with ⟨_, isOther⟩ | earlier
      · cases isOther
      · exact (asleep_of_wakeup earlier).1 rfl
    · simp only [not_or] at stop
      simp [State.sleep, State.wakeup, Pipe.Writable, full, stop.1]
  · simp only [not_or, Bool.not_eq_false, Bool.not_eq_true] at stop
    cases copyin with
    | none => exact finish
    | some ch =>
      refine ⟨.of_pending ⟨p, n, i + 1, holds, by simp, fun _ => stop⟩,
        .of_awake fun q asleep => notCopies ?_⟩
      exact settled.writers q (asleep_of_goTo asleep).2 (.inl full)
  · exact finish

theorem Settled.waitRound {p : P} {n : BitVec 32} (holds : s.lock = some p)
    (here : s.threads p = { point := .read n })
    : Settled (waitRound s p n).2 := by
  have notWrites : ¬s.Writes := fun writes => by
    obtain ⟨_, _, isWrite, _⟩ := State.writes_at holds here writes
    cases isWrite
  have notCopies : ¬s.Copies := fun copies => by
    obtain ⟨_, _, isCopy⟩ := State.copies_at holds here copies
    cases isCopy
  unfold Pipes.waitRound
  split_ifs with empty killed
  · exact settled.leave notWrites notCopies
  · refine ⟨.of_not_ready ?_, settled.writers.keep (fun q asleep => ?_) id
      fun copies => (notCopies copies).elim⟩
    · simp [State.sleep, Pipe.Readable, empty.1, empty.2]
    · rcases asleep_of_sleepOn asleep with ⟨_, isOther⟩ | earlier
      · cases isOther
      · exact earlier
  · exact ⟨settled.readers.keep (fun _ asleep => (asleep_of_goTo asleep).2) id
        fun writes => (notWrites writes).elim,
      settled.writers.keep (fun _ asleep => (asleep_of_goTo asleep).2) id
        fun copies => (notCopies copies).elim⟩

theorem Settled.copyRound {p : P} {n : BitVec 32} {i : Nat} {copyout : Bool}
    (holds : s.lock = some p) (here : s.threads p = { point := .copy n i })
    : Settled (copyRound s p n i copyout).2 := by
  have notWrites : ¬s.Writes := fun writes => by
    obtain ⟨_, _, isWrite, _⟩ := State.writes_at holds here writes
    cases isWrite
  -- at its end `piperead` has woken all writers
  have finish (result : Int) : Settled ((s.wakeup .nwrite).leave p result).2 :=
    ⟨settled.readers.keep (fun _ asleep => (asleep_of_wakeup (asleep_of_goTo asleep).2).2) id
        fun writes => (notWrites writes).elim,
      .of_awake fun q asleep => (asleep_of_wakeup (asleep_of_goTo asleep).2).1 rfl⟩
  unfold Pipes.copyRound
  split_ifs with more empty ok
  · exact finish i
  · refine ⟨.of_awake fun q asleep => notWrites ?_,
      .of_pending ⟨p, n, i + 1, holds, by simp⟩⟩
    exact settled.readers q (asleep_of_goTo asleep).2 (.inl empty)
  all_goals exact finish _

/-- A process that enters a call did not hold the lock. -/
theorem Settled.enter (here : s.threads p = { point := .idle })
    : Settled { s with threads := goTo s.threads p point } := by
  have other {q : P} {at_ : Point} (busy : (s.threads q).point = at_) (inside : at_ ≠ .idle)
      : (goTo s.threads p point q).point = at_ := by
    have apart : q ≠ p := by
      rintro rfl
      rw [here] at busy
      exact inside busy.symm
    rw [goTo_other _ apart, busy]
  refine ⟨settled.readers.keep (fun _ asleep => (asleep_of_goTo asleep).2) id ?_,
    settled.writers.keep (fun _ asleep => (asleep_of_goTo asleep).2) id ?_⟩
  · rintro ⟨q, n, i, holds, busy, goesOn⟩
    exact ⟨q, n, i, holds, other busy (by simp), goesOn⟩
  · rintro ⟨q, n, i, holds, busy⟩
    exact ⟨q, n, i, holds, other busy (by simp)⟩

theorem Settled.kkill {outcome : Outcome} (atRest : KillsAtRest s (.kkill p, outcome))
    : Settled (Action.run s (.kkill p)).2 := by
  refine ⟨fun q asleep readable => ?_,
    settled.writers.keep (fun _ asleep => (asleep_of_goTo asleep).2) id ?_⟩
  · have earlier := (asleep_of_goTo asleep).2
    obtain ⟨p', n, i, holds, point, goesOn⟩ := settled.readers q earlier readable
    have unharmed (more : (i : Int) < n.toInt) : p' ≠ p := by
      rintro rfl
      exact atRest holds (by rw [point]; exact more) readable q earlier
    refine ⟨p', n, i, holds, by simpa [Action.run] using point, fun more => ?_⟩
    simpa [Action.run, unharmed more] using goesOn more
  · rintro ⟨q, n, i, holds, busy⟩
    exact ⟨q, n, i, holds, by simpa [Action.run] using busy⟩

end

theorem Settled.step (settled : Settled before) (atRest : KillsAtRest before entry)
    (taken : Step before entry after)
    : Settled after := by
  obtain ⟨action, outcome⟩ := entry
  obtain ⟨enabled, rfl, rfl⟩ := taken.inv
  cases action with
  | pipewrite p n | piperead p n => exact settled.enter enabled
  | acquire p =>
    exact ⟨settled.readers.keep (fun _ asleep => asleep) id
        fun writes => (State.not_writes_of_lock enabled.1 writes).elim,
      settled.writers.keep (fun _ asleep => asleep) id
        fun copies => (State.not_copies_of_lock enabled.1 copies).elim⟩
  | writeRound p n i copyin => exact settled.writeRound enabled.1 enabled.2
  | waitRound p n => exact settled.waitRound enabled.1 enabled.2
  | copyRound p n i copyout => exact settled.copyRound enabled.1 enabled.2
  | pipeclose p writable => exact settled.pipeclose enabled.2
  | kkill p => exact settled.kkill atRest

/-- As long as no writer is killed at the wrong moment, whenever `pi->lock` is free nobody
sleeps on `nread` while the pipe has something to read or no writer, and nobody sleeps on
`nwrite` while the pipe has room or no reader.
-/
theorem sleepers_have_a_reason {data : Fin 512 → Byte} {killed : P → Bool}
    {history : History P} {final : State P}
    (run : Run Step (pipealloc data killed) history final) (atRest : EachStep KillsAtRest history)
    (free : final.lock = none) (p : P)
    : ¬((final.threads p).asleep = some .nread
        ∧ (final.pipe.nread ≠ final.pipe.nwrite ∨ final.pipe.writeopen = false))
      ∧ ¬((final.threads p).asleep = some .nwrite
        ∧ (final.pipe.nwrite ≠ final.pipe.nread + 512 ∨ final.pipe.readopen = false)) := by
  have settled : Settled final :=
    run.invariant (.pipealloc data killed)
      (fun _ _ _ settled atRest taken => settled.step atRest taken) atRest
  constructor
  · rintro ⟨asleep, readable⟩
    exact State.not_writes_of_lock free (settled.readers p asleep readable)
  · rintro ⟨asleep, writable⟩
    exact State.not_copies_of_lock free (settled.writers p asleep writable)

/-- Witness: a reader that sleeps is woken by a writer, although it is killed meanwhile. -/
theorem reader_sleeps_on_empty_pipe_only
    : ∃ (history : History (Fin 2)) (final : State (Fin 2)),
      Run Step (pipealloc (fun _ => 0) fun _ => false) history final
      ∧ steps history
        = [(.piperead 1 1, .pending), (.acquire 1, .pending), (.waitRound 1 1, .pending),
          (.pipewrite 0 1, .pending), (.acquire 0, .pending),
          (.writeRound 0 1 0 (some 65), .appended 65), (.kkill 0, .pending),
          (.writeRound 0 1 1 none, .returned 1)]
      ∧ final.lock = none ∧ final.pipe.nread ≠ final.pipe.nwrite
      ∧ (final.threads 1).asleep ≠ some .nread := by
  refine exists_run
    (fun history final => EachStep KillsAtRest history ∧ final.lock = none
      ∧ final.pipe.nread ≠ final.pipe.nwrite)
    (by decide +kernel) fun history final run passed => ?_
  obtain ⟨atRest, free, some⟩ := passed
  exact ⟨free, some, fun asleep => (sleepers_have_a_reason run atRest free 1).1 ⟨asleep, .inl some⟩⟩

/-- A writer that is killed between two bytes leaves the reader asleep on the first one. -/
theorem killed_writer_wakes_nobody
    : ∃ (history : History (Fin 2)) (final : State (Fin 2)),
      Run Step (pipealloc (fun _ => 0) fun _ => false) history final
      ∧ steps history
        = [(.piperead 1 1, .pending), (.acquire 1, .pending), (.waitRound 1 1, .pending),
          (.pipewrite 0 2, .pending), (.acquire 0, .pending),
          (.writeRound 0 2 0 (some 65), .appended 65), (.kkill 0, .pending),
          (.writeRound 0 2 1 (some 66), .returned (-1))]
      ∧ final.lock = none ∧ (final.threads 1).asleep = some .nread
      ∧ final.pipe.nread ≠ final.pipe.nwrite ∧ final.pipe.writeopen = true :=
  Follows.toRun (by decide +kernel)

end Xv6.Pipes

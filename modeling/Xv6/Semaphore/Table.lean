import Xv6.Library.Monitor
import Xv6.Library.Runs

/-! The semaphores of `kernel/sem.c`. Every critical section is one step: `sem_p` and `sem_v`
look their semaphore up under `sem_table.lock` and work on it later, under `s->lock`.
-/

namespace Xv6.Semaphore

open Function Library

/-- `struct sem` without its lock. -/
structure Sem where
  id : BitVec 32 := 0
  value : BitVec 32 := 0
  valid : Bool := false
  deriving DecidableEq

/-- A place in `sem_table.sems[SEM_MAX]`. Its address is the channel of its sleepers. -/
abbrev Place := Fin 16

-- Under sem_table.lock

/-- The loop that looks for a semaphore by its id. -/
def find (sems : Place → Sem) (id : BitVec 32) : Option Place :=
  (List.finRange 16).find? (fun s => (sems s).valid && (sems s).id == id)

/-- `sem_create`: what it returns, and the table it leaves. -/
def semCreate (sems : Place → Sem) (id value : BitVec 32) : BitVec 32 × (Place → Sem) :=
  match find sems id with
  | some _ => (0, sems)
  | none =>
    match (List.finRange 16).find? (fun s => !(sems s).valid) with
    | some s => (0, update sems s { id := id, value := value, valid := true })
    | none => (-1, sems)

/-- `sem_free`. -/
def semFree (sems : Place → Sem) (id : BitVec 32) : BitVec 32 × (Place → Sem) :=
  match find sems id with
  | some s => (0, update sems s { sems s with valid := false })
  | none => (-1, sems)

-- Processes

/-- Where a process is between two critical sections. In `semP` and `semV` it has found its
semaphore and is about to take `s->lock`, for the first time or on its way out of `sleep`.
-/
inductive Point where
  | idle
  | semP (id : BitVec 32) (s : Place)
  | semV (id : BitVec 32) (s : Place)
  deriving DecidableEq

structure State (P : Type) where
  sems : Place → Sem
  threads : P → Thread Place Point

/-- The critical sections. `semP` and `semV` are the lookups, `semPBody` is one round of the
loop of `sem_p`, and `kkill` is a `kill` of the process.
-/
inductive Action (P : Type) where
  | semCreate (p : P) (id value : BitVec 32)
  | semFree (p : P) (id : BitVec 32)
  | semP (p : P) (id : BitVec 32)
  | semPBody (p : P) (id : BitVec 32) (s : Place)
  | semV (p : P) (id : BitVec 32)
  | semVBody (p : P) (id : BitVec 32) (s : Place)
  | kkill (p : P)
  deriving DecidableEq

variable {P : Type} [DecidableEq P]

/-- The process is awake and at the start of the section. -/
def Action.Enabled (state : State P) : Action P → Prop
  | .semCreate p _ _ | .semFree p _ | .semP p _ | .semV p _ =>
    state.threads p = { point := .idle }
  | .semPBody p id s => state.threads p = { point := .semP id s }
  | .semVBody p id s => state.threads p = { point := .semV id s }
  | .kkill _ => True

instance (state : State P) (action : Action P) : Decidable (action.Enabled state) := by
  cases action <;> dsimp only [Action.Enabled] <;> infer_instance

/-- The first component is what the call returns, if the section ends it. -/
def Action.run (state : State P) : Action P → Option (BitVec 32) × State P
  | .semCreate _ id value =>
    let (result, sems) := Semaphore.semCreate state.sems id value
    (some result, { state with sems := sems })
  | .semFree _ id =>
    let (result, sems) := Semaphore.semFree state.sems id
    (some result, { state with sems := sems })
  | .semP p id =>
    match find state.sems id with
    | none => (some (-1), state)
    | some s => (none, { state with threads := goTo state.threads p (.semP id s) })
  | .semPBody p _ s =>
    let sem := state.sems s
    if sem.value.toInt ≤ 0 then
      (none, { state with threads := sleepOn state.threads p s })
    else
      (some 0,
        { sems := update state.sems s { sem with value := sem.value - 1 }
          threads := goTo state.threads p .idle })
  | .semV p id =>
    match find state.sems id with
    | none => (some (-1), state)
    | some s => (none, { state with threads := goTo state.threads p (.semV id s) })
  | .semVBody p _ s =>
    let sem := state.sems s
    (some 0,
      { sems := update state.sems s { sem with value := sem.value + 1 }
        threads := goTo (wakeup state.threads s) p .idle })
  | .kkill p => (none, { state with threads := rouse state.threads p })

abbrev Step : State P → Action P × Option (BitVec 32) → State P → Prop :=
  GuardedStep Action.Enabled Action.run

/-- `seminit`, with every process outside of `sem.c`. -/
def seminit : State P := ⟨fun _ => {}, fun _ => { point := .idle }⟩

abbrev History (P : Type) := List ((Action P × Option (BitVec 32)) × State P)

end Xv6.Semaphore

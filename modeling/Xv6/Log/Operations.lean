import Xv6.Library.Counting
import Xv6.Library.Monitor
import Xv6.Library.Runs
import Xv6.Log.Redo

/-! Concurrent operations on the log of `kernel/log.c`. Each section under `log.lock` is one
step; `commit`, which runs without the lock, makes one step for each block and each header it
writes. Processes sleep on `&log` only. A panic stops everything.
-/

namespace Xv6.Log

open Library
open Disk (absorb)

/-- Where a process is: outside, in `begin_op`, in an operation, or in the commit at the end of
`end_op`. `writeLog` and `install` are the loops of `write_log` and `install_trans`, `clear` is
`log.lh.n = 0`, and `finish` is the last section of `end_op`.
-/
inductive Point where
  | idle
  | beginOp
  | inside
  | commit
  | writeLog (tail : Nat)
  | writeHead
  | install (tail : Nat)
  | clear
  | eraseHead
  | finish
  deriving DecidableEq

/-- Between the two critical sections of an `end_op` that commits. -/
def Point.Commits : Point → Bool
  | .idle | .beginOp | .inside => false
  | _ => true

structure State (P : Type) where
  outstanding : Int
  committing : Bool
  lh : List Nat
  panicked : Bool
  threads : P → Thread Unit Point

/-- `beginOp` is the call, `beginRound` one round of its loop. -/
inductive Action (P : Type) where
  | beginOp (p : P)
  | beginRound (p : P)
  | logWrite (p : P) (blockno : Nat)
  | endOp (p : P)
  | commitRound (p : P) (point : Point)
  | kkill (p : P)
  deriving DecidableEq

inductive Outcome where
  | pending
  | admitted
  | header (blocks : List Nat)
  | panic (message : String)
  deriving DecidableEq

variable {P : Type} [DecidableEq P]

/-- The process is awake and at the start of the section. -/
def Action.Enabled (s : State P) (action : Action P) : Prop :=
  s.panicked = false
  ∧ match action with
    | .beginOp p => s.threads p = { point := .idle }
    | .beginRound p => s.threads p = { point := .beginOp }
    | .logWrite p _ | .endOp p => s.threads p = { point := .inside }
    | .commitRound p point => s.threads p = { point := point } ∧ point.Commits = true
    | .kkill _ => True

instance (s : State P) (action : Action P) : Decidable (action.Enabled s) := by
  cases action <;> dsimp only [Action.Enabled] <;> infer_instance

def State.panic (s : State P) (message : String) : Outcome × State P :=
  (.panic message, { s with panicked := true })

def State.goTo (s : State P) (p : P) (point : Point) : State P :=
  { s with threads := Library.goTo s.threads p point }

/-- A round of the loop of `begin_op`. -/
def beginOp (s : State P) (p : P) : Outcome × State P :=
  if s.committing then
    (.pending, { s with threads := sleepOn s.threads p () })
  else if s.lh.length + (s.outstanding + 1) * MAXOPBLOCKS > LOGBLOCKS then
    (.pending, { s with threads := sleepOn s.threads p () })
  else
    (.admitted, { s with outstanding := s.outstanding + 1 }.goTo p .inside)

def logWrite (s : State P) (blockno : Nat) : Outcome × State P :=
  if s.lh.length ≥ LOGBLOCKS then
    s.panic "too big a transaction"
  else if s.outstanding < 1 then
    s.panic "log_write outside of trans"
  else
    (.pending, { s with lh := absorb s.lh blockno })

/-- The first section of `end_op`. -/
def endOp (s : State P) (p : P) : Outcome × State P :=
  let s := { s with outstanding := s.outstanding - 1 }
  if s.committing then
    s.panic "log.committing"
  else if s.outstanding = 0 then
    (.pending, { s with committing := true }.goTo p .commit)
  else
    (.pending, { s with threads := wakeup s.threads () }.goTo p .idle)

/-- The next step of a commit, or the last section of `end_op`. -/
def commitRound (s : State P) (p : P) : Point → Outcome × State P
  | .commit => (.pending, s.goTo p (if 0 < s.lh.length then .writeLog 0 else .finish))
  | .writeLog tail =>
    (.pending, s.goTo p (if tail < s.lh.length then .writeLog (tail + 1) else .writeHead))
  | .writeHead => (.header s.lh, s.goTo p (.install 0))
  | .install tail =>
    (.pending, s.goTo p (if tail < s.lh.length then .install (tail + 1) else .clear))
  | .clear => (.pending, { s with lh := [] }.goTo p .eraseHead)
  | .eraseHead => (.header s.lh, s.goTo p .finish)
  | .finish =>
    (.pending, { s with committing := false, threads := wakeup s.threads () }.goTo p .idle)
  | .idle | .beginOp | .inside => (.pending, s)

def Action.run (s : State P) : Action P → Outcome × State P
  | .beginOp p => (.pending, s.goTo p .beginOp)
  | .beginRound p => Log.beginOp s p
  | .logWrite _ blockno => Log.logWrite s blockno
  | .endOp p => Log.endOp s p
  | .commitRound p point => Log.commitRound s p point
  | .kkill p => (.pending, { s with threads := rouse s.threads p })

abbrev Step : State P → Action P × Outcome → State P → Prop :=
  GuardedStep Action.Enabled Action.run

/-- The log after `initlog`: whatever was in it has been installed. -/
def initlog : State P where
  outstanding := 0
  committing := false
  lh := []
  panicked := false
  threads := fun _ => { point := .idle }

abbrev History (P : Type) := List ((Action P × Outcome) × State P)

-- What was logged

/-- The blocks that process `p` has logged since its last `begin_op`. -/
def operation (p : P) : History P → List Nat
  | [] => []
  | ((.beginRound q, .admitted), _) :: earlier => if q = p then [] else operation p earlier
  | ((.logWrite q blockno, .pending), _) :: earlier =>
    if q = p then blockno :: operation p earlier else operation p earlier
  | _ :: earlier => operation p earlier

/-- Whether a header was written since the last `begin_op` of process `p`. -/
def headed (p : P) : History P → Bool
  | [] => true
  | ((_, .header _), _) :: _ => true
  | ((.beginRound q, .admitted), _) :: earlier => if q = p then false else headed p earlier
  | _ :: earlier => headed p earlier

omit [DecidableEq P] in
/-- The blocks that were logged since the last header was written. -/
def transaction : History P → List Nat
  | [] => []
  | ((_, .header _), _) :: _ => []
  | ((.logWrite _ blockno, .pending), _) :: earlier => blockno :: transaction earlier
  | _ :: earlier => transaction earlier

/-- What an operation has logged since its start is part of the transaction, as long as there
was no header since then.
-/
theorem operation_subset_transaction {p : P} {history : History P}
    (isOpen : headed p history = false)
    : operation p history ⊆ transaction history := by
  induction history with
  | nil => cases isOpen
  | cons entry earlier ih =>
    obtain ⟨⟨action, outcome⟩, s⟩ := entry
    cases outcome with
    | header blocks => cases isOpen
    | panic message => cases action <;> exact ih isOpen
    | admitted =>
      cases action with
      | beginRound q =>
        rw [headed] at isOpen
        rw [operation]
        split_ifs at isOpen ⊢ with same
        · exact List.nil_subset _
        · exact ih isOpen
      | _ => exact ih isOpen
    | pending =>
      cases action with
      | logWrite q blockno =>
        rw [operation]
        split_ifs with same
        · exact List.cons_subset_cons blockno (ih isOpen)
        · exact List.subset_cons_of_subset blockno (ih isOpen)
      | _ => exact ih isOpen

end Xv6.Log

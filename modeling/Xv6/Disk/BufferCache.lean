import Xv6.Library.Counting
import Xv6.Library.LinkedRing
import Xv6.Library.Runs

/-! The buffer cache of `kernel/bio.c`. A step is a section under `bcache.lock`, or takes or
gives back the sleep-lock of a buffer. A use of a buffer begins with `bget` and ends with
`brelse`; any number of them are under way, and a process may have several.
-/

namespace Xv6.Disk.BufferCache

open Function Library

/-- `NBUF` of `kernel/param.h`. -/
abbrev NBUF : Nat := 30

/-- `struct buf`, without its list pointers, its sleep-lock and its contents. -/
structure Buf where
  valid : Bool := false
  dev : UInt32 := 0
  blockno : UInt32 := 0
  refcnt : UInt32 := 0

/-- How far a use has come: in `acquiresleep` of its buffer, with the buffer locked, or
between the two halves of `brelse`.
-/
inductive Point where
  | idle
  | waiting (b : Fin NBUF)
  | holding (b : Fin NBUF)
  | releasing (b : Fin NBUF)
  deriving DecidableEq

/-- The cache and its uses. `pins` is a history variable: the calls of `bpin` on a buffer that
no `bunpin` has answered.
-/
structure State (ι : Type) where
  buf : Fin NBUF → Buf
  links : Links (Fin NBUF)
  locked : Fin NBUF → Bool
  point : ι → Point
  pins : Fin NBUF → Nat

/-- `binit`: the list through `head`. -/
def binit (links : Links (Fin NBUF)) : Links (Fin NBUF) :=
  (List.finRange NBUF).foldl Links.pushFront ((links.setPrev none none).setNext none none)

inductive Action (ι : Type) where
  | bget (use : ι) (dev blockno : UInt32)
  | acquiresleep (use : ι)
  /-- The rest of `bread`: the contents are read. -/
  | fill (use : ι)
  /-- The first half of `brelse`. -/
  | releasesleep (use : ι)
  /-- The second half of `brelse`. -/
  | brelse (use : ι)
  | bpin (b : Fin NBUF)
  | bunpin (b : Fin NBUF)

inductive Outcome where
  | cached (b : Fin NBUF)
  | recycled (b : Fin NBUF)
  | noBuffers
  | endless
  | done
  deriving DecidableEq

variable {ι : Type}

/-- Is the block already cached? -/
def State.lookup (s : State ι) (dev blockno : UInt32) : Links.Sought (Fin NBUF) :=
  Links.seek s.links.next (fun b => (s.buf b).dev == dev && (s.buf b).blockno == blockno) NBUF
    (s.links.next none)

/-- The least recently used unused buffer. -/
def State.unused (s : State ι) : Links.Sought (Fin NBUF) :=
  Links.seek s.links.prev (fun b => (s.buf b).refcnt == 0) NBUF (s.links.prev none)

def State.setBuf (s : State ι) (b : Fin NBUF) (buf : Buf) : State ι :=
  { s with buf := update s.buf b buf }

def State.incref (s : State ι) (b : Fin NBUF) : State ι :=
  s.setBuf b { s.buf b with refcnt := (s.buf b).refcnt + 1 }

def State.decref (s : State ι) (b : Fin NBUF) : State ι :=
  s.setBuf b { s.buf b with refcnt := (s.buf b).refcnt - 1 }

variable [DecidableEq ι]

def State.goTo (s : State ι) (use : ι) (point : Point) : State ι :=
  { s with point := update s.point use point }

/-- `bget` up to `acquiresleep`. -/
def State.bget (s : State ι) (use : ι) (dev blockno : UInt32) : Outcome × State ι :=
  match s.lookup dev blockno with
  | .found b => (.cached b, (s.incref b).goTo use (.waiting b))
  | .endless => (.endless, s)
  | .absent =>
    match s.unused with
    | .found b =>
      (.recycled b,
        (s.setBuf b { valid := false, dev := dev, blockno := blockno, refcnt := 1 }).goTo use
          (.waiting b))
    | .endless => (.endless, s)
    | .absent => (.noBuffers, s)

/-- `brelse` behind `releasesleep`. -/
def State.brelse (s : State ι) (use : ι) (b : Fin NBUF) : State ι :=
  let s := (s.decref b).goTo use .idle
  if (s.buf b).refcnt = 0 then { s with links := (s.links.unlink b).pushFront b } else s

/-- Uses begin with `bget` and end with `brelse`, and every `bunpin` answers a `bpin`. -/
def Enabled (s : State ι) : Action ι → Prop
  | .bget use _ _ => s.point use = .idle
  | .acquiresleep use => ∃ b, s.point use = .waiting b ∧ s.locked b = false
  | .fill use | .releasesleep use => ∃ b, s.point use = .holding b
  | .brelse use => ∃ b, s.point use = .releasing b
  | .bpin _ => True
  | .bunpin b => 0 < s.pins b

instance (s : State ι) (action : Action ι) : Decidable (Enabled s action) := by
  cases action <;> dsimp only [Enabled] <;> infer_instance

def State.run (s : State ι) : Action ι → Outcome × State ι
  | .bget use dev blockno => s.bget use dev blockno
  | .acquiresleep use =>
    match s.point use with
    | .waiting b =>
      (.done, { s.goTo use (.holding b) with locked := update s.locked b true })
    | _ => (.done, s)
  | .fill use =>
    match s.point use with
    | .holding b => (.done, s.setBuf b { s.buf b with valid := true })
    | _ => (.done, s)
  | .releasesleep use =>
    match s.point use with
    | .holding b =>
      (.done, { s.goTo use (.releasing b) with locked := update s.locked b false })
    | _ => (.done, s)
  | .brelse use =>
    match s.point use with
    | .releasing b => (.done, s.brelse use b)
    | _ => (.done, s)
  | .bpin b => (.done, { s.incref b with pins := update s.pins b (s.pins b + 1) })
  | .bunpin b => (.done, { s.decref b with pins := update s.pins b (s.pins b - 1) })

/-- The cache after `binit`; its memory was all zeroes. -/
def Booted (s : State ι) : Prop :=
  (∃ links, s.links = binit links) ∧ (∀ b, s.buf b = {}) ∧ (∀ b, s.locked b = false)
  ∧ (∀ use, s.point use = .idle) ∧ ∀ b, s.pins b = 0

abbrev Step (before : State ι) (step : Action ι × Outcome) (after : State ι) : Prop :=
  GuardedStep Enabled State.run before step after

/-- No buffer has as many references as its counter can count. -/
def Roomy (s : State ι) : Prop := ∀ b, (s.buf b).refcnt.toNat + 1 < 2 ^ 32

instance (s : State ι) : Decidable (Roomy s) :=
  inferInstanceAs (Decidable (∀ b, (s.buf b).refcnt.toNat + 1 < 2 ^ 32))

-- References and releases

/-- The uses that have locked the buffer and have not yet given up their reference. -/
def holders [Fintype ι] (s : State ι) (b : Fin NBUF) : Nat :=
  countWhere (fun point => point == .holding b || point == .releasing b) s.point

def waiters [Fintype ι] (s : State ι) (b : Fin NBUF) : Nat :=
  countWhere (fun point => point == .waiting b) s.point

/-- The step releases the buffer. -/
def Releases (b : Fin NBUF) (s : State ι) : Action ι → Prop
  | .brelse use => s.point use = .releasing b
  | _ => False

instance (b : Fin NBUF) (s : State ι) (action : Action ι) : Decidable (Releases b s action) := by
  cases action <;> dsimp only [Releases] <;> infer_instance

/-- When the buffer was last released, counted in steps; 0 if never. -/
def releasedAt (b : Fin NBUF) (history : List ((Action ι × Outcome) × State ι)) : Nat :=
  lastAt (fun s step => Releases b s step.1) history

/-- No `bunpin` takes the last reference. -/
def KeepsLast (s : State ι) : Action ι → Prop
  | .bunpin b => 1 < (s.buf b).refcnt.toNat
  | _ => True

end Xv6.Disk.BufferCache

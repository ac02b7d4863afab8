import Xv6.Library.Counting
import Xv6.Library.Fallible
import Xv6.Library.Ring
import Xv6.Library.Runs

/-! The virtio disk driver of `kernel/virtio_disk.c` and the device it talks to. A step is a
section of `virtio_disk_rw` under `vdisk_lock`, a part of `virtio_disk_intr`, which keeps that
lock until it is through, or a step of the device. Sleeping calls may wake up at any time:
they check what they wait for again.
-/

namespace Xv6.Virtio

open Function Library

/-- The number of descriptors and of entries in each ring. -/
abbrev NUM : Nat := 8

def VRING_DESC_F_NEXT : BitVec 16 := 1
def VRING_DESC_F_WRITE : BitVec 16 := 2

def VIRTIO_BLK_T_IN : BitVec 32 := 0
def VIRTIO_BLK_T_OUT : BitVec 32 := 1

/-- The addresses that stand in descriptors: a header `ops[i]`, the data of a buffer, a status
byte `info[i].status`.
-/
inductive Addr (β : Type) where
  | null
  | op (i : Nat)
  | data (b : β)
  | status (i : Nat)
  deriving DecidableEq

/-- `struct virtq_desc`. -/
structure Desc (β : Type) where
  addr : Addr β := .null
  len : BitVec 32 := 0
  flags : BitVec 16 := 0
  next : BitVec 16 := 0

/-- `struct virtio_blk_req`. -/
structure BlkReq where
  type : BitVec 32 := 0
  reserved : BitVec 32 := 0
  sector : BitVec 64 := 0

/-- What the driver keeps for a request, under the first index of its chain. -/
structure Info (β : Type) where
  b : Option β := none
  status : BitVec 8 := 0

/-- `struct disk`, with the rings that the driver and the device share. -/
structure Disk (β : Type) where
  desc : Nat → Desc β
  availIdx : BitVec 16
  availRing : Fin NUM → BitVec 16
  usedIdx : BitVec 16
  usedRing : Fin NUM → BitVec 32
  free : Nat → Bool
  /-- `disk.used_idx`: how far the driver has looked in the used ring. -/
  seenIdx : BitVec 16
  info : Nat → Info β
  ops : Nat → BlkReq

variable {β : Type}

/-- Driver code; an error is a panic. -/
abbrev Driver (β : Type) := StateT (Disk β) (Except String)

-- Descriptors

/-- The loop of `alloc_desc` with `left` descriptors to go. -/
def allocDescLoop : Nat → Driver β (Option Nat)
  | 0 => return none
  | left + 1 => do
      let i := NUM - (left + 1)
      let disk ← get
      if disk.free i then do
        set { disk with free := update disk.free i false }
        return some i
      else
        allocDescLoop left

/-- `alloc_desc`. -/
def allocDesc : Driver β (Option Nat) := allocDescLoop NUM

/-- `free_desc`. -/
def freeDesc (i : Nat) : Driver β Unit :=
  if NUM ≤ i then throw "free_desc 1"
  else do
    let disk ← get
    if disk.free i then throw "free_desc 2"
    else set { disk with
      desc := update disk.desc i {}
      free := update disk.free i true }

/-- `free_chain`; the chain cannot be longer than there are descriptors. -/
def freeChain : Nat → Nat → Driver β Unit
  | 0, _ => throw "free_chain"
  | fuel + 1, i => do
      let disk ← get
      let flag := (disk.desc i).flags
      let nxt := (disk.desc i).next.toNat
      freeDesc i
      if flag &&& VRING_DESC_F_NEXT ≠ 0 then freeChain fuel nxt else return ()

/-- The loop of `alloc3_desc` that gives back what it has got. -/
def freeAll : List Nat → Driver β Unit
  | [] => return ()
  | i :: rest => do
      freeDesc i
      freeAll rest

/-- The loop of `alloc3_desc` with `left` descriptors to go. -/
def alloc3Loop : Nat → List Nat → Driver β (Option (List Nat))
  | 0, idx => return some idx
  | left + 1, idx => do
      match ← allocDesc with
      | some i => alloc3Loop left (idx ++ [i])
      | none => do
          freeAll idx
          return none

/-- `alloc3_desc`. -/
def alloc3Desc : Driver β (Option (List Nat)) := alloc3Loop 3 []

-- virtio_disk_rw and virtio_disk_intr

variable [DecidableEq β]

/-- What `virtio_disk_rw` writes before it tells the device. -/
def Disk.format (disk : Disk β) (b : β) (write : Bool) (sector : BitVec 64) (i₀ i₁ i₂ : Nat)
    : Disk β :=
  let type := if write then VIRTIO_BLK_T_OUT else VIRTIO_BLK_T_IN
  let ops := update disk.ops i₀ ⟨type, 0, sector⟩
  let desc := update disk.desc i₀
    ⟨.op i₀, 16, VRING_DESC_F_NEXT, BitVec.ofNat 16 i₁⟩
  let flags := (if write then 0 else VRING_DESC_F_WRITE) ||| VRING_DESC_F_NEXT
  let desc := update desc i₁ ⟨.data b, 1024, flags, BitVec.ofNat 16 i₂⟩
  let desc := update desc i₂ ⟨.status i₀, 1, VRING_DESC_F_WRITE, 0⟩
  { disk with ops, desc, info := update disk.info i₀ ⟨some b, 0xff⟩ }

/-- The new entry of the avail ring. -/
def Disk.submit (disk : Disk β) (i₀ : Nat) : Disk β :=
  { disk with
    availRing := update disk.availRing (ringIndex NUM disk.availIdx)
      (BitVec.ofNat 16 i₀)
    availIdx := disk.availIdx + 1 }

/-- How far a call of `virtio_disk_rw` has come: it sleeps until descriptors are free, or it
has sent its request and sleeps until that is done.
-/
inductive Point (β : Type) where
  | idle
  | waiting (b : β) (write : Bool) (sector : BitVec 64)
  | inFlight (b : β) (i₀ i₁ i₂ : Nat)
  deriving DecidableEq

/-- A chain as the device has read it. -/
structure Request (β : Type) where
  head : Nat
  header : Addr β
  data : Addr β
  status : Addr β
  deriving DecidableEq

/-- The driver's calls, the device and what they share. `busy b` is `b->disk`. `handler` says
that `virtio_disk_intr` has the lock. The device has read the avail ring up to `lastAvail`
and works on the pending requests. `completed` is a history variable: the device has completed
the request of the call.
-/
structure State (ι β : Type) where
  disk : Disk β
  busy : β → Bool
  point : ι → Point β
  handler : Bool
  lastAvail : BitVec 16
  pending : List (Request β)
  completed : ι → Bool

inductive Action (ι β : Type) where
  | rw (c : ι) (b : β) (blockno : BitVec 32) (write : Bool)
  | retry (c : ι)
  | resume (c : ι)
  | intrEnter
  | intrNext
  | intrLeave
  | fetch
  | complete (k : Nat)

inductive Outcome where
  | sleeps
  | submits
  | returns
  | reaps (id : Nat)
  | panics (message : String)
  | done
  deriving DecidableEq

def Point.buffer : Point β → Option β
  | .idle => none
  | .waiting b _ _ | .inFlight b _ _ _ => some b

def Point.head : Point β → Option Nat
  | .inFlight _ i₀ _ _ => some i₀
  | _ => none

variable {ι : Type} [DecidableEq ι]

def State.goTo (s : State ι β) (c : ι) (point : Point β) : State ι β :=
  { s with point := update s.point c point }

/-- `virtio_disk_rw` from the loop around `alloc3_desc` on, up to the next `sleep`. -/
def State.attempt (s : State ι β) (c : ι) (b : β) (write : Bool) (sector : BitVec 64)
    : Outcome × State ι β :=
  match alloc3Desc s.disk with
  | .error message => (.panics message, s)
  | .ok (some [i₀, i₁, i₂], disk) =>
    (.submits,
      { s.goTo c (.inFlight b i₀ i₁ i₂) with
        disk := (disk.format b write sector i₀ i₁ i₂).submit i₀
        busy := update s.busy b true
        completed := update s.completed c false })
  | .ok (_, disk) => (.sleeps, { s.goTo c (.waiting b write sector) with disk })

/-- `virtio_disk_rw` from the `while` on `b->disk` on. -/
def State.finish (s : State ι β) (c : ι) (b : β) (i₀ : Nat) : Outcome × State ι β :=
  if s.busy b then (.sleeps, s)
  else
    let disk := { s.disk with info := update s.disk.info i₀ { s.disk.info i₀ with b := none } }
    match freeChain (NUM + 1) i₀ disk with
    | .error message => (.panics message, s)
    | .ok (_, disk) => (.returns, { s.goTo c .idle with disk })

/-- One iteration of the loop of `virtio_disk_intr`. -/
def State.reap (s : State ι β) : Outcome × State ι β :=
  let id := (s.disk.usedRing (ringIndex NUM s.disk.seenIdx)).toNat
  if (s.disk.info id).status ≠ 0 then (.panics "virtio_disk_intr status", s)
  else
    match (s.disk.info id).b with
    | none => (.panics "kerneltrap", s)
    | some b =>
      (.reaps id,
        { s with
          busy := update s.busy b false
          disk := { s.disk with seenIdx := s.disk.seenIdx + 1 } })

/-- The chain with the given first index, as it stands in memory. -/
def Disk.request (disk : Disk β) (head : Nat) : Request β :=
  let second := (disk.desc head).next.toNat
  let third := (disk.desc second).next.toNat
  ⟨head, (disk.desc head).addr, (disk.desc second).addr, (disk.desc third).addr⟩

/-- The device has done a request: it writes the status byte and an entry of the used ring. -/
def Disk.complete (disk : Disk β) (request : Request β) : Disk β :=
  let disk := match request.status with
    | .status i =>
      { disk with info := update disk.info i { disk.info i with status := 0 } }
    | _ => disk
  { disk with
    usedRing := update disk.usedRing (ringIndex NUM disk.usedIdx)
      (BitVec.ofNat 32 request.head)
    usedIdx := disk.usedIdx + 1 }

/-- The device reads the next entry of the avail ring. -/
def State.fetch (s : State ι β) : State ι β :=
  let head := (s.disk.availRing (ringIndex NUM s.lastAvail)).toNat
  { s with
    lastAvail := s.lastAvail + 1
    pending := s.pending ++ [s.disk.request head] }

/-- The device completes request `k` of those it works on. -/
def State.complete (s : State ι β) (k : Nat) (request : Request β) : State ι β :=
  { s with
    disk := s.disk.complete request
    pending := s.pending.eraseIdx k
    completed := fun c => s.completed c || (s.point c).head == some request.head }

/-- The requests that the device has still to complete. -/
def sent (s : State ι β) : List Nat :=
  (ringContents s.disk.availRing s.lastAvail s.disk.availIdx).map BitVec.toNat
    ++ s.pending.map Request.head

/-- The completed requests that the driver has still to look at. -/
def reported (s : State ι β) : List Nat :=
  (ringContents s.disk.usedRing s.disk.seenIdx s.disk.usedIdx).map BitVec.toNat

/-- Calls are made on buffers that no other call works on, sections need the lock, and the
device has something to read or to complete.
-/
def Enabled (s : State ι β) : Action ι β → Prop
  | .rw c b _ _ => s.handler = false ∧ s.point c = .idle ∧ ∀ c', (s.point c').buffer ≠ some b
  | .retry c => s.handler = false ∧ ∃ b write sector, s.point c = .waiting b write sector
  | .resume c => s.handler = false ∧ ∃ b i₀ i₁ i₂, s.point c = .inFlight b i₀ i₁ i₂
  | .intrEnter => s.handler = false
  | .intrNext => s.handler = true ∧ s.disk.seenIdx ≠ s.disk.usedIdx
  | .intrLeave => s.handler = true ∧ s.disk.seenIdx = s.disk.usedIdx
  | .fetch => s.lastAvail ≠ s.disk.availIdx
  | .complete k => k < s.pending.length

def State.run (s : State ι β) : Action ι β → Outcome × State ι β
  | .rw c b blockno write => s.attempt c b write ((blockno * 2).setWidth 64)
  | .retry c =>
    match s.point c with
    | .waiting b write sector => s.attempt c b write sector
    | _ => (.done, s)
  | .resume c =>
    match s.point c with
    | .inFlight b i₀ _ _ => s.finish c b i₀
    | _ => (.done, s)
  | .intrEnter => (.done, { s with handler := true })
  | .intrNext => s.reap
  | .intrLeave => (.done, { s with handler := false })
  | .fetch => (.done, s.fetch)
  | .complete k =>
    match s.pending[k]? with
    | none => (.done, s)
    | some request => (.done, s.complete k request)

abbrev Step (before : State ι β) (step : Action ι β × Outcome) (after : State ι β) : Prop :=
  GuardedStep Enabled State.run before step after

/-- After `virtio_disk_init`: all descriptors are free and the rings are empty. -/
def Booted (s : State ι β) : Prop :=
  (∀ i, i < NUM → s.disk.free i = true) ∧ s.disk.availIdx = 0 ∧ s.disk.usedIdx = 0
  ∧ s.disk.seenIdx = 0 ∧ s.lastAvail = 0 ∧ s.pending = [] ∧ (∀ b, s.busy b = false)
  ∧ (∀ c, s.point c = .idle) ∧ s.handler = false

end Xv6.Virtio

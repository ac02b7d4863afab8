import Xv6.Library.Runs
import Xv6.Vm.UserMemory

/-! The ramdisk of `kernel/brd.c`, one call after the other. Its pages come from the allocator of
`kernel/kalloc.c`. The buffers of the callers are memory that is there: their bytes are given or
collected, and copying them does not fail.
-/

namespace Xv6.Ramdisk

open Library Vm

abbrev Byte := BitVec 8

/-- `rd_dev`, on top of physical memory. A page is given by its address. -/
structure State where
  phys : Phys
  loaded : Bool
  pages : Nat → Option Nat

/-- Code of the driver; an error is a panic. -/
abbrev Driver := StateT State (Except String)

/-- Kernel code that leaves `rd_dev` alone. -/
def onPhys {α : Type} (code : Kernel α) : Driver α := fun s =>
  match code s.phys with
  | .ok (value, phys) => .ok (value, { s with phys := phys })
  | .error message => .error message

/-- `rd_dev.pages[idx] = pa`. -/
def setPages (idx : Nat) (pa : Option Nat) : Driver Unit := fun s =>
  .ok ((), { s with pages := Function.update s.pages idx pa })

/-- `rd_walk`. -/
def rdWalk (idx : Nat) (alloc : Bool) : Driver (Option Nat) :=
  if RD_PAGES ≤ idx then
    pure none
  else do
    let s ← get
    match s.pages idx with
    | some pa => return some pa
    | none =>
      if alloc then
        match ← onPhys kalloc with
        | none => return none
        | some pa =>
          onPhys (zeroPage pa)
          setPages idx (some pa)
          return some pa
      else
        return none

/-- `if (off + n > RD_SIZE) n = RD_SIZE - off`; the sum is unsigned. -/
def clamp (off n : BitVec 32) : BitVec 32 :=
  if RD_SIZE < (off + n).toNat then BitVec.ofNat 32 RD_SIZE - off else n

/-- The loop of `rd_read`, with what it has copied. The first argument bounds its rounds. -/
def rdReadLoop (layout : Layout) (off n : Nat)
    : Nat → Nat → List Byte → Driver (BitVec 32 × List Byte)
  | 0, total, bytes => pure (BitVec.ofNat 32 total, bytes)
  | rounds + 1, total, bytes =>
    if total < n then do
      let m := min (PGSIZE - (off + total) % PGSIZE) (n - total)
      match ← rdWalk ((off + total) / PGSIZE) false with
      | none =>
        match ← onPhys kalloc with
        | none => return (-1, bytes)
        | some zeroPage =>
          onPhys (Vm.zeroPage zeroPage)
          let copied ← onPhys (loadBytes zeroPage 0 m)
          onPhys (kfree layout zeroPage)
          rdReadLoop layout off n rounds (total + m) (bytes ++ copied)
      | some pa =>
        let copied ← onPhys (loadBytes pa ((off + total) % PGSIZE) m)
        rdReadLoop layout off n rounds (total + m) (bytes ++ copied)
    else
      pure (BitVec.ofNat 32 total, bytes)

/-- `rd_read`: what it returns, and what it has stored in the buffer. -/
def rdRead (layout : Layout) (off n : BitVec 32) : Driver (BitVec 32 × List Byte) := do
  let s ← get
  if s.loaded = false ∨ RD_SIZE ≤ off.toNat then
    return (-1, [])
  else
    let n := (clamp off n).toInt.toNat
    rdReadLoop layout off.toNat n n 0 []

/-- The loop of `rd_write`. `src i` is byte `i` of the buffer. -/
def rdWriteLoop (src : Nat → Byte) (off n : Nat) : Nat → Nat → Driver (BitVec 32)
  | 0, total => pure (BitVec.ofNat 32 total)
  | rounds + 1, total =>
    if total < n then do
      let m := min (PGSIZE - (off + total) % PGSIZE) (n - total)
      match ← rdWalk ((off + total) / PGSIZE) true with
      | none => return if 0 < total then BitVec.ofNat 32 total else -1
      | some pa =>
        onPhys (storeBytes pa ((off + total) % PGSIZE)
          ((List.range m).map fun i => src (total + i)))
        rdWriteLoop src off n rounds (total + m)
    else
      pure (BitVec.ofNat 32 total)

/-- `rd_write`. -/
def rdWrite (src : Nat → Byte) (off n : BitVec 32) : Driver (BitVec 32) := do
  let s ← get
  if s.loaded = false ∨ RD_SIZE ≤ off.toNat then
    return -1
  else
    let n := (clamp off n).toInt.toNat
    rdWriteLoop src off.toNat n n 0

def setLoaded (loaded : Bool) : Driver Unit := fun s => .ok ((), { s with loaded := loaded })

/-- `sys_load_ramdisk`. The entries of `devsw` change with `loaded`. -/
def sysLoadRamdisk : Driver (BitVec 32) := do
  let s ← get
  if s.loaded then
    return -1
  else
    setLoaded true
    return 0

/-- The loop of `sys_unload_ramdisk`, `count` pages from `i` on. -/
def freePages (layout : Layout) : Nat → Nat → Driver Unit
  | 0, _ => pure ()
  | count + 1, i => do
      let s ← get
      match s.pages i with
      | none => freePages layout count (i + 1)
      | some pa =>
        onPhys (kfree layout pa)
        setPages i none
        freePages layout count (i + 1)

def sysUnloadRamdisk (layout : Layout) : Driver (BitVec 32) := do
  let s ← get
  if s.loaded then
    setLoaded false
    freePages layout RD_PAGES 0
    return 0
  else
    return -1

-- Calls

inductive Action where
  | load
  | unload
  | read (off n : BitVec 32)
  | write (src : Nat → Byte) (off n : BitVec 32)

/-- The transfers begin on the disk, and their counts are not negative. -/
def Action.Valid : Action → Prop
  | .load | .unload => True
  | .read off n | .write _ off n => off.toNat < RD_SIZE ∧ 0 ≤ n.toInt

/-- What a call returns, the bytes it stores, and whether a `kalloc` has failed in it. -/
structure Outcome where
  r : BitVec 32
  bytes : List Byte
  outOfMemory : Bool

def Action.run (layout : Layout) : Action → Driver (BitVec 32 × List Byte)
  | .load => do return (← sysLoadRamdisk, [])
  | .unload => do return (← sysUnloadRamdisk layout, [])
  | .read off n => rdRead layout off n
  | .write src off n => do return (← rdWrite src off n, [])

/-- The state with the history variable of the allocator reset. -/
def State.fresh (s : State) : State := { s with phys := { s.phys with exhausted := false } }

/-- A whole call. -/
def Step (layout : Layout) (before : State) (step : Action × Outcome) (after : State) : Prop :=
  step.1.Valid
  ∧ step.1.run layout before.fresh = .ok ((step.2.r, step.2.bytes), after)
  ∧ step.2.outOfMemory = after.phys.exhausted

end Xv6.Ramdisk

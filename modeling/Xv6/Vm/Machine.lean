import Xv6.Process.Table
import Xv6.Vm.UserMemory

/-! The machine that the memory system calls run on: physical memory, the shared-memory
table of `kernel/shm.c`, and the memory fields of each process. Pages that other parts of the
kernel own (kernel page tables, kernel stacks, pipes, the ramdisk) are in `held`, once for
each owner.
-/

namespace Xv6.Vm

open Function

open Process (Slot)

/-- An entry of `shm_table.frames`. -/
structure Frame where
  id : BitVec 32 := 0
  pa : Nat := 0
  ref : BitVec 32 := 0
  deriving DecidableEq

/-- Whether a slot is free, belongs to a process, or waits for its parent. -/
inductive Status where
  | unused
  | live
  | zombie
  deriving DecidableEq, Repr

/-- The memory fields of `struct proc`. A null pointer is 0. -/
structure Proc where
  status : Status := .unused
  sz : Nat := 0
  pagetable : Nat := 0
  trapframe : Nat := 0
  deriving DecidableEq

structure Machine where
  phys : Phys
  shm : Fin 8 → Frame
  proc : Slot → Proc
  held : List Nat

/-- Kernel code over the whole machine. -/
abbrev Sys := StateT Machine (Except String)

/-- Runs code that only works on physical memory. -/
def onPhys {α : Type} (code : Kernel α) : Sys α := fun m =>
  match code m.phys with
  | .ok (result, phys) => .ok (result, { m with phys := phys })
  | .error message => .error message

def setFrame (i : Fin 8) (frame : Frame) : Sys Unit := fun m =>
  .ok ((), { m with shm := update m.shm i frame })

def setProc (p : Slot) (value : Proc) : Sys Unit := fun m =>
  .ok ((), { m with proc := update m.proc p value })

def setHeld (held : List Nat) : Sys Unit := fun m => .ok ((), { m with held := held })

-- kernel/shm.c

/-- The loop of `shm_open` and `shm_close` that looks for a registered id. -/
def findFrame (frames : Fin 8 → Frame) (id : BitVec 32) : Option (Fin 8) :=
  (List.finRange 8).find? (fun i => (frames i).id == id && (frames i).pa != 0)

/-- The loop of `shm_open` that looks for a free frame. -/
def freeFrame (frames : Fin 8 → Frame) : Option (Fin 8) :=
  (List.finRange 8).find? (fun i => (frames i).pa == 0)

/-- `is_shared_page`. -/
def isSharedPage (frames : Fin 8 → Frame) (pa : Nat) : Bool :=
  (List.finRange 8).any (fun i => (frames i).pa == pa)

/-- The part of `shm_open` under `shm_table.lock`: the shared page, counted once more. -/
def shmGet (id : BitVec 32) : Sys (Option Nat) := do
  let m ← get
  match findFrame m.shm id with
  | some i =>
    setFrame i { m.shm i with ref := (m.shm i).ref + 1 }
    onPhys (incref (m.shm i).pa)
    return some (m.shm i).pa
  | none =>
    match freeFrame m.shm with
    | none => return none
    | some i =>
      match ← onPhys kalloc with
      | none => return none
      | some pa =>
        onPhys (zeroPage pa)
        setFrame i { id := id, pa := pa, ref := 1 }
        onPhys (incref pa)
        return some pa

/-- `shm_open` called by process `p`; `none` stands for the result -1. -/
def shmOpen (p : Slot) (id : BitVec 32) : Sys (Option Nat) := do
  match ← shmGet id with
  | none => return none
  | some pa =>
    let proc := (← get).proc p
    let va := PGROUNDUP proc.sz
    if ← onPhys (mappages proc.pagetable va 4096 pa (PTE_W ||| PTE_R ||| PTE_U)) then
      setProc p { proc with sz := va + 4096 }
      return some va
    else
      return none

/-- `shm_close`; `false` stands for the result -1. -/
def shmClose (layout : Layout) (id : BitVec 32) : Sys Bool := do
  let m ← get
  match findFrame m.shm id with
  | none => return false
  | some i =>
    if (m.shm i).ref - 1 = 0 then do
      onPhys (kfree layout (m.shm i).pa)
      setFrame i { id := 0, pa := 0, ref := 0 }
      return true
    else
      setFrame i { m.shm i with ref := (m.shm i).ref - 1 }
      return true

-- kernel/proc.c

/-- `proc_pagetable` for a process with the given trapframe. -/
def procPagetable (layout : Layout) (trapframe : Nat) : Kernel (Option Nat) := do
  match ← uvmcreate with
  | none => return none
  | some pagetable =>
    if ← mappages pagetable TRAMPOLINE 4096 layout.trampoline (PTE_R ||| PTE_X) then
      if ← mappages pagetable TRAPFRAME 4096 trapframe (PTE_R ||| PTE_W) then
        return some pagetable
      else
        uvmunmap layout pagetable TRAMPOLINE 1 false
        uvmfree layout pagetable 0
        return none
    else
      uvmfree layout pagetable 0
      return none

/-- `proc_freepagetable`. -/
def procFreepagetable (layout : Layout) (pagetable sz : Nat) : Kernel Unit := do
  uvmunmap layout pagetable TRAMPOLINE 1 false
  uvmunmap layout pagetable TRAPFRAME 1 false
  uvmfree layout pagetable sz

/-- The memory that `freeproc` gives back. -/
def freeMemory (layout : Layout) (proc : Proc) : Kernel Unit := do
  if proc.trapframe ≠ 0 then kfree layout proc.trapframe else pure ()
  if proc.pagetable ≠ 0 then procFreepagetable layout proc.pagetable proc.sz else pure ()

/-- `freeproc`. -/
def freeproc (layout : Layout) (p : Slot) : Sys Unit := do
  onPhys (freeMemory layout ((← get).proc p))
  setProc p {}

/-- The first slot that `allocproc` finds free. -/
def freeSlot (proc : Slot → Proc) : Option Slot :=
  (List.finRange 64).find? (fun p => (proc p).status == .unused)

/-- `allocproc`. A slot in state `USED` is not yet distinguished from a running one. -/
def allocproc (layout : Layout) : Sys (Option Slot) := do
  match freeSlot (← get).proc with
  | none => return none
  | some p =>
    match ← onPhys kalloc with
    | none =>
      freeproc layout p
      return none
    | some trapframe =>
      setProc p { status := .live, trapframe := trapframe }
      match ← onPhys (procPagetable layout trapframe) with
      | none =>
        freeproc layout p
        return none
      | some pagetable =>
        setProc p { status := .live, pagetable := pagetable, trapframe := trapframe }
        return some p

/-- `*(np->trapframe) = *(p->trapframe); np->trapframe->a0 = 0`. -/
def copyTrapframe (dst src : Nat) : Kernel Unit := do
  let saved ← loadBytes src 0 288
  storeBytes dst 0 saved
  storeBytes dst 112 (List.replicate 8 0)

/-- `kfork` called by process `p`. -/
def kfork (layout : Layout) (p : Slot) : Sys (Option Slot) := do
  match ← allocproc layout with
  | none => return none
  | some np =>
    let m ← get
    if ← onPhys (uvmcopy layout (isSharedPage m.shm) (m.proc p).pagetable
        (m.proc np).pagetable (m.proc p).sz) then
      setProc np { m.proc np with sz := (m.proc p).sz }
      onPhys (copyTrapframe (m.proc np).trapframe (m.proc p).trapframe)
      return some np
    else
      freeproc layout np
      return none

/-- `sz + n` as a 64-bit word, for an `int n`. -/
def addInt (sz : Nat) (n : BitVec 32) : Nat := (sz + (n.signExtend 64).toNat) % 2 ^ 64

/-- `growproc` by process `p`; `false` stands for the result -1. -/
def growproc (layout : Layout) (p : Slot) (n : BitVec 32) : Sys Bool := do
  let proc := (← get).proc p
  if 0 < n.toInt then
    if TRAPFRAME < addInt proc.sz n then return false
    let sz ← onPhys (uvmalloc layout proc.pagetable proc.sz (addInt proc.sz n) PTE_W)
    if sz = 0 then return false
    setProc p { proc with sz := sz }
    return true
  else if n.toInt < 0 then
    let sz ← onPhys (uvmdealloc layout proc.pagetable proc.sz (addInt proc.sz n))
    setProc p { proc with sz := sz }
    return true
  else
    return true

/-- `sys_sbrk`: the old size, or `none` for the result -1. -/
def sysSbrk (layout : Layout) (p : Slot) (n : BitVec 32) (eager : Bool)
    : Sys (Option Nat) := do
  let proc := (← get).proc p
  if eager || decide (n.toInt < 0) then
    if ← growproc layout p n then return some proc.sz
    else return none
  else
    if addInt proc.sz n < proc.sz then return none
    if TRAPFRAME < addInt proc.sz n then return none
    setProc p { proc with sz := addInt proc.sz n }
    return some proc.sz

/-- `kexit`, and with it every way a process is killed. -/
def kexit (p : Slot) : Sys Unit := do
  setProc p { (← get).proc p with status := .zombie }

-- Steps of the machine

/-- What can happen next. -/
inductive Action where
  | kalloc
  | incref (pa : Nat)
  | kfree (pa : Nat)
  | userinit
  | kfork (p : Slot)
  | load (p : Slot) (va : Nat)
  | store (p : Slot) (va : Nat) (value : BitVec 8)
  | copyin (p : Slot) (srcva len : Nat)
  | copyout (p : Slot) (dstva : Nat) (src : List (BitVec 8))
  | uvmalloc (p : Slot) (newsz : Nat) (xperm : Pte)
  | uvmdealloc (p : Slot) (newsz : Nat)
  | sbrk (p : Slot) (n : BitVec 32) (eager : Bool)
  | uvmcow (p : Slot) (va : Nat)
  | vmfault (p : Slot) (va : Nat)
  | uvmclear (p : Slot) (va : Nat)
  | shmOpen (p : Slot) (id : BitVec 32)
  | shmClose (p : Slot) (id : BitVec 32)
  | exit (p : Slot)
  | reap (p : Slot)
  deriving DecidableEq

/-- What the caller of a step gets back. -/
inductive Outcome where
  | none
  | flag (ok : Bool)
  | address (result : Option Nat)
  | forked (child : Option Slot)
  | loaded (value : Option (BitVec 8))
  | copied (ok : Bool) (bytes : List (BitVec 8))
  deriving DecidableEq

/-- Runs code on the memory of process `p`. -/
def onProc {α : Type} (p : Slot) (code : Proc → Kernel α) : Sys α := do
  onPhys (code ((← get).proc p))

/-- A process that faults for good is killed. -/
def killUnless (p : Slot) (ok : Bool) : Sys Unit :=
  if ok then pure () else kexit p

/-- The effect of a step. -/
def Action.run (layout : Layout) : Action → Sys Outcome
  | .kalloc => do
      match ← onPhys Vm.kalloc with
      | Option.none => return .address Option.none
      | some pa =>
        setHeld (pa :: (← get).held)
        return .address (some pa)
  | .incref pa => do
      onPhys (Vm.incref pa)
      setHeld (pa :: (← get).held)
      return .none
  | .kfree pa => do
      onPhys (Vm.kfree layout pa)
      setHeld ((← get).held.erase pa)
      return .none
  | .userinit => do return .forked (← allocproc layout)
  | .kfork p => do return .forked (← Vm.kfork layout p)
  | .load p va => do
      let value ← onProc p (fun proc => userLoad layout proc.sz proc.pagetable va)
      killUnless p value.isSome
      return .loaded value
  | .store p va value => do
      let ok ← onProc p (fun proc => userStore layout proc.sz proc.pagetable va value)
      killUnless p ok
      return .flag ok
  | .copyin p srcva len => do
      let (ok, bytes) ← onProc p
        (fun proc => Vm.copyin layout proc.sz proc.pagetable proc.pagetable srcva len)
      return .copied ok bytes
  | .copyout p dstva src => do
      return .flag (← onProc p
        (fun proc => Vm.copyout layout proc.sz proc.pagetable proc.pagetable dstva src))
  | .uvmalloc p newsz xperm => do
      let proc := (← get).proc p
      let sz ← onPhys (Vm.uvmalloc layout proc.pagetable proc.sz newsz xperm)
      if sz = 0 then return .flag false
      setProc p { proc with sz := sz }
      return .flag true
  | .uvmdealloc p newsz => do
      let proc := (← get).proc p
      let sz ← onPhys (Vm.uvmdealloc layout proc.pagetable proc.sz newsz)
      setProc p { proc with sz := sz }
      return .none
  | .sbrk p n eager => do return .address (← sysSbrk layout p n eager)
  | .uvmcow p va => do
      return .flag (← onProc p (fun proc => Vm.uvmcow layout proc.pagetable va))
  | .vmfault p va => do
      return .flag (← onProc p
        (fun proc => Vm.vmfault layout proc.sz proc.pagetable proc.pagetable va)).isSome
  | .uvmclear p va => do
      onProc p (fun proc => Vm.uvmclear proc.pagetable va)
      return .none
  | .shmOpen p id => do return .address (← Vm.shmOpen p id)
  | .shmClose _ id => do return .flag (← Vm.shmClose layout id)
  | .exit p => do
      kexit p
      return .none
  | .reap p => do
      freeproc layout p
      return .none

/-- The process a step acts for is running, and a freed or retained page has a kernel owner.
`kexec` grows an image with the permissions of `flags2perm` and clears a page it has mapped.
-/
def Enabled (m : Machine) : Action → Prop
  | .kalloc | .userinit => True
  | .incref pa | .kfree pa => pa ∈ m.held
  | .uvmalloc p newsz xperm =>
    (m.proc p).status = .live ∧ newsz ≤ TRAPFRAME ∧ xperm &&& (PTE_W ||| PTE_X) = xperm
  | .uvmclear p va =>
    (m.proc p).status = .live ∧ va < (m.proc p).sz
      ∧ ismapped (m.proc p).pagetable va m.phys = .ok (true, m.phys)
  | .reap p => (m.proc p).status = .zombie
  | .kfork p | .load p _ | .store p _ _ | .copyin p _ _ | .copyout p _ _ | .uvmdealloc p _
  | .sbrk p _ _ | .uvmcow p _ | .vmfault p _ | .shmOpen p _ | .shmClose p _
  | .exit p =>
    (m.proc p).status = .live

/-- One step of the machine that does not panic, with what its caller gets. -/
def Step (layout : Layout) (before : Machine) (action : Action × Outcome) (after : Machine)
    : Prop :=
  Enabled before action.1 ∧ action.1.run layout before = .ok (action.2, after)

/-- The state `kinit` and `shminit` leave, from any contents of memory at power-on. -/
def boot (layout : Layout) (mem : Nat → Page) : Except String Machine :=
  match kinit layout ⟨mem, [], fun _ => 0, false⟩ with
  | .ok (_, phys) => .ok ⟨phys, fun _ => {}, fun _ => {}, []⟩
  | .error message => .error message

end Xv6.Vm

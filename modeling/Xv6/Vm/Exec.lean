import Xv6.Vm.Machine

/-! `kexec` of `kernel/exec.c`: a new image is built from a file of any contents next to the old
one, and takes its place only when everything has worked. The file system appears as the calls
that `kexec` makes to it and as the bytes it reads.
-/

namespace Xv6.Vm

open Library
open Process (Slot)

abbrev MAXARG : Nat := 32

abbrev USERSTACK : Nat := 1

-- kernel/elf.h

/-- The number that bytes of memory hold, least significant byte first. -/
def littleEndian : List (BitVec 8) → Nat
  | [] => 0
  | byte :: rest => byte.toNat + 256 * littleEndian rest

/-- The member of a struct that starts at byte `offset`. -/
def memberAt (width : Nat) (bytes : List (BitVec 8)) (offset : Nat) : BitVec width :=
  BitVec.ofNat width (littleEndian ((bytes.drop offset).take (width / 8)))

/-- The members of `struct elfhdr` that `kexec` reads. -/
structure ElfHdr where
  magic : BitVec 32
  entry : BitVec 64
  phoff : BitVec 64
  phnum : BitVec 16

def ElfHdr.of (bytes : List (BitVec 8)) : ElfHdr where
  magic := memberAt 32 bytes 0
  entry := memberAt 64 bytes 24
  phoff := memberAt 64 bytes 32
  phnum := memberAt 16 bytes 56

/-- The members of `struct proghdr` that `kexec` reads. -/
structure ProgHdr where
  type : BitVec 32
  flags : BitVec 32
  off : BitVec 64
  vaddr : BitVec 64
  filesz : BitVec 64
  memsz : BitVec 64

def ProgHdr.of (bytes : List (BitVec 8)) : ProgHdr where
  type := memberAt 32 bytes 0
  flags := memberAt 32 bytes 4
  off := memberAt 64 bytes 8
  vaddr := memberAt 64 bytes 16
  filesz := memberAt 64 bytes 32
  memsz := memberAt 64 bytes 40

def ELF_MAGIC : BitVec 32 := 0x464C457F

def ELF_PROG_LOAD : BitVec 32 := 1

/-- `readi` into kernel memory from a file with the given contents. -/
def readi (file : List (BitVec 8)) (off : BitVec 32) (n : Nat) : List (BitVec 8) :=
  if file.length < off.toNat ∨ 2 ^ 32 ≤ off.toNat + n then []
  else (file.drop off.toNat).take n

-- The segments of the program

/-- `flags2perm`. -/
def flags2perm (flags : BitVec 32) : Pte :=
  let perm := if flags &&& 1 ≠ 0 then PTE_X else 0
  if flags &&& 2 ≠ 0 then perm ||| PTE_W else perm

/-- The loop of `loadseg`. Its counter is a `uint` and takes `2 ^ 20` values at most, so a loop
that has not ended after that many rounds never does.
-/
def loadsegLoop (pagetable va : Nat) (file : List (BitVec 8)) (offset sz : BitVec 32)
    : Nat → BitVec 32 → Kernel Bool
  | 0, _ => throw "loadseg: no end"
  | rounds + 1, i =>
    if sz ≤ i then pure true
    else do
      match ← walkaddr pagetable ((va + i.toNat) % 2 ^ 64) with
      | none => throw "loadseg: address should exist"
      | some pa =>
        let n := min (sz - i).toNat 4096
        let bytes := readi file (offset + i) n
        storeBytes pa 0 bytes
        if bytes.length = n then
          loadsegLoop pagetable va file offset sz rounds (i + 4096)
        else
          return false

/-- `loadseg`; `false` stands for the result -1. -/
def loadseg (pagetable va : Nat) (file : List (BitVec 8)) (offset sz : BitVec 32)
    : Kernel Bool :=
  loadsegLoop pagetable va file offset sz (2 ^ 20 + 1) 0

/-- The loop of `kexec` over the remaining program headers, from file offset `off` on and with an
image of size `sz`: whether it came to its end, and the size it reached.
-/
def loadSegments (layout : Layout) (pagetable : Nat) (file : List (BitVec 8))
    : Nat → BitVec 32 → Nat → Kernel (Bool × Nat)
  | 0, _, sz => return (true, sz)
  | left + 1, off, sz => do
      let bytes := readi file off 56
      if bytes.length ≠ 56 then return (false, sz)
      let ph := ProgHdr.of bytes
      if ph.type ≠ ELF_PROG_LOAD then
        loadSegments layout pagetable file left (off + 56) sz
      else if ph.memsz < ph.filesz then return (false, sz)
      else if ph.vaddr + ph.memsz < ph.vaddr then return (false, sz)
      else if ph.vaddr.toNat % 4096 ≠ 0 then return (false, sz)
      else
        let sz1 ← uvmalloc layout pagetable sz (ph.vaddr + ph.memsz).toNat (flags2perm ph.flags)
        if sz1 = 0 then return (false, sz)
        else if ← loadseg pagetable ph.vaddr.toNat file (ph.off.setWidth 32)
            (ph.filesz.setWidth 32) then
          loadSegments layout pagetable file left (off + 56) sz1
        else
          return (false, sz1)

/-- How far `kexec` has come: whether there was no error, and its locals `pagetable` and `sz`. -/
structure Progress where
  ok : Bool
  pagetable : Nat
  sz : Nat

/-- The part of `kexec` that reads the locked file. -/
def loadImage (layout : Layout) (trapframe : Nat) (file : List (BitVec 8))
    : Kernel Progress := do
  let header := readi file 0 64
  if header.length ≠ 64 then return ⟨false, 0, 0⟩
  let elf := ElfHdr.of header
  if elf.magic ≠ ELF_MAGIC then return ⟨false, 0, 0⟩
  match ← procPagetable layout trapframe with
  | none => return ⟨false, 0, 0⟩
  | some pagetable =>
    let (ok, sz) ← loadSegments layout pagetable file elf.phnum.toNat
      (elf.phoff.setWidth 32) 0
    return ⟨ok, pagetable, sz⟩

-- The stack

/-- `sp - n` as 64-bit words, rounded down to a multiple of 16. -/
def pushDown (sp n : Nat) : Nat :=
  let sp := (sp + 2 ^ 64 - n) % 2 ^ 64
  sp - sp % 16

/-- The bytes of a `uint64` in memory. -/
def wordBytes (word : Nat) : List (BitVec 8) :=
  (List.range 8).map fun i => BitVec.ofNat 8 (word / 256 ^ i)

/-- The loop of `kexec` over the argument strings; `ustack` has their addresses so far. -/
def pushStrings (layout : Layout) (oldsz own pagetable stackbase : Nat)
    : List (List (BitVec 8)) → Nat → List Nat → Kernel (Option (Nat × List Nat))
  | [], sp, ustack => return some (sp, ustack)
  | arg :: rest, sp, ustack => do
      if MAXARG ≤ ustack.length then return none
      let sp := pushDown sp (arg.length + 1)
      if sp < stackbase then return none
      if ← copyout layout oldsz own pagetable sp (arg ++ [0]) then
        pushStrings layout oldsz own pagetable stackbase rest sp (ustack ++ [sp])
      else
        return none

/-- The strings, then the array of pointers to them: the final stack pointer. -/
def pushArguments (layout : Layout) (oldsz own pagetable stackbase sp : Nat)
    (argv : List (List (BitVec 8))) : Kernel (Option Nat) := do
  match ← pushStrings layout oldsz own pagetable stackbase argv sp [] with
  | none => return none
  | some (sp, ustack) =>
    let sp := pushDown sp ((ustack.length + 1) * 8)
    if sp < stackbase then return none
    if ← copyout layout oldsz own pagetable sp ((ustack ++ [0]).flatMap wordBytes) then
      return some sp
    else
      return none

/-- The part of `kexec` that adds the stack: the size reached and the stack pointer. The calling
process still has its old size and page table.
-/
def buildStack (layout : Layout) (oldsz own pagetable sz : Nat)
    (argv : List (List (BitVec 8))) : Kernel (Nat × Option Nat) := do
  let sz := PGROUNDUP sz
  let sz1 ← uvmalloc layout pagetable sz (sz + (USERSTACK + 1) * 4096) PTE_W
  if sz1 = 0 then return (sz, none)
  uvmclear pagetable (sz1 - (USERSTACK + 1) * 4096)
  return (sz1, ← pushArguments layout oldsz own pagetable (sz1 - USERSTACK * 4096) sz1 argv)

-- kexec

/-- What `kexec` works on: the machine, the names of the processes, its calls of `begin_op` and
`end_op`, and its references to the inode of the file and whether it has locked it.
-/
structure ExecState where
  machine : Machine
  names : Slot → List (BitVec 8)
  begun : Nat
  ended : Nat
  refs : Nat
  locked : Bool

abbrev ExecM := StateT ExecState (Except String)

/-- Runs code on the machine. -/
def onMachine {α : Type} (code : Sys α) : ExecM α := fun st =>
  match code st.machine with
  | .ok (result, machine) => .ok (result, { st with machine := machine })
  | .error message => .error message

def beginOp : ExecM Unit := fun st => .ok ((), { st with begun := st.begun + 1 })

def endOp : ExecM Unit := fun st => .ok ((), { st with ended := st.ended + 1 })

/-- `namei` where it finds the file. -/
def namei : ExecM Unit := fun st => .ok ((), { st with refs := st.refs + 1 })

def ilock : ExecM Unit := fun st =>
  if st.refs < 1 then .error "ilock" else .ok ((), { st with locked := true })

def iunlockput : ExecM Unit := fun st =>
  if !st.locked || decide (st.refs < 1) then .error "iunlock"
  else .ok ((), { st with locked := false, refs := st.refs - 1 })

/-- `safestrcpy` of the string `t` over the first `n` bytes of `s`. The loop copies the NUL of a
short string, and another one follows.
-/
def safestrcpy (s t : List (BitVec 8)) (n : Nat) : List (BitVec 8) :=
  if n = 0 then s
  else
    let copied := (t ++ [0]).take (n - 1)
    copied ++ [0] ++ s.drop (copied.length + 1)

/-- What stands after the last slash of a path. -/
def lastElement (last : List (BitVec 8)) : List (BitVec 8) → List (BitVec 8)
  | [] => last
  | c :: rest => lastElement (if c = 47 then rest else last) rest

def setName (p : Slot) (name : List (BitVec 8)) : ExecM Unit := fun st =>
  .ok ((), { st with names := Function.update st.names p name })

/-- The words of `struct trapframe` that `kexec` writes. -/
def EPC : Nat := 3
def SP : Nat := 6
def A1 : Nat := 15

/-- The label `bad` of `kexec`; `ip` says whether the inode is still there. -/
def bad (layout : Layout) (pagetable sz : Nat) (ip : Bool) : ExecM (Option Nat) := do
  if pagetable ≠ 0 then onMachine (onPhys (procFreepagetable layout pagetable sz)) else pure ()
  if ip then do
    iunlockput
    endOp
    return none
  else
    return none

/-- The part of `kexec` that puts the new image in place of the old one. -/
def commitImage (layout : Layout) (p : Slot) (path : List (BitVec 8)) (pagetable sz sp : Nat)
    (entry : BitVec 64) : ExecM Unit := do
  let st ← get
  let proc := st.machine.proc p
  onMachine (onPhys (writeEntry proc.trapframe A1 (BitVec.ofNat 64 sp)))
  setName p (safestrcpy (st.names p) (lastElement path path) 16)
  onMachine (setProc p { proc with pagetable := pagetable, sz := sz })
  onMachine (onPhys (writeEntry proc.trapframe EPC entry))
  onMachine (onPhys (writeEntry proc.trapframe SP (BitVec.ofNat 64 sp)))
  onMachine (onPhys (procFreepagetable layout proc.pagetable proc.sz))

/-- `kexec` by process `p`, where `namei` finds `file` under `path`. The result is `argc`, and
`none` stands for -1.
-/
def kexec (layout : Layout) (p : Slot) (path : List (BitVec 8))
    (file : Option (List (BitVec 8))) (argv : List (List (BitVec 8)))
    : ExecM (Option Nat) := do
  beginOp
  match file with
  | none =>
    endOp
    return none
  | some ip =>
    namei
    ilock
    let proc := (← get).machine.proc p
    let loaded ← onMachine (onPhys (loadImage layout proc.trapframe ip))
    if !loaded.ok then
      bad layout loaded.pagetable loaded.sz true
    else
      iunlockput
      endOp
      let (sz, stack) ← onMachine (onPhys
        (buildStack layout proc.sz proc.pagetable loaded.pagetable loaded.sz argv))
      match stack with
      | none => bad layout loaded.pagetable sz false
      | some sp =>
        commitImage layout p path loaded.pagetable sz sp (ElfHdr.of (readi ip 0 64)).entry
        return some argv.length

/-- The argument vectors that `sys_exec` builds: fewer than `MAXARG` strings, each of which fits
in a page with its NUL.
-/
structure ArgVector where
  strings : List (List (BitVec 8))
  few : strings.length < MAXARG
  short : ∀ arg ∈ strings, arg.length < PGSIZE
  text : ∀ arg ∈ strings, 0 ∉ arg

end Xv6.Vm

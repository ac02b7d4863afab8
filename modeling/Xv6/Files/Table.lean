import Xv6.Library.Fallible
import Xv6.Library.Counting
import Xv6.Param
import Xv6.Pipes.Calls

/-! Open files: the file table of `kernel/file.c`, the descriptor tables of the processes, and the
system calls of `kernel/sysfile.c`, `kernel/pipe.c` and `kernel/proc.c` that change them. What these
calls use of the rest of the kernel (inodes, devices, memory and the log) is an interface.
-/

namespace Xv6.Files

open Function Library
open Pipes (Pipe Byte)

/-- `NFILE` of `kernel/param.h`. -/
abbrev NFILE : Nat := 100

/-- `NOFILE` of `kernel/param.h`. -/
abbrev NOFILE : Nat := 16

abbrev MAX_SYMLINK_DEPTH : Nat := 10

abbrev T_FILE : BitVec 16 := 2
abbrev T_DEVICE : BitVec 16 := 3
abbrev T_SYMLINK : BitVec 16 := 4

abbrev O_RDONLY : BitVec 32 := 0x000
abbrev O_WRONLY : BitVec 32 := 0x001
abbrev O_RDWR : BitVec 32 := 0x002
abbrev O_NOFOLLOW : BitVec 32 := 0x004
abbrev O_CREATE : BitVec 32 := 0x200
abbrev O_TRUNC : BitVec 32 := 0x400

/-- A slot of `ftable.file`. -/
abbrev Slot := Fin NFILE

abbrev Fd := Fin NOFILE

theorem mod_nofile_lt (i : Nat) : i % NOFILE < NOFILE := Nat.mod_lt i (by decide)

/-- The place of a descriptor in `ofile`. -/
def fdOf (i : Nat) : Fd := ⟨i % NOFILE, mod_nofile_lt i⟩

/-- A slot of `proc`. -/
abbrev Proc := Fin NPROC

/-- The `char path[MAXPATH]` of a call. -/
abbrev Path := Nat → Byte

-- The rest of the kernel

/-- What the calls below use of the rest of the kernel, with what it returns. An inode and a page
are named by their addresses. `create` and `namei` are called within `begin_op`.
-/
inductive Op : Type → Type
  | argstr (p : Proc) (addr : BitVec 64) : Op (Option Path)
  | beginOp : Op Unit
  | endOp : Op Unit
  | create (p : Proc) (path : Path) : Op (Option Nat)
  | namei (p : Proc) (path : Path) : Op (Option Nat)
  | ilock (ip : Nat) : Op Unit
  | iunlock (ip : Nat) : Op Unit
  | iunlockput (ip : Nat) : Op Unit
  | iput (ip : Nat) : Op Unit
  | type (ip : Nat) : Op (BitVec 16)
  | major (ip : Nat) : Op (BitVec 16)
  /-- `readi(ip, 0, (uint64)path, 0, MAXPATH - 1)`. -/
  | readlink (ip : Nat) (path : Path) : Op (BitVec 32 × Path)
  /-- `ip->ops = ...`, which depends on `monitor_enabled`. -/
  | setOps (ip : Nat) : Op Unit
  | itrunc (ip : Nat) : Op Unit
  /-- `ip->ops->read` and `ip->ops->write`, between `ilock` and `iunlock`. -/
  | opsRead (p : Proc) (ip : Nat) (addr : BitVec 64) (off n : BitVec 32) : Op (BitVec 32)
  | opsWrite (p : Proc) (ip : Nat) (addr : BitVec 64) (off n : BitVec 32) : Op (BitVec 32)
  /-- `devsw[major].read` or `.write` is not null. -/
  | devsw (major : BitVec 16) (writes : Bool) : Op Bool
  /-- A driver, up to where it sleeps or returns. `point` says where it is in its code. -/
  | device (p : Proc) (writes : Bool) (major : BitVec 16) (addr : BitVec 64) (off n : BitVec 32)
      (point : Nat) : Op (Nat ⊕ BitVec 32)
  /-- `stati` and the `copyout` of what it has filled in. -/
  | stat (p : Proc) (ip : Nat) (addr : BitVec 64) : Op Bool
  | copyin (p : Proc) (addr : BitVec 64) : Op (Option Byte)
  | copyout (p : Proc) (addr : BitVec 64) (bytes : List Byte) : Op Bool
  | killed (p : Proc) : Op Bool
  | kalloc : Op (Option Nat)
  | kfree (pa : Nat) : Op Unit
  /-- What is in the page of a new pipe. -/
  | page (pa : Nat) : Op (Fin 512 → Byte)
  /-- The memory and the pid of a new process. -/
  | allocproc (np : Proc) : Op (Option (BitVec 32))
  | uvmcopy (p np : Proc) : Op Bool
  | freeproc (np : Proc) : Op Unit
  /-- The registers, the working directory, the name and the parent of a new process. -/
  | copyproc (p np : Proc) : Op Unit
  /-- What `kexit` does after it has closed the files. -/
  | leave (p : Proc) (status : BitVec 32) : Op Unit

/-- The operations that hand out or take back the page of a pipe. -/
def Op.allocates {α : Type} : Op α → Bool
  | .kalloc | .kfree _ => true
  | _ => false

/-- The rest of the kernel. An operation can panic. `held` are the pages that `kalloc` has handed
out to the calls below and that they have not freed.
-/
structure World (W : Type) where
  run : {α : Type} → Op α → W → Except String (α × W)
  held : W → Set Nat
  kalloc_some : ∀ {w w' : W} {pa : Nat}, run .kalloc w = .ok (some pa, w')
    → pa ∉ held w ∧ held w' = insert pa (held w)
  kalloc_none : ∀ {w w' : W}, run .kalloc w = .ok (none, w') → held w' = held w
  kfree : ∀ {w w' : W} {pa : Nat}, pa ∈ held w → run (.kfree pa) w = .ok ((), w')
    → held w' = held w \ {pa}
  kept : ∀ {α : Type} {op : Op α} {w w' : W} {a : α}, op.allocates = false
    → run op w = .ok (a, w') → held w' = held w

-- Tables

inductive FileType where
  | none
  | pipe
  | inode
  | device
  deriving DecidableEq

/-- `struct file`. -/
structure File where
  type : FileType
  ref : Nat
  readable : Bool
  writable : Bool
  pipe : Nat
  ip : Nat
  off : BitVec 32
  major : BitVec 16

/-- A `read` or `write` that has not returned: where it is in its loop. -/
inductive Transfer where
  | pipewrite (pi : Nat) (addr : BitVec 64) (n : BitVec 32) (i : Nat)
  | piperead (pi : Nat) (addr : BitVec 64) (n : BitVec 32)
  | pipecopy (pi : Nat) (addr : BitVec 64) (n : BitVec 32) (i : Nat)
  | device (f : Slot) (writes : Bool) (major : BitVec 16) (addr : BitVec 64) (off n : BitVec 32)
      (point : Nat)
  | inodeWrite (f : Slot) (addr : BitVec 64) (n : BitVec 32) (i : Nat)

/-- The states of a process that matter here. -/
inductive Life where
  | unused
  | used
  | live
  | zombie
  deriving DecidableEq

/-- The file table, the pipes that are allocated, and of each process its descriptors and the
transfer that it is in.
-/
structure Tables where
  files : Slot → File
  pipes : Nat → Option Pipe
  ofile : Proc → Fd → Option Slot
  life : Proc → Life
  transfer : Proc → Option Transfer
  initproc : Proc

structure State (W : Type) where
  tables : Tables
  world : W

/-- Why the kernel stops. `freed` is the use of a pipe that is not allocated. -/
inductive Panic where
  | filedup
  | fileclose
  | fileread
  | filewrite
  | freed
  | other (message : String)
  deriving DecidableEq

abbrev Sys (W : Type) := StateT (State W) (Except Panic)

variable {W : Type} (k : World W)

/-- An operation of the rest of the kernel. -/
def call {α : Type} (op : Op α) : Sys W α := fun s =>
  match k.run op s.world with
  | .ok (a, w) => .ok (a, { s with world := w })
  | .error message => .error (.other message)

def stop {α : Type} (panic : Panic) : Sys W α := fun _ => .error panic

def getTables : Sys W Tables := fun s => .ok (s.tables, s)

def modifyTables (change : Tables → Tables) : Sys W Unit := fun s =>
  .ok ((), { s with tables := change s.tables })

def Tables.setFile (t : Tables) (f : Slot) (file : File) : Tables :=
  { t with files := update t.files f file }

def Tables.setPipe (t : Tables) (pi : Nat) (pipe : Option Pipe) : Tables :=
  { t with pipes := update t.pipes pi pipe }

def Tables.setOfile (t : Tables) (p : Proc) (fd : Fd) (f : Option Slot) : Tables :=
  { t with ofile := setAt t.ofile p fd f }

def Tables.setTransfer (t : Tables) (p : Proc) (transfer : Option Transfer) : Tables :=
  { t with transfer := update t.transfer p transfer }

def Tables.setLife (t : Tables) (p : Proc) (life : Life) : Tables :=
  { t with life := update t.life p life }

-- kernel/file.c and kernel/pipe.c

/-- `for(i = 0; i < size; i++)` up to the first one that passes the test. -/
def scan {size : Nat} (test : Fin size → Bool)
    : Option (Fin size) :=
  (List.finRange size).find? test

/-- `filealloc`. -/
def filealloc : Sys W (Option Slot) := do
  let t ← getTables
  match scan fun f => (t.files f).ref = 0 with
  | none => return none
  | some f =>
    modifyTables (·.setFile f { t.files f with ref := 1 })
    return some f

/-- `filedup`. -/
def filedup (f : Slot) : Sys W Unit := do
  let t ← getTables
  if (t.files f).ref < 1 then
    stop .filedup
  else
    modifyTables (·.setFile f { t.files f with ref := (t.files f).ref + 1 })

/-- `pipeclose`. -/
def pipeclose (pi : Nat) (writable : Bool) : Sys W Unit := do
  let t ← getTables
  match t.pipes pi with
  | none => stop .freed
  | some pipe =>
    let pipe :=
      if writable then { pipe with writeopen := false } else { pipe with readopen := false }
    if pipe.readopen = false ∧ pipe.writeopen = false then do
      modifyTables (·.setPipe pi none)
      call k (.kfree pi)
    else
      modifyTables (·.setPipe pi (some pipe))

/-- `fileclose`. -/
def fileclose (f : Slot) : Sys W Unit := do
  let t ← getTables
  let ff := t.files f
  if ff.ref < 1 then
    stop .fileclose
  else if 0 < ff.ref - 1 then
    modifyTables (·.setFile f { ff with ref := ff.ref - 1 })
  else do
    modifyTables (·.setFile f { ff with ref := 0, type := .none })
    match ff.type with
    | .pipe => pipeclose k ff.pipe ff.writable
    | .inode | .device => do
        call k .beginOp
        call k (.iput ff.ip)
        call k .endOp
    | .none => return ()

/-- A pipe after `pipealloc`, in a page that held `data`. -/
def newPipe (data : Fin 512 → Byte) : Pipe where
  data := data
  nread := 0
  nwrite := 0
  readopen := true
  writeopen := true

/-- One end of a new pipe. -/
def File.pipeEnd (file : File) (pi : Nat) (writes : Bool) : File :=
  { file with type := .pipe, readable := !writes, writable := writes, pipe := pi }

/-- `pipealloc`. -/
def pipealloc : Sys W (Option (Slot × Slot)) := do
  match ← filealloc with
  | none => return none
  | some f0 =>
    match ← filealloc with
    | none =>
      fileclose k f0
      return none
    | some f1 =>
      match ← call k .kalloc with
      | none =>
        fileclose k f0
        fileclose k f1
        return none
      | some pi =>
        let data ← call k (.page pi)
        modifyTables (·.setPipe pi (some (newPipe data)))
        modifyTables fun t => t.setFile f0 ((t.files f0).pipeEnd pi false)
        modifyTables fun t => t.setFile f1 ((t.files f1).pipeEnd pi true)
        return some (f0, f1)

/-- A round of the loop of `pipewrite`, or its end. A process that sleeps stays where it is. -/
def pipewrite (p : Proc) (pi : Nat) (addr : BitVec 64) (n : BitVec 32) (i : Nat)
    : Sys W (Transfer ⊕ Int) := do
  let t ← getTables
  match t.pipes pi with
  | none => stop .freed
  | some pipe =>
    if (i : Int) < n.toInt then do
      if pipe.readopen = false then
        return .inr (-1)
      else if ← call k (.killed p) then
        return .inr (-1)
      else if pipe.nwrite = pipe.nread + 512 then
        return .inl (.pipewrite pi addr n i)
      else
        match ← call k (.copyin p (addr + BitVec.ofNat 64 i)) with
        | none => return .inr i
        | some ch =>
          modifyTables (·.setPipe pi (some (pipe.push ch)))
          return .inl (.pipewrite pi addr n (i + 1))
    else
      return .inr i

/-- A round of the first loop of `piperead`. -/
def piperead (p : Proc) (pi : Nat) (addr : BitVec 64) (n : BitVec 32)
    : Sys W (Transfer ⊕ Int) := do
  let t ← getTables
  match t.pipes pi with
  | none => stop .freed
  | some pipe =>
    if pipe.nread = pipe.nwrite ∧ pipe.writeopen = true then do
      if ← call k (.killed p) then
        return .inr (-1)
      else
        return .inl (.piperead pi addr n)
    else
      return .inl (.pipecopy pi addr n 0)

/-- A round of the second loop of `piperead`, or its end. -/
def pipecopy (p : Proc) (pi : Nat) (addr : BitVec 64) (n : BitVec 32) (i : Nat)
    : Sys W (Transfer ⊕ Int) := do
  let t ← getTables
  match t.pipes pi with
  | none => stop .freed
  | some pipe =>
    if (i : Int) < n.toInt then
      if pipe.nread = pipe.nwrite then
        return .inr i
      else do
        let ch := pipe.data (ringIndex 512 pipe.nread)
        if ← call k (.copyout p (addr + BitVec.ofNat 64 i) [ch]) then
          modifyTables (·.setPipe pi (some { pipe with nread := pipe.nread + 1 }))
          return .inl (.pipecopy pi addr n (i + 1))
        else
          return .inr (if i = 0 then -1 else i)
    else
      return .inr i

/-- `if(r > 0) f->off += r`. -/
def advanceOff (f : Slot) (r : BitVec 32) : Sys W Unit :=
  modifyTables fun t =>
    if 0 < r.toInt then t.setFile f { t.files f with off := (t.files f).off + r } else t

/-- The driver of a device, and then the offset. -/
def deviceRound (p : Proc) (f : Slot) (writes : Bool) (major : BitVec 16) (addr : BitVec 64)
    (off n : BitVec 32) (point : Nat)
    : Sys W (Transfer ⊕ Int) := do
  match ← call k (.device p writes major addr off n point) with
  | .inl point => return .inl (.device f writes major addr off n point)
  | .inr r =>
    advanceOff f r
    return .inr r.toInt

/-- A round of the loop of `filewrite` for an inode, or its end. -/
def inodeWriteRound (p : Proc) (f : Slot) (addr : BitVec 64) (n : BitVec 32) (i : Nat)
    : Sys W (Transfer ⊕ Int) :=
  if (i : Int) < n.toInt then do
    let n1 := min (n.toInt.toNat - i) maxChunk
    call k .beginOp
    let t ← getTables
    call k (.ilock (t.files f).ip)
    let r ← call k (.opsWrite p (t.files f).ip (addr + BitVec.ofNat 64 i) (t.files f).off
      (BitVec.ofNat 32 n1))
    advanceOff f r
    call k (.iunlock (t.files f).ip)
    call k .endOp
    if r.toInt ≠ n1 then
      return .inr (if (i : Int) = n.toInt then n.toInt else -1)
    else
      return .inl (.inodeWrite f addr n (i + n1))
  else
    return .inr (if (i : Int) = n.toInt then n.toInt else -1)

/-- Goes on with a transfer. -/
def Transfer.round (p : Proc) : Transfer → Sys W (Transfer ⊕ Int)
  | .pipewrite pi addr n i => Files.pipewrite k p pi addr n i
  | .piperead pi addr n => Files.piperead k p pi addr n
  | .pipecopy pi addr n i => Files.pipecopy k p pi addr n i
  | .device f writes major addr off n point => deviceRound k p f writes major addr off n point
  | .inodeWrite f addr n i => inodeWriteRound k p f addr n i

/-- The checks of a device file, and the start of its driver. -/
def deviceStart (f : Slot) (file : File) (writes : Bool) (addr : BitVec 64) (n : BitVec 32)
    : Sys W (Transfer ⊕ Int) :=
  if file.major.toInt < 0 ∨ (NDEV : Int) ≤ file.major.toInt then
    return .inr (-1)
  else do
    if ← call k (.devsw file.major writes) then
      return .inl (.device f writes file.major addr file.off n 0)
    else
      return .inr (-1)

/-- `fileread`. -/
def fileread (p : Proc) (f : Slot) (addr : BitVec 64) (n : BitVec 32)
    : Sys W (Transfer ⊕ Int) := do
  let t ← getTables
  let file := t.files f
  if file.readable = false then
    return .inr (-1)
  else
    match file.type with
    | .pipe => return .inl (.piperead file.pipe addr n)
    | .device => deviceStart k f file false addr n
    | .inode => do
        call k (.ilock file.ip)
        let r ← call k (.opsRead p file.ip addr file.off n)
        advanceOff f r
        call k (.iunlock file.ip)
        return .inr r.toInt
    | .none => stop .fileread

/-- `filewrite`. -/
def filewrite (f : Slot) (addr : BitVec 64) (n : BitVec 32) : Sys W (Transfer ⊕ Int) := do
  let t ← getTables
  let file := t.files f
  if file.writable = false then
    return .inr (-1)
  else
    match file.type with
    | .pipe => return .inl (.pipewrite file.pipe addr n 0)
    | .device => deviceStart k f file true addr n
    | .inode => return .inl (.inodeWrite f addr n 0)
    | .none => stop .filewrite

/-- `filestat`. -/
def filestat (p : Proc) (f : Slot) (addr : BitVec 64) : Sys W Int := do
  let t ← getTables
  let file := t.files f
  match file.type with
  | .inode | .device => do
      call k (.ilock file.ip)
      let copied ← call k (.stat p file.ip addr)
      call k (.iunlock file.ip)
      return if copied then 0 else -1
  | .pipe | .none => return -1

-- kernel/sysfile.c

/-- `argfd`. -/
def argfd (p : Proc) (fd : BitVec 32) : Sys W (Option (Fd × Slot)) := do
  let t ← getTables
  if fd.toInt < 0 ∨ (NOFILE : Int) ≤ fd.toInt then
    return none
  else
    match t.ofile p (fdOf fd.toInt.toNat) with
    | none => return none
    | some f => return some (fdOf fd.toInt.toNat, f)

/-- `fdalloc`. -/
def fdalloc (p : Proc) (f : Slot) : Sys W (Option Fd) := do
  let t ← getTables
  match scan fun fd => t.ofile p fd = none with
  | none => return none
  | some fd =>
    modifyTables (·.setOfile p fd (some f))
    return some fd

/-- `sys_dup`. -/
def sysDup (p : Proc) (fd : BitVec 32) : Sys W Int := do
  match ← argfd p fd with
  | none => return -1
  | some (_, f) =>
    match ← fdalloc p f with
    | none => return -1
    | some fd =>
      filedup f
      return fd

/-- `sys_close`. -/
def sysClose (p : Proc) (fd : BitVec 32) : Sys W Int := do
  match ← argfd p fd with
  | none => return -1
  | some (fd, f) =>
    modifyTables (·.setOfile p fd none)
    fileclose k f
    return 0

/-- `sys_read`. -/
def sysRead (p : Proc) (fd : BitVec 32) (addr : BitVec 64) (n : BitVec 32)
    : Sys W (Transfer ⊕ Int) := do
  match ← argfd p fd with
  | none => return .inr (-1)
  | some (_, f) => fileread k p f addr n

/-- `sys_write`. -/
def sysWrite (p : Proc) (fd : BitVec 32) (addr : BitVec 64) (n : BitVec 32)
    : Sys W (Transfer ⊕ Int) := do
  match ← argfd p fd with
  | none => return .inr (-1)
  | some (_, f) => filewrite k f addr n

/-- `sys_fstat`. -/
def sysFstat (p : Proc) (fd : BitVec 32) (addr : BitVec 64) : Sys W Int := do
  match ← argfd p fd with
  | none => return -1
  | some (_, f) => filestat k p f addr

/-- `iunlockput(ip); end_op()`. -/
def putAndEnd (ip : Nat) : Sys W Unit := do
  call k (.iunlockput ip)
  call k .endOp

/-- The loop of `sys_open` that follows symbolic links, with how many it still follows. The inode
it finds is locked.
-/
def followLinks (p : Proc) (omode : BitVec 32) : Nat → Path → Sys W (Option Nat)
  | left, path => do
      match ← call k (.namei p path) with
      | none =>
        call k .endOp
        return none
      | some ip =>
        call k (.ilock ip)
        let type ← call k (.type ip)
        if type = T_SYMLINK ∧ omode &&& O_NOFOLLOW ≠ 0 then
          putAndEnd k ip
          return none
        else if type ≠ T_SYMLINK then
          return some ip
        else
          match left with
          | 0 =>
            putAndEnd k ip
            return none
          | left + 1 =>
            let (len, path) ← call k (.readlink ip path)
            if len.toInt ≤ 0 then
              putAndEnd k ip
              return none
            else
              call k (.iunlockput ip)
              followLinks p omode left (update path len.toInt.toNat 0)

/-- The first part of `sys_open`: the inode, locked. -/
def openInode (p : Proc) (path : Path) (omode : BitVec 32) : Sys W (Option Nat) := do
  if omode &&& O_CREATE ≠ 0 then
    match ← call k (.create p path) with
    | none =>
      call k .endOp
      return none
    | some ip => return some ip
  else
    match ← followLinks k p omode MAX_SYMLINK_DEPTH path with
    | none => return none
    | some ip =>
      let type ← call k (.type ip)
      if type = T_DIR ∧ omode ≠ O_RDONLY then
        putAndEnd k ip
        return none
      else
        return some ip

/-- The fields that `sys_open` sets. -/
def File.opened (file : File) (type major : BitVec 16) (ip : Nat) (omode : BitVec 32) : File :=
  let file :=
    if type = T_DEVICE then { file with type := .device, major := major, off := 0 }
    else { file with type := .inode, off := 0 }
  { file with
    ip := ip
    readable := omode &&& O_WRONLY = 0
    writable := omode &&& O_WRONLY ≠ 0 ∨ omode &&& O_RDWR ≠ 0 }

/-- The end of `sys_open`. -/
def finishOpen (ip : Nat) (type : BitVec 16) (omode : BitVec 32) (fd : Fd) : Sys W Int := do
  if omode &&& O_TRUNC ≠ 0 ∧ type = T_FILE then
    call k (.itrunc ip)
  call k (.iunlock ip)
  call k .endOp
  return fd

/-- The second part of `sys_open`: a file and a descriptor for the inode. -/
def openFile (p : Proc) (ip : Nat) (omode : BitVec 32) : Sys W Int := do
  call k (.setOps ip)
  let type ← call k (.type ip)
  let major ← call k (.major ip)
  if type = T_DEVICE ∧ (major.toInt < 0 ∨ (NDEV : Int) ≤ major.toInt) then
    putAndEnd k ip
    return -1
  else
    match ← filealloc with
    | none =>
      putAndEnd k ip
      return -1
    | some f =>
      match ← fdalloc p f with
      | none =>
        fileclose k f
        putAndEnd k ip
        return -1
      | some fd =>
        modifyTables fun t => t.setFile f ((t.files f).opened type major ip omode)
        finishOpen k ip type omode fd

/-- `sys_open`. -/
def sysOpen (p : Proc) (path : BitVec 64) (omode : BitVec 32) : Sys W Int := do
  match ← call k (.argstr p path) with
  | none => return -1
  | some path =>
    call k .beginOp
    match ← openInode k p path omode with
    | none => return -1
    | some ip => openFile k p ip omode

/-- The bytes of an `int`. -/
def intBytes (fd : Fd) : List Byte := [BitVec.ofNat 8 fd, 0, 0, 0]

/-- The two `copyout`s of `sys_pipe`. -/
def copyFds (p : Proc) (fdarray : BitVec 64) (fd0 fd1 : Fd) : Sys W Bool := do
  if ← call k (.copyout p fdarray (intBytes fd0)) then
    call k (.copyout p (fdarray + 4) (intBytes fd1))
  else
    return false

/-- `sys_pipe`. -/
def sysPipe (p : Proc) (fdarray : BitVec 64) : Sys W Int := do
  match ← pipealloc k with
  | none => return -1
  | some (rf, wf) =>
    match ← fdalloc p rf with
    | none =>
      fileclose k rf
      fileclose k wf
      return -1
    | some fd0 =>
      match ← fdalloc p wf with
      | none =>
        modifyTables (·.setOfile p fd0 none)
        fileclose k rf
        fileclose k wf
        return -1
      | some fd1 =>
        if ← copyFds k p fdarray fd0 fd1 then
          return 0
        else
          modifyTables (·.setOfile p fd0 none)
          modifyTables (·.setOfile p fd1 none)
          fileclose k rf
          fileclose k wf
          return -1

-- kernel/proc.c

/-- The loop of `kfork` that copies the descriptors. -/
def dupFiles (p np : Proc) : List Fd → Sys W Unit
  | [] => return ()
  | fd :: rest => do
      let t ← getTables
      match t.ofile p fd with
      | none => dupFiles p np rest
      | some f =>
        filedup f
        modifyTables (·.setOfile np fd (some f))
        dupFiles p np rest

/-- `allocproc`: the slot and the pid of a new process. -/
def allocproc : Sys W (Option (Proc × BitVec 32)) := do
  let t ← getTables
  match scan fun np => t.life np = .unused with
  | none => return none
  | some np =>
    match ← call k (.allocproc np) with
    | none => return none
    | some pid =>
      modifyTables (·.setLife np .used)
      return some (np, pid)

/-- `kfork`. -/
def kfork (p : Proc) : Sys W Int := do
  match ← allocproc k with
  | none => return -1
  | some (np, pid) =>
    if ← call k (.uvmcopy p np) then
      dupFiles p np (List.finRange NOFILE)
      call k (.copyproc p np)
      modifyTables (·.setLife np .live)
      return pid.toInt
    else
      call k (.freeproc np)
      modifyTables (·.setLife np .unused)
      return -1

/-- The loop of `kexit` that closes the files. -/
def closeFiles (p : Proc) : List Fd → Sys W Unit
  | [] => return ()
  | fd :: rest => do
      let t ← getTables
      match t.ofile p fd with
      | none => closeFiles p rest
      | some f =>
        fileclose k f
        modifyTables (·.setOfile p fd none)
        closeFiles p rest

/-- `kexit`. -/
def kexit (p : Proc) (status : BitVec 32) : Sys W Unit := do
  let t ← getTables
  if p = t.initproc then
    stop (.other "init exiting")
  else
    closeFiles k p (List.finRange NOFILE)
    call k (.leave p status)
    modifyTables (·.setLife p .zombie)

-- System calls

/-- A system call of a process with its arguments. `resume` goes on with a transfer, and `reap` is
the end of `kwait`, which frees the slot of a process that has exited.
-/
inductive Action where
  | open (p : Proc) (path : BitVec 64) (omode : BitVec 32)
  | pipe (p : Proc) (fdarray : BitVec 64)
  | dup (p : Proc) (fd : BitVec 32)
  | close (p : Proc) (fd : BitVec 32)
  | read (p : Proc) (fd : BitVec 32) (addr : BitVec 64) (n : BitVec 32)
  | write (p : Proc) (fd : BitVec 32) (addr : BitVec 64) (n : BitVec 32)
  | fstat (p : Proc) (fd : BitVec 32) (addr : BitVec 64)
  | fork (p : Proc)
  | exit (p : Proc) (status : BitVec 32)
  | resume (p : Proc)
  | reap (p : Proc)

inductive Outcome where
  | pending
  | returned (r : Int)
  | exited
  deriving DecidableEq

/-- Keeps a transfer that is not done. -/
def settle (p : Proc) (code : Sys W (Transfer ⊕ Int)) : Sys W Outcome := do
  match ← code with
  | .inl transfer =>
    modifyTables (·.setTransfer p (some transfer))
    return .pending
  | .inr r =>
    modifyTables (·.setTransfer p none)
    return .returned r

def returning (code : Sys W Int) : Sys W Outcome := do
  let r ← code
  return .returned r

/-- The process runs, and is not in a transfer. -/
def Tables.Idle (t : Tables) (p : Proc) : Prop := t.life p = .live ∧ t.transfer p = none

def Action.Enabled (t : Tables) : Action → Prop
  | .open p _ _ | .pipe p _ | .dup p _ | .close p _ | .read p _ _ _ | .write p _ _ _
  | .fstat p _ _ | .fork p | .exit p _ => t.Idle p
  | .resume p => t.life p = .live ∧ (t.transfer p).isSome = true
  | .reap p => t.life p = .zombie

instance (t : Tables) (action : Action) : Decidable (action.Enabled t) := by
  cases action <;> dsimp only [Action.Enabled, Tables.Idle] <;> infer_instance

def Action.run : Action → Sys W Outcome
  | .open p path omode => returning (sysOpen k p path omode)
  | .pipe p fdarray => returning (sysPipe k p fdarray)
  | .dup p fd => returning (sysDup p fd)
  | .close p fd => returning (sysClose k p fd)
  | .read p fd addr n => settle p (sysRead k p fd addr n)
  | .write p fd addr n => settle p (sysWrite k p fd addr n)
  | .fstat p fd addr => returning (sysFstat k p fd addr)
  | .fork p => returning (kfork k p)
  | .exit p status => do
      kexit k p status
      return .exited
  | .resume p => do
      let t ← getTables
      match t.transfer p with
      | none => return .pending
      | some transfer => settle p (transfer.round k p)
  | .reap p => do
      call k (.freeproc p)
      modifyTables (·.setLife p .unused)
      return .exited

/-- A `fork` does not give out the pid -1, which it returns when it fails. -/
def Action.Numbered (before : State W) : Action → Prop
  | .fork _ => ∀ np w, k.run (.allocproc np) before.world ≠ .ok (some (-1), w)
  | _ => True

/-- A system call that an idle process makes, or more of one that it is in. -/
def Step (before : State W) (step : Action × Outcome) (after : State W) : Prop :=
  step.1.Enabled before.tables ∧ step.1.run k before = .ok (step.2, after)

/-- The tables when the first process starts: static storage is zero. -/
structure Tables.Booted (t : Tables) : Prop where
  files : ∀ f, (t.files f).ref = 0 ∧ (t.files f).type = .none
  pipes : ∀ pi, t.pipes pi = none
  ofile : ∀ p fd, t.ofile p fd = none
  transfer : ∀ p, t.transfer p = none

end Xv6.Files

import Xv6.Fs.Inodes
import Xv6.Pipes.Calls

/-! `fileread` of `kernel/file.c` on inodes, on the ramdisk of `kernel/brd.c` and on pipes, with
the stores to user memory that it makes. The count `n` is a C `int` and the offset a `uint`.
-/

namespace Xv6.Fs

open Function Library Disk Pipes

/-- The user pages that `copyout` can write to, by page number: they are writable, or it makes
them so. A page is opened once, and stays open to the end of the call.
-/
structure UserSpace where
  writable : Nat → Bool
  bound : ∀ page, writable page = true → page < MAXVA / PGSIZE

/-- The loop of `copyout`. The first argument bounds its rounds. -/
def copyoutLoop (user : UserSpace) : Nat → Nat → List Byte → Bool × List (Nat × Byte)
  | 0, _, _ => (true, [])
  | rounds + 1, dstva, src =>
    if src = [] then (true, [])
    else if user.writable (dstva / PGSIZE) then
      let n := min (PGSIZE - dstva % PGSIZE) src.length
      let (ok, rest) := copyoutLoop user rounds (dstva - dstva % PGSIZE + PGSIZE) (src.drop n)
      (ok, placed dstva (src.take n) ++ rest)
    else
      (false, [])

def copyout (user : UserSpace) : Sink := fun dstva src =>
  copyoutLoop user src.length dstva src

-- The ramdisk

/-- `rd_dev`. `spare` says whether `kalloc` has a page for the hole at an index. -/
structure Ramdisk where
  loaded : Bool
  pages : Nat → Option (Nat → Byte)
  spare : Nat → Bool

/-- `rd_walk(idx, 0)`. -/
def Ramdisk.walk (rd : Ramdisk) (idx : Nat) : Option (Nat → Byte) :=
  if RD_PAGES ≤ idx then none else rd.pages idx

/-- What `rd_read` copies from, for one page: the page, or a zero page for a hole. -/
def Ramdisk.chunk (rd : Ramdisk) (pos m : Nat) : Option (List Byte) :=
  match rd.walk (pos / PGSIZE) with
  | some page => some ((List.range m).map fun i => page (pos % PGSIZE + i))
  | none => if rd.spare (pos / PGSIZE) then some (List.replicate m 0) else none

/-- The loop of `rd_read`; `n` is positive here. -/
def rdReadLoop (rd : Ramdisk) (sink : Sink) (dst off n : Nat)
    : Nat → Nat → List (Nat × Byte) → BitVec 32 × List (Nat × Byte)
  | 0, total, stores => (BitVec.ofNat 32 total, stores)
  | rounds + 1, total, stores =>
    if total < n then
      let m := min (PGSIZE - (off + total) % PGSIZE) (n - total)
      match rd.chunk (off + total) m with
      | none => (-1, stores)
      | some bytes =>
        let (ok, made) := sink (dst + total) bytes
        if ok then rdReadLoop rd sink dst off n rounds (total + m) (stores ++ made)
        else (-1, stores ++ made)
    else
      (BitVec.ofNat 32 total, stores)

/-- `rd_read`: the sum `off + n` is unsigned, the test `total < n` is signed. -/
def rdRead (rd : Ramdisk) (sink : Sink) (dst : Nat) (off n : BitVec 32)
    : BitVec 32 × List (Nat × Byte) :=
  if rd.loaded = false ∨ RD_SIZE ≤ off.toNat then
    (-1, [])
  else
    let n := if RD_SIZE < (off + n).toNat then BitVec.ofNat 32 RD_SIZE - off else n
    rdReadLoop rd sink dst off.toNat n.toInt.toNat n.toInt.toNat 0 []

-- Pipes

section

variable {P : Type} [DecidableEq P]

/-- The second loop of `piperead` by process `p`, which holds `pi->lock` all the time. The rounds
are those of the pipe's own model.
-/
def copyLoop (sink : Sink) (p : P) (addr : Nat) (n : BitVec 32)
    : Nat → Nat → State P → List (Nat × Byte) → BitVec 32 × List (Nat × Byte)
  | 0, i, _, stores => (BitVec.ofNat 32 i, stores)
  | rounds + 1, i, s, stores =>
    let copied := sink (addr + i) [s.pipe.data (ringIndex 512 s.pipe.nread)]
    match copyRound s p n i copied.1 with
    | (.delivered _, s) => copyLoop sink p addr n rounds (i + 1) s (stores ++ copied.2)
    | (.returned result, _) => (BitVec.ofInt 32 result, stores)
    | _ => (BitVec.ofNat 32 i, stores)

/-- `piperead`, with the pipe as the reader finds it at the end of the first loop; `none` is a
reader that was killed there.
-/
def piperead (sink : Sink) (p : P) (pipe : Option (State P)) (addr : Nat) (n : BitVec 32)
    : BitVec 32 × List (Nat × Byte) :=
  match pipe with
  | none => (-1, [])
  | some s => copyLoop sink p addr n (n.toInt.toNat + 1) 0 s []

-- fileread

inductive FileType where
  | none
  | pipe
  | inode
  | device
  deriving DecidableEq

/-- `struct file`, as far as `fileread` reads it; `major` is a C `short`. -/
structure File where
  type : FileType
  readable : Bool
  ip : Inode
  off : BitVec 32
  major : BitVec 16

/-- `RD_MAJOR` of `kernel/file.h`. -/
abbrev RD_MAJOR : Int := 2

/-- `devsw[major].read`. -/
abbrev DeviceRead := Sink → Nat → BitVec 32 → BitVec 32 → BitVec 32 × List (Nat × Byte)

/-- What a call of `fileread` meets: the user memory of its process `p`, the devices, and the
pipe as `piperead` finds it.
-/
structure World (P : Type) where
  user : UserSpace
  ramdisk : Ramdisk
  others : Int → Option DeviceRead
  p : P
  pipe : Option (State P)

/-- `sys_load_ramdisk` and `sys_unload_ramdisk` set the entry along with `loaded`. -/
def World.devsw (w : World P) (major : Int) : Option DeviceRead :=
  if major = RD_MAJOR then
    if w.ramdisk.loaded then some (rdRead w.ramdisk) else none
  else
    w.others major

/-- What `fileread` returns, the offset it leaves in `f`, and its stores to user memory. -/
structure FileRead where
  r : BitVec 32
  off : BitVec 32
  stores : List (Nat × Byte)
  deriving DecidableEq

/-- `if (r > 0) f->off += r`. -/
def File.advance (f : File) (r : BitVec 32) : BitVec 32 :=
  if 0 < r.toInt then f.off + r else f.off

/-- `fileread`. Both `default_read` and `ext_read` are `readi`. -/
def fileread (sb : Superblock) (w : World P) (f : File) (addr : Nat) (n : BitVec 32)
    : Prog FileRead :=
  if f.readable = false then
    return ⟨-1, f.off, []⟩
  else
    match f.type with
    | .pipe =>
      let (r, stores) := piperead (copyout w.user) w.p w.pipe addr n
      return ⟨r, f.off, stores⟩
    | .device =>
      if f.major.toInt < 0 ∨ (NDEV : Int) ≤ f.major.toInt then
        return ⟨-1, f.off, []⟩
      else
        match w.devsw f.major.toInt with
        | none => return ⟨-1, f.off, []⟩
        | some read =>
          let (r, stores) := read (copyout w.user) addr f.off n
          return ⟨r, f.advance r, stores⟩
    | .inode => do
        let read ← readi sb f.ip (copyout w.user) addr f.off n
        return ⟨read.tot, f.advance read.tot, read.stores⟩
    | .none => panicWith "fileread"

end

-- Transactions

/-- Runs a program; unless a transaction is `outstanding`, `log_write` panics. Reading a hole
below the size of a file allocates a block.
-/
def runIn {α : Type} (outstanding : Bool) : Prog α → Store → Except String (α × Store)
  | .done value, s => .ok (value, s)
  | .bread blockno k, s => runIn outstanding (k (s.view blockno)) s
  | .setData blockno data k, s =>
    runIn outstanding k { s with view := update s.view blockno data }
  | .bwrite blockno k, s =>
    runIn outstanding k { s with disk := update s.disk blockno (s.view blockno) }
  | .brelse _ k, s => runIn outstanding k s
  | .bunpin _ k, s => runIn outstanding k s
  | .logWrite blockno k, s =>
    if outstanding then runIn outstanding k { s with lh := absorb s.lh blockno }
    else .error "log_write outside of trans"
  | .readLh k, s => runIn outstanding (k s.lh) s
  | .setLh blocks k, s => runIn outstanding k { s with lh := blocks }
  | .panic message, _ => .error message

end Xv6.Fs

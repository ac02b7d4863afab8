import Xv6.Fs.Layout

/-! Blocks, inodes and their contents, from `balloc` to `writei` of `kernel/fs.c`. The in-memory
inode is passed along; locks and the inode table are the matter of other models.
-/

namespace Xv6.Fs

open Library Disk

-- Blocks

/-- `bzero`. -/
def bzero (bno : Nat) : Prog Unit := do
  let _ ← bread bno
  setData bno 0
  logWrite bno
  brelse bno

/-- The inner loop of `balloc`: the first free bit in a block of the map. -/
def freeBit (sb : Superblock) (b : Nat) (data : Block) : Option Nat :=
  (List.range BPB).find? fun bi => decide (b + bi < sb.size) && !data.getLsbD bi

/-- The outer loop of `balloc` over the remaining blocks of the map; 0 if out of disk space. -/
def ballocFrom (sb : Superblock) : Nat → Nat → Prog Nat
  | 0, _ => pure 0
  | rest + 1, b => do
      let data ← bread (sb.BBLOCK b)
      match freeBit sb b data with
      | some bi =>
        setData (sb.BBLOCK b) (setField data bi 1#1)
        logWrite (sb.BBLOCK b)
        brelse (sb.BBLOCK b)
        bzero (b + bi)
        return b + bi
      | none =>
        brelse (sb.BBLOCK b)
        ballocFrom sb rest (b + BPB)

set_option maxRecDepth 100000 in
/-- One round of the loop. -/
theorem ballocFrom_succ (sb : Superblock) (rest b : Nat)
    : ballocFrom sb (rest + 1) b
      = (do
        let data ← bread (sb.BBLOCK b)
        match freeBit sb b data with
        | some bi =>
          setData (sb.BBLOCK b) (setField data bi 1#1)
          logWrite (sb.BBLOCK b)
          brelse (sb.BBLOCK b)
          bzero (b + bi)
          return b + bi
        | none =>
          brelse (sb.BBLOCK b)
          ballocFrom sb rest (b + BPB)) :=
  rfl

def balloc (sb : Superblock) : Prog Nat :=
  ballocFrom sb ((sb.size + (BPB - 1)) / BPB) 0

def bfree (sb : Superblock) (b : Nat) : Prog Unit := do
  let data ← bread (sb.BBLOCK b)
  if data.getLsbD (b % BPB) = false then
    panicWith "freeing free block"
  else
    setData (sb.BBLOCK b) (setField data (b % BPB) 0#1)
    logWrite (sb.BBLOCK b)
    brelse (sb.BBLOCK b)

-- Inodes

/-- The loop of `ialloc`, up to its `iget`. -/
def iallocFrom (sb : Superblock) (type : BitVec 16) : Nat → Nat → Prog (Option Nat)
  | 0, _ => pure none
  | rest + 1, inum => do
      let data ← bread (sb.IBLOCK inum)
      if (getDinode data (inum % IPB)).type = 0 then
        setData (sb.IBLOCK inum)
          (setDinode data (inum % IPB) ⟨type, 0, 0, 0, 0, fun _ => 0⟩)
        logWrite (sb.IBLOCK inum)
        brelse (sb.IBLOCK inum)
        return some inum
      else
        brelse (sb.IBLOCK inum)
        iallocFrom sb type rest (inum + 1)

/-- `ialloc`; the number of the new inode. -/
def ialloc (sb : Superblock) (type : BitVec 16) : Prog (Option Nat) :=
  iallocFrom sb type (sb.ninodes - 1) 1

def iupdate (sb : Superblock) (ip : Inode) : Prog Unit := do
  let data ← bread (sb.IBLOCK ip.inum)
  setData (sb.IBLOCK ip.inum) (setDinode data (ip.inum % IPB) ip.toDinode)
  logWrite (sb.IBLOCK ip.inum)
  brelse (sb.IBLOCK ip.inum)

/-- `ilock` of an inode that is not cached. -/
def readInode (sb : Superblock) (inum : Nat) : Prog Inode := do
  let data ← bread (sb.IBLOCK inum)
  brelse (sb.IBLOCK inum)
  if (getDinode data (inum % IPB)).type = 0 then
    panicWith "ilock: no type"
  else
    return { getDinode data (inum % IPB) with inum := inum }

def Inode.setAddr (ip : Inode) (k : Fin (NDIRECT + 2)) (addr : Nat) : Inode :=
  { ip with addrs := Function.update ip.addrs k addr }

/-- `ip->addrs[k]`, allocated if it is 0. -/
def inodeBlock (sb : Superblock) (ip : Inode) (k : Fin (NDIRECT + 2)) : Prog (Nat × Inode) :=
  if ip.addrs k = 0 then do
    let addr ← balloc sb
    if addr = 0 then return (0, ip)
    return (addr, ip.setAddr k addr)
  else
    return (ip.addrs k, ip)

/-- Word `i` of index block `blockno`, allocated if it is 0. -/
def indexBlock (sb : Superblock) (blockno i : Nat) : Prog Nat := do
  let data ← bread blockno
  if word data i = 0 then
    let addr ← balloc sb
    if addr ≠ 0 then
      setData blockno (setWord data i addr)
      logWrite blockno
    brelse blockno
    return addr
  else
    brelse blockno
    return word data i

/-- `bmap`. In the last region a failing `balloc` of the level 1 block goes on with block 0. -/
def bmap (sb : Superblock) (ip : Inode) (bn : Nat) : Prog (Nat × Inode) :=
  if direct : bn < NDIRECT then
    inodeBlock sb ip ⟨bn, by omega⟩
  else if bn - NDIRECT < NINDIRECT then do
    let (addr, ip) ← inodeBlock sb ip ⟨NDIRECT, by decide⟩
    if addr = 0 then return (0, ip)
    let addr ← indexBlock sb addr (bn - NDIRECT)
    return (addr, ip)
  else if bn - NDIRECT - NINDIRECT < NDINDIRECT then do
    let (addr, ip) ← inodeBlock sb ip ⟨NDIRECT + 1, by decide⟩
    if addr = 0 then return (0, ip)
    let addr ← indexBlock sb addr ((bn - NDIRECT - NINDIRECT) / NINDIRECT)
    let addr ← indexBlock sb addr ((bn - NDIRECT - NINDIRECT) % NINDIRECT)
    return (addr, ip)
  else
    panicWith "bmap: out of range"

/-- Frees the blocks of a list, but not 0. -/
def bfreeAll (sb : Superblock) : List Nat → Prog Unit
  | [] => pure ()
  | addr :: rest => do
      if addr ≠ 0 then bfree sb addr
      bfreeAll sb rest

/-- The words of an index block. -/
def words (data : Block) : List Nat := (List.range NINDIRECT).map (word data)

/-- Frees what an index block lists, and then the block. -/
def bfreeIndex (sb : Superblock) (blockno : Nat) : Prog Unit := do
  let data ← bread blockno
  bfreeAll sb (words data)
  brelse blockno
  bfree sb blockno

/-- The loop over the level 1 blocks. -/
def bfreeIndexes (sb : Superblock) : List Nat → Prog Unit
  | [] => pure ()
  | addr :: rest => do
      if addr ≠ 0 then bfreeIndex sb addr
      bfreeIndexes sb rest

/-- The loop of `itrunc` over the direct blocks. -/
def truncDirect (sb : Superblock) (ip : Inode) : List (Fin (NDIRECT + 2)) → Prog Inode
  | [] => pure ip
  | k :: rest => do
      if ip.addrs k ≠ 0 then
        bfree sb (ip.addrs k)
        truncDirect sb (ip.setAddr k 0) rest
      else
        truncDirect sb ip rest

/-- The places of `addrs` that hold direct blocks. -/
def directs : List (Fin (NDIRECT + 2)) :=
  (List.finRange (NDIRECT + 2)).filter fun k => decide (k.val < NDIRECT)

def itrunc (sb : Superblock) (ip : Inode) : Prog Inode := do
  let ip ← truncDirect sb ip directs
  let ip ←
    if ip.addrs ⟨NDIRECT, by decide⟩ ≠ 0 then do
      bfreeIndex sb (ip.addrs ⟨NDIRECT, by decide⟩)
      pure (ip.setAddr ⟨NDIRECT, by decide⟩ 0)
    else pure ip
  let ip ←
    if ip.addrs ⟨NDIRECT + 1, by decide⟩ ≠ 0 then do
      let data ← bread (ip.addrs ⟨NDIRECT + 1, by decide⟩)
      bfreeIndexes sb (words data)
      brelse (ip.addrs ⟨NDIRECT + 1, by decide⟩)
      bfree sb (ip.addrs ⟨NDIRECT + 1, by decide⟩)
      pure (ip.setAddr ⟨NDIRECT + 1, by decide⟩ 0)
    else pure ip
  let ip := { ip with size := 0 }
  iupdate sb ip
  return ip

/-- The freeing branch of `iput`. -/
def ifree (sb : Superblock) (ip : Inode) : Prog Unit := do
  let ip ← itrunc sb ip
  iupdate sb { ip with type := 0 }

-- Contents

/-- Bytes stored one after the other from address `dst` on. -/
def placed (dst : Nat) : List Byte → List (Nat × Byte)
  | [] => []
  | value :: rest => (dst, value) :: placed (dst + 1) rest

theorem placed_append (dst : Nat) (first second : List Byte)
    : placed dst (first ++ second) = placed dst first ++ placed (dst + first.length) second := by
  induction first generalizing dst with
  | nil => rfl
  | cons value rest ih =>
    simp only [List.cons_append, placed, ih, List.length_cons]
    rw [Nat.add_assoc, Nat.add_comm 1]

/-- `either_copyout(user_dst, dst, src, len)`: whether it succeeds, and the stores it has made. -/
abbrev Sink := Nat → List Byte → Bool × List (Nat × Byte)

/-- `memmove` to kernel memory. -/
def kernelSink : Sink := fun dst bytes => (true, placed dst bytes)

/-- `either_copyin(dst, user_src, src, len)`: whether it succeeds, and the bytes that have
reached `dst`.
-/
abbrev Source := Nat → Nat → Bool × List Byte

/-- What `readi` returns, with the stores it has made. -/
structure Read where
  tot : BitVec 32
  stores : List (Nat × Byte)
  ip : Inode

/-- The loop of `readi`. The first argument bounds its rounds. -/
def readiLoop (sb : Superblock) (sink : Sink) (dst off n : Nat)
    : Nat → Nat → List (Nat × Byte) → Inode → Prog Read
  | 0, tot, stores, ip => pure ⟨BitVec.ofNat 32 tot, stores, ip⟩
  | rounds + 1, tot, stores, ip =>
    if tot < n then do
      let (addr, ip) ← bmap sb ip ((off + tot) / BSIZE)
      if addr = 0 then return ⟨BitVec.ofNat 32 tot, stores, ip⟩
      let data ← bread addr
      let m := min (n - tot) (BSIZE - (off + tot) % BSIZE)
      let (ok, made) := sink (dst + tot) (loadBytes data ((off + tot) % BSIZE) m)
      brelse addr
      if ok then
        readiLoop sb sink dst off n rounds (tot + m) (stores ++ made) ip
      else
        return ⟨-1, stores ++ made, ip⟩
    else
      pure ⟨BitVec.ofNat 32 tot, stores, ip⟩

def readi (sb : Superblock) (ip : Inode) (sink : Sink) (dst : Nat) (off n : BitVec 32)
    : Prog Read :=
  if ip.size < off ∨ off + n < off then
    pure ⟨0, [], ip⟩
  else
    let n := if ip.size < off + n then ip.size - off else n
    readiLoop sb sink dst off.toNat n.toNat n.toNat 0 [] ip

/-- The loop of `writei`; it ends with `tot`. A failing copy leaves its bytes in the buffer. -/
def writeiLoop (sb : Superblock) (source : Source) (src off n : Nat)
    : Nat → Nat → Inode → Prog (Nat × Inode)
  | 0, tot, ip => pure (tot, ip)
  | rounds + 1, tot, ip =>
    if tot < n then do
      let (addr, ip) ← bmap sb ip ((off + tot) / BSIZE)
      if addr = 0 then return (tot, ip)
      let data ← bread addr
      let m := min (n - tot) (BSIZE - (off + tot) % BSIZE)
      let (ok, copied) := source (src + tot) m
      setData addr (storeBytes data ((off + tot) % BSIZE) copied)
      if ok then
        logWrite addr
        brelse addr
        writeiLoop sb source src off n rounds (tot + m) ip
      else
        brelse addr
        return (tot, ip)
    else
      pure (tot, ip)

def writei (sb : Superblock) (ip : Inode) (source : Source) (src : Nat) (off n : BitVec 32)
    : Prog (BitVec 32 × Inode) :=
  if ip.size < off ∨ off + n < off then
    pure (-1, ip)
  else if BitVec.ofNat 32 (MAXFILE * BSIZE) < off + n then
    pure (-1, ip)
  else do
    let (tot, ip) ← writeiLoop sb source src off.toNat n.toNat n.toNat 0 ip
    let off := off + BitVec.ofNat 32 tot
    let ip := if ip.size < off then { ip with size := off } else ip
    iupdate sb ip
    return (BitVec.ofNat 32 tot, ip)

theorem add_lt_iff {off n : BitVec 32} : off + n < off ↔ 2 ^ 32 ≤ off.toNat + n.toNat := by
  rw [BitVec.lt_def, BitVec.toNat_add]
  omega

-- Directories: `strncmp` and `strncpy` of `kernel/string.c`, `namecmp`, `dirlookup` and `dirlink`
-- of `kernel/fs.c`, and the write by which `sys_unlink` clears an entry.

-- Names

abbrev DIRSIZ : Nat := 14

/-- The bytes from a `char *` on. -/
abbrev Chars := Nat → Byte

def strncmp : Nat → Chars → Chars → Int
  | 0, _, _ => 0
  | n + 1, p, q =>
    if p 0 ≠ 0 ∧ p 0 = q 0 then strncmp n (fun i => p (i + 1)) (fun i => q (i + 1))
    else (p 0).toNat - (q 0).toNat

/-- `strncpy(s, t, n)`: the bytes it stores from `s` on. -/
def strncpy : Nat → Chars → List Byte
  | 0, _ => []
  | n + 1, t =>
    -- the NUL is copied, and the second loop fills up with more of them
    if t 0 = 0 then 0 :: List.replicate n 0
    else t 0 :: strncpy n (fun i => t (i + 1))

def namecmp (s t : Chars) : Int := strncmp DIRSIZ s t

-- Entries

/-- `struct dirent`. -/
structure Dirent where
  inum : BitVec 16
  name : Fin DIRSIZ → Byte
deriving DecidableEq

namespace Dirent

/-- `sizeof(struct dirent)`. -/
abbrev bytes : Nat := 16

def chars (de : Dirent) : Chars := fun i => if h : i < DIRSIZ then de.name ⟨i, h⟩ else 0

/-- The entry in memory, by the bytes from its address on. -/
def ofMemory (mem : Chars) : Dirent where
  inum := mem 1 ++ mem 0
  name := fun i => mem (2 + i)

def toMemory (de : Dirent) : Chars := fun i =>
  if i = 0 then de.inum.extractLsb' 0 8
  else if i = 1 then de.inum.extractLsb' 8 8
  else de.chars (i - 2)

end Dirent

/-- `memmove` from kernel memory. -/
def kernelSource (mem : Nat → Byte) : Source :=
  fun src m => (true, (List.range m).map fun i => mem (src + i))

/-- `readi(dp, 0, (uint64)&de, off, sizeof(de))`, with addresses from `&de` on; `none` if it does
not return `sizeof(de)`.
-/
def readDirent (sb : Superblock) (dp : Inode) (off : BitVec 32)
    : Prog (Option Dirent × Inode) := do
  let read ← readi sb dp kernelSink 0 off 16
  if read.tot = 16 then
    return (some (.ofMemory fun i => (read.stores.map Prod.snd).getD i 0), read.ip)
  else
    return (none, read.ip)

/-- `writei(dp, 0, (uint64)&de, off, sizeof(de)) == sizeof(de)`. -/
def writeDirent (sb : Superblock) (dp : Inode) (de : Dirent) (off : BitVec 32)
    : Prog (Bool × Inode) := do
  let (tot, dp) ← writei sb dp (kernelSource de.toMemory) 0 off 16
  return (decide (tot = 16), dp)

-- Directories

/-- Rounds that pass the whole directory. -/
def Inode.scanRounds (dp : Inode) : Nat := dp.size.toNat / Dirent.bytes + 1

/-- The loop of `dirlookup`. The first argument bounds its rounds. -/
def dirlookupLoop (sb : Superblock) (name : Chars)
    : Nat → BitVec 32 → Inode → Prog (Option (Nat × BitVec 32) × Inode)
  | 0, _, dp => pure (none, dp)
  | rounds + 1, off, dp =>
    if off < dp.size then do
      let (read, dp) ← readDirent sb dp off
      match read with
      | none => panicWith "dirlookup read"
      | some de =>
        if de.inum = 0 then
          dirlookupLoop sb name rounds (off + 16) dp
        else if namecmp name de.chars = 0 then
          return (some (de.inum.toNat, off), dp)
        else
          dirlookupLoop sb name rounds (off + 16) dp
    else
      pure (none, dp)

/-- `dirlookup`: the inode number for its `iget`, and the offset of the entry. -/
def dirlookup (sb : Superblock) (dp : Inode) (name : Chars)
    : Prog (Option (Nat × BitVec 32) × Inode) :=
  if dp.type ≠ T_DIR then panicWith "dirlookup not DIR"
  else dirlookupLoop sb name dp.scanRounds 0 dp

/-- The loop of `dirlink` that looks for an empty entry; the offset where it stops. -/
def emptyLoop (sb : Superblock) : Nat → BitVec 32 → Inode → Prog (BitVec 32 × Inode)
  | 0, off, dp => pure (off, dp)
  | rounds + 1, off, dp =>
    if off < dp.size then do
      let (read, dp) ← readDirent sb dp off
      match read with
      | none => panicWith "dirlink read"
      | some de =>
        if de.inum = 0 then return (off, dp)
        else emptyLoop sb rounds (off + 16) dp
    else
      pure (off, dp)

/-- The entry that `dirlink` writes. -/
def newDirent (name : Chars) (inum : Nat) : Dirent where
  inum := BitVec.ofNat 16 inum
  name := fun i => (strncpy DIRSIZ name).getD i 0

/-- `dirlink`. The `iput` of an inode found under the name takes back the reference of `dirlookup`;
if other processes have dropped the inode meanwhile and it frees it, that is a step of its own.
-/
def dirlink (sb : Superblock) (dp : Inode) (name : Chars) (inum : Nat) : Prog (Int × Inode) := do
  let (found, dp) ← dirlookup sb dp name
  if found.isSome then
    return (-1, dp)
  else
    let (off, dp) ← emptyLoop sb dp.scanRounds 0 dp
    let (done, dp) ← writeDirent sb dp (newDirent name inum) off
    return (if done then 0 else -1, dp)

/-- The part of `sys_unlink` that works on the entries of the parent. -/
def unlinkEntry (sb : Superblock) (dp : Inode) (name : Chars)
    : Prog (Option (Nat × BitVec 32) × Inode) := do
  let (found, dp) ← dirlookup sb dp name
  match found with
  | none => return (none, dp)
  | some (inum, off) =>
    let (done, dp) ← writeDirent sb dp ⟨0, fun _ => 0⟩ off
    if done then return (some (inum, off), dp)
    else panicWith "unlink: writei"

end Xv6.Fs

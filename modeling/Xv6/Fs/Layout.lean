import Xv6.Disk.Program

/-! The on-disk format of `kernel/fs.h`: blocks as arrays of bytes and words, inodes and the
free map.
-/

namespace Xv6.Fs

open Library Disk

abbrev NDIRECT : Nat := 11
abbrev NINDIRECT : Nat := BSIZE / 4
abbrev NDINDIRECT : Nat := NINDIRECT * NINDIRECT
abbrev MAXFILE : Nat := NDIRECT + NINDIRECT + NDINDIRECT

instance nindirect_neZero : NeZero NINDIRECT := ⟨by decide⟩

instance naddrs_neZero : NeZero (NDIRECT + 2) := ⟨by decide⟩

/-- Inodes per block. -/
abbrev IPB : Nat := BSIZE / 64

/-- Bitmap bits per block. -/
abbrev BPB : Nat := BSIZE * 8

/-- `struct superblock`, as far as `kernel/fs.c` reads it. -/
structure Superblock where
  size : Nat
  ninodes : Nat
  inodestart : Nat
  bmapstart : Nat

/-- The block that holds inode `inum`. -/
def Superblock.IBLOCK (sb : Superblock) (inum : Nat) : Nat := inum / IPB + sb.inodestart

/-- The block of the free map that holds the bit of block `b`. -/
def Superblock.BBLOCK (sb : Superblock) (b : Nat) : Nat := b / BPB + sb.bmapstart

abbrev Byte := BitVec 8

/-- `((uint*)bp->data)[i]`. -/
def word (data : Block) (i : Nat) : Nat := (getField data (32 * i) 32).toNat

def setWord (data : Block) (i value : Nat) : Block :=
  setField data (32 * i) (BitVec.ofNat 32 value)

/-- `bp->data[i]`. -/
def byte (data : Block) (i : Nat) : Byte := getField data (8 * i) 8

/-- The bytes of the block from `offset` on. -/
def loadBytes (data : Block) (offset count : Nat) : List Byte :=
  (List.range count).map fun i => byte data (offset + i)

/-- The bytes of the block overwritten from `offset` on. -/
def storeBytes (data : Block) (offset : Nat) : List Byte → Block
  | [] => data
  | value :: rest => storeBytes (setField data (8 * offset) value) (offset + 1) rest

/-- `struct dinode`. -/
structure Dinode where
  type : BitVec 16
  major : BitVec 16
  minor : BitVec 16
  nlink : BitVec 16
  size : BitVec 32
  addrs : Fin (NDIRECT + 2) → Nat

/-- `(struct dinode*)bp->data + slot`. -/
def getDinode (data : Block) (slot : Nat) : Dinode where
  type := getField data (512 * slot) 16
  major := getField data (512 * slot + 16) 16
  minor := getField data (512 * slot + 32) 16
  nlink := getField data (512 * slot + 48) 16
  size := getField data (512 * slot + 64) 32
  addrs := fun k => word data (16 * slot + 3 + k)

/-- `memmove(dip->addrs, ip->addrs, sizeof(ip->addrs))`, word by word. -/
def setAddrs (data : Block) (slot : Nat) (addrs : Fin (NDIRECT + 2) → Nat) : Block :=
  (List.finRange (NDIRECT + 2)).foldl
    (fun data (k : Fin (NDIRECT + 2)) => setWord data (16 * slot + 3 + k) (addrs k)) data

def setDinode (data : Block) (slot : Nat) (dip : Dinode) : Block :=
  let data := setField data (512 * slot) dip.type
  let data := setField data (512 * slot + 16) dip.major
  let data := setField data (512 * slot + 32) dip.minor
  let data := setField data (512 * slot + 48) dip.nlink
  let data := setField data (512 * slot + 64) dip.size
  setAddrs data slot dip.addrs

/-- The in-memory copy of an inode. -/
structure Inode extends Dinode where
  inum : Nat

-- What the on-disk structures keep: words, bytes, inodes and bits of the free map read back as
-- they were written, and writing one leaves the others.

variable {i value slot start width : Nat}

-- Words

@[simp] theorem word_zero (i : Nat) : word 0 i = 0 := by
  rw [word, getField_zero]
  rfl

theorem word_setWord_same (data : Block) (bound : i < NINDIRECT) (small : value < 2 ^ 32)
    : word (setWord data i value) i = value := by
  have fits : 32 * i + 32 ≤ 8192 := by
    have : NINDIRECT = 256 := rfl
    omega
  rw [word, setWord, getField_setField_same _ _ _ fits, BitVec.toNat_ofNat, Nat.mod_eq_of_lt small]

theorem word_setWord_other (data : Block) {j : Nat} (bound : j < NINDIRECT) (other : j ≠ i)
    : word (setWord data i value) j = word data j := by
  have fits : 32 * j + 32 ≤ 8192 := by
    have : NINDIRECT = 256 := rfl
    omega
  rw [word, setWord, getField_setField_disjoint _ _ _ fits (by omega), word]

-- Bytes

@[simp] theorem byte_zero (i : Nat) : byte 0 i = 0 := getField_zero ..

/-- The bytes of a block after a copy into it. -/
theorem byte_storeBytes {data : Block} {offset : Nat} {values : List Byte}
    (fits : offset + values.length ≤ BSIZE) (bound : i < BSIZE)
    : byte (storeBytes data offset values) i
      = if offset ≤ i ∧ i < offset + values.length then values.getD (i - offset) 0
        else byte data i := by
  have size : BSIZE = 1024 := rfl
  induction values generalizing data offset with
  | nil =>
    rw [if_neg (by simp)]
    rfl
  | cons value rest ih =>
    simp only [List.length_cons] at fits ⊢
    rw [storeBytes, ih (by omega)]
    by_cases here : i = offset
    · subst here
      rw [if_neg (by omega), if_pos (by omega), Nat.sub_self]
      exact getField_setField_same _ _ _ (by omega)
    · have apart : byte (setField data (8 * offset) value) i = byte data i :=
        getField_setField_disjoint _ _ _ (by omega) (by omega)
      rw [apart]
      by_cases later : offset + 1 ≤ i ∧ i < offset + 1 + rest.length
      · rw [if_pos later, if_pos (by omega)]
        obtain ⟨k, rfl⟩ : ∃ k, i = offset + 1 + k := ⟨i - (offset + 1), by omega⟩
        rw [show offset + 1 + k - (offset + 1) = k by omega,
          show offset + 1 + k - offset = k + 1 by omega, List.getD_cons_succ]
      · rw [if_neg later, if_neg (by omega)]

-- Inodes

theorem addrs_lt (k : Fin (NDIRECT + 2)) : (k : Nat) < 13 := k.isLt

/-- The words that were set have their values, the others are left. -/
theorem word_setWords {ks : List (Fin (NDIRECT + 2))} (bound : slot < IPB)
    {addrs : Fin (NDIRECT + 2) → Nat} (small : ∀ k, addrs k < 2 ^ 32) (data : Block)
    (k : Fin (NDIRECT + 2))
    : word
        (ks.foldl (fun data (k : Fin (NDIRECT + 2)) => setWord data (16 * slot + 3 + k) (addrs k))
          data)
        (16 * slot + 3 + k)
      = if k ∈ ks then addrs k else word data (16 * slot + 3 + k) := by
  have places (j : Fin (NDIRECT + 2)) : 16 * slot + 3 + j < NINDIRECT := by
    have sizes : IPB = 16 ∧ NINDIRECT = 256 := ⟨rfl, rfl⟩
    have := addrs_lt j
    omega
  induction ks generalizing data with
  | nil => simp
  | cons head rest ih =>
    rw [List.foldl_cons, ih]
    by_cases later : k ∈ rest
    · rw [if_pos later, if_pos (List.mem_cons_of_mem _ later)]
    · rw [if_neg later]
      by_cases here : k = head
      · subst here
        rw [if_pos List.mem_cons_self, word_setWord_same _ (places k) (small k)]
      · rw [if_neg (by simp [here, later]), word_setWord_other _ (places k)]
        intro same
        exact here (Fin.ext (by omega))

/-- The addresses of an inode lie in the inode. -/
theorem getField_setWords {ks : List (Fin (NDIRECT + 2))} {addrs : Fin (NDIRECT + 2) → Nat}
    {data : Block} (fits : start + width ≤ 8192)
    (apart : start + width ≤ 512 * slot + 96 ∨ 512 * slot + 512 ≤ start)
    : getField
        (ks.foldl (fun data (k : Fin (NDIRECT + 2)) => setWord data (16 * slot + 3 + k) (addrs k))
          data)
        start width
      = getField data start width := by
  induction ks generalizing data with
  | nil => rfl
  | cons head rest ih =>
    have := addrs_lt head
    rw [List.foldl_cons, ih, setWord, getField_setField_disjoint _ _ _ fits]
    omega

theorem getDinode_setDinode_same (data : Block) (bound : slot < IPB) (dip : Dinode)
    (small : ∀ k, dip.addrs k < 2 ^ 32)
    : getDinode (setDinode data slot dip) slot = dip := by
  have sixteen : IPB = 16 := rfl
  obtain ⟨type, major, minor, nlink, size, addrs⟩ := dip
  simp only [getDinode, setDinode, setAddrs, Dinode.mk.injEq]
  refine ⟨?_, ?_, ?_, ?_, ?_, funext fun k => ?_⟩
  case refine_6 => rw [word_setWords bound small, if_pos (List.mem_finRange k)]
  all_goals
    simp (disch := omega) only [getField_setWords, getField_setField_disjoint,
      getField_setField_same]

theorem getField_setDinode (data : Block) (dip : Dinode) (fits : start + width ≤ 8192)
    (apart : start + width ≤ 512 * slot ∨ 512 * slot + 512 ≤ start)
    : getField (setDinode data slot dip) start width = getField data start width := by
  simp (disch := omega) only [setDinode, setAddrs, getField_setWords, getField_setField_disjoint]

theorem getDinode_setDinode_other (data : Block) {other : Nat} (bound : other < IPB)
    (apart : other ≠ slot) (dip : Dinode)
    : getDinode (setDinode data slot dip) other = getDinode data other := by
  have sixteen : IPB = 16 := rfl
  simp only [getDinode, Dinode.mk.injEq]
  refine ⟨?_, ?_, ?_, ?_, ?_, funext fun k => congrArg BitVec.toNat ?_⟩
  case refine_6 =>
    have := addrs_lt k
    exact getField_setDinode _ _ (by omega) (by omega)
  all_goals exact getField_setDinode _ _ (by omega) (by omega)

-- The free map

theorem getLsbD_setBit (data : Block) {bi bj : Nat} (bound : bj < BPB) (value : BitVec 1)
    : (setField data bi value).getLsbD bj
      = if bj = bi then value.getLsbD 0 else data.getLsbD bj := by
  rw [getLsbD_setField _ _ _ bound]
  by_cases same : bj = bi
  · subst same
    simp
  · rw [if_neg same, if_neg (by omega)]

end Xv6.Fs

import Xv6.Disk.Program

/-! The redo log of `kernel/log.c`: the on-disk header, `commit` and recovery.
`start` is `log.start`; the log occupies the header block and `LOGBLOCKS` blocks after it.
-/

namespace Xv6.Log

open Library Disk

abbrev LOGBLOCKS : Nat := MAXOPBLOCKS * 3

/-- `((struct logheader *) data)->n`. -/
def headerN (data : Block) : BitVec 32 := getField data 0 32

/-- `((struct logheader *) data)->block[i]`. -/
def headerBlock (data : Block) (i : Nat) : BitVec 32 := getField data (32 * (i + 1)) 32

/-- The loop of `write_head` that fills `hb->block` from index `i` on. -/
def fillBlocks (data : Block) (i : Nat) : List Nat → Block
  | [] => data
  | blockno :: rest =>
    fillBlocks (setField data (32 * (i + 1)) (BitVec.ofNat 32 blockno)) (i + 1) rest

/-- `read_head`: a negative `n` copies nothing. -/
def readHead (start : Nat) : Prog Unit := do
  let buf ← bread start
  setLh ((List.range (headerN buf).toInt.toNat).map (fun i => (headerBlock buf i).toNat))
  brelse start

/-- `write_head`: the true point at which the transaction commits. -/
def writeHead (start : Nat) : Prog Unit := do
  let lh ← readLh
  let buf ← bread start
  setData start (fillBlocks (setField buf 0 (BitVec.ofNat 32 lh.length)) 0 lh)
  bwrite start
  brelse start

/-- The loop of `install_trans` from index `tail` on. -/
def installTransFrom (start : Nat) (recovering : Bool) (tail : Nat) : List Nat → Prog Unit
  | [] => pure ()
  | home :: rest => do
      let lbuf ← bread (start + tail + 1)
      let _dbuf ← bread home
      setData home lbuf
      bwrite home
      if recovering then pure () else bunpin home
      brelse (start + tail + 1)
      brelse home
      installTransFrom start recovering (tail + 1) rest

def installTrans (start : Nat) (recovering : Bool) : Prog Unit := do
  let lh ← readLh
  installTransFrom start recovering 0 lh

def recoverFromLog (start : Nat) : Prog Unit := do
  readHead start
  installTrans start true
  setLh []
  writeHead start

/-- The loop of `write_log` from index `tail` on. -/
def writeLogFrom (start tail : Nat) : List Nat → Prog Unit
  | [] => pure ()
  | home :: rest => do
      let _to ← bread (start + tail + 1)
      let source ← bread home
      setData (start + tail + 1) source
      bwrite (start + tail + 1)
      brelse home
      brelse (start + tail + 1)
      writeLogFrom start (tail + 1) rest

def writeLog (start : Nat) : Prog Unit := do
  let lh ← readLh
  writeLogFrom start 0 lh

def commit (start : Nat) : Prog Unit := do
  let lh ← readLh
  if 0 < lh.length then
    writeLog start
    writeHead start
    installTrans start false
    setLh []
    writeHead start

-- The header block

section

variable (data : Block) (i : Nat) (blocks : List Nat) (fits : i + blocks.length ≤ LOGBLOCKS)
include data i blocks fits

theorem fillBlocks_headerN : headerN (fillBlocks data i blocks) = headerN data := by
  induction blocks generalizing data i with
  | nil => rfl
  | cons blockno rest ih =>
    simp only [List.length_cons, LOGBLOCKS, MAXOPBLOCKS] at fits
    rw [fillBlocks, ih _ _ (by simp only [LOGBLOCKS, MAXOPBLOCKS]; omega)]
    exact getField_setField_disjoint _ _ _ (by omega) (Or.inl (by omega))

theorem fillBlocks_headerBlock_before {k : Nat} (before : k < i)
    : headerBlock (fillBlocks data i blocks) k = headerBlock data k := by
  induction blocks generalizing data i with
  | nil => rfl
  | cons blockno rest ih =>
    simp only [List.length_cons, LOGBLOCKS, MAXOPBLOCKS] at fits
    rw [fillBlocks, ih _ _ (by simp only [LOGBLOCKS, MAXOPBLOCKS]; omega) (by omega)]
    exact getField_setField_disjoint _ _ _ (by omega) (Or.inl (by omega))

/-- Each filled slot reads back the block number written to it. -/
theorem fillBlocks_headerBlock (k : Nat) (bound : k < blocks.length)
    : headerBlock (fillBlocks data i blocks) (i + k) = BitVec.ofNat 32 blocks[k] := by
  induction blocks generalizing data i k with
  | nil => simp at bound
  | cons blockno rest ih =>
    simp only [List.length_cons, LOGBLOCKS, MAXOPBLOCKS] at fits
    rw [fillBlocks]
    cases k with
    | zero =>
      rw [Nat.add_zero, fillBlocks_headerBlock_before _ _ _
        (by simp only [LOGBLOCKS, MAXOPBLOCKS]; omega) (by omega)]
      exact getField_setField_same _ _ _ (by omega)
    | succ k =>
      rw [show i + (k + 1) = i + 1 + k by omega]
      exact ih _ _ (by simp only [LOGBLOCKS, MAXOPBLOCKS]; omega) k
        (by simpa using bound)

end

/-- The block numbers that `read_head` takes from a header block. -/
def headerList (data : Block) : List Nat :=
  (List.range (headerN data).toInt.toNat).map (fun i => (headerBlock data i).toNat)

/-- The header block that `write_head` makes of `data`. -/
def headerFor (blocks : List Nat) (data : Block) : Block :=
  fillBlocks (setField data 0 (BitVec.ofNat 32 blocks.length)) 0 blocks

theorem headerFor_headerN (blocks : List Nat) (data : Block)
    (fits : blocks.length ≤ LOGBLOCKS)
    : headerN (headerFor blocks data) = BitVec.ofNat 32 blocks.length := by
  rw [headerFor, fillBlocks_headerN _ _ _ (by omega)]
  exact getField_setField_same _ _ _ (by decide)

/-- A header survives the way to the disk and back. -/
theorem headerList_headerFor (blocks : List Nat) (data : Block)
    (fits : blocks.length ≤ LOGBLOCKS) (words : ∀ blockno ∈ blocks, blockno < 2 ^ 32)
    : headerList (headerFor blocks data) = blocks := by
  have count : (headerN (headerFor blocks data)).toInt.toNat = blocks.length := by
    rw [headerFor_headerN blocks data fits]
    simp only [LOGBLOCKS, MAXOPBLOCKS] at fits
    have small : (BitVec.ofNat 32 blocks.length).toNat = blocks.length := by
      simp only [BitVec.toNat_ofNat]
      omega
    rw [BitVec.toInt_eq_toNat_of_lt (by omega), small]
    simp
  apply List.ext_getElem
  · simp [headerList, count]
  · intro i _ bound
    have slot := fillBlocks_headerBlock
      (setField data 0 (BitVec.ofNat 32 blocks.length)) 0 blocks (by omega) i bound
    rw [Nat.zero_add] at slot
    have word := words blocks[i] (List.getElem_mem bound)
    simp only [headerList, List.getElem_map, List.getElem_range, headerFor, slot,
      BitVec.toNat_ofNat]
    omega

theorem headerList_of_zero {data : Block} (zero : headerN data = 0) : headerList data = [] := by
  simp [headerList, zero]

end Xv6.Log

import Xv6.Fs.Operations
import Xv6.Library.SlotMap

/-! A directory is a finite map from names to inode numbers. Its entries are the slots that keep the
map: `dirlookup` finds the slot of a name, `dirlink` fills an empty slot or one behind the last, and
`sys_unlink` empties a slot.
-/

namespace Xv6.Fs

open Function Library IndexTree SlotMap Disk

variable {sb : Superblock} {view view' : Nat → Block} {inum : Nat} {rounds target : Nat}

-- Names

/-- A name as `strncpy` stores it. -/
abbrev Name := Fin DIRSIZ → Byte

def nameOf (name : Chars) : Name := fun i => (strncpy DIRSIZ name).getD i 0

@[simp] theorem strncpy_length (n : Nat) (t : Chars) : (strncpy n t).length = n := by
  induction n generalizing t with
  | zero => rfl
  | succ n ih =>
    rw [strncpy]
    split_ifs
    · rw [List.length_cons, List.length_replicate]
    · rw [List.length_cons, ih]

/-- The loop of `strncpy`, one byte after the other. -/
theorem strncpy_succ (n : Nat) (t : Chars)
    : strncpy (n + 1) t
      = t 0 :: if t 0 = 0 then List.replicate n 0 else strncpy n (fun i => t (i + 1)) := by
  rw [strncpy]
  split_ifs with nul
  · rw [nul]
  · rfl

/-- Names compare as equal when they are stored alike. -/
theorem strncmp_eq_zero_iff (n : Nat) (s t : Chars)
    : strncmp n s t = 0 ↔ strncpy n s = strncpy n t := by
  induction n generalizing s t with
  | zero => exact iff_of_true rfl rfl
  | succ n ih =>
    rw [strncmp, strncpy_succ, strncpy_succ, List.cons.injEq]
    by_cases same : s 0 = t 0
    · rw [← same]
      by_cases nul : s 0 = 0
      · rw [if_neg (fun h => h.1 nul), if_pos nul, if_pos nul]
        exact iff_of_true (Int.sub_self _) ⟨rfl, rfl⟩
      · rw [if_pos ⟨nul, rfl⟩, if_neg nul, if_neg nul, ih]
        exact (and_iff_right rfl).symm
    · rw [if_neg (fun h => same h.2)]
      refine iff_of_false (fun zero => same (BitVec.eq_of_toNat_eq ?_)) fun h => same h.1
      omega

theorem nameOf_eq_iff {s t : Chars}
    : nameOf s = nameOf t ↔ strncpy DIRSIZ s = strncpy DIRSIZ t := by
  constructor
  · intro same
    refine List.ext_getElem (by simp) fun i inside inside' => ?_
    have here : (strncpy DIRSIZ s).getD i 0 = (strncpy DIRSIZ t).getD i 0 :=
      congrFun same ⟨i, by simpa using inside⟩
    rwa [List.getD_eq_getElem _ _ inside, List.getD_eq_getElem _ _ inside'] at here
  · intro same
    unfold nameOf
    rw [same]

/-- `namecmp` compares names as keys of the map. -/
theorem namecmp_eq_zero_iff {s t : Chars} : namecmp s t = 0 ↔ nameOf s = nameOf t :=
  (strncmp_eq_zero_iff DIRSIZ s t).trans nameOf_eq_iff.symm

/-- A stored name is stored as it stands. -/
theorem strncpy_strncpy (n : Nat) (t s : Chars) (stored : ∀ i < n, s i = (strncpy n t).getD i 0)
    : strncpy n s = strncpy n t := by
  induction n generalizing t s with
  | zero => rfl
  | succ n ih =>
    have head := stored 0 (Nat.succ_pos n)
    rw [strncpy_succ, List.getD_cons_zero] at head
    rw [strncpy_succ, strncpy_succ, head]
    split_ifs with nul
    · rfl
    · refine congrArg _ (ih _ _ fun i inside => ?_)
      rw [stored (i + 1) (Nat.succ_lt_succ inside), strncpy_succ, if_neg nul, List.getD_cons_succ]

/-- An entry has the name that it was made for. -/
theorem nameOf_newDirent (name : Chars) (target : Nat)
    : nameOf (newDirent name target).chars = nameOf name := by
  refine nameOf_eq_iff.mpr (strncpy_strncpy DIRSIZ name _ fun i inside => ?_)
  exact dif_pos inside

-- Entries

/-- What an entry says: nothing if it is free. -/
def Dirent.pair (de : Dirent) : Option (Name × Nat) :=
  if de.inum = 0 then none else some (nameOf de.chars, de.inum.toNat)

/-- What entry `i` of the directory says. -/
def slotAt (sb : Superblock) (view : Nat → Block) (inum i : Nat) : Option (Name × Nat) :=
  (direntAt sb view inum i).pair

/-- The number of entries, live or free. -/
def entryCount (sb : Superblock) (view : Nat → Block) (inum : Nat) : Nat :=
  (dinodeAt sb view inum).size.toNat / Dirent.bytes

/-- The directory holds the map. -/
structure Holds (sb : Superblock) (view : Nat → Block) (inum : Nat) (map : Name → Option Nat)
    : Prop where
  sound : Sound sb view
  allocated : Allocated sb view inum
  isDir : (dinodeAt sb view inum).type = T_DIR
  whole : Dirent.bytes ∣ (dinodeAt sb view inum).size.toNat
  entries : Represents (entryCount sb view inum) (slotAt sb view inum) map

variable {map : Name → Option Nat}

/-- The size of a directory is that of its entries. -/
theorem Holds.size_eq (holds : Holds sb view inum map)
    : (dinodeAt sb view inum).size.toNat = Dirent.bytes * entryCount sb view inum :=
  (Nat.mul_div_cancel' holds.whole).symm

/-- The entries of the largest file. -/
abbrev MAXENTRIES : Nat := MAXFILE * BSIZE / Dirent.bytes

/-- A directory has no more entries than a file has room for. -/
theorem Holds.count_le (holds : Holds sb view inum map)
    : entryCount sb view inum ≤ MAXENTRIES :=
  Nat.div_le_div_right (holds.sound.size_le holds.allocated)

/-- Offsets in a directory do not wrap. -/
theorem toNat_offset {i : Nat} (bound : i ≤ MAXENTRIES)
    : (BitVec.ofNat 32 (Dirent.bytes * i)).toNat = Dirent.bytes * i := by
  refine Nat.mod_eq_of_lt (Nat.lt_of_le_of_lt (Nat.mul_le_mul_left _ bound) ?_)
  decide

/-- An entry is read from its 16 bytes. -/
theorem Dirent.ofMemory_congr {mem mem' : Chars} (same : ∀ j < Dirent.bytes, mem j = mem' j)
    : ofMemory mem = ofMemory mem' := by
  simp only [ofMemory, Dirent.mk.injEq]
  refine ⟨?_, funext fun k => same _ ?_⟩
  · rw [same 0 (by decide), same 1 (by decide)]
  · have bound : k.val < 14 := k.isLt
    show 2 + k.val < 16
    omega

theorem placed_snd (dst : Nat) (bytes : List Byte) : (placed dst bytes).map Prod.snd = bytes := by
  induction bytes generalizing dst with
  | nil => rfl
  | cons value rest ih => rw [placed, List.map_cons, ih]

/-- `readi` of an entry below the size is whole. -/
theorem readDirent_entry (holds : Holds sb view inum map) {i : Nat}
    (inside : i < entryCount sb view inum)
    : (readDirent sb (inodeAt sb view inum) (BitVec.ofNat 32 (Dirent.bytes * i))).peek view
      = some (some (direntAt sb view inum i), inodeAt sb view inum) := by
  have offset := toNat_offset (inside.le.trans holds.count_le)
  have size := holds.size_eq
  have limit := holds.count_le
  have count : readCount (dinodeAt sb view inum).size (BitVec.ofNat 32 (Dirent.bytes * i)) 16
      = 16 := by
    have sixteen : (16 : BitVec 32).toNat = 16 := rfl
    have most : MAXENTRIES = 4211392 := rfl
    rw [readCount, offset, size]
    simp only [show Dirent.bytes = 16 from rfl]
    rw [if_neg (by omega)]
    omega
  rw [readDirent, Prog.peek_bind_some (readi_kernel holds.sound holds.allocated 0 _ 16), count]
  simp only [placed_snd, offset]
  refine congrArg (fun de => some (some de, inodeAt sb view inum)) ?_
  refine Dirent.ofMemory_congr fun j inside => ?_
  rw [window, List.getD_eq_getElem _ _ (by simpa using inside), List.getElem_map,
    List.getElem_range]

-- The scans

/-- `off += sizeof(de)`. -/
theorem offset_next (i : Nat)
    : BitVec.ofNat 32 (Dirent.bytes * i) + 16 = BitVec.ofNat 32 (Dirent.bytes * (i + 1)) := by
  rw [Nat.mul_succ, BitVec.ofNat_add]
  rfl

/-- The test of the scanning loops. -/
theorem Holds.offset_lt_iff (holds : Holds sb view inum map) {i : Nat}
    (bound : i ≤ entryCount sb view inum)
    : BitVec.ofNat 32 (Dirent.bytes * i) < (inodeAt sb view inum).size
      ↔ i < entryCount sb view inum := by
  have size : (inodeAt sb view inum).size.toNat = _ := holds.size_eq
  rw [BitVec.lt_def, toNat_offset (bound.trans holds.count_le), size,
    Nat.mul_lt_mul_left (by decide)]

/-- What `dirlookup` returns for a name, after the entries before `i`. -/
def Looked (sb : Superblock) (view : Nat → Block) (inum i : Nat) (key : Name)
    (found : Option (Nat × BitVec 32))
    : Prop :=
  (found = none
    ∧ ∀ j, i ≤ j → j < entryCount sb view inum → ∀ target,
      slotAt sb view inum j ≠ some (key, target))
  ∨ ∃ j target, j < entryCount sb view inum ∧ slotAt sb view inum j = some (key, target)
    ∧ found = some (target, BitVec.ofNat 32 (Dirent.bytes * j))

variable {key : Name}

/-- The scan passes an entry with another name. -/
theorem Looked.next {i : Nat} {found : Option (Nat × BitVec 32)}
    (looked : Looked sb view inum (i + 1) key found)
    (other : ∀ target, slotAt sb view inum i ≠ some (key, target))
    : Looked sb view inum i key found := by
  rcases looked with ⟨none, absent⟩ | present
  · refine .inl ⟨none, fun j after inside => ?_⟩
    rcases Nat.eq_or_lt_of_le after with rfl | later
    · exact other
    · exact absent j later inside
  · exact .inr present

section

variable (holds : Holds sb view inum map)
include holds

/-- The loop of `dirlookup`, by induction on its rounds. -/
theorem dirlookupLoop_peek (name : Chars) {i : Nat} (bound : i ≤ entryCount sb view inum)
    (enough : entryCount sb view inum < i + rounds)
    : ∃ found, Looked sb view inum i (nameOf name) found
      ∧ (dirlookupLoop sb name rounds (BitVec.ofNat 32 (Dirent.bytes * i))
          (inodeAt sb view inum)).peek view
        = some (found, inodeAt sb view inum) := by
  induction rounds generalizing i with
  | zero => omega
  | succ rounds ih =>
    rw [dirlookupLoop]
    by_cases inside : i < entryCount sb view inum
    · rw [if_pos ((holds.offset_lt_iff bound).mpr inside),
        Prog.peek_bind_some (readDirent_entry holds inside), offset_next]
      obtain ⟨found, looked, reads⟩ := ih inside (by omega)
      dsimp only
      by_cases free : (direntAt sb view inum i).inum = 0
      · have none : slotAt sb view inum i = none := if_pos free
        rw [if_pos free]
        refine ⟨found, looked.next fun target isHere => ?_, reads⟩
        rw [none] at isHere
        cases isHere
      · have some : slotAt sb view inum i = some _ := if_neg free
        rw [if_neg free]
        by_cases same : namecmp name (direntAt sb view inum i).chars = 0
        · rw [if_pos same]
          rw [namecmp_eq_zero_iff] at same
          rw [← same] at some
          exact ⟨_, .inr ⟨i, _, inside, some, rfl⟩, rfl⟩
        · rw [if_neg same]
          refine ⟨found, looked.next fun target isHere => ?_, reads⟩
          have keys := congrArg Prod.fst (Option.some.inj (some.symm.trans isHere))
          exact same (namecmp_eq_zero_iff.mpr keys.symm)
    · rw [if_neg fun less => inside ((holds.offset_lt_iff bound).mp less)]
      exact ⟨none, .inl ⟨rfl, fun j after before => absurd (after.trans_lt before) inside⟩, rfl⟩

/-- `dirlookup` finds the first entry with the name. -/
theorem dirlookup_peek (name : Chars)
    : ∃ found, Looked sb view inum 0 (nameOf name) found
      ∧ (dirlookup sb (inodeAt sb view inum) name).peek view
        = some (found, inodeAt sb view inum) := by
  have isDir : ¬(inodeAt sb view inum).type ≠ T_DIR := not_not_intro holds.isDir
  rw [dirlookup, if_neg isDir]
  exact dirlookupLoop_peek holds name (Nat.zero_le _) (by
    rw [Nat.zero_add]
    exact Nat.lt_succ_self _)

/-- The loop stops at the first free entry, or behind the last one. -/
theorem emptyLoop_peek {i : Nat} (bound : i ≤ entryCount sb view inum)
    (enough : entryCount sb view inum < i + rounds) (before : ∀ j < i, slotAt sb view inum j ≠ none)
    : ∃ i', i' ≤ entryCount sb view inum ∧ (∀ j < i', slotAt sb view inum j ≠ none)
      ∧ (i' < entryCount sb view inum → slotAt sb view inum i' = none)
      ∧ (emptyLoop sb rounds (BitVec.ofNat 32 (Dirent.bytes * i)) (inodeAt sb view inum)).peek view
        = some (BitVec.ofNat 32 (Dirent.bytes * i'), inodeAt sb view inum) := by
  induction rounds generalizing i with
  | zero => omega
  | succ rounds ih =>
    rw [emptyLoop]
    by_cases inside : i < entryCount sb view inum
    · rw [if_pos ((holds.offset_lt_iff bound).mpr inside),
        Prog.peek_bind_some (readDirent_entry holds inside), offset_next]
      dsimp only
      by_cases free : (direntAt sb view inum i).inum = 0
      · rw [if_pos free]
        exact ⟨i, bound, before, fun _ => if_pos free, rfl⟩
      · rw [if_neg free]
        refine ih inside (by omega) fun j first => ?_
        rcases Nat.lt_succ_iff_lt_or_eq.mp first with earlier | rfl
        · exact before j earlier
        · have some : slotAt sb view inum j = some _ := if_neg free
          rw [some]
          exact Option.some_ne_none _
    · rw [if_neg fun less => inside ((holds.offset_lt_iff bound).mp less)]
      exact ⟨i, bound, before, fun less => absurd less inside, rfl⟩

end

-- Writing an entry

theorem Dirent.ofMemory_toMemory (de : Dirent) : ofMemory de.toMemory = de := by
  obtain ⟨inum, name⟩ := de
  simp only [ofMemory, Dirent.mk.injEq]
  constructor
  · change inum.extractLsb' 8 8 ++ inum.extractLsb' 0 8 = inum
    refine BitVec.eq_of_getLsbD_eq fun i bound => ?_
    rw [BitVec.getLsbD_append]
    by_cases low : i < 8
    · simp [low]
    · have rest : i - 8 < 8 := by omega
      have back : 8 + (i - 8) = i := by omega
      simp [low, rest, back]
  · funext k
    have later : ¬2 + k.val = 1 := by omega
    simp [toMemory, later, chars]

/-- Entry `i` of the directory is now `de`, and nothing else has changed in it. -/
structure EntryWritten (sb : Superblock) (inum i : Nat) (de : Dirent) (view view' : Nat → Block)
    : Prop where
  sound : Sound sb view'
  allocated : Allocated sb view' inum
  type : (dinodeAt sb view' inum).type = (dinodeAt sb view inum).type
  size : (dinodeAt sb view' inum).size.toNat
    = max (dinodeAt sb view inum).size.toNat (Dirent.bytes * (i + 1))
  entries : ∀ j < MAXENTRIES, direntAt sb view' inum j
    = if j = i then de else direntAt sb view inum j

/-- The directory is as it was; its inode may have got index blocks. -/
structure Unwritten (sb : Superblock) (inum : Nat) (view view' : Nat → Block) : Prop where
  sound : Sound sb view'
  allocated : Allocated sb view' inum
  type : (dinodeAt sb view' inum).type = (dinodeAt sb view inum).type
  size : (dinodeAt sb view' inum).size.toNat = (dinodeAt sb view inum).size.toNat
  entries : ∀ j < MAXENTRIES, direntAt sb view' inum j = direntAt sb view inum j

/-- The directory can get an entry `i`: its file may grow that far, and the disk has the blocks. -/
def Room (sb : Superblock) (view : Nat → Block) (inum i : Nat) : Prop :=
  i < MAXENTRIES
  ∧ (missing view (diskAddrs sb view) (blockSlot inum (Dirent.bytes * i / BSIZE))).card
    ≤ (freeBlocks sb view).card

instance (sb : Superblock) (view : Nat → Block) (inum i : Nat) : Decidable (Room sb view inum i) :=
  inferInstanceAs (Decidable (_ ∧ _))

/-- An entry does not cross blocks. -/
theorem entry_in_block (i : Nat) : Dirent.bytes * i % BSIZE + 16 ≤ BSIZE := by
  simp only [show BSIZE = 1024 from rfl, show Dirent.bytes = 16 from rfl]
  omega

/-- An entry is inside the file. -/
theorem entry_bound {j k : Nat} (inside : j < MAXENTRIES) (within : k < Dirent.bytes)
    : (Dirent.bytes * j + k) / BSIZE < MAXFILE := by
  rw [Nat.div_lt_iff_lt_mul (by decide)]
  simp only [show Dirent.bytes = 16 from rfl, show MAXENTRIES = 4211392 from rfl,
    show MAXFILE * BSIZE = 67382272 from rfl] at *
  omega

/-- The entries after `writei` has written the whole entry, or nothing. -/
theorem Written.entries {de : Dirent} {i tot : Nat} {ip' : Inode}
    (written : Written sb (kernelSource de.toMemory) de.toMemory 0 (Dirent.bytes * i) Dirent.bytes
      inum view tot ip' view')
    {j : Nat} (inside : j < MAXENTRIES)
    : (tot = Dirent.bytes → direntAt sb view' inum j
        = if j = i then de else direntAt sb view inum j)
      ∧ (tot = 0 → direntAt sb view' inum j = direntAt sb view inum j) := by
  have bytes (k : Nat) (within : k < Dirent.bytes) :=
    written.bytes (.inl fun _ _ => rfl) _ (entry_bound inside within)
  constructor
  · rintro rfl
    split_ifs with here
    · rw [← Dirent.ofMemory_toMemory de]
      refine Dirent.ofMemory_congr fun k within => ?_
      rw [bytes k within, here, if_pos (by omega), Nat.zero_add, Nat.add_sub_cancel_left]
    · refine Dirent.ofMemory_congr fun k within => ?_
      rw [bytes k within, if_neg]
      simp only [show Dirent.bytes = 16 from rfl] at within ⊢
      omega
  · rintro rfl
    refine Dirent.ofMemory_congr fun k within => ?_
    rw [bytes k within, if_neg (by omega)]

theorem Written.type_eq {source : Source} {mem : Nat → Byte} {src off n tot : Nat} {ip' : Inode}
    (written : Written sb source mem src off n inum view tot ip' view')
    : (dinodeAt sb view' inum).type = (dinodeAt sb view inum).type := by
  obtain ⟨size, addrs, same⟩ := written.same
  rw [same]

/-- The write of an entry at or before the end: the entry is written, or nothing is. -/
theorem writeDirent_returns {s : Store} (sound : Sound sb s.view)
    (allocated : Allocated sb s.view inum) (de : Dirent) {i : Nat}
    (next : Dirent.bytes * i ≤ (dinodeAt sb s.view inum).size.toNat)
    : (writeDirent sb (inodeAt sb s.view inum) de (BitVec.ofNat 32 (Dirent.bytes * i))).Returns s
        fun result s' =>
          result = (decide (Room sb s.view inum i), inodeAt sb s'.view inum)
          ∧ if Room sb s.view inum i then EntryWritten sb inum i de s.view s'.view
            else Unwritten sb inum s.view s'.view := by
  have limit := next.trans (sound.size_le allocated)
  have sixteen : (16 : BitVec 32).toNat = 16 := rfl
  have most : i ≤ MAXENTRIES := by
    simp only [show Dirent.bytes = 16 from rfl, show MAXENTRIES = 4211392 from rfl,
      show MAXFILE * BSIZE = 67382272 from rfl] at *
    omega
  have offset := toNat_offset most
  have accepts : Accepts (dinodeAt sb s.view inum).size (BitVec.ofNat 32 (Dirent.bytes * i)) 16
      ↔ i < MAXENTRIES := by
    rw [Accepts, BitVec.le_def, offset, sixteen, and_iff_right next]
    simp only [show Dirent.bytes = 16 from rfl, show MAXENTRIES = 4211392 from rfl,
      show MAXFILE * BSIZE = 67382272 from rfl]
    omega
  unfold writeDirent
  by_cases inside : i < MAXENTRIES
  · refine (writei_block (kernelSource_lawful de.toMemory) (fun _ _ => rfl) sound allocated
      (accepts.mpr inside) (by decide) ?_).bind fun result s' wrote => Prog.returns_pure.mpr ?_
    · rw [offset]
      exact entry_in_block i
    · obtain ⟨tot, isTot, totEq, written⟩ := wrote
      rw [offset, sixteen] at written totEq
      have size := written.size
      split_ifs at totEq with enough
      · have room : Room sb s.view inum i := ⟨inside, enough⟩
        refine ⟨?_, ?_⟩
        · rw [isTot, totEq, decide_eq_true room, written.inode]
          rfl
        · rw [if_pos room]
          refine ⟨written.sound, written.allocated, written.type_eq, ?_, fun j below =>
            (written.entries below).1 totEq⟩
          rw [size, totEq]
          rfl
      · have noRoom : ¬Room sb s.view inum i := fun room => enough room.2
        refine ⟨?_, ?_⟩
        · rw [isTot, totEq, decide_eq_false noRoom, written.inode]
          rfl
        · rw [if_neg noRoom]
          refine ⟨written.sound, written.allocated, written.type_eq, ?_, fun j below =>
            (written.entries below).2 totEq⟩
          rw [size, totEq, Nat.add_zero, max_eq_left next]
  · have noRoom : ¬Room sb s.view inum i := fun room => inside room.1
    have rejected : ¬Accepts (inodeAt sb s.view inum).size _ 16 :=
      fun yes => inside (accepts.mp yes)
    rw [writei_rejected rejected, Prog.returns_bind, Prog.returns_pure, Prog.returns_pure,
      decide_eq_false noRoom, if_neg noRoom]
    exact ⟨rfl, sound, allocated, rfl, rfl, fun _ _ => rfl⟩

-- The map

theorem pair_newDirent {name : Chars} (positive : 0 < target) (small : target < 2 ^ 16)
    : (newDirent name target).pair = some (nameOf name, target) := by
  have value : (newDirent name target).inum.toNat = target := Nat.mod_eq_of_lt small
  have live : ¬(newDirent name target).inum = 0 := fun zero => by
    rw [zero] at value
    exact positive.ne value
  rw [Dirent.pair, if_neg live, nameOf_newDirent, value]

variable {i : Nat} {de : Dirent}

/-- Writing behind the last entry adds one. -/
theorem EntryWritten.count (holds : Holds sb view inum map)
    (written : EntryWritten sb inum i de view view')
    : entryCount sb view' inum = max (entryCount sb view inum) (i + 1) := by
  rw [entryCount, written.size, holds.size_eq]
  simp only [show Dirent.bytes = 16 from rfl]
  omega

/-- The size stays a multiple of the size of an entry. -/
theorem EntryWritten.whole (holds : Holds sb view inum map)
    (written : EntryWritten sb inum i de view view')
    : Dirent.bytes ∣ (dinodeAt sb view' inum).size.toNat := by
  rw [written.size]
  rcases max_choice (dinodeAt sb view inum).size.toNat (Dirent.bytes * (i + 1)) with same | same
  · rw [same]
    exact holds.whole
  · rw [same]
    exact Nat.dvd_mul_right ..

/-- Writing an entry leaves the others. -/
theorem EntryWritten.slots (bound : i < MAXENTRIES)
    (written : EntryWritten sb inum i de view view')
    : slotAt sb view' inum i = de.pair
      ∧ ∀ j < MAXENTRIES, j ≠ i → slotAt sb view' inum j = slotAt sb view inum j := by
  refine ⟨?_, fun j inside other => ?_⟩
  · rw [slotAt, written.entries i bound, if_pos rfl]
  · rw [slotAt, written.entries j inside, if_neg other, slotAt]

section

variable (holds : Holds sb view inum map)
include holds

/-- A new entry extends the map. -/
theorem Holds.link {name : Chars} (absent : map (nameOf name) = none) (positive : 0 < target)
    (small : target < 2 ^ 16) (next : i ≤ entryCount sb view inum) (bound : i < MAXENTRIES)
    (free : i < entryCount sb view inum → slotAt sb view inum i = none)
    (written : EntryWritten sb inum i (newDirent name target) view view')
    : Holds sb view' inum (update map (nameOf name) (some target)) := by
  obtain ⟨here, others⟩ := written.slots bound
  refine ⟨written.sound, written.allocated, written.type.trans holds.isDir, written.whole holds, ?_⟩
  exact holds.entries.insert absent free (written.count holds) next
    (here.trans (pair_newDirent positive small))
    fun j inside other => others j (inside.trans_le holds.count_le) other

/-- A cleared entry removes its name from the map. -/
theorem Holds.unlink (inside : i < entryCount sb view inum)
    (isHere : slotAt sb view inum i = some (key, target))
    (written : EntryWritten sb inum i ⟨0, fun _ => 0⟩ view view')
    : Holds sb view' inum (update map key none) := by
  obtain ⟨here, others⟩ := written.slots (inside.trans_le holds.count_le)
  refine ⟨written.sound, written.allocated, written.type.trans holds.isDir, written.whole holds, ?_⟩
  rw [written.count holds, max_eq_left inside]
  exact holds.entries.erase inside isHere here
    fun j below other => others j (below.trans_le holds.count_le) other

theorem Holds.unwritten (unwritten : Unwritten sb inum view view') : Holds sb view' inum map := by
  have count : entryCount sb view' inum = entryCount sb view inum := by
    rw [entryCount, unwritten.size, entryCount]
  refine ⟨unwritten.sound, unwritten.allocated, unwritten.type.trans holds.isDir,
    unwritten.size ▸ holds.whole, ?_⟩
  rw [count]
  refine holds.entries.congr fun j inside => ?_
  rw [slotAt, unwritten.entries j (inside.trans_le holds.count_le), slotAt]

/-- There is room for an entry that is there already. -/
theorem Holds.room (inside : i < entryCount sb view inum) : Room sb view inum i := by
  refine ⟨inside.trans_le holds.count_le, ?_⟩
  have size := holds.size_eq
  have byte : Dirent.bytes * i < (dinodeAt sb view inum).size.toNat := by
    rw [size]
    exact Nat.mul_lt_mul_of_pos_left inside (by decide)
  have present := (holds.sound.block holds.allocated byte).2
  rw [missing_eq_empty holds.sound.owned.boot present]
  exact Nat.zero_le _

theorem Holds.next_le (next : i ≤ entryCount sb view inum)
    : Dirent.bytes * i ≤ (dinodeAt sb view inum).size.toNat := by
  rw [holds.size_eq]
  exact Nat.mul_le_mul_left _ next

end

/-- An empty directory. -/
theorem Holds.empty (sound : Sound sb view) (allocated : Allocated sb view inum)
    (isDir : (dinodeAt sb view inum).type = T_DIR) (isEmpty : (dinodeAt sb view inum).size = 0)
    : Holds sb view inum fun _ => none := by
  have count : entryCount sb view inum = 0 := by
    rw [entryCount, isEmpty]
    rfl
  refine ⟨sound, allocated, isDir, ?_, ?_⟩
  · rw [isEmpty]
    exact Nat.dvd_zero _
  · rw [count]
    refine ⟨fun i inside => absurd inside (Nat.not_lt_zero i), fun k v isThere => ?_,
      fun i inside => absurd inside (Nat.not_lt_zero i)⟩
    cases isThere

/-- A search through the whole directory finds what the map says. -/
theorem Looked.cases {found : Option (Nat × BitVec 32)} (holds : Holds sb view inum map)
    (looked : Looked sb view inum 0 key found)
    : (map key = none ∧ found = none)
      ∨ ∃ i target, i < entryCount sb view inum ∧ slotAt sb view inum i = some (key, target)
        ∧ map key = some target ∧ found = some (target, BitVec.ofNat 32 (Dirent.bytes * i)) := by
  rcases looked with ⟨isNone, absent⟩ | ⟨i, target, inside, isHere, isSome⟩
  · exact .inl ⟨holds.entries.none_iff.mpr fun i => absent i (Nat.zero_le i), isNone⟩
  · exact .inr ⟨i, target, inside, isHere, holds.entries.held i inside key target isHere, isSome⟩

-- Calls

variable {s : Store}

/-- `dirlink` fills the first free entry, or adds one. It fails when the name is there, or when
there is neither a free entry nor room for one more.
-/
theorem dirlink_returns (holds : Holds sb s.view inum map) (name : Chars) (target : Nat)
    : (dirlink sb (inodeAt sb s.view inum) name target).Returns s fun result s' =>
        (result.1 = -1 ∧ map (nameOf name) ≠ none ∧ s' = s)
        ∨ (map (nameOf name) = none ∧ ∃ i, i ≤ entryCount sb s.view inum
          ∧ (∀ j < i, slotAt sb s.view inum j ≠ none)
          ∧ (i < entryCount sb s.view inum → slotAt sb s.view inum i = none)
          ∧ if Room sb s.view inum i then
              result.1 = 0 ∧ EntryWritten sb inum i (newDirent name target) s.view s'.view
            else result.1 = -1 ∧ Unwritten sb inum s.view s'.view) := by
  obtain ⟨found, looked, reads⟩ := dirlookup_peek holds name
  refine Prog.returns_peek reads ?_
  rcases looked.cases holds with ⟨absent, rfl⟩ | ⟨i, target', inside, isHere, present, rfl⟩
  · obtain ⟨i, next, before, free, stops⟩ := emptyLoop_peek holds (Nat.zero_le _)
      (show entryCount sb s.view inum < 0 + (inodeAt sb s.view inum).scanRounds by
        rw [Nat.zero_add]
        exact Nat.lt_succ_self _)
      (fun j below => absurd below (Nat.not_lt_zero j))
    refine Prog.returns_peek stops ?_
    refine (writeDirent_returns holds.sound holds.allocated (newDirent name target)
      (holds.next_le next)).bind fun result s' wrote => Prog.returns_pure.mpr ?_
    refine .inr ⟨absent, i, next, before, free, ?_⟩
    obtain ⟨rfl, outcome⟩ := wrote
    by_cases room : Room sb s.view inum i
    · rw [if_pos room] at outcome ⊢
      exact ⟨if_pos (decide_eq_true room), outcome⟩
    · rw [if_neg room] at outcome ⊢
      exact ⟨if_neg (fun yes => room (of_decide_eq_true yes)), outcome⟩
  · rw [present]
    exact Prog.returns_pure.mpr (.inl ⟨rfl, Option.some_ne_none _, rfl⟩)

/-- `sys_unlink` clears the entry that it has found. -/
theorem unlinkEntry_returns (holds : Holds sb s.view inum map) (name : Chars)
    : (unlinkEntry sb (inodeAt sb s.view inum) name).Returns s fun result s' =>
        (map (nameOf name) = none ∧ result.1 = none ∧ s' = s)
        ∨ ∃ i target, i < entryCount sb s.view inum
          ∧ slotAt sb s.view inum i = some (nameOf name, target)
          ∧ map (nameOf name) = some target
          ∧ result.1 = some (target, BitVec.ofNat 32 (Dirent.bytes * i))
          ∧ EntryWritten sb inum i ⟨0, fun _ => 0⟩ s.view s'.view := by
  obtain ⟨found, looked, reads⟩ := dirlookup_peek holds name
  refine Prog.returns_peek reads ?_
  rcases looked.cases holds with ⟨absent, rfl⟩ | ⟨i, target, inside, isHere, present, rfl⟩
  · exact Prog.returns_pure.mpr (.inl ⟨absent, rfl, rfl⟩)
  · have room := holds.room inside
    refine (writeDirent_returns holds.sound holds.allocated ⟨0, fun _ => 0⟩
      (holds.next_le inside.le)).bind fun result s' wrote => ?_
    obtain ⟨rfl, outcome⟩ := wrote
    rw [if_pos room] at outcome
    simp only [decide_eq_true room]
    exact Prog.returns_pure.mpr (.inr ⟨i, target, inside, isHere, present, rfl, outcome⟩)

end Xv6.Fs

import Xv6.Library.Slots
import Xv6.Ramdisk.Device
import Xv6.Vm.PageTableSpec

/-! The ramdisk refines an array of bytes. Pages that were never written are holes, and read as
zeros; every page comes from the free list and goes back to it once.
-/

namespace Xv6.Ramdisk

open Function Library Vm

variable {n pos m : Nat} {rest : List Nat} {off : BitVec 32}

-- The array

/-- What the ramdisk is for. -/
structure Disk where
  loaded : Bool
  bytes : Nat → Byte

/-- How much of a transfer lies on the disk. -/
def span (off n : BitVec 32) : Nat := min n.toNat (RD_SIZE - off.toNat)

/-- The array with the bytes `first` up to `last` of a buffer that is stored at `off`. -/
def put (bytes : Nat → Byte) (off : Nat) (src : Nat → Byte) (first last : Nat) : Nat → Byte :=
  fun i => if off + first ≤ i ∧ i < off + last then src (i - off) else bytes i

/-- The calls on an array of bytes. A transfer is complete unless memory runs out. -/
inductive Disk.Step : Disk → Action × Outcome → Disk → Prop
  | load {d : Disk} (unloaded : d.loaded = false)
    : Disk.Step d (.load, ⟨0, [], false⟩) ⟨true, fun _ => 0⟩
  | loadAgain {d : Disk} (loaded : d.loaded = true) : Disk.Step d (.load, ⟨-1, [], false⟩) d
  | unload {d : Disk} (loaded : d.loaded = true)
    : Disk.Step d (.unload, ⟨0, [], false⟩) ⟨false, fun _ => 0⟩
  | unloadAgain {d : Disk} (unloaded : d.loaded = false)
    : Disk.Step d (.unload, ⟨-1, [], false⟩) d
  | absentRead {d : Disk} {off n : BitVec 32} (unloaded : d.loaded = false)
    : Disk.Step d (.read off n, ⟨-1, [], false⟩) d
  | absentWrite {d : Disk} {src : Nat → Byte} {off n : BitVec 32} (unloaded : d.loaded = false)
    : Disk.Step d (.write src off n, ⟨-1, [], false⟩) d
  | read {d : Disk} {off n : BitVec 32} (loaded : d.loaded = true)
    : Disk.Step d
        (.read off n,
          ⟨BitVec.ofNat 32 (span off n),
            (List.range (span off n)).map fun i => d.bytes (off.toNat + i), false⟩)
        d
  | readFails {d : Disk} {off n : BitVec 32} {bytes : List Byte} (loaded : d.loaded = true)
    : Disk.Step d (.read off n, ⟨-1, bytes, true⟩) d
  | write {d : Disk} {src : Nat → Byte} {off n : BitVec 32} {r : Nat} {outOfMemory : Bool}
    (loaded : d.loaded = true) (bound : r ≤ span off n)
    (complete : outOfMemory = false → r = span off n)
    : Disk.Step d (.write src off n, ⟨BitVec.ofNat 32 r, [], outOfMemory⟩)
        ⟨true, put d.bytes off.toNat src 0 r⟩
  | writeFails {d : Disk} {src : Nat → Byte} {off n : BitVec 32} (loaded : d.loaded = true)
    : Disk.Step d (.write src off n, ⟨-1, [], true⟩) d

/-- A read of a loaded disk that finds memory returns the bytes of the array. -/
theorem Disk.Step.read_eq {d d' : Disk} {off n r : BitVec 32} {bytes : List Byte}
    (step : Disk.Step d (.read off n, ⟨r, bytes, false⟩) d') (loaded : d.loaded = true)
    : r = BitVec.ofNat 32 (span off n)
      ∧ bytes = (List.range (span off n)).map fun i => d.bytes (off.toNat + i) := by
  cases step with
  | absentRead unloaded => exact Bool.noConfusion (loaded.symm.trans unloaded)
  | read _ => exact ⟨rfl, rfl⟩

/-- A load that succeeds gives the array of zeros. -/
theorem Disk.Step.load_eq {d d' : Disk} (step : Disk.Step d (.load, ⟨0, [], false⟩) d')
    : d' = ⟨true, fun _ => 0⟩ := by
  cases step with
  | load _ => rfl

/-- A write to a loaded disk that finds memory changes the bytes it is for. -/
theorem Disk.Step.write_eq {d d' : Disk} {src : Nat → Byte} {off n r : BitVec 32}
    (step : Disk.Step d (.write src off n, ⟨r, [], false⟩) d') (loaded : d.loaded = true)
    : d' = ⟨true, put d.bytes off.toNat src 0 (span off n)⟩ := by
  cases step with
  | absentWrite unloaded => exact Bool.noConfusion (loaded.symm.trans unloaded)
  | write _ _ complete => rw [complete rfl]

theorem put_nothing (bytes : Nat → Byte) (off : Nat) (src : Nat → Byte) (first : Nat)
    : put bytes off src first first = bytes := by
  funext i
  rw [put, if_neg (by omega)]

/-- Bytes put in two parts. -/
theorem put_put (bytes : Nat → Byte) (off : Nat) (src : Nat → Byte) {first middle last : Nat}
    (before : first ≤ middle) (after : middle ≤ last)
    : put (put bytes off src first middle) off src middle last
      = put bytes off src first last := by
  funext i
  simp only [put]
  split_ifs <;> first | rfl | omega

-- Pages of the ramdisk

/-- The array that the pages stand for. -/
def contents (s : State) : Nat → Byte := fun i =>
  match s.pages (i / PGSIZE) with
  | none => 0
  | some pa => (s.phys.page pa).byte (i % PGSIZE)

def view (s : State) : Disk := ⟨s.loaded, contents s⟩

/-- A page that the allocator hands out. -/
def Frame (layout : Layout) (pa : Nat) : Prop := ∃ n, pa = 4096 * n ∧ InRam layout n

/-- The pages of the ramdisk and the free list share the `frames` between them. -/
structure Owns (layout : Layout) (frames : List Nat) (s : State) : Prop where
  distinct : frames.Nodup
  ram : ∀ pa ∈ frames, Frame layout pa
  conserved : (entries s.pages RD_PAGES ++ s.phys.freelist).Perm frames
  bounded : ∀ idx pa, s.pages idx = some pa → idx < RD_PAGES
  counted : ∀ idx pa, s.pages idx = some pa → s.phys.ref pa = 1

variable {layout : Layout} {frames : List Nat} {s : State} {idx pa : Nat}

namespace Owns

section

variable (owns : Owns layout frames s)
include owns

theorem mem_entries (here : s.pages idx = some pa) : pa ∈ entries s.pages RD_PAGES :=
  Library.mem_entries.mpr ⟨idx, owns.bounded idx pa here, here⟩

/-- The pages of the device are pages of RAM. -/
theorem frame (here : s.pages idx = some pa) : Frame layout pa :=
  owns.ram pa
    (owns.conserved.mem_iff.mp (List.mem_append_left _ (owns.mem_entries here)))

/-- No page is on the device twice, or on the device and free. -/
theorem nodup : (entries s.pages RD_PAGES ++ s.phys.freelist).Nodup :=
  owns.conserved.nodup_iff.mpr owns.distinct

theorem free_frame (free : pa ∈ s.phys.freelist) : Frame layout pa :=
  owns.ram pa (owns.conserved.mem_iff.mp (List.mem_append_right _ free))

theorem notFree (here : s.pages idx = some pa) : pa ∉ s.phys.freelist :=
  fun free => List.disjoint_of_nodup_append owns.nodup (owns.mem_entries here) free

/-- A page is at one place of the device. -/
theorem place {idx' : Nat} (here : s.pages idx = some pa) (there : s.pages idx' = some pa)
    : idx = idx' :=
  entries_place (List.Nodup.of_append_left owns.nodup) (owns.bounded _ _ here)
    (owns.bounded _ _ there) here there

end

end Owns

/-- Different pages have different numbers. -/
theorem Frame.number_ne {pa' : Nat} (frame : Frame layout pa) (frame' : Frame layout pa')
    (other : pa' ≠ pa)
    : pa' / 4096 ≠ pa / 4096 := by
  obtain ⟨n, rfl, _⟩ := frame
  obtain ⟨n', rfl, _⟩ := frame'
  omega

-- rd_walk

theorem onPhys_run {α : Type} {code : Kernel α} {value : α} {phys : Phys}
    (run : code s.phys = .ok (value, phys))
    : onPhys code s = .ok (value, { s with phys := phys }) := by
  rw [onPhys, run]

/-- `rd_walk` finds a page that is there. -/
theorem rdWalk_found (below : idx < RD_PAGES) (here : s.pages idx = some pa) (alloc : Bool)
    : rdWalk idx alloc s = .ok (some pa, s) := by
  rw [rdWalk, if_neg (Nat.not_le.mpr below), bind_ok (get_run s), here]
  rfl

/-- It does not allocate unless it is told to. -/
theorem rdWalk_hole (below : idx < RD_PAGES) (empty : s.pages idx = none)
    : rdWalk idx false s = .ok (none, s) := by
  rw [rdWalk, if_neg (Nat.not_le.mpr below), bind_ok (get_run s), empty]
  rfl

/-- The state after a `kalloc` that has failed. -/
def State.full (s : State) : State := { s with phys := { s.phys with exhausted := true } }

/-- `kalloc` without memory. -/
theorem kalloc_full (list : s.phys.freelist = []) : onPhys kalloc s = .ok (none, s.full) := by
  have run : kalloc s.phys = .ok (none, { s.phys with exhausted := true }) := by
    simp [kalloc, list]
  exact onPhys_run run

/-- `rd_walk` without memory. -/
theorem rdWalk_full (below : idx < RD_PAGES) (empty : s.pages idx = none)
    (list : s.phys.freelist = [])
    : rdWalk idx true s = .ok (none, s.full) := by
  rw [rdWalk, if_neg (Nat.not_le.mpr below), bind_ok (get_run s), empty]
  dsimp only
  rw [if_pos rfl, bind_ok (kalloc_full list)]
  rfl

/-- The state with page `n` of the free list as a new page of the ramdisk. -/
def State.addPage (s : State) (idx n : Nat) (rest : List Nat) : State where
  phys := { s.phys.taken n rest with
    mem := update (s.phys.taken n rest).mem n (pageOf 0) }
  loaded := s.loaded
  pages := update s.pages idx (some (4096 * n))

/-- `rd_walk` fills a hole with a page of zeros. -/
theorem rdWalk_alloc (below : idx < RD_PAGES) (empty : s.pages idx = none)
    (list : s.phys.freelist = 4096 * n :: rest)
    : rdWalk idx true s = .ok (some (4096 * n), s.addPage idx n rest) := by
  rw [rdWalk, if_neg (Nat.not_le.mpr below), bind_ok (get_run s), empty]
  dsimp only
  rw [if_pos rfl, bind_ok (onPhys_run (kalloc_run list))]
  dsimp only
  rw [bind_ok (onPhys_run (zeroPage_run _ n))]
  rfl

/-- The write does not leave the device. -/
theorem page_lt {off n total : Nat} (fits : off + n ≤ RD_SIZE) (more : total < n)
    : (off + total) / 4096 < RD_PAGES := by
  have size : RD_SIZE = 4096 * RD_PAGES := rfl
  exact Nat.div_lt_of_lt_mul (by omega)

theorem Owns.first_free (owns : Owns layout frames s) (list : s.phys.freelist = pa :: rest)
    : ∃ n, pa = 4096 * n ∧ InRam layout n :=
  owns.free_frame (by rw [list]; exact List.mem_cons_self)

/-- The first page of the free list is none of the pages of the ramdisk. -/
theorem Owns.other_page (owns : Owns layout frames s) (list : s.phys.freelist = 4096 * n :: rest)
    (held : s.pages idx = some pa)
    : pa / 4096 ≠ n := by
  have free : 4096 * n ∈ s.phys.freelist := by
    rw [list]
    exact List.mem_cons_self
  have other : pa ≠ 4096 * n := fun same => owns.notFree held (same ▸ free)
  have number := (owns.free_frame free).number_ne (owns.frame held) other
  rwa [Nat.mul_div_cancel_left n (by decide)] at number

/-- A page moves from the free list to the device. -/
theorem Owns.addPage (owns : Owns layout frames s) (below : idx < RD_PAGES)
    (empty : s.pages idx = none) (list : s.phys.freelist = 4096 * n :: rest)
    : Owns layout frames (s.addPage idx n rest) := by
  refine ⟨owns.distinct, owns.ram, ?_, fun j pa' there => ?_, fun j pa' there => ?_⟩
  · have moved : (4096 * n :: entries s.pages RD_PAGES ++ rest).Perm
        (entries s.pages RD_PAGES ++ s.phys.freelist) := by
      rw [list]
      exact List.perm_middle.symm
    exact ((entries_insert below empty).append_right rest).trans (moved.trans owns.conserved)
  · by_cases here : j = idx
    · exact here ▸ below
    · exact owns.bounded j pa' ((update_of_ne here ..).symm.trans there)
  · by_cases here : j = idx
    · subst here
      cases (update_self ..).symm.trans there
      simp [Phys.ref, State.addPage, Phys.taken]
    · have held : s.pages j = some pa' := (update_of_ne here ..).symm.trans there
      rw [← owns.counted j pa' held]
      exact update_of_ne (owns.other_page list held) ..

/-- The contents are those of the pages. -/
theorem contents_congr {s' : State} (pages : s'.pages = s.pages)
    (same : ∀ idx pa, s.pages idx = some pa → s'.phys.page pa = s.phys.page pa)
    : contents s' = contents s := by
  funext i
  simp only [contents, pages]
  cases here : s.pages (i / PGSIZE) with
  | none => rfl
  | some pa => simp only [same _ pa here]

/-- A page of zeros reads as the hole did. -/
theorem Owns.addPage_contents (owns : Owns layout frames s) (empty : s.pages idx = none)
    (list : s.phys.freelist = 4096 * n :: rest)
    : contents (s.addPage idx n rest) = contents s := by
  funext i
  simp only [contents, State.addPage]
  by_cases here : i / PGSIZE = idx
  · rw [here, empty]
    simp [byte_zero]
  · rw [update_of_ne here]
    cases held : s.pages (i / PGSIZE) with
    | none => rfl
    | some pa =>
      simp [Phys.page, Phys.taken, update_of_ne (owns.other_page list held)]

-- rd_write

/-- The state with bytes stored in a page. -/
def State.store (s : State) (pa offset : Nat) (bytes : List Byte) : State :=
  { s with phys := s.phys.setPage pa ((s.phys.page pa).write offset bytes) }

/-- Storing bytes moves no page. -/
theorem Owns.store (owns : Owns layout frames s) (pa offset : Nat) (bytes : List Byte)
    : Owns layout frames (s.store pa offset bytes) :=
  ⟨owns.distinct, owns.ram, owns.conserved, owns.bounded, owns.counted⟩

/-- The chunk of a transfer that begins at byte `pos` of the disk. -/
theorem Owns.store_contents (owns : Owns layout frames s) {bytes : Nat → Byte}
    (here : s.pages (pos / 4096) = some pa) (fits : pos % 4096 + m ≤ 4096)
    : contents (s.store pa (pos % 4096) ((List.range m).map bytes))
      = fun i => if pos ≤ i ∧ i < pos + m then bytes (i - pos) else contents s i := by
  have length : ((List.range m).map bytes).length = m := by simp
  funext i
  have offset : i % 4096 < 4096 := Nat.mod_lt _ (by decide)
  by_cases same : i / 4096 = pos / 4096
  · have page : (s.store pa (pos % 4096) ((List.range m).map bytes)).phys.page pa
        = (s.phys.page pa).write (pos % 4096) ((List.range m).map bytes) := by
      simp [State.store, Phys.page, Phys.setPage]
    have pages : (s.store pa (pos % 4096) ((List.range m).map bytes)).pages = s.pages := rfl
    simp only [contents, pages, same, here, page]
    rw [byte_write _ (by rw [length]; exact fits) offset, length]
    by_cases inside : pos ≤ i ∧ i < pos + m
    · have place : i % 4096 - pos % 4096 = i - pos := by omega
      have less : i - pos < m := by omega
      rw [if_pos (by omega), if_pos inside, place]
      simp [List.getD, less]
    · rw [if_neg (by omega), if_neg inside]
  · rw [if_neg (by omega)]
    have pages : (s.store pa (pos % 4096) ((List.range m).map bytes)).pages = s.pages := rfl
    simp only [contents, pages]
    cases held : s.pages (i / 4096) with
    | none => rfl
    | some pa' =>
      have other : pa' ≠ pa := fun isSame => same (owns.place held (isSame ▸ here))
      have number := (owns.frame here).number_ne (owns.frame held) other
      simp [State.store, Phys.page, Phys.setPage, update_of_ne number]

/-- What `rd_walk` with `alloc` comes to: it has a page for the index, or memory is out. -/
inductive Walked (layout : Layout) (frames : List Nat) (s : State) (idx : Nat)
    : Option Nat × State → Prop
  | found (pa : Nat) (s' : State) (owns : Owns layout frames s') (loaded : s'.loaded = s.loaded)
    (here : s'.pages idx = some pa) (same : contents s' = contents s)
    (exhausted : s'.phys.exhausted = s.phys.exhausted)
    : Walked layout frames s idx (some pa, s')
  | failed : Walked layout frames s idx (none, s.full)

/-- The pages that the ramdisk has stay. -/
def Keeps (dev dev' : State) : Prop :=
  ∀ idx, (dev.pages idx).isSome = true → (dev'.pages idx).isSome = true

/-- What `rd_walk` does, by what it finds. -/
theorem Owns.rdWalk (owns : Owns layout frames s) (below : idx < RD_PAGES)
    : ∃ result, rdWalk idx true s = .ok result ∧ Walked layout frames s idx result
      ∧ Keeps s result.2 := by
  cases here : s.pages idx with
  | some pa =>
    exact ⟨_, rdWalk_found below here true, .found pa s owns rfl here rfl rfl,
      fun _ present => present⟩
  | none =>
    cases list : s.phys.freelist with
    | nil => exact ⟨_, rdWalk_full below here list, .failed, fun _ present => present⟩
    | cons pa rest =>
      obtain ⟨n, rfl, _⟩ := owns.first_free list
      refine ⟨_, rdWalk_alloc below here list,
        .found _ _ (owns.addPage below here list) rfl (update_self ..)
          (owns.addPage_contents here list) rfl, fun other present => ?_⟩
      by_cases same : other = idx
      · subst same
        simp [State.addPage]
      · simpa [State.addPage, update_of_ne same] using present

theorem Owns.full (owns : Owns layout frames s) : Owns layout frames s.full :=
  ⟨owns.distinct, owns.ram, owns.conserved, owns.bounded, owns.counted⟩

/-- What the loop of `rd_write` comes to, from byte `total` on. -/
structure Written (layout : Layout) (frames : List Nat) (s : State) (src : Nat → Byte)
    (off n total : Nat) (r : BitVec 32) (s' : State)
    : Prop where
  owns : Owns layout frames s'
  loaded : s'.loaded = s.loaded
  stored : ∃ last, total ≤ last ∧ last ≤ n
    ∧ contents s' = put (contents s) off src total last
    ∧ (s'.phys.exhausted = false → last = n)
    ∧ (r = BitVec.ofNat 32 last ∨ (r = -1 ∧ last = 0 ∧ s'.phys.exhausted = true))

/-- Every byte that the loop has written is on a page of the ramdisk. -/
structure Placed (s : State) (off n total : Nat) (r : BitVec 32) (s' : State) : Prop where
  kept : Keeps s s'
  present : ∃ last ≤ n, (r = BitVec.ofNat 32 last ∨ r = -1)
    ∧ ∀ i, total ≤ i → i < last → (s'.pages ((off + i) / 4096)).isSome = true

/-- The loop stops with what it has placed. -/
theorem Placed.stop {s' : State} {off total : Nat} {r : BitVec 32} (same : s'.pages = s.pages)
    (most : total ≤ n) (result : r = BitVec.ofNat 32 total ∨ r = -1)
    : Placed s off n total r s' :=
  ⟨fun idx present => by rwa [same], total, most, result, fun _ from_ upTo => by omega⟩

/-- The loop of `rd_write`, by induction on its rounds: the bytes before `total` are placed. -/
theorem Owns.rdWriteLoop (owns : Owns layout frames s) {src : Nat → Byte} {off n rounds total : Nat}
    (fits : off + n ≤ RD_SIZE) (most : total ≤ n) (enough : n ≤ total + rounds)
    : ∃ r s', rdWriteLoop src off n rounds total s = .ok (r, s')
      ∧ Written layout frames s src off n total r s' ∧ Placed s off n total r s' := by
  induction rounds generalizing total s with
  | zero =>
    have done : total = n := by omega
    exact ⟨_, s, rfl, ⟨owns, rfl, total, Nat.le_refl _, most, (put_nothing ..).symm,
      fun _ => done, .inl rfl⟩, .stop rfl most (.inl rfl)⟩
  | succ rounds ih =>
    rw [Ramdisk.rdWriteLoop]
    by_cases more : total < n
    · rw [if_pos more]
      have below := page_lt fits more
      have offset : (off + total) % 4096 < 4096 := Nat.mod_lt _ (by decide)
      obtain ⟨result, run, walked, keeps⟩ := owns.rdWalk below
      rw [bind_ok run]
      cases walked with
      | failed =>
        refine ⟨_, _, rfl, ⟨owns.full, rfl, total, Nat.le_refl _, most,
          (put_nothing ..).symm, Bool.noConfusion, ?_⟩, ?_⟩
        · by_cases some : 0 < total
          · exact .inl (if_pos some)
          · exact .inr ⟨if_neg some, by omega, rfl⟩
        · exact .stop rfl most (ite_eq_or_eq ..)
      | found pa s₁ owns₁ loaded here same exhausted =>
        set m := min (4096 - (off + total) % 4096) (n - total) with isMin
        dsimp only
        have stored : onPhys (storeBytes pa ((off + total) % 4096)
            ((List.range m).map fun i => src (total + i))) s₁
            = .ok ((), s₁.store pa ((off + total) % 4096)
                ((List.range m).map fun i => src (total + i))) := rfl
        rw [bind_ok stored]
        have positive : 0 < m := by omega
        obtain ⟨r, s', run', written, kept, placed⟩ :=
          ih (owns₁.store pa _ ((List.range m).map fun i => src (total + i)))
            (show total + m ≤ n by omega) (by omega)
        obtain ⟨last, from_, upTo, bytes, complete, result⟩ := written.stored
        refine ⟨r, s', run', ⟨written.owns, written.loaded.trans loaded, last, by omega, upTo,
          ?_, complete, result⟩, fun idx present => kept idx (keeps idx present), ?_⟩
        · rw [bytes, owns₁.store_contents here (by omega), same,
            ← put_put (contents s) off src (show total ≤ total + m by omega) from_]
          congr 1
          funext i
          rw [put]
          by_cases inside : off + total ≤ i ∧ i < off + total + m
          · rw [if_pos inside, if_pos (by omega)]
            congr 1
            omega
          · rw [if_neg inside, if_neg (by omega)]
        · obtain ⟨last, most, result, rest⟩ := placed
          refine ⟨last, most, result, fun i from_ upTo => ?_⟩
          by_cases inside : i < total + m
          · rw [show (off + i) / 4096 = (off + total) / 4096 by omega]
            exact kept _ (Option.isSome_of_mem here)
          · exact rest i (by omega) upTo
    · rw [if_neg more]
      have done : total = n := by omega
      exact ⟨_, s, rfl, ⟨owns, rfl, total, Nat.le_refl _, most, (put_nothing ..).symm,
        fun _ => done, .inl rfl⟩, .stop rfl most (.inl rfl)⟩

-- rd_read

/-- The state after a page was taken for a hole and given back. -/
def State.borrowed (s : State) (n : Nat) (rest : List Nat) : State :=
  { s with
    phys := { s.phys.taken n rest with
      mem := update (s.phys.taken n rest).mem n (pageOf 0) }.release n }

/-- The page that `rd_read` borrows for a hole is given back. -/
theorem Owns.borrowed (owns : Owns layout frames s) (list : s.phys.freelist = 4096 * n :: rest)
    : Owns layout frames (s.borrowed n rest) ∧ contents (s.borrowed n rest) = contents s := by
  have lists : (s.borrowed n rest).phys.freelist = s.phys.freelist := by
    simp [State.borrowed, Phys.release, Phys.taken, list]
  refine ⟨⟨owns.distinct, owns.ram, ?_, owns.bounded, fun idx pa held => ?_⟩,
    contents_congr rfl fun idx pa held => ?_⟩
  · rw [lists]
    exact owns.conserved
  · rw [← owns.counted idx pa held]
    simp [State.borrowed, Phys.ref, Phys.release, Phys.taken,
      update_of_ne (owns.other_page list held)]
  · simp [State.borrowed, Phys.page, Phys.release, Phys.taken,
      update_of_ne (owns.other_page list held)]

/-- One chunk of the array. -/
def chunk (bytes : Nat → Byte) (pos m : Nat) : List Byte :=
  (List.range m).map fun i => bytes (pos + i)

/-- Two chunks in a row. -/
theorem chunk_append (bytes : Nat → Byte) (pos m k : Nat)
    : chunk bytes pos m ++ chunk bytes (pos + m) k = chunk bytes pos (m + k) := by
  simp [chunk, List.range_add, Nat.add_assoc]

/-- A hole reads as zeros. -/
theorem chunk_hole (empty : s.pages (pos / 4096) = none) (fits : pos % 4096 + m ≤ 4096)
    : chunk (contents s) pos m = (List.range m).map fun i => (pageOf 0).byte (0 + i) := by
  refine List.map_congr_left fun i member => ?_
  have less := List.mem_range.mp member
  have page : (pos + i) / 4096 = pos / 4096 := by omega
  simp only [contents, page, empty, byte_zero]

/-- A page reads as its bytes. -/
theorem chunk_page (here : s.pages (pos / 4096) = some pa) (fits : pos % 4096 + m ≤ 4096)
    : chunk (contents s) pos m
      = (List.range m).map fun i => (s.phys.page pa).byte (pos % 4096 + i) := by
  refine List.map_congr_left fun i member => ?_
  have less := List.mem_range.mp member
  have page : (pos + i) / 4096 = pos / 4096 := by omega
  have offset : (pos + i) % 4096 = pos % 4096 + i := by omega
  simp only [contents, page, here, offset]

/-- What the loop of `rd_read` comes to. -/
structure HasRead (layout : Layout) (frames : List Nat) (s : State) (off n : Nat)
    (result : BitVec 32 × List Byte) (s' : State)
    : Prop where
  owns : Owns layout frames s'
  loaded : s'.loaded = s.loaded
  same : contents s' = contents s
  copied : (result = (BitVec.ofNat 32 n, chunk (contents s) off n)
      ∧ s'.phys.exhausted = s.phys.exhausted)
    ∨ (result.1 = -1 ∧ s'.phys.exhausted = true)

/-- The loop of `rd_read`, by induction on its rounds: the bytes before `total` are copied. -/
theorem Owns.rdReadLoop (owns : Owns layout frames s) {off n rounds total : Nat}
    (fits : off + n ≤ RD_SIZE) (most : total ≤ n) (enough : n ≤ total + rounds)
    : ∃ result s',
        rdReadLoop layout off n rounds total (chunk (contents s) off total) s = .ok (result, s')
        ∧ HasRead layout frames s off n result s' := by
  induction rounds generalizing total s with
  | zero =>
    have done : total = n := by omega
    subst done
    exact ⟨_, s, rfl, owns, rfl, rfl, .inl ⟨rfl, rfl⟩⟩
  | succ rounds ih =>
    rw [Ramdisk.rdReadLoop]
    by_cases more : total < n
    · rw [if_pos more]
      have below := page_lt fits more
      have offset : (off + total) % 4096 < 4096 := Nat.mod_lt _ (by decide)
      set m := min (4096 - (off + total) % 4096) (n - total) with isMin
      -- Both ways to get a chunk go on from here.
      have next {s₁ : State} (owns₁ : Owns layout frames s₁) (loaded : s₁.loaded = s.loaded)
          (same : contents s₁ = contents s)
          (exhausted : s₁.phys.exhausted = s.phys.exhausted)
          : ∃ result s',
              Ramdisk.rdReadLoop layout off n rounds (total + m)
                (chunk (contents s) off total ++ chunk (contents s) (off + total) m) s₁
                = .ok (result, s')
              ∧ HasRead layout frames s off n result s' := by
        obtain ⟨result, s', run, hasRead⟩ :=
          ih owns₁ (show total + m ≤ n by omega) (by omega)
        rw [same] at run
        refine ⟨result, s', ?_, hasRead.owns, hasRead.loaded.trans loaded,
          hasRead.same.trans same, ?_⟩
        · rw [chunk_append]
          exact run
        · rw [← same, ← exhausted]
          exact hasRead.copied
      cases here : s.pages ((off + total) / 4096) with
      | some pa =>
        rw [bind_ok (rdWalk_found below here false)]
        dsimp only
        have load : onPhys (loadBytes pa ((off + total) % 4096) m) s
            = .ok (chunk (contents s) (off + total) m, s) := by
          rw [chunk_page here (by omega)]
          rfl
        rw [bind_ok load]
        exact next owns rfl rfl rfl
      | none =>
        rw [bind_ok (rdWalk_hole below here)]
        dsimp only
        cases list : s.phys.freelist with
        | nil =>
          rw [bind_ok (kalloc_full list)]
          exact ⟨_, _, rfl, owns.full, rfl, rfl, .inr ⟨rfl, rfl⟩⟩
        | cons pa rest =>
          obtain ⟨k, rfl, ram⟩ := owns.first_free list
          rw [bind_ok (onPhys_run (kalloc_run list))]
          dsimp only
          rw [bind_ok (onPhys_run (zeroPage_run _ k))]
          have load {phys : Phys} (zero : phys.page (4096 * k) = pageOf 0)
              : loadBytes (4096 * k) 0 m phys
                = .ok (chunk (contents s) (off + total) m, phys) := by
            rw [chunk_hole here (by omega), loadBytes, zero]
          rw [bind_ok (onPhys_run (load (by simp)))]
          rw [bind_ok (onPhys_run (kfree_run ram (by simp [Phys.taken])))]
          obtain ⟨owns₁, same⟩ := owns.borrowed list
          exact next owns₁ rfl same rfl
    · rw [if_neg more]
      have done : total = n := by omega
      subst done
      exact ⟨_, s, rfl, owns, rfl, rfl, .inl ⟨rfl, rfl⟩⟩

-- sys_unload_ramdisk

/-- The state after a page of the ramdisk was freed. -/
def State.freePage (s : State) (i n : Nat) : State :=
  { s with phys := s.phys.release n, pages := update s.pages i none }

/-- A page moves from the device to the free list. -/
theorem Owns.freePage (owns : Owns layout frames s) {i : Nat} (here : s.pages i = some (4096 * n))
    : Owns layout frames (s.freePage i n) := by
  have last : s.phys.refCount n = 1 := by
    simpa [Phys.ref] using owns.counted i _ here
  refine ⟨owns.distinct, owns.ram, ?_, fun j pa there => ?_, fun j pa there => ?_⟩
  · have list : (s.freePage i n).phys.freelist = 4096 * n :: s.phys.freelist := by
      simp [State.freePage, Phys.release, last]
    rw [list]
    refine List.perm_middle.trans (List.Perm.trans ?_ owns.conserved)
    exact (entries_remove (owns.bounded i _ here) here).symm.append_right _
  all_goals
    have other : j ≠ i := by
      rintro rfl
      cases (update_self ..).symm.trans there
    have held : s.pages j = some pa := (update_of_ne other ..).symm.trans there
  · exact owns.bounded j pa held
  · have different : pa ≠ 4096 * n := fun same => other (owns.place held (same ▸ here))
    have number := (owns.frame here).number_ne (owns.frame held) different
    rw [Nat.mul_div_cancel_left n (by decide)] at number
    rw [← owns.counted j pa held]
    exact update_of_ne number ..

/-- The loop of `rd_unload`, by induction on the pages that are left. -/
theorem Owns.freePages (owns : Owns layout frames s) {count i : Nat} (all : i + count = RD_PAGES)
    (done : ∀ j < i, s.pages j = none)
    : ∃ s', freePages layout count i s = .ok ((), s') ∧ Owns layout frames s'
      ∧ s'.loaded = s.loaded ∧ (∀ j, s'.pages j = none)
      ∧ s'.phys.exhausted = s.phys.exhausted := by
  induction count generalizing i s with
  | zero =>
    refine ⟨s, rfl, owns, rfl, fun j => ?_, rfl⟩
    cases here : s.pages j with
    | none => rfl
    | some pa =>
      have below := owns.bounded j pa here
      rw [← here]
      exact done j (by omega)
  | succ count ih =>
    rw [Ramdisk.freePages, bind_ok (get_run s)]
    have passed {s' : State} (others : ∀ j, j ≠ i → s'.pages j = s.pages j)
        (here : s'.pages i = none) (j : Nat) (less : j < i + 1)
        : s'.pages j = none := by
      by_cases same : j = i
      · rw [same, here]
      · rw [others j same]
        exact done j (by omega)
    cases here : s.pages i with
    | none => exact ih owns (by omega) (passed (fun _ _ => rfl) here)
    | some pa =>
      obtain ⟨n, rfl, ram⟩ := owns.frame here
      have counted : 0 < s.phys.refCount n := by
        have := owns.counted i _ here
        rw [Phys.ref, Nat.mul_div_cancel_left n (by decide)] at this
        omega
      dsimp only
      rw [bind_ok (onPhys_run (kfree_run ram counted))]
      exact ih (owns.freePage here) (by omega)
        (passed (fun j other => update_of_ne other ..) (update_self ..))

-- Calls

/-- Between two calls an unloaded ramdisk has no pages. -/
structure Ready (layout : Layout) (frames : List Nat) (s : State) : Prop where
  owns : Owns layout frames s
  unloaded : s.loaded = false → ∀ idx, s.pages idx = none

/-- A device without pages reads as zeros. -/
theorem contents_unloaded (empty : ∀ idx, s.pages idx = none) : contents s = fun _ => 0 := by
  funext i
  simp only [contents, empty]

theorem Owns.fresh (owns : Owns layout frames s) : Owns layout frames s.fresh :=
  ⟨owns.distinct, owns.ram, owns.conserved, owns.bounded, owns.counted⟩

/-- The count of a transfer after the first tests. -/
theorem clamp_eq_span {n : BitVec 32} (start : off.toNat < RD_SIZE) (count : 0 ≤ n.toInt)
    : (clamp off n).toInt.toNat = span off n := by
  have size : RD_SIZE = 268435456 := rfl
  have isInt (x : BitVec 32) (small : x.toNat < 2 ^ 31) : x.toInt.toNat = x.toNat := by
    rw [BitVec.toInt_eq_toNat_of_lt (by omega), Int.toNat_natCast]
  have positive : n.toNat < 2 ^ 31 := by
    have value := BitVec.toInt_eq_toNat_cond n
    split_ifs at value <;> omega
  have sum : (off + n).toNat = off.toNat + n.toNat := by
    rw [BitVec.toNat_add, Nat.mod_eq_of_lt (by omega)]
  have rest : (BitVec.ofNat 32 RD_SIZE - off).toNat = RD_SIZE - off.toNat :=
    BitVec.toNat_sub_of_le (BitVec.le_def.mpr (Nat.le_of_lt start))
  unfold clamp span
  split_ifs with past
  · rw [isInt _ (by omega)]
    omega
  · rw [isInt n positive]
    omega

/-- The call returns, and does to the ramdisk what it would do to an array. -/
def Answers (layout : Layout) (frames : List Nat) (s : State) (action : Action) : Prop :=
  ∃ r bytes s', action.run layout s.fresh = .ok ((r, bytes), s') ∧ Ready layout frames s'
    ∧ Disk.Step (view s) (action, ⟨r, bytes, s'.phys.exhausted⟩) (view s')

/-- `rd_load` does to the array what it does to the device. -/
theorem Ready.load (ready : Ready layout frames s) : Answers layout frames s .load := by
  have owns := ready.owns.fresh
  by_cases loaded : s.fresh.loaded = true
  · refine ⟨-1, [], s.fresh, ?_, ⟨owns, ready.unloaded⟩, .loadAgain loaded⟩
    simp only [Action.run, sysLoadRamdisk, bind_assoc]
    rw [bind_ok (get_run _), if_pos loaded]
    rfl
  · have unloaded : s.loaded = false := eq_false_of_ne_true loaded
    refine ⟨0, [], { s.fresh with loaded := true }, ?_,
      ⟨⟨owns.distinct, owns.ram, owns.conserved, owns.bounded, owns.counted⟩,
        Bool.noConfusion⟩, ?_⟩
    · simp only [Action.run, sysLoadRamdisk, bind_assoc]
      rw [bind_ok (get_run _), if_neg loaded]
      rfl
    · have isView : view { s.fresh with loaded := true } = ⟨true, fun _ => 0⟩ :=
        congrArg (Disk.mk true) (contents_unloaded (ready.unloaded unloaded))
      rw [isView]
      exact .load unloaded

/-- So does `rd_unload`. -/
theorem Ready.unload (ready : Ready layout frames s) : Answers layout frames s .unload := by
  have owns := ready.owns.fresh
  by_cases loaded : s.fresh.loaded = true
  · have off : Owns layout frames { s.fresh with loaded := false } :=
      ⟨owns.distinct, owns.ram, owns.conserved, owns.bounded, owns.counted⟩
    obtain ⟨s', run, owns', same, empty, exhausted⟩ :=
      off.freePages (Nat.zero_add _) (fun j less => absurd less (Nat.not_lt_zero j))
    refine ⟨0, [], s', ?_, ⟨owns', fun _ => empty⟩, ?_⟩
    · simp only [Action.run, sysUnloadRamdisk, bind_assoc]
      rw [bind_ok (get_run _), if_pos loaded]
      have turnedOff : setLoaded false s.fresh = .ok ((), { s.fresh with loaded := false }) := rfl
      simp only [bind_assoc]
      rw [bind_ok turnedOff, bind_ok run]
      rfl
    · have isView : view s' = ⟨false, fun _ => 0⟩ := by
        rw [view, contents_unloaded empty, same]
      have fine : s'.phys.exhausted = false := exhausted
      rw [isView, fine]
      exact .unload loaded
  · refine ⟨-1, [], s.fresh, ?_, ⟨owns, ready.unloaded⟩, .unloadAgain (eq_false_of_ne_true loaded)⟩
    simp only [Action.run, sysUnloadRamdisk, bind_assoc]
    rw [bind_ok (get_run _), if_neg loaded]
    rfl

theorem absent_iff (start : off.toNat < RD_SIZE)
    : (s.loaded = false ∨ RD_SIZE ≤ off.toNat) ↔ s.loaded = false :=
  or_iff_left (Nat.not_le.mpr start)

section

variable (ready : Ready layout frames s)
include ready

/-- So does `rd_read`. -/
theorem Ready.read {n : BitVec 32} (start : off.toNat < RD_SIZE) (count : 0 ≤ n.toInt)
    : Answers layout frames s (.read off n) := by
  have owns := ready.owns.fresh
  by_cases unloaded : s.fresh.loaded = false
  · refine ⟨-1, [], s.fresh, ?_, ⟨owns, ready.unloaded⟩, .absentRead unloaded⟩
    rw [Action.run, rdRead, bind_ok (get_run _), if_pos (.inl unloaded)]
    rfl
  · have loaded : s.loaded = true := eq_true_of_ne_false unloaded
    have fits : off.toNat + span off n ≤ RD_SIZE := by
      unfold span
      omega
    obtain ⟨⟨r, bytes⟩, s', run, hasRead⟩ :=
      owns.rdReadLoop fits (Nat.zero_le _) (Nat.le_add_left _ 0)
    have stillLoaded : s'.loaded = true := hasRead.loaded.trans loaded
    have same : view s' = view s := by
      rw [view, hasRead.same, hasRead.loaded]
      rfl
    refine ⟨r, bytes, s', ?_, ⟨hasRead.owns, fun off => ?_⟩, ?_⟩
    · rw [Action.run, rdRead, bind_ok (get_run _),
        if_neg (by rw [absent_iff start]; exact unloaded),
        clamp_eq_span start count]
      exact run
    · rw [stillLoaded] at off
      cases off
    · rw [same]
      rcases hasRead.copied with ⟨whole, fine⟩ | ⟨failed, out⟩
      · cases whole
        rw [fine]
        exact .read loaded
      · cases failed
        rw [out]
        exact .readFails loaded

/-- So does `rd_write`. -/
theorem Ready.write {src : Nat → Byte} {n : BitVec 32} (start : off.toNat < RD_SIZE)
    (count : 0 ≤ n.toInt)
    : Answers layout frames s (.write src off n) := by
  have owns := ready.owns.fresh
  by_cases unloaded : s.fresh.loaded = false
  · refine ⟨-1, [], s.fresh, ?_, ⟨owns, ready.unloaded⟩, .absentWrite unloaded⟩
    rw [Action.run, rdWrite, bind_assoc, bind_ok (get_run _), if_pos (.inl unloaded)]
    rfl
  · have loaded : s.loaded = true := eq_true_of_ne_false unloaded
    have fits : off.toNat + span off n ≤ RD_SIZE := by
      unfold span
      omega
    obtain ⟨r, s', run, written, _⟩ :=
      @Owns.rdWriteLoop layout frames s.fresh owns src off.toNat (span off n) (span off n) 0 fits
        (Nat.zero_le _) (Nat.le_add_left _ 0)
    have stillLoaded : s'.loaded = true := written.loaded.trans loaded
    refine ⟨r, [], s', ?_, ⟨written.owns, fun off => ?_⟩, ?_⟩
    · rw [Action.run, rdWrite, bind_assoc, bind_ok (get_run _),
        if_neg (by rw [absent_iff start]; exact unloaded)]
      rw [clamp_eq_span start count, bind_ok run]
      rfl
    · rw [stillLoaded] at off
      cases off
    · obtain ⟨last, _, bound, bytes, complete, result⟩ := written.stored
      have isView : view s' = ⟨true, put (view s).bytes off.toNat src 0 last⟩ := by
        rw [view, bytes, stillLoaded]
        rfl
      rw [isView]
      rcases result with rfl | ⟨rfl, rfl, out⟩
      · exact .write loaded bound complete
      · have same : (⟨true, put (view s).bytes off.toNat src 0 0⟩ : Disk) = view s := by
          rw [put_nothing, view, loaded]
        rw [same, out]
        exact .writeFails loaded

/-- Every call does. -/
theorem Ready.answers {action : Action} (valid : action.Valid)
    : Answers layout frames s action := by
  cases action with
  | load => exact ready.load
  | unload => exact ready.unload
  | read off n => exact ready.read valid.1 valid.2
  | write src off n => exact ready.write valid.1 valid.2

/-- Every step of the device is a step of the array. -/
theorem Ready.step {after : State} {step : Action × Outcome} (taken : Step layout s step after)
    : Ready layout frames after ∧ Disk.Step (view s) step (view after) := by
  obtain ⟨action, r, bytes, outOfMemory⟩ := step
  obtain ⟨valid, run, out⟩ := taken
  obtain ⟨r', bytes', s', run', ready', abstract⟩ := ready.answers valid
  cases run.symm.trans run'
  cases out
  exact ⟨ready', abstract⟩

end

/-- The state of `rd_dev` after `rd_init`, with an allocator whose free pages are distinct pages
of memory.
-/
structure Booted (layout : Layout) (s : State) : Prop where
  unloaded : s.loaded = false
  empty : ∀ idx, s.pages idx = none
  distinct : s.phys.freelist.Nodup
  ram : ∀ pa ∈ s.phys.freelist, Frame layout pa

theorem Booted.ready (booted : Booted layout s) : Ready layout s.phys.freelist s where
  owns :=
    { distinct := booted.distinct
      ram := booted.ram
      conserved := by
        rw [entries_none booted.empty]
        exact .refl _
      bounded := fun idx pa here => by
        rw [booted.empty] at here
        cases here
      counted := fun idx pa here => by
        rw [booted.empty] at here
        cases here }
  unloaded := fun _ => booted.empty

abbrev History := List ((Action × Outcome) × State)

/-- Every sequence of calls is one of calls on an array of bytes. The pages of the ramdisk and the
free pages are together always the pages that were free at the start; after an unload they are
all free again. Every call returns.
-/
theorem ramdisk_refines_byte_array {start final : State} {history : History}
    (booted : Booted layout start) (run : Run (Step layout) start history final)
    : Run Disk.Step ⟨false, fun _ => 0⟩ (history.map fun entry => (entry.1, view entry.2))
        (view final)
      ∧ (entries final.pages RD_PAGES ++ final.phys.freelist).Perm start.phys.freelist
      ∧ (final.loaded = false → final.phys.freelist.Perm start.phys.freelist)
      ∧ ∀ action : Action, action.Valid
          → ∃ outcome after, Step layout final (action, outcome) after := by
  have reached
      : Ready layout start.phys.freelist final
        ∧ Run Disk.Step ⟨false, fun _ => 0⟩ (history.map fun entry => (entry.1, view entry.2))
            (view final) := by
    induction run with
    | nil =>
      have isView : view start = ⟨false, fun _ => 0⟩ := by
        rw [view, contents_unloaded booted.empty, booted.unloaded]
      rw [isView]
      exact ⟨booted.ready, .nil⟩
    | next _ taken ih =>
      obtain ⟨ready, abstract⟩ := ih.1.step taken
      exact ⟨ready, .next ih.2 abstract⟩
  obtain ⟨ready, abstract⟩ := reached
  refine ⟨abstract, ready.owns.conserved, fun unloaded => ?_, fun action valid => ?_⟩
  · have conserved := ready.owns.conserved
    rwa [entries_none (ready.unloaded unloaded)] at conserved
  · obtain ⟨r, bytes, after, ran, _⟩ := ready.answers valid
    exact ⟨⟨r, bytes, after.phys.exhausted⟩, after, valid, ran, rfl⟩

/-- A machine with one free page. -/
def oneFree : State where
  phys :=
    { mem := fun _ => 0, freelist := [KERNBASE + 4096], refCount := fun _ => 0
      exhausted := false }
  loaded := false
  pages := fun _ => none

/-- The kernel in the first page of memory. -/
def tinyKernel : Layout where
  kernelEnd := KERNBASE + 4096
  trampoline := KERNBASE
  trampoline_aligned := kernbase_aligned
  trampoline_kernel := by decide
  end_ram := by decide

theorem oneFree_booted : Booted tinyKernel oneFree where
  unloaded := rfl
  empty := fun _ => rfl
  distinct := List.nodup_singleton _
  ram := fun pa member => by
    rw [List.mem_singleton.mp member]
    exact ⟨(KERNBASE + 4096) / 4096, by decide, by decide, by decide⟩

/-- With one free page a load, a write of two bytes and a read around them find memory. -/
theorem oneFree_has_room
    : ∃ s₁ s₂ s₃ r bytes, Step tinyKernel oneFree (.load, ⟨0, [], false⟩) s₁
      ∧ Step tinyKernel s₁ (.write (fun _ => 7) 4094 2, ⟨2, [], false⟩) s₂
      ∧ Step tinyKernel s₂ (.read 4092 4, ⟨r, bytes, false⟩) s₃ :=
  ⟨_, _, _, _, _, ⟨trivial, rfl, rfl⟩, ⟨⟨by decide, by decide⟩, rfl, rfl⟩,
    ⟨by decide, by decide⟩, rfl, rfl⟩

/-- Witness: a load, a write of two bytes and a read around them, which returns the two bytes
after two zeros.
-/
theorem oneFree_reads_what_it_writes
    : ∃ s₁ s₂ s₃,
        Run (Step tinyKernel) oneFree
          [((.read 4092 4, ⟨4, [0, 0, 7, 7], false⟩), s₂),
            ((.write (fun _ => 7) 4094 2, ⟨2, [], false⟩), s₁),
            ((.load, ⟨0, [], false⟩), oneFree)] s₃
        ∧ Run Disk.Step ⟨false, fun _ => 0⟩
            [((.read 4092 4, ⟨4, [0, 0, 7, 7], false⟩), view s₂),
              ((.write (fun _ => 7) 4094 2, ⟨2, [], false⟩), view s₁),
              ((.load, ⟨0, [], false⟩), view oneFree)]
            (view s₃) := by
  obtain ⟨s₁, s₂, s₃, r, bytes, load, write, read⟩ := oneFree_has_room
  have all := Run.next (.next (.next .nil load) write) read
  have abstract := (ramdisk_refines_byte_array oneFree_booted all).1
  obtain ⟨rfl, rfl⟩ : r = 4 ∧ bytes = [0, 0, 7, 7] := by
    cases abstract with
    | next writes last =>
      cases writes with
      | next loads second =>
        cases loads with
        | next _ first =>
          have written := second.write_eq (by rw [first.load_eq])
          obtain ⟨count, data⟩ := last.read_eq (by rw [written])
          rw [written, first.load_eq] at data
          exact ⟨count.trans (by decide), data.trans (by decide)⟩
  exact ⟨s₁, s₂, s₃, all, abstract⟩

end Xv6.Ramdisk

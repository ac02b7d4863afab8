import Xv6.Vm.Exec
import Xv6.Vm.Spaces

/-! The image that `kexec` builds from a file. Whatever the file says, the image stays below the
trapframe, because memory runs out first; every page that a segment is loaded to has been
mapped; and an image that is given up again leaves no trace.
-/

namespace Xv6.Vm

open Function Library

variable {ι : Type} [Fintype ι] {layout : Layout} {s₀ s s' : Phys} {g : Ghost ι}
  {u u' : Ghost Unit} {r sz : Nat}

-- How much memory there is

/-- The pages between `KERNBASE` and `PHYSTOP`. -/
def ramPages : Nat := 2 ^ 17

theorem Inv.freelist_length (inv : Inv layout s g) : s.freelist.length ≤ ramPages := by
  obtain ⟨pages, list, nodup, free⟩ := inv.accounts.free
  have inside : pages.toFinset ⊆ Finset.Ico (2 ^ 19) (2 ^ 19 + ramPages) := by
    intro n member
    have isFree := (free n).mp (List.mem_toFinset.mp member)
    obtain ⟨low, high⟩ := (inv.accounts.ram n).mp (by simp [isFree])
    have kernel := layout.trampoline_kernel
    simp only [PHYSTOP, KERNBASE, ramPages, Finset.mem_Ico] at *
    omega
  have card := Finset.card_le_card inside
  rw [List.toFinset_card_of_nodup nodup, Nat.card_Ico] at card
  rw [list, List.length_map]
  omega

theorem ram_fits {size : Nat} (small : pageCount size ≤ ramPages)
    : size ≤ 2 ^ 29 ∧ size ≤ TRAPFRAME := by
  simp only [pageCount, ramPages, TRAPFRAME, TRAMPOLINE, MAXVA, PGSIZE] at *
  omega

-- An image under construction

theorem Beside.change {views : Unit → Row} (beside : Beside g s₀ u s)
    (change : Change layout s u s' u' views) (kept : Kept u s s')
    : Beside g s₀ u' s' where
  held := change.held.trans beside.held
  kept := beside.kept.trans beside.held kept
  apart v n maps := by
    by_contra used
    have positive : 0 < g.sealed.held n := Nat.pos_of_ne_zero used
    obtain ⟨_, v', before⟩ := change.mapped maps (by rwa [beside.held])
    exact used (beside.apart v' n before)

/-- An image of size `sz` that is not yet anybody's. -/
structure Image (layout : Layout) (g : Ghost ι) (s₀ : Phys) (u : Ghost Unit) (s : Phys)
    (r sz : Nat) : Prop where
  inv : Inv layout s u
  beside : Beside g s₀ u s
  root : u.table (.root ()) = some r
  fits : sz ≤ TRAPFRAME
  top : ∀ v, pageCount sz ≤ v → u.view s.mem () v = none
  mapped : (u.leaf () userPages).has PTE_V = true
  guarded : Guarded u ()

/-- Every page below the size is there and open to user code. -/
def Full (u : Ghost Unit) (sz : Nat) : Prop :=
  ∀ v, v < pageCount sz → (u.leaf () v).has PTE_V = true ∧ (u.leaf () v).has PTE_U = true

namespace Image

variable {v : Nat}

section

variable (image : Image layout g s₀ u s r sz)
include image

theorem change {views : Unit → Row} (change : Change layout s u s' u' views) (kept : Kept u s s')
    {size : Nat} (fits : size ≤ TRAPFRAME) (top : ∀ v, pageCount size ≤ v → views () v = none)
    : Image layout g s₀ u' s' r size where
  inv := change.inv
  beside := image.beside.change change kept
  root := (change.root ()).trans image.root
  fits := fits
  top v above := change.view ▸ top v above
  mapped := by
    rw [change.reserved () userPages (Nat.le_refl _)]
    exact image.mapped
  guarded v above := by
    rw [change.reserved () v above]
    exact image.guarded v above

theorem resize {size : Nat} (fits : size ≤ TRAPFRAME) (pages : pageCount sz ≤ pageCount size)
    : Image layout g s₀ u s r size :=
  { image with fits := fits, top := fun v above => image.top v (by omega) }

theorem vacant (above : pageCount sz ≤ v) (user : v < userPages) : u.leaf () v = 0 :=
  image.inv.vacant_of_view user (image.top v above)

/-- A page of the image may be written. -/
theorem store (user : v < userPages) (valid : (u.leaf () v).has PTE_V = true) (page : Page)
    : Image layout g s₀ u { s with mem := update s.mem (u.leaf () v).ppn page } r sz := by
  have data := image.inv.leaf_data user valid
  refine { image with
    inv := image.inv.writeData data page
    beside := ⟨image.beside.held, fun n used => ?_, image.beside.apart⟩
    top := fun w above => ?_ }
  · have other : n ≠ (u.leaf () v).ppn := by
      rintro rfl
      rw [image.beside.apart v _ ⟨user, valid, rfl⟩] at used
      omega
    simp only [update_of_ne other]
    exact image.beside.kept n used
  · by_contra seen
    rcases Within.contents u s.mem _ () 0 () w seen with before | ⟨_, below⟩
    · exact before (image.top w above)
    · omega

theorem free
    : ∃ s' u', Vm.procFreepagetable layout (4096 * r) sz s = .ok ((), s')
      ∧ Inv layout s' u' ∧ Beside g s₀ u' s' ∧ u'.table (.root ()) = none := by
  obtain ⟨s', u', run, turnover, gone, _, kept, _⟩ :=
    image.inv.procFreepagetable image.root image.fits image.top
  refine ⟨s', u', run, turnover.inv, ?_, gone⟩
  refine ⟨turnover.held.trans image.beside.held, image.beside.kept.trans image.beside.held kept,
    fun v n maps => image.beside.apart v n (turnover.fewer maps)⟩

/-- `uvmalloc` to any size at all: there is not enough memory to reach the trapframe. -/
theorem uvmalloc (room : pageCount sz + s.freelist.length ≤ ramPages) {xperm : Pte}
    (low : xperm.toNat < 1024) (newsz : Nat)
    : ∃ result s' u', Vm.uvmalloc layout (4096 * r) sz newsz xperm s = .ok (result, s')
      ∧ ((result = 0 ∧ Image layout g s₀ u' s' r sz)
        ∨ (result ≠ 0 ∧ result = max sz newsz ∧ Image layout g s₀ u' s' r result
          ∧ pageCount result + s'.freelist.length ≤ ramPages
          ∧ Entered () (pageCount sz) (pageCount newsz) (PTE_R ||| PTE_U ||| xperm) u u')) := by
  have small : min (pageCount newsz) (pageCount sz + s.freelist.length) ≤ userPages := by
    simp only [ramPages, userPages] at *
    omega
  obtain ⟨result, s', u', run, kept, outcome⟩ :=
    image.inv.uvmalloc image.root low small fun v above user => image.vacant above user
  refine ⟨result, s', u', run, ?_⟩
  rcases outcome with ⟨rfl, left, entered, growth⟩ | ⟨rfl, _, effect⟩
  · have grown : Image layout g s₀ u' s' r (max sz newsz) := by
      refine image.change growth.toChange kept (ram_fits (by omega)).2 fun v above => ?_
      have pages : pageCount sz ≤ v ∧ pageCount newsz ≤ v := by
        simp only [pageCount] at *
        omega
      rw [filled, if_neg fun inside => by omega]
      exact image.top v pages.1
    by_cases empty : max sz newsz = 0
    · exact .inl ⟨empty, grown.resize image.fits (by simp only [pageCount]; omega)⟩
    · exact .inr ⟨empty, rfl, grown, by omega, entered⟩
  · exact .inl ⟨rfl, image.change effect.toChange kept image.fits image.top⟩

end

end Image

theorem entered_open (n : Nat) (xperm : Pte)
    : (PA2PTE (4096 * n) ||| (PTE_R ||| PTE_U ||| xperm) ||| PTE_V).has PTE_U = true
      ∧ (PA2PTE (4096 * n) ||| (PTE_R ||| PTE_U ||| xperm) ||| PTE_V).has PTE_R = true := by
  simp only [Pte.has_or, (by decide : PTE_U.has PTE_U = true),
    (by decide : PTE_R.has PTE_R = true), Bool.or_true, Bool.true_or, and_self]

theorem Full.entered {newsz : Nat} {xperm : Pte} (full : Full u sz)
    (entered : Entered () (pageCount sz) (pageCount newsz) (PTE_R ||| PTE_U ||| xperm) u u')
    : Full u' (max sz newsz) := by
  intro v below
  by_cases inside : pageCount sz ≤ v
  · obtain ⟨n, leaf⟩ := entered.new v inside (by simp only [pageCount] at *; omega)
    rw [leaf]
    exact ⟨mappedEntry_valid _ _, (entered_open n xperm).1⟩
  · rw [entered.old () v fun range => inside range.2.1]
    exact full v (by omega)

-- The segments

theorem flags2perm_low (flags : BitVec 32) : (flags2perm flags).toNat < 1024 := by
  unfold flags2perm
  split_ifs <;> decide

namespace Image

variable {va : Nat}

section

variable (image : Image layout g s₀ u s r sz) (full : Full u sz)
include image full

theorem walkaddr (below : va < sz)
    : Vm.walkaddr (4096 * r) va s = .ok (some (4096 * (u.leaf () (va / 4096)).ppn), s) := by
  have user := user_page below image.fits
  obtain ⟨valid, open_⟩ := full (va / 4096) (by simp only [pageCount]; omega)
  rw [image.inv.walkaddr_run image.root (user_address user), valid, open_,
    PTE2PA_eq (image.inv.leaf_small user valid)]
  rfl

/-- The loop of `loadseg` finds every page and comes to its end. -/
theorem loadsegLoop (file : List (BitVec 8)) (offset : BitVec 32) {size i : BitVec 32}
    {rounds : Nat} (inside : va + size.toNat ≤ sz) (small : sz ≤ 2 ^ 29)
    (before : i.toNat < size.toNat + 4096) (enough : size.toNat + 4096 ≤ i.toNat + 4096 * rounds)
    : ∃ ok s', Vm.loadsegLoop (4096 * r) va file offset size rounds i s = .ok (ok, s')
      ∧ Image layout g s₀ u s' r sz ∧ s'.freelist = s.freelist := by
  induction rounds generalizing s i with
  | zero => omega
  | succ rounds ih =>
    unfold Vm.loadsegLoop
    by_cases done : size ≤ i
    · rw [if_pos done]
      exact ⟨true, s, rfl, image, rfl⟩
    rw [if_neg done]
    have more : i.toNat < size.toNat := by
      rw [BitVec.le_def] at done
      omega
    have next : (i + 4096).toNat = i.toNat + 4096 := by
      change (i.toNat + 4096) % 2 ^ 32 = _
      omega
    have address : (va + i.toNat) % 2 ^ 64 = va + i.toNat := Nat.mod_eq_of_lt (by omega)
    have found := image.walkaddr full (by omega : va + i.toNat < sz)
    have user := user_page (by omega : va + i.toNat < sz) image.fits
    obtain ⟨valid, _⟩ := full ((va + i.toNat) / 4096) (by simp only [pageCount]; omega)
    rw [address, bind_ok found]
    dsimp only
    rw [bind_ok (storeBytes_run s _ _ _)]
    have stored := image.store user valid
      ((s.mem (u.leaf () ((va + i.toNat) / 4096)).ppn).write 0
        (readi file (offset + i) (min (size - i).toNat 4096)))
    by_cases short : (readi file (offset + i) (min (size - i).toNat 4096)).length
        = min (size - i).toNat 4096
    · rw [if_pos short]
      obtain ⟨ok, s', run, image', list⟩ := ih (i := i + 4096) stored (by omega) (by omega)
      exact ⟨ok, s', run, image', list⟩
    · rw [if_neg short]
      exact ⟨false, _, rfl, stored, rfl⟩

theorem loadseg (file : List (BitVec 8)) (offset : BitVec 32) {size : BitVec 32}
    (inside : va + size.toNat ≤ sz) (small : sz ≤ 2 ^ 29)
    : ∃ ok s', Vm.loadseg (4096 * r) va file offset size s = .ok (ok, s')
      ∧ Image layout g s₀ u s' r sz ∧ s'.freelist = s.freelist := by
  exact image.loadsegLoop full file offset inside small (by simp) (by simp; omega)

/-- The loop over the program headers. -/
theorem loadSegments (room : pageCount sz + s.freelist.length ≤ ramPages) (file : List (BitVec 8))
    (left : Nat) (off : BitVec 32)
    : ∃ ok size s' u', Vm.loadSegments layout (4096 * r) file left off sz s = .ok ((ok, size), s')
      ∧ Image layout g s₀ u' s' r size
      ∧ (ok = true → Full u' size ∧ pageCount size + s'.freelist.length ≤ ramPages) := by
  induction left generalizing s u sz off with
  | zero => exact ⟨true, sz, s, u, rfl, image, fun _ => ⟨full, room⟩⟩
  | succ left ih =>
    have stop : ∃ ok size s' u',
        (pure (false, sz) : Kernel (Bool × Nat)) s = .ok ((ok, size), s')
        ∧ Image layout g s₀ u' s' r size
        ∧ (ok = true → Full u' size ∧ pageCount size + s'.freelist.length ≤ ramPages) :=
      ⟨false, sz, s, u, rfl, image, fun no => by cases no⟩
    unfold Vm.loadSegments
    dsimp only
    by_cases read : (readi file off 56).length ≠ 56
    · rw [if_pos read]
      exact stop
    rw [if_neg read]
    generalize ProgHdr.of (readi file off 56) = ph
    by_cases other : ph.type ≠ ELF_PROG_LOAD
    · rw [if_pos other]
      exact ih image full room _
    rw [if_neg other]
    by_cases large : ph.memsz < ph.filesz
    · rw [if_pos large]
      exact stop
    rw [if_neg large]
    by_cases wraps : ph.vaddr + ph.memsz < ph.vaddr
    · rw [if_pos wraps]
      exact stop
    rw [if_neg wraps]
    by_cases odd : ph.vaddr.toNat % 4096 ≠ 0
    · rw [if_pos odd]
      exact stop
    rw [if_neg odd]
    obtain ⟨sz1, s₁, u₁, run₁, outcome⟩ := image.uvmalloc room (flags2perm_low ph.flags)
      (ph.vaddr + ph.memsz).toNat
    rw [bind_ok run₁]
    rcases outcome with ⟨rfl, image₁⟩ | ⟨grown, isMax, image₁, room₁, entered⟩
    · exact ⟨false, sz, s₁, u₁, rfl, image₁, fun no => by cases no⟩
    rw [if_neg grown]
    -- The segment lies below the new size, whatever the headers before it said.
    have end_ : (ph.vaddr + ph.memsz).toNat = ph.vaddr.toNat + ph.memsz.toNat := by
      rw [BitVec.lt_def, BitVec.toNat_add] at wraps
      rw [BitVec.toNat_add]
      omega
    have short : (ph.filesz.setWidth 32).toNat ≤ ph.memsz.toNat := by
      rw [BitVec.lt_def] at large
      rw [BitVec.toNat_setWidth]
      omega
    have full₁ : Full u₁ sz1 := isMax ▸ full.entered entered
    obtain ⟨ok, s₂, run₂, image₂, list⟩ := image₁.loadseg full₁ file (ph.off.setWidth 32)
      (by omega : ph.vaddr.toNat + (ph.filesz.setWidth 32).toNat ≤ sz1)
      (ram_fits (by omega : pageCount sz1 ≤ ramPages)).1
    rw [bind_ok run₂]
    cases ok with
    | false => exact ⟨false, sz1, s₂, u₁, rfl, image₂, fun no => by cases no⟩
    | true => exact ih image₂ full₁ (by rw [list]; exact room₁) _

end

end Image

-- The whole file

/-- What `kexec` has when it is done with the file. -/
structure Loaded (layout : Layout) (g : Ghost ι) (s₀ : Phys) (progress : Progress) (s : Phys)
    (u : Ghost Unit) : Prop where
  inv : Inv layout s u
  beside : Beside g s₀ u s
  image
    : (progress.ok = false ∧ progress.pagetable = 0 ∧ u.table (.root ()) = none)
      ∨ ∃ r, 0 < r ∧ progress.pagetable = 4096 * r ∧ Image layout g s₀ u s r progress.sz
        ∧ (progress.ok = true
          → Full u progress.sz ∧ pageCount progress.sz + s.freelist.length ≤ ramPages)

/-- A new space starts without user memory. -/
theorem Inv.procPagetable_image (inv : Inv layout s g) (trapframe : Nat)
    : ∃ result s' u', Vm.procPagetable layout trapframe s = .ok (result, s')
      ∧ Inv layout s' u' ∧ Beside g s u' s'
      ∧ ((result = none ∧ u'.table (.root ()) = none)
        ∨ ∃ r, 0 < r ∧ result = some (4096 * r) ∧ Image layout g s u' s' r 0) := by
  obtain ⟨result, s', u', run, turnover, kept, outcome⟩ :=
    inv.sealed.procPagetable (rfl : g.sealed.table (.root ()) = none) trapframe
  have beside : Beside g s u' s' :=
    ⟨turnover.held, kept, fun v n maps => (g.sealed_maps v n (turnover.fewer maps)).elim⟩
  refine ⟨result, s', u', run, turnover.inv, beside, ?_⟩
  rcases outcome with ⟨rfl, _, gone⟩ | ⟨r, rfl, root, mapped, guarded, _⟩
  · exact .inl ⟨rfl, gone⟩
  · have owner := (turnover.inv.accounts.tables _ r).mpr root
    have ram := (turnover.inv.accounts.ram r).mp (by simp [owner])
    have kernel := layout.trampoline_kernel
    have positive : 0 < r := by
      have := ram.1
      omega
    refine .inr ⟨r, positive, rfl, turnover.inv, beside, root, Nat.zero_le _, fun v _ => ?_,
      mapped, guarded⟩
    rw [turnover.view]
    exact vacant_view _ rfl

/-- The part of `kexec` that reads the file, for every file. -/
theorem Inv.loadImage (inv : Inv layout s g) (trapframe : Nat) (file : List (BitVec 8))
    : ∃ progress s' u', Vm.loadImage layout trapframe file s = .ok (progress, s')
      ∧ Loaded layout g s progress s' u' := by
  have stop : ∃ progress s' u', (pure ⟨false, 0, 0⟩ : Kernel Progress) s = .ok (progress, s')
      ∧ Loaded layout g s progress s' u' :=
    ⟨_, s, g.sealed, rfl, inv.sealed, .refl g s, .inl ⟨rfl, rfl, rfl⟩⟩
  unfold Vm.loadImage
  by_cases short : (readi file 0 64).length ≠ 64
  · rw [if_pos short]
    exact stop
  rw [if_neg short]
  by_cases strange : (ElfHdr.of (readi file 0 64)).magic ≠ ELF_MAGIC
  · rw [if_pos strange]
    exact stop
  rw [if_neg strange]
  obtain ⟨result, s₁, u₁, run₁, inv₁, beside₁, outcome⟩ := inv.procPagetable_image trapframe
  rw [bind_ok run₁]
  rcases outcome with ⟨rfl, gone⟩ | ⟨r, positive, rfl, image⟩
  · exact ⟨_, s₁, u₁, rfl, inv₁, beside₁, .inl ⟨rfl, rfl, gone⟩⟩
  · obtain ⟨ok, size, s₂, u₂, run₂, image₂, whole⟩ := image.loadSegments
      (fun v below => by simp [pageCount] at below)
      (by simpa [pageCount] using inv₁.freelist_length) file
      (ElfHdr.of (readi file 0 64)).phnum.toNat ((ElfHdr.of (readi file 0 64)).phoff.setWidth 32)
    dsimp only
    rw [bind_ok run₂]
    exact ⟨_, s₂, u₂, rfl, image₂.inv, image₂.beside,
      .inr ⟨r, positive, rfl, image₂, whole⟩⟩

end Xv6.Vm

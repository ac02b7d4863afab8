import Xv6.Library.BitField
import Xv6.Param

/-! Physical pages, page-table entries and the page allocator of `kernel/kalloc.c`.
Addresses are natural numbers; a page of memory is found under its page number.
-/

namespace Xv6.Vm

open Function Library

abbrev KERNBASE : Nat := 0x80000000

abbrev PHYSTOP : Nat := KERNBASE + 512 * 1024 * 1024

abbrev TRAMPOLINE : Nat := MAXVA - PGSIZE

abbrev TRAPFRAME : Nat := TRAMPOLINE - PGSIZE

/-- Where the linker puts the kernel: the symbols `end` and `trampoline`. -/
structure Layout where
  kernelEnd : Nat
  trampoline : Nat
  trampoline_aligned : trampoline % 4096 = 0
  trampoline_kernel : KERNBASE ≤ trampoline ∧ trampoline + 4096 ≤ kernelEnd
  end_ram : kernelEnd ≤ PHYSTOP

theorem kernbase_aligned : KERNBASE % 4096 = 0 := by decide

def PGROUNDUP (sz : Nat) : Nat := (sz + 4095) / 4096 * 4096

def PGROUNDDOWN (a : Nat) : Nat := a / 4096 * 4096

-- Page-table entries

/-- `pte_t`. -/
abbrev Pte := BitVec 64

def PTE_V : Pte := 1 <<< 0
def PTE_R : Pte := 1 <<< 1
def PTE_W : Pte := 1 <<< 2
def PTE_X : Pte := 1 <<< 3
def PTE_U : Pte := 1 <<< 4
def PTE_C : Pte := 1 <<< 5

/-- `*pte & flag`, for a flag of one bit. -/
def Pte.has (pte flag : Pte) : Bool := pte &&& flag != 0

def PA2PTE (pa : Nat) : Pte := BitVec.ofNat 64 (pa / 4096) <<< 10

def PTE2PA (pte : Pte) : Nat := ((pte >>> 10) <<< 12).toNat

def PTE_FLAGS (pte : Pte) : Pte := pte &&& 0x3FF

/-- The 9-bit index of level `level` in a virtual address. -/
def PX (level va : Nat) : Nat := va / 2 ^ (12 + 9 * level) % 512

-- Pages of memory

/-- The bits of one page, least significant byte first. -/
abbrev Page := BitVec 32768

/-- `pagetable[i]` of a page-table page. -/
def Page.entry (page : Page) (i : Nat) : Pte := getField page (64 * i) 64

def Page.setEntry (page : Page) (i : Nat) (pte : Pte) : Page := setField page (64 * i) pte

def Page.byte (page : Page) (i : Nat) : BitVec 8 := getField page (8 * i) 8

def Page.setByte (page : Page) (i : Nat) (value : BitVec 8) : Page :=
  setField page (8 * i) value

/-- The number whose 4096 bytes are all 1. -/
def everyByte : Nat := (2 ^ 32768 - 1) / 255

/-- `memset(page, c, PGSIZE)`. -/
def pageOf (c : Nat) : Page := BitVec.ofNat 32768 (c * everyByte)

/-- Memory with the allocator's free list and reference counts. The list `kmem.freelist`
threads through the free pages themselves. `exhausted` is a history variable: some `kalloc`
has returned 0.
-/
structure Phys where
  mem : Nat → Page
  freelist : List Nat
  refCount : Nat → Int
  exhausted : Bool

/-- Kernel code over physical memory; an error is a panic. -/
abbrev Kernel := StateT Phys (Except String)

def Phys.page (s : Phys) (pa : Nat) : Page := s.mem (pa / 4096)

def Phys.setPage (s : Phys) (pa : Nat) (page : Page) : Phys :=
  { s with mem := update s.mem (pa / 4096) page }

/-- `ref_count[PA2INDEX(pa)]`. -/
def Phys.ref (s : Phys) (pa : Nat) : Int := s.refCount (pa / 4096)

def Phys.setRef (s : Phys) (pa : Nat) (count : Int) : Phys :=
  { s with refCount := update s.refCount (pa / 4096) count }

/-- `incref`. -/
def incref (pa : Nat) : Kernel Unit := fun s =>
  .ok ((), s.setRef pa (s.ref pa + 1))

/-- What `kfree` does once the count has dropped to zero. -/
def Phys.putFree (s : Phys) (pa : Nat) : Phys :=
  { s.setPage pa (pageOf 1) with freelist := pa :: s.freelist }

/-- `kfree`. -/
def kfree (layout : Layout) (pa : Nat) : Kernel Unit := fun s =>
  if pa % 4096 ≠ 0 ∨ pa < layout.kernelEnd ∨ PHYSTOP ≤ pa then .error "kfree"
  else if s.ref pa ≤ 0 then .error "kfree: reference count less than or equal to 0"
  else
    let s := s.setRef pa (s.ref pa - 1)
    if 0 < s.ref pa then .ok ((), s) else .ok ((), s.putFree pa)

/-- `kalloc`: the head of the free list, filled with junk and counted once. -/
def kalloc : Kernel (Option Nat) := fun s =>
  match s.freelist with
  | [] => .ok (none, { s with exhausted := true })
  | r :: rest =>
    .ok (some r, ({ s with freelist := rest }.setPage r (pageOf 5)).setRef r 1)

/-- The loop of `freerange`, `count` pages from `p` on. -/
def freerange (layout : Layout) (p : Nat) : Nat → Kernel Unit
  | 0 => pure ()
  | count + 1 => fun s =>
    (do kfree layout p; freerange layout (p + 4096) count) (s.setRef p 1)

/-- `kinit`: every page from `end` to `PHYSTOP` is freed once. -/
def kinit (layout : Layout) : Kernel Unit :=
  freerange layout (PGROUNDUP layout.kernelEnd)
    ((PHYSTOP - PGROUNDUP layout.kernelEnd) / 4096)

-- The page-table code of `kernel/vm.c`. Page tables live in physical memory: a `pagetable_t` is
-- the address of a page of 512 entries, and a `pte_t *` is such a page with an index into it.

def readEntry (pagetable i : Nat) : Kernel Pte := fun s =>
  .ok ((s.page pagetable).entry i, s)

def writeEntry (pagetable i : Nat) (pte : Pte) : Kernel Unit := fun s =>
  .ok ((), s.setPage pagetable ((s.page pagetable).setEntry i pte))

/-- `memset(pa, 0, PGSIZE)`. -/
def zeroPage (pa : Nat) : Kernel Unit := fun s => .ok ((), s.setPage pa (pageOf 0))

/-- `memmove(dst, src, PGSIZE)`. -/
def copyPage (dst src : Nat) : Kernel Unit := fun s => .ok ((), s.setPage dst (s.page src))

/-- One iteration of the loop of `walk`. -/
def walkLevel (level pagetable va : Nat) (alloc : Bool) : Kernel (Option Nat) := do
  let pte ← readEntry pagetable (PX level va)
  if pte.has PTE_V then
    return some (PTE2PA pte)
  else if !alloc then
    return none
  else
    match ← kalloc with
    | none => return none
    | some page =>
      zeroPage page
      writeEntry pagetable (PX level va) (PA2PTE page ||| PTE_V)
      return some page

/-- `walk`: the page and the index of the entry for `va`. -/
def walk (pagetable va : Nat) (alloc : Bool) : Kernel (Option (Nat × Nat)) :=
  if MAXVA ≤ va then throw "walk"
  else do
    match ← walkLevel 2 pagetable va alloc with
    | none => return none
    | some middle =>
      match ← walkLevel 1 middle va alloc with
      | none => return none
      | some low => return some (low, PX 0 va)

/-- `walkaddr`. -/
def walkaddr (pagetable va : Nat) : Kernel (Option Nat) := do
  if MAXVA ≤ va then return none
  match ← walk pagetable va false with
  | none => return none
  | some (page, i) =>
    let pte ← readEntry page i
    if !pte.has PTE_V then return none
    if !pte.has PTE_U then return none
    return some (PTE2PA pte)

/-- One iteration of the loop of `mappages`; `false` when `walk` found no memory. -/
def mapOne (pagetable a pa : Nat) (perm : Pte) : Kernel Bool := do
  match ← walk pagetable a true with
  | none => return false
  | some (page, i) =>
    let pte ← readEntry page i
    if pte.has PTE_V then throw "mappages: remap"
    else do
      writeEntry page i (PA2PTE pa ||| perm ||| PTE_V)
      return true

/-- The loop of `mappages` over the remaining pages. -/
def mappagesLoop (pagetable a pa : Nat) (perm : Pte) : Nat → Kernel Bool
  | 0 => return true
  | pages + 1 => do
      if ← mapOne pagetable a pa perm then
        mappagesLoop pagetable (a + 4096) (pa + 4096) perm pages
      else
        return false

/-- `mappages`; `false` stands for the result -1. -/
def mappages (pagetable va size pa : Nat) (perm : Pte) : Kernel Bool :=
  if va % 4096 ≠ 0 then throw "mappages: va not aligned"
  else if size % 4096 ≠ 0 then throw "mappages: size not aligned"
  else if size = 0 then throw "mappages: size"
  else mappagesLoop pagetable va pa perm (size / 4096)

/-- `uvmcreate`. -/
def uvmcreate : Kernel (Option Nat) := do
  match ← kalloc with
  | none => return none
  | some pagetable =>
    zeroPage pagetable
    return some pagetable

/-- One iteration of the loop of `uvmunmap`. -/
def unmapOne (layout : Layout) (pagetable a : Nat) (doFree : Bool) : Kernel Unit := do
  match ← walk pagetable a false with
  | none => return ()
  | some (page, i) =>
    let pte ← readEntry page i
    if !pte.has PTE_V then return ()
    if doFree then do
      kfree layout (PTE2PA pte)
      writeEntry page i 0
    else
      writeEntry page i 0

/-- The loop of `uvmunmap` over the remaining pages. -/
def uvmunmapLoop (layout : Layout) (pagetable : Nat) (doFree : Bool) (a : Nat)
    : Nat → Kernel Unit
  | 0 => return ()
  | pages + 1 => do
      unmapOne layout pagetable a doFree
      uvmunmapLoop layout pagetable doFree (a + 4096) pages

/-- `uvmunmap`. -/
def uvmunmap (layout : Layout) (pagetable va npages : Nat) (doFree : Bool) : Kernel Unit :=
  if va % 4096 ≠ 0 then throw "uvmunmap: not aligned"
  else uvmunmapLoop layout pagetable doFree va npages

/-- The loop of `freewalk` with `left` entries to go; `free` is the recursive call. -/
def freeEntries (free : Nat → Kernel Unit) (pagetable : Nat) : Nat → Kernel Unit
  | 0 => return ()
  | left + 1 => do
      let i := 511 - left
      let pte ← readEntry pagetable i
      if !pte.has PTE_V then freeEntries free pagetable left
      else if pte.has PTE_R || pte.has PTE_W || pte.has PTE_X then throw "freewalk: leaf"
      else do
        free (PTE2PA pte)
        writeEntry pagetable i 0
        freeEntries free pagetable left

/-- `freewalk` on a table of the given level; the tables of level 0 hold leaves only. -/
def freewalk (layout : Layout) : Nat → Nat → Kernel Unit
  | 0, pagetable => do
      freeEntries (fun _ => throw "freewalk: leaf") pagetable 512
      kfree layout pagetable
  | level + 1, pagetable => do
      freeEntries (freewalk layout level) pagetable 512
      kfree layout pagetable

/-- `uvmfree`. -/
def uvmfree (layout : Layout) (pagetable sz : Nat) : Kernel Unit := do
  if 0 < sz then do
    uvmunmap layout pagetable 0 (PGROUNDUP sz / 4096) true
    freewalk layout 2 pagetable
  else
    freewalk layout 2 pagetable

/-- `ismapped`. -/
def ismapped (pagetable va : Nat) : Kernel Bool := do
  match ← walk pagetable va false with
  | none => return false
  | some (page, i) =>
    let pte ← readEntry page i
    return pte.has PTE_V

end Xv6.Vm

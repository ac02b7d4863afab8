import Xv6.Vm.PageTable

/-! User memory in `kernel/vm.c`: growing, shrinking and copying address spaces, page
faults, and the transfers between kernel and user memory.
-/

namespace Xv6.Vm

/-- `uvmdealloc`. -/
def uvmdealloc (layout : Layout) (pagetable oldsz newsz : Nat) : Kernel Nat := do
  if oldsz ≤ newsz then return oldsz
  if PGROUNDUP newsz < PGROUNDUP oldsz then do
    uvmunmap layout pagetable (PGROUNDUP newsz)
      ((PGROUNDUP oldsz - PGROUNDUP newsz) / 4096) true
    return newsz
  else
    return newsz

/-- The sequence that `uvmalloc` and `vmfault` both contain: a zeroed page is mapped at `va`,
or given back when `mappages` fails.
-/
def mapFresh (layout : Layout) (pagetable va : Nat) (perm : Pte) : Kernel (Option Nat) := do
  match ← kalloc with
  | none => return none
  | some mem =>
    zeroPage mem
    if ← mappages pagetable va 4096 mem perm then
      return some mem
    else
      kfree layout mem
      return none

/-- The loop of `uvmalloc` from address `a` on; on failure it gives back what it had. -/
def uvmallocLoop (layout : Layout) (pagetable oldsz : Nat) (xperm : Pte) (a : Nat)
    : Nat → Kernel Bool
  | 0 => return true
  | pages + 1 => do
      match ← mapFresh layout pagetable a (PTE_R ||| PTE_U ||| xperm) with
      | some _ => uvmallocLoop layout pagetable oldsz xperm (a + 4096) pages
      | none =>
        let _ ← uvmdealloc layout pagetable a oldsz
        return false

/-- `uvmalloc`: the new size, or 0 on error. -/
def uvmalloc (layout : Layout) (pagetable oldsz newsz : Nat) (xperm : Pte) : Kernel Nat := do
  if newsz < oldsz then return oldsz
  let first := PGROUNDUP oldsz
  if ← uvmallocLoop layout pagetable first xperm first ((newsz - first + 4095) / 4096) then
    return newsz
  else
    return 0

/-- The flags `uvmcopy` gives to both copies of a page. -/
def copyFlags (shared : Bool) (pte : Pte) : Pte :=
  if (PTE_FLAGS pte).has PTE_W && !shared
  then (PTE_FLAGS pte &&& ~~~PTE_W) ||| PTE_C
  else PTE_FLAGS pte

/-- One iteration of the loop of `uvmcopy`; `shared` is `is_shared_page`. -/
def copyOne (shared : Nat → Bool) (old new i : Nat) : Kernel Bool := do
  match ← walk old i false with
  | none => return true
  | some (page, k) =>
    let pte ← readEntry page k
    if !pte.has PTE_V then return true
    let pa := PTE2PA pte
    let flags := copyFlags (shared pa) pte
    if (PTE_FLAGS pte).has PTE_W && !shared pa then
      writeEntry page k (PA2PTE pa ||| flags)
    else
      pure ()
    if ← mappages new i 4096 pa flags then
      incref pa
      return true
    else
      return false

/-- The loop of `uvmcopy` from address `i` on, with its error exit. -/
def uvmcopyLoop (layout : Layout) (shared : Nat → Bool) (old new i : Nat) : Nat → Kernel Bool
  | 0 => return true
  | pages + 1 => do
      if ← copyOne shared old new i then
        uvmcopyLoop layout shared old new (i + 4096) pages
      else
        uvmunmap layout new 0 (i / 4096) true
        return false

/-- `uvmcopy`; `false` stands for the result -1. -/
def uvmcopy (layout : Layout) (shared : Nat → Bool) (old new sz : Nat) : Kernel Bool :=
  uvmcopyLoop layout shared old new 0 ((sz + 4095) / 4096)

/-- `uvmclear`. -/
def uvmclear (pagetable va : Nat) : Kernel Unit := do
  match ← walk pagetable va false with
  | none => throw "uvmclear"
  | some (page, i) =>
    let pte ← readEntry page i
    writeEntry page i (pte &&& ~~~PTE_U)

/-- `vmfault` for a process with size `sz` and page table `own`. -/
def vmfault (layout : Layout) (sz own pagetable va : Nat) : Kernel (Option Nat) := do
  if sz ≤ va then return none
  let va := PGROUNDDOWN va
  if ← ismapped pagetable va then return none
  mapFresh layout own va (PTE_W ||| PTE_U ||| PTE_R)

/-- The flags of a page after its copy-on-write break. -/
def brokenFlags (pte : Pte) : Pte := (PTE_FLAGS pte &&& ~~~PTE_C) ||| PTE_W

/-- The copy-on-write break that `uvmcow` and `copyout` both contain: a private copy of the
page replaces it in the entry, and the old page loses one reference.
-/
def cowBreak (layout : Layout) (page i : Nat) (pte : Pte) : Kernel (Option Nat) := do
  match ← kalloc with
  | none => return none
  | some mem =>
    copyPage mem (PTE2PA pte)
    writeEntry page i (PA2PTE mem ||| brokenFlags pte)
    kfree layout (PTE2PA pte)
    return some mem

/-- `uvmcow`; `true` stands for the result 0. -/
def uvmcow (layout : Layout) (pagetable va : Nat) : Kernel Bool := do
  let va := PGROUNDDOWN va
  if MAXVA ≤ va then return false
  match ← walk pagetable va false with
  | none => return false
  | some (page, i) =>
    let pte ← readEntry page i
    if !pte.has PTE_V then return false
    if !pte.has PTE_U then return false
    if pte.has PTE_W then return true
    if !pte.has PTE_C then return false
    match ← cowBreak layout page i pte with
    | none => return false
    | some _ => return true

/-- `walkaddr`, and `vmfault` where it finds nothing: the first lines of both copy loops. -/
def userPage (layout : Layout) (sz own pagetable va0 : Nat) : Kernel (Option Nat) := do
  match ← walkaddr pagetable va0 with
  | some pa0 => return some pa0
  | none => vmfault layout sz own pagetable va0

/-- The part of a `copyout` iteration that makes page `va0` writable. -/
def copyoutPage (layout : Layout) (sz own pagetable va0 : Nat) : Kernel (Option Nat) := do
  if MAXVA ≤ va0 then return none
  match ← userPage layout sz own pagetable va0 with
  | none => return none
  | some pa0 =>
    match ← walk pagetable va0 false with
    | none => throw "copyout: null pte"
    | some (page, i) =>
      let pte ← readEntry page i
      if pte.has PTE_W then return some pa0
      if pte.has PTE_C then cowBreak layout page i pte
      else return none

/-- The bytes of a page overwritten from `offset` on. -/
def Page.write (page : Page) (offset : Nat) : List (BitVec 8) → Page
  | [] => page
  | value :: rest => (page.setByte offset value).write (offset + 1) rest

/-- `memmove` into a page of user memory. -/
def storeBytes (pa offset : Nat) (bytes : List (BitVec 8)) : Kernel Unit := fun s =>
  .ok ((), s.setPage pa ((s.page pa).write offset bytes))

/-- `memmove` out of a page of user memory. -/
def loadBytes (pa offset count : Nat) : Kernel (List (BitVec 8)) := fun s =>
  .ok ((List.range count).map (fun i => (s.page pa).byte (offset + i)), s)

/-- `copyout`; `false` stands for the result -1. -/
def copyout (layout : Layout) (sz own pagetable dstva : Nat) (src : List (BitVec 8))
    : Kernel Bool :=
  if _empty : src = [] then pure true
  else do
    let va0 := PGROUNDDOWN dstva
    match ← copyoutPage layout sz own pagetable va0 with
    | none => return false
    | some pa0 =>
      let n := min (4096 - dstva % 4096) src.length
      storeBytes pa0 (dstva % 4096) (src.take n)
      copyout layout sz own pagetable (va0 + 4096) (src.drop n)
termination_by src.length
decreasing_by
  have some : 0 < src.length := List.length_pos_iff.mpr _empty
  have offset : dstva % 4096 < 4096 := Nat.mod_lt _ (by decide)
  simp only [List.length_drop]
  omega

/-- `copyin`, with the bytes that reached the destination before it ended. -/
def copyin (layout : Layout) (sz own pagetable srcva len : Nat)
    : Kernel (Bool × List (BitVec 8)) :=
  if len = 0 then pure (true, [])
  else do
    let va0 := PGROUNDDOWN srcva
    match ← userPage layout sz own pagetable va0 with
    | none => return (false, [])
    | some pa0 =>
      let n := min (4096 - srcva % 4096) len
      let bytes ← loadBytes pa0 (srcva % 4096) n
      let (ok, rest) ← copyin layout sz own pagetable (va0 + 4096) (len - n)
      return (ok, bytes ++ rest)
termination_by len
decreasing_by
  have offset : srcva % 4096 < 4096 := Nat.mod_lt _ (by decide)
  omega

-- Loads and stores of user code

/-- The hardware's translation for an access that needs `flag`; `none` is a page fault. -/
def translate (pagetable va : Nat) (flag : Pte) : Kernel (Option Nat) := do
  if MAXVA ≤ va then return none
  match ← walk pagetable va false with
  | none => return none
  | some (page, i) =>
    let pte ← readEntry page i
    if pte.has PTE_V && pte.has PTE_U && pte.has flag then return some (PTE2PA pte)
    else return none

/-- A user load with the page-fault path of `usertrap`; `none` means the process is killed.
A handled fault retries the instruction.
-/
def userLoad (layout : Layout) (sz pagetable va : Nat) : Kernel (Option (BitVec 8)) := do
  match ← translate pagetable va PTE_R with
  | some pa => return some ((← get).page pa |>.byte (va % 4096))
  | none =>
    match ← vmfault layout sz pagetable pagetable va with
    | none => return none
    | some _ =>
      match ← translate pagetable va PTE_R with
      | some pa => return some ((← get).page pa |>.byte (va % 4096))
      | none => throw "load faults again"

/-- The store-fault path of `usertrap`: copy on write first, then lazy allocation. -/
def storeFault (layout : Layout) (sz pagetable va : Nat) : Kernel Bool := do
  if ← uvmcow layout pagetable va then
    return true
  else
    match ← vmfault layout sz pagetable pagetable va with
    | some _ => return true
    | none => return false

/-- A user store; `false` means the process is killed. -/
def userStore (layout : Layout) (sz pagetable va : Nat) (value : BitVec 8) : Kernel Bool := do
  match ← translate pagetable va PTE_W with
  | some pa =>
    storeBytes pa (va % 4096) [value]
    return true
  | none =>
    if ← storeFault layout sz pagetable va then
      match ← translate pagetable va PTE_W with
      | some pa =>
        storeBytes pa (va % 4096) [value]
        return true
      | none => throw "store faults again"
    else
      return false

end Xv6.Vm

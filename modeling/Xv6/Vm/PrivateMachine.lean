import Xv6.Vm.Machine

/-! Memory without sharing: what the pages of one process are for, when nobody else has them.
Loads, stores and the kernel's copies work on the process's own pages; a page below the size
that is not there yet is supplied, filled with zeros.
-/

namespace Xv6.Vm

open Function

theorem PGROUNDDOWN_eq (a : Nat) : PGROUNDDOWN a = 4096 * (a / 4096) := by
  simp only [PGROUNDDOWN]
  omega

/-- The pages that a size of `sz` bytes reaches into. -/
def pageCount (sz : Nat) : Nat := (sz + 4095) / 4096

/-- A page as its process sees it. -/
structure View where
  content : Page
  read : Bool
  write : Bool
  exec : Bool
  user : Bool

/-- The page, closed to user code. -/
def View.clear (page : View) : View := { page with user := false }

/-- The page that a fault supplies. -/
def zeroView : View where
  content := pageOf 0
  read := true
  write := true
  exec := false
  user := true

/-- The pages of one process, by page number. -/
abbrev Row := Nat → Option View

namespace Row

variable {sz va dstva srcva : Nat}

/-- The page of `va` is supplied if it lies below the size and is not there. -/
def touch (row : Row) (sz va : Nat) : Row :=
  if va < sz ∧ row (va / 4096) = none
  then update row (va / 4096) (some zeroView)
  else row

variable {row : Row}

theorem touch_mapped (mapped : row (va / 4096) ≠ none)
    : row.touch sz va = row := by
  rw [touch, if_neg fun both => mapped both.2]

theorem touch_above (above : sz ≤ va) : row.touch sz va = row := by
  rw [touch, if_neg fun both => by omega]

/-- A fault below the size of the process maps a zero page. -/
theorem touch_vacant (below : va < sz) (vacant : row (va / 4096) = none)
    : row.touch sz va = update row (va / 4096) (some zeroView) := by
  rw [touch, if_pos ⟨below, vacant⟩]

/-- The page of `va`, supplied if need be, when it allows the access. -/
def access (row : Row) (sz va : Nat) (allows : View → Bool) : Option View :=
  (row.touch sz va (va / 4096)).filter allows

theorem access_stricter {allows stricter : View → Bool}
    (implies : ∀ page, stricter page = true → allows page = true)
    (refused : row.access sz va allows = none)
    : row.access sz va stricter = none := by
  unfold access at *
  cases seen : row.touch sz va (va / 4096) with
  | none => rfl
  | some page =>
    rw [seen] at refused
    simp only [Option.filter_eq_none_iff, Option.some.injEq, forall_eq'] at refused ⊢
    exact fun strict => refused (implies page strict)

/-- A load: the byte and the pages afterwards, or `none` when the process is killed. -/
def load (row : Row) (sz va : Nat) : Option (BitVec 8 × Row) :=
  (row.access sz va fun page => page.user && page.read).map fun page =>
    (page.content.byte (va % 4096), row.touch sz va)

/-- The pages after some bytes of the page of `va` were written. -/
def put (row : Row) (sz va : Nat) (page : View) (offset : Nat) (bytes : List (BitVec 8))
    : Row :=
  update (row.touch sz va) (va / 4096)
    (some { page with content := page.content.write offset bytes })

/-- A store: the pages afterwards, or `none` when the process is killed. -/
def store (row : Row) (sz va : Nat) (value : BitVec 8) : Option Row :=
  (row.access sz va fun page => page.user && page.write).map fun page =>
    row.put sz va page (va % 4096) [value]

/-- A copy to user memory, page by page. -/
def copyout (row : Row) (sz dstva : Nat) (src : List (BitVec 8)) : Bool × Row :=
  if _empty : src = [] then (true, row)
  else
    let va0 := PGROUNDDOWN dstva
    match row.access sz va0 (fun page => page.user && page.write) with
    | none => (false, row)
    | some page =>
      let n := min (4096 - dstva % 4096) src.length
      (row.put sz va0 page (dstva % 4096) (src.take n)).copyout sz (va0 + 4096) (src.drop n)
termination_by src.length
decreasing_by
  have some : 0 < src.length := List.length_pos_iff.mpr _empty
  have offset : dstva % 4096 < 4096 := Nat.mod_lt _ (by decide)
  simp only [List.length_drop]
  omega

/-- A copy from user memory, page by page, with the bytes it got. -/
def copyin (row : Row) (sz srcva len : Nat) : (Bool × List (BitVec 8)) × Row :=
  if len = 0 then ((true, []), row)
  else
    let va0 := PGROUNDDOWN srcva
    match row.access sz va0 View.user with
    | none => ((false, []), row)
    | some page =>
      let n := min (4096 - srcva % 4096) len
      let bytes := (List.range n).map (fun i => page.content.byte (srcva % 4096 + i))
      let ((ok, rest), row') := (row.touch sz va0).copyin sz (va0 + 4096) (len - n)
      ((ok, bytes ++ rest), row')
termination_by len
decreasing_by
  have offset : srcva % 4096 < 4096 := Nat.mod_lt _ (by decide)
  omega

theorem copyout_nil (row : Row) (sz dstva : Nat) : row.copyout sz dstva [] = (true, row) := by
  rw [copyout, dif_pos rfl]

theorem copyout_refused {src : List (BitVec 8)}
    (some : src ≠ [])
    (refused
      : row.access sz (4096 * (dstva / 4096)) (fun page => page.user && page.write) = none)
    : row.copyout sz dstva src = (false, row) := by
  rw [copyout, dif_neg some]
  simp only [PGROUNDDOWN_eq, refused]

/-- `copyout` writes the first page and goes on with the next. -/
theorem copyout_page {src : List (BitVec 8)} {page : View}
    (some : src ≠ [])
    (allowed
      : row.access sz (4096 * (dstva / 4096)) (fun page => page.user && page.write)
        = .some page)
    : row.copyout sz dstva src
      = (row.put sz (4096 * (dstva / 4096)) page (dstva % 4096)
          (src.take (min (4096 - dstva % 4096) src.length))).copyout sz
            (4096 * (dstva / 4096) + 4096)
            (src.drop (min (4096 - dstva % 4096) src.length)) := by
  rw [copyout, dif_neg some]
  simp only [PGROUNDDOWN_eq, allowed]

theorem copyin_zero (row : Row) (sz srcva : Nat)
    : row.copyin sz srcva 0 = ((true, []), row) := by
  rw [copyin, if_pos rfl]

theorem copyin_refused {len : Nat} (some : len ≠ 0)
    (refused : row.access sz (4096 * (srcva / 4096)) View.user = none)
    : row.copyin sz srcva len = ((false, []), row) := by
  rw [copyin, if_neg some]
  simp only [PGROUNDDOWN_eq, refused]

/-- `copyin` reads the first page and goes on with the next. -/
theorem copyin_page {len : Nat} {page : View} (some : len ≠ 0)
    (allowed : row.access sz (4096 * (srcva / 4096)) View.user = .some page)
    : row.copyin sz srcva len
      = let n := min (4096 - srcva % 4096) len
        let rest := (row.touch sz (4096 * (srcva / 4096))).copyin sz
          (4096 * (srcva / 4096) + 4096) (len - n)
        ((rest.1.1,
          (List.range n).map (fun i => page.content.byte (srcva % 4096 + i)) ++ rest.1.2),
          rest.2) := by
  rw [copyin, if_neg some]
  simp only [PGROUNDDOWN_eq, allowed]

end Row

-- The machine without sharing: every process has its own pages, and `fork` copies them all. The
-- memory system calls do to these pages what their callers expect of them.

open Process (Slot)

/-- What is left of a process when nobody shares its pages. -/
structure PrivateProc where
  status : Status := .unused
  sz : Nat := 0
  row : Row := fun _ => none

abbrev PrivateMachine := Slot → PrivateProc

/-- A page that `uvmalloc` adds. -/
def freshPage (xperm : Pte) : View where
  content := pageOf 0
  read := true
  write := xperm.has PTE_W
  exec := xperm.has PTE_X
  user := true

namespace PrivateProc

/-- New pages up to the new size. -/
def grow (proc : PrivateProc) (newsz : Nat) (xperm : Pte) : PrivateProc where
  status := proc.status
  sz := max proc.sz newsz
  row v :=
    if pageCount proc.sz ≤ v ∧ v < pageCount newsz then some (freshPage xperm)
    else proc.row v

/-- The pages above a smaller size are gone. -/
def shrink (proc : PrivateProc) (newsz : Nat) : PrivateProc where
  status := proc.status
  sz := if proc.sz ≤ newsz then proc.sz else newsz
  row v := if pageCount newsz ≤ v ∧ v < pageCount proc.sz then none else proc.row v

def growproc (proc : PrivateProc) (n : BitVec 32) : Bool × PrivateProc :=
  if 0 < n.toInt then
    if TRAPFRAME < addInt proc.sz n then (false, proc)
    else (true, proc.grow (addInt proc.sz n) PTE_W)
  else if n.toInt < 0 then (true, proc.shrink (addInt proc.sz n))
  else (true, proc)

def sbrk (proc : PrivateProc) (n : BitVec 32) (eager : Bool) : Option Nat × PrivateProc :=
  if eager || decide (n.toInt < 0) then
    if (proc.growproc n).1 then (some proc.sz, (proc.growproc n).2)
    else (none, proc)
  else if addInt proc.sz n < proc.sz then (none, proc)
  else if TRAPFRAME < addInt proc.sz n then (none, proc)
  else (some proc.sz, { proc with sz := addInt proc.sz n })

end PrivateProc

namespace PrivateMachine

/-- The first slot that is free. -/
def freeSlot (ref : PrivateMachine) : Option Slot :=
  (List.finRange 64).find? (fun p => (ref p).status == .unused)

/-- Other pages for process `p`. -/
def setRow (ref : PrivateMachine) (p : Slot) (row : Row) : PrivateMachine :=
  update ref p { ref p with row := row }

def kill (ref : PrivateMachine) (p : Slot) : PrivateMachine :=
  update ref p { ref p with status := .zombie }

/-- What a step does without sharing, and what its caller gets; `none` where the answer is
about physical pages. The shared-memory calls have no counterpart.
-/
def next (ref : PrivateMachine) : Action → Option Outcome × PrivateMachine
  | .kalloc | .incref _ | .kfree _ | .shmOpen _ _ | .shmClose _ _ => (none, ref)
  | .userinit =>
    match ref.freeSlot with
    | none => (some (.forked none), ref)
    | some p => (some (.forked (some p)), update ref p { status := .live })
  | .kfork p =>
    match ref.freeSlot with
    | none => (some (.forked none), ref)
    | some np =>
      (some (.forked (some np)),
        update ref np { status := .live, sz := (ref p).sz, row := (ref p).row })
  | .load p va =>
    match (ref p).row.load (ref p).sz va with
    | none => (some (.loaded none), ref.kill p)
    | some (value, row) => (some (.loaded (some value)), ref.setRow p row)
  | .store p va value =>
    match (ref p).row.store (ref p).sz va value with
    | none => (some (.flag false), ref.kill p)
    | some row => (some (.flag true), ref.setRow p row)
  | .copyin p srcva len =>
    let ((ok, bytes), row) := (ref p).row.copyin (ref p).sz srcva len
    (some (.copied ok bytes), ref.setRow p row)
  | .copyout p dstva src =>
    let (ok, row) := (ref p).row.copyout (ref p).sz dstva src
    (some (.flag ok), ref.setRow p row)
  | .uvmalloc p newsz xperm =>
    if max (ref p).sz newsz = 0 then (some (.flag false), ref)
    else (some (.flag true), update ref p ((ref p).grow newsz xperm))
  | .uvmdealloc p newsz => (some .none, update ref p ((ref p).shrink newsz))
  | .sbrk p n eager =>
    let (result, proc) := (ref p).sbrk n eager
    (some (.address result), update ref p proc)
  | .uvmcow _ _ => (none, ref)
  | .vmfault p va => (none, ref.setRow p ((ref p).row.touch (ref p).sz va))
  | .uvmclear p va =>
    (some .none, ref.setRow p
      (update (ref p).row (va / 4096)
        (((ref p).row (va / 4096)).map View.clear)))
  | .exit p => (some .none, ref.kill p)
  | .reap p => (some .none, update ref p {})

end PrivateMachine

/-- A step of the machine without sharing. -/
def PrivateStep (before : PrivateMachine) (action : Action × Outcome) (after : PrivateMachine)
    : Prop :=
  after = (before.next action.1).2
    ∧ ∀ outcome, (before.next action.1).1 = some outcome → action.2 = outcome

end Xv6.Vm

import Xv6.Vm.Ownership

/-! What the page-table code does to the ownership of the pages. A walk that only looks finds
the entry the flat map gives; a walk that allocates adds nodes and changes neither the flat
map nor any reference to a data page.
-/

namespace Xv6.Vm

open Function Library

variable {ι : Type} {layout : Layout} {s : Phys} {g : Ghost ι} {space : ι} {n va level p : Nat}

/-- The ownership describes the state. -/
structure Inv [Fintype ι] (layout : Layout) (s : Phys) (g : Ghost ι) : Prop where
  accounts : Accounts layout s.freelist s.refCount g
  shape : Shape s.mem g

/-- Data pages stay data pages with their contents. -/
def Grows (s : Phys) (g : Ghost ι) (s' : Phys) (g' : Ghost ι) : Prop :=
  ∀ n, g.owner n = .data → g'.owner n = .data ∧ s'.mem n = s.mem n

/-- What is a data page was one before, with the same contents. -/
def Shrinks (s : Phys) (g : Ghost ι) (s' : Phys) (g' : Ghost ι) : Prop :=
  ∀ n, g'.owner n = .data → g.owner n = .data ∧ s'.mem n = s.mem n

variable {s₁ s₂ : Phys} {g₁ g₂ : Ghost ι}

theorem Grows.trans (first : Grows s g s₁ g₁) (second : Grows s₁ g₁ s₂ g₂)
    : Grows s g s₂ g₂ := fun n data =>
  have middle := first n data
  have last := second n middle.1
  ⟨last.1, last.2.trans middle.2⟩

theorem Shrinks.trans (first : Shrinks s g s₁ g₁) (second : Shrinks s₁ g₁ s₂ g₂)
    : Shrinks s g s₂ g₂ := fun n data =>
  have middle := second n data
  have last := first n middle.1
  ⟨last.1, middle.2.trans last.2⟩

/-- The pages that the kernel holds keep their contents. -/
def Kept (g : Ghost ι) (s s' : Phys) : Prop := ∀ n, 0 < g.held n → s'.mem n = s.mem n

theorem Kept.refl (g : Ghost ι) (s : Phys) : Kept g s s := fun _ _ => rfl

theorem Kept.trans (first : Kept g s s₁) (held : g₁.held = g.held) (second : Kept g₁ s₁ s₂)
    : Kept g s s₂ := fun n isHeld =>
  (second n (held ▸ isHeld)).trans (first n isHeld)

/-- How many nodes a walk to page `v` would have to add. -/
def Ghost.missing (g : Ghost ι) (space : ι) (v : Nat) : Nat :=
  (g.table (.mid space (v / 512 / 512))).isNone.toNat
    + (g.table (.low space (v / 512))).isNone.toNat

/-- The page tables of all other spaces are as before. -/
structure Elsewhere (space : ι) (g g' : Ghost ι) : Prop where
  table : ∀ l, l.space ≠ space → g'.table l = g.table l
  leaf : ∀ other, other ≠ space → g'.leaf other = g.leaf other

theorem Elsewhere.trans (first : Elsewhere space g g₁) (second : Elsewhere space g₁ g₂)
    : Elsewhere space g g₂ where
  table l apart := (second.table l apart).trans (first.table l apart)
  leaf other apart := (second.leaf other apart).trans (first.leaf other apart)

/-- Only page-table nodes were added. -/
structure Nodes (s : Phys) (g : Ghost ι) (s' : Phys) (g' : Ghost ι) : Prop where
  leaf : g'.leaf = g.leaf
  held : g'.held = g.held
  root : ∀ space, g'.table (.root space) = g.table (.root space)
  node : ∀ l n, g.table l = some n → g'.table l = some n
  grows : Grows s g s' g'
  exhausted : s.exhausted = true → s'.exhausted = true

theorem Nodes.refl (s : Phys) (g : Ghost ι) : Nodes s g s g :=
  ⟨rfl, rfl, fun _ => rfl, fun _ _ found => found, fun _ data => ⟨data, rfl⟩, id⟩

theorem Nodes.trans (first : Nodes s g s₁ g₁) (second : Nodes s₁ g₁ s₂ g₂)
    : Nodes s g s₂ g₂ where
  leaf := second.leaf.trans first.leaf
  held := second.held.trans first.held
  root space := (second.root space).trans (first.root space)
  node l n found := second.node l n (first.node l n found)
  grows := first.grows.trans second.grows
  exhausted := second.exhausted ∘ first.exhausted

/-- Entries of the flat map were cleared and the pages they referred to given back. -/
structure Unmaps (s : Phys) (g : Ghost ι) (s' : Phys) (g' : Ghost ι) : Prop where
  held : g'.held = g.held
  table : g'.table = g.table
  shrinks : Shrinks s g s' g'
  exhausted : s'.exhausted = s.exhausted

theorem Unmaps.refl (s : Phys) (g : Ghost ι) : Unmaps s g s g :=
  ⟨rfl, rfl, fun _ data => ⟨data, rfl⟩, rfl⟩

theorem Unmaps.trans (first : Unmaps s g s₁ g₁) (second : Unmaps s₁ g₁ s₂ g₂)
    : Unmaps s g s₂ g₂ where
  held := second.held.trans first.held
  table := second.table.trans first.table
  shrinks := first.shrinks.trans second.shrinks
  exhausted := second.exhausted.trans first.exhausted

/-- Writes an entry of the page-table page `n`. -/
def Phys.setEntry (s : Phys) (n i : Nat) (pte : Pte) : Phys :=
  { s with mem := update s.mem n ((s.mem n).setEntry i pte) }

@[simp] theorem Phys.page_mul (s : Phys) (n : Nat) : s.page (4096 * n) = s.mem n := by
  simp [Phys.page]

theorem Phys.setPage_mul (s : Phys) (n : Nat) (page : Page)
    : s.setPage (4096 * n) page = { s with mem := update s.mem n page } := by
  simp [Phys.setPage]

theorem readEntry_run (s : Phys) (n i : Nat)
    : readEntry (4096 * n) i s = .ok ((s.mem n).entry i, s) := by
  simp [readEntry]

/-- An entry of a page table is written. -/
theorem writeEntry_run (s : Phys) (n i : Nat) (pte : Pte)
    : writeEntry (4096 * n) i pte s = .ok ((), s.setEntry n i pte) := by
  simp [writeEntry, Phys.setPage_mul, Phys.setEntry]

/-- `memset(pa, 0, PGSIZE)`. -/
theorem zeroPage_run (s : Phys) (n : Nat)
    : zeroPage (4096 * n) s
      = .ok ((), { s with mem := update s.mem n (pageOf 0) }) := by
  simp [zeroPage, Phys.setPage_mul]

-- The allocator

/-- The state after `kalloc` has returned page `n`. -/
def Phys.taken (s : Phys) (n : Nat) (rest : List Nat) : Phys where
  mem := update s.mem n (pageOf 5)
  freelist := rest
  refCount := update s.refCount n 1
  exhausted := s.exhausted

/-- `kalloc` takes the first free page. -/
theorem kalloc_run {rest : List Nat} (list : s.freelist = 4096 * n :: rest)
    : kalloc s = .ok (some (4096 * n), s.taken n rest) := by
  simp [kalloc, list, Phys.taken, Phys.setPage, Phys.setRef]

/-- The state after `kfree` of page `n`. -/
def Phys.release (s : Phys) (n : Nat) : Phys where
  mem := if s.refCount n = 1 then update s.mem n (pageOf 1) else s.mem
  freelist := if s.refCount n = 1 then 4096 * n :: s.freelist else s.freelist
  refCount := update s.refCount n (s.refCount n - 1)
  exhausted := s.exhausted

/-- `kfree` of a page that is counted. -/
theorem kfree_run (ram : InRam layout n) (counted : 0 < s.refCount n)
    : kfree layout (4096 * n) s = .ok ((), s.release n) := by
  have positive : ¬s.refCount n ≤ 0 := by omega
  by_cases last : s.refCount n = 1
  · simp [kfree, ram.1, ram.2, Phys.ref, Phys.setRef, Phys.putFree, Phys.setPage,
      Phys.release, last]
  · have more : 1 < s.refCount n := by omega
    simp [kfree, ram.1, ram.2, Phys.ref, Phys.setRef, positive, more, Phys.release, last]

variable [Fintype ι]

/-- The ownership after a kernel owner gives page `n` back. -/
def Ghost.release (g : Ghost ι) (n : Nat) : Ghost ι where
  table := g.table
  leaf := g.leaf
  owner := if g.count n = 1 then update g.owner n .free else g.owner
  held := update g.held n (g.held n - 1)

namespace Inv

variable {space : ι} {n : Nat}

section

variable (inv : Inv layout s g)
include inv

/-- A page that is mapped for a user is a data page. -/
theorem leaf_data {v : Nat} (user : v < userPages) (valid : (g.leaf space v).has PTE_V = true)
    : g.owner (g.leaf space v).ppn = .data := by
  rw [← inv.accounts.data]
  have positive : 0 < g.leafCount (g.leaf space v).ppn :=
    countEntries_pos.mpr ⟨space, v, Finset.mem_range.mpr user, by simp [Pte.refersTo, valid]⟩
  exact Nat.add_pos_left positive _

/-- The number of a mapped page fits into its entry. -/
theorem leaf_small {v : Nat} (user : v < userPages) (valid : (g.leaf space v).has PTE_V = true)
    : (g.leaf space v).ppn < 2 ^ 44 :=
  inv.accounts.small (by simp [inv.leaf_data user valid])

/-- A page that the kernel holds is a data page. -/
theorem held_data (held : 0 < g.held n) : g.owner n = .data :=
  (inv.accounts.data n).mp (Nat.add_pos_right _ held)

/-- Growth changes no page that is held. -/
theorem grows_kept {s' : Phys} {g' : Ghost ι} (grows : Grows s g s' g')
    : Kept g s s' := fun n held =>
  (grows n (inv.held_data held)).2

end

/-- Neither does shrinking. -/
theorem shrinks_kept {s' : Phys} {g' : Ghost ι} (inv' : Inv layout s' g')
    (held : g'.held = g.held) (shrinks : Shrinks s g s' g')
    : Kept g s s' := fun n isHeld =>
  (shrinks n (inv'.held_data (held ▸ isHeld))).2

section

variable (inv : Inv layout s g)
include inv

/-- A page that is no node is none of the page tables. -/
theorem not_node (other : ∀ l, g.owner n ≠ .table l) {l : Label ι} {m : Nat}
    (found : g.table l = some m)
    : m ≠ n := by
  rintro rfl
  exact inv.accounts.not_table other l found

theorem data_not_table {m : Nat} {l : Label ι} (data : g.owner n = .data)
    (found : g.table l = some m)
    : n ≠ m :=
  Ne.symm (inv.not_node (by simp [data]) found)

/-- Writing a data page leaves all page tables. -/
theorem writeData (data : g.owner n = .data) (page : Page)
    : Inv layout { s with mem := update s.mem n page } g :=
  ⟨inv.accounts, inv.shape.frame fun _ _ found =>
    update_of_ne (inv.not_node (by simp [data]) found) _ _⟩

/-- `kalloc` on an empty list fails and changes nothing but the history; otherwise a free
page becomes a data page with one owner.
-/
theorem kalloc
    : Vm.kalloc s = .ok (none, { s with exhausted := true })
      ∨ ∃ n s', Vm.kalloc s = .ok (some (4096 * n), s')
        ∧ g.owner n = .free
        ∧ Inv layout s'
            { g with
              owner := update g.owner n .data
              held := update g.held n 1 }
        ∧ (∀ m, m ≠ n → s'.mem m = s.mem m)
        ∧ s'.exhausted = s.exhausted := by
  obtain ⟨pages, addresses, _, _⟩ := inv.accounts.free
  cases pages with
  | nil =>
    left
    rw [List.map_nil] at addresses
    simp only [Vm.kalloc, addresses]
  | cons n others =>
    right
    obtain ⟨isFree, accounts⟩ := inv.accounts.take addresses
    refine ⟨n, s.taken n (others.map (4096 * ·)), kalloc_run addresses, isFree,
      ⟨accounts, inv.shape.frame fun l m found => ?_⟩, ?_, rfl⟩
    · exact update_of_ne (inv.not_node (by simp [isFree]) found) _ _
    · exact fun m other => update_of_ne other _ _

/-- `incref` of a data page, for a kernel owner. -/
theorem incref (data : g.owner n = .data)
    : Inv layout { s with refCount := update s.refCount n (s.refCount n + 1) }
        { g with held := update g.held n (g.held n + 1) } :=
  ⟨inv.accounts.retain data, inv.shape.frame fun _ _ _ => rfl⟩

/-- The count of a data page is the number of its references. -/
theorem refCount_data (data : g.owner n = .data) : s.refCount n = g.count n := by
  simpa [data, Owner.token] using inv.accounts.refs n (by simp [data])

theorem kfree_run (held : 0 < g.held n) : Vm.kfree layout (4096 * n) s = .ok ((), s.release n) := by
  have data := inv.held_data held
  have count := inv.refCount_data data
  have positive : 0 < g.count n := Nat.add_pos_right _ held
  exact Vm.kfree_run ((inv.accounts.ram n).mp (by simp [data])) (by omega)

/-- `kfree` takes away the reference of a kernel owner. -/
theorem release (held : 0 < g.held n) : Inv layout (s.release n) (g.release n) := by
  have data := inv.held_data held
  have count := inv.refCount_data data
  by_cases last : g.count n = 1
  · have one : g.held n - 1 = 0 := by
      simp only [Ghost.count] at last
      omega
    have ref : s.refCount n = 1 := by omega
    refine ⟨?_, ?_⟩
    · simpa [Phys.release, Ghost.release, ref, last, one]
        using inv.accounts.dropLast held last
    · refine inv.shape.frame fun l m found => ?_
      have other : m ≠ n := inv.not_node (by simp [data]) found
      simp [Phys.release, ref, other]
  · have more : 1 < g.count n := by
      have positive : 0 < g.count n := Nat.add_pos_right _ held
      omega
    have ref : ¬s.refCount n = 1 := by omega
    refine ⟨?_, ?_⟩
    · simpa [Phys.release, Ghost.release, ref, last] using inv.accounts.dropOne held more
    · exact inv.shape.frame fun _ _ _ => by simp [Phys.release, ref]

/-- Giving a reference back keeps every page that is still referred to. -/
theorem release_shrinks (held : 0 < g.held n) : Shrinks s g (s.release n) (g.release n) := by
  have count := inv.refCount_data (inv.held_data held)
  intro m data
  by_cases last : g.count n = 1
  · have ref : s.refCount n = 1 := by omega
    by_cases same : m = n
    · simp [Ghost.release, last, same] at data
    · simp only [Ghost.release, last, if_true, update_of_ne same] at data
      simp [data, Phys.release, ref, same]
  · have ref : ¬s.refCount n = 1 := by omega
    simp only [Ghost.release, last, if_false] at data
    simp [data, Phys.release, ref]

end

end Inv

-- Looking an entry up

/-- The three indices of an address. -/
theorem PX_zero (va : Nat) : PX 0 va = va / 4096 % 512 := by
  simp [PX]

theorem PX_one (va : Nat) : PX 1 va = va / 4096 / 512 % 512 := by
  simp only [PX]
  omega

theorem PX_two (bound : va < MAXVA) : PX 2 va = va / 4096 / 512 / 512 := by
  simp only [PX, MAXVA] at *
  omega

/-- The entry for a node is valid. -/
theorem nodeEntry_valid (n : Nat) : (PA2PTE (4096 * n) ||| PTE_V).has PTE_V = true := by
  simp [Pte.has_or, (by decide : PTE_V.has PTE_V = true)]

/-- It has the address of the node. -/
theorem nodeEntry_pa (small : n < 2 ^ 44)
    : PTE2PA (PA2PTE (4096 * n) ||| PTE_V) = 4096 * n := by
  have ppn := Pte.ppn_or small (by decide : PTE_V.toNat < 1024)
  rw [PTE2PA_eq (by omega), ppn]

/-- One level of `walk` that only looks. -/
theorem walkLevel_look {found : Option Nat}
    (entry : TableEntry ((s.mem n).entry (PX level va)) found)
    : walkLevel level (4096 * n) va false s = .ok (found.map (4096 * ·), s) := by
  unfold walkLevel
  rw [bind_ok (readEntry_run s n (PX level va))]
  cases found with
  | none =>
    simp only [TableEntry] at entry
    simp [entry]
  | some m =>
    rw [entry.1, nodeEntry_pa entry.2]
    simp [nodeEntry_valid]

/-- One level of `walk` whose node is there. -/
theorem walkLevel_found {m : Nat} (entry : TableEntry ((s.mem p).entry (PX level va)) (some m))
    (alloc : Bool)
    : walkLevel level (4096 * p) va alloc s = .ok (some (4096 * m), s) := by
  unfold walkLevel
  rw [bind_ok (readEntry_run s p (PX level va)), entry.1, nodeEntry_pa entry.2]
  simp [nodeEntry_valid]

/-- One level of `walk` without memory. -/
theorem walkLevel_out (vacant : TableEntry ((s.mem p).entry (PX level va)) none)
    (list : s.freelist = [])
    : walkLevel level (4096 * p) va true s = .ok (none, { s with exhausted := true }) := by
  simp only [TableEntry] at vacant
  unfold walkLevel
  rw [bind_ok (readEntry_run s p (PX level va))]
  simp only [vacant, Bool.false_eq_true, if_false, Bool.not_true]
  have out : kalloc s = .ok (none, { s with exhausted := true }) := by
    simp only [kalloc, list]
  rw [bind_ok out]
  rfl

/-- The state after a walk has put the free page `n` under entry `i` of the page `p`. -/
def Phys.grow (s : Phys) (p i n : Nat) (rest : List Nat) : Phys :=
  { s.taken n rest with mem := update (s.taken n rest).mem n (pageOf 0) }.setEntry p i
    (PA2PTE (4096 * n) ||| PTE_V)

/-- One level of `walk` that adds a node. -/
theorem walkLevel_grow {rest : List Nat} (vacant : TableEntry ((s.mem p).entry (PX level va)) none)
    (list : s.freelist = 4096 * n :: rest)
    : walkLevel level (4096 * p) va true s
      = .ok (some (4096 * n), s.grow p (PX level va) n rest) := by
  simp only [TableEntry] at vacant
  unfold walkLevel
  rw [bind_ok (readEntry_run s p (PX level va))]
  simp only [vacant, Bool.false_eq_true, if_false, Bool.not_true]
  rw [bind_ok (kalloc_run list)]
  dsimp only
  rw [bind_ok (zeroPage_run _ n), bind_ok (writeEntry_run _ p _ _)]
  rfl

omit [Fintype ι] in
/-- A walk that only looks finds the node of level 0, and the state stays as it is. -/
theorem Shape.walk_look (shape : Shape s.mem g) {r : Nat} (root : g.table (.root space) = some r)
    (bound : va < MAXVA)
    : walk (4096 * r) va false s
      = .ok ((g.table (.low space (va / 4096 / 512))).map
          (fun m => (4096 * m, va / 4096 % 512)), s) := by
  have high : va / 4096 / 512 / 512 < 512 := by
    simp only [MAXVA] at bound
    omega
  have first := shape.entries (.mid space (va / 4096 / 512 / 512)) r high root
  simp only [Label.index, ← PX_two bound] at first
  unfold walk
  rw [if_neg (by omega), bind_ok (walkLevel_look first), PX_two bound]
  cases middle : g.table (.mid space (va / 4096 / 512 / 512)) with
  | none =>
    have vacant := shape.below_vacant (.low space (va / 4096 / 512)) middle rfl
    simp [vacant]
  | some m =>
    have second := shape.entries (.low space (va / 4096 / 512)) m trivial middle
    simp only [Label.index, ← PX_one] at second
    simp only [Option.map_some]
    rw [bind_ok (walkLevel_look second), PX_zero]
    cases g.table (.low space (va / 4096 / 512)) <;> simp

omit [Fintype ι] in
/-- Looking an address up: no node there, or the entry of the flat map. -/
theorem Shape.look (shape : Shape s.mem g) {r : Nat} (root : g.table (.root space) = some r)
    (bound : va < MAXVA)
    : (walk (4096 * r) va false s = .ok (none, s) ∧ g.leaf space (va / 4096) = 0)
      ∨ ∃ m, walk (4096 * r) va false s = .ok (some (4096 * m, va / 4096 % 512), s)
        ∧ g.table (.low space (va / 4096 / 512)) = some m
        ∧ g.leaf space (va / 4096) = ((s.mem m).entry (va / 4096 % 512)).mapped := by
  have walked := shape.walk_look root bound
  cases found : g.table (.low space (va / 4096 / 512)) with
  | none =>
    rw [found] at walked
    exact .inl ⟨walked, shape.unmapped space (va / 4096) found⟩
  | some m =>
    rw [found] at walked
    exact .inr ⟨m, walked, rfl, shape.leaves space (va / 4096) m found⟩

namespace Inv

variable {space : ι} {r va : Nat}

section

variable (inv : Inv layout s g) (root : g.table (.root space) = some r) (bound : va < MAXVA)
include inv root bound

/-- `ismapped` reads the valid bit of the leaf entry. -/
theorem ismapped_run
    : ismapped (4096 * r) va s = .ok ((g.leaf space (va / 4096)).has PTE_V, s) := by
  unfold ismapped
  rcases inv.shape.look root bound with ⟨walked, leaf⟩ | ⟨m, walked, _, leaf⟩
  · rw [bind_ok walked, leaf]
    rfl
  · rw [bind_ok walked]
    dsimp only
    rw [bind_ok (readEntry_run s m _), leaf, Pte.has_mapped]
    rfl

/-- `walkaddr` finds the pages that the user may use. -/
theorem walkaddr_run
    : walkaddr (4096 * r) va s
      = .ok (if (g.leaf space (va / 4096)).has PTE_V && (g.leaf space (va / 4096)).has PTE_U
          then some (PTE2PA (g.leaf space (va / 4096))) else none, s) := by
  unfold walkaddr
  rw [if_neg (by omega)]
  rcases inv.shape.look root bound with ⟨walked, leaf⟩ | ⟨m, walked, _, leaf⟩
  · rw [bind_ok walked, leaf]
    rfl
  · rw [bind_ok walked]
    dsimp only
    rw [bind_ok (readEntry_run s m _), leaf, Pte.has_mapped]
    by_cases valid : ((s.mem m).entry (va / 4096 % 512)).has PTE_V = true
    · rw [Pte.mapped_of_valid valid]
      by_cases user : ((s.mem m).entry (va / 4096 % 512)).has PTE_U = true <;>
        simp [valid, user]
    · simp [valid]

end

end Inv

-- Adding nodes

namespace Inv

variable [DecidableEq ι]

/-- A zeroed page with a single owner becomes a node. -/
theorem adopt (inv : Inv layout s g) {l : Label ι} {p n : Nat} (inner : l.Inner)
    (lower : ∀ space i, l = .mid space i → i < 256) (above : g.table l.parent = some p)
    (vacant : g.table l = none) (held : g.held n = 1) (unmapped : g.leafCount n = 0)
    (zero : s.mem n = pageOf 0)
    : Inv layout (s.setEntry p l.index (PA2PTE (4096 * n) ||| PTE_V))
        { g with
          table := update g.table l (some n)
          owner := update g.owner n (.table l)
          held := update g.held n 0 } := by
  have data := inv.held_data (n := n) (by omega)
  have small : n < 2 ^ 44 := inv.accounts.small (by simp [data])
  have fresh := inv.accounts.not_table (n := n) (by simp [data])
  refine ⟨inv.accounts.adopt held unmapped vacant, ?_⟩
  have shape := inv.shape.adopt inv.accounts.label_unique inner lower above vacant fresh zero
    small
  exact shape.frame fun _ _ _ => rfl

omit [Fintype ι] [DecidableEq ι] in
/-- `kalloc` takes one page from the list, or the list is empty. -/
theorem kalloc_freelist {result : Option Nat} {s' : Phys} (run : Vm.kalloc s = .ok (result, s'))
    : (result = none ∧ s.freelist = [])
      ∨ (result ≠ none ∧ s'.freelist.length + 1 = s.freelist.length) := by
  unfold Vm.kalloc at run
  cases list : s.freelist with
  | nil =>
    rw [list] at run
    cases run
    exact .inl ⟨rfl, rfl⟩
  | cons first rest =>
    rw [list] at run
    cases run
    exact .inr ⟨by simp, rfl⟩

/-- One level of a walk that allocates: the node is there afterwards, or memory is out. -/
theorem walkLevel_alloc (inv : Inv layout s g) {l : Label ι} {p level va : Nat}
    (inner : l.Inner) (lower : ∀ space i, l = .mid space i → i < 256)
    (above : g.table l.parent = some p) (index : PX level va = l.index)
    : ∃ r s' g', walkLevel level (4096 * p) va true s = .ok (r, s')
      ∧ Inv layout s' g' ∧ Nodes s g s' g'
      ∧ (r = none ∧ s'.exhausted = true ∧ g.table l = none ∧ s.freelist = []
        ∨ ∃ m, r = some (4096 * m) ∧ g'.table l = some m
          ∧ s'.freelist.length + (g.table l).isNone.toNat = s.freelist.length
          ∧ ∀ l', l' ≠ l → g'.table l' = g.table l') := by
  have entry := inv.shape.entries l p inner above
  rw [← index] at entry
  cases found : g.table l with
  | some m =>
    rw [found] at entry
    exact ⟨some (4096 * m), s, g, walkLevel_found entry true, inv, .refl s g,
      .inr ⟨m, rfl, found, rfl, fun _ _ => rfl⟩⟩
  | none =>
    rw [found] at entry
    simp only [TableEntry] at entry
    unfold walkLevel
    rw [bind_ok (readEntry_run s p _)]
    simp only [entry, Bool.false_eq_true, if_false, Bool.not_true]
    rw [index]
    rcases inv.kalloc with failed | ⟨n, s₁, run, isFree, inv₁, mem, exhausted⟩
    · rw [bind_ok failed]
      exact ⟨none, _, g, rfl, ⟨inv.accounts, inv.shape⟩,
        ⟨rfl, rfl, fun _ => rfl, fun _ _ found => found, fun _ data => ⟨data, rfl⟩,
          fun _ => rfl⟩, .inl ⟨rfl, rfl, trivial, by simpa using kalloc_freelist failed⟩⟩
    · have left : s₁.freelist.length + 1 = s.freelist.length := by
        simpa using kalloc_freelist run
      rw [bind_ok run]
      dsimp only
      rw [bind_ok (zeroPage_run s₁ n), bind_ok (writeEntry_run _ p _ _)]
      have noHold := inv.accounts.held_zero (n := n) (by simp [isFree])
      have zeroed := inv₁.writeData (n := n) (by simp) (pageOf 0)
      have adopted := zeroed.adopt inner lower above found (n := n) (by simp)
        (inv.accounts.leafCount_zero (by simp [isFree])) (by simp)
      refine ⟨_, _, _, rfl, adopted, ⟨rfl, ?_, ?_, ?_, ?_, ?_⟩, .inr ⟨n, rfl, by simp, left,
        fun l' other => by simp [other]⟩⟩
      · funext m
        by_cases same : m = n
        · simp [same, noHold]
        · simp [same]
      · intro space
        have other : Label.root space ≠ l := by
          rintro rfl
          exact inner
        simp [other]
      · intro l' m found'
        have other : l' ≠ l := by
          rintro rfl
          rw [found] at found'
          cases found'
        simpa [other] using found'
      · intro m data
        have other : m ≠ n := by
          rintro rfl
          rw [isFree] at data
          cases data
        have notParent : m ≠ p := by
          rintro rfl
          rw [(inv.accounts.tables _ _).mpr above] at data
          cases data
        simp [data, other, Phys.setEntry, notParent, mem m other]
      · intro out
        simpa [Phys.setEntry, exhausted] using out

/-- A walk that allocates finds the node of level 0, or memory is out. -/
theorem walk_alloc (inv : Inv layout s g) {space : ι} {r va : Nat}
    (root : g.table (.root space) = some r) (bound : va < MAXVA)
    : ∃ found s' g', walk (4096 * r) va true s = .ok (found, s')
      ∧ Inv layout s' g' ∧ Nodes s g s' g'
      ∧ (found = none ∧ s'.exhausted = true ∧ s.freelist.length < g.missing space (va / 4096)
        ∨ ∃ m, found = some (4096 * m, va / 4096 % 512)
          ∧ g'.table (.low space (va / 4096 / 512)) = some m
          ∧ s'.freelist.length + g.missing space (va / 4096) = s.freelist.length) := by
  have high : va / 4096 / 512 / 512 < 256 := by
    simp only [MAXVA] at bound
    omega
  unfold walk
  rw [if_neg (by omega)]
  obtain ⟨r₁, s₁, g₁, run, inv₁, nodes, outcome⟩ :=
    inv.walkLevel_alloc (l := .mid space (va / 4096 / 512 / 512))
      (by simp only [Label.Inner]; omega) (by simpa using high) root (PX_two bound)
  rw [bind_ok run]
  unfold Ghost.missing
  rcases outcome with ⟨rfl, out, absent, list⟩ | ⟨m, rfl, middle, left, others⟩
  · exact ⟨none, s₁, g₁, rfl, inv₁, nodes, .inl ⟨rfl, out, by simp [absent, list]⟩⟩
  · obtain ⟨r₂, s₂, g₂, run₂, inv₂, nodes₂, outcome₂⟩ :=
      inv₁.walkLevel_alloc (l := .low space (va / 4096 / 512)) trivial (by simp) middle
        (PX_one va)
    dsimp only
    rw [bind_ok run₂]
    rw [others _ (by simp)] at outcome₂
    rcases outcome₂ with ⟨rfl, out, absent, list⟩ | ⟨low, rfl, found, left₂, _⟩
    · refine ⟨none, s₂, g₂, rfl, inv₂, nodes.trans nodes₂, .inl ⟨rfl, out, ?_⟩⟩
      rw [← left, list, absent]
      simp
    · exact ⟨_, s₂, g₂, rfl, inv₂, nodes.trans nodes₂,
        .inr ⟨low, by rw [PX_zero], found, by omega⟩⟩

end Inv

end Xv6.Vm

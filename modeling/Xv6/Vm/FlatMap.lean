import Xv6.Library.Runs
import Xv6.Vm.MappingSpec

/-! Page tables as flat maps. Several page tables are built by `uvmcreate` and changed by
`walk`, `mappages` and `uvmunmap`; the abstract side keeps a partial map from virtual page
numbers to physical pages and flags for each of them.
-/

namespace Xv6.Vm.FlatMap

open Function Library

-- The page tables and the calls

/-- The memory, and the page tables that `uvmcreate` has built in it. -/
structure System where
  phys : Phys
  tables : List Nat

inductive Action where
  | uvmcreate
  | walk (pagetable va : Nat)
  | mappages (pagetable va size pa : Nat) (perm : Pte)
  | uvmunmap (pagetable va npages : Nat) (doFree : Bool)
  /-- Other kernel code leaves the memory as given. -/
  | elsewhere (phys : Phys)

inductive Answer where
  | table (pagetable : Option Nat)
  | entry (found : Option (Nat × Nat))
  | mapped (done : Bool)
  | done
  deriving DecidableEq

def Action.run (layout : Layout) (s : System) : Action → Except String (Answer × System)
  | .uvmcreate => do
      let (pagetable, phys) ← Vm.uvmcreate s.phys
      return (.table pagetable, ⟨phys, pagetable.toList ++ s.tables⟩)
  | .walk pagetable va => do
      let (found, phys) ← Vm.walk pagetable va true s.phys
      return (.entry found, ⟨phys, s.tables⟩)
  | .mappages pagetable va size pa perm => do
      let (done, phys) ← Vm.mappages pagetable va size pa perm s.phys
      return (.mapped done, ⟨phys, s.tables⟩)
  | .uvmunmap pagetable va npages doFree => do
      let (_, phys) ← Vm.uvmunmap layout pagetable va npages doFree s.phys
      return (.done, ⟨phys, s.tables⟩)
  | .elsewhere phys => return (.done, ⟨phys, s.tables⟩)

def Step (layout : Layout) (before : System) (step : Action × Answer) (after : System) : Prop :=
  step.1.run layout before = .ok (step.2, after)

-- What the tables say

/-- The physical page and the flags of a valid entry. -/
def translation (pte : Pte) : Option (Nat × Pte) :=
  if pte.has PTE_V then some (PTE2PA pte, PTE_FLAGS pte) else none

/-- What the page table says about virtual page `v`. -/
def translate (s : Phys) (pagetable v : Nat) : Option (Nat × Pte) :=
  match Vm.walk pagetable (4096 * v) false s with
  | .ok (some (page, i), _) => translation ((s.page page).entry i)
  | _ => none

/-- The page-table page that the entries on the path lead to, from page `n` on. -/
def nodeAt (mem : Nat → Page) : Nat → List Nat → Option Nat
  | n, [] => some n
  | n, i :: path =>
    let pte := (mem n).entry i
    if pte.has PTE_V then nodeAt mem (PTE2PA pte / 4096) path else none

/-- The positions of a tree: the root, an entry of the root, and an entry below that. -/
def Position (path : List Nat) : Prop := path.length ≤ 2 ∧ ∀ i ∈ path, i < 512

/-- Page `n` is a page-table page. -/
def System.IsNode (s : System) (n : Nat) : Prop :=
  ∃ pagetable ∈ s.tables, ∃ path, Position path
    ∧ nodeAt s.phys.mem (pagetable / 4096) path = some n

/-- The allocator is in order: the free pages are pages of RAM, all different, and nobody
refers to one.
-/
structure Heap (layout : Layout) (s : Phys) : Prop where
  nodup : s.freelist.Nodup
  pages : ∀ pa ∈ s.freelist, pa % 4096 = 0 ∧ InRam layout (pa / 4096) ∧ s.ref pa = 0

/-- The calls: on page-aligned ranges below `MAXVA`, of pages not yet mapped for `mappages`.
The other code of the kernel keeps the allocator in order and leaves page-table pages alone.
-/
def Fits (layout : Layout) (s : System) : Action → Prop
  | .uvmcreate => True
  | .walk pagetable va => pagetable ∈ s.tables ∧ va < MAXVA
  | .mappages pagetable va size pa perm =>
    pagetable ∈ s.tables ∧ va % 4096 = 0 ∧ size % 4096 = 0 ∧ 0 < size ∧ va + size ≤ MAXVA
    ∧ pa % 4096 = 0 ∧ pa + size ≤ 2 ^ 56 ∧ perm.toNat < 1024
    ∧ ∀ v, va / 4096 ≤ v → v < (va + size) / 4096 → translate s.phys pagetable v = none
  | .uvmunmap pagetable va npages _ =>
    pagetable ∈ s.tables ∧ va % 4096 = 0 ∧ va + 4096 * npages ≤ MAXVA
  | .elsewhere phys =>
    Heap layout phys
    ∧ ∀ n, s.IsNode n → phys.mem n = s.phys.mem n ∧ 4096 * n ∉ phys.freelist

/-- A `uvmunmap` with `do_free` frees no page-table page. -/
def FreesData (s : System) : Action → Prop
  | .uvmunmap pagetable va npages true =>
    ∀ v, va / 4096 ≤ v → v < va / 4096 + npages
      → ∀ pa flags, translate s.phys pagetable v = some (pa, flags) → ¬s.IsNode (pa / 4096)
  | _ => True

-- The abstract side

/-- For each page table, a partial map from virtual page numbers to physical pages and
flags.
-/
structure Flat where
  tables : List Nat
  map : Nat → Nat → Option (Nat × Pte)

namespace Flat

def empty : Flat := ⟨[], fun _ _ => none⟩

def create (flat : Flat) (pagetable : Nat) : Flat where
  tables := pagetable :: flat.tables
  map := update flat.map pagetable fun _ => none

/-- Consecutive virtual pages get consecutive physical pages. -/
def mapRange (flat : Flat) (pagetable first pages pa : Nat) (flags : Pte) : Flat where
  tables := flat.tables
  map := update flat.map pagetable fun v =>
    if first ≤ v ∧ v < first + pages then some (pa + 4096 * (v - first), flags)
    else flat.map pagetable v

def unmapRange (flat : Flat) (pagetable first pages : Nat) : Flat where
  tables := flat.tables
  map := update flat.map pagetable fun v =>
    if first ≤ v ∧ v < first + pages then none else flat.map pagetable v

theorem create_map (flat : Flat) (pagetable table v : Nat)
    : (flat.create pagetable).map table v
      = if table = pagetable then none else flat.map table v := by
  unfold create
  by_cases here : table = pagetable <;> simp [here]

theorem mapRange_map (flat : Flat) (pagetable first pages pa : Nat) (flags : Pte) (table v : Nat)
    : (flat.mapRange pagetable first pages pa flags).map table v
      = if table = pagetable ∧ first ≤ v ∧ v < first + pages
        then some (pa + 4096 * (v - first), flags) else flat.map table v := by
  unfold mapRange
  by_cases here : table = pagetable <;> simp [here]

theorem unmapRange_map (flat : Flat) (pagetable first pages table v : Nat)
    : (flat.unmapRange pagetable first pages).map table v
      = if table = pagetable ∧ first ≤ v ∧ v < first + pages then none
        else flat.map table v := by
  unfold unmapRange
  by_cases here : table = pagetable <;> simp [here]

/-- A `mappages` that fails has mapped the first pages of its range. -/
inductive Step (before : Flat) : Action × Answer → Flat → Prop
  | noTable : Step before (.uvmcreate, .table none) before
  | table {pagetable} (fresh : pagetable ∉ before.tables)
    : Step before (.uvmcreate, .table (some pagetable)) (before.create pagetable)
  | walk {pagetable va found} : Step before (.walk pagetable va, .entry found) before
  | mapped {pagetable va size pa perm}
    : Step before (.mappages pagetable va size pa perm, .mapped true)
        (before.mapRange pagetable (va / 4096) (size / 4096) pa (perm ||| PTE_V))
  | failed {pagetable va size pa perm} {pages : Nat} (some : pages < size / 4096)
    : Step before (.mappages pagetable va size pa perm, .mapped false)
        (before.mapRange pagetable (va / 4096) pages pa (perm ||| PTE_V))
  | unmapped {pagetable va npages doFree}
    : Step before (.uvmunmap pagetable va npages doFree, .done)
        (before.unmapRange pagetable (va / 4096) npages)
  | elsewhere {phys} : Step before (.elsewhere phys, .done) before

end Flat

-- The allocator

namespace Heap

variable {layout : Layout} {s : Phys}

section

variable (heap : Heap layout s)
include heap

/-- The first free page, if there is one. -/
theorem cases
    : s.freelist = [] ∨ ∃ n rest, s.freelist = 4096 * n :: rest ∧ n < 2 ^ 44
        ∧ 4096 * n ∉ rest ∧ Heap layout (s.taken n rest) := by
  cases list : s.freelist with
  | nil => exact .inl rfl
  | cons pa rest =>
    have member : pa ∈ s.freelist := by simp [list]
    obtain ⟨aligned, ram, _⟩ := heap.pages pa member
    have address : 4096 * (pa / 4096) = pa := by omega
    have nodup := heap.nodup
    rw [list, List.nodup_cons] at nodup
    refine .inr ⟨pa / 4096, rest, by rw [address], ram.small, by rw [address]; exact nodup.1,
      ⟨nodup.2, ?_⟩⟩
    intro other (inside : other ∈ rest)
    obtain ⟨aligned', ram', unused⟩ := heap.pages other (by simp [list, inside])
    have apart : other / 4096 ≠ pa / 4096 := by
      intro same
      have : other = pa := by omega
      exact nodup.1 (this ▸ inside)
    exact ⟨aligned', ram', (update_of_ne apart _ _).trans unused⟩

theorem of_eq {s' : Phys} (list : s'.freelist = s.freelist) (counts : s'.refCount = s.refCount)
    : Heap layout s' := by
  refine ⟨list ▸ heap.nodup, ?_⟩
  rw [list]
  intro pa member
  have page := heap.pages pa member
  rwa [Phys.ref, counts]

/-- A counted page is not on the free list. -/
theorem not_free {n : Nat} (counted : 0 < s.refCount n) : 4096 * n ∉ s.freelist := by
  intro member
  have unused := (heap.pages _ member).2.2
  have page : 4096 * n / 4096 = n := by omega
  rw [Phys.ref, page] at unused
  omega

/-- Giving a counted page back keeps the counts and the free list in step. -/
theorem release {n : Nat} (ram : InRam layout n) (counted : 0 < s.refCount n)
    : Heap layout (s.release n) := by
  have busy := heap.not_free counted
  have page : 4096 * n / 4096 = n := by omega
  have others : ∀ pa ∈ s.freelist, pa % 4096 = 0 ∧ InRam layout (pa / 4096)
      ∧ (s.release n).ref pa = 0 := by
    intro pa member
    obtain ⟨aligned, ram', unused⟩ := heap.pages pa member
    have apart : pa / 4096 ≠ n := by
      rintro rfl
      exact busy (by rwa [show 4096 * (pa / 4096) = pa by omega])
    exact ⟨aligned, ram', (update_of_ne apart _ _).trans unused⟩
  by_cases last : s.refCount n = 1
  · have list : (s.release n).freelist = 4096 * n :: s.freelist := if_pos last
    refine ⟨list ▸ List.nodup_cons.mpr ⟨busy, heap.nodup⟩, ?_⟩
    rw [list]
    intro pa member
    rcases List.mem_cons.mp member with rfl | old
    · refine ⟨by omega, by rwa [page], ?_⟩
      simp [Phys.ref, Phys.release, last]
    · exact others pa old
  · have list : (s.release n).freelist = s.freelist := if_neg last
    exact ⟨list ▸ heap.nodup, list ▸ others⟩

end

end Heap

/-- `kfree` panics, or gives back a page of RAM that somebody refers to. -/
theorem kfree_cases (layout : Layout) (s : Phys) (n : Nat)
    : (Vm.kfree layout (4096 * n) s = .error "kfree"
        ∨ Vm.kfree layout (4096 * n) s
          = .error "kfree: reference count less than or equal to 0")
      ∨ InRam layout n ∧ 0 < s.refCount n
        ∧ Vm.kfree layout (4096 * n) s = .ok ((), s.release n) := by
  by_cases ram : InRam layout n
  · by_cases counted : 0 < s.refCount n
    · exact .inr ⟨ram, counted, kfree_run ram counted⟩
    · have none : s.refCount n ≤ 0 := by omega
      refine .inl (.inr ?_)
      simp [Vm.kfree, ram.1, ram.2, Phys.ref, none]
  · refine .inl (.inl ?_)
    unfold Vm.kfree
    rw [if_pos]
    simp only [InRam] at ram
    omega

-- The trees in memory

/-- The nodes and leaves of the page tables, as the ghost record lists them: every node has
its own page, and none of them is free.
-/
structure Trees (layout : Layout) (tables : List Nat) (s : Phys) (g : Ghost Nat) : Prop where
  aligned : ∀ pagetable ∈ tables, pagetable % 4096 = 0
  roots : ∀ pagetable, g.table (.root pagetable)
    = if pagetable ∈ tables then some (pagetable / 4096) else none
  shape : Shape s.mem g
  unique : ∀ {l l' : Label Nat} {n : Nat}, g.table l = some n → g.table l' = some n → l = l'
  heap : Heap layout s
  apart : ∀ {l : Label Nat} {n : Nat}, g.table l = some n → 4096 * n ∉ s.freelist

def noTables : Ghost Nat where
  table _ := none
  leaf _ _ := 0
  owner _ := .outside
  held _ := 0

namespace Trees

variable {layout : Layout} {tables : List Nat} {s : Phys} {g : Ghost Nat} {pagetable : Nat}

theorem initial (heap : Heap layout s) : Trees layout [] s noTables where
  aligned := by simp
  roots _ := rfl
  shape :=
    { entries := fun _ _ _ found => by cases found
      parents := fun _ _ found => by cases found
      upper := fun _ _ _ => rfl
      leaves := fun _ _ _ found => by cases found
      unmapped := fun _ _ _ => rfl }
  unique found := by cases found
  heap := heap
  apart found := by cases found

section

variable (trees : Trees layout tables s g)
include trees

theorem root (known : pagetable ∈ tables)
    : g.table (.root pagetable) = some (pagetable / 4096) := by
  rw [trees.roots, if_pos known]

theorem address (known : pagetable ∈ tables) : 4096 * (pagetable / 4096) = pagetable := by
  have := trees.aligned pagetable known
  omega

/-- Without `alloc`, `walk` finds the entry of a page or misses it, as the tree says. -/
theorem look (known : pagetable ∈ tables) {va : Nat} (bound : va < MAXVA)
    : (Vm.walk pagetable va false s = .ok (none, s) ∧ g.leaf pagetable (va / 4096) = 0)
      ∨ ∃ m, Vm.walk pagetable va false s = .ok (some (4096 * m, va / 4096 % 512), s)
        ∧ g.table (.low pagetable (va / 4096 / 512)) = some m
        ∧ g.leaf pagetable (va / 4096) = ((s.mem m).entry (va / 4096 % 512)).mapped := by
  have found := trees.shape.look (trees.root known) bound
  rwa [trees.address known] at found

theorem leaf_high {v : Nat} (high : MAXVA ≤ 4096 * v) : g.leaf pagetable v = 0 := by
  apply trees.shape.unmapped
  apply trees.shape.below_vacant (l := .mid pagetable (v / 512 / 512)) _ _ rfl
  apply trees.shape.upper
  simp only [MAXVA] at high
  omega

end

theorem translation_mapped (pte : Pte) : translation pte.mapped = translation pte := by
  unfold translation
  rw [Pte.has_mapped]
  by_cases valid : pte.has PTE_V = true
  · rw [Pte.mapped_of_valid valid]
  · rw [if_neg valid, if_neg valid]

/-- What the hardware walk reads is the translation of the leaf. -/
theorem translate_eq (trees : Trees layout tables s g) (known : pagetable ∈ tables) (v : Nat)
    : translate s pagetable v = translation (g.leaf pagetable v) := by
  have page : 4096 * v / 4096 = v := by omega
  unfold translate
  by_cases bound : 4096 * v < MAXVA
  · rcases trees.look known bound with ⟨walked, leaf⟩ | ⟨m, walked, _, leaf⟩
    · rw [walked, ← page, leaf]
      rfl
    · rw [walked, page] at *
      rw [leaf, translation_mapped]
      dsimp only
      rw [Phys.page_mul]
  · have panics : Vm.walk pagetable (4096 * v) false s = .error "walk" := by
      unfold Vm.walk
      rw [if_pos (by omega)]
      rfl
    rw [panics, trees.leaf_high (by omega)]
    rfl

/-- Trees whose nodes have not changed are the same trees. -/
theorem frame (trees : Trees layout tables s g) {s' : Phys} (heap : Heap layout s')
    (same : ∀ l n, g.table l = some n → s'.mem n = s.mem n ∧ 4096 * n ∉ s'.freelist)
    : Trees layout tables s' g where
  aligned := trees.aligned
  roots := trees.roots
  shape := trees.shape.frame fun l n found => (same l n found).1
  unique := trees.unique
  heap := heap
  apart found := (same _ _ found).2

-- Nodes

/-- The node at a position. -/
def labelOf (pagetable : Nat) : List Nat → Label Nat
  | [] => .root pagetable
  | [i] => .mid pagetable i
  | i :: j :: _ => .low pagetable (512 * i + j)

section

variable (trees : Trees layout tables s g)
include trees

/-- One step down a path. -/
theorem nodeAt_cons {l : Label Nat} {p : Nat} (inner : l.Inner) (above : g.table l.parent = some p)
    (rest : List Nat)
    : nodeAt s.mem p (l.index :: rest) = (g.table l).bind fun n => nodeAt s.mem n rest := by
  have entry := trees.shape.entries l p inner above
  rw [nodeAt]
  cases found : g.table l with
  | none =>
    rw [found] at entry
    simp only [TableEntry] at entry
    simp [entry]
  | some n =>
    rw [found] at entry
    have page : 4096 * n / 4096 = n := by omega
    rw [entry.1, nodeEntry_pa entry.2, if_pos (nodeEntry_valid n), page, Option.bind_some]

/-- Following a path in memory leads to the node that the ghost record has there. -/
theorem nodeAt_eq (known : pagetable ∈ tables) {path : List Nat} (position : Position path)
    : nodeAt s.mem (pagetable / 4096) path = g.table (labelOf pagetable path) := by
  obtain ⟨short, small⟩ := position
  have root := trees.root known
  rcases path with _ | ⟨i, _ | ⟨j, _ | ⟨k, rest⟩⟩⟩
  · exact root.symm
  · have step := trees.nodeAt_cons (l := .mid pagetable i) (small i (by simp)) root []
    rw [Label.index] at step
    rw [step, labelOf]
    cases g.table (.mid pagetable i) <;> rfl
  · have step := trees.nodeAt_cons (l := .mid pagetable i) (small i (by simp)) root [j]
    have bound := small j (by simp)
    have quotient : (512 * i + j) / 512 = i := by omega
    have remainder : (512 * i + j) % 512 = j := by omega
    rw [Label.index] at step
    rw [step, labelOf]
    cases middle : g.table (.mid pagetable i) with
    | none =>
      exact (trees.shape.below_vacant (.low pagetable (512 * i + j)) middle
        (by rw [Label.parent, quotient])).symm
    | some m =>
      have second := trees.nodeAt_cons (l := .low pagetable (512 * i + j)) (p := m) trivial
        (by rw [Label.parent, quotient]; exact middle) []
      rw [Label.index, remainder] at second
      rw [Option.bind_some, second]
      cases g.table (.low pagetable (512 * i + j)) <;> rfl
  · simp at short

/-- Every node of the ghost record stands at a position of a known table. -/
theorem position {l : Label Nat} {n : Nat} (found : g.table l = some n)
    : ∃ pagetable ∈ tables, ∃ path, Position path ∧ labelOf pagetable path = l := by
  have known {pagetable p : Nat} (root : g.table (.root pagetable) = some p)
      : pagetable ∈ tables := by
    by_contra unknown
    rw [trees.roots, if_neg unknown] at root
    cases root
  have below {pagetable i m : Nat} (middle : g.table (.mid pagetable i) = some m)
      : pagetable ∈ tables ∧ i < 512 := by
    obtain ⟨p, above⟩ := trees.shape.parents _ _ middle
    refine ⟨known above, ?_⟩
    by_contra high
    rw [trees.shape.upper pagetable i (by omega)] at middle
    cases middle
  cases l with
  | root pagetable => exact ⟨pagetable, known found, [], ⟨by simp, by simp⟩, rfl⟩
  | mid pagetable i =>
    obtain ⟨inside, small⟩ := below found
    exact ⟨pagetable, inside, [i], ⟨by simp, by simpa using small⟩, rfl⟩
  | low pagetable q =>
    obtain ⟨m, above⟩ := trees.shape.parents _ _ found
    obtain ⟨inside, small⟩ := below above
    refine ⟨pagetable, inside, [q / 512, q % 512], ⟨by simp, ?_⟩, ?_⟩
    · intro i member
      rcases List.mem_cons.mp member with rfl | last
      · exact small
      · rw [List.mem_singleton.mp last]
        exact Nat.mod_lt q (by decide)
    · rw [labelOf, Nat.div_add_mod]

theorem isNode_iff (n : Nat) : System.IsNode ⟨s, tables⟩ n ↔ ∃ l, g.table l = some n := by
  constructor
  · rintro ⟨pagetable, known, path, isPosition, found⟩
    exact ⟨_, (trees.nodeAt_eq known isPosition).symm.trans found⟩
  · rintro ⟨l, found⟩
    obtain ⟨pagetable, known, path, isPosition, rfl⟩ := trees.position found
    exact ⟨pagetable, known, path, isPosition, (trees.nodeAt_eq known isPosition).trans found⟩

end

/-- Two positions with one label are one position. -/
theorem labelOf_inj {pagetable' : Nat} {path path' : List Nat} (position : Position path)
    (position' : Position path') (same : labelOf pagetable path = labelOf pagetable' path')
    : pagetable = pagetable' ∧ path = path' := by
  obtain ⟨short, small⟩ := position
  obtain ⟨short', small'⟩ := position'
  rcases path with _ | ⟨i, _ | ⟨j, _ | ⟨k, rest⟩⟩⟩ <;>
    rcases path' with _ | ⟨i', _ | ⟨j', _ | ⟨k', rest'⟩⟩⟩ <;>
    simp only [labelOf, reduceCtorEq, List.length_cons, Label.root.injEq, Label.mid.injEq,
      Label.low.injEq] at same short short'
  · exact ⟨same, rfl⟩
  · exact ⟨same.1, by rw [same.2]⟩
  · have bound := small j (by simp)
    have bound' := small' j' (by simp)
    refine ⟨same.1, ?_⟩
    rw [show i = i' by omega, show j = j' by omega]
  all_goals omega

end Trees

end Xv6.Vm.FlatMap

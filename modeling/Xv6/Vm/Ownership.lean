import Xv6.Library.Counting
import Xv6.Library.Fallible
import Xv6.Vm.Entries

/-! Who owns each physical page. Every page of RAM is free, holds data, or is one node of one
address space's page table; a data page is referred to by leaf entries and by kernel owners,
and its reference count is their number. The ownership of a state is a separate record, kept
next to the state it describes.
-/

namespace Xv6.Vm

open Function Library

/-- `TRAPFRAME / PGSIZE`: the page numbers below it are user memory. -/
def userPages : Nat := 2 ^ 26 - 2

/-- The place of a page-table page: the root of a space, the node for a 1 GB region, or the
node for a 2 MB region.
-/
inductive Label (ι : Type) where
  | root (space : ι)
  | mid (space : ι) (i : Nat)
  | low (space : ι) (q : Nat)
  deriving DecidableEq

inductive Owner (ι : Type) where
  | outside
  | free
  | data
  | table (label : Label ι)
  deriving DecidableEq

variable {ι : Type}

namespace Label

/-- The node whose entries refer to this one; a root has none above it. -/
def parent : Label ι → Label ι
  | root space => root space
  | mid space _ => root space
  | low space q => mid space (q / 512)

/-- The entry of the parent that refers to this node. -/
def index : Label ι → Nat
  | root _ => 0
  | mid _ i => i
  | low _ q => q % 512

/-- The space that a node belongs to. -/
def space : Label ι → ι
  | root space => space
  | mid space _ => space
  | low space _ => space

/-- Whether the node stands under an entry of another one. -/
def Inner : Label ι → Prop
  | root _ => False
  | mid _ i => i < 512
  | low _ _ => True

variable {l : Label ι}

theorem index_lt (inner : l.Inner) : l.index < 512 := by
  cases l with
  | root space => exact inner.elim
  | mid space i => exact inner
  | low space q => exact Nat.mod_lt q (by decide)

/-- A node is known by its parent and its index there. -/
theorem eq_of_parent {l' : Label ι} (inner : l.Inner) (inner' : l'.Inner)
    (parents : l.parent = l'.parent) (indices : l.index = l'.index)
    : l = l' := by
  cases l <;> cases l' <;> simp only [Inner, parent, index, root.injEq, mid.injEq,
    reduceCtorEq] at *
  · exact ⟨parents, indices⟩
  · obtain ⟨rfl, quotient⟩ := parents
    simp only [low.injEq, true_and]
    omega

theorem parent_ne (inner : l.Inner) : l.parent ≠ l := by
  cases l <;> simp_all [Inner, parent]

end Label

/-- The ownership of a state. `leaf` is the page table of each space as a flat map: the valid
entry of a page, or 0.
-/
structure Ghost (ι : Type) where
  table : Label ι → Option Nat
  leaf : ι → Nat → Pte
  owner : Nat → Owner ι
  held : Nat → Nat

/-- A page of `[end, PHYSTOP)`. -/
def InRam (layout : Layout) (n : Nat) : Prop := layout.kernelEnd ≤ 4096 * n ∧ 4096 * n < PHYSTOP

/-- Page numbers of RAM fit into an entry. -/
theorem InRam.small {layout : Layout} {n : Nat} (ram : InRam layout n) : n < 2 ^ 44 := by
  have top := ram.2
  simp only [PHYSTOP, KERNBASE] at top
  omega

/-- The entry is valid and refers to page `n`. -/
def Pte.refersTo (n : Nat) (pte : Pte) : Bool := pte.has PTE_V && pte.ppn == n

/-- What an invalid entry means, whatever its other bits say. -/
def Pte.mapped (pte : Pte) : Pte := if pte.has PTE_V then pte else 0

def Owner.token : Owner ι → Nat
  | .table _ => 1
  | _ => 0

section

variable [Fintype ι]

/-- The leaf entries of user memory that refer to page `n`. -/
def Ghost.leafCount (g : Ghost ι) (n : Nat) : Nat :=
  countEntries (Finset.range userPages) (Pte.refersTo n) g.leaf

/-- All references to the data page `n`. -/
def Ghost.count (g : Ghost ι) (n : Nat) : Nat := g.leafCount n + g.held n

end

/-- The free list holds the free pages, each once. -/
def FreeList (freelist : List Nat) (owner : Nat → Owner ι) : Prop :=
  ∃ pages : List Nat, freelist = pages.map (4096 * ·) ∧ pages.Nodup
    ∧ ∀ n, n ∈ pages ↔ owner n = .free

/-- The free list and the reference counts agree with the owners. -/
structure Accounts [Fintype ι] (layout : Layout) (freelist : List Nat) (refCount : Nat → Int)
    (g : Ghost ι) : Prop where
  free : FreeList freelist g.owner
  ram : ∀ n, g.owner n ≠ .outside ↔ InRam layout n
  data : ∀ n, 0 < g.count n ↔ g.owner n = .data
  refs : ∀ n, g.owner n ≠ .outside → refCount n = (g.count n + (g.owner n).token : Nat)
  tables : ∀ l n, g.owner n = .table l ↔ g.table l = some n

/-- What an entry of an inner node says: nothing there, or the node below. -/
def TableEntry (pte : Pte) : Option Nat → Prop
  | none => pte.has PTE_V = false
  | some n => pte = PA2PTE (4096 * n) ||| PTE_V ∧ n < 2 ^ 44

/-- The pages of the nodes hold the page tables. -/
structure Shape (mem : Nat → Page) (g : Ghost ι) : Prop where
  entries : ∀ l p, l.Inner → g.table l.parent = some p
    → TableEntry ((mem p).entry l.index) (g.table l)
  parents : ∀ l n, g.table l = some n → ∃ p, g.table l.parent = some p
  upper : ∀ space i, 256 ≤ i → g.table (.mid space i) = none
  leaves : ∀ space v n, g.table (.low space (v / 512)) = some n
    → g.leaf space v = ((mem n).entry (v % 512)).mapped
  unmapped : ∀ space v, g.table (.low space (v / 512)) = none → g.leaf space v = 0

-- Accounts

namespace FreeList

variable {freelist : List Nat} {owner : Nat → Owner ι} {n : Nat}

/-- The first page of the free list is taken. -/
theorem pop (free : FreeList (4096 * n :: freelist) owner)
    : owner n = .free ∧ FreeList freelist (update owner n .data) := by
  obtain ⟨pages, list, nodup, member⟩ := free
  cases pages with
  | nil => cases list
  | cons first others =>
    simp only [List.map_cons, List.cons.injEq] at list
    obtain ⟨address, rfl⟩ := list
    have same : n = first := by omega
    subst same
    rw [List.nodup_cons] at nodup
    refine ⟨(member n).mp List.mem_cons_self, others, rfl, nodup.2, ?_⟩
    intro m
    by_cases same : m = n
    · subst same
      simp [nodup.1]
    · simpa [same] using member m

/-- A page is put on the free list. -/
theorem push (free : FreeList freelist owner) (taken : owner n ≠ .free)
    : FreeList (4096 * n :: freelist) (update owner n .free) := by
  obtain ⟨pages, rfl, nodup, member⟩ := free
  have fresh : n ∉ pages := fun inside => taken ((member n).mp inside)
  refine ⟨n :: pages, rfl, List.nodup_cons.mpr ⟨fresh, nodup⟩, ?_⟩
  intro m
  by_cases same : m = n
  · simp [same]
  · simpa [same] using member m

/-- A page changes hands without being free. -/
theorem keep (free : FreeList freelist owner) (taken : owner n ≠ .free) {next : Owner ι}
    (next_taken : next ≠ .free)
    : FreeList freelist (update owner n next) := by
  obtain ⟨pages, rfl, nodup, member⟩ := free
  refine ⟨pages, rfl, nodup, ?_⟩
  intro m
  by_cases same : m = n
  · subst same
    simp [member, taken, next_taken]
  · simpa [same] using member m

end FreeList

namespace Accounts

variable [Fintype ι] {layout : Layout} {freelist : List Nat} {refCount : Nat → Int}
  {g : Ghost ι}
variable {n : Nat}

/-- Only data pages are referred to. -/
theorem count_zero (accounts : Accounts layout freelist refCount g) (other : g.owner n ≠ .data)
    : g.count n = 0 := by
  by_contra positive
  exact other ((accounts.data n).mp (Nat.pos_of_ne_zero positive))

variable {l : Label ι}

section

variable (accounts : Accounts layout freelist refCount g)
include accounts

/-- A page is one node only. -/
theorem label_unique {l' : Label ι} (found : g.table l = some n) (found' : g.table l' = some n)
    : l = l' := by
  have owner := (accounts.tables l n).mpr found
  have owner' := (accounts.tables l' n).mpr found'
  rw [owner] at owner'
  exact Owner.table.inj owner'

theorem small (owned : g.owner n ≠ .outside) : n < 2 ^ 44 :=
  ((accounts.ram n).mp owned).small

/-- References may move as long as each page keeps their number. -/
theorem recount {leaf : ι → Nat → Pte} {held : Nat → Nat}
    (same : ∀ n, { g with leaf, held }.count n = g.count n)
    : Accounts layout freelist refCount { g with leaf, held } where
  free := accounts.free
  ram := accounts.ram
  data n := by
    rw [same]
    exact accounts.data n
  refs n owned := by
    rw [same]
    exact accounts.refs n owned
  tables := accounts.tables

/-- The accounts after a change to the owner and the references of one page. -/
theorem change {freelist' : List Nat} (n : Nat) (owner : Owner ι) (held : Nat) (ref : Int)
    (table : Label ι → Option Nat) (before : g.owner n ≠ .outside) (after : owner ≠ .outside)
    (free : FreeList freelist' (update g.owner n owner))
    (data : 0 < g.leafCount n + held ↔ owner = .data)
    (refs : ref = (g.leafCount n + held + owner.token : Nat))
    (tables : ∀ l, owner = .table l ↔ table l = some n)
    (others : ∀ l m, m ≠ n → (table l = some m ↔ g.table l = some m))
    : Accounts layout freelist' (update refCount n ref)
        { g with
          table := table
          owner := update g.owner n owner
          held := update g.held n held } := by
  refine ⟨free, ?_, ?_, ?_, ?_⟩
  · intro m
    by_cases same : m = n
    · subst same
      simpa [before, after] using accounts.ram m
    · simpa [same] using accounts.ram m
  · intro m
    by_cases same : m = n
    · subst same
      simpa [Ghost.count, Ghost.leafCount] using data
    · simpa [Ghost.count, Ghost.leafCount, same] using accounts.data m
  · intro m owned
    by_cases same : m = n
    · subst same
      simpa [Ghost.count, Ghost.leafCount] using refs
    · simp only [update_of_ne same] at owned
      simpa [Ghost.count, Ghost.leafCount, same] using accounts.refs m owned
  · intro l m
    by_cases same : m = n
    · subst same
      simpa using tables l
    · simpa [same, others l m same] using accounts.tables l m

theorem leafCount_zero (other : g.owner n ≠ .data) : g.leafCount n = 0 := by
  have none := accounts.count_zero other
  simp only [Ghost.count] at none
  omega

theorem held_zero (other : g.owner n ≠ .data) : g.held n = 0 := by
  have none := accounts.count_zero other
  simp only [Ghost.count] at none
  omega

theorem not_table (other : ∀ l, g.owner n ≠ .table l) (l : Label ι) : g.table l ≠ some n :=
  fun found => other l ((accounts.tables l n).mpr found)

/-- The head of the free list becomes a data page with one owner. -/
theorem take {rest : List Nat} (head : freelist = 4096 * n :: rest)
    : g.owner n = .free
      ∧ Accounts layout rest (update refCount n 1)
          { g with
            owner := update g.owner n .data
            held := update g.held n 1 } := by
  obtain ⟨isFree, free⟩ := (head ▸ accounts.free).pop
  have leaves : g.leafCount n = 0 := accounts.leafCount_zero (by simp [isFree])
  refine ⟨isFree, accounts.change n .data 1 1 g.table (by simp [isFree]) (by simp) free
    ?_ ?_ ?_ ?_⟩
  · simp
  · simp [leaves, Owner.token]
  · intro l
    simpa using accounts.not_table (by simp [isFree]) l
  · simp

/-- The kernel references of a data page change with its count. -/
theorem adjust {held : Nat} {ref : Int} (isData : g.owner n = .data)
    (positive : 0 < g.leafCount n + held) (refs : ref = (g.leafCount n + held : Nat))
    : Accounts layout freelist (update refCount n ref)
        { g with held := update g.held n held } := by
  have result := accounts.change n (g.owner n) held ref g.table (by simp [isData])
    (by simp [isData]) (by simpa using accounts.free) (by simp [isData, positive])
    (by simp [isData, Owner.token, refs]) (fun l => accounts.tables l n) (by simp)
  simpa using result

/-- One of several references is given up. -/
theorem dropOne (held : 0 < g.held n) (more : 1 < g.count n)
    : Accounts layout freelist (update refCount n (refCount n - 1))
        { g with held := update g.held n (g.held n - 1) } := by
  have isData : g.owner n = .data := (accounts.data n).mp (by omega)
  have before := accounts.refs n (by simp [isData])
  simp only [isData, Owner.token, Ghost.count] at before more
  exact accounts.adjust isData (by omega) (by omega)

/-- A data page gets another kernel reference. -/
theorem retain (isData : g.owner n = .data)
    : Accounts layout freelist (update refCount n (refCount n + 1))
        { g with held := update g.held n (g.held n + 1) } := by
  have before := accounts.refs n (by simp [isData])
  simp only [isData, Owner.token, Ghost.count] at before
  exact accounts.adjust isData (by omega) (by omega)

/-- The last reference to a page goes, and the page goes to the free list. -/
theorem dropLast (held : 0 < g.held n) (last : g.count n = 1)
    : Accounts layout (4096 * n :: freelist) (update refCount n (refCount n - 1))
        { g with
          owner := update g.owner n .free
          held := update g.held n 0 } := by
  have isData : g.owner n = .data := (accounts.data n).mp (by omega)
  have before := accounts.refs n (by simp [isData])
  simp only [Ghost.count, isData, Owner.token] at last before
  have leaves : g.leafCount n = 0 := by omega
  refine accounts.change n .free 0 _ g.table (by simp [isData]) (by simp)
    (accounts.free.push (by simp [isData])) ?_ ?_ ?_ ?_
  · simp [leaves]
  · simp only [Owner.token]
    omega
  · intro l
    simpa using accounts.not_table (by simp [isData]) l
  · simp

end

variable [DecidableEq ι]

/-- A page with a single owner becomes a node of a page table. -/
theorem adopt (accounts : Accounts layout freelist refCount g) (held : g.held n = 1)
    (unmapped : g.leafCount n = 0) (vacant : g.table l = none)
    : Accounts layout freelist refCount
        { g with
          table := update g.table l (some n)
          owner := update g.owner n (.table l)
          held := update g.held n 0 } := by
  have isData : g.owner n = .data := (accounts.data n).mp (by simp [Ghost.count, held])
  have before := accounts.refs n (by simp [isData])
  simp only [Ghost.count, held, isData] at before
  have result := accounts.change n (.table l) 0 (refCount n)
    (update g.table l (some n)) (by simp [isData]) (by simp)
    (accounts.free.keep (by simp [isData]) (by simp)) (by simp [unmapped])
    (by simp [unmapped, before, Owner.token]) ?_ ?_
  · simpa using result
  · intro l'
    by_cases same : l' = l
    · simp [same]
    · simpa [same, Ne.symm same] using accounts.not_table (by simp [isData]) l'
  · intro l' m other
    by_cases same : l' = l
    · simp [same, vacant, Ne.symm other]
    · simp [same]

/-- A node leaves its page table and is a data page with a single owner again. -/
theorem disown (accounts : Accounts layout freelist refCount g) (found : g.table l = some n)
    : Accounts layout freelist refCount
        { g with
          table := update g.table l none
          owner := update g.owner n .data
          held := update g.held n 1 } := by
  have isTable : g.owner n = .table l := (accounts.tables l n).mpr found
  have leaves : g.leafCount n = 0 := accounts.leafCount_zero (by simp [isTable])
  have before := accounts.refs n (by simp [isTable])
  simp only [accounts.count_zero (by simp [isTable] : g.owner n ≠ .data), isTable] at before
  have result := accounts.change n .data 1 (refCount n)
    (update g.table l none) (by simp [isTable]) (by simp)
    (accounts.free.keep (by simp [isTable]) (by simp)) (by simp)
    (by simp [leaves, before, Owner.token]) ?_ ?_
  · simpa using result
  · intro l'
    by_cases same : l' = l
    · simp [same]
    · have apart : g.table l' ≠ some n := fun found' =>
        same (accounts.label_unique found' found)
      simp [same, apart]
  · intro l' m other
    by_cases same : l' = l
    · simp [same, found, Ne.symm other]
    · simp [same]

end Accounts

-- Shape

theorem Pte.mapped_zero : (0 : Pte).mapped = 0 := by
  decide

theorem Pte.has_mapped (pte : Pte) : pte.mapped.has PTE_V = pte.has PTE_V := by
  by_cases valid : pte.has PTE_V = true
  · simp [Pte.mapped, valid]
  · simp [Pte.mapped, valid]
    decide

theorem Pte.mapped_of_valid {pte : Pte} (valid : pte.has PTE_V = true) : pte.mapped = pte := by
  simp [Pte.mapped, valid]

theorem Pte.mapped_of_invalid {pte : Pte} (invalid : pte.has PTE_V = false)
    : pte.mapped = 0 := by
  simp [Pte.mapped, invalid]

namespace Shape

variable {mem : Nat → Page} {g : Ghost ι} {n p : Nat} {space : ι}

/-- The page tables stay as long as their pages do. -/
theorem frame (shape : Shape mem g) {mem' : Nat → Page} {owner : Nat → Owner ι}
    {held : Nat → Nat} (same : ∀ l n, g.table l = some n → mem' n = mem n)
    : Shape mem' { g with owner, held } where
  entries l p inner found := by
    rw [same _ p found]
    exact shape.entries l p inner found
  parents := shape.parents
  upper := shape.upper
  leaves space v n found := by
    rw [same _ n found]
    exact shape.leaves space v n found
  unmapped := shape.unmapped

variable {l : Label ι}

section

variable (shape : Shape mem g)
include shape

/-- Leaf entries are valid or zero. -/
theorem leaf_mapped (space : ι) (v : Nat) : (g.leaf space v).mapped = g.leaf space v := by
  cases found : g.table (.low space (v / 512)) with
  | none => rw [shape.unmapped space v found, Pte.mapped_zero]
  | some n =>
    rw [shape.leaves space v n found, Pte.mapped, Pte.has_mapped]
    by_cases valid : ((mem n).entry (v % 512)).has PTE_V = true
    · simp [valid]
    · simp [Pte.mapped, valid]

section

variable (unique : ∀ {l l' : Label ι} {n : Nat}, g.table l = some n → g.table l' = some n → l = l')
include unique

/-- An entry of a node names the node below it; writing one leaves the others alone. -/
theorem entries_write {l' : Label ι} {p' : Nat} (inner : l.Inner) (inner' : l'.Inner)
    (other : l' ≠ l) (above : g.table l.parent = some p) (above' : g.table l'.parent = some p')
    (pte : Pte)
    : TableEntry ((update mem p ((mem p).setEntry l.index pte) p').entry l'.index)
        (g.table l') := by
  by_cases same : p' = p
  · subst same
    have index : l'.index ≠ l.index := fun same =>
      other (Label.eq_of_parent inner' inner (unique above' above) same)
    rw [update_self, entry_setEntry_other _ (Label.index_lt inner') index]
    exact shape.entries l' p' inner' above'
  · rw [update_of_ne same]
    exact shape.entries l' p' inner' above'

/-- Writing an inner node changes no leaf entry. -/
theorem leaves_write (inner : l.Inner) (above : g.table l.parent = some p) (page : Page) {v : Nat}
    (found : g.table (.low space (v / 512)) = some n)
    : g.leaf space v = ((update mem p page n).entry (v % 512)).mapped := by
  have other : n ≠ p := by
    intro same
    have label := unique above (same ▸ found)
    cases l <;> simp [Label.parent] at label inner
  rw [update_of_ne other]
  exact shape.leaves space v n found

end

/-- Nothing hangs below a node that is not there. -/
theorem below_vacant (l' : Label ι) (vacant : g.table l = none) (below : l'.parent = l)
    : g.table l' = none := by
  cases found : g.table l' with
  | none => rfl
  | some n =>
    obtain ⟨p, above⟩ := shape.parents l' n found
    rw [below, vacant] at above
    cases above

end

variable [DecidableEq ι]

section

variable (shape : Shape mem g)
include shape

/-- Writing a leaf entry changes that entry of the flat map only. -/
theorem setLeaf
    (unique : ∀ {l l' : Label ι} {n : Nat}, g.table l = some n → g.table l' = some n → l = l')
    {v : Nat} (found : g.table (.low space (v / 512)) = some n) (pte : Pte)
    : Shape (update mem n ((mem n).setEntry (v % 512) pte))
        { g with leaf := setAt g.leaf space v pte.mapped } where
  entries l p inner above := by
    have other : p ≠ n := by
      intro same
      have label := unique above (same ▸ found)
      cases l <;> simp [Label.parent] at label inner
    rw [update_of_ne other]
    exact shape.entries l p inner above
  parents := shape.parents
  upper := shape.upper
  leaves space' v' n' found' := by
    by_cases same : n' = n
    · subst same
      have label := unique found' found
      simp only [Label.low.injEq] at label
      obtain ⟨rfl, quotient⟩ := label
      rw [update_self]
      by_cases entry : v' = v
      · subst entry
        simp only [setAt_same]
        rw [entry_setEntry_same _ (Nat.mod_lt _ (by decide))]
      · have index : v' % 512 ≠ v % 512 := by omega
        change setAt g.leaf space' v pte.mapped space' v' = _
        rw [setAt_other _ _ (by simp [entry]),
          entry_setEntry_other _ (Nat.mod_lt _ (by decide)) index]
        exact shape.leaves space' v' n' found'
    · have apart : ¬(space' = space ∧ v' = v) := by
        rintro ⟨rfl, rfl⟩
        exact same (Option.some.inj (found'.symm.trans found))
      change setAt g.leaf space v pte.mapped space' v' = _
      rw [setAt_other _ _ apart, update_of_ne same]
      exact shape.leaves space' v' n' found'
  unmapped space' v' none' := by
    have apart : ¬(space' = space ∧ v' = v) := by
      rintro ⟨rfl, rfl⟩
      rw [found] at none'
      cases none'
    change setAt g.leaf space v pte.mapped space' v' = _
    rw [setAt_other _ _ apart]
    exact shape.unmapped space' v' none'

/-- A label with nothing below it gets another node, or none. A new node is a zeroed page, and the
entry above names it.
-/
theorem place {mem' : Nat → Page} {node : Option Nat}
    (lower : ∀ space i, l = .mid space i → node ≠ none → i < 256)
    (empty : ∀ l', l'.parent = l → l' ≠ l → g.table l' = none)
    (leafless : ∀ space v, l = .low space (v / 512) → g.leaf space v = 0)
    (above : l.Inner → ∃ p, g.table l.parent = some p)
    (own : ∀ p, l.Inner → g.table l.parent = some p → TableEntry ((mem' p).entry l.index) node)
    (zero : ∀ n, node = some n → mem' n = pageOf 0)
    (others
      : ∀ l' p, l'.Inner → l' ≠ l → g.table l'.parent = some p
        → TableEntry ((mem' p).entry l'.index) (g.table l'))
    (leaves
      : ∀ space v n, g.table (.low space (v / 512)) = some n
        → g.leaf space v = ((mem' n).entry (v % 512)).mapped)
    : Shape mem' { g with table := update g.table l node } := by
  refine ⟨?_, ?_, ?_, ?_, ?_⟩
  · intro l' p inner' above'
    by_cases below : l'.parent = l
    · have other : l' ≠ l := fun same => Label.parent_ne inner' (below.trans same.symm)
      simp only [below, update_self] at above'
      simp only [update_of_ne other, zero p above', entry_zero, empty l' below other, TableEntry]
      decide
    · simp only [update_of_ne below] at above'
      by_cases same : l' = l
      · subst same
        simpa using own p inner' above'
      · simpa [same] using others l' p inner' same above'
  · intro l' k found
    by_cases below : l'.parent = l
    · by_cases same : l' = l
      · subst same
        exact ⟨k, by rwa [below]⟩
      · simp [same, empty l' below same] at found
    · simp only [update_of_ne below]
      by_cases same : l' = l
      · subst same
        refine above ?_
        cases l' with
        | root space => exact (below rfl).elim
        | mid space i =>
          by_contra high
          have := lower space i rfl (by simp_all)
          exact high (by simp only [Label.Inner]; omega)
        | low space q => trivial
      · simp only [update_of_ne same] at found
        exact shape.parents l' k found
  · intro space i high
    by_cases same : Label.mid space i = l
    · simp only [← same, update_self]
      by_contra placed
      have := lower space i same.symm placed
      omega
    · simp only [update_of_ne same]
      exact shape.upper space i high
  · intro space v k found
    by_cases same : Label.low space (v / 512) = l
    · simp only [same, update_self] at found
      simp only [zero k found, entry_zero, Pte.mapped_zero]
      exact leafless space v same.symm
    · simp only [update_of_ne same] at found
      exact leaves space v k found
  · intro space v none
    by_cases same : Label.low space (v / 512) = l
    · exact leafless space v same.symm
    · simp only [update_of_ne same] at none
      exact shape.unmapped space v none

section

variable (unique : ∀ {l l' : Label ι} {n : Nat}, g.table l = some n → g.table l' = some n → l = l')
include unique

/-- A zeroed page becomes an empty node under an entry that was not valid. -/
theorem adopt (inner : l.Inner) (lower : ∀ space i, l = .mid space i → i < 256)
    (above : g.table l.parent = some p) (vacant : g.table l = none)
    (fresh : ∀ l', g.table l' ≠ some n) (zero : mem n = pageOf 0) (small : n < 2 ^ 44)
    : Shape
        (update mem p ((mem p).setEntry l.index (PA2PTE (4096 * n) ||| PTE_V)))
        { g with table := update g.table l (some n) } := by
  have apart : n ≠ p := fun same => fresh l.parent (same ▸ above)
  refine shape.place (fun space i is _ => lower space i is)
    (fun l' below _ => shape.below_vacant l' vacant below)
    (fun space v is => shape.unmapped space v (is ▸ vacant)) (fun _ => ⟨p, above⟩) ?_ ?_
    (fun l' p' inner' other above' => shape.entries_write unique inner inner' other above above' _)
    fun space v k found => shape.leaves_write unique inner above _ found
  · intro p' _ above'
    cases above.symm.trans above'
    rw [update_self, entry_setEntry_same _ (Label.index_lt inner)]
    exact ⟨rfl, small⟩
  · rintro _ ⟨⟩
    rw [update_of_ne apart, zero]

/-- A node with nothing below it goes when the entry that names it is cleared. -/
theorem disown (inner : l.Inner) (above : g.table l.parent = some p)
    (empty : ∀ l', l'.parent = l → l' ≠ l → g.table l' = none)
    (leafless : ∀ space v, l = .low space (v / 512) → g.leaf space v = 0)
    : Shape (update mem p ((mem p).setEntry l.index 0))
        { g with table := update g.table l none } := by
  refine shape.place (fun _ _ _ some => (some rfl).elim) empty leafless (fun _ => ⟨p, above⟩) ?_
    (fun _ some => by cases some)
    (fun l' p' inner' other above' => shape.entries_write unique inner inner' other above above' _)
    fun space v k found => shape.leaves_write unique inner above _ found
  intro p' _ above'
  cases above.symm.trans above'
  simp only [update_self, entry_setEntry_same _ (Label.index_lt inner), TableEntry]
  decide

end

/-- A zeroed page becomes the root of a space that has none. -/
theorem adoptRoot (vacant : g.table (.root space) = none) (zero : mem n = pageOf 0)
    : Shape mem { g with table := update g.table (.root space) (some n) } := by
  refine shape.place (fun _ _ is => by cases is)
    (fun l' below _ => shape.below_vacant l' vacant below) (fun _ _ is => by cases is)
    (fun inner => inner.elim) (fun _ inner => inner.elim) ?_
    (fun l' p inner _ => shape.entries l' p inner) shape.leaves
  rintro _ ⟨⟩
  exact zero

/-- An empty root goes. -/
theorem disownRoot (empty : ∀ i, g.table (.mid space i) = none)
    : Shape mem { g with table := update g.table (.root space) none } := by
  refine shape.place (fun _ _ is => by cases is) ?_ (fun _ _ is => by cases is)
    (fun inner => inner.elim) (fun _ inner => inner.elim) (fun _ some => by cases some)
    (fun l' p inner _ => shape.entries l' p inner) shape.leaves
  intro l' below other
  cases l' with
  | root space' => exact (other below).elim
  | mid space' i =>
    cases below
    exact empty i
  | low space' q => cases below

end

end Shape

end Xv6.Vm

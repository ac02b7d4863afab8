import Xv6.Vm.Boot
import Xv6.Vm.FlatMap

/-! The page-table code refines the flat maps: every run of its calls is a run of the abstract
side, and the tables in memory translate as the maps say.
-/

namespace Xv6.Vm.FlatMap

open Function Library

variable {layout : Layout} {tables : List Nat} {s : Phys} {g : Ghost Nat} {pagetable : Nat}
variable {pa first count table : Nat} {perm : Pte}

-- walk

/-- `kfree` has stopped the kernel. -/
def KfreePanics {α : Type} (result : Except String α) : Prop :=
  result = .error "kfree" ∨ result = .error "kfree: reference count less than or equal to 0"

/-- Nodes were added, and nothing was mapped. -/
structure Grown (layout : Layout) (tables : List Nat) (g : Ghost Nat) (s' : Phys)
    (g' : Ghost Nat) : Prop where
  trees : Trees layout tables s' g'
  leaf : g'.leaf = g.leaf
  node : ∀ l n, g.table l = some n → g'.table l = some n

section

variable {table : Label Nat → Option Nat} {l : Label Nat} {n : Nat}

/-- A page that is no node yet may become one. -/
theorem placed_unique
    (unique : ∀ {l l' : Label Nat} {n : Nat}, table l = some n → table l' = some n → l = l')
    (fresh : ∀ l', table l' ≠ some n) {l₁ l₂ : Label Nat} {m : Nat}
    (found₁ : update table l (some n) l₁ = some m)
    (found₂ : update table l (some n) l₂ = some m)
    : l₁ = l₂ := by
  by_cases here₁ : l₁ = l
  · by_cases here₂ : l₂ = l
    · rw [here₁, here₂]
    · rw [here₁, update_self] at found₁
      rw [update_of_ne here₂, ← found₁] at found₂
      exact (fresh l₂ found₂).elim
  · rw [update_of_ne here₁] at found₁
    by_cases here₂ : l₂ = l
    · rw [here₂, update_self] at found₂
      exact (fresh l₁ (found₂ ▸ found₁)).elim
    · rw [update_of_ne here₂] at found₂
      exact unique found₁ found₂

/-- A page that becomes a node is no longer free. -/
theorem placed_apart {freelist rest : List Nat} (list : freelist = 4096 * n :: rest)
    (once : 4096 * n ∉ rest) (apart : ∀ l m, table l = some m → 4096 * m ∉ freelist)
    {l' : Label Nat} {m : Nat} (found : update table l (some n) l' = some m)
    : 4096 * m ∉ rest := by
  by_cases here : l' = l
  · rw [here, update_self, Option.some.injEq] at found
    exact found ▸ once
  · rw [update_of_ne here] at found
    intro inside
    exact apart l' m found (list ▸ List.mem_cons_of_mem _ inside)

end

namespace Trees

variable {v : Nat}

section

variable (trees : Trees layout tables s g)
include trees

/-- A free page becomes a node. -/
theorem grow {l : Label Nat} {p n : Nat} {rest : List Nat} (inner : l.Inner)
    (lower : ∀ space i, l = .mid space i → i < 256) (above : g.table l.parent = some p)
    (vacant : g.table l = none) (list : s.freelist = 4096 * n :: rest) (small : n < 2 ^ 44)
    (once : 4096 * n ∉ rest) (heap : Heap layout (s.taken n rest))
    : Grown layout tables g (s.grow p l.index n rest)
        { g with table := update g.table l (some n) } := by
  have fresh : ∀ l', g.table l' ≠ some n := by
    intro l' found
    exact trees.apart found (by simp [list])
  have mem : ∀ l' m, g.table l' = some m
      → update (s.taken n rest).mem n (pageOf 0) m = s.mem m := by
    intro l' m found
    have other : m ≠ n := by
      rintro rfl
      exact fresh l' found
    simp [Phys.taken, other]
  have zeroed : Shape (update (s.taken n rest).mem n (pageOf 0)) g :=
    trees.shape.frame mem
  refine ⟨⟨trees.aligned, ?_, ?_, ?_, heap.of_eq rfl rfl, ?_⟩, rfl, ?_⟩
  · intro root
    have other : Label.root root ≠ l := by
      rintro rfl
      exact inner
    exact (update_of_ne other _ _).trans (trees.roots root)
  · exact zeroed.adopt trees.unique inner lower above vacant fresh (update_self _ _ _)
      small
  · exact fun found found' => placed_unique trees.unique fresh found found'
  · exact fun found => placed_apart list once (fun _ _ => trees.apart) found
  · intro l' m found
    have other : l' ≠ l := by
      rintro rfl
      rw [vacant] at found
      cases found
    exact (update_of_ne other _ _).trans found

/-- One level of a walk that allocates finds the node, or memory is out. -/
theorem walkLevel_alloc {l : Label Nat} {p level va : Nat} (inner : l.Inner)
    (lower : ∀ space i, l = .mid space i → i < 256) (above : g.table l.parent = some p)
    (index : PX level va = l.index)
    : ∃ r s' g', walkLevel level (4096 * p) va true s = .ok (r, s')
      ∧ Grown layout tables g s' g'
      ∧ (r = none ∨ ∃ m, r = some (4096 * m) ∧ g'.table l = some m) := by
  have entry := trees.shape.entries l p inner above
  rw [← index] at entry
  cases found : g.table l with
  | some m =>
    rw [found] at entry
    exact ⟨_, s, g, walkLevel_found entry true, ⟨trees, rfl, fun _ _ same => same⟩,
      .inr ⟨m, rfl, found⟩⟩
  | none =>
    rw [found] at entry
    rcases trees.heap.cases with list | ⟨n, rest, list, small, once, heap⟩
    · refine ⟨none, _, g, walkLevel_out entry list, ⟨?_, rfl, fun _ _ same => same⟩, .inl rfl⟩
      exact trees.frame (trees.heap.of_eq rfl rfl) fun _ _ found => ⟨rfl, trees.apart found⟩
    · have grown := trees.grow inner lower above found list small once heap
      rw [← index] at grown
      exact ⟨_, _, _, walkLevel_grow entry list, grown,
        .inr ⟨n, rfl, update_self _ _ _⟩⟩

/-- A walk that allocates finds the node of level 0, or memory is out. -/
theorem walk_alloc (known : pagetable ∈ tables) {va : Nat} (bound : va < MAXVA)
    : ∃ found s' g', Vm.walk pagetable va true s = .ok (found, s')
      ∧ Grown layout tables g s' g'
      ∧ (found = none ∨ ∃ m, found = some (4096 * m, va / 4096 % 512)
          ∧ g'.table (.low pagetable (va / 4096 / 512)) = some m) := by
  have high : va / 4096 / 512 / 512 < 256 := by
    simp only [MAXVA] at bound
    omega
  obtain ⟨r₁, s₁, g₁, run₁, grown₁, outcome₁⟩ :=
    trees.walkLevel_alloc (l := .mid pagetable (va / 4096 / 512 / 512))
      (by simp only [Label.Inner]; omega) (by simpa using high) (trees.root known)
      (PX_two bound)
  rw [trees.address known] at run₁
  unfold Vm.walk
  rw [if_neg (by omega), bind_ok run₁]
  rcases outcome₁ with rfl | ⟨m, rfl, middle⟩
  · exact ⟨none, s₁, g₁, rfl, grown₁, .inl rfl⟩
  · obtain ⟨r₂, s₂, g₂, run₂, grown₂, outcome₂⟩ :=
      grown₁.trees.walkLevel_alloc (l := .low pagetable (va / 4096 / 512)) trivial (by simp)
        middle (PX_one va)
    have grown : Grown layout tables g s₂ g₂ :=
      ⟨grown₂.trees, grown₂.leaf.trans grown₁.leaf, fun l n found =>
        grown₂.node l n (grown₁.node l n found)⟩
    dsimp only
    rw [bind_ok run₂]
    rcases outcome₂ with rfl | ⟨low, rfl, found⟩
    · exact ⟨none, s₂, g₂, rfl, grown, .inl rfl⟩
    · exact ⟨_, s₂, g₂, rfl, grown, .inr ⟨low, by rw [PX_zero], found⟩⟩

-- mappages

/-- Writing a leaf entry. -/
theorem setLeaf {m : Nat} (found : g.table (.low pagetable (v / 512)) = some m) (pte : Pte)
    : Trees layout tables (s.setEntry m (v % 512) pte)
        { g with leaf := setAt g.leaf pagetable v pte.mapped } where
  aligned := trees.aligned
  roots := trees.roots
  shape := trees.shape.setLeaf trees.unique found pte
  unique := trees.unique
  heap := trees.heap.of_eq rfl rfl
  apart := trees.apart

/-- One page is mapped, or memory is out. -/
theorem mapOne_vacant (known : pagetable ∈ tables) (bound : 4096 * v < MAXVA)
    (vacant : (g.leaf pagetable v).has PTE_V = false) (pa : Nat) (perm : Pte)
    : ∃ done s' g', mapOne pagetable (4096 * v) pa perm s = .ok (done, s')
      ∧ Trees layout tables s' g'
      ∧ g'.leaf = if done then setAt g.leaf pagetable v (PA2PTE pa ||| perm ||| PTE_V)
        else g.leaf := by
  have page : 4096 * v / 4096 = v := by omega
  obtain ⟨found, s₁, g₁, run, grown, outcome⟩ := trees.walk_alloc known bound
  rw [page] at outcome
  unfold mapOne
  rw [bind_ok run]
  rcases outcome with rfl | ⟨m, rfl, node⟩
  · exact ⟨false, s₁, g₁, rfl, grown.trees, grown.leaf⟩
  · have leaf := grown.trees.shape.leaves pagetable v m node
    have invalid : ((s₁.mem m).entry (v % 512)).has PTE_V = false := by
      rw [← Pte.has_mapped, ← leaf, grown.leaf, vacant]
    have valid : (PA2PTE pa ||| perm ||| PTE_V).has PTE_V = true := by
      simp [Pte.has_or, (by decide : PTE_V.has PTE_V = true)]
    refine ⟨true, _, _, ?_, grown.trees.setLeaf node (PA2PTE pa ||| perm ||| PTE_V), ?_⟩
    · dsimp only
      rw [bind_ok (readEntry_run s₁ m _)]
      simp only [invalid, Bool.false_eq_true, if_false]
      rw [bind_ok (writeEntry_run s₁ m _ _)]
      rfl
    · rw [if_pos rfl, Pte.mapped_of_valid valid, grown.leaf]

end

/-- The leaves after the first pages of a range have been mapped. -/
def mapLeaves (leaf : Nat → Nat → Pte) (pagetable first pages pa : Nat) (perm : Pte)
    : Nat → Nat → Pte :=
  fun space v =>
    if space = pagetable ∧ first ≤ v ∧ v < first + pages
    then PA2PTE (pa + 4096 * (v - first)) ||| perm ||| PTE_V
    else leaf space v

theorem mapLeaves_zero (leaf : Nat → Nat → Pte) (pagetable first pa : Nat) (perm : Pte)
    : mapLeaves leaf pagetable first 0 pa perm = leaf := by
  funext space v
  rw [mapLeaves, if_neg (by omega)]

/-- The loop of `mappages`, one page after the other. -/
theorem mapLeaves_succ (leaf : Nat → Nat → Pte) (pagetable first pages pa : Nat) (perm : Pte)
    : mapLeaves (setAt leaf pagetable first (PA2PTE pa ||| perm ||| PTE_V)) pagetable
        (first + 1) pages (pa + 4096) perm
      = mapLeaves leaf pagetable first (pages + 1) pa perm := by
  funext space v
  simp only [mapLeaves, setAt_eq]
  by_cases later : space = pagetable ∧ first + 1 ≤ v ∧ v < first + 1 + pages
  · rw [if_pos later, if_pos (by omega),
      show pa + 4096 + 4096 * (v - (first + 1)) = pa + 4096 * (v - first) by omega]
  · rw [if_neg later]
    by_cases here : space = pagetable ∧ v = first
    · rw [if_pos here, if_pos (by omega), show pa + 4096 * (v - first) = pa by omega]
    · rw [if_neg here, if_neg (by omega)]

/-- The loop of `mappages` maps its range, or the first pages of it. -/
theorem mappagesLoop_run (trees : Trees layout tables s g) (known : pagetable ∈ tables)
    (first pages pa : Nat) (perm : Pte) (bound : 4096 * (first + pages) ≤ MAXVA)
    (vacant : ∀ v, first ≤ v → v < first + pages → (g.leaf pagetable v).has PTE_V = false)
    : ∃ done s' g' count, mappagesLoop pagetable (4096 * first) pa perm pages s
        = .ok (done, s')
      ∧ Trees layout tables s' g'
      ∧ g'.leaf = mapLeaves g.leaf pagetable first count pa perm
      ∧ (if done then count = pages else count < pages) := by
  induction pages generalizing s g first pa with
  | zero => exact ⟨true, s, g, 0, rfl, trees, (mapLeaves_zero _ _ _ _ _).symm, rfl⟩
  | succ pages ih =>
    obtain ⟨done, s₁, g₁, run₁, trees₁, leaf₁⟩ := trees.mapOne_vacant known (v := first)
      (by omega) (vacant first (by omega) (by omega)) pa perm
    unfold mappagesLoop
    rw [bind_ok run₁]
    cases done with
    | false =>
      exact ⟨false, s₁, g₁, 0, rfl, trees₁, leaf₁.trans (mapLeaves_zero _ _ _ _ _).symm,
        Nat.succ_pos pages⟩
    | true =>
      rw [if_pos rfl] at leaf₁
      have vacant₁ : ∀ v, first + 1 ≤ v → v < first + 1 + pages
          → (g₁.leaf pagetable v).has PTE_V = false := by
        intro v above below
        rw [leaf₁, setAt_other _ _ (by omega)]
        exact vacant v (by omega) (by omega)
      obtain ⟨done, s₂, g₂, count, run₂, trees₂, leaf₂, counted⟩ :=
        ih trees₁ (first + 1) (pa + 4096) (by omega) vacant₁
      refine ⟨done, s₂, g₂, count + 1, run₂, trees₂, ?_, ?_⟩
      · rw [leaf₂, leaf₁, mapLeaves_succ]
      · cases done with
        | false => exact Nat.succ_lt_succ counted
        | true => exact congrArg (· + 1) counted

-- uvmunmap

theorem PTE2PA_page (pte : Pte) : 4096 * (PTE2PA pte / 4096) = PTE2PA pte := by
  simp only [PTE2PA, BitVec.toNat_shiftLeft]
  omega

/-- Freeing a data page leaves the trees. -/
theorem release (trees : Trees layout tables s g) {n : Nat} (ram : InRam layout n)
    (counted : 0 < s.refCount n) (data : ∀ l, g.table l ≠ some n)
    : Trees layout tables (s.release n) g := by
  refine trees.frame (trees.heap.release ram counted) fun l m found => ?_
  have other : m ≠ n := by
    rintro rfl
    exact data l found
  have before := trees.apart found
  by_cases last : s.refCount n = 1
  · simp [Phys.release, last, other, before]
  · simp [Phys.release, last, before]

/-- One page is unmapped; a page that is freed must not be a node. -/
theorem unmapOne_run (trees : Trees layout tables s g) (known : pagetable ∈ tables)
    (bound : 4096 * v < MAXVA) (doFree : Bool)
    (data : doFree = true → (g.leaf pagetable v).has PTE_V = true
      → ∀ l, g.table l ≠ some (PTE2PA (g.leaf pagetable v) / 4096))
    : (doFree = true ∧ KfreePanics (unmapOne layout pagetable (4096 * v) doFree s))
      ∨ ∃ s', unmapOne layout pagetable (4096 * v) doFree s = .ok ((), s')
        ∧ Trees layout tables s' { g with leaf := setAt g.leaf pagetable v 0 } := by
  have page : 4096 * v / 4096 = v := by omega
  unfold unmapOne
  have look := trees.look known bound
  rw [page] at look
  rcases look with ⟨walked, leaf⟩ | ⟨m, walked, node, leaf⟩
  · refine .inr ⟨s, by rw [bind_ok walked]; rfl, ?_⟩
    rwa [← leaf, setAt_self]
  · rw [bind_ok walked]
    dsimp only
    rw [bind_ok (readEntry_run s m _)]
    by_cases valid : ((s.mem m).entry (v % 512)).has PTE_V = true
    · rw [Pte.mapped_of_valid valid] at leaf
      rw [← leaf] at valid ⊢
      simp only [valid, Bool.not_true, Bool.false_eq_true, if_false]
      have cleared := trees.setLeaf node 0
      rw [Pte.mapped_zero] at cleared
      cases doFree with
      | false => exact .inr ⟨_, writeEntry_run s m _ _, cleared⟩
      | true =>
        simp only [if_true]
        have notNode := data rfl valid
        rw [← PTE2PA_page]
        rcases kfree_cases layout s (PTE2PA (g.leaf pagetable v) / 4096) with
          panics | ⟨ram, counted, freed⟩
        · refine .inl ⟨trivial, ?_⟩
          rcases panics with panics | panics
          · exact .inl (bind_error panics)
          · exact .inr (bind_error panics)
        · refine .inr ⟨_, (bind_ok freed).trans (writeEntry_run _ m _ _), ?_⟩
          rw [release_setEntry s (fun same => notNode _ (same ▸ node))]
          exact cleared.release ram counted notNode
    · have invalid : ((s.mem m).entry (v % 512)).has PTE_V = false := by
        simpa using valid
      rw [Pte.mapped_of_invalid invalid] at leaf
      simp only [invalid, Bool.not_false, if_true]
      refine .inr ⟨s, rfl, ?_⟩
      rwa [← leaf, setAt_self]

/-- The leaves after a range has been unmapped. -/
def unmapLeaves (leaf : Nat → Nat → Pte) (pagetable first pages : Nat) : Nat → Nat → Pte :=
  fun space v =>
    if space = pagetable ∧ first ≤ v ∧ v < first + pages then 0 else leaf space v

/-- The loop of `uvmunmap`, one page after the other. -/
theorem unmapLeaves_succ (leaf : Nat → Nat → Pte) (pagetable first pages : Nat)
    : unmapLeaves (setAt leaf pagetable first 0) pagetable (first + 1) pages
      = unmapLeaves leaf pagetable first (pages + 1) := by
  funext space v
  simp only [unmapLeaves, setAt_eq]
  by_cases later : space = pagetable ∧ first + 1 ≤ v ∧ v < first + 1 + pages
  · rw [if_pos later, if_pos (by omega)]
  · rw [if_neg later]
    by_cases here : space = pagetable ∧ v = first
    · rw [if_pos here, if_pos (by omega)]
    · rw [if_neg here, if_neg (by omega)]

/-- The loop of `uvmunmap` unmaps its range, unless a page of it must not be freed. -/
theorem uvmunmapLoop_run (trees : Trees layout tables s g) (known : pagetable ∈ tables)
    (first pages : Nat) (doFree : Bool) (bound : 4096 * (first + pages) ≤ MAXVA)
    (data : doFree = true → ∀ v, first ≤ v → v < first + pages
      → (g.leaf pagetable v).has PTE_V = true
      → ∀ l, g.table l ≠ some (PTE2PA (g.leaf pagetable v) / 4096))
    : (doFree = true
        ∧ KfreePanics (uvmunmapLoop layout pagetable doFree (4096 * first) pages s))
      ∨ ∃ s', uvmunmapLoop layout pagetable doFree (4096 * first) pages s = .ok ((), s')
        ∧ Trees layout tables s'
            { g with leaf := unmapLeaves g.leaf pagetable first pages } := by
  induction pages generalizing s g first with
  | zero =>
    have same : unmapLeaves g.leaf pagetable first 0 = g.leaf := by
      funext space v
      rw [unmapLeaves, if_neg (by omega)]
    exact .inr ⟨s, rfl, by rwa [same]⟩
  | succ pages ih =>
    unfold uvmunmapLoop
    rcases trees.unmapOne_run known (v := first) (by omega) doFree
        (fun free => data free first (by omega) (by omega)) with
      ⟨free, panics⟩ | ⟨s₁, run₁, trees₁⟩
    · refine .inl ⟨free, ?_⟩
      rcases panics with panics | panics
      · exact .inl (bind_error panics)
      · exact .inr (bind_error panics)
    · rw [bind_ok run₁]
      have data₁ : doFree = true → ∀ v, first + 1 ≤ v → v < first + 1 + pages
          → (setAt g.leaf pagetable first 0 pagetable v).has PTE_V = true
          → ∀ l, g.table l ≠ some (PTE2PA (setAt g.leaf pagetable first 0 pagetable v) / 4096) := by
        intro free v above below
        rw [setAt_other _ _ (by omega)]
        exact data free v (by omega) (by omega)
      have rest := ih trees₁ (first + 1) (by omega) data₁
      rwa [unmapLeaves_succ] at rest

-- uvmcreate

/-- A new page table, or memory is out. -/
theorem uvmcreate_run (trees : Trees layout tables s g)
    : (∃ s', Vm.uvmcreate s = .ok (none, s') ∧ Trees layout tables s' g)
      ∨ ∃ pagetable s' g', Vm.uvmcreate s = .ok (some pagetable, s') ∧ pagetable ∉ tables
        ∧ Trees layout (pagetable :: tables) s' g' ∧ g'.leaf = g.leaf
        ∧ ∀ v, g.leaf pagetable v = 0 := by
  rcases trees.heap.cases with list | ⟨n, rest, list, small, once, heap⟩
  · have out : kalloc s = .ok (none, { s with exhausted := true }) := by
      simp only [kalloc, list]
    refine .inl ⟨{ s with exhausted := true }, by unfold Vm.uvmcreate; rw [bind_ok out]; rfl, ?_⟩
    exact trees.frame (trees.heap.of_eq rfl rfl) fun _ _ found => ⟨rfl, trees.apart found⟩
  · have fresh : ∀ l', g.table l' ≠ some n := by
      intro l' found
      exact trees.apart found (by simp [list])
    have page : 4096 * n / 4096 = n := by omega
    have new : 4096 * n ∉ tables := by
      intro known
      exact fresh _ ((trees.root known).trans (by rw [page]))
    have vacant : g.table (.root (4096 * n)) = none := by
      rw [trees.roots, if_neg new]
    refine .inr ⟨4096 * n, { s.taken n rest with
        mem := update (s.taken n rest).mem n (pageOf 0) },
      { g with table := update g.table (.root (4096 * n)) (some n) }, ?_, new,
      ⟨?_, ?_, ?_, ?_, heap.of_eq rfl rfl, ?_⟩, rfl, ?_⟩
    · unfold Vm.uvmcreate
      rw [bind_ok (kalloc_run list)]
      dsimp only
      rw [bind_ok (zeroPage_run _ n)]
      rfl
    · intro pagetable member
      rcases List.mem_cons.mp member with rfl | old
      · omega
      · exact trees.aligned pagetable old
    · intro pagetable
      by_cases here : pagetable = 4096 * n
      · subst here
        simp
      · simp [here, trees.roots]
    · refine Shape.adoptRoot (trees.shape.frame fun l m found => ?_) vacant
        (update_self _ _ _)
      have other : m ≠ n := by
        rintro rfl
        exact fresh l found
      simp [Phys.taken, other]
    · exact fun found found' => placed_unique trees.unique fresh found found'
    · exact fun found => placed_apart list once (fun _ _ => trees.apart) found
    · intro v
      apply trees.shape.unmapped
      apply trees.shape.below_vacant (l := .mid (4096 * n) (v / 512 / 512)) _ _ rfl
      exact trees.shape.below_vacant (.mid (4096 * n) (v / 512 / 512)) vacant rfl

end Trees

-- Refinement

/-- The tables in memory say what the flat maps say. -/
def Represents (layout : Layout) (s : System) (flat : Flat) : Prop :=
  ∃ g, Trees layout s.tables s.phys g ∧ flat.tables = s.tables
    ∧ ∀ pagetable ∈ s.tables, ∀ v, flat.map pagetable v = translation (g.leaf pagetable v)

theorem valid_of_translation {pte : Pte} (none : translation pte = none)
    : pte.has PTE_V = false := by
  by_contra valid
  rw [translation, if_pos (by simpa using valid)] at none
  cases none

/-- What `mappages` writes translates to the page it was given. -/
theorem translation_entry (aligned : pa % 4096 = 0) (small : pa < 2 ^ 56) (low : perm.toNat < 1024)
    : translation (PA2PTE pa ||| perm ||| PTE_V) = some (pa, perm ||| PTE_V) := by
  have flags := or_low low (by decide : PTE_V.toNat < 1024)
  have valid : (PA2PTE pa ||| perm ||| PTE_V).has PTE_V = true := by
    simp [Pte.has_or, (by decide : PTE_V.has PTE_V = true)]
  rw [translation, if_pos valid, BitVec.or_assoc, PTE2PA_or aligned small flags,
    PTE_FLAGS_or pa flags]

variable {flat : Flat}

/-- `mappages` on the trees and on the flat map. -/
theorem translation_mapLeaves {leaf : Nat → Nat → Pte} (aligned : pa % 4096 = 0)
    (small : pa + 4096 * count ≤ 2 ^ 56) (low : perm.toNat < 1024) {v : Nat}
    (same : flat.map table v = translation (leaf table v))
    : (flat.mapRange pagetable first count pa (perm ||| PTE_V)).map table v
      = translation (Trees.mapLeaves leaf pagetable first count pa perm table v) := by
  rw [Flat.mapRange_map, Trees.mapLeaves]
  by_cases inside : table = pagetable ∧ first ≤ v ∧ v < first + count
  · rw [if_pos inside, if_pos inside, translation_entry (by omega) (by omega) low]
  · rw [if_neg inside, if_neg inside]
    exact same

/-- `uvmunmap` on the trees and on the flat map. -/
theorem translation_unmapLeaves {leaf : Nat → Nat → Pte} {v : Nat}
    (same : flat.map table v = translation (leaf table v))
    : (flat.unmapRange pagetable first count).map table v
      = translation (Trees.unmapLeaves leaf pagetable first count table v) := by
  rw [Flat.unmapRange_map, Trees.unmapLeaves]
  by_cases inside : table = pagetable ∧ first ≤ v ∧ v < first + count
  · rw [if_pos inside, if_pos inside]
    rfl
  · rw [if_neg inside, if_neg inside]
    exact same

namespace Represents

variable {s : System} {flat : Flat} {va : Nat}

/-- The call returns, and the abstract side can follow. -/
def Followed (layout : Layout) (s : System) (flat : Flat) (action : Action) : Prop :=
  ∃ answer s' flat', action.run layout s = .ok (answer, s')
    ∧ flat.Step (action, answer) flat' ∧ Represents layout s' flat'

section

variable (rep : Represents layout s flat)
include rep

/-- The flat map follows `uvmcreate`. -/
theorem uvmcreate : Followed layout s flat .uvmcreate := by
  obtain ⟨g, trees, known, same⟩ := rep
  rcases trees.uvmcreate_run with
    ⟨phys, run, trees'⟩ | ⟨pagetable, phys, g', run, fresh, trees', leaf, vacant⟩
  · refine ⟨.table none, ⟨phys, s.tables⟩, flat, ?_, .noTable, g, trees', known, same⟩
    simp only [Action.run, run]
    rfl
  · refine ⟨.table (some pagetable), ⟨phys, pagetable :: s.tables⟩, flat.create pagetable, ?_,
      .table (known ▸ fresh), g', trees', congrArg (pagetable :: ·) known, ?_⟩
    · simp only [Action.run, run]
      rfl
    · intro table member v
      rw [leaf, Flat.create_map]
      by_cases here : table = pagetable
      · rw [if_pos here, here, vacant]
        rfl
      · rw [if_neg here]
        exact same table ((List.mem_cons.mp member).resolve_left here) v

/-- It follows `walk`. -/
theorem walk (fits : Fits layout s (.walk pagetable va))
    : Followed layout s flat (.walk pagetable va) := by
  obtain ⟨g, trees, known, same⟩ := rep
  obtain ⟨found, phys, g', run, grown, _⟩ := trees.walk_alloc fits.1 fits.2
  refine ⟨.entry found, ⟨phys, s.tables⟩, flat, ?_, .walk, g', grown.trees, known, ?_⟩
  · simp only [Action.run, run]
    rfl
  · rw [grown.leaf]
    exact same

/-- It follows `mappages`. -/
theorem mappages {size pa : Nat} {perm : Pte}
    (fits : Fits layout s (.mappages pagetable va size pa perm))
    : Followed layout s flat (.mappages pagetable va size pa perm) := by
  obtain ⟨g, trees, known, same⟩ := rep
  obtain ⟨member, aligned, whole, some, bound, address, small, low, vacant⟩ := fits
  have start : 4096 * (va / 4096) = va := by omega
  have pages : (va + size) / 4096 = va / 4096 + size / 4096 := by omega
  have unmapped : ∀ v, va / 4096 ≤ v → v < va / 4096 + size / 4096
      → (g.leaf pagetable v).has PTE_V = false := by
    intro v above below
    apply valid_of_translation
    rw [← trees.translate_eq member]
    exact vacant v above (pages ▸ below)
  obtain ⟨done, phys, g', count, run, trees', leaf, counted⟩ :=
    trees.mappagesLoop_run member (va / 4096) (size / 4096) pa perm (by omega) unmapped
  have total : count ≤ size / 4096 := by
    cases done with
    | false => exact Nat.le_of_lt counted
    | true => exact Nat.le_of_eq counted
  have ran : Vm.mappages pagetable va size pa perm s.phys = .ok (done, phys) := by
    unfold Vm.mappages
    rw [if_neg (by omega), if_neg (by omega), if_neg (by omega), ← start]
    exact run
  refine ⟨.mapped done, ⟨phys, s.tables⟩,
    flat.mapRange pagetable (va / 4096) count pa (perm ||| PTE_V), ?_, ?_, g', trees', known, ?_⟩
  · simp only [Action.run, ran]
    rfl
  · cases done with
    | false => exact .failed counted
    | true =>
      have full : count = size / 4096 := counted
      rw [full]
      exact .mapped
  · intro table inside v
    rw [leaf]
    exact translation_mapLeaves address (by omega) low (same table inside v)

/-- It follows `uvmunmap`, unless `kfree` panics. -/
theorem uvmunmap {npages : Nat} {doFree : Bool}
    (fits : Fits layout s (.uvmunmap pagetable va npages doFree))
    (frees : FreesData s (.uvmunmap pagetable va npages doFree))
    : (doFree = true
        ∧ KfreePanics (Action.run layout s (.uvmunmap pagetable va npages doFree)))
      ∨ Followed layout s flat (.uvmunmap pagetable va npages doFree) := by
  obtain ⟨g, trees, known, same⟩ := rep
  obtain ⟨member, aligned, bound⟩ := fits
  have start : 4096 * (va / 4096) = va := by omega
  have data : doFree = true → ∀ v, va / 4096 ≤ v → v < va / 4096 + npages
      → (g.leaf pagetable v).has PTE_V = true
      → ∀ l, g.table l ≠ some (PTE2PA (g.leaf pagetable v) / 4096) := by
    rintro rfl v above below valid l found
    refine frees v above below _ (PTE_FLAGS (g.leaf pagetable v)) ?_
      ((trees.isNode_iff _).mpr ⟨l, found⟩)
    rw [trees.translate_eq member, translation, if_pos valid]
  have loop : Vm.uvmunmap layout pagetable va npages doFree s.phys
      = uvmunmapLoop layout pagetable doFree (4096 * (va / 4096)) npages s.phys := by
    unfold Vm.uvmunmap
    rw [if_neg (by omega), start]
  rcases trees.uvmunmapLoop_run member (va / 4096) npages doFree (by omega) data with
    ⟨free, panics⟩ | ⟨phys, run, trees'⟩
  · refine .inl ⟨free, ?_⟩
    rcases panics with panics | panics
    · left
      simp only [Action.run, loop, panics]
      rfl
    · right
      simp only [Action.run, loop, panics]
      rfl
  · refine .inr ⟨.done, ⟨phys, s.tables⟩, flat.unmapRange pagetable (va / 4096) npages, ?_,
      .unmapped, _, trees', known, fun table inside v =>
        translation_unmapLeaves (same table inside v)⟩
    simp only [Action.run, loop, run]
    rfl

/-- It does not see what the rest of the kernel does to other pages. -/
theorem elsewhere {phys : Phys} (fits : Fits layout s (.elsewhere phys))
    : Followed layout s flat (.elsewhere phys) := by
  obtain ⟨g, trees, known, same⟩ := rep
  obtain ⟨heap, nodes⟩ := fits
  refine ⟨.done, ⟨phys, s.tables⟩, flat, rfl, .elsewhere, g, trees.frame heap ?_, known, same⟩
  intro l n found
  exact nodes n ((trees.isNode_iff n).mpr ⟨l, found⟩)

/-- Every call is followed by the abstract side, unless `kfree` stops the kernel. -/
theorem followed {action : Action} (fits : Fits layout s action) (frees : FreesData s action)
    : (∃ pagetable va npages, action = .uvmunmap pagetable va npages true
        ∧ KfreePanics (action.run layout s))
      ∨ Followed layout s flat action := by
  cases action with
  | uvmcreate => exact .inr rep.uvmcreate
  | walk pagetable va => exact .inr (rep.walk fits)
  | mappages pagetable va size pa perm => exact .inr (rep.mappages fits)
  | elsewhere phys => exact .inr (rep.elsewhere fits)
  | uvmunmap pagetable va npages doFree =>
    rcases rep.uvmunmap fits frees with ⟨rfl, panics⟩ | followed
    · exact .inl ⟨pagetable, va, npages, rfl, panics⟩
    · exact .inr followed

/-- A step of the page tables is a step of the flat maps. -/
theorem step {entry : Action × Answer} {s' : System} (fits : Fits layout s entry.1)
    (frees : FreesData s entry.1) (taken : Step layout s entry s')
    : ∃ flat', flat.Step entry flat' ∧ Represents layout s' flat' := by
  rcases rep.followed fits frees with
    ⟨_, _, _, _, panics⟩ | ⟨answer, after, flat', run, follows, rep'⟩
  · rcases panics with panics | panics
    all_goals
      rw [taken] at panics
      cases panics
  · rw [taken] at run
    cases run
    exact ⟨flat', follows, rep'⟩

end

end Represents

/-- No page-table page stands at two positions. -/
def System.NodesApart (s : System) : Prop :=
  ∀ pagetable ∈ s.tables, ∀ pagetable' ∈ s.tables, ∀ path path' n, Position path
    → Position path' → nodeAt s.phys.mem (pagetable / 4096) path = some n
    → nodeAt s.phys.mem (pagetable' / 4096) path' = some n
    → pagetable = pagetable' ∧ path = path'

/-- The nodes of the trees are different pages. -/
theorem Represents.nodesApart {s : System} (rep : Represents layout s flat)
    : s.NodesApart := by
  obtain ⟨g, trees, _, _⟩ := rep
  intro pagetable known pagetable' known' path path' n position position' found found'
  rw [trees.nodeAt_eq known position] at found
  rw [trees.nodeAt_eq known' position'] at found'
  exact Trees.labelOf_inj position position' (trees.unique found found')

/-- The tables translate as the maps say. -/
def Flat.Agrees (flat : Flat) (s : System) : Prop :=
  flat.tables = s.tables
  ∧ ∀ pagetable ∈ s.tables, ∀ v, translate s.phys pagetable v = flat.map pagetable v

/-- What `walkaddr` and `walk` find is what the flat map has. -/
theorem Represents.agrees {s : System} (rep : Represents layout s flat)
    : flat.Agrees s := by
  obtain ⟨g, trees, known, same⟩ := rep
  refine ⟨known, fun pagetable member v => ?_⟩
  rw [trees.translate_eq member, same pagetable member]

section

variable {phys : Phys} (heap : Heap layout phys)
  {history : List ((Action × Answer) × System)} {final : System}
  (run : Run (Step layout) ⟨phys, []⟩ history final)
  (fits : EachStep (fun before step => Fits layout before step.1) history)
  (frees : EachStep (fun before step => FreesData before step.1) history)
include heap run fits frees

/-- Every run of the page-table code is a run of the flat maps, state by state. -/
theorem Represents.of_run
    : ∃ flat flatHistory, Run Flat.Step .empty flatHistory flat
      ∧ List.Forall₂ (fun entry flatEntry => flatEntry.1 = entry.1
          ∧ Flat.Agrees flatEntry.2 entry.2) history flatHistory
      ∧ Represents layout final flat := by
  induction run with
  | nil => exact ⟨.empty, [], .nil, .nil, noTables, .initial heap, rfl, by simp⟩
  | next earlier taken ih =>
    obtain ⟨flat, flatHistory, flatRun, same, rep⟩ := ih fits.tail frees.tail
    obtain ⟨flat', follows, rep'⟩ := rep.step fits.head frees.head taken
    exact ⟨flat', _, .next flatRun follows, .cons ⟨rfl, rep.agrees⟩ same, rep'⟩

/-- Page tables are flat maps. Whatever calls are made on the tables built by `uvmcreate`,
every state of the run translates as the abstract maps say that have followed the same calls,
no page-table page stands at two places, the calls return, and an entry gives back the address
and the flags it was built from.
-/
theorem page_tables_refine_flat_maps
    : (∃ flat flatHistory, Run Flat.Step .empty flatHistory flat
        ∧ List.Forall₂ (fun entry flatEntry => flatEntry.1 = entry.1
            ∧ Flat.Agrees flatEntry.2 entry.2) history flatHistory
        ∧ flat.Agrees final)
      ∧ final.NodesApart
      ∧ (∀ action, Fits layout final action → FreesData final action
          → (∃ answer after, Step layout final (action, answer) after)
            ∨ ∃ pagetable va npages, action = .uvmunmap pagetable va npages true
              ∧ KfreePanics (action.run layout final))
      ∧ ∀ (pa : Nat) (flags : Pte), pa % 4096 = 0 → pa < 2 ^ 56 → flags.toNat < 1024
          → PTE2PA (PA2PTE pa ||| flags) = pa ∧ PTE_FLAGS (PA2PTE pa ||| flags) = flags := by
  obtain ⟨flat, flatHistory, flatRun, same, rep⟩ := Represents.of_run heap run fits frees
  refine ⟨⟨flat, flatHistory, flatRun, same, rep.agrees⟩, rep.nodesApart, ?_, ?_⟩
  · intro action fit free
    rcases rep.followed fit free with panics | ⟨answer, after, _, ran, _, _⟩
    · exact .inr panics
    · exact .inl ⟨answer, after, ran⟩
  · intro pa flags aligned small low
    exact ⟨PTE2PA_or aligned small low, PTE_FLAGS_or pa low⟩

end

-- Runs

/-- The system after a call that returns. -/
def System.after (layout : Layout) (s : System) (action : Action) : System :=
  match action.run layout s with
  | .ok (_, s') => s'
  | .error _ => s

theorem step_after {s : System} {action : Action} {answer : Answer}
    (returns : (action.run layout s).toOption.map Prod.fst = some answer)
    : Step layout s (action, answer) (s.after layout action) := by
  unfold Step System.after
  cases ran : action.run layout s with
  | error message =>
    rw [ran] at returns
    cases returns
  | ok result =>
    rw [ran] at returns
    cases returns
    rfl

/-- A machine whose last page of RAM is in use and whose free list holds the four before. -/
def lastPages : Phys where
  mem _ := 0
  freelist := [PHYSTOP - 0x5000, PHYSTOP - 0x4000, PHYSTOP - 0x3000, PHYSTOP - 0x2000]
  refCount n := if n = PHYSTOP / 4096 - 1 then 1 else 0
  exhausted := false

theorem lastPages_heap : Heap smallRam lastPages := by
  refine ⟨by decide, ?_⟩
  intro pa member
  simp only [lastPages, List.mem_cons, List.not_mem_nil, or_false] at member
  rcases member with rfl | rfl | rfl | rfl <;> exact ⟨by decide, ⟨by decide, by decide⟩, by decide⟩

/-- The first table that is built there. -/
def firstTable : Nat := PHYSTOP - 0x5000

/-- The state with an empty table. -/
def oneTable : System := System.after smallRam ⟨lastPages, []⟩ .uvmcreate

/-- Page 0 is mapped to physical address `pa`. -/
def onePage (pa : Nat) : System :=
  oneTable.after smallRam (.mappages firstTable 0 4096 pa (PTE_R ||| PTE_W))

/-- Page 1 is mapped to the page in use, too. -/
def twoPages (pa : Nat) : System :=
  (onePage pa).after smallRam (.mappages firstTable 4096 4096 (PHYSTOP - 0x1000) (PTE_R ||| PTE_U))

theorem maps_one_page {s : System} {va : Nat} (member : firstTable ∈ s.tables)
    (aligned : va % 4096 = 0) (bound : va + 4096 ≤ MAXVA) (address : pa % 4096 = 0)
    (small : pa + 4096 ≤ 2 ^ 56) (low : perm.toNat < 1024)
    (vacant : translate s.phys firstTable (va / 4096) = none)
    : Fits smallRam s (.mappages firstTable va 4096 pa perm) := by
  refine ⟨member, aligned, by decide, by decide, bound, address, small, low, ?_⟩
  intro v above below
  rwa [show v = va / 4096 by omega]

/-- The two pages can be mapped and the first of them unmapped again. -/
theorem twoPages_run (pa : Nat) (aligned : pa % 4096 = 0) (small : pa + 4096 ≤ 2 ^ 56)
    (known : firstTable ∈ oneTable.tables ∧ firstTable ∈ (onePage pa).tables
      ∧ firstTable ∈ (twoPages pa).tables)
    (vacant : translate oneTable.phys firstTable 0 = none
      ∧ translate (onePage pa).phys firstTable 1 = none)
    (returns : ((Action.mappages firstTable 0 4096 pa (PTE_R ||| PTE_W)).run smallRam
        oneTable).toOption.map Prod.fst = some (.mapped true)
      ∧ ((Action.mappages firstTable 4096 4096 (PHYSTOP - 0x1000) (PTE_R ||| PTE_U)).run smallRam
        (onePage pa)).toOption.map Prod.fst = some (.mapped true))
    (doFree : Bool)
    (frees : ((Action.uvmunmap firstTable 0 1 doFree).run smallRam
        (twoPages pa)).toOption.map Prod.fst = some .done)
    : ∃ history, Run (Step smallRam) ⟨lastPages, []⟩
        (((.uvmunmap firstTable 0 1 doFree, .done), twoPages pa) :: history)
        ((twoPages pa).after smallRam (.uvmunmap firstTable 0 1 doFree))
      ∧ EachStep (fun before step => Fits smallRam before step.1)
          (((.uvmunmap firstTable 0 1 doFree, .done), twoPages pa) :: history)
      ∧ EachStep (fun before step => FreesData before step.1) history := by
  have created : ((Action.uvmcreate).run smallRam ⟨lastPages, []⟩).toOption.map Prod.fst
      = some (.table (some firstTable)) := by decide +kernel
  refine ⟨_, .next (.next (.next (.next .nil (step_after created)) (step_after returns.1))
    (step_after returns.2)) (step_after frees), ?_, ?_⟩
  · refine .cons ⟨known.2.2, by decide, by decide⟩ (.cons ?_ (.cons ?_ (.cons trivial .nil)))
    · exact maps_one_page known.2.1 (by decide) (by decide) (by decide) (by decide) (by decide)
        vacant.2
    · exact maps_one_page known.1 (by decide) (by decide) aligned small (by decide) vacant.1
  · exact .cons trivial (.cons trivial (.cons trivial .nil))

/-- A page is unmapped, and the other one stays. -/
theorem unmapped_page_leaves_the_other
    : ∃ history final, Run (Step smallRam) ⟨lastPages, []⟩ history final
      ∧ EachStep (fun before step => Fits smallRam before step.1) history
      ∧ EachStep (fun before step => FreesData before step.1) history
      ∧ translate final.phys firstTable 0 = none
      ∧ translate final.phys firstTable 1
        = some (PHYSTOP - 0x1000, PTE_R ||| PTE_U ||| PTE_V)
      ∧ final.NodesApart := by
  obtain ⟨history, run, fits, frees⟩ := twoPages_run (PHYSTOP - 0x1000) (by decide)
    (by decide) (by decide +kernel) (by decide +kernel) (by decide +kernel) false
    (by decide +kernel)
  have each : EachStep (fun before step => FreesData before step.1)
      (((Action.uvmunmap firstTable 0 1 false, Answer.done), twoPages (PHYSTOP - 0x1000))
        :: history) :=
    .cons trivial frees
  exact ⟨_, _, run, fits, each, by decide +kernel, by decide +kernel,
    (page_tables_refine_flat_maps lastPages_heap run fits each).2.1⟩

/-- A page table that maps its own root: freeing that page with `uvmunmap` loses the other
page.
-/
theorem freed_root_loses_the_other_page
    : Heap smallRam lastPages
      ∧ ∃ history before final, Run (Step smallRam) ⟨lastPages, []⟩
          (((.uvmunmap firstTable 0 1 true, .done), before) :: history) final
        ∧ EachStep (fun before step => Fits smallRam before step.1)
            (((.uvmunmap firstTable 0 1 true, .done), before) :: history)
        ∧ translate before.phys firstTable 1
          = some (PHYSTOP - 0x1000, PTE_R ||| PTE_U ||| PTE_V)
        ∧ translate final.phys firstTable 1 = none := by
  obtain ⟨history, run, fits, _⟩ := twoPages_run firstTable (by decide)
    (by decide) (by decide +kernel) (by decide +kernel) (by decide +kernel) true
    (by decide +kernel)
  exact ⟨lastPages_heap, history, _, _, run, fits, by decide +kernel, by decide +kernel⟩

end Xv6.Vm.FlatMap

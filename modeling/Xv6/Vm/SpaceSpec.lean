import Xv6.Vm.ForkSpec

/-! Pages that the kernel takes and gives back, and address spaces that come and go:
`proc_pagetable` and `proc_freepagetable`.
-/

namespace Xv6.Vm

open Function Library

variable {ι : Type} [Fintype ι] {layout : Layout} {s : Phys} {g : Ghost ι} {perm : Pte}

-- Pages that change hands

/-- One more reference to page `n`. -/
def bump (loose : Nat → Nat) (n : Nat) : Nat → Nat := update loose n (loose n + 1)

theorem bump_eq (loose : Nat → Nat) (n k : Nat)
    : bump loose n k = loose k + (4096 * n == 4096 * k).toNat := by
  by_cases same : k = n
  · simp [bump, same]
  · have other : ¬4096 * n = 4096 * k := by omega
    simp [bump, same, other]

/-- A step of the allocator: the mappings stay as they are. -/
structure Handover (layout : Layout) (s : Phys) (g : Ghost ι) (s' : Phys) (g' : Ghost ι)
    : Prop where
  inv : Inv layout s' g'
  leaf : g'.leaf = g.leaf
  table : g'.table = g.table
  view : g'.view s'.mem = g.view s.mem
  exhausted : s.exhausted = true → s'.exhausted = true

theorem Handover.trans {s₁ s₂ : Phys} {g₁ g₂ : Ghost ι} (first : Handover layout s g s₁ g₁)
    (second : Handover layout s₁ g₁ s₂ g₂)
    : Handover layout s g s₂ g₂ where
  inv := second.inv
  leaf := second.leaf.trans first.leaf
  table := second.table.trans first.table
  view := second.view.trans first.view
  exhausted := second.exhausted ∘ first.exhausted

namespace Inv

variable {n : Nat}

section

variable (inv : Inv layout s g)
include inv

/-- `kalloc` hands out a page that nothing refers to, or memory is out. -/
theorem kalloc_handover
    : (∃ s', Vm.kalloc s = .ok (none, s') ∧ s'.exhausted = true ∧ Handover layout s g s' g)
      ∨ ∃ n s' g', Vm.kalloc s = .ok (some (4096 * n), s')
        ∧ Handover layout s g s' g' ∧ InRam layout n ∧ g.held n = 0
        ∧ (∀ p v, ¬g.Maps p v n) ∧ g'.held = bump g.held n
        ∧ g'.owner = update g.owner n .data := by
  rcases inv.kalloc with failed | ⟨n, s', run, isFree, inv', mem, exhausted⟩
  · exact .inl ⟨_, failed, rfl, ⟨inv.accounts, inv.shape⟩, rfl, rfl, rfl, fun _ => rfl⟩
  · have noHold := inv.free_unheld isFree
    refine .inr ⟨n, s', _, run, ⟨inv', rfl, rfl, ?_, fun out => exhausted.trans out⟩,
      (inv.accounts.ram n).mp (by simp [isFree]), noHold, inv.free_unmapped isFree,
      by simp [bump, noHold], rfl⟩
    funext p v
    refine inv.view_same inv' (fun k data _ => mem k ?_) fun _ => rfl
    rintro rfl
    rw [isFree] at data
    cases data

/-- Writing a data page that no process has mapped. -/
theorem write_handover (data : g.owner n = .data) (unmapped : ∀ p v, ¬g.Maps p v n) (page : Page)
    : Handover layout s g { s with mem := update s.mem n page } g := by
  refine ⟨inv.writeData data page, rfl, rfl, ?_, id⟩
  funext p v
  unfold Ghost.view
  by_cases user : v < userPages
  · rw [if_pos user, if_pos user, Pte.view, Pte.view]
    by_cases valid : (g.leaf p v).has PTE_V = true
    · have other : (g.leaf p v).ppn ≠ n := fun same => unmapped p v ⟨user, valid, same⟩
      simp only [update_of_ne other]
    · rw [if_neg valid, if_neg valid]
  · rw [if_neg user, if_neg user]

theorem incref_handover (data : g.owner n = .data)
    : ∃ s', Vm.incref (4096 * n) s = .ok ((), s')
      ∧ Handover layout s g s' { g with held := bump g.held n } := by
  refine ⟨_, ?_, inv.incref data, rfl, rfl, rfl, id⟩
  simp [Vm.incref, Phys.setRef, Phys.ref]

/-- `kfree` takes a reference back; a page that is still mapped keeps its contents. -/
theorem kfree_handover (held : 0 < g.held n)
    : ∃ s' g', Vm.kfree layout (4096 * n) s = .ok ((), s') ∧ Handover layout s g s' g'
      ∧ bump g'.held n = g.held ∧ s'.exhausted = s.exhausted := by
  have handover : Handover layout s g (s.release n) (g.release n) := by
    refine ⟨inv.release held, rfl, rfl, ?_, id⟩
    funext p v
    exact inv.view_same (inv.release held)
      (fun k _ data => (inv.release_shrinks held k data).2) fun _ => rfl
  have returned : bump (g.release n).held n = g.held := by
    funext k
    by_cases same : k = n
    · subst same
      simp only [bump, Ghost.release, update_self]
      omega
    · simp only [bump, Ghost.release, update_of_ne same]
  exact ⟨s.release n, g.release n, inv.kfree_run held, handover, returned, rfl⟩

end

end Inv

/-- A page of the kernel was mapped in a space, and the kernel's reference with it. -/
structure Lent [DecidableEq ι] (space : ι) (v n : Nat) (perm : Pte) (layout : Layout)
    (s : Phys) (g : Ghost ι) (s' : Phys) (g' : Ghost ι) : Prop where
  inv : Inv layout s' g'
  held : bump g'.held n = g.held
  root : ∀ space, g'.table (.root space) = g.table (.root space)
  leaf : g'.leaf = setAt g.leaf space v (PA2PTE (4096 * n) ||| perm ||| PTE_V)
  view : g'.view s'.mem = setAt (g.view s.mem) space v (some (.of (s.mem n) perm))
  exhausted : s.exhausted = true → s'.exhausted = true
  data : ∀ n, g.owner n = .data → g'.owner n = .data

/-- Mapping a page that the kernel has a reference to. -/
theorem Inv.mapHeld [DecidableEq ι] (inv : Inv layout s g) {space : ι} {r v n : Nat}
    (root : g.table (.root space) = some r) (user : v < userPages) (vacant : g.leaf space v = 0)
    (low : perm.toNat < 1024) (held : 0 < g.held n)
    : ∃ ok s' g', mappages (4096 * r) (4096 * v) 4096 (4096 * n) perm s = .ok (ok, s')
      ∧ ((ok = false ∧ s.freelist.length < g.missing space v ∧ Inv layout s' g'
          ∧ Nodes s g s' g')
        ∨ (ok = true ∧ g.missing space v ≤ s.freelist.length
          ∧ Lent space v n perm layout s g s' g')) := by
  have page : 4096 * v / 4096 = v := by omega
  have isData := inv.held_data held
  have small : n < 2 ^ 44 := inv.accounts.small (by simp [isData])
  have ppn := mappedEntry_ppn small low
  have valid := mappedEntry_valid (4096 * n) perm
  rcases inv.mappages_vacant root (user_address (by rw [page]; exact user)) (by omega)
    (by rw [page]; exact vacant) (4096 * n) perm with
    ⟨s₁, g₁, run, inv₁, nodes, _, short⟩ | ⟨s₁, g₁, m, inv₁, nodes, node, left, run⟩
  · exact ⟨false, s₁, g₁, run, .inl ⟨rfl, page ▸ short, inv₁, nodes⟩⟩
  rw [page] at node run left
  have inv₂ := inv₁.setLeaf user node (PA2PTE (4096 * n) ||| perm ||| PTE_V)
    (update g.held n (g.held n - 1)) fun k => by
      rw [refersTo_valid valid, ppn, nodes.leaf, vacant, refersTo_invalid zero_invalid,
        nodes.held]
      by_cases same : k = n
      · subst same
        simp only [update_self, if_true]
        omega
      · simp [same]
  rw [Pte.mapped_of_valid valid] at inv₂
  have kept {k : Nat} (data : g.owner k = .data)
      : (s₁.setEntry m (v % 512) (PA2PTE (4096 * n) ||| perm ||| PTE_V)).mem k = s.mem k := by
    obtain ⟨data₁, same⟩ := nodes.grows k data
    simp [Phys.setEntry, inv₁.data_not_table data₁ node, same]
  refine ⟨true, _, { g₁ with
      leaf := setAt g₁.leaf space v (PA2PTE (4096 * n) ||| perm ||| PTE_V)
      held := update g.held n (g.held n - 1) }, run,
    .inr ⟨rfl, by omega, inv₂, ?_, nodes.root, by rw [nodes.leaf], ?_, nodes.exhausted,
      fun k data => (nodes.grows k data).1⟩⟩
  · have one : g.held n - 1 + 1 = g.held n := by omega
    simp only [bump, update_self, update_idem, one, update_eq_self]
  · rw [inv.view_setAt inv₂ (fun k data _ => kept data) user (by rw [nodes.leaf]), Pte.view,
      if_pos valid, ppn, kept isData, View.of_mapped]

-- Page tables that come and go

/-- A change to the page table of `space` that may add it or take it away. -/
structure Turnover (space : ι) (layout : Layout) (s : Phys) (g : Ghost ι) (s' : Phys)
    (g' : Ghost ι) (views : ι → Row) : Prop where
  inv : Inv layout s' g'
  held : g'.held = g.held
  root : ∀ other, other ≠ space → g'.table (.root other) = g.table (.root other)
  reserved : ∀ other v, other ≠ space → userPages ≤ v → g'.leaf other v = g.leaf other v
  view : g'.view s'.mem = views
  exhausted : s.exhausted = true → s'.exhausted = true
  cow : ∀ shared, Cow shared g → Cow shared g'
  fewer : ∀ {other v n}, g'.Maps other v n → g.Maps other v n

namespace Turnover

variable {space : ι}

theorem trans {s₁ s₂ : Phys} {g₁ g₂ : Ghost ι} {views₁ views₂ : ι → Row}
    (first : Turnover space layout s g s₁ g₁ views₁)
    (second : Turnover space layout s₁ g₁ s₂ g₂ views₂)
    : Turnover space layout s g s₂ g₂ views₂ where
  inv := second.inv
  held := second.held.trans first.held
  root other apart := (second.root other apart).trans (first.root other apart)
  reserved other v apart above :=
    (second.reserved other v apart above).trans (first.reserved other v apart above)
  view := second.view
  exhausted := second.exhausted ∘ first.exhausted
  cow shared := second.cow shared ∘ first.cow shared
  fewer maps := first.fewer (second.fewer maps)

/-- Code that leaves the entries of user memory and the data pages alone. -/
theorem of_leaf {s' : Phys} {g' : Ghost ι} (inv : Inv layout s g) (inv' : Inv layout s' g')
    (held : g'.held = g.held)
    (root : ∀ other, other ≠ space → g'.table (.root other) = g.table (.root other))
    (reserved : ∀ other v, other ≠ space → g'.leaf other v = g.leaf other v)
    (user : ∀ v, v < userPages → g'.leaf space v = g.leaf space v)
    (keeps : ∀ n, g.owner n = .data → g'.owner n = .data → s'.mem n = s.mem n)
    (exhausted : s.exhausted = true → s'.exhausted = true)
    : Turnover space layout s g s' g' (g.view s.mem) := by
  have same {other : ι} {v : Nat} (below : v < userPages)
      : g'.leaf other v = g.leaf other v := by
    by_cases here : other = space
    · exact here ▸ user v below
    · exact reserved other v here
  refine ⟨inv', held, root, fun other v apart _ => reserved other v apart, ?_, exhausted,
    fun shared cow => cow.less fun other v n maps => same maps.1,
    fun maps => ⟨maps.1, same maps.1 ▸ maps.2⟩⟩
  funext other v
  exact inv.view_same inv' keeps same

theorem nodes {s' : Phys} {g' : Ghost ι} (inv : Inv layout s g) (inv' : Inv layout s' g')
    (nodes : Nodes s g s' g')
    : Turnover space layout s g s' g' (g.view s.mem) :=
  of_leaf inv inv' nodes.held (fun other _ => nodes.root other) (fun _ _ _ => by rw [nodes.leaf])
    (fun _ _ => by rw [nodes.leaf]) (fun n data _ => (nodes.grows n data).2) nodes.exhausted

theorem shrinking [DecidableEq ι] {s' : Phys} {g' : Ghost ι} {views : ι → Row}
    (shrinking : Shrinking layout s g s' g' views)
    : Turnover space layout s g s' g' views where
  inv := shrinking.inv
  held := shrinking.held
  root other _ := shrinking.root other
  reserved other v _ above := shrinking.reserved other v above
  view := shrinking.view
  exhausted := shrinking.exhausted
  cow := shrinking.fewer
  fewer := shrinking.removes

end Turnover

theorem uvmfree_zero (layout : Layout) (pagetable : Nat)
    : uvmfree layout pagetable 0 = freewalk layout 2 pagetable := by
  rfl

/-- The test for a size of 0 in `uvmfree` makes no difference. -/
theorem uvmfree_eq (layout : Layout) (pagetable sz : Nat)
    : uvmfree layout pagetable sz = (do
        uvmunmap layout pagetable 0 (pageCount sz) true
        freewalk layout 2 pagetable) := by
  unfold uvmfree
  by_cases positive : 0 < sz
  · have pages : PGROUNDUP sz / 4096 = pageCount sz := by
      rw [PGROUNDUP_eq]
      omega
    rw [if_pos positive, pages]
  · have zero : sz = 0 := by omega
    rw [zero]
    rfl

theorem reserved_closed (pa : Nat) (closed : perm.has PTE_U = false)
    : (PA2PTE pa ||| perm ||| PTE_V).has PTE_U = false := by
  rw [Pte.has_or, Pte.has_or, Pte.has_PA2PTE pa (by decide), closed]
  decide

namespace Inv

variable {space : ι} {v r : Nat}

theorem absent_leaf (inv : Inv layout s g) (absent : g.table (.root space) = none) (v : Nat)
    : g.leaf space v = 0 := by
  have middle : g.table (.mid space (v / 512 / 512)) = none :=
    inv.shape.below_vacant (.mid space (v / 512 / 512)) absent rfl
  exact inv.shape.unmapped space v
    (inv.shape.below_vacant (.low space (v / 512)) middle rfl)

theorem upper_leaf (inv : Inv layout s g) (space : ι) (high : 2 ^ 26 ≤ v)
    : g.leaf space v = 0 := by
  have middle := inv.shape.upper space (v / 512 / 512) (by omega)
  exact inv.shape.unmapped space v
    (inv.shape.below_vacant (.low space (v / 512)) middle rfl)

variable [DecidableEq ι]

section

variable (inv : Inv layout s g)
include inv

theorem freewalk_turnover (root : g.table (.root space) = some r)
    (leafless : ∀ v, g.leaf space v = 0)
    : ∃ s' g', freewalk layout 2 (4096 * r) s = .ok ((), s')
      ∧ Turnover space layout s g s' g' (g.view s.mem)
      ∧ g'.table (.root space) = none ∧ s'.exhausted = s.exhausted ∧ Kept g s s'
      ∧ Elsewhere space g g' := by
  obtain ⟨s', g', run, inv', leaf, held, gone, others, shrinks, exhausted⟩ :=
    inv.freewalk_root root leafless
  exact ⟨s', g', run, .of_leaf inv inv' held (fun other => others (.root other))
    (fun _ _ _ => by rw [leaf]) (fun _ _ => by rw [leaf]) (fun n _ data => (shrinks n data).2)
    (fun out => exhausted.trans out), gone, exhausted, shrinks_kept inv' held shrinks, others,
    fun _ _ => by rw [leaf]⟩

theorem setReserved_turnover {m : Nat} (reserved : userPages ≤ v)
    (found : g.table (.low space (v / 512)) = some m) (pte : Pte)
    : Turnover space layout s g (s.setEntry m (v % 512) pte)
        { g with leaf := setAt g.leaf space v pte.mapped } (g.view s.mem) := by
  refine .of_leaf inv (inv.setReserved reserved found pte) rfl (fun _ _ => rfl)
    (fun other v' apart => ?_) (fun v' user => ?_) (fun n data _ => ?_) id
  · exact setAt_other _ _ fun same => apart same.1
  · exact setAt_other _ _ fun same => by omega
  · simp [Phys.setEntry, inv.data_not_table data found]

/-- `uvmunmap` of one page above user memory. -/
theorem uvmunmap_reserved (root : g.table (.root space) = some r) (bound : 4096 * v < MAXVA)
    (reserved : userPages ≤ v)
    : ∃ s' g', Vm.uvmunmap layout (4096 * r) (4096 * v) 1 false s = .ok ((), s')
      ∧ Turnover space layout s g s' g' (g.view s.mem)
      ∧ g'.table = g.table ∧ g'.leaf = setAt g.leaf space v 0
      ∧ s'.exhausted = s.exhausted ∧ Kept g s s' := by
  have page : 4096 * v / 4096 = v := by omega
  obtain ⟨s', g', run, inv', unmaps, leaf⟩ :=
    inv.unmapOne_reserved root bound (by rw [page]; exact reserved)
  rw [page] at leaf
  have turnover : Turnover space layout s g s' g' (g.view s.mem) := by
    refine .of_leaf inv inv' unmaps.held (fun _ _ => by rw [unmaps.table])
      (fun other v' apart => ?_) (fun v' user => ?_) (fun n _ data => (unmaps.shrinks n data).2)
      fun out => unmaps.exhausted.trans out
    · rw [leaf, setAt_other _ _ fun same => apart same.1]
    · rw [leaf, setAt_other _ _ fun same => by omega]
  refine ⟨s', g', ?_, turnover, unmaps.table, leaf, unmaps.exhausted,
    shrinks_kept inv' unmaps.held unmaps.shrinks⟩
  unfold Vm.uvmunmap
  rw [if_neg (by omega)]
  unfold uvmunmapLoop
  rw [bind_ok run]
  rfl

/-- `uvmcreate` gives a space without a page table an empty one. -/
theorem uvmcreate (absent : g.table (.root space) = none)
    : ∃ result s' g', Vm.uvmcreate s = .ok (result, s')
      ∧ Turnover space layout s g s' g' (g.view s.mem) ∧ Kept g s s'
      ∧ ((result = none ∧ s'.exhausted = true ∧ g' = g)
        ∨ ∃ r, result = some (4096 * r) ∧ g'.table (.root space) = some r
          ∧ (∀ v, g'.leaf space v = 0)
          ∧ ∀ n, g.owner n = .data → g'.owner n = .data) := by
  unfold Vm.uvmcreate
  rcases inv.kalloc with failed | ⟨n, s₁, run, isFree, inv₁, mem₁, exhausted₁⟩
  · rw [bind_ok failed]
    refine ⟨none, _, g, rfl, ?_, .refl g s, .inl ⟨rfl, rfl, rfl⟩⟩
    exact .of_leaf inv ⟨inv.accounts, inv.shape⟩ rfl (fun _ _ => rfl) (fun _ _ _ => rfl)
      (fun _ _ => rfl) (fun _ _ _ => rfl) fun _ => rfl
  rw [bind_ok run]
  dsimp only
  rw [bind_ok (zeroPage_run s₁ n)]
  have ne_free {m : Nat} (data : g.owner m = .data) : m ≠ n := by
    rintro rfl
    rw [isFree] at data
    cases data
  have noHold := inv.free_unheld isFree
  have inv₂ := inv₁.writeData (n := n) (by simp) (pageOf 0)
  have inv₃ : Inv layout { s₁ with mem := update s₁.mem n (pageOf 0) }
      { g with
        table := update g.table (.root space) (some n)
        owner := update (update g.owner n .data) n (.table (.root space))
        held := update (update g.held n 1) n 0 } :=
    ⟨inv₂.accounts.adopt (by simp) (inv.accounts.leafCount_zero (by simp [isFree])) absent,
      (inv₂.shape.adoptRoot absent (by simp)).frame fun _ _ _ => rfl⟩
  refine ⟨some (4096 * n), _, { g with
      table := update g.table (.root space) (some n)
      owner := update (update g.owner n .data) n (.table (.root space))
      held := update (update g.held n 1) n 0 }, rfl, ?_, ?_,
    .inr ⟨n, rfl, by simp, inv.absent_leaf absent, fun m data => ?_⟩⟩
  · refine .of_leaf inv inv₃ ?_ (fun other apart => ?_) (fun _ _ _ => rfl) (fun _ _ => rfl)
      (fun m data _ => ?_) fun out => ?_
    · simp only [update_idem, ← noHold, update_eq_self]
    · simp [apart]
    · simp [ne_free data, mem₁ m (ne_free data)]
    · simpa [exhausted₁] using out
  · intro m held
    have other := ne_free (inv.held_data held)
    simp [other, mem₁ m other]
  · simp [ne_free data, data]

/-- A page of `proc_pagetable` that is not user memory. -/
theorem mapReserved (root : g.table (.root space) = some r) (bound : 4096 * v < MAXVA)
    (reserved : userPages ≤ v) (vacant : g.leaf space v = 0) (pa : Nat) (perm : Pte)
    : ∃ ok s' g', mappages (4096 * r) (4096 * v) 4096 pa perm s = .ok (ok, s')
      ∧ Turnover space layout s g s' g' (g.view s.mem) ∧ Kept g s s'
      ∧ g'.table (.root space) = some r
      ∧ ((ok = false ∧ s'.exhausted = true ∧ g'.leaf = g.leaf)
        ∨ (ok = true ∧ g'.leaf = setAt g.leaf space v (PA2PTE pa ||| perm ||| PTE_V)
          ∧ ∀ n, g.owner n = .data → g'.owner n = .data)) := by
  have page : 4096 * v / 4096 = v := by omega
  rcases inv.mappages_vacant root bound (by omega) (by rw [page]; exact vacant) pa perm with
    ⟨s₁, g₁, run, inv₁, nodes, out, _⟩ | ⟨s₁, g₁, m, inv₁, nodes, node, _, run⟩
  · exact ⟨false, s₁, g₁, run, .nodes inv inv₁ nodes, inv.grows_kept nodes.grows,
      (nodes.root space).trans root, .inl ⟨rfl, out, nodes.leaf⟩⟩
  · rw [page] at node run
    have added : Turnover space layout s g s₁ g₁ (g.view s.mem) := .nodes inv inv₁ nodes
    have written := inv₁.setReserved_turnover reserved node (PA2PTE pa ||| perm ||| PTE_V)
    rw [Pte.mapped_of_valid (mappedEntry_valid pa perm), added.view] at written
    refine ⟨true, _, _, run, added.trans written, fun n held => ?_,
      (nodes.root space).trans root,
      .inr ⟨rfl, by rw [nodes.leaf], fun n data => (nodes.grows n data).1⟩⟩
    obtain ⟨data, same⟩ := nodes.grows n (inv.held_data held)
    simp [Phys.setEntry, inv₁.data_not_table data node, same]

/-- `proc_pagetable` adds a space without user memory, or memory is out and none is added. -/
theorem procPagetable (absent : g.table (.root space) = none) (trapframe : Nat)
    : ∃ result s' g', Vm.procPagetable layout trapframe s = .ok (result, s')
      ∧ Turnover space layout s g s' g' (g.view s.mem) ∧ Kept g s s'
      ∧ ((result = none ∧ s'.exhausted = true ∧ g'.table (.root space) = none)
        ∨ ∃ r, result = some (4096 * r) ∧ g'.table (.root space) = some r
          ∧ (g'.leaf space userPages).has PTE_V = true ∧ Guarded g' space
          ∧ ∀ n, g.owner n = .data → g'.owner n = .data) := by
  have trampoline : TRAMPOLINE = 4096 * (userPages + 1) := by decide
  have trapframeVa : TRAPFRAME = 4096 * userPages := by decide
  unfold Vm.procPagetable
  obtain ⟨result, s₁, g₁, run, created, kept₁, outcome⟩ := inv.uvmcreate absent
  rw [bind_ok run]
  rcases outcome with ⟨rfl, out, rfl⟩ | ⟨r, rfl, root₁, empty, data₁⟩
  · exact ⟨none, s₁, g₁, rfl, created, kept₁, .inl ⟨rfl, out, absent⟩⟩
  dsimp only
  obtain ⟨ok, s₂, g₂, run₂, mapped₂, kept₂, root₂, outcome₂⟩ := created.inv.mapReserved root₁
    (by decide : 4096 * (userPages + 1) < MAXVA) (by omega) (empty _) layout.trampoline
    (PTE_R ||| PTE_X)
  rw [created.view] at mapped₂
  have kept₂ := kept₁.trans created.held kept₂
  rw [trampoline, bind_ok run₂]
  rcases outcome₂ with ⟨rfl, out, leaf₂⟩ | ⟨rfl, leaf₂, data₂⟩
  · obtain ⟨s₃, g₃, run₃, freed, gone, out₃, kept₃, _⟩ :=
      mapped₂.inv.freewalk_turnover root₂ (by rw [leaf₂]; exact empty)
    rw [mapped₂.view] at freed
    rw [if_neg (by simp), uvmfree_zero, bind_ok run₃]
    exact ⟨none, s₃, g₃, rfl, (created.trans mapped₂).trans freed,
      kept₂.trans (created.trans mapped₂).held kept₃, .inl ⟨rfl, out₃.trans out, gone⟩⟩
  have vacant₂ : g₂.leaf space userPages = 0 := by
    rw [leaf₂, setAt_other _ _ fun same => by omega]
    exact empty _
  obtain ⟨ok, s₃, g₃, run₃, mapped₃, kept₃, root₃, outcome₃⟩ := mapped₂.inv.mapReserved root₂
    (by decide : 4096 * userPages < MAXVA) (Nat.le_refl _) vacant₂ trapframe (PTE_R ||| PTE_W)
  rw [mapped₂.view] at mapped₃
  have upTo := (created.trans mapped₂).trans mapped₃
  have kept₃ := kept₂.trans (created.trans mapped₂).held kept₃
  rw [if_pos rfl, trapframeVa, bind_ok run₃]
  rcases outcome₃ with ⟨rfl, out, leaf₃⟩ | ⟨rfl, leaf₃, data₃⟩
  · obtain ⟨s₄, g₄, run₄, cleared, table₄, leaf₄, out₄, kept₄⟩ :=
      mapped₃.inv.uvmunmap_reserved root₃
      (by decide : 4096 * (userPages + 1) < MAXVA) (by omega)
    have leafless : ∀ v, g₄.leaf space v = 0 := by
      intro v
      rw [leaf₄, leaf₃, leaf₂]
      by_cases here : v = userPages + 1
      · rw [here, setAt_same]
      · rw [setAt_other _ _ fun same => here same.2, setAt_other _ _ fun same => here same.2]
        exact empty v
    obtain ⟨s₅, g₅, run₅, freed, gone, out₅, kept₅, _⟩ :=
      cleared.inv.freewalk_turnover (by rw [table₄, root₃]) leafless
    rw [cleared.view] at freed
    rw [mapped₃.view] at cleared freed
    rw [if_neg (by simp), bind_ok run₄, uvmfree_zero, bind_ok run₅]
    exact ⟨none, s₅, g₅, rfl, (upTo.trans cleared).trans freed,
      (kept₃.trans upTo.held kept₄).trans (upTo.trans cleared).held kept₅,
      .inl ⟨rfl, (out₅.trans out₄).trans out, gone⟩⟩
  · refine ⟨some (4096 * r), s₃, g₃, rfl, upTo, kept₃, .inr ⟨r, rfl, root₃, ?_, ?_, fun n data =>
      data₃ n (data₂ n (data₁ n data))⟩⟩
    · rw [leaf₃, setAt_same, mappedEntry_valid]
    · intro v above
      rw [leaf₃, leaf₂]
      by_cases isTrapframe : v = userPages
      · rw [isTrapframe, setAt_same]
        exact reserved_closed trapframe (by decide)
      · rw [setAt_other _ _ fun same => isTrapframe same.2]
        by_cases isTrampoline : v = userPages + 1
        · rw [isTrampoline, setAt_same]
          exact reserved_closed layout.trampoline (by decide)
        · rw [setAt_other _ _ fun same => isTrampoline same.2, empty]
          decide

/-- `proc_freepagetable` takes a space away with all its user memory. -/
theorem procFreepagetable {sz : Nat} (root : g.table (.root space) = some r) (fits : sz ≤ TRAPFRAME)
    (top : ∀ v, pageCount sz ≤ v → g.view s.mem space v = none)
    : ∃ s' g', Vm.procFreepagetable layout (4096 * r) sz s = .ok ((), s')
      ∧ Turnover space layout s g s' g' (update (g.view s.mem) space fun _ => none)
      ∧ g'.table (.root space) = none ∧ s'.exhausted = s.exhausted ∧ Kept g s s'
      ∧ Elsewhere space g g' := by
  have trampoline : TRAMPOLINE = 4096 * (userPages + 1) := by decide
  have trapframeVa : TRAPFRAME = 4096 * userPages := by decide
  unfold Vm.procFreepagetable
  obtain ⟨s₁, g₁, run₁, cleared₁, table₁, leaf₁, out₁, kept₁⟩ := inv.uvmunmap_reserved root
    (by decide : 4096 * (userPages + 1) < MAXVA) (by omega)
  obtain ⟨s₂, g₂, run₂, cleared₂, table₂, leaf₂, out₂, kept₂⟩ := cleared₁.inv.uvmunmap_reserved
    (by rw [table₁, root]) (by decide : 4096 * userPages < MAXVA) (Nat.le_refl _)
  rw [cleared₁.view] at cleared₂
  have root₂ : g₂.table (.root space) = some r := by rw [table₂, table₁, root]
  rw [trampoline, bind_ok run₁, trapframeVa, bind_ok run₂]
  obtain ⟨s₃, g₃, run₃, shrinking, out₃, kept₃, elsewhere₃⟩ := cleared₂.inv.uvmunmap root₂
    (Nat.zero_le (pageCount sz)) (pageCount_user fits)
  rw [cleared₂.view] at shrinking
  rw [Nat.mul_zero, Nat.sub_zero] at run₃
  have emptied : without (g.view s.mem) space 0 (pageCount sz)
      = update (g.view s.mem) space fun _ => none := by
    funext other v
    by_cases here : other = space
    · subst here
      rw [update_self, without]
      by_cases below : v < pageCount sz
      · rw [if_pos ⟨rfl, Nat.zero_le v, below⟩]
      · rw [if_neg fun inside => below inside.2.2, top v (by omega)]
    · rw [update_of_ne here, without, if_neg fun inside => here inside.1]
  have unmapped : Turnover space layout s₂ g₂ s₃ g₃ _ := .shrinking shrinking
  have leafless : ∀ v, g₃.leaf space v = 0 := by
    intro v
    by_cases user : v < userPages
    · refine shrinking.inv.vacant_of_view user (?_ : g₃.view s₃.mem space v = none)
      rw [shrinking.view, emptied, update_self]
    · rw [shrinking.reserved space v (by omega), leaf₂, leaf₁]
      by_cases isTrapframe : v = userPages
      · rw [isTrapframe, setAt_same]
      · rw [setAt_other _ _ fun same => isTrapframe same.2]
        by_cases isTrampoline : v = userPages + 1
        · rw [isTrampoline, setAt_same]
        · rw [setAt_other _ _ fun same => isTrampoline same.2]
          exact inv.upper_leaf space (by simp only [userPages] at *; omega)
  obtain ⟨s₄, g₄, run₄, freed, gone, out₄, kept₄, elsewhere₄⟩ :=
    unmapped.inv.freewalk_turnover ((shrinking.root space).trans root₂) leafless
  rw [unmapped.view, emptied] at freed
  rw [uvmfree_eq, bind_ok run₃, run₄]
  have upTo := (cleared₁.trans cleared₂).trans unmapped
  have kept := (kept₁.trans cleared₁.held kept₂).trans (cleared₁.trans cleared₂).held kept₃
  have elsewhere₂ : Elsewhere space g g₂ := by
    refine ⟨fun l _ => by rw [table₂, table₁], fun other apart => ?_⟩
    funext v
    rw [leaf₂, leaf₁, setAt_other _ _ fun same => apart same.1,
      setAt_other _ _ fun same => apart same.1]
  exact ⟨s₄, g₄, rfl, upTo.trans freed, gone, out₄.trans (out₃.trans (out₂.trans out₁)),
    kept.trans upTo.held kept₄, (elsewhere₂.trans elsewhere₃).trans elsewhere₄⟩

end

end Inv

end Xv6.Vm

import Xv6.Vm.PageTableSpec

/-! Mapping and unmapping pages: `mappages` and `uvmunmap` over the ownership of the pages. -/

namespace Xv6.Vm

open Function Library

variable {ι : Type} [Fintype ι] {layout : Layout} {s : Phys} {g : Ghost ι}

-- Leaf entries

theorem refersTo_valid {pte : Pte} (valid : pte.has PTE_V = true) (n : Nat)
    : (Pte.refersTo n pte).toNat = if n = pte.ppn then 1 else 0 := by
  by_cases same : n = pte.ppn
  · simp [Pte.refersTo, valid, same]
  · simp [Pte.refersTo, same, Ne.symm same]

theorem refersTo_invalid {pte : Pte} (invalid : pte.has PTE_V = false) (n : Nat)
    : (Pte.refersTo n pte).toNat = 0 := by
  simp [Pte.refersTo, invalid]

theorem refersTo_mapped (pte : Pte) (n : Nat)
    : Pte.refersTo n pte.mapped = Pte.refersTo n pte := by
  by_cases valid : pte.has PTE_V = true
  · rw [Pte.mapped_of_valid valid]
  · have invalid : pte.has PTE_V = false := by simpa using valid
    simp [Pte.refersTo, Pte.has_mapped, invalid]

theorem zero_invalid : (0 : Pte).has PTE_V = false := by
  decide

theorem Inv.leaf_zero (inv : Inv layout s g) {space : ι} {v : Nat}
    (invalid : (g.leaf space v).has PTE_V = false)
    : g.leaf space v = 0 := by
  rw [← inv.shape.leaf_mapped space v]
  exact Pte.mapped_of_invalid invalid

variable [DecidableEq ι]

namespace Inv

variable {space : ι} {v va : Nat}

/-- A leaf entry of user memory may be written when the kernel's references make up for the
difference.
-/
theorem setLeaf (inv : Inv layout s g) {m : Nat} (user : v < userPages)
    (found : g.table (.low space (v / 512)) = some m) (pte : Pte) (held : Nat → Nat)
    (tokens
      : ∀ n, held n + (Pte.refersTo n pte).toNat
          = g.held n + (Pte.refersTo n (g.leaf space v)).toNat)
    : Inv layout (s.setEntry m (v % 512) pte)
        { g with leaf := setAt g.leaf space v pte.mapped, held := held } := by
  refine ⟨inv.accounts.recount ?_,
    (inv.shape.setLeaf inv.accounts.label_unique found pte).frame fun _ _ _ => rfl⟩
  intro n
  have counted := countEntries_setAt (Pte.refersTo n) g.leaf space
    (Finset.mem_range.mpr user) pte.mapped
  have balance := tokens n
  rw [refersTo_mapped] at counted
  simp only [Ghost.count, Ghost.leafCount] at counted ⊢
  omega

theorem setReserved (inv : Inv layout s g) {m : Nat} (reserved : userPages ≤ v)
    (found : g.table (.low space (v / 512)) = some m) (pte : Pte)
    : Inv layout (s.setEntry m (v % 512) pte)
        { g with leaf := setAt g.leaf space v pte.mapped } := by
  refine ⟨inv.accounts.recount ?_, inv.shape.setLeaf inv.accounts.label_unique found pte⟩
  intro n
  have outside : v ∉ Finset.range userPages := by simpa using reserved
  simp only [Ghost.count, Ghost.leafCount,
    countEntries_setAt_outside (Pte.refersTo n) g.leaf space outside]

-- mappages

theorem mappages_page {pagetable pa : Nat} {perm : Pte} (aligned : va % 4096 = 0) (s : Phys)
    : mappages pagetable va 4096 pa perm s = mapOne pagetable va pa perm s := by
  unfold mappages
  rw [if_neg (by omega)]
  change (mapOne pagetable va pa perm >>= _) s = _
  cases run : mapOne pagetable va pa perm s with
  | error message => rw [bind_error run]
  | ok result =>
    obtain ⟨done, s'⟩ := result
    rw [bind_ok run]
    cases done <;> rfl

/-- Mapping a page that is not mapped: memory is out, or nodes are added and the entry is
written.
-/
theorem mappages_vacant (inv : Inv layout s g) {r : Nat} (root : g.table (.root space) = some r)
    (bound : va < MAXVA) (aligned : va % 4096 = 0) (vacant : g.leaf space (va / 4096) = 0)
    (pa : Nat) (perm : Pte)
    : (∃ s' g', mappages (4096 * r) va 4096 pa perm s = .ok (false, s')
        ∧ Inv layout s' g' ∧ Nodes s g s' g' ∧ s'.exhausted = true
        ∧ s.freelist.length < g.missing space (va / 4096))
      ∨ ∃ s₁ g₁ m, Inv layout s₁ g₁ ∧ Nodes s g s₁ g₁
        ∧ g₁.table (.low space (va / 4096 / 512)) = some m
        ∧ s₁.freelist.length + g.missing space (va / 4096) = s.freelist.length
        ∧ mappages (4096 * r) va 4096 pa perm s
          = .ok (true, s₁.setEntry m (va / 4096 % 512) (PA2PTE pa ||| perm ||| PTE_V)) := by
  obtain ⟨found, s₁, g₁, run, inv₁, nodes, outcome⟩ := inv.walk_alloc root bound
  rw [mappages_page aligned]
  unfold mapOne
  rw [bind_ok run]
  rcases outcome with ⟨rfl, out⟩ | ⟨m, rfl, node, left⟩
  · exact .inl ⟨s₁, g₁, rfl, inv₁, nodes, out⟩
  · right
    refine ⟨s₁, g₁, m, inv₁, nodes, node, left, ?_⟩
    have leaf := inv₁.shape.leaves space (va / 4096) m node
    have invalid : ((s₁.mem m).entry (va / 4096 % 512)).has PTE_V = false := by
      rw [← Pte.has_mapped, ← leaf, nodes.leaf, vacant]
      decide
    dsimp only
    rw [bind_ok (readEntry_run s₁ m _)]
    simp only [invalid, Bool.false_eq_true, if_false]
    rw [bind_ok (writeEntry_run s₁ m _ _)]
    rfl

omit [DecidableEq ι] in
theorem missing_of_mapped (inv : Inv layout s g) (mapped : (g.leaf space v).has PTE_V = true)
    : g.missing space v = 0 := by
  cases node : g.table (.low space (v / 512)) with
  | none =>
    rw [inv.shape.unmapped space v node, zero_invalid] at mapped
    cases mapped
  | some m =>
    obtain ⟨p, above⟩ := inv.shape.parents _ m node
    simp only [Label.parent] at above
    simp [Ghost.missing, node, above]

/-- Mapping a page that is mapped already panics. -/
theorem mappages_mapped (inv : Inv layout s g) {r : Nat} (root : g.table (.root space) = some r)
    (bound : va < MAXVA) (aligned : va % 4096 = 0)
    (mapped : (g.leaf space (va / 4096)).has PTE_V = true) (pa : Nat) (perm : Pte)
    : mappages (4096 * r) va 4096 pa perm s = .error "mappages: remap" := by
  obtain ⟨found, s₁, g₁, run, inv₁, nodes, outcome⟩ := inv.walk_alloc root bound
  rw [mappages_page aligned]
  unfold mapOne
  rw [bind_ok run]
  rcases outcome with ⟨_, _, short⟩ | ⟨m, rfl, node, _⟩
  · rw [inv.missing_of_mapped mapped] at short
    cases short
  · have leaf := inv₁.shape.leaves space (va / 4096) m node
    have valid : ((s₁.mem m).entry (va / 4096 % 512)).has PTE_V = true := by
      rw [← Pte.has_mapped, ← leaf, nodes.leaf, mapped]
    dsimp only
    rw [bind_ok (readEntry_run s₁ m _)]
    simp only [valid]
    rfl

end Inv

-- uvmunmap

theorem release_setEntry (s : Phys) {n m : Nat} (other : n ≠ m) (i : Nat) (pte : Pte)
    : (s.release n).setEntry m i pte = (s.setEntry m i pte).release n := by
  by_cases last : s.refCount n = 1
  · simp [Phys.release, Phys.setEntry, last, update_of_ne (Ne.symm other),
      update_comm other]
  · simp [Phys.release, Phys.setEntry, last]

namespace Inv

variable {space : ι} {r : Nat}

section

variable (inv : Inv layout s g) (root : g.table (.root space) = some r)
include inv root

/-- One iteration of `uvmunmap` with `do_free` on user memory. -/
theorem unmapOne_user {va : Nat} (user : va / 4096 < userPages)
    : ∃ s' g', unmapOne layout (4096 * r) va true s = .ok ((), s')
      ∧ Inv layout s' g' ∧ Unmaps s g s' g'
      ∧ g'.leaf = setAt g.leaf space (va / 4096) 0 := by
  have bound : va < MAXVA := by
    simp only [userPages, MAXVA] at *
    omega
  unfold unmapOne
  rcases inv.shape.look root bound with ⟨walked, leaf⟩ | ⟨m, walked, node, leaf⟩
  · rw [bind_ok walked]
    exact ⟨s, g, rfl, inv, .refl s g, by rw [← leaf, setAt_self]⟩
  · rw [bind_ok walked]
    dsimp only
    rw [bind_ok (readEntry_run s m _)]
    by_cases valid : ((s.mem m).entry (va / 4096 % 512)).has PTE_V = true
    · rw [Pte.mapped_of_valid valid] at leaf
      rw [← leaf] at valid ⊢
      have data := inv.leaf_data user valid
      have other := inv.data_not_table data node
      simp only [valid, Bool.not_true, Bool.false_eq_true, if_false, if_true]
      have cleared := inv.setLeaf user node 0
        (update g.held (g.leaf space (va / 4096)).ppn
          (g.held (g.leaf space (va / 4096)).ppn + 1)) (by
          intro n
          rw [refersTo_invalid zero_invalid, refersTo_valid valid]
          by_cases same : n = (g.leaf space (va / 4096)).ppn
          · subst same
            simp
          · simp [same])
      have held : 0 < (update g.held (g.leaf space (va / 4096)).ppn
          (g.held (g.leaf space (va / 4096)).ppn + 1)) (g.leaf space (va / 4096)).ppn := by
        simp
      have freed := cleared.release held
      have count := inv.refCount_data data
      have positive := (inv.accounts.data _).mpr data
      have ran := Vm.kfree_run (s := s) ((inv.accounts.ram _).mp (by simp [data]))
        (by omega : 0 < s.refCount (g.leaf space (va / 4096)).ppn)
      rw [PTE2PA_eq (inv.leaf_small user valid), bind_ok ran, writeEntry_run,
        release_setEntry s other]
      refine ⟨_, _, rfl, freed, ⟨by simp [Ghost.release], rfl, ?_, rfl⟩,
        by dsimp only [Ghost.release]; rw [Pte.mapped_zero]⟩
      intro n isData
      obtain ⟨before, kept⟩ := cleared.release_shrinks held n isData
      refine ⟨before, kept.trans ?_⟩
      simp [Phys.setEntry, inv.data_not_table before node]
    · have invalid : ((s.mem m).entry (va / 4096 % 512)).has PTE_V = false := by
        simpa using valid
      rw [Pte.mapped_of_invalid invalid] at leaf
      simp only [invalid, Bool.not_false, if_true]
      exact ⟨s, g, rfl, inv, .refl s g, by rw [← leaf, setAt_self]⟩

/-- One iteration of `uvmunmap` without `do_free`, above user memory. -/
theorem unmapOne_reserved {va : Nat} (bound : va < MAXVA) (reserved : userPages ≤ va / 4096)
    : ∃ s' g', unmapOne layout (4096 * r) va false s = .ok ((), s')
      ∧ Inv layout s' g' ∧ Unmaps s g s' g'
      ∧ g'.leaf = setAt g.leaf space (va / 4096) 0 := by
  unfold unmapOne
  rcases inv.shape.look root bound with ⟨walked, leaf⟩ | ⟨m, walked, node, leaf⟩
  · rw [bind_ok walked]
    exact ⟨s, g, rfl, inv, .refl s g, by rw [← leaf, setAt_self]⟩
  · rw [bind_ok walked]
    dsimp only
    rw [bind_ok (readEntry_run s m _)]
    by_cases valid : ((s.mem m).entry (va / 4096 % 512)).has PTE_V = true
    · simp only [valid, Bool.not_true, Bool.false_eq_true, if_false]
      rw [writeEntry_run]
      refine ⟨_, _, rfl, inv.setReserved reserved node 0, ⟨rfl, rfl, ?_, rfl⟩,
        by rw [Pte.mapped_zero]⟩
      intro n isData
      exact ⟨isData, by simp [Phys.setEntry, inv.data_not_table isData node]⟩
    · have invalid : ((s.mem m).entry (va / 4096 % 512)).has PTE_V = false := by
        simpa using valid
      rw [Pte.mapped_of_invalid invalid] at leaf
      simp only [invalid]
      exact ⟨s, g, rfl, inv, .refl s g, by rw [← leaf, setAt_self]⟩

/-- `uvmunmap` with `do_free` clears the range and gives every page of it back. -/
theorem uvmunmap_user {first pages : Nat} (user : first + pages ≤ userPages)
    : ∃ s' g', uvmunmap layout (4096 * r) (4096 * first) pages true s = .ok ((), s')
      ∧ Inv layout s' g' ∧ Unmaps s g s' g'
      ∧ ∀ space' v, g'.leaf space' v
          = if space' = space ∧ first ≤ v ∧ v < first + pages then 0
            else g.leaf space' v := by
  unfold uvmunmap
  rw [if_neg (by omega)]
  induction pages generalizing s g first with
  | zero =>
    refine ⟨s, g, rfl, inv, .refl s g, fun space' v => ?_⟩
    rw [if_neg (by omega)]
  | succ pages ih =>
    have page : 4096 * first / 4096 = first := by omega
    obtain ⟨s₁, g₁, run, inv₁, unmaps, leaf⟩ :=
      inv.unmapOne_user root (by omega : 4096 * first / 4096 < userPages)
    rw [page] at leaf
    obtain ⟨s₂, g₂, run₂, inv₂, unmaps₂, leaf₂⟩ :=
      ih inv₁ (by rw [unmaps.table, root]) (by omega : first + 1 + pages ≤ userPages)
    refine ⟨s₂, g₂, ?_, inv₂, unmaps.trans unmaps₂, fun space' v => ?_⟩
    · unfold uvmunmapLoop
      rw [bind_ok run]
      exact run₂
    · rw [leaf₂, leaf, setAt_eq]
      split_ifs <;> first | rfl | omega | simp_all <;> omega

end

end Inv

end Xv6.Vm

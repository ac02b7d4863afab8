import Xv6.Vm.MappingSpec

/-! Freeing a page table: `freewalk` and `uvmfree` give every node back, once no leaf is left
in the table.
-/

namespace Xv6.Vm

open Function Library

variable {ι : Type} {layout : Layout} {s : Phys} {g : Ghost ι} {space : ι}

/-- The node under entry `j`; nodes of level 0 have none. -/
def Label.child : Label ι → Nat → Label ι
  | .root space, j => .mid space j
  | .mid space i, j => .low space (512 * i + j)
  | .low space q, _ => .low space q

/-- The nodes strictly below a node. -/
def Label.Below (l' l : Label ι) : Prop := l' ≠ l ∧ (l'.parent = l ∨ l'.parent.parent = l)

/-- Only nodes below `l` went. -/
structure Frees (l : Label ι) (s : Phys) (g : Ghost ι) (s' : Phys) (g' : Ghost ι)
    : Prop where
  leaf : g'.leaf = g.leaf
  held : g'.held = g.held
  kept : ∀ l', ¬l'.Below l → g'.table l' = g.table l'
  vacant : ∀ l', g.table l' = none → g'.table l' = none
  shrinks : Shrinks s g s' g'
  exhausted : s'.exhausted = s.exhausted

theorem Frees.refl (l : Label ι) (s : Phys) (g : Ghost ι) : Frees l s g s g :=
  ⟨rfl, rfl, fun _ _ => rfl, fun _ none => none, fun _ data => ⟨data, rfl⟩, rfl⟩

variable {l : Label ι}

theorem Frees.trans {s₁ s₂ : Phys} {g₁ g₂ : Ghost ι} (first : Frees l s g s₁ g₁)
    (second : Frees l s₁ g₁ s₂ g₂)
    : Frees l s g s₂ g₂ where
  leaf := second.leaf.trans first.leaf
  held := second.held.trans first.held
  kept l' outside := (second.kept l' outside).trans (first.kept l' outside)
  vacant l' none := second.vacant l' (first.vacant l' none)
  shrinks := first.shrinks.trans second.shrinks
  exhausted := second.exhausted.trans first.exhausted

/-- No leaf entry below the node is valid. -/
def Leafless (g : Ghost ι) (l : Label ι) : Prop :=
  ∀ space v, (l = .low space (v / 512) ∨ Label.Below (.low space (v / 512)) l)
    → g.leaf space v = 0

theorem Label.below_child {l' : Label ι} {j : Nat} (below : l'.Below (l.child j))
    : l'.Below l := by
  obtain ⟨different, direct | indirect⟩ := below <;> cases l <;> cases l' <;>
    simp_all [Label.Below, Label.child, Label.parent]

theorem Label.child_parent {j : Nat} (bound : j < 512) (different : l.child j ≠ l)
    : (l.child j).parent = l ∧ (l.child j).index = j ∧ (l.child j).Inner := by
  cases l with
  | root space => exact ⟨rfl, rfl, bound⟩
  | mid space i =>
    refine ⟨?_, ?_, trivial⟩
    · simp only [Label.child, Label.parent, Label.mid.injEq, true_and]
      omega
    · simp only [Label.child, Label.index]
      omega
  | low space q => exact (different rfl).elim

theorem Label.parent_space (l : Label ι) : l.parent.space = l.space := by
  cases l <;> rfl

theorem Label.below_space {l' : Label ι} (below : l'.Below l) : l'.space = l.space := by
  rcases below.2 with direct | indirect
  · rw [← direct, Label.parent_space]
  · rw [← indirect, Label.parent_space, Label.parent_space]

theorem Label.not_below_low (l : Label ι) (space : ι) (q : Nat) : ¬l.Below (.low space q) := by
  rintro ⟨_, direct | indirect⟩ <;> cases l <;> simp_all [Label.parent]

theorem Label.below_mid {i : Nat} (below : l.Below (.mid space i))
    : ∃ j, j < 512 ∧ l = (Label.mid space i).child j := by
  obtain ⟨different, direct | indirect⟩ := below <;> cases l <;>
    simp_all [Label.parent, Label.child]
  case inl.low q =>
    exact ⟨q % 512, Nat.mod_lt _ (by decide), by omega⟩

variable [Fintype ι]

/-- The free function gives a node back after everything below it. -/
def FreesNode (layout : Layout) (free : Nat → Kernel Unit) (l : Label ι) : Prop :=
  ∀ (s : Phys) (g : Ghost ι) (n : Nat), Inv layout s g → g.table l = some n → Leafless g l
    → ∃ s' g', free (4096 * n) s = .ok ((), s'.release n)
      ∧ Inv layout s' g' ∧ Frees l s g s' g' ∧ ∀ l', l'.Below l → g'.table l' = none

theorem nodeEntry_inner (n : Nat)
    : (PA2PTE (4096 * n) ||| PTE_V).has PTE_R = false
      ∧ (PA2PTE (4096 * n) ||| PTE_V).has PTE_W = false
      ∧ (PA2PTE (4096 * n) ||| PTE_V).has PTE_X = false := by
  simp only [Pte.has_or, Pte.has_PA2PTE _ (by decide : PTE_R.toNat < 1024),
    Pte.has_PA2PTE _ (by decide : PTE_W.toNat < 1024),
    Pte.has_PA2PTE _ (by decide : PTE_X.toNat < 1024)]
  decide

/-- A node of the tree may be freed: `kfree` does not panic on it. -/
theorem Inv.kfree_node (inv : Inv layout s g) {n : Nat} (found : g.table l = some n)
    : Vm.kfree layout (4096 * n) s = .ok ((), s.release n) := by
  have owner := (inv.accounts.tables l n).mpr found
  have ref := inv.accounts.refs n (by simp [owner])
  simp only [owner, Owner.token] at ref
  exact Vm.kfree_run ((inv.accounts.ram n).mp (by simp [owner])) (by omega)

/-- The loop of `freewalk` finds nothing valid in a node without leaves. -/
theorem Inv.freeEntries_low (inv : Inv layout s g) {q n left : Nat} (free : Nat → Kernel Unit)
    (found : g.table (.low space q) = some n) (leafless : Leafless g (.low space q))
    (bound : left ≤ 512)
    : freeEntries free (4096 * n) left s = .ok ((), s) := by
  induction left with
  | zero => rfl
  | succ left ih =>
    have quotient : (512 * q + (511 - left)) / 512 = q := by omega
    have position : (512 * q + (511 - left)) % 512 = 511 - left := by omega
    have leaf := inv.shape.leaves space (512 * q + (511 - left)) n (by rw [quotient, found])
    rw [leafless space _ (.inl (by rw [quotient])), position] at leaf
    have invalid : ((s.mem n).entry (511 - left)).has PTE_V = false := by
      rw [← Pte.has_mapped, ← leaf]
      decide
    unfold freeEntries
    rw [bind_ok (readEntry_run s n _)]
    simp only [invalid]
    exact ih (by omega)

/-- `freewalk` frees a table of the lowest level. -/
theorem freesNode_low (space : ι) (q : Nat)
    : FreesNode layout (freewalk layout 0) (.low space q) := by
  intro s g n inv found leafless
  refine ⟨s, g, ?_, inv, .refl _ s g, fun l below =>
    (Label.not_below_low l space q below).elim⟩
  unfold freewalk
  rw [bind_ok (inv.freeEntries_low _ found leafless (by decide))]
  exact inv.kfree_node found

variable [DecidableEq ι]

namespace Inv

/-- A node with nothing below it goes. -/
theorem dropNode (inv : Inv layout s g) {l : Label ι} {p n : Nat} (inner : l.Inner)
    (above : g.table l.parent = some p) (found : g.table l = some n)
    (empty : ∀ l', l'.Below l → g.table l' = none) (leafless : Leafless g l)
    : ∃ g', Inv layout ((s.setEntry p l.index 0).release n) g'
      ∧ g'.leaf = g.leaf ∧ g'.held = g.held
      ∧ g'.table = update g.table l none
      ∧ Shrinks s g ((s.setEntry p l.index 0).release n) g' := by
  have owner := (inv.accounts.tables l n).mpr found
  have noHold := inv.accounts.held_zero (n := n) (by simp [owner])
  have shape := inv.shape.disown inv.accounts.label_unique inner above
    (fun l' below different => empty l' ⟨different, .inl below⟩)
    (fun space v same => leafless space v (.inl same))
  have loose : Inv layout (s.setEntry p l.index 0)
      { g with
        table := update g.table l none
        owner := update g.owner n .data
        held := update g.held n 1 } :=
    ⟨inv.accounts.disown found, shape.frame fun _ _ _ => rfl⟩
  refine ⟨_, loose.release (n := n) (by simp), rfl, ?_, rfl, ?_⟩
  · have zero : update g.held n 0 = g.held := by
      rw [← noHold, update_eq_self]
    simp [Ghost.release, zero]
  · intro m data
    obtain ⟨before, kept⟩ := loose.release_shrinks (n := n) (by simp) m data
    have other : m ≠ n := by
      rintro rfl
      have leaves : g.leafCount m = 0 := inv.accounts.leafCount_zero (by simp [owner])
      simp only [Ghost.leafCount] at leaves
      simp [Ghost.release, Ghost.count, Ghost.leafCount, leaves] at data
    have isData : g.owner m = .data := by simpa [other] using before
    refine ⟨isData, kept.trans ?_⟩
    simp [Phys.setEntry, inv.data_not_table isData above]

/-- The loop of `freewalk` at a node empties it. -/
theorem freeEntries_node (inv : Inv layout s g) {free : Nat → Kernel Unit} {l : Label ι}
    {n left : Nat} (bound : left ≤ 512) (inner : ∀ j, l.child j ≠ l)
    (frees : ∀ j, j < 512 → FreesNode layout free (l.child j))
    (found : g.table l = some n) (leafless : Leafless g l)
    : ∃ s' g', freeEntries free (4096 * n) left s = .ok ((), s')
      ∧ Inv layout s' g' ∧ Frees l s g s' g'
      ∧ ∀ j, 512 - left ≤ j → j < 512 → g'.table (l.child j) = none := by
  induction left generalizing s g with
  | zero => exact ⟨s, g, rfl, inv, .refl l s g, fun j low high => by omega⟩
  | succ left ih =>
    have index : 511 - left < 512 := by omega
    obtain ⟨parent, position, childInner⟩ := Label.child_parent index (inner (511 - left))
    have entry := inv.shape.entries (l.child (511 - left)) n childInner (by rw [parent, found])
    rw [position] at entry
    unfold freeEntries
    rw [bind_ok (readEntry_run s n _)]
    cases node : g.table (l.child (511 - left)) with
    | none =>
      rw [node] at entry
      simp only [TableEntry] at entry
      simp only [entry, Bool.not_false, if_true]
      obtain ⟨s', g', run, inv', freed, empty⟩ := ih inv (by omega) found leafless
      refine ⟨s', g', run, inv', freed, fun j low high => ?_⟩
      by_cases here : j = 511 - left
      · rw [here]
        exact freed.vacant _ node
      · exact empty j (by omega) high
    | some c =>
      rw [node] at entry
      obtain ⟨noRead, noWrite, noExec⟩ := nodeEntry_inner c
      rw [entry.1]
      simp only [nodeEntry_valid, noRead, noWrite, noExec, Bool.not_true,
        Bool.false_eq_true, if_false, Bool.or_false]
      have childLeafless : Leafless g (l.child (511 - left)) := by
        intro space v at_or_below
        refine leafless space v (.inr ?_)
        rcases at_or_below with same | below
        · rw [← same]
          exact ⟨inner _, .inl parent⟩
        · exact Label.below_child below
      obtain ⟨s₁, g₁, run, inv₁, freed, empty⟩ :=
        frees (511 - left) index s g c inv node childLeafless
      have selfKept : ¬l.Below (l.child (511 - left)) := fun below =>
        (Label.below_child below).1 rfl
      have found₁ : g₁.table l = some n := by rw [freed.kept l selfKept, found]
      have node₁ : g₁.table (l.child (511 - left)) = some c := by
        rw [freed.kept _ (fun below => below.1 rfl), node]
      obtain ⟨g₂, inv₂, leaf₂, held₂, table₂, shrinks₂⟩ :=
        inv₁.dropNode childInner (by rw [parent, found₁]) node₁ empty
          (by intro space v under
              rw [freed.leaf]
              exact childLeafless space v under)
      rw [position] at inv₂ shrinks₂
      have apart : c ≠ n := by
        rintro rfl
        exact inner _ (inv.accounts.label_unique node found)
      have childFreed : Frees l s g ((s₁.setEntry n (511 - left) 0).release c) g₂ := by
        refine ⟨leaf₂.trans freed.leaf, held₂.trans freed.held, ?_, ?_,
          freed.shrinks.trans shrinks₂, freed.exhausted⟩
        · intro l' outside
          have other : l' ≠ l.child (511 - left) := by
            rintro rfl
            exact outside ⟨inner _, .inl parent⟩
          rw [table₂, update_of_ne other]
          exact freed.kept l' fun below => outside (Label.below_child below)
        · intro l' none
          rw [table₂]
          by_cases same : l' = l.child (511 - left)
          · simp [same]
          · rw [update_of_ne same]
            exact freed.vacant l' none
      have leafless₂ : Leafless g₂ l := by
        intro space v under
        rw [childFreed.leaf]
        exact leafless space v under
      obtain ⟨s₃, g₃, run₃, inv₃, freed₃, empty₃⟩ := ih inv₂ (by omega)
        (by rw [childFreed.kept l fun below => below.1 rfl, found]) leafless₂
      refine ⟨s₃, g₃, ?_, inv₃, childFreed.trans freed₃, fun j low high => ?_⟩
      · rw [nodeEntry_pa entry.2, bind_ok run, bind_ok (writeEntry_run _ n _ _),
          release_setEntry s₁ apart]
        exact run₃
      · by_cases here : j = 511 - left
        · rw [here]
          exact freed₃.vacant _ (by rw [table₂, update_self])
        · exact empty₃ j (by omega) high

end Inv

-- The levels of a page table

/-- `freewalk` frees a table of the middle level with the tables below it. -/
theorem freesNode_mid (space : ι) (i : Nat)
    : FreesNode layout (freewalk layout 1) (.mid space i) := by
  intro s g n inv found leafless
  obtain ⟨s', g', run, inv', freed, empty⟩ := inv.freeEntries_node (Nat.le_refl 512)
    (by simp [Label.child]) (fun j _ => freesNode_low space (512 * i + j)) found leafless
  have found' : g'.table (.mid space i) = some n := by
    rw [freed.kept _ fun below => below.1 rfl, found]
  refine ⟨s', g', ?_, inv', freed, ?_⟩
  · unfold freewalk
    rw [bind_ok run]
    exact inv'.kfree_node found'
  · intro l below
    obtain ⟨j, bound, rfl⟩ := Label.below_mid below
    exact empty j (by omega) bound

/-- `freewalk` of a table without leaves gives all of it back. -/
theorem Inv.freewalk_root (inv : Inv layout s g) {r : Nat} (root : g.table (.root space) = some r)
    (leafless : ∀ v, g.leaf space v = 0)
    : ∃ s' g', freewalk layout 2 (4096 * r) s = .ok ((), s')
      ∧ Inv layout s' g' ∧ g'.leaf = g.leaf ∧ g'.held = g.held
      ∧ g'.table (.root space) = none
      ∧ (∀ l, l.space ≠ space → g'.table l = g.table l)
      ∧ Shrinks s g s' g' ∧ s'.exhausted = s.exhausted := by
  have noLeaf : Leafless g (.root space) := by
    rintro space' v (same | ⟨_, direct | indirect⟩)
    · cases same
    · cases direct
    · simp only [Label.parent, Label.root.injEq] at indirect
      rw [indirect]
      exact leafless v
  obtain ⟨s₁, g₁, run, inv₁, freed, empty⟩ := inv.freeEntries_node (Nat.le_refl 512)
    (by simp [Label.child]) (fun j _ => freesNode_mid space j) root noLeaf
  have root₁ : g₁.table (.root space) = some r := by
    rw [freed.kept _ fun below => below.1 rfl, root]
  have noMid : ∀ i, g₁.table (.mid space i) = none := by
    intro i
    by_cases small : i < 512
    · exact empty i (by omega) small
    · exact inv₁.shape.upper space i (by omega)
  have owner := (inv₁.accounts.tables _ r).mpr root₁
  have noHold := inv₁.accounts.held_zero (n := r) (by simp [owner])
  have leaves : g₁.leafCount r = 0 := inv₁.accounts.leafCount_zero (by simp [owner])
  have loose : Inv layout s₁
      { g₁ with
        table := update g₁.table (.root space) none
        owner := update g₁.owner r .data
        held := update g₁.held r 1 } :=
    ⟨inv₁.accounts.disown root₁, (inv₁.shape.disownRoot noMid).frame fun _ _ _ => rfl⟩
  refine ⟨s₁.release r, _, ?_, loose.release (n := r) (by simp), freed.leaf, ?_, ?_, ?_, ?_,
    freed.exhausted⟩
  · unfold freewalk
    rw [bind_ok run]
    exact inv₁.kfree_node root₁
  · have zero : update g₁.held r 0 = g₁.held := by
      rw [← noHold, update_eq_self]
    simp only [Ghost.release, update_self, update_idem, zero]
    exact freed.held
  · simp [Ghost.release]
  · intro l different
    have apart : l ≠ .root space := by
      rintro rfl
      exact different rfl
    simp only [Ghost.release, update_of_ne apart]
    exact freed.kept _ fun below => different (Label.below_space below)
  · intro m data
    obtain ⟨before, kept⟩ := loose.release_shrinks (n := r) (by simp) m data
    have other : m ≠ r := by
      rintro rfl
      simp only [Ghost.leafCount] at leaves
      simp [Ghost.release, Ghost.count, Ghost.leafCount, leaves] at data
    have isData : g₁.owner m = .data := by simpa [other] using before
    exact ⟨(freed.shrinks m isData).1, kept.trans (freed.shrinks m isData).2⟩

end Xv6.Vm

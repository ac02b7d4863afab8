import Xv6.Vm.FreewalkSpec
import Xv6.Vm.PrivateMachine

/-! What a process sees of its memory, and which pages may be mapped more than once. A page
with `PTE_W` has a single mapping unless it is one of the `shared` pages, all of whose
mappings are writable; the lemmas here say what the allocator and the page-table code do to
the views and to this discipline.
-/

namespace Xv6.Vm

open Function Library

variable {ι : Type} {layout : Layout} {s : Phys} {g : Ghost ι}
variable {space : ι} {v n : Nat} {s₁ s₂ s' : Phys} {views₁ views₂ : ι → Row}

/-- A mapped page as its process sees it: a copy-on-write page counts as writable. -/
def View.of (content : Page) (flags : Pte) : View where
  content := content
  read := flags.has PTE_R
  write := flags.has PTE_W || flags.has PTE_C
  exec := flags.has PTE_X
  user := flags.has PTE_U

/-- The page that a leaf entry shows. -/
def Pte.view (mem : Nat → Page) (pte : Pte) : Option View :=
  if pte.has PTE_V then some (.of (mem pte.ppn) pte) else none

/-- User memory as the processes see it, page by page. -/
def Ghost.view (g : Ghost ι) (mem : Nat → Page) (space : ι) : Row := fun v =>
  if v < userPages then (g.leaf space v).view mem else none

/-- An entry that is zero shows nothing. -/
theorem vacant_view (mem : Nat → Page) (vacant : g.leaf space v = 0)
    : g.view mem space v = none := by
  rw [Ghost.view, vacant, Pte.view, if_neg (c := Pte.has 0 PTE_V = true) (by decide), ite_self]

/-- A valid entry shows its page. -/
theorem view_of_valid (mem : Nat → Page) (user : v < userPages)
    (valid : (g.leaf space v).has PTE_V = true)
    : g.view mem space v = some (.of (mem (g.leaf space v).ppn) (g.leaf space v)) := by
  rw [Ghost.view, if_pos user, Pte.view, if_pos valid]

/-- Page `n` is mapped at page `v` of user memory. -/
def Ghost.Maps (g : Ghost ι) (space : ι) (v n : Nat) : Prop :=
  v < userPages ∧ (g.leaf space v).has PTE_V = true ∧ (g.leaf space v).ppn = n

variable {g' : Ghost ι}

theorem Ghost.Maps.congr (maps : g'.Maps space v n) (leaf : g'.leaf = g.leaf)
    : g.Maps space v n := by
  rwa [Ghost.Maps, leaf] at maps

/-- A page that the new entry is not for was mapped before. -/
theorem maps_of_setAt [DecidableEq ι] {space' : ι} {v' : Nat} {pte : Pte}
    (leaf : g'.leaf = setAt g.leaf space v pte) (maps : g'.Maps space' v' n) (other : n ≠ pte.ppn)
    : ∃ space' v', g.Maps space' v' n := by
  by_cases here : space' = space ∧ v' = v
  · obtain ⟨rfl, rfl⟩ := here
    obtain ⟨_, _, page⟩ := maps
    rw [leaf, setAt_same] at page
    exact (other page.symm).elim
  · refine ⟨space', v', maps.1, ?_⟩
    have rest := maps.2
    rwa [leaf, setAt_other _ _ here] at rest

/-- Every mapping of a shared page is writable and not copy-on-write; a writable mapping of
any other page is its only one.
-/
structure Cow (shared : Nat → Prop) (g : Ghost ι) : Prop where
  write : ∀ {space v n}, g.Maps space v n → shared n
    → (g.leaf space v).has PTE_W = true ∧ (g.leaf space v).has PTE_C = false
  sole : ∀ {space v n space' v'}, g.Maps space v n → (g.leaf space v).has PTE_W = true
    → ¬shared n → g.Maps space' v' n → space' = space ∧ v' = v

/-- The discipline, and no page that was freed counts as shared. -/
structure Sharing (shared : Nat → Prop) (g : Ghost ι) : Prop extends Cow shared g where
  data : ∀ n, shared n → g.owner n = .data

namespace Cow

variable {shared : Nat → Prop} {space : ι}

variable {g' : Ghost ι}

section

variable (cow : Cow shared g)
include cow

/-- Removing mappings keeps the discipline. -/
theorem less (fewer : ∀ space v n, g'.Maps space v n → g'.leaf space v = g.leaf space v)
    : Cow shared g' := by
  have before {space : ι} {v n : Nat} (maps : g'.Maps space v n) : g.Maps space v n := by
    have same := fewer space v n maps
    exact ⟨maps.1, same ▸ maps.2⟩
  refine ⟨?_, ?_⟩
  · intro space v n maps isShared
    rw [fewer space v n maps]
    exact cow.write (before maps) isShared
  · intro space v n space' v' maps writable notShared maps'
    rw [fewer space v n maps] at writable
    exact cow.sole (before maps) writable notShared (before maps')

theorem congr (same : g'.leaf = g.leaf) : Cow shared g' :=
  cow.less fun _ _ _ _ => by rw [same]

/-- An entry may be written when it is writable if its page is shared, and otherwise either
it is the only mapping of the page or no mapping of the page is writable.
-/
theorem set [DecidableEq ι] {v : Nat} {pte : Pte} (leaf : g'.leaf = setAt g.leaf space v pte)
    (ifShared : shared pte.ppn → pte.has PTE_W = true ∧ pte.has PTE_C = false)
    (ifPrivate
      : ¬shared pte.ppn → ∀ space' v', ¬(space' = space ∧ v' = v)
        → g.Maps space' v' pte.ppn
        → pte.has PTE_W = false ∧ (g.leaf space' v').has PTE_W = false)
    : Cow shared g' := by
  have here : g'.leaf space v = pte := by rw [leaf, setAt_same]
  have other {space' : ι} {v' n : Nat} (apart : ¬(space' = space ∧ v' = v))
      (maps : g'.Maps space' v' n)
      : g.Maps space' v' n ∧ g'.leaf space' v' = g.leaf space' v' := by
    have same : g'.leaf space' v' = g.leaf space' v' := by rw [leaf, setAt_other _ _ apart]
    exact ⟨⟨maps.1, same ▸ maps.2⟩, same⟩
  refine ⟨?_, ?_⟩
  · intro space' v' n maps isShared
    by_cases apart : space' = space ∧ v' = v
    · obtain ⟨rfl, rfl⟩ := apart
      obtain ⟨_, _, rfl⟩ := maps
      rw [here] at isShared ⊢
      exact ifShared isShared
    · obtain ⟨before, same⟩ := other apart maps
      rw [same]
      exact cow.write before isShared
  · intro space₁ v₁ n space₂ v₂ maps₁ writable isPrivate maps₂
    by_cases apart₁ : space₁ = space ∧ v₁ = v <;> by_cases apart₂ : space₂ = space ∧ v₂ = v
    · exact ⟨apart₂.1.trans apart₁.1.symm, apart₂.2.trans apart₁.2.symm⟩
    · obtain ⟨rfl, rfl⟩ := apart₁
      obtain ⟨before₂, _⟩ := other apart₂ maps₂
      obtain ⟨_, _, rfl⟩ := maps₁
      rw [here] at writable isPrivate before₂
      rw [(ifPrivate isPrivate _ _ apart₂ before₂).1] at writable
      cases writable
    · obtain ⟨rfl, rfl⟩ := apart₂
      obtain ⟨before₁, same₁⟩ := other apart₁ maps₁
      obtain ⟨_, _, rfl⟩ := maps₂
      rw [here] at isPrivate before₁
      rw [same₁, (ifPrivate isPrivate _ _ apart₁ before₁).2] at writable
      cases writable
    · obtain ⟨before₁, same₁⟩ := other apart₁ maps₁
      rw [same₁] at writable
      exact cow.sole before₁ writable isPrivate (other apart₂ maps₂).1

/-- A page that nobody maps may be mapped. -/
theorem fresh [DecidableEq ι] {v : Nat} {pte : Pte} (leaf : g'.leaf = setAt g.leaf space v pte)
    (unmapped : ∀ space' v', ¬g.Maps space' v' pte.ppn) (notShared : ¬shared pte.ppn)
    : Cow shared g' :=
  cow.set leaf (fun isShared => (notShared isShared).elim)
    fun _ space' v' _ maps => (unmapped space' v' maps).elim

end

end Cow

variable [Fintype ι]

-- Effects on the views

section

variable (layout : Layout) (s : Phys) (g : Ghost ι) (s' : Phys) (g' : Ghost ι) (views : ι → Row)

/-- Code that ends in `s'` with the given views of user memory. It hands no reference over,
keeps the spaces there are, and maps no page that only the kernel had.
-/
structure Change : Prop where
  inv : Inv layout s' g'
  held : g'.held = g.held
  root : ∀ space, g'.table (.root space) = g.table (.root space)
  reserved : ∀ space v, userPages ≤ v → g'.leaf space v = g.leaf space v
  view : g'.view s'.mem = views
  exhausted : s.exhausted = true → s'.exhausted = true
  mapped : ∀ {space v n}, g'.Maps space v n → 0 < g.held n → ∃ space' v', g.Maps space' v' n

/-- A change that keeps the sharing discipline. -/
structure Effect : Prop extends Change layout s g s' g' views where
  cow : ∀ shared, Sharing shared g → Cow shared g'

/-- An effect that frees no shared page. -/
structure Growth : Prop extends Effect layout s g s' g' views where
  data : ∀ shared, Sharing shared g → ∀ n, shared n → g'.owner n = .data

end

variable {g₁ g₂ : Ghost ι}

/-- Changes in a row. -/
theorem Change.trans (first : Change layout s g s₁ g₁ views₁)
    (second : Change layout s₁ g₁ s₂ g₂ views₂)
    : Change layout s g s₂ g₂ views₂ where
  inv := second.inv
  held := second.held.trans first.held
  root space := (second.root space).trans (first.root space)
  reserved space v above := (second.reserved space v above).trans (first.reserved space v above)
  view := second.view
  exhausted := second.exhausted ∘ first.exhausted
  mapped maps held := by
    obtain ⟨_, _, before⟩ := second.mapped maps (first.held ▸ held)
    exact first.mapped before held

/-- Growth keeps what is shared. -/
theorem Growth.sharing {s' : Phys} {g' : Ghost ι} {views : ι → Row}
    (growth : Growth layout s g s' g' views) {shared : Nat → Prop}
    (sharing : Sharing shared g)
    : Sharing shared g' :=
  ⟨growth.cow shared sharing, growth.data shared sharing⟩

/-- Growth before an effect is part of it. -/
theorem Growth.followed (first : Growth layout s g s₁ g₁ views₁)
    (second : Effect layout s₁ g₁ s₂ g₂ views₂)
    : Effect layout s g s₂ g₂ views₂ :=
  ⟨first.toChange.trans second.toChange, fun shared sharing =>
    second.cow shared (first.sharing sharing)⟩

theorem Growth.trans (first : Growth layout s g s₁ g₁ views₁)
    (second : Growth layout s₁ g₁ s₂ g₂ views₂)
    : Growth layout s g s₂ g₂ views₂ where
  toEffect := first.followed second.toEffect
  data shared sharing := second.data shared (first.sharing sharing)

section

variable (inv : Inv layout s g)
include inv

/-- A mapping that stays, of a page that keeps its contents, shows the same. -/
theorem Inv.view_same (inv' : Inv layout s' g')
    (keeps : ∀ n, g.owner n = .data → g'.owner n = .data → s'.mem n = s.mem n)
    (same : v < userPages → g'.leaf space v = g.leaf space v)
    : g'.view s'.mem space v = g.view s.mem space v := by
  unfold Ghost.view
  by_cases user : v < userPages
  · specialize same user
    rw [if_pos user, if_pos user, Pte.view, Pte.view, same]
    by_cases valid : (g.leaf space v).has PTE_V = true
    · have before := inv.leaf_data user valid
      have after := inv'.leaf_data user (by rw [same, valid])
      rw [same] at after
      rw [if_pos valid, if_pos valid, keeps _ before after]
    · rw [if_neg valid, if_neg valid]
  · rw [if_neg user, if_neg user]

/-- Writing one leaf entry changes one page of the view. -/
theorem Inv.view_setAt [DecidableEq ι] (inv' : Inv layout s' g')
    (keeps : ∀ n, g.owner n = .data → g'.owner n = .data → s'.mem n = s.mem n)
    (user : v < userPages) {pte : Pte} (leaf : g'.leaf = setAt g.leaf space v pte)
    : g'.view s'.mem = setAt (g.view s.mem) space v (pte.view s'.mem) := by
  funext space' v'
  by_cases here : space' = space ∧ v' = v
  · obtain ⟨rfl, rfl⟩ := here
    rw [setAt_same, Ghost.view, if_pos user, leaf, setAt_same]
  · rw [setAt_other _ _ here]
    exact inv.view_same inv' keeps fun _ => by rw [leaf, setAt_other _ _ here]

/-- Where nothing is seen the entry is zero. -/
theorem Inv.vacant_of_view {mem : Nat → Page} (user : v < userPages)
    (unseen : g.view mem space v = none)
    : g.leaf space v = 0 := by
  apply inv.leaf_zero
  rw [Ghost.view, if_pos user, Pte.view] at unseen
  by_contra valid
  rw [if_pos (by simpa using valid)] at unseen
  cases unseen

/-- Adding page-table nodes changes no view. -/
theorem Nodes.growth (inv' : Inv layout s' g') (nodes : Nodes s g s' g')
    : Growth layout s g s' g' (g.view s.mem) where
  inv := inv'
  held := nodes.held
  root := nodes.root
  reserved space v _ := by rw [nodes.leaf]
  view := by
    funext space v
    exact inv.view_same inv' (fun n data _ => (nodes.grows n data).2) fun _ => by
      rw [nodes.leaf]
  exhausted := nodes.exhausted
  mapped {space v _} maps _ := ⟨space, v, maps.congr nodes.leaf⟩
  cow _ sharing := sharing.toCow.congr nodes.leaf
  data _ sharing n isShared := (nodes.grows n (sharing.data n isShared)).1

theorem Growth.refl : Growth layout s g s g (g.view s.mem) :=
  (Nodes.refl s g).growth inv inv

theorem Growth.exhaust : Growth layout s g { s with exhausted := true } g (g.view s.mem) where
  inv := ⟨inv.accounts, inv.shape⟩
  held := rfl
  root _ := rfl
  reserved _ _ _ := rfl
  view := rfl
  exhausted _ := rfl
  mapped {space v _} maps _ := ⟨space, v, maps⟩
  cow _ sharing := sharing.toCow
  data _ sharing := sharing.data

end

-- Fresh pages

theorem View.of_entry (content : Page) (pa : Nat) (flags : Pte)
    : View.of content (PA2PTE pa ||| flags) = View.of content flags := by
  simp only [View.of, Pte.has_or, Pte.has_PA2PTE _ (by decide : PTE_R.toNat < 1024),
    Pte.has_PA2PTE _ (by decide : PTE_W.toNat < 1024),
    Pte.has_PA2PTE _ (by decide : PTE_C.toNat < 1024),
    Pte.has_PA2PTE _ (by decide : PTE_X.toNat < 1024),
    Pte.has_PA2PTE _ (by decide : PTE_U.toNat < 1024), Bool.false_or]

/-- A mapping shows the page with its permissions. -/
theorem View.of_mapped (content : Page) (pa : Nat) (perm : Pte)
    : View.of content (PA2PTE pa ||| perm ||| PTE_V) = View.of content perm := by
  rw [BitVec.or_assoc, View.of_entry]
  simp only [View.of, Pte.has_or,
    (by decide : PTE_V.has PTE_R = false), (by decide : PTE_V.has PTE_W = false),
    (by decide : PTE_V.has PTE_C = false), (by decide : PTE_V.has PTE_X = false),
    (by decide : PTE_V.has PTE_U = false), Bool.or_false]

theorem mappedEntry_valid (pa : Nat) (perm : Pte)
    : (PA2PTE pa ||| perm ||| PTE_V).has PTE_V = true := by
  simp [Pte.has_or, (by decide : PTE_V.has PTE_V = true)]

theorem mappedEntry_ppn {perm : Pte} (small : n < 2 ^ 44) (low : perm.toNat < 1024)
    : (PA2PTE (4096 * n) ||| perm ||| PTE_V).ppn = n := by
  rw [BitVec.or_assoc]
  exact Pte.ppn_or small (or_low low (by decide))

namespace Inv

variable {n : Nat}

theorem free_unheld (inv : Inv layout s g) (isFree : g.owner n = .free)
    : g.held n = 0 := by
  have none := inv.accounts.count_zero (n := n) (by simp [isFree])
  simp only [Ghost.count] at none
  omega

/-- A free page is mapped nowhere. -/
theorem free_unmapped (inv : Inv layout s g) (isFree : g.owner n = .free) (space : ι) (v : Nat)
    : ¬g.Maps space v n := by
  rintro ⟨user, valid, rfl⟩
  rw [inv.leaf_data user valid] at isFree
  cases isFree

theorem release_owner (g : Ghost ι) {m : Nat} (other : m ≠ n)
    : (g.release n).owner m = g.owner m := by
  unfold Ghost.release
  by_cases last : g.count n = 1 <;> simp [last, other]

theorem release_mem (s : Phys) {m : Nat} (other : m ≠ n)
    : (s.release n).mem m = s.mem m := by
  unfold Phys.release
  by_cases last : s.refCount n = 1 <;> simp [last, other]

omit [Fintype ι] in
/-- Mapping a fresh page without memory. -/
theorem mapFresh_out (list : s.freelist = []) (pagetable va : Nat) (perm : Pte)
    : Vm.mapFresh layout pagetable va perm s = .ok (none, { s with exhausted := true }) := by
  have out : Vm.kalloc s = .ok (none, { s with exhausted := true }) := by
    simp only [Vm.kalloc, list]
  unfold Vm.mapFresh
  rw [bind_ok out]
  rfl

variable [DecidableEq ι]

/-- A zeroed page is mapped where nothing was, or memory is out and nothing changed. -/
theorem mapFresh (inv : Inv layout s g) {space : ι} {r v : Nat} {perm : Pte}
    (root : g.table (.root space) = some r) (user : v < userPages)
    (vacant : g.leaf space v = 0) (low : perm.toNat < 1024)
    : ∃ result s' g', mapFresh layout (4096 * r) (4096 * v) perm s = .ok (result, s')
      ∧ Grows s g s' g'
      ∧ ((result = none ∧ s'.exhausted = true ∧ Growth layout s g s' g' (g.view s.mem)
          ∧ s.freelist.length < g.missing space v + 1)
        ∨ ∃ n, result = some (4096 * n)
          ∧ s'.freelist.length + (g.missing space v + 1) = s.freelist.length
          ∧ g'.leaf = setAt g.leaf space v (PA2PTE (4096 * n) ||| perm ||| PTE_V)
          ∧ n < 2 ^ 44
          ∧ Growth layout s g s' g'
              (setAt (g.view s.mem) space v (some (View.of (pageOf 0) perm)))) := by
  have page : 4096 * v / 4096 = v := by omega
  have bound : 4096 * v < MAXVA := by
    simp only [userPages, MAXVA] at *
    omega
  unfold Vm.mapFresh
  rcases inv.kalloc with failed | ⟨n, s₁, run, isFree, inv₁, mem₁, exhausted₁⟩
  · rw [bind_ok failed]
    have empty : s.freelist = [] := by simpa using kalloc_freelist failed
    exact ⟨none, _, g, rfl, fun _ data => ⟨data, rfl⟩,
      .inl ⟨rfl, rfl, .exhaust inv, by simp [empty]⟩⟩
  have left : s₁.freelist.length + 1 = s.freelist.length := by
    simpa using kalloc_freelist run
  rw [bind_ok run]
  dsimp only
  rw [bind_ok (zeroPage_run s₁ n)]
  have inv₂ := inv₁.writeData (n := n) (by simp) (pageOf 0)
  have noHold := inv.free_unheld isFree
  have unheld : update g.held n 0 = g.held := by
    rw [← noHold, update_eq_self]
  have small : n < 2 ^ 44 := inv.accounts.small (by simp [isFree])
  have ne_free {m : Nat} (data : g.owner m = .data) : m ≠ n := by
    rintro rfl
    rw [isFree] at data
    cases data
  rcases inv₂.mappages_vacant root bound (by omega) (by rw [page]; exact vacant)
    (4096 * n) perm with ⟨s₃, g₃, run₃, inv₃, nodes, out, short⟩
      | ⟨s₃, g₃, m, inv₃, nodes, node, left₃, run₃⟩
  · have held₃ : g₃.held n = 1 := by simp [nodes.held]
    have kept {m : Nat} (data : g.owner m = .data)
        : (g₃.release n).owner m = .data ∧ (s₃.release n).mem m = s.mem m := by
      have other := ne_free data
      obtain ⟨owner, same⟩ := nodes.grows m (by simpa [other] using data)
      rw [release_owner g₃ other, release_mem s₃ other, same]
      simp [owner, other, mem₁ m other]
    have freed := inv₃.release (n := n) (by omega)
    rw [bind_ok run₃, if_neg (by simp), bind_ok (inv₃.kfree_run (by omega))]
    refine ⟨none, s₃.release n, g₃.release n, rfl, fun _ data => kept data,
      .inl ⟨rfl, out, ?_, ?_⟩⟩
    swap
    · rw [page] at short
      change s₁.freelist.length < g.missing space v at short
      omega
    refine ⟨⟨⟨freed, ?_, nodes.root, fun space v _ => ?_, ?_, fun _ => out,
      fun {space v _} maps _ => ⟨space, v, maps.congr nodes.leaf⟩⟩, ?_⟩, ?_⟩
    · simp only [Ghost.release, held₃, nodes.held, update_idem, Nat.sub_self, unheld]
    · simp only [Ghost.release, nodes.leaf]
    · funext space v
      exact inv.view_same freed (fun m data _ => (kept data).2) fun _ => by
        simp only [Ghost.release, nodes.leaf]
    · exact fun shared sharing => sharing.toCow.congr nodes.leaf
    · exact fun shared sharing m isShared => (kept (sharing.data m isShared)).1
  · rw [page] at node run₃ left₃
    change s₃.freelist.length + g.missing space v = s₁.freelist.length at left₃
    have valid := mappedEntry_valid (4096 * n) perm
    have ppn := mappedEntry_ppn small low
    have leaf₃ : g₃.leaf space v = 0 := by rw [nodes.leaf]; exact vacant
    have inv₄ := inv₃.setLeaf user node (PA2PTE (4096 * n) ||| perm ||| PTE_V)
      g.held (by
        intro k
        rw [refersTo_valid valid, ppn, leaf₃, refersTo_invalid zero_invalid, nodes.held]
        by_cases same : k = n
        · simp [same, noHold]
        · simp [same])
    rw [Pte.mapped_of_valid valid] at inv₄
    have isData : g₃.owner n = .data := (nodes.grows n (by simp)).1
    have kept {k : Nat} (data : g.owner k = .data)
        : g₃.owner k = .data
          ∧ (s₃.setEntry m (v % 512) (PA2PTE (4096 * n) ||| perm ||| PTE_V)).mem k
            = s.mem k := by
      have other := ne_free data
      obtain ⟨owner, same⟩ := nodes.grows k (by simpa [other] using data)
      have apart := inv₃.data_not_table owner node
      refine ⟨owner, ?_⟩
      simp [Phys.setEntry, apart, same, other, mem₁ k other]
    rw [bind_ok run₃]
    refine ⟨_, _, { g₃ with
        leaf := setAt g₃.leaf space v (PA2PTE (4096 * n) ||| perm ||| PTE_V)
        held := g.held }, rfl, fun _ data => kept data,
      .inr ⟨n, rfl, by simp only [Phys.setEntry]; omega, by rw [nodes.leaf], small, ?_⟩⟩
    refine ⟨⟨⟨inv₄, rfl, nodes.root, fun space' v' above => ?_, ?_, fun out => ?_,
      fun maps held => ?_⟩, ?_⟩, ?_⟩
    · have other : ¬(space' = space ∧ v' = v) := by
        rintro ⟨_, rfl⟩
        omega
      simp only [setAt_other _ _ other, nodes.leaf]
    · have content : (s₃.setEntry m (v % 512) (PA2PTE (4096 * n) ||| perm ||| PTE_V)).mem n
          = pageOf 0 := by
        have apart := inv₃.data_not_table isData node
        obtain ⟨_, same⟩ := nodes.grows n (by simp)
        simp [Phys.setEntry, apart, same]
      rw [inv.view_setAt inv₄ (fun k data _ => (kept data).2) user (by rw [nodes.leaf]),
        Pte.view, if_pos valid, ppn, content, View.of_mapped]
    · simpa [Phys.setEntry] using nodes.exhausted (by simpa [exhausted₁] using out)
    · exact maps_of_setAt (by rw [nodes.leaf]) maps fun page => by
        rw [page, ppn, noHold] at held
        omega
    · intro shared sharing
      refine sharing.toCow.fresh (by rw [nodes.leaf]) ?_ ?_
      · rw [ppn]
        exact inv.free_unmapped isFree
      · rw [ppn]
        intro isShared
        exact ne_free (sharing.data n isShared) rfl
    · exact fun shared sharing k isShared => (kept (sharing.data k isShared)).1

end Inv

end Xv6.Vm

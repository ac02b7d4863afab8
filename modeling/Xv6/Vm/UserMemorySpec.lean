import Xv6.Vm.Sharing

/-! What growing and shrinking do to the views of user memory: `uvmunmap`, `uvmdealloc` and
`uvmalloc`.
-/

namespace Xv6.Vm

open Library

variable {ι : Type} [DecidableEq ι] {layout : Layout} {s : Phys} {g : Ghost ι} {first last : Nat}

theorem PGROUNDUP_eq (sz : Nat) : PGROUNDUP sz = 4096 * pageCount sz := by
  simp only [PGROUNDUP, pageCount]
  omega

theorem pageCount_user {sz : Nat} (fits : sz ≤ TRAPFRAME) : pageCount sz ≤ userPages := by
  simp only [pageCount, userPages, TRAPFRAME, TRAMPOLINE, MAXVA, PGSIZE] at *
  omega

theorem user_page {va sz : Nat} (below : va < sz) (fits : sz ≤ TRAPFRAME)
    : va / 4096 < userPages := by
  simp only [userPages, TRAPFRAME, TRAMPOLINE, MAXVA, PGSIZE] at *
  omega

theorem user_address {va : Nat} (user : va / 4096 < userPages) : va < MAXVA := by
  simp only [userPages, MAXVA] at *
  omega

theorem pageCount_mul (n : Nat) : pageCount (4096 * n) = n := by
  simp only [pageCount]
  omega

theorem mul_fits {n : Nat} (user : n ≤ userPages) : 4096 * n ≤ TRAPFRAME := by
  simp only [userPages, TRAPFRAME, TRAMPOLINE, MAXVA, PGSIZE] at *
  omega

/-- The views without the pages of a range. -/
def without (views : ι → Row) (space : ι) (first last : Nat)
    : ι → Row := fun space' v =>
  if space' = space ∧ first ≤ v ∧ v < last then none else views space' v

theorem without_empty (views : ι → Row) (space : ι) (empty : last ≤ first)
    : without views space first last = views := by
  funext space' v
  rw [without, if_neg fun inside => by omega]

/-- The views with the same page all over a range. -/
def filled (views : ι → Row) (space : ι) (first last : Nat) (page : View)
    : ι → Row := fun space' v =>
  if space' = space ∧ first ≤ v ∧ v < last then some page else views space' v

theorem filled_empty (views : ι → Row) (space : ι) (empty : last ≤ first) (page : View)
    : filled views space first last page = views := by
  funext space' v
  rw [filled, if_neg fun inside => by omega]

/-- Filling the first page of a range, then the rest. -/
theorem filled_step (views : ι → Row) (space : ι) (some : first < last) (page : View)
    : filled (setAt views space first (.some page)) space (first + 1) last page
      = filled views space first last page := by
  funext space' v
  simp only [filled, setAt_eq]
  by_cases row : space' = space
  · simp only [row, true_and]
    by_cases here : v = first
    · rw [if_neg (by omega), if_pos here, if_pos (by omega)]
    · by_cases inside : first + 1 ≤ v ∧ v < last
      · rw [if_pos inside, if_pos (by omega)]
      · rw [if_neg inside, if_neg here, if_neg (by omega)]
  · simp [row]

/-- Emptying a range and a page after it that is no longer needed. -/
theorem without_step (views : ι → Row) (space : ι) (order : first ≤ last)
    (vacant : views space last = none) (page : Option View)
    : without (setAt views space last page) space first (last + 1)
      = without views space first last := by
  funext space' v
  simp only [without, setAt_eq]
  by_cases row : space' = space
  · simp only [row, true_and]
    by_cases here : v = last
    · rw [if_pos (by omega), if_neg (by omega), here, vacant]
    · by_cases inside : first ≤ v ∧ v < last
      · rw [if_pos inside, if_pos (by omega)]
      · rw [if_neg inside, if_neg here, if_neg (by omega)]
  · simp [row]

variable [Fintype ι]

-- Unmapping

/-- An effect that only removes mappings. -/
structure Shrinking (layout : Layout) (s : Phys) (g : Ghost ι) (s' : Phys) (g' : Ghost ι)
    (views : ι → Row) : Prop
    extends Effect layout s g s' g' views where
  fewer : ∀ shared, Cow shared g → Cow shared g'
  removes : ∀ {space v n}, g'.Maps space v n → g.Maps space v n

namespace Inv

variable {space : ι}

/-- `uvmunmap` with `do_free` removes the views of its range. -/
theorem uvmunmap (inv : Inv layout s g) {r first last : Nat} (root : g.table (.root space) = some r)
    (order : first ≤ last) (user : last ≤ userPages)
    : ∃ s' g', Vm.uvmunmap layout (4096 * r) (4096 * first) (last - first) true s
        = .ok ((), s')
      ∧ Shrinking layout s g s' g' (without (g.view s.mem) space first last)
      ∧ s'.exhausted = s.exhausted ∧ Kept g s s' ∧ Elsewhere space g g' := by
  obtain ⟨s', g', run, inv', unmaps, leaf⟩ :=
    inv.uvmunmap_user root (by omega : first + (last - first) ≤ userPages)
  have range : first + (last - first) = last := by omega
  simp only [range] at leaf
  have same {space' : ι} {v n : Nat} (maps : g'.Maps space' v n)
      : g'.leaf space' v = g.leaf space' v := by
    have valid := maps.2.1
    rw [leaf] at valid ⊢
    split_ifs at valid ⊢ with inside
    · cases valid
    · rfl
  have fewer : ∀ shared, Cow shared g → Cow shared g' := fun shared cow =>
    cow.less fun space' v n maps => same maps
  have removes {space' : ι} {v n : Nat} (maps : g'.Maps space' v n) : g.Maps space' v n :=
    ⟨maps.1, same maps ▸ maps.2⟩
  refine ⟨s', g', run, ⟨⟨⟨inv', unmaps.held, fun _ => by rw [unmaps.table], ?_, ?_, ?_,
    fun {space' v n} maps _ => ⟨space', v, removes maps⟩⟩,
    fun shared sharing => fewer shared sharing.toCow⟩, fewer, removes⟩, unmaps.exhausted,
    shrinks_kept inv' unmaps.held unmaps.shrinks, fun l _ => by rw [unmaps.table],
    fun other apart => ?_⟩
  · intro space' v above
    rw [leaf, if_neg fun inside => by omega]
  · funext space' v
    unfold without
    by_cases inside : space' = space ∧ first ≤ v ∧ v < last
    · have cleared : g'.leaf space' v = 0 := by rw [leaf, if_pos inside]
      rw [if_pos inside, vacant_view s'.mem cleared]
    · rw [if_neg inside]
      refine inv.view_same inv' (fun n _ data => (unmaps.shrinks n data).2) fun _ => ?_
      rw [leaf, if_neg inside]
  · exact fun out => unmaps.exhausted.trans out
  · funext v
    rw [leaf, if_neg fun inside => apart inside.1]

/-- `uvmdealloc` removes the views above the new size. -/
theorem uvmdealloc (inv : Inv layout s g) {r oldsz : Nat} (root : g.table (.root space) = some r)
    (fits : oldsz ≤ TRAPFRAME) (newsz : Nat)
    : ∃ s' g', Vm.uvmdealloc layout (4096 * r) oldsz newsz s
        = .ok (if oldsz ≤ newsz then oldsz else newsz, s')
      ∧ Shrinking layout s g s' g'
          (without (g.view s.mem) space (pageCount newsz) (pageCount oldsz))
      ∧ s'.exhausted = s.exhausted ∧ Kept g s s' := by
  have keep (empty : pageCount oldsz ≤ pageCount newsz)
      : Shrinking layout s g s g
          (without (g.view s.mem) space (pageCount newsz) (pageCount oldsz)) := by
    rw [without_empty _ space empty]
    exact ⟨(Growth.refl inv).toEffect, fun _ cow => cow, fun maps => maps⟩
  unfold Vm.uvmdealloc
  by_cases grows : oldsz ≤ newsz
  · rw [if_pos grows, if_pos grows]
    exact ⟨s, g, rfl, keep (by simp only [pageCount]; omega), rfl, .refl g s⟩
  · rw [if_neg grows, if_neg grows]
    by_cases partial_ : PGROUNDUP newsz < PGROUNDUP oldsz
    · rw [if_pos partial_]
      rw [PGROUNDUP_eq, PGROUNDUP_eq] at *
      obtain ⟨s', g', run, shrinking, out, kept, _⟩ := inv.uvmunmap root
        (by omega : pageCount newsz ≤ pageCount oldsz) (pageCount_user fits)
      have pages : (4096 * pageCount oldsz - 4096 * pageCount newsz) / 4096
          = pageCount oldsz - pageCount newsz := by omega
      rw [pages, bind_ok run]
      exact ⟨s', g', rfl, shrinking, out, kept⟩
    · rw [if_neg partial_]
      rw [PGROUNDUP_eq, PGROUNDUP_eq] at *
      exact ⟨s, g, rfl, keep (by omega), rfl, .refl g s⟩

end Inv

-- Growing

omit [DecidableEq ι] [Fintype ι] in
/-- New pages were entered with the given permissions, and nothing else. -/
structure Entered (space : ι) (first last : Nat) (perm : Pte) (g g' : Ghost ι) : Prop where
  new : ∀ v, first ≤ v → v < last → ∃ n, g'.leaf space v = PA2PTE (4096 * n) ||| perm ||| PTE_V
  old
    : ∀ space' v, ¬(space' = space ∧ first ≤ v ∧ v < last) → g'.leaf space' v = g.leaf space' v

omit [DecidableEq ι] [Fintype ι] in
theorem Entered.nothing (g : Ghost ι) (space : ι) (empty : last ≤ first) (perm : Pte)
    : Entered space first last perm g g where
  new v above below := by omega
  old _ _ _ := rfl

omit [Fintype ι] in
theorem Entered.next {g₁ g₂ : Ghost ι} {space : ι} {n : Nat} {perm : Pte}
    (leaf : g₁.leaf = setAt g.leaf space first (PA2PTE (4096 * n) ||| perm ||| PTE_V))
    (rest : Entered space (first + 1) last perm g₁ g₂) (some : first < last)
    : Entered space first last perm g g₂ := by
  refine ⟨fun v above below => ?_, fun space' v outside => ?_⟩
  · by_cases here : v = first
    · rw [here, rest.old space first fun inside => by omega, leaf, setAt_same]
      exact ⟨n, rfl⟩
    · exact rest.new v (by omega) below
  · rw [rest.old space' v fun inside => outside ⟨inside.1, by omega, inside.2.2⟩, leaf,
      setAt_other _ _ fun same => outside ⟨same.1, by omega, by omega⟩]

namespace Inv

variable {space : ι} {xperm : Pte}

/-- The loop of `uvmalloc` fills its range with zeroed pages, or takes back what it has. The
range must be user memory as far as the free pages reach.
-/
theorem uvmallocLoop (inv : Inv layout s g) {r first a pages : Nat}
    (root : g.table (.root space) = some r) (low : xperm.toNat < 1024) (order : first ≤ a)
    (user : a + min pages s.freelist.length ≤ userPages)
    (vacant : ∀ v, a ≤ v → v < userPages → g.leaf space v = 0)
    : ∃ ok s' g',
        Vm.uvmallocLoop layout (4096 * r) (4096 * first) xperm (4096 * a) pages s
          = .ok (ok, s')
        ∧ Kept g s s'
        ∧ ((ok = true ∧ s'.freelist.length + pages ≤ s.freelist.length
            ∧ Entered space a (a + pages) (PTE_R ||| PTE_U ||| xperm) g g'
            ∧ Growth layout s g s' g'
                (filled (g.view s.mem) space a (a + pages)
                  (View.of (pageOf 0) (PTE_R ||| PTE_U ||| xperm))))
          ∨ (ok = false ∧ s'.exhausted = true
            ∧ Effect layout s g s' g' (without (g.view s.mem) space first a))) := by
  induction pages generalizing s g a with
  | zero =>
    refine ⟨true, s, g, rfl, .refl g s,
      .inl ⟨rfl, Nat.le_refl _, .nothing g space (by omega) _, ?_⟩⟩
    rw [filled_empty _ space (by omega)]
    exact .refl inv
  | succ pages ih =>
    have permLow : (PTE_R ||| PTE_U ||| xperm).toNat < 1024 := or_low (by decide) low
    -- The loop stops where the allocation fails, and gives back what it has.
    have stop {s₁ : Phys} {g₁ : Ghost ι}
        (run : Vm.mapFresh layout (4096 * r) (4096 * a) (PTE_R ||| PTE_U ||| xperm) s
          = .ok (none, s₁))
        (kept : Kept g s s₁) (out : s₁.exhausted = true)
        (growth : Growth layout s g s₁ g₁ (g.view s.mem))
        : ∃ s' g',
            Vm.uvmallocLoop layout (4096 * r) (4096 * first) xperm (4096 * a) (pages + 1) s
              = .ok (false, s')
            ∧ Kept g s s' ∧ s'.exhausted = true
            ∧ Effect layout s g s' g' (without (g.view s.mem) space first a) := by
      obtain ⟨s₂, g₂, run₂, shrinking, out₂, kept₂⟩ := growth.inv.uvmdealloc
        ((growth.root space).trans root) (mul_fits (by omega : a ≤ userPages)) (4096 * first)
      have effect := growth.followed shrinking.toEffect
      rw [pageCount_mul, pageCount_mul, growth.view] at effect
      refine ⟨s₂, g₂, ?_, kept.trans growth.held kept₂, out₂.trans out, effect⟩
      unfold Vm.uvmallocLoop
      rw [bind_ok run]
      dsimp only
      rw [bind_ok run₂]
      rfl
    by_cases list : s.freelist = []
    · obtain ⟨s', g', run, kept, out, effect⟩ := stop (mapFresh_out list _ _ _) (fun _ _ => rfl) rfl
        (.exhaust inv)
      exact ⟨false, s', g', run, kept, .inr ⟨rfl, out, effect⟩⟩
    have someFree := List.length_pos_iff.mpr list
    obtain ⟨result, s₁, g₁, run, grows, outcome⟩ := inv.mapFresh root
      (by omega : a < userPages) (vacant a (by omega) (by omega)) permLow
    rcases outcome with ⟨rfl, out, growth, _⟩ | ⟨n, rfl, left, leaf, small, growth⟩
    · obtain ⟨s', g', run, kept, out, effect⟩ := stop run (inv.grows_kept grows) out growth
      exact ⟨false, s', g', run, kept, .inr ⟨rfl, out, effect⟩⟩
    · have vacant₁ : ∀ v, a + 1 ≤ v → v < userPages → g₁.leaf space v = 0 := by
        intro v above below
        rw [leaf, setAt_other _ _ fun same => by omega]
        exact vacant v (by omega) below
      obtain ⟨ok, s₂, g₂, run₂, kept₂, outcome₂⟩ := ih growth.inv
        ((growth.root space).trans root) (by omega : first ≤ a + 1) (by omega) vacant₁
      unfold Vm.uvmallocLoop
      rw [bind_ok run]
      refine ⟨ok, s₂, g₂, run₂, (inv.grows_kept grows).trans growth.held kept₂, ?_⟩
      rcases outcome₂ with ⟨rfl, left₂, entered, growth₂⟩ | ⟨rfl, out, effect⟩
      · have last : a + (pages + 1) = a + 1 + pages := by omega
        rw [growth.view, filled_step _ space (by omega)] at growth₂
        exact .inl ⟨rfl, by omega, last ▸ entered.next leaf (by omega),
          last ▸ growth.trans growth₂⟩
      · rw [growth.view, without_step _ space order
          (vacant_view s.mem (vacant a (by omega) (by omega)))] at effect
        exact .inr ⟨rfl, out, growth.followed effect⟩

/-- `uvmalloc` fills the new pages with zeros, or fails and leaves every view as it was. -/
theorem uvmalloc (inv : Inv layout s g) {r oldsz newsz : Nat}
    (root : g.table (.root space) = some r) (low : xperm.toNat < 1024)
    (fits : min (pageCount newsz) (pageCount oldsz + s.freelist.length) ≤ userPages)
    (vacant : ∀ v, pageCount oldsz ≤ v → v < userPages → g.leaf space v = 0)
    : ∃ sz s' g', Vm.uvmalloc layout (4096 * r) oldsz newsz xperm s = .ok (sz, s')
      ∧ Kept g s s'
      ∧ ((sz = max oldsz newsz
          ∧ pageCount sz + s'.freelist.length ≤ pageCount oldsz + s.freelist.length
          ∧ Entered space (pageCount oldsz) (pageCount newsz) (PTE_R ||| PTE_U ||| xperm) g g'
          ∧ Growth layout s g s' g'
              (filled (g.view s.mem) space (pageCount oldsz) (pageCount newsz)
                (View.of (pageOf 0) (PTE_R ||| PTE_U ||| xperm))))
        ∨ (sz = 0 ∧ s'.exhausted = true ∧ Effect layout s g s' g' (g.view s.mem))) := by
  unfold Vm.uvmalloc
  by_cases shrinks : newsz < oldsz
  · rw [if_pos shrinks]
    have pages : pageCount newsz ≤ pageCount oldsz := by
      simp only [pageCount]
      omega
    rw [filled_empty _ space pages]
    exact ⟨oldsz, s, g, rfl, .refl g s,
      .inl ⟨by omega, Nat.le_refl _, .nothing g space pages _, .refl inv⟩⟩
  · rw [if_neg shrinks, PGROUNDUP_eq]
    have order : pageCount oldsz ≤ pageCount newsz := by
      simp only [pageCount]
      omega
    have pages : (newsz - 4096 * pageCount oldsz + 4095) / 4096
        = pageCount newsz - pageCount oldsz := by
      simp only [pageCount]
      omega
    have range : pageCount oldsz + (pageCount newsz - pageCount oldsz) = pageCount newsz := by
      omega
    obtain ⟨ok, s', g', run, kept, outcome⟩ := inv.uvmallocLoop root low (Nat.le_refl _)
      (by omega
        : pageCount oldsz + min (pageCount newsz - pageCount oldsz) s.freelist.length ≤ userPages)
      vacant
    rw [range] at outcome
    rw [pages, bind_ok run]
    rcases outcome with ⟨rfl, left, entered, growth⟩ | ⟨rfl, out, effect⟩
    · exact ⟨newsz, s', g', rfl, kept, .inl ⟨by omega, by omega, entered, growth⟩⟩
    · rw [without_empty _ space (Nat.le_refl _)] at effect
      exact ⟨0, s', g', rfl, kept, .inr ⟨rfl, out, effect⟩⟩

end Inv

-- Changing flags

theorem View.of_cleared (content : Page) (pte : Pte)
    : View.of content (pte &&& ~~~PTE_U) = (View.of content pte).clear := by
  simp only [View.of, View.clear, Pte.has_and, (by decide : ~~~PTE_U &&& PTE_R = PTE_R),
    (by decide : ~~~PTE_U &&& PTE_W = PTE_W), (by decide : ~~~PTE_U &&& PTE_C = PTE_C),
    (by decide : ~~~PTE_U &&& PTE_X = PTE_X), (by decide : ~~~PTE_U &&& PTE_U = 0),
    Pte.has_zero]

namespace Inv

variable {space : ι}

/-- An entry may get other flags. -/
theorem reflag (inv : Inv layout s g) {v m : Nat} (user : v < userPages)
    (node : g.table (.low space (v / 512)) = some m) {pte : Pte}
    (valid : (g.leaf space v).has PTE_V = true) (pteValid : pte.has PTE_V = true)
    (ppn : pte.ppn = (g.leaf space v).ppn)
    : Change layout s g (s.setEntry m (v % 512) pte) { g with leaf := setAt g.leaf space v pte }
        (setAt (g.view s.mem) space v (some (.of (s.mem pte.ppn) pte))) := by
  have inv' := inv.setLeaf user node pte g.held fun n => by
    rw [refersTo_valid valid, refersTo_valid pteValid, ppn]
  rw [Pte.mapped_of_valid pteValid] at inv'
  have kept {n : Nat} (data : g.owner n = .data)
      : (s.setEntry m (v % 512) pte).mem n = s.mem n := by
    simp [Phys.setEntry, inv.data_not_table data node]
  refine ⟨inv', rfl, fun _ => rfl, fun space' v' above => ?_, ?_, id, fun {_ _ n} maps _ => ?_⟩
  · exact setAt_other _ _ fun same => by omega
  · rw [inv.view_setAt inv' (fun n data _ => kept data) user rfl, Pte.view, if_pos pteValid,
      kept (ppn ▸ inv.leaf_data user valid)]
  · by_cases same : n = (g.leaf space v).ppn
    · exact ⟨space, v, user, valid, same.symm⟩
    · exact maps_of_setAt rfl maps (by rwa [ppn])

/-- `uvmclear` closes a page to user code. -/
theorem uvmclear (inv : Inv layout s g) {r va : Nat} (root : g.table (.root space) = some r)
    (user : va / 4096 < userPages) (valid : (g.leaf space (va / 4096)).has PTE_V = true)
    : ∃ s' g', Vm.uvmclear (4096 * r) va s = .ok ((), s')
      ∧ Grows s g s' g'
      ∧ g'.leaf = setAt g.leaf space (va / 4096) (g.leaf space (va / 4096) &&& ~~~PTE_U)
      ∧ Growth layout s g s' g'
          (setAt (g.view s.mem) space (va / 4096)
            ((g.view s.mem space (va / 4096)).map View.clear)) := by
  unfold Vm.uvmclear
  rcases inv.shape.look root (user_address user) with ⟨_, leaf⟩ | ⟨m, walked, node, leaf⟩
  · rw [leaf] at valid
    cases valid
  rw [leaf, Pte.has_mapped] at valid
  rw [Pte.mapped_of_valid valid] at leaf
  rw [← leaf] at valid
  have flag {flag : Pte} (kept : ~~~PTE_U &&& flag = flag)
      : (g.leaf space (va / 4096) &&& ~~~PTE_U).has flag
        = (g.leaf space (va / 4096)).has flag := by
    rw [Pte.has_and, kept]
  have ppn := Pte.ppn_clear (g.leaf space (va / 4096))
  have maps : g.Maps space (va / 4096) (g.leaf space (va / 4096)).ppn := ⟨user, valid, rfl⟩
  have change := inv.reflag user node valid (by rw [flag (by decide), valid]) ppn
  rw [View.of_cleared, ppn] at change
  rw [bind_ok walked]
  dsimp only
  rw [bind_ok (readEntry_run s m _), writeEntry_run, ← leaf, view_of_valid s.mem user valid]
  refine ⟨_, { g with
      leaf := setAt g.leaf space (va / 4096) (g.leaf space (va / 4096) &&& ~~~PTE_U) }, rfl,
    fun n data => ⟨data, ?_⟩, rfl, ⟨change, fun shared sharing => ?_⟩,
    fun _ sharing => sharing.data⟩
  · simp [Phys.setEntry, inv.data_not_table data node]
  refine sharing.toCow.set rfl ?_ fun isPrivate space' v' apart maps' => ?_
  · rw [ppn, flag (by decide), flag (by decide)]
    exact sharing.write maps
  · rw [ppn] at isPrivate maps'
    rw [flag (by decide)]
    constructor
    · by_contra writable
      exact apart (sharing.sole maps (by simpa using writable) isPrivate maps')
    · by_contra writable
      obtain ⟨rfl, rfl⟩ := sharing.sole maps' (by simpa using writable) isPrivate maps
      exact apart ⟨rfl, rfl⟩

end Inv

end Xv6.Vm

import Xv6.Vm.UserMemorySpec

/-! Page faults: lazy allocation in `vmfault`, the copy-on-write break of `uvmcow` and
`copyout`, and the page lookups of the copy loops.
-/

namespace Xv6.Vm

open Function Library

variable {ι : Type} {layout : Layout} {s : Phys} {g : Ghost ι}
variable {mem : Nat → Page} {space : ι} {sz va : Nat} {views : ι → Row}

-- Flags of new entries

theorem brokenFlags_low (pte : Pte) : (brokenFlags pte).toNat < 1024 :=
  or_low (and_low (flags_low pte)) (by decide)

theorem has_broken (pa : Nat) (pte : Pte) {flag : Pte} (low : flag.toNat < 1024)
    (inFlags : 0x3FF &&& flag = flag) (notCow : ~~~PTE_C &&& flag = flag)
    (notWrite : PTE_W.has flag = false)
    : (PA2PTE pa ||| brokenFlags pte).has flag = pte.has flag := by
  rw [brokenFlags, Pte.has_or, Pte.has_or, Pte.has_PA2PTE pa low, Pte.has_and, notCow,
    Pte.has_flags pte inFlags, notWrite, Bool.false_or, Bool.or_false]

theorem has_broken_write (pa : Nat) (pte : Pte)
    : (PA2PTE pa ||| brokenFlags pte).has PTE_W = true := by
  simp [brokenFlags, Pte.has_or, (by decide : PTE_W.has PTE_W = true)]

theorem has_broken_valid (pa : Nat) (pte : Pte)
    : (PA2PTE pa ||| brokenFlags pte).has PTE_V = pte.has PTE_V :=
  has_broken pa pte (by decide) (by decide) (by decide) (by decide)

theorem has_broken_user (pa : Nat) (pte : Pte)
    : (PA2PTE pa ||| brokenFlags pte).has PTE_U = pte.has PTE_U :=
  has_broken pa pte (by decide) (by decide) (by decide) (by decide)

theorem View.of_broken (content : Page) (pa : Nat) {pte : Pte} (cow : pte.has PTE_C = true)
    : View.of content (PA2PTE pa ||| brokenFlags pte) = View.of content pte := by
  have read : (PA2PTE pa ||| brokenFlags pte).has PTE_R = pte.has PTE_R :=
    has_broken pa pte (by decide) (by decide) (by decide) (by decide)
  have exec : (PA2PTE pa ||| brokenFlags pte).has PTE_X = pte.has PTE_X :=
    has_broken pa pte (by decide) (by decide) (by decide) (by decide)
  simp only [View.of, read, exec, has_broken_user, has_broken_write, cow, Bool.true_or,
    Bool.or_true]

theorem faulted_flags (pa : Nat)
    : (PA2PTE pa ||| (PTE_W ||| PTE_U ||| PTE_R) ||| PTE_V).has PTE_U = true
      ∧ (PA2PTE pa ||| (PTE_W ||| PTE_U ||| PTE_R) ||| PTE_V).has PTE_W = true
      ∧ (PA2PTE pa ||| (PTE_W ||| PTE_U ||| PTE_R) ||| PTE_V).has PTE_R = true := by
  simp only [Pte.has_or, (by decide : PTE_U.has PTE_U = true),
    (by decide : PTE_W.has PTE_W = true), (by decide : PTE_R.has PTE_R = true),
    Bool.or_true, Bool.true_or, and_self]

-- What user code may do with a page

/-- Above user memory no page is open to user code. -/
def Guarded (g : Ghost ι) (space : ι) : Prop :=
  ∀ v, userPages ≤ v → (g.leaf space v).has PTE_U = false

/-- User code may use the page in the way `flag` says. -/
def Open (g : Ghost ι) (space : ι) (v : Nat) (flag : Pte) : Prop :=
  v < userPages ∧ (g.leaf space v).has PTE_V = true ∧ (g.leaf space v).has PTE_U = true
    ∧ (g.leaf space v).has flag = true

/-- Neither a store nor a copy-on-write break is open to user code. -/
def NotWritable (g : Ghost ι) (space : ι) (v : Nat) : Prop :=
  (g.leaf space v).has PTE_V = true → (g.leaf space v).has PTE_U = true
    → (g.leaf space v).has PTE_W = false ∧ (g.leaf space v).has PTE_C = false

theorem valid_of_view {v : Nat} {page : View} (seen : g.view mem space v = some page)
    : v < userPages ∧ (g.leaf space v).has PTE_V = true
      ∧ page = .of (mem (g.leaf space v).ppn) (g.leaf space v) := by
  unfold Ghost.view at seen
  by_cases user : v < userPages
  · rw [if_pos user, Pte.view] at seen
    by_cases valid : (g.leaf space v).has PTE_V = true
    · rw [if_pos valid, Option.some.injEq] at seen
      exact ⟨user, valid, seen.symm⟩
    · rw [if_neg valid] at seen
      cases seen
  · rw [if_neg user] at seen
    cases seen

theorem touch_blocked (fits : sz ≤ TRAPFRAME)
    (blocked : sz ≤ va ∨ (g.leaf space (va / 4096)).has PTE_V = true)
    : (g.view mem space).touch sz va = g.view mem space := by
  by_cases above : sz ≤ va
  · exact Row.touch_above above
  · have user := user_page (by omega : va < sz) fits
    have valid := blocked.resolve_left above
    exact Row.touch_mapped (by rw [view_of_valid mem user valid]; simp)

/-- A page that is refused and not supplied allows no access. -/
theorem access_refused {allows : View → Bool}
    (fits : sz ≤ TRAPFRAME)
    (blocked : sz ≤ va ∨ (g.leaf space (va / 4096)).has PTE_V = true)
    (refused
      : va / 4096 < userPages → (g.leaf space (va / 4096)).has PTE_V = true
        → ∀ content, allows (.of content (g.leaf space (va / 4096))) = false)
    : (g.view mem space).access sz va allows = none := by
  rw [Row.access, touch_blocked fits blocked]
  cases seen : g.view mem space (va / 4096) with
  | none => rfl
  | some page =>
    obtain ⟨user, valid, rfl⟩ := valid_of_view seen
    simp [refused user valid]

theorem NotWritable.allows {v : Nat} (refused : NotWritable g space v)
    (valid : (g.leaf space v).has PTE_V = true) (content : Page)
    : ((View.of content (g.leaf space v)).user && (View.of content (g.leaf space v)).write)
      = false := by
  by_cases user : (g.leaf space v).has PTE_U = true
  · obtain ⟨noWrite, noCow⟩ := refused valid user
    simp [View.of, noWrite, noCow]
  · simp [View.of, user]

/-- The views after the page of `va` has been supplied, if the process may have it. -/
def faultIn [DecidableEq ι] (views : ι → Row) (space : ι) (sz va : Nat) : ι → Row :=
  update views space ((views space).touch sz va)

theorem faultIn_mapped [DecidableEq ι] (mapped : views space (va / 4096) ≠ none)
    : faultIn views space sz va = views := by
  rw [faultIn, Row.touch_mapped mapped, update_eq_self]

theorem faultIn_vacant [DecidableEq ι] (below : va < sz) (vacant : views space (va / 4096) = none)
    : faultIn views space sz va = setAt views space (va / 4096) (some zeroView) := by
  rw [faultIn, Row.touch_vacant below vacant, setAt]

theorem zeroView_eq : View.of (pageOf 0) (PTE_W ||| PTE_U ||| PTE_R) = zeroView := by
  simp only [View.of, zeroView, View.mk.injEq]
  decide

variable [Fintype ι]

theorem Inv.translate_run (inv : Inv layout s g) {r : Nat} (root : g.table (.root space) = some r)
    (bound : va < MAXVA) (flag : Pte)
    : translate (4096 * r) va flag s
      = .ok (if (g.leaf space (va / 4096)).has PTE_V && (g.leaf space (va / 4096)).has PTE_U
              && (g.leaf space (va / 4096)).has flag
          then some (PTE2PA (g.leaf space (va / 4096))) else none, s) := by
  unfold translate
  rw [if_neg (by omega)]
  rcases inv.shape.look root bound with ⟨walked, leaf⟩ | ⟨m, walked, _, leaf⟩
  · rw [bind_ok walked, leaf]
    rfl
  · rw [bind_ok walked]
    dsimp only
    rw [bind_ok (readEntry_run s m _), leaf, Pte.has_mapped]
    by_cases valid : ((s.mem m).entry (va / 4096 % 512)).has PTE_V = true
    · rw [Pte.mapped_of_valid valid]
      by_cases ok : (((s.mem m).entry (va / 4096 % 512)).has PTE_V
          && ((s.mem m).entry (va / 4096 % 512)).has PTE_U
          && ((s.mem m).entry (va / 4096 % 512)).has flag) = true
      · rw [if_pos ok, if_pos ok]
        rfl
      · rw [if_neg ok, if_neg ok]
        rfl
    · simp [valid]

variable [DecidableEq ι]

namespace Inv

variable {space : ι}

-- vmfault

/-- `vmfault` supplies a zeroed page where the process may have one and has none. -/
theorem vmfault (inv : Inv layout s g) {r sz : Nat} (root : g.table (.root space) = some r)
    (fits : sz ≤ TRAPFRAME) (va : Nat)
    : ∃ result s' g', Vm.vmfault layout sz (4096 * r) (4096 * r) va s = .ok (result, s')
      ∧ ((result = none ∧ s' = s ∧ g' = g
          ∧ (sz ≤ va ∨ (g.leaf space (va / 4096)).has PTE_V = true))
        ∨ (va < sz ∧ g.leaf space (va / 4096) = 0
          ∧ ((result = none ∧ s'.exhausted = true ∧ Growth layout s g s' g' (g.view s.mem))
            ∨ ∃ n, result = some (4096 * n) ∧ n < 2 ^ 44
              ∧ g'.leaf = setAt g.leaf space (va / 4096)
                  (PA2PTE (4096 * n) ||| (PTE_W ||| PTE_U ||| PTE_R) ||| PTE_V)
              ∧ Growth layout s g s' g'
                  (setAt (g.view s.mem) space (va / 4096) (some zeroView))))) := by
  unfold Vm.vmfault
  by_cases above : sz ≤ va
  · rw [if_pos above]
    exact ⟨none, s, g, rfl, .inl ⟨rfl, rfl, rfl, .inl above⟩⟩
  · have user := user_page (by omega : va < sz) fits
    have page : 4096 * (va / 4096) / 4096 = va / 4096 := by omega
    have mapped := inv.ismapped_run root (user_address (by rw [page]; exact user)
      : 4096 * (va / 4096) < MAXVA)
    rw [page] at mapped
    rw [if_neg above, PGROUNDDOWN_eq, bind_ok mapped]
    by_cases valid : (g.leaf space (va / 4096)).has PTE_V = true
    · rw [if_pos valid]
      exact ⟨none, s, g, rfl, .inl ⟨rfl, rfl, rfl, .inr valid⟩⟩
    · rw [if_neg valid]
      have vacant := inv.leaf_zero (by simpa using valid)
      obtain ⟨result, s', g', run, _, outcome⟩ := inv.mapFresh root user vacant
        (by decide : (PTE_W ||| PTE_U ||| PTE_R).toNat < 1024)
      refine ⟨result, s', g', run, .inr ⟨by omega, vacant, ?_⟩⟩
      rcases outcome with ⟨rfl, out, growth, _⟩ | ⟨n, rfl, _, leaf, small, growth⟩
      · exact .inl ⟨rfl, out, growth⟩
      · exact .inr ⟨n, rfl, small, leaf, zeroView_eq ▸ growth⟩

-- The copy-on-write break

/-- The break gives the process a page of its own with the same contents. -/
theorem cowBreak (inv : Inv layout s g) {v m : Nat} (node : g.table (.low space (v / 512)) = some m)
    (user : v < userPages) (valid : (g.leaf space v).has PTE_V = true)
    (cowBit : (g.leaf space v).has PTE_C = true)
    : ∃ result s' g', Vm.cowBreak layout (4096 * m) (v % 512) (g.leaf space v) s
        = .ok (result, s')
      ∧ Growth layout s g s' g' (g.view s.mem)
      ∧ ((result = none ∧ s'.exhausted = true)
        ∨ ∃ n, result = some (4096 * n) ∧ n < 2 ^ 44
          ∧ g'.leaf
            = setAt g.leaf space v (PA2PTE (4096 * n) ||| brokenFlags (g.leaf space v))) := by
  have oldData := inv.leaf_data user valid
  have oldPa := PTE2PA_eq (inv.leaf_small user valid)
  unfold Vm.cowBreak
  rcases inv.kalloc with failed | ⟨n, s₁, run, isFree, inv₁, mem₁, exhausted₁⟩
  · rw [bind_ok failed]
    exact ⟨none, _, g, rfl, .exhaust inv, .inl ⟨rfl, rfl⟩⟩
  have ne_free {k : Nat} (data : g.owner k = .data) : k ≠ n := by
    rintro rfl
    rw [isFree] at data
    cases data
  have small : n < 2 ^ 44 := inv.accounts.small (by simp [isFree])
  have noHold := inv.free_unheld isFree
  generalize old : (g.leaf space v).ppn = o at *
  have apart : o ≠ n := ne_free oldData
  have copied : copyPage (4096 * n) (PTE2PA (g.leaf space v)) s₁
      = .ok ((), { s₁ with mem := update s₁.mem n (s.mem o) }) := by
    simp [copyPage, Phys.setPage_mul, oldPa, mem₁ o apart]
  have inv₂ := inv₁.writeData (n := n) (by simp) (s.mem o)
  have newValid : (PA2PTE (4096 * n) ||| brokenFlags (g.leaf space v)).has PTE_V = true := by
    rw [has_broken_valid, valid]
  have newPpn := Pte.ppn_or small (brokenFlags_low (g.leaf space v))
  have inv₃ := inv₂.setLeaf user node (PA2PTE (4096 * n) ||| brokenFlags (g.leaf space v))
    (update g.held o (g.held o + 1)) (by
      intro k
      rw [refersTo_valid newValid, newPpn, refersTo_valid valid, old]
      by_cases isNew : k = n
      · subst isNew
        simp [Ne.symm apart, noHold]
      · by_cases isOld : k = o
        · subst isOld
          simp [isNew]
        · simp [isNew, isOld])
  rw [Pte.mapped_of_valid newValid] at inv₃
  have heldOld : 0 < update g.held o (g.held o + 1) o := by simp
  have inv₄ := inv₃.release heldOld
  have kept {k : Nat} (data : g.owner k = .data)
      : ({ s₁ with mem := update s₁.mem n (s.mem o) }.setEntry m (v % 512)
          (PA2PTE (4096 * n) ||| brokenFlags (g.leaf space v))).mem k = s.mem k := by
    simp [Phys.setEntry, inv.data_not_table data node, ne_free data, mem₁ k (ne_free data)]
  rw [bind_ok run]
  dsimp only
  rw [bind_ok copied, bind_ok (writeEntry_run _ m _ _), oldPa,
    bind_ok (inv₃.kfree_run heldOld)]
  refine ⟨some (4096 * n), _, _, rfl, ⟨⟨⟨inv₄, ?_, fun _ => rfl, ?_, ?_, ?_,
      fun maps held => ?_⟩, ?_⟩, ?_⟩,
    .inr ⟨n, rfl, small, rfl⟩⟩
  · simp [Ghost.release]
  · intro space' v' above
    exact setAt_other _ _ fun same => by omega
  · funext space' v'
    by_cases here : space' = space ∧ v' = v
    · obtain ⟨rfl, rfl⟩ := here
      have nodeApart : n ≠ m := (inv.not_node (by simp [isFree]) node).symm
      simp only [Ghost.view, Ghost.release, setAt_same, Pte.view, user, newValid, valid,
        if_true, newPpn, View.of_broken _ _ cowBit, old, release_mem _ (Ne.symm apart)]
      simp [Phys.setEntry, nodeApart]
    · refine inv.view_same inv₄ (fun k before after => ?_) fun _ => setAt_other _ _ here
      rw [(inv₃.release_shrinks heldOld k after).2, kept before]
  · intro out
    simpa [Phys.release, Phys.setEntry, exhausted₁] using out
  · refine maps_of_setAt rfl maps fun page => ?_
    rw [page, newPpn, noHold] at held
    omega
  · intro shared sharing
    refine sharing.toCow.fresh rfl ?_ ?_
    · rw [newPpn]
      exact inv.free_unmapped isFree
    · rw [newPpn]
      exact fun isShared => ne_free (sharing.data n isShared) rfl
  · intro shared sharing k isShared
    have data := sharing.data k isShared
    have notOld : k ≠ o := by
      rintro rfl
      have flags := sharing.write ⟨user, valid, old⟩ isShared
      rw [cowBit] at flags
      cases flags.2
    rw [release_owner _ notOld]
    simp [data, ne_free data]

end Inv

-- Stores

namespace Inv

variable {space : ι}

/-- `uvmcow` makes a copy-on-write page writable and changes no view. -/
theorem uvmcow (inv : Inv layout s g) {r : Nat} (root : g.table (.root space) = some r)
    (guarded : Guarded g space) (va : Nat)
    : ∃ ok s' g', Vm.uvmcow layout (4096 * r) va s = .ok (ok, s')
      ∧ Growth layout s g s' g' (g.view s.mem)
      ∧ ((ok = true ∧ Open g' space (va / 4096) PTE_W)
        ∨ (ok = false
          ∧ (s'.exhausted = true
            ∨ (s' = s ∧ g' = g ∧ NotWritable g space (va / 4096))))) := by
  have page : 4096 * (va / 4096) / 4096 = va / 4096 := by omega
  unfold Vm.uvmcow
  rw [PGROUNDDOWN_eq]
  have refuse (reason : NotWritable g space (va / 4096))
      : ∃ ok s' g', (pure false : Kernel Bool) s = .ok (ok, s')
        ∧ Growth layout s g s' g' (g.view s.mem)
        ∧ ((ok = true ∧ Open g' space (va / 4096) PTE_W)
          ∨ (ok = false
            ∧ (s'.exhausted = true
              ∨ (s' = s ∧ g' = g ∧ NotWritable g space (va / 4096))))) :=
    ⟨false, s, g, rfl, .refl inv, .inr ⟨rfl, .inr ⟨rfl, rfl, reason⟩⟩⟩
  by_cases high : MAXVA ≤ 4096 * (va / 4096)
  · rw [if_pos high]
    refine refuse fun _ user => ?_
    have above : userPages ≤ va / 4096 := by
      simp only [userPages, MAXVA] at *
      omega
    rw [guarded _ above] at user
    cases user
  rw [if_neg high]
  rcases inv.shape.look root (by omega : 4096 * (va / 4096) < MAXVA) with
    ⟨walked, leaf⟩ | ⟨m, walked, node, leaf⟩
  · rw [page] at leaf
    rw [bind_ok walked]
    refine refuse fun valid _ => ?_
    rw [leaf, zero_invalid] at valid
    cases valid
  rw [page] at walked node leaf
  rw [bind_ok walked]
  dsimp only
  rw [bind_ok (readEntry_run s m _)]
  by_cases valid : ((s.mem m).entry (va / 4096 % 512)).has PTE_V = true
  · rw [Pte.mapped_of_valid valid] at leaf
    rw [← leaf] at valid ⊢
    simp only [valid, Bool.not_true, Bool.false_eq_true, if_false]
    by_cases user : (g.leaf space (va / 4096)).has PTE_U = true
    · simp only [user, Bool.not_true, Bool.false_eq_true, if_false]
      have below : va / 4096 < userPages := by
        by_contra above
        rw [guarded _ (by omega)] at user
        cases user
      by_cases writable : (g.leaf space (va / 4096)).has PTE_W = true
      · simp only [writable, if_true]
        exact ⟨true, s, g, rfl, .refl inv, .inl ⟨rfl, below, valid, user, writable⟩⟩
      · simp only [writable]
        by_cases cowBit : (g.leaf space (va / 4096)).has PTE_C = true
        · simp only [cowBit, Bool.not_true, Bool.false_eq_true, if_false]
          obtain ⟨result, s', g', run, growth, outcome⟩ :=
            inv.cowBreak node below valid cowBit
          rw [bind_ok run]
          rcases outcome with ⟨rfl, out⟩ | ⟨n, rfl, small, newLeaf⟩
          · exact ⟨false, s', g', rfl, growth, .inr ⟨rfl, .inl out⟩⟩
          · refine ⟨true, s', g', rfl, growth, .inl ⟨rfl, below, ?_⟩⟩
            rw [newLeaf, setAt_same, has_broken_valid, has_broken_user]
            exact ⟨valid, user, has_broken_write _ _⟩
        · simp only [cowBit, Bool.not_false, if_true]
          exact refuse fun _ _ => ⟨by simpa using writable, by simpa using cowBit⟩
    · simp only [user, Bool.not_false, if_true]
      exact refuse fun _ open_ => (user open_).elim
  · simp only [valid, Bool.not_false, if_true]
    refine refuse fun valid' _ => ?_
    rw [leaf, Pte.has_mapped] at valid'
    exact (valid valid').elim

/-- The store-fault path of `usertrap` opens the page for writing, or the process may not
write it.
-/
theorem storeFault (inv : Inv layout s g) {r sz : Nat} (root : g.table (.root space) = some r)
    (guarded : Guarded g space) (fits : sz ≤ TRAPFRAME) (va : Nat)
    : ∃ ok s' g', Vm.storeFault layout sz (4096 * r) va s = .ok (ok, s')
      ∧ ((ok = true ∧ Growth layout s g s' g' (faultIn (g.view s.mem) space sz va)
          ∧ Open g' space (va / 4096) PTE_W)
        ∨ (ok = false ∧ Growth layout s g s' g' (g.view s.mem)
          ∧ (s'.exhausted = true
            ∨ (g.view s.mem space).access sz va (fun page => page.user && page.write)
              = none))) := by
  unfold Vm.storeFault
  obtain ⟨ok, s₁, g₁, run, growth, outcome⟩ := inv.uvmcow root guarded va
  rw [bind_ok run]
  rcases outcome with ⟨rfl, opened⟩ | ⟨rfl, refused⟩
  · refine ⟨true, s₁, g₁, rfl, .inl ⟨rfl, ?_, opened⟩⟩
    rw [← growth.view, faultIn_mapped (by rw [view_of_valid s₁.mem opened.1 opened.2.1]; simp),
      growth.view]
    exact growth
  · rw [if_neg (by simp)]
    obtain ⟨result, s₂, g₂, run₂, outcome₂⟩ :=
      growth.inv.vmfault ((growth.root space).trans root) fits va
    rw [bind_ok run₂]
    rcases outcome₂ with ⟨rfl, rfl, rfl, blocked⟩ | ⟨below, vacant, outcome₂⟩
    · refine ⟨false, s₂, g₂, rfl, .inr ⟨rfl, growth, ?_⟩⟩
      rcases refused with out | ⟨rfl, rfl, refused⟩
      · exact .inl out
      · exact .inr (access_refused fits blocked fun _ valid => refused.allows valid)
    · have vacantView : g.view s.mem space (va / 4096) = none := by
        rw [← growth.view, vacant_view _ vacant]
      rcases outcome₂ with ⟨rfl, out, growth₂⟩ | ⟨n, rfl, small, leaf, growth₂⟩
      · rw [growth.view] at growth₂
        exact ⟨false, s₂, g₂, rfl, .inr ⟨rfl, growth.trans growth₂, .inl out⟩⟩
      · rw [growth.view] at growth₂
        refine ⟨true, s₂, g₂, rfl, .inl ⟨rfl, ?_, user_page below fits, ?_⟩⟩
        · rw [faultIn_vacant below vacantView]
          exact growth.trans growth₂
        · obtain ⟨user, write, _⟩ := faulted_flags (4096 * n)
          rw [leaf, setAt_same]
          exact ⟨mappedEntry_valid _ _, user, write⟩

end Inv

end Xv6.Vm

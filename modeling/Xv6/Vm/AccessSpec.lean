import Xv6.Vm.FaultSpec

/-! Loads, stores, `copyin` and `copyout`. They supply and break pages as they go; where no
page is mapped twice they do to the caller's memory what they would do to private memory, and
leave everybody else's alone.
-/

namespace Xv6.Vm

open Function Library

variable {ι : Type} {layout : Layout} {s : Phys} {g : Ghost ι} {space : ι}

/-- Bytes written into the data page `n`. -/
def Phys.storeAt (s : Phys) (n offset : Nat) (bytes : List (BitVec 8)) : Phys :=
  { s with mem := update s.mem n ((s.mem n).write offset bytes) }

theorem storeBytes_run (s : Phys) (n offset : Nat) (bytes : List (BitVec 8))
    : storeBytes (4096 * n) offset bytes s = .ok ((), s.storeAt n offset bytes) := by
  simp [storeBytes, Phys.setPage_mul, Phys.storeAt]

theorem loadBytes_run (s : Phys) (n offset count : Nat)
    : loadBytes (4096 * n) offset count s
      = .ok ((List.range count).map (fun i => (s.mem n).byte (offset + i)), s) := by
  simp [loadBytes]

/-- A store to a page with a single mapping is seen there and nowhere else. -/
theorem storeAt_view [DecidableEq ι] {v : Nat} (user : v < userPages)
    (valid : (g.leaf space v).has PTE_V = true)
    (sole : ∀ space' v', g.Maps space' v' (g.leaf space v).ppn → space' = space ∧ v' = v)
    (offset : Nat) (bytes : List (BitVec 8))
    : g.view (s.storeAt (g.leaf space v).ppn offset bytes).mem
      = setAt (g.view s.mem) space v
          (some (.of ((s.mem (g.leaf space v).ppn).write offset bytes) (g.leaf space v))) := by
  funext space' v'
  by_cases here : space' = space ∧ v' = v
  · obtain ⟨rfl, rfl⟩ := here
    rw [view_of_valid _ user valid]
    simp [Phys.storeAt]
  · rw [setAt_other _ _ here]
    unfold Ghost.view
    by_cases user' : v' < userPages
    · rw [if_pos user', if_pos user', Pte.view, Pte.view]
      by_cases valid' : (g.leaf space' v').has PTE_V = true
      · have other : (g.leaf space' v').ppn ≠ (g.leaf space v).ppn := fun same =>
          here (sole space' v' ⟨user', valid', same⟩)
        simp [Phys.storeAt, other]
      · rw [if_neg valid', if_neg valid']
    · rw [if_neg user', if_neg user']

/-- A page that is not writable was not supplied just now. -/
theorem faultIn_readonly [DecidableEq ι] {views : ι → Row} {sz : Nat} {page : View} (va : Nat)
    (seen : faultIn views space sz va space (va / 4096) = some page) (readonly : page.write = false)
    : faultIn views space sz va = views
      ∧ (views space).access sz va (fun page => page.user && page.write) = none := by
  have mapped : views space (va / 4096) ≠ none := by
    intro vacant
    rw [faultIn, update_self] at seen
    by_cases below : va < sz
    · rw [Row.touch_vacant below vacant, update_self, Option.some.injEq] at seen
      subst seen
      cases readonly
    · rw [Row.touch_above (by omega), vacant] at seen
      cases seen
  refine ⟨faultIn_mapped mapped, ?_⟩
  rw [faultIn, update_self] at seen
  simp [Row.access, seen, readonly]

/-- Pages appear only in one space, below its size. -/
def Within (views' views : ι → Row) (space : ι) (sz : Nat) : Prop :=
  ∀ space' v, views' space' v ≠ none
    → views space' v ≠ none ∨ (space' = space ∧ 4096 * v < sz)

theorem Within.refl (views : ι → Row) (space : ι) (sz : Nat) : Within views views space sz :=
  fun _ _ => .inl

theorem Within.trans {views views₁ views₂ : ι → Row} {sz : Nat}
    (second : Within views₂ views₁ space sz) (first : Within views₁ views space sz)
    : Within views₂ views space sz := fun space' v seen =>
  (second space' v seen).elim (first space' v) .inr

theorem Within.faultIn [DecidableEq ι] (views : ι → Row) (space : ι) (sz va : Nat)
    : Within (faultIn views space sz va) views space sz := by
  intro space' v seen
  by_cases row : space' = space
  · subst row
    rw [Vm.faultIn, update_self, Row.touch] at seen
    split_ifs at seen with supplied
    · by_cases here : v = va / 4096
      · exact .inr ⟨rfl, by omega⟩
      · rw [update_of_ne here] at seen
        exact .inl seen
    · exact .inl seen
  · rw [Vm.faultIn, update_of_ne row] at seen
    exact .inl seen

theorem Within.contents (g : Ghost ι) (mem mem' : Nat → Page) (space : ι) (sz : Nat)
    : Within (g.view mem') (g.view mem) space sz := by
  intro space' v seen
  left
  cases here : g.view mem' space' v with
  | none => exact (seen here).elim
  | some page =>
    obtain ⟨user, valid, _⟩ := valid_of_view here
    rw [view_of_valid mem user valid]
    simp

variable [Fintype ι]

namespace Inv

variable {space : ι} {r va sz : Nat} {flag : Pte}

section

variable (inv : Inv layout s g)
include inv

/-- Writing a data page frees nothing and maps nothing. -/
theorem storeAt_growth {n : Nat} (data : g.owner n = .data) (offset : Nat) (bytes : List (BitVec 8))
    : Growth layout s g (s.storeAt n offset bytes) g
        (g.view (s.storeAt n offset bytes).mem) where
  inv := inv.writeData data _
  held := rfl
  root _ := rfl
  reserved _ _ _ := rfl
  view := rfl
  exhausted := id
  mapped {space v _} maps _ := ⟨space, v, maps⟩
  cow _ sharing := sharing.toCow
  data _ sharing := sharing.data

theorem translate_open (root : g.table (.root space) = some r)
    (opened : Open g space (va / 4096) flag)
    : translate (4096 * r) va flag s
      = .ok (some (4096 * (g.leaf space (va / 4096)).ppn), s) := by
  obtain ⟨user, valid, open_, allowed⟩ := opened
  rw [inv.translate_run root (user_address user)]
  simp only [valid, open_, allowed, Bool.and_self, if_true,
    PTE2PA_eq (inv.leaf_small user valid)]

theorem userStore_open (sz : Nat) (root : g.table (.root space) = some r)
    (opened : Open g space (va / 4096) PTE_W) (value : BitVec 8)
    : Vm.userStore layout sz (4096 * r) va value s
      = .ok (true, s.storeAt (g.leaf space (va / 4096)).ppn (va % 4096) [value]) := by
  unfold Vm.userStore
  rw [bind_ok (inv.translate_open root opened)]
  dsimp only
  rw [bind_ok (storeBytes_run s _ _ _)]
  rfl

theorem userLoad_open (sz : Nat) (root : g.table (.root space) = some r)
    (opened : Open g space (va / 4096) PTE_R)
    : Vm.userLoad layout sz (4096 * r) va s
      = .ok (some ((s.mem (g.leaf space (va / 4096)).ppn).byte (va % 4096)), s) := by
  unfold Vm.userLoad
  rw [bind_ok (inv.translate_open root opened)]
  dsimp only
  rw [bind_ok (get_run s), Phys.page_mul]
  rfl

/-- The translation of a page that is not open faults. -/
theorem translate_faults (root : g.table (.root space) = some r) (guarded : Guarded g space)
    (closed : ¬Open g space (va / 4096) flag)
    : translate (4096 * r) va flag s = .ok (none, s) := by
  by_cases bound : va < MAXVA
  · rw [inv.translate_run root bound, if_neg]
    simp only [Bool.and_eq_true]
    rintro ⟨⟨valid, user⟩, allowed⟩
    refine closed ⟨?_, valid, user, allowed⟩
    by_contra above
    rw [guarded _ (by omega)] at user
    cases user
  · unfold translate
    rw [if_pos (by omega)]
    rfl

end

theorem guarded_growth {s₁ : Phys} {g₁ : Ghost ι} {views : ι → Row}
    (growth : Growth layout s g s₁ g₁ views) (guarded : Guarded g space)
    : Guarded g₁ space := by
  intro v above
  rw [growth.reserved space v above]
  exact guarded v above

variable [DecidableEq ι]

/-- Writing a page that was just opened is what `Row.put` does. -/
theorem put_view {s₁ : Phys} {g₁ : Ghost ι}
    (growth : Growth layout s g s₁ g₁ (faultIn (g.view s.mem) space sz va))
    (opened : Open g₁ space (va / 4096) PTE_W)
    (sole
      : ∀ space' v', g₁.Maps space' v' (g₁.leaf space (va / 4096)).ppn
          → space' = space ∧ v' = va / 4096)
    (offset : Nat) (bytes : List (BitVec 8))
    : ∃ page,
        (g.view s.mem space).access sz va (fun page => page.user && page.write) = some page
        ∧ g₁.view (s₁.storeAt (g₁.leaf space (va / 4096)).ppn offset bytes).mem
          = update (g.view s.mem) space
              ((g.view s.mem space).put sz va page offset bytes) := by
  obtain ⟨user, valid, open_, writable⟩ := opened
  have seen := view_of_valid s₁.mem user valid
  rw [growth.view, faultIn, update_self] at seen
  refine ⟨.of (s₁.mem (g₁.leaf space (va / 4096)).ppn) (g₁.leaf space (va / 4096)), ?_, ?_⟩
  · rw [Row.access, seen]
    simp [View.of, open_, writable]
  · rw [storeAt_view user valid sole, growth.view, setAt, faultIn]
    simp only [update_idem, update_self]
    rfl

-- User loads and stores

section

variable (inv : Inv layout s g) (root : g.table (.root space) = some r) (guarded : Guarded g space)
  (fits : sz ≤ TRAPFRAME)
include inv root guarded fits

/-- A store: refused, or the page is opened and the byte written to it. -/
theorem userStore (va : Nat) (value : BitVec 8)
    : ∃ ok s' g', Vm.userStore layout sz (4096 * r) va value s = .ok (ok, s')
      ∧ ((ok = true
          ∧ ∃ s₁, Growth layout s g s₁ g' (faultIn (g.view s.mem) space sz va)
            ∧ Open g' space (va / 4096) PTE_W
            ∧ s' = s₁.storeAt (g'.leaf space (va / 4096)).ppn (va % 4096) [value])
        ∨ (ok = false ∧ Growth layout s g s' g' (g.view s.mem)
          ∧ (s'.exhausted = true
            ∨ (g.view s.mem space).access sz va (fun page => page.user && page.write)
              = none))) := by
  by_cases opened : Open g space (va / 4096) PTE_W
  · refine ⟨true, _, g, inv.userStore_open sz root opened value, .inl ⟨rfl, s, ?_, opened, rfl⟩⟩
    rw [faultIn_mapped (by rw [view_of_valid s.mem opened.1 opened.2.1]; simp)]
    exact .refl inv
  · unfold Vm.userStore
    rw [bind_ok (inv.translate_faults root guarded opened)]
    dsimp only
    obtain ⟨ok, s₁, g₁, run, outcome⟩ := inv.storeFault root guarded fits va
    rw [bind_ok run]
    rcases outcome with ⟨rfl, growth, opened⟩ | ⟨rfl, growth, refused⟩
    · rw [if_pos rfl,
        bind_ok (growth.inv.translate_open ((growth.root space).trans root) opened)]
      dsimp only
      rw [bind_ok (storeBytes_run s₁ _ _ _)]
      exact ⟨true, _, g₁, rfl, .inl ⟨rfl, s₁, growth, opened, rfl⟩⟩
    · exact ⟨false, s₁, g₁, rfl, .inr ⟨rfl, growth, refused⟩⟩

/-- A load: the byte of the process's page, or the process may not read it. -/
theorem userLoad (va : Nat)
    : ∃ value s' g', Vm.userLoad layout sz (4096 * r) va s = .ok (value, s')
      ∧ ((∃ byte, value = some byte
          ∧ Growth layout s g s' g' (faultIn (g.view s.mem) space sz va)
          ∧ (g.view s.mem space).load sz va
            = some (byte, (g.view s.mem space).touch sz va))
        ∨ (value = none ∧ Growth layout s g s' g' (g.view s.mem)
          ∧ (s'.exhausted = true ∨ (g.view s.mem space).load sz va = none))) := by
  by_cases opened : Open g space (va / 4096) PTE_R
  · have run := inv.userLoad_open sz root opened
    obtain ⟨user, valid, open_, readable⟩ := opened
    have seen := view_of_valid s.mem user valid
    have untouched : (g.view s.mem space).touch sz va = g.view s.mem space :=
      Row.touch_mapped (by rw [seen]; simp)
    refine ⟨_, s, g, run, .inl ⟨_, rfl, ?_, ?_⟩⟩
    · rw [faultIn_mapped (by rw [seen]; simp)]
      exact .refl inv
    · rw [Row.load, Row.access, untouched, seen]
      simp [Option.filter, View.of, open_, readable]
  · unfold Vm.userLoad
    rw [bind_ok (inv.translate_faults root guarded opened)]
    dsimp only
    obtain ⟨result, s₁, g₁, run, outcome⟩ := inv.vmfault root fits va
    rw [bind_ok run]
    rcases outcome with ⟨rfl, rfl, rfl, blocked⟩ | ⟨below, vacant, outcome⟩
    · refine ⟨none, s₁, g₁, rfl, .inr ⟨rfl, .refl inv, .inr ?_⟩⟩
      rw [Row.load, access_refused fits blocked, Option.map_none]
      intro user valid content
      by_cases open_ : (g₁.leaf space (va / 4096)).has PTE_U = true
      · have unreadable : (g₁.leaf space (va / 4096)).has PTE_R = false := by
          by_contra readable
          exact opened ⟨user, valid, open_, by simpa using readable⟩
        simp [View.of, unreadable]
      · simp [View.of, open_]
    · have vacantView : g.view s.mem space (va / 4096) = none := vacant_view _ vacant
      rcases outcome with ⟨rfl, out, growth⟩ | ⟨n, rfl, small, leaf, growth⟩
      · exact ⟨none, s₁, g₁, rfl, .inr ⟨rfl, growth, .inl out⟩⟩
      · obtain ⟨user, write, read⟩ := faulted_flags (4096 * n)
        have opened : Open g₁ space (va / 4096) PTE_R := by
          refine ⟨user_page below fits, ?_⟩
          rw [leaf, setAt_same]
          exact ⟨mappedEntry_valid _ _, user, read⟩
        have seen := view_of_valid s₁.mem opened.1 opened.2.1
        rw [growth.view, setAt_same, Option.some.injEq] at seen
        dsimp only
        rw [bind_ok (growth.inv.translate_open ((growth.root space).trans root) opened)]
        refine ⟨some ((s₁.mem (g₁.leaf space (va / 4096)).ppn).byte (va % 4096)), s₁, g₁, ?_,
          .inl ⟨_, rfl, ?_, ?_⟩⟩
        · dsimp only
          rw [bind_ok (get_run s₁), Phys.page_mul]
          rfl
        · rw [faultIn_vacant below vacantView]
          exact growth
        · rw [Row.load, Row.access, Row.touch_vacant below vacantView, update_self]
          have content : (s₁.mem (g₁.leaf space (va / 4096)).ppn) = zeroView.content := by
            rw [seen]
            rfl
          simp [Option.filter, content, zeroView]

-- The pages of the copy loops

/-- `walkaddr`, then `vmfault`: a page open to user code, supplied if need be. -/
theorem userPage (v : Nat)
    : ∃ result s' g', Vm.userPage layout sz (4096 * r) (4096 * r) (4096 * v) s
        = .ok (result, s')
      ∧ ((result = some (4096 * (g'.leaf space v).ppn) ∧ v < userPages
          ∧ (g'.leaf space v).has PTE_V = true ∧ (g'.leaf space v).has PTE_U = true
          ∧ Growth layout s g s' g' (faultIn (g.view s.mem) space sz (4096 * v)))
        ∨ (result = none ∧ Growth layout s g s' g' (g.view s.mem)
          ∧ (s'.exhausted = true
            ∨ (g.view s.mem space).access sz (4096 * v) View.user = none))) := by
  have page : 4096 * v / 4096 = v := by omega
  unfold Vm.userPage
  by_cases opened : v < userPages ∧ (g.leaf space v).has PTE_V = true
      ∧ (g.leaf space v).has PTE_U = true
  · obtain ⟨user, valid, open_⟩ := opened
    have walked := inv.walkaddr_run root (user_address (by rw [page]; exact user)
      : 4096 * v < MAXVA)
    rw [page] at walked
    simp only [valid, open_, Bool.and_self, if_true,
      PTE2PA_eq (inv.leaf_small user valid)] at walked
    rw [bind_ok walked]
    refine ⟨_, s, g, rfl, .inl ⟨rfl, user, valid, open_, ?_⟩⟩
    rw [faultIn_mapped (by rw [page, view_of_valid s.mem user valid]; simp)]
    exact .refl inv
  · have walked : walkaddr (4096 * r) (4096 * v) s = .ok (none, s) := by
      by_cases bound : 4096 * v < MAXVA
      · rw [inv.walkaddr_run root bound, page, if_neg]
        simp only [Bool.and_eq_true]
        rintro ⟨valid, open_⟩
        refine opened ⟨?_, valid, open_⟩
        by_contra above
        rw [guarded _ (by omega)] at open_
        cases open_
      · unfold walkaddr
        rw [if_pos (by omega)]
        rfl
    rw [bind_ok walked]
    obtain ⟨result, s₁, g₁, run, outcome⟩ := inv.vmfault root fits (4096 * v)
    rw [page] at outcome
    refine ⟨result, s₁, g₁, run, ?_⟩
    rcases outcome with ⟨rfl, rfl, rfl, blocked⟩ | ⟨below, vacant, outcome⟩
    · refine .inr ⟨rfl, .refl inv, .inr (access_refused fits (by rwa [page]) ?_)⟩
      rw [page]
      intro user valid content
      by_contra open_
      exact opened ⟨user, valid, by simpa [View.of] using open_⟩
    · rcases outcome with ⟨rfl, out, growth⟩ | ⟨n, rfl, small, leaf, growth⟩
      · exact .inr ⟨rfl, growth, .inl out⟩
      · have user : v < userPages := by simpa [page] using user_page below fits
        have ppn := mappedEntry_ppn small (by decide : (PTE_W ||| PTE_U ||| PTE_R).toNat < 1024)
        refine .inl ⟨by rw [leaf, setAt_same, ppn], user, ?_, ?_, ?_⟩
        · rw [leaf, setAt_same]
          exact mappedEntry_valid _ _
        · rw [leaf, setAt_same]
          exact (faulted_flags (4096 * n)).1
        · rw [faultIn_vacant below (by rw [page, vacant_view _ vacant]), page]
          exact growth

/-- `copyout` opens its page for writing, or the process may not write it. -/
theorem copyoutPage (v : Nat)
    : ∃ result s' g', Vm.copyoutPage layout sz (4096 * r) (4096 * r) (4096 * v) s
        = .ok (result, s')
      ∧ ((result = some (4096 * (g'.leaf space v).ppn) ∧ Open g' space v PTE_W
          ∧ Growth layout s g s' g' (faultIn (g.view s.mem) space sz (4096 * v)))
        ∨ (result = none ∧ ∃ views, Growth layout s g s' g' views
          ∧ Within views (g.view s.mem) space sz
          ∧ (s'.exhausted = true
            ∨ (views = g.view s.mem
              ∧ (g.view s.mem space).access sz (4096 * v)
                  (fun page => page.user && page.write) = none)))) := by
  have page : 4096 * v / 4096 = v := by omega
  unfold Vm.copyoutPage
  by_cases high : MAXVA ≤ 4096 * v
  · rw [if_pos high]
    refine ⟨none, s, g, rfl, .inr ⟨rfl, _, .refl inv, .refl _ space sz, .inr ⟨rfl, ?_⟩⟩⟩
    have above : sz ≤ 4096 * v := by
      simp only [TRAPFRAME, TRAMPOLINE, MAXVA, PGSIZE] at *
      omega
    refine access_refused fits (.inl above) fun user _ _ => ?_
    simp only [userPages, MAXVA] at *
    omega
  rw [if_neg high]
  obtain ⟨result, s₁, g₁, run, outcome⟩ := inv.userPage root guarded fits v
  rw [bind_ok run]
  rcases outcome with ⟨rfl, user, valid, open_, growth⟩ | ⟨rfl, growth, refused⟩
  · have root₁ := (growth.root space).trans root
    have seen := view_of_valid s₁.mem user valid
    rw [growth.view] at seen
    dsimp only
    rcases growth.inv.shape.look root₁ (by omega : 4096 * v < MAXVA) with
      ⟨walked, vacant⟩ | ⟨m, walked, node, leaf⟩
    · rw [page] at vacant
      rw [vacant, zero_invalid] at valid
      cases valid
    rw [page] at walked node leaf
    have entryValid : ((s₁.mem m).entry (v % 512)).has PTE_V = true := by
      rw [← Pte.has_mapped, ← leaf, valid]
    rw [Pte.mapped_of_valid entryValid] at leaf
    rw [bind_ok walked]
    dsimp only
    rw [bind_ok (readEntry_run s₁ m _), ← leaf]
    by_cases writable : (g₁.leaf space v).has PTE_W = true
    · rw [if_pos writable]
      exact ⟨_, s₁, g₁, rfl, .inl ⟨rfl, ⟨user, valid, open_, writable⟩, growth⟩⟩
    · rw [if_neg writable]
      by_cases cowBit : (g₁.leaf space v).has PTE_C = true
      · rw [if_pos cowBit]
        obtain ⟨result, s₂, g₂, run₂, growth₂, outcome₂⟩ :=
          growth.inv.cowBreak node user valid cowBit
        rw [growth.view] at growth₂
        refine ⟨result, s₂, g₂, run₂, ?_⟩
        rcases outcome₂ with ⟨rfl, out⟩ | ⟨n, rfl, small, newLeaf⟩
        · exact .inr ⟨rfl, _, growth.trans growth₂, .faultIn _ space sz _, .inl out⟩
        · refine .inl ⟨?_, ⟨user, ?_⟩, growth.trans growth₂⟩
          · rw [newLeaf, setAt_same, Pte.ppn_or small (brokenFlags_low _)]
          · rw [newLeaf, setAt_same, has_broken_valid, has_broken_user]
            exact ⟨valid, open_, has_broken_write _ _⟩
      · rw [if_neg cowBit]
        have readonly := faultIn_readonly (4096 * v) (by rw [page]; exact seen)
          (by simp [View.of, writable, cowBit])
        rw [readonly.1] at growth
        exact ⟨none, s₁, g₁, rfl, .inr ⟨rfl, _, growth, .refl _ space sz,
          .inr ⟨rfl, readonly.2⟩⟩⟩
  · refine ⟨none, s₁, g₁, rfl, .inr ⟨rfl, _, growth, .refl _ space sz, ?_⟩⟩
    rcases refused with out | refused
    · exact .inl out
    · exact .inr ⟨rfl, Row.access_stricter (fun page => by simp; tauto) refused⟩

-- The copy loops

/-- `copyout`: pages appear only where the process may have them; without sharing the caller's
memory changes as private memory would.
-/
theorem copyout (dstva : Nat) (src : List (BitVec 8))
    : ∃ ok s' g' views,
        Vm.copyout layout sz (4096 * r) (4096 * r) dstva src s = .ok (ok, s')
        ∧ Growth layout s g s' g' views ∧ Within views (g.view s.mem) space sz
        ∧ (s'.exhausted = true
          ∨ (Sharing (fun _ => False) g
            → ok = ((g.view s.mem space).copyout sz dstva src).1
              ∧ views = update (g.view s.mem) space
                  ((g.view s.mem space).copyout sz dstva src).2)) := by
  induction length : src.length using Nat.strong_induction_on generalizing s g dstva src with
  | _ total ih =>
  rw [Vm.copyout]
  by_cases empty : src = []
  · rw [dif_pos empty]
    refine ⟨true, s, g, _, rfl, .refl inv, .refl _ space sz, .inr fun _ => ?_⟩
    rw [empty, Row.copyout_nil, update_eq_self]
    exact ⟨rfl, rfl⟩
  have page : 4096 * (dstva / 4096) / 4096 = dstva / 4096 := by omega
  have left : (src.drop (min (4096 - dstva % 4096) src.length)).length < total := by
    have some : 0 < src.length := List.length_pos_iff.mpr empty
    simp only [List.length_drop]
    omega
  rw [dif_neg empty, PGROUNDDOWN_eq]
  obtain ⟨result, s₁, g₁, run, outcome⟩ := inv.copyoutPage root guarded fits (dstva / 4096)
  rw [bind_ok run]
  rcases outcome with ⟨rfl, opened, growth⟩ | ⟨rfl, views, growth, within, refused⟩
  · have data := growth.inv.leaf_data opened.1 opened.2.1
    have stored := growth.inv.storeAt_growth data (dstva % 4096)
      (src.take (min (4096 - dstva % 4096) src.length))
    have growth₂ := growth.trans stored
    obtain ⟨ok, s₃, g₃, views, run₃, growth₃, within₃, exact₃⟩ := ih _ left stored.inv
      ((growth.root space).trans root) (guarded_growth growth guarded)
      (4096 * (dstva / 4096) + 4096) _ rfl
    dsimp only
    rw [bind_ok (storeBytes_run s₁ _ _ _), run₃]
    refine ⟨ok, s₃, g₃, views, rfl, growth₂.trans growth₃, ?_, ?_⟩
    · refine within₃.trans (Within.trans (.contents g₁ s₁.mem _ space sz) ?_)
      rw [growth.view]
      exact .faultIn _ space sz _
    · rcases exact₃ with out | exact₃
      · exact .inl out
      · refine .inr fun sharing => ?_
        have sharing₁ := growth.sharing sharing
        obtain ⟨seen, allowed, put⟩ := put_view growth (by rwa [page])
          (by rw [page]
              exact fun space' v' maps => sharing₁.sole ⟨opened.1, opened.2.1, rfl⟩
                opened.2.2.2 (fun no => no) maps)
          (dstva % 4096) (src.take (min (4096 - dstva % 4096) src.length))
        rw [page] at put
        obtain ⟨same, final⟩ := exact₃ sharing₁
        rw [put, update_self] at same final
        rw [update_idem] at final
        rw [Row.copyout_page empty allowed]
        exact ⟨same, final⟩
  · refine ⟨false, s₁, g₁, views, rfl, growth, within, ?_⟩
    rcases refused with out | ⟨same, refused⟩
    · exact .inl out
    · refine .inr fun _ => ?_
      rw [Row.copyout_refused empty refused, update_eq_self]
      exact ⟨rfl, same⟩

/-- `copyin` reads what private memory would give, and pages appear only where the process
may have them.
-/
theorem copyin (srcva len : Nat)
    : ∃ result s' g' views,
        Vm.copyin layout sz (4096 * r) (4096 * r) srcva len s = .ok (result, s')
        ∧ Growth layout s g s' g' views ∧ Within views (g.view s.mem) space sz
        ∧ (s'.exhausted = true
          ∨ (result = ((g.view s.mem space).copyin sz srcva len).1
            ∧ views = update (g.view s.mem) space
                ((g.view s.mem space).copyin sz srcva len).2)) := by
  induction len using Nat.strong_induction_on generalizing s g srcva with
  | _ len ih =>
  rw [Vm.copyin]
  by_cases empty : len = 0
  · rw [if_pos empty]
    refine ⟨_, s, g, _, rfl, .refl inv, .refl _ space sz, .inr ?_⟩
    rw [empty, Row.copyin_zero, update_eq_self]
    exact ⟨rfl, rfl⟩
  have page : 4096 * (srcva / 4096) / 4096 = srcva / 4096 := by omega
  have left : len - min (4096 - srcva % 4096) len < len := by omega
  rw [if_neg empty, PGROUNDDOWN_eq]
  obtain ⟨result, s₁, g₁, run, outcome⟩ := inv.userPage root guarded fits (srcva / 4096)
  rw [bind_ok run]
  rcases outcome with ⟨rfl, user, valid, open_, growth⟩ | ⟨rfl, growth, refused⟩
  · obtain ⟨result, s₃, g₃, views, run₃, growth₃, within₃, exact₃⟩ := ih _ left growth.inv
      ((growth.root space).trans root) (guarded_growth growth guarded)
      (4096 * (srcva / 4096) + 4096)
    dsimp only
    rw [bind_ok (loadBytes_run s₁ _ _ _), bind_ok run₃]
    refine ⟨_, s₃, g₃, views, rfl, growth.trans growth₃, ?_, ?_⟩
    · refine within₃.trans ?_
      rw [growth.view]
      exact .faultIn _ space sz _
    · rcases exact₃ with out | ⟨same, final⟩
      · exact .inl out
      · right
        have seen := view_of_valid s₁.mem user valid
        rw [growth.view, faultIn, update_self] at seen
        have allowed : (g.view s.mem space).access sz (4096 * (srcva / 4096)) View.user
            = some (.of (s₁.mem (g₁.leaf space (srcva / 4096)).ppn)
                (g₁.leaf space (srcva / 4096))) := by
          rw [Row.access, page, seen]
          simp [Option.filter, View.of, open_]
        rw [growth.view, faultIn, update_self] at same final
        rw [update_idem] at final
        rw [Row.copyin_page empty allowed]
        refine ⟨?_, final⟩
        rw [same]
        rfl
  · refine ⟨_, s₁, g₁, _, rfl, growth, .refl _ space sz, ?_⟩
    rcases refused with out | refused
    · exact .inl out
    · right
      rw [Row.copyin_refused empty refused, update_eq_self]
      exact ⟨rfl, rfl⟩

end

end Inv

end Xv6.Vm

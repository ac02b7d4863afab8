import Xv6.Vm.AccessSpec

/-! Copying an address space: `uvmcopy` gives the child a mapping of every page of the parent.
Both see the same contents, and writable pages become copy-on-write unless they are shared.
-/

namespace Xv6.Vm

open Function Library

variable {ι : Type} {layout : Layout} {s : Phys} {g : Ghost ι} {pte : Pte} {first last : Nat}

-- Flags of the copies

theorem copyFlags_low (shared : Bool) (pte : Pte) : (copyFlags shared pte).toNat < 1024 := by
  unfold copyFlags
  split_ifs
  · exact or_low (and_low (flags_low pte)) (by decide)
  · exact flags_low pte

theorem has_copyFlags {shared : Bool} {flag : Pte} (inFlags : 0x3FF &&& flag = flag)
    (notWrite : ~~~PTE_W &&& flag = flag) (notCow : PTE_C.has flag = false)
    : (copyFlags shared pte).has flag = pte.has flag := by
  unfold copyFlags
  split_ifs
  · rw [Pte.has_or, Pte.has_and, notWrite, Pte.has_flags pte inFlags, notCow, Bool.or_false]
  · exact Pte.has_flags pte inFlags

theorem copyFlags_valid (shared : Bool) (pte : Pte)
    : (copyFlags shared pte).has PTE_V = pte.has PTE_V :=
  has_copyFlags (by decide) (by decide) (by decide)

theorem copyFlags_marked (writable : pte.has PTE_W = true)
    : (copyFlags false pte).has PTE_W = false ∧ (copyFlags false pte).has PTE_C = true := by
  have cleared : (~~~PTE_W &&& PTE_W : Pte) = 0 := by decide
  have marks : ((PTE_FLAGS pte).has PTE_W && !false) = true := by
    rw [Pte.has_flags pte (by decide), writable]
    rfl
  rw [copyFlags, if_pos marks, Pte.has_or, Pte.has_or, Pte.has_and, cleared, Pte.has_zero]
  refine ⟨by decide, ?_⟩
  rw [(by decide : PTE_C.has PTE_C = true), Bool.or_true]

theorem View.of_flags (content : Page) (pte : Pte)
    : View.of content (PTE_FLAGS pte) = View.of content pte := by
  simp only [View.of, Pte.has_flags pte (by decide : 0x3FF &&& PTE_R = PTE_R),
    Pte.has_flags pte (by decide : 0x3FF &&& PTE_W = PTE_W),
    Pte.has_flags pte (by decide : 0x3FF &&& PTE_C = PTE_C),
    Pte.has_flags pte (by decide : 0x3FF &&& PTE_X = PTE_X),
    Pte.has_flags pte (by decide : 0x3FF &&& PTE_U = PTE_U)]

theorem View.of_marked (content : Page) (writable : pte.has PTE_W = true)
    : View.of content (copyFlags false pte) = View.of content pte := by
  have read : (copyFlags false pte).has PTE_R = pte.has PTE_R :=
    has_copyFlags (by decide) (by decide) (by decide)
  have exec : (copyFlags false pte).has PTE_X = pte.has PTE_X :=
    has_copyFlags (by decide) (by decide) (by decide)
  have user : (copyFlags false pte).has PTE_U = pte.has PTE_U :=
    has_copyFlags (by decide) (by decide) (by decide)
  obtain ⟨noWrite, cowBit⟩ := copyFlags_marked writable
  simp only [View.of, read, exec, user, cowBit, writable, Bool.or_true, Bool.true_or]

-- The sharing discipline

/-- The table of shared pages says of the parent's pages what the discipline says. -/
structure ForkFits (registered : Nat → Bool) (shared : Nat → Prop) (g : Ghost ι) (old : ι)
    : Prop where
  only : ∀ v n, g.Maps old v n → registered (4096 * n) = true → shared n
  all : ∀ v n, g.Maps old v n → shared n → registered (4096 * n) = true

variable [Fintype ι]

/-- A step of copying the space `old`: it keeps the discipline when the table fits it. -/
structure Copying (registered : Nat → Bool) (old : ι) (layout : Layout) (s : Phys)
    (g : Ghost ι) (s' : Phys) (g' : Ghost ι) (views : ι → Row) : Prop
    extends Change layout s g s' g' views where
  parent : ∀ v n, g'.Maps old v n → g.Maps old v n
  sharing : ∀ shared, ForkFits registered shared g old → Sharing shared g → Sharing shared g'

namespace Copying

variable {registered : Nat → Bool} {old : ι}

theorem fits {s' : Phys} {g' : Ghost ι} {views : ι → Row}
    (copying : Copying registered old layout s g s' g' views) {shared : Nat → Prop}
    (before : ForkFits registered shared g old)
    : ForkFits registered shared g' old :=
  ⟨fun v n maps => before.only v n (copying.parent v n maps),
    fun v n maps => before.all v n (copying.parent v n maps)⟩

theorem refl (inv : Inv layout s g) : Copying registered old layout s g s g (g.view s.mem) :=
  ⟨(Growth.refl inv).toChange, fun _ _ maps => maps, fun _ _ sharing => sharing⟩

theorem trans {s₁ s₂ : Phys} {g₁ g₂ : Ghost ι} {views₁ views₂ : ι → Row}
    (first : Copying registered old layout s g s₁ g₁ views₁)
    (second : Copying registered old layout s₁ g₁ s₂ g₂ views₂)
    : Copying registered old layout s g s₂ g₂ views₂ where
  toChange := first.toChange.trans second.toChange
  parent v n maps := first.parent v n (second.parent v n maps)
  sharing shared fits sharing :=
    second.sharing shared (first.fits fits) (first.sharing shared fits sharing)

theorem nodes {s' : Phys} {g' : Ghost ι} (inv : Inv layout s g) (inv' : Inv layout s' g')
    (nodes : Nodes s g s' g')
    : Copying registered old layout s g s' g' (g.view s.mem) where
  toChange := (nodes.growth inv inv').toChange
  parent _ _ maps := maps.congr nodes.leaf
  sharing _ _ sharing := (nodes.growth inv inv').sharing sharing

end Copying

variable [DecidableEq ι]

-- One page

/-- The flags give the child the rights of an entry that needs no mark. -/
structure Copies (registered : Nat → Bool) (pte flags : Pte) : Prop where
  valid : pte.has PTE_V = true
  low : flags.toNat < 1024
  view : ∀ content, View.of content flags = View.of content pte
  write : flags.has PTE_W = pte.has PTE_W
  cowBit : flags.has PTE_C = pte.has PTE_C
  unmarked : pte.has PTE_W = true → registered (4096 * pte.ppn) = true

namespace Inv

variable {registered : Nat → Bool} {old new : ι} {v : Nat}

/-- The first half of an iteration of `uvmcopy`: a writable page becomes copy-on-write. -/
theorem copyMark (inv : Inv layout s g) {m : Nat} (user : v < userPages)
    (node : g.table (.low old (v / 512)) = some m) (valid : (g.leaf old v).has PTE_V = true)
    (writable : (g.leaf old v).has PTE_W = true)
    (private_ : registered (4096 * (g.leaf old v).ppn) = false)
    : Copying registered old layout s g
        (s.setEntry m (v % 512) (PA2PTE (4096 * (g.leaf old v).ppn)
          ||| copyFlags false (g.leaf old v)))
        { g with
          leaf := setAt g.leaf old v (PA2PTE (4096 * (g.leaf old v).ppn)
            ||| copyFlags false (g.leaf old v)) }
        (g.view s.mem) := by
  have ppn := Pte.ppn_or (inv.leaf_small user valid) (copyFlags_low false (g.leaf old v))
  have markedValid : (PA2PTE (4096 * (g.leaf old v).ppn)
      ||| copyFlags false (g.leaf old v)).has PTE_V = true := by
    rw [Pte.has_or, copyFlags_valid, valid, Bool.or_true]
  have change := inv.reflag user node valid markedValid ppn
  rw [View.of_entry, View.of_marked _ writable, ppn, ← view_of_valid s.mem user valid, setAt_self]
    at change
  refine ⟨change, fun v' n maps => ?_, fun shared fits sharing => ⟨?_, sharing.data⟩⟩
  · by_cases here : v' = v
    · subst here
      obtain ⟨_, _, page⟩ := maps
      simp only [setAt_same, ppn] at page
      exact ⟨user, valid, page⟩
    · simpa [Ghost.Maps, setAt_other _ _ fun same : old = old ∧ v' = v => here same.2]
        using maps
  · have notShared : ¬shared (g.leaf old v).ppn := by
      intro isShared
      rw [fits.all v _ ⟨user, valid, rfl⟩ isShared] at private_
      cases private_
    refine sharing.toCow.set rfl (fun isShared => ?_) fun _ space' v' apart maps => ?_
    · rw [ppn] at isShared
      exact (notShared isShared).elim
    · rw [ppn] at maps
      exact (apart (sharing.sole ⟨user, valid, rfl⟩ writable notShared maps)).elim

/-- The second half of an iteration of `uvmcopy`: the child maps the page too. -/
theorem copyShare (inv : Inv layout s g) {m : Nat} {flags : Pte}
    (distinct : old ≠ new) (user : v < userPages)
    (node : g.table (.low new (v / 512)) = some m) (vacant : g.leaf new v = 0)
    (copies : Copies registered (g.leaf old v) flags)
    : ∃ s' g',
      Vm.incref (4096 * (g.leaf old v).ppn)
          (s.setEntry m (v % 512) (PA2PTE (4096 * (g.leaf old v).ppn) ||| flags ||| PTE_V))
        = .ok ((), s')
      ∧ Copying registered old layout s g s' g'
          (setAt (g.view s.mem) new v (g.view s.mem old v)) := by
  obtain ⟨valid, low, view, write, cowBit, unmarked⟩ := copies
  generalize page : (g.leaf old v).ppn = n at *
  have maps : g.Maps old v n := ⟨user, valid, page⟩
  have data := inv.leaf_data user valid
  rw [page] at data
  have small : n < 2 ^ 44 := inv.accounts.small (by simp [data])
  have ppn := mappedEntry_ppn small low
  have newValid := mappedEntry_valid (4096 * n) flags
  have newFlag {flag : Pte} (isFlag : flag.toNat < 1024) (notValid : PTE_V.has flag = false)
      : (PA2PTE (4096 * n) ||| flags ||| PTE_V).has flag = flags.has flag := by
    rw [Pte.has_or, Pte.has_or, Pte.has_PA2PTE _ isFlag, notValid, Bool.false_or, Bool.or_false]
  have newWrite := @newFlag PTE_W (by decide) (by decide)
  have newCow := @newFlag PTE_C (by decide) (by decide)
  have inv' := (inv.incref data).setLeaf user node (PA2PTE (4096 * n) ||| flags ||| PTE_V)
    g.held fun k => by
      rw [refersTo_valid newValid, ppn, vacant, refersTo_invalid zero_invalid]
      by_cases same : k = n
      · simp [same]
      · simp [same]
  rw [Pte.mapped_of_valid newValid] at inv'
  have kept {k : Nat} (isData : g.owner k = .data)
      : (s.setEntry m (v % 512) (PA2PTE (4096 * n) ||| flags ||| PTE_V)).mem k = s.mem k := by
    simp [Phys.setEntry, inv.data_not_table isData node]
  refine ⟨_, { g with leaf := setAt g.leaf new v (PA2PTE (4096 * n) ||| flags ||| PTE_V) },
    ?_, ⟨⟨inv', rfl, fun _ => rfl, ?_, ?_, id, fun {_ _ k} maps' _ => ?_⟩, ?_,
    fun shared fits sharing =>
      ⟨sharing.toCow.set rfl ?_ ?_, sharing.data⟩⟩⟩
  · simp [Vm.incref, Phys.setRef, Phys.ref, Phys.setEntry]
  · exact fun space' v' above => setAt_other _ _ fun same => by omega
  · rw [inv.view_setAt inv' (fun k isData _ => kept isData) user rfl, Pte.view,
      if_pos newValid, ppn, View.of_mapped, view, view_of_valid s.mem user valid, page]
    exact congrArg (fun content => setAt (g.view s.mem) new v (some (View.of content _)))
      (kept data)
  · by_cases same : k = n
    · exact ⟨old, v, same ▸ maps⟩
    · exact maps_of_setAt rfl maps' (by rwa [ppn])
  · intro v' k maps'
    simpa [Ghost.Maps, setAt_other _ _ fun same : old = new ∧ v' = v => distinct same.1]
      using maps'
  · intro isShared
    rw [ppn] at isShared
    rw [newWrite, newCow, write, cowBit]
    exact sharing.write maps isShared
  · intro notShared space' v' _ maps'
    rw [ppn] at notShared maps'
    have readOnly : (g.leaf old v).has PTE_W = false := by
      by_contra writable
      exact notShared (fits.only v n maps (unmarked (by simpa using writable)))
    refine ⟨by rw [newWrite, write, readOnly], ?_⟩
    by_contra writable
    obtain ⟨rfl, rfl⟩ := sharing.sole maps' (by simpa using writable) notShared maps
    exact writable readOnly

/-- The call of `mappages` in `uvmcopy` and the reference that goes with it. -/
theorem copyChild (inv : Inv layout s g) {r : Nat}
    (registered : Nat → Bool) (flags : Pte) (distinct : old ≠ new)
    (root : g.table (.root new) = some r) (user : v < userPages) (vacant : g.leaf new v = 0)
    (copies : Copies registered (g.leaf old v) flags)
    : ∃ ok s' g',
      (do
        if ← mappages (4096 * r) (4096 * v) 4096 (4096 * (g.leaf old v).ppn) flags then
          Vm.incref (4096 * (g.leaf old v).ppn)
          return true
        else
          return false : Kernel Bool) s = .ok (ok, s')
      ∧ ((ok = true ∧ Copying registered old layout s g s' g'
            (setAt (g.view s.mem) new v (g.view s.mem old v)))
        ∨ (ok = false ∧ s'.exhausted = true
          ∧ Copying registered old layout s g s' g' (g.view s.mem))) := by
  have page : 4096 * v / 4096 = v := by omega
  rcases inv.mappages_vacant root (user_address (by rw [page]; exact user)) (by omega)
    (by rw [page]; exact vacant) (4096 * (g.leaf old v).ppn) flags with
    ⟨s₁, g₁, run, inv₁, nodes, out, _⟩ | ⟨s₁, g₁, m, inv₁, nodes, node, _, run⟩
  · rw [bind_ok run]
    exact ⟨false, s₁, g₁, rfl, .inr ⟨rfl, out, .nodes inv inv₁ nodes⟩⟩
  · rw [page] at node run
    have added : Copying registered old layout s g s₁ g₁ (g.view s.mem) :=
      .nodes inv inv₁ nodes
    rw [← nodes.leaf] at vacant copies run ⊢
    obtain ⟨s₂, g₂, run₂, copying⟩ := inv₁.copyShare distinct user node vacant copies
    rw [added.view] at copying
    rw [bind_ok run, if_pos rfl, bind_ok run₂]
    exact ⟨true, s₂, g₂, rfl, .inl ⟨rfl, added.trans copying⟩⟩

/-- One iteration of `uvmcopy`. -/
theorem copyOne (inv : Inv layout s g) {rOld rNew : Nat} (registered : Nat → Bool)
    (distinct : old ≠ new) (rootOld : g.table (.root old) = some rOld)
    (rootNew : g.table (.root new) = some rNew) (user : v < userPages) (vacant : g.leaf new v = 0)
    : ∃ ok s' g', Vm.copyOne registered (4096 * rOld) (4096 * rNew) (4096 * v) s = .ok (ok, s')
      ∧ ((ok = true ∧ Copying registered old layout s g s' g'
            (setAt (g.view s.mem) new v (g.view s.mem old v)))
        ∨ (ok = false ∧ s'.exhausted = true
          ∧ Copying registered old layout s g s' g' (g.view s.mem))) := by
  have page : 4096 * v / 4096 = v := by omega
  have skip (unmapped : g.leaf old v = 0)
      : setAt (g.view s.mem) new v (g.view s.mem old v) = g.view s.mem := by
    rw [vacant_view s.mem unmapped, ← vacant_view s.mem vacant, setAt_self]
  unfold Vm.copyOne
  rcases inv.shape.look rootOld (user_address (by rw [page]; exact user)) with
    ⟨walked, leaf⟩ | ⟨m, walked, node, leaf⟩
  · rw [page] at leaf
    rw [bind_ok walked]
    exact ⟨true, s, g, rfl, .inl ⟨rfl, by rw [skip leaf]; exact .refl inv⟩⟩
  rw [page] at walked node leaf
  rw [bind_ok walked]
  dsimp only
  rw [bind_ok (readEntry_run s m _)]
  by_cases valid : ((s.mem m).entry (v % 512)).has PTE_V = true
  · rw [Pte.mapped_of_valid valid] at leaf
    rw [← leaf] at valid ⊢
    have small := inv.leaf_small user valid
    simp only [valid, Bool.not_true, Bool.false_eq_true, if_false, PTE2PA_eq small,
      Pte.has_flags (g.leaf old v) (by decide : 0x3FF &&& PTE_W = PTE_W)]
    by_cases marks : ((g.leaf old v).has PTE_W
        && !registered (4096 * (g.leaf old v).ppn)) = true
    · have writable : (g.leaf old v).has PTE_W = true := by simp_all
      have private_ : registered (4096 * (g.leaf old v).ppn) = false := by simp_all
      have marked := inv.copyMark user node valid writable private_
      have ppn := Pte.ppn_or small (copyFlags_low false (g.leaf old v))
      obtain ⟨noWrite, cowBit⟩ := copyFlags_marked writable
      have entry {flag : Pte} (low : flag.toNat < 1024)
          : (PA2PTE (4096 * (g.leaf old v).ppn) ||| copyFlags false (g.leaf old v)).has flag
            = (copyFlags false (g.leaf old v)).has flag := by
        rw [Pte.has_or, Pte.has_PA2PTE _ low, Bool.false_or]
      rw [if_pos marks, bind_ok (writeEntry_run s m _ _), private_]
      obtain ⟨ok, s', g', run, outcome⟩ := marked.inv.copyChild registered
        (copyFlags false (g.leaf old v)) distinct rootNew user
        (by simp [setAt_other _ _ fun same : new = old ∧ v = v => distinct same.1.symm, vacant])
        ⟨by simp [entry (by decide : PTE_V.toNat < 1024), copyFlags_valid, valid],
          copyFlags_low _ _, by simp [View.of_entry],
          by simp [entry (by decide : PTE_W.toNat < 1024)],
          by simp [entry (by decide : PTE_C.toNat < 1024)],
          by simp [entry (by decide : PTE_W.toNat < 1024), noWrite]⟩
      simp only [setAt_same, ppn] at run
      rw [marked.view] at outcome
      refine ⟨ok, s', g', run, outcome.imp ?_ ?_⟩
      · rintro ⟨done, copying⟩
        exact ⟨done, marked.trans copying⟩
      · rintro ⟨failed, out, copying⟩
        exact ⟨failed, out, marked.trans copying⟩
    · have same : copyFlags (registered (4096 * (g.leaf old v).ppn)) (g.leaf old v)
          = PTE_FLAGS (g.leaf old v) := by
        rw [copyFlags, Pte.has_flags _ (by decide), if_neg marks]
      rw [if_neg marks, same]
      exact inv.copyChild registered (PTE_FLAGS (g.leaf old v)) distinct rootNew user vacant
        ⟨valid, flags_low _, (View.of_flags · _), Pte.has_flags _ (by decide),
          Pte.has_flags _ (by decide), by simpa using marks⟩
  · have invalid : ((s.mem m).entry (v % 512)).has PTE_V = false := by simpa using valid
    rw [Pte.mapped_of_invalid invalid] at leaf
    simp only [invalid, Bool.not_false, if_true]
    exact ⟨true, s, g, rfl, .inl ⟨rfl, by rw [skip leaf]; exact .refl inv⟩⟩

end Inv

-- All pages

/-- The views with a range of `old` copied to `new`. -/
def copied (views : ι → Row) (old new : ι) (first last : Nat) : ι → Row := fun space v =>
  if space = new ∧ first ≤ v ∧ v < last then views old v else views space v

omit [Fintype ι] in
theorem copied_empty (views : ι → Row) (old new : ι) (empty : last ≤ first)
    : copied views old new first last = views := by
  funext space v
  rw [copied, if_neg fun inside => by omega]

omit [Fintype ι] in
/-- Copying the first page of a range, then the rest. -/
theorem copied_step (views : ι → Row) {old new : ι} (distinct : old ≠ new) (some : first < last)
    : copied (setAt views new first (views old first)) old new (first + 1) last
      = copied views old new first last := by
  funext space v
  simp only [copied, setAt_eq, distinct, false_and, if_false]
  by_cases row : space = new
  · simp only [row, true_and]
    by_cases here : v = first
    · rw [if_neg (by omega), if_pos here, if_pos (by omega), here]
    · by_cases inside : first + 1 ≤ v ∧ v < last
      · rw [if_pos inside, if_pos (by omega)]
      · rw [if_neg inside, if_neg here, if_neg (by omega)]
  · simp [row]

namespace Inv

variable {old new : ι} {rOld rNew : Nat}

section

variable (inv : Inv layout s g) (registered : Nat → Bool) (distinct : old ≠ new)
  (rootOld : g.table (.root old) = some rOld) (rootNew : g.table (.root new) = some rNew)
include inv distinct rootOld rootNew

/-- The loop of `uvmcopy` copies its range, or takes back what it has copied. -/
theorem uvmcopyLoop {a pages : Nat} (user : a + pages ≤ userPages)
    (vacant : ∀ v, a ≤ v → v < a + pages → g.view s.mem new v = none)
    : ∃ ok s' g',
      Vm.uvmcopyLoop layout registered (4096 * rOld) (4096 * rNew) (4096 * a) pages s
        = .ok (ok, s')
      ∧ ((ok = true
          ∧ Copying registered old layout s g s' g'
              (copied (g.view s.mem) old new a (a + pages)))
        ∨ (ok = false ∧ s'.exhausted = true
          ∧ Change layout s g s' g' (without (g.view s.mem) new 0 a)
          ∧ ∀ shared, ForkFits registered shared g old → Sharing shared g
            → Cow shared g')) := by
  induction pages generalizing s g a with
  | zero =>
    refine ⟨true, s, g, rfl, .inl ⟨rfl, ?_⟩⟩
    rw [copied_empty _ old new (by omega)]
    exact .refl inv
  | succ pages ih =>
    obtain ⟨ok, s₁, g₁, run, outcome⟩ := inv.copyOne registered distinct rootOld rootNew
      (by omega : a < userPages)
      (inv.vacant_of_view (by omega) (vacant a (by omega) (by omega)))
    unfold Vm.uvmcopyLoop
    rw [bind_ok run]
    rcases outcome with ⟨rfl, copying⟩ | ⟨rfl, out, copying⟩
    · obtain ⟨ok, s₂, g₂, run₂, outcome₂⟩ := ih copying.inv
        ((copying.root old).trans rootOld) ((copying.root new).trans rootNew)
        (by omega : a + 1 + pages ≤ userPages) (fun v above below => by
          rw [copying.view, setAt_other _ _ fun same => by omega]
          exact vacant v (by omega) (by omega))
      refine ⟨ok, s₂, g₂, run₂, ?_⟩
      rcases outcome₂ with ⟨rfl, rest⟩ | ⟨rfl, out, change, cow⟩
      · have last : a + (pages + 1) = a + 1 + pages := by omega
        rw [copying.view, copied_step _ distinct (by omega)] at rest
        exact .inl ⟨rfl, last ▸ copying.trans rest⟩
      · rw [copying.view, without_step _ new (Nat.zero_le a)
          (vacant a (by omega) (by omega))] at change
        exact .inr ⟨rfl, out, copying.toChange.trans change, fun shared fits sharing =>
          cow shared (copying.fits fits) (copying.sharing shared fits sharing)⟩
    · have pageOf : 4096 * a / 4096 = a - 0 := by omega
      obtain ⟨s₂, g₂, run₂, shrinking, out₂, _⟩ := copying.inv.uvmunmap
        ((copying.root new).trans rootNew) (Nat.zero_le a) (by omega : a ≤ userPages)
      rw [if_neg (by simp), pageOf, bind_ok run₂]
      rw [copying.view] at shrinking
      exact ⟨false, s₂, g₂, rfl, .inr ⟨rfl, out₂.trans out,
        copying.toChange.trans shrinking.toChange, fun shared fits sharing =>
          shrinking.cow shared (copying.sharing shared fits sharing)⟩⟩

/-- `uvmcopy` gives the child the parent's view, or fails and leaves every view as it was. -/
theorem uvmcopy {sz : Nat} (fits : sz ≤ TRAPFRAME)
    (top : ∀ v, pageCount sz ≤ v → g.view s.mem old v = none)
    (vacant : ∀ v, g.view s.mem new v = none)
    : ∃ ok s' g', Vm.uvmcopy layout registered (4096 * rOld) (4096 * rNew) sz s = .ok (ok, s')
      ∧ ((ok = true
          ∧ Copying registered old layout s g s' g'
              (update (g.view s.mem) new (g.view s.mem old)))
        ∨ (ok = false ∧ s'.exhausted = true
          ∧ Change layout s g s' g' (g.view s.mem)
          ∧ ∀ shared, ForkFits registered shared g old → Sharing shared g
            → Cow shared g')) := by
  have row : copied (g.view s.mem) old new 0 (0 + pageCount sz)
      = update (g.view s.mem) new (g.view s.mem old) := by
    funext space v
    by_cases isNew : space = new
    · subst isNew
      by_cases below : v < pageCount sz
      · rw [copied, if_pos ⟨rfl, by omega, by omega⟩, update_self]
      · rw [copied, if_neg (by omega), update_self, top v (by omega), vacant v]
    · rw [copied, if_neg fun inside => isNew inside.1, update_of_ne isNew]
  have bound := pageCount_user fits
  obtain ⟨ok, s', g', run, outcome⟩ := inv.uvmcopyLoop (a := 0) registered distinct rootOld
    rootNew (by omega : 0 + pageCount sz ≤ userPages) fun v _ _ => vacant v
  rw [row, without_empty _ new (Nat.le_refl 0)] at outcome
  exact ⟨ok, s', g', run, outcome⟩

end

end Inv

end Xv6.Vm

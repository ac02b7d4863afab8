import Xv6.Vm.CowRefinement
import Xv6.Vm.ImageSpec

/-! Images that are given up, and images that take the place of old ones. Giving up a new image
leaves the machine as it was; putting it in place takes the references of the old image away and
leaves everybody else's.
-/

namespace Xv6.Vm

open Function Library
open Process (Slot)

variable {layout : Layout} {m : Machine} {g : Ghost Slot} {loose : Nat → Nat} {u : Ghost Unit}
  {s s' : Phys} {r sz : Nat} {p : Slot}
variable {n : Nat} {ι : Type}

/-- The address of a page of `[end, PHYSTOP)`. -/
def IsPage (layout : Layout) (pa : Nat) : Prop :=
  pa % 4096 = 0 ∧ layout.kernelEnd ≤ pa ∧ pa < PHYSTOP

theorem IsPage.number {pa : Nat} (isPage : IsPage layout pa)
    : ∃ n, pa = 4096 * n ∧ InRam layout n := by
  obtain ⟨aligned, above, below⟩ := isPage
  have page : pa = 4096 * (pa / 4096) := by omega
  exact ⟨pa / 4096, page, page ▸ above, page ▸ below⟩

-- An image that is given up

/-- The two machines differ in the order of the free list and the contents of free pages only. -/
structure SameUse (layout : Layout) (m m' : Machine) : Prop where
  proc : m'.proc = m.proc
  shm : m'.shm = m.shm
  held : m'.held = m.held
  free : m'.phys.freelist.Perm m.phys.freelist
  refs : ∀ pa, IsPage layout pa → m'.phys.ref pa = m.phys.ref pa
  contents : ∀ pa, IsPage layout pa → pa ∉ m.phys.freelist → m'.phys.page pa = m.phys.page pa

theorem SameUse.refl (layout : Layout) (m : Machine) : SameUse layout m m :=
  ⟨rfl, rfl, rfl, .refl _, fun _ _ => rfl, fun _ _ _ => rfl⟩

/-- A page of the RAM that is not free is in use. -/
theorem Inv.used_of_not_free (inv : Inv layout s g) (ram : InRam layout n)
    (taken : 4096 * n ∉ s.freelist)
    : 0 < g.sealed.held n := by
  obtain ⟨pages, list, _, free⟩ := inv.accounts.free
  refine (inv.sealed_held n).mpr ⟨(inv.accounts.ram n).mpr ram, fun isFree => taken ?_⟩
  rw [list]
  exact List.mem_map_of_mem ((free n).mpr isFree)

/-- Two free lists of the same pages are permutations of each other. -/
theorem FreeList.perm {owner : Nat → Owner ι} {list list' : List Nat} (free : FreeList list owner)
    (free' : FreeList list' owner)
    : list'.Perm list := by
  obtain ⟨pages, rfl, nodup, member⟩ := free
  obtain ⟨pages', rfl, nodup', member'⟩ := free'
  refine List.Perm.map _ ((List.perm_ext_iff_of_nodup nodup' nodup).mpr fun n => ?_)
  rw [member, member']

/-- The image that was begun next to the others is gone again. -/
theorem Custody.restored (custody : Custody layout m g loose) (inv' : Inv layout s' u)
    (beside : Beside g m.phys u s') (gone : u.table (.root ()) = none)
    : Custody layout { m with phys := s' } g loose ∧ SameUse layout m { m with phys := s' } := by
  have inv := custody.inv.restore inv' beside gone
  have seats (q : Slot) : Seat layout s'.mem g q (m.proc q) := by
    refine (custody.seats q).keep rfl (fun _ _ => rfl) fun v seen => ?_
    exact (Within.contents g m.phys.mem s'.mem q 0 q v seen).imp id fun below => by omega
  refine ⟨⟨inv, seats, custody.held, custody.frames, custody.distinct, custody.owned,
    custody.exclusive⟩, rfl, rfl, rfl, custody.inv.accounts.free.perm inv.accounts.free, ?_, ?_⟩
  · intro pa isPage
    obtain ⟨n, rfl, ram⟩ := isPage.number
    have inside := (inv.accounts.ram n).mpr ram
    simp only [Phys.ref, Nat.mul_div_cancel_left n (by decide : 0 < 4096)]
    rw [inv.accounts.refs n inside, custody.inv.accounts.refs n inside]
  · intro pa isPage taken
    obtain ⟨n, rfl, ram⟩ := isPage.number
    simp only [Phys.page, Nat.mul_div_cancel_left n (by decide : 0 < 4096)]
    exact beside.kept n (custody.inv.used_of_not_free ram taken)

-- An image that takes the place of the old one

/-- Process `p` has the page table of `u`, and the others keep theirs. -/
structure Installed (p : Slot) (u : Ghost Unit) (g g' : Ghost Slot) : Prop where
  table : ∀ l : Label Unit, g'.table (l.map fun _ => p) = u.table l
  leaf : g'.leaf p = u.leaf ()
  elsewhere : Elsewhere p g g'

/-- Process `p` is now called `none` and all others keep their names. -/
def newName (p q : Slot) : Option Slot := if q = p then none else some q

def oldName (p : Slot) : Option Slot → Option Slot
  | none => some p
  | some q => if q = p then none else some q

theorem newName_other {q : Slot} (other : q ≠ p) : newName p q = some q := if_neg other

theorem newName_self (p : Slot) : newName p p = none := if_pos rfl

theorem oldName_iff (p : Slot) (i : Option Slot) (k : Slot)
    : oldName p i = some k ↔ newName p k = i := by
  by_cases here : k = p
  · rw [here, newName_self]
    cases i with
    | none => simp [oldName]
    | some q => by_cases there : q = p <;> simp [oldName]
  · rw [newName_other here]
    cases i with
    | none => simp [oldName, Ne.symm here]
    | some q =>
      by_cases there : q = p
      · simp [oldName, there, here]
      · simp [oldName, there, eq_comm]

theorem view_congr (g : Ghost ι) {mem mem' : Nat → Page} {space : ι}
    (same : ∀ v n, g.Maps space v n → mem' n = mem n)
    : g.view mem' space = g.view mem space := by
  funext v
  simp only [Ghost.view, Pte.view]
  by_cases user : v < userPages
  · by_cases valid : (g.leaf space v).has PTE_V = true
    · rw [if_pos user, if_pos valid, if_pos user, if_pos valid, same v _ ⟨user, valid, rfl⟩]
    · rw [if_pos user, if_neg valid, if_pos user, if_neg valid]
  · rw [if_neg user, if_neg user]

section

variable (custody : Custody layout m g loose) (used : (m.proc p).status ≠ .unused)
  (image : Image layout g m.phys u s r sz)

include custody image

/-- No space, old or new, maps the trapframe of a process. -/
theorem Custody.frame_apart {t : Nat} (positive : 0 < t) (isFrame : (m.proc p).trapframe = 4096 * t)
    : ∀ i v, ¬(g.join u).Maps i v t := by
  intro i v maps
  have held := (custody.trapframe_held positive isFrame).2
  cases i with
  | none =>
    have unused := image.beside.apart v t maps
    have count : g.sealed.held t = g.count t + (g.owner t).token := rfl
    simp only [Ghost.count] at count
    omega
  | some q => exact (custody.exclusive p t positive isFrame).1 q v maps

/-- Building an image beside leaves the memory of every process as it was. -/
theorem Custody.beside_view (q : Slot) : g.view s.mem q = g.view m.phys.mem q := by
  refine view_congr g fun v n maps => image.beside.kept n ?_
  have data := custody.inv.leaf_data maps.1 maps.2.1
  rw [maps.2.2] at data
  exact (custody.inv.sealed_held n).mpr (by simp [data])

include used

/-- `proc_freepagetable` of the old image, after the trapframe has been written. -/
theorem Custody.replaced {t : Nat} (isFrame : (m.proc p).trapframe = 4096 * t) (page : Page)
    : ∃ s' g',
        Vm.procFreepagetable layout (m.proc p).pagetable (m.proc p).sz
            { s with mem := update s.mem t page }
          = .ok ((), s')
        ∧ Custody layout
            { m with
              phys := s'
              proc := update m.proc p { m.proc p with pagetable := 4096 * r, sz := sz } }
            g' loose
        ∧ s'.mem t = page ∧ Installed p u g g'
        ∧ g'.view s'.mem = update (g.view m.phys.mem) p (u.view s.mem ()) := by
  have space := (custody.seats p).space used
  obtain ⟨r₀, isRoot, root⟩ := space.root
  have positive : 0 < t := (Address.page (isFrame ▸ space.trapframe)).positive
  have held := (custody.trapframe_held positive isFrame).2
  have apart := custody.frame_apart image positive isFrame
  have joined := custody.inv.join image.inv image.beside
  have written := joined.writeData (n := t) (joined.held_data held) page
  have unseen (i : Option Slot)
      : (g.join u).view (update s.mem t page) i = (g.join u).view s.mem i := by
    refine view_congr _ fun v n maps => update_of_ne ?_ _ _
    rintro rfl
    exact apart i v maps
  have old (q : Slot) : (g.join u).view s.mem (some q) = g.view m.phys.mem q :=
    custody.beside_view image q
  obtain ⟨s', g₂, run, turnover, gone, _, kept, elsewhere⟩ := written.procFreepagetable
    (show (g.join u).table (.root (some p)) = some r₀ from root) space.fits
    (fun v above => by
      rw [unseen, old]
      exact space.top v above)
  have inv' := turnover.inv.rename (oldName_iff p) fun i none => by
    cases i with
    | none => cases none
    | some q =>
      by_cases here : q = p
      · rw [here]
        exact gone
      · rw [oldName, if_neg here] at none
        cases none
  have installed : Installed p u g (g₂.rename (newName p) (oldName p)) := by
    refine ⟨fun l => ?_, ?_, fun l other => ?_, fun q other => ?_⟩
    · simp only [Ghost.rename, Label.map_map, newName_self]
      rw [elsewhere.table _ (by simp), Ghost.join_table_new]
    · simp only [Ghost.rename, newName_self]
      exact elsewhere.leaf none (by simp)
    · have same : l.map (newName p) = l.map some := by
        cases l <;> simp only [Label.map, Label.space] at other ⊢ <;> rw [newName_other other]
      simp only [Ghost.rename, same]
      rw [elsewhere.table _ (by simpa using other), Ghost.join_table_old]
    · simp only [Ghost.rename, newName_other other]
      exact elsewhere.leaf (some q) (by simpa using other)
  have view : (g₂.rename (newName p) (oldName p)).view s'.mem
      = update (g.view m.phys.mem) p (u.view s.mem ()) := by
    funext q
    change g₂.view s'.mem (newName p q) = _
    rw [turnover.view]
    by_cases here : q = p
    · subst here
      rw [newName_self, update_of_ne (by simp), update_self, unseen]
      rfl
    · rw [newName_other here, update_of_ne (by simpa using here),
        update_of_ne here, unseen, old]
  have sameFrame (q : Slot)
      : (update m.proc p { m.proc p with pagetable := 4096 * r, sz := sz } q).trapframe
        = (m.proc q).trapframe := by
    by_cases here : q = p
    · rw [here, update_self]
    · rw [update_of_ne here]
  refine ⟨s', g₂.rename (newName p) (oldName p), isRoot ▸ run, ⟨inv', fun q => ?_, fun n ram => ?_,
    custody.frames, custody.distinct, custody.owned, fun q n here isFrame' => ?_⟩, ?_, installed,
    view⟩
  · dsimp only
    by_cases here : q = p
    · subst here
      rw [update_self]
      refine .inr ⟨used, ⟨r, rfl, (installed.table (.root ())).trans image.root⟩, space.trapframe,
        image.fits, fun v above => ?_, ?_, fun v above => ?_⟩
      · rw [view, update_self]
        exact image.top v above
      · rw [installed.leaf]
        exact image.mapped
      · rw [installed.leaf]
        exact image.guarded v above
    · rw [update_of_ne here]
      refine (custody.seats q).keep (installed.elsewhere.table (.root q) here)
        (fun v _ => by rw [installed.elsewhere.leaf q here]) fun v seen => .inl ?_
      rwa [view, update_of_ne here] at seen
  · have counted
        : countWhere (fun proc => proc.trapframe == 4096 * n)
            (update m.proc p { m.proc p with pagetable := 4096 * r, sz := sz })
          = countWhere (fun proc => proc.trapframe == 4096 * n) m.proc :=
      countWhere_congr fun q => by rw [sameFrame]
    have before := custody.held n ram
    simp only [Machine.tokens] at before ⊢
    rw [counted]
    exact (congrFun turnover.held n).trans before
  · rw [sameFrame] at isFrame'
    obtain ⟨alone, unregistered⟩ := custody.exclusive q n here isFrame'
    have outside := custody.frame_apart image here isFrame'
    exact ⟨fun q' v maps => outside (newName p q') v (turnover.fewer maps), unregistered⟩
  · rw [kept t held]
    exact update_self ..

end

-- References of an image

/-- The references of process `p`'s image to the page at `pa`: its leaf entries and the nodes of
its page table.
-/
def Machine.imageRefs (m : Machine) (p : Slot) (pa : Nat) : Nat :=
  ∑ v ∈ Finset.range userPages, ((m.entry p v).has PTE_V && PTE2PA (m.entry p v) == pa).toNat
    + (m.tablePages p).count pa

theorem Label.space_child (l : Label ι) (i : Nat) : (l.child i).space = l.space := by
  cases l <;> rfl

theorem Ghost.nodes_congr {g g' : Ghost ι} (level : Nat) {l : Label ι}
    (same : ∀ l', l'.space = l.space → g'.table l' = g.table l')
    : g'.nodes n level l = g.nodes n level l := by
  induction level generalizing l with
  | zero => rw [Ghost.nodes, Ghost.nodes, same l rfl]
  | succ level ih =>
    rw [Ghost.nodes, same l rfl]
    refine congrArg _ (Finset.sum_congr rfl fun i _ => ih fun l' here => ?_)
    exact same l' (here.trans (l.space_child i))

theorem Ghost.nodes_zero {g : Ghost ι} (level : Nat) {l : Label ι}
    (miss : ∀ l', l'.space = l.space → g.table l' ≠ some n)
    : g.nodes n level l = 0 := by
  induction level generalizing l with
  | zero => exact if_neg (miss l rfl)
  | succ level ih =>
    rw [Ghost.nodes, isPage, if_neg (miss l rfl), Nat.zero_add]
    refine Finset.sum_eq_zero fun i _ => ih fun l' here => ?_
    exact miss l' (here.trans (l.space_child i))

/-- When one process gets another image, its references are exchanged and no others. -/
theorem holders_exchange {m' : Machine} (p : Slot) (pa : Nat) (shm : m'.shm = m.shm)
    (held : m'.held = m.held)
    (frames : ∀ q, (m'.proc q).trapframe = (m.proc q).trapframe)
    (entries : ∀ q, q ≠ p → ∀ v, v < userPages → m'.entry q v = m.entry q v)
    (tables : ∀ q, q ≠ p → (m'.tablePages q).count pa = (m.tablePages q).count pa)
    : m'.holders pa + m.imageRefs p pa = m.holders pa + m'.imageRefs p pa := by
  have trapframes : countWhere (fun proc => proc.trapframe == pa) m'.proc
      = countWhere (fun proc => proc.trapframe == pa) m.proc :=
    countWhere_congr fun q => by rw [frames]
  have exchange (f f' : Slot → Nat) (same : ∀ q, q ≠ p → f' q = f q)
      : ∑ q, f' q + f p = ∑ q, f q + f' p := by
    have before : f p + ∑ q ∈ Finset.univ.erase p, f q = ∑ q, f q :=
      Finset.add_sum_erase _ f (Finset.mem_univ p)
    have after : f' p + ∑ q ∈ Finset.univ.erase p, f' q = ∑ q, f' q :=
      Finset.add_sum_erase _ f' (Finset.mem_univ p)
    have rest : ∑ q ∈ Finset.univ.erase p, f' q = ∑ q ∈ Finset.univ.erase p, f q :=
      Finset.sum_congr rfl fun q member => same q (Finset.ne_of_mem_erase member)
    omega
  have leaves := exchange
    (fun q => ∑ v ∈ Finset.range userPages,
      ((m.entry q v).has PTE_V && PTE2PA (m.entry q v) == pa).toNat)
    (fun q => ∑ v ∈ Finset.range userPages,
      ((m'.entry q v).has PTE_V && PTE2PA (m'.entry q v) == pa).toNat)
    fun q other => Finset.sum_congr rfl fun v inside => by
      rw [entries q other v (Finset.mem_range.mp inside)]
  have nodes := exchange (fun q => (m.tablePages q).count pa)
    (fun q => (m'.tablePages q).count pa) tables
  simp only [Machine.holders, Machine.imageRefs, countEntries, shm, held]
  omega

/-- The count of a page is the number of its holders and of the loose references. -/
theorem Custody.ref_eq (custody : Custody layout m g loose) (ram : InRam layout n)
    : m.phys.ref (4096 * n) = (m.holders (4096 * n) + loose n : Nat) := by
  have held := custody.held n ram
  have ref := custody.inv.accounts.refs n ((custody.inv.accounts.ram n).mpr ram)
  simp only [Machine.tokens] at held
  rw [Machine.holders, custody.entries_eq, custody.tables_eq, custody.frames_eq ram.positive,
    Phys.ref, Nat.mul_div_cancel_left n (by decide), ref, Ghost.count]
  omega

/-- Process `p` has a new image made of pages that were free, and the old one is released: every
page that was in use has lost the references of the old image and no others, and is free when
there are no others.
-/
structure Replaced (layout : Layout) (p : Slot) (m m' : Machine) : Prop where
  shm : m'.shm = m.shm
  held : m'.held = m.held
  others : ∀ q, q ≠ p → m'.proc q = m.proc q
  self : (m'.proc p).status = (m.proc p).status ∧ (m'.proc p).trapframe = (m.proc p).trapframe
  views : ∀ q v, q ≠ p → v < userPages → m'.pageAt q v = m.pageAt q v
  released
    : ∀ pa, IsPage layout pa → pa ∉ m.phys.freelist
      → m'.phys.ref pa + m.imageRefs p pa = m.phys.ref pa ∧ m'.imageRefs p pa = 0
        ∧ (m'.phys.ref pa = 0 → pa ∈ m'.phys.freelist)

/-- A page without references is free. -/
theorem Inv.free_of_ref (inv : Inv layout s g) (ram : InRam layout n) (zero : s.refCount n = 0)
    : 4096 * n ∈ s.freelist := by
  have inside := (inv.accounts.ram n).mpr ram
  have ref := inv.accounts.refs n inside
  have isFree : g.owner n = .free := by
    cases owner : g.owner n with
    | outside => exact (inside owner).elim
    | free => rfl
    | data =>
      have := (inv.accounts.data n).mpr owner
      omega
    | table l =>
      simp only [owner, Owner.token] at ref
      omega
  obtain ⟨pages, list, _, free⟩ := inv.accounts.free
  rw [list]
  exact List.mem_map_of_mem ((free n).mpr isFree)

/-- Installing the new image replaces the memory of one process and nothing else. -/
theorem Custody.exchanged (custody : Custody layout m g loose)
    (image : Image layout g m.phys u s r sz) {m' : Machine} {g' : Ghost Slot}
    (custody' : Custody layout m' g' loose) (installed : Installed p u g g')
    (view : g'.view m'.phys.mem = update (g.view m.phys.mem) p (u.view s.mem ()))
    (shm : m'.shm = m.shm) (held : m'.held = m.held)
    (proc : m'.proc = update m.proc p { m.proc p with pagetable := 4096 * r, sz := sz })
    : Replaced layout p m m' := by
  have others (q : Slot) (other : q ≠ p) : m'.proc q = m.proc q := by
    rw [proc, update_of_ne other]
  have self : (m'.proc p).status = (m.proc p).status
      ∧ (m'.proc p).trapframe = (m.proc p).trapframe := by
    rw [proc, update_self]
    exact ⟨rfl, rfl⟩
  refine ⟨shm, held, others, self, fun q v other user => ?_, fun pa isPage taken => ?_⟩
  · rw [custody'.pageAt_eq q user, custody.pageAt_eq q user, view, update_of_ne other]
  obtain ⟨n, rfl, ram⟩ := isPage.number
  have inUse := custody.inv.used_of_not_free ram taken
  have exchange := holders_exchange p (4096 * n) shm held
    (fun q => by
      by_cases here : q = p
      · rw [here]
        exact self.2
      · rw [others q here])
    (fun q other v user => by
      rw [custody'.entry_eq q user, custody.entry_eq q user, installed.elsewhere.leaf q other])
    (fun q other => by
      rw [custody'.tables_of, custody.tables_of]
      refine Ghost.nodes_congr 2 fun l here => installed.elsewhere.table l ?_
      rw [here]
      exact other)
  have apart : m'.imageRefs p (4096 * n) = 0 := by
    have leaves : ∑ v ∈ Finset.range userPages,
        ((m'.entry p v).has PTE_V && PTE2PA (m'.entry p v) == 4096 * n).toNat = 0 := by
      refine Finset.sum_eq_zero fun v inside => ?_
      have user := Finset.mem_range.mp inside
      rw [Bool.toNat_eq_zero, Bool.and_eq_false_imp]
      intro valid
      obtain ⟨maps, address⟩ := custody'.mapped_pa user valid
      rw [address, beq_eq_false_iff_ne]
      intro same
      have number : (m'.entry p v).ppn = n := by omega
      rw [number, Ghost.Maps, installed.leaf] at maps
      have unused := image.beside.apart v n maps
      omega
    rw [Machine.imageRefs, leaves, custody'.tables_of, Ghost.nodes_zero 2 fun l here found => ?_]
    have home : p = l.space := here.symm
    have shape : l = (l.map fun _ => ()).map fun _ => p := by
      rw [Label.map_map, home]
      exact l.map_const.symm
    rw [shape, installed.table] at found
    have owner := (image.inv.accounts.tables _ n).mpr found
    have data := image.inv.held_data (n := n) (by rw [image.beside.held]; exact inUse)
    rw [owner] at data
    cases data
  have ref := custody.ref_eq ram
  have ref' := custody'.ref_eq ram
  refine ⟨by omega, apart, fun zero => custody'.inv.free_of_ref ram ?_⟩
  rwa [Phys.ref, Nat.mul_div_cancel_left n (by decide)] at zero

end Xv6.Vm

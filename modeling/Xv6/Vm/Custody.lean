import Xv6.Vm.SpaceSpec

/-! The machine together with the ownership of its pages. Every reference the kernel holds is
recorded in the machine: a registered shared page, a trapframe, or a page that another part of
the kernel owns. References that nothing records are `loose`; code that runs has a few of
them in hand, and a system call that fails may lose one.
-/

namespace Xv6.Vm

open Function Library
open Process (Slot)

variable {layout : Layout} {m : Machine} {g : Ghost Slot} {loose : Nat → Nat}

/-- The address of a page of RAM. -/
def Address (layout : Layout) (pa : Nat) : Prop := ∃ n, pa = 4096 * n ∧ InRam layout n

theorem Address.page {n : Nat} (address : Address layout (4096 * n)) : InRam layout n := by
  obtain ⟨k, same, ram⟩ := address
  have : k = n := by omega
  exact this ▸ ram

theorem InRam.positive {n : Nat} (ram : InRam layout n) : 0 < n := by
  have low := ram.1
  have kernel := layout.trampoline_kernel
  omega

theorem InRam.not_null {n : Nat} (ram : InRam layout n) : ((0 : Nat) == 4096 * n) = false := by
  have := ram.positive
  rw [beq_eq_false_iff_ne]
  omega

/-- The kernel's references to page `n` that the machine records. -/
def Machine.tokens (m : Machine) (n : Nat) : Nat :=
  countWhere (fun frame => frame.pa == 4096 * n) m.shm
    + countWhere (fun proc => proc.trapframe == 4096 * n) m.proc
    + m.held.count (4096 * n)

/-- A process has a page table, a trapframe, and no memory above its size. -/
structure Space (layout : Layout) (mem : Nat → Page) (g : Ghost Slot) (p : Slot) (proc : Proc)
    : Prop where
  root : ∃ r, proc.pagetable = 4096 * r ∧ g.table (.root p) = some r
  trapframe : Address layout proc.trapframe
  fits : proc.sz ≤ TRAPFRAME
  top : ∀ v, pageCount proc.sz ≤ v → g.view mem p v = none
  mapped : (g.leaf p userPages).has PTE_V = true
  guarded : Guarded g p

/-- A slot is empty, or it has a process. -/
def Seat (layout : Layout) (mem : Nat → Page) (g : Ghost Slot) (p : Slot) (proc : Proc)
    : Prop :=
  (proc = {} ∧ g.table (.root p) = none)
    ∨ (proc.status ≠ .unused ∧ Space layout mem g p proc)

structure Custody (layout : Layout) (m : Machine) (g : Ghost Slot) (loose : Nat → Nat)
    : Prop where
  inv : Inv layout m.phys g
  seats : ∀ p, Seat layout m.phys.mem g p (m.proc p)
  held : ∀ n, InRam layout n → g.held n = m.tokens n + loose n
  frames : ∀ i, (m.shm i).pa ≠ 0 → Address layout (m.shm i).pa
  distinct : ∀ i j, (m.shm i).pa ≠ 0 → (m.shm i).pa = (m.shm j).pa → i = j
  owned : ∀ pa ∈ m.held, Address layout pa
  exclusive : ∀ p n, 0 < n → (m.proc p).trapframe = 4096 * n
    → (∀ q v, ¬g.Maps q v n) ∧ ∀ i, (m.shm i).pa ≠ 4096 * n

-- Seats

theorem Seat.space {mem : Nat → Page} {p : Slot} {proc : Proc}
    (seat : Seat layout mem g p proc) (used : proc.status ≠ .unused)
    : Space layout mem g p proc := by
  rcases seat with ⟨rfl, _⟩ | ⟨_, space⟩
  · exact (used rfl).elim
  · exact space

theorem Seat.vacant {mem : Nat → Page} {p : Slot} {proc : Proc}
    (seat : Seat layout mem g p proc) (unused : proc.status = .unused)
    : proc = {} ∧ g.table (.root p) = none := by
  rcases seat with vacant | ⟨used, _⟩
  · exact vacant
  · exact (used unused).elim

theorem Space.below {mem : Nat → Page} {p : Slot} {proc : Proc}
    (space : Space layout mem g p proc) {v : Nat} (seen : g.view mem p v ≠ none)
    : v < pageCount proc.sz := by
  by_contra above
  exact seen (space.top v (by omega))

/-- A process whose memory stays below its size keeps its seat. -/
theorem Seat.keep {mem mem' : Nat → Page} {g' : Ghost Slot} {p : Slot} {proc : Proc}
    (seat : Seat layout mem g p proc) (root : g'.table (.root p) = g.table (.root p))
    (reserved : ∀ v, userPages ≤ v → g'.leaf p v = g.leaf p v)
    (within : ∀ v, g'.view mem' p v ≠ none → g.view mem p v ≠ none ∨ 4096 * v < proc.sz)
    : Seat layout mem' g' p proc := by
  rcases seat with ⟨empty, vacant⟩ | ⟨used, space⟩
  · exact .inl ⟨empty, root.trans vacant⟩
  · refine .inr ⟨used, ?_⟩
    refine ⟨root ▸ space.root, space.trapframe, space.fits, fun v above => ?_, ?_,
      fun v above => ?_⟩
    · by_contra seen
      rcases within v seen with before | below
      · have := space.below before
        omega
      · simp only [pageCount] at above
        omega
    · rw [reserved _ (Nat.le_refl _)]
      exact space.mapped
    · rw [reserved v above]
      exact space.guarded v above

theorem Seat.handover {s s' : Phys} {g' : Ghost Slot} {p : Slot} {proc : Proc}
    (seat : Seat layout s.mem g p proc) (handover : Handover layout s g s' g')
    : Seat layout s'.mem g' p proc :=
  seat.keep (by rw [handover.table]) (fun _ _ => by rw [handover.leaf])
    fun _ seen => .inl (handover.view ▸ seen)

-- Bookkeeping

namespace Custody

variable {n : Nat} {p : Slot} {s' : Phys} {g' : Ghost Slot}

section

variable (custody : Custody layout m g loose)
include custody

theorem data_of_token (ram : InRam layout n) (token : 0 < m.tokens n) : 0 < g.held n := by
  rw [custody.held n ram]
  omega

/-- The kernel has the trapframe of every process. -/
theorem trapframe_held (positive : 0 < n) (isFrame : (m.proc p).trapframe = 4096 * n)
    : InRam layout n ∧ 0 < g.held n := by
  rcases custody.seats p with ⟨empty, _⟩ | ⟨_, space⟩
  · rw [empty] at isFrame
    simp only at isFrame
    omega
  · have ram : InRam layout n := Address.page (isFrame ▸ space.trapframe)
    refine ⟨ram, custody.data_of_token ram ?_⟩
    have counted := countWhere_pos (fun proc => proc.trapframe == 4096 * n) m.proc p
      (by simp [isFrame])
    simp only [Machine.tokens]
    omega

/-- A page that nothing refers to is not recorded anywhere. -/
theorem unrecorded (ram : InRam layout n) (unheld : g.held n = 0)
    : (∀ i, (m.shm i).pa ≠ 4096 * n) ∧ ∀ p, (m.proc p).trapframe ≠ 4096 * n := by
  have none := custody.held n ram
  simp only [Machine.tokens] at none
  constructor
  · intro i same
    have counted := countWhere_pos (fun frame => frame.pa == 4096 * n) m.shm i
      (by simp [same])
    omega
  · intro p same
    have counted := countWhere_pos (fun proc => proc.trapframe == 4096 * n) m.proc p
      (by simp [same])
    omega

/-- Code on physical memory that keeps every reference where it is. -/
theorem change {s' : Phys} {g' : Ghost Slot} {views : Slot → Row}
    (change : Change layout m.phys g s' g' views)
    (within
      : ∀ p v, views p v ≠ none
        → g.view m.phys.mem p v ≠ none ∨ 4096 * v < (m.proc p).sz)
    : Custody layout { m with phys := s' } g' loose where
  inv := change.inv
  seats p := (custody.seats p).keep (change.root p) (change.reserved p) fun v seen =>
    within p v (change.view ▸ seen)
  held n ram := by
    rw [change.held]
    exact custody.held n ram
  frames := custody.frames
  distinct := custody.distinct
  owned := custody.owned
  exclusive p n positive isFrame := by
    obtain ⟨unmapped, unregistered⟩ := custody.exclusive p n positive isFrame
    refine ⟨fun q v maps => ?_, unregistered⟩
    obtain ⟨q', v', before⟩ := change.mapped maps (custody.trapframe_held positive isFrame).2
    exact unmapped q' v' before

/-- A step of the allocator moves references between the owners and the code that runs. -/
theorem handover {s' : Phys} {g' : Ghost Slot} (loose' : Nat → Nat)
    (handover : Handover layout m.phys g s' g')
    (balance : ∀ n, InRam layout n → g'.held n + loose n = g.held n + loose' n)
    : Custody layout { m with phys := s' } g' loose' where
  inv := handover.inv
  seats p := (custody.seats p).handover handover
  held n ram := by
    have before := custody.held n ram
    have moved := balance n ram
    simp only [Machine.tokens] at *
    omega
  frames := custody.frames
  distinct := custody.distinct
  owned := custody.owned
  exclusive p n positive isFrame := by
    obtain ⟨unmapped, unregistered⟩ := custody.exclusive p n positive isFrame
    exact ⟨fun q v maps => unmapped q v (maps.congr handover.leaf), unregistered⟩

/-- Another status or size for a process, with no memory above the size. -/
theorem resize (proc : Proc) (used : (m.proc p).status ≠ .unused) (still : proc.status ≠ .unused)
    (pagetable : proc.pagetable = (m.proc p).pagetable)
    (trapframe : proc.trapframe = (m.proc p).trapframe) (fits : proc.sz ≤ TRAPFRAME)
    (top : ∀ v, pageCount proc.sz ≤ v → g.view m.phys.mem p v = none)
    : Custody layout { m with proc := update m.proc p proc } g loose where
  inv := custody.inv
  seats q := by
    dsimp only
    by_cases here : q = p
    · subst here
      have space := (custody.seats q).space used
      rw [update_self]
      exact .inr ⟨still, pagetable ▸ space.root, trapframe ▸ space.trapframe, fits, top,
        space.mapped, space.guarded⟩
    · rw [update_of_ne here]
      exact custody.seats q
  held n ram := by
    have counted := countWhere_update (fun proc => proc.trapframe == 4096 * n) m.proc p proc
    simp only [trapframe] at counted
    rw [custody.held n ram]
    simp only [Machine.tokens]
    omega
  frames := custody.frames
  distinct := custody.distinct
  owned := custody.owned
  exclusive q n positive isFrame := by
    have same : (update m.proc p proc q).trapframe = (m.proc q).trapframe := by
      by_cases here : q = p
      · rw [here, update_self, trapframe]
      · rw [update_of_ne here]
    exact custody.exclusive q n positive (same ▸ isFrame)

end

/-- The page in hand is recorded as owned by another part of the kernel. -/
theorem own (custody : Custody layout m g (bump loose n)) (ram : InRam layout n)
    : Custody layout { m with held := (4096 * n) :: m.held } g loose where
  inv := custody.inv
  seats := custody.seats
  held k inRam := by
    have before := custody.held k inRam
    simp only [Machine.tokens, bump_eq, List.count_cons] at *
    cases hit : 4096 * n == 4096 * k <;> simp only [hit, Bool.toNat_true, Bool.toNat_false,
      if_true, Bool.false_eq_true, if_false] at before ⊢ <;> omega
  frames := custody.frames
  distinct := custody.distinct
  owned pa member := by
    rcases List.mem_cons.mp member with rfl | old
    · exact ⟨n, rfl, ram⟩
    · exact custody.owned pa old
  exclusive := custody.exclusive

/-- An owner gives its page up. -/
theorem disown (custody : Custody layout m g loose) (member : 4096 * n ∈ m.held)
    : Custody layout { m with held := m.held.erase (4096 * n) } g (bump loose n) where
  inv := custody.inv
  seats := custody.seats
  held k inRam := by
    have before := custody.held k inRam
    have positive := List.count_pos_iff.mpr member
    simp only [Machine.tokens, bump_eq, List.count_erase] at *
    by_cases same : n = k
    · simp only [same, beq_self_eq_true, if_true, Bool.toNat_true] at *
      omega
    · have other : (4096 * n == 4096 * k) = false := by
        rw [beq_eq_false_iff_ne]
        omega
      simp only [other, Bool.toNat_false, Bool.false_eq_true, if_false] at before ⊢
      omega
  frames := custody.frames
  distinct := custody.distinct
  owned pa old := custody.owned pa (List.mem_of_mem_erase old)
  exclusive := custody.exclusive

/-- The page in hand becomes the trapframe of a new process. -/
theorem seat {r t : Nat} (custody : Custody layout m g (bump loose t))
    (unused : (m.proc p).status = .unused)
    (turnover : Turnover p layout m.phys g s' g' (g.view m.phys.mem))
    (root : g'.table (.root p) = some r) (mapped : (g'.leaf p userPages).has PTE_V = true)
    (guarded : Guarded g' p) (ram : InRam layout t) (unmapped : ∀ q v, ¬g.Maps q v t)
    (unregistered : ∀ i, (m.shm i).pa ≠ 4096 * t)
    : Custody layout
        { m with
          phys := s'
          proc := update m.proc p
            { status := .live, pagetable := 4096 * r, trapframe := 4096 * t } }
        g' loose where
  inv := turnover.inv
  seats q := by
    obtain ⟨empty, absent⟩ := (custody.seats p).vacant unused
    dsimp only
    by_cases here : q = p
    · subst here
      rw [update_self]
      refine .inr ⟨by simp, ⟨r, rfl, root⟩, ⟨t, rfl, ram⟩, Nat.zero_le _, fun v _ => ?_, mapped,
        guarded⟩
      rw [turnover.view, vacant_view _ (custody.inv.absent_leaf absent v)]
    · rw [update_of_ne here]
      exact (custody.seats q).keep (turnover.root q here) (fun v => turnover.reserved q v here)
        fun v seen => .inl (turnover.view ▸ seen)
  held n inRam := by
    have empty := ((custody.seats p).vacant unused).1
    have counted := countWhere_update (fun proc => proc.trapframe == 4096 * n) m.proc p
      { status := .live, pagetable := 4096 * r, trapframe := 4096 * t }
    have before := custody.held n inRam
    rw [turnover.held]
    simp only [empty, inRam.not_null, Bool.toNat_false] at counted
    simp only [Machine.tokens, bump_eq] at before ⊢
    omega
  frames := custody.frames
  distinct := custody.distinct
  owned := custody.owned
  exclusive q n positive isFrame := by
    dsimp only at isFrame ⊢
    by_cases here : q = p
    · subst here
      rw [update_self] at isFrame
      have same : n = t := by
        simp only at isFrame
        omega
      subst same
      refine ⟨fun q v maps => ?_, unregistered⟩
      exact unmapped q v (turnover.fewer maps)
    · rw [update_of_ne here] at isFrame
      obtain ⟨alone, apart⟩ := custody.exclusive q n positive isFrame
      exact ⟨fun q v maps => alone q v (turnover.fewer maps), apart⟩

section

variable (custody : Custody layout m g loose)
include custody

/-- A page table that was begun for an empty slot is gone again. -/
theorem abandon (unused : (m.proc p).status = .unused)
    (turnover : Turnover p layout m.phys g s' g' (g.view m.phys.mem))
    (gone : g'.table (.root p) = none)
    : Custody layout { m with phys := s' } g' loose where
  inv := turnover.inv
  seats q := by
    by_cases here : q = p
    · subst here
      exact .inl ⟨((custody.seats q).vacant unused).1, gone⟩
    · exact (custody.seats q).keep (turnover.root q here) (fun v => turnover.reserved q v here)
        fun v seen => .inl (turnover.view ▸ seen)
  held n ram := by
    rw [turnover.held]
    exact custody.held n ram
  frames := custody.frames
  distinct := custody.distinct
  owned := custody.owned
  exclusive q n positive isFrame := by
    obtain ⟨alone, apart⟩ := custody.exclusive q n positive isFrame
    exact ⟨fun q' v maps => alone q' v (turnover.fewer maps), apart⟩

/-- A process gives up its trapframe and its page table. -/
theorem unseat {t : Nat} (used : (m.proc p).status ≠ .unused)
    (isFrame : (m.proc p).trapframe = 4096 * t) {s₁ : Phys} {g₁ : Ghost Slot}
    (handover : Handover layout m.phys g s₁ g₁) (returned : bump g₁.held t = g.held)
    (turnover : Turnover p layout s₁ g₁ s' g'
      (update (g₁.view s₁.mem) p fun _ => none))
    (gone : g'.table (.root p) = none)
    : Custody layout { m with phys := s', proc := update m.proc p {} } g' loose := by
  have held (n : Nat) (inRam : InRam layout n)
      : g'.held n
        = { m with phys := s', proc := update m.proc p {} }.tokens n + loose n := by
    have counted := countWhere_update (fun proc => proc.trapframe == 4096 * n) m.proc p {}
    have before := custody.held n inRam
    rw [← returned, bump_eq] at before
    rw [turnover.held]
    simp only [isFrame, inRam.not_null, Bool.toNat_false] at counted
    simp only [Machine.tokens] at before ⊢
    omega
  refine ⟨turnover.inv, fun q => ?_, held, custody.frames, custody.distinct, custody.owned,
    fun q n positive isFrame' => ?_⟩
  · dsimp only
    by_cases here : q = p
    · subst here
      rw [update_self]
      exact .inl ⟨rfl, gone⟩
    · rw [update_of_ne here]
      refine ((custody.seats q).handover handover).keep (turnover.root q here)
        (fun v => turnover.reserved q v here) fun v seen => .inl ?_
      rwa [turnover.view, update_of_ne here] at seen
  · dsimp only at isFrame' ⊢
    by_cases here : q = p
    · subst here
      rw [update_self] at isFrame'
      simp only at isFrame'
      omega
    · rw [update_of_ne here] at isFrame'
      obtain ⟨alone, apart⟩ := custody.exclusive q n positive isFrame'
      exact ⟨fun q' v maps => alone q' v ((turnover.fewer maps).congr handover.leaf), apart⟩

/-- A registered page is replaced by another page, or by none. -/
theorem replaceFrame (i : Fin 8) (frame : Frame) (loose' : Nat → Nat)
    (address : frame.pa ≠ 0 → Address layout frame.pa)
    (single : frame.pa ≠ 0 → ∀ j, j ≠ i → (m.shm j).pa ≠ frame.pa)
    (noFrame : ∀ p n, 0 < n → (m.proc p).trapframe = 4096 * n → frame.pa ≠ 4096 * n)
    (balance
      : ∀ n, InRam layout n
        → loose' n + (frame.pa == 4096 * n).toNat
          = loose n + ((m.shm i).pa == 4096 * n).toNat)
    : Custody layout { m with shm := update m.shm i frame } g loose' where
  inv := custody.inv
  seats := custody.seats
  held k inRam := by
    have counted := countWhere_update (fun frame => frame.pa == 4096 * k) m.shm i frame
    have before := custody.held k inRam
    have moved := balance k inRam
    simp only [Machine.tokens] at before ⊢
    omega
  frames j used := by
    dsimp only at used ⊢
    by_cases here : j = i
    · rw [here, update_self] at used ⊢
      exact address used
    · rw [update_of_ne here] at used ⊢
      exact custody.frames j used
  distinct j k used same := by
    dsimp only at used same
    by_cases isJ : j = i <;> by_cases isK : k = i
    · rw [isJ, isK]
    · rw [isJ, update_self] at used same
      rw [update_of_ne isK] at same
      exact (single used k isK same.symm).elim
    · rw [update_of_ne isJ] at used same
      rw [isK, update_self] at same
      exact (single (same ▸ used) j isJ same).elim
    · rw [update_of_ne isJ] at used same
      rw [update_of_ne isK] at same
      exact custody.distinct j k used same
  owned := custody.owned
  exclusive p k positive isFrame := by
    obtain ⟨alone, apart⟩ := custody.exclusive p k positive isFrame
    refine ⟨alone, fun j => ?_⟩
    dsimp only
    by_cases here : j = i
    · rw [here, update_self]
      exact noFrame p k positive isFrame
    · rw [update_of_ne here]
      exact apart j

end

/-- The page in hand is registered as a shared page. -/
theorem register (custody : Custody layout m g (bump loose n)) {i : Fin 8} (frame : Frame)
    (pa : frame.pa = 4096 * n) (isFree : (m.shm i).pa = 0) (ram : InRam layout n)
    (unregistered : ∀ j, (m.shm j).pa ≠ 4096 * n) (noFrame : ∀ p, (m.proc p).trapframe ≠ 4096 * n)
    : Custody layout { m with shm := update m.shm i frame } g loose := by
  refine custody.replaceFrame i frame loose (fun _ => ⟨n, pa, ram⟩) (fun _ j _ => ?_)
    (fun p k _ isFrame same => noFrame p ?_) (fun k inRam => ?_)
  · rw [pa]
    exact unregistered j
  · rw [isFrame, ← same, pa]
  · rw [isFree, inRam.not_null, pa, bump_eq]
    rfl

/-- A registered page is given up, or its frame gets another reference count. -/
theorem reframe (custody : Custody layout m g loose) (i : Fin 8) (frame : Frame)
    (loose' : Nat → Nat) (pa : frame.pa = 0 ∨ frame.pa = (m.shm i).pa)
    (balance
      : ∀ n, InRam layout n
        → loose' n + (frame.pa == 4096 * n).toNat
          = loose n + ((m.shm i).pa == 4096 * n).toNat)
    : Custody layout { m with shm := update m.shm i frame } g loose' := by
  refine custody.replaceFrame i frame loose' (fun used => ?_) (fun used j other same => ?_)
    (fun p n positive isFrame => ?_) balance
  · have kept := pa.resolve_left used
    rw [kept] at used ⊢
    exact custody.frames i used
  · have kept := pa.resolve_left used
    rw [kept] at used same
    exact other (custody.distinct i j used same.symm).symm
  · rcases pa with null | same
    · omega
    · rw [same]
      exact (custody.exclusive p n positive isFrame).2 i

/-- The page in hand is mapped at the end of a process's memory. -/
theorem lend {v : Nat} {perm : Pte} (custody : Custody layout m g (bump loose n))
    (used : (m.proc p).status ≠ .unused) (user : v < userPages) (last : v = pageCount (m.proc p).sz)
    (lent : Lent p v n perm layout m.phys g s' g') (noFrame : ∀ q, (m.proc q).trapframe ≠ 4096 * n)
    (small : n < 2 ^ 44) (low : perm.toNat < 1024)
    : Custody layout
        { m with
          phys := s'
          proc := update m.proc p { m.proc p with sz := 4096 * v + 4096 } }
        g' loose where
  inv := lent.inv
  seats q := by
    have reserved {q : Slot} {w : Nat} (above : userPages ≤ w)
        : g'.leaf q w = g.leaf q w := by
      rw [lent.leaf, setAt_other _ _ fun same => by omega]
    dsimp only
    by_cases here : q = p
    · subst here
      have space := (custody.seats q).space used
      rw [update_self]
      refine .inr ⟨used, lent.root q ▸ space.root, space.trapframe, ?_, fun w above => ?_, ?_,
        fun w above => ?_⟩
      · have top := mul_fits (by omega : v + 1 ≤ userPages)
        simp only
        omega
      · simp only [pageCount] at above last
        rw [lent.view, setAt_other _ _ fun same => by omega]
        exact space.top w (by simp only [pageCount]; omega)
      · rw [reserved (Nat.le_refl _)]
        exact space.mapped
      · rw [reserved above]
        exact space.guarded w above
    · rw [update_of_ne here]
      refine (custody.seats q).keep (lent.root q) (fun w above => reserved above)
        fun w seen => .inl ?_
      rwa [lent.view, setAt_other _ _ fun same => here same.1] at seen
  held k inRam := by
    have counted := countWhere_update (fun proc => proc.trapframe == 4096 * k) m.proc p
      { m.proc p with sz := 4096 * v + 4096 }
    have before := custody.held k inRam
    rw [← lent.held, bump_eq, bump_eq] at before
    dsimp only at counted
    simp only [Machine.tokens] at before ⊢
    omega
  frames := custody.frames
  distinct := custody.distinct
  owned := custody.owned
  exclusive q k positive isFrame := by
    have same : (update m.proc p { m.proc p with sz := 4096 * v + 4096 } q).trapframe
        = (m.proc q).trapframe := by
      by_cases here : q = p
      · rw [here, update_self]
      · rw [update_of_ne here]
    rw [same] at isFrame
    obtain ⟨alone, apart⟩ := custody.exclusive q k positive isFrame
    refine ⟨fun q' w maps => ?_, apart⟩
    have other : k ≠ n := fun same => noFrame q (same ▸ isFrame)
    obtain ⟨q'', w', before⟩ := maps_of_setAt lent.leaf maps (by rwa [mappedEntry_ppn small low])
    exact alone q'' w' before

end Custody

end Xv6.Vm

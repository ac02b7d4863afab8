import Xv6.Vm.Custody

/-! What each step of the machine does: the ownership of the pages goes on, no page is mapped
writable twice that was not, and without shared pages every process sees what it would see if
its pages were its own.
-/

namespace Xv6.Vm

open Function Library
open Process (Slot)

variable {layout : Layout} {m : Machine} {g : Ghost Slot} {loose : Nat → Nat}
variable {s' : Phys} {p : Slot} {g' : Ghost Slot} {row : Row}

/-- Page `n` is in the table of shared pages. -/
def Machine.registers (m : Machine) (n : Nat) : Prop := 0 < n ∧ ∃ i, (m.shm i).pa = 4096 * n

/-- The machine as its processes see it. -/
def Machine.asPrivate (m : Machine) (g : Ghost Slot) : PrivateMachine := fun p =>
  { status := (m.proc p).status, sz := (m.proc p).sz, row := g.view m.phys.mem p }

/-- The step has nothing to do with the table of shared pages. -/
def Action.Ordinary : Action → Prop
  | .shmOpen _ _ | .shmClose _ _ => False
  | _ => True

/-- Every shared page that process `p` maps is still in the table. -/
def Machine.KnowsShared (m : Machine) (g : Ghost Slot) (shared : Nat → Prop) (p : Slot) : Prop :=
  ∀ v n, g.Maps p v n → shared n → m.registers n

/-- If the step is a `shm_open`, it succeeds. -/
def OpensShared (_ : Machine) (step : Action × Outcome) : Prop :=
  (∃ p id, step.1 = .shmOpen p id) → step.2 ≠ .address none

/-- What a step leaves behind. -/
structure Stepped (layout : Layout) (m : Machine) (g : Ghost Slot) (loose : Nat → Nat)
    (action : Action) (outcome : Outcome) (m' : Machine) (g' : Ghost Slot)
    (loose' : Nat → Nat) : Prop where
  custody : Custody layout m' g' loose'
  settled : OpensShared m (action, outcome) → loose' = loose
  exhausted : m.phys.exhausted = true → m'.phys.exhausted = true
  frames : action.Ordinary → m'.shm = m.shm
  sharing : ∀ shared, Sharing shared g → (∀ n, m.registers n → shared n)
    → (∀ p, action = .kfork p → m.KnowsShared g shared p)
    → Cow (fun n => shared n ∨ m'.registers n) g'
  sees : action.Ordinary → Cow (fun _ => False) g → m'.phys.exhausted = false
    → PrivateStep (m.asPrivate g) (action, outcome) (m'.asPrivate g')

/-- The step does not panic. -/
def Steps (layout : Layout) (m : Machine) (g : Ghost Slot) (loose : Nat → Nat)
    (action : Action) : Prop :=
  ∃ outcome m' g' loose', action.run layout m = .ok (outcome, m')
    ∧ Stepped layout m g loose action outcome m' g' loose'

/-- An ordinary step as far as the owners of the pages are concerned. -/
structure Advance (layout : Layout) (m : Machine) (g : Ghost Slot) (loose : Nat → Nat)
    (m' : Machine) (g' : Ghost Slot) : Prop where
  custody : Custody layout m' g' loose
  exhausted : m.phys.exhausted = true → m'.phys.exhausted = true
  frames : m'.shm = m.shm
  cow : ∀ shared, Sharing shared g → Cow shared g'

-- Running code

theorem onPhys_ok {α : Type} {code : Kernel α} {result : α} (run : code m.phys = .ok (result, s'))
    : onPhys code m = .ok (result, { m with phys := s' }) := by
  simp only [onPhys, run]

theorem onProc_ok {α : Type} {code : Proc → Kernel α} {result : α}
    (run : code (m.proc p) m.phys = .ok (result, s'))
    : onProc p code m = .ok (result, { m with phys := s' }) := by
  exact onPhys_ok run

theorem setProc_run (p : Slot) (proc : Proc)
    : setProc p proc m = .ok ((), { m with proc := update m.proc p proc }) :=
  rfl

-- What the processes see

/-- A change of one process and its pages, as the private machine sees it. -/
theorem asPrivate_of {m' : Machine} {proc : Proc} (procs : m'.proc = update m.proc p proc)
    (view : g'.view m'.phys.mem = update (g.view m.phys.mem) p row)
    : m'.asPrivate g'
      = update (m.asPrivate g) p
          { status := proc.status, sz := proc.sz, row := row } := by
  funext q
  by_cases here : q = p
  · subst here
    simp [Machine.asPrivate, view, procs]
  · simp [Machine.asPrivate, view, procs, here]

theorem asPrivate_update (view : g'.view s'.mem = update (g.view m.phys.mem) p row)
    (proc : Proc)
    : { m with phys := s', proc := update m.proc p proc }.asPrivate g'
      = update (m.asPrivate g) p
          { status := proc.status, sz := proc.sz, row := row } :=
  asPrivate_of rfl view

/-- A change of the pages of one process. -/
theorem asPrivate_row (view : g'.view s'.mem = update (g.view m.phys.mem) p row)
    : { m with phys := s' }.asPrivate g' = (m.asPrivate g).setRow p row := by
  have changed := asPrivate_update view (m.proc p)
  rwa [update_eq_self] at changed

/-- A change that no process sees. -/
theorem asPrivate_same (view : g'.view s'.mem = g.view m.phys.mem)
    : { m with phys := s' }.asPrivate g' = m.asPrivate g := by
  funext q
  simp [Machine.asPrivate, view]

theorem asPrivate_kill (p : Slot)
    : { m with proc := update m.proc p { m.proc p with status := .zombie } }.asPrivate g
      = (m.asPrivate g).kill p := by
  have view : g.view m.phys.mem
      = update (g.view m.phys.mem) p (g.view m.phys.mem p) :=
    (update_eq_self p _).symm
  exact asPrivate_update view { m.proc p with status := .zombie }

/-- What `uvmalloc` maps is a fresh page. -/
theorem freshPage_eq {xperm : Pte} (perm : xperm &&& (PTE_W ||| PTE_X) = xperm)
    : View.of (pageOf 0) (PTE_R ||| PTE_U ||| xperm) = freshPage xperm := by
  have noCow : xperm.has PTE_C = false := by
    rw [← perm, Pte.has_and, (by decide : (PTE_W ||| PTE_X) &&& PTE_C = 0), Pte.has_zero]
  simp only [View.of, freshPage, Pte.has_or, noCow, (by decide : PTE_R.has PTE_R = true),
    (by decide : PTE_R.has PTE_W = false), (by decide : PTE_U.has PTE_W = false),
    (by decide : PTE_R.has PTE_C = false), (by decide : PTE_U.has PTE_C = false),
    (by decide : PTE_R.has PTE_X = false), (by decide : PTE_U.has PTE_X = false),
    (by decide : PTE_U.has PTE_U = true), Bool.true_or, Bool.or_true, Bool.false_or,
    Bool.or_false]

/-- Filling pages changes one row. -/
theorem filled_row (views : Slot → Row) (p : Slot) (first last : Nat) (page : View)
    : filled views p first last page
      = update views p
          (fun v => if first ≤ v ∧ v < last then some page else views p v) := by
  funext q v
  by_cases here : q = p
  · subst here
    simp [filled]
  · simp [filled, here]

/-- So does removing them. -/
theorem without_row (views : Slot → Row) (p : Slot) (first last : Nat)
    : without views p first last
      = update views p
          (fun v => if first ≤ v ∧ v < last then none else views p v) := by
  funext q v
  by_cases here : q = p
  · subst here
    simp [without]
  · simp [without, here]

-- Ordinary steps

theorem Cow.registered {m' : Machine} {g' : Ghost Slot} {shared : Nat → Prop}
    (cow : Cow shared g') (fewer : ∀ n, m'.registers n → m.registers n)
    (registered : ∀ n, m.registers n → shared n)
    : Cow (fun n => shared n ∨ m'.registers n) g' := by
  have same : (fun n => shared n ∨ m'.registers n) = shared := by
    funext n
    exact propext ⟨fun either => either.elim id fun isRegistered =>
      registered n (fewer n isRegistered), .inl⟩
  rwa [same]

/-- The registered pages are those of the table of shared pages. -/
theorem registers_of_frames {m' : Machine} (frames : m'.shm = m.shm) (n : Nat)
    (isRegistered : m'.registers n)
    : m.registers n := by
  rwa [Machine.registers, frames] at isRegistered

namespace Advance

variable {m' : Machine} {g' : Ghost Slot} {s' : Phys} {p : Slot}

/-- An advance is a step, if the private machine can follow. -/
theorem stepped (advance : Advance layout m g loose m' g') {action : Action}
    {outcome : Outcome}
    (sees : Cow (fun _ => False) g → m'.phys.exhausted = false
      → PrivateStep (m.asPrivate g) (action, outcome) (m'.asPrivate g'))
    : Stepped layout m g loose action outcome m' g' loose where
  custody := advance.custody
  settled _ := rfl
  exhausted := advance.exhausted
  frames _ := advance.frames
  sharing shared sharing registered _ :=
    (advance.cow shared sharing).registered (registers_of_frames advance.frames) registered
  sees _ := sees

/-- What code does to one page table is an advance of the machine. -/
theorem of_effect (custody : Custody layout m g loose) {views : Slot → Row}
    (effect : Effect layout m.phys g s' g' views)
    (within
      : ∀ p v, views p v ≠ none
        → g.view m.phys.mem p v ≠ none ∨ 4096 * v < (m.proc p).sz)
    : Advance layout m g loose { m with phys := s' } g' :=
  ⟨custody.change effect.toChange within, effect.exhausted, rfl, effect.cow⟩

theorem of_growth (custody : Custody layout m g loose)
    (growth : Growth layout m.phys g s' g' (g.view m.phys.mem))
    : Advance layout m g loose { m with phys := s' } g' :=
  of_effect custody growth.toEffect fun _ _ => .inl

theorem refl (custody : Custody layout m g loose) : Advance layout m g loose m g :=
  of_growth custody (Growth.refl custody.inv)

/-- The size of the process may be set along with it. -/
theorem resize (advance : Advance layout m g loose m' g') (proc : Proc)
    (used : (m'.proc p).status ≠ .unused) (still : proc.status ≠ .unused)
    (pagetable : proc.pagetable = (m'.proc p).pagetable)
    (trapframe : proc.trapframe = (m'.proc p).trapframe) (fits : proc.sz ≤ TRAPFRAME)
    (top : ∀ v, pageCount proc.sz ≤ v → g'.view m'.phys.mem p v = none)
    : Advance layout m g loose { m' with proc := update m'.proc p proc } g' :=
  ⟨advance.custody.resize proc used still pagetable trapframe fits top, advance.exhausted,
    advance.frames, advance.cow⟩

/-- A process that faults for good is killed. -/
theorem kill (advance : Advance layout m g loose m' g') (used : (m'.proc p).status ≠ .unused)
    : Advance layout m g loose { m' with
        proc := update m'.proc p { m'.proc p with status := .zombie } } g' :=
  have space := (advance.custody.seats p).space used
  advance.resize _ used (by simp) rfl rfl space.fits space.top

/-- Code that gives a process memory up to a larger size. -/
theorem grow (custody : Custody layout m g loose) {sz : Nat}
    (used : (m.proc p).status ≠ .unused) (larger : (m.proc p).sz ≤ sz)
    (fits : sz ≤ TRAPFRAME) {views : Slot → Row}
    (effect : Effect layout m.phys g s' g' views)
    (within
      : ∀ q v, views q v ≠ none
        → g.view m.phys.mem q v ≠ none ∨ (q = p ∧ v < pageCount sz))
    : Advance layout m g loose
        { m with phys := s', proc := update m.proc p { m.proc p with sz := sz } } g' := by
  have space := (custody.seats p).space used
  have resized := custody.resize { m.proc p with sz := sz } used used rfl rfl fits
    fun v above => space.top v (by simp only [pageCount] at *; omega)
  have advance := of_effect resized effect fun q v seen => by
    rcases within q v seen with before | ⟨rfl, below⟩
    · exact .inl before
    · right
      simp only [update_self, pageCount] at below ⊢
      omega
  exact ⟨advance.custody, advance.exhausted, advance.frames, advance.cow⟩

/-- Code that takes the memory above a smaller size away. -/
theorem shrink (custody : Custody layout m g loose) {sz : Nat}
    (used : (m.proc p).status ≠ .unused) (fits : sz ≤ TRAPFRAME)
    {last : Nat} (top : (m.proc p).sz ≤ last)
    (effect : Effect layout m.phys g s' g'
      (without (g.view m.phys.mem) p (pageCount sz) (pageCount last)))
    : Advance layout m g loose
        { m with phys := s', proc := update m.proc p { m.proc p with sz := sz } } g' := by
  have space := (custody.seats p).space used
  have advance := of_effect custody effect fun q v seen => by
    unfold without at seen
    split_ifs at seen with inside
    · exact (seen rfl).elim
    · exact .inl seen
  refine advance.resize { m.proc p with sz := sz } used used rfl rfl fits
    fun v above => ?_
  rw [effect.view, without]
  by_cases below : v < pageCount last
  · rw [if_pos ⟨rfl, above, below⟩]
  · rw [if_neg fun inside => below inside.2.2]
    exact space.top v (by simp only [pageCount] at *; omega)

end Advance

variable {action : Action}

/-- Code on the memory of process `p` that the step runs, answering with `reply`. -/
theorem Advance.steps {α : Type} {code : Proc → Kernel α} {reply : α → Outcome} {result : α}
    (advance : Advance layout m g loose { m with phys := s' } g')
    (run : code (m.proc p) m.phys = .ok (result, s'))
    (acts : action.run layout = do return reply (← onProc p code))
    (sees : Cow (fun _ => False) g → s'.exhausted = false
      → PrivateStep (m.asPrivate g) (action, reply result) ({ m with phys := s' }.asPrivate g'))
    : Steps layout m g loose action := by
  refine ⟨reply result, _, g', loose, ?_, advance.stepped sees⟩
  rw [acts, bind_ok (onProc_ok run)]
  rfl

/-- A step whose answer the private machine knows. -/
theorem PrivateStep.answered {before after : PrivateMachine} {outcome : Outcome}
    (next : before.next action = (some outcome, after))
    : PrivateStep before (action, outcome) after := by
  refine ⟨by rw [next], fun expected known => ?_⟩
  rw [next] at known
  exact Option.some.inj known

/-- A step whose answer it leaves open. -/
theorem PrivateStep.silent {before after : PrivateMachine}
    (next : before.next action = (none, after)) (outcome : Outcome)
    : PrivateStep before (action, outcome) after := by
  refine ⟨by rw [next], fun expected known => ?_⟩
  rw [next] at known
  cases known

theorem Within.sizes {views : Slot → Row}
    (within : Within views (g.view m.phys.mem) p (m.proc p).sz) (q : Slot) (v : Nat)
    (seen : views q v ≠ none)
    : g.view m.phys.mem q v ≠ none ∨ 4096 * v < (m.proc q).sz := by
  rcases within q v seen with before | ⟨rfl, below⟩
  · exact .inl before
  · exact .inr below

/-- A positive increment moves the size. -/
theorem addInt_pos (sz : Nat) {n : BitVec 32} (up : 0 < n.toInt)
    : sz ≠ 0 ∨ 0 < addInt sz n := by
  by_cases zero : sz = 0
  · right
    have positive : 0 < n.toNat := by
      by_contra none
      have : n = 0 := BitVec.eq_of_toNat_eq (by simpa using none)
      rw [this] at up
      exact absurd up (by decide)
    have sign : n.msb = false := by
      rw [BitVec.msb_eq_toInt]
      simpa using Int.le_of_lt up
    rw [addInt, BitVec.toNat_signExtend, sign, if_neg Bool.false_ne_true,
      BitVec.toNat_setWidth]
    omega
  · exact .inl zero

/-- `growproc` that fails changes nothing. -/
theorem PrivateProc.growproc_failed {proc : PrivateProc} {n : BitVec 32}
    (failed : (proc.growproc n).1 = false)
    : (proc.growproc n).2 = proc := by
  unfold PrivateProc.growproc at *
  split_ifs at *
  rfl

namespace Custody

variable {p : Slot} {newsz : Nat} {xperm : Pte}

section

variable (custody : Custody layout m g loose) (live : (m.proc p).status = .live)
include custody live

/-- A process in use has a page table. -/
theorem rooted
    : ∃ r, (m.proc p).pagetable = 4096 * r ∧ g.table (.root p) = some r
      ∧ Space layout m.phys.mem g p (m.proc p) := by
  have space := (custody.seats p).space (by simp [live])
  obtain ⟨r, isRoot, root⟩ := space.root
  exact ⟨r, isRoot, root, space⟩

/-- A user load. -/
theorem load (va : Nat) : Steps layout m g loose (.load p va) := by
  have used : (m.proc p).status ≠ .unused := by simp [live]
  obtain ⟨r, isRoot, root, space⟩ := custody.rooted live
  obtain ⟨value, s', g', run, outcome⟩ := custody.inv.userLoad root space.guarded space.fits va
  rw [← isRoot] at run
  have ran : onProc p (fun proc => userLoad layout proc.sz proc.pagetable va) m
      = .ok (value, { m with phys := s' }) := onProc_ok run
  rcases outcome with ⟨byte, rfl, growth, loads⟩ | ⟨rfl, growth, reason⟩
  · refine ⟨.loaded (some byte), { m with phys := s' }, g', loose, ?_,
      (Advance.of_effect custody growth.toEffect (Within.faultIn _ p _ va).sizes).stepped
        fun _ _ => ?_⟩
    · rw [Action.run, bind_ok ran]
      rfl
    · rw [asPrivate_row growth.view]
      apply PrivateStep.answered
      simp only [PrivateMachine.next, Machine.asPrivate, loads]
  · have advance := (Advance.of_growth custody growth).kill used
    refine ⟨.loaded none, _, g', loose, ?_, advance.stepped fun _ enough => ?_⟩
    · rw [Action.run, bind_ok ran]
      rfl
    · have refused : (m.asPrivate g p).row.load (m.asPrivate g p).sz va = none :=
        reason.resolve_left (by simp_all)
      rw [asPrivate_kill, asPrivate_same growth.view]
      apply PrivateStep.answered
      simp only [PrivateMachine.next, refused]

/-- A user store. -/
theorem store (va : Nat) (value : BitVec 8) : Steps layout m g loose (.store p va value) := by
  have used : (m.proc p).status ≠ .unused := by simp [live]
  obtain ⟨r, isRoot, root, space⟩ := custody.rooted live
  obtain ⟨ok, s', g', run, outcome⟩ :=
    custody.inv.userStore root space.guarded space.fits va value
  rw [← isRoot] at run
  have ran : onProc p (fun proc => userStore layout proc.sz proc.pagetable va value) m
      = .ok (ok, { m with phys := s' }) := onProc_ok run
  rcases outcome with ⟨rfl, s₁, growth, opened, rfl⟩ | ⟨rfl, growth, reason⟩
  · have data := growth.inv.leaf_data opened.1 opened.2.1
    have stored := growth.trans (growth.inv.storeAt_growth data (va % 4096) [value])
    have within : Within (g'.view (s₁.storeAt (g'.leaf p (va / 4096)).ppn (va % 4096)
        [value]).mem) (g.view m.phys.mem) p (m.proc p).sz := by
      refine Within.trans (.contents g' s₁.mem _ p _) ?_
      rw [growth.view]
      exact .faultIn _ p _ va
    refine ⟨.flag true, _, g', loose, ?_,
      (Advance.of_effect custody stored.toEffect within.sizes).stepped fun cow _ => ?_⟩
    · rw [Action.run, bind_ok ran]
      rfl
    · have sharing : Sharing (fun _ => False) g' := growth.sharing ⟨cow, fun _ => False.elim⟩
      obtain ⟨page, allowed, put⟩ := Inv.put_view growth opened
        (fun q v maps => sharing.sole ⟨opened.1, opened.2.1, rfl⟩ opened.2.2.2
          (fun no => no) maps) (va % 4096) [value]
      rw [asPrivate_row put]
      apply PrivateStep.answered
      simp only [PrivateMachine.next, Machine.asPrivate, Row.store, allowed, Option.map_some]
  · have advance := (Advance.of_growth custody growth).kill used
    refine ⟨.flag false, _, g', loose, ?_, advance.stepped fun _ enough => ?_⟩
    · rw [Action.run, bind_ok ran]
      rfl
    · have refused : (m.asPrivate g p).row.store (m.asPrivate g p).sz va value = none := by
        have access := reason.resolve_left (by simp_all)
        simp only [Row.store, Machine.asPrivate, access, Option.map_none]
      rw [asPrivate_kill, asPrivate_same growth.view]
      apply PrivateStep.answered
      simp only [PrivateMachine.next, refused]

/-- A copy out of user memory. -/
theorem copyin (srcva len : Nat) : Steps layout m g loose (.copyin p srcva len) := by
  obtain ⟨r, isRoot, root, space⟩ := custody.rooted live
  obtain ⟨⟨ok, bytes⟩, s', g', views, run, growth, within, exact_⟩ :=
    custody.inv.copyin root space.guarded space.fits srcva len
  rw [← isRoot] at run
  have advance := Advance.of_effect custody growth.toEffect within.sizes
  refine advance.steps run rfl fun _ enough => ?_
  obtain ⟨same, views⟩ := exact_.resolve_left (by simp_all)
  rw [asPrivate_row (growth.view.trans views)]
  apply PrivateStep.answered
  simp only [PrivateMachine.next, Machine.asPrivate, ← same]

/-- A copy to user memory. -/
theorem copyout (dstva : Nat) (src : List (BitVec 8))
    : Steps layout m g loose (.copyout p dstva src) := by
  obtain ⟨r, isRoot, root, space⟩ := custody.rooted live
  obtain ⟨ok, s', g', views, run, growth, within, exact_⟩ :=
    custody.inv.copyout root space.guarded space.fits dstva src
  rw [← isRoot] at run
  have advance := Advance.of_effect custody growth.toEffect within.sizes
  refine advance.steps run rfl fun cow enough => ?_
  obtain ⟨same, views⟩ := exact_.resolve_left (by simp_all) ⟨cow, fun _ => False.elim⟩
  rw [asPrivate_row (growth.view.trans views)]
  apply PrivateStep.answered
  simp only [PrivateMachine.next, Machine.asPrivate, ← same]

/-- The store-fault handler on its own. -/
theorem uvmcow (va : Nat) : Steps layout m g loose (.uvmcow p va) := by
  obtain ⟨r, isRoot, root, space⟩ := custody.rooted live
  obtain ⟨ok, s', g', run, growth, _⟩ := custody.inv.uvmcow root space.guarded va
  rw [← isRoot] at run
  refine (Advance.of_growth custody growth).steps run rfl fun _ _ => ?_
  rw [asPrivate_same growth.view]
  exact .silent rfl _

/-- The lazy allocator on its own. -/
theorem vmfault (va : Nat) : Steps layout m g loose (.vmfault p va) := by
  obtain ⟨r, isRoot, root, space⟩ := custody.rooted live
  obtain ⟨result, s', g', run, outcome⟩ := custody.inv.vmfault root space.fits va
  rw [← isRoot] at run
  rcases outcome with ⟨rfl, rfl, rfl, blocked⟩ | ⟨below, vacant, rest⟩
  · refine (Advance.refl custody).steps run rfl fun _ _ => ?_
    have untouched : (g'.view m.phys.mem p).touch (m.proc p).sz va = g'.view m.phys.mem p :=
      touch_blocked space.fits blocked
    have view : g'.view m.phys.mem
        = update (g'.view m.phys.mem) p
            ((g'.view m.phys.mem p).touch (m.proc p).sz va) := by
      rw [untouched, update_eq_self]
    exact .silent (congrArg (Prod.mk none) (asPrivate_row view).symm) _
  · rcases rest with ⟨rfl, out, growth⟩ | ⟨n, rfl, small, leaf, growth⟩
    · exact (Advance.of_growth custody growth).steps run rfl fun _ enough => by simp_all
    · have view := growth.view
      rw [← faultIn_vacant below (vacant_view m.phys.mem vacant)] at view
      have within : Within _ (g.view m.phys.mem) p (m.proc p).sz := .faultIn _ p _ va
      rw [faultIn_vacant below (vacant_view m.phys.mem vacant)] at within
      have advance := Advance.of_effect custody growth.toEffect within.sizes
      refine advance.steps run rfl fun _ _ => ?_
      rw [asPrivate_row view]
      exact .silent rfl _

/-- `uvmalloc` and the new size, for `growproc` and `kexec`. -/
theorem grows (fits : newsz ≤ TRAPFRAME) (perm : xperm &&& (PTE_W ||| PTE_X) = xperm)
    : ∃ sz s' g',
      Vm.uvmalloc layout (m.proc p).pagetable (m.proc p).sz newsz xperm m.phys = .ok (sz, s')
      ∧ ((sz = 0 ∧ Advance layout m g loose { m with phys := s' } g'
          ∧ (s'.exhausted = true
            ∨ (max (m.proc p).sz newsz = 0
              ∧ { m with phys := s' }.asPrivate g' = m.asPrivate g)))
        ∨ (sz ≠ 0 ∧ sz = max (m.proc p).sz newsz
          ∧ Advance layout m g loose
              { m with
                phys := s', proc := update m.proc p { m.proc p with sz := sz } } g'
          ∧ { m with
              phys := s', proc := update m.proc p { m.proc p with sz := sz } }.asPrivate
                g'
            = update (m.asPrivate g) p ((m.asPrivate g p).grow newsz xperm))) := by
  have used : (m.proc p).status ≠ .unused := by simp [live]
  obtain ⟨r, isRoot, root, space⟩ := custody.rooted live
  have low : xperm.toNat < 1024 := by
    rw [← perm, BitVec.and_comm]
    exact and_low (by decide)
  have top := pageCount_user fits
  have room : min (pageCount newsz) (pageCount (m.proc p).sz + m.phys.freelist.length)
      ≤ userPages := by omega
  obtain ⟨sz, s', g', run, _, outcome⟩ := custody.inv.uvmalloc root low room
    fun v (above : pageCount (m.proc p).sz ≤ v) user =>
      custody.inv.vacant_of_view user (space.top v above)
  rw [← isRoot] at run
  refine ⟨sz, s', g', run, ?_⟩
  rcases outcome with ⟨rfl, _, _, growth⟩ | ⟨rfl, out, effect⟩
  · rw [freshPage_eq perm] at growth
    by_cases empty : max (m.proc p).sz newsz = 0
    · have none : pageCount newsz ≤ pageCount (m.proc p).sz := by
        simp only [pageCount]
        omega
      rw [filled_empty _ p none] at growth
      exact .inl ⟨empty, .of_growth custody growth,
        .inr ⟨empty, asPrivate_same growth.view⟩⟩
    · refine .inr ⟨empty, rfl, .grow custody used (Nat.le_max_left _ _)
        (Nat.max_le.mpr ⟨space.fits, fits⟩) growth.toEffect fun q v seen => ?_, ?_⟩
      · unfold filled at seen
        split_ifs at seen with inside
        · right
          refine ⟨inside.1, ?_⟩
          simp only [pageCount] at inside ⊢
          omega
        · exact .inl seen
      · exact asPrivate_update (growth.view.trans (filled_row _ p _ _ _)) _
  · exact .inl ⟨rfl, .of_effect custody effect fun _ _ => .inl, .inl out⟩

/-- `uvmdealloc` and the new size, for `growproc` and `kexec`. -/
theorem shrinks (newsz : Nat)
    : ∃ sz s' g',
      Vm.uvmdealloc layout (m.proc p).pagetable (m.proc p).sz newsz m.phys = .ok (sz, s')
      ∧ Advance layout m g loose
          { m with phys := s', proc := update m.proc p { m.proc p with sz := sz } } g'
      ∧ { m with
          phys := s', proc := update m.proc p { m.proc p with sz := sz } }.asPrivate g'
        = update (m.asPrivate g) p ((m.asPrivate g p).shrink newsz) := by
  have used : (m.proc p).status ≠ .unused := by simp [live]
  obtain ⟨r, isRoot, root, space⟩ := custody.rooted live
  obtain ⟨s', g', run, shrinking, _, _⟩ := custody.inv.uvmdealloc root space.fits newsz
  rw [← isRoot] at run
  refine ⟨_, s', g', run, ?_, asPrivate_update (shrinking.view.trans (without_row _ p _ _)) _⟩
  by_cases larger : (m.proc p).sz ≤ newsz
  · have none : pageCount (m.proc p).sz ≤ pageCount newsz := by
      simp only [pageCount]
      omega
    have effect := shrinking.toEffect
    rw [without_empty _ p none] at effect
    rw [if_pos larger]
    exact .grow custody used (Nat.le_refl _) space.fits effect fun _ _ => .inl
  · have fits := space.fits
    rw [if_neg larger]
    exact .shrink custody used (by omega) (Nat.le_refl _) shrinking.toEffect

/-- `uvmalloc` as a step. -/
theorem uvmalloc (fits : newsz ≤ TRAPFRAME) (perm : xperm &&& (PTE_W ||| PTE_X) = xperm)
    : Steps layout m g loose (.uvmalloc p newsz xperm) := by
  obtain ⟨sz, s', g', run, outcome⟩ := custody.grows live fits perm
  rcases outcome with ⟨rfl, advance, reason⟩ | ⟨some, isMax, advance, same⟩
  · refine ⟨.flag false, _, g', loose, ?_, advance.stepped fun _ enough => ?_⟩
    · rw [Action.run, bind_ok (get_run m), bind_ok (onPhys_ok run)]
      rfl
    · obtain ⟨empty, same⟩ := reason.resolve_left (by simp_all)
      rw [same]
      apply PrivateStep.answered
      simp only [PrivateMachine.next, Machine.asPrivate, empty, if_true]
  · refine ⟨.flag true, _, g', loose, ?_, advance.stepped fun _ _ => ?_⟩
    · rw [Action.run, bind_ok (get_run m), bind_ok (onPhys_ok run), if_neg some]
      rfl
    · rw [same]
      apply PrivateStep.answered
      have positive : ¬max (m.proc p).sz newsz = 0 := isMax ▸ some
      simp only [PrivateMachine.next, Machine.asPrivate, positive, if_false]

/-- `uvmdealloc` as a step. -/
theorem uvmdealloc (newsz : Nat) : Steps layout m g loose (.uvmdealloc p newsz) := by
  obtain ⟨sz, s', g', run, advance, same⟩ := custody.shrinks live newsz
  refine ⟨.none, _, g', loose, ?_, advance.stepped fun _ _ => ?_⟩
  · rw [Action.run, bind_ok (get_run m), bind_ok (onPhys_ok run)]
    rfl
  · rw [same]
    exact .answered rfl

/-- `growproc`. -/
theorem growproc (n : BitVec 32)
    : ∃ ok m' g', Vm.growproc layout p n m = .ok (ok, m')
      ∧ Advance layout m g loose m' g'
      ∧ (m'.phys.exhausted = false
        → ok = ((m.asPrivate g p).growproc n).1
          ∧ m'.asPrivate g'
            = update (m.asPrivate g) p ((m.asPrivate g p).growproc n).2) := by
  have keep := Advance.refl custody
  have self : m.asPrivate g = update (m.asPrivate g) p (m.asPrivate g p) :=
    (update_eq_self p _).symm
  unfold Vm.growproc PrivateProc.growproc
  rw [bind_ok (get_run m)]
  by_cases up : 0 < n.toInt
  · simp only [up, if_true]
    by_cases high : TRAPFRAME < addInt (m.proc p).sz n
    · rw [if_pos high, if_pos (by exact high)]
      exact ⟨false, m, g, rfl, keep, fun _ => ⟨rfl, self⟩⟩
    · rw [if_neg high, if_neg (by exact high)]
      obtain ⟨sz, s', g', run, outcome⟩ := custody.grows live
        (by omega : addInt (m.proc p).sz n ≤ TRAPFRAME)
        (by decide : PTE_W &&& (PTE_W ||| PTE_X) = PTE_W)
      rw [bind_ok (onPhys_ok run)]
      rcases outcome with ⟨rfl, advance, reason⟩ | ⟨some, _, advance, same⟩
      · refine ⟨false, _, g', rfl, advance, fun enough => ?_⟩
        obtain ⟨empty, _⟩ := reason.resolve_left (by simp_all)
        have moves := addInt_pos (m.proc p).sz up
        omega
      · rw [if_neg some]
        exact ⟨true, _, g', rfl, advance, fun _ => ⟨rfl, same⟩⟩
  · simp only [up, if_false]
    by_cases down : n.toInt < 0
    · simp only [down, if_true]
      obtain ⟨sz, s', g', run, advance, same⟩ :=
        custody.shrinks live (addInt (m.proc p).sz n)
      rw [bind_ok (onPhys_ok run)]
      exact ⟨true, _, g', rfl, advance, fun _ => ⟨rfl, same⟩⟩
    · simp only [down]
      exact ⟨true, m, g, rfl, keep, fun _ => ⟨rfl, self⟩⟩

/-- `sys_sbrk`, eager or lazy. -/
theorem sysSbrk (n : BitVec 32) (eager : Bool)
    : ∃ result m' g', Vm.sysSbrk layout p n eager m = .ok (result, m')
      ∧ Advance layout m g loose m' g'
      ∧ (m'.phys.exhausted = false
        → result = ((m.asPrivate g p).sbrk n eager).1
          ∧ m'.asPrivate g'
            = update (m.asPrivate g) p ((m.asPrivate g p).sbrk n eager).2) := by
  have used : (m.proc p).status ≠ .unused := by simp [live]
  have keeps := (Growth.refl custody.inv).toEffect
  have keep := Advance.refl custody
  have self : m.asPrivate g = update (m.asPrivate g) p (m.asPrivate g p) :=
    (update_eq_self p _).symm
  unfold Vm.sysSbrk PrivateProc.sbrk
  rw [bind_ok (get_run m)]
  by_cases direct : (eager || decide (n.toInt < 0)) = true
  · simp only [direct, if_true]
    obtain ⟨ok, m', g', run, advance, same⟩ := custody.growproc live n
    rw [bind_ok run]
    cases ok with
    | true =>
      refine ⟨some (m.proc p).sz, m', g', rfl, advance, fun enough => ?_⟩
      obtain ⟨answer, after⟩ := same enough
      simp only [← answer, if_true]
      exact ⟨rfl, after⟩
    | false =>
      refine ⟨none, m', g', rfl, advance, fun enough => ?_⟩
      obtain ⟨answer, after⟩ := same enough
      rw [PrivateProc.growproc_failed answer.symm] at after
      simp only [← answer, Bool.false_eq_true, if_false]
      exact ⟨trivial, after⟩
  · have size : (m.asPrivate g p).sz = (m.proc p).sz := rfl
    simp only [direct, size]
    by_cases wraps : addInt (m.proc p).sz n < (m.proc p).sz
    · simp only [wraps]
      exact ⟨none, m, g, rfl, keep, fun _ => ⟨rfl, self⟩⟩
    · simp only [wraps]
      by_cases high : TRAPFRAME < addInt (m.proc p).sz n
      · simp only [high]
        exact ⟨none, m, g, rfl, keep, fun _ => ⟨rfl, self⟩⟩
      · simp only [high]
        have view : g.view m.phys.mem
            = update (g.view m.phys.mem) p (g.view m.phys.mem p) :=
          (update_eq_self p _).symm
        exact ⟨some (m.proc p).sz, _, g, rfl,
          .grow custody used (by omega) (by omega) keeps fun _ _ => .inl,
          fun _ => ⟨rfl, asPrivate_update view _⟩⟩

/-- `sys_sbrk` as a step, eager or lazy. -/
theorem sbrk (n : BitVec 32) (eager : Bool) : Steps layout m g loose (.sbrk p n eager) := by
  obtain ⟨result, m', g', run, advance, same⟩ := custody.sysSbrk live n eager
  refine ⟨.address result, m', g', loose, ?_, advance.stepped fun _ enough => ?_⟩
  · rw [Action.run, bind_ok run]
    rfl
  · obtain ⟨answer, after⟩ := same enough
    rw [after, answer]
    exact .answered rfl

/-- `uvmclear` on a page that is mapped. -/
theorem uvmclear {va : Nat} (below : va < (m.proc p).sz)
    (mapped : ismapped (m.proc p).pagetable va m.phys = .ok (true, m.phys))
    : Steps layout m g loose (.uvmclear p va) := by
  obtain ⟨r, isRoot, root, space⟩ := custody.rooted live
  have user := user_page below space.fits
  have valid : (g.leaf p (va / 4096)).has PTE_V = true := by
    rw [isRoot, custody.inv.ismapped_run root (user_address user)] at mapped
    simpa using mapped
  obtain ⟨s', g', run, _, _, growth⟩ := custody.inv.uvmclear root user valid
  rw [← isRoot] at run
  refine (Advance.of_effect custody growth.toEffect fun q v seen => .inl ?_).steps run rfl
    fun _ _ => ?_
  · by_cases here : q = p ∧ v = va / 4096
    · obtain ⟨rfl, rfl⟩ := here
      rw [view_of_valid m.phys.mem user valid]
      simp
    · rwa [setAt_other _ _ here] at seen
  · rw [asPrivate_row growth.view]
    exact .answered rfl

/-- `kexit` as a step. -/
theorem exit : Steps layout m g loose (.exit p) := by
  have keep := Advance.refl custody
  have used : (m.proc p).status ≠ .unused := by simp [live]
  refine ⟨.none, _, g, loose, rfl, (keep.kill used).stepped fun _ _ => ?_⟩
  rw [asPrivate_kill]
  exact .answered rfl

end

end Custody

end Xv6.Vm

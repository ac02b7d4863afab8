import Xv6.Vm.MachineSpec

/-! The steps that hand pages over: the allocator itself, processes that start, fork and end,
and the table of shared pages.
-/

namespace Xv6.Vm

open Function Library
open Process (Slot)

variable {layout : Layout} {m : Machine} {g : Ghost Slot} {loose : Nat → Nat}

theorem Advance.of_handover {m' : Machine} {g' : Ghost Slot}
    (custody : Custody layout m' g' loose) (handover : Handover layout m.phys g m'.phys g')
    (shm : m'.shm = m.shm)
    : Advance layout m g loose m' g' where
  custody := custody
  exhausted := handover.exhausted
  frames := shm
  cow _ sharing := sharing.toCow.congr handover.leaf

namespace Custody

variable {pa : Nat} {p : Slot}

-- The allocator

section

variable (custody : Custody layout m g loose)
include custody

/-- `kalloc` puts a page in the hands of the caller. -/
theorem take
    : (∃ s', Vm.kalloc m.phys = .ok (none, s') ∧ s'.exhausted = true
        ∧ Handover layout m.phys g s' g ∧ Custody layout { m with phys := s' } g loose)
      ∨ ∃ n s' g', Vm.kalloc m.phys = .ok (some (4096 * n), s')
        ∧ Handover layout m.phys g s' g'
        ∧ Custody layout { m with phys := s' } g' (bump loose n)
        ∧ InRam layout n ∧ g.held n = 0 ∧ (∀ q v, ¬g.Maps q v n)
        ∧ g'.owner = update g.owner n .data := by
  rcases custody.inv.kalloc_handover with
    ⟨s', run, out, handover⟩ | ⟨n, s', g', run, handover, ram, unheld, unmapped, held, owner⟩
  · exact .inl ⟨s', run, out, handover, custody.handover loose handover fun _ _ => rfl⟩
  · refine .inr ⟨n, s', g', run, handover, custody.handover _ handover fun k _ => ?_, ram, unheld,
      unmapped, owner⟩
    rw [held, bump_eq, bump_eq]
    omega

theorem kalloc : Steps layout m g loose .kalloc := by
  rcases custody.take with
    ⟨s', run, out, handover, custody'⟩ | ⟨n, s', g', run, handover, custody', ram, _⟩
  · refine ⟨.address none, _, g, loose, ?_,
      (Advance.of_handover custody' handover rfl).stepped fun _ _ => ?_⟩
    · rw [Action.run, bind_ok (onPhys_ok run)]
      rfl
    · rw [asPrivate_same handover.view]
      exact .silent rfl _
  · refine ⟨.address (some (4096 * n)), _, g', loose, ?_,
      (Advance.of_handover (custody'.own ram) handover rfl).stepped fun _ _ => ?_⟩
    · rw [Action.run, bind_ok (onPhys_ok run)]
      rfl
    · have same : { m with phys := s', held := (4096 * n) :: m.held }.asPrivate g'
          = m.asPrivate g := asPrivate_same handover.view
      rw [same]
      exact .silent rfl _

theorem incref (member : pa ∈ m.held) : Steps layout m g loose (.incref pa) := by
  obtain ⟨n, rfl, ram⟩ := custody.owned pa member
  have token := List.count_pos_iff.mpr member
  have held := custody.data_of_token ram (by simp only [Machine.tokens]; omega)
  obtain ⟨s', run, handover⟩ := custody.inv.incref_handover (custody.inv.held_data held)
  have custody' := custody.handover (bump loose n) handover fun k _ => by
    simp only [bump_eq]
    omega
  refine ⟨.none, _, _, loose, ?_,
    (Advance.of_handover (custody'.own ram) handover rfl).stepped fun _ _ => ?_⟩
  · rw [Action.run, bind_ok (onPhys_ok run)]
    rfl
  · exact .silent (congrArg (Prod.mk none) (asPrivate_same handover.view).symm) _

theorem kfree (member : pa ∈ m.held) : Steps layout m g loose (.kfree pa) := by
  obtain ⟨n, rfl, ram⟩ := custody.owned pa member
  have token := List.count_pos_iff.mpr member
  have held := custody.data_of_token ram (by simp only [Machine.tokens]; omega)
  obtain ⟨s', g', run, handover, returned, _⟩ := custody.inv.kfree_handover held
  have custody' := (custody.disown member).handover loose handover fun k _ => by
    rw [← returned, bump_eq, bump_eq]
    omega
  refine ⟨.none, _, g', loose, ?_,
    (Advance.of_handover custody' handover rfl).stepped fun _ _ => ?_⟩
  · rw [Action.run, bind_ok (onPhys_ok run)]
    rfl
  · exact .silent (congrArg (Prod.mk none) (asPrivate_same handover.view).symm) _

-- Processes that end

theorem root_positive {r : Nat} (root : g.table (.root p) = some r) : 0 < r := by
  have owner := (custody.inv.accounts.tables _ r).mpr root
  exact ((custody.inv.accounts.ram r).mp (by simp [owner])).positive

/-- `freeproc` gives back all the memory of a process. -/
theorem freeproc (used : (m.proc p).status ≠ .unused)
    : ∃ s' g', Vm.freeproc layout p m
        = .ok ((), { m with phys := s', proc := update m.proc p {} })
      ∧ Custody layout { m with phys := s', proc := update m.proc p {} } g' loose
      ∧ s'.exhausted = m.phys.exhausted
      ∧ (∀ shared, Cow shared g → Cow shared g')
      ∧ g'.view s'.mem = update (g.view m.phys.mem) p fun _ => none := by
  have space := (custody.seats p).space used
  obtain ⟨r, isRoot, root⟩ := space.root
  obtain ⟨t, isFrame, ram⟩ := space.trapframe
  have rootPositive := custody.root_positive root
  have framePositive := ram.positive
  have held := (custody.trapframe_held framePositive isFrame).2
  obtain ⟨s₁, g₁, run₁, handover, returned, out₁⟩ := custody.inv.kfree_handover held
  obtain ⟨s₂, g₂, run₂, turnover, gone, out₂, _⟩ := handover.inv.procFreepagetable
    (by rw [handover.table]; exact root) space.fits (by rw [handover.view]; exact space.top)
  have ran : freeMemory layout (m.proc p) m.phys = .ok ((), s₂) := by
    unfold freeMemory
    rw [isFrame, isRoot, if_pos (by omega), if_pos (by omega), bind_ok run₁]
    exact run₂
  refine ⟨s₂, g₂, ?_, custody.unseat used isFrame handover returned turnover gone,
    out₂.trans out₁, fun shared cow => turnover.cow shared (cow.congr handover.leaf), ?_⟩
  · unfold Vm.freeproc
    rw [bind_ok (get_run m), bind_ok (onPhys_ok ran)]
    rfl
  · rw [turnover.view, handover.view]

theorem reap (zombie : (m.proc p).status = .zombie) : Steps layout m g loose (.reap p) := by
  obtain ⟨s', g', run, custody', out, cow, view⟩ := custody.freeproc (p := p) (by simp [zombie])
  have advance : Advance layout m g loose _ g' :=
    ⟨custody', fun before => out.trans before, rfl, fun shared sharing => cow shared sharing.toCow⟩
  refine ⟨.none, _, g', loose, ?_, advance.stepped fun _ _ => ?_⟩
  · rw [Action.run, bind_ok run]
    rfl
  · rw [asPrivate_update view]
    exact .answered rfl

end

-- Processes that start

theorem freeSlot_unused {proc : Slot → Proc} (found : freeSlot proc = some p)
    : (proc p).status = .unused := by
  have test := List.find?_some found
  simpa using test

/-- `freeproc` of a slot without a page table. -/
theorem freeproc_unseated (s' : Phys) (noTable : (m.proc p).pagetable = 0)
    (frame
      : ((m.proc p).trapframe = 0 ∧ s' = m.phys)
        ∨ ((m.proc p).trapframe ≠ 0
          ∧ Vm.kfree layout (m.proc p).trapframe m.phys = .ok ((), s')))
    : Vm.freeproc layout p m
      = .ok ((), { m with phys := s', proc := update m.proc p {} }) := by
  have ran : freeMemory layout (m.proc p) m.phys = .ok ((), s') := by
    unfold freeMemory
    rw [noTable]
    rcases frame with ⟨noFrame, rfl⟩ | ⟨frame, run⟩
    · rw [noFrame]
      rfl
    · rw [if_pos frame, bind_ok run]
      rfl
  unfold Vm.freeproc
  rw [bind_ok (get_run m), bind_ok (onPhys_ok ran)]
  rfl

section

variable (custody : Custody layout m g loose)
include custody

/-- `allocproc` seats a process with no memory, or memory is out and nothing changes. -/
theorem allocproc
    : ∃ result m' g', Vm.allocproc layout m = .ok (result, m')
      ∧ Advance layout m g loose m' g'
      ∧ g'.view m'.phys.mem = g.view m.phys.mem
      ∧ ((result = none ∧ m'.proc = m.proc
          ∧ (freeSlot m.proc = none ∨ m'.phys.exhausted = true))
        ∨ ∃ p r t, result = some p ∧ freeSlot m.proc = some p
          ∧ m'.proc = update m.proc p
              { status := .live, pagetable := 4096 * r, trapframe := 4096 * t }
          ∧ (∀ q v n, g'.Maps q v n → g.Maps q v n)
          ∧ ∀ n, g.owner n = .data → g'.owner n = .data) := by
  unfold Vm.allocproc
  rw [bind_ok (get_run m)]
  cases found : freeSlot m.proc with
  | none =>
    exact ⟨none, m, g, rfl,
      .of_effect custody (Growth.refl custody.inv).toEffect fun _ _ => .inl, rfl,
      .inl ⟨rfl, rfl, .inl rfl⟩⟩
  | some p =>
  have unused := freeSlot_unused found
  obtain ⟨empty, absent⟩ := (custody.seats p).vacant unused
  have same : update m.proc p {} = m.proc := by
    rw [← empty, update_eq_self]
  dsimp only
  rcases custody.take with ⟨s₁, run₁, out, handover, custody₁⟩
    | ⟨t, s₁, g₁, run₁, handover, custody₁, ram, unheld, unmapped, owner⟩
  · have freed : Vm.freeproc layout p { m with phys := s₁ }
        = .ok ((), { m with phys := s₁ }) := by
      rw [freeproc_unseated s₁ (by rw [empty]) (.inl ⟨by rw [empty], rfl⟩)]
      simp only [same]
    rw [bind_ok (onPhys_ok run₁)]
    dsimp only
    rw [bind_ok freed]
    exact ⟨none, _, g, rfl, .of_handover custody₁ handover rfl, handover.view,
      .inl ⟨rfl, rfl, .inr out⟩⟩
  · have positive := ram.positive
    have unregistered := (custody.unrecorded ram unheld).1
    have inHand : 0 < g₁.held t := by
      rw [custody₁.held t ram, bump, update_self]
      omega
    obtain ⟨result, s₂, g₂, run₂, turnover, _, outcome⟩ := custody₁.inv.procPagetable
      (by rw [handover.table]; exact absent) (4096 * t)
    rw [bind_ok (onPhys_ok run₁)]
    dsimp only
    have ran : onPhys (procPagetable layout (4096 * t))
        { m with
          phys := s₁
          proc := update m.proc p { status := .live, trapframe := 4096 * t } }
        = .ok (result, { m with
            phys := s₂
            proc := update m.proc p { status := .live, trapframe := 4096 * t } }) :=
      onPhys_ok run₂
    rw [bind_ok (setProc_run p _), bind_ok ran]
    rcases outcome with ⟨rfl, out, gone⟩ | ⟨r, rfl, root, mapped, guarded, data⟩
    · obtain ⟨s₃, g₃, run₃, handover₃, returned, out₃⟩ :=
        turnover.inv.kfree_handover (by rw [turnover.held]; exact inHand)
      have freed : Vm.freeproc layout p
          { m with
            phys := s₂
            proc := update m.proc p { status := .live, trapframe := 4096 * t } }
          = .ok ((), { m with phys := s₃ }) := by
        rw [freeproc_unseated s₃ (by simp) (.inr ⟨by simp; omega, by simpa using run₃⟩)]
        simp only [update_idem, same]
      have custody₃ :=
        (custody₁.abandon unused turnover gone).handover loose handover₃ fun k _ => by
        rw [← returned, bump_eq, bump_eq]
        omega
      dsimp only
      rw [bind_ok freed]
      refine ⟨none, _, g₃, rfl, ⟨custody₃, fun before => ?_, rfl, fun shared sharing => ?_⟩,
        ?_, .inl ⟨rfl, rfl, .inr (out₃.trans out)⟩⟩
      · exact handover₃.exhausted (turnover.exhausted (handover.exhausted before))
      · exact (turnover.cow shared (sharing.toCow.congr handover.leaf)).congr handover₃.leaf
      · rw [handover₃.view, turnover.view, handover.view]
    · have seated := custody₁.seat unused turnover root mapped guarded ram
        (fun q v maps => unmapped q v (maps.congr handover.leaf)) unregistered
      refine ⟨some p, { m with
          phys := s₂
          proc := update m.proc p
            { status := .live, pagetable := 4096 * r, trapframe := 4096 * t } }, g₂, ?_,
        ⟨seated, fun before => turnover.exhausted (handover.exhausted before), rfl,
          fun shared sharing => turnover.cow shared (sharing.toCow.congr handover.leaf)⟩,
        turnover.view.trans handover.view, .inr ⟨p, r, t, rfl, rfl, rfl,
          fun q v n maps => (turnover.fewer maps).congr handover.leaf, fun n isData =>
            data n ?_⟩⟩
      · dsimp only
        rw [bind_ok (setProc_run p _)]
        simp only [update_idem]
        rfl
      · rw [owner]
        by_cases isNew : n = t
        · rw [isNew, update_self]
        · rw [update_of_ne isNew, isData]

theorem unused_view (unused : (m.proc p).status = .unused)
    : g.view m.phys.mem p = fun _ => none := by
  funext v
  exact vacant_view _ (custody.inv.absent_leaf ((custody.seats p).vacant unused).2 v)

theorem userinit : Steps layout m g loose .userinit := by
  obtain ⟨result, m', g', run, advance, view, outcome⟩ := custody.allocproc
  refine ⟨.forked result, m', g', loose, ?_, advance.stepped fun _ enough => ?_⟩
  · rw [Action.run, bind_ok run]
    rfl
  rcases outcome with ⟨rfl, procs, reason⟩ | ⟨p, r, t, rfl, found, procs, _⟩
  · have full : (m.asPrivate g).freeSlot = none := reason.resolve_right (by simp_all)
    have same : m'.asPrivate g' = m.asPrivate g := by
      funext q
      simp only [Machine.asPrivate, procs, view]
    rw [same]
    apply PrivateStep.answered
    simp only [PrivateMachine.next, full]
  · have slot : (m.asPrivate g).freeSlot = some p := found
    have noPages := custody.unused_view (freeSlot_unused found)
    have noRow : g'.view m'.phys.mem
        = update (g.view m.phys.mem) p fun _ => none := by
      rw [view, ← noPages, update_eq_self]
    rw [asPrivate_of procs noRow]
    apply PrivateStep.answered
    simp only [PrivateMachine.next, slot]

-- fork

/-- Copying the trapframe changes a page that only the kernel has. -/
theorem copyTrapframe {q : Slot} {n : Nat} (isFrame : (m.proc q).trapframe = 4096 * n)
    (positive : 0 < n) (src : Nat)
    : ∃ s', Vm.copyTrapframe (4096 * n) src m.phys = .ok ((), s')
      ∧ Handover layout m.phys g s' g ∧ s'.exhausted = m.phys.exhausted := by
  have data := custody.inv.held_data (custody.trapframe_held positive isFrame).2
  have unmapped := (custody.exclusive q n positive isFrame).1
  have first := custody.inv.write_handover data unmapped
    ((m.phys.mem n).write 0 ((List.range 288).map (fun i => (m.phys.page src).byte (0 + i))))
  have second := first.inv.write_handover data unmapped
    (((m.phys.mem n).write 0
      ((List.range 288).map (fun i => (m.phys.page src).byte (0 + i)))).write 112
        (List.replicate 8 0))
  refine ⟨_, ?_, first.trans second, rfl⟩
  unfold Vm.copyTrapframe
  rw [bind_ok (rfl : loadBytes src 0 288 m.phys = .ok (_, m.phys)),
    bind_ok (storeBytes_run m.phys n _ _), storeBytes_run]
  simp [Phys.storeAt]

end

theorem isSharedPage_iff {frames : Fin 8 → Frame}
    : isSharedPage frames pa = true ↔ ∃ i, (frames i).pa = pa := by
  simp [isSharedPage]

section

variable (custody : Custody layout m g loose)
include custody

theorem forkFits {shared : Nat → Prop} (registered : ∀ n, m.registers n → shared n)
    (knows : m.KnowsShared g shared p)
    : ForkFits (isSharedPage m.shm) shared g p where
  only v n maps isRegistered := by
    obtain ⟨user, valid, rfl⟩ := maps
    have data := custody.inv.leaf_data user valid
    have ram : InRam layout (g.leaf p v).ppn :=
      (custody.inv.accounts.ram _).mp (by simp [data])
    exact registered _ ⟨ram.positive, isSharedPage_iff.mp isRegistered⟩
  all v n maps isShared := isSharedPage_iff.mpr (knows v n maps isShared).2

/-- The second half of `kfork`, once the child has its slot. -/
theorem forksInto {np : Slot} {r t : Nat} (live : (m.proc p).status = .live) (distinct : p ≠ np)
    (child : m.proc np = { status := .live, pagetable := 4096 * r, trapframe := 4096 * t })
    : ∃ ok s₁ g₁, uvmcopy layout (isSharedPage m.shm) (m.proc p).pagetable
          (m.proc np).pagetable (m.proc p).sz m.phys = .ok (ok, s₁)
      ∧ (m.phys.exhausted = true → s₁.exhausted = true)
      ∧ (∀ shared, Sharing shared g → ForkFits (isSharedPage m.shm) shared g p
        → Cow shared g₁)
      ∧ ((ok = false ∧ s₁.exhausted = true ∧ Custody layout { m with phys := s₁ } g₁ loose)
        ∨ (ok = true
          ∧ Custody layout { m with
              phys := s₁
              proc := update m.proc np { m.proc np with sz := (m.proc p).sz } } g₁ loose
          ∧ g₁.view s₁.mem
            = update (g.view m.phys.mem) np (g.view m.phys.mem p))) := by
  have used : (m.proc np).status ≠ .unused := by simp [child]
  have parent := (custody.seats p).space (by simp [live])
  have space := (custody.seats np).space used
  obtain ⟨rOld, isOld, rootOld⟩ := parent.root
  obtain ⟨rNew, isNew, rootNew⟩ := space.root
  have vacant (v : Nat) : g.view m.phys.mem np v = none :=
    space.top v (by simp [child, pageCount])
  obtain ⟨ok, s₁, g₁, run, outcome⟩ := custody.inv.uvmcopy (isSharedPage m.shm) distinct rootOld
    rootNew parent.fits parent.top vacant
  rw [← isOld, ← isNew] at run
  refine ⟨ok, s₁, g₁, run, ?_⟩
  rcases outcome with ⟨rfl, copying⟩ | ⟨rfl, out, change, cow⟩
  · refine ⟨copying.exhausted,
      fun shared sharing fits => (copying.sharing shared fits sharing).toCow,
      .inr ⟨rfl, ?_, copying.view⟩⟩
    have resized := custody.resize { m.proc np with sz := (m.proc p).sz } used used rfl rfl
      parent.fits fun v _ => vacant v
    refine resized.change copying.toChange fun q v seen => ?_
    by_cases here : q = np
    · subst here
      have below := parent.below (by rwa [update_self] at seen)
      right
      simp only [update_self, pageCount] at below ⊢
      omega
    · rw [update_of_ne here] at seen
      exact .inl seen
  · exact ⟨change.exhausted, fun shared sharing fits => cow shared fits sharing,
      .inl ⟨rfl, out, custody.change change fun _ _ => .inl⟩⟩

/-- `kfork` gives the child all the pages of its parent, or nothing changes. -/
theorem forks (live : (m.proc p).status = .live)
    : ∃ result m' g', Vm.kfork layout p m = .ok (result, m')
      ∧ Custody layout m' g' loose
      ∧ (m.phys.exhausted = true → m'.phys.exhausted = true)
      ∧ m'.shm = m.shm
      ∧ (∀ shared, Sharing shared g → (∀ n, m.registers n → shared n)
        → m.KnowsShared g shared p → Cow shared g')
      ∧ ((result = none
          ∧ (m'.phys.exhausted = true
            ∨ freeSlot m.proc = none ∧ m'.asPrivate g' = m.asPrivate g))
        ∨ ∃ np, result = some np ∧ freeSlot m.proc = some np
          ∧ m'.asPrivate g' = update (m.asPrivate g) np
              { status := .live, sz := (m.proc p).sz, row := g.view m.phys.mem p }) := by
  unfold Vm.kfork
  obtain ⟨result, m₁, g₁, run₁, advance, view₁, outcome⟩ := custody.allocproc
  rw [bind_ok run₁]
  rcases outcome with ⟨rfl, procs, reason⟩ | ⟨np, r, t, rfl, found, procs, fewer, data⟩
  · refine ⟨none, m₁, g₁, rfl, advance.custody, advance.exhausted, advance.frames,
      fun shared sharing _ _ => advance.cow shared sharing, .inl ⟨rfl, ?_⟩⟩
    rcases reason with full | out
    · refine .inr ⟨full, ?_⟩
      funext q
      simp only [Machine.asPrivate, procs, view₁]
    · exact .inl out
  have custody₁ := advance.custody
  have distinct : p ≠ np := by
    rintro rfl
    rw [freeSlot_unused found] at live
    cases live
  have parent : m₁.proc p = m.proc p := by rw [procs, update_of_ne distinct]
  have child : m₁.proc np
      = { status := .live, pagetable := 4096 * r, trapframe := 4096 * t } := by
    rw [procs, update_self]
  have positive : 0 < t := by
    have space := (custody₁.seats np).space (by simp [child])
    rw [child] at space
    exact space.trapframe.page.positive
  obtain ⟨ok, s₂, g₂, run₂, exhausted₂, cow₂, outcome₂⟩ :=
    custody₁.forksInto (by rw [parent]; exact live) distinct child
  have sharing₂ (shared : Nat → Prop) (sharing : Sharing shared g)
      (registered : ∀ n, m.registers n → shared n) (knows : m.KnowsShared g shared p)
      : Cow shared g₂ := by
    have same {n : Nat} : m₁.registers n ↔ m.registers n := by
      rw [Machine.registers, Machine.registers, advance.frames]
    refine cow₂ shared ⟨advance.cow shared sharing, fun n isShared =>
      data n (sharing.data n isShared)⟩ (custody₁.forkFits
        (fun n isRegistered => registered n (same.mp isRegistered)) fun v n maps isShared => ?_)
    exact same.mpr (knows v n (fewer p v n maps) isShared)
  dsimp only
  rw [bind_ok (get_run m₁), bind_ok (onPhys_ok run₂)]
  rcases outcome₂ with ⟨rfl, out, custody₂⟩ | ⟨rfl, custody₂, view₂⟩
  · obtain ⟨s₃, g₃, run₃, custody₃, out₃, cow₃, _⟩ :=
      custody₂.freeproc (p := np) (by simp [child])
    rw [if_neg Bool.false_ne_true, bind_ok run₃]
    exact ⟨none, _, g₃, rfl, custody₃, fun before => out₃.trans out, advance.frames,
      fun shared sharing registered knows =>
        cow₃ shared (sharing₂ shared sharing registered knows), .inl ⟨rfl, .inl (out₃.trans out)⟩⟩
  · have isFrame : (update m₁.proc np
        { m₁.proc np with sz := (m₁.proc p).sz } np).trapframe = 4096 * t := by
      simp [child]
    obtain ⟨s₃, run₃, handover, out₃⟩ :=
      custody₂.copyTrapframe isFrame positive (m₁.proc p).trapframe
    have ran : onPhys (Vm.copyTrapframe (m₁.proc np).trapframe (m₁.proc p).trapframe)
        { m₁ with
          phys := s₂
          proc := update m₁.proc np { m₁.proc np with sz := (m₁.proc p).sz } }
        = .ok ((), { m₁ with
            phys := s₃
            proc := update m₁.proc np { m₁.proc np with sz := (m₁.proc p).sz } }) := by
      rw [child] at run₃ ⊢
      exact onPhys_ok run₃
    rw [if_pos rfl, bind_ok (setProc_run np _), bind_ok ran]
    refine ⟨some np, _, g₂, rfl, custody₂.handover loose handover fun _ _ => rfl,
      fun before => handover.exhausted (exhausted₂ (advance.exhausted before)), advance.frames,
      sharing₂, .inr ⟨np, rfl, found, ?_⟩⟩
    have procs' : update m₁.proc np { m₁.proc np with sz := (m₁.proc p).sz }
        = update m.proc np
            { status := .live
              sz := (m.proc p).sz
              pagetable := 4096 * r
              trapframe := 4096 * t } := by
      rw [child, parent, procs, update_idem]
    have view : g₂.view s₃.mem
        = update (g.view m.phys.mem) np (g.view m.phys.mem p) := by
      rw [handover.view, view₂, view₁]
    exact @asPrivate_of m g np g₂ _ { m₁ with
      phys := s₃
      proc := update m₁.proc np { m₁.proc np with sz := (m₁.proc p).sz } } _ procs' view

theorem kfork (live : (m.proc p).status = .live) : Steps layout m g loose (.kfork p) := by
  obtain ⟨result, m', g', run, custody', exhausted, frames, cow, outcome⟩ := custody.forks live
  refine ⟨.forked result, m', g', loose, ?_, custody', fun _ => rfl, exhausted, fun _ => frames,
    fun shared sharing registered knows => ?_, fun _ _ enough => ?_⟩
  · rw [Action.run, bind_ok run]
    rfl
  · exact (cow shared sharing registered (knows p rfl)).registered (registers_of_frames frames)
      registered
  · rcases outcome with ⟨rfl, reason⟩ | ⟨np, rfl, found, same⟩
    · obtain ⟨full, same⟩ := reason.resolve_left (by simp_all)
      have slot : (m.asPrivate g).freeSlot = none := full
      rw [same]
      apply PrivateStep.answered
      simp only [PrivateMachine.next, slot]
    · have slot : (m.asPrivate g).freeSlot = some np := found
      rw [same]
      apply PrivateStep.answered
      simp only [PrivateMachine.next, slot]
      rfl

end

end Custody

end Xv6.Vm

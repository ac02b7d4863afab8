import Xv6.Vm.ProcessSpec

/-! The table of shared pages: `shm_open` and `shm_close`. A page in the table is shared from
the moment it is entered; `shm_open` maps it at the end of the caller's memory.
-/

namespace Xv6.Vm

open Function Library
open Process (Slot)

variable {layout : Layout} {m : Machine} {g : Ghost Slot} {loose : Nat → Nat} {i : Fin 8}

theorem findFrame_some {frames : Fin 8 → Frame} {id : BitVec 32}
    (found : findFrame frames id = some i)
    : (frames i).pa ≠ 0 := by
  have test := List.find?_some found
  simp only [Bool.and_eq_true, bne_iff_ne] at test
  exact test.2

theorem freeFrame_some {frames : Fin 8 → Frame} (found : freeFrame frames = some i)
    : (frames i).pa = 0 := by
  have test := List.find?_some found
  simpa using test

/-- Entering or removing a frame changes what is registered accordingly. -/
theorem registers_update {frame : Frame} {m' : Machine}
    (shm : m'.shm = update m.shm i frame) (k : Nat)
    : m'.registers k
      ↔ 0 < k ∧ (frame.pa = 4096 * k ∨ ∃ j, j ≠ i ∧ (m.shm j).pa = 4096 * k) := by
  simp only [Machine.registers, shm]
  refine and_congr_right fun _ => ⟨?_, fun either => ?_⟩
  · rintro ⟨j, same⟩
    by_cases here : j = i
    · rw [here, update_self] at same
      exact .inl same
    · rw [update_of_ne here] at same
      exact .inr ⟨j, here, same⟩
  · rcases either with same | ⟨j, other, same⟩
    · exact ⟨i, by rw [update_self, same]⟩
    · exact ⟨j, by rw [update_of_ne other, same]⟩

theorem registers_same (i : Fin 8) (frame : Frame) {m' : Machine}
    (shm : m'.shm = update m.shm i frame) (pa : frame.pa = (m.shm i).pa) (k : Nat)
    : m'.registers k ↔ m.registers k := by
  rw [registers_update shm]
  refine and_congr_right fun _ => ⟨fun either => ?_, ?_⟩
  · rcases either with same | ⟨j, _, same⟩
    · exact ⟨i, pa ▸ same⟩
    · exact ⟨j, same⟩
  · rintro ⟨j, same⟩
    by_cases here : j = i
    · exact .inl (by rw [pa, ← here, same])
    · exact .inr ⟨j, here, same⟩

theorem setFrame_run (i : Fin 8) (frame : Frame)
    : setFrame i frame m = .ok ((), { m with shm := update m.shm i frame }) :=
  rfl

/-- What `shm_open` has done when it has found or made a page. -/
structure Obtained (layout : Layout) (m : Machine) (g : Ghost Slot) (n : Nat) (m' : Machine)
    (g' : Ghost Slot) : Prop where
  handover : Handover layout m.phys g m'.phys g'
  ram : InRam layout n
  procs : m'.proc = m.proc
  registered : m'.registers n
  kept : ∀ k, m.registers k → m'.registers k
  added : ∀ k, m'.registers k → m.registers k ∨ (k = n ∧ ∀ q v, ¬g.Maps q v n)

/-- The page is shared from now on. -/
theorem Obtained.cow {n : Nat} {m' : Machine} {g' : Ghost Slot}
    (obtained : Obtained layout m g n m' g') {shared : Nat → Prop} (cow : Cow shared g)
    (registered : ∀ n, m.registers n → shared n)
    : Cow (fun k => shared k ∨ m'.registers k) g' := by
  have leaf := obtained.handover.leaf
  refine ⟨fun {q v k} maps isShared => ?_, fun maps writable isPrivate maps' => ?_⟩
  · have before := maps.congr leaf
    rw [leaf]
    refine cow.write before ?_
    rcases isShared with already | isRegistered
    · exact already
    · rcases obtained.added k isRegistered with already | ⟨rfl, unmapped⟩
      · exact registered k already
      · exact (unmapped q v before).elim
  · rw [leaf] at writable
    exact cow.sole (maps.congr leaf) writable (fun isShared => isPrivate (.inl isShared))
      (maps'.congr leaf)

/-- How finding or making the page ends. -/
def Gets (layout : Layout) (m : Machine) (g : Ghost Slot) (loose : Nat → Nat)
    (code : Sys (Option Nat)) : Prop :=
  ∃ result m' g', code m = .ok (result, m')
    ∧ ((result = none ∧ Custody layout m' g' loose ∧ Handover layout m.phys g m'.phys g'
        ∧ m'.shm = m.shm)
      ∨ ∃ n, result = some (4096 * n) ∧ Custody layout m' g' (bump loose n)
        ∧ Obtained layout m g n m' g')

namespace Custody

variable {p : Slot}

section

variable (custody : Custody layout m g loose)
include custody

/-- A reference more to a page that is registered. -/
theorem obtainAgain {i : Fin 8} (used : (m.shm i).pa ≠ 0)
    : Gets layout m g loose (do
        setFrame i { m.shm i with ref := (m.shm i).ref + 1 }
        onPhys (Vm.incref (m.shm i).pa)
        return some (m.shm i).pa) := by
  obtain ⟨n, isPage, ram⟩ := custody.frames i used
  have counted := countWhere_pos (fun frame => frame.pa == 4096 * n) m.shm i (by simp [isPage])
  have held := custody.data_of_token ram (by simp only [Machine.tokens]; omega)
  obtain ⟨s', run, handover⟩ := custody.inv.incref_handover (custody.inv.held_data held)
  have reframed := custody.reframe i { m.shm i with ref := (m.shm i).ref + 1 } loose (.inr rfl)
    fun _ _ => rfl
  have custody' := reframed.handover (bump loose n) handover fun k _ => by
    simp only [bump_eq]
    omega
  have same (k : Nat) : { m with
      phys := s'
      shm := update m.shm i { m.shm i with ref := (m.shm i).ref + 1 } }.registers k
      ↔ m.registers k := registers_same i { m.shm i with ref := (m.shm i).ref + 1 } rfl rfl k
  refine ⟨_, _, _, ?_, .inr ⟨n, rfl, custody', handover, ram, rfl,
    (same n).mpr ⟨ram.positive, i, isPage⟩, fun k => (same k).mpr,
    fun k isRegistered => .inl ((same k).mp isRegistered)⟩⟩
  have ran : onPhys (Vm.incref (4096 * n))
      { m with shm := update m.shm i { m.shm i with ref := (m.shm i).ref + 1 } }
      = .ok ((), { m with
          phys := s'
          shm := update m.shm i { m.shm i with ref := (m.shm i).ref + 1 } }) :=
    onPhys_ok run
  rw [isPage, bind_ok (setFrame_run i _), bind_ok ran]
  rfl

/-- A new page in the table, mapped nowhere yet. -/
theorem obtainNew {i : Fin 8} (id : BitVec 32) (isFree : (m.shm i).pa = 0)
    : Gets layout m g loose (do
        match ← onPhys Vm.kalloc with
        | none => return none
        | some pa =>
          onPhys (zeroPage pa)
          setFrame i { id := id, pa := pa, ref := 1 }
          onPhys (Vm.incref pa)
          return some pa) := by
  unfold Gets
  rcases custody.take with ⟨s₁, run₁, out, handover, custody₁⟩
    | ⟨n, s₁, g₁, run₁, handover₁, custody₁, ram, unheld, unmapped, owner⟩
  · rw [bind_ok (onPhys_ok run₁)]
    exact ⟨none, _, g, rfl, .inl ⟨rfl, custody₁, handover, rfl⟩⟩
  · obtain ⟨unregistered, noFrame⟩ := custody.unrecorded ram unheld
    have data : g₁.owner n = .data := by rw [owner, update_self]
    have handover₂ := handover₁.inv.write_handover data
      (fun q v maps => unmapped q v (maps.congr handover₁.leaf)) (pageOf 0)
    have custody₂ := custody₁.handover (bump loose n) handover₂ fun _ _ => rfl
    have custody₃ := custody₂.register { id := id, pa := 4096 * n, ref := 1 } rfl
      isFree ram unregistered noFrame
    obtain ⟨s₄, run₄, handover₄⟩ := handover₂.inv.incref_handover data
    have custody₄ := custody₃.handover (bump loose n) handover₄ fun k _ => by
      simp only [bump_eq]
      omega
    have entered (k : Nat) : { m with
        phys := s₄
        shm := update m.shm i { id := id, pa := 4096 * n, ref := 1 } }.registers k
        ↔ _ := registers_update (i := i) (m := m) rfl k
    refine ⟨_, _, _, ?_, .inr ⟨n, rfl, custody₄, (handover₁.trans handover₂).trans handover₄, ram,
      rfl, (entered n).mpr ⟨ram.positive, .inl rfl⟩, fun k => ?_, fun k isRegistered => ?_⟩⟩
    · rw [bind_ok (onPhys_ok run₁)]
      dsimp only
      have zeroed : onPhys (zeroPage (4096 * n)) { m with phys := s₁ }
          = .ok ((), { m with
              phys := { s₁ with mem := update s₁.mem n (pageOf 0) } }) :=
        onPhys_ok (zeroPage_run s₁ n)
      have ran : onPhys (Vm.incref (4096 * n))
          { m with
            phys := { s₁ with mem := update s₁.mem n (pageOf 0) }
            shm := update m.shm i { id := id, pa := 4096 * n, ref := 1 } }
          = .ok ((), { m with
              phys := s₄
              shm := update m.shm i { id := id, pa := 4096 * n, ref := 1 } }) :=
        onPhys_ok run₄
      rw [bind_ok zeroed, bind_ok (setFrame_run i _), bind_ok ran]
      rfl
    · rintro ⟨positive, j, same⟩
      have other : j ≠ i := by
        rintro rfl
        omega
      exact (entered k).mpr ⟨positive, .inr ⟨j, other, same⟩⟩
    · obtain ⟨positive, same | ⟨j, _, same⟩⟩ := (entered k).mp isRegistered
      · right
        have : k = n := by
          simp only at same
          omega
        exact ⟨this, unmapped⟩
      · exact .inl ⟨positive, j, same⟩

/-- The part of `shm_open` that finds or makes the page. -/
theorem shmGet (id : BitVec 32)
    : Gets layout m g loose (Vm.shmGet id) := by
  have keep : Handover layout m.phys g m.phys g := ⟨custody.inv, rfl, rfl, rfl, fun out => out⟩
  unfold Vm.shmGet Gets
  rw [bind_ok (get_run m)]
  cases found : findFrame m.shm id with
  | some i => exact custody.obtainAgain (findFrame_some found)
  | none =>
    cases room : freeFrame m.shm with
    | none => exact ⟨none, m, g, rfl, .inl ⟨rfl, custody, keep, rfl⟩⟩
    | some i => exact custody.obtainNew id (freeFrame_some room)

end

/-- Mapping the page in hand at the end of the caller's memory. At the very end of user memory
`mappages` finds the trapframe and panics.
-/
theorem shmMap {n : Nat} (custody : Custody layout m g (bump loose n))
    (live : (m.proc p).status = .live) (ram : InRam layout n) (registered : m.registers n)
    : (userPages ≤ pageCount (m.proc p).sz
        ∧ mappages (m.proc p).pagetable (PGROUNDUP (m.proc p).sz) 4096 (4096 * n)
            (PTE_W ||| PTE_R ||| PTE_U) m.phys = .error "mappages: remap")
      ∨ (pageCount (m.proc p).sz < userPages
        ∧ ∃ ok s' g', mappages (m.proc p).pagetable (PGROUNDUP (m.proc p).sz) 4096 (4096 * n)
              (PTE_W ||| PTE_R ||| PTE_U) m.phys = .ok (ok, s')
          ∧ ((ok = false ∧ m.phys.freelist.length < g.missing p (pageCount (m.proc p).sz)
              ∧ g'.leaf = g.leaf ∧ (m.phys.exhausted = true → s'.exhausted = true)
              ∧ Custody layout { m with phys := s' } g' (bump loose n))
            ∨ (ok = true ∧ g.missing p (pageCount (m.proc p).sz) ≤ m.phys.freelist.length
              ∧ Lent p (pageCount (m.proc p).sz) n (PTE_W ||| PTE_R ||| PTE_U) layout m.phys g
                  s' g'
              ∧ Custody layout
                  { m with
                    phys := s'
                    proc := update m.proc p
                      { m.proc p with sz := PGROUNDUP (m.proc p).sz + 4096 } } g' loose))) := by
  have used : (m.proc p).status ≠ .unused := by simp [live]
  have space := (custody.seats p).space used
  obtain ⟨r, isRoot, root⟩ := space.root
  have held : 0 < g.held n := by
    rw [custody.held n ram, bump, update_self]
    omega
  have low : (PTE_W ||| PTE_R ||| PTE_U).toNat < 1024 := by decide
  have top := pageCount_user space.fits
  rw [isRoot, PGROUNDUP_eq]
  by_cases inside : pageCount (m.proc p).sz < userPages
  · refine .inr ⟨inside, ?_⟩
    obtain ⟨ok, s', g', run, outcome⟩ := custody.inv.mapHeld root inside
      (custody.inv.vacant_of_view inside (space.top _ (Nat.le_refl _))) low held
    refine ⟨ok, s', g', run, ?_⟩
    rcases outcome with ⟨rfl, short, inv', nodes⟩ | ⟨rfl, room, lent⟩
    · exact .inl ⟨rfl, short, nodes.leaf, nodes.exhausted,
        custody.change (nodes.growth custody.inv inv').toChange fun _ _ => .inl⟩
    · refine .inr ⟨rfl, room, lent,
        custody.lend used inside rfl lent (fun q isFrame => ?_) ram.small
        low⟩
      obtain ⟨positive, i, same⟩ := registered
      exact (custody.exclusive q n positive isFrame).2 i same
  · have last : pageCount (m.proc p).sz = userPages := by omega
    have page : 4096 * userPages / 4096 = userPages := by decide
    rw [last]
    exact .inl ⟨Nat.le_refl _, custody.inv.mappages_mapped root
      (by decide : 4096 * userPages < MAXVA) (by decide) (by rw [page]; exact space.mapped) _ _⟩

/-- `shm_open` once it has a page. -/
theorem shmOpen_mapped {id : BitVec 32} {m₁ : Machine} {pa : Nat} {ok : Bool}
    {s' : Phys} (got : Vm.shmGet id m = .ok (some pa, m₁))
    (mapped
      : mappages (m₁.proc p).pagetable (PGROUNDUP (m₁.proc p).sz) 4096 pa
          (PTE_W ||| PTE_R ||| PTE_U) m₁.phys = .ok (ok, s'))
    : Vm.shmOpen p id m
      = .ok (if ok
          then (some (PGROUNDUP (m₁.proc p).sz), { m₁ with
            phys := s'
            proc := update m₁.proc p
              { m₁.proc p with sz := PGROUNDUP (m₁.proc p).sz + 4096 } })
          else (none, { m₁ with phys := s' })) := by
  unfold Vm.shmOpen
  rw [bind_ok got]
  dsimp only
  rw [bind_ok (get_run m₁), bind_ok (onPhys_ok mapped)]
  cases ok <;> rfl

theorem shmOpen_panics {id : BitVec 32} {m₁ : Machine} {pa : Nat} {message : String}
    (got : Vm.shmGet id m = .ok (some pa, m₁))
    (panics
      : mappages (m₁.proc p).pagetable (PGROUNDUP (m₁.proc p).sz) 4096 pa
          (PTE_W ||| PTE_R ||| PTE_U) m₁.phys = .error message)
    : Vm.shmOpen p id m = .error message := by
  have panicked : onPhys (mappages (m₁.proc p).pagetable (PGROUNDUP (m₁.proc p).sz) 4096 pa
      (PTE_W ||| PTE_R ||| PTE_U)) m₁ = .error message := by
    simp only [onPhys, panics]
  unfold Vm.shmOpen
  rw [bind_ok got]
  dsimp only
  rw [bind_ok (get_run m₁), bind_error panicked]

section

variable (custody : Custody layout m g loose)
include custody

/-- `shm_open`. -/
theorem shmOpen (live : (m.proc p).status = .live) (id : BitVec 32)
    : Steps layout m g loose (.shmOpen p id)
      ∨ (Action.shmOpen p id).run layout m = .error "mappages: remap" := by
  obtain ⟨result, m₁, g₁, run₁, outcome⟩ := custody.shmGet id
  unfold Steps
  rw [Action.run]
  rcases outcome with ⟨rfl, custody₁, handover, frames⟩ | ⟨n, rfl, custody₁, obtained⟩
  · left
    have ran : Vm.shmOpen p id m = .ok (none, m₁) := by
      unfold Vm.shmOpen
      rw [bind_ok run₁]
      rfl
    rw [bind_ok ran]
    exact ⟨.address none, m₁, g₁, loose, rfl, custody₁, fun _ => rfl, handover.exhausted,
      fun _ => frames, fun shared sharing registered _ =>
        (sharing.toCow.congr handover.leaf).registered (registers_of_frames frames) registered,
      fun ordinary => ordinary.elim⟩
  have live₁ : (m₁.proc p).status = .live := by rw [obtained.procs, live]
  rcases custody₁.shmMap live₁ obtained.ram obtained.registered with
    ⟨_, panics⟩ | ⟨_, ok, s₂, g₂, run₂, outcome₂⟩
  · exact .inr (bind_error (shmOpen_panics run₁ panics))
  · left
    rw [bind_ok (shmOpen_mapped run₁ run₂)]
    rcases outcome₂ with ⟨rfl, _, leaf, exhausted₂, custody₂⟩ | ⟨rfl, _, lent, custody₂⟩
    · refine ⟨.address none, { m₁ with phys := s₂ }, g₂, bump loose n, rfl, custody₂,
        fun opens => (opens ⟨p, id, rfl⟩ rfl).elim,
        fun before => exhausted₂ (obtained.handover.exhausted before),
        fun ordinary => ordinary.elim, fun shared sharing registered _ => ?_,
        fun ordinary => ordinary.elim⟩
      exact (obtained.cow sharing.toCow registered).congr leaf
    · refine ⟨.address (some (PGROUNDUP (m₁.proc p).sz)), { m₁ with
          phys := s₂
          proc := update m₁.proc p
            { m₁.proc p with sz := PGROUNDUP (m₁.proc p).sz + 4096 } },
        g₂, loose, rfl, custody₂, fun _ => rfl,
        fun before => lent.exhausted (obtained.handover.exhausted before),
        fun ordinary => ordinary.elim, fun shared sharing registered _ => ?_,
        fun ordinary => ordinary.elim⟩
      have ppn : (PA2PTE (4096 * n) ||| (PTE_W ||| PTE_R ||| PTE_U) ||| PTE_V).ppn = n :=
        mappedEntry_ppn obtained.ram.small (by decide)
      refine (obtained.cow sharing.toCow registered).set lent.leaf (fun _ => ?_)
        fun isPrivate => ?_
      · simp only [Pte.has_or, Pte.has_PA2PTE _ (by decide : PTE_W.toNat < 1024),
          Pte.has_PA2PTE _ (by decide : PTE_C.toNat < 1024)]
        decide
      · rw [ppn] at isPrivate
        exact (isPrivate (.inr obtained.registered)).elim

/-- `shm_close`: the last one takes the page out of the table. -/
theorem shmClose (p : Slot) (id : BitVec 32) : Steps layout m g loose (.shmClose p id) := by
  unfold Steps
  rw [Action.run]
  unfold Vm.shmClose
  rw [bind_assoc, bind_ok (get_run m)]
  cases found : findFrame m.shm id with
  | none =>
    exact ⟨.flag false, m, g, loose, rfl, custody, fun _ => rfl, fun before => before,
      fun ordinary => ordinary.elim,
      fun shared sharing registered _ => sharing.toCow.registered (fun _ known => known) registered,
      fun ordinary => ordinary.elim⟩
  | some i =>
  have used := findFrame_some found
  obtain ⟨n, isPage, ram⟩ := custody.frames i used
  dsimp only
  by_cases last : (m.shm i).ref - 1 = 0
  · have counted := countWhere_pos (fun frame => frame.pa == 4096 * n) m.shm i
      (by simp [isPage])
    have held := custody.data_of_token ram (by simp only [Machine.tokens]; omega)
    obtain ⟨s', g', run, handover, returned, _⟩ := custody.inv.kfree_handover held
    have removed := custody.reframe i { id := 0, pa := 0, ref := 0 } (bump loose n) (.inl rfl)
      fun k inRam => by
        have null : ((0 : Nat) == 4096 * k) = false := by
          have := inRam.positive
          rw [beq_eq_false_iff_ne]
          omega
        simp only [bump_eq, isPage, null, Bool.toNat_false]
        omega
    have custody' := removed.handover loose handover fun k _ => by
      rw [← returned, bump_eq, bump_eq]
      omega
    have frames (k : Nat) : { m with
        phys := s'
        shm := update m.shm i { id := 0, pa := 0, ref := 0 } }.registers k
        ↔ _ := registers_update (i := i) (m := m) rfl k
    rw [if_pos last, isPage, bind_assoc, bind_ok (onPhys_ok run)]
    refine ⟨.flag true, _, g', loose, rfl, custody', fun _ => rfl, handover.exhausted,
      fun ordinary => ordinary.elim, fun shared sharing registered _ => ?_,
      fun ordinary => ordinary.elim⟩
    refine (sharing.toCow.congr handover.leaf).registered (fun k isRegistered => ?_) registered
    obtain ⟨positive, same | ⟨j, _, same⟩⟩ := (frames k).mp isRegistered
    · simp only at same
      omega
    · exact ⟨positive, j, same⟩
  · have custody' := custody.reframe i { m.shm i with ref := (m.shm i).ref - 1 } loose (.inr rfl)
      fun _ _ => rfl
    rw [if_neg last]
    exact ⟨.flag true, _, g, loose, rfl, custody', fun _ => rfl, fun before => before,
      fun ordinary => ordinary.elim, fun shared sharing registered _ =>
        sharing.toCow.registered (fun k => (registers_same i
          { m.shm i with ref := (m.shm i).ref - 1 } rfl rfl k).mp) registered,
      fun ordinary => ordinary.elim⟩

-- Every step

/-- No step that may happen panics, but for a `shm_open` at the end of user memory. -/
theorem steps {action : Action} (enabled : Enabled m action)
    : Steps layout m g loose action
      ∨ ((∃ p id, action = .shmOpen p id)
        ∧ action.run layout m = .error "mappages: remap") := by
  cases action with
  | kalloc => exact .inl custody.kalloc
  | incref pa => exact .inl (custody.incref enabled)
  | kfree pa => exact .inl (custody.kfree enabled)
  | userinit => exact .inl custody.userinit
  | kfork p => exact .inl (custody.kfork enabled)
  | load p va => exact .inl (custody.load enabled va)
  | store p va value => exact .inl (custody.store enabled va value)
  | copyin p srcva len => exact .inl (custody.copyin enabled srcva len)
  | copyout p dstva src => exact .inl (custody.copyout enabled dstva src)
  | uvmalloc p newsz xperm => exact .inl (custody.uvmalloc enabled.1 enabled.2.1 enabled.2.2)
  | uvmdealloc p newsz => exact .inl (custody.uvmdealloc enabled newsz)
  | sbrk p n eager => exact .inl (custody.sbrk enabled n eager)
  | uvmcow p va => exact .inl (custody.uvmcow enabled va)
  | vmfault p va => exact .inl (custody.vmfault enabled va)
  | uvmclear p va => exact .inl (custody.uvmclear enabled.1 enabled.2.1 enabled.2.2)
  | shmOpen p id =>
    exact (custody.shmOpen enabled id).imp_right fun panics => ⟨⟨p, id, rfl⟩, panics⟩
  | shmClose p id => exact .inl (custody.shmClose p id)
  | exit p => exact .inl (custody.exit enabled)
  | reap p => exact .inl (custody.reap enabled)

theorem stepped {action : Action} {outcome : Outcome} {m' : Machine}
    (step : Step layout m (action, outcome) m')
    : ∃ g' loose', Stepped layout m g loose action outcome m' g' loose' := by
  rcases custody.steps step.1 with ⟨outcome', m'', g', loose', run, stepped⟩ | ⟨_, panics⟩
  · have same := run.symm.trans step.2
    obtain ⟨rfl, rfl⟩ := same
    exact ⟨g', loose', stepped⟩
  · rw [step.2] at panics
    cases panics

end

end Custody

end Xv6.Vm

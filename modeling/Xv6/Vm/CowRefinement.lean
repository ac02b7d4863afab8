import Xv6.Vm.Conservation

/-! Copy-on-write is invisible: as long as nobody shares memory on purpose and no allocation
fails, every process sees what it would see in the machine without sharing.
-/

namespace Xv6.Vm

open Function Library
open Process (Slot)

variable {layout : Layout} {m : Machine} {g : Ghost Slot} {loose : Nat → Nat}

/-- The page that process `p` has as page `v` of its memory. -/
def Machine.pageAt (m : Machine) (p : Slot) (v : Nat) : Option View :=
  if (m.entry p v).has PTE_V
  then some (.of (m.phys.page (PTE2PA (m.entry p v))) (m.entry p v))
  else none

/-- The step belongs to a process without shared pages. -/
def NotShared (_ : Machine) (step : Action × Outcome) : Prop := step.1.Ordinary

/-- Process `p` writes to its memory. -/
def Action.WritesFor (p : Slot) : Action → Prop
  | .store q _ _ => q = p
  | .copyout q _ _ => q = p
  | _ => False

/-- No page is mapped writable by one user entry while another one refers to it. -/
def Machine.WritesAlone (m : Machine) : Prop :=
  ∀ p v q w, v < userPages → w < userPages
    → (m.entry p v).has PTE_V = true → (m.entry p v).has PTE_W = true
    → (m.entry q w).has PTE_V = true → PTE2PA (m.entry q w) = PTE2PA (m.entry p v)
    → q = p ∧ w = v

theorem Custody.mapped_pa (custody : Custody layout m g loose) {p : Slot} {v : Nat}
    (user : v < userPages) (valid : (m.entry p v).has PTE_V = true)
    : g.Maps p v (m.entry p v).ppn ∧ PTE2PA (m.entry p v) = 4096 * (m.entry p v).ppn := by
  rw [custody.entry_eq p user] at valid ⊢
  exact ⟨⟨user, valid, rfl⟩, PTE2PA_eq (custody.inv.leaf_small user valid)⟩

theorem Custody.pageAt_eq (custody : Custody layout m g loose) (p : Slot) {v : Nat}
    (user : v < userPages)
    : m.pageAt p v = g.view m.phys.mem p v := by
  have entry := custody.entry_eq p user
  rw [Machine.pageAt, Ghost.view, if_pos user, Pte.view]
  by_cases valid : (m.entry p v).has PTE_V = true
  · rw [(custody.mapped_pa user valid).2, Phys.page,
      Nat.mul_div_cancel_left _ (by decide), entry, if_pos (entry ▸ valid)]
  · rw [if_neg valid, if_neg (entry ▸ valid)]

theorem Custody.size_fits (custody : Custody layout m g loose) (p : Slot)
    : (m.proc p).sz ≤ TRAPFRAME := by
  rcases custody.seats p with ⟨empty, _⟩ | ⟨_, space⟩
  · rw [empty]
    exact Nat.zero_le _
  · exact space.fits

theorem opens_of_ordinary (m : Machine) {step : Action × Outcome} (ordinary : step.1.Ordinary)
    : OpensShared m step := by
  rintro ⟨p, id, isOpen⟩
  rw [isOpen] at ordinary
  exact ordinary.elim

theorem Custody.enough_before (custody : Custody layout m g loose) {step : Action × Outcome}
    {m' : Machine} (taken : Step layout m step m') (enough : m'.phys.exhausted = false)
    : m.phys.exhausted = false := by
  obtain ⟨g', loose', stepped⟩ := custody.stepped taken
  by_contra spent
  rw [stepped.exhausted (by simpa using spent)] at enough
  cases enough

/-- The machine without sharing is what the processes see of the machine. -/
structure Mirrors (layout : Layout) (m : Machine) (g : Ghost Slot) (ref : PrivateMachine)
    : Prop where
  custody : Custody layout m g fun _ => 0
  cow : Cow (fun _ => False) g
  unregistered : ∀ n, ¬m.registers n
  sees : ref = m.asPrivate g

namespace Mirrors

theorem boot {mem : Nat → Page} {start : Machine} (booted : boot layout mem = .ok start)
    : Mirrors layout start (bootGhost layout) (fun _ => {}) ∧ start.phys.exhausted = false := by
  obtain ⟨phys, boots, custody, exhausted⟩ := boot_custody layout mem
  cases boots.symm.trans booted
  have leafless {p : Slot} {v n : Nat} (maps : (bootGhost layout).Maps p v n) : False := by
    obtain ⟨_, valid, _⟩ := maps
    rw [bootGhost, zero_invalid] at valid
    cases valid
  refine ⟨⟨custody, ⟨fun maps _ => (leafless maps).elim, fun maps _ _ _ => (leafless maps).elim⟩,
    fun n isRegistered => ?_, ?_⟩, exhausted⟩
  · obtain ⟨positive, i, same⟩ := isRegistered
    simp only at same
    omega
  · funext p
    have row : (bootGhost layout).view phys.mem p = fun _ => none :=
      funext fun v => vacant_view phys.mem rfl
    simp only [Machine.asPrivate, row]

/-- One step on both machines. -/
theorem step {ref : PrivateMachine} (mirrors : Mirrors layout m g ref) {action : Action}
    {outcome : Outcome} {m' : Machine} (taken : Step layout m (action, outcome) m')
    (ordinary : action.Ordinary) (enough : m'.phys.exhausted = false)
    : ∃ g' ref', Mirrors layout m' g' ref' ∧ PrivateStep ref (action, outcome) ref' := by
  obtain ⟨g', loose', stepped⟩ := mirrors.custody.stepped taken
  have settled : loose' = fun _ => 0 := stepped.settled (opens_of_ordinary m ordinary)
  have unregistered (n : Nat) (isRegistered : m'.registers n) : False :=
    mirrors.unregistered n (registers_of_frames (stepped.frames ordinary) n isRegistered)
  have cow : Cow (fun _ => False) g' := by
    have cow' := stepped.sharing (fun _ => False) ⟨mirrors.cow, fun _ => False.elim⟩
      mirrors.unregistered fun p _ v n _ => False.elim
    have same : (fun n => False ∨ m'.registers n) = fun _ => False := by
      funext n
      exact propext ⟨fun either => either.elim id (unregistered n), False.elim⟩
    rwa [same] at cow'
  refine ⟨g', m'.asPrivate g', ⟨settled ▸ stepped.custody, cow, unregistered, rfl⟩, ?_⟩
  rw [mirrors.sees]
  exact stepped.sees ordinary mirrors.cow enough

/-- A run without shared pages and without a failed allocation, on both machines. -/
theorem run {mem : Nat → Page} {start final : Machine}
    {history : List ((Action × Outcome) × Machine)} (booted : Vm.boot layout mem = .ok start)
    (run : Run (Step layout) start history final) (ordinary : EachStep NotShared history)
    (enough : final.phys.exhausted = false)
    : ∃ g refHistory ref, Mirrors layout final g ref
      ∧ Run PrivateStep (fun _ => {}) refHistory ref
      ∧ refHistory.map Prod.fst = history.map Prod.fst := by
  induction run with
  | nil => exact ⟨_, [], _, (Mirrors.boot booted).1, .nil, rfl⟩
  | next earlier taken ih =>
    have opens := fun entry member =>
      opens_of_ordinary entry.2 (ordinary.tail entry member)
    obtain ⟨_, custody⟩ := custody_of_run booted earlier opens
    obtain ⟨g, refHistory, ref, mirrors, refRun, same⟩ :=
      ih ordinary.tail (custody.enough_before taken enough)
    obtain ⟨g', ref', mirrors', refStep⟩ := mirrors.step taken ordinary.head enough
    refine ⟨g', _, ref', mirrors', .next refRun refStep, ?_⟩
    rw [List.map_cons, List.map_cons, same]

theorem writesAlone {ref : PrivateMachine} (mirrors : Mirrors layout m g ref)
    : m.WritesAlone := by
  intro p v q w user user' valid writable valid' same
  obtain ⟨maps, pa⟩ := mirrors.custody.mapped_pa user valid
  obtain ⟨maps', pa'⟩ := mirrors.custody.mapped_pa user' valid'
  have page : (m.entry q w).ppn = (m.entry p v).ppn := by omega
  rw [mirrors.custody.entry_eq p user] at writable
  exact mirrors.cow.sole maps writable id (page ▸ maps')

end Mirrors

/-- What a process writes, it writes for itself. -/
theorem PrivateStep.other {before after : PrivateMachine} {p q : Slot} {action : Action}
    {outcome : Outcome} (step : PrivateStep before (action, outcome) after)
    (writes : action.WritesFor p) (other : q ≠ p)
    : after q = before q := by
  rw [step.1]
  cases action with
  | store r va value =>
    cases writes
    simp only [PrivateMachine.next]
    split
    · simp only [PrivateMachine.kill, update_of_ne other]
    · simp only [PrivateMachine.setRow, update_of_ne other]
  | copyout r dstva src =>
    cases writes
    simp only [PrivateMachine.next, PrivateMachine.setRow, update_of_ne other]
  | _ => exact writes.elim

/-- Every run without shared pages in which no allocation fails has a counterpart, with the
same answers, in the machine where `fork` copies every page. All processes see the same memory
in both, no page is mapped writable that has another mapping, and what a process writes changes
nothing for another one.
-/
theorem cow_fork_refines_eager_fork {mem : Nat → Page} {start final : Machine}
    {history : List ((Action × Outcome) × Machine)} (booted : boot layout mem = .ok start)
    (run : Run (Step layout) start history final) (unshared : EachStep NotShared history)
    (enough : final.phys.exhausted = false)
    : (∃ refHistory ref, Run PrivateStep (fun _ => {}) refHistory ref
        ∧ refHistory.map Prod.fst = history.map Prod.fst
        ∧ ∀ p, (ref p).status = (final.proc p).status ∧ (ref p).sz = (final.proc p).sz
          ∧ ∀ va < (final.proc p).sz, final.pageAt p (va / 4096) = (ref p).row (va / 4096))
      ∧ final.WritesAlone
      ∧ ∀ p action outcome after, action.WritesFor p
        → Step layout final (action, outcome) after → after.phys.exhausted = false
        → ∀ q, q ≠ p → ∀ v < userPages, after.pageAt q v = final.pageAt q v := by
  obtain ⟨g, refHistory, ref, mirrors, refRun, same⟩ := Mirrors.run booted run unshared enough
  refine ⟨⟨refHistory, ref, refRun, same, fun p => ?_⟩, mirrors.writesAlone,
    fun p action outcome after writes taken enough' q other v user => ?_⟩
  · rw [mirrors.sees]
    refine ⟨rfl, rfl, fun va below => mirrors.custody.pageAt_eq p ?_⟩
    have fits := mirrors.custody.size_fits p
    simp only [userPages, TRAPFRAME, TRAMPOLINE, MAXVA, PGSIZE] at *
    omega
  · have ordinary : action.Ordinary := by
      cases action <;> first | exact writes.elim | trivial
    obtain ⟨g', ref', mirrors', refStep⟩ := mirrors.step taken ordinary enough'
    have kept := congrArg PrivateProc.row (refStep.other writes other)
    rw [mirrors.sees, mirrors'.sees] at kept
    rw [mirrors.custody.pageAt_eq q user, mirrors'.custody.pageAt_eq q user]
    exact congrFun kept v

/-- Witness: after a fork the child overwrites a byte, and the parent still loads its own. -/
theorem child_store_keeps_parent_byte
    : ∃ start history final refHistory ref, boot smallRam (fun _ => 0) = .ok start
      ∧ Run (Step smallRam) start history final
      ∧ history.map (fun entry => entry.1)
        = [(.load 0 5, .loaded (some 7)), (.store 1 5 9, .flag true),
          (.kfork 0, .forked (some 1)), (.store 0 5 7, .flag true),
          (.sbrk 0 4096 true, .address (some 0)), (.userinit, .forked (some 0))]
      ∧ Run PrivateStep (fun _ => {}) refHistory ref
      ∧ final.pageAt 0 0 = (ref 0).row 0 ∧ final.WritesAlone := by
  obtain ⟨start, history, final, booted, run, passes⟩ := run_of_boot smallRam
    [.userinit, .sbrk 0 4096 true, .store 0 5 7, .kfork 0, .store 1 5 9, .load 0 5]
    (fun history final =>
      history.map (fun entry => entry.1)
          = [(.load 0 5, .loaded (some 7)), (.store 1 5 9, .flag true),
            (.kfork 0, .forked (some 1)), (.store 0 5 7, .flag true),
            (.sbrk 0 4096 true, .address (some 0)), (.userinit, .forked (some 0))]
        && !final.phys.exhausted && 0 < (final.proc 0).sz)
    (by decide +kernel)
  simp only [Bool.and_eq_true, decide_eq_true_eq, Bool.not_eq_true'] at passes
  obtain ⟨⟨steps, enough⟩, mapped⟩ := passes
  have unshared : EachStep NotShared history := by
    intro entry member
    have step : entry.1 ∈ history.map (fun entry => entry.1) := List.mem_map_of_mem member
    rw [steps] at step
    simp only [List.mem_cons, List.not_mem_nil, or_false] at step
    rcases step with same | same | same | same | same | same <;> rw [same] <;> trivial
  obtain ⟨⟨refHistory, ref, refRun, _, sees⟩, alone, _⟩ :=
    cow_fork_refines_eager_fork booted run unshared enough
  exact ⟨start, history, final, refHistory, ref, booted, run, steps, refRun,
    (sees 0).2.2 0 mapped, alone⟩

end Xv6.Vm

import Xv6.Vm.CowRefinement

/-! Pages that processes share on purpose. A page that `shm_open` handed out stays shared by all
its mappings, as long as no process forks while it maps one that `shm_close` has already taken
out of the table: `uvmcopy` does not know such a page any more and makes it copy-on-write.
-/

namespace Xv6.Vm

open Library
open Process (Slot)

variable {layout : Layout} {m : Machine} {g : Ghost Slot} {loose : Nat → Nat} {n : Nat}

/-- Page `v` of process `p` is the physical page at `pa`. -/
def Machine.Maps (m : Machine) (p : Slot) (v pa : Nat) : Prop :=
  v < userPages ∧ (m.entry p v).has PTE_V = true ∧ PTE2PA (m.entry p v) = pa

/-- The page at `pa` is in the table of shared pages. -/
def Machine.Registered (m : Machine) (pa : Nat) : Prop := pa ≠ 0 ∧ ∃ i, (m.shm i).pa = pa

/-- The page at `pa` was obtained through `shm_open`, and somebody has used it ever since. -/
def SharedPage : List ((Action × Outcome) × Machine) → Machine → Nat → Prop
  | [], _, _ => False
  | (_, before) :: earlier, m, pa =>
    m.Registered pa ∨ (SharedPage earlier before pa ∧ ∃ p v, m.Maps p v pa)

/-- If the step is a fork, the shared pages that the process maps are still in the table. -/
def ForkKnows (earlier : List ((Action × Outcome) × Machine)) (before : Machine)
    (step : Action × Outcome) : Prop :=
  ∀ p, step.1 = .kfork p → ∀ v pa, before.Maps p v pa → SharedPage earlier before pa
    → before.Registered pa

theorem forkKnows_of_none {history : List ((Action × Outcome) × Machine)}
    (none : ∀ entry ∈ history, ∀ p, entry.1.1 ≠ .kfork p)
    : Throughout ForkKnows history := by
  induction history with
  | nil => trivial
  | cons entry earlier ih =>
    refine ⟨fun p isFork => (none entry List.mem_cons_self p isFork).elim, ih fun other member =>
      none other (List.mem_cons_of_mem entry member)⟩

theorem Custody.maps_iff (custody : Custody layout m g loose) {p : Slot} {v : Nat}
    : m.Maps p v (4096 * n) ↔ g.Maps p v n := by
  constructor
  · rintro ⟨user, valid, page⟩
    obtain ⟨maps, pa⟩ := custody.mapped_pa user valid
    have same : (m.entry p v).ppn = n := by omega
    exact same ▸ maps
  · rintro ⟨user, valid, page⟩
    rw [← custody.entry_eq p user] at valid page
    refine ⟨user, valid, ?_⟩
    rw [(custody.mapped_pa user valid).2, page]

theorem registered_iff : m.Registered (4096 * n) ↔ m.registers n := by
  exact and_congr_left fun _ => by omega

theorem Custody.registered_data (custody : Custody layout m g loose) (isRegistered : m.registers n)
    : g.owner n = .data := by
  obtain ⟨positive, i, page⟩ := isRegistered
  have ram : InRam layout n := Address.page (page ▸ custody.frames i (by omega))
  have counted := countWhere_pos (fun frame => frame.pa == 4096 * n) m.shm i (by simp [page])
  exact custody.inv.held_data (custody.data_of_token ram (by simp only [Machine.tokens]; omega))

/-- The owners of the pages after a run, and which pages are shared. -/
structure Shares (layout : Layout) (history : List ((Action × Outcome) × Machine))
    (m : Machine) (g : Ghost Slot) (loose : Nat → Nat) : Prop where
  custody : Custody layout m g loose
  sharing : Sharing (fun n => SharedPage history m (4096 * n)) g
  known : ∀ n, m.registers n → SharedPage history m (4096 * n)

namespace Shares

variable {history : List ((Action × Outcome) × Machine)}
variable {outcome : Outcome} {p : Slot} {v pa offset : Nat}

theorem boot {mem : Nat → Page} {start : Machine} (booted : boot layout mem = .ok start)
    : Shares layout [] start (bootGhost layout) fun _ => 0 := by
  obtain ⟨mirrors, _⟩ := Mirrors.boot booted
  exact ⟨mirrors.custody, ⟨mirrors.cow, fun _ => False.elim⟩, fun n isRegistered =>
    mirrors.unregistered n isRegistered⟩

theorem step (shares : Shares layout history m g loose) {action : Action} {m' : Machine}
    (taken : Step layout m (action, outcome) m') (known : ForkKnows history m (action, outcome))
    : ∃ g' loose', Shares layout (((action, outcome), m) :: history) m' g' loose' := by
  obtain ⟨g', loose', stepped⟩ := shares.custody.stepped taken
  have custody := stepped.custody
  have cow := stepped.sharing _ shares.sharing shares.known fun p isFork v n maps isShared =>
    registered_iff.mp (known p isFork v _ (shares.custody.maps_iff.mpr maps) isShared)
  -- A page that is mapped is shared now exactly if it was shared or has just been registered.
  have shared_iff {p : Slot} {v n : Nat} (maps : g'.Maps p v n)
      : SharedPage (((action, outcome), m) :: history) m' (4096 * n)
        ↔ SharedPage history m (4096 * n) ∨ m'.registers n := by
    rw [SharedPage, registered_iff]
    refine ⟨fun either => either.elim .inr fun before => .inl before.1, fun either => ?_⟩
    exact either.elim (fun before => .inr ⟨before, p, v, custody.maps_iff.mpr maps⟩) .inl
  refine ⟨g', loose', custody,
    ⟨⟨fun maps isShared => cow.write maps ((shared_iff maps).mp isShared),
    fun maps writable isPrivate maps' => cow.sole maps writable
      (fun isShared => isPrivate ((shared_iff maps).mpr isShared)) maps'⟩, fun n isShared => ?_⟩,
    fun n isRegistered => .inl (registered_iff.mpr isRegistered)⟩
  rcases isShared with isRegistered | ⟨_, p, v, maps⟩
  · exact custody.registered_data (registered_iff.mp isRegistered)
  · obtain ⟨user, valid, page⟩ := custody.maps_iff.mp maps
    exact page ▸ custody.inv.leaf_data user valid

theorem run {mem : Nat → Page} {start final : Machine} (booted : Vm.boot layout mem = .ok start)
    (run : Run (Step layout) start history final) (forks : Throughout ForkKnows history)
    : ∃ g loose, Shares layout history final g loose := by
  have preserved (history : List ((Action × Outcome) × Machine)) (before : Machine)
      (step : Action × Outcome) (after : Machine)
      (held : ∃ g loose, Shares layout history before g loose)
      (known : ForkKnows history before step) (taken : Step layout before step after)
      : ∃ g loose, Shares layout ((step, before) :: history) after g loose := by
    obtain ⟨g, loose, shares⟩ := held
    exact shares.step taken known
  exact Run.historyInvariant ⟨_, _, .boot booted⟩ preserved run forks

section

variable (shares : Shares layout history m g loose)
include shares

theorem writable (maps : m.Maps p v pa) (isShared : SharedPage history m pa)
    : (m.entry p v).has PTE_W = true ∧ (m.entry p v).has PTE_C = false := by
  obtain ⟨user, valid, rfl⟩ := maps
  obtain ⟨maps, pa⟩ := shares.custody.mapped_pa user valid
  rw [pa] at isShared
  have entry := shares.custody.entry_eq p user
  rw [entry]
  exact shares.sharing.write (entry ▸ maps) (entry ▸ isShared)

/-- No page is copy-on-write in one place and writable in another. -/
theorem notBoth {q : Slot} {w : Nat} (maps : m.Maps p v pa) (maps' : m.Maps q w pa)
    (other : ¬(q = p ∧ w = v)) (isCow : (m.entry q w).has PTE_C = true)
    : (m.entry p v).has PTE_W = false := by
  by_cases isShared : SharedPage history m pa
  · rw [(shares.writable maps' isShared).2] at isCow
    cases isCow
  · by_contra isWritable
    obtain ⟨user, valid, page⟩ := maps
    obtain ⟨user', valid', page'⟩ := maps'
    obtain ⟨maps, pa⟩ := shares.custody.mapped_pa user valid
    obtain ⟨maps', pa'⟩ := shares.custody.mapped_pa user' valid'
    have same : (m.entry q w).ppn = (m.entry p v).ppn := by omega
    rw [← page, pa] at isShared
    have entry := shares.custody.entry_eq p user
    refine other (shares.sharing.sole maps ?_ isShared (same ▸ maps'))
    rw [← entry]
    simpa using isWritable

/-- A store that succeeds on a writable page has written it in place. -/
theorem store_writes {value : BitVec 8} {after : Machine} (user : v < userPages)
    (valid : (g.leaf p v).has PTE_V = true) (isWritable : (g.leaf p v).has PTE_W = true)
    (inside : offset < 4096)
    (stored : Step layout m (.store p (4096 * v + offset) value, .flag true) after)
    : after = { m with phys := m.phys.storeAt (g.leaf p v).ppn offset [value] } := by
  have page : (4096 * v + offset) / 4096 = v := by omega
  have rest : (4096 * v + offset) % 4096 = offset := by omega
  have space :=
    (shares.custody.seats p).space (by simp [show (m.proc p).status = .live from stored.1])
  obtain ⟨r, isRoot, root⟩ := space.root
  obtain ⟨ok, s', g', run, outcome⟩ := shares.custody.inv.userStore root space.guarded space.fits
    (4096 * v + offset) value
  rw [← isRoot] at run
  have ran : onProc p (fun proc =>
      userStore layout proc.sz proc.pagetable (4096 * v + offset) value) m
      = .ok (ok, { m with phys := s' }) := onProc_ok run
  have took := stored.2
  rw [Action.run, bind_ok ran] at took
  cases ok with
  | false => cases took
  | true =>
  cases took
  -- The page was open already: a fault would have changed whether user code may use it.
  have opened : Open g p v PTE_W := by
    rcases outcome with ⟨_, s₁, growth, opened, _⟩ | ⟨isFalse, _⟩
    · rw [page] at opened
      have seen := view_of_valid m.phys.mem user valid
      have seen' := view_of_valid s₁.mem opened.1 opened.2.1
      rw [growth.view, faultIn_mapped (by rw [page, seen]; simp), seen, Option.some.injEq] at seen'
      have same := congrArg View.user seen'
      exact ⟨user, valid, same.trans opened.2.2.1, isWritable⟩
    · cases isFalse
  rw [← page] at opened
  have direct := shares.custody.inv.userStore_open (m.proc p).sz root opened value
  rw [← isRoot, run, page, rest] at direct
  cases direct
  rfl

/-- What one process stores into a shared page, the other one loads. -/
theorem store_seen {q : Slot} {w : Nat} {value : BitVec 8} {after last : Machine}
    (maps : m.Maps p v pa) (maps' : m.Maps q w pa) (isShared : SharedPage history m pa)
    (inside : offset < 4096)
    (readable : (m.entry q w).has PTE_U = true ∧ (m.entry q w).has PTE_R = true)
    (stored : Step layout m (.store p (4096 * v + offset) value, .flag true) after)
    (loaded : Step layout after (.load q (4096 * w + offset), outcome) last)
    : outcome = .loaded (some value) := by
  have isWritable := (shares.writable maps isShared).1
  obtain ⟨user, valid, page⟩ := maps
  obtain ⟨user', valid', page'⟩ := maps'
  have pa := (shares.custody.mapped_pa user valid).2
  have pa' := (shares.custody.mapped_pa user' valid').2
  rw [shares.custody.entry_eq p user] at valid isWritable page pa
  rw [shares.custody.entry_eq q user'] at valid' readable page' pa'
  have same : (g.leaf q w).ppn = (g.leaf p v).ppn := by omega
  have address : (4096 * w + offset) / 4096 = w := by omega
  have rest : (4096 * w + offset) % 4096 = offset := by omega
  have opened : Open g q ((4096 * w + offset) / 4096) PTE_R := by
    rw [address]
    exact ⟨user', valid', readable.1, readable.2⟩
  cases shares.store_writes user valid isWritable inside stored
  have inv := (shares.custody.inv.storeAt_growth (shares.custody.inv.leaf_data user valid) offset
    [value]).inv
  have live : (m.proc q).status = .live := loaded.1
  obtain ⟨r, isRoot, root⟩ := ((shares.custody.seats q).space (by simp [live])).root
  have run := inv.userLoad_open (m.proc q).sz root opened
  rw [← isRoot, address, rest, same] at run
  have byte : ((m.phys.storeAt (g.leaf p v).ppn offset [value]).mem (g.leaf p v).ppn).byte offset
      = value := by
    simp only [Phys.storeAt, Function.update_self, Page.write]
    exact byte_setByte_same _ inside value
  rw [byte] at run
  have ran : onProc q (fun proc => userLoad layout proc.sz proc.pagetable (4096 * w + offset))
      { m with phys := m.phys.storeAt (g.leaf p v).ppn offset [value] }
      = .ok (some value, { m with phys := m.phys.storeAt (g.leaf p v).ppn offset [value] }) :=
    onProc_ok run
  have took := loaded.2
  rw [Action.run, bind_ok ran] at took
  cases took
  rfl

end

end Shares

-- Runs

/-- In every run in which a process only forks while its shared pages are in the table, every
mapping of a shared page stays writable, a store to it by one process is what the next load of
another one returns, and no page is copy-on-write in one place and writable in another.
-/
theorem shared_pages_stay_shared {mem : Nat → Page} {start final : Machine}
    {history : List ((Action × Outcome) × Machine)} (booted : boot layout mem = .ok start)
    (run : Run (Step layout) start history final) (forks : Throughout ForkKnows history)
    : (∀ p q v w pa offset value after outcome last,
          final.Maps p v pa → final.Maps q w pa → SharedPage history final pa → offset < 4096
        → Step layout final (.store p (4096 * v + offset) value, .flag true) after
        → (final.entry q w).has PTE_U = true → (final.entry q w).has PTE_R = true
        → Step layout after (.load q (4096 * w + offset), outcome) last
        → outcome = .loaded (some value))
      ∧ (∀ p v pa, final.Maps p v pa → SharedPage history final pa
        → (final.entry p v).has PTE_W = true ∧ (final.entry p v).has PTE_C = false)
      ∧ ∀ p q v w pa, final.Maps p v pa → final.Maps q w pa → ¬(q = p ∧ w = v)
        → (final.entry q w).has PTE_C = true → (final.entry p v).has PTE_W = false := by
  obtain ⟨g, loose, shares⟩ := Shares.run booted run forks
  refine ⟨fun p q v w pa offset value after outcome last maps maps' isShared inside stored user
      readable loaded => ?_, fun p v pa => shares.writable,
    fun p q v w pa => shares.notBoth⟩
  exact shares.store_seen maps maps' isShared inside ⟨user, readable⟩ stored loaded

/-- Two processes map the same physical page as their first page. -/
def Machine.sameFirstPage (m : Machine) (p q : Slot) : Bool :=
  (m.entry p 0).has PTE_V && (m.entry q 0).has PTE_V
    && PTE2PA (m.entry p 0) == PTE2PA (m.entry q 0)

theorem Machine.sameFirstPage_maps {p q : Slot} (same : m.sameFirstPage p q = true)
    : m.Maps p 0 (PTE2PA (m.entry p 0)) ∧ m.Maps q 0 (PTE2PA (m.entry p 0)) := by
  simp only [Machine.sameFirstPage, Bool.and_eq_true, beq_iff_eq] at same
  exact ⟨⟨by decide, same.1.1, rfl⟩, ⟨by decide, same.1.2, same.2.symm⟩⟩

/-- Whether process 1 can load from address 5 after process 0 has stored 9 there. -/
def Machine.storesThenLoads (m : Machine) : Bool :=
  match m.next smallRam (.store 0 5 9) with
  | some ((_, .flag true), after) => (after.next smallRam (.load 1 5)).isSome
  | _ => false

/-- Witness: two processes open the same page, and the second one loads what the first one
stores.
-/
theorem opener_loads_what_opener_stores
    : ∃ start history final after outcome last, boot smallRam (fun _ => 0) = .ok start
      ∧ Run (Step smallRam) start history final
      ∧ Step smallRam final (.store 0 5 9, .flag true) after
      ∧ Step smallRam after (.load 1 5, outcome) last
      ∧ outcome = .loaded (some 9) := by
  obtain ⟨start, history, final, booted, run, passes⟩ := run_of_boot smallRam
    [.userinit, .shmOpen 0 7, .userinit, .shmOpen 1 7]
    (fun history final =>
      history.map (fun entry => entry.1)
        = [(.shmOpen 1 7, .address (some 0)), (.userinit, .forked (some 1)),
          (.shmOpen 0 7, .address (some 0)), (.userinit, .forked (some 0))]
      && final.storesThenLoads
      && final.sameFirstPage 0 1 && (final.entry 1 0).has PTE_U && (final.entry 1 0).has PTE_R
      && (final.shm 0).pa == PTE2PA (final.entry 0 0) && (final.shm 0).pa != 0)
    (by decide +kernel)
  simp only [Bool.and_eq_true, decide_eq_true_eq, beq_iff_eq, bne_iff_ne] at passes
  obtain ⟨⟨⟨⟨⟨⟨steps, goesOn⟩, same⟩, user⟩, readable⟩, page⟩, used⟩ := passes
  unfold Machine.storesThenLoads at goesOn
  split at goesOn
  case h_2 => cases goesOn
  case h_1 _ after stored =>
    obtain ⟨⟨⟨_, outcome⟩, last⟩, loaded⟩ := Option.isSome_iff_exists.mp goesOn
    obtain ⟨stored, rfl⟩ := Machine.next_step _ _ _ _ stored
    obtain ⟨loaded, rfl⟩ := Machine.next_step _ _ _ _ loaded
    have forks : Throughout ForkKnows history := forkKnows_of_none fun entry member p => by
      have step : entry.1 ∈ history.map (fun entry => entry.1) := List.mem_map_of_mem member
      rw [steps] at step
      simp only [List.mem_cons, List.not_mem_nil, or_false] at step
      rcases step with same | same | same | same <;> simp [same]
    obtain ⟨maps, maps'⟩ := Machine.sameFirstPage_maps same
    have isShared : SharedPage history final (PTE2PA (final.entry 0 0)) := by
      cases run with
      | nil => cases steps
      | next earlier taken => exact .inl ⟨page ▸ used, 0, page⟩
    refine ⟨start, history, final, after, outcome, last, booted, run, stored, loaded, ?_⟩
    exact (shared_pages_stay_shared booted run forks).1 0 1 0 0 _ 5 9 after outcome last maps maps'
      isShared (by decide) stored user readable loaded

/-- A page that was opened, inherited and closed is copy-on-write for the parent and its second
child and writable for the first child, which does not see what the parent stores.
-/
theorem closed_page_splits_at_fork
    : ∃ start history final pa, boot smallRam (fun _ => 0) = .ok start
      ∧ Run (Step smallRam) start history final
      ∧ history.map (fun entry => entry.1)
        = [(.load 1 0, .loaded (some 0)), (.store 0 0 5, .flag true),
          (.kfork 0, .forked (some 2)), (.shmClose 0 7, .flag true), (.kfork 0, .forked (some 1)),
          (.shmOpen 0 7, .address (some 0)), (.userinit, .forked (some 0))]
      ∧ final.Maps 1 0 pa ∧ final.Maps 2 0 pa
      ∧ (final.entry 1 0).has PTE_W = true ∧ (final.entry 2 0).has PTE_C = true := by
  obtain ⟨start, history, final, booted, run, passes⟩ := run_of_boot smallRam
    [.userinit, .shmOpen 0 7, .kfork 0, .shmClose 0 7, .kfork 0, .store 0 0 5, .load 1 0]
    (fun history final =>
      history.map (fun entry => entry.1)
          = [(.load 1 0, .loaded (some 0)), (.store 0 0 5, .flag true),
            (.kfork 0, .forked (some 2)), (.shmClose 0 7, .flag true), (.kfork 0, .forked (some 1)),
            (.shmOpen 0 7, .address (some 0)), (.userinit, .forked (some 0))]
        && final.sameFirstPage 1 2 && (final.entry 1 0).has PTE_W && (final.entry 2 0).has PTE_C)
    (by decide +kernel)
  simp only [Bool.and_eq_true, decide_eq_true_eq] at passes
  obtain ⟨⟨⟨steps, same⟩, isWritable⟩, isCow⟩ := passes
  obtain ⟨maps, maps'⟩ := Machine.sameFirstPage_maps same
  exact ⟨start, history, final, _, booted, run, steps, maps, maps', isWritable, isCow⟩

end Xv6.Vm

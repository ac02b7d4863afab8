import Xv6.Vm.ExecRuns

/-! Where `shm_open` goes wrong. The place for the page is found from the size alone, so at the
very end of user memory it is the trapframe; and the table is changed before the mapping that can
still fail.
-/

namespace Xv6.Vm

open Function Library
open Process (Slot)

variable {layout : Layout} {m : Machine} {g : Ghost Slot} {loose : Nat → Nat} {p : Slot}
  {id : BitVec 32}

/-- `shm_open` finds no page to share: the id is new, and the table is full or memory is out. -/
def Machine.NoSharedPage (m : Machine) (id : BitVec 32) : Prop :=
  findFrame m.shm id = none ∧ (freeFrame m.shm = none ∨ m.phys.freelist = [])

instance (m : Machine) (id : BitVec 32) : Decidable (m.NoSharedPage id) :=
  inferInstanceAs (Decidable (_ ∧ _))

/-- The pages that the allocator still has when `shm_open` has its page. -/
def Machine.pagesLeft (m : Machine) (id : BitVec 32) : Nat :=
  m.phys.freelist.length - (findFrame m.shm id).isNone.toNat

/-- How many page-table pages are missing on the way to the end of the process's memory. -/
def Machine.nodesNeeded (m : Machine) (p : Slot) : Nat :=
  let va := PGROUNDUP (m.proc p).sz
  let top := (m.phys.page (m.proc p).pagetable).entry (PX 2 va)
  if !top.has PTE_V then 2
  else if ((m.phys.page (PTE2PA top)).entry (PX 1 va)).has PTE_V then 0 else 1

theorem shmGet_none (unsupplied : m.NoSharedPage id)
    : ∃ out, shmGet id m = .ok (none, { m with phys := { m.phys with exhausted := out } }) := by
  obtain ⟨absent, full | empty⟩ := unsupplied
  · refine ⟨m.phys.exhausted, ?_⟩
    unfold shmGet
    rw [bind_ok (get_run m), absent]
    rw [full]
    rfl
  · have failed : onPhys kalloc m
        = .ok (none, { m with phys := { m.phys with exhausted := true } }) := by
      simp only [onPhys, kalloc, empty]
    unfold shmGet
    rw [bind_ok (get_run m), absent]
    cases freeFrame m.shm with
    | none => exact ⟨m.phys.exhausted, rfl⟩
    | some i =>
      refine ⟨true, ?_⟩
      dsimp only
      rw [bind_ok failed]
      rfl

/-- With a page to share, the table is changed. -/
theorem shmGet_some {result : Option Nat} {m' : Machine} (run : shmGet id m = .ok (result, m'))
    (supplied : ¬m.NoSharedPage id) (real : ∀ pa ∈ m.phys.freelist, pa ≠ 0)
    : result ≠ none ∧ m'.shm ≠ m.shm ∧ m'.phys.freelist.length = m.pagesLeft id := by
  have changed {i : Fin 8} {frame : Frame} (other : frame ≠ m.shm i)
      : update m.shm i frame ≠ m.shm := by
    intro same
    rw [← same, update_self] at other
    exact other rfl
  unfold shmGet at run
  rw [bind_ok (get_run m)] at run
  unfold Machine.pagesLeft
  cases found : findFrame m.shm id with
  | some i =>
    rw [found] at run
    cases run
    refine ⟨by simp, changed fun same => ?_, rfl⟩
    have next := congrArg Frame.ref same
    simp at next
  | none =>
    rw [found] at run
    cases room : freeFrame m.shm with
    | none => exact (supplied ⟨found, .inl room⟩).elim
    | some i =>
      rw [room] at run
      cases list : m.phys.freelist with
      | nil => exact (supplied ⟨found, .inr list⟩).elim
      | cons pa rest =>
        have taken : onPhys kalloc m = .ok (some pa, { m with phys :=
            ({ m.phys with freelist := rest }.setPage pa (pageOf 5)).setRef pa 1 }) := by
          simp only [onPhys, kalloc, list]
        dsimp only at run
        rw [bind_ok taken] at run
        cases run
        refine ⟨by simp, changed fun same => ?_, rfl⟩
        have isFree := freeFrame_some room
        rw [← same] at isFree
        exact real pa (by simp [list]) isFree

theorem Custody.nodesNeeded_eq (custody : Custody layout m g loose)
    (used : (m.proc p).status ≠ .unused) (inside : pageCount (m.proc p).sz < userPages)
    : m.nodesNeeded p = g.missing p (pageCount (m.proc p).sz) := by
  obtain ⟨r, isRoot, root⟩ := ((custody.seats p).space used).root
  have bound : 4096 * pageCount (m.proc p).sz < MAXVA := by
    simp only [userPages, MAXVA] at *
    omega
  have page : 4096 * pageCount (m.proc p).sz / 4096 = pageCount (m.proc p).sz := by omega
  have high : pageCount (m.proc p).sz / 512 / 512 < 512 := by
    simp only [userPages] at inside
    omega
  have first := custody.inv.shape.entries (.mid p (pageCount (m.proc p).sz / 512 / 512)) r high root
  simp only [Machine.nodesNeeded, PGROUNDUP_eq, isRoot, Phys.page_mul, PX_two bound, PX_one, page,
    Ghost.missing]
  simp only [Label.index] at first
  cases middle : g.table (.mid p (pageCount (m.proc p).sz / 512 / 512)) with
  | none =>
    have vacant := custody.inv.shape.below_vacant (.low p (pageCount (m.proc p).sz / 512)) middle
      rfl
    rw [middle] at first
    simp only [TableEntry] at first
    simp [first, vacant]
  | some k =>
    have second := custody.inv.shape.entries (.low p (pageCount (m.proc p).sz / 512)) k trivial
      middle
    rw [middle] at first
    simp only [Label.index] at second
    rw [first.1, nodeEntry_pa first.2, Phys.page_mul, nodeEntry_valid]
    cases low : g.table (.low p (pageCount (m.proc p).sz / 512)) with
    | none =>
      rw [low] at second
      simp only [TableEntry] at second
      simp [second]
    | some n =>
      rw [low] at second
      rw [second.1]
      simp [nodeEntry_valid]

/-- The page at `va` is new in the memory of process `p` and is its last one. -/
structure OpenedAt (p : Slot) (va : Nat) (m m' : Machine) : Prop where
  aligned : va % PGSIZE = 0
  below : va + PGSIZE ≤ TRAPFRAME
  unmapped : (m.entry p (va / PGSIZE)).has PTE_V = false
  others : ∀ w, w < userPages → w ≠ va / PGSIZE → m'.entry p w = m.entry p w
  size : (m'.proc p).sz = va + PGSIZE

/-- What a failing `shm_open` should leave alone. -/
structure Untouched (layout : Layout) (p : Slot) (m m' : Machine) : Prop where
  shm : m'.shm = m.shm
  proc : m'.proc = m.proc
  refs : ∀ pa, IsPage layout pa → pa ∉ m.phys.freelist → m'.phys.ref pa = m.phys.ref pa
  mappings : ∀ v, v < userPages → m'.entry p v = m.entry p v

/-- Everything that `shm_open` can do. -/
inductive ShmOutcome (layout : Layout) (m : Machine) (p : Slot) (id : BitVec 32) : Prop
  | unsupplied (m' : Machine) (reason : m.NoSharedPage id) (run : shmOpen p id m = .ok (none, m'))
    (same : Untouched layout p m m')
  | panics (supplied : ¬m.NoSharedPage id) (top : TRAPFRAME - PGSIZE < (m.proc p).sz)
    (run : shmOpen p id m = .error "mappages: remap")
  | unmapped (m' : Machine) (supplied : ¬m.NoSharedPage id)
    (room : (m.proc p).sz ≤ TRAPFRAME - PGSIZE) (short : m.pagesLeft id < m.nodesNeeded p)
    (run : shmOpen p id m = .ok (none, m')) (changed : m'.shm ≠ m.shm)
  | opened (va : Nat) (m' : Machine) (supplied : ¬m.NoSharedPage id)
    (room : (m.proc p).sz ≤ TRAPFRAME - PGSIZE) (enough : m.nodesNeeded p ≤ m.pagesLeft id)
    (run : shmOpen p id m = .ok (some va, m')) (new : OpenedAt p va m m')

theorem top_iff (sz : Nat) : userPages ≤ pageCount sz ↔ TRAPFRAME - PGSIZE < sz := by
  simp only [userPages, pageCount, TRAPFRAME, TRAMPOLINE, MAXVA, PGSIZE]
  omega

theorem Custody.shmOpen_outcome (custody : Custody layout m g loose)
    (live : (m.proc p).status = .live) (id : BitVec 32)
    : ShmOutcome layout m p id := by
  obtain ⟨result, m₁, g₁, got, outcome⟩ := custody.shmGet id
  by_cases supplied : m.NoSharedPage id
  · obtain ⟨out, none⟩ := shmGet_none supplied
    cases none.symm.trans got
    rcases outcome with ⟨_, custody₁, handover, _⟩ | ⟨n, some, _⟩
    · refine .unsupplied { m with phys := { m.phys with exhausted := out } } supplied ?_
        ⟨rfl, rfl, fun _ _ _ => rfl, fun v user => ?_⟩
      · unfold Vm.shmOpen
        rw [bind_ok got]
        rfl
      · rw [custody₁.entry_eq p user, custody.entry_eq p user, handover.leaf]
    · cases some
  have real : ∀ pa ∈ m.phys.freelist, pa ≠ 0 := by
    intro pa member
    obtain ⟨pages, list, _, free⟩ := custody.inv.accounts.free
    rw [list] at member
    obtain ⟨n, inside, rfl⟩ := List.mem_map.mp member
    have ram := (custody.inv.accounts.ram n).mp (by simp [(free n).mp inside])
    have := ram.positive
    omega
  obtain ⟨isSome, changed, left⟩ := shmGet_some got supplied real
  rcases outcome with ⟨rfl, _⟩ | ⟨n, rfl, custody₁, obtained⟩
  · exact (isSome rfl).elim
  have live₁ : (m₁.proc p).status = .live := by rw [obtained.procs, live]
  have used := live_used live
  have table : g₁.missing p (pageCount (m.proc p).sz) = g.missing p (pageCount (m.proc p).sz) := by
    simp only [Ghost.missing, obtained.handover.table]
  have mapping := custody₁.shmMap live₁ obtained.ram obtained.registered
  have procs : m₁.proc p = m.proc p := by rw [obtained.procs]
  rcases mapping with ⟨top, panics⟩ | ⟨inside, ok, s₂, g₂, mapped, outcome₂⟩
  · rw [procs, top_iff] at top
    exact .panics supplied top (shmOpen_panics got panics)
  rw [procs] at inside
  have room : (m.proc p).sz ≤ TRAPFRAME - PGSIZE := by
    have := (top_iff (m.proc p).sz).not.mp (by omega)
    omega
  have needed := custody.nodesNeeded_eq used inside
  have run := shmOpen_mapped got mapped
  rw [procs, table, left, ← needed] at outcome₂
  rcases outcome₂ with ⟨rfl, short, _⟩ | ⟨rfl, enough, lent, custody₂⟩
  · exact .unmapped _ supplied room short run changed
  · have page : PGROUNDUP (m.proc p).sz / PGSIZE = pageCount (m.proc p).sz := by
      rw [PGROUNDUP_eq, PGSIZE]
      omega
    rw [procs] at run
    refine .opened _ _ supplied room enough run ⟨?_, ?_, ?_, fun w user other => ?_, ?_⟩
    · rw [PGROUNDUP_eq, PGSIZE]
      omega
    · have fits := mul_fits (by omega : pageCount (m.proc p).sz + 1 ≤ userPages)
      rw [PGROUNDUP_eq]
      omega
    · have space := (custody.seats p).space used
      rw [page, custody.entry_eq p inside,
        custody.inv.vacant_of_view inside (space.top _ (Nat.le_refl _)), zero_invalid]
    · rw [page] at other
      rw [custody₂.entry_eq p user, custody.entry_eq p user, lent.leaf,
        setAt_other _ _ fun same => other same.2, obtained.handover.leaf]
    · simp only [update_self]

/-- `shm_open` is safe in a state exactly when there is room for the page below the trapframe, or
there is no page to map.
-/
theorem shm_open_safe_iff (reached : Reached layout m) (live : (m.proc p).status = .live)
    (id : BitVec 32)
    : (∃ result m', shmOpen p id m = .ok (result, m')
        ∧ ∀ va, result = some va → OpenedAt p va m m' ∧ (m'.proc p).sz ≤ TRAPFRAME)
      ↔ (m.proc p).sz ≤ TRAPFRAME - PGSIZE ∨ m.NoSharedPage id := by
  obtain ⟨g, loose, custody⟩ := reached.custody
  cases custody.shmOpen_outcome live id with
  | unsupplied m' reason run =>
    refine iff_of_true ⟨none, m', run, fun va some => ?_⟩ (.inr reason)
    cases some
  | panics supplied top run =>
    refine iff_of_false ?_ ?_
    · rintro ⟨result, m', returned, _⟩
      cases run.symm.trans returned
    · rintro (room | unsupplied)
      · omega
      · exact supplied unsupplied
  | unmapped m' _ room _ run =>
    refine iff_of_true ⟨none, m', run, fun va some => ?_⟩ (.inl room)
    cases some
  | opened va m' _ room _ run new =>
    refine iff_of_true ⟨some va, m', run, fun va' same => ?_⟩ (.inl room)
    cases same
    exact ⟨new, new.size ▸ new.below⟩

/-- A process that has grown lazily up to the trapframe. -/
def growLazily : List Action :=
  .userinit :: .sbrk 0 2147475583 false :: List.replicate 127 (.sbrk 0 2147483647 false)

theorem reached_of_boot (actions : List Action) (test : Machine → Bool)
    (passes
      : bootReplays smallRam actions (fun _ m => (m.proc 0).status == .live && test m) = true)
    : ∃ m, Reached smallRam m ∧ (m.proc 0).status = .live ∧ test m = true := by
  obtain ⟨start, history, m, booted, run, passed⟩ := run_of_boot smallRam actions _ passes
  rw [Bool.and_eq_true, beq_iff_eq] at passed
  exact ⟨m, reached_of_steps booted run, passed⟩

theorem shm_open_remaps_the_trapframe
    : ∃ m, Reached smallRam m ∧ (m.proc 0).status = .live
      ∧ shmOpen 0 1 m = .error "mappages: remap" := by
  obtain ⟨m, reached, live, passes⟩ := reached_of_boot growLazily
    (fun m => decide (TRAPFRAME - PGSIZE < (m.proc 0).sz ∧ ¬m.NoSharedPage 1))
    (by decide +kernel)
  obtain ⟨top, supplied⟩ := of_decide_eq_true passes
  obtain ⟨g, loose, custody⟩ := reached.custody
  refine ⟨m, reached, live, ?_⟩
  cases custody.shmOpen_outcome live 1 with
  | unsupplied _ reason => exact (supplied reason).elim
  | panics _ _ run => exact run
  | unmapped _ _ room => omega
  | opened _ _ _ room => omega

theorem first_shm_open_is_safe
    : ∃ m, Reached smallRam m ∧ (m.proc 0).status = .live ∧ (m.proc 0).sz ≤ TRAPFRAME - PGSIZE
      ∧ ∃ result m', shmOpen 0 1 m = .ok (result, m')
        ∧ ∀ va, result = some va → OpenedAt 0 va m m' ∧ (m'.proc 0).sz ≤ TRAPFRAME := by
  obtain ⟨m, reached, live, passes⟩ := reached_of_boot [.userinit]
    (fun m => decide ((m.proc 0).sz ≤ TRAPFRAME - PGSIZE)) (by decide +kernel)
  have room := of_decide_eq_true passes
  exact ⟨m, reached, live, room, (shm_open_safe_iff reached live 1).mpr (.inl room)⟩

/-- A `shm_open` that fails changes nothing exactly when there was no page to share, or the
page-table pages for the mapping were there. (At the end of user memory it does not return.)
-/
theorem failed_shm_open_iff (reached : Reached layout m) (live : (m.proc p).status = .live)
    (id : BitVec 32)
    : (∀ m', shmOpen p id m = .ok (none, m') → Untouched layout p m m')
      ↔ m.NoSharedPage id ∨ TRAPFRAME - PGSIZE < (m.proc p).sz
        ∨ m.nodesNeeded p ≤ m.pagesLeft id := by
  obtain ⟨g, loose, custody⟩ := reached.custody
  cases custody.shmOpen_outcome live id with
  | unsupplied m₁ reason run same =>
    refine iff_of_true (fun m' returned => ?_) (.inl reason)
    cases run.symm.trans returned
    exact same
  | panics _ top run =>
    refine iff_of_true (fun m' returned => ?_) (.inr (.inl top))
    cases run.symm.trans returned
  | unmapped m₁ supplied room short run changed =>
    refine iff_of_false (fun untouched => changed (untouched m₁ run).shm) ?_
    rintro (unsupplied | top | enough)
    · exact supplied unsupplied
    · omega
    · omega
  | opened va m₁ _ _ enough run =>
    refine iff_of_true (fun m' returned => ?_) (.inr (.inr enough))
    cases run.symm.trans returned

/-- The last free page is taken and entered in the table, and then there is none for the page
table.
-/
theorem failed_shm_open_keeps_the_page
    : ∃ m m', Reached smallRam m ∧ (m.proc 0).status = .live ∧ findFrame m.shm 1 = none
      ∧ shmOpen 0 1 m = .ok (none, m') ∧ m'.shm ≠ m.shm := by
  obtain ⟨m, reached, live, passes⟩ := reached_of_boot
    (.userinit :: List.replicate 27 .kalloc)
    (fun m => decide (findFrame m.shm 1 = none ∧ ¬m.NoSharedPage 1
      ∧ (m.proc 0).sz ≤ TRAPFRAME - PGSIZE ∧ m.pagesLeft 1 < m.nodesNeeded 0))
    (by decide +kernel)
  obtain ⟨absent, supplied, room, short⟩ := of_decide_eq_true passes
  obtain ⟨g, loose, custody⟩ := reached.custody
  cases custody.shmOpen_outcome live 1 with
  | unsupplied _ reason => exact (supplied reason).elim
  | panics _ top => omega
  | unmapped m' _ _ _ run changed => exact ⟨m, m', reached, live, absent, run, changed⟩
  | opened _ _ _ _ enough => omega

theorem shm_open_without_memory_changes_nothing
    : ∃ m m', Reached smallRam m ∧ (m.proc 0).status = .live ∧ m.NoSharedPage 1
      ∧ shmOpen 0 1 m = .ok (none, m') ∧ Untouched smallRam 0 m m' := by
  obtain ⟨m, reached, live, passes⟩ := reached_of_boot
    (.userinit :: List.replicate 28 .kalloc)
    (fun m => decide (m.NoSharedPage 1)) (by decide +kernel)
  have reason := of_decide_eq_true passes
  obtain ⟨out, got⟩ := shmGet_none reason
  have run : shmOpen 0 1 m = .ok (none, { m with phys := { m.phys with exhausted := out } }) := by
    unfold shmOpen
    rw [bind_ok got]
    rfl
  exact ⟨m, _, reached, live, reason, run,
    (failed_shm_open_iff reached live 1).mpr (.inl reason) _ run⟩

end Xv6.Vm

import Xv6.Vm.Boot

/-! Conservation of physical pages: in every state that the machine reaches, a page of RAM is
on the free list once with reference count 0 and nobody uses it, or it is in use and its
reference count is the number of its holders. The count is a C `int`, which `incref` can exceed.
-/

namespace Xv6.Vm

open Library
open Process (Slot)

variable {layout : Layout} {m : Machine} {g : Ghost Slot} {loose : Nat → Nat} {n : Nat}

-- Holders

/-- The valid entry for page `v` in the page table of process `p`, or 0. -/
def Machine.entry (m : Machine) (p : Slot) (v : Nat) : Pte :=
  if (m.proc p).pagetable = 0 then 0
  else
    match walk (m.proc p).pagetable (4096 * v) false m.phys with
    | .ok (some (page, i), _) => ((m.phys.page page).entry i).mapped
    | _ => 0

/-- The pages of a page table whose root has the given level. -/
def tablePages (s : Phys) : Nat → Nat → List Nat
  | 0, pagetable => [pagetable]
  | level + 1, pagetable =>
    pagetable :: (List.range 512).flatMap fun i =>
      if ((s.page pagetable).entry i).has PTE_V
      then tablePages s level (PTE2PA ((s.page pagetable).entry i))
      else []

/-- The pages of the page table of process `p`. -/
def Machine.tablePages (m : Machine) (p : Slot) : List Nat :=
  if (m.proc p).pagetable = 0 then [] else Vm.tablePages m.phys 2 (m.proc p).pagetable

/-- Who holds the page at `pa`: leaf entries below `TRAPFRAME`, the table of shared pages, page
tables, trapframes, and other parts of the kernel.
-/
def Machine.holders (m : Machine) (pa : Nat) : Nat :=
  countEntries (Finset.range userPages) (fun pte => pte.has PTE_V && PTE2PA pte == pa) m.entry
    + (if ∃ i, (m.shm i).pa = pa then 1 else 0)
    + ∑ p, (m.tablePages p).count pa
    + countWhere (fun proc => proc.trapframe == pa) m.proc
    + m.held.count pa

/-- `ref_count[PA2IDX(pa)]` as the C `int` has it: `ref` modulo `2 ^ 32`. -/
def Phys.intRef (s : Phys) (pa : Nat) : Int := (BitVec.ofInt 32 (s.ref pa)).toInt

/-- The page is free and nobody holds it, or its reference count says how many do. -/
def Machine.Conserves (m : Machine) (pa : Nat) : Prop :=
  (m.phys.freelist.count pa = 1 ∧ m.phys.intRef pa = 0 ∧ m.holders pa = 0)
    ∨ (pa ∉ m.phys.freelist ∧ 0 < m.holders pa ∧ m.phys.intRef pa = m.holders pa)

/-- Every page of RAM is conserved. -/
def Machine.Conserved (layout : Layout) (m : Machine) : Prop :=
  ∀ pa, pa % 4096 = 0 → layout.kernelEnd ≤ pa → pa < PHYSTOP → m.Conserves pa

/-- No page has `2 ^ 30` references from other parts of the kernel. -/
def Machine.FewHeld (m : Machine) : Prop := ∀ pa ∈ m.held, m.held.count pa < 2 ^ 30

instance (m : Machine) : Decidable m.FewHeld := List.decidableBAll _ _

/-- The page tables in memory are the ones of the ownership record. -/
theorem Custody.entry_eq (custody : Custody layout m g loose) (p : Slot) {v : Nat}
    (user : v < userPages)
    : m.entry p v = g.leaf p v := by
  rcases custody.seats p with ⟨empty, vacant⟩ | ⟨_, space⟩
  · rw [Machine.entry, empty, if_pos rfl, custody.inv.absent_leaf vacant]
  · obtain ⟨r, isRoot, root⟩ := space.root
    have positive := custody.root_positive root
    have bound : 4096 * v < MAXVA := by
      simp only [userPages, MAXVA] at *
      omega
    have page : 4096 * v / 4096 = v := by omega
    rw [Machine.entry, isRoot, if_neg (by omega)]
    rcases custody.inv.shape.look root bound with ⟨walked, leaf⟩ | ⟨n, walked, _, leaf⟩
    · rw [page] at leaf
      rw [walked, leaf]
    · rw [page] at leaf
      rw [walked, leaf]
      simp only [Phys.page, page, Nat.mul_div_cancel_left n (by decide : 0 < 4096)]

/-- The leaf entries in memory that refer to a page are counted in the ownership record. -/
theorem Custody.entries_eq (custody : Custody layout m g loose) (n : Nat)
    : countEntries (Finset.range userPages)
        (fun pte => pte.has PTE_V && PTE2PA pte == 4096 * n) m.entry
      = g.leafCount n := by
  refine countEntries_congr fun p v inside => ?_
  have user := Finset.mem_range.mp inside
  rw [custody.entry_eq p user]
  cases valid : (g.leaf p v).has PTE_V with
  | false => simp [Pte.refersTo, valid]
  | true =>
    have small := custody.inv.leaf_small user valid
    simp only [Pte.refersTo, valid, PTE2PA_eq small, Bool.true_and]
    rw [Bool.eq_iff_iff, beq_iff_eq, beq_iff_eq]
    omega

-- Page-table pages

section

variable {ι : Type} {s : Phys} {owners : Ghost ι} {level : Nat}

/-- 1 if the node is page `n`. -/
def isPage (n : Nat) (node : Option Nat) : Nat := if node = some n then 1 else 0

def Label.height : Label ι → Nat
  | .root _ => 2
  | .mid _ _ => 1
  | .low _ _ => 0

/-- How many nodes from `l` down are page `n`. -/
def Ghost.nodes (owners : Ghost ι) (n : Nat) : Nat → Label ι → Nat
  | 0, l => isPage n (owners.table l)
  | level + 1, l =>
    isPage n (owners.table l) + ∑ i ∈ Finset.range 512, owners.nodes n level (l.child i)

variable {l : Label ι}

theorem Label.child_height (height : l.height = level + 1) (i : Nat)
    : l.child i ≠ l ∧ (l.child i).height = level := by
  cases l <;> simp_all [Label.height, Label.child]

/-- Nothing is below a node that is not there. -/
theorem Shape.nodes_absent (shape : Shape s.mem owners) (n level : Nat) (height : l.height = level)
    (absent : owners.table l = none)
    : owners.nodes n level l = 0 := by
  induction level generalizing l with
  | zero => simp [Ghost.nodes, isPage, absent]
  | succ level ih =>
    have children : ∀ i ∈ Finset.range 512, owners.nodes n level (l.child i) = 0 := by
      intro i inside
      obtain ⟨different, lower⟩ := Label.child_height height i
      obtain ⟨parent, _, _⟩ := Label.child_parent (Finset.mem_range.mp inside) different
      refine ih lower ?_
      by_contra present
      obtain ⟨k, found⟩ := Option.ne_none_iff_exists'.mp present
      obtain ⟨b, above⟩ := shape.parents _ k found
      rw [parent, absent] at above
      cases above
    rw [Ghost.nodes, absent, Finset.sum_eq_zero children]
    rfl

theorem count_page (n k : Nat) : [4096 * k].count (4096 * n) = isPage n (some k) := by
  have same : 4096 * k = 4096 * n ↔ k = n := by omega
  simp [isPage, List.count_singleton]

theorem sum_range_eq (f : Nat → Nat) (k : Nat)
    : ((List.range k).map f).sum = ∑ i ∈ Finset.range k, f i := by
  rw [Finset.sum_eq_multiset_sum, Finset.range_val, Multiset.range, Multiset.map_coe,
    Multiset.sum_coe]

/-- The page tables in memory have the nodes of the ownership record. -/
theorem Shape.count_tablePages (shape : Shape s.mem owners) (n : Nat) {b : Nat}
    (height : l.height = level) (found : owners.table l = some b)
    : (tablePages s level (4096 * b)).count (4096 * n) = owners.nodes n level l := by
  induction level generalizing l b with
  | zero => rw [tablePages, count_page, Ghost.nodes, found]
  | succ level ih =>
    rw [tablePages, ← List.singleton_append, List.count_append, count_page, Ghost.nodes, found,
      List.count_flatMap, sum_range_eq]
    refine Nat.add_left_cancel_iff.mpr (Finset.sum_congr rfl fun i inside => ?_)
    obtain ⟨different, lower⟩ := Label.child_height height i
    obtain ⟨parent, position, inner⟩ :=
      Label.child_parent (Finset.mem_range.mp inside) different
    have entry := shape.entries (l.child i) b inner (by rw [parent, found])
    rw [position] at entry
    simp only [Function.comp_apply, Phys.page, Nat.mul_div_cancel_left b (by decide : 0 < 4096)]
    cases node : owners.table (l.child i) with
    | none =>
      rw [node] at entry
      rw [if_neg (by simpa [TableEntry] using entry), List.count_nil,
        shape.nodes_absent n level lower node]
    | some k =>
      rw [node] at entry
      rw [entry.1, if_pos (nodeEntry_valid k), nodeEntry_pa entry.2]
      exact ih lower node

/-- Each page-table page is one node of one page table. -/
theorem Inv.nodes_total [Fintype ι] [DecidableEq ι] (inv : Inv layout s owners) (n : Nat)
    : ∑ p, owners.nodes n 2 (.root p) = (owners.owner n).token := by
  cases owner : owners.owner n with
  | table l =>
    have found : owners.table l = some n := (inv.accounts.tables l n).mp owner
    have hit (l' : Label ι) : isPage n (owners.table l') = if l' = l then 1 else 0 := by
      have same : owners.table l' = some n ↔ l' = l := by
        rw [← inv.accounts.tables, owner, Owner.table.injEq, eq_comm]
      simp only [isPage, same]
    simp only [Ghost.nodes, hit, Label.child, Owner.token]
    cases l with
    | root q => simp
    | mid q i =>
      have small : i < 512 := by
        by_contra large
        rw [inv.shape.upper q i (by omega)] at found
        cases found
      rw [Finset.sum_eq_single q (fun p _ other => by simp [other])
        (fun missing => absurd (Finset.mem_univ q) missing)]
      simp [small]
    | low q k =>
      have small : k / 512 < 512 := by
        by_contra large
        obtain ⟨b, above⟩ := inv.shape.parents _ n found
        rw [Label.parent, inv.shape.upper q (k / 512) (by omega)] at above
        cases above
      have row (x : Nat)
          : ∑ j ∈ Finset.range 512, (if 512 * x + j = k then 1 else 0)
            = if x = k / 512 then 1 else 0 := by
        have split (j : Nat) (below : j ∈ Finset.range 512)
            : (if 512 * x + j = k then 1 else 0)
              = if j = k % 512 then (if x = k / 512 then 1 else 0) else 0 := by
          have := Finset.mem_range.mp below
          by_cases both : 512 * x + j = k
          · rw [if_pos both, if_pos (by omega), if_pos (by omega)]
          · split_ifs <;> omega
        rw [Finset.sum_congr rfl split, Finset.sum_ite_eq',
          if_pos (Finset.mem_range.mpr (Nat.mod_lt k (by decide)))]
      rw [Finset.sum_eq_single q (fun p _ other => by simp [other])
        (fun missing => absurd (Finset.mem_univ q) missing)]
      simp [row, small]
  | outside | free | data =>
    have miss (l : Label ι) : isPage n (owners.table l) = 0 := by
      have other := inv.accounts.not_table (n := n) (by simp [owner]) l
      simp [isPage, other]
    simp [Ghost.nodes, miss, Owner.token]

end

theorem Custody.tables_of (custody : Custody layout m g loose) (p : Slot) (n : Nat)
    : (m.tablePages p).count (4096 * n) = g.nodes n 2 (.root p) := by
  rcases custody.seats p with ⟨empty, vacant⟩ | ⟨_, space⟩
  · rw [Machine.tablePages, empty, if_pos rfl, List.count_nil,
      custody.inv.shape.nodes_absent n 2 rfl vacant]
  · obtain ⟨r, isRoot, root⟩ := space.root
    have positive := custody.root_positive root
    rw [Machine.tablePages, isRoot, if_neg (by omega)]
    exact custody.inv.shape.count_tablePages n rfl root

theorem Custody.tables_eq (custody : Custody layout m g loose) (n : Nat)
    : ∑ p, (m.tablePages p).count (4096 * n) = (g.owner n).token := by
  rw [← custody.inv.nodes_total n]
  exact Finset.sum_congr rfl fun p _ => custody.tables_of p n

theorem Custody.frames_eq (custody : Custody layout m g loose) (positive : 0 < n)
    : (if ∃ i, (m.shm i).pa = 4096 * n then 1 else 0)
      = countWhere (fun frame => frame.pa == 4096 * n) m.shm := by
  rw [countWhere_unique]
  · simp only [beq_iff_eq]
  · intro i j isPage isPage'
    rw [beq_iff_eq] at isPage isPage'
    exact custody.distinct i j (by omega) (isPage.trans isPage'.symm)

theorem Custody.holders_eq (custody : Custody layout m g fun _ => 0) (ram : InRam layout n)
    : m.holders (4096 * n) = g.count n + (g.owner n).token := by
  have held := custody.held n ram
  simp only [Machine.tokens] at held
  rw [Machine.holders, custody.entries_eq, custody.tables_eq, custody.frames_eq ram.positive,
    Ghost.count]
  omega

theorem FreeList.count_eq {freelist : List Nat} {owner : Nat → Owner Slot}
    (free : FreeList freelist owner) (n : Nat)
    : freelist.count (4096 * n) = if owner n = .free then 1 else 0 := by
  obtain ⟨pages, rfl, nodup, member⟩ := free
  rw [List.count_map_of_injective pages _
    (fun a b same => Nat.eq_of_mul_eq_mul_left (by decide : 0 < 4096) same) n]
  by_cases isFree : owner n = .free
  · rw [if_pos isFree, List.count_eq_one_of_mem nodup ((member n).mpr isFree)]
  · rw [if_neg isFree, List.count_eq_zero_of_not_mem fun inside => isFree ((member n).mp inside)]

-- The counts fit

section

variable {ι : Type} [Fintype ι] {s : Phys} {owners : Ghost ι}

/-- A leaf entry that refers to a page stands in a page of RAM. -/
theorem Inv.leaf_node (inv : Inv layout s owners) {p : ι} {v : Nat}
    (refers : (owners.leaf p v).refersTo n = true)
    : ∃ k, owners.table (.low p (v / 512)) = some k ∧ InRam layout k := by
  cases found : owners.table (.low p (v / 512)) with
  | none =>
    rw [inv.shape.unmapped p v found] at refers
    cases refers
  | some k =>
    have owner := (inv.accounts.tables _ k).mpr found
    exact ⟨k, rfl, (inv.accounts.ram k).mp (by simp [owner])⟩

/-- All page tables together have no more leaf entries than fit into RAM. -/
theorem Inv.leafCount_le (inv : Inv layout s owners) {pages : Nat}
    (ram : ∀ k, InRam layout k → k < pages) (n : Nat)
    : owners.leafCount n ≤ pages * 512 := by
  rw [Ghost.leafCount, countEntries_eq_card]
  -- An entry is known by its page and its index there.
  refine (Finset.card_le_card_of_injOn
    (fun x => ((owners.table (.low x.1 (x.2 / 512))).getD 0, x.2 % 512))
    (t := Finset.range pages ×ˢ Finset.range 512) ?_ ?_).trans_eq (by simp)
  · intro x member
    obtain ⟨k, found, inside⟩ := inv.leaf_node (Finset.mem_filter.mp member).2
    simp [found, ram k inside, Nat.mod_lt]
  · intro x member y member' same
    obtain ⟨k, found, _⟩ := inv.leaf_node (Finset.mem_filter.mp member).2
    obtain ⟨k', found', _⟩ := inv.leaf_node (Finset.mem_filter.mp member').2
    simp only [found, found', Option.getD_some, Prod.mk.injEq] at same
    obtain ⟨rfl, index⟩ := same
    obtain ⟨space, node⟩ := Label.low.inj (inv.accounts.label_unique found found')
    exact Prod.ext space (by omega)

end

/-- Only references from other parts of the kernel can exceed an `int`. -/
theorem Custody.holders_lt (custody : Custody layout m g fun _ => 0) (few : m.FewHeld) (n : Nat)
    : m.holders (4096 * n) < 2 ^ 31 := by
  have leaves := custody.inv.leafCount_le (fun k ram => (inRam_iff.mp ram).2) n
  have tables : (g.owner n).token ≤ 1 := by cases g.owner n <;> simp [Owner.token]
  have trapframes : countWhere (fun proc => proc.trapframe == 4096 * n) m.proc ≤ 64 := by
    rw [countWhere_eq_card]
    exact (Finset.card_filter_le _ _).trans_eq (by simp)
  have kernel : m.held.count (4096 * n) < 2 ^ 30 := by
    by_cases member : 4096 * n ∈ m.held
    · exact few _ member
    · rw [List.count_eq_zero_of_not_mem member]
      decide
  simp only [PHYSTOP, KERNBASE] at leaves
  rw [Machine.holders, custody.entries_eq, custody.tables_eq]
  split_ifs <;> omega

theorem Custody.conserves (custody : Custody layout m g fun _ => 0) (few : m.FewHeld)
    (ram : InRam layout n)
    : m.Conserves (4096 * n) := by
  have accounts := custody.inv.accounts
  have inside := (accounts.ram n).mpr ram
  have holders := custody.holders_eq ram
  have listed := accounts.free.count_eq n
  have ref : m.phys.intRef (4096 * n) = m.holders (4096 * n) := by
    have bound := custody.holders_lt few n
    have same : m.phys.ref (4096 * n) = m.holders (4096 * n) := by
      rw [holders, Phys.ref, Nat.mul_div_cancel_left n (by decide)]
      exact accounts.refs n inside
    rw [Phys.intRef, same, BitVec.toInt_ofInt, Int.bmod_eq_of_le] <;> omega
  by_cases isFree : g.owner n = .free
  · have none : m.holders (4096 * n) = 0 := by
      rw [holders, accounts.count_zero (by simp [isFree]), isFree]
      rfl
    rw [if_pos isFree] at listed
    exact .inl ⟨listed, by rw [ref, none]; rfl, none⟩
  · have some : 0 < g.count n + (g.owner n).token := by
      cases owner : g.owner n with
      | outside => exact (inside owner).elim
      | free => exact (isFree owner).elim
      | data =>
        have := (accounts.data n).mpr owner
        omega
      | table l => exact Nat.succ_pos _
    rw [if_neg isFree, List.count_eq_zero] at listed
    exact .inr ⟨listed, by rw [holders]; exact some, ref⟩

-- Runs

variable {mem : Nat → Page} {start final : Machine}
  {history : List ((Action × Outcome) × Machine)}

theorem custody_of_run (booted : boot layout mem = .ok start)
    (run : Run (Step layout) start history final) (opens : EachStep OpensShared history)
    : ∃ g, Custody layout final g fun _ => 0 := by
  obtain ⟨phys, boots, custody, _⟩ := boot_custody layout mem
  cases boots.symm.trans booted
  have preserved (before : Machine) (action : Action × Outcome) (after : Machine)
      (held : ∃ g, Custody layout before g fun _ => 0) (succeeds : OpensShared before action)
      (taken : Step layout before action after)
      : ∃ g, Custody layout after g fun _ => 0 := by
    obtain ⟨g, custody⟩ := held
    obtain ⟨g', loose', stepped⟩ := custody.stepped taken
    have settled := stepped.settled succeeds
    exact ⟨g', settled ▸ stepped.custody⟩
  exact Run.invariant ⟨bootGhost layout, custody⟩ preserved run opens

theorem conserved_of_run (booted : boot layout mem = .ok start)
    (run : Run (Step layout) start history final) (opens : EachStep OpensShared history)
    (few : final.FewHeld)
    : final.Conserved layout := by
  obtain ⟨g, custody⟩ := custody_of_run booted run opens
  intro pa aligned above below
  have page : pa = 4096 * (pa / 4096) := by omega
  rw [page] at above below ⊢
  exact custody.conserves few ⟨above, below⟩

/-- In every run of steps from `kinit` in which no `shm_open` fails and no page is given `2 ^ 30`
references by other parts of the kernel, every page of RAM is conserved in every state. The only
panic left is that of `shm_open` above user memory.
-/
theorem pages_conserved (booted : boot layout mem = .ok start)
    (run : Run (Step layout) start history final) (opens : EachStep OpensShared history)
    (few : EachStep (fun m _ => m.FewHeld) history) (fewLast : final.FewHeld)
    : EachStep (fun m _ => m.Conserved layout) history ∧ final.Conserved layout
      ∧ ∀ action message, Enabled final action → action.run layout final = .error message
        → (∃ p id, action = .shmOpen p id) ∧ message = "mappages: remap" := by
  obtain ⟨g, custody⟩ := custody_of_run booted run opens
  refine ⟨?_, conserved_of_run booted run opens fewLast, fun action message enabled panics => ?_⟩
  · clear fewLast custody
    induction run with
    | nil => exact .nil
    | next earlier taken ih =>
      exact .cons (conserved_of_run booted earlier opens.tail few.head)
        (ih opens.tail few.tail)
  · rcases custody.steps enabled with ⟨outcome, m', g', loose', ran, _⟩ | ⟨isOpen, panicked⟩
    · rw [ran] at panics
      cases panics
    · rw [panicked] at panics
      cases panics
      exact ⟨isOpen, rfl⟩

/-- The page is in RAM and its count is the given one, which is positive. -/
def InUse (layout : Layout) (m : Machine) (pa : Nat) (count : Nat) : Prop :=
  pa % 4096 = 0 ∧ layout.kernelEnd ≤ pa ∧ pa < PHYSTOP ∧ 0 < count ∧ m.phys.intRef pa = count

instance (m : Machine) (pa count : Nat) : Decidable (InUse layout m pa count) :=
  inferInstanceAs (Decidable (_ ∧ _))

theorem InUse.holders {pa count : Nat} (inUse : InUse layout m pa count)
    (conserved : m.Conserved layout)
    : m.holders pa = count := by
  obtain ⟨aligned, above, below, positive, counted⟩ := inUse
  rcases conserved pa aligned above below with ⟨_, none, _⟩ | ⟨_, _, same⟩ <;> omega

/-- Witness: a page that a child shares with its parent has two holders, and one that both have
opened has three, with the table of shared pages.
-/
theorem shared_pages_are_counted
    : ∃ start history final, boot smallRam (fun _ => 0) = .ok start
      ∧ Run (Step smallRam) start history final
      ∧ (steps history).map Prod.fst
        = [.userinit, .sbrk 0 4096 true, .kfork 0, .shmOpen 0 7, .shmOpen 1 7, .kalloc]
      ∧ final.holders (PTE2PA (final.entry 0 0)) = 2 ∧ final.holders (final.shm 0).pa = 3 := by
  obtain ⟨start, history, final, booted, run, passes⟩ := run_of_boot smallRam
    [.userinit, .sbrk 0 4096 true, .kfork 0, .shmOpen 0 7, .shmOpen 1 7, .kalloc]
    (fun history final => decide ((steps history).map Prod.fst
        = [.userinit, .sbrk 0 4096 true, .kfork 0, .shmOpen 0 7, .shmOpen 1 7, .kalloc]
      ∧ EachStep (fun (m : Machine) (step : Action × Outcome) => step.2 ≠ .address none ∧ m.FewHeld)
        history
      ∧ final.FewHeld
      ∧ InUse smallRam final (PTE2PA (final.entry 0 0)) 2
      ∧ InUse smallRam final (final.shm 0).pa 3))
    (by decide +kernel)
  obtain ⟨taken, each, fewLast, first, second⟩ := of_decide_eq_true passes
  obtain ⟨_, conserved, _⟩ := pages_conserved booted run
    (fun entry member _ => (each entry member).1)
    (fun entry member => (each entry member).2) fewLast
  exact ⟨start, history, final, booted, run, taken, first.holders conserved,
    second.holders conserved⟩

/-- Each `incref` of a page that is held counts. -/
theorem increfs_run {pa : Nat} (run : Run (Step layout) start history m)
    (opens : EachStep OpensShared history) (held : pa ∈ m.held) (k : Nat)
    : ∃ history' final, Run (Step layout) start history' final
      ∧ EachStep OpensShared history'
      ∧ steps history' = steps history ++ List.replicate k (.incref pa, .none)
      ∧ final.phys.ref pa = m.phys.ref pa + k ∧ final.held.count pa = m.held.count pa + k := by
  induction k with
  | zero => exact ⟨history, m, run, opens, (List.append_nil _).symm, (add_zero _).symm, rfl⟩
  | succ k ih =>
    obtain ⟨history', final, run', opens', taken, ref, count⟩ := ih
    have here : pa ∈ final.held := by
      rw [← List.count_pos_iff] at held ⊢
      omega
    have retains : Step layout final (.incref pa, .none) { final with
        phys := final.phys.setRef pa (final.phys.ref pa + 1), held := pa :: final.held } :=
      ⟨here, rfl⟩
    refine ⟨_, _, .next run' retains, .cons (fun isOpen => ?_) opens', ?_, ?_, ?_⟩
    · obtain ⟨_, _, same⟩ := isOpen
      cases same
    · rw [List.replicate_succ', ← List.append_assoc, ← taken]
      simp [steps]
    · refine (Function.update_self ..).trans ?_
      rw [ref]
      omega
    · rw [List.count_cons_self, count]
      omega

/-- A page that is allocated and retained `2 ^ 31 - 1` times has a negative count. -/
theorem increfs_exceed_the_count
    : ∃ start history final, boot smallRam (fun _ => 0) = .ok start
      ∧ Run (Step smallRam) start history final ∧ EachStep OpensShared history
      ∧ steps history = (.kalloc, .address (some (PHYSTOP - 4096)))
        :: List.replicate (2 ^ 31 - 1) (.incref (PHYSTOP - 4096), .none)
      ∧ final.held.count (PHYSTOP - 4096) = 2 ^ 31
      ∧ final.phys.intRef (PHYSTOP - 4096) = -2 ^ 31
      ∧ ¬final.Conserves (PHYSTOP - 4096) := by
  obtain ⟨start, history, m, booted, run, passes⟩ := run_of_boot smallRam [.kalloc]
    (fun history m => decide (steps history = [(.kalloc, .address (some (PHYSTOP - 4096)))]
      ∧ (∀ entry ∈ history, entry.1.2 ≠ .address none)
      ∧ m.held = [PHYSTOP - 4096] ∧ m.phys.ref (PHYSTOP - 4096) = 1)) (by decide +kernel)
  obtain ⟨first, opens, held, ref⟩ := of_decide_eq_true passes
  obtain ⟨history', final, run', opens', taken, ref', count⟩ :=
    increfs_run run (fun entry member _ => opens entry member)
      (show PHYSTOP - 4096 ∈ m.held by rw [held]; exact List.mem_singleton_self _) (2 ^ 31 - 1)
  have negative : final.phys.intRef (PHYSTOP - 4096) = -2 ^ 31 := by
    rw [Phys.intRef, ref', ref]
    decide
  rw [held, List.count_singleton_self] at count
  rw [first] at taken
  refine ⟨start, history', final, booted, run', opens', taken, count, negative, ?_⟩
  rintro (⟨_, none, _⟩ | ⟨_, _, same⟩) <;> omega

end Xv6.Vm

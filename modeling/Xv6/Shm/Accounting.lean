import Xv6.Library.Counting
import Xv6.Library.Fallible
import Xv6.Library.Runs
import Xv6.Vm.Machine

/-! Who has a shared page open. The table of `kernel/shm.c` counts the opens of each id without
knowing the openers, so its count is right as long as nobody closes what he has not opened,
nobody exits with a page open, and no `shm_open` fails after it was counted.
-/

namespace Xv6.Shm

open Function Library
open Process (Slot)
open Vm (Frame Kernel Layout Machine findFrame freeFrame onPhys)

variable {m m' : Machine} {id : BitVec 32} {frames : Fin 8 → Frame} {i : Fin 8} {page : Option Nat}
  {q : Slot} {mapped : Bool}

/-- `shm_table.frames`, and which processes are running. -/
structure State where
  frames : Fin 8 → Frame
  live : Slot → Bool

/-- The part of `shm_open` under the lock: the page it finds or enters. `page` is the answer of
`kalloc`, if it is asked.
-/
def take (frames : Fin 8 → Frame) (id : BitVec 32) (page : Option Nat)
    : Option Nat × (Fin 8 → Frame) :=
  match findFrame frames id with
  | some i =>
    (some (frames i).pa,
      update frames i { frames i with ref := (frames i).ref + 1 })
  | none =>
    match freeFrame frames with
    | none => (none, frames)
    | some i =>
      match page with
      | none => (none, frames)
      | some pa => (some pa, update frames i { id := id, pa := pa, ref := 1 })

/-- `shm_open`: the physical page that the caller maps. `mapped` is the answer of
`mappages`.
-/
def shmOpen (frames : Fin 8 → Frame) (id : BitVec 32) (page : Option Nat) (mapped : Bool)
    : Option Nat × (Fin 8 → Frame) :=
  let (taken, frames) := take frames id page
  (if mapped then taken else none, frames)

/-- `shm_close`. -/
def shmClose (frames : Fin 8 → Frame) (id : BitVec 32) : Bool × (Fin 8 → Frame) :=
  match findFrame frames id with
  | none => (false, frames)
  | some i =>
    if (frames i).ref - 1 = 0 then
      (true, update frames i { id := 0, pa := 0, ref := 0 })
    else
      (true, update frames i { frames i with ref := (frames i).ref - 1 })

-- The machine's table

theorem onPhys_shm {α : Type} {code : Kernel α} {result : α}
    (run : onPhys code m = .ok (result, m'))
    : m'.shm = m.shm := by
  unfold onPhys at run
  split at run
  · cases run
    rfl
  · cases run

/-- On the whole machine `shm_open` treats the table as `take` does. -/
theorem take_of_shmGet {result : Option Nat} (run : Vm.shmGet id m = .ok (result, m'))
    : ∃ page, take m.shm id page = (result, m'.shm) := by
  unfold Vm.shmGet at run
  rw [bind_ok (get_run m)] at run
  cases found : findFrame m.shm id with
  | some i =>
    simp only [found] at run
    obtain ⟨_, entered, set, run⟩ := bind_eq_ok run
    cases set
    cases run
    exact ⟨none, by simp [take, found]⟩
  | none =>
    simp only [found] at run
    cases isFree : freeFrame m.shm with
    | none =>
      simp only [isFree] at run
      cases run
      exact ⟨none, by simp [take, found, isFree]⟩
    | some i =>
      simp only [isFree] at run
      obtain ⟨page, allocated, kalloc, run⟩ := bind_eq_ok run
      refine ⟨page, ?_⟩
      cases page with
      | none =>
        cases run
        simp [take, found, isFree, onPhys_shm kalloc]
      | some pa =>
        obtain ⟨_, zeroed, zero, run⟩ := bind_eq_ok run
        obtain ⟨_, entered, set, run⟩ := bind_eq_ok run
        cases set
        cases run
        simp [take, found, isFree, onPhys_shm zero, onPhys_shm kalloc]

/-- On the whole machine `shm_close` treats the table in the same way. -/
theorem shmClose_of_shmClose {layout : Layout} {ok : Bool}
    (run : Vm.shmClose layout id m = .ok (ok, m'))
    : shmClose m.shm id = (ok, m'.shm) := by
  unfold Vm.shmClose at run
  rw [bind_ok (get_run m)] at run
  unfold shmClose
  cases found : findFrame m.shm id with
  | none =>
    simp only [found] at run
    cases run
    rfl
  | some i =>
    simp only [found] at run ⊢
    by_cases last : (m.shm i).ref - 1 = 0
    · rw [if_pos last] at run ⊢
      obtain ⟨_, freed, kfree, run⟩ := bind_eq_ok run
      obtain ⟨_, entered, set, run⟩ := bind_eq_ok run
      cases set
      cases run
      rw [onPhys_shm kfree]
    · rw [if_neg last] at run ⊢
      obtain ⟨_, entered, set, run⟩ := bind_eq_ok run
      cases set
      cases run
      rfl

/-- The calls on the whole machine answer as on the table alone, and leave that table. -/
theorem machine_refines_table (layout : Layout) (p : Slot)
    : (∀ va m', Vm.shmOpen p id m = .ok (va, m') → ∃ page mapped,
        (shmOpen m.shm id page mapped).1.isSome = va.isSome
        ∧ (shmOpen m.shm id page mapped).2 = m'.shm)
      ∧ ∀ ok m', Vm.shmClose layout id m = .ok (ok, m') → shmClose m.shm id = (ok, m'.shm) := by
  refine ⟨fun va m' run => ?_, fun _ _ => shmClose_of_shmClose⟩
  obtain ⟨taken, _, got, run⟩ := bind_eq_ok run
  obtain ⟨page, took⟩ := take_of_shmGet got
  cases taken with
  | none =>
    cases run
    exact ⟨page, true, by simp [shmOpen, took]⟩
  | some pa =>
    obtain ⟨_, _, same, run⟩ := bind_eq_ok run
    cases same
    obtain ⟨mapped, _, maps, run⟩ := bind_eq_ok run
    cases mapped <;> cases run
    · exact ⟨page, false, by simp [shmOpen, took, onPhys_shm maps]⟩
    · exact ⟨page, true, by simp [shmOpen, took, onPhys_shm maps]⟩

-- Steps

inductive Action where
  | shmOpen (p : Slot) (id : BitVec 32) (page : Option Nat) (mapped : Bool)
  | shmClose (p : Slot) (id : BitVec 32)
  | kfork (p child : Slot)
  | kexec (p : Slot)
  | kexit (p : Slot)
  deriving DecidableEq

inductive Outcome where
  | none
  | opened (pa : Option Nat)
  | closed (ok : Bool)
  deriving DecidableEq

def Enabled (s : State) : Action → Prop
  | .shmOpen p _ page _ => s.live p = true ∧ page ≠ some 0
  | .kfork p child => s.live p = true ∧ s.live child = false
  | .shmClose p _ | .kexec p | .kexit p => s.live p = true

instance (s : State) (action : Action) : Decidable (Enabled s action) := by
  cases action <;> dsimp only [Enabled] <;> infer_instance

/-- Only `shm_open` and `shm_close` touch the table. -/
def Action.run (s : State) : Action → Outcome × State
  | .shmOpen _ id page mapped =>
    let (result, frames) := Shm.shmOpen s.frames id page mapped
    (.opened result, { s with frames := frames })
  | .shmClose _ id =>
    let (ok, frames) := Shm.shmClose s.frames id
    (.closed ok, { s with frames := frames })
  | .kfork _ child => (.none, { s with live := update s.live child true })
  | .kexec _ => (.none, s)
  | .kexit p => (.none, { s with live := update s.live p false })

def Step (before : State) (step : Action × Outcome) (after : State) : Prop :=
  Enabled before step.1 ∧ step.1.run before = (step.2, after)

/-- The table that `shminit` leaves, with some processes running. -/
def start (live : Slot → Bool) : State := ⟨fun _ => {}, live⟩

abbrev History := List ((Action × Outcome) × State)

-- Openers

/-- How often process `p` has opened `id` and not closed it again. -/
def unmatched : History → Slot → BitVec 32 → Nat
  | [], _, _ => 0
  | ((.shmOpen q id' _ _, .opened (some _)), _) :: earlier, p, id =>
    unmatched earlier p id + if p = q ∧ id = id' then 1 else 0
  | ((.shmClose q id', .closed true), _) :: earlier, p, id =>
    unmatched earlier p id - if p = q ∧ id = id' then 1 else 0
  | ((.kexit q, _), _) :: earlier, p, id => if p = q then 0 else unmatched earlier p id
  | _ :: earlier, p, id => unmatched earlier p id

/-- How often running processes have opened `id` and not closed it again. -/
def openers (history : History) (s : State) (id : BitVec 32) : Nat :=
  ∑ p, if s.live p then unmatched history p id else 0

/-- Frame `i` of the table is in use for `id`. -/
def Registers (frames : Fin 8 → Frame) (id : BitVec 32) (i : Fin 8) : Prop :=
  (frames i).pa ≠ 0 ∧ (frames i).id = id

instance (frames : Fin 8 → Frame) (id : BitVec 32) (i : Fin 8)
    : Decidable (Registers frames id i) :=
  inferInstanceAs (Decidable ((frames i).pa ≠ 0 ∧ (frames i).id = id))

/-- A counted open succeeds and there are not too many of them, only openers close, and a
process that exits has closed what it had opened.
-/
def Orderly (earlier : History) (before : State) (step : Action × Outcome) : Prop :=
  match step.1 with
  | .shmOpen _ id page mapped =>
    (take before.frames id page).1 ≠ none
    → mapped = true ∧ openers earlier before id + 1 < 2 ^ 31
  | .shmClose p id => (∃ i, Registers before.frames id i) → 0 < unmatched earlier p id
  | .kexit p => ∀ id, unmatched earlier p id = 0
  | .kfork _ _ | .kexec _ => True

instance (earlier : History) (before : State) (step : Action × Outcome)
    : Decidable (Orderly earlier before step) := by
  rcases step with ⟨action, _⟩
  cases action <;> dsimp only [Orderly] <;> infer_instance

-- The table

/-- Each id with openers has one frame, which counts them. -/
structure Counts (frames : Fin 8 → Frame) (total : BitVec 32 → Nat) : Prop where
  unique : ∀ id i j, Registers frames id i → Registers frames id j → i = j
  counted : ∀ id i, Registers frames id i → (frames i).ref.toNat = total id ∧ 0 < total id
  covered : ∀ id, 0 < total id → ∃ i, Registers frames id i
  bounded : ∀ id, total id < 2 ^ 31

theorem findFrame_registers (found : findFrame frames id = some i)
    : Registers frames id i := by
  have test := List.find?_some found
  simp only [Bool.and_eq_true, beq_iff_eq, bne_iff_ne] at test
  exact ⟨test.2, test.1⟩

theorem findFrame_none (missing : findFrame frames id = none) (i : Fin 8)
    : ¬Registers frames id i := by
  rintro ⟨used, same⟩
  have test := List.find?_eq_none.mp missing i (List.mem_finRange i)
  simp [used, same] at test

theorem freeFrame_pa (found : freeFrame frames = some i)
    : (frames i).pa = 0 := by
  simpa using List.find?_some found

theorem registers_reref {j : Fin 8} (ref : BitVec 32)
    : Registers (update frames i { frames i with ref := ref }) id j
      ↔ Registers frames id j := by
  by_cases here : j = i
  · subst here
    simp [Registers]
  · simp [Registers, here]

theorem registers_enter {j : Fin 8} {frame : Frame} (other : j ≠ i)
    : Registers (update frames i frame) id j ↔ Registers frames id j := by
  simp [Registers, other]

theorem registers_take {id' : BitVec 32} (registered : Registers frames id i)
    : Registers (take frames id' page).2 id i := by
  unfold take
  split
  · exact (registers_reref _).mpr registered
  · split
    · exact registered
    · next j isFree =>
        have other : i ≠ j := fun same => registered.1 (same ▸ freeFrame_pa isFree)
        split
        · exact registered
        · exact (registers_enter other).mpr registered

namespace Counts

variable {frames frames' : Fin 8 → Frame} {total : BitVec 32 → Nat} {id : BitVec 32} {i : Fin 8}

/-- Another count for the frame of `id`. -/
theorem recount (counts : Counts frames total) (found : Registers frames id i) {ref : BitVec 32}
    {count : Nat} (same : ref.toNat = count) (positive : 0 < count) (bound : count < 2 ^ 31)
    : Counts (update frames i { frames i with ref := ref })
        (update total id count) where
  unique id' j k left right :=
    counts.unique id' j k ((registers_reref ref).mp left) ((registers_reref ref).mp right)
  counted id' j registered := by
    have before := (registers_reref ref).mp registered
    by_cases here : j = i
    · subst here
      rw [← before.2, found.2, update_self, update_self]
      exact ⟨same, positive⟩
    · have other : id' ≠ id := fun isSame =>
        here (counts.unique id j i (isSame ▸ before) found)
      rw [update_of_ne here, update_of_ne other]
      exact counts.counted id' j before
  covered id' some := by
    by_cases here : id' = id
    · exact ⟨i, here ▸ (registers_reref ref).mpr found⟩
    · rw [update_of_ne here] at some
      obtain ⟨j, registered⟩ := counts.covered id' some
      exact ⟨j, (registers_reref ref).mpr registered⟩
  bounded id' := by
    by_cases here : id' = id
    · rw [here, update_self]
      exact bound
    · rw [update_of_ne here]
      exact counts.bounded id'

/-- The first open of an id enters it. -/
theorem enter (counts : Counts frames total) {pa : Nat} (missing : ∀ j, ¬Registers frames id j)
    (isFree : (frames i).pa = 0) (page : pa ≠ 0)
    : Counts (update frames i { id := id, pa := pa, ref := 1 })
        (update total id 1) where
  unique id' j k left right := by
    by_cases isJ : j = i <;> by_cases isK : k = i
    · rw [isJ, isK]
    · rw [isJ, Registers, update_self] at left
      have same : id = id' := left.2
      exact (missing k (same ▸ (registers_enter isK).mp right)).elim
    · rw [isK, Registers, update_self] at right
      have same : id = id' := right.2
      exact (missing j (same ▸ (registers_enter isJ).mp left)).elim
    · exact counts.unique id' j k ((registers_enter isJ).mp left) ((registers_enter isK).mp right)
  counted id' j registered := by
    by_cases here : j = i
    · rw [here] at registered
      rw [here, ← registered.2, update_self, update_self]
      exact ⟨rfl, Nat.one_pos⟩
    · have before := (registers_enter here).mp registered
      have other : id' ≠ id := fun isSame => missing j (isSame ▸ before)
      rw [update_of_ne here, update_of_ne other]
      exact counts.counted id' j before
  covered id' some := by
    by_cases here : id' = id
    · exact ⟨i, by rw [here, Registers, update_self]; exact ⟨page, rfl⟩⟩
    · rw [update_of_ne here] at some
      obtain ⟨j, registered⟩ := counts.covered id' some
      have other : j ≠ i := fun isSame => registered.1 (isSame ▸ isFree)
      exact ⟨j, (registers_enter other).mpr registered⟩
  bounded id' := by
    by_cases here : id' = id
    · rw [here, update_self]
      decide
    · rw [update_of_ne here]
      exact counts.bounded id'

/-- The last close of an id takes it out. -/
theorem leave (counts : Counts frames total) (found : Registers frames id i)
    : Counts (update frames i { id := 0, pa := 0, ref := 0 })
        (update total id 0) := by
  have gone {id' : BitVec 32} {j : Fin 8}
      (registered : Registers (update frames i { id := 0, pa := 0, ref := 0 }) id' j)
      : j ≠ i ∧ Registers frames id' j := by
    by_cases here : j = i
    · rw [here, Registers, update_self] at registered
      exact (registered.1 rfl).elim
    · exact ⟨here, (registers_enter here).mp registered⟩
  refine ⟨fun id' j k left right => counts.unique id' j k (gone left).2 (gone right).2,
    fun id' j registered => ?_, fun id' some => ?_, fun id' => ?_⟩
  · obtain ⟨here, before⟩ := gone registered
    have other : id' ≠ id := fun isSame => here (counts.unique id j i (isSame ▸ before) found)
    rw [update_of_ne here, update_of_ne other]
    exact counts.counted id' j before
  · have other : id' ≠ id := by
      rintro rfl
      rw [update_self] at some
      exact absurd some (Nat.lt_irrefl 0)
    rw [update_of_ne other] at some
    obtain ⟨j, registered⟩ := counts.covered id' some
    have here : j ≠ i := by
      rintro rfl
      exact other (registered.2.symm.trans found.2)
    exact ⟨j, (registers_enter here).mpr registered⟩
  · by_cases here : id' = id
    · rw [here, update_self]
      decide
    · rw [update_of_ne here]
      exact counts.bounded id'

/-- `shm_open` finds the page of the openers, or enters a new one. -/
theorem take (counts : Counts frames total) {page : Option Nat} {pa : Nat}
    (notNull : page ≠ some 0) (taken : take frames id page = (some pa, frames'))
    (bound : total id + 1 < 2 ^ 31)
    : Counts frames' (update total id (total id + 1))
      ∧ (∃ i, Registers frames' id i ∧ (frames' i).pa = pa)
      ∧ ∀ i, Registers frames id i → (frames i).pa = pa := by
  unfold Shm.take at taken
  cases found : findFrame frames id with
  | some i =>
    have registered := findFrame_registers found
    simp only [found] at taken
    obtain ⟨rfl, rfl⟩ := taken
    obtain ⟨count, positive⟩ := counts.counted id i registered
    refine ⟨counts.recount registered ?_ (Nat.succ_pos _) bound,
      ⟨i, (registers_reref _).mpr registered, by rw [update_self]⟩,
      fun j other => by rw [counts.unique id j i other registered]⟩
    have one : (1 : BitVec 32).toNat = 1 := rfl
    rw [BitVec.toNat_add, count]
    exact Nat.mod_eq_of_lt (by omega)
  | none =>
    have missing := findFrame_none found
    have zero : total id = 0 := by
      by_contra some
      obtain ⟨i, registered⟩ := counts.covered id (Nat.pos_of_ne_zero some)
      exact missing i registered
    cases isFree : freeFrame frames with
    | none => simp [found, isFree] at taken
    | some i =>
      cases page with
      | none => simp [found, isFree] at taken
      | some new =>
        simp only [found, isFree, Prod.mk.injEq, Option.some.injEq] at taken
        obtain ⟨rfl, rfl⟩ := taken
        have used : new ≠ 0 := fun null => notNull (by rw [null])
        rw [zero]
        refine ⟨counts.enter missing (freeFrame_pa isFree) used, ⟨i, ?_, ?_⟩,
          fun j registered => (missing j registered).elim⟩
        · rw [Registers, update_self]
          exact ⟨used, rfl⟩
        · rw [update_self]

theorem take_none {page : Option Nat} (failed : Shm.take frames id page = (none, frames'))
    : frames' = frames := by
  unfold Shm.take at failed
  cases found : findFrame frames id with
  | some i => simp [found] at failed
  | none =>
    cases isFree : freeFrame frames with
    | none => simpa [found, isFree, eq_comm] using failed
    | some i => cases page <;> simp_all

/-- `shm_close` by an opener. -/
theorem close (counts : Counts frames total) (closed : shmClose frames id = (true, frames'))
    : Counts frames' (update total id (total id - 1)) ∧ 0 < total id := by
  unfold shmClose at closed
  cases found : findFrame frames id with
  | none => simp [found] at closed
  | some i =>
    have registered := findFrame_registers found
    obtain ⟨count, positive⟩ := counts.counted id i registered
    have bound := counts.bounded id
    have less : ((frames i).ref - 1).toNat = total id - 1 := by
      rw [BitVec.toNat_sub_of_le (by simp [BitVec.le_def]; omega), count]
      rfl
    refine ⟨?_, positive⟩
    by_cases last : (frames i).ref - 1 = 0
    · simp only [found, last, if_true, Prod.mk.injEq, true_and] at closed
      have none : total id - 1 = 0 := by
        rw [← less, last]
        rfl
      rw [← closed, none]
      exact counts.leave registered
    · simp only [found, last, if_false, Prod.mk.injEq, true_and] at closed
      have some : 0 < total id - 1 := by
        rw [← less]
        exact Nat.pos_of_ne_zero fun zero => last (BitVec.eq_of_toNat_eq (by rw [zero]; rfl))
      rw [← closed]
      exact counts.recount registered less some (by omega)

theorem close_false (failed : shmClose frames id = (false, frames'))
    : frames' = frames ∧ ∀ i, ¬Registers frames id i := by
  unfold shmClose at failed
  cases found : findFrame frames id with
  | none =>
    simp only [found, Prod.mk.injEq, true_and] at failed
    exact ⟨failed.symm, findFrame_none found⟩
  | some i =>
    simp only [found] at failed
    split_ifs at failed <;> cases failed

end Counts

-- Runs

/-- All opens of `id` that are not closed yet. -/
def total (history : History) (id : BitVec 32) : Nat := ∑ p, unmatched history p id

/-- The table counts the opens, and all openers are running. -/
structure Accounted (history : History) (s : State) : Prop where
  counts : Counts s.frames (total history)
  dead : ∀ p id, s.live p = false → unmatched history p id = 0

variable {history : History} {s : State}

theorem Accounted.openers_eq (accounted : Accounted history s) (id : BitVec 32)
    : openers history s id = total history id := by
  refine Finset.sum_congr rfl fun p _ => ?_
  cases alive : s.live p with
  | true => rfl
  | false => rw [if_neg Bool.false_ne_true, accounted.dead p id alive]

theorem total_open {pa : Nat}
    : total (((.shmOpen q id page mapped, .opened (some pa)), s) :: history)
      = update (total history) id (total history id + 1) := by
  funext id'
  simp only [total, unmatched]
  rw [Finset.sum_add_distrib]
  by_cases same : id' = id
  · subst same
    rw [update_self]
    simp
  · rw [update_of_ne same]
    simp [same]
    rfl

/-- A close takes one open of the process that had some. -/
theorem total_close (opened : 0 < unmatched history q id)
    : total (((.shmClose q id, .closed true), s) :: history)
      = update (total history) id (total history id - 1) := by
  funext id'
  by_cases same : id' = id
  · subst same
    rw [update_self]
    have split (p : Slot)
        : unmatched history p id'
          = (unmatched history p id' - if p = q then 1 else 0) + if p = q then 1 else 0 := by
      by_cases here : p = q
      · subst here
        rw [if_pos rfl]
        omega
      · rw [if_neg here]
        rfl
    have sums : total history id'
        = (∑ p, (unmatched history p id' - if p = q then 1 else 0)) + 1 := by
      rw [total, Finset.sum_congr rfl fun p _ => split p, Finset.sum_add_distrib]
      simp
    rw [sums]
    simp only [total, unmatched, and_true, Nat.add_sub_cancel]
  · simp [total, unmatched, same]

theorem unmatched_exit {outcome : Outcome} (closed : ∀ id, unmatched history q id = 0)
    : unmatched (((.kexit q, outcome), s) :: history) = unmatched history := by
  funext p id
  rw [unmatched]
  by_cases here : p = q
  · rw [if_pos here, here, closed id]
  · rw [if_neg here]

theorem Accounted.step {history : History} {before after : State} {step : Action × Outcome}
    (accounted : Accounted history before) (orderly : Orderly history before step)
    (taken : Step before step after)
    : Accounted ((step, before) :: history) after := by
  obtain ⟨action, outcome⟩ := step
  obtain ⟨enabled, run⟩ := taken
  cases action with
  | shmOpen p id page mapped =>
    cases taken : take before.frames id page with
    | mk result frames =>
    simp only [Action.run, Shm.shmOpen, taken, Prod.mk.injEq] at run
    obtain ⟨rfl, rfl⟩ := run
    cases result with
    | none =>
      rw [ite_self]
      have same : frames = before.frames := Counts.take_none taken
      exact ⟨same ▸ accounted.counts, accounted.dead⟩
    | some pa =>
      have orderly : mapped = true ∧ openers history before id + 1 < 2 ^ 31 :=
        orderly (by simp [taken])
      obtain ⟨rfl, bound⟩ := orderly
      rw [accounted.openers_eq] at bound
      refine ⟨?_, fun q id' dead => ?_⟩
      · rw [if_pos rfl, total_open]
        exact (accounted.counts.take enabled.2 taken bound).1
      · have other : ¬(q = p ∧ id' = id) := by
          rintro ⟨rfl, _⟩
          rw [enabled.1] at dead
          cases dead
        rw [if_pos rfl, unmatched, if_neg other]
        exact accounted.dead q id' dead
  | shmClose p id =>
    cases closed : shmClose before.frames id with
    | mk ok frames =>
    simp only [Action.run, closed, Prod.mk.injEq] at run
    obtain ⟨rfl, rfl⟩ := run
    cases ok with
    | false =>
      have same := (Counts.close_false closed).1
      exact ⟨same ▸ accounted.counts, accounted.dead⟩
    | true =>
      obtain ⟨counts, some⟩ := accounted.counts.close closed
      have opened : 0 < unmatched history p id := orderly (accounted.counts.covered id some)
      refine ⟨?_, fun q id' dead => ?_⟩
      · rw [total_close opened]
        exact counts
      · have none := accounted.dead q id' dead
        rw [unmatched]
        omega
  | kfork p child =>
    cases run
    refine ⟨accounted.counts, fun q id dead => accounted.dead q id ?_⟩
    by_cases here : q = child
    · rw [here]
      exact enabled.2
    · simpa [here] using dead
  | kexec p =>
    cases run
    exact ⟨accounted.counts, accounted.dead⟩
  | kexit p =>
    cases run
    have same : unmatched (((.kexit p, .none), before) :: history) = unmatched history :=
      unmatched_exit orderly
    have totals : total (((.kexit p, .none), before) :: history) = total history :=
      funext fun id => by rw [total, same, total]
    refine ⟨?_, fun q id dead => ?_⟩
    · rw [totals]
      exact accounted.counts
    · rw [same]
      by_cases here : q = p
      · rw [here]
        exact orderly id
      · exact accounted.dead q id (by simpa [here] using dead)

variable {after : State}

/-- Only the last opener takes a page out of the table. -/
theorem Accounted.removed {before : State} {step : Action × Outcome}
    (accounted : Accounted history before) (orderly : Orderly history before step)
    (taken : Step before step after) (registered : Registers before.frames id i)
    : Registers after.frames id i
      ∨ ∃ p, step.1 = .shmClose p id ∧ unmatched history p id = 1
        ∧ openers history before id = 1 := by
  obtain ⟨action, outcome⟩ := step
  obtain ⟨enabled, run⟩ := taken
  cases action with
  | shmOpen p id' page mapped =>
    left
    simp only [Action.run, Shm.shmOpen, Prod.mk.injEq] at run
    rw [← run.2]
    exact registers_take registered
  | shmClose p id' =>
    simp only [Action.run, Prod.mk.injEq] at run
    rw [← run.2]
    unfold shmClose
    cases found : findFrame before.frames id' with
    | none => exact .inl registered
    | some j =>
      dsimp only
      by_cases last : (before.frames j).ref - 1 = 0
      · rw [if_pos last]
        by_cases here : i = j
        · subst here
          have same : id' = id := (findFrame_registers found).2.symm.trans registered.2
          subst same
          obtain ⟨count, _⟩ := accounted.counts.counted id' i registered
          have one : total history id' = 1 := by
            have ref : (before.frames i).ref = 1 := by bv_omega
            rw [← count, ref]
            rfl
          have some : 0 < unmatched history p id' := orderly ⟨i, registered⟩
          have bound := Finset.single_le_sum_of_canonicallyOrdered
            (f := fun p => unmatched history p id') (Finset.mem_univ p)
          rw [total] at one
          refine .inr ⟨p, rfl, by omega, ?_⟩
          rw [accounted.openers_eq, total, one]
        · exact .inl ((registers_enter here).mpr registered)
      · rw [if_neg last]
        exact .inl ((registers_reref _).mpr registered)
  | kfork p child | kexec p | kexit p =>
    cases run
    exact .inl registered

theorem Accounted.start (live : Slot → Bool) : Accounted [] (start live) := by
  have none (id : BitVec 32) : total [] id = 0 := by simp [total, unmatched]
  refine ⟨⟨fun id i j registered => (registered.1 rfl).elim,
    fun id i registered => (registered.1 rfl).elim, fun id some => ?_, fun id => ?_⟩,
    fun _ _ _ => rfl⟩
  · rw [none] at some
    exact absurd some (Nat.lt_irrefl 0)
  · rw [none]
    decide

theorem Accounted.opened (accounted : Accounted history s) {p : Slot} {pa : Nat}
    (registered : Registers s.frames id i)
    (taken : Step s (.shmOpen p id page mapped, .opened (some pa)) after)
    : pa = (s.frames i).pa := by
  have run := taken.2
  cases found : findFrame s.frames id with
  | none => exact (findFrame_none found i registered).elim
  | some j =>
    have same := accounted.counts.unique id j i (findFrame_registers found) registered
    subst same
    cases mapped <;> simp [Action.run, Shm.shmOpen, take, found] at run
    exact run.1.symm

/-- In every orderly run there is one frame for each id that is open, its count is the number
of opens that running processes have not closed, every further open yields its page, and only
the last opener takes it away.
-/
theorem opens_are_counted {live : Slot → Bool} {history : History} {final : State}
    (run : Run Step (start live) history final) (orderly : Throughout Orderly history)
    : (∀ id i j, Registers final.frames id i → Registers final.frames id j → i = j)
      ∧ (∀ id i, Registers final.frames id i
        → (final.frames i).ref.toInt = openers history final id)
      ∧ (∀ id, 0 < openers history final id ↔ ∃ i, Registers final.frames id i)
      ∧ (∀ id i p page mapped pa after, Registers final.frames id i
        → Step final (.shmOpen p id page mapped, .opened (some pa)) after
        → pa = (final.frames i).pa)
      ∧ ∀ id i step after, Registers final.frames id i → Orderly history final step
        → Step final step after
        → Registers after.frames id i
          ∨ ∃ p, step.1 = .shmClose p id ∧ unmatched history p id = 1
            ∧ openers history final id = 1 := by
  have accounted : Accounted history final :=
    Run.historyInvariant (.start live)
      (fun _ _ _ _ accounted orderly taken => Accounted.step accounted orderly taken) run orderly
  have counts := accounted.counts
  refine ⟨counts.unique, fun id i registered => ?_, fun id => ?_,
    fun id i p page mapped pa after registered => accounted.opened registered,
    fun id i step after registered orderly taken => accounted.removed orderly taken registered⟩
  · have bound := counts.bounded id
    rw [accounted.openers_eq, ← (counts.counted id i registered).1] at *
    rw [BitVec.toInt_eq_toNat_of_lt (by omega)]
  · rw [accounted.openers_eq]
    exact ⟨counts.covered id, fun ⟨i, registered⟩ => (counts.counted id i registered).2⟩

/-- Witness: two openers of id 7 are counted, and the first one's close leaves the page. -/
theorem two_openers_counted
    : ∃ history final, Run Step (start fun p => p == 0) history final
      ∧ steps history
        = [(.kfork 0 1, .none), (.shmOpen 0 7 (some 4096) true, .opened (some 4096)),
          (.shmOpen 1 7 none true, .opened (some 4096)), (.shmClose 0 7, .closed true)]
      ∧ Registers final.frames 7 0
      ∧ (final.frames 0).ref.toInt = openers history final 7 := by
  obtain ⟨history, final, run, same, orderly, registered⟩ :
      ∃ history final, Run Step (start fun p => p == 0) history final
        ∧ steps history
          = [(.kfork 0 1, .none), (.shmOpen 0 7 (some 4096) true, .opened (some 4096)),
            (.shmOpen 1 7 none true, .opened (some 4096)), (.shmClose 0 7, .closed true)]
        ∧ Throughout Orderly history ∧ Registers final.frames 7 0 :=
    Follows.toRun (by decide +kernel)
  exact ⟨history, final, run, same, registered, (opens_are_counted run orderly).2.1 7 0 registered⟩

/-- A process that never opened the page takes it away from the one that did, and a process
that exits leaves its open counted.
-/
theorem strangers_close_and_exits_leak
    : (∃ history final, Run Step (start fun p => p == 0) history final
        ∧ steps history
          = [(.kfork 0 1, .none), (.shmOpen 0 7 (some 4096) true, .opened (some 4096)),
            (.shmClose 1 7, .closed true)]
        ∧ openers history final 7 = 1 ∧ ∀ i, ¬Registers final.frames 7 i)
      ∧ ∃ history final, Run Step (start fun p => p == 0) history final
        ∧ steps history
          = [(.kfork 0 1, .none), (.shmOpen 1 7 (some 4096) true, .opened (some 4096)),
            (.kexit 1, .none)]
        ∧ openers history final 7 = 0 ∧ Registers final.frames 7 0
        ∧ (final.frames 0).ref.toInt = 1 := by
  constructor
  · exact Follows.toRun (by decide +kernel)
  · exact Follows.toRun (by decide +kernel)

end Xv6.Shm

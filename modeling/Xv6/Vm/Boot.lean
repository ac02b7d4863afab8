import Xv6.Library.Runs
import Xv6.Vm.ShmSpec

/-! The state after `kinit`: every page of RAM is on the free list, and nobody owns one. -/

namespace Xv6.Vm

open Function Library
open Process (Slot)

variable {layout : Layout}

/-- Pages `first` up to `last` are free, and there are no others. -/
def freeBetween (first last n : Nat) : Owner Slot :=
  if first ≤ n ∧ n < last then .free else .outside

theorem freeBetween_next {first last : Nat} (order : first ≤ last)
    : freeBetween first (last + 1) = update (freeBetween first last) last .free := by
  funext n
  by_cases here : n = last
  · subst here
    rw [update_self, freeBetween, if_pos ⟨order, Nat.lt_succ_self n⟩]
  · rw [update_of_ne here, freeBetween, freeBetween]
    by_cases inside : first ≤ n ∧ n < last
    · rw [if_pos inside, if_pos (by omega)]
    · rw [if_neg inside, if_neg (by omega)]

/-- The loop of `freerange` frees its pages one after the other. -/
theorem freerange_run {first : Nat} (k count : Nat) {s : Phys} (order : first ≤ k)
    (ram : ∀ n, k ≤ n → n < k + count → InRam layout n)
    (free : FreeList s.freelist (freeBetween first k))
    (refs : ∀ n, first ≤ n → n < k → s.refCount n = 0)
    : ∃ s', freerange layout (4096 * k) count s = .ok ((), s')
      ∧ FreeList s'.freelist (freeBetween first (k + count))
      ∧ (∀ n, first ≤ n → n < k + count → s'.refCount n = 0)
      ∧ s'.exhausted = s.exhausted := by
  induction count generalizing k s with
  | zero => exact ⟨s, rfl, free, refs, rfl⟩
  | succ count ih =>
    have counted : (s.setRef (4096 * k) 1).refCount k = 1 := by simp [Phys.setRef]
    have freed := kfree_run (s := s.setRef (4096 * k) 1) (ram k (by omega) (by omega))
      (by omega)
    have notFree : freeBetween first k k ≠ .free := by
      rw [freeBetween]
      simp
    have list : ((s.setRef (4096 * k) 1).release k).freelist = 4096 * k :: s.freelist :=
      if_pos counted
    have free' : FreeList ((s.setRef (4096 * k) 1).release k).freelist
        (freeBetween first (k + 1)) := by
      rw [freeBetween_next order, list]
      exact free.push notFree
    have refs' : ∀ n, first ≤ n → n < k + 1
        → ((s.setRef (4096 * k) 1).release k).refCount n = 0 := by
      intro n above below
      by_cases here : n = k
      · simp [here, Phys.release, counted]
      · simpa [Phys.release, Phys.setRef, here] using refs n above (by omega)
    obtain ⟨s', run, done⟩ := ih (k + 1) (by omega)
      (fun n above below => ram n (by omega) (by omega)) free' refs'
    have last : k + (count + 1) = k + 1 + count := by omega
    refine ⟨s', ?_, last ▸ done⟩
    unfold freerange
    rw [bind_ok freed]
    exact run

/-- The ownership of a machine that has just started. -/
def bootGhost (layout : Layout) : Ghost Slot where
  table _ := none
  leaf _ _ := 0
  owner := freeBetween (pageCount layout.kernelEnd) (PHYSTOP / 4096)
  held _ := 0

theorem bootGhost_count (layout : Layout) (n : Nat) : (bootGhost layout).count n = 0 := by
  have none : ¬0 < (bootGhost layout).leafCount n := by
    rw [Ghost.leafCount, countEntries_pos]
    rintro ⟨p, v, _, refers⟩
    rw [bootGhost, Pte.refersTo, zero_invalid] at refers
    cases refers
  simp only [Ghost.count, bootGhost] at *
  omega

theorem inRam_iff {n : Nat}
    : InRam layout n ↔ pageCount layout.kernelEnd ≤ n ∧ n < PHYSTOP / 4096 := by
  simp only [InRam, pageCount, PHYSTOP, KERNBASE]
  omega

theorem bootGhost_inv {s : Phys}
    (free : FreeList s.freelist (bootGhost layout).owner)
    (refs : ∀ n, InRam layout n → s.refCount n = 0)
    : Inv layout s (bootGhost layout) := by
  have owners (n : Nat) : (bootGhost layout).owner n = .free ∧ InRam layout n
      ∨ (bootGhost layout).owner n = .outside ∧ ¬InRam layout n := by
    rw [inRam_iff]
    simp only [bootGhost, freeBetween]
    split_ifs with inside
    · exact .inl ⟨rfl, inside⟩
    · exact .inr ⟨rfl, inside⟩
  refine ⟨⟨free, fun n => ?_, fun n => ?_, fun n owned => ?_, fun l n => ?_⟩,
    ⟨fun l p _ found => ?_, fun l n found => ?_, fun _ _ _ => rfl, fun _ _ _ found => ?_,
      fun _ _ _ => rfl⟩⟩
  · rcases owners n with ⟨owner, ram⟩ | ⟨owner, ram⟩ <;> simp [owner, ram]
  · rw [bootGhost_count]
    rcases owners n with ⟨owner, _⟩ | ⟨owner, _⟩ <;> simp [owner]
  · rcases owners n with ⟨owner, ram⟩ | ⟨owner, _⟩
    · rw [bootGhost_count, owner, refs n ram]
      rfl
    · exact (owned owner).elim
  · have vacant : (bootGhost layout).table l = none := rfl
    rcases owners n with ⟨owner, _⟩ | ⟨owner, _⟩ <;> simp [owner, vacant]
  all_goals cases found

/-- `kinit` and `shminit` start the machine with all its pages free. -/
theorem boot_custody (layout : Layout) (mem : Nat → Page)
    : ∃ phys, boot layout mem = .ok ⟨phys, fun _ => {}, fun _ => {}, []⟩
      ∧ Custody layout ⟨phys, fun _ => {}, fun _ => {}, []⟩ (bootGhost layout) (fun _ => 0)
      ∧ phys.exhausted = false := by
  have order : pageCount layout.kernelEnd ≤ PHYSTOP / 4096 := by
    have bound := layout.end_ram
    simp only [pageCount, PHYSTOP, KERNBASE] at *
    omega
  have last : pageCount layout.kernelEnd + (PHYSTOP / 4096 - pageCount layout.kernelEnd)
      = PHYSTOP / 4096 := by omega
  obtain ⟨s', run, free, refs, exhausted⟩ := freerange_run (s := ⟨mem, [], fun _ => 0, false⟩)
    (pageCount layout.kernelEnd) (PHYSTOP / 4096 - pageCount layout.kernelEnd)
    (Nat.le_refl (pageCount layout.kernelEnd))
    (fun n above below => inRam_iff.mpr (by omega : pageCount layout.kernelEnd ≤ n ∧ _))
    ⟨[], rfl, List.nodup_nil, fun n => by
      rw [freeBetween, if_neg (by omega)]
      simp⟩
    (fun n above below => by omega)
  rw [last] at free refs
  have booted : kinit layout ⟨mem, [], fun _ => 0, false⟩ = .ok ((), s') := by
    have first : PGROUNDUP layout.kernelEnd = 4096 * pageCount layout.kernelEnd :=
      Nat.mul_comm _ _
    have pages : (PHYSTOP - 4096 * pageCount layout.kernelEnd) / 4096
        = PHYSTOP / 4096 - pageCount layout.kernelEnd := by
      omega
    rw [kinit, first, pages]
    exact run
  have inv : Inv layout s' (bootGhost layout) :=
    bootGhost_inv free fun n ram => refs n (inRam_iff.mp ram).1 (inRam_iff.mp ram).2
  refine ⟨s', by rw [boot, booted], ⟨inv, fun p => .inl ⟨rfl, rfl⟩, fun n ram => ?_,
    fun i used => (used rfl).elim, fun i j used => (used rfl).elim, fun pa member => ?_,
    fun p n positive isFrame => ?_⟩, exhausted⟩
  · have null : ((0 : Nat) == 4096 * n) = false := by
      have := ram.positive
      rw [beq_eq_false_iff_ne]
      omega
    simp [Machine.tokens, bootGhost, countWhere, null]
  · cases member
  · simp only at isFrame
    omega

-- Replaying a run

/-- The step's caller is running, and nothing else is asked of it. -/
def Action.callerRuns (m : Machine) : Action → Bool
  | .kalloc | .userinit => true
  | .kfork p | .load p _ | .store p _ _ | .copyin p _ _ | .copyout p _ _ | .uvmdealloc p _
  | .sbrk p _ _ | .uvmcow p _ | .vmfault p _ | .shmOpen p _ | .shmClose p _ | .exit p =>
    (m.proc p).status == .live
  | _ => false

/-- What a step does that can be taken. -/
def Machine.next (layout : Layout) : Machine → Action → Option ((Action × Outcome) × Machine) :=
  tried (fun m action => action.callerRuns m = true) (Action.run layout)

theorem Machine.next_step (m : Machine) (action : Action) (step : Action × Outcome) (m' : Machine)
    (taken : m.next layout action = some (step, m'))
    : Step layout m step m' ∧ step.1 = action := by
  obtain ⟨⟨runs, ran⟩, same⟩ := tried_sound m action step m' taken
  refine ⟨⟨?_, ran⟩, same⟩
  rcases step with ⟨action, outcome⟩
  cases action <;> first | exact beq_iff_eq.mp runs | trivial

/-- A machine with 32 pages of RAM after the kernel. -/
def smallRam : Layout where
  kernelEnd := PHYSTOP - 32 * 4096
  trampoline := KERNBASE
  trampoline_aligned := kernbase_aligned
  trampoline_kernel := by decide
  end_ram := by decide

/-- Whether a run from `boot` can be taken, and its history and last state pass the test. -/
def bootReplays (layout : Layout) (actions : List Action)
    (test : List ((Action × Outcome) × Machine) → Machine → Bool)
    : Bool :=
  match boot layout (fun _ => 0) with
  | .error _ => false
  | .ok start =>
    Follows (Machine.next layout) start actions fun history final => test history final = true

theorem run_of_boot (layout : Layout) (actions : List Action)
    (test : List ((Action × Outcome) × Machine) → Machine → Bool)
    (passes : bootReplays layout actions test = true)
    : ∃ start history final, boot layout (fun _ => 0) = .ok start
      ∧ Run (Step layout) start history final ∧ test history final = true := by
  unfold bootReplays at passes
  cases booted : boot layout (fun _ => 0) with
  | error message =>
    rw [booted] at passes
    cases passes
  | ok start =>
    rw [booted] at passes
    obtain ⟨history, final, run, _, passes⟩ :=
      run_of_follows Machine.next_step _ _ _ (of_decide_eq_true passes)
    exact ⟨start, history, final, rfl, run, passes⟩

end Xv6.Vm

import Xv6.Log.Headers

/-! Room in the log. `begin_op` lets an operation in when all operations together can log
`MAXOPBLOCKS` blocks each; a block that is new to its operation then always finds room.
`log_write` tests for room before it looks whether the block is in the log already, so in a
full log even a block that needs no room panics.
-/

namespace Xv6.Log

open Library
open Disk (absorb)

variable {P : Type} [DecidableEq P] {before after s : State P} {entry : Action P × Outcome}
  {history : History P}
variable {p : P} {blockno : Nat} {outcome : Outcome}

/-- No operation logs more than `MAXOPBLOCKS` blocks. -/
def WithinLimit (earlier : History P) (_ : State P) (entry : Action P × Outcome) : Prop :=
  match entry.1 with
  | .logWrite p blockno => (insert blockno (operation p earlier).toFinset).card ≤ MAXOPBLOCKS
  | _ => True

/-- An operation logs a block again only while the log is not full. -/
def RelogsInTime (earlier : History P) (before : State P) (entry : Action P × Outcome) : Prop :=
  match entry.1 with
  | .logWrite p blockno => blockno ∈ operation p earlier → before.lh.length < LOGBLOCKS
  | _ => True

def Fits (earlier : History P) (before : State P) (entry : Action P × Outcome) : Prop :=
  WithinLimit earlier before entry ∧ RelogsInTime earlier before entry

instance (earlier : History P) (before : State P)
    : (entry : Action P × Outcome) → Decidable (WithinLimit earlier before entry)
  | (.logWrite p blockno, _) =>
    inferInstanceAs (Decidable
      ((insert blockno (operation p earlier).toFinset).card ≤ MAXOPBLOCKS))
  | (.beginOp _, _) | (.beginRound _, _) | (.endOp _, _) | (.commitRound _ _, _) | (.kkill _, _) =>
    inferInstanceAs (Decidable True)

instance (earlier : History P) (before : State P)
    : (entry : Action P × Outcome) → Decidable (RelogsInTime earlier before entry)
  | (.logWrite p blockno, _) =>
    inferInstanceAs (Decidable
      (blockno ∈ operation p earlier → before.lh.length < LOGBLOCKS))
  | (.beginOp _, _) | (.beginRound _, _) | (.endOp _, _) | (.commitRound _ _, _) | (.kkill _, _) =>
    inferInstanceAs (Decidable True)

instance (earlier : History P) (before : State P) (entry : Action P × Outcome)
    : Decidable (Fits earlier before entry) :=
  inferInstanceAs (Decidable (WithinLimit earlier before entry ∧ RelogsInTime earlier before entry))

/-- The blocks that process `p` can still log in its operation. -/
def reserve (history : History P) (s : State P) (p : P) : Nat :=
  if (s.threads p).point = .inside then MAXOPBLOCKS - (operation p history).toFinset.card else 0

theorem reserve_inside (inside : (s.threads p).point = .inside)
    : reserve history s p = MAXOPBLOCKS - (operation p history).toFinset.card :=
  if_pos inside

theorem reserve_outside (outside : (s.threads p).point ≠ .inside)
    : reserve history s p = 0 :=
  if_neg outside

/-- Only `begin_op` starts an operation. -/
theorem Step.inside (taken : Step before entry after) (notAdmitted : entry.2 ≠ .admitted) {p : P}
    (inside : (after.threads p).point = .inside)
    : (before.threads p).point = .inside := by
  obtain ⟨action, outcome⟩ := entry
  obtain ⟨⟨_, enabled⟩, rfl, rfl⟩ := taken.inv
  have moved {threads : P → Thread Unit Point} {q : P} {point : Point} (outside : point ≠ .inside)
      (inside : (Library.goTo threads q point p).point = .inside)
      : (threads p).point = .inside := by
    rcases goTo_point threads q p point with same | same
    · exact (outside (same.symm.trans inside)).elim
    · exact same.symm.trans inside
  cases action with
  | beginOp q => exact moved (by simp) inside
  | beginRound q =>
    simp only [Action.run, beginOp] at inside notAdmitted
    split_ifs at inside notAdmitted
    · exact (sleepOn_point ..).symm.trans inside
    · exact (sleepOn_point ..).symm.trans inside
    · exact (notAdmitted rfl).elim
  | logWrite q blockno =>
    simp only [Action.run, logWrite] at inside
    split_ifs at inside <;> exact inside
  | endOp q =>
    simp only [Action.run, endOp] at inside
    split_ifs at inside
    · exact inside
    · exact moved (by simp) inside
    · exact (wakeup_point ..).symm.trans (moved (by simp) inside)
  | commitRound q point =>
    cases point with
    | idle | beginOp | inside => exact inside
    | commit | writeLog tail | install tail =>
      refine moved ?_ inside
      split_ifs <;> simp
    | writeHead | clear | eraseHead => exact moved (by simp) inside
    | finish => exact (wakeup_point ..).symm.trans (moved (by simp) inside)
  | kkill q => exact (rouse_point ..).symm.trans inside

/-- Only `begin_op` admits. -/
theorem Step.admits (taken : Step before entry after) (admitted : entry.2 = .admitted)
    : ∃ p, entry.1 = .beginRound p := by
  obtain ⟨action, outcome⟩ := entry
  obtain ⟨⟨_, enabled⟩, rfl, rfl⟩ := taken.inv
  cases action with
  | beginRound p => exact ⟨p, rfl⟩
  | beginOp p | kkill p => cases admitted
  | logWrite p blockno =>
    simp only [Action.run, logWrite] at admitted
    split_ifs at admitted <;> cases admitted
  | endOp p =>
    simp only [Action.run, endOp] at admitted
    split_ifs at admitted
    cases admitted
  | commitRound p point => cases point <;> cases admitted

/-- Only `log_write` lengthens the log. -/
theorem Step.length_le (taken : Step before entry after)
    (notLog : ¬∃ p blockno, entry.1 = .logWrite p blockno)
    : after.lh.length ≤ before.lh.length := by
  obtain ⟨action, outcome⟩ := entry
  obtain ⟨_, rfl, rfl⟩ := taken.inv
  cases action with
  | logWrite p blockno => exact (notLog ⟨p, blockno, rfl⟩).elim
  | beginOp p | kkill p => exact Nat.le_refl _
  | beginRound p =>
    simp only [Action.run, beginOp]
    split_ifs <;> exact Nat.le_refl _
  | endOp p =>
    simp only [Action.run, endOp]
    split_ifs <;> exact Nat.le_refl _
  | commitRound p point =>
    cases point with
    | clear => exact Nat.zero_le _
    | _ => exact Nat.le_refl _

theorem operation_grows (notAdmitted : entry.2 ≠ .admitted) (p : P)
    : operation p history ⊆ operation p ((entry, s) :: history) := by
  obtain ⟨action, outcome⟩ := entry
  cases outcome with
  | admitted => exact (notAdmitted rfl).elim
  | header blocks | panic message => cases action <;> exact List.Subset.refl _
  | pending =>
    cases action with
    | logWrite q blockno =>
      rw [operation]
      split_ifs
      · exact List.subset_cons_self blockno _
      · exact List.Subset.refl _
    | _ => exact List.Subset.refl _

/-- What an operation can still log does not grow. -/
theorem Step.reserve_le (taken : Step before entry after) (notAdmitted : entry.2 ≠ .admitted)
    (p : P)
    : reserve ((entry, before) :: history) after p ≤ reserve history before p := by
  by_cases inside : (after.threads p).point = .inside
  · have more : (operation p history).toFinset
        ⊆ (operation p ((entry, before) :: history)).toFinset := by
      intro blockno logged
      rw [List.mem_toFinset] at logged ⊢
      exact operation_grows notAdmitted p logged
    have cards := Finset.card_le_card more
    rw [reserve_inside inside, reserve_inside (taken.inside notAdmitted inside)]
    omega
  · rw [reserve_outside inside]
    exact Nat.zero_le _

theorem reserve_pos (inside : (s.threads p).point = .inside)
    (within : WithinLimit history s (.logWrite p blockno, outcome))
    (isNew : blockno ∉ operation p history)
    : reserve history s p
      = MAXOPBLOCKS - (insert blockno (operation p history).toFinset).card + 1 := by
  have within : (insert blockno (operation p history).toFinset).card ≤ MAXOPBLOCKS := within
  rw [reserve_inside inside]
  rw [Finset.card_insert_of_notMem (by rwa [List.mem_toFinset])] at within ⊢
  omega

variable [Fintype P]

/-- What is in the log and what can still be logged fits into it. -/
def Room (history : History P) (s : State P) : Prop :=
  s.lh.length + ∑ p, reserve history s p ≤ LOGBLOCKS

theorem Room.shrink (room : Room history before) (lh : after.lh.length ≤ before.lh.length)
    (reserves : ∀ p, reserve ((entry, before) :: history) after p ≤ reserve history before p)
    : Room ((entry, before) :: history) after := by
  have sums := Finset.sum_le_sum fun p (_ : p ∈ Finset.univ) => reserves p
  unfold Room at room ⊢
  omega

theorem sum_reserve_le (history : History P) (s : State P)
    : ∑ p, reserve history s p ≤ MAXOPBLOCKS * insiders s.threads := by
  rw [insiders, countWhere, Finset.mul_sum]
  refine Finset.sum_le_sum fun p _ => ?_
  by_cases inside : (s.threads p).point = .inside
  · simp [reserve_inside inside, inside]
  · rw [reserve_outside inside]
    exact Nat.zero_le _

/-- The test of `begin_op` leaves room for all operations. -/
theorem Room.beginRound (exclusive : Exclusive before)
    (taken : Step before (.beginRound p, .admitted) after)
    : Room (((.beginRound p, .admitted), before) :: history) after := by
  have counted := (exclusive.step taken).outstanding
  have sums := sum_reserve_le (((.beginRound p, .admitted), before) :: history) after
  obtain ⟨_, admitted, computed⟩ := taken.inv
  simp only [Action.run, beginOp] at admitted computed
  split_ifs at admitted computed with busy full
  have lh : after.lh = before.lh := by rw [← computed]; rfl
  have outstanding : after.outstanding = before.outstanding + 1 := by rw [← computed]; rfl
  unfold Room
  rw [lh]
  simp only [MAXOPBLOCKS] at full sums ⊢
  omega

theorem Consistent.operation_logged (consistent : Consistent history s)
    (inside : (s.threads p).point = .inside)
    : operation p history ⊆ s.lh := by
  have idle := consistent.exclusive.not_committing inside
  have notInstalls (q : P) : (s.threads q).point.Installs = false := by
    by_contra installs
    have commits := Point.commits_of_installs (Bool.eq_true_of_not_eq_false installs)
    rw [consistent.exclusive.quiet idle q] at commits
    cases commits
  intro blockno logged
  rw [consistent.recorded.recorded notInstalls]
  exact operation_subset_transaction (consistent.recorded.inside p inside) logged

theorem Room.logWrite (room : Room history before) (consistent : Consistent history before)
    (within : WithinLimit history before (.logWrite p blockno, outcome))
    (taken : Step before (.logWrite p blockno, outcome) after)
    : Room (((.logWrite p blockno, outcome), before) :: history) after := by
  have inside : (before.threads p).point = .inside := by
    have here : before.threads p = { point := .inside } := taken.1.2
    rw [here]
  have notAdmitted : outcome ≠ .admitted := by
    obtain ⟨_, rfl, _⟩ := taken.inv
    simp only [Action.run, Log.logWrite]
    split_ifs <;> simp [State.panic]
  have reserves
      : ∀ q, reserve (((.logWrite p blockno, outcome), before) :: history) after q
          ≤ reserve history before q :=
    taken.reserve_le notAdmitted
  obtain ⟨_, computed, computed'⟩ := taken.inv
  simp only [Action.run, Log.logWrite] at computed computed'
  split_ifs at computed computed' with full outside
  · exact room.shrink (by rw [← computed']; rfl) reserves
  · exact room.shrink (by rw [← computed']; rfl) reserves
  · by_cases known : blockno ∈ before.lh
    · refine room.shrink ?_ reserves
      rw [← computed', absorb, if_pos known]
    · have isNew : blockno ∉ operation p history :=
        fun logged => known (consistent.operation_logged inside logged)
      have less : reserve (((.logWrite p blockno, outcome), before) :: history) after p
          < reserve history before p := by
        have inside' : (after.threads p).point = .inside := by
          rw [← computed']
          exact inside
        have grows : operation p (((.logWrite p blockno, outcome), before) :: history)
            = blockno :: operation p history := by
          rw [← computed]
          exact if_pos rfl
        rw [reserve_pos inside within isNew, reserve_inside inside', grows, List.toFinset_cons]
        exact Nat.lt_succ_self _
      have sums := Finset.sum_lt_sum (fun q (_ : q ∈ Finset.univ) => reserves q)
        ⟨p, Finset.mem_univ p, less⟩
      have length : after.lh.length = before.lh.length + 1 := by
        rw [← computed', absorb, if_neg known]
        simp
      unfold Room at room ⊢
      omega

theorem Room.step (room : Room history before) (consistent : Consistent history before)
    (within : WithinLimit history before entry) (taken : Step before entry after)
    : Room ((entry, before) :: history) after := by
  by_cases isAdmitted : entry.2 = .admitted
  · obtain ⟨p, isAdmit⟩ := taken.admits isAdmitted
    obtain rfl : entry = (.beginRound p, .admitted) := Prod.ext isAdmit isAdmitted
    exact Room.beginRound consistent.exclusive taken
  · by_cases isLog : ∃ p blockno, entry.1 = .logWrite p blockno
    · obtain ⟨p, blockno, isLog⟩ := isLog
      obtain ⟨action, outcome⟩ := entry
      cases isLog
      exact room.logWrite consistent within taken
    · exact room.shrink (taken.length_le isLog) (taken.reserve_le isAdmitted)

/-- A block that is new to its operation finds room. -/
theorem Room.no_panic (room : Room history before)
    (fits : Fits history before (.logWrite p blockno, outcome))
    (taken : Step before (.logWrite p blockno, outcome) after)
    : outcome ≠ .panic "too big a transaction" := by
  obtain ⟨within, inTime⟩ := fits
  have inside : (before.threads p).point = .inside := by
    have here : before.threads p = { point := .inside } := taken.1.2
    rw [here]
  have notFull : before.lh.length < LOGBLOCKS := by
    by_cases again : blockno ∈ operation p history
    · exact inTime again
    · have some := reserve_pos inside within again
      have bound := Finset.single_le_sum_of_canonicallyOrdered (f := reserve history before)
        (Finset.mem_univ p)
      unfold Room at room
      omega
  obtain ⟨_, rfl, _⟩ := taken.inv
  simp only [Action.run, Log.logWrite]
  split_ifs with full outside
  · omega
  · simp [State.panic]
  · simp

/-- The whole invariant. -/
structure Admissible (history : History P) (s : State P) : Prop where
  consistent : Consistent history s
  room : Room history s

theorem Admissible.initlog : Admissible [] (initlog : State P) := by
  refine ⟨⟨.initlog, .initlog⟩, ?_⟩
  have none : ∑ p : P, reserve [] Log.initlog p = 0 :=
    Finset.sum_eq_zero fun p _ => reserve_outside (by simp [Log.initlog])
  rw [Room, none]
  exact Nat.zero_le _

theorem Admissible.step (admissible : Admissible history before)
    (within : WithinLimit history before entry) (taken : Step before entry after)
    : Admissible ((entry, before) :: history) after :=
  ⟨admissible.consistent.step taken, admissible.room.step admissible.consistent within taken⟩

/-- As long as every operation logs at most `MAXOPBLOCKS` blocks and logs none of them again
while the log is full, the log never overflows and `log_write` finds room.
-/
theorem admission_leaves_room {final : State P} (run : Run Step initlog history final)
    (fits : Throughout Fits history)
    : final.lh.length ≤ LOGBLOCKS
      ∧ ∀ p blockno outcome after, Fits history final (.logWrite p blockno, outcome)
        → Step final (.logWrite p blockno, outcome) after
        → outcome ≠ .panic "too big a transaction" := by
  have admissible : Admissible history final :=
    run.historyInvariant .initlog
      (fun _ _ _ _ admissible fits taken => admissible.step fits.1 taken) fits
  have room := admissible.room
  refine ⟨?_, fun p blockno outcome after fits taken => room.no_panic fits taken⟩
  exact (Nat.le_add_right _ _).trans room

/-- Three operations that log ten blocks each. -/
def threeOperations : List (Action (Fin 3) × Outcome) :=
  [(.beginOp 0, .pending), (.beginRound 0, .admitted), (.beginOp 1, .pending),
    (.beginRound 1, .admitted), (.beginOp 2, .pending), (.beginRound 2, .admitted)]
  ++ (List.range 30).map (fun k => (.logWrite (Fin.ofNat 3 (k / 10)) k, .pending))

/-- Witness: the last of thirty blocks finds room. -/
theorem thirtieth_block_fits
    : ∃ (history : History (Fin 3)) (final : State (Fin 3)),
      Run Step initlog history final ∧ steps history = threeOperations.dropLast
      ∧ final.lh.length = 29
      ∧ ∀ outcome after, Step final (.logWrite 2 29, outcome) after
        → outcome ≠ .panic "too big a transaction" := by
  refine exists_run
    (fun history final => Throughout Fits history
      ∧ Fits history final (.logWrite 2 29, .pending) ∧ final.lh.length = 29)
    (by decide +kernel) fun history final run passed => ?_
  obtain ⟨fits, fitsLast, length⟩ := passed
  exact ⟨length, fun outcome after =>
    (admission_leaves_room run fits).2 2 29 outcome after fitsLast⟩

/-- Three operations with ten blocks each fill the log; logging one of their blocks again
panics.
-/
theorem relogging_in_full_log_panics
    : ∃ (history : History (Fin 3)) (final after : State (Fin 3)),
      Run Step initlog history final ∧ steps history = threeOperations
      ∧ Throughout WithinLimit history
      ∧ WithinLimit history final (.logWrite 0 0, .panic "too big a transaction")
      ∧ 0 ∈ operation 0 history
      ∧ Step final (.logWrite 0 0, .panic "too big a transaction") after := by
  refine exists_run_after
    (fun history final => Throughout WithinLimit history
      ∧ WithinLimit history final (.logWrite 0 0, .panic "too big a transaction")
      ∧ 0 ∈ operation 0 history ∧ Action.Enabled final (.logWrite 0 0)
      ∧ (Action.run final (.logWrite 0 0)).1 = .panic "too big a transaction")
    (by decide +kernel) fun history final run passed => ?_
  obtain ⟨within, withinLast, again, enabled, panics⟩ := passed
  exact ⟨_, within, withinLast, again, enabled, Prod.ext panics rfl⟩

end Xv6.Log

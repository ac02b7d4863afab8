import Xv6.Log.Operations

/-! Operations never straddle a commit. `outstanding` counts the processes in an operation, and
a process only starts to commit when there are none; until it has finished, `begin_op` lets
nobody in. So the blocks of one operation all go to the header of the next commit.
-/

namespace Xv6.Log

open Library
open Disk (absorb)

section

variable {P : Type} [Fintype P] {before after s : State P}
  {entry : Action P × Outcome} {history : History P}
variable {threads : P → Thread Unit Point}

/-- How many processes are in an operation. -/
def insiders (threads : P → Thread Unit Point) : Nat :=
  countWhere (fun thread => thread.point == .inside) threads

/-- Commits and operations exclude each other. -/
structure Exclusive (s : State P) : Prop where
  outstanding : s.outstanding = insiders s.threads
  quiet : s.committing = false → ∀ p, (s.threads p).point.Commits = false
  apart : s.committing = true → ∀ p, (s.threads p).point ≠ .inside
  sole
    : ∀ p q, (s.threads p).point.Commits = true → (s.threads q).point.Commits = true → p = q

theorem insiders_congr {threads' : P → Thread Unit Point}
    (same : ∀ p, (threads' p).point = (threads p).point)
    : insiders threads' = insiders threads :=
  countWhere_congr fun p => by rw [same p]

theorem insiders_pos {p : P} (inside : (threads p).point = .inside)
    : 0 < insiders threads :=
  countWhere_pos _ threads p (by simp [inside])

theorem insiders_none (outside : ∀ p, (threads p).point ≠ .inside)
    : insiders threads = 0 :=
  Finset.sum_eq_zero fun p _ => by simp [outside p]

namespace Exclusive

variable {p : P} {point : Point}

/-- What stays on the same points stays exclusive. -/
theorem of_points (exclusive : Exclusive before)
    (outstanding : after.outstanding = before.outstanding)
    (committing : after.committing = before.committing)
    (points : ∀ p, (after.threads p).point = (before.threads p).point)
    : Exclusive after where
  outstanding := by rw [outstanding, insiders_congr points, exclusive.outstanding]
  quiet idle p := by
    rw [points p]
    exact exclusive.quiet (committing ▸ idle) p
  apart busy p := by
    rw [points p]
    exact exclusive.apart (committing ▸ busy) p
  sole p q := by
    rw [points p, points q]
    exact exclusive.sole p q

/-- Nobody commits while an operation is inside. -/
theorem not_committing (exclusive : Exclusive s) (inside : (s.threads p).point = .inside)
    : s.committing = false := by
  by_contra busy
  exact exclusive.apart (Bool.eq_true_of_not_eq_false busy) p inside

/-- Whoever commits has set the flag. -/
theorem committing (exclusive : Exclusive s) (commits : (s.threads p).point.Commits = true)
    : s.committing = true := by
  by_contra idle
  rw [exclusive.quiet (Bool.eq_false_of_not_eq_true idle) p] at commits
  cases commits

/-- A state without a commit. -/
theorem of_quiet (outstanding : s.outstanding = insiders s.threads) (idle : s.committing = false)
    (quiet : ∀ p, (s.threads p).point.Commits = false)
    : Exclusive s where
  outstanding := outstanding
  quiet _ := quiet
  apart busy := absurd (idle.symm.trans busy) (by decide)
  sole p _ commits := absurd ((quiet p).symm.trans commits) (by decide)

theorem initlog : Exclusive (initlog : State P) := by
  refine of_quiet ?_ rfl fun _ => rfl
  rw [insiders_none fun p => by simp [Log.initlog]]
  rfl

variable [DecidableEq P]

/-- A process that moves is counted where it goes. -/
theorem insiders_goTo (threads : P → Thread Unit Point) (p : P) (point : Point)
    : insiders (Library.goTo threads p point) + ((threads p).point == .inside).toNat
      = insiders threads + (point == .inside).toNat :=
  countWhere_update (fun thread : Thread Unit Point => thread.point == .inside) threads p
    { point := point }

/-- A process moves on, neither into nor out of an operation or a commit. -/
theorem move (exclusive : Exclusive s) (notInside : (s.threads p).point ≠ .inside)
    (notInside' : point ≠ .inside) (commits : point.Commits = (s.threads p).point.Commits)
    : Exclusive (s.goTo p point) := by
  have same (q : P) : ((s.goTo p point).threads q).point.Commits
      = (s.threads q).point.Commits := by
    by_cases here : q = p
    · subst here
      simp [State.goTo, commits]
    · simp [State.goTo, goTo_other _ here]
  refine ⟨?_, fun idle q => ?_, fun busy q => ?_, fun q q' => ?_⟩
  · have count := insiders_goTo s.threads p point
    rw [beq_eq_false_iff_ne.mpr notInside, beq_eq_false_iff_ne.mpr notInside'] at count
    simp only [State.goTo]
    rw [exclusive.outstanding]
    omega
  · rw [same]
    exact exclusive.quiet idle q
  · simp only [State.goTo]
    rcases goTo_point s.threads p q point with moved | stayed
    · rw [moved]
      exact notInside'
    · rw [stayed]
      exact exclusive.apart busy q
  · rw [same, same]
    exact exclusive.sole q q'

omit [Fintype P] in
theorem quiet_goTo {threads : P → Thread Unit Point} (outside : point.Commits = false)
    (others : ∀ q, q ≠ p → (threads q).point.Commits = false) (q : P)
    : (Library.goTo threads p point q).point.Commits = false := by
  by_cases here : q = p
  · rw [here, goTo_self]
    exact outside
  · rw [goTo_other _ here]
    exact others q here

/-- `begin_op` lets a process in. -/
theorem beginOp (exclusive : Exclusive s) {p : P} (here : s.threads p = { point := .beginOp })
    : Exclusive (beginOp s p).2 := by
  unfold Log.beginOp
  split_ifs with busy full
  · exact exclusive.of_points rfl rfl fun q => sleepOn_point ..
  · exact exclusive.of_points rfl rfl fun q => sleepOn_point ..
  · have idle := Bool.eq_false_of_not_eq_true busy
    refine of_quiet ?_ idle (quiet_goTo rfl fun q _ => exclusive.quiet idle q)
    have count := insiders_goTo s.threads p .inside
    rw [here] at count
    have count : insiders (Library.goTo s.threads p .inside) = insiders s.threads + 1 := count
    simp only [State.goTo]
    rw [exclusive.outstanding, count]
    rfl

/-- `end_op` lets it out, and the last one commits. -/
theorem endOp (exclusive : Exclusive s) {p : P} (here : s.threads p = { point := .inside })
    : Exclusive (endOp s p).2 := by
  have idle := exclusive.not_committing (p := p) (by rw [here])
  have count (point : Point) (outside : (point == .inside) = false)
      : s.outstanding - 1 = insiders (Library.goTo s.threads p point) := by
    have count := insiders_goTo s.threads p point
    rw [here, outside] at count
    have count : insiders (Library.goTo s.threads p point) + 1 = insiders s.threads := count
    rw [exclusive.outstanding]
    omega
  unfold Log.endOp
  simp only [idle, Bool.false_eq_true, if_false]
  split_ifs with last
  · refine ⟨count .commit rfl, nofun, fun _ q inside => ?_, fun q q' left right => ?_⟩
    · have some := insiders_pos inside
      have none := count .commit rfl
      simp only [State.goTo] at some
      omega
    · -- nobody was committing before, so whoever is now is the caller
      have isCaller (q : P) (commits : (Library.goTo s.threads p .commit q).point.Commits = true)
          : q = p := by
        by_contra other
        rw [goTo_other _ other, exclusive.quiet idle q] at commits
        cases commits
      rw [isCaller q left, isCaller q' right]
  · refine of_quiet ?_ rfl (quiet_goTo rfl fun q _ => ?_)
    · have points (q : P) : (Library.goTo (wakeup s.threads ()) p .idle q).point
          = (Library.goTo s.threads p .idle q).point := by
        by_cases moved : q = p
        · simp [moved]
        · simp [goTo_other _ moved]
      simp only [State.goTo]
      rw [insiders_congr points]
      exact count .idle rfl
    · rw [wakeup_point]
      exact exclusive.quiet idle q

/-- A round of `commit`. -/
theorem commitRound (exclusive : Exclusive s) {p : P} {point : Point}
    (here : s.threads p = { point := point }) (commits : point.Commits = true)
    : Exclusive (commitRound s p point).2 := by
  have notInside : (s.threads p).point ≠ .inside := by
    rw [here]
    rintro rfl
    cases commits
  have goesOn {s' : State P} {next : Point} (outstanding : s'.outstanding = s.outstanding)
      (committing : s'.committing = s.committing) (threads : s'.threads = s.threads)
      (stays : next.Commits = true)
      : Exclusive (s'.goTo p next) := by
    have exclusive' : Exclusive s' := exclusive.of_points outstanding committing
      fun q => by rw [threads]
    refine exclusive'.move (by rw [threads]; exact notInside) ?_ ?_
    · rintro rfl
      cases stays
    · rw [threads, here, stays, commits]
  cases point with
  | idle | beginOp | inside => cases commits
  | commit | writeLog tail | install tail =>
    refine goesOn rfl rfl rfl ?_
    split_ifs <;> rfl
  | writeHead | clear | eraseHead => exact goesOn rfl rfl rfl rfl
  | finish =>
    refine of_quiet ?_ rfl (quiet_goTo rfl fun q other => ?_)
    · have points (q : P) : (wakeup s.threads () q).point = (s.threads q).point :=
        wakeup_point ..
      have count := insiders_goTo (wakeup s.threads ()) p .idle
      rw [points, here, insiders_congr points] at count
      exact exclusive.outstanding.trans (congrArg Nat.cast count.symm)
    · rw [wakeup_point]
      by_contra commits'
      refine other (exclusive.sole q p (Bool.eq_true_of_not_eq_false commits') ?_)
      rw [here]
      exact commits

/-- At most one process commits, and then nobody is inside. -/
theorem step (exclusive : Exclusive before) (taken : Step before entry after)
    : Exclusive after := by
  obtain ⟨action, outcome⟩ := entry
  obtain ⟨⟨_, enabled⟩, rfl, rfl⟩ := taken.inv
  cases action with
  | beginOp p =>
    have here : before.threads p = { point := .idle } := enabled
    exact exclusive.move (by simp [here]) (by simp) (by simp [here, Point.Commits])
  | beginRound p => exact exclusive.beginOp enabled
  | logWrite p blockno =>
    simp only [Action.run, logWrite]
    split_ifs <;> exact exclusive.of_points rfl rfl fun _ => rfl
  | endOp p => exact exclusive.endOp enabled
  | commitRound p point => exact exclusive.commitRound enabled.1 enabled.2
  | kkill p => exact exclusive.of_points rfl rfl fun q => rouse_point ..

end Exclusive

end

-- What the header of a commit holds: all blocks that were logged since the header before it, and
-- so all blocks of every operation that ended since then.

variable {P : Type} [DecidableEq P] {before after s : State P} {entry : Action P × Outcome}
  {history : History P}

/-- Between the write of the header and the end of the installation. -/
def Point.Installs : Point → Bool
  | .install _ | .clear => true
  | _ => false

/-- `log.lh` holds what was logged since the last header, until that is in the new header; and
there was no header since any current operation began.
-/
structure Recorded (history : History P) (s : State P) : Prop where
  recorded
    : (∀ p, (s.threads p).point.Installs = false)
      → ∀ blockno, blockno ∈ s.lh ↔ blockno ∈ transaction history
  installed : ∀ p, (s.threads p).point.Installs = true → transaction history = []
  erased : ∀ p, (s.threads p).point = .eraseHead → s.lh = []
  inside : ∀ p, (s.threads p).point = .inside → headed p history = false

/-- `log_write` adds its block. -/
theorem mem_absorb {lh : List Nat} {blockno other : Nat}
    : other ∈ absorb lh blockno ↔ other = blockno ∨ other ∈ lh := by
  unfold absorb
  split_ifs with known
  · exact ⟨.inr, fun either => either.elim (fun same => same ▸ known) id⟩
  · simp [or_comm]

theorem Point.commits_of_installs {point : Point} (installs : point.Installs = true)
    : point.Commits = true := by
  cases point <;> first | rfl | cases installs

namespace Recorded

/-- A step that logs nothing and leaves everybody at his point. -/
theorem stay (recorded : Recorded history before)
    (transactions : transaction ((entry, before) :: history) = transaction history)
    (headers : ∀ p, headed p ((entry, before) :: history) = headed p history)
    (lh : after.lh = before.lh)
    (points : ∀ p, (after.threads p).point = (before.threads p).point)
    : Recorded ((entry, before) :: history) after where
  recorded none blockno := by
    rw [transactions, lh]
    exact recorded.recorded (fun p => by rw [← points]; exact none p) blockno
  installed p busy := by
    rw [points] at busy
    rw [transactions]
    exact recorded.installed p busy
  erased p isErase := by
    rw [points] at isErase
    rw [lh]
    exact recorded.erased p isErase
  inside p isInside := by
    rw [points] at isInside
    rw [headers]
    exact recorded.inside p isInside

/-- The same for a process that moves on, neither into an operation nor out of the
installation.
-/
theorem move (recorded : Recorded history before) {p : P} {point : Point}
    (transactions : transaction ((entry, before) :: history) = transaction history)
    (headers : ∀ p, headed p ((entry, before) :: history) = headed p history)
    (lh : s.lh = before.lh) (points : ∀ p, (s.threads p).point = (before.threads p).point)
    (installs : point.Installs = (before.threads p).point.Installs)
    (notErase : point ≠ .eraseHead) (notInside : point ≠ .inside)
    : Recorded ((entry, before) :: history) (s.goTo p point) := by
  have stays : Recorded ((entry, before) :: history) s :=
    recorded.stay transactions headers lh points
  have same (q : P)
      : (Library.goTo s.threads p point q).point.Installs = (s.threads q).point.Installs := by
    by_cases here : q = p
    · rw [here, goTo_self, installs, points]
    · rw [goTo_other _ here]
  refine ⟨fun none => stays.recorded fun q => (same q).symm.trans (none q),
    fun q busy => stays.installed q ((same q).symm.trans busy),
    fun q isErase => stays.erased q ?_, fun q isInside => stays.inside q ?_⟩
  · rcases goTo_point s.threads p q point with moved | stayed
    · exact (notErase (moved.symm.trans isErase)).elim
    · exact stayed.symm.trans isErase
  · rcases goTo_point s.threads p q point with moved | stayed
    · exact (notInside (moved.symm.trans isInside)).elim
    · exact stayed.symm.trans isInside

theorem initlog : Recorded [] (initlog : State P) :=
  ⟨fun _ _ => Iff.rfl, fun _ busy => (nomatch busy), fun _ isErase => (nomatch isErase),
    fun _ isInside => (nomatch isInside)⟩

section

variable (recorded : Recorded history s)
include recorded

/-- An operation that is let in has logged nothing yet. -/
theorem beginOp {p : P} (here : s.threads p = { point := .beginOp })
    : Recorded (((.beginRound p, (beginOp s p).1), s) :: history) (beginOp s p).2 := by
  unfold Log.beginOp
  split_ifs with busy full
  · exact recorded.stay rfl (fun _ => rfl) rfl fun q => sleepOn_point ..
  · exact recorded.stay rfl (fun _ => rfl) rfl fun q => sleepOn_point ..
  · have point (q : P) : q ≠ p → (Library.goTo s.threads p .inside q).point
        = (s.threads q).point := fun other => by rw [goTo_other _ other]
    refine ⟨fun none => recorded.recorded fun q => ?_, fun q busy => recorded.installed q ?_,
      fun q isErase => recorded.erased q ?_, fun q isInside => ?_⟩
    · by_cases moved : q = p
      · rw [moved, here]
        rfl
      · rw [← point q moved]
        exact none q
    · rcases goTo_point s.threads p q .inside with moved | stayed
      · simp only [State.goTo, moved] at busy
        cases busy
      · exact stayed ▸ busy
    · rcases goTo_point s.threads p q .inside with moved | stayed
      · cases moved.symm.trans isErase
      · exact stayed.symm.trans isErase
    · rw [headed]
      by_cases moved : p = q
      · rw [if_pos moved]
      · rw [if_neg moved]
        exact recorded.inside q ((point q (Ne.symm moved)).symm.trans isInside)

theorem logWrite {p : P} {blockno : Nat} (quiet : ∀ q, (s.threads q).point.Commits = false)
    : Recorded (((.logWrite p blockno, (logWrite s blockno).1), s) :: history)
        (logWrite s blockno).2 := by
  have notInstalls (q : P) : (s.threads q).point.Installs = false := by
    by_contra installs
    have commits := Point.commits_of_installs (Bool.eq_true_of_not_eq_false installs)
    rw [quiet q] at commits
    cases commits
  unfold Log.logWrite
  split_ifs with full outside
  · exact recorded.stay rfl (fun _ => rfl) rfl fun _ => rfl
  · exact recorded.stay rfl (fun _ => rfl) rfl fun _ => rfl
  · refine ⟨fun _ other => ?_, fun q busy => ?_, fun q isErase => ?_, recorded.inside⟩
    · rw [mem_absorb, transaction, List.mem_cons, recorded.recorded notInstalls]
    · exact absurd ((notInstalls q).symm.trans busy) (by decide)
    · have commits := quiet q
      rw [isErase] at commits
      cases commits

theorem endOp {p : P} (here : s.threads p = { point := .inside })
    : Recorded (((.endOp p, (endOp s p).1), s) :: history) (endOp s p).2 := by
  have installs : (s.threads p).point.Installs = false := by
    rw [here]
    rfl
  unfold Log.endOp
  dsimp only
  split_ifs with busy last
  · exact recorded.stay rfl (fun _ => rfl) rfl fun _ => rfl
  · exact recorded.move rfl (fun _ => rfl) rfl (fun _ => rfl) installs.symm (by simp) (by simp)
  · exact recorded.move rfl (fun _ => rfl) rfl (fun _ => wakeup_point ..) installs.symm (by simp)
      (by simp)

/-- When the header is written, everything that was logged is in it, and nobody is in an
operation.
-/
theorem header (p : P) (blocks : List Nat) (apart : ∀ q, (s.threads q).point ≠ .inside)
    : Recorded (((.commitRound p .writeHead, .header blocks), s) :: history)
        (s.goTo p (.install 0)) := by
  refine ⟨fun none => ?_, fun _ _ => rfl, fun q isErase => recorded.erased q ?_,
    fun q isInside => (apart q ?_).elim⟩
  · have installs := none p
    simp only [State.goTo, goTo_self] at installs
    cases installs
  · rcases goTo_point s.threads p q (.install 0) with moved | stayed
    · cases moved.symm.trans isErase
    · exact stayed.symm.trans isErase
  · rcases goTo_point s.threads p q (.install 0) with moved | stayed
    · cases moved.symm.trans isInside
    · exact stayed.symm.trans isInside

theorem commitRound {p : P} {point : Point} (here : s.threads p = { point := point })
    (commits : point.Commits = true) (apart : ∀ q, (s.threads q).point ≠ .inside)
    : Recorded (((.commitRound p point, (commitRound s p point).1), s) :: history)
        (commitRound s p point).2 := by
  have installs : (s.threads p).point.Installs = point.Installs := by rw [here]
  cases point with
  | idle | beginOp | inside => cases commits
  | commit | writeLog tail | install tail =>
    simp only [Log.commitRound]
    split_ifs <;>
      exact recorded.move rfl (fun _ => rfl) rfl (fun _ => rfl) installs.symm (by simp)
        (by simp)
  | writeHead => exact recorded.header p s.lh apart
  | clear =>
    have none : transaction history = [] := recorded.installed p installs
    refine ⟨fun _ blockno => ?_, fun _ _ => none, fun _ _ => rfl,
      fun q isInside => (apart q ?_).elim⟩
    · change blockno ∈ [] ↔ blockno ∈ transaction history
      rw [none]
    · rcases goTo_point s.threads p q .eraseHead with moved | stayed
      · cases moved.symm.trans isInside
      · exact stayed.symm.trans isInside
  | eraseHead =>
    have none : s.lh = [] := recorded.erased p (by rw [here])
    refine ⟨fun _ blockno => ?_, fun _ _ => rfl, fun _ _ => none,
      fun q isInside => (apart q ?_).elim⟩
    · change blockno ∈ s.lh ↔ blockno ∈ []
      rw [none]
    · rcases goTo_point s.threads p q .finish with moved | stayed
      · cases moved.symm.trans isInside
      · exact stayed.symm.trans isInside
  | finish =>
    exact recorded.move rfl (fun _ => rfl) rfl (fun _ => wakeup_point ..) installs.symm
      (by simp) (by simp)

end

end Recorded

variable [Fintype P]

/-- The header follows every step. -/
theorem Recorded.step (recorded : Recorded history before) (exclusive : Exclusive before)
    (taken : Step before entry after)
    : Recorded ((entry, before) :: history) after := by
  obtain ⟨action, outcome⟩ := entry
  obtain ⟨⟨_, enabled⟩, rfl, rfl⟩ := taken.inv
  cases action with
  | beginOp p =>
    have here : before.threads p = { point := .idle } := enabled
    refine recorded.move rfl (fun _ => rfl) rfl (fun _ => rfl) ?_ (by simp) (by simp)
    rw [here]
    rfl
  | beginRound p => exact recorded.beginOp enabled
  | logWrite p blockno =>
    have here : before.threads p = { point := .inside } := enabled
    have idle := exclusive.not_committing (p := p) (by rw [here])
    exact recorded.logWrite (exclusive.quiet idle)
  | endOp p => exact recorded.endOp enabled
  | commitRound p point =>
    have busy : before.committing = true := by
      refine exclusive.committing (p := p) ?_
      rw [enabled.1]
      exact enabled.2
    exact recorded.commitRound enabled.1 enabled.2 (exclusive.apart busy)
  | kkill p => exact recorded.stay rfl (fun _ => rfl) rfl fun q => rouse_point ..

structure Consistent (history : History P) (s : State P) : Prop where
  exclusive : Exclusive s
  recorded : Recorded history s

theorem Consistent.step (consistent : Consistent history before) (taken : Step before entry after)
    : Consistent ((entry, before) :: history) after :=
  ⟨consistent.exclusive.step taken, consistent.recorded.step consistent.exclusive taken⟩

/-- Commits run while no operation is outstanding, one at a time, and meanwhile nothing is
logged; neither `end_op` nor `log_write` panics about the other. The first header that is
written after the start of an operation is written after its end, and holds all its blocks.
-/
theorem operations_never_straddle_a_commit {final : State P}
    (run : Run Step initlog history final)
    : (∀ p, (final.threads p).point.Commits = true
        → final.committing = true ∧ final.outstanding = 0)
      ∧ (∀ p q, (final.threads p).point.Commits = true → (final.threads q).point.Commits = true
        → p = q)
      ∧ (∀ p blockno outcome after, Step final (.logWrite p blockno, outcome) after
        → final.committing = false ∧ outcome ≠ .panic "log_write outside of trans")
      ∧ (∀ p outcome after, Step final (.endOp p, outcome) after
        → outcome ≠ .panic "log.committing")
      ∧ (∀ p, (final.threads p).point = .inside → headed p history = false)
      ∧ ∀ p blocks after, Step final (.commitRound p .writeHead, .header blocks) after
        → (∀ blockno, blockno ∈ blocks ↔ blockno ∈ transaction history)
          ∧ ∀ q, headed q history = false → operation q history ⊆ blocks := by
  obtain ⟨exclusive, recorded⟩ : Consistent history final :=
    run.always ⟨.initlog, .initlog⟩ fun _ _ _ _ consistent taken => consistent.step taken
  refine ⟨fun p commits => ?_, exclusive.sole, fun p blockno outcome after taken => ?_,
    fun p outcome after taken => ?_, recorded.inside, fun p blocks after taken => ?_⟩
  · have busy := exclusive.committing commits
    refine ⟨busy, ?_⟩
    rw [exclusive.outstanding, insiders_none (exclusive.apart busy)]
    rfl
  · obtain ⟨⟨_, here⟩, rfl, _⟩ := taken.inv
    have inside : (final.threads p).point = .inside := by rw [here]
    refine ⟨exclusive.not_committing inside, ?_⟩
    have some := insiders_pos inside
    have count := exclusive.outstanding
    simp only [Action.run, logWrite]
    split_ifs with full outside
    · simp [State.panic]
    · omega
    · simp
  · obtain ⟨⟨_, here⟩, rfl, _⟩ := taken.inv
    have idle := exclusive.not_committing (p := p) (by rw [here])
    simp only [Action.run, endOp, idle, Bool.false_eq_true, if_false]
    split_ifs <;> simp
  · obtain ⟨⟨_, here, _⟩, written, _⟩ := taken.inv
    cases written
    have same (blockno : Nat) : blockno ∈ final.lh ↔ blockno ∈ transaction history := by
      refine recorded.recorded (fun q => ?_) blockno
      by_contra installs
      have installs := Bool.eq_true_of_not_eq_false installs
      have isWriter : q = p := by
        refine exclusive.sole q p (Point.commits_of_installs installs) ?_
        rw [here]
        rfl
      rw [isWriter, here] at installs
      cases installs
    refine ⟨same, fun q isOpen blockno logged => (same blockno).mpr ?_⟩
    exact operation_subset_transaction isOpen logged

/-- Witness: two operations overlap, and the header that is written when the last one has ended
holds the blocks of both.
-/
theorem both_operations_in_one_header
    : ∃ (history : History (Fin 2)) (final after : State (Fin 2)),
      Run Step initlog history final
      ∧ steps history
        = [(.beginOp 0, .pending), (.beginRound 0, .admitted), (.logWrite 0 50, .pending),
          (.beginOp 1, .pending), (.beginRound 1, .admitted), (.logWrite 1 60, .pending),
          (.endOp 0, .pending), (.logWrite 1 50, .pending), (.endOp 1, .pending),
          (.commitRound 1 .commit, .pending), (.commitRound 1 (.writeLog 0), .pending),
          (.commitRound 1 (.writeLog 1), .pending), (.commitRound 1 (.writeLog 2), .pending)]
      ∧ Step final (.commitRound 1 .writeHead, .header [50, 60]) after
      ∧ operation 0 history ⊆ [50, 60] ∧ operation 1 history ⊆ [50, 60] := by
  refine exists_run_after
    (fun history final => Action.Enabled final (.commitRound 1 .writeHead)
      ∧ final.lh = [50, 60] ∧ headed 0 history = false ∧ headed 1 history = false)
    (by decide +kernel) fun history final run passed => ?_
  obtain ⟨enabled, lh, first, second⟩ := passed
  have taken : Step final (.commitRound 1 .writeHead, .header [50, 60])
      (final.goTo 1 (.install 0)) :=
    ⟨enabled, by rw [← lh]; rfl⟩
  obtain ⟨_, inHeader⟩ := (operations_never_straddle_a_commit run).2.2.2.2.2 1 _ _ taken
  exact ⟨_, taken, inHeader 0 first, inHeader 1 second⟩

end Xv6.Log

import Xv6.Ramdisk.Device

/-! Loading and unloading the ramdisk while other processes read and write it. A step is a
section of `rd_dev.lock`, the copy of one chunk, a test of `loaded`, or the test of the entry in
`devsw` or the call through it.
-/

namespace Xv6.Ramdisk.Unload

open Function Library

/-- A call of `rd_read` or `rd_write`. -/
structure Transfer where
  writes : Bool
  off : BitVec 32
  n : BitVec 32
  deriving DecidableEq

/-- The count of the loop. -/
def Transfer.count (t : Transfer) : Nat := (clamp t.off t.n).toInt.toNat

/-- Where the chunk after `total` bytes begins. -/
def Transfer.pos (t : Transfer) (total : Nat) : Nat := t.off.toNat + total

/-- `total` after the next chunk. -/
def Transfer.next (t : Transfer) (total : Nat) : Nat :=
  total + min (PGSIZE - t.pos total % PGSIZE) (t.count - total)

/-- Where a process is. It has `tested` the entry of `devsw`, has `entered` the driver, is at the
head of the loop, is about to copy a chunk from or to the page at `pa`, or to copy zeros for a
hole.
-/
inductive Point where
  | idle
  | tested (t : Transfer)
  | entered (t : Transfer)
  | loop (t : Transfer) (total : Nat)
  | copy (t : Transfer) (total pa : Nat)
  | hole (t : Transfer) (total : Nat)
  deriving DecidableEq

/-- `rd_dev`, whether the entries of `devsw` are set, and the processes. -/
structure State (P : Type) where
  loaded : Bool
  devsw : Bool
  pages : Nat → Option Nat
  point : P → Point

/-- `test` and `call` are in `fileread` and `filewrite`. In `walk`, `kalloc` is what `kalloc`
would return; in `copy` and `hole`, `ok` says that nothing fails.
-/
inductive Action (P : Type) where
  | load (p : P)
  | unload (p : P)
  | test (p : P) (t : Transfer)
  | call (p : P)
  | check (p : P)
  | walk (p : P) (kalloc : Option Nat)
  | copy (p : P) (ok : Bool)
  | hole (p : P) (ok : Bool)
  deriving DecidableEq

/-- `jumped` is a call through a null pointer. -/
inductive Outcome where
  | pending
  | returned (r : BitVec 32)
  | jumped
  deriving DecidableEq

variable {P : Type} [DecidableEq P]

/-- The process is at the start of the step. A page that `kalloc` returns is nobody's. -/
def Action.Enabled (s : State P) : Action P → Prop
  | .load p | .unload p | .test p _ => s.point p = .idle
  | .call p => ∃ t, s.point p = .tested t
  | .check p => ∃ t, s.point p = .entered t
  | .walk p kalloc =>
    (∃ t total, s.point p = .loop t total) ∧ ∀ pa, kalloc = some pa → ∀ idx, s.pages idx ≠ some pa
  | .copy p _ => ∃ t total pa, s.point p = .copy t total pa
  | .hole p _ => ∃ t total, s.point p = .hole t total

def State.goTo (s : State P) (p : P) (point : Point) : State P :=
  { s with point := update s.point p point }

/-- The call returns. -/
def State.leave (s : State P) (p : P) (r : BitVec 32) : Outcome × State P :=
  (.returned r, s.goTo p .idle)

/-- A turn of the loop up to the copy, or the end of the loop. -/
def walk (s : State P) (p : P) (t : Transfer) (total : Nat) (kalloc : Option Nat)
    : Outcome × State P :=
  if total < t.count then
    let idx := t.pos total / PGSIZE
    match (if RD_PAGES ≤ idx then none else s.pages idx) with
    | some pa => (.pending, s.goTo p (.copy t total pa))
    | none =>
      if t.writes then
        match (if RD_PAGES ≤ idx then none else kalloc) with
        | none => s.leave p (if 0 < total then BitVec.ofNat 32 total else -1)
        | some pa =>
          (.pending,
            { s with pages := update s.pages idx (some pa) }.goTo p
              (.copy t total pa))
      else
        (.pending, s.goTo p (.hole t total))
  else
    s.leave p (BitVec.ofNat 32 total)

/-- The end of a copy. -/
def copied (s : State P) (p : P) (t : Transfer) (total : Nat) (ok : Bool) : Outcome × State P :=
  if ok then (.pending, s.goTo p (.loop t (t.next total))) else s.leave p (-1)

def Action.run (s : State P) : Action P → Outcome × State P
  | .load _ =>
    if s.loaded then (.returned (-1), s)
    else (.returned 0, { s with loaded := true, devsw := true })
  | .unload _ =>
    if s.loaded then
      (.returned 0, { s with loaded := false, devsw := false, pages := fun _ => none })
    else (.returned (-1), s)
  | .test p t => if s.devsw then (.pending, s.goTo p (.tested t)) else (.returned (-1), s)
  | .call p =>
    match s.point p with
    | .tested t => if s.devsw then (.pending, s.goTo p (.entered t)) else (.jumped, s)
    | _ => (.pending, s)
  | .check p =>
    match s.point p with
    | .entered t =>
      if s.loaded = false ∨ RD_SIZE ≤ t.off.toNat then s.leave p (-1)
      else (.pending, s.goTo p (.loop t 0))
    | _ => (.pending, s)
  | .walk p kalloc =>
    match s.point p with
    | .loop t total => Unload.walk s p t total kalloc
    | _ => (.pending, s)
  | .copy p ok =>
    match s.point p with
    | .copy t total _ => copied s p t total ok
    | _ => (.pending, s)
  | .hole p ok =>
    match s.point p with
    | .hole t total => copied s p t total ok
    | _ => (.pending, s)

abbrev Step : State P → Action P × Outcome → State P → Prop :=
  GuardedStep Action.Enabled Action.run

/-- `rd_init`. -/
def rdInit : State P := ⟨false, false, fun _ => none, fun _ => .idle⟩

abbrev History (P : Type) := List ((Action P × Outcome) × State P)

-- Safety

/-- A copy is from or to a page of the ramdisk, and a call goes through an entry that is set. -/
def Safe (before : State P) (step : Action P × Outcome) : Prop :=
  match step.1 with
  | .copy p _ => ∀ t total pa, before.point p = .copy t total pa → ∃ idx, before.pages idx = some pa
  | .call _ => before.devsw = true
  | _ => True

/-- The process relies on the ramdisk: between the test of `devsw` and the call, or between the
test of `loaded` and the end of the transfer.
-/
def Point.relies : Point → Bool
  | .idle | .entered _ => false
  | .tested _ | .loop _ _ | .copy _ _ _ | .hole _ _ => true

/-- No process relies on a ramdisk that is unloaded. -/
def Quiet (before : State P) (step : Action P × Outcome) : Prop :=
  match step.1 with
  | .unload _ => ∀ q, (before.point q).relies = false
  | _ => True

/-- The ramdisk is there for everyone who relies on it. -/
structure Sound (s : State P) : Prop where
  devsw : s.devsw = s.loaded
  unloaded : s.loaded = false → ∀ idx, s.pages idx = none
  relied : ∀ q, (s.point q).relies = true → s.loaded = true
  held : ∀ q t total pa, s.point q = .copy t total pa → ∃ idx, s.pages idx = some pa

omit [DecidableEq P] in
theorem Sound.rdInit : Sound (rdInit : State P) where
  devsw := rfl
  unloaded := fun _ _ => rfl
  relied := fun _ relies => by cases relies
  held := fun _ _ _ _ copies => by cases copies

variable {s after : State P}

section

variable (sound : Sound s)
include sound

theorem Sound.goTo {p : P} {point : Point} (relied : point.relies = true → s.loaded = true)
    (held : ∀ t total pa, point = .copy t total pa → ∃ idx, s.pages idx = some pa)
    : Sound (s.goTo p point) := by
  refine ⟨sound.devsw, sound.unloaded, fun q relies => ?_, fun q t total pa copies => ?_⟩
  · by_cases here : q = p
    · subst here
      exact relied ((congrArg Point.relies (update_self ..)).symm.trans relies)
    · exact sound.relied q
        ((congrArg Point.relies (update_of_ne here ..)).symm.trans relies)
  · by_cases here : q = p
    · subst here
      exact held t total pa ((update_self ..).symm.trans copies)
    · exact sound.held q t total pa ((update_of_ne here ..).symm.trans copies)

theorem Sound.goOn {p : P} {point : Point} (relies : (s.point p).relies = true)
    (elsewhere : ∀ t total pa, point ≠ .copy t total pa)
    : Sound (s.goTo p point) :=
  sound.goTo (fun _ => sound.relied p relies)
    (fun t total pa isCopy => (elsewhere t total pa isCopy).elim)

theorem Sound.leave {p : P} {r : BitVec 32} : Sound (s.leave p r).2 :=
  sound.goTo (fun relies => by cases relies) (fun _ _ _ isCopy => by cases isCopy)

theorem Sound.copied {p : P} {t : Transfer} {total : Nat} {ok : Bool}
    (relies : (s.point p).relies = true)
    : Sound (copied s p t total ok).2 := by
  cases ok with
  | true => exact sound.goOn relies (fun _ _ _ isCopy => by cases isCopy)
  | false => exact sound.leave

omit [DecidableEq P] in
theorem Sound.addPage {idx pa : Nat} (empty : s.pages idx = none) (loaded : s.loaded = true)
    : Sound { s with pages := update s.pages idx (some pa) } := by
  refine ⟨sound.devsw, fun unloaded => ?_, sound.relied, fun q t total pa' copies => ?_⟩
  · exact absurd (loaded.symm.trans unloaded) Bool.noConfusion
  · obtain ⟨idx', held⟩ := sound.held q t total pa' copies
    refine ⟨idx', ?_⟩
    have other : idx' ≠ idx := by
      rintro rfl
      cases empty.symm.trans held
    exact (update_of_ne other ..).trans held

theorem Sound.walk {p : P} {t : Transfer} {total : Nat} {kalloc : Option Nat}
    (here : s.point p = .loop t total)
    : Sound (walk s p t total kalloc).2 := by
  have relies : (s.point p).relies = true := by
    rw [here]
    rfl
  have loaded := sound.relied p relies
  unfold Unload.walk
  by_cases more : total < t.count
  · rw [if_pos more]
    dsimp only
    by_cases outside : RD_PAGES ≤ t.pos total / PGSIZE
    · split_ifs
      · exact sound.leave
      · exact sound.leave
      · exact sound.goOn relies (fun _ _ _ isCopy => by cases isCopy)
    · rw [if_neg outside, if_neg outside]
      cases found : s.pages (t.pos total / PGSIZE) with
      | some pa =>
        refine sound.goTo (fun _ => loaded) fun t' total' pa' isCopy => ?_
        cases isCopy
        exact ⟨_, found⟩
      | none =>
        by_cases writes : t.writes = true
        · rw [if_pos writes]
          cases kalloc with
          | none => exact sound.leave
          | some pa =>
            refine (sound.addPage found loaded).goTo (fun _ => loaded)
              fun t' total' pa' isCopy => ?_
            cases isCopy
            exact ⟨_, update_self ..⟩
        · rw [if_neg writes]
          exact sound.goOn relies (fun _ _ _ isCopy => by cases isCopy)
  · rw [if_neg more]
    exact sound.leave

theorem Sound.step {step : Action P × Outcome} (taken : Step s step after) (quiet : Quiet s step)
    : Sound after := by
  obtain ⟨action, outcome⟩ := step
  obtain ⟨enabled, rfl, rfl⟩ := taken.inv
  cases action with
  | load p =>
    simp only [Action.run]
    split_ifs with loaded
    · exact sound
    · exact ⟨rfl, fun off => absurd off (by simp), fun _ _ => rfl, sound.held⟩
  | unload p =>
    simp only [Action.run]
    split_ifs with loaded
    · refine ⟨rfl, fun _ _ => rfl, fun q relies => ?_, fun q t total pa copies => ?_⟩
      · exact absurd ((quiet q).symm.trans relies) (by simp)
      · have relies : (s.point q).relies = true := by
          rw [copies]
          rfl
        exact absurd ((quiet q).symm.trans relies) (by simp)
    · exact sound
  | test p t =>
    simp only [Action.run]
    split_ifs with set
    · refine sound.goTo (fun _ => ?_) (fun _ _ _ isCopy => by cases isCopy)
      rw [← sound.devsw, set]
    · exact sound
  | call p =>
    obtain ⟨t, here⟩ := enabled
    simp only [Action.run, here]
    split_ifs with set
    · exact sound.goTo (fun relies => by cases relies) (fun _ _ _ isCopy => by cases isCopy)
    · exact sound
  | check p =>
    obtain ⟨t, here⟩ := enabled
    simp only [Action.run, here]
    split_ifs with fails
    · exact sound.leave
    · refine sound.goTo (fun _ => ?_) (fun _ _ _ isCopy => by cases isCopy)
      exact eq_true_of_ne_false (not_or.mp fails).1
  | walk p kalloc =>
    obtain ⟨⟨t, total, here⟩, _⟩ := enabled
    simp only [Action.run, here]
    exact sound.walk here
  | copy p ok =>
    obtain ⟨t, total, pa, here⟩ := enabled
    simp only [Action.run, here]
    exact sound.copied (by rw [here]; rfl)
  | hole p ok =>
    obtain ⟨t, total, here⟩ := enabled
    simp only [Action.run, here]
    exact sound.copied (by rw [here]; rfl)

omit [DecidableEq P] in
theorem Sound.safe {step : Action P × Outcome}
    (can : ∀ p, step.1 = .call p → ∃ t, s.point p = .tested t)
    : Safe s step := by
  obtain ⟨action, outcome⟩ := step
  cases action with
  | call p =>
    obtain ⟨t, here⟩ := can p rfl
    have loaded := sound.relied p (by rw [here]; rfl)
    exact sound.devsw.trans loaded
  | copy p ok => exact fun t total pa here => sound.held p t total pa here
  | load | unload | test | check | walk | hole => trivial

end

/-- In every run that unloads the ramdisk only while no process relies on it, every copy is from
or to one of its pages, every call goes through an entry of `devsw` that is set, and an unloaded
ramdisk has no pages.
-/
theorem unload_spares_transfers {history : History P} {final : State P}
    (run : Run Step rdInit history final) (quiet : EachStep Quiet history)
    : EachStep Safe history ∧ (final.loaded = false → ∀ idx, final.pages idx = none) := by
  have reached : Sound final ∧ EachStep Safe history := by
    induction run with
    | nil => exact ⟨.rdInit, .nil⟩
    | next earlier taken ih =>
      obtain ⟨sound, safe⟩ := ih quiet.tail
      refine ⟨sound.step taken quiet.head, .cons (sound.safe fun p isCall => ?_) safe⟩
      have enabled := taken.1
      rwa [isCall] at enabled
  exact ⟨reached.2, reached.1.unloaded⟩

theorem take {history : History P} (run : Run Step rdInit history s) (action : Action P)
    (outcome : Outcome) (enabled : action.Enabled s) (same : (action.run s).1 = outcome)
    : Run Step rdInit (((action, outcome), s) :: history) (action.run s).2 :=
  .next run ⟨enabled, Prod.ext same rfl⟩

/-- A write of two pages. -/
def twoPages : Transfer := ⟨true, 0, 8192⟩

/-- The first steps of a write by process `false`, up to its loop. -/
theorem write_begins
    : ∃ history s, Run Step (rdInit : State Bool) history s
      ∧ steps history
        = [(.load true, .returned 0), (.test false twoPages, .pending), (.call false, .pending),
          (.check false, .pending)]
      ∧ EachStep Quiet history
      ∧ s = ⟨true, true, fun _ => none, update (fun _ => .idle) false (.loop twoPages 0)⟩ := by
  have loaded := take (.nil : Run Step (rdInit : State Bool) [] rdInit) (.load true) (.returned 0)
    rfl rfl
  have tested := take loaded (.test false twoPages) .pending rfl rfl
  have called := take tested (.call false) .pending ⟨twoPages, rfl⟩ rfl
  have checked := take called (.check false) .pending ⟨twoPages, rfl⟩ rfl
  refine ⟨_, _, checked, rfl, .cons trivial (.cons trivial (.cons trivial (.cons trivial .nil))),
    ?_⟩
  simp [Action.run, rdInit, State.goTo, twoPages]

/-- Witness: an unload after the end of a write. -/
theorem unload_after_write_is_safe
    : ∃ history final, Run Step (rdInit : State Bool) history final
      ∧ steps history
        = [(.load true, .returned 0), (.test false twoPages, .pending), (.call false, .pending),
          (.check false, .pending), (.walk false (some 40960), .pending),
          (.copy false true, .pending), (.walk false none, .returned 4096),
          (.unload true, .returned 0)]
      ∧ EachStep Quiet history
      ∧ EachStep Safe history ∧ (final.loaded = false → ∀ idx, final.pages idx = none) := by
  obtain ⟨history, s, begun, same, quiet, rfl⟩ := write_begins
  have walked := take begun (.walk false (some 40960)) .pending
    ⟨⟨twoPages, 0, rfl⟩, fun _ _ _ held => by cases held⟩ rfl
  have copied := take walked (.copy false true) .pending ⟨twoPages, 0, 40960, rfl⟩ rfl
  have ended := take copied (.walk false none) (.returned 4096)
    ⟨⟨twoPages, 4096, rfl⟩, fun _ isSome => by cases isSome⟩ rfl
  have unloaded := take ended (.unload true) (.returned 0) rfl rfl
  refine ⟨_, _, unloaded, ?_, ?quiet, unload_spares_transfers unloaded ?quiet⟩
  case quiet =>
    refine .cons (fun q => ?_) (.cons trivial (.cons trivial (.cons trivial quiet)))
    cases q <;> rfl
  simp only [steps, List.map_cons, List.reverse_cons] at same ⊢
  rw [same]
  rfl

/-- An unload between the lookup of a page and the copy: the copy is to a page that was given
back, and the next turn of the loop adds a page to an unloaded ramdisk.
-/
theorem unload_during_write_frees_its_page
    : ∃ history final, Run Step (rdInit : State Bool) history final
      ∧ steps history
        = [(.load true, .returned 0), (.test false twoPages, .pending), (.call false, .pending),
          (.check false, .pending), (.walk false (some 40960), .pending),
          (.unload true, .returned 0), (.copy false true, .pending),
          (.walk false (some 81920), .pending)]
      ∧ ¬EachStep Safe history
      ∧ final.loaded = false ∧ final.pages 1 = some 81920 := by
  obtain ⟨history, s, begun, same, quiet, rfl⟩ := write_begins
  have walked := take begun (.walk false (some 40960)) .pending
    ⟨⟨twoPages, 0, rfl⟩, fun _ _ _ held => by cases held⟩ rfl
  have unloaded := take walked (.unload true) (.returned 0) rfl rfl
  have copied := take unloaded (.copy false true) .pending ⟨twoPages, 0, 40960, rfl⟩ rfl
  have again := take copied (.walk false (some 81920)) .pending
    ⟨⟨twoPages, 4096, rfl⟩, fun _ _ _ held => by cases held⟩ rfl
  refine ⟨_, _, again, ?_, fun safe => ?_, rfl, rfl⟩
  · simp only [steps, List.map_cons, List.reverse_cons] at same ⊢
    rw [same]
    rfl
  · obtain ⟨idx, held⟩ := safe.tail.head twoPages 0 40960 rfl
    cases held

end Xv6.Ramdisk.Unload

import Xv6.Library.BitField
import Xv6.Semaphore.Table

/-! Which semaphore a call works on. `sem_p` and `sem_v` remember a place of the table across
the gap between its two locks, and `sem_free` does not look for them there: a call keeps to its
semaphore as long as nobody frees a semaphore that a call is using.
-/

namespace Xv6.Semaphore

open Library

section

variable {P : Type} [DecidableEq P] {before after : State P}
  {entry : Action P × Option (BitVec 32)}
variable {id : BitVec 32} {s : Place}

/-- The id a process called with, and the place it found for it. -/
def Point.call : Point → Option (BitVec 32 × Place)
  | .idle => none
  | .semP id s | .semV id s => some (id, s)

def Point.place (point : Point) : Option Place := point.call.map Prod.snd

/-- No process is inside `sem_p` or `sem_v` on a semaphore that is freed. -/
def FreesUnused (before : State P) (entry : Action P × Option (BitVec 32)) : Prop :=
  match entry.1 with
  | .semFree _ id =>
    ∀ s, find before.sems id = some s → ∀ p, (before.threads p).point.place ≠ some s
  | _ => True

instance [Fintype P] (before : State P)
    : (entry : Action P × Option (BitVec 32)) → Decidable (FreesUnused before entry)
  | (.semFree _ id, _) =>
    inferInstanceAs (Decidable
      (∀ s, find before.sems id = some s → ∀ p, (before.threads p).point.place ≠ some s))
  | (.semCreate _ _ _, _) | (.semP _ _, _) | (.semPBody _ _ _, _) | (.semV _ _, _)
  | (.semVBody _ _ _, _) | (.kkill _, _) =>
    inferInstanceAs (Decidable True)

theorem find_valid {sems : Place → Sem} (found : find sems id = some s)
    : (sems s).valid = true ∧ (sems s).id = id := by
  simpa using List.find?_some found

/-- A semaphore that is not freed keeps its id. -/
theorem Step.kept (taken : Step before entry after) (valid : (before.sems s).valid = true)
    (notFreed : ∀ p id, entry.1 = .semFree p id → find before.sems id ≠ some s)
    : (after.sems s).valid = true ∧ (after.sems s).id = (before.sems s).id := by
  obtain ⟨action, result⟩ := entry
  obtain ⟨enabled, run⟩ := taken
  cases action with
  | semCreate p id value =>
    simp only [Action.run, semCreate, Prod.mk.injEq] at run
    rw [← run.2]
    split
    · exact ⟨valid, rfl⟩
    · split
      · next s' isFree =>
          have other : s ≠ s' := by
            rintro rfl
            simpa [valid] using List.find?_some isFree
          simp [other, valid]
      · exact ⟨valid, rfl⟩
  | semFree p id =>
    simp only [Action.run, semFree, Prod.mk.injEq] at run
    rw [← run.2]
    split
    · next s' found =>
        have other : s ≠ s' := by
          rintro rfl
          exact notFreed p id rfl found
        simp [other, valid]
    · exact ⟨valid, rfl⟩
  | semP p id | semV p id =>
    simp only [Action.run] at run
    split at run <;> cases run <;> exact ⟨valid, rfl⟩
  | semPBody p id s' =>
    simp only [Action.run] at run
    split at run <;> cases run
    · exact ⟨valid, rfl⟩
    · by_cases here : s = s' <;> simp_all
  | semVBody p id s' =>
    cases run
    by_cases here : s = s' <;> simp_all
  | kkill p =>
    cases run
    exact ⟨valid, rfl⟩

/-- A process is in a call because it was before, or because it has just found its
semaphore.
-/
theorem Step.called (taken : Step before entry after) {p : P}
    (call : (after.threads p).point.call = some (id, s))
    : (before.threads p).point.call = some (id, s)
      ∨ (find before.sems id = some s ∧ after.sems = before.sems) := by
  obtain ⟨action, result⟩ := entry
  obtain ⟨enabled, run⟩ := taken
  cases action with
  | semCreate q id' value | semFree q id' =>
    cases run
    exact .inl call
  | semP q id' | semV q id' =>
    simp only [Action.run] at run
    split at run <;> cases run
    · exact .inl call
    · next s' found =>
        rcases goTo_point before.threads q p _ with same | same <;> rw [same] at call
        · cases call
          exact .inr ⟨found, rfl⟩
        · exact .inl call
  | semPBody q id' s' =>
    simp only [Action.run] at run
    split at run <;> cases run
    · simp only [sleepOn_point] at call
      exact .inl call
    · rcases goTo_point before.threads q p .idle with same | same <;> rw [same] at call
      · cases call
      · exact .inl call
  | semVBody q id' s' =>
    cases run
    rcases goTo_point (wakeup before.threads s') q p .idle with same | same
      <;> rw [same] at call
    · cases call
    · rw [wakeup_point] at call
      exact .inl call
  | kkill q =>
    cases run
    simp only [rouse_point] at call
    exact .inl call

/-- Processes only sleep in `sem_p`, on the semaphore they have found. -/
theorem Step.sleeper (taken : Step before entry after) {p : P} {s : Place}
    (sleeper
      : ∀ q s, (before.threads q).asleep = some s → ∃ id, (before.threads q).point = .semP id s)
    (asleep : (after.threads p).asleep = some s)
    : ∃ id, (after.threads p).point = .semP id s := by
  obtain ⟨action, result⟩ := entry
  obtain ⟨enabled, run⟩ := taken
  cases action with
  | semCreate q id' value | semFree q id' =>
    cases run
    exact sleeper p s asleep
  | semP q id' | semV q id' =>
    simp only [Action.run] at run
    split at run <;> cases run
    · exact sleeper p s asleep
    · obtain ⟨other, asleep⟩ := asleep_of_goTo asleep
      simp only [goTo_other _ other]
      exact sleeper p s asleep
  | semPBody q id' s' =>
    simp only [Action.run] at run
    split at run <;> cases run
    · simp only [sleepOn_point]
      obtain ⟨rfl, rfl⟩ | asleep := asleep_of_sleepOn asleep
      · exact ⟨id', by rw [enabled]⟩
      · exact sleeper p s asleep
    · obtain ⟨other, asleep⟩ := asleep_of_goTo asleep
      simp only [goTo_other _ other]
      exact sleeper p s asleep
  | semVBody q id' s' =>
    cases run
    obtain ⟨other, asleep⟩ := asleep_of_goTo asleep
    simp only [goTo_other _ other, wakeup_point]
    exact sleeper p s (asleep_of_wakeup asleep).2
  | kkill q =>
    cases run
    obtain ⟨other, asleep⟩ := asleep_of_goTo asleep
    simp only [rouse_point]
    exact sleeper p s asleep

/-- Every call works on a semaphore that has its id, and every sleeper is in a call. -/
structure Attached (state : State P) : Prop where
  call
    : ∀ p id s, (state.threads p).point.call = some (id, s)
      → (state.sems s).valid = true ∧ (state.sems s).id = id
  sleeper : ∀ p s, (state.threads p).asleep = some s → ∃ id, (state.threads p).point = .semP id s

omit [DecidableEq P] in
theorem Attached.seminit : Attached (seminit : State P) :=
  ⟨fun _ _ _ call => (nomatch call), fun _ _ asleep => (nomatch asleep)⟩

theorem Attached.step (attached : Attached before) (unused : FreesUnused before entry)
    (taken : Step before entry after)
    : Attached after := by
  refine ⟨fun p id s call => ?_, fun p s asleep => taken.sleeper attached.sleeper asleep⟩
  rcases taken.called call with earlier | ⟨found, same⟩
  · obtain ⟨valid, same⟩ := attached.call p id s earlier
    have notFreed (q : P) (id' : BitVec 32) (freed : entry.1 = .semFree q id')
        : find before.sems id' ≠ some s := by
      intro found
      rw [FreesUnused, freed] at unused
      exact unused s found p (by rw [Point.place, earlier, Option.map_some])
    obtain ⟨valid', same'⟩ := taken.kept valid notFreed
    exact ⟨valid', same'.trans same⟩
  · rw [same]
    exact find_valid found

theorem Attached.freed (attached : Attached before) (unused : FreesUnused before entry) {p : P}
    (isFree : entry.1 = .semFree p id) (found : find before.sems id = some s)
    (taken : Step before entry after) (q : P)
    : (after.threads q).asleep ≠ some s := by
  obtain ⟨action, result⟩ := entry
  cases isFree
  obtain ⟨enabled, run⟩ := taken
  cases run
  intro asleep
  obtain ⟨id', point⟩ := attached.sleeper q s asleep
  exact unused s found q (by rw [point, Point.place, Point.call, Option.map_some])

/-- What `sem_p(id)` and `sem_v(id)` do when they return 0, for the value they leave. -/
def ChangesOwn (before after : State P) (id value : BitVec 32) (s : Place) : Prop :=
  (before.sems s).valid = true ∧ (before.sems s).id = id
  ∧ after.sems = Function.update before.sems s { before.sems s with value := value }

/-- As long as no semaphore in use is freed, `sem_p(id)` and `sem_v(id)` change a valid
semaphore of that id, and nobody sleeps on a semaphore that is freed or is not valid.
-/
theorem calls_keep_to_their_semaphore {history : History P}
    (run : Run Step seminit history before) (each : EachStep FreesUnused history)
    : (∀ p s, (before.threads p).asleep = some s → (before.sems s).valid = true)
      ∧ ∀ entry after, FreesUnused before entry → Step before entry after
        → (∀ p id s, entry = (.semPBody p id s, some 0)
            → ChangesOwn before after id ((before.sems s).value - 1) s)
          ∧ (∀ p id s, entry = (.semVBody p id s, some 0)
            → ChangesOwn before after id ((before.sems s).value + 1) s)
          ∧ ∀ p id s, entry.1 = .semFree p id → find before.sems id = some s
            → ∀ q, (after.threads q).asleep ≠ some s := by
  have attached : Attached before :=
    run.invariant .seminit
      (fun _ _ _ attached unused taken => attached.step unused taken) each
  refine ⟨fun p s asleep => ?_, fun entry after unused taken => ⟨?_, ?_, ?_⟩⟩
  · obtain ⟨id, point⟩ := attached.sleeper p s asleep
    exact (attached.call p id s (by rw [point, Point.call])).1
  · rintro p id s rfl
    obtain ⟨enabled, run⟩ := taken
    obtain ⟨valid, same⟩ := attached.call p id s (by rw [enabled, Point.call])
    simp only [Action.run] at run
    split at run <;> cases run
    exact ⟨valid, same, rfl⟩
  · rintro p id s rfl
    obtain ⟨enabled, run⟩ := taken
    obtain ⟨valid, same⟩ := attached.call p id s (by rw [enabled, Point.call])
    cases run
    exact ⟨valid, same, rfl⟩
  · intro p id s isFree found
    exact attached.freed unused isFree found taken

/-- Witness: a semaphore is freed after its only call has ended, and its place serves
another id.
-/
theorem reused_place_serves_new_id
    : ∃ (history : History (Fin 2)) (before after : State (Fin 2)),
      Run Step seminit history before
      ∧ steps history
        = [(.semCreate 0 7 1, some 0), (.semP 1 7, none), (.semPBody 1 7 0, some 0),
          (.semFree 0 7, some 0), (.semCreate 0 9 1, some 0), (.semP 1 9, none)]
      ∧ Step before (.semPBody 1 9 0, some 0) after ∧ ChangesOwn before after 9 0 0 := by
  refine exists_run_after
    (fun history before => EachStep FreesUnused history
      ∧ Action.Enabled before (.semPBody 1 9 0) ∧ (before.sems 0).value = 1)
    (by decide +kernel) fun history before run passed => ?_
  obtain ⟨unused, enabled, value⟩ := passed
  have taken : Step before (.semPBody 1 9 0, some 0) (Action.run before (.semPBody 1 9 0)).2 := by
    refine ⟨enabled, ?_⟩
    simp [Action.run, value]
  have own :=
    ((calls_keep_to_their_semaphore run unused).2 (.semPBody 1 9 0, some 0) _ trivial taken).1
    1 9 0 rfl
  rw [value] at own
  exact ⟨_, taken, own⟩

/-- A `sem_p(1)` that found its semaphore before it was freed takes a unit of semaphore 2, and
one that sleeps when its semaphore is freed sleeps on.
-/
theorem freed_semaphore_keeps_its_callers
    : (∃ (history : History (Fin 2)) (before after : State (Fin 2)),
        Run Step seminit history before
        ∧ steps history
          = [(.semCreate 0 1 0, some 0), (.semP 1 1, none), (.semFree 0 1, some 0),
            (.semCreate 0 2 1, some 0)]
        ∧ Step before (.semPBody 1 1 0, some 0) after
        ∧ (before.sems 0).id = 2 ∧ (before.sems 0).value = 1 ∧ (after.sems 0).value = 0)
      ∧ ∃ (history : History (Fin 2)) (final : State (Fin 2)), Run Step seminit history final
        ∧ steps history
          = [(.semCreate 0 1 0, some 0), (.semP 1 1, none), (.semPBody 1 1 0, none),
            (.semFree 0 1, some 0)]
        ∧ (final.threads 1).asleep = some 0 ∧ (final.sems 0).valid = false := by
  constructor
  · refine exists_run_after
      (fun _ before => Action.Enabled before (.semPBody 1 1 0) ∧ (before.sems 0).id = 2
        ∧ (before.sems 0).value = 1)
      (by decide +kernel) fun history before run passed => ?_
    obtain ⟨enabled, id, value⟩ := passed
    refine ⟨(Action.run before (.semPBody 1 1 0)).2, ⟨enabled, ?_⟩, id, value, ?_⟩
      <;> simp [Action.run, value]
  · exact Follows.toRun (by decide +kernel)

end

-- The value of a semaphore while it exists: it counts the completed calls, and nobody sleeps on it
-- while there is something to take.

open Function Library

variable {P : Type} [DecidableEq P] {before after : State P}
  {entry : Action P × Option (BitVec 32)} {history : History P} {s : Place} {v : BitVec 32}

/-- Whether the section completes a `sem_v` on the semaphore at `s`. -/
def CompletesV (s : Place) : Action P × Option (BitVec 32) → Bool
  | (.semVBody _ _ s', some _) => s' == s
  | _ => false

/-- Whether the section completes a `sem_p` on the semaphore at `s`. -/
def CompletesP (s : Place) : Action P × Option (BitVec 32) → Bool
  | (.semPBody _ _ s', some _) => s' == s
  | _ => false

def completedV (history : History P) (s : Place) : Nat :=
  history.countP (fun entry => CompletesV s entry.1)

def completedP (history : History P) (s : Place) : Nat :=
  history.countP (fun entry => CompletesP s entry.1)

/-- The semaphore at `s` is not the one that the section frees. -/
def Keeps (s : Place) (before : State P) (entry : Action P × Option (BitVec 32)) : Prop :=
  match entry.1 with
  | .semFree _ id => find before.sems id ≠ some s
  | _ => True

instance (s : Place) (before : State P)
    : (entry : Action P × Option (BitVec 32)) → Decidable (Keeps s before entry)
  | (.semFree _ id, _) => inferInstanceAs (Decidable (find before.sems id ≠ some s))
  | (.semCreate _ _ _, _) | (.semP _ _, _) | (.semPBody _ _ _, _) | (.semV _ _, _)
  | (.semVBody _ _ _, _) | (.kkill _, _) =>
    inferInstanceAs (Decidable True)

/-- What one section does to a semaphore that it does not free: nothing, or it completes a
`sem_p` that found a unit, or a `sem_v` that wakes all sleepers. In the first case a process
that falls asleep on it has found no unit.
-/
inductive Effect (s : Place) (before : State P) (entry : Action P × Option (BitVec 32))
    (after : State P) : Prop
  | none (notV : CompletesV s entry = false) (notP : CompletesP s entry = false)
    (same : after.sems s = before.sems s)
    (sleeper
      : ∀ p, (after.threads p).asleep = some s
        → (before.threads p).asleep = some s ∨ (before.sems s).value.toInt ≤ 0)
  | semP (notV : CompletesV s entry = false) (isP : CompletesP s entry = true)
    (unit : 0 < (before.sems s).value.toInt)
    (value : after.sems s = { before.sems s with value := (before.sems s).value - 1 })
    (sleeper
      : ∀ p, (after.threads p).asleep = some s → (before.threads p).asleep = some s)
  | semV (isV : CompletesV s entry = true) (notP : CompletesP s entry = false)
    (value : after.sems s = { before.sems s with value := (before.sems s).value + 1 })
    (awake : ∀ p, (after.threads p).asleep ≠ some s)

theorem Step.effect (taken : Step before entry after) (valid : (before.sems s).valid = true)
    (keeps : Keeps s before entry)
    : Effect s before entry after := by
  obtain ⟨action, result⟩ := entry
  obtain ⟨enabled, run⟩ := taken
  cases action with
  | semCreate p id value =>
    have same : ((semCreate before.sems id value).2) s = before.sems s := by
      unfold semCreate
      split
      · rfl
      · split
        · next s' isFree =>
            have other : s ≠ s' := by
              rintro rfl
              simpa [valid] using List.find?_some isFree
            simp [other]
        · rfl
    cases run
    exact .none rfl rfl same fun p asleep => .inl asleep
  | semFree p id =>
    have same : ((semFree before.sems id).2) s = before.sems s := by
      unfold semFree
      split
      · next s' found =>
          have other : s ≠ s' := by
            rintro rfl
            exact keeps found
          simp [other]
      · rfl
    cases run
    exact .none rfl rfl same fun p asleep => .inl asleep
  | semP p id | semV p id =>
    simp only [Action.run] at run
    split at run <;> cases run
    · exact .none rfl rfl rfl fun p asleep => .inl asleep
    · exact .none rfl rfl rfl fun p asleep => .inl (asleep_of_goTo asleep).2
  | semPBody p id s' =>
    simp only [Action.run] at run
    split at run <;> cases run
    · next empty =>
        refine .none rfl rfl rfl fun q asleep => ?_
        obtain ⟨_, rfl⟩ | earlier := asleep_of_sleepOn asleep
        · exact .inr empty
        · exact .inl earlier
    · next unit =>
        by_cases here : s' = s
        · subst here
          exact .semP rfl (by simp [CompletesP]) (by omega) (update_self ..)
            fun q asleep => (asleep_of_goTo asleep).2
        · exact .none rfl (by simp [CompletesP, here])
            (update_of_ne (Ne.symm here) ..)
            fun q asleep => .inl (asleep_of_goTo asleep).2
  | semVBody p id s' =>
    cases run
    by_cases here : s' = s
    · subst here
      exact .semV (by simp [CompletesV]) rfl (update_self ..)
        fun q asleep => (asleep_of_wakeup (asleep_of_goTo asleep).2).1 rfl
    · exact .none (by simp [CompletesV, here]) rfl (update_of_ne (Ne.symm here) ..)
        fun q asleep => .inl (asleep_of_wakeup (asleep_of_goTo asleep).2).2
  | kkill p =>
    cases run
    exact .none rfl rfl rfl fun q asleep => .inl (asleep_of_goTo asleep).2

/-- The semaphore at `s` has counted the calls since it was created with value `v`. -/
structure Conserved (s : Place) (v : BitVec 32) (history : History P) (state : State P)
    : Prop where
  valid : (state.sems s).valid = true
  value
    : v.toInt + completedV history s < 2 ^ 31
      → (state.sems s).value.toInt = v.toInt + completedV history s - completedP history s
        ∧ min v.toInt 0 ≤ (state.sems s).value.toInt
  sleepers : ∀ p, (state.threads p).asleep = some s → (state.sems s).value.toInt ≤ 0

theorem Conserved.step (conserved : Conserved s v history before) (keeps : Keeps s before entry)
    (taken : Step before entry after)
    : Conserved s v ((entry, before) :: history) after := by
  rcases taken.effect conserved.valid keeps with
    ⟨notV, notP, same, sleeper⟩ | ⟨notV, isP, unit, value, sleeper⟩ | ⟨isV, notP, value, awake⟩
  · refine ⟨same ▸ conserved.valid, fun room => ?_, fun p asleep => ?_⟩
    · simp only [completedV, completedP, List.countP_cons, notV, notP] at room ⊢
      rw [same]
      exact conserved.value room
    · rw [same]
      rcases sleeper p asleep with earlier | empty
      · exact conserved.sleepers p earlier
      · exact empty
  · refine ⟨by rw [value]; exact conserved.valid, fun room => ?_, fun p asleep => ?_⟩
    · simp only [completedV, completedP, List.countP_cons, notV, isP] at room ⊢
      obtain ⟨count, _⟩ := conserved.value room
      simp only [completedV, completedP] at count
      rw [value, toInt_pred unit, count]
      constructor
      · push_cast
        omega
      · omega
    · have none := conserved.sleepers p (sleeper p asleep)
      omega
  · refine ⟨by rw [value]; exact conserved.valid, fun room => ?_,
      fun p asleep => (awake p asleep).elim⟩
    simp only [completedV, completedP, List.countP_cons, isV, notP] at room ⊢
    push_cast at room
    obtain ⟨count, least⟩ := conserved.value (by simp only [completedV]; omega)
    simp only [completedV, completedP] at count
    have fits : (before.sems s).value.toInt + 1 < 2 ^ 31 := by omega
    rw [value, toInt_succ fits]
    constructor
    · push_cast
      omega
    · omega

end Xv6.Semaphore

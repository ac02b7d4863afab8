import Mathlib

/-! Runs of a transition system, with the history of the steps that were taken.
A history lists its steps newest first, each with the state the step started from.
-/

namespace Xv6.Library

variable {State Action Outcome : Type} {condition : State → Action → Prop}
  {history : List (Action × State)} {action : Action} {before start final : State}
  {step : State → Action → State → Prop}

/-- The history leads from `start` to the final state through `step`. -/
inductive Run {State Action : Type} (step : State → Action → State → Prop) (start : State)
    : List (Action × State) → State → Prop
  | nil : Run step start [] start
  | next {history before action after} (run : Run step start history before)
    (taken : step before action after)
    : Run step start ((action, before) :: history) after

/-- Every step of the history meets the condition, in the state it started from. -/
def EachStep {State Action : Type} (condition : State → Action → Prop)
    (history : List (Action × State))
    : Prop :=
  ∀ entry ∈ history, condition entry.2 entry.1

instance {State Action : Type} {condition : State → Action → Prop}
    [∀ s action, Decidable (condition s action)] (history : List (Action × State))
    : Decidable (EachStep condition history) :=
  inferInstanceAs (Decidable (∀ entry ∈ history, condition entry.2 entry.1))

/-- Dropping the newest step keeps the condition on all the earlier ones. -/
theorem EachStep.tail {entry : Action × State} (each : EachStep condition (entry :: history))
    : EachStep condition history :=
  fun earlier member => each earlier (List.mem_cons_of_mem entry member)

/-- The newest step itself meets the condition. -/
theorem EachStep.head (each : EachStep condition ((action, before) :: history))
    : condition before action :=
  each (action, before) (List.mem_cons_self)

theorem EachStep.nil
    : EachStep condition [] :=
  fun _ member => absurd member List.not_mem_nil

theorem EachStep.cons (head : condition before action) (tail : EachStep condition history)
    : EachStep condition ((action, before) :: history) := by
  intro entry member
  rcases List.mem_cons.mp member with rfl | old
  · exact head
  · exact tail entry old

/-- What holds at the start and survives every step that meets the condition holds after
every run of such steps.
-/
theorem Run.invariant {start : State} {holds : State → Prop} (initial : holds start)
    (preserved
      : ∀ before action after,
          holds before → condition before action → step before action after → holds after)
    {final : State} (run : Run step start history final) (each : EachStep condition history)
    : holds final := by
  induction run with
  | nil => exact initial
  | next _ taken ih => exact preserved _ _ _ (ih each.tail) each.head taken

/-- Every step of the history meets a condition that may also look at the steps before it. -/
def Throughout {State Action : Type}
    (condition : List (Action × State) → State → Action → Prop)
    : List (Action × State) → Prop
  | [] => True
  | (action, before) :: earlier =>
    condition earlier before action ∧ Throughout condition earlier

instance {State Action : Type} {condition : List (Action × State) → State → Action → Prop}
    [∀ earlier before action, Decidable (condition earlier before action)]
    : (history : List (Action × State)) → Decidable (Throughout condition history)
  | [] => inferInstanceAs (Decidable True)
  | (action, before) :: earlier =>
    have : Decidable (Throughout condition earlier) :=
      instDecidableThroughout earlier
    inferInstanceAs (Decidable (condition earlier before action ∧ Throughout condition earlier))

/-- The rule for invariants that look at the history, too. -/
theorem Run.historyInvariant
    {condition : List (Action × State) → State → Action → Prop}
    {holds : List (Action × State) → State → Prop} (initial : holds [] start)
    (preserved
      : ∀ history before action after, holds history before → condition history before action
          → step before action after → holds ((action, before) :: history) after)
    (run : Run step start history final) (each : Throughout condition history)
    : holds history final := by
  induction run with
  | nil => exact initial
  | next _ taken ih => exact preserved _ _ _ _ (ih each.2) each.1 taken

/-- The rule for invariants that every step keeps. -/
theorem Run.always
    {holds : List (Action × State) → State → Prop} (initial : holds [] start)
    (preserved
      : ∀ history before action after, holds history before → step before action after
          → holds ((action, before) :: history) after)
    (run : Run step start history final)
    : holds history final := by
  induction run with
  | nil => exact initial
  | next _ taken ih => exact preserved _ _ _ _ ih taken

/-- When a step with the property was last taken, counted in steps; 0 if never. -/
def lastAt {State Action : Type} (property : State → Action → Prop)
    [∀ s action, Decidable (property s action)]
    : List (Action × State) → Nat
  | [] => 0
  | (action, before) :: earlier =>
    if property before action then earlier.length + 1 else lastAt property earlier

theorem lastAt_le (property : State → Action → Prop) [∀ s action, Decidable (property s action)]
    (history : List (Action × State))
    : lastAt property history ≤ history.length := by
  induction history with
  | nil => exact Nat.le_refl 0
  | cons entry earlier ih =>
    rw [lastAt, List.length_cons]
    split_ifs
    · exact Nat.le_refl _
    · omega

/-- The steps of a history, oldest first. -/
def steps {State Step : Type} (history : List (Step × State)) : List Step :=
  (history.map Prod.fst).reverse

section

variable {State Label Action : Type} (next : State → Action → Option (Label × State))

/-- Takes the actions one after the other, as long as `next` says what each one does. -/
def follow : List (Label × State) → State → List Action → Option (List (Label × State) × State)
  | history, s, [] => some (history, s)
  | history, s, action :: rest =>
    (next s action).bind fun result => follow ((result.1, s) :: history) result.2 rest

/-- All actions can be taken, and the history and the last state pass the test. -/
def Follows (start : State) (actions : List Action) (test : List (Label × State) → State → Prop)
    : Prop :=
  match follow next [] start actions with
  | none => False
  | some (history, final) => test history final

instance (start : State) (actions : List Action) (test : List (Label × State) → State → Prop)
    [∀ history final, Decidable (test history final)]
    : Decidable (Follows next start actions test) :=
  match followed : follow next [] start actions with
  | none => .isFalse (by simp [Follows, followed])
  | some (history, final) => decidable_of_iff (test history final) (by simp [Follows, followed])

variable {next} {step : State → Label → State → Prop} {action : Label → Action}
  {start final : State}
  (sound : ∀ s a l s', next s a = some (l, s') → step s l s' ∧ action l = a)
include sound

theorem run_of_follow {s : State} {actions : List Action} {history history' : List (Label × State)}
    (run : Run step start history s)
    (followed : follow next history s actions = some (history', final))
    : Run step start history' final
      ∧ (steps history').map action = (steps history).map action ++ actions := by
  induction actions generalizing history s with
  | nil =>
    cases followed
    exact ⟨run, (List.append_nil _).symm⟩
  | cons a rest ih =>
    obtain ⟨⟨label, s'⟩, taken, followed⟩ := Option.bind_eq_some_iff.mp followed
    obtain ⟨isStep, isAction⟩ := sound s a label s' taken
    obtain ⟨run', same⟩ := ih (.next run isStep) followed
    refine ⟨run', same.trans ?_⟩
    simp [steps, isAction]

/-- Actions that can be taken are a run. -/
theorem run_of_follows (start : State) (actions : List Action)
    (test : List (Label × State) → State → Prop) (follows : Follows next start actions test)
    : ∃ history final, Run step start history final
      ∧ (steps history).map action = actions ∧ test history final := by
  unfold Follows at follows
  split at follows
  · exact follows.elim
  · next history final followed =>
      obtain ⟨run, same⟩ := run_of_follow sound .nil followed
      exact ⟨history, final, run, same, follows⟩

end

/-- What an action does, when a function says it. -/
def labelled {State Action : Type} (next : State → Action → Option State) (s : State) (a : Action)
    : Option (Action × State) :=
  (next s a).map fun s' => (a, s')

theorem labelled_sound (next : State → Action → Option State) (s : State) (a l : Action)
    (s' : State)
    (taken : labelled next s a = some (l, s'))
    : next s l = some s' ∧ id l = a := by
  obtain ⟨after, taken, same⟩ := Option.map_eq_some_iff.mp taken
  cases same
  exact ⟨taken, rfl⟩

/-- What an action does that can be taken and does not stop with an error. -/
def tried {State Action Outcome ε : Type} (can : State → Action → Prop)
    [∀ s a, Decidable (can s a)] (run : Action → State → Except ε (Outcome × State)) (s : State)
    (a : Action)
    : Option ((Action × Outcome) × State) :=
  if can s a then (run a s).toOption.map fun result => ((a, result.1), result.2) else none

theorem tried_sound {ε : Type} {can : State → Action → Prop} [∀ s a, Decidable (can s a)]
    {run : Action → State → Except ε (Outcome × State)} (s : State) (a : Action)
    (l : Action × Outcome) (s' : State) (taken : tried can run s a = some (l, s'))
    : (can s l.1 ∧ run l.1 s = .ok (l.2, s')) ∧ l.1 = a := by
  unfold tried at taken
  split_ifs at taken with allowed
  cases ran : run a s with
  | error e =>
    rw [ran] at taken
    cases taken
  | ok result =>
    rw [ran] at taken
    cases taken
    exact ⟨⟨allowed, ran⟩, rfl⟩

section

variable {State Action Outcome : Type} (enabled : State → Action → Prop)
  (run : State → Action → Outcome × State)

/-- An action that is enabled is taken, with the outcome and the state `run` computes. -/
def GuardedStep (before : State) (step : Action × Outcome) (after : State) : Prop :=
  enabled before step.1 ∧ run before step.1 = (step.2, after)

variable {enabled run} in
/-- A step leaves what `run` computes. -/
theorem GuardedStep.inv {before after : State} {action : Action} {outcome : Outcome}
    (taken : GuardedStep enabled run before (action, outcome) after)
    : enabled before action ∧ (run before action).1 = outcome ∧ (run before action).2 = after :=
  ⟨taken.1, congrArg Prod.fst taken.2, congrArg Prod.snd taken.2⟩

variable [∀ s action, Decidable (enabled s action)] [DecidableEq Outcome] {start : State}

/-- What a step does that is enabled and has its outcome. -/
def guarded (s : State) (step : Action × Outcome) : Option ((Action × Outcome) × State) :=
  if enabled s step.1 ∧ (run s step.1).1 = step.2 then some (step, (run s step.1).2) else none

variable {enabled run}

theorem guarded_sound (s : State) (entry step : Action × Outcome) (s' : State)
    (taken : guarded enabled run s entry = some (step, s'))
    : GuardedStep enabled run s step s' ∧ id step = entry := by
  unfold guarded at taken
  split_ifs at taken with can
  cases taken
  exact ⟨⟨can.1, Prod.ext can.2 rfl⟩, rfl⟩

theorem Follows.toRun {entries : List (Action × Outcome)}
    {test : List ((Action × Outcome) × State) → State → Prop}
    (follows : Follows (guarded enabled run) start entries test)
    : ∃ history final, Run (GuardedStep enabled run) start history final
      ∧ steps history = entries ∧ test history final := by
  obtain ⟨history, final, isRun, same, passes⟩ := run_of_follows guarded_sound _ _ _ follows
  rw [List.map_id] at same
  exact ⟨history, final, isRun, same, passes⟩

section

variable {entries : List (Action × Outcome)}
  (test : List ((Action × Outcome) × State) → State → Prop)
  (follows : Follows (guarded enabled run) start entries test)
include follows

/-- The run of steps that can be taken, with what follows from the test. -/
theorem exists_run {goal : List ((Action × Outcome) × State) → State → Prop}
    (rest
      : ∀ history final, Run (GuardedStep enabled run) start history final
        → test history final → goal history final)
    : ∃ history final, Run (GuardedStep enabled run) start history final
      ∧ steps history = entries ∧ goal history final := by
  obtain ⟨history, final, isRun, same, passes⟩ := follows.toRun
  exact ⟨history, final, isRun, same, rest history final isRun passes⟩

/-- The same with one more state. -/
theorem exists_run_after {goal : List ((Action × Outcome) × State) → State → State → Prop}
    (rest
      : ∀ history final, Run (GuardedStep enabled run) start history final
        → test history final → ∃ after, goal history final after)
    : ∃ history final after, Run (GuardedStep enabled run) start history final
      ∧ steps history = entries ∧ goal history final after := by
  obtain ⟨history, final, isRun, same, passes⟩ := follows.toRun
  obtain ⟨after, more⟩ := rest history final isRun passes
  exact ⟨history, final, after, isRun, same, more⟩

end

end

end Xv6.Library

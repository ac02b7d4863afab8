import Mathlib

/-! Programs that pass a state along and can stop with an error: how their runs compose. -/

namespace Xv6.Library

variable {σ ε α β : Type} {code : StateT σ (Except ε) α} {next : α → StateT σ (Except ε) β} {s : σ}

/-- A program that goes on is its continuation on the state it leaves. -/
theorem bind_ok {s' : σ} {a : α} (run : code s = .ok (a, s'))
    : (code >>= next) s = next a s' := by
  change (code s >>= fun r => next r.1 r.2) = _
  rw [run]
  rfl

/-- A program that stops, stops what follows. -/
theorem bind_error {e : ε} (run : code s = .error e)
    : (code >>= next) s = .error e := by
  change (code s >>= fun r => next r.1 r.2) = _
  rw [run]
  rfl

/-- A composed program that ended ran both its parts. -/
theorem bind_eq_ok {s' : σ} {b : β} (run : (code >>= next) s = .ok (b, s'))
    : ∃ a middle, code s = .ok (a, middle) ∧ next a middle = .ok (b, s') := by
  change (code s >>= fun r => next r.1 r.2) = _ at run
  cases first : code s with
  | error e =>
    rw [first] at run
    cases run
  | ok result =>
    rw [first] at run
    exact ⟨result.1, result.2, rfl, run⟩

@[simp] theorem pure_run (a : α) (s : σ)
    : (pure a : StateT σ (Except ε) α) s = .ok (a, s) :=
  rfl

theorem get_run (s : σ) : (get : StateT σ (Except ε) σ) s = .ok (s, s) :=
  rfl

/-- What a program returns meets `Q`, or it has stopped with an error that meets `E`. -/
def Meets (Q : α → σ → Prop) (E : ε → Prop) : Except ε (α × σ) → Prop
  | .ok (a, s) => Q a s
  | .error e => E e

theorem Meets.mono {Q Q' : α → σ → Prop} {E : ε → Prop} {result : Except ε (α × σ)}
    (meets : Meets Q E result) (weaker : ∀ a s, Q a s → Q' a s)
    : Meets Q' E result := by
  cases result with
  | ok pair => exact weaker _ _ meets
  | error e => exact meets

theorem Meets.bind {R : α → σ → Prop} {Q : β → σ → Prop} {E : ε → Prop} (first : Meets R E (code s))
    (rest : ∀ a s', R a s' → Meets Q E (next a s'))
    : Meets Q E ((code >>= next) s) := by
  cases run : code s with
  | ok result =>
    rw [run] at first
    rw [bind_ok run]
    exact rest _ _ first
  | error e =>
    rw [run] at first
    rw [bind_error run]
    exact first

-- Two runs of programs that pass a state along: they do the same, up to a relation of their
-- states.

/-- Both runs return the same and leave related states, or both stop with the same error. -/
def Lockstep (R : σ → σ → Prop) : Except ε (α × σ) → Except ε (α × σ) → Prop
  | .ok (a, s), .ok (b, t) => a = b ∧ R s t
  | .error e, .error e' => e = e'
  | .ok _, .error _ | .error _, .ok _ => False

/-- Runs that go on from related states with the same value stay in lockstep. -/
theorem Lockstep.bind {R R' : σ → σ → Prop} {code code' : StateT σ (Except ε) α}
    {next next' : α → StateT σ (Except ε) β} {s t : σ} (first : Lockstep R (code s) (code' t))
    (rest : ∀ a s' t', R s' t' → Lockstep R' (next a s') (next' a t'))
    : Lockstep R' ((code >>= next) s) ((code' >>= next') t) := by
  cases one : code s with
  | ok left =>
    cases other : code' t with
    | ok right =>
      rw [one, other] at first
      rw [bind_ok one, bind_ok other, ← first.1]
      exact rest _ _ _ first.2
    | error e =>
      rw [one, other] at first
      exact first.elim
  | error e =>
    cases other : code' t with
    | ok right =>
      rw [one, other] at first
      exact first.elim
    | error e' =>
      rw [one, other] at first
      rw [bind_error one, bind_error other]
      exact first

theorem Lockstep.mono {R R' : σ → σ → Prop} {left right : Except ε (α × σ)}
    (lockstep : Lockstep R left right) (weaker : ∀ s t, R s t → R' s t)
    : Lockstep R' left right := by
  cases left with
  | ok left =>
    cases right with
    | ok right => exact ⟨lockstep.1, weaker _ _ lockstep.2⟩
    | error e => exact lockstep.elim
  | error e =>
    cases right with
    | ok right => exact lockstep.elim
    | error e' => exact lockstep

/-- What one run returns, the other one returns. -/
theorem Lockstep.ok {R : σ → σ → Prop} {left right : Except ε (α × σ)} {a : α} {s : σ}
    (lockstep : Lockstep R left right) (run : left = .ok (a, s))
    : ∃ t, right = .ok (a, t) ∧ R s t := by
  subst run
  cases right with
  | ok result =>
    obtain ⟨same, related⟩ := lockstep
    exact ⟨result.2, by rw [same], related⟩
  | error e => exact lockstep.elim

theorem Lockstep.error_iff {R : σ → σ → Prop} {left right : Except ε (α × σ)}
    (lockstep : Lockstep R left right) (e : ε)
    : left = .error e ↔ right = .error e := by
  cases left with
  | ok left =>
    cases right with
    | ok right => simp
    | error e' => exact lockstep.elim
  | error e' =>
    cases right with
    | ok right => exact lockstep.elim
    | error e'' => rw [show e' = e'' from lockstep]

end Xv6.Library

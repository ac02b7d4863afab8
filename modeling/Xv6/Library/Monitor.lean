import Mathlib

/-! Threads that sleep on channels, as monitors use them: going to sleep and leaving the
critical section is one step, and a wakeup reaches every sleeper of its channel.
-/

namespace Xv6.Library

open Function

/-- Where a thread is in its code, and the channel it sleeps on, if it does. -/
structure Thread (Chan Point : Type) where
  point : Point
  asleep : Option Chan := none
  deriving DecidableEq

variable {P Chan Point : Type} (threads : P → Thread Chan Point)

-- One thread

section

variable [DecidableEq P] {p q : P}

/-- Thread `p` goes on to another point of its code. -/
def goTo (p : P) (point : Point) : P → Thread Chan Point :=
  update threads p { point := point }

/-- Thread `p` falls asleep where it is. -/
def sleepOn (p : P) (chan : Chan) : P → Thread Chan Point :=
  update threads p { point := (threads p).point, asleep := some chan }

/-- Thread `p` is roused from any sleep. -/
def rouse (p : P) : P → Thread Chan Point := goTo threads p (threads p).point

@[simp] theorem goTo_self (p : P) (point : Point)
    : goTo threads p point p = { point := point } :=
  update_self ..

@[simp] theorem sleepOn_self (p : P) (chan : Chan)
    : sleepOn threads p chan p = { point := (threads p).point, asleep := some chan } :=
  update_self ..

theorem goTo_other (other : q ≠ p) (point : Point)
    : goTo threads p point q = threads q :=
  update_of_ne other ..

theorem goTo_point (p q : P) (point : Point)
    : (goTo threads p point q).point = point
      ∨ (goTo threads p point q).point = (threads q).point := by
  by_cases here : q = p
  · exact .inl (by rw [here, goTo_self])
  · exact .inr (by rw [goTo_other threads here])

theorem sleepOn_other (other : q ≠ p) (chan : Chan)
    : sleepOn threads p chan q = threads q :=
  update_of_ne other ..

@[simp] theorem sleepOn_point (p q : P) (chan : Chan)
    : (sleepOn threads p chan q).point = (threads q).point := by
  by_cases here : q = p
  · rw [here, sleepOn_self]
  · rw [sleepOn_other threads here]

@[simp] theorem rouse_point (p q : P) : (rouse threads p q).point = (threads q).point := by
  by_cases here : q = p
  · rw [here, rouse, goTo_self]
  · rw [rouse, goTo_other threads here]

variable {threads}

/-- Going on puts nobody to sleep. -/
theorem asleep_of_goTo {point : Point} {chan : Chan}
    (asleep : (goTo threads p point q).asleep = some chan)
    : q ≠ p ∧ (threads q).asleep = some chan := by
  by_cases here : q = p
  · rw [here, goTo_self] at asleep
    cases asleep
  · rw [goTo_other threads here] at asleep
    exact ⟨here, asleep⟩

theorem asleep_of_sleepOn {chan chan' : Chan}
    (asleep : (sleepOn threads p chan q).asleep = some chan')
    : (q = p ∧ chan' = chan) ∨ (threads q).asleep = some chan' := by
  by_cases here : q = p
  · rw [here, sleepOn_self] at asleep
    exact .inl ⟨here, (Option.some.inj asleep).symm⟩
  · rw [sleepOn_other threads here] at asleep
    exact .inr asleep

end

-- All sleepers of a channel

section

variable [DecidableEq Chan]

/-- All threads that sleep on the channel go on. -/
def wakeup (chan : Chan) : P → Thread Chan Point := fun p =>
  if (threads p).asleep = some chan then { point := (threads p).point } else threads p

@[simp] theorem wakeup_point (chan : Chan) (q : P)
    : (wakeup threads chan q).point = (threads q).point := by
  unfold wakeup
  split <;> rfl

variable {threads}

/-- Who sleeps after a wakeup slept before, and on another channel. -/
theorem asleep_of_wakeup {chan chan' : Chan} {q : P}
    (asleep : (wakeup threads chan q).asleep = some chan')
    : chan' ≠ chan ∧ (threads q).asleep = some chan' := by
  unfold wakeup at asleep
  split at asleep
  · cases asleep
  · next other =>
      refine ⟨?_, asleep⟩
      rintro rfl
      exact other asleep

end

-- Sleeping in vain

/-- Nobody sleeps on the channel while there is something for it, except that the wakeup may be
pending.
-/
def Served (threads : P → Thread Chan Point) (chan : Chan) (ready pending : Prop) : Prop :=
  ∀ q, (threads q).asleep = some chan → ready → pending

namespace Served

variable {threads threads' : P → Thread Chan Point} {chan : Chan}
  {ready ready' pending pending' : Prop}

theorem of_awake (awake : ∀ q, (threads q).asleep ≠ some chan)
    : Served threads chan ready pending :=
  fun q asleep _ => (awake q asleep).elim

theorem of_not_ready (notReady : ¬ready) : Served threads chan ready pending :=
  fun _ _ isReady => (notReady isReady).elim

theorem of_pending (isPending : pending) : Served threads chan ready pending :=
  fun _ _ _ => isPending

/-- A step that puts nobody to sleep on the channel and brings nothing new for it. -/
theorem keep (served : Served threads chan ready pending)
    (fewer : ∀ q, (threads' q).asleep = some chan → (threads q).asleep = some chan)
    (earlier : ready' → ready) (still : pending → pending')
    : Served threads' chan ready' pending' :=
  fun q asleep isReady => still (served q (fewer q asleep) (earlier isReady))

end Served

end Xv6.Library

import Xv6.Pipes.Calls

/-! A pipe is a queue of at most 512 bytes: what `piperead` delivers is what `pipewrite`
appended, in order, however often the 32-bit counters wrap.
-/

namespace Xv6.Pipes

open BitVec List Library

variable {P : Type} {before after : State P} {entry : Action P × Outcome} {history : History P}
variable {p : P} {n : BitVec 32} {i : Nat}

def Outcome.appends : Outcome → Option Byte
  | .appended ch => some ch
  | _ => none

def Outcome.delivers : Outcome → Option Byte
  | .delivered ch => some ch
  | _ => none

/-- All bytes that `pipewrite` has appended, in the order of its steps. -/
def accepted (history : History P) : List Byte :=
  (steps history).filterMap (fun entry => entry.2.appends)

/-- All bytes that `piperead` has delivered, in the order of its steps. -/
def delivered (history : History P) : List Byte :=
  (steps history).filterMap (fun entry => entry.2.delivers)

theorem accepted_cons (entry : Action P × Outcome) (s : State P) (history : History P)
    : accepted ((entry, s) :: history) = accepted history ++ entry.2.appends.toList := by
  cases appends : entry.2.appends <;> simp [accepted, steps, appends]

theorem delivered_cons (entry : Action P × Outcome) (s : State P) (history : History P)
    : delivered ((entry, s) :: history) = delivered history ++ entry.2.delivers.toList := by
  cases delivers : entry.2.delivers <;> simp [delivered, steps, delivers]

/-- The bytes in flight. -/
def Pipe.contents (pipe : Pipe) : List Byte := ringContents pipe.data pipe.nread pipe.nwrite

/-- What one step does to the queue. -/
inductive Effect (before : State P) (entry : Action P × Outcome) (after : State P) : Prop
  | none (appends : entry.2.appends = .none) (delivers : entry.2.delivers = .none)
    (contents : after.pipe.contents = before.pipe.contents)
  | push (ch : Byte) (appends : entry.2.appends = some ch) (delivers : entry.2.delivers = .none)
    (room : before.pipe.nwrite ≠ before.pipe.nread + 512)
    (pushed : after.pipe = before.pipe.push ch)
  | pop (ch : Byte) (appends : entry.2.appends = .none) (delivers : entry.2.delivers = some ch)
    (popped : before.pipe.contents = ch :: after.pipe.contents)

theorem pipeclose_contents (s : State P) (writable : Bool)
    : (pipeclose s writable).pipe.contents = s.pipe.contents := by
  unfold pipeclose
  split <;> rfl

/-- The queue holds what was appended and not delivered yet, and it is not too long. -/
structure Queued (history : History P) (s : State P) : Prop where
  order : accepted history = delivered history ++ s.pipe.contents
  bound : (s.pipe.nwrite - s.pipe.nread).toNat ≤ 512

theorem Queued.pipealloc (data : Fin 512 → Byte) (killed : P → Bool)
    : Queued [] (pipealloc data killed) := by
  refine ⟨?_, ?_⟩ <;> simp [accepted, delivered, steps, Pipe.contents, Pipes.pipealloc]

variable [DecidableEq P]

/-- A round of `pipewrite` appends the byte it accepts, or leaves the bytes alone. -/
theorem writeRound_effect {copyin : Option Byte} {action : Action P}
    : Effect before (action, (writeRound before p n i copyin).1)
        (writeRound before p n i copyin).2 := by
  unfold writeRound
  split_ifs with more stop full
  · exact .none rfl rfl rfl
  · exact .none rfl rfl rfl
  · cases copyin with
    | none => exact .none rfl rfl rfl
    | some ch => exact .push ch rfl rfl full rfl
  · exact .none rfl rfl rfl

/-- A round of `piperead` takes the byte it delivers, or leaves the bytes alone. -/
theorem copyRound_effect {copyout : Bool} {action : Action P}
    : Effect before (action, (copyRound before p n i copyout).1)
        (copyRound before p n i copyout).2 := by
  unfold copyRound
  split_ifs with more empty ok last
  · exact .none rfl rfl rfl
  · exact .pop _ rfl rfl (ringContents_pop before.pipe.data empty)
  · exact .none rfl rfl rfl
  · exact .none rfl rfl rfl
  · exact .none rfl rfl rfl

theorem waitRound_pipe (before : State P) (p : P) (n : BitVec 32)
    : (waitRound before p n).2.pipe = before.pipe
      ∧ (waitRound before p n).1.appends = none ∧ (waitRound before p n).1.delivers = none := by
  unfold waitRound
  split_ifs <;> exact ⟨rfl, rfl, rfl⟩

/-- What one step does to the bytes in the pipe. -/
theorem Step.effect (taken : Step before entry after) : Effect before entry after := by
  obtain ⟨action, outcome⟩ := entry
  obtain ⟨enabled, rfl, rfl⟩ := taken.inv
  cases action with
  | writeRound p n i copyin => exact writeRound_effect
  | copyRound p n i copyout => exact copyRound_effect
  | waitRound p n =>
    obtain ⟨pipe, appends, delivers⟩ := waitRound_pipe before p n
    exact .none appends delivers (congrArg Pipe.contents pipe)
  | pipeclose p writable => exact .none rfl rfl (pipeclose_contents before writable)
  | pipewrite p n | piperead p n | acquire p | kkill p => exact .none rfl rfl rfl

/-- A pipe that is not full has room for a byte. -/
theorem Pipe.room {pipe : Pipe} (bound : (pipe.nwrite - pipe.nread).toNat ≤ 512)
    (notFull : pipe.nwrite ≠ pipe.nread + 512)
    : (pipe.nwrite - pipe.nread).toNat < 512 := by
  refine Nat.lt_of_le_of_ne bound fun full => notFull ?_
  have distance : pipe.nwrite - pipe.nread = 512 := eq_of_toNat_eq full
  rw [← distance, add_comm, sub_add_cancel]

/-- With room, a written byte comes last. -/
theorem Pipe.push_contents {pipe : Pipe} {ch : Byte}
    (room : (pipe.nwrite - pipe.nread).toNat < 512)
    : (pipe.push ch).contents = pipe.contents ++ [ch] :=
  ringContents_push (by decide) (by decide) pipe.data room ch

theorem Pipe.contents_length (pipe : Pipe)
    : pipe.contents.length = (pipe.nwrite - pipe.nread).toNat :=
  ringContents_length ..

/-- Each step keeps the delivered bytes followed by those in the pipe equal to the accepted ones.
-/
theorem Queued.step (queued : Queued history before) (taken : Step before entry after)
    : Queued ((entry, before) :: history) after := by
  have length (s : State P) := s.pipe.contents_length
  have bound := queued.bound
  refine ⟨?_, ?_⟩
  · rw [accepted_cons, delivered_cons, queued.order]
    rcases taken.effect with
      ⟨appends, delivers, contents⟩ | ⟨ch, appends, delivers, notFull, pushed⟩
      | ⟨ch, appends, delivers, popped⟩
    · simp [appends, delivers, contents]
    · simp [appends, delivers, pushed, Pipe.push_contents (Pipe.room bound notFull)]
    · simp [appends, delivers, popped]
  · rw [← length] at bound ⊢
    rcases taken.effect with
      ⟨_, _, contents⟩ | ⟨ch, _, _, notFull, pushed⟩ | ⟨ch, _, _, popped⟩
    · rwa [contents]
    · have room := Pipe.room queued.bound notFull
      rw [pushed, Pipe.push_contents room, length_append, length]
      exact room
    · rw [popped, length_cons] at bound
      omega

-- What pipewrite returns

/-- How many bytes process `p` has appended since its last call of `pipewrite`. -/
def appendedBy (p : P) : History P → Nat
  | [] => 0
  | ((.pipewrite q _, _), _) :: earlier => if q = p then 0 else appendedBy p earlier
  | ((.writeRound q _ _ _, .appended _), _) :: earlier =>
    appendedBy p earlier + if q = p then 1 else 0
  | _ :: earlier => appendedBy p earlier

/-- The local variable `i` of each `pipewrite` is the number of bytes it has appended. -/
def Counted (history : History P) (s : State P) : Prop :=
  ∀ p n i, (s.threads p).point = .write n i → appendedBy p history = i

/-- A process that goes on to a point outside of `pipewrite` was in `pipewrite` before, if it
is now.
-/
theorem point_of_goTo {threads : P → Thread Chan Point} {q : P} {point : Point}
    (outside : point ≠ .write n i) (now : (goTo threads q point p).point = .write n i)
    : (threads p).point = .write n i := by
  rcases goTo_point threads q p point with same | same
  · exact (outside (same.symm.trans now)).elim
  · exact same.symm.trans now

/-- Each step keeps the count of each writer equal to the bytes it has appended. -/
theorem Counted.step (counted : Counted history before) (taken : Step before entry after)
    : Counted ((entry, before) :: history) after := by
  obtain ⟨action, outcome⟩ := entry
  obtain ⟨enabled, rfl, rfl⟩ := taken.inv
  intro p n i point
  cases action with
  | pipewrite q m =>
    rw [appendedBy]
    by_cases here : q = p
    · subst here
      simp only [Action.run, goTo_self, Point.write.injEq] at point
      rw [if_pos rfl, point.2]
    · simp only [Action.run, goTo_other _ (Ne.symm here)] at point
      rw [if_neg here]
      exact counted p n i point
  | piperead q m => exact counted p n i (point_of_goTo (by simp) point)
  | acquire q => exact counted p n i point
  | writeRound q m j copyin =>
    simp only [Action.run, writeRound] at point ⊢
    split_ifs at point ⊢ with more stop full
    · exact counted p n i (point_of_goTo (by simp) point)
    · exact counted p n i (by simpa [State.sleep, State.wakeup] using point)
    · cases copyin with
      | none =>
        have earlier := point_of_goTo (by simp) point
        exact counted p n i (by simpa [State.wakeup] using earlier)
      | some ch =>
        simp only [appendedBy]
        by_cases here : q = p
        · subst here
          simp only [goTo_self, Point.write.injEq] at point
          rw [if_pos rfl, counted q m j (by rw [enabled.2]), point.2]
        · simp only [goTo_other _ (Ne.symm here)] at point
          rw [if_neg here]
          exact counted p n i point
    · have earlier := point_of_goTo (by simp) point
      exact counted p n i (by simpa [State.wakeup] using earlier)
  | waitRound q m =>
    simp only [Action.run, waitRound] at point
    refine counted p n i ?_
    split_ifs at point
    · exact point_of_goTo (by simp) point
    · simpa [State.sleep] using point
    · exact point_of_goTo (by simp) point
  | copyRound q m j copyout =>
    simp only [Action.run, copyRound] at point
    refine counted p n i ?_
    split_ifs at point
    · simpa [State.wakeup] using point_of_goTo (by simp) point
    · exact point_of_goTo (by simp) point
    · simpa [State.wakeup] using point_of_goTo (by simp) point
    · simpa [State.wakeup] using point_of_goTo (by simp) point
    · simpa [State.wakeup] using point_of_goTo (by simp) point
  | pipeclose q writable =>
    refine counted p n i ?_
    simp only [Action.run, pipeclose] at point
    split_ifs at point <;> simpa [State.wakeup] using point
  | kkill q => exact counted p n i (by simpa [Action.run] using point)

theorem Counted.pipealloc (data : Fin 512 → Byte) (killed : P → Bool)
    : Counted [] (pipealloc data killed) :=
  fun _ _ _ point => (nomatch point)

theorem copyRound_fails {outcome : Outcome}
    (taken : Step before (.copyRound p n i false, outcome) after)
    : after.pipe = before.pipe ∧ outcome.delivers = none := by
  obtain ⟨_, rfl, rfl⟩ := taken.inv
  simp only [Action.run, copyRound, Bool.false_eq_true, if_false]
  split_ifs <;> exact ⟨rfl, rfl⟩

/-- What `pipewrite` returns is the count of the bytes it put in. -/
theorem Counted.returned (counted : Counted history before) {p : P} {n : BitVec 32} {i : Nat}
    {copyin : Option Byte} {result : Int}
    (taken : Step before (.writeRound p n i copyin, .returned result) after)
    (success : result ≠ -1)
    : result = appendedBy p history := by
  obtain ⟨enabled, returned, _⟩ := taken.inv
  rw [counted p n i (by rw [enabled.2])]
  simp only [Action.run, writeRound] at returned
  split_ifs at returned with more stop full
  · cases returned
    exact (success rfl).elim
  · cases returned
  · cases copyin <;> cases returned
    rfl
  · cases returned
    rfl

/-- A pipe delivers the bytes it accepted in order. Between its counters are the bytes in
flight, at most 512 of them; a byte that `copyout` fails to store stays in the pipe, and
`pipewrite` returns the number of bytes it has appended.
-/
theorem pipe_delivers_what_it_accepts {data : Fin 512 → Byte} {killed : P → Bool}
    {final : State P} (run : Run Step (pipealloc data killed) history final)
    : delivered history <+: accepted history
      ∧ (accepted history).length
        = (delivered history).length + (final.pipe.nwrite - final.pipe.nread).toNat
      ∧ (final.pipe.nwrite - final.pipe.nread).toNat ≤ 512
      ∧ (∀ p n i outcome after, Step final (.copyRound p n i false, outcome) after
        → after.pipe = final.pipe ∧ outcome.delivers = none)
      ∧ ∀ p n i copyin result after,
        Step final (.writeRound p n i copyin, .returned result) after → result ≠ -1
        → result = appendedBy p history := by
  have queued : Queued history final :=
    run.always (.pipealloc data killed) fun _ _ _ _ queued taken => queued.step taken
  have counted : Counted history final :=
    run.always (.pipealloc data killed) fun _ _ _ _ counted taken => counted.step taken
  refine ⟨⟨final.pipe.contents, queued.order.symm⟩, ?_, queued.bound,
    fun p n i outcome after taken => copyRound_fails taken,
    fun p n i copyin result after taken => counted.returned taken⟩
  rw [queued.order, length_append, Pipe.contents_length]

/-- Witness: two bytes are written, and one of them is read. -/
theorem first_byte_is_delivered_first
    : ∃ (history : History (Fin 2)) (final : State (Fin 2)),
      Run Step (pipealloc (fun _ => 0) fun _ => false) history final
      ∧ steps history
        = [(.pipewrite 0 2, .pending), (.acquire 0, .pending),
          (.writeRound 0 2 0 (some 65), .appended 65),
          (.writeRound 0 2 1 (some 66), .appended 66),
          (.writeRound 0 2 2 none, .returned 2), (.piperead 1 1, .pending),
          (.acquire 1, .pending), (.waitRound 1 1, .pending),
          (.copyRound 1 1 0 true, .delivered 65), (.copyRound 1 1 1 true, .returned 1)]
      ∧ delivered history <+: accepted history ∧ delivered history = [65]
      ∧ accepted history = [65, 66] := by
  refine exists_run (fun history _ => delivered history = [65] ∧ accepted history = [65, 66])
    (by decide +kernel) fun history final run passed => ?_
  exact ⟨(pipe_delivers_what_it_accepts run).1, passed⟩

end Xv6.Pipes

import Xv6.Disk.BufferList

/-! The order of the buffer cache's list: as long as no `bunpin` takes a last reference, the
buffer to recycle is the one that was released least recently.
-/

namespace Xv6.Disk.BufferCache

open Function Library

variable {ι : Type} {s after : State ι} {order : List (Fin NBUF)}
  {history : List ((Action ι × Outcome) × State ι)}
variable {b : Fin NBUF}

/-- The step releases the last reference to the buffer. -/
def Moves (b : Fin NBUF) (s : State ι) (action : Action ι) : Prop :=
  Releases b s action ∧ (s.buf b).refcnt = 1

instance (b : Fin NBUF) (s : State ι) (action : Action ι) : Decidable (Moves b s action) :=
  inferInstanceAs (Decidable (_ ∧ _))

def movedAt (b : Fin NBUF) (history : List ((Action ι × Outcome) × State ι)) : Nat :=
  lastAt (fun s step => Moves b s step.1) history

/-- The list is sorted by when its buffers were moved to the front, and an unused buffer was
moved when it was released.
-/
structure Recent (history : List ((Action ι × Outcome) × State ι)) (s : State ι)
    (order : List (Fin NBUF)) : Prop where
  sorted : order.Pairwise fun b b' => movedAt b' history ≤ movedAt b history
  settled : ∀ b, (s.buf b).refcnt = 0 → releasedAt b history = movedAt b history

variable {entry : Action ι × Outcome}

theorem movedAt_same (not : ¬Moves b s entry.1)
    : movedAt b ((entry, s) :: history) = movedAt b history :=
  if_neg not

theorem movedAt_now (moves : Moves b s entry.1)
    : movedAt b ((entry, s) :: history) = history.length + 1 :=
  if_pos moves

theorem releasedAt_same (not : ¬Releases b s entry.1)
    : releasedAt b ((entry, s) :: history) = releasedAt b history :=
  if_neg not

theorem releasedAt_now (releases : Releases b s entry.1)
    : releasedAt b ((entry, s) :: history) = history.length + 1 :=
  if_pos releases

namespace Recent

theorem sorted_same (recent : Recent history s order) (still : ∀ b, ¬Moves b s entry.1)
    : order.Pairwise fun b b' => movedAt b' ((entry, s) :: history)
        ≤ movedAt b ((entry, s) :: history) := by
  simp only [movedAt_same (still _)]
  exact recent.sorted

end Recent

variable [Fintype ι]

namespace Recent

/-- A buffer that moves to the front is the most recent one. -/
theorem sorted_moved (recent : Recent history s order) (sound : Sound s order) {b : Fin NBUF}
    (moves : ∀ c, Moves c s entry.1 ↔ c = b)
    : (b :: order.erase b).Pairwise fun b b' => movedAt b' ((entry, s) :: history)
        ≤ movedAt b ((entry, s) :: history) := by
  have others : ∀ c ∈ order.erase b, movedAt c ((entry, s) :: history) = movedAt c history := by
    intro c member
    exact movedAt_same fun moved => (sound.nodup.mem_erase_iff.mp member).1 ((moves c).mp moved)
  refine List.pairwise_cons.mpr ⟨?_, ?_⟩
  · intro c member
    rw [others c member, movedAt_now ((moves b).mpr rfl)]
    exact Nat.le_succ_of_le (lastAt_le _ _)
  · refine (recent.sorted.sublist List.erase_sublist).imp_of_mem ?_
    intro c c' member member' before
    rwa [others c member, others c' member']

/-- The buffer to recycle was released least recently. -/
theorem least (recent : Recent history s order) (sound : Sound s order) {b b' : Fin NBUF}
    (found : s.unused = .found b) (unused : (s.buf b').refcnt = 0)
    : releasedAt b history ≤ releasedAt b' history := by
  obtain ⟨zero, left, right, split, used⟩ := sound.last_unused found
  rw [recent.settled b zero, recent.settled b' unused]
  have member := sound.all b'
  have sorted := recent.sorted
  rw [split] at member sorted
  rcases List.mem_append.mp member with earlier | later
  · exact (List.pairwise_append.mp sorted).2.2 b' earlier b (by simp)
  · rcases List.mem_cons.mp later with rfl | behind
    · exact Nat.le_refl _
    · exact (used b' behind unused).elim

end Recent

/-- A buffer is released by a use that has a reference to it. -/
theorem Sound.released_used (sound : Sound s order) (releases : Releases b s entry.1)
    : (s.buf b).refcnt ≠ 0 := by
  obtain ⟨action, outcome⟩ := entry
  cases action with
  | brelse use =>
    have refers : (s.point use).weight b = 1 := by
      rw [show s.point use = .releasing b from releases]
      simp [Point.weight]
    have positive := sound.positive refers
    intro zero
    rw [zero] at positive
    exact absurd positive (by decide)
  | bget use dev blockno | acquiresleep use | fill use | releasesleep use | bpin b | bunpin b =>
    exact releases.elim

variable [DecidableEq ι]

/-- A buffer without references had none before, or its last one has just been released. -/
theorem Sound.unused_before (sound : Sound s order) (room : Roomy s) (keeps : KeepsLast s entry.1)
    (taken : Step s entry after) (unused : (after.buf b).refcnt = 0)
    : (s.buf b).refcnt = 0 ∨ Moves b s entry.1 := by
  rw [eq_zero_iff] at unused
  cases taken.change with
  | @cached _ _ _ c idle found | @pins c =>
    have raised := refcnt_incref s c b room
    change ((s.incref c).buf b).refcnt.toNat = 0 at unused
    left
    rw [eq_zero_iff]
    omega
  | @recycled _ _ _ c idle absent found =>
    by_cases here : b = c
    · subst here
      exact .inl (sound.last_unused found).1
    · simp only [State.goTo, State.setBuf, update_of_ne here] at unused
      exact .inl (eq_zero_iff.mpr unused)
  | noBuffers none | endless circles | locks waiting | unlocks holding =>
    exact .inl (eq_zero_iff.mpr unused)
  | @fills _ c holding =>
    by_cases here : b = c
    · subst here
      simp only [State.setBuf, update_self] at unused
      exact .inl (eq_zero_iff.mpr unused)
    · simp only [State.setBuf, update_of_ne here] at unused
      exact .inl (eq_zero_iff.mpr unused)
  | @unpins c pinned =>
    have last : 1 < (s.buf c).refcnt.toNat := keeps
    have lowered := refcnt_decref s (by omega : 0 < (s.buf c).refcnt.toNat) b
    change ((s.decref c).buf b).refcnt.toNat = 0 at unused
    left
    rw [eq_zero_iff]
    by_cases here : c = b
    · subst here
      simp only [beq_self_eq_true, Bool.toNat_true] at lowered
      omega
    · have other : (c == b) = false := by simpa using here
      simp only [other, Bool.toNat_false] at lowered
      omega
  | @releases use c releasing =>
    have refers : (s.point use).weight c = 1 := by
      rw [releasing]
      simp [Point.weight]
    have lowered := refcnt_decref s (sound.positive refers) b
    have value : ((s.brelse use c).buf b).refcnt = ((s.decref c).buf b).refcnt := by
      unfold State.brelse
      dsimp only
      split_ifs <;> rfl
    rw [value] at unused
    by_cases here : c = b
    · subst here
      simp only [beq_self_eq_true, Bool.toNat_true] at lowered
      refine .inr ⟨releasing, ?_⟩
      rw [← UInt32.toNat_inj]
      change _ = 1
      omega
    · have other : (c == b) = false := by simpa using here
      simp only [other, Bool.toNat_false] at lowered
      exact .inl (eq_zero_iff.mpr (by omega))

theorem Recent.step (recent : Recent history s order) (sound : Sound s order) (room : Roomy s)
    (keeps : KeepsLast s entry.1) (taken : Step s entry after)
    : Recent ((entry, s) :: history) after (reorder s order entry.1) := by
  refine ⟨?_, fun b unused => ?_⟩
  · cases taken.change with
    | @releases use b releasing =>
      have same (c : Fin NBUF) : Releases c s (.brelse use) ↔ c = b := by
        simp only [Releases, releasing, Point.releasing.injEq]
        exact eq_comm
      simp only [reorder, releasing]
      split_ifs with last
      · refine recent.sorted_moved sound fun c => ?_
        constructor
        · exact fun moves => (same c).mp moves.1
        · rintro rfl
          exact ⟨releasing, last⟩
      · refine recent.sorted_same fun c moves => ?_
        exact last ((same c).mp moves.1 ▸ moves.2)
    | _ => exact recent.sorted_same fun b moves => moves.1
  · rcases sound.unused_before room keeps taken unused with before | moves
    · have idle : ¬Releases b s entry.1 := fun releases => sound.released_used releases before
      rw [releasedAt_same idle, movedAt_same fun moves => idle moves.1]
      exact recent.settled b before
    · rw [releasedAt_now moves.1, movedAt_now moves]

-- Runs

theorem Sound.run {start final : State ι} (booted : Booted start)
    (run : Run Step start history final) (room : EachStep (fun s _ => Roomy s) history)
    : ∃ order, Sound final order
      ∧ (EachStep (fun s step => KeepsLast s step.1) history → Recent history final order) := by
  induction run with
  | nil =>
    refine ⟨_, booted.sound, fun _ => ⟨?_, fun _ _ => rfl⟩⟩
    exact List.pairwise_of_forall_mem_list fun _ _ _ _ => Nat.le_refl 0
  | next earlier taken ih =>
    obtain ⟨order, sound, recent⟩ := ih room.tail
    refine ⟨_, sound.step room.head taken, fun keeps => ?_⟩
    exact (recent keeps.tail).step sound room.head keeps.head taken

/-- A buffer in use keeps its block. -/
theorem Sound.used_keeps_block (sound : Sound s order) (taken : Step s entry after)
    (used : (s.buf b).refcnt ≠ 0)
    : (after.buf b).dev = (s.buf b).dev ∧ (after.buf b).blockno = (s.buf b).blockno := by
  cases taken.change with
  | @cached _ _ _ c idle found | @pins c => exact key_incref s c b
  | @recycled _ _ _ c idle absent found =>
    have other : b ≠ c := by
      rintro rfl
      exact used (sound.last_unused found).1
    simp [State.goTo, State.setBuf, other]
  | @fills _ c holding =>
    by_cases here : b = c
    · subst here
      simp [State.setBuf]
    · simp [State.setBuf, here]
  | @releases use c releasing =>
    have kept := key_decref s c b
    unfold State.brelse
    dsimp only
    split_ifs
    · exact kept
    · exact kept
  | @unpins c pinned => exact key_decref s c b
  | _ => exact ⟨rfl, rfl⟩

/-- The buffer cache over every run: the list through `head` has each buffer once and its
pointers agree, a block of a device is cached at most once, a counter counts holders, waiters
and pins, a buffer in use keeps its block, `bget` recycles an unused buffer, the least recently
released one as long as no `bunpin` takes a last reference, and it panics only when all buffers
are in use.
-/
theorem buffer_cache_structure {start final : State ι} (booted : Booted start)
    (run : Run Step start history final) (room : EachStep (fun s _ => Roomy s) history)
    : (∃ order : List (Fin NBUF), order.Nodup ∧ (∀ b, b ∈ order) ∧ final.links.Threads order)
      ∧ (∀ b b', (final.buf b).dev ≠ 0 → (final.buf b').dev = (final.buf b).dev
          → (final.buf b').blockno = (final.buf b).blockno → b' = b)
      ∧ (∀ b, (final.buf b).refcnt.toNat = holders final b + waiters final b + final.pins b)
      ∧ ∀ step after, Step final step after
          → (∀ b, (final.buf b).refcnt ≠ 0 → (after.buf b).dev = (final.buf b).dev
              ∧ (after.buf b).blockno = (final.buf b).blockno)
            ∧ (∀ b, step.2 = .recycled b → (final.buf b).refcnt = 0
              ∧ (EachStep (fun s step => KeepsLast s step.1) history
                → ∀ b', (final.buf b').refcnt = 0
                  → releasedAt b history ≤ releasedAt b' history))
            ∧ (step.2 = .noBuffers → ∀ b, (final.buf b).refcnt ≠ 0)
            ∧ step.2 ≠ .endless := by
  obtain ⟨order, sound, recent⟩ := Sound.run booted run room
  refine ⟨⟨order, sound.nodup, sound.all, sound.threads⟩, sound.unique, ?_, ?_⟩
  · intro b
    rw [sound.counted b, users_eq]
  · intro step after taken
    refine ⟨fun b used => sound.used_keeps_block taken used, ?_, ?_, ?_⟩
    · intro b outcome
      cases taken.change with
      | recycled idle absent found =>
        cases outcome
        refine ⟨(sound.last_unused found).1, fun keeps b' unused => ?_⟩
        exact (recent keeps).least sound found unused
      | _ => cases outcome
    · intro outcome
      cases taken.change with
      | noBuffers none => exact sound.all_used none
      | _ => cases outcome
    · intro outcome
      cases taken.change with
      | endless circles =>
        rcases circles with circles | circles
        · exact Sound.ofOption_ne_endless _ ((sound.lookup_eq _ _).symm.trans circles)
        · exact Sound.ofOption_ne_endless _ (sound.unused_eq.symm.trans circles)
      | _ => cases outcome

/-- The cache after `binit`, with one process. -/
def freshCache : State (Fin 1) where
  buf _ := {}
  links := binit ⟨id, id⟩
  locked _ := false
  point _ := .idle
  pins _ := 0

theorem freshCache_booted : Booted freshCache :=
  ⟨⟨_, rfl⟩, fun _ => rfl, fun _ => rfl, fun _ => rfl, fun _ => rfl⟩

/-- Two blocks are read and released one after the other. -/
def twoReads : List (Action (Fin 1) × Outcome) :=
  [(.bget 0 1 1, .recycled 0), (.acquiresleep 0, .done), (.fill 0, .done),
    (.releasesleep 0, .done), (.brelse 0, .done), (.bget 0 1 2, .recycled 1),
    (.acquiresleep 0, .done), (.fill 0, .done), (.releasesleep 0, .done), (.brelse 0, .done)]

theorem twoReads_follows
    : Follows (guarded Enabled State.run) freshCache twoReads
        (fun history final => EachStep (fun s _ => Roomy s) history
          ∧ (final.buf 0).blockno = 1 ∧ (final.buf 1).blockno = 2) := by
  decide +kernel

/-- The counters of the two buffers after the two reads. -/
theorem read_blocks_are_cached
    : ∃ history final, Run Step freshCache history final
      ∧ steps history = twoReads ∧ EachStep (fun s _ => Roomy s) history
      ∧ (final.buf 0).blockno = 1 ∧ (final.buf 1).blockno = 2
      ∧ ∀ b, (final.buf b).refcnt.toNat = holders final b + waiters final b + final.pins b := by
  obtain ⟨history, final, run, same, room, first, second⟩ := twoReads_follows.toRun
  exact ⟨history, final, run, same, room, first, second,
    (buffer_cache_structure freshCache_booted run room).2.2.1⟩

/-- Buffer 0 is released; then buffer 1 is pinned, released and unpinned. -/
def lateUnpin : List (Action (Fin 1) × Outcome) :=
  [(.bget 0 1 1, .recycled 0), (.acquiresleep 0, .done), (.releasesleep 0, .done),
    (.brelse 0, .done), (.bget 0 1 2, .recycled 1), (.acquiresleep 0, .done), (.bpin 1, .done),
    (.releasesleep 0, .done), (.brelse 0, .done), (.bunpin 1, .done)]

theorem lateUnpin_follows
    : Follows (guarded Enabled State.run) freshCache lateUnpin
        (fun history final => EachStep (fun s _ => Roomy s) history
          ∧ (Enabled final (.bget 0 1 3) ∧ (final.run (.bget 0 1 3)).1 = .recycled 1)
          ∧ (final.buf 0).refcnt = 0 ∧ 0 < releasedAt 0 history
          ∧ releasedAt 0 history < releasedAt 1 history) := by
  decide +kernel

/-- A `bunpin` that takes the last reference leaves the buffer where it is: the next `bget`
recycles it although another unused buffer was released before it.
-/
theorem unpinned_buffer_is_recycled_early
    : ∃ history final, Booted freshCache ∧ Run Step freshCache history final
      ∧ EachStep (fun s _ => Roomy s) history
      ∧ (∃ after, Step final (.bget 0 1 3, .recycled 1) after)
      ∧ (final.buf 0).refcnt = 0 ∧ 0 < releasedAt 0 history
      ∧ releasedAt 0 history < releasedAt 1 history := by
  obtain ⟨history, final, run, _, room, ⟨enabled, outcome⟩, times⟩ := lateUnpin_follows.toRun
  exact ⟨history, final, freshCache_booted, run, room,
    ⟨_, enabled, Prod.ext outcome rfl⟩, times⟩

end Xv6.Disk.BufferCache

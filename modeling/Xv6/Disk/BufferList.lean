import Xv6.Disk.BufferCache

/-! The structure of the buffer cache: its list, its keys and its reference counts over every
run.
-/

namespace Xv6.Disk.BufferCache

open Function Library

variable {ι : Type} {s after : State ι} {order : List (Fin NBUF)} {count : UInt32}

-- Counters

/-- A reference count that has room counts. -/
theorem toNat_inc (room : count.toNat + 1 < 2 ^ 32)
    : (count + 1).toNat = count.toNat + 1 := by
  exact Nat.mod_eq_of_lt room

/-- A reference count that is not zero counts down. -/
theorem toNat_dec (positive : 0 < count.toNat)
    : (count - 1).toNat = count.toNat - 1 := by
  have one : (1 : UInt32) ≤ count := UInt32.le_iff_toNat_le.mpr positive
  exact UInt32.toNat_sub_of_le _ _ one

theorem eq_zero_iff : count = 0 ↔ count.toNat = 0 := by
  rw [← UInt32.toNat_inj]
  rfl

/-- Whether a use has a reference to the buffer. -/
def Point.weight (b : Fin NBUF) : Point → Nat
  | .idle => 0
  | .waiting c | .holding c | .releasing c => (c == b).toNat

section

variable [Fintype ι]

def users (s : State ι) (b : Fin NBUF) : Nat := ∑ use, (s.point use).weight b

/-- Whoever uses a buffer holds it or waits for it. -/
theorem users_eq (s : State ι) (b : Fin NBUF) : users s b = holders s b + waiters s b := by
  unfold users holders waiters countWhere
  rw [← Finset.sum_add_distrib]
  refine Finset.sum_congr rfl fun use _ => ?_
  cases s.point use <;> simp [Point.weight, beq_eq_decide]

end

/-- `b->refcnt++` changes one count. -/
theorem refcnt_incref (s : State ι) (b b' : Fin NBUF) (room : Roomy s)
    : ((s.incref b).buf b').refcnt.toNat = (s.buf b').refcnt.toNat + (b == b').toNat := by
  by_cases here : b' = b
  · subst here
    simp [State.incref, State.setBuf, toNat_inc (room b')]
  · simp [State.incref, State.setBuf, here, Ne.symm here]

/-- `b->refcnt--` changes one count. -/
theorem refcnt_decref (s : State ι) {b : Fin NBUF} (positive : 0 < (s.buf b).refcnt.toNat)
    (b' : Fin NBUF)
    : ((s.decref b).buf b').refcnt.toNat + (b == b').toNat = (s.buf b').refcnt.toNat := by
  by_cases here : b' = b
  · subst here
    simp only [State.decref, State.setBuf, update_self, toNat_dec positive, beq_self_eq_true,
      Bool.toNat_true]
    omega
  · simp [State.decref, State.setBuf, here, Ne.symm here]

/-- Counting up does not change which block is cached. -/
theorem key_incref (s : State ι) (b b' : Fin NBUF)
    : ((s.incref b).buf b').dev = (s.buf b').dev
      ∧ ((s.incref b).buf b').blockno = (s.buf b').blockno := by
  by_cases here : b' = b
  · subst here
    simp [State.incref, State.setBuf]
  · simp [State.incref, State.setBuf, here]

/-- Neither does counting down. -/
theorem key_decref (s : State ι) (b b' : Fin NBUF)
    : ((s.decref b).buf b').dev = (s.buf b').dev
      ∧ ((s.decref b).buf b').blockno = (s.buf b').blockno := by
  by_cases here : b' = b
  · subst here
    simp [State.decref, State.setBuf]
  · simp [State.decref, State.setBuf, here]

-- The invariant

section

variable [Fintype ι]

/-- The list has every buffer once, no block of a device is cached twice, and the counters
count the references.
-/
structure Sound (s : State ι) (order : List (Fin NBUF)) : Prop where
  nodup : order.Nodup
  all : ∀ b, b ∈ order
  threads : s.links.Threads order
  unique : ∀ b b', (s.buf b).dev ≠ 0 → (s.buf b').dev = (s.buf b).dev
    → (s.buf b').blockno = (s.buf b).blockno → b' = b
  counted : ∀ b, (s.buf b).refcnt.toNat = users s b + s.pins b

/-- After `binit` all buffers are in the list and unused. -/
theorem Booted.sound (booted : Booted s) : Sound s (List.finRange NBUF).reverse := by
  obtain ⟨⟨links, list⟩, zero, _, idle, unpinned⟩ := booted
  have nodup : (List.finRange NBUF).reverse.Nodup :=
    List.nodup_reverse.mpr (List.nodup_finRange NBUF)
  refine ⟨nodup, by simp, ?_, ?_, ?_⟩
  · have empty : ((links.setPrev none none).setNext none none).Threads [] := by
      intro left right split
      obtain ⟨rfl, rfl⟩ := List.append_eq_nil_iff.mp split.symm
      simp [Links.Meet, Links.setPrev, Links.setNext]
    have pushed := empty.pushAll (List.finRange NBUF) (by simpa using nodup)
    rw [list]
    exact pushed
  · intro b b' real
    rw [zero b] at real
    exact (real rfl).elim
  · intro b
    have none : users s b = 0 := Finset.sum_eq_zero fun use _ => by rw [idle use]; rfl
    rw [zero b, none, unpinned b]
    rfl

namespace Sound

variable {b : Fin NBUF} {blockno : UInt32}

theorem length (sound : Sound s order) : order.length ≤ NBUF := by
  have bound := sound.nodup.length_le_card
  simpa using bound

/-- The first loop of `bget` goes through the list. -/
theorem lookup_eq (sound : Sound s order) (dev blockno : UInt32)
    : s.lookup dev blockno
      = .ofOption (order.find? fun b =>
          (s.buf b).dev == dev && (s.buf b).blockno == blockno) :=
  Links.seek_next sound.threads _ sound.length

/-- The second loop of `bget` goes through it backwards. -/
theorem unused_eq (sound : Sound s order)
    : s.unused = .ofOption (order.reverse.find? fun b => (s.buf b).refcnt == 0) :=
  Links.seek_prev sound.threads _ sound.length

/-- A search through a list ends. -/
theorem ofOption_ne_endless (found : Option (Fin NBUF))
    : Links.Sought.ofOption found ≠ .endless := by
  cases found <;> simp [Links.Sought.ofOption]

theorem ofOption_found {found : Option (Fin NBUF)} (same : Links.Sought.ofOption found = .found b)
    : found = some b := by
  cases found with
  | none => cases same
  | some c =>
    cases same
    rfl

theorem ofOption_absent {found : Option (Fin NBUF)}
    (same : Links.Sought.ofOption found = .absent)
    : found = none := by
  cases found with
  | none => rfl
  | some c => cases same

section

variable (sound : Sound s order)
include sound

/-- A search that ends without a buffer has seen them all. -/
theorem not_cached {dev : UInt32} (absent : s.lookup dev blockno = .absent) (b : Fin NBUF)
    : ¬((s.buf b).dev = dev ∧ (s.buf b).blockno = blockno) := by
  rw [sound.lookup_eq] at absent
  have none := List.find?_eq_none.mp (ofOption_absent absent) b (sound.all b)
  simpa using none

/-- A buffer that is found is the one of the block. -/
theorem is_cached {dev : UInt32} (found : s.lookup dev blockno = .found b)
    : (s.buf b).dev = dev ∧ (s.buf b).blockno = blockno := by
  rw [sound.lookup_eq] at found
  have test := List.find?_some (ofOption_found found)
  simpa using test

/-- The recycled buffer is the last of the list that is not in use. -/
theorem last_unused (found : s.unused = .found b)
    : (s.buf b).refcnt = 0 ∧ ∃ left right, order = left ++ b :: right
      ∧ ∀ b' ∈ right, (s.buf b').refcnt ≠ 0 := by
  rw [sound.unused_eq] at found
  obtain ⟨zero, before, behind, split, used⟩ :=
    List.find?_eq_some_iff_append.mp (ofOption_found found)
  refine ⟨by simpa using zero, behind.reverse, before.reverse, ?_, ?_⟩
  · rw [← List.reverse_reverse order, split]
    simp
  · intro b' member
    simpa using used b' (List.mem_reverse.mp member)

/-- `bget: no buffers` means that all are in use. -/
theorem all_used (absent : s.unused = .absent) (b : Fin NBUF) : (s.buf b).refcnt ≠ 0 := by
  rw [sound.unused_eq] at absent
  have used := List.find?_eq_none.mp (ofOption_absent absent) b
    (List.mem_reverse.mpr (sound.all b))
  simpa using used

/-- What changes neither the list nor the keys has to keep the counts only. -/
theorem keep (links : after.links = s.links)
    (keys : ∀ b, (after.buf b).dev = (s.buf b).dev ∧ (after.buf b).blockno = (s.buf b).blockno)
    (counted : ∀ b, (after.buf b).refcnt.toNat = users after b + after.pins b)
    : Sound after order where
  nodup := sound.nodup
  all := sound.all
  threads := by rw [links]; exact sound.threads
  unique b b' := by
    rw [(keys b).1, (keys b).2, (keys b').1, (keys b').2]
    exact sound.unique b b'
  counted := counted

/-- A buffer in use has a positive count. -/
theorem positive {use : ι} (refers : (s.point use).weight b = 1) : 0 < (s.buf b).refcnt.toNat := by
  have bound : (s.point use).weight b ≤ users s b :=
    Finset.single_le_sum (f := fun use => (s.point use).weight b) (fun _ _ => Nat.zero_le _)
      (Finset.mem_univ use)
  have counted := sound.counted b
  omega

/-- Reading the block into the buffer. -/
theorem fills (b : Fin NBUF) : Sound (s.setBuf b { s.buf b with valid := true }) order := by
  have kept (b' : Fin NBUF)
      : ((s.setBuf b { s.buf b with valid := true }).buf b').dev = (s.buf b').dev
        ∧ ((s.setBuf b { s.buf b with valid := true }).buf b').blockno = (s.buf b').blockno
        ∧ ((s.setBuf b { s.buf b with valid := true }).buf b').refcnt = (s.buf b').refcnt := by
    by_cases here : b' = b
    · subst here
      simp [State.setBuf]
    · simp [State.setBuf, here]
  refine sound.keep rfl (fun b' => ⟨(kept b').1, (kept b').2.1⟩) fun b' => ?_
  rw [(kept b').2.2]
  exact sound.counted b'

/-- `bpin` counts its reference. -/
theorem pinned (room : Roomy s) (b : Fin NBUF)
    : Sound { s.incref b with pins := update s.pins b (s.pins b + 1) } order := by
  refine sound.keep rfl (key_incref s b) fun b' => ?_
  have raised := refcnt_incref s b b' room
  have counted := sound.counted b'
  change ((s.incref b).buf b').refcnt.toNat = users s b' + update s.pins b _ b'
  by_cases here : b' = b
  · subst here
    simp only [beq_self_eq_true, Bool.toNat_true, update_self] at raised ⊢
    omega
  · have other : (b == b') = false := by simpa using Ne.symm here
    simp only [other, Bool.toNat_false, update_of_ne here] at raised ⊢
    omega

/-- `bunpin` gives it back. -/
theorem unpinned (some : 0 < s.pins b)
    : Sound { s.decref b with pins := update s.pins b (s.pins b - 1) } order := by
  have positive : 0 < (s.buf b).refcnt.toNat := by
    have counted := sound.counted b
    omega
  refine sound.keep rfl (key_decref s b) fun b' => ?_
  have lowered := refcnt_decref s positive b'
  have counted := sound.counted b'
  change ((s.decref b).buf b').refcnt.toNat = users s b' + update s.pins b _ b'
  by_cases here : b' = b
  · subst here
    simp only [beq_self_eq_true, Bool.toNat_true, update_self] at lowered ⊢
    omega
  · have other : (b == b') = false := by simpa using Ne.symm here
    simp only [other, Bool.toNat_false, update_of_ne here] at lowered ⊢
    omega

/-- The buffer goes to the front of the list. -/
theorem toFront (b : Fin NBUF)
    : Sound { s with links := (s.links.unlink b).pushFront b } (b :: order.erase b) := by
  obtain ⟨left, right, split⟩ := List.append_of_mem (sound.all b)
  have nodup := sound.nodup
  have threads := sound.threads
  have fresh : b ∉ left := by
    rw [split] at nodup
    intro inside
    exact (List.nodup_append.mp nodup).2.2 b inside b (by simp) rfl
  have erased : order.erase b = left ++ right := by
    rw [split, List.erase_append_right _ fresh, List.erase_cons_head]
  have inOrder : ∀ c, c ∈ b :: order.erase b := by
    intro c
    by_cases here : c = b
    · simp [here]
    · exact List.mem_cons_of_mem b ((List.mem_erase_of_ne here).mpr (sound.all c))
  have out : b ∉ order.erase b := fun inside => (nodup.mem_erase_iff.mp inside).1 rfl
  refine ⟨List.nodup_cons.mpr ⟨out, nodup.erase b⟩, inOrder, ?_, sound.unique, sound.counted⟩
  rw [erased] at out ⊢
  rw [split] at threads nodup
  have short : (left ++ right).Nodup := erased ▸ sound.nodup.erase b
  exact (threads.unlink nodup).pushFront short out

end

end Sound

end

-- What a step can do

variable [DecidableEq ι]

inductive Change (s : State ι) : Action ι × Outcome → State ι → Prop
  | cached {use dev blockno b} (idle : s.point use = .idle)
    (found : s.lookup dev blockno = .found b)
    : Change s (.bget use dev blockno, .cached b) ((s.incref b).goTo use (.waiting b))
  | recycled {use dev blockno b} (idle : s.point use = .idle)
    (absent : s.lookup dev blockno = .absent) (found : s.unused = .found b)
    : Change s (.bget use dev blockno, .recycled b)
        ((s.setBuf b { valid := false, dev := dev, blockno := blockno, refcnt := 1 }).goTo use
          (.waiting b))
  | noBuffers {use dev blockno} (none : s.unused = .absent)
    : Change s (.bget use dev blockno, .noBuffers) s
  | endless {use dev blockno} (circles : s.lookup dev blockno = .endless ∨ s.unused = .endless)
    : Change s (.bget use dev blockno, .endless) s
  | locks {use b} (waiting : s.point use = .waiting b)
    : Change s (.acquiresleep use, .done)
        { s.goTo use (.holding b) with locked := update s.locked b true }
  | fills {use b} (holding : s.point use = .holding b)
    : Change s (.fill use, .done) (s.setBuf b { s.buf b with valid := true })
  | unlocks {use b} (holding : s.point use = .holding b)
    : Change s (.releasesleep use, .done)
        { s.goTo use (.releasing b) with locked := update s.locked b false }
  | releases {use b} (releasing : s.point use = .releasing b)
    : Change s (.brelse use, .done) (s.brelse use b)
  | pins {b}
    : Change s (.bpin b, .done)
        { s.incref b with pins := update s.pins b (s.pins b + 1) }
  | unpins {b} (pinned : 0 < s.pins b)
    : Change s (.bunpin b, .done)
        { s.decref b with pins := update s.pins b (s.pins b - 1) }

/-- What `bget` does, by what its two searches find. -/
theorem bget_change (idle : s.point use = .idle) (dev blockno : UInt32)
    : Change s (.bget use dev blockno, (s.bget use dev blockno).1)
        (s.bget use dev blockno).2 := by
  unfold State.bget
  cases looked : s.lookup dev blockno with
  | found b => exact .cached idle looked
  | endless => exact .endless (.inl looked)
  | absent =>
    cases free : s.unused with
    | found b => exact .recycled idle looked free
    | endless => exact .endless (.inr free)
    | absent => exact .noBuffers free

/-- Every step makes one of the changes. -/
theorem Step.change {step : Action ι × Outcome} (taken : Step s step after)
    : Change s step after := by
  obtain ⟨action, outcome⟩ := step
  obtain ⟨enabled, rfl, rfl⟩ := GuardedStep.inv taken
  cases action with
  | bget use dev blockno => exact bget_change enabled dev blockno
  | acquiresleep use =>
    obtain ⟨b, waiting, _⟩ := enabled
    simp only [State.run, waiting]
    exact .locks waiting
  | fill use =>
    obtain ⟨b, holding⟩ := enabled
    simp only [State.run, holding]
    exact .fills holding
  | releasesleep use =>
    obtain ⟨b, holding⟩ := enabled
    simp only [State.run, holding]
    exact .unlocks holding
  | brelse use =>
    obtain ⟨b, releasing⟩ := enabled
    simp only [State.run, releasing]
    exact .releases releasing
  | bpin b => exact .pins
  | bunpin b => exact .unpins enabled

-- Every step keeps the invariant

variable [Fintype ι]

/-- A process that moves on is counted where it goes. -/
theorem users_goTo {use : ι} {point : Point} (here : s.point use = point) (next : Point)
    (b : Fin NBUF)
    : users (s.goTo use next) b + point.weight b = users s b + next.weight b := by
  rw [← here]
  exact sum_update (fun _ point => Point.weight b point) s.point use next

/-- Where the step leaves the list. -/
def reorder (s : State ι) (order : List (Fin NBUF)) : Action ι → List (Fin NBUF)
  | .brelse use =>
    match s.point use with
    | .releasing b => if (s.buf b).refcnt = 1 then b :: order.erase b else order
    | _ => order
  | _ => order

namespace Sound

variable {use : ι}

section

variable (sound : Sound s order)
include sound

/-- `bget` of a cached block. -/
theorem cached (room : Roomy s) {b : Fin NBUF} (idle : s.point use = .idle)
    : Sound ((s.incref b).goTo use (.waiting b)) order := by
  refine sound.keep rfl (key_incref s b) fun b' => ?_
  have moved := users_goTo (s := s.incref b) idle (.waiting b) b'
  have raised := refcnt_incref s b b' room
  have counted := sound.counted b'
  have same : users (s.incref b) b' = users s b' := rfl
  simp only [Point.weight] at moved
  change ((s.incref b).buf b').refcnt.toNat = users _ b' + s.pins b'
  omega

/-- `bget` of a block that is not cached. -/
theorem recycled {use : ι} {b : Fin NBUF} {dev blockno : UInt32} (idle : s.point use = .idle)
    (absent : s.lookup dev blockno = .absent) (unused : s.unused = .found b)
    : Sound ((s.setBuf b { valid := false, dev := dev, blockno := blockno, refcnt := 1 }).goTo
        use (.waiting b)) order := by
  obtain ⟨zero, _⟩ := sound.last_unused unused
  have fresh := sound.not_cached absent
  refine ⟨sound.nodup, sound.all, sound.threads, ?_, ?_⟩
  · -- Only the recycled buffer has a new key, and no other buffer has that one.
    intro c c' real sameDev sameBlock
    simp only [State.goTo, State.setBuf] at real sameDev sameBlock
    by_cases here : c = b
    · subst here
      by_cases here' : c' = c
      · exact here'
      · simp only [update_self, update_of_ne here'] at sameDev sameBlock
        exact (fresh c' ⟨sameDev, sameBlock⟩).elim
    · by_cases here' : c' = b
      · subst here'
        simp only [update_self, update_of_ne here] at sameDev sameBlock
        exact (fresh c ⟨sameDev.symm, sameBlock.symm⟩).elim
      · simp only [update_of_ne here, update_of_ne here']
          at real sameDev sameBlock
        exact sound.unique c c' real sameDev sameBlock
  · intro b'
    have moved := users_goTo
      (s := s.setBuf b { valid := false, dev := dev, blockno := blockno, refcnt := 1 }) idle
      (.waiting b) b'
    have counted := sound.counted b'
    simp only [Point.weight] at moved
    change _ = users _ b' + s.pins b'
    have same : users (s.setBuf b
        { valid := false, dev := dev, blockno := blockno, refcnt := 1 }) b' = users s b' := rfl
    by_cases here : b' = b
    · subst here
      rw [zero] at counted
      simp only [State.goTo, State.setBuf, update_self, beq_self_eq_true,
        Bool.toNat_true] at moved same ⊢
      change 1 = _
      change 0 = _ at counted
      omega
    · have other : (b == b') = false := by simpa using Ne.symm here
      rw [other] at moved
      have kept
          : (s.setBuf b { valid := false, dev := dev, blockno := blockno, refcnt := 1 }).buf b'
          = s.buf b' := update_of_ne here _ _
      change ((s.setBuf b _).buf b').refcnt.toNat = _
      rw [kept]
      simp only [Bool.toNat_false] at moved
      omega

/-- A process that keeps its buffer moves on. -/
theorem goes_on {old : Point} (here : s.point use = old) (next : Point)
    (same : ∀ b, next.weight b = old.weight b) (locked : Fin NBUF → Bool)
    : Sound { s.goTo use next with locked := locked } order := by
  refine sound.keep rfl (fun _ => ⟨rfl, rfl⟩) fun b => ?_
  have moved := users_goTo here next b
  have counted := sound.counted b
  rw [same b] at moved
  change (s.buf b).refcnt.toNat = users (s.goTo use next) b + s.pins b
  omega

/-- `brelse` gives the reference back, and the last one moves the buffer to the front. -/
theorem released {b : Fin NBUF} (releasing : s.point use = .releasing b)
    : Sound (s.brelse use b) (if (s.buf b).refcnt = 1 then b :: order.erase b else order) := by
  have refers : (s.point use).weight b = 1 := by
    rw [releasing]
    simp [Point.weight]
  have positive := sound.positive refers
  have lowered : Sound ((s.decref b).goTo use .idle) order := by
    refine sound.keep rfl (key_decref s b) fun b' => ?_
    have moved := users_goTo (s := s.decref b) releasing .idle b'
    have dropped := refcnt_decref s positive b'
    have counted := sound.counted b'
    have same : users (s.decref b) b' = users s b' := rfl
    simp only [Point.weight] at moved
    change ((s.decref b).buf b').refcnt.toNat = users _ b' + s.pins b'
    omega
  have last : (((s.decref b).goTo use .idle).buf b).refcnt = 0 ↔ (s.buf b).refcnt = 1 := by
    have value : (((s.decref b).goTo use .idle).buf b).refcnt = (s.buf b).refcnt - 1 := by
      simp [State.goTo, State.decref, State.setBuf]
    rw [value, eq_zero_iff, toNat_dec positive, ← UInt32.toNat_inj]
    change _ ↔ _ = 1
    omega
  unfold State.brelse
  by_cases one : (s.buf b).refcnt = 1
  · simp only [last.mpr one, one]
    exact lowered.toFront b
  · simp only [mt last.mp one, one]
    exact lowered

/-- Every step keeps the structure; only a release of the last reference moves a buffer. -/
theorem step (room : Roomy s) {entry : Action ι × Outcome} (taken : Step s entry after)
    : Sound after (reorder s order entry.1) := by
  cases taken.change with
  | cached idle found => exact sound.cached room idle
  | recycled idle absent found => exact sound.recycled idle absent found
  | noBuffers none => exact sound
  | endless circles => exact sound
  | @locks _ b waiting => exact sound.goes_on waiting (.holding b) (fun _ => rfl) _
  | fills holding => exact sound.fills _
  | @unlocks _ b holding => exact sound.goes_on holding (.releasing b) (fun _ => rfl) _
  | releases releasing =>
    simp only [reorder, releasing]
    exact sound.released releasing
  | pins => exact sound.pinned room _
  | unpins pinned => exact sound.unpinned pinned

end

end Sound

end Xv6.Disk.BufferCache

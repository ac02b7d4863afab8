import Xv6.Virtio.Protocol

/-! Every step of the driver and the device keeps the requests matched: from what one step does
to whole runs.
-/

namespace Xv6.Virtio

open Function Library

section

variable {ι β : Type} {s after : State ι β}

-- The queues when a request is done

/-- A request that is done leaves the queue of the device. -/
theorem sent_complete [DecidableEq β] {k : Nat} {request : Request β}
    (found : s.pending[k]? = some request)
    (status : request.status = .status request.head)
    : (request.head :: sent (s.complete k request)).Perm (sent s) := by
  obtain ⟨bound, taken⟩ := List.getElem?_eq_some_iff.mp found
  have erased : (request :: s.pending.eraseIdx k).Perm s.pending := by
    rw [← taken]
    exact List.getElem_cons_eraseIdx_perm bound
  have ring : sent (s.complete k request)
      = (ringContents s.disk.availRing s.lastAvail s.disk.availIdx).map BitVec.toNat
        ++ (s.pending.eraseIdx k).map Request.head := by
    unfold sent State.complete
    rw [complete_eq status]
  rw [ring]
  exact (List.perm_middle.symm).trans (List.Perm.append_left _ (erased.map Request.head))

variable [Fintype ι]

namespace Sound

variable {request : Request β}

section

variable (sound : Sound s)
include sound

theorem reported_complete [DecidableEq β] {k : Nat} (status : request.status = .status request.head)
    (small : request.head < NUM) (unreported : request.head ∉ reported s)
    : reported (s.complete k request) = reported s ++ [request.head] := by
  have room := sound.queues_room (List.sublist_append_right (sent s) (reported s)) small unreported
  rw [reported, List.length_map, ringContents_length] at room
  have pushed := ringContents_push (by decide) (by decide) s.disk.usedRing room
    (BitVec.ofNat 32 request.head)
  unfold reported State.complete
  rw [complete_eq status]
  rw [pushed, List.map_append, List.map_singleton, toNat_index small (by decide)]

-- The device

/-- The device reads the next entry of the avail ring. -/
theorem fetched (more : s.lastAvail ≠ s.disk.availIdx) : Sound s.fetch := by
  obtain ⟨h, popped, head, status⟩ := sound.next_request more
  have pending : s.fetch.pending = s.pending ++ [s.disk.request h] := by rw [← head]; rfl
  have queue : (sent s.fetch).Perm (sent s) := by
    have ring : sent s.fetch
        = (ringContents s.disk.availRing (s.lastAvail + 1) s.disk.availIdx).map BitVec.toNat
          ++ s.fetch.pending.map Request.head := rfl
    rw [ring, pending, sent, popped, List.map_cons, head, List.map_append, ← List.append_assoc]
    exact List.perm_append_comm
  have queues := queue.append_right (reported s)
  refine ⟨sound.owned, sound.small, sound.chains, sound.buffers, queues.nodup_iff.mpr sound.nodup,
    fun h' => queues.mem_iff.trans (sound.queued h'), ?_, sound.success, ?_⟩
  · intro request inside
    rw [pending] at inside
    rcases List.mem_append.mp inside with old | new
    · exact sound.statuses request old
    · rw [List.mem_singleton.mp new]
      exact status
  · intro c' b' i₀ j₁ j₂ flight'
    rw [queue.mem_iff]
    exact sound.completed c' b' i₀ j₁ j₂ flight'

/-- The device completes one of the requests it works on. -/
theorem completes [DecidableEq β] {k : Nat} (found : s.pending[k]? = some request)
    : Sound (s.complete k request) := by
  set now := s.complete k request
  have status := sound.statuses request (List.mem_of_getElem? found)
  have taken := sent_complete found status
  have member : request.head ∈ sent s := taken.subset List.mem_cons_self
  obtain ⟨c, owner⟩ := sound.queued_owner (List.mem_append_left _ member)
  have small := sound.small c _ owner
  obtain ⟨nodupSent, _, disjoint⟩ := List.nodup_append.mp sound.nodup
  have unreported : request.head ∉ reported s := fun reported =>
    disjoint _ member _ reported rfl
  have once : request.head ∉ sent now :=
    (List.nodup_cons.mp (taken.nodup_iff.mpr nodupSent)).1
  have added := sound.reported_complete (k := k) status small unreported
  have queues : (sent now ++ reported now).Perm
      (sent s ++ reported s) := by
    rw [added, ← List.append_assoc]
    refine List.perm_append_comm.trans ?_
    exact taken.append_right (reported s)
  have info : now.disk.info
      = update s.disk.info request.head
        { s.disk.info request.head with status := 0 } := by
    unfold now State.complete
    rw [complete_eq status]
  have same : now.disk.desc = s.disk.desc
      ∧ now.disk.free = s.disk.free := by
    unfold now State.complete
    rw [complete_eq status]
    exact ⟨rfl, rfl⟩
  refine ⟨?_, sound.small, ?_, sound.buffers, queues.nodup_iff.mpr sound.nodup,
    fun h => queues.mem_iff.trans (sound.queued h), ?_, ?_, ?_⟩
  · intro i small'
    rw [← sound.owned i small']
    simp only [tokens, same.2]
    rfl
  · intro c' b' i₀ i₁ i₂ flight
    refine (sound.chains c' b' i₀ i₁ i₂ flight).congr (fun i _ => by rw [same.1]) ?_
    rw [info]
    by_cases here : i₀ = request.head
    · rw [here, update_self]
    · rw [update_of_ne here]
  · intro request' inside
    exact sound.statuses request' (List.mem_of_mem_eraseIdx inside)
  · intro h inside
    rw [info]
    by_cases here : h = request.head
    · rw [here, update_self]
    · rw [update_of_ne here]
      rw [added] at inside
      rcases List.mem_append.mp inside with old | new
      · exact sound.success h old
      · exact (here (List.mem_singleton.mp new)).elim
  · intro c' b' i₀ i₁ i₂ (flight : s.point c' = .inFlight b' i₀ i₁ i₂)
    have before := sound.completed c' b' i₀ i₁ i₂ flight
    have left : i₀ ∈ sent s ↔ i₀ = request.head ∨ i₀ ∈ sent now := by
      rw [← taken.mem_iff, List.mem_cons]
    have done : now.completed c'
        = (s.completed c' || (some i₀ == some request.head)) := by
      change (s.completed c' || (s.point c').head == some request.head) = _
      rw [flight]
      rfl
    rw [done, Bool.or_eq_true, before, left]
    by_cases here : i₀ = request.head
    · simp [here, once]
    · simp [here]

-- The interrupt handler

/-- The handler takes the next completed request and tells its call. -/
theorem reap_run [DecidableEq β] (more : s.disk.seenIdx ≠ s.disk.usedIdx)
    : ∃ h c b i₁ i₂, s.point c = .inFlight b h i₁ i₂ ∧ s.busy b = true
      ∧ s.completed c = true
      ∧ s.reap = (.reaps h, { s with
          busy := update s.busy b false
          disk := { s.disk with seenIdx := s.disk.seenIdx + 1 } })
      ∧ reported s = h :: reported s.reap.2 := by
  obtain ⟨h, c, b, i₁, i₂, id, popped, flight, busy⟩ := sound.next_report more
  have inside : h ∈ reported s := by simp [popped]
  have done : s.completed c = true := by
    rw [sound.completed c b h i₁ i₂ flight]
    exact fun member => (List.nodup_append.mp sound.nodup).2.2 h member h inside rfl
  have reaped : s.reap = (.reaps h, { s with
      busy := update s.busy b false
      disk := { s.disk with seenIdx := s.disk.seenIdx + 1 } }) := by
    unfold State.reap
    simp only [id, sound.success h inside, (sound.chains c b h i₁ i₂ flight).buffer, ne_eq,
      not_true_eq_false, if_false]
  refine ⟨h, c, b, i₁, i₂, flight, busy, done, reaped, ?_⟩
  rw [reaped, popped]
  rfl

/-- Taking a completed request from the used ring keeps the driver sound. -/
theorem reaped [DecidableEq β] (more : s.disk.seenIdx ≠ s.disk.usedIdx) : Sound s.reap.2 := by
  obtain ⟨h, c, b, i₁, i₂, flight, busy, done, reaped, popped⟩ := sound.reap_run more
  have queues : (h :: (sent s ++ reported s.reap.2)).Perm (sent s ++ reported s) := by
    rw [popped]
    exact List.perm_middle.symm
  have out : h ∉ sent s ++ reported s.reap.2 :=
    (List.nodup_cons.mp (queues.nodup_iff.mpr sound.nodup)).1
  rw [reaped] at queues out popped ⊢
  refine ⟨sound.owned, sound.small, ?_, sound.buffers, ?_, ?_, sound.statuses, ?_,
    sound.completed⟩
  · intro c' b' j₀ j₁ j₂ flight'
    exact (sound.chains c' b' j₀ j₁ j₂ flight').congr (fun _ _ => rfl) rfl
  · exact (List.nodup_cons.mp (queues.nodup_iff.mpr sound.nodup)).2
  · intro h'
    have before := sound.queued h'
    rw [← queues.mem_iff, List.mem_cons] at before
    constructor
    · intro inside
      obtain ⟨c', b', j₁, j₂, flight', busy'⟩ := before.mp (.inr inside)
      refine ⟨c', b', j₁, j₂, flight', ?_⟩
      have apart : b' ≠ b := by
        rintro rfl
        have same := sound.buffers c' c b' (by rw [flight']; rfl) (by rw [flight]; rfl)
        subst same
        rw [flight] at flight'
        cases flight'
        exact out inside
      exact (update_of_ne apart _ _).trans busy'
    · rintro ⟨c', b', j₁, j₂, flight', busy'⟩
      have apart : b' ≠ b := by
        rintro rfl
        exact Bool.noConfusion ((update_self b' false s.busy).symm.trans busy')
      have busy'' : s.busy b' = true := (update_of_ne apart _ _).symm.trans busy'
      refine (before.mpr ⟨c', b', j₁, j₂, flight', busy''⟩).resolve_left ?_
      rintro rfl
      exact apart (sound.same_flight flight' flight).2
  · intro h' inside
    exact sound.success h' (by rw [popped]; exact List.mem_cons_of_mem h inside)

end

end Sound

-- Sending a request

namespace Sound

theorem starts_alone (sound : Sound s) {action : Action ι β} {c : ι} {b : β} {write : Bool}
    {sector : BitVec 64} (starts : Starts s action c b write sector)
    : (s.point c).descs = [] ∧ (s.point c).head = none
      ∧ ∀ c', c' ≠ c → (s.point c').buffer ≠ some b := by
  cases starts with
  | first idle alone => exact ⟨by rw [idle]; rfl, by rw [idle]; rfl, fun c' _ => alone c'⟩
  | again waiting =>
    refine ⟨by rw [waiting]; rfl, by rw [waiting]; rfl, fun c' other same => other ?_⟩
    exact sound.buffers c' c b same (by rw [waiting]; rfl)

end Sound

variable [DecidableEq ι]

theorem tokens_trade {s' : State ι β} {c : ι} {point : Point β}
    (points : s'.point = update s.point c point) {i : Nat}
    (balance : (s'.disk.free i).toNat + point.descs.count i
      = (s.disk.free i).toNat + (s.point c).descs.count i)
    : tokens s' i = tokens s i := by
  have moved := sum_update (fun _ (point : Point β) => point.descs.count i) s.point c point
  unfold tokens
  rw [points]
  omega

namespace Sound

variable {c : ι} {b : β} {write : Bool} {sector : BitVec 64} {i₀ i₁ i₂ : Nat}

section

variable (sound : Sound s)
include sound

/-- The buffers of the calls stay different when a call works on one that no other has. -/
theorem buffers_goTo {point : Point β}
    (alone : ∀ c' b, c' ≠ c → point.buffer = some b → (s.point c').buffer ≠ some b)
    : ∀ c₁ c₂ b, (update s.point c point c₁).buffer = some b
      → (update s.point c point c₂).buffer = some b → c₁ = c₂ := by
  intro c₁ c₂ b first second
  by_cases here₁ : c₁ = c
  · by_cases here₂ : c₂ = c
    · rw [here₁, here₂]
    · rw [here₁, update_self] at first
      rw [update_of_ne here₂] at second
      exact (alone c₂ b here₂ first second).elim
  · rw [update_of_ne here₁] at first
    by_cases here₂ : c₂ = c
    · rw [here₂, update_self] at second
      exact (alone c₁ b here₁ second first).elim
    · rw [update_of_ne here₂] at second
      exact sound.buffers c₁ c₂ b first second

/-- The new request is the last one in the avail ring. -/
theorem sent_submitted [DecidableEq β] (small : i₀ < NUM) (fresh : i₀ ∉ sent s ++ reported s)
    : sent (s.submitted c b write sector i₀ i₁ i₂)
      = (ringContents s.disk.availRing s.lastAvail s.disk.availIdx).map BitVec.toNat ++ [i₀]
        ++ s.pending.map Request.head := by
  have part : ((ringContents s.disk.availRing s.lastAvail s.disk.availIdx).map
      BitVec.toNat).Sublist (sent s ++ reported s) :=
    (List.sublist_append_left _ _).trans (List.sublist_append_left _ _)
  have room := sound.queues_room part small fun inside => fresh (part.subset inside)
  rw [List.length_map, ringContents_length] at room
  have pushed := ringContents_push (by decide) (by decide) s.disk.availRing room
    (BitVec.ofNat 16 i₀)
  have ring : ringContents (s.submitted c b write sector i₀ i₁ i₂).disk.availRing s.lastAvail
      (s.submitted c b write sector i₀ i₁ i₂).disk.availIdx
      = ringContents s.disk.availRing s.lastAvail s.disk.availIdx ++ [BitVec.ofNat 16 i₀] := pushed
  change (ringContents (s.submitted c b write sector i₀ i₁ i₂).disk.availRing s.lastAvail
    (s.submitted c b write sector i₀ i₁ i₂).disk.availIdx).map _ ++ _ = _
  rw [ring, List.map_append, List.map_singleton, toNat_index small (by decide)]
  rfl

/-- Handing three descriptors to the device keeps the driver sound. -/
theorem submitted [DecidableEq β] {action : Action ι β} (starts : Starts s action c b write sector)
    (takes : Takes s.disk.free [i₀, i₁, i₂])
    : Sound (s.submitted c b write sector i₀ i₁ i₂) := by
  set now := s.submitted c b write sector i₀ i₁ i₂
  obtain ⟨noDescs, noHead, alone⟩ := sound.starts_alone starts
  have small₀ := takes.small i₀ (by simp)
  have others : ∀ c', c' ≠ c → now.point c' = s.point c' :=
    fun c' other => update_of_ne other _ _
  have own : now.point c = .inFlight b i₀ i₁ i₂ :=
    update_self _ _ _
  -- The new descriptors were free, so no call in flight uses them.
  have unused : ∀ c', ∀ i ∈ (s.point c').descs, i ∉ [i₀, i₁, i₂] := by
    intro c' i member new
    have taken := sound.not_free member
    rw [takes.free i new] at taken
    cases taken
  have fresh : i₀ ∉ sent s ++ reported s := by
    intro member
    obtain ⟨c', owner⟩ := sound.queued_owner member
    exact unused c' i₀ owner (by simp)
  have queue : (sent now ++ reported s).Perm
      (i₀ :: (sent s ++ reported s)) := by
    rw [sound.sent_submitted small₀ fresh, sent]
    simp only [List.append_assoc, List.singleton_append]
    exact List.perm_middle
  have chain := format_chain { s.disk with free := without s.disk.free [i₀, i₁, i₂] } b write
    sector takes.nodup takes.small
  refine ⟨?_, ?_, ?_, ?_, ?_, ?_, sound.statuses, ?_, ?_⟩
  · intro i small
    rw [← sound.owned i small]
    refine tokens_trade rfl ?_
    rw [noDescs, List.count_nil]
    exact takes.balance i
  · intro c' i member
    by_cases here : c' = c
    · rw [here, own] at member
      exact takes.small i member
    · rw [others c' here] at member
      exact sound.small c' i member
  · intro c' b' j₀ j₁ j₂ flight
    by_cases here : c' = c
    · rw [here, own] at flight
      cases flight
      exact chain
    · rw [others c' here] at flight
      have owned : ∀ i ∈ [j₀, j₁, j₂], i ∉ [i₀, i₁, i₂] := by
        intro i member
        exact unused c' i (by rw [flight]; exact member)
      refine (sound.chains c' b' j₀ j₁ j₂ flight).congr ?_ ?_
      · exact fun i member => format_desc_other (owned i member)
      · have apart : j₀ ≠ i₀ := fun same => owned j₀ (by simp) (by simp [same])
        exact congrArg Info.b (format_info_other apart)
  · exact sound.buffers_goTo fun c' b' other same => by
      cases same
      exact alone c' other
  · exact (queue.nodup_iff).mpr (List.nodup_cons.mpr ⟨fresh, sound.nodup⟩)
  · intro h
    change h ∈ sent now ++ reported s ↔ _
    rw [queue.mem_iff, List.mem_cons, sound.queued h]
    constructor
    · rintro (rfl | ⟨c', b', j₁, j₂, flight, busy⟩)
      · exact ⟨c, b, i₁, i₂, own, update_self _ _ _⟩
      · have other : c' ≠ c := by
          rintro rfl
          rw [flight] at noHead
          cases noHead
        refine ⟨c', b', j₁, j₂, (others c' other).trans flight, ?_⟩
        have apart : b' ≠ b := by
          rintro rfl
          exact alone c' other (by rw [flight]; rfl)
        exact (update_of_ne apart _ _).trans busy
    · rintro ⟨c', b', j₁, j₂, flight, busy⟩
      by_cases here : c' = c
      · rw [here, own] at flight
        cases flight
        exact .inl rfl
      · rw [others c' here] at flight
        have apart : b' ≠ b := by
          rintro rfl
          exact alone c' here (by rw [flight]; rfl)
        exact .inr ⟨c', b', j₁, j₂, flight, (update_of_ne apart _ _).symm.trans busy⟩
  · intro h member
    have other : h ≠ i₀ := by
      rintro rfl
      exact fresh (List.mem_append_right _ member)
    change (((_ : Disk β).info h).status) = 0
    rw [show now.disk.info h = s.disk.info h from
      format_info_other other]
    exact sound.success h member
  · intro c' b' j₀ j₁ j₂ flight
    have sentNow : ∀ h, h ∈ sent now ↔ h = i₀ ∨ h ∈ sent s := by
      intro h
      rw [sound.sent_submitted small₀ fresh, sent]
      simp only [List.mem_append, List.mem_singleton]
      tauto
    rw [sentNow]
    by_cases here : c' = c
    · rw [here, own] at flight
      cases flight
      rw [here]
      have reset : now.completed c = false :=
        update_self _ _ _
      simp [reset]
    · rw [others c' here] at flight
      have kept : now.completed c' = s.completed c' :=
        update_of_ne here _ _
      have apart : j₀ ≠ i₀ := fun same =>
        unused c' j₀ (by simp [flight, Point.descs]) (by simp [same])
      rw [kept, sound.completed c' b' j₀ j₁ j₂ flight]
      simp [apart]

/-- A call that owned nothing still owns nothing. -/
theorem refused {action : Action ι β} {tried : List Nat} (starts : Starts s action c b write sector)
    (takes : Takes s.disk.free tried)
    : Sound (s.refused c b write sector tried) := by
  set now := s.refused c b write sector tried
  obtain ⟨noDescs, noHead, alone⟩ := sound.starts_alone starts
  have flights : ∀ c' b' i₀ i₁ i₂,
      now.point c' = .inFlight b' i₀ i₁ i₂
      ↔ s.point c' = .inFlight b' i₀ i₁ i₂ := by
    intro c' b' i₀ i₁ i₂
    by_cases here : c' = c
    · subst here
      have own : now.point c' = .waiting b write sector :=
        update_self _ _ _
      rw [own]
      constructor
      · exact fun same => by cases same
      · intro same
        rw [same] at noHead
        cases noHead
    · rw [show now.point c' = s.point c' from
        update_of_ne here _ _]
  refine ⟨?_, ?_, ?_, ?_, sound.nodup, ?_, sound.statuses, sound.success, ?_⟩
  · intro i small
    rw [← sound.owned i small]
    refine tokens_trade rfl ?_
    rw [noDescs]
    rfl
  · intro c' i member
    by_cases here : c' = c
    · rw [here, show now.point c = .waiting b write sector from
        update_self _ _ _] at member
      exact (List.not_mem_nil member).elim
    · rw [show now.point c' = s.point c' from
        update_of_ne here _ _] at member
      exact sound.small c' i member
  · intro c' b' i₀ i₁ i₂ flight
    rw [flights] at flight
    refine (sound.chains c' b' i₀ i₁ i₂ flight).congr (fun i member => ?_) rfl
    have out : i ∉ tried := by
      intro inside
      have taken := sound.not_free (c := c') (i := i) (by rw [flight]; exact member)
      rw [takes.free i inside] at taken
      cases taken
    exact if_neg out
  · exact sound.buffers_goTo fun c' b' other same => by
      cases same
      exact alone c' other
  · intro h
    simp only [flights]
    exact sound.queued h
  · intro c' b' i₀ i₁ i₂ flight
    rw [flights] at flight
    exact sound.completed c' b' i₀ i₁ i₂ flight

-- Returning

/-- A call that is not waited for any more has been completed, and gives its chain back. -/
theorem finish_run (flight : s.point c = .inFlight b i₀ i₁ i₂) (idle : s.busy b = false)
    : i₀ ∉ sent s ++ reported s
      ∧ s.finish c b i₀ = (.returns, { s.goTo c .idle with
          disk := { s.disk with
            info := update s.disk.info i₀ { s.disk.info i₀ with b := none }
            desc := fun i => if i ∈ [i₀, i₁, i₂] then {} else s.disk.desc i
            free := fun i => decide (i ∈ [i₀, i₁, i₂]) || s.disk.free i } }) := by
  have descs : (s.point c).descs = [i₀, i₁, i₂] := by rw [flight]; rfl
  constructor
  · intro member
    obtain ⟨c', b', j₁, j₂, flight', busy⟩ := (sound.queued i₀).mp member
    rw [(sound.same_flight flight' flight).2, idle] at busy
    cases busy
  · have chain := sound.chains c b i₀ i₁ i₂ flight
    have freed := freeChain_run
      { s.disk with info := update s.disk.info i₀ { s.disk.info i₀ with b := none } }
      ⟨chain.first, chain.second, chain.goesOn, chain.third, chain.last⟩
      (descs ▸ sound.own_nodup c) (fun i member => sound.small c i (descs ▸ member))
      (fun i member => sound.not_free (c := c) (descs ▸ member))
    unfold State.finish
    rw [if_neg (by simp [idle])]
    dsimp only
    rw [freed, foldl_freed]

/-- Freeing the chain of a finished request keeps the driver sound. -/
theorem finished (flight : s.point c = .inFlight b i₀ i₁ i₂) (idle : s.busy b = false)
    : Sound (s.finish c b i₀).2 := by
  obtain ⟨out, run⟩ := sound.finish_run flight idle
  have descs : (s.point c).descs = [i₀, i₁, i₂] := by rw [flight]; rfl
  rw [run]
  have flights : ∀ c' b' j₀ j₁ j₂, (s.goTo c .idle).point c' = .inFlight b' j₀ j₁ j₂
      ↔ c' ≠ c ∧ s.point c' = .inFlight b' j₀ j₁ j₂ := by
    intro c' b' j₀ j₁ j₂
    by_cases here : c' = c
    · simp [State.goTo, here]
    · simp [State.goTo, here]
  refine ⟨?_, ?_, ?_, ?_, sound.nodup, ?_, sound.statuses, ?_, ?_⟩
  · intro i small
    rw [← sound.owned i small]
    refine tokens_trade (c := c) (rfl : _ = update s.point c .idle) ?_
    rw [descs]
    change (decide (i ∈ [i₀, i₁, i₂]) || s.disk.free i).toNat + 0 = _
    by_cases member : i ∈ [i₀, i₁, i₂]
    · have once : [i₀, i₁, i₂].count i = 1 :=
        List.count_eq_one_of_mem (descs ▸ sound.own_nodup c) member
      have taken : s.disk.free i = false := sound.not_free (c := c) (descs ▸ member)
      rw [decide_eq_true member, once, taken]
      rfl
    · rw [decide_eq_false member, List.count_eq_zero_of_not_mem member]
      rfl
  · intro c' i member
    by_cases here : c' = c
    · simp [State.goTo, here, Point.descs] at member
    · simp only [State.goTo, update_of_ne here] at member
      exact sound.small c' i member
  · intro c' b' j₀ j₁ j₂ flight'
    obtain ⟨other, flight'⟩ := (flights c' b' j₀ j₁ j₂).mp flight'
    have apart : ∀ i ∈ [j₀, j₁, j₂], i ∉ [i₀, i₁, i₂] := by
      intro i member inside
      exact other (sound.owner_unique (i := i) (by rw [flight']; exact member)
        (by rw [flight]; exact inside))
    refine (sound.chains c' b' j₀ j₁ j₂ flight').congr (fun i member => if_neg (apart i member)) ?_
    have differ : j₀ ≠ i₀ := fun same => apart j₀ (by simp) (by simp [same])
    exact congrArg Info.b (update_of_ne differ _ _)
  · exact sound.buffers_goTo fun c' b' other same => by cases same
  · intro h
    simp only [flights]
    constructor
    · intro member
      obtain ⟨c', b', j₁, j₂, flight', busy⟩ := (sound.queued h).mp member
      refine ⟨c', b', j₁, j₂, ⟨?_, flight'⟩, busy⟩
      rintro rfl
      rw [flight] at flight'
      cases flight'
      exact out member
    · rintro ⟨c', b', j₁, j₂, ⟨_, flight'⟩, busy⟩
      exact (sound.queued h).mpr ⟨c', b', j₁, j₂, flight', busy⟩
  · intro h member
    have differ : h ≠ i₀ := by
      rintro rfl
      exact out (List.mem_append_right _ member)
    exact (congrArg Info.status (update_of_ne differ _ _)).trans (sound.success h member)
  · intro c' b' j₀ j₁ j₂ flight'
    exact sound.completed c' b' j₀ j₁ j₂ ((flights c' b' j₀ j₁ j₂).mp flight').2

/-- Each step of the driver and of the device keeps the driver sound. -/
theorem step [DecidableEq β] {entry : Action ι β × Outcome} (taken : Step s entry after)
    : Sound after := by
  cases taken.change with
  | submits starts takes => exact sound.submitted starts takes
  | refused starts takes => exact sound.refused starts takes
  | sleeps => exact sound
  | finishes flight idle => exact sound.finished flight idle
  | enters | leaves =>
    exact ⟨sound.owned, sound.small, sound.chains, sound.buffers, sound.nodup, sound.queued,
      sound.statuses, sound.success, sound.completed⟩
  | reaps more => exact sound.reaped more
  | fetches more => exact sound.fetched more
  | completes found => exact sound.completes found

end

end Sound

end

-- The virtio request protocol over whole runs, from `virtio_disk_init` on.

variable {ι β : Type} {s after : State ι β}

def Point.isWaiting : Point β → Bool
  | .waiting _ _ _ => true
  | _ => false

def Point.isInFlight : Point β → Bool
  | .inFlight _ _ _ _ => true
  | _ => false

theorem Point.isWaiting_iff {point : Point β}
    : point.isWaiting = true ↔ ∃ b write sector, point = .waiting b write sector := by
  cases point <;> simp [Point.isWaiting]

theorem Point.isInFlight_iff {point : Point β}
    : point.isInFlight = true ↔ ∃ b i₀ i₁ i₂, point = .inFlight b i₀ i₁ i₂ := by
  cases point <;> simp [Point.isInFlight]

theorem length_descs (point : Point β) : point.descs.length = 3 * point.isInFlight.toNat := by
  cases point <;> rfl

variable [Fintype ι]

-- Descriptors in flight and free ones

def freeDescs (s : State ι β) : Nat :=
  countWhere id fun i : Fin NUM => s.disk.free i

def flights (s : State ι β) : Nat :=
  countWhere Point.isInFlight s.point

/-- Every descriptor is free or in one of the chains of three in flight. -/
theorem Sound.balance (sound : Sound s) : freeDescs s + 3 * flights s = NUM := by
  have owners : ∑ i : Fin NUM, tokens s i = NUM := by
    simp [sound.owned _ (Fin.isLt _)]
  have chain : ∀ c, ∑ i : Fin NUM, (s.point c).descs.count i.val = (s.point c).descs.length := by
    intro c
    rw [Fin.sum_univ_eq_sum_range (fun i => (s.point c).descs.count i)]
    have members : ∀ i ∈ (↑(s.point c).descs : Multiset Nat), i ∈ Finset.range NUM :=
      fun i member => Finset.mem_range.mpr (sound.small c i member)
    simpa using Multiset.sum_count_eq_card members
  calc freeDescs s + 3 * flights s
      = ∑ i : Fin NUM, (s.disk.free i).toNat + ∑ c, (s.point c).descs.length := by
        simp only [length_descs, ← Finset.mul_sum]
        rfl
    _ = ∑ i : Fin NUM, (s.disk.free i).toNat
          + ∑ i : Fin NUM, ∑ c, (s.point c).descs.count i.val := by
        rw [Finset.sum_comm]
        simp only [chain]
    _ = NUM := by
        rw [← Finset.sum_add_distrib]
        exact owners

-- Runs

/-- After `virtio_disk_init` every descriptor is free and no request is under way. -/
theorem Booted.sound (booted : Booted s) : Sound s := by
  obtain ⟨free, avail, used, seen, read, pending, _, idle, _⟩ := booted
  have queues : sent s = [] ∧ reported s = [] := by
    simp [sent, reported, avail, used, seen, read, pending]
  have none : ∀ c b i₀ i₁ i₂, s.point c ≠ .inFlight b i₀ i₁ i₂ := by
    intro c b i₀ i₁ i₂ flight
    rw [idle c] at flight
    cases flight
  refine ⟨?_, ?_, ?_, ?_, ?_, ?_, ?_, ?_, ?_⟩
  · intro i small
    simp [tokens, free i small, idle, Point.descs]
  · intro c i member
    rw [idle c] at member
    exact (List.not_mem_nil member).elim
  · exact fun c b i₀ i₁ i₂ flight => (none c b i₀ i₁ i₂ flight).elim
  · intro c c' b here
    rw [idle c] at here
    cases here
  · simp [queues]
  · simp [queues, none]
  · simp [pending]
  · simp [queues]
  · exact fun c b i₀ i₁ i₂ flight => (none c b i₀ i₁ i₂ flight).elim

variable [DecidableEq ι] [DecidableEq β] {history : List ((Action ι β × Outcome) × State ι β)}

/-- The driver is sound after every run from boot. -/
theorem Sound.run {start final : State ι β} (booted : Booted start)
    (run : Run Step start history final)
    : Sound final := by
  induction run with
  | nil => exact booted.sound
  | next _ taken ih => exact ih.step taken

-- What a step tells

namespace Sound

/-- A sound driver takes no step to a panic. -/
theorem no_panic (sound : Sound s) {entry : Action ι β × Outcome} (taken : Step s entry after)
    (message : String)
    : entry.2 ≠ .panics message := by
  intro outcome
  cases taken.change with
  | finishes flight idle =>
    rw [(sound.finish_run flight idle).2] at outcome
    cases outcome
  | reaps more =>
    obtain ⟨h, c, b, i₁, i₂, _, _, _, reaped, _⟩ := sound.reap_run more
    rw [reaped] at outcome
    cases outcome
  | _ => cases outcome

/-- A call that returns has been completed by the device. -/
theorem returns_completed (sound : Sound s) {c : ι} (taken : Step s (.resume c, .returns) after)
    : s.completed c = true := by
  generalize same : (Action.resume c, Outcome.returns) = entry at taken
  cases taken.change with
  | @finishes c' b i₀ i₁ i₂ flight idle =>
    have here : c = c' := Action.resume.inj (congrArg Prod.fst same)
    rw [here, sound.completed c' b i₀ i₁ i₂ flight]
    intro member
    exact (sound.finish_run flight idle).1 (List.mem_append_left _ member)
  | reaps more =>
    have action : Action.resume c = Action.intrNext := congrArg Prod.fst same
    cases action
  | _ => cases same

/-- The handler clears `b->disk` of the call whose request was completed. -/
theorem reaps_owner (sound : Sound s) {action : Action ι β} {id : Nat}
    (taken : Step s (action, .reaps id) after)
    : ∃ c b i₁ i₂, s.point c = .inFlight b id i₁ i₂ ∧ s.completed c = true ∧ s.busy b = true
      ∧ after.busy = update s.busy b false := by
  generalize same : (action, Outcome.reaps id) = entry at taken
  cases taken.change with
  | finishes flight idle =>
    rw [(sound.finish_run flight idle).2] at same
    cases same
  | reaps more =>
    obtain ⟨h, c, b, i₁, i₂, flight, busy, done, reaped, _⟩ := sound.reap_run more
    rw [reaped] at same ⊢
    cases same
    exact ⟨c, b, i₁, i₂, flight, done, busy, rfl⟩
  | _ => cases same

/-- Only the handler clears `b->disk`. -/
theorem cleared_by_handler (sound : Sound s) {entry : Action ι β × Outcome}
    (taken : Step s entry after) {b : β} (busy : s.busy b = true) (clear : after.busy b = false)
    : ∃ id, entry = (.intrNext, .reaps id) := by
  cases taken.change with
  | @submits _ c b' _ _ _ _ _ starts takes =>
    have kept : update s.busy b' true b = true := by
      by_cases here : b = b'
      · rw [here, update_self]
      · rw [update_of_ne here, busy]
    exact Bool.noConfusion (kept.symm.trans clear)
  | finishes flight idle =>
    rw [(sound.finish_run flight idle).2] at clear
    exact Bool.noConfusion (busy.symm.trans clear)
  | reaps more =>
    obtain ⟨h, _, _, _, _, _, _, _, reaped, _⟩ := sound.reap_run more
    exact ⟨h, by rw [reaped]⟩
  | _ => exact Bool.noConfusion (busy.symm.trans clear)

/-- A call that goes to sleep leaves the free set as it was. -/
theorem sleeps_free (sound : Sound s) {action : Action ι β} (taken : Step s (action, .sleeps) after)
    : after.disk.free = s.disk.free := by
  generalize same : (action, Outcome.sleeps) = entry at taken
  cases taken.change with
  | refused starts takes => rfl
  | sleeps => rfl
  | finishes flight idle =>
    rw [(sound.finish_run flight idle).2] at same
    cases same
  | reaps more =>
    obtain ⟨h, _, _, _, _, _, _, _, reaped, _⟩ := sound.reap_run more
    rw [reaped] at same
    cases same
  | _ => cases same

end Sound

/-- Every request in flight owns a chain of three descriptors that no other request has and that
are not free, descriptors in flight and free ones number `NUM`, no step panics, a call returns
after the device has completed its request, the handler clears `b->disk` of the buffer whose
request was completed and nothing else does, and a call that finds too few descriptors leaves
the free set as it was.
-/
theorem requests_match_completions {start final : State ι β} (booted : Booted start)
    (run : Run Step start history final)
    : (∀ c b i₀ i₁ i₂, final.point c = .inFlight b i₀ i₁ i₂
        → [i₀, i₁, i₂].Nodup ∧ Linked final.disk i₀ i₁ i₂
          ∧ ∀ i ∈ [i₀, i₁, i₂], i < NUM ∧ final.disk.free i = false
            ∧ ∀ c', c' ≠ c → i ∉ (final.point c').descs)
      ∧ freeDescs final + 3 * flights final = NUM
      ∧ ∀ entry after, Step final entry after
        → (∀ message, entry.2 ≠ .panics message)
          ∧ (∀ c, entry = (.resume c, .returns) → final.completed c = true)
          ∧ (∀ id, entry.2 = .reaps id
            → ∃ c b i₁ i₂, final.point c = .inFlight b id i₁ i₂ ∧ final.completed c = true
              ∧ final.busy b = true ∧ after.busy = update final.busy b false)
          ∧ (∀ b, final.busy b = true → after.busy b = false
            → ∃ id, entry = (.intrNext, .reaps id))
          ∧ (entry.2 = .sleeps → after.disk.free = final.disk.free) := by
  have sound := Sound.run booted run
  refine ⟨?_, sound.balance, ?_⟩
  · intro c b i₀ i₁ i₂ flight
    have descs : (final.point c).descs = [i₀, i₁, i₂] := by rw [flight]; rfl
    refine ⟨descs ▸ sound.own_nodup c, (sound.chains c b i₀ i₁ i₂ flight).toLinked, ?_⟩
    intro i member
    rw [← descs] at member
    refine ⟨sound.small c i member, sound.not_free member, fun c' other member' => ?_⟩
    exact other (sound.owner_unique member' member)
  · rintro ⟨action, outcome⟩ after taken
    refine ⟨sound.no_panic taken, ?_, ?_, fun b => sound.cleared_by_handler taken, ?_⟩
    · rintro c ⟨⟩
      exact sound.returns_completed taken
    · rintro id ⟨⟩
      exact sound.reaps_owner taken
    · rintro ⟨⟩
      exact sound.sleeps_free taken

instance (s : State ι β) : (action : Action ι β) → Decidable (Enabled s action)
  | .rw c b _ _ =>
    inferInstanceAs (Decidable (s.handler = false ∧ s.point c = .idle
      ∧ ∀ c', (s.point c').buffer ≠ some b))
  | .retry c =>
    decidable_of_iff (s.handler = false ∧ (s.point c).isWaiting = true)
      (and_congr_right fun _ => Point.isWaiting_iff)
  | .resume c =>
    decidable_of_iff (s.handler = false ∧ (s.point c).isInFlight = true)
      (and_congr_right fun _ => Point.isInFlight_iff)
  | .intrEnter => inferInstanceAs (Decidable (s.handler = false))
  | .intrNext => inferInstanceAs (Decidable (s.handler = true ∧ s.disk.seenIdx ≠ s.disk.usedIdx))
  | .intrLeave => inferInstanceAs (Decidable (s.handler = true ∧ s.disk.seenIdx = s.disk.usedIdx))
  | .fetch => inferInstanceAs (Decidable (s.lastAvail ≠ s.disk.availIdx))
  | .complete k => inferInstanceAs (Decidable (k < s.pending.length))

/-- The driver after `virtio_disk_init`, with three calls and three buffers. -/
def freshDisk : State (Fin 3) (Fin 3) where
  disk := {
    desc := fun _ => {}
    availIdx := 0
    availRing := fun _ => 0
    usedIdx := 0
    usedRing := fun _ => 0
    free := fun i => decide (i < NUM)
    seenIdx := 0
    info := fun _ => {}
    ops := fun _ => {} }
  busy _ := false
  point _ := .idle
  handler := false
  lastAvail := 0
  pending := []
  completed _ := false

theorem freshDisk_booted : Booted freshDisk :=
  ⟨fun _ small => decide_eq_true small, rfl, rfl, rfl, rfl, rfl, fun _ => rfl, fun _ => rfl, rfl⟩

/-- The third call finds two descriptors only and sleeps; the second request is completed before
the first one, and the third call gets its chain.
-/
def outOfOrder {ι : Type} (a b c : ι) : List (Action ι ι × Outcome) :=
  [(.rw a a 7 false, .submits), (.rw b b 8 true, .submits), (.rw c c 9 false, .sleeps),
    (.fetch, .done), (.fetch, .done), (.complete 1, .done), (.intrEnter, .done),
    (.intrNext, .reaps 3), (.intrLeave, .done), (.resume a, .sleeps), (.resume b, .returns),
    (.retry c, .submits)]

theorem outOfOrder_follows
    : Follows (guarded Enabled State.run) freshDisk (outOfOrder 0 1 2)
        (fun _ final => final.point 0 = .inFlight 0 0 1 2 ∧ final.point 1 = .idle
          ∧ final.point 2 = .inFlight 2 3 4 5) := by
  decide +kernel

theorem third_call_reuses_the_chain
    : ∃ history final, Run Step freshDisk history final ∧ steps history = outOfOrder 0 1 2
      ∧ final.point 0 = .inFlight 0 0 1 2 ∧ final.point 1 = .idle
      ∧ final.point 2 = .inFlight 2 3 4 5 ∧ Linked final.disk 3 4 5
      ∧ freeDescs final + 3 * flights final = NUM := by
  obtain ⟨history, final, run, same, first, second, third⟩ := outOfOrder_follows.toRun
  obtain ⟨chains, balance, _⟩ := requests_match_completions freshDisk_booted run
  exact ⟨history, final, run, same, first, second, third, (chains 2 2 3 4 5 third).2.1, balance⟩

end Xv6.Virtio

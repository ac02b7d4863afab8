import Xv6.Virtio.Descriptors

/-! The virtio request protocol over every run: each request in flight owns a chain of three
descriptors, stands in exactly one of the queues between the driver and the device, and its call
returns after the device has completed it.
-/

namespace Xv6.Virtio

open Function Library

variable {ι β : Type} {s after : State ι β}

-- Descriptors and queues

/-- The descriptors a call owns. -/
def Point.descs : Point β → List Nat
  | .inFlight _ i₀ i₁ i₂ => [i₀, i₁, i₂]
  | _ => []

/-- The owners of a descriptor: the free set and the calls in flight. -/
def tokens [Fintype ι] (s : State ι β) (i : Nat) : Nat :=
  (s.disk.free i).toNat + ∑ c, (s.point c).descs.count i

structure Sound [Fintype ι] (s : State ι β) : Prop where
  owned : ∀ i, i < NUM → tokens s i = 1
  small : ∀ c, ∀ i ∈ (s.point c).descs, i < NUM
  chains : ∀ c b i₀ i₁ i₂, s.point c = .inFlight b i₀ i₁ i₂ → Chain s.disk b i₀ i₁ i₂
  buffers : ∀ c c' b, (s.point c).buffer = some b → (s.point c').buffer = some b → c = c'
  nodup : (sent s ++ reported s).Nodup
  queued : ∀ h, h ∈ sent s ++ reported s
    ↔ ∃ c b i₁ i₂, s.point c = .inFlight b h i₁ i₂ ∧ s.busy b = true
  statuses : ∀ request ∈ s.pending, request.status = .status request.head
  success : ∀ h ∈ reported s, (s.disk.info h).status = 0
  completed : ∀ c b i₀ i₁ i₂, s.point c = .inFlight b i₀ i₁ i₂
    → (s.completed c = true ↔ i₀ ∉ sent s)

namespace Sound

variable [Fintype ι] {c : ι} {h : Nat}

section

variable (sound : Sound s)
include sound

theorem count_le (c : ι) (i : Nat) : (s.point c).descs.count i ≤ 1 := by
  by_cases small : i < NUM
  · have one := sound.owned i small
    have bound : (s.point c).descs.count i ≤ ∑ c, (s.point c).descs.count i :=
      Finset.single_le_sum (f := fun c => (s.point c).descs.count i) (fun _ _ => Nat.zero_le _)
        (Finset.mem_univ c)
    unfold tokens at one
    omega
  · have absent : i ∉ (s.point c).descs := fun member => small (sound.small c i member)
    rw [List.count_eq_zero_of_not_mem absent]
    exact Nat.zero_le 1

theorem own_nodup (c : ι) : (s.point c).descs.Nodup :=
  List.nodup_iff_count_le_one.mpr (sound.count_le c)

/-- A descriptor in use is not free. -/
theorem not_free {i : Nat} (member : i ∈ (s.point c).descs) : s.disk.free i = false := by
  have one := sound.owned i (sound.small c i member)
  have positive : 0 < (s.point c).descs.count i := List.count_pos_iff.mpr member
  have bound : (s.point c).descs.count i ≤ ∑ c, (s.point c).descs.count i :=
    Finset.single_le_sum (f := fun c => (s.point c).descs.count i) (fun _ _ => Nat.zero_le _)
      (Finset.mem_univ c)
  unfold tokens at one
  cases free : s.disk.free i with
  | false => rfl
  | true =>
    rw [free, Bool.toNat_true] at one
    omega

/-- A descriptor is in use by one call only. -/
theorem owner_unique {c' : ι} {i : Nat} (member : i ∈ (s.point c).descs)
    (member' : i ∈ (s.point c').descs)
    : c = c' := by
  by_contra differ
  have one := sound.owned i (sound.small c i member)
  have positive : 0 < (s.point c).descs.count i := List.count_pos_iff.mpr member
  have positive' : 0 < (s.point c').descs.count i := List.count_pos_iff.mpr member'
  have bound : (s.point c).descs.count i + (s.point c').descs.count i
      ≤ ∑ c, (s.point c).descs.count i :=
    Finset.add_le_sum (f := fun c => (s.point c).descs.count i) (fun _ _ => Nat.zero_le _)
      (Finset.mem_univ c) (Finset.mem_univ c') differ
  unfold tokens at one
  omega

theorem same_flight {c' : ι} {b b' : β} {i₁ i₂ j₁ j₂ : Nat}
    (flight : s.point c = .inFlight b h i₁ i₂) (flight' : s.point c' = .inFlight b' h j₁ j₂)
    : c = c' ∧ b = b' := by
  have member : h ∈ (s.point c).descs := by simp [flight, Point.descs]
  have member' : h ∈ (s.point c').descs := by simp [flight', Point.descs]
  have same := sound.owner_unique member member'
  subst same
  rw [flight] at flight'
  cases flight'
  exact ⟨rfl, rfl⟩

theorem queued_owner (member : h ∈ sent s ++ reported s) : ∃ c, h ∈ (s.point c).descs := by
  obtain ⟨c, b, i₁, i₂, flight, _⟩ := (sound.queued h).mp member
  exact ⟨c, by simp [flight, Point.descs]⟩

theorem queues_room {l : List Nat} (part : l.Sublist (sent s ++ reported s)) (small : h < NUM)
    (fresh : h ∉ l)
    : l.length < NUM := by
  have nodup : (h :: l).Nodup := List.nodup_cons.mpr ⟨fresh, part.nodup sound.nodup⟩
  have below : h :: l ⊆ List.range NUM := by
    intro i member
    rcases List.mem_cons.mp member with rfl | inside
    · exact List.mem_range.mpr small
    · obtain ⟨c, owner⟩ := sound.queued_owner (part.subset inside)
      exact List.mem_range.mpr (sound.small c i owner)
  have bound := nodup.length_le_of_subset below
  simpa using bound

/-- The next request for the device. -/
theorem next_request (more : s.lastAvail ≠ s.disk.availIdx)
    : ∃ h, ringContents s.disk.availRing s.lastAvail s.disk.availIdx
        = s.disk.availRing (ringIndex NUM s.lastAvail)
          :: ringContents s.disk.availRing (s.lastAvail + 1) s.disk.availIdx
      ∧ (s.disk.availRing (ringIndex NUM s.lastAvail)).toNat = h
      ∧ (s.disk.request h).status = .status h := by
  have popped := ringContents_pop s.disk.availRing more
  have member : (s.disk.availRing (ringIndex NUM s.lastAvail)).toNat ∈ sent s ++ reported s := by
    simp [sent, popped]
  obtain ⟨c, b, i₁, i₂, flight, _⟩ := (sound.queued _).mp member
  have chain := sound.chains c b _ i₁ i₂ flight
  refine ⟨_, popped, rfl, ?_⟩
  simp only [Disk.request, chain.second, chain.third]
  exact chain.status

theorem next_report (more : s.disk.seenIdx ≠ s.disk.usedIdx)
    : ∃ h c b i₁ i₂, (s.disk.usedRing (ringIndex NUM s.disk.seenIdx)).toNat = h
      ∧ reported s = h :: (ringContents s.disk.usedRing (s.disk.seenIdx + 1)
          s.disk.usedIdx).map BitVec.toNat
      ∧ s.point c = .inFlight b h i₁ i₂ ∧ s.busy b = true := by
  have popped := ringContents_pop s.disk.usedRing more
  have member : (s.disk.usedRing (ringIndex NUM s.disk.seenIdx)).toNat ∈ sent s ++ reported s := by
    simp [reported, popped]
  obtain ⟨c, b, i₁, i₂, flight, busy⟩ := (sound.queued _).mp member
  exact ⟨_, c, b, i₁, i₂, rfl, by rw [reported, popped, List.map_cons], flight, busy⟩

end

end Sound

-- What a step can do

variable [DecidableEq ι] [DecidableEq β]

/-- The call is in the loop around `alloc3_desc`. -/
inductive Starts (s : State ι β) : Action ι β → ι → β → Bool → BitVec 64 → Prop
  | first {c b blockno write} (idle : s.point c = .idle)
    (alone : ∀ c', (s.point c').buffer ≠ some b)
    : Starts s (.rw c b blockno write) c b write ((blockno * 2).setWidth 64)
  | again {c b write sector} (waiting : s.point c = .waiting b write sector)
    : Starts s (.retry c) c b write sector

/-- The state after a request has been sent. -/
def State.submitted (s : State ι β) (c : ι) (b : β) (write : Bool) (sector : BitVec 64)
    (i₀ i₁ i₂ : Nat)
    : State ι β :=
  { s.goTo c (.inFlight b i₀ i₁ i₂) with
    disk := ({ s.disk with free := without s.disk.free [i₀, i₁, i₂] }.format b write sector i₀ i₁
      i₂).submit i₀
    busy := update s.busy b true
    completed := update s.completed c false }

/-- The state after a call has found too few descriptors and given back the ones it tried. -/
def State.refused (s : State ι β) (c : ι) (b : β) (write : Bool) (sector : BitVec 64)
    (tried : List Nat)
    : State ι β :=
  { s.goTo c (.waiting b write sector) with
    disk := { s.disk with desc := fun i => if i ∈ tried then {} else s.disk.desc i } }

inductive Change (s : State ι β) : Action ι β × Outcome → State ι β → Prop
  | submits {action c b write sector i₀ i₁ i₂} (starts : Starts s action c b write sector)
    (takes : Takes s.disk.free [i₀, i₁, i₂])
    : Change s (action, .submits) (s.submitted c b write sector i₀ i₁ i₂)
  | refused {action c b write sector tried} (starts : Starts s action c b write sector)
    (takes : Takes s.disk.free tried)
    : Change s (action, .sleeps) (s.refused c b write sector tried)
  | sleeps {c} : Change s (.resume c, .sleeps) s
  | finishes {c b i₀ i₁ i₂} (flight : s.point c = .inFlight b i₀ i₁ i₂)
    (idle : s.busy b = false)
    : Change s (.resume c, (s.finish c b i₀).1) (s.finish c b i₀).2
  | enters : Change s (.intrEnter, .done) { s with handler := true }
  | reaps (more : s.disk.seenIdx ≠ s.disk.usedIdx)
    : Change s (.intrNext, s.reap.1) s.reap.2
  | leaves : Change s (.intrLeave, .done) { s with handler := false }
  | fetches (more : s.lastAvail ≠ s.disk.availIdx)
    : Change s (.fetch, .done) s.fetch
  | completes {k request} (found : s.pending[k]? = some request)
    : Change s (.complete k, .done) (s.complete k request)

theorem attempt_change {action : Action ι β} {c : ι} {b : β} {write : Bool}
    {sector : BitVec 64} (starts : Starts s action c b write sector)
    : Change s (action, (s.attempt c b write sector).1) (s.attempt c b write sector).2 := by
  unfold State.attempt
  rcases alloc3Desc_run s.disk with ⟨i₀, i₁, i₂, takes, run⟩ | ⟨tried, takes, run⟩
  · rw [run]
    exact .submits starts takes
  · rw [run]
    exact .refused starts takes

theorem Step.change {step : Action ι β × Outcome} (taken : Step s step after)
    : Change s step after := by
  obtain ⟨action, outcome⟩ := step
  obtain ⟨enabled, rfl, rfl⟩ := GuardedStep.inv taken
  cases action with
  | rw c b blockno write => exact attempt_change (.first enabled.2.1 enabled.2.2)
  | retry c =>
    obtain ⟨_, b, write, sector, waiting⟩ := enabled
    simp only [State.run, waiting]
    exact attempt_change (.again waiting)
  | resume c =>
    obtain ⟨_, b, i₀, i₁, i₂, flight⟩ := enabled
    simp only [State.run, flight]
    cases busy : s.busy b with
    | true =>
      have same : s.finish c b i₀ = (.sleeps, s) := if_pos busy
      rw [same]
      exact .sleeps
    | false => exact .finishes flight busy
  | intrEnter => exact .enters
  | intrNext => exact .reaps enabled.2
  | intrLeave => exact .leaves
  | fetch => exact .fetches enabled
  | complete k =>
    have found : s.pending[k]? = some (s.pending.get ⟨k, enabled⟩) :=
      List.getElem?_eq_getElem enabled
    simp only [State.run, found]
    exact .completes found

end Xv6.Virtio

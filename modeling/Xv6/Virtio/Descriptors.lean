import Xv6.Virtio.Driver

/-! What the functions on descriptors do: `alloc3_desc` takes three free descriptors or leaves
the free ones as they were, and `free_chain` gives a whole chain back.
-/

namespace Xv6.Virtio

open Function Library

variable {β : Type} {disk : Disk β} {i fuel : Nat}

/-- The free set without some of its descriptors. -/
def without (free : Nat → Bool) (taken : List Nat) : Nat → Bool :=
  fun i => free i && !taken.contains i

theorem without_nil (free : Nat → Bool) : without free [] = free := by
  funext i
  simp [without]

theorem without_concat (free : Nat → Bool) (taken : List Nat) (i : Nat)
    : update (without free taken) i false = without free (taken ++ [i]) := by
  funext j
  by_cases here : j = i
  · simp [without, here]
  · simp [without, here]

/-- The descriptors are free ones, all different. -/
structure Takes (free : Nat → Bool) (taken : List Nat) : Prop where
  nodup : taken.Nodup
  small : ∀ i ∈ taken, i < NUM
  free : ∀ i ∈ taken, free i = true

-- alloc_desc

theorem allocDescLoop_run (left : Nat) (bound : left ≤ NUM)
    : (∃ i, i < NUM ∧ disk.free i = true
        ∧ allocDescLoop left disk
          = .ok (some i, { disk with free := update disk.free i false }))
      ∨ allocDescLoop left disk = .ok (none, disk) := by
  induction left with
  | zero => exact .inr rfl
  | succ left ih =>
    unfold allocDescLoop
    rw [bind_ok (get_run disk)]
    by_cases free : disk.free (NUM - (left + 1)) = true
    · left
      refine ⟨NUM - (left + 1), by omega, free, ?_⟩
      rw [if_pos free]
      rfl
    · rw [if_neg free]
      exact ih (by omega)

theorem allocDesc_run (disk : Disk β)
    : (∃ i, i < NUM ∧ disk.free i = true
        ∧ allocDesc disk
          = .ok (some i, { disk with free := update disk.free i false }))
      ∨ allocDesc disk = .ok (none, disk) :=
  allocDescLoop_run NUM (Nat.le_refl NUM)

-- free_desc

/-- The disk after `free_desc`. -/
def Disk.freed (disk : Disk β) (i : Nat) : Disk β :=
  { disk with
    desc := update disk.desc i {}
    free := update disk.free i true }

theorem freeDesc_run (small : i < NUM) (taken : disk.free i = false)
    : freeDesc i disk = .ok ((), disk.freed i) := by
  unfold freeDesc
  rw [if_neg (by omega), bind_ok (get_run disk)]
  simp only [taken]
  rfl

/-- Several descriptors are given back. -/
theorem freeAll_run {idx : List Nat} (nodup : idx.Nodup) (small : ∀ i ∈ idx, i < NUM)
    (taken : ∀ i ∈ idx, disk.free i = false)
    : freeAll idx disk = .ok ((), idx.foldl Disk.freed disk) := by
  induction idx generalizing disk with
  | nil => rfl
  | cons i rest ih =>
    obtain ⟨fresh, nodup⟩ := List.nodup_cons.mp nodup
    unfold freeAll
    rw [bind_ok (freeDesc_run (small i (by simp)) (taken i (by simp)))]
    refine ih nodup (fun j member => small j (by simp [member])) fun j member => ?_
    have other : j ≠ i := by
      rintro rfl
      exact fresh member
    simpa [Disk.freed, other] using taken j (by simp [member])

/-- Giving descriptors back touches only them. -/
theorem foldl_freed (idx : List Nat) (disk : Disk β)
    : idx.foldl Disk.freed disk
      = { disk with
          desc := fun i => if i ∈ idx then {} else disk.desc i
          free := fun i => decide (i ∈ idx) || disk.free i } := by
  induction idx generalizing disk with
  | nil => simp
  | cons i rest ih =>
    rw [List.foldl_cons, ih]
    simp only [Disk.freed, Disk.mk.injEq, true_and, and_true]
    refine ⟨?_, ?_⟩
    · funext j
      by_cases here : j = i <;> simp [here]
    · funext j
      by_cases here : j = i <;> simp [here]

-- alloc3_desc

/-- The descriptors are taken, or none of them stays taken; those that were taken for a while
are cleared.
-/
theorem alloc3Loop_run (disk : Disk β) {free : Nat → Bool} (left : Nat) {idx : List Nat}
    (takes : Takes free idx) (now : disk.free = without free idx)
    : (∃ more, more.length = left ∧ Takes free (idx ++ more)
        ∧ alloc3Loop left idx disk
          = .ok (some (idx ++ more), { disk with free := without free (idx ++ more) }))
      ∨ ∃ tried, Takes free tried
        ∧ alloc3Loop left idx disk
          = .ok (none, { disk with
              desc := fun i => if i ∈ tried then {} else disk.desc i
              free := free }) := by
  induction left generalizing disk idx with
  | zero =>
    refine .inl ⟨[], rfl, by simpa using takes, ?_⟩
    rw [List.append_nil, ← now]
    rfl
  | succ left ih =>
    unfold alloc3Loop
    rcases allocDesc_run disk with ⟨i, small, isFree, run⟩ | run
    · rw [bind_ok run]
      rw [now] at isFree
      simp only [without, Bool.and_eq_true, Bool.not_eq_true', List.contains_eq_mem,
        decide_eq_false_iff_not] at isFree
      have takes' : Takes free (idx ++ [i]) := by
        refine ⟨List.nodup_append.mpr ⟨takes.nodup, List.nodup_singleton i, ?_⟩, ?_, ?_⟩
        · intro j member k same
          rw [List.mem_singleton.mp same]
          rintro rfl
          exact isFree.2 member
        · intro j member
          rcases List.mem_append.mp member with old | new
          · exact takes.small j old
          · exact List.mem_singleton.mp new ▸ small
        · intro j member
          rcases List.mem_append.mp member with old | new
          · exact takes.free j old
          · exact List.mem_singleton.mp new ▸ isFree.1
      have now' : (update disk.free i false) = without free (idx ++ [i]) := by
        rw [now, without_concat]
      rcases ih { disk with free := update disk.free i false } takes' now' with
        ⟨more, length, taken, run'⟩ | ⟨tried, taken, run'⟩
      · refine .inl ⟨i :: more, by simp [length], by simpa using taken, ?_⟩
        simpa using run'
      · exact .inr ⟨tried, taken, run'⟩
    · rw [bind_ok run]
      have busy : ∀ i ∈ idx, disk.free i = false := by
        intro i member
        simp [now, without, member]
      right
      refine ⟨idx, takes, ?_⟩
      dsimp only
      rw [bind_ok (freeAll_run takes.nodup takes.small busy), foldl_freed]
      have restored : (fun i => decide (i ∈ idx) || disk.free i) = free := by
        funext i
        by_cases member : i ∈ idx
        · simp [member, takes.free i member]
        · simp [member, now, without]
      rw [restored]
      rfl

/-- `alloc3_desc` takes three free descriptors, or leaves the free ones as they were. -/
theorem alloc3Desc_run (disk : Disk β)
    : (∃ i₀ i₁ i₂, Takes disk.free [i₀, i₁, i₂]
        ∧ alloc3Desc disk
          = .ok (some [i₀, i₁, i₂], { disk with free := without disk.free [i₀, i₁, i₂] }))
      ∨ ∃ tried, Takes disk.free tried
        ∧ alloc3Desc disk
          = .ok (none, { disk with desc := fun i => if i ∈ tried then {} else disk.desc i }) := by
  have none : Takes disk.free [] := ⟨List.nodup_nil, by simp, by simp⟩
  rcases alloc3Loop_run disk 3 none (without_nil _).symm with
    ⟨more, length, takes, run⟩ | failed
  · left
    obtain ⟨i₀, i₁, i₂, rfl⟩ := List.length_eq_three.mp length
    exact ⟨i₀, i₁, i₂, takes, run⟩
  · exact .inr failed

-- free_chain

/-- Three descriptors linked in one chain. -/
structure Linked (disk : Disk β) (i₀ i₁ i₂ : Nat) : Prop where
  first : (disk.desc i₀).flags &&& VRING_DESC_F_NEXT ≠ 0
  second : (disk.desc i₀).next.toNat = i₁
  goesOn : (disk.desc i₁).flags &&& VRING_DESC_F_NEXT ≠ 0
  third : (disk.desc i₁).next.toNat = i₂
  last : (disk.desc i₂).flags &&& VRING_DESC_F_NEXT = 0

/-- The chain of a request for the buffer. -/
structure Chain (disk : Disk β) (b : β) (i₀ i₁ i₂ : Nat) : Prop extends
    Linked disk i₀ i₁ i₂ where
  status : (disk.desc i₂).addr = .status i₀
  buffer : (disk.info i₀).b = some b

/-- Only the chain's own descriptors matter. -/
theorem Chain.congr {b : β} {i₀ i₁ i₂ : Nat} (chain : Chain disk b i₀ i₁ i₂) {disk' : Disk β}
    (desc : ∀ i ∈ [i₀, i₁, i₂], disk'.desc i = disk.desc i)
    (info : (disk'.info i₀).b = (disk.info i₀).b)
    : Chain disk' b i₀ i₁ i₂ := by
  have desc₀ := desc i₀ (by simp)
  have desc₁ := desc i₁ (by simp)
  have desc₂ := desc i₂ (by simp)
  refine ⟨⟨?_, ?_, ?_, ?_, ?_⟩, ?_, info.trans chain.buffer⟩
  · rw [desc₀]
    exact chain.first
  · rw [desc₀]
    exact chain.second
  · rw [desc₁]
    exact chain.goesOn
  · rw [desc₁]
    exact chain.third
  · rw [desc₂]
    exact chain.last
  · rw [desc₂]
    exact chain.status

theorem freeChain_next (small : i < NUM) (taken : disk.free i = false)
    (more : (disk.desc i).flags &&& VRING_DESC_F_NEXT ≠ 0)
    : freeChain (fuel + 1) i disk = freeChain fuel (disk.desc i).next.toNat (disk.freed i) := by
  rw [freeChain, bind_ok (get_run disk), bind_ok (freeDesc_run small taken), if_pos more]

theorem freeChain_last (small : i < NUM) (taken : disk.free i = false)
    (last : (disk.desc i).flags &&& VRING_DESC_F_NEXT = 0)
    : freeChain (fuel + 1) i disk = .ok ((), disk.freed i) := by
  rw [freeChain, bind_ok (get_run disk), bind_ok (freeDesc_run small taken),
    if_neg (by simpa using last)]
  rfl

/-- `free_chain` gives the three descriptors of a chain back. -/
theorem freeChain_run (disk : Disk β) {i₀ i₁ i₂ : Nat} (linked : Linked disk i₀ i₁ i₂)
    (nodup : [i₀, i₁, i₂].Nodup) (small : ∀ i ∈ [i₀, i₁, i₂], i < NUM)
    (taken : ∀ i ∈ [i₀, i₁, i₂], disk.free i = false)
    : freeChain (NUM + 1) i₀ disk = .ok ((), [i₀, i₁, i₂].foldl Disk.freed disk) := by
  simp only [List.nodup_cons, List.mem_cons, List.not_mem_nil, or_false, not_or] at nodup
  obtain ⟨⟨apart₁, apart₂⟩, apart₁₂, _⟩ := nodup
  have taken₁ : (disk.freed i₀).free i₁ = false := by
    simpa [Disk.freed, Ne.symm apart₁] using taken i₁ (by simp)
  have taken₂ : ((disk.freed i₀).freed i₁).free i₂ = false := by
    simpa [Disk.freed, Ne.symm apart₂, Ne.symm apart₁₂] using taken i₂ (by simp)
  have desc₁ : (disk.freed i₀).desc i₁ = disk.desc i₁ :=
    update_of_ne (Ne.symm apart₁) _ _
  have desc₂ : ((disk.freed i₀).freed i₁).desc i₂ = disk.desc i₂ := by
    simp [Disk.freed, Ne.symm apart₂, Ne.symm apart₁₂]
  rw [freeChain_next (small i₀ (by simp)) (taken i₀ (by simp)) linked.first, linked.second,
    freeChain_next (small i₁ (by simp)) taken₁ (by rw [desc₁]; exact linked.goesOn), desc₁,
    linked.third, freeChain_last (small i₂ (by simp)) taken₂ (by rw [desc₂]; exact linked.last)]
  rfl

-- The new chain

theorem Takes.balance {free : Nat → Bool} {taken : List Nat} (takes : Takes free taken) (i : Nat)
    : (without free taken i).toNat + taken.count i = (free i).toNat := by
  by_cases member : i ∈ taken
  · have once : taken.count i = 1 := List.count_eq_one_of_mem takes.nodup member
    simp [without, member, once, takes.free i member]
  · simp [without, member, List.count_eq_zero_of_not_mem member]

section

variable {b : β} {write : Bool} {sector : BitVec 64} {i₀ i₁ i₂ : Nat} {i : Nat}

theorem format_desc_other (other : i ∉ [i₀, i₁, i₂])
    : ((disk.format b write sector i₀ i₁ i₂).submit i₀).desc i = disk.desc i := by
  simp only [List.mem_cons, not_or] at other
  simp [Disk.submit, Disk.format, other.1, other.2.1, other.2.2]

theorem format_info_other (other : i ≠ i₀)
    : ((disk.format b write sector i₀ i₁ i₂).submit i₀).info i = disk.info i := by
  simp [Disk.submit, Disk.format, other]

theorem toNat_index {w : Nat} (small : i < NUM) (wide : 3 ≤ w)
    : (BitVec.ofNat w i).toNat = i := by
  have bound : NUM ≤ 2 ^ w := Nat.pow_le_pow_right (by decide : 0 < 2) wide
  rw [BitVec.toNat_ofNat, Nat.mod_eq_of_lt (by omega)]

/-- The new chain. -/
theorem format_chain (disk : Disk β) (b : β) (write : Bool) (sector : BitVec 64)
    (nodup : [i₀, i₁, i₂].Nodup) (small : ∀ i ∈ [i₀, i₁, i₂], i < NUM)
    : Chain ((disk.format b write sector i₀ i₁ i₂).submit i₀) b i₀ i₁ i₂ := by
  simp only [List.nodup_cons, List.mem_cons, List.not_mem_nil, or_false, not_or] at nodup
  obtain ⟨⟨apart₁, apart₂⟩, apart₁₂, _⟩ := nodup
  have small₁ := toNat_index (w := 16) (small i₁ (by simp)) (by decide)
  have small₂ := toNat_index (w := 16) (small i₂ (by simp)) (by decide)
  refine ⟨⟨?_, ?_, ?_, ?_, ?_⟩, ?_, ?_⟩
  · simp only [Disk.submit, Disk.format, update_of_ne apart₁,
      update_of_ne apart₂, update_self]
    decide
  · simp only [Disk.submit, Disk.format, update_of_ne apart₁,
      update_of_ne apart₂, update_self, small₁]
  · simp only [Disk.submit, Disk.format, update_of_ne apart₁₂, update_self]
    cases write <;> decide
  · simp only [Disk.submit, Disk.format, update_of_ne apart₁₂, update_self,
      small₂]
  · simp only [Disk.submit, Disk.format, update_self]
    decide
  · simp [Disk.submit, Disk.format]
  · simp [Disk.submit, Disk.format]

end

theorem complete_eq {request : Request β} {h : Nat} (status : request.status = .status h)
    : disk.complete request
      = { disk with
          info := update disk.info h { disk.info h with status := 0 }
          usedRing := update disk.usedRing (ringIndex NUM disk.usedIdx)
            (BitVec.ofNat 32 request.head)
          usedIdx := disk.usedIdx + 1 } := by
  simp only [Disk.complete, status]

end Xv6.Virtio

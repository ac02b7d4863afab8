import Xv6.Fs.Files

/-! `itrunc`: all the blocks of an inode are freed, each of them once. -/

namespace Xv6.Fs

open Function Library IndexTree Disk

variable {sb : Superblock} {view view' : Nat → Block} {addrs : Nat → Fin (NDIRECT + 2) → Nat}
  {gone more : Set Slot} {s : Store}
variable {slot other : Slot} {α : Type} {post : α → Store → Prop}

-- Blocks that have been freed

/-- The blocks in the slots of `gone` have been freed, and nothing else has changed. -/
structure Released (sb : Superblock) (view : Nat → Block) (addrs : Nat → Fin (NDIRECT + 2) → Nat)
    (gone : Set Slot) (view' : Nat → Block)
    : Prop where
  within : ∀ slot ∈ gone, Within levels slot
  outside : ∀ b, b < sb.bmapstart ∨ sb.dataStart ≤ b → view' b = view b
  bits : ∀ b < sb.size, marked sb view' b = true
    ↔ marked sb view b = true ∧ ¬∃ slot ∈ gone, address view addrs slot = b ∧ b ≠ 0

theorem Released.refl (sb : Superblock) (view : Nat → Block)
    (addrs : Nat → Fin (NDIRECT + 2) → Nat)
    : Released sb view addrs ∅ view :=
  ⟨fun _ member => absurd member (Set.notMem_empty _), fun _ _ => rfl, fun b _ => by simp⟩

section

variable (released : Released sb view addrs gone view')
include released

theorem Released.kept (owned : Owned sb view addrs) (within : Within levels slot)
    : view' (address view addrs slot) = view (address view addrs slot) := by
  refine released.outside _ ?_
  by_cases none : address view addrs slot = 0
  · exact .inl (none ▸ owned.layout.bmapstart_pos)
  · exact .inr (owned.data slot within none).1

/-- Slots without a block make no difference. -/
theorem Released.union_none (within : ∀ slot ∈ more, Within levels slot)
    (none : ∀ slot ∈ more, address view addrs slot = 0)
    : Released sb view addrs (gone ∪ more) view' := by
  refine ⟨fun other member => ?_, released.outside, fun b bound => ?_⟩
  · rcases member with old | new
    · exact released.within other old
    · exact within other new
  · rw [released.bits b bound]
    refine and_congr_right fun _ => not_congr ⟨?_, ?_⟩
    · rintro ⟨other, member, isB⟩
      exact ⟨other, .inl member, isB⟩
    · rintro ⟨other, old | new, isB⟩
      · exact ⟨other, old, isB⟩
      · exact absurd (isB.1.symm.trans (none other new)) isB.2

theorem Released.insert_none (within : Within levels slot) (none : address view addrs slot = 0)
    : Released sb view addrs (insert slot gone) view' := by
  rw [← Set.union_singleton]
  exact released.union_none (fun _ member => member ▸ within) (fun _ member => member ▸ none)

end

section

variable (owned : Owned sb view addrs) (released : Released sb view addrs gone s.view)
include owned released

theorem bfree_returns (within : Within levels slot) (present : address view addrs slot ≠ 0)
    (fresh : slot ∉ gone)
    : (bfree sb (address view addrs slot)).Returns s fun _ s' =>
        Released sb view addrs (insert slot gone) s'.view := by
  obtain ⟨above, bound⟩ := owned.data slot within present
  have isMarked : marked sb s.view (address view addrs slot) = true := by
    refine (released.bits _ bound).mpr ⟨(owned.bits _ bound).mpr (.inr ⟨slot, within, rfl⟩), ?_⟩
    rintro ⟨other, member, same, _⟩
    have isSlot := owned.single (released.within other member) within same present
    exact fresh (isSlot ▸ member)
  have test : ¬(s.view (sb.BBLOCK (address view addrs slot))).getLsbD
      (address view addrs slot % BPB) = false := by
    rw [Bool.not_eq_false]
    exact isMarked
  simp only [bfree, Prog.returns_bind, returns_bread, if_neg test, returns_setData,
    returns_logWrite, returns_brelse]
  refine ⟨fun other member => ?_, fun b outside => ?_, fun b inside => ?_⟩
  · rcases member with rfl | old
    · exact within
    · exact released.within other old
  · have low := sb.bmapstart_le_BBLOCK (address view addrs slot)
    have high := Superblock.BBLOCK_lt bound
    rw [update_of_ne (by omega)]
    exact released.outside b outside
  · rw [marked_setBit]
    by_cases same : b = address view addrs slot
    · rw [if_pos same]
      refine iff_of_false (by simp) fun kept => kept.2 ⟨slot, .inl rfl, same.symm, ?_⟩
      rw [same]
      exact present
    · rw [if_neg same, released.bits b inside]
      refine and_congr_right fun _ => not_congr ⟨?_, ?_⟩
      · rintro ⟨other, member, isB⟩
        exact ⟨other, .inr member, isB⟩
      · rintro ⟨other, rfl | member, isB⟩
        · exact absurd isB.1.symm same
        · exact ⟨other, member, isB⟩

theorem bfree_slot (within : Within levels slot) (fresh : slot ∉ gone) {next : Prog α}
    (rest : ∀ s', Released sb view addrs (insert slot gone) s'.view → next.Returns s' post)
    : (if address view addrs slot ≠ 0 then bfree sb (address view addrs slot) >>= fun _ => next
        else next).Returns s post := by
  split_ifs with present
  · exact (bfree_returns owned released within present fresh).bind fun _ s' after => rest s' after
  · exact rest s (released.insert_none within (not_not.mp present))

theorem bfreeAll_returns {slots : List Slot} (within : ∀ slot ∈ slots, Within levels slot)
    (fresh : ∀ slot ∈ slots, slot ∉ gone) (distinct : slots.Nodup)
    : (bfreeAll sb (slots.map (address view addrs))).Returns s fun _ s' =>
        Released sb view addrs (gone ∪ {slot | slot ∈ slots}) s'.view := by
  induction slots generalizing gone s with
  | nil =>
    refine Prog.returns_pure.mpr ?_
    simpa using released
  | cons slot rest ih =>
    obtain ⟨absent, restDistinct⟩ := List.nodup_cons.mp distinct
    refine bfree_slot owned released (within slot List.mem_cons_self)
      (fresh slot List.mem_cons_self) fun s' after => ?_
    have sets : insert slot gone ∪ {other | other ∈ rest}
        = gone ∪ {other | other ∈ slot :: rest} := by
      ext other
      simp only [Set.mem_union, Set.mem_insert_iff, Set.mem_ofPred_eq, List.mem_cons]
      tauto
    rw [← sets]
    refine ih after (fun other member => within other (List.mem_cons_of_mem _ member))
      (fun other member => ?_) restDistinct
    rintro (rfl | old)
    · exact absent member
    · exact fresh other (List.mem_cons_of_mem _ member) old

end

/-- The slots of an index block, in order. -/
def entries (slot : Slot) : List Slot :=
  (List.finRange NINDIRECT).map fun i => (slot.1, slot.2 ++ [i])

theorem mem_entries
    : other ∈ entries slot ↔ ∃ i, other = (slot.1, slot.2 ++ [i]) := by
  simp [entries, eq_comm]

theorem entries_nodup (slot : Slot) : (entries slot).Nodup := by
  refine (List.nodup_finRange _).map fun i j same => ?_
  have tails := (Prod.mk.inj same).2
  exact (List.append_inj' tails rfl).2 |> List.head_eq_of_cons_eq

theorem words_entries (view : Nat → Block) (addrs : Nat → Fin (NDIRECT + 2) → Nat) (slot : Slot)
    : words (view (address view addrs slot)) = (entries slot).map (address view addrs) := by
  unfold words entries
  rw [← List.map_coe_finRange_eq_range, List.map_map, List.map_map]
  refine List.map_congr_left fun i _ => ?_
  have entry : address view addrs (slot.1, slot.2 ++ [i]) = _ := locate_snoc ..
  exact entry.symm

theorem bfreeIndex_returns (owned : Owned sb view addrs)
    (released : Released sb view addrs gone s.view) (inner : Inner levels slot)
    (present : address view addrs slot ≠ 0) (fresh : slot ∉ gone)
    (freshBelow : ∀ other ∈ entries slot, other ∉ gone)
    : (bfreeIndex sb (address view addrs slot)).Returns s fun _ s' =>
        Released sb view addrs (gone ∪ {other | other ∈ entries slot} ∪ {slot}) s'.view := by
  have within (other : Slot) (member : other ∈ entries slot) : Within levels other := by
    obtain ⟨i, rfl⟩ := mem_entries.mp member
    exact inner.snoc i
  have apart : slot ∉ entries slot := by
    intro member
    obtain ⟨i, same⟩ := mem_entries.mp member
    have lengths := congrArg (fun other : Slot => other.2.length) same
    simp at lengths
  rw [bfreeIndex, Prog.returns_bind, returns_bread, released.kept owned inner.within,
    words_entries]
  refine (bfreeAll_returns owned released within freshBelow (entries_nodup slot)).bind
    fun _ s' after => ?_
  refine (bfree_returns owned after inner.within present ?_).mono fun _ s'' last => ?_
  · rintro (old | member)
    · exact fresh old
    · exact apart member
  · rwa [Set.union_singleton]

/-- The slots of an index block and of the blocks it lists. -/
def below (slot : Slot) : Set Slot := {other | other = slot ∨ other ∈ entries slot}

theorem below_within (inner : Inner levels slot) (member : other ∈ below slot)
    : Within levels other := by
  rcases member with rfl | entry
  · exact inner.within
  · obtain ⟨i, rfl⟩ := mem_entries.mp entry
    exact inner.snoc i

theorem below_root (member : other ∈ below slot) : other.1 = slot.1 := by
  rcases member with rfl | entry
  · rfl
  · obtain ⟨i, rfl⟩ := mem_entries.mp entry
    rfl

theorem below_none (boot : view 0 = 0) (none : address view addrs slot = 0)
    (member : other ∈ below slot)
    : address view addrs other = 0 := by
  rcases member with rfl | entry
  · exact none
  · obtain ⟨i, rfl⟩ := mem_entries.mp entry
    exact locate_below (entryOf_zero boot) none [i]

section

variable (owned : Owned sb view addrs) (released : Released sb view addrs gone s.view)
include owned released

/-- The blocks below a slot are freed if there are any. -/
theorem bfreeIndex_slot (inner : Inner levels slot) (fresh : ∀ other ∈ below slot, other ∉ gone)
    {next : Prog α}
    (rest : ∀ s', Released sb view addrs (gone ∪ below slot) s'.view → next.Returns s' post)
    : (if address view addrs slot ≠ 0 then
          bfreeIndex sb (address view addrs slot) >>= fun _ => next
        else next).Returns s post := by
  split_ifs with present
  · refine (bfreeIndex_returns owned released inner present (fresh slot (.inl rfl))
      fun other member => fresh other (.inr member)).bind fun _ s' after => rest s' ?_
    have sets : gone ∪ {other | other ∈ entries slot} ∪ {slot} = gone ∪ below slot := by
      ext other
      simp only [below, Set.mem_union, Set.mem_ofPred_eq]
      tauto
    rwa [sets] at after
  · exact rest s (released.union_none (fun other => below_within inner)
      fun other => below_none owned.boot (not_not.mp present))

/-- Freeing a list of index blocks frees all that is below them. -/
theorem bfreeIndexes_returns {slots : List Slot} {length : Nat}
    (inner : ∀ slot ∈ slots, Inner levels slot) (even : ∀ slot ∈ slots, slot.2.length = length)
    (fresh : ∀ slot ∈ slots, ∀ other ∈ below slot, other ∉ gone) (distinct : slots.Nodup)
    : (bfreeIndexes sb (slots.map (address view addrs))).Returns s fun _ s' =>
        Released sb view addrs (gone ∪ {other | ∃ slot ∈ slots, other ∈ below slot}) s'.view := by
  induction slots generalizing gone s with
  | nil =>
    refine Prog.returns_pure.mpr ?_
    simpa using released
  | cons slot rest ih =>
    obtain ⟨absent, restDistinct⟩ := List.nodup_cons.mp distinct
    refine bfreeIndex_slot owned released (inner slot List.mem_cons_self)
      (fresh slot List.mem_cons_self) fun s' after => ?_
    have sets : gone ∪ below slot ∪ {other | ∃ slot ∈ rest, other ∈ below slot}
        = gone ∪ {other | ∃ slot' ∈ slot :: rest, other ∈ below slot'} := by
      ext other
      simp only [Set.mem_union, Set.mem_ofPred_eq, List.mem_cons, exists_eq_or_imp, or_assoc]
    rw [← sets]
    refine ih after (fun other member => inner other (List.mem_cons_of_mem _ member))
      (fun other member => even other (List.mem_cons_of_mem _ member))
      (fun slot' member other isBelow => ?_) restDistinct
    -- What lies below another slot of the list lies elsewhere.
    rintro (old | again)
    · exact fresh slot' (List.mem_cons_of_mem _ member) other isBelow old
    · have lengths := even slot List.mem_cons_self
      have lengths' := even slot' (List.mem_cons_of_mem _ member)
      refine absent ?_
      rcases isBelow with rfl | entry <;> rcases again with rfl | entry'
      · exact member
      · obtain ⟨i, rfl⟩ := mem_entries.mp entry'
        simp at lengths'
        omega
      · obtain ⟨i, rfl⟩ := mem_entries.mp entry
        simp at lengths
        omega
      · obtain ⟨i, rfl⟩ := mem_entries.mp entry
        obtain ⟨j, same⟩ := mem_entries.mp entry'
        obtain ⟨roots, tails⟩ := Prod.mk.inj same
        rw [Prod.ext roots.symm (List.append_inj' tails.symm rfl).1]
        exact member

/-- The loop over the direct blocks. -/
theorem truncDirect_returns {ks : List (Fin (NDIRECT + 2))} {ip : Inode}
    (mine : ∀ k ∈ ks, ip.addrs k = addrs ip.inum k) (fresh : ∀ k ∈ ks, ((ip.inum, k), []) ∉ gone)
    (distinct : ks.Nodup)
    : (truncDirect sb ip ks).Returns s fun ip' s' =>
        ip' = { ip with addrs := fun k => if k ∈ ks then 0 else ip.addrs k }
        ∧ Released sb view addrs (gone ∪ {slot | ∃ k ∈ ks, slot = ((ip.inum, k), [])}) s'.view := by
  induction ks generalizing gone s ip with
  | nil =>
    refine Prog.returns_pure.mpr ⟨rfl, ?_⟩
    simpa using released
  | cons k rest ih =>
    obtain ⟨absent, restDistinct⟩ := List.nodup_cons.mp distinct
    have sets : insert ((ip.inum, k), []) gone ∪ {slot | ∃ j ∈ rest, slot = ((ip.inum, j), [])}
        = gone ∪ {slot | ∃ j ∈ k :: rest, slot = ((ip.inum, j), [])} := by
      ext slot
      simp only [Set.mem_union, Set.mem_insert_iff, Set.mem_ofPred_eq, List.mem_cons,
        exists_eq_or_imp]
      tauto
    have restFresh (j : Fin (NDIRECT + 2)) (member : j ∈ rest)
        : ((ip.inum, j), []) ∉ insert ((ip.inum, k), []) gone := by
      rintro (same | old)
      · obtain rfl : j = k := by simpa using same
        exact absent member
      · exact fresh j (List.mem_cons_of_mem _ member) old
    have root : address view addrs ((ip.inum, k), []) = ip.addrs k :=
      (mine k List.mem_cons_self).symm
    rw [truncDirect, ← sets]
    by_cases present : ip.addrs k ≠ 0
    · rw [if_pos present]
      have freed := bfree_returns owned released (Nat.zero_le _) (root.symm ▸ present)
        (fresh k List.mem_cons_self)
      rw [root] at freed
      refine freed.bind fun _ s' after => ?_
      refine Prog.Returns.mono (ih after (fun j member => ?_) restFresh restDistinct)
        fun ip' s'' result => ⟨result.1.trans ?_, result.2⟩
      · have other : j ≠ k := fun same => absent (same ▸ member)
        exact (update_of_ne other ..).trans (mine j (List.mem_cons_of_mem _ member))
      · refine congrArg (fun a => { ip with addrs := a }) (funext fun j => ?_)
        by_cases here : j = k
        · simp [Inode.setAddr, here]
        · simp [Inode.setAddr, here]
    · rw [if_neg present]
      have none : ip.addrs k = 0 := not_not.mp present
      refine (ih (released.insert_none (Nat.zero_le _) (root.trans none))
        (fun j member => mine j (List.mem_cons_of_mem _ member)) restFresh restDistinct).mono
        fun ip' s'' result => ⟨result.1.trans ?_, result.2⟩
      refine congrArg (fun a => { ip with addrs := a }) (funext fun j => ?_)
      by_cases here : j = k
      · simp [here, none]
      · simp [here]

end

-- `itrunc`

variable {inum : Nat}

theorem address_cleared (boot : view 0 = 0) (slot : Slot)
    : address view (update addrs inum fun _ => 0) slot
      = if slot.1.1 = inum then 0 else address view addrs slot := by
  obtain ⟨⟨i, k⟩, path⟩ := slot
  by_cases mine : i = inum
  · subst mine
    have root : address view (update addrs i fun _ => 0) ((i, k), []) = 0 := by
      rw [address, locate_nil, update_self]
    rw [if_pos rfl]
    exact locate_below (entryOf_zero boot) root path
  · rw [if_neg mine, address, address, locate, locate, update_of_ne mine]

/-- All the blocks of the inode have been freed. -/
theorem Released.cleared (released : Released sb view addrs gone view')
    (owned : Owned sb view addrs) (only : ∀ slot ∈ gone, slot.1.1 = inum)
    (all : ∀ slot, Within levels slot → slot.1.1 = inum → slot ∈ gone)
    : Owned sb view' (update addrs inum fun _ => 0)
      ∧ ∀ slot, Within levels slot
        → address view' (update addrs inum fun _ => 0) slot
          = if slot.1.1 = inum then 0 else address view addrs slot := by
  have boot : view' 0 = 0 := by
    rw [released.outside 0 (.inl owned.layout.bmapstart_pos), owned.boot]
  have addresses (slot : Slot) (within : Within levels slot)
      : address view' (update addrs inum fun _ => 0) slot
        = if slot.1.1 = inum then 0 else address view addrs slot := by
    rw [address_cleared boot,
      address_frame (fun other inner => released.kept owned inner.within) within]
  refine ⟨⟨owned.layout, boot, owned.forest.prune (entryOf_zero boot) fun slot within => ?_,
    fun slot within present => ?_, fun b bound => ?_⟩, addresses⟩
  · rcases eq_or_ne slot.1.1 inum with mine | other
    · exact .inr ((addresses slot within).trans (if_pos mine))
    · exact .inl ((addresses slot within).trans (if_neg other))
  · rw [addresses slot within] at present ⊢
    split_ifs at present ⊢
    · exact absurd rfl present
    · exact owned.data slot within present
  · rw [released.bits b bound, owned.bits b bound]
    constructor
    · rintro ⟨low | ⟨slot, within, isB⟩, kept⟩
      · exact .inl low
      · by_cases none : b = 0
        · exact .inl (none ▸ sb.dataStart_pos)
        · refine .inr ⟨slot, within, ?_⟩
          rw [addresses slot within, if_neg, isB]
          exact fun mine => kept ⟨slot, all slot within mine, isB, none⟩
    · rintro (low | ⟨slot, within, isB⟩)
      · refine ⟨.inl low, ?_⟩
        rintro ⟨slot, member, isB, present⟩
        have := (owned.data slot (released.within slot member) (isB.symm ▸ present)).1
        omega
      · by_cases none : b = 0
        · refine ⟨.inl (none ▸ sb.dataStart_pos), ?_⟩
          rintro ⟨_, _, _, present⟩
          exact present none
        · rw [addresses slot within] at isB
          split_ifs at isB with mine
          · exact absurd isB.symm none
          · refine ⟨.inr ⟨slot, within, isB⟩, ?_⟩
            rintro ⟨other, member, isB', _⟩
            have same := owned.single (released.within other member) within (isB'.trans isB.symm)
              (isB.symm ▸ none)
            exact mine (same ▸ only other member)

theorem single_lt : NDIRECT < NDIRECT + 2 := by decide

/-- The place in `addrs` of the index block. -/
abbrev singleAt : Fin (NDIRECT + 2) := ⟨NDIRECT, single_lt⟩

/-- The place in `addrs` of the block that lists index blocks. -/
abbrev doubleAt : Fin (NDIRECT + 2) := Fin.last (NDIRECT + 1)

theorem mem_directs {k : Fin (NDIRECT + 2)} : k ∈ directs ↔ k.val < NDIRECT := by
  simp [directs]

/-- All the slots of an inode. -/
def slotsOf (inum : Nat) : Set Slot :=
  {slot | ∃ k ∈ directs, slot = ((inum, k), [])} ∪ below ((inum, singleAt), [])
    ∪ ({other | ∃ slot ∈ entries ((inum, doubleAt), []), other ∈ below slot}
      ∪ {((inum, doubleAt), [])})

theorem mem_slotsOf (within : Within levels slot) (mine : slot.1.1 = inum)
    : slot ∈ slotsOf inum := by
  obtain ⟨⟨i, k⟩, path⟩ := slot
  obtain rfl : i = inum := mine
  unfold Within levels at within
  by_cases direct : k.val < NDIRECT
  · rw [if_pos direct] at within
    obtain rfl : path = [] := List.length_eq_zero_iff.mp (Nat.le_zero.mp within)
    exact .inl (.inl ⟨k, mem_directs.mpr direct, rfl⟩)
  · by_cases single : k.val = NDIRECT
    · obtain rfl : k = singleAt := Fin.ext single
      rcases path with _ | ⟨j, _ | ⟨j', rest⟩⟩
      · exact .inl (.inr (.inl rfl))
      · exact .inl (.inr (.inr (mem_entries.mpr ⟨j, rfl⟩)))
      · simp at within
    · obtain rfl : k = doubleAt := Fin.ext (by
        have : doubleAt.val = NDIRECT + 1 := rfl
        omega)
      rcases path with _ | ⟨j, _ | ⟨j', _ | ⟨j'', rest⟩⟩⟩
      · exact .inr (.inr rfl)
      · exact .inr (.inl ⟨_, mem_entries.mpr ⟨j, rfl⟩, .inl rfl⟩)
      · exact .inr (.inl ⟨_, mem_entries.mpr ⟨j, rfl⟩, .inr (mem_entries.mpr ⟨j', rfl⟩)⟩)
      · simp at within

theorem slotsOf_inum (member : slot ∈ slotsOf inum) : slot.1.1 = inum := by
  rcases member with (⟨k, _, rfl⟩ | rfl | entry) | ⟨other, entry, rfl | entry'⟩ | rfl
  · rfl
  · rfl
  · obtain ⟨j, rfl⟩ := mem_entries.mp entry
    rfl
  · obtain ⟨j, rfl⟩ := mem_entries.mp entry
    rfl
  · obtain ⟨j, rfl⟩ := mem_entries.mp entry
    obtain ⟨j', rfl⟩ := mem_entries.mp entry'
    rfl
  · rfl

variable {ip : Inode}

/-- The part of `itrunc` that is about the index block, with what follows. -/
theorem truncSingle_returns (owned : Owned sb view addrs)
    (released : Released sb view addrs gone s.view)
    (mine : ip.addrs singleAt = addrs ip.inum singleAt)
    (fresh : ∀ slot ∈ below ((ip.inum, singleAt), []), slot ∉ gone)
    {next : Inode → Prog α}
    (rest : ∀ s', Released sb view addrs (gone ∪ below ((ip.inum, singleAt), [])) s'.view
      → (next (ip.setAddr singleAt 0)).Returns s' post)
    : (if ip.addrs singleAt ≠ 0 then do
          bfreeIndex sb (ip.addrs singleAt)
          let ip ← pure (ip.setAddr singleAt 0)
          next ip
        else do
          let ip ← pure ip
          next ip).Returns s post := by
  have root : address view addrs ((ip.inum, singleAt), []) = ip.addrs singleAt := mine.symm
  have inner : Inner levels (((ip.inum, singleAt), []) : Slot) := Nat.zero_lt_one
  rw [← root]
  split_ifs with present
  · have freed := bfreeIndex_slot owned released inner fresh rest
    rwa [if_pos present] at freed
  · have none := not_not.mp present
    have same : ip.setAddr singleAt 0 = ip := by
      rw [Inode.setAddr, ← none, root, update_eq_self]
    rw [← same]
    exact rest s (released.union_none (fun other => below_within inner)
      fun other => below_none owned.boot none)

/-- The part of `itrunc` that is about the block that lists index blocks. -/
theorem truncDouble_returns (owned : Owned sb view addrs)
    (released : Released sb view addrs gone s.view)
    (mine : ip.addrs doubleAt = addrs ip.inum doubleAt)
    (fresh : ∀ slot ∈ entries ((ip.inum, doubleAt), []), ∀ other ∈ below slot, other ∉ gone)
    (freshRoot : ((ip.inum, doubleAt), []) ∉ gone) {next : Inode → Prog α}
    (rest : ∀ s', Released sb view addrs
        (gone ∪ ({other | ∃ slot ∈ entries ((ip.inum, doubleAt), []), other ∈ below slot}
          ∪ {((ip.inum, doubleAt), [])})) s'.view
      → (next (ip.setAddr doubleAt 0)).Returns s' post)
    : (if ip.addrs doubleAt ≠ 0 then do
          let data ← bread (ip.addrs doubleAt)
          bfreeIndexes sb (words data)
          brelse (ip.addrs doubleAt)
          bfree sb (ip.addrs doubleAt)
          let ip ← pure (ip.setAddr doubleAt 0)
          next ip
        else do
          let ip ← pure ip
          next ip).Returns s post := by
  have root : address view addrs ((ip.inum, doubleAt), []) = ip.addrs doubleAt := mine.symm
  have inner (slot : Slot) (member : slot ∈ entries ((ip.inum, doubleAt), []))
      : Inner levels slot := by
    obtain ⟨i, rfl⟩ := mem_entries.mp member
    exact Nat.one_lt_two
  have even (slot : Slot) (member : slot ∈ entries ((ip.inum, doubleAt), []))
      : slot.2.length = 1 := by
    obtain ⟨i, rfl⟩ := mem_entries.mp member
    rfl
  rw [← root]
  split_ifs with present
  · rw [Prog.returns_bind, returns_bread, released.kept owned (Nat.zero_le _), words_entries]
    refine (bfreeIndexes_returns owned released inner even fresh (entries_nodup _)).bind
      fun _ s' after => ?_
    refine (bfree_returns owned after (Nat.zero_le _) present ?_).bind fun _ s'' last => rest s'' ?_
    · rintro (old | ⟨slot, member, rfl | entry⟩)
      · exact freshRoot old
      · exact absurd (even _ member) (by simp)
      · obtain ⟨i, same⟩ := mem_entries.mp entry
        exact absurd (congrArg (fun slot : Slot => slot.2.length) same) (by simp)
    · rwa [← Set.union_assoc, Set.union_singleton]
  · have none := not_not.mp present
    have same : ip.setAddr doubleAt 0 = ip := by
      rw [Inode.setAddr, ← none, root, update_eq_self]
    rw [← same]
    refine rest s (released.union_none (fun other member => ?_) fun other member => ?_)
    · rcases member with ⟨slot, entry, isBelow⟩ | rfl
      · exact below_within (inner slot entry) isBelow
      · exact Nat.zero_le _
    · rcases member with ⟨slot, entry, isBelow⟩ | rfl
      · exact below_none owned.boot (below_none owned.boot none (.inr entry)) isBelow
      · exact none

/-- `itrunc` leaves an inode without blocks. -/
structure Cleared (sb : Superblock) (view : Nat → Block) (inum : Nat) (ip' : Inode)
    (view' : Nat → Block)
    : Prop where
  sound : Sound sb view'
  untouched : Untouched sb inum view view'
  allocated : Allocated sb view' inum
  inode : ip' = inodeAt sb view' inum
  dinode : dinodeAt sb view' inum = { dinodeAt sb view inum with size := 0, addrs := fun _ => 0 }

/-- The blocks of the inode have been freed, and `iupdate` follows. -/
theorem Released.commit {newAddrs : Fin (NDIRECT + 2) → Nat} (zero : newAddrs = fun _ => 0)
    (sound : Sound sb view) (allocated : Allocated sb view inum)
    (released : Released sb view (diskAddrs sb view) (slotsOf inum) view')
    : Cleared sb view inum { inodeAt sb view inum with size := 0, addrs := newAddrs }
        (updated sb view' { inodeAt sb view inum with size := 0, addrs := newAddrs }) := by
  subst zero
  obtain ⟨owned, addresses⟩ := released.cleared sound.owned (fun _ => slotsOf_inum)
    fun _ => mem_slotsOf
  have ahead
      : Ahead sb { inodeAt sb view inum with size := 0, addrs := fun _ => 0 } view view' := by
    refine ⟨owned, fun b low => released.outside b (.inl low), fun slot within other => ?_,
      fun other i isOther _ => ?_⟩
    · exact (addresses slot within).trans (if_neg other)
    · have within := Leaf.within (blockSlot_leaf other (i / BSIZE))
      have same := (addresses _ within).trans (if_neg ((blockSlot_inum other _).symm ▸ isOther))
      exact (congrArg (fun b => byte (view' b) (i % BSIZE)) same).trans
        (congrArg (byte · (i % BSIZE)) (released.kept sound.owned within))
  have committed := ahead.commit sound allocated allocated.2.2 fun bn inside =>
    absurd inside (Nat.not_lt_zero _)
  exact ⟨committed.sound, committed.untouched, committed.allocated, committed.inode.symm,
    congrArg Inode.toDinode committed.inode⟩

/-- `itrunc` returns with the file empty and its blocks free. -/
theorem itrunc_returns (sound : Sound sb s.view) (allocated : Allocated sb s.view inum)
    : (itrunc sb (inodeAt sb s.view inum)).Returns s fun ip' s' =>
        Cleared sb s.view inum ip' s'.view := by
  have owned := sound.owned
  have mine := diskAddrs_allocated allocated
  have notSingle : singleAt ∉ directs := by simp [mem_directs]
  have notDouble : doubleAt ∉ directs := by simp [mem_directs]
  have distinct : doubleAt ≠ singleAt := by decide
  have kept (k : Fin (NDIRECT + 2)) (notDirect : k ∉ directs)
      : (if k ∈ directs then 0 else (inodeAt sb s.view inum).addrs k)
        = diskAddrs sb s.view inum k := by
    rw [if_neg notDirect, mine]
  refine (truncDirect_returns owned (.refl sb s.view _) (fun k _ => (congrFun mine k).symm)
    (fun k _ => Set.notMem_empty _) ((List.nodup_finRange _).filter _)).bind fun ip₁ s₁ first => ?_
  obtain ⟨rfl, released₁⟩ := first
  rw [Set.empty_union] at released₁
  refine truncSingle_returns owned released₁ ?_ ?_ fun s₂ released₂ => ?_
  · exact kept singleAt notSingle
  · rintro slot isBelow ⟨k, member, rfl⟩
    have root := below_root isBelow
    exact notSingle ((Prod.mk.inj root).2 ▸ member)
  refine truncDouble_returns owned released₂ ?_ ?_ ?_ fun s₃ released₃ => ?_
  · exact (update_of_ne distinct 0 _).trans (kept doubleAt notDouble)
  · rintro slot entry other isBelow old
    have root : other.1 = (inum, doubleAt) := (below_root isBelow).trans (below_root (.inr entry))
    rcases old with ⟨k, member, rfl⟩ | isSingle
    · exact notDouble ((Prod.mk.inj root).2 ▸ member)
    · exact distinct (Prod.mk.inj (root.symm.trans (below_root isSingle))).2
  · rintro (⟨k, member, same⟩ | isSingle)
    · exact notDouble ((Prod.mk.inj (Prod.mk.inj same).1).2 ▸ member)
    · exact distinct (Prod.mk.inj (below_root isSingle)).2
  have zero : update
      (update (fun k => if k ∈ directs then 0 else (inodeAt sb s.view inum).addrs k)
        singleAt 0)
      doubleAt 0
      = fun _ => 0 := by
    funext k
    by_cases isDouble : k = doubleAt
    · rw [isDouble, update_self]
    · rw [update_of_ne isDouble]
      by_cases isSingle : k = singleAt
      · rw [isSingle, update_self]
      · rw [update_of_ne isSingle, if_pos]
        rw [mem_directs]
        have notDouble : k.val ≠ NDIRECT + 1 := fun same => isDouble (Fin.ext same)
        have notSingle : k.val ≠ NDIRECT := fun same => isSingle (Fin.ext same)
        omega
  refine (iupdate_returns sb _ s₃).bind fun _ s₄ after => Prog.returns_pure.mpr ?_
  rw [after]
  exact Released.commit zero sound allocated released₃

end Xv6.Fs

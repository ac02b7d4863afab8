import Xv6.Vm.SpaceSpec

/-! Address spaces put together and taken apart. Code that builds a new image next to the old
ones is followed with the new space alone, everything else being pages the kernel holds; the
ownership of all spaces is then put together again from the two records.
-/

namespace Xv6.Vm

open Function Library

variable {ι κ : Type} {layout : Layout} {s s' : Phys} {g : Ghost ι} {u : Ghost Unit}

-- Labels

namespace Label

/-- The same node of another space. -/
def map (f : ι → κ) : Label ι → Label κ
  | root space => root (f space)
  | mid space i => mid (f space) i
  | low space q => low (f space) q

section

variable (f : ι → κ)
include f

@[simp] theorem parent_map (l : Label ι) : (l.map f).parent = l.parent.map f := by
  cases l <;> rfl

@[simp] theorem index_map (l : Label ι) : (l.map f).index = l.index := by
  cases l <;> rfl

@[simp] theorem inner_map (l : Label ι) : (l.map f).Inner ↔ l.Inner := by
  cases l <;> rfl

@[simp] theorem space_map (l : Label ι) : (l.map f).space = f l.space := by
  cases l <;> rfl

theorem map_map {μ : Type} (f' : κ → μ) (l : Label ι)
    : (l.map f).map f' = l.map fun space => f' (f space) := by
  cases l <;> rfl

end

theorem map_const (l : Label ι) : l.map (fun _ => l.space) = l := by
  cases l <;> rfl

theorem map_injective {f : ι → κ} (injective : Injective f)
    : Injective (map f) := by
  intro l l' same
  cases l <;> cases l' <;> simp only [map, root.injEq, mid.injEq, low.injEq, reduceCtorEq] at same
  · rw [injective same]
  · rw [injective same.1, same.2]
  · rw [injective same.1, same.2]

/-- A place is in the new space or in one of the old ones. -/
theorem option_cases (l : Label (Option ι))
    : (∃ l' : Label Unit, l = l'.map fun _ => none) ∨ ∃ l' : Label ι, l = l'.map some := by
  cases l with
  | root space => cases space with
    | none => exact .inl ⟨.root (), rfl⟩
    | some q => exact .inr ⟨.root q, rfl⟩
  | mid space i => cases space with
    | none => exact .inl ⟨.mid () i, rfl⟩
    | some q => exact .inr ⟨.mid q i, rfl⟩
  | low space k => cases space with
    | none => exact .inl ⟨.low () k, rfl⟩
    | some q => exact .inr ⟨.low q k, rfl⟩

end Label

-- Seen from outside

/-- A space without a root has no page table. -/
theorem Shape.rootless {mem : Nat → Page} (shape : Shape mem g) (l : Label ι)
    (gone : g.table (.root l.space) = none)
    : g.table l = none := by
  have middle (i : Nat) : g.table (.mid l.space i) = none :=
    shape.below_vacant (.mid l.space i) gone rfl
  cases l with
  | root space => exact gone
  | mid space i => exact middle i
  | low space q => exact shape.below_vacant (.low space q) (middle _) rfl

section

variable [Fintype ι]

/-- Every page in use is one that the kernel holds, and there is room for a space of its own. -/
def Ghost.sealed (g : Ghost ι) : Ghost Unit where
  table _ := none
  leaf _ _ := 0
  owner n :=
    match g.owner n with
    | .outside => .outside
    | .free => .free
    | .data | .table _ => .data
  held n := g.count n + (g.owner n).token

theorem refersTo_zero (n : Nat) : Pte.refersTo n 0 = false := by
  rw [Pte.refersTo, zero_invalid, Bool.false_and]

theorem Ghost.sealed_leafCount (g : Ghost ι) (n : Nat) : g.sealed.leafCount n = 0 := by
  simp only [Ghost.leafCount, Ghost.sealed, countEntries, refersTo_zero, Bool.toNat_false,
    Finset.sum_const_zero]

theorem Ghost.sealed_maps (g : Ghost ι) (v n : Nat) : ¬g.sealed.Maps () v n := by
  rintro ⟨_, valid, _⟩
  rw [Ghost.sealed, zero_invalid] at valid
  cases valid

namespace Inv

/-- What is in use is what is held. -/
theorem sealed_held (inv : Inv layout s g) (n : Nat)
    : 0 < g.sealed.held n ↔ g.owner n ≠ .outside ∧ g.owner n ≠ .free := by
  have data := inv.accounts.data n
  simp only [Ghost.sealed]
  cases owner : g.owner n with
  | outside | free =>
    simp only [owner, reduceCtorEq, iff_false] at data
    simp only [Owner.token]
    simp
    omega
  | data =>
    simp only [owner, iff_true] at data
    simp
    omega
  | table l => simp [Owner.token]

/-- Sealing keeps the invariant: all that was in use is held by the kernel. -/
theorem sealed (inv : Inv layout s g) : Inv layout s g.sealed := by
  have accounts := inv.accounts
  obtain ⟨pages, list, nodup, free⟩ := accounts.free
  refine ⟨⟨⟨pages, list, nodup, fun n => ?_⟩, fun n => ?_, fun n => ?_, fun n owned => ?_,
    fun l n => ?_⟩, ?_⟩
  · rw [free]
    simp only [Ghost.sealed]
    cases g.owner n <;> simp
  · rw [← accounts.ram]
    simp only [Ghost.sealed]
    cases g.owner n <;> simp
  · rw [Ghost.count, Ghost.sealed_leafCount, Nat.zero_add, inv.sealed_held]
    simp only [Ghost.sealed]
    cases g.owner n <;> simp
  · have ref := accounts.refs n (by
      intro outside
      simp [Ghost.sealed, outside] at owned)
    have token : (g.sealed.owner n).token = 0 := by
      simp only [Ghost.sealed]
      cases g.owner n <;> rfl
    rw [Ghost.count, Ghost.sealed_leafCount, token, ref, Ghost.sealed]
    simp
  · simp only [Ghost.sealed]
    cases g.owner n <;> simp
  · refine ⟨?_, ?_, ?_, ?_, ?_⟩
    · intro l p _ found
      cases found
    · intro l n found
      cases found
    · intro space i _
      rfl
    · intro space v n found
      cases found
    · intro space v _
      rfl

end Inv

/-- What code that worked on a space of its own has left to the others: the space maps no page
that was in use, and those pages keep their contents and their references.
-/
structure Beside (g : Ghost ι) (s : Phys) (u : Ghost Unit) (s' : Phys) : Prop where
  held : u.held = g.sealed.held
  kept : Kept g.sealed s s'
  apart : ∀ v n, u.Maps () v n → g.sealed.held n = 0

theorem Beside.refl (g : Ghost ι) (s : Phys) : Beside g s g.sealed s :=
  ⟨rfl, .refl _ s, fun v n maps => (g.sealed_maps v n maps).elim⟩

/-- A page that was in use is not mapped by the space built beside. -/
theorem Beside.leafCount (beside : Beside g s u s') {n : Nat} (used : 0 < g.sealed.held n)
    : u.leafCount n = 0 := by
  by_contra positive
  obtain ⟨_, v, inside, refers⟩ := countEntries_pos.mp (Nat.pos_of_ne_zero positive)
  simp only [Pte.refersTo, Bool.and_eq_true, beq_iff_eq] at refers
  have none := beside.apart v n ⟨Finset.mem_range.mp inside, refers⟩
  omega

end

-- Side by side

/-- The record of all spaces, the new one among them. -/
def Ghost.join (g : Ghost ι) (u : Ghost Unit) : Ghost (Option ι) where
  table
    | .root none => u.table (.root ())
    | .root (some space) => g.table (.root space)
    | .mid none i => u.table (.mid () i)
    | .mid (some space) i => g.table (.mid space i)
    | .low none q => u.table (.low () q)
    | .low (some space) q => g.table (.low space q)
  leaf
    | none => u.leaf ()
    | some space => g.leaf space
  owner n :=
    match u.owner n with
    | .outside => .outside
    | .free => .free
    | .table l => .table (l.map fun _ => none)
    | .data =>
      match g.owner n with
      | .table l => .table (l.map some)
      | _ => .data
  held := g.held

@[simp] theorem Ghost.join_table_new (g : Ghost ι) (u : Ghost Unit) (l : Label Unit)
    : (g.join u).table (l.map fun _ => none) = u.table l := by
  cases l <;> rfl

@[simp] theorem Ghost.join_table_old (g : Ghost ι) (u : Ghost Unit) (l : Label ι)
    : (g.join u).table (l.map some) = g.table l := by
  cases l <;> rfl

/-- The leaves of the joined spaces are those of both. -/
theorem Ghost.join_leafCount [Fintype ι] (g : Ghost ι) (u : Ghost Unit) (n : Nat)
    : (g.join u).leafCount n = u.leafCount n + g.leafCount n := by
  simp only [Ghost.leafCount, countEntries, Fintype.sum_option, Fintype.sum_unique]
  rfl

section

variable [Fintype ι]

namespace Inv

section

variable (inv : Inv layout s g) (inv' : Inv layout s' u) (beside : Beside g s u s')
include inv inv' beside

/-- Whose page it is, and how many references it has, for a page of either record. -/
theorem join_page (n : Nat)
    : ((0 < (g.join u).count n ↔ (g.join u).owner n = .data)
        ∧ ((g.join u).owner n ≠ .outside
          → s'.refCount n = ((g.join u).count n + ((g.join u).owner n).token : Nat))) := by
  have data := inv'.accounts.data n
  have refs := inv'.accounts.refs n
  have before := inv.accounts.count_zero (n := n)
  have unmapped := beside.leafCount (n := n)
  have held : u.held n = g.count n + (g.owner n).token := by rw [beside.held]; rfl
  have sealed : g.sealed.held n = g.count n + (g.owner n).token := rfl
  have count : (g.join u).count n = u.leafCount n + g.count n := by
    rw [Ghost.count, Ghost.join_leafCount, Ghost.count]
    simp only [Ghost.join]
    omega
  rw [count]
  rw [Ghost.count] at data refs
  rw [sealed] at unmapped
  simp only [Ghost.join]
  cases mine : u.owner n with
  | outside =>
    simp only [mine, reduceCtorEq, iff_false] at data
    simp only [reduceCtorEq, iff_false, ne_eq, not_true_eq_false, false_implies, and_true]
    omega
  | free | table l =>
    simp only [mine, reduceCtorEq, iff_false, ne_eq, not_false_eq_true, true_implies,
      Owner.token] at data refs
    simp only [reduceCtorEq, iff_false, ne_eq, not_false_eq_true, true_implies, Owner.token]
    omega
  | data =>
    simp only [mine, iff_true, ne_eq, reduceCtorEq, not_false_eq_true, true_implies,
      Owner.token] at data refs
    cases theirs : g.owner n with
    | table l =>
      simp only [theirs, ne_eq, reduceCtorEq, not_false_eq_true, true_implies,
        Owner.token] at before held unmapped
      simp only [reduceCtorEq, iff_false, ne_eq, not_false_eq_true, true_implies, Owner.token]
      omega
    | outside | free | data =>
      simp only [theirs, Owner.token] at held
      simp only [iff_true, ne_eq, reduceCtorEq, not_false_eq_true, true_implies, Owner.token]
      omega

/-- The records of the old spaces and of the new one together describe the state. -/
theorem join : Inv layout s' (g.join u) := by
  have nodes (l : Label ι) (n : Nat) (found : g.table l = some n)
      : g.owner n = .table l ∧ u.owner n = .data ∧ s'.mem n = s.mem n := by
    have owner := (inv.accounts.tables l n).mpr found
    have held : 0 < g.sealed.held n := (inv.sealed_held n).mpr (by simp [owner])
    exact ⟨owner, inv'.held_data (beside.held ▸ held), beside.kept n held⟩
  obtain ⟨pages, list, nodup, free⟩ := inv'.accounts.free
  refine ⟨⟨⟨pages, list, nodup, fun n => ?_⟩, fun n => ?_,
    fun n => (inv.join_page inv' beside n).1, fun n => (inv.join_page inv' beside n).2,
    fun l n => ?_⟩, ?_⟩
  · rw [free]
    simp only [Ghost.join]
    cases u.owner n <;> cases g.owner n <;> simp
  · rw [← inv'.accounts.ram]
    simp only [Ghost.join]
    cases u.owner n <;> cases g.owner n <;> simp
  · rcases l.option_cases with ⟨l', rfl⟩ | ⟨l', rfl⟩
    · rw [Ghost.join_table_new, ← inv'.accounts.tables]
      have injective : Injective (Label.map fun _ : Unit => (none : Option ι)) :=
        Label.map_injective fun _ _ _ => rfl
      have other (l : Label ι) : ¬l.map some = l'.map fun _ => (none : Option ι) := by
        intro same
        have := congrArg Label.space same
        simp at this
      simp only [Ghost.join]
      cases mine : u.owner n with
      | outside | free => simp
      | table l => simp [injective.eq_iff]
      | data => cases g.owner n <;> simp [other]
    · have injective : Injective (Label.map (some : ι → Option ι)) :=
        Label.map_injective (Option.some_injective ι)
      have other (l : Label Unit) : ¬(l.map fun _ => (none : Option ι)) = l'.map some := by
        intro same
        have := congrArg Label.space same
        simp at this
      rw [Ghost.join_table_old]
      constructor
      · intro owner
        simp only [Ghost.join] at owner
        cases mine : u.owner n with
        | outside | free => simp [mine] at owner
        | table l => simp [mine, other] at owner
        | data =>
          cases theirs : g.owner n with
          | outside | free | data => simp [mine, theirs] at owner
          | table l =>
            simp only [mine, theirs, Owner.table.injEq, injective.eq_iff] at owner
            exact (inv.accounts.tables l' n).mp (owner ▸ theirs)
      · intro found
        obtain ⟨theirs, mine, _⟩ := nodes l' n found
        simp only [Ghost.join, mine, theirs]
  · refine ⟨fun l p inner above => ?_, fun l n found => ?_, fun space i high => ?_,
      fun space v n found => ?_, fun space v none => ?_⟩
    · rcases l.option_cases with ⟨l', rfl⟩ | ⟨l', rfl⟩
      · rw [Label.parent_map, Ghost.join_table_new] at above
        rw [Label.index_map, Ghost.join_table_new]
        exact inv'.shape.entries l' p ((Label.inner_map _ l').mp inner) above
      · rw [Label.parent_map, Ghost.join_table_old] at above
        rw [Label.index_map, Ghost.join_table_old, (nodes _ p above).2.2]
        exact inv.shape.entries l' p ((Label.inner_map _ l').mp inner) above
    · rcases l.option_cases with ⟨l', rfl⟩ | ⟨l', rfl⟩
      · rw [Ghost.join_table_new] at found
        obtain ⟨p, above⟩ := inv'.shape.parents l' n found
        exact ⟨p, by rw [Label.parent_map, Ghost.join_table_new, above]⟩
      · rw [Ghost.join_table_old] at found
        obtain ⟨p, above⟩ := inv.shape.parents l' n found
        exact ⟨p, by rw [Label.parent_map, Ghost.join_table_old, above]⟩
    · cases space with
      | none => exact inv'.shape.upper () i high
      | some space => exact inv.shape.upper space i high
    · cases space with
      | none => exact inv'.shape.leaves () v n found
      | some space =>
        have same := (nodes (.low space (v / 512)) n found).2.2
        rw [same]
        exact inv.shape.leaves space v n found
    · cases space with
      | none => exact inv'.shape.unmapped () v none
      | some space => exact inv.shape.unmapped space v none

/-- A space of its own that is gone again leaves the record of the others as it was. -/
theorem restore (gone : u.table (.root ()) = none) : Inv layout s' g := by
  have unmapped (n : Nat) : u.leafCount n = 0 := by
    by_contra positive
    obtain ⟨_, v, _, refers⟩ := countEntries_pos.mp (Nat.pos_of_ne_zero positive)
    rw [inv'.absent_leaf gone v, refersTo_zero] at refers
    cases refers
  have count (n : Nat) : u.count n = g.count n + (g.owner n).token := by
    rw [Ghost.count, unmapped, beside.held, Nat.zero_add]
    rfl
  have noTable (n : Nat) (l : Label Unit) : u.owner n ≠ .table l := by
    intro owner
    have found := (inv'.accounts.tables l n).mp owner
    rw [inv'.shape.rootless l gone] at found
    cases found
  have kept (l : Label ι) (n : Nat) (found : g.table l = some n) : s'.mem n = s.mem n := by
    have owner := (inv.accounts.tables l n).mpr found
    exact beside.kept n ((inv.sealed_held n).mpr (by simp [owner]))
  have used (n : Nat) : u.owner n = .data ↔ g.owner n ≠ .outside ∧ g.owner n ≠ .free := by
    rw [← inv'.accounts.data, count, ← inv.sealed_held]
    rfl
  have inside (n : Nat) : u.owner n ≠ .outside ↔ g.owner n ≠ .outside := by
    rw [inv'.accounts.ram, inv.accounts.ram]
  obtain ⟨pages, list, nodup, free⟩ := inv'.accounts.free
  refine ⟨⟨⟨pages, list, nodup, fun n => ?_⟩, inv.accounts.ram, inv.accounts.data,
    fun n owned => ?_, inv.accounts.tables⟩, inv.shape.frame kept⟩
  · rw [free]
    have isUsed := used n
    have isInside := inside n
    cases mine : u.owner n with
    | table l => exact (noTable n l mine).elim
    | outside | free | data => cases theirs : g.owner n <;> simp_all
  · have refs := inv'.accounts.refs n ((inside n).mpr owned)
    have token : (u.owner n).token = 0 := by
      cases mine : u.owner n with
      | table l => exact (noTable n l mine).elim
      | outside | free | data => rfl
    rw [token, count] at refs
    simpa using refs

end

end Inv

end

-- Other names for the spaces

/-- The record under other names; `back` gives the new name of a space that has one. -/
def Ghost.rename (g : Ghost ι) (name : κ → ι) (back : ι → Option κ) : Ghost κ where
  table l := g.table (l.map name)
  leaf space := g.leaf (name space)
  owner n :=
    match g.owner n with
    | .outside => .outside
    | .free => .free
    | .data => .data
    | .table l =>
      match back l.space with
      | some space => .table (l.map fun _ => space)
      | none => .outside
  held := g.held

section

variable [Fintype ι] [Fintype κ]

/-- Spaces may be renamed when those that lose their names are empty. -/
theorem Inv.rename (inv : Inv layout s g) {name : κ → ι} {back : ι → Option κ}
    (names : ∀ i k, back i = some k ↔ name k = i)
    (rest : ∀ i, back i = none → g.table (.root i) = none)
    : Inv layout s (g.rename name back) := by
  have injective : Injective name := by
    intro k k' same
    have first := (names (name k) k).mpr rfl
    rw [same, (names (name k') k').mpr rfl] at first
    exact (Option.some.inj first).symm
  have absent (l : Label ι) (nameless : back l.space = none) : g.table l = none :=
    inv.shape.rootless l (rest _ nameless)
  have named {n : Nat} {l : Label ι} (owner : g.owner n = .table l)
      : ∃ k, back l.space = some k := by
    have found := (inv.accounts.tables l n).mp owner
    cases nameless : back l.space with
    | some k => exact ⟨k, rfl⟩
    | none =>
      rw [absent l nameless] at found
      cases found
  have leafCount (n : Nat) : (g.rename name back).leafCount n = g.leafCount n := by
    simp only [Ghost.leafCount, countEntries, Ghost.rename]
    refine Fintype.sum_of_injective name injective _ _ (fun i outside => ?_) fun _ => rfl
    have nameless : back i = none := by
      cases known : back i with
      | none => rfl
      | some k => exact (outside ⟨k, (names i k).mp known⟩).elim
    refine Finset.sum_eq_zero fun v _ => ?_
    rw [inv.absent_leaf (rest i nameless) v, refersTo_zero, Bool.toNat_false]
  have count (n : Nat) : (g.rename name back).count n = g.count n := by
    rw [Ghost.count, leafCount]
    rfl
  have owners (n : Nat)
      : ((g.rename name back).owner n = .free ↔ g.owner n = .free)
        ∧ ((g.rename name back).owner n = .outside ↔ g.owner n = .outside)
        ∧ ((g.rename name back).owner n = .data ↔ g.owner n = .data) := by
    simp only [Ghost.rename]
    cases owner : g.owner n with
    | outside | free | data => simp
    | table l =>
      obtain ⟨k, known⟩ := named owner
      simp [known]
  obtain ⟨pages, list, nodup, free⟩ := inv.accounts.free
  refine ⟨⟨⟨pages, list, nodup, fun n => ?_⟩, fun n => ?_, fun n => ?_, fun n owned => ?_,
    fun l n => ?_⟩, ?_⟩
  · rw [free, (owners n).1]
  · rw [← inv.accounts.ram, ne_eq, (owners n).2.1]
  · rw [count, inv.accounts.data, (owners n).2.2]
  · rw [count]
    simp only [Ghost.rename] at owned ⊢
    cases owner : g.owner n with
    | outside => simp [owner] at owned
    | free | data =>
      simpa [owner, Owner.token] using inv.accounts.refs n (by simp [owner])
    | table l =>
      obtain ⟨k, known⟩ := named owner
      simpa [owner, known, Owner.token] using inv.accounts.refs n (by simp [owner])
  · simp only [Ghost.rename]
    constructor
    · intro isTable
      cases owner : g.owner n with
      | outside | free | data => simp [owner] at isTable
      | table l' =>
        obtain ⟨k, known⟩ := named owner
        simp only [owner, known, Owner.table.injEq] at isTable
        rw [← isTable, Label.map_map, (names _ k).mp known, Label.map_const]
        exact (inv.accounts.tables l' n).mp owner
    · intro found
      have owner := (inv.accounts.tables _ n).mpr found
      have known : back (l.map name).space = some l.space := by
        rw [Label.space_map]
        exact (names _ _).mpr rfl
      simp only [owner, known, Label.map_map, Owner.table.injEq]
      exact Label.map_const l
  · refine ⟨fun l p inner above => ?_, fun l n found => ?_, fun space i high => ?_,
      fun space v n found => ?_, fun space v none => ?_⟩
    · have entry := inv.shape.entries (l.map name) p ((Label.inner_map _ l).mpr inner)
        (by rw [Label.parent_map]; exact above)
      rwa [Label.index_map] at entry
    · obtain ⟨p, above⟩ := inv.shape.parents _ n found
      exact ⟨p, by rw [Label.parent_map] at above; exact above⟩
    · exact inv.shape.upper (name space) i high
    · exact inv.shape.leaves (name space) v n found
    · exact inv.shape.unmapped (name space) v none

end

end Xv6.Vm

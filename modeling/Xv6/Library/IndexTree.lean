import Mathlib

/-! Trees in a store of nodes. A node lists the addresses of its children, with a null address for
a missing child, and a path of indices leads from a root to a node. The trees have a depth: what
lies below it is not part of them.
-/

namespace Xv6.Library.IndexTree

open Function

variable {Root Index Address : Type} {null : Address} {depth : Root → Nat}
  {roots roots' : Root → Address} {child child' : Address → Index → Address}
variable {r : Root} {path : List Index}

/-- A root and the way from it. -/
abbrev Position (Root Index : Type) := Root × List Index

/-- The address at a position. -/
def locate (roots : Root → Address) (child : Address → Index → Address)
    (p : Position Root Index)
    : Address :=
  p.2.foldl child (roots p.1)

/-- The position belongs to a tree. -/
def Within (depth : Root → Nat) (p : Position Root Index) : Prop := p.2.length ≤ depth p.1

/-- The node at the position has children. -/
def Inner (depth : Root → Nat) (p : Position Root Index) : Prop := p.2.length < depth p.1

/-- The position is at the bottom of its tree. -/
def Leaf (depth : Root → Nat) (p : Position Root Index) : Prop := p.2.length = depth p.1

@[simp] theorem locate_nil (roots : Root → Address) (child : Address → Index → Address) (r : Root)
    : locate roots child (r, []) = roots r := rfl

theorem locate_snoc (roots : Root → Address) (child : Address → Index → Address) (r : Root)
    (path : List Index) (i : Index)
    : locate roots child (r, path ++ [i]) = child (locate roots child (r, path)) i := by
  simp [locate]

theorem Within.init {i : Index} (within : Within depth (r, path ++ [i]))
    : Inner depth (r, path) := by
  unfold Within at within
  simp only [List.length_append] at within
  exact within

theorem Inner.within {p : Position Root Index} (inner : Inner depth p) : Within depth p :=
  Nat.le_of_lt inner

theorem Inner.snoc (inner : Inner depth (r, path)) (i : Index)
    : Within depth (r, path ++ [i]) := by
  unfold Within
  simp only [List.length_append]
  exact inner

/-- An invariant of positions that holds at roots and goes on to children. -/
theorem position_induction {holds : Position Root Index → Prop} (root : ∀ r, holds (r, []))
    (next : ∀ r path i, holds (r, path) → holds (r, path ++ [i])) (p : Position Root Index)
    : holds p := by
  obtain ⟨r, path⟩ := p
  induction path using List.reverseRecOn with
  | nil => exact root r
  | append_singleton path i ih => exact next r path i ih

/-- Below a missing node nothing is present. -/
theorem locate_below (none : ∀ i, child null i = null)
    (missing : locate roots child (r, path) = null) (rest : List Index)
    : locate roots child (r, path ++ rest) = null := by
  induction rest using List.reverseRecOn with
  | nil => rwa [List.append_nil]
  | append_singleton rest i ih => rw [← List.append_assoc, locate_snoc, ih, none]

/-- Trees whose nodes are the same stand at the same addresses. -/
theorem locate_agree
    (agree
      : ∀ p, Inner depth p → child' (locate roots child p) = child (locate roots child p))
    (p : Position Root Index) (within : Within depth p)
    : locate roots child' p = locate roots child p := by
  induction p using position_induction with
  | root r => rfl
  | next r path i ih =>
    have inner := within.init
    rw [locate_snoc, locate_snoc, ih inner.within, agree (r, path) inner]

/-- No node is at two positions, and a missing node has no children. -/
structure Forest (null : Address) (depth : Root → Nat) (roots : Root → Address)
    (child : Address → Index → Address)
    : Prop where
  none : ∀ i, child null i = null
  single : ∀ p q, Within depth p → Within depth q
    → locate roots child p = locate roots child q → locate roots child p ≠ null → p = q

/-- The address is at no position. -/
def Fresh (depth : Root → Nat) (roots : Root → Address) (child : Address → Index → Address)
    (a : Address)
    : Prop :=
  ∀ p, Within depth p → locate roots child p ≠ a

section

variable [DecidableEq Root] [DecidableEq Index] {a x : Address} {r : Root}
  {path : List Index} {i : Index}

/-- A new node without children becomes the root of an empty tree. -/
theorem Forest.locate_plant (forest : Forest null depth roots child)
    (empty : roots r = null) (bare : ∀ i, child' a i = null)
    (agree : ∀ p, Inner depth p → child' (locate roots child p) = child (locate roots child p))
    (p : Position Root Index) (within : Within depth p)
    : locate (update roots r a) child' p
      = if p = (r, []) then a else locate roots child p := by
  have missing (rest : List Index) : locate roots child (r, rest) = null := by
    have atRoot : locate roots child (r, []) = null := empty
    simpa using locate_below forest.none atRoot rest
  induction p using position_induction with
  | root s =>
    by_cases same : s = r
    · subst same
      simp [locate]
    · simp [same]
  | next s path' j ih =>
    have inner := within.init
    rw [if_neg (by simp), locate_snoc, ih inner.within]
    split_ifs with here
    · cases here
      rw [bare, missing]
    · rw [agree _ inner, locate_snoc]

/-- A new node without children takes the place of a missing child. -/
theorem Forest.locate_attach (forest : Forest null depth roots child)
    (inner : Inner depth (r, path)) (parent : locate roots child (r, path) = x)
    (present : x ≠ null) (missing : child x i = null) (bare : ∀ j, child' a j = null)
    (attached : child' x = update (child x) i a)
    (agree : ∀ p, Inner depth p → locate roots child p ≠ x
      → child' (locate roots child p) = child (locate roots child p))
    (p : Position Root Index) (within : Within depth p)
    : locate roots child' p = if p = (r, path ++ [i]) then a else locate roots child p := by
  induction p using position_induction with
  | root s =>
    rw [if_neg (by simp)]
    rfl
  | next s path' j ih =>
    have innerP := within.init
    rw [locate_snoc, ih innerP.within]
    by_cases below : (s, path') = (r, path ++ [i])
    · -- The children of the new node were missing before.
      cases below
      rw [if_pos rfl, bare, if_neg (by simp), locate_snoc, locate_snoc, parent, missing,
        forest.none]
    · rw [if_neg below, locate_snoc]
      by_cases here : locate roots child (s, path') = x
      · have same := forest.single _ _ innerP.within inner.within (here.trans parent.symm)
          (here ▸ present)
        cases same
        rw [here, attached]
        by_cases isI : j = i
        · subst isI
          rw [update_self, if_pos rfl]
        · rw [update_of_ne isI, if_neg]
          simpa using isI
      · rw [agree _ innerP here, if_neg]
        intro same
        obtain ⟨rfl, tails⟩ := Prod.mk.inj same
        obtain ⟨rfl, _⟩ := List.append_inj' tails rfl
        exact here parent

/-- One more address keeps the positions apart. -/
theorem Forest.grow (forest : Forest null depth roots child)
    {target : Position Root Index} (fresh : Fresh depth roots child a)
    (none : ∀ i, child' null i = null)
    (grown : ∀ p, Within depth p
      → locate roots' child' p = if p = target then a else locate roots child p)
    : Forest null depth roots' child' := by
  refine ⟨none, fun p q withinP withinQ same present => ?_⟩
  rw [grown p withinP] at same present
  rw [grown q withinQ] at same
  by_cases isP : p = target <;> by_cases isQ : q = target
  · exact isP.trans isQ.symm
  · rw [if_pos isP, if_neg isQ] at same
    exact (fresh q withinQ same.symm).elim
  · rw [if_neg isP, if_pos isQ] at same
    exact (fresh p withinP same).elim
  · rw [if_neg isP, if_neg isQ] at same
    rw [if_neg isP] at present
    exact forest.single p q withinP withinQ same present

end

/-- Trees that lose some of their addresses still keep the others apart. -/
theorem Forest.prune (forest : Forest null depth roots child) (none : ∀ i, child' null i = null)
    (pruned : ∀ p, Within depth p
      → locate roots' child' p = locate roots child p ∨ locate roots' child' p = null)
    : Forest null depth roots' child' := by
  refine ⟨none, fun p q withinP withinQ same present => ?_⟩
  have keptP := (pruned p withinP).resolve_right present
  have keptQ := (pruned q withinQ).resolve_right (same ▸ present)
  rw [keptP] at same present
  rw [keptQ] at same
  exact forest.single p q withinP withinQ same present

end Xv6.Library.IndexTree

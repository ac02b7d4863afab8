import Mathlib

/-! Doubly linked circular lists through a sentinel. The place of an element is `some` of it
and the sentinel's own place is `none`. Links thread a list when at each of its cuts the
places on the two sides point at each other.
-/

namespace Xv6.Library

open Function

variable {α : Type}

structure Links (α : Type) where
  next : Option α → Option α
  prev : Option α → Option α

namespace Links

variable {a : α} {l left right : List α} {fuel : Nat}

/-- The last place of one list and the first place of the other point at each other. -/
def Meet (links : Links α) (left right : List α) : Prop :=
  links.next left.getLast? = right.head? ∧ links.prev right.head? = left.getLast?

/-- The two sides of every cut of the list meet. -/
def Threads (links : Links α) (order : List α) : Prop :=
  ∀ left right, order = left ++ right → links.Meet left right

variable {links : Links α} {order : List α}

theorem getLast?_cons_of_ne (some : l ≠ [])
    : (a :: l).getLast? = l.getLast? := by
  rw [← List.singleton_append, List.getLast?_append_of_ne_nil _ some]

/-- A list is threaded when its parts are and meet. -/
theorem threads_append
    : links.Threads (left ++ right)
      ↔ (∀ l m, left = l ++ m → m ≠ [] → links.Meet l m) ∧ links.Meet left right
        ∧ ∀ m r, right = m ++ r → m ≠ [] → links.Meet m r := by
  have leftEnd {m : List α} (some : m ≠ []) : (left ++ m).getLast? = m.getLast? :=
    List.getLast?_append_of_ne_nil left some
  have rightStart {m : List α} (some : m ≠ []) : (m ++ right).head? = m.head? :=
    List.head?_append_of_ne_nil m some
  constructor
  · intro threads
    refine ⟨?_, threads left right rfl, ?_⟩
    · rintro l m rfl some
      have cut := threads l (m ++ right) (by simp)
      rwa [Meet, rightStart some] at cut
    · rintro m r rfl some
      have cut := threads (left ++ m) r (by simp)
      rwa [Meet, leftEnd some] at cut
  · rintro ⟨inLeft, between, inRight⟩ l r split
    rcases List.append_eq_append_iff.mp split with ⟨m, rfl, rfl⟩ | ⟨m, rfl, rfl⟩
    · by_cases here : m = []
      · simpa [here] using between
      · rw [Meet, leftEnd here]
        exact inRight m r rfl here
    · by_cases here : m = []
      · simpa [here] using between
      · rw [Meet, rightStart here]
        exact inLeft l m rfl here

-- Searching

inductive Sought (α : Type) where
  | found (a : α)
  | absent
  | endless
  deriving DecidableEq

/-- The outcome of a search that ends. -/
def Sought.ofOption : Option α → Sought α
  | some a => .found a
  | none => .absent

/-- Follows the pointers from a place until an element passes the test or the sentinel is
reached. A search that has looked at as many elements as there are never ends.
-/
def seek (step : Option α → Option α) (test : α → Bool) : Nat → Option α → Sought α
  | _, none => .absent
  | 0, some _ => .endless
  | fuel + 1, some a => if test a then .found a else seek step test fuel (step (some a))

section

variable (threads : links.Threads order) (test : α → Bool)
include threads test

theorem seek_next_from (left : List α) (split : order = left ++ right)
    (enough : right.length ≤ fuel)
    : seek links.next test fuel right.head? = .ofOption (right.find? test) := by
  induction right generalizing left fuel with
  | nil => cases fuel <;> rfl
  | cons a rest ih =>
    obtain ⟨fuel, rfl⟩ : ∃ more, fuel = more + 1 :=
      Nat.exists_eq_add_one_of_ne_zero (by simp at enough; omega)
    have later : order = (left ++ [a]) ++ rest := by simp [split]
    have step := (threads _ _ later).1
    rw [List.getLast?_concat] at step
    rw [List.head?_cons, seek, List.find?_cons]
    cases test a with
    | true => rfl
    | false => exact step ▸ ih _ later (by simpa using enough)

/-- Searching forward finds the first element that passes. -/
theorem seek_next (enough : order.length ≤ fuel)
    : seek links.next test fuel (links.next none) = .ofOption (order.find? test) := by
  have first := (threads [] order rfl).1
  rw [List.getLast?_nil] at first
  rw [first]
  exact seek_next_from threads test [] rfl enough

theorem seek_prev_from (right : List α) (split : order = left ++ right)
    (enough : left.length ≤ fuel)
    : seek links.prev test fuel left.getLast? = .ofOption (left.reverse.find? test) := by
  induction left using List.reverseRecOn generalizing right fuel with
  | nil => cases fuel <;> rfl
  | append_singleton rest a ih =>
    obtain ⟨fuel, rfl⟩ : ∃ more, fuel = more + 1 :=
      Nat.exists_eq_add_one_of_ne_zero (by simp at enough; omega)
    have earlier : order = rest ++ (a :: right) := by simp [split]
    have step := (threads _ _ earlier).2
    rw [List.getLast?_concat, seek, List.reverse_concat, List.find?_cons]
    cases test a with
    | true => rfl
    | false => exact step ▸ ih _ earlier (by simpa using enough)

/-- Searching backward finds the last element that passes. -/
theorem seek_prev (enough : order.length ≤ fuel)
    : seek links.prev test fuel (links.prev none) = .ofOption (order.reverse.find? test) := by
  have last := (threads order [] (by simp)).2
  rw [List.head?_nil] at last
  rw [last]
  exact seek_prev_from threads test [] (by simp) enough

end

-- Taking an element out and putting one in front

variable [DecidableEq α]

def setNext (links : Links α) (place target : Option α) : Links α :=
  { links with next := update links.next place target }

def setPrev (links : Links α) (place target : Option α) : Links α :=
  { links with prev := update links.prev place target }

/-- Takes an element out; its own pointers stay. -/
def unlink (links : Links α) (a : α) : Links α :=
  let links := links.setPrev (links.next (some a)) (links.prev (some a))
  links.setNext (links.prev (some a)) (links.next (some a))

/-- Puts an element behind the sentinel. -/
def pushFront (links : Links α) (a : α) : Links α :=
  let links := links.setNext (some a) (links.next none)
  let links := links.setPrev (some a) none
  let links := links.setPrev (links.next none) (some a)
  links.setNext none (some a)

omit [DecidableEq α] in
/-- Lists without common elements end at different places, unless both are empty. -/
theorem getLast?_ne {m : List α} (apart : ∀ x ∈ l, x ∉ m) (some : m ≠ [])
    : m.getLast? ≠ l.getLast? := by
  rw [List.getLast?_eq_some_getLast some]
  intro same
  exact apart _ (List.mem_of_getLast? same.symm) (List.getLast_mem some)

omit [DecidableEq α] in
/-- Lists without common elements begin at different places, unless both are empty. -/
theorem head?_ne {m : List α} (apart : ∀ x ∈ l, x ∉ m) (some : m ≠ [])
    : m.head? ≠ l.head? := by
  rw [List.head?_eq_some_head some]
  intro same
  exact apart _ (List.mem_of_head? same.symm) (List.head_mem some)

/-- Other places than the ones that change still meet. -/
theorem Meet.update (meet : links.Meet left right) {place place' target target' : Option α}
    (end_ne : left.getLast? ≠ place) (start_ne : right.head? ≠ place')
    : Meet ⟨update links.next place target, update links.prev place' target'⟩
        left right :=
  ⟨(update_of_ne end_ne _ _).trans meet.1,
    (update_of_ne start_ne _ _).trans meet.2⟩

/-- What is left when an element goes: the places on its two sides point at each other. -/
theorem Threads.unlink_eq (threads : links.Threads (left ++ a :: right)) (other : a ∉ right)
    : links.unlink a
      = ⟨update links.next left.getLast? right.head?,
          update links.prev right.head? left.getLast?⟩ := by
  have behind : links.next (some a) = right.head? := by
    have meet := threads (left ++ [a]) right (by simp)
    rw [Meet, List.getLast?_concat] at meet
    exact meet.1
  have before : links.prev (some a) = left.getLast? := (threads left (a :: right) rfl).2
  have apart : some a ≠ right.head? := fun same => other (List.mem_of_head? same.symm)
  simp only [Links.unlink, setPrev, setNext, behind, before, update_of_ne apart]

/-- The list without the element is threaded. -/
theorem Threads.unlink (threads : links.Threads (left ++ a :: right))
    (nodup : (left ++ a :: right).Nodup)
    : (links.unlink a).Threads (left ++ right) := by
  obtain ⟨nodupLeft, inner, disjoint⟩ := List.nodup_append.mp nodup
  obtain ⟨other, nodupRight⟩ := List.nodup_cons.mp inner
  have apart : ∀ x ∈ left, x ∉ right := by
    intro x inLeft inRight
    exact disjoint x inLeft x (List.mem_cons_of_mem a inRight) rfl
  obtain ⟨inLeft, _, inRight⟩ := threads_append.mp threads
  rw [threads.unlink_eq other, threads_append]
  refine ⟨?_, ⟨update_self _ _ _, update_self _ _ _⟩, ?_⟩
  · rintro l m rfl some
    refine (inLeft l m rfl some).update (Ne.symm ?_) (head?_ne ?_ some)
    · rw [List.getLast?_append_of_ne_nil l some]
      refine getLast?_ne ?_ some
      intro x first second
      exact (List.nodup_append.mp nodupLeft).2.2 x first x second rfl
    · intro x right inM
      exact apart x (List.mem_append_right l inM) right
  · rintro m r rfl some
    have meet := inRight (a :: m) r rfl (List.cons_ne_nil a m)
    rw [Meet, getLast?_cons_of_ne some] at meet
    refine Meet.update meet (getLast?_ne ?_ some) (Ne.symm ?_)
    · intro x left inM
      exact apart x left (List.mem_append_left r inM)
    · rw [List.head?_append_of_ne_nil m some]
      refine head?_ne ?_ some
      intro x first second
      exact (List.nodup_append.mp nodupRight).2.2 x second x first rfl

/-- The list with the element in front is threaded. -/
theorem Threads.pushFront (threads : links.Threads order) (nodup : order.Nodup) (new : a ∉ order)
    : (links.pushFront a).Threads ([a] ++ order) := by
  have first : links.next none = order.head? := (threads [] order rfl).1
  have start_ne : some a ≠ order.head? := fun same => new (List.mem_of_head? same.symm)
  have pushed : links.pushFront a
      = ⟨update (update links.next (some a) order.head?) none (some a),
          update (update links.prev (some a) none) order.head? (some a)⟩ := by
    simp [Links.pushFront, setPrev, setNext, first]
  rw [pushed, threads_append]
  refine ⟨?_, ⟨?_, update_self _ _ _⟩, ?_⟩
  · rintro l m split some
    obtain ⟨rfl, rfl⟩ | ⟨_, rfl⟩ := List.append_eq_singleton_iff.mp split.symm
    · simp [Meet, update_of_ne start_ne]
    · exact (some rfl).elim
  · simp
  · rintro m r rfl some
    have meet : Meet ⟨update links.next (Option.some a) (m ++ r).head?,
        update links.prev (Option.some a) none⟩ m r := by
      refine (threads m r rfl).update ?_ ?_
      · intro same
        exact new (List.mem_append_left r (List.mem_of_getLast? same))
      · intro same
        exact new (List.mem_append_right m (List.mem_of_head? same))
    refine Meet.update meet ?_ (Ne.symm ?_)
    · rw [List.getLast?_eq_some_getLast some]
      simp
    · rw [List.head?_append_of_ne_nil m some]
      refine head?_ne ?_ some
      intro x first second
      exact (List.nodup_append.mp nodup).2.2 x second x first rfl

/-- Elements that come to the front one after the other stand in reverse order. -/
theorem Threads.pushAll (elements : List α) (threads : links.Threads order)
    (nodup : (elements.reverse ++ order).Nodup)
    : (elements.foldl Links.pushFront links).Threads (elements.reverse ++ order) := by
  induction elements generalizing links order with
  | nil => exact threads
  | cons a rest ih =>
    have split : (a :: rest).reverse ++ order = rest.reverse ++ ([a] ++ order) := by simp
    rw [split] at nodup ⊢
    have inner := List.nodup_cons.mp (List.nodup_append.mp nodup).2.1
    exact ih (threads.pushFront inner.2 inner.1) nodup

end Links

end Xv6.Library

import Mathlib.Computability.Language

/-! The pattern matcher of `user/grep.c`. A string is the list of its characters before the NUL. -/

namespace Xv6.User

open Computability

-- The code

/-- `matchstar`, for the `matchhere` of the rest of the pattern. -/
def matchstar (matchhere : List Char → Bool) (c : Char) : List Char → Bool
  | [] => matchhere []
  | t :: text => matchhere (t :: text) || ((t == c || c == '.') && matchstar matchhere c text)

def matchhere : List Char → List Char → Bool
  | [], _ => true
  | c :: '*' :: re, text => matchstar (matchhere re) c text
  | ['$'], text => text.isEmpty
  | c :: re, t :: text => (c == '.' || c == t) && matchhere re text
  | _ :: _, [] => false

/-- The loop of `match`. -/
def matchLoop (re : List Char) : List Char → Bool
  | [] => matchhere re []
  | t :: text => matchhere re (t :: text) || matchLoop re text

/-- `match`. -/
def matchText (re text : List Char) : Bool :=
  if re.head? = some '^' then matchhere re.tail text else matchLoop re text

-- The meaning of patterns

inductive Item where
  | one (c : Char)
  | star (c : Char)

/-- What the items of a pattern are, and whether a `$` ends it. -/
def items : List Char → List Item × Bool
  | [] => ([], false)
  | c :: '*' :: re => (.star c :: (items re).1, (items re).2)
  | ['$'] => ([], true)
  | c :: re => (.one c :: (items re).1, (items re).2)

/-- The words of one letter that a character of a pattern stands for. -/
def letter (c : Char) : Language Char := {w | ∃ t, w = [t] ∧ (c = '.' ∨ c = t)}

def Item.language : Item → Language Char
  | one c => letter c
  | star c => (letter c)∗

/-- Some word of the language stands at the beginning of the text, and is all of it if `final`. -/
def Begins (words : Language Char) (final : Bool) (text : List Char) : Prop :=
  ∃ w after, w ++ after = text ∧ w ∈ words ∧ (final = true → after = [])

/-- The language of the items of a pattern. -/
def language (re : List Char) : Language Char := ((items re).1.map Item.language).prod

variable {c : Char} {words : Language Char} {final : Bool} {text : List Char}

theorem begins_letter
    : Begins (letter c * words) final text
      ↔ ∃ t rest, text = t :: rest ∧ (c = '.' ∨ c = t) ∧ Begins words final rest := by
  constructor
  · rintro ⟨_, after, rfl, member, ends⟩
    obtain ⟨_, ⟨t, rfl, stands⟩, w, inside, rfl⟩ := Language.mem_mul.mp member
    exact ⟨t, w ++ after, rfl, stands, w, after, rfl, inside, ends⟩
  · rintro ⟨t, _, rfl, stands, w, after, rfl, member, ends⟩
    exact ⟨t :: w, after, rfl, Language.mem_mul.mpr ⟨[t], ⟨t, rfl, stands⟩, w, member, rfl⟩, ends⟩

theorem begins_star
    : Begins ((letter c)∗ * words) final text
      ↔ Begins words final text ∨ Begins (letter c * ((letter c)∗ * words)) final text := by
  rw [← mul_assoc]
  nth_rewrite 1 [← Language.one_add_self_mul_kstar_eq_kstar]
  rw [add_mul, one_mul]
  constructor
  · rintro ⟨w, after, same, member | member, ends⟩
    · exact .inl ⟨w, after, same, member, ends⟩
    · exact .inr ⟨w, after, same, member, ends⟩
  · rintro (⟨w, after, same, member, ends⟩ | ⟨w, after, same, member, ends⟩)
    · exact ⟨w, after, same, .inl member, ends⟩
    · exact ⟨w, after, same, .inr member, ends⟩

theorem matchstar_iff {here : List Char → Bool}
    (rest : ∀ text, here text = true ↔ Begins words final text) (text : List Char)
    : matchstar here c text = true ↔ Begins ((letter c)∗ * words) final text := by
  induction text with
  | nil =>
    rw [begins_star, begins_letter, matchstar, rest]
    simp
  | cons t text ih =>
    have stands : (t == c || c == '.') = true ↔ c = '.' ∨ c = t := by
      rw [Bool.or_eq_true, beq_iff_eq, beq_iff_eq, or_comm, eq_comm (a := t)]
    rw [begins_star, begins_letter, matchstar, Bool.or_eq_true, rest, Bool.and_eq_true, ih,
      stands]
    simp

theorem matchhere_iff (re text : List Char)
    : matchhere re text = true ↔ Begins (language re) (items re).2 text := by
  induction re using items.induct generalizing text with
  | case1 => exact iff_of_true (matchhere.eq_1 text) ⟨[], text, rfl, rfl, nofun⟩
  | case2 c re ih => exact matchstar_iff ih text
  | case3 =>
    rw [matchhere, List.isEmpty_iff]
    constructor
    · rintro rfl
      exact ⟨[], [], rfl, rfl, fun _ => rfl⟩
    · rintro ⟨w, after, rfl, rfl, ends⟩
      exact ends rfl
  | case4 c re notStar notEnd ih =>
    rw [language, items.eq_4 c re notStar notEnd, List.map_cons, List.prod_cons]
    refine Iff.trans ?_ begins_letter.symm
    cases text with
    | nil => simp [matchhere.eq_5 c re notStar notEnd]
    | cons t text =>
      rw [matchhere.eq_4 c re t text notStar notEnd, Bool.and_eq_true, ih]
      simp [language]

theorem matchLoop_iff (re text : List Char)
    : matchLoop re text = true
      ↔ ∃ before rest, before ++ rest = text ∧ matchhere re rest = true := by
  induction text with
  | nil => simp [matchLoop]
  | cons t text ih =>
    rw [matchLoop, Bool.or_eq_true, ih]
    constructor
    · rintro (here | ⟨before, rest, rfl, later⟩)
      · exact ⟨[], t :: text, rfl, here⟩
      · exact ⟨t :: before, rest, rfl, later⟩
    · rintro ⟨before, rest, split, found⟩
      cases before with
      | nil => exact .inl (split ▸ found)
      | cons b before =>
        obtain ⟨rfl, rfl⟩ := List.cons.inj split
        exact .inr ⟨before, rest, rfl, found⟩

/-- The pattern without the `^` that anchors it. -/
def body (re : List Char) : List Char := if re.head? = some '^' then re.tail else re

/-- The matcher finds the words of the language of the pattern. -/
theorem match_is_language_search (re text : List Char)
    : matchText re text = true
      ↔ ∃ before w after, before ++ (w ++ after) = text ∧ w ∈ language (body re)
        ∧ (re.head? = some '^' → before = []) ∧ ((items (body re)).2 = true → after = []) := by
  unfold matchText body
  by_cases anchored : re.head? = some '^'
  · rw [if_pos anchored, if_pos anchored, matchhere_iff]
    constructor
    · rintro ⟨w, after, rfl, member, ends⟩
      exact ⟨[], w, after, rfl, member, fun _ => rfl, ends⟩
    · rintro ⟨before, w, after, rfl, member, start, ends⟩
      rw [start anchored]
      exact ⟨w, after, rfl, member, ends⟩
  · rw [if_neg anchored, if_neg anchored, matchLoop_iff]
    constructor
    · rintro ⟨before, rest, rfl, found⟩
      obtain ⟨w, after, rfl, member, ends⟩ := (matchhere_iff re rest).mp found
      exact ⟨before, w, after, rfl, member, fun start => absurd start anchored, ends⟩
    · rintro ⟨before, w, after, rfl, member, _, ends⟩
      exact ⟨before, w ++ after, rfl, (matchhere_iff re _).mpr ⟨w, after, rfl, member, ends⟩⟩

end Xv6.User

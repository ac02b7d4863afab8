import Mathlib

/-! `memmove` of `kernel/string.c` and of `user/ulib.c`, on a memory of 64-bit addresses. -/

namespace Xv6.User

open Function

abbrev Memory := BitVec 64 → BitVec 8

variable {dst src d s step : BitVec 64} {n : BitVec 32}

/-- The loops copy `n` bytes, and both pointers go by one byte up or down each time. -/
def copyLoop (step : BitVec 64) : Nat → BitVec 64 → BitVec 64 → Memory → Memory
  | 0, _, _, mem => mem
  | n + 1, d, s, mem => copyLoop step n (d + step) (s + step) (update mem d (mem s))

/-- `while(n-- > 0) *d++ = *s++;` -/
def copyUp : Nat → BitVec 64 → BitVec 64 → Memory → Memory := copyLoop 1

/-- `while(n-- > 0) *--d = *--s;` -/
def copyDown (n : Nat) (d s : BitVec 64) : Memory → Memory := copyLoop (-1) n (d - 1) (s - 1)

/-- `memmove` of the kernel. Its `n` is a `uint`. -/
def kernelMemmove (dst src : BitVec 64) (n : BitVec 32) (mem : Memory) : Memory :=
  if n = 0 then mem
  else if src < dst ∧ dst < src + n.setWidth 64 then
    copyDown n.toNat (dst + n.setWidth 64) (src + n.setWidth 64) mem
  else copyUp n.toNat dst src mem

/-- `memmove` of the user library. Its `n` is an `int`. -/
def userMemmove (dst src : BitVec 64) (n : BitVec 32) (mem : Memory) : Memory :=
  if dst < src then copyUp n.toInt.toNat dst src mem
  else copyDown n.toInt.toNat (dst + n.signExtend 64) (src + n.signExtend 64) mem

/-- The memory after the bytes from `src` on were moved to `dst`. -/
def moved (dst src : BitVec 64) (n : Nat) (mem : Memory) : Memory :=
  fun a => if (a - dst).toNat < n then mem (src + (a - dst)) else mem a

/-- A loop reads no byte that it has written. -/
theorem copyLoop_eq (unit : step * step = 1) {n : Nat} (bound : n < 2 ^ 64)
    (safe : ¬(0 < (step * (d - s)).toNat ∧ (step * (d - s)).toNat < n)) (mem : Memory)
    (a : BitVec 64)
    : copyLoop step n d s mem a
      = if (step * (a - d)).toNat < n then mem (s + (a - d)) else mem a := by
  induction n generalizing d s mem with
  | zero => rfl
  | succ n ih =>
    have apart : d + step - (s + step) = d - s := by ring
    have next : step * (a - (d + step)) = step * (a - d) - 1 := by rw [← unit]; ring
    have place : s + step + (a - (d + step)) = s + (a - d) := by ring
    rw [copyLoop, ih (by omega) (by rw [apart]; omega), next, place]
    by_cases here : a = d
    · subst here
      have far : ¬(step * (a - a) - 1).toNat < n := by
        rw [sub_self, mul_zero]
        bv_omega
      rw [if_neg far, update_self, if_pos (by simp), sub_self, add_zero]
    · have nonzero : step * (a - d) ≠ 0 := by
        intro zero
        have same : a - d = step * (step * (a - d)) := by rw [← mul_assoc, unit, one_mul]
        rw [zero, mul_zero] at same
        exact here (sub_eq_zero.mp same)
      have shift : (step * (a - d) - 1).toNat < n ↔ (step * (a - d)).toNat < n + 1 := by
        generalize step * (a - d) = x at nonzero
        bv_omega
      rw [update_of_ne here, if_congr shift rfl rfl]
      split_ifs with inside
      · refine update_of_ne (fun same => safe ?_) ..
        rw [sub_eq_of_eq_add' same.symm]
        exact ⟨by bv_omega, inside⟩
      · rfl

theorem mirror_lt {k : Nat} {e : BitVec 64} (isEnd : e.toNat = k) (x : BitVec 64)
    : (e - 1 - x).toNat < k ↔ x.toNat < k := by
  bv_omega

section

variable {k : Nat} (bound : k < 2 ^ 64) (mem : Memory)
include bound

theorem copyUp_eq (safe : ¬(0 < (dst - src).toNat ∧ (dst - src).toNat < k))
    : copyUp k dst src mem = moved dst src k mem := by
  funext a
  rw [copyUp, copyLoop_eq rfl bound (by rwa [one_mul]), one_mul, moved]

theorem copyDown_eq (safe : ¬(0 < (src - dst).toNat ∧ (src - dst).toNat < k))
    : copyDown k (dst + BitVec.ofNat 64 k) (src + BitVec.ofNat 64 k) mem = moved dst src k mem := by
  funext a
  generalize isEnd : BitVec.ofNat 64 k = e
  have offset : e.toNat = k := by rw [← isEnd, BitVec.toNat_ofNat, Nat.mod_eq_of_lt bound]
  have apart : -1 * (dst + e - 1 - (src + e - 1)) = src - dst := by ring
  have place : src + e - 1 + (a - (dst + e - 1)) = src + (a - dst) := by ring
  have mirrored : -1 * (a - (dst + e - 1)) = e - 1 - (a - dst) := by ring
  rw [copyDown, copyLoop_eq (by decide) bound (by rwa [apart]), place, moved, mirrored,
    if_congr (mirror_lt offset _) rfl rfl]

end

/-- Both move the bytes and leave the rest, however the two ranges overlap. -/
theorem memmoves_move (source : src.toNat + n.toNat ≤ 2 ^ 64) (dest : dst.toNat + n.toNat ≤ 2 ^ 64)
    (mem : Memory)
    : kernelMemmove dst src n mem = moved dst src n.toNat mem
      ∧ (0 ≤ n.toInt → userMemmove dst src n mem = moved dst src n.toNat mem) := by
  have small : n.toNat < 2 ^ 64 := Nat.lt_trans n.isLt (by decide)
  have down := @copyDown_eq dst src _ small mem
  have wide : n.setWidth 64 = BitVec.ofNat 64 n.toNat := by bv_omega
  refine ⟨?_, fun nonneg => ?_⟩
  · unfold kernelMemmove
    split_ifs with zero overlap
    · subst zero
      rfl
    · rw [wide]
      exact down (by bv_omega)
    · exact copyUp_eq small mem (by bv_omega)
  · have count : n.toInt.toNat = n.toNat := by
      have := BitVec.toInt_eq_toNat_cond n
      split_ifs at this <;> omega
    have plus : n.msb = false := by
      rw [BitVec.msb_eq_toInt]
      simpa using nonneg
    rw [userMemmove, count, BitVec.signExtend_eq_setWidth_of_msb_false plus, wide]
    split_ifs with above
    · exact copyUp_eq small mem (by bv_omega)
    · exact down (by bv_omega)

theorem memmoves_move_three
    : kernelMemmove 1 0 3 (·.setWidth 8) = moved 1 0 3 (·.setWidth 8)
      ∧ userMemmove 1 0 3 (·.setWidth 8) = moved 1 0 3 (·.setWidth 8) :=
  have both := @memmoves_move 1 0 3 (by decide) (by decide) (·.setWidth 8)
  ⟨both.1, both.2 (by decide)⟩

/-- Not so for 2^31 bytes, which is a negative `int`, and at the end of the address space. -/
theorem memmoves_fail
    : (∃ mem, userMemmove 1 0 0x80000000 mem 1 ≠ mem 0)
      ∧ ∃ mem, kernelMemmove (-2) (-3) 4 mem (-1) ≠ mem (-2) :=
  ⟨⟨(·.setWidth 8), by decide⟩, (·.setWidth 8), by decide⟩

end Xv6.User

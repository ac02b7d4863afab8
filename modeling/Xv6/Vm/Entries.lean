import Xv6.Vm.UserMemory

/-! The bits of page-table entries: what an entry built from an address and flags says about
both, and which flags the copy-on-write code gives a page.
-/

namespace Xv6.Vm

open Library

variable {i : Nat}

/-- The number of the page an entry refers to. -/
def Pte.ppn (pte : Pte) : Nat := (pte >>> 10).toNat

/-- The address in an entry is that of its page. -/
theorem PTE2PA_eq {pte : Pte} (small : pte.ppn < 2 ^ 44)
    : PTE2PA pte = 4096 * pte.ppn := by
  have bound : (pte >>> 10).toNat < 2 ^ 44 := small
  simp only [PTE2PA, Pte.ppn, BitVec.toNat_shiftLeft]
  omega

variable {flags : Pte}

/-- Flags do not reach the page number. -/
theorem Pte.ppn_or {n : Nat} (small : n < 2 ^ 44) (low : flags.toNat < 1024)
    : (PA2PTE (4096 * n) ||| flags).ppn = n := by
  have page : 4096 * n / 4096 = n := by omega
  have word : (BitVec.ofNat 64 n <<< 10).toNat = n <<< 10 := by
    simp only [BitVec.toNat_shiftLeft, BitVec.toNat_ofNat]
    omega
  simp only [Pte.ppn, PA2PTE, page, BitVec.toNat_ushiftRight, BitVec.toNat_or, word,
    Nat.shiftRight_or_distrib]
  rw [Nat.shiftLeft_shiftRight, Nat.shiftRight_eq_div_pow flags.toNat 10,
    Nat.div_eq_of_lt low, Nat.or_zero]

/-- `uvmclear` keeps the page. -/
theorem Pte.ppn_clear (pte : Pte) : (pte &&& ~~~PTE_U).ppn = pte.ppn := by
  have mask : (~~~PTE_U : Pte).toNat >>> 10 = 2 ^ 54 - 1 := by decide
  have bound : pte.toNat >>> 10 < 2 ^ 54 := by
    omega
  rw [Pte.ppn, Pte.ppn, BitVec.toNat_ushiftRight, BitVec.toNat_and, Nat.shiftRight_and_distrib,
    mask, Nat.and_two_pow_sub_one_eq_mod, Nat.mod_eq_of_lt bound, BitVec.toNat_ushiftRight]

/-- Flags joined are flags. -/
theorem or_low {a b : Pte} (left : a.toNat < 1024) (right : b.toNat < 1024)
    : (a ||| b).toNat < 1024 := by
  exact Nat.or_lt_two_pow (n := 10) left right

/-- A part of the flags are flags. -/
theorem and_low {a b : Pte} (left : a.toNat < 1024) : (a &&& b).toNat < 1024 := by
  exact Nat.lt_of_le_of_lt Nat.and_le_left left

theorem flags_low (pte : Pte) : (PTE_FLAGS pte).toNat < 1024 := by
  exact Nat.lt_of_le_of_lt Nat.and_le_right (by decide)

theorem high_bit_clear (low : flags.toNat < 1024) (high : 10 ≤ i)
    : flags.getLsbD i = false :=
  Nat.testBit_lt_two_pow
    (Nat.lt_of_lt_of_le low (Nat.pow_le_pow_right (by decide : 0 < 2) high))

/-- `PTE2PA` gives back the address that `PA2PTE` has put in. -/
theorem PTE2PA_or {pa : Nat} (aligned : pa % 4096 = 0) (small : pa < 2 ^ 56)
    (low : flags.toNat < 1024)
    : PTE2PA (PA2PTE pa ||| flags) = pa := by
  have page : pa = 4096 * (pa / 4096) := by omega
  have bound : pa / 4096 < 2 ^ 44 := by omega
  rw [page, PTE2PA_eq (by rw [Pte.ppn_or bound low]; exact bound), Pte.ppn_or bound low]

/-- `PTE_FLAGS` gives back the flags. -/
theorem PTE_FLAGS_or (pa : Nat) (low : flags.toNat < 1024)
    : PTE_FLAGS (PA2PTE pa ||| flags) = flags := by
  apply BitVec.eq_of_getLsbD_eq
  intro i bound
  have mask : (0x3FF : Pte).getLsbD i = decide (i < 10) := by
    rw [show (0x3FF : Pte) = BitVec.ofNat 64 (2 ^ 10 - 1) from rfl, BitVec.getLsbD_ofNat,
      Nat.testBit_two_pow_sub_one]
    simp [bound]
  rw [PTE_FLAGS, BitVec.getLsbD_and, mask, PA2PTE]
  by_cases inside : i < 10
  · simp [inside]
  · simp [inside, high_bit_clear low (by omega : 10 ≤ i)]

-- Flags

/-- An entry has a flag when one of its parts has it. -/
theorem Pte.has_or (a b flag : Pte) : (a ||| b).has flag = (a.has flag || b.has flag) := by
  have split : (a ||| b) &&& flag = (a &&& flag) ||| (b &&& flag) := by
    rw [BitVec.and_comm, BitVec.and_or_distrib_left, BitVec.and_comm flag a,
      BitVec.and_comm flag b]
  have zero : (a &&& flag) ||| (b &&& flag) = 0 ↔ a &&& flag = 0 ∧ b &&& flag = 0 :=
    BitVec.or_eq_zero_iff
  rw [Bool.eq_iff_iff]
  simp only [Pte.has, split, bne_iff_ne, Bool.or_eq_true]
  tauto

/-- A mask keeps the flags that are in it. -/
theorem Pte.has_and (a mask flag : Pte) : (a &&& mask).has flag = a.has (mask &&& flag) := by
  simp only [Pte.has, BitVec.and_assoc]

theorem Pte.has_zero (a : Pte) : a.has 0 = false := by
  simp [Pte.has]

variable {flag : Pte}

/-- An address has no flags. -/
theorem Pte.has_PA2PTE (pa : Nat) (low : flag.toNat < 1024)
    : (PA2PTE pa).has flag = false := by
  have none : PA2PTE pa &&& flag = 0#64 := by
    apply BitVec.eq_of_getLsbD_eq
    intro i bound
    simp only [PA2PTE, BitVec.getLsbD_and]
    by_cases small : i < 10
    · simp [small]
    · simp [high_bit_clear low (by omega : 10 ≤ i)]
  simp [Pte.has, none]

/-- The flags of an entry are those it has. -/
theorem Pte.has_flags (pte : Pte) (low : 0x3FF &&& flag = flag)
    : (PTE_FLAGS pte).has flag = pte.has flag := by
  rw [PTE_FLAGS, Pte.has_and, low]

-- Entries and bytes of a page

theorem pageOf_zero : pageOf 0 = 0#32768 :=
  congrArg (BitVec.ofNat 32768) (Nat.zero_mul _)

/-- A page of zeros maps nothing. -/
@[simp] theorem entry_zero (i : Nat) : (pageOf 0).entry i = 0 := by
  rw [pageOf_zero]
  exact getField_zero _ _

/-- An entry reads back as it was written. -/
theorem entry_setEntry_same (page : Page) (bound : i < 512) (pte : Pte)
    : (page.setEntry i pte).entry i = pte :=
  getField_setField_same page (64 * i) pte (by omega)

/-- The other entries of the page stay. -/
theorem entry_setEntry_other (page : Page) {j : Nat} (bound : j < 512) (other : j ≠ i) (pte : Pte)
    : (page.setEntry i pte).entry j = page.entry j :=
  getField_setField_disjoint page (64 * i) pte (by omega) (by omega)

theorem byte_setByte_same (page : Page) (bound : i < 4096) (value : BitVec 8)
    : (page.setByte i value).byte i = value :=
  getField_setField_same page (8 * i) value (by omega)

/-- The other bytes of the page stay. -/
theorem byte_setByte_other (page : Page) {j : Nat} (bound : j < 4096) (other : j ≠ i)
    (value : BitVec 8)
    : (page.setByte i value).byte j = page.byte j :=
  getField_setField_disjoint page (8 * i) value (by omega) (by omega)

/-- A byte of a page that was partly overwritten. -/
theorem byte_write (page : Page) {offset : Nat} {bytes : List (BitVec 8)}
    (fits : offset + bytes.length ≤ 4096) (bound : i < 4096)
    : (page.write offset bytes).byte i
      = if offset ≤ i ∧ i < offset + bytes.length then bytes.getD (i - offset) 0
        else page.byte i := by
  induction bytes generalizing page offset with
  | nil =>
    rw [if_neg (by simp)]
    rfl
  | cons value rest ih =>
    rw [List.length_cons] at fits ⊢
    rw [Page.write, ih _ (by omega)]
    by_cases here : i = offset
    · subst here
      rw [byte_setByte_same _ bound]
      simp
    · by_cases inside : offset + 1 ≤ i ∧ i < offset + 1 + rest.length
      · have next : i - offset = i - (offset + 1) + 1 := by omega
        rw [if_pos inside, if_pos (by omega), next, List.getD_cons_succ]
      · rw [if_neg inside, if_neg (by omega), byte_setByte_other _ bound here]

theorem byte_zero (i : Nat) : (pageOf 0).byte i = 0 := by
  rw [pageOf_zero]
  exact getField_zero _ _

end Xv6.Vm

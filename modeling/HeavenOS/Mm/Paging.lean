/-
# Paging

The constants and macros of `mm/paging.h` and `mm/mem_layout.h`. Addresses are
natural numbers below `2 ^ 64`, page-table entries are 64-bit words. The words that
the kernel writes are an address and a few flag bits; the lemmas here say which
field of such a word each macro reads.
-/

import HeavenOS.Common

namespace HeavenOS

/-- `KERNEL_DIRECT_PHYS_MAPPING_START` -/
def directMapStart : ℕ := 0xffff888000000000

/-- `KERNEL_DIRECT_PHYS_MAPPING_SIZE` -/
def directMapSize : ℕ := 64 * 2 ^ 40

/-- `KERNEL_HIGHER_HALF_START` -/
def kernelHigherHalfStart : ℕ := 0xffff800000000000

/-- `KERNEL_SECTIONS_START` -/
def kernelSectionsStart : ℕ := 0xffffffff80000000

/-- `KERNEL_SECTIONS_SIZE` -/
def kernelSectionsSize : ℕ := 2 * 2 ^ 30

/-- `PHYS_TO_VIRT(addr)` -/
def physToVirt (addr : ℕ) : ℕ := (directMapStart + addr) % 2 ^ 64

/-- `VIRT_TO_PHYS(addr)` -/
def virtToPhys (addr : ℕ) : ℕ := subU64 addr directMapStart

theorem physToVirt_of_lt {addr : ℕ} (hwrap : directMapStart + addr < 2 ^ 64) :
    physToVirt addr = directMapStart + addr := Nat.mod_eq_of_lt hwrap

theorem physToVirt_virtToPhys {addr : ℕ} (haddr : addr < 2 ^ 64) :
    physToVirt (virtToPhys addr) = addr := by
  unfold physToVirt virtToPhys subU64 directMapStart
  omega

/-! ## Indices -/

/-- The index into the table of the given level, 3 for the PML4 and 0 for a page table:
`PML4E_FROM_ADDR`, `PDPE_FROM_ADDR`, `PDE_FROM_ADDR` and `PTE_FROM_ADDR`. -/
def tableIndex (level addr : ℕ) : ℕ := (addr >>> (12 + 9 * level)) &&& 0x1ff

/-- `MAKE_ADDR(m, p, d, t, o)` -/
def makeAddr (m p d t o : ℕ) : ℕ :=
  (m <<< 39 ||| p <<< 30 ||| d <<< 21 ||| t <<< 12 ||| o) |||
    (if (m >>> 8) &&& 0x1 ≠ 0 then (2 ^ 16 - 1) <<< 48 else 0)

theorem tableIndex_eq (level addr : ℕ) : tableIndex level addr = addr / 2 ^ (12 + 9 * level) % 512 := by
  unfold tableIndex
  rw [Nat.shiftRight_eq_div_pow]
  exact Nat.and_two_pow_sub_one_eq_mod (n := 9) _

theorem tableIndex_lt (level addr : ℕ) : tableIndex level addr < 512 := by
  rw [tableIndex_eq]
  omega

/-- Bits 47 to 63 are equal. -/
def Canonical (addr : ℕ) : Prop := addr < 2 ^ 47 ∨ 2 ^ 64 - 2 ^ 47 ≤ addr ∧ addr < 2 ^ 64

instance (addr : ℕ) : Decidable (Canonical addr) := inferInstanceAs (Decidable (_ ∨ _))

/-- In range, the fields of `MAKE_ADDR` do not overlap. -/
theorem makeAddr_eq {m p d t : ℕ} (hm : m < 512) (hp : p < 512) (hd : d < 512) (ht : t < 512) :
    makeAddr m p d t 0 = m * 2 ^ 39 + p * 2 ^ 30 + d * 2 ^ 21 + t * 2 ^ 12 +
      (if 256 ≤ m then 2 ^ 64 - 2 ^ 48 else 0) := by
  have hor {a b i : ℕ} (hb : b < 2 ^ i) : a * 2 ^ i ||| b = a * 2 ^ i + b := by
    rw [← Nat.shiftLeft_eq, Nat.shiftLeft_add_eq_or_of_lt hb]
  have hhigh : (if (m >>> 8) &&& 0x1 ≠ 0 then (2 ^ 16 - 1) <<< 48 else 0) =
      (if 256 ≤ m then 2 ^ 16 - 1 else 0) * 2 ^ 48 := by
    rw [Nat.and_one_is_mod, Nat.shiftRight_eq_div_pow]
    by_cases h : 256 ≤ m
    · rw [if_pos (by omega), if_pos h]
      decide
    · rw [if_neg (by omega), if_neg h, Nat.zero_mul]
  unfold makeAddr
  rw [hhigh, Nat.or_zero, Nat.shiftLeft_eq, Nat.shiftLeft_eq, Nat.shiftLeft_eq, Nat.shiftLeft_eq,
    hor (by omega), show m * 2 ^ 39 + p * 2 ^ 30 = (m * 2 ^ 9 + p) * 2 ^ 30 by omega,
    hor (by omega), show (m * 2 ^ 9 + p) * 2 ^ 30 + d * 2 ^ 21 = ((m * 2 ^ 9 + p) * 2 ^ 9 + d) * 2 ^ 21
      by omega, hor (by omega), Nat.or_comm, hor (by omega)]
  split_ifs <;> omega

/-! ## Entries -/

/-- `PTE_PRESENT` -/
def ptePresent : BitVec 64 := 1#64 <<< 0

/-- `PTE_WRITEABLE` -/
def pteWriteable : BitVec 64 := 1#64 <<< 1

/-- `PTE_USER` -/
def pteUser : BitVec 64 := 1#64 <<< 2

/-- `PTE_PAGE_SIZE` -/
def ptePageSize : BitVec 64 := 1#64 <<< 7

/-- `PTE_ALLOC` -/
def pteAlloc : BitVec 64 := 1#64 <<< 10

/-- `PTE_FLAGS_MASK` -/
def pteFlagsMask : BitVec 64 := (1#64 <<< 12) - 1#64

/-- `PTE_ADDR_MASK` -/
def pteAddrMask : BitVec 64 := (1#64 <<< 48) - 1#64

/-- `PTE_ADDR(pte)` -/
def pteAddr (pte : BitVec 64) : ℕ := ((pte &&& pteAddrMask) &&& ~~~pteFlagsMask).toNat

theorem and_bit_eq_zero_iff (pte : BitVec 64) {k : ℕ} (hk : k < 64) :
    pte &&& (1#64 <<< k) = 0 ↔ pte.getLsbD k = false := by
  constructor
  · intro h
    have hbit : (pte &&& (1#64 <<< k)).getLsbD k = false := by rw [h]; simp
    rw [BitVec.getLsbD_and, getLsbD_one_shiftLeft hk] at hbit
    simpa using hbit
  · intro h
    apply BitVec.eq_of_getLsbD_eq
    intro i hi
    rw [BitVec.getLsbD_and, getLsbD_one_shiftLeft hi]
    by_cases hik : i = k
    · subst hik
      simp [h]
    · simp [hik]

theorem getLsbD_ite_bit (b : Bool) (k : ℕ) {i : ℕ} (hi : i < 64) :
    (if b then 1#64 <<< k else 0).getLsbD i = (b && decide (i = k)) := by
  cases b with
  | false => exact BitVec.getLsbD_zero
  | true => exact getLsbD_one_shiftLeft hi

/-- The access rights that the kernel puts into an entry. -/
structure Rights where
  user : Bool
  write : Bool
  alloc : Bool
  deriving DecidableEq

namespace Rights

/-- The flag bits of the rights. -/
def pte (r : Rights) : BitVec 64 :=
  (if r.user then pteUser else 0) ||| (if r.write then pteWriteable else 0) |||
    (if r.alloc then pteAlloc else 0)

/-- The rights of two sets of flags that are combined by `|=`. -/
def join (r s : Rights) : Rights := ⟨r.user || s.user, r.write || s.write, r.alloc || s.alloc⟩

/-- Every right of `r` is one of `s`. -/
def Le (r s : Rights) : Prop :=
  (r.user → s.user) ∧ (r.write → s.write) ∧ (r.alloc → s.alloc)

theorem le_refl (r : Rights) : r.Le r := ⟨id, id, id⟩

theorem Le.trans {r s u : Rights} (hrs : r.Le s) (hsu : s.Le u) : r.Le u :=
  ⟨hsu.1 ∘ hrs.1, hsu.2.1 ∘ hrs.2.1, hsu.2.2 ∘ hrs.2.2⟩

theorem Le.join_left {r s : Rights} (h : r.Le s) (u : Rights) : r.Le (s.join u) := by
  simp only [Le, join, Bool.or_eq_true]
  exact ⟨fun hr => Or.inl (h.1 hr), fun hr => Or.inl (h.2.1 hr), fun hr => Or.inl (h.2.2 hr)⟩

theorem le_join_right (r s : Rights) : r.Le (s.join r) := by
  simp only [Le, join, Bool.or_eq_true]
  exact ⟨Or.inr, Or.inr, Or.inr⟩

theorem getLsbD_pte (r : Rights) {i : ℕ} (hi : i < 64) :
    r.pte.getLsbD i = (r.user && decide (i = 2) || r.write && decide (i = 1) ||
      r.alloc && decide (i = 10)) := by
  unfold pte pteUser pteWriteable pteAlloc
  rw [BitVec.getLsbD_or, BitVec.getLsbD_or, getLsbD_ite_bit _ _ hi, getLsbD_ite_bit _ _ hi,
    getLsbD_ite_bit _ _ hi]

end Rights

/-- The entry for the physical address `phys`: `phys | PTE_PRESENT | flags`, with
`PTE_PAGE_SIZE` for a large page. -/
def pteWord (phys : ℕ) (large : Bool) (r : Rights) : BitVec 64 :=
  BitVec.ofNat 64 phys ||| ptePresent ||| (if large then ptePageSize else 0) ||| r.pte

/-- Bit `i` of an entry: an address bit from bit 12 on, a flag below. -/
theorem getLsbD_pteWord (phys : ℕ) (large : Bool) (r : Rights) {i : ℕ} (hi : i < 64) :
    (pteWord phys large r).getLsbD i = (phys.testBit i || decide (i = 0) || large && decide (i = 7) ||
      (r.user && decide (i = 2) || r.write && decide (i = 1) || r.alloc && decide (i = 10))) := by
  unfold pteWord ptePresent ptePageSize
  rw [BitVec.getLsbD_or, BitVec.getLsbD_or, BitVec.getLsbD_or, BitVec.getLsbD_ofNat,
    getLsbD_one_shiftLeft hi, r.getLsbD_pte hi, getLsbD_ite_bit _ _ hi]
  simp [hi]

theorem pteWord_and_present (phys : ℕ) (large : Bool) (r : Rights) : pteWord phys large r &&& ptePresent ≠ 0 := by
  rw [ptePresent, Ne, and_bit_eq_zero_iff _ (by decide), getLsbD_pteWord _ _ _ (by decide)]
  simp

/-- `|=` with flags joins the rights and keeps the rest. -/
theorem pteWord_or_pte (phys : ℕ) (large : Bool) (r s : Rights) :
    pteWord phys large r ||| s.pte = pteWord phys large (r.join s) := by
  apply BitVec.eq_of_getLsbD_eq
  intro i hi
  rw [BitVec.getLsbD_or, getLsbD_pteWord _ _ _ hi, getLsbD_pteWord _ _ _ hi,
    s.getLsbD_pte hi]
  simp only [Rights.join, Bool.and_or_distrib_right]
  ac_rfl

section Word

variable {phys : ℕ} (hdvd : 4096 ∣ phys) (hlt : phys < 2 ^ 48)

include hdvd hlt

theorem testBit_phys {i : ℕ} (hi : i < 12 ∨ 48 ≤ i) : phys.testBit i = false := by
  rcases hi with hi | hi
  · obtain ⟨c, rfl⟩ := hdvd
    rw [show 4096 * c = 2 ^ 12 * c by rfl, Nat.testBit_two_pow_mul]
    simp [show ¬ 12 ≤ i by omega]
  · exact Nat.testBit_lt_two_pow (lt_of_lt_of_le hlt (Nat.pow_le_pow_right (by decide) hi))

theorem pteWord_and_pageSize (large : Bool) (r : Rights) :
    pteWord phys large r &&& ptePageSize = 0 ↔ large = false := by
  rw [ptePageSize, and_bit_eq_zero_iff _ (by decide), getLsbD_pteWord _ _ _ (by decide),
    testBit_phys hdvd hlt (by omega)]
  simp

theorem pteWord_and_user (large : Bool) (r : Rights) :
    pteWord phys large r &&& pteUser = 0 ↔ r.user = false := by
  rw [pteUser, and_bit_eq_zero_iff _ (by decide), getLsbD_pteWord _ _ _ (by decide),
    testBit_phys hdvd hlt (by omega)]
  simp

theorem pteWord_and_write (large : Bool) (r : Rights) :
    pteWord phys large r &&& pteWriteable = 0 ↔ r.write = false := by
  rw [pteWriteable, and_bit_eq_zero_iff _ (by decide), getLsbD_pteWord _ _ _ (by decide),
    testBit_phys hdvd hlt (by omega)]
  simp

theorem pteWord_and_alloc (large : Bool) (r : Rights) :
    pteWord phys large r &&& pteAlloc = 0 ↔ r.alloc = false := by
  rw [pteAlloc, and_bit_eq_zero_iff _ (by decide), getLsbD_pteWord _ _ _ (by decide),
    testBit_phys hdvd hlt (by omega)]
  simp

theorem pteAddr_pteWord (large : Bool) (r : Rights) : pteAddr (pteWord phys large r) = phys := by
  have hflags {i : ℕ} (hi : i < 64) : pteFlagsMask.getLsbD i = decide (i < 12) := by
    rw [show pteFlagsMask = BitVec.ofNat 64 (2 ^ 12 - 1) by decide, BitVec.getLsbD_ofNat,
      Nat.testBit_two_pow_sub_one]
    simp [hi]
  have hmask {i : ℕ} (hi : i < 64) : pteAddrMask.getLsbD i = decide (i < 48) := by
    rw [show pteAddrMask = BitVec.ofNat 64 (2 ^ 48 - 1) by decide, BitVec.getLsbD_ofNat,
      Nat.testBit_two_pow_sub_one]
    simp [hi]
  unfold pteAddr
  apply Nat.eq_of_testBit_eq
  intro i
  rw [BitVec.testBit_toNat]
  by_cases hi : i < 64
  · rw [BitVec.getLsbD_and, BitVec.getLsbD_and, BitVec.getLsbD_not, hflags hi, hmask hi,
      getLsbD_pteWord _ _ _ hi]
    by_cases hin : 12 ≤ i ∧ i < 48
    · simp [hi, hin, show ¬ i < 12 by omega, show i ≠ 0 by omega, show i ≠ 7 by omega,
        show i ≠ 2 by omega, show i ≠ 1 by omega]
      omega
    · rw [testBit_phys hdvd hlt (by omega)]
      by_cases hlo : i < 12
      · simp [hlo, hi]
      · simp [show ¬ i < 48 by omega]
  · rw [testBit_phys hdvd hlt (by omega)]
    exact BitVec.getLsbD_of_ge _ _ (by omega)

end Word

end HeavenOS

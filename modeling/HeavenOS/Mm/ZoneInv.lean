/-
# Well-formed zones

The zone invariant has three parts that fail independently: the free lists are
rings in memory (`Rings`), the free and the live blocks tile the zone (`Pieces`),
and each bitmap bit is the exclusive or of its two buddies' membership in the free
list (`Bits`). Every statement of the allocator that touches a bitmap also moves
exactly one block in or out of one list, so all bitmap reasoning goes through one
lemma about toggling.
-/

import HeavenOS.Lib.Tiling
import HeavenOS.Mm.Zone
import Mathlib.Algebra.BigOperators.Group.Finset.Basic

namespace HeavenOS

open Lib Lib.Ring

/-- A block of `2 ^ order` pages. -/
structure Block where
  addr : ℕ
  order : ℕ
  deriving DecidableEq

/-- The first address past the block. -/
def Block.stop (b : Block) : ℕ := b.addr + blockSize b.order

theorem blockSize_pos (order : ℕ) : 0 < blockSize order :=
  Nat.mul_pos (by decide) (Nat.two_pow_pos order)

theorem pageSize_le_blockSize (order : ℕ) : pageSize ≤ blockSize order :=
  Nat.le_mul_of_pos_right _ (Nat.two_pow_pos order)

theorem Block.addr_lt_stop (b : Block) : b.addr < b.stop :=
  Nat.lt_add_of_pos_right (blockSize_pos b.order)

theorem blockSize_eq_two_pow (order : ℕ) : blockSize order = 2 ^ (12 + order) := by
  rw [blockSize, pow_add]
  rfl

theorem blockSize_succ (order : ℕ) : blockSize (order + 1) = 2 * blockSize order := by
  rw [blockSize, blockSize, pow_succ]
  ring

theorem blockSize_dvd {i j : ℕ} (h : i ≤ j) : blockSize i ∣ blockSize j :=
  Nat.mul_dvd_mul_left _ (pow_dvd_pow 2 h)

namespace AllocatorZone

variable (zone : AllocatorZone)

/-- Number of buddy pairs of an order. -/
def pairs (order : ℕ) : ℕ := (zone.endAddr - zone.startAddr) / blockSize (order + 1)

/-- Bytes the bitmap of an order needs for one bit a pair. -/
def bitmapBytes (order : ℕ) : ℕ := (zone.pairs order + 7) / 8

/-- Address of the `i`-th block of an order. -/
def nth (order i : ℕ) : ℕ := zone.startAddr + i * blockSize order

/-- The bitmap bit of a buddy pair. -/
def bit (m : Mem) (order pair : ℕ) : Bool := (m (zone.bitmap order + pair / 8)).getLsbD (pair % 8)

/-- The part of well-formedness that no operation changes. The descriptor and the
bitmaps are memory of their own, and no block is at `NULL`. -/
structure Layout : Prop where
  addr_ne : zone.addr ≠ 0
  start_ne : zone.startAddr ≠ 0
  start_dvd : blockSize maxOrder ∣ zone.startAddr
  end_dvd : blockSize maxOrder ∣ zone.endAddr
  start_le : zone.startAddr ≤ zone.endAddr
  end_lt : zone.endAddr < 2 ^ 64
  descriptor_outside : zone.addr + 288 ≤ zone.startAddr ∨ zone.endAddr ≤ zone.addr
  bitmap_outside : ∀ k < maxOrder,
    zone.bitmap k + zone.bitmapBytes k ≤ zone.startAddr ∨ zone.endAddr ≤ zone.bitmap k
  bitmap_descriptor : ∀ k < maxOrder,
    zone.bitmap k + zone.bitmapBytes k ≤ zone.addr ∨ zone.addr + 288 ≤ zone.bitmap k
  bitmap_disjoint : ∀ j < maxOrder, ∀ k < maxOrder, j ≠ k →
    zone.bitmap j + zone.bitmapBytes j ≤ zone.bitmap k ∨
      zone.bitmap k + zone.bitmapBytes k ≤ zone.bitmap j

end AllocatorZone

/-- All blocks on the free lists. -/
def freeBlocks (free : ℕ → List ℕ) : Multiset Block :=
  ∑ k ∈ Finset.range (maxOrder + 1), ((free k).map fun a => Block.mk a k : Multiset Block)

/-- The bit a buddy pair should have: exactly one of the two is free. -/
def pairBit (zone : AllocatorZone) (free : ℕ → List ℕ) (order pair : ℕ) : Bool :=
  decide (zone.nth order (2 * pair) ∈ free order) ^^
    decide (zone.nth order (2 * pair + 1) ∈ free order)

/-- Every free list is a proper circular list. -/
def Rings (zone : AllocatorZone) (m : Mem) (free : ℕ → List ℕ) : Prop :=
  ∀ k ≤ maxOrder, IsRing m (zone.head k) (free k)

/-- Every bitmap bit is the one its pair should have. -/
def Bits (zone : AllocatorZone) (m : Mem) (free : ℕ → List ℕ) : Prop :=
  ∀ k < maxOrder, ∀ pair < zone.pairs k, zone.bit m k pair = pairBit zone free k pair

/-- The free and the live blocks are aligned to their size and partition the zone. -/
structure Pieces (zone : AllocatorZone) (free : ℕ → List ℕ) (live : Multiset Block) : Prop where
  aligned : ∀ b ∈ freeBlocks free + live, b.order ≤ maxOrder ∧ blockSize b.order ∣ b.addr
  tiles : Tiles Block.addr Block.stop (freeBlocks free + live) zone.startAddr zone.endAddr

/-- The zone invariant but for the bitmaps, which holds between a bitmap update and
the list update that goes with it. -/
structure ZoneLists (zone : AllocatorZone) (m : Mem) (free : ℕ → List ℕ) (live : Multiset Block) :
    Prop where
  layout : zone.Layout
  rings : Rings zone m free
  pieces : Pieces zone free live

/-- The zone invariant with its free lists named. -/
structure ZoneInv (zone : AllocatorZone) (m : Mem) (free : ℕ → List ℕ) (live : Multiset Block) :
    Prop extends ZoneLists zone m free live where
  bits : Bits zone m free

/-- A well-formed zone whose live blocks are `live`. -/
def WellFormed (zone : AllocatorZone) (m : Mem) (live : Multiset Block) : Prop :=
  ∃ free, ZoneInv zone m free live

/-! ## The multiset of free blocks -/

theorem mem_freeBlocks {free : ℕ → List ℕ} {b : Block} :
    b ∈ freeBlocks free ↔ b.order ≤ maxOrder ∧ b.addr ∈ free b.order := by
  unfold freeBlocks
  rw [Multiset.mem_sum]
  constructor
  · rintro ⟨k, hk, hb⟩
    obtain ⟨a, ha, rfl⟩ := by simpa using hb
    exact ⟨Nat.lt_succ_iff.mp (Finset.mem_range.mp hk), ha⟩
  · rintro ⟨hk, ha⟩
    refine ⟨b.order, Finset.mem_range.mpr (Nat.lt_succ_iff.mpr hk), ?_⟩
    simpa using ⟨b.addr, ha, rfl⟩

/-- Putting a block on a free list adds it to the free blocks. -/
theorem freeBlocks_update_cons {free : ℕ → List ℕ} {k a : ℕ} {l : List ℕ} (hk : k ≤ maxOrder)
    (hl : l.Perm (a :: free k)) :
    freeBlocks (Function.update free k l) = ⟨a, k⟩ ::ₘ freeBlocks free := by
  have hmem : k ∈ Finset.range (maxOrder + 1) := Finset.mem_range.mpr (Nat.lt_succ_iff.mpr hk)
  unfold freeBlocks
  rw [← Finset.add_sum_erase _ _ hmem, ← Finset.add_sum_erase _ _ hmem]
  have hrest : ∀ j ∈ (Finset.range (maxOrder + 1)).erase k,
      ((Function.update free k l j).map fun x => Block.mk x j : Multiset Block) =
        ((free j).map fun x => Block.mk x j : Multiset Block) := by
    intro j hj
    rw [Function.update_of_ne (Finset.ne_of_mem_erase hj)]
  rw [Finset.sum_congr rfl hrest, Function.update_self, ← Multiset.cons_add]
  congr 1
  have hmap := hl.map fun x => Block.mk x k
  simpa using Multiset.coe_eq_coe.mpr hmap

/-- Taking a block off a free list removes it from the free blocks. -/
theorem freeBlocks_update_erase {free : ℕ → List ℕ} {k a : ℕ} {l : List ℕ} (hk : k ≤ maxOrder)
    (hl : (free k).Perm (a :: l)) :
    freeBlocks free = ⟨a, k⟩ ::ₘ freeBlocks (Function.update free k l) := by
  have hback : freeBlocks (Function.update (Function.update free k l) k (free k)) =
      ⟨a, k⟩ ::ₘ freeBlocks (Function.update free k l) :=
    freeBlocks_update_cons hk (by rwa [Function.update_self])
  rwa [Function.update_idem, Function.update_eq_self] at hback

/-! ## Buddies by index -/

namespace AllocatorZone

variable {zone : AllocatorZone}

theorem nth_inj {k i j : ℕ} : zone.nth k i = zone.nth k j ↔ i = j := by
  unfold nth
  constructor
  · intro h
    exact Nat.eq_of_mul_eq_mul_right (blockSize_pos k) (by omega)
  · rintro rfl
    rfl

theorem nth_succ (k i : ℕ) : zone.nth k (i + 1) = zone.nth k i + blockSize k := by
  unfold nth
  ring

theorem nth_double (k i : ℕ) : zone.nth k (2 * i) = zone.nth (k + 1) i := by
  unfold nth
  rw [blockSize_succ]
  ring

/-- The zone is made of whole pairs of every order. -/
theorem Layout.size_eq (h : zone.Layout) {k : ℕ} (hk : k < maxOrder) :
    zone.endAddr - zone.startAddr = zone.pairs k * blockSize (k + 1) := by
  have hdvd : blockSize (k + 1) ∣ blockSize maxOrder := blockSize_dvd hk
  have hsize : blockSize (k + 1) ∣ zone.endAddr - zone.startAddr :=
    Nat.dvd_sub (hdvd.trans h.end_dvd) (hdvd.trans h.start_dvd)
  exact (Nat.div_mul_cancel hsize).symm

/-- An aligned block inside the zone has an index, and its pair is in range. -/
theorem Layout.exists_index (h : zone.Layout) {k a : ℕ} (hk : k < maxOrder)
    (hdvd : blockSize k ∣ a) (hlo : zone.startAddr ≤ a) (hhi : a + blockSize k ≤ zone.endAddr) :
    ∃ t, a = zone.nth k t ∧ t / 2 < zone.pairs k ∧ zone.buddyIndex a k = t / 2 := by
  have hsdvd : blockSize k ∣ zone.startAddr := (blockSize_dvd (le_of_lt hk)).trans h.start_dvd
  obtain ⟨t, ht⟩ := Nat.dvd_sub hdvd hsdvd
  have hat : a = zone.nth k t := by
    unfold nth
    rw [Nat.mul_comm]
    omega
  have hsize := h.size_eq hk
  have hindex : zone.buddyIndex a k = t / 2 := by
    have hend := h.end_lt
    rw [buddyIndex, subU64_of_le hlo (by omega), ht,
      Nat.mul_div_cancel_left _ (blockSize_pos k)]
  refine ⟨t, hat, ?_, hindex⟩
  -- the block ends before the end of the last pair
  rw [blockSize_succ] at hsize
  have hlt : (t + 1) * blockSize k ≤ zone.pairs k * 2 * blockSize k := by
    calc (t + 1) * blockSize k = (a - zone.startAddr) + blockSize k := by rw [ht]; ring
      _ ≤ zone.endAddr - zone.startAddr := by omega
      _ = zone.pairs k * 2 * blockSize k := by rw [hsize]; ring
  have hle : t + 1 ≤ zone.pairs k * 2 := Nat.le_of_mul_le_mul_right hlt (blockSize_pos k)
  omega

/-- A whole pair of an order below the top is aligned to the next order. -/
theorem Layout.dvd_nth_iff (h : zone.Layout) {k t : ℕ} (hk : k < maxOrder) :
    blockSize (k + 1) ∣ zone.nth k t ↔ t % 2 = 0 := by
  have hs : blockSize (k + 1) ∣ zone.startAddr := (blockSize_dvd hk).trans h.start_dvd
  rw [nth, ← Nat.dvd_add_iff_right hs, blockSize_succ,
    Nat.mul_dvd_mul_iff_right (blockSize_pos k)]
  omega

/-- Flipping the size bit of an address leads to the other block of its pair. -/
theorem Layout.buddyAddr_eq (h : zone.Layout) {k t : ℕ} (hk : k < maxOrder)
    (hlt : zone.nth k t < 2 ^ 64) :
    buddyAddr (zone.nth k t) k = zone.nth k (if t % 2 = 0 then t + 1 else t - 1) := by
  have hbit : 12 + k < 64 := by
    have : maxOrder = 10 := rfl
    omega
  have hdvd : blockSize k ∣ zone.nth k t :=
    Nat.dvd_add ((blockSize_dvd (le_of_lt hk)).trans h.start_dvd) (Nat.dvd_mul_left _ _)
  have hpar := h.dvd_nth_iff (t := t) hk
  rw [buddyAddr, toNat_flipBit _ hbit, BitVec.toNat_ofNat, Nat.mod_eq_of_lt hlt]
  rw [blockSize_eq_two_pow] at hdvd hpar
  rw [← Nat.add_assoc] at hpar
  by_cases ht : t % 2 = 0
  · rw [if_pos ht, nth_succ, xor_two_pow_of_dvd (hpar.mpr ht), blockSize_eq_two_pow]
  · obtain ⟨hxor, -, -⟩ := xor_two_pow_of_not_dvd hdvd (fun hd => ht (hpar.mp hd))
    have hprev : zone.nth k t = zone.nth k (t - 1) + blockSize k := by
      rw [← nth_succ, Nat.sub_add_cancel (by omega)]
    rw [if_neg ht, hxor, hprev, blockSize_eq_two_pow, Nat.add_sub_cancel]

end AllocatorZone

/-! ## Toggling one block of one list -/

section Toggle

variable {zone : AllocatorZone} {free : ℕ → List ℕ}

/-- Moving one block in or out of its list toggles the bit of its pair and no other. -/
theorem pairBit_update {k t : ℕ} {l : List ℕ}
    (htoggle : ∀ a, decide (a ∈ l) = (decide (a ∈ free k) ^^ decide (a = zone.nth k t)))
    (order pair : ℕ) :
    pairBit zone (Function.update free k l) order pair =
      (pairBit zone free order pair ^^ decide (order = k ∧ pair = t / 2)) := by
  unfold pairBit
  by_cases horder : order = k
  · subst horder
    rw [Function.update_self, htoggle, htoggle]
    have hfirst : decide (zone.nth order (2 * pair) = zone.nth order t) = decide (2 * pair = t) :=
      decide_eq_decide.mpr AllocatorZone.nth_inj
    have hsecond : decide (zone.nth order (2 * pair + 1) = zone.nth order t) =
        decide (2 * pair + 1 = t) := decide_eq_decide.mpr AllocatorZone.nth_inj
    have hpair : decide (order = order ∧ pair = t / 2) =
        (decide (2 * pair = t) ^^ decide (2 * pair + 1 = t)) := by
      by_cases h1 : 2 * pair = t
      · rw [decide_eq_true h1, decide_eq_false (show ¬ 2 * pair + 1 = t by omega),
          decide_eq_true ⟨rfl, by omega⟩]
        rfl
      · by_cases h2 : 2 * pair + 1 = t
        · rw [decide_eq_false h1, decide_eq_true h2, decide_eq_true ⟨rfl, by omega⟩]
          rfl
        · rw [decide_eq_false h1, decide_eq_false h2, decide_eq_false (by omega)]
          rfl
    rw [hfirst, hsecond, hpair]
    generalize decide (zone.nth order (2 * pair) ∈ free order) = x1
    generalize decide (zone.nth order (2 * pair + 1) ∈ free order) = x2
    cases x1 <;> cases x2 <;> simp
  · rw [Function.update_of_ne horder]
    simp [horder]

/-- If memory toggles the bit of the pair whose block was moved, all bits agree again. -/
theorem Bits.toggle {m m' : Mem} {k t : ℕ} {l : List ℕ} (h : Bits zone m free)
    (hbit : ∀ order < maxOrder, ∀ pair < zone.pairs order,
      zone.bit m' order pair = (zone.bit m order pair ^^ decide (order = k ∧ pair = t / 2)))
    (htoggle : ∀ a, decide (a ∈ l) = (decide (a ∈ free k) ^^ decide (a = zone.nth k t))) :
    Bits zone m' (Function.update free k l) := by
  intro order horder pair hpair
  rw [hbit order horder pair hpair, h order horder pair hpair, pairBit_update htoggle]

theorem toggle_cons {l : List ℕ} {b : ℕ} (hb : b ∉ l) (a : ℕ) :
    decide (a ∈ b :: l) = (decide (a ∈ l) ^^ decide (a = b)) := by
  by_cases hab : a = b
  · subst hab
    simp [hb]
  · simp [hab]

theorem toggle_erase {before after : List ℕ} {b : ℕ} (hnodup : (before ++ b :: after).Nodup)
    (a : ℕ) :
    decide (a ∈ before ++ after) = (decide (a ∈ before ++ b :: after) ^^ decide (a = b)) := by
  by_cases hab : a = b
  · subst hab
    have hnot : a ∉ before ++ after := by
      have hperm : (before ++ a :: after).Perm (a :: (before ++ after)) := List.perm_middle
      exact (List.nodup_cons.mp (hperm.nodup_iff.mp hnodup)).1
    simp [hnot]
  · simp [hab]

/-- A macro that changes only the bit it is given. -/
def Touches (op : BitVec 8 → ℕ → BitVec 8) : Prop :=
  ∀ v i j, j < 8 → j ≠ i → (op v i).getLsbD j = v.getLsbD j

theorem touches_setBit : Touches setBit := by
  intro v i j hj hne
  simp [getLsbD_setBit v hj, hne]

theorem touches_clearBit : Touches clearBit := by
  intro v i j hj hne
  simp [getLsbD_clearBit v hj, hne]

theorem touches_flipBit : Touches flipBit := by
  intro v i j hj hne
  simp [getLsbD_flipBit v hj, hne]

/-- A bitmap update leaves the bits of all other pairs alone. -/
theorem AllocatorZone.Layout.bit_updateBit (hl : zone.Layout) {op : BitVec 8 → ℕ → BitVec 8}
    (hop : Touches op) (m : Mem) {k p : ℕ} (hk : k < maxOrder) (hp : p < zone.pairs k)
    {order pair : ℕ} (horder : order < maxOrder) (hpair : pair < zone.pairs order) :
    zone.bit (updateBit op m (zone.bitmap k) p) order pair =
      if order = k ∧ pair = p then
        (op (m (zone.bitmap k + p / 8)) (p % 8)).getLsbD (p % 8)
      else zone.bit m order pair := by
  unfold bit updateBit
  have hbyte : ∀ {k p}, p < zone.pairs k → p / 8 < zone.bitmapBytes k := by
    intro k p hp
    unfold bitmapBytes
    omega
  by_cases horder' : order = k
  · subst horder'
    by_cases hsame : pair / 8 = p / 8
    · rw [hsame, Mem.storeByte_self]
      by_cases heq : pair = p
      · simp [heq]
      · rw [if_neg (by tauto)]
        exact hop _ _ _ (Nat.mod_lt _ (by decide)) (by omega)
    · rw [Mem.storeByte_of_ne _ _ (by omega), if_neg (by rintro ⟨-, rfl⟩; exact hsame rfl)]
  · have hdis := hl.bitmap_disjoint order horder k hk horder'
    have h1 := hbyte hpair
    have h2 := hbyte hp
    rw [Mem.storeByte_of_ne _ _ (by omega), if_neg (by tauto)]

/-- The three macros toggle a bit whenever the bit is the one they expect. -/
theorem AllocatorZone.Layout.bit_toggle (hl : zone.Layout) {op : BitVec 8 → ℕ → BitVec 8}
    (hop : Touches op) (m : Mem) {k p : ℕ} (hk : k < maxOrder) (hp : p < zone.pairs k)
    (hflip : (op (m (zone.bitmap k + p / 8)) (p % 8)).getLsbD (p % 8) = !zone.bit m k p) :
    ∀ order < maxOrder, ∀ pair < zone.pairs order,
      zone.bit (updateBit op m (zone.bitmap k) p) order pair =
        (zone.bit m order pair ^^ decide (order = k ∧ pair = p)) := by
  intro order horder pair hpair
  rw [hl.bit_updateBit hop m hk hp horder hpair, hflip]
  by_cases h : order = k ∧ pair = p
  · obtain ⟨rfl, rfl⟩ := h
    simp
  · simp [h]

end Toggle

end HeavenOS

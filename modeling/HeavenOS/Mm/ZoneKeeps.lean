/-
# What the moves of a zone keep

Two facts go along with every move of a block between the free lists and the live
blocks. No byte of another live block and no byte outside the zone, its descriptor and
its bitmaps changes; and if no two buddies were free together, none are afterwards.
-/

import HeavenOS.Mm.ZoneSteps

namespace HeavenOS

open Lib Lib.Ring

/-- No two buddies of an order below the top are both free. -/
def Coalesced (zone : AllocatorZone) (free : ℕ → List ℕ) : Prop :=
  ∀ k < maxOrder, ∀ pair,
    ¬(zone.nth k (2 * pair) ∈ free k ∧ zone.nth k (2 * pair + 1) ∈ free k)

/-- The byte is in the blocks, the descriptor or a bitmap of the zone. -/
def AllocatorZone.Uses (zone : AllocatorZone) (x : ℕ) : Prop :=
  (zone.startAddr ≤ x ∧ x < zone.endAddr) ∨ (zone.addr ≤ x ∧ x < zone.addr + 288) ∨
    ∃ k < maxOrder, zone.bitmap k ≤ x ∧ x < zone.bitmap k + zone.bitmapBytes k

/-- The byte is not the zone's to write: it is in a live block, or not part of the zone. -/
def AllocatorZone.Foreign (zone : AllocatorZone) (live : Multiset Block) (x : ℕ) : Prop :=
  ¬zone.Uses x ∨ ∃ b ∈ live, b.addr ≤ x ∧ x < b.stop

/-- What an operation keeps while the blocks `live` stay live. -/
structure Keeps (zone : AllocatorZone) (live : Multiset Block) (free : ℕ → List ℕ) (m : Mem)
    (free' : ℕ → List ℕ) (m' : Mem) : Prop where
  coalesced : Coalesced zone free → Coalesced zone free'
  frame : ∀ x, zone.Foreign live x → m' x = m x

variable {zone : AllocatorZone} {m m' m'' : Mem} {free free' free'' : ℕ → List ℕ}
  {live live' : Multiset Block}

theorem Keeps.refl : Keeps zone live free m free m := ⟨id, fun _ _ => rfl⟩

theorem Keeps.trans (h : Keeps zone live free m free' m') (h' : Keeps zone live free' m' free'' m'') :
    Keeps zone live free m free'' m'' :=
  ⟨h'.coalesced ∘ h.coalesced, fun x hx => (h'.frame x hx).trans (h.frame x hx)⟩

theorem Keeps.mono (h : Keeps zone live' free m free' m') (hsub : live ⊆ live') :
    Keeps zone live free m free' m' :=
  ⟨h.coalesced, fun x hx => h.frame x (hx.imp_right fun ⟨b, hb, hin⟩ => ⟨b, hsub hb, hin⟩)⟩

/-! ## Buddies -/

/-- Taking blocks away leaves no new pair. -/
theorem Coalesced.mono (h : Coalesced zone free) (hsub : ∀ k, free' k ⊆ free k) :
    Coalesced zone free' :=
  fun k hk pair hboth => h k hk pair ⟨hsub k hboth.1, hsub k hboth.2⟩

theorem update_erase_subset {k b : ℕ} {before after : List ℕ}
    (hfree : free k = before ++ b :: after) (j : ℕ) :
    Function.update free k (before ++ after) j ⊆ free j := by
  by_cases hjk : j = k
  · subst hjk
    rw [Function.update_self, hfree]
    intro x hx
    rw [List.mem_append] at hx ⊢
    exact hx.imp_right (List.mem_cons_of_mem b)
  · rw [Function.update_of_ne hjk]
    exact List.Subset.refl _

/-- A block whose buddy is not free can be added. -/
theorem Coalesced.put {k t : ℕ} (h : Coalesced zone free)
    (hbuddy : zone.nth k (if t % 2 = 0 then t + 1 else t - 1) ∉ free k) :
    Coalesced zone (Function.update free k (zone.nth k t :: free k)) := by
  intro j hj pair
  by_cases hjk : j = k
  · subst hjk
    have hold := h j hj pair
    rw [Function.update_self]
    simp only [List.mem_cons, AllocatorZone.nth_inj]
    rintro ⟨hlow | hlow, hupp | hupp⟩
    · omega
    · rw [if_pos (by omega), ← hlow] at hbuddy
      exact hbuddy hupp
    · rw [if_neg (by omega), ← hupp] at hbuddy
      exact hbuddy hlow
    · exact hold ⟨hlow, hupp⟩
  · rw [Function.update_of_ne hjk]
    exact h j hj pair

/-- The top order has no pairs. -/
theorem Coalesced.put_top (h : Coalesced zone free) (l : List ℕ) :
    Coalesced zone (Function.update free maxOrder l) := by
  intro j hj pair
  rw [Function.update_of_ne (ne_of_lt hj)]
  exact h j hj pair

/-! ## Frames -/

namespace ZoneLists

/-- A foreign byte is in no list cell. -/
theorem foreign_cell (h : ZoneLists zone m free live') (hsub : live ⊆ live') {x k a : ℕ}
    (hx : zone.Foreign live x) (hk : k ≤ maxOrder) (ha : a ∈ zone.head k :: free k) :
    x < a ∨ a + 16 ≤ x := by
  have hcell := h.nodesInside.cell hk ha
  rcases hx with hout | ⟨b, hb, hlo, hhi⟩
  · unfold AllocatorZone.Uses at hout
    omega
  · have hinside := h.pieces.live_inside (hsub hb)
    have hdesc := h.layout.descriptor_outside
    rcases List.mem_cons.mp ha with rfl | ha
    · have hbounds := zone.head_bounds hk
      omega
    · have hdis := h.pieces.live_free_disjoint (hsub hb) hk ha
      have hsize := cell_le_blockSize k
      omega

/-- A foreign byte is in no bitmap. -/
theorem foreign_bitmap (h : ZoneLists zone m free live') (hsub : live ⊆ live') {x k p : ℕ}
    (hx : zone.Foreign live x) (hk : k < maxOrder) (hp : p < zone.pairs k) :
    x ≠ zone.bitmap k + p / 8 := by
  have hbyte : p / 8 < zone.bitmapBytes k := by
    unfold AllocatorZone.bitmapBytes
    omega
  rcases hx with hout | ⟨b, hb, hlo, hhi⟩
  · rintro rfl
    exact hout (Or.inr (Or.inr ⟨k, hk, by omega, by omega⟩))
  · have hinside := h.pieces.live_inside (hsub hb)
    have hbitmap := h.layout.bitmap_outside k hk
    omega

/-- A foreign byte is not in the block that is being moved. -/
theorem foreign_block {a k x : ℕ} (h : ZoneLists zone m free (⟨a, k⟩ ::ₘ live))
    (hx : zone.Foreign live x) : x < a ∨ a + blockSize k ≤ x := by
  have hinside := h.pieces.live_inside (Multiset.mem_cons_self (⟨a, k⟩ : Block) live)
  rcases hx with hout | ⟨b, hb, hlo, hhi⟩
  · unfold AllocatorZone.Uses at hout
    simp only [Block.stop] at hinside
    omega
  · have hdis := h.pieces.live_disjoint hb
    simp only [Block.stop] at hdis hhi
    omega

theorem updateBit_keeps (h : ZoneLists zone m free live') (hsub : live ⊆ live')
    (op : BitVec 8 → ℕ → BitVec 8) {k p : ℕ} (hk : k < maxOrder) (hp : p < zone.pairs k) :
    Keeps zone live free m free (HeavenOS.updateBit op m (zone.bitmap k) p) :=
  ⟨id, fun _ hx => Mem.storeByte_of_ne _ _ (h.foreign_bitmap hsub hx hk hp)⟩

theorem unlink_keeps (h : ZoneLists zone m free live') (hsub : live ⊆ live') {k b : ℕ}
    {before after : List ℕ} (hk : k ≤ maxOrder) (hfree : free k = before ++ b :: after) :
    Keeps zone live free m (Function.update free k (before ++ after)) (unlink m b) := by
  have hmem : b ∈ free k := by simp [hfree]
  obtain ⟨hnext, hprev⟩ := (h.rings k hk).neighbours_mem (List.mem_cons_of_mem _ hmem)
  refine ⟨fun hc => hc.mono (update_erase_subset hfree), fun x hx => ?_⟩
  exact unlink_of_outside m (h.foreign_cell hsub hx hk hprev) (h.foreign_cell hsub hx hk hnext)

theorem insert_keeps {k x : ℕ} (h : ZoneLists zone m free (⟨x, k⟩ ::ₘ live)) (hk : k ≤ maxOrder)
    (hc : Coalesced zone free → Coalesced zone (Function.update free k (x :: free k))) :
    Keeps zone live free m (Function.update free k (x :: free k))
      (insertAfter (single m x) (zone.head k) x) := by
  have hmem : (⟨x, k⟩ : Block) ∈ ⟨x, k⟩ ::ₘ live := Multiset.mem_cons_self _ _
  have hsize := cell_le_blockSize k
  have hlists : ZoneLists zone (single m x) free (⟨x, k⟩ ::ₘ live) :=
    h.of_live_write hmem fun y hy => single_of_outside m (by simp only [Block.stop] at hy; omega)
  obtain ⟨hnext, -⟩ := (hlists.rings k hk).neighbours_mem List.mem_cons_self
  refine ⟨hc, fun y hy => ?_⟩
  have hblock := h.foreign_block hy
  have hsub := Multiset.subset_cons live (⟨x, k⟩ : Block)
  rw [insertAfter_of_outside _ (hlists.foreign_cell hsub hy hk List.mem_cons_self) (by omega)
    (hlists.foreign_cell hsub hy hk hnext), single_of_outside m (by omega)]

end ZoneLists

/-! ## Moves -/

namespace ZoneInv

theorem memset_keeps {block order : ℕ} (h : ZoneInv zone m free (⟨block, order⟩ ::ₘ live)) :
    Keeps zone live free m free (m.memset block 0 (blockSize order)) :=
  ⟨id, fun _ hx => Mem.memset_of_outside m 0 (h.foreign_block hx)⟩

theorem take_keeps (h : ZoneInv zone m free live) {k b : ℕ} {before after : List ℕ}
    (hk : k < maxOrder) (hfree : free k = before ++ b :: after) :
    Keeps zone live free m (Function.update free k (before ++ after))
      (updateBit flipBit (unlink m b) (zone.bitmap k) (zone.buddyIndex b k)) := by
  have hle : k ≤ maxOrder := le_of_lt hk
  have hmem : b ∈ free k := by simp [hfree]
  obtain ⟨t, -, hpair, hindex⟩ := h.exists_index (Pieces.free_mem hle hmem) hk
  simp only at hpair hindex
  have hlists : ZoneLists zone (unlink m b) (Function.update free k (before ++ after))
      (⟨b, k⟩ ::ₘ live) :=
    ⟨h.layout, h.rings_unlink hle hfree,
      h.pieces.take hle (by rw [hfree]; exact List.perm_middle)⟩
  rw [hindex]
  exact (h.unlink_keeps (Multiset.Subset.refl _) hle hfree).trans
    (hlists.updateBit_keeps (Multiset.subset_cons _ _) flipBit hk hpair)

theorem take_top_keeps (h : ZoneInv zone m free live) {b : ℕ} {before after : List ℕ}
    (hfree : free maxOrder = before ++ b :: after) :
    Keeps zone live free m (Function.update free maxOrder (before ++ after)) (unlink m b) :=
  h.unlink_keeps (Multiset.Subset.refl _) le_rfl hfree

theorem put_keeps {k x : ℕ} (h : ZoneInv zone m free (⟨x, k⟩ ::ₘ live)) (hk : k < maxOrder)
    (hbit : zone.bit m k (zone.buddyIndex x k) = false) :
    Keeps zone live free m (Function.update free k (x :: free k))
      (insertAfter (single (updateBit setBit m (zone.bitmap k) (zone.buddyIndex x k)) x)
        (zone.head k) x) := by
  have hmem : (⟨x, k⟩ : Block) ∈ ⟨x, k⟩ ::ₘ live := Multiset.mem_cons_self _ _
  obtain ⟨t, hxt, hpair, hindex⟩ := h.exists_index (Multiset.mem_add.mpr (Or.inr hmem)) hk
  simp only at hxt hpair hindex
  rw [hindex] at hbit ⊢
  rw [h.bit_of_live hk hpair (by rw [← hxt]; exact hmem), decide_eq_false_iff_not] at hbit
  refine (h.updateBit_keeps (Multiset.subset_cons _ _) setBit hk hpair).trans
    ((h.toZoneLists.updateBit setBit hk hpair).insert_keeps (le_of_lt hk) fun hc => ?_)
  rw [hxt]
  exact hc.put hbit

theorem split_keeps {j c : ℕ} (h : ZoneInv zone m free (⟨c, j + 1⟩ ::ₘ live)) :
    Keeps zone live free m (Function.update free j (buddyAddr c j :: free j))
      (insertAfter (single (updateBit setBit m (zone.bitmap j) (zone.buddyIndex c j))
        (buddyAddr c j)) (zone.head j) (buddyAddr c j)) := by
  obtain ⟨hj, hbuddy, hindex, hhalves, hbit⟩ := h.halves
  rw [hbuddy, hindex]
  exact (hhalves.put_keeps hj hbit).mono (Multiset.subset_cons _ _)

theorem merge_keeps {k a : ℕ} (h : ZoneInv zone m free (⟨a, k⟩ ::ₘ live)) (hk : k < maxOrder)
    {before after : List ℕ} (hfree : free k = before ++ buddyAddr a k :: after) :
    Keeps zone live free m (Function.update free k (before ++ after))
      (unlink (updateBit clearBit m (zone.bitmap k) (zone.buddyIndex a k)) (buddyAddr a k)) := by
  have hmem : (⟨a, k⟩ : Block) ∈ ⟨a, k⟩ ::ₘ live := Multiset.mem_cons_self _ _
  obtain ⟨t, -, hpair, hindex⟩ := h.exists_index (Multiset.mem_add.mpr (Or.inr hmem)) hk
  simp only at hpair hindex
  rw [hindex]
  exact (h.updateBit_keeps (Multiset.subset_cons _ _) clearBit hk hpair).trans
    ((h.toZoneLists.updateBit clearBit hk hpair).unlink_keeps (Multiset.subset_cons _ _)
      (le_of_lt hk) hfree)

theorem put_top_keeps {x : ℕ} (h : ZoneInv zone m free (⟨x, maxOrder⟩ ::ₘ live)) :
    Keeps zone live free m (Function.update free maxOrder (x :: free maxOrder))
      (insertAfter (single m x) (zone.head maxOrder) x) :=
  h.insert_keeps le_rfl fun hc => hc.put_top _

end ZoneInv

end HeavenOS

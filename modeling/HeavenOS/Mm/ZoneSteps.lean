/-
# What the statements of the allocator do to a zone

`zone_alloc` and `zone_dealloc` are sequences of four moves: take a block off a
free list, split a block, merge a block with its free buddy, put a block on a free
list. Between moves the block at hand is counted as live, so each move leads from
one well-formed zone to the next.
-/

import HeavenOS.Lib.RingFamily
import HeavenOS.Mm.ZoneInv

namespace HeavenOS

open Lib Lib.Ring

/-- An address in neither the blocks nor the descriptor of the zone. -/
def AllocatorZone.Outside (zone : AllocatorZone) (x : ℕ) : Prop :=
  (x < zone.startAddr ∨ zone.endAddr ≤ x) ∧ (x < zone.addr ∨ zone.addr + 288 ≤ x)

/-- Every node of every free list lies inside the blocks of the zone. -/
def NodesInside (zone : AllocatorZone) (free : ℕ → List ℕ) : Prop :=
  ∀ k ≤ maxOrder, ∀ a ∈ free k, zone.startAddr ≤ a ∧ a + blockSize k ≤ zone.endAddr

section Frames

variable {zone : AllocatorZone} {m m' : Mem} {free : ℕ → List ℕ}

theorem cell_le_blockSize (order : ℕ) : 16 ≤ blockSize order :=
  le_trans (by decide) (pageSize_le_blockSize order)

theorem AllocatorZone.head_bounds (zone : AllocatorZone) {k : ℕ} (hk : k ≤ maxOrder) :
    zone.addr ≤ zone.head k ∧ zone.head k + 16 ≤ zone.addr + 288 := by
  have hmax : maxOrder = 10 := rfl
  unfold AllocatorZone.head
  omega

theorem AllocatorZone.Layout.head_ne (hl : zone.Layout) (k : ℕ) : zone.head k ≠ 0 := by
  have hne := hl.addr_ne
  unfold AllocatorZone.head
  omega

/-- A list cell is inside the blocks or inside the descriptor. -/
theorem NodesInside.cell (hin : NodesInside zone free) {k a : ℕ} (hk : k ≤ maxOrder)
    (ha : a ∈ zone.head k :: free k) :
    (zone.startAddr ≤ a ∧ a + 16 ≤ zone.endAddr) ∨ (zone.addr ≤ a ∧ a + 16 ≤ zone.addr + 288) := by
  rcases List.mem_cons.mp ha with rfl | ha
  · exact Or.inr (zone.head_bounds hk)
  · have hsize := cell_le_blockSize k
    have hnode := hin k hk a ha
    exact Or.inl (by omega)

/-- Bitmap bytes are outside. -/
theorem AllocatorZone.Layout.outside_bitmap (hl : zone.Layout) {k p : ℕ} (hk : k < maxOrder)
    (hp : p < zone.pairs k) : zone.Outside (zone.bitmap k + p / 8) := by
  have hbyte : p / 8 < zone.bitmapBytes k := by
    unfold AllocatorZone.bitmapBytes
    omega
  have hout := hl.bitmap_outside k hk
  have hdesc := hl.bitmap_descriptor k hk
  unfold AllocatorZone.Outside
  omega

/-- Changes inside the blocks and the descriptor do not reach the bitmaps. -/
theorem AllocatorZone.Layout.bit_congr (hl : zone.Layout)
    (hsame : ∀ x, zone.Outside x → m' x = m x) {order pair : ℕ} (horder : order < maxOrder)
    (hpair : pair < zone.pairs order) : zone.bit m' order pair = zone.bit m order pair := by
  rw [bit, bit, hsame _ (hl.outside_bitmap horder hpair)]

/-- A bitmap update does not reach the free lists. -/
theorem Rings.updateBit (h : Rings zone m free) (hin : NodesInside zone free) (hl : zone.Layout)
    (op : BitVec 8 → ℕ → BitVec 8) {k p : ℕ} (hk : k < maxOrder) (hp : p < zone.pairs k) :
    Rings zone (HeavenOS.updateBit op m (zone.bitmap k) p) free := by
  have hout := hl.outside_bitmap hk hp
  intro j hj
  refine (h j hj).congr fun a ha x hlo hhi => ?_
  have hcell := hin.cell hj ha
  unfold AllocatorZone.Outside at hout
  exact Mem.storeByte_of_ne _ _ (by omega)

end Frames

/-! ## Tilings along the moves -/

section PieceMoves

variable {zone : AllocatorZone} {free free' : ℕ → List ℕ} {live live' : Multiset Block}

theorem Pieces.of_eq (h : Pieces zone free live)
    (heq : freeBlocks free' + live' = freeBlocks free + live) : Pieces zone free' live' :=
  ⟨by rw [heq]; exact h.aligned, by rw [heq]; exact h.tiles⟩

/-- A block taken off its list becomes live. -/
theorem Pieces.take (h : Pieces zone free live) {k a : ℕ} {l : List ℕ} (hk : k ≤ maxOrder)
    (hl : (free k).Perm (a :: l)) :
    Pieces zone (Function.update free k l) (⟨a, k⟩ ::ₘ live) := by
  refine h.of_eq ?_
  rw [freeBlocks_update_erase hk hl, Multiset.add_cons, Multiset.cons_add]

/-- A live block put on a list becomes free. -/
theorem Pieces.put {k a : ℕ} (h : Pieces zone free (⟨a, k⟩ ::ₘ live)) (hk : k ≤ maxOrder) :
    Pieces zone (Function.update free k (a :: free k)) live := by
  refine h.of_eq ?_
  rw [freeBlocks_update_cons hk (List.Perm.refl _), Multiset.add_cons, Multiset.cons_add]

theorem cover_halves (pieces : Multiset Block) (a k x : ℕ) :
    cover Block.addr Block.stop (⟨a, k⟩ ::ₘ ⟨a + blockSize k, k⟩ ::ₘ pieces) x =
      cover Block.addr Block.stop (⟨a, k + 1⟩ ::ₘ pieces) x := by
  apply cover_split
  · rfl
  · rfl
  · simp only [Block.stop, blockSize_succ]
    ring
  · exact (Block.addr_lt_stop _).le
  · exact (Block.addr_lt_stop _).le

/-- A live block can be cut into its two halves. -/
theorem Pieces.split {k a : ℕ} (h : Pieces zone free (⟨a, k + 1⟩ ::ₘ live)) :
    Pieces zone free (⟨a, k⟩ ::ₘ ⟨a + blockSize k, k⟩ ::ₘ live) := by
  have hwhole := h.aligned ⟨a, k + 1⟩ (by simp)
  have hdvd : blockSize k ∣ a := (blockSize_dvd (Nat.le_succ k)).trans hwhole.2
  have hk : k ≤ maxOrder := (Nat.le_succ k).trans hwhole.1
  refine ⟨fun b hb => ?_, h.tiles.congr fun x => ?_⟩
  · simp only [Multiset.mem_add, Multiset.mem_cons] at hb
    rcases hb with hb | rfl | rfl | hb
    · exact h.aligned b (by simp [hb])
    · exact ⟨hk, hdvd⟩
    · exact ⟨hk, Nat.dvd_add hdvd (dvd_refl _)⟩
    · exact h.aligned b (by simp [hb])
  · rw [cover_add, cover_add, cover_halves]

/-- Two live halves of an aligned block can be joined. -/
theorem Pieces.merge {k a : ℕ} (h : Pieces zone free (⟨a, k⟩ ::ₘ ⟨a + blockSize k, k⟩ ::ₘ live))
    (hk : k < maxOrder) (hdvd : blockSize (k + 1) ∣ a) :
    Pieces zone free (⟨a, k + 1⟩ ::ₘ live) := by
  refine ⟨fun b hb => ?_, h.tiles.congr fun x => ?_⟩
  · simp only [Multiset.mem_add, Multiset.mem_cons] at hb
    rcases hb with hb | rfl | hb
    · exact h.aligned b (by simp [hb])
    · exact ⟨hk, hdvd⟩
    · exact h.aligned b (by simp [hb])
  · rw [cover_add, cover_add, cover_halves]

theorem Pieces.free_mem {k a : ℕ} (hk : k ≤ maxOrder) (ha : a ∈ free k) :
    (⟨a, k⟩ : Block) ∈ freeBlocks free + live :=
  Multiset.mem_add.mpr (Or.inl (mem_freeBlocks.mpr ⟨hk, ha⟩))

theorem Pieces.nodesInside (h : Pieces zone free live) : NodesInside zone free := by
  intro k hk a ha
  exact h.tiles.inside (Pieces.free_mem hk ha) (Block.addr_lt_stop _)

theorem Pieces.live_inside (h : Pieces zone free live) {b : Block} (hb : b ∈ live) :
    zone.startAddr ≤ b.addr ∧ b.stop ≤ zone.endAddr :=
  h.tiles.inside (Multiset.mem_add.mpr (Or.inr hb)) b.addr_lt_stop

theorem Pieces.live_aligned (h : Pieces zone free live) {b : Block} (hb : b ∈ live) :
    b.order ≤ maxOrder ∧ blockSize b.order ∣ b.addr :=
  h.aligned b (Multiset.mem_add.mpr (Or.inr hb))

/-- Two live blocks have no address in common. -/
theorem Pieces.live_disjoint {b c : Block} (h : Pieces zone free (b ::ₘ live)) (hc : c ∈ live) :
    b.stop ≤ c.addr ∨ c.stop ≤ b.addr := by
  have htiles := h.tiles
  rw [Multiset.add_cons] at htiles
  exact htiles.disjoint_of_mem (Multiset.mem_add.mpr (Or.inr hc)) b.addr_lt_stop c.addr_lt_stop

/-- A live block has no address in common with a free one. -/
theorem Pieces.live_free_disjoint (h : Pieces zone free live) {b : Block} (hb : b ∈ live)
    {k a : ℕ} (hk : k ≤ maxOrder) (ha : a ∈ free k) :
    b.stop ≤ a ∨ a + blockSize k ≤ b.addr := by
  obtain ⟨rest, rfl⟩ := Multiset.exists_cons_of_mem hb
  have htiles := h.tiles
  rw [Multiset.add_cons] at htiles
  have hmem : (⟨a, k⟩ : Block) ∈ freeBlocks free + rest := Pieces.free_mem hk ha
  exact htiles.disjoint_of_mem hmem b.addr_lt_stop (Block.addr_lt_stop _)

end PieceMoves

/-! ## Separation of the list cells -/

/-- The free lists of a zone, one for each order. -/
def AllocatorZone.lists (zone : AllocatorZone) (free : ℕ → List ℕ) : RingFamily {k // k ≤ maxOrder} :=
  ⟨fun k => zone.head k, fun k => free k⟩

namespace ZoneLists

variable {zone : AllocatorZone} {m : Mem} {free : ℕ → List ℕ} {live : Multiset Block}

theorem nodesInside (h : ZoneLists zone m free live) : NodesInside zone free :=
  h.pieces.nodesInside

/-- Cells of different free lists share no byte. -/
theorem cells_apart (h : ZoneLists zone m free live) {j k a c : ℕ} (hj : j ≤ maxOrder)
    (hk : k ≤ maxOrder) (hne : j ≠ k) (ha : a ∈ zone.head j :: free j)
    (hc : c ∈ zone.head k :: free k) : Apart a c := by
  have hdesc := h.layout.descriptor_outside
  have hjbounds := zone.head_bounds hj
  have hkbounds := zone.head_bounds hk
  have hjsize := cell_le_blockSize j
  have hksize := cell_le_blockSize k
  rcases List.mem_cons.mp ha with rfl | ha <;> rcases List.mem_cons.mp hc with rfl | hc
  · unfold Apart AllocatorZone.head
    omega
  · have hnode := h.nodesInside k hk c hc
    unfold Apart
    omega
  · have hnode := h.nodesInside j hj a ha
    unfold Apart
    omega
  · have hdis := h.pieces.tiles.disjoint_of_ne (Pieces.free_mem hj ha) (Pieces.free_mem hk hc)
      (by simp [hne]) (Block.addr_lt_stop _) (Block.addr_lt_stop _)
    simp only [Block.stop] at hdis
    unfold Apart
    omega

/-- The free lists are a family of rings. -/
theorem ringFamily (h : ZoneLists zone m free live) : IsRingFamily m (zone.lists free) where
  ring k := h.rings k k.2
  apart {j k} hjk _ ha _ hc := h.cells_apart j.2 k.2 (fun heq => hjk (Subtype.ext heq)) ha hc

/-- A cell inside a live block shares no byte with any list cell. -/
theorem live_apart (h : ZoneLists zone m free live) {b : Block} (hb : b ∈ live) {x k a : ℕ}
    (hlo : b.addr ≤ x) (hhi : x + 16 ≤ b.stop) (hk : k ≤ maxOrder)
    (ha : a ∈ zone.head k :: free k) : Apart x a := by
  have hinside := h.pieces.live_inside hb
  have hdesc := h.layout.descriptor_outside
  rcases List.mem_cons.mp ha with rfl | ha
  · have hbounds := zone.head_bounds hk
    unfold Apart
    omega
  · have hdis := h.pieces.live_free_disjoint hb hk ha
    have hsize := cell_le_blockSize k
    unfold Apart
    omega

/-! ## List surgery -/

theorem free_ne_zero (h : ZoneLists zone m free live) {k a : ℕ} (hk : k ≤ maxOrder)
    (ha : a ∈ free k) : a ≠ 0 := by
  have hstart := h.layout.start_ne
  have hnode := h.nodesInside k hk a ha
  omega

/-- Unlinking a free block takes it out of its list and leaves the other lists. -/
theorem rings_unlink (h : ZoneLists zone m free live) {k b : ℕ} {before after : List ℕ}
    (hk : k ≤ maxOrder) (hfree : free k = before ++ b :: after) :
    Rings zone (unlink m b) (Function.update free k (before ++ after)) := by
  have hmem : b ∈ free k := by simp [hfree]
  intro j hj
  by_cases hjk : j = k
  · subst hjk
    rw [Function.update_self]
    have hring := h.rings j hj
    rw [hfree] at hring
    exact hring.unlink
  · rw [Function.update_of_ne hjk]
    have hne : (⟨j, hj⟩ : {k // k ≤ maxOrder}) ≠ ⟨k, hk⟩ := fun heq => hjk (Subtype.ext_iff.mp heq)
    exact (h.rings j hj).congr (h.ringFamily.unlink_other hmem hne)

/-- Unlinking writes inside the blocks and the descriptor only. -/
theorem unlink_outside (h : ZoneLists zone m free live) {k b x : ℕ} (hk : k ≤ maxOrder)
    (hmem : b ∈ free k) (hout : zone.Outside x) : unlink m b x = m x := by
  obtain ⟨hnext, hprev⟩ := (h.rings k hk).neighbours_mem (List.mem_cons_of_mem _ hmem)
  have h1 := h.nodesInside.cell hk hprev
  have h2 := h.nodesInside.cell hk hnext
  unfold AllocatorZone.Outside at hout
  exact unlink_of_outside m (by omega) (by omega)

/-- Inserting a cell that is apart from all others puts it first on its list. -/
theorem rings_insertAfter (h : ZoneLists zone m free live) {k x : ℕ} (hk : k ≤ maxOrder)
    (hx : x < 2 ^ 64)
    (hapart : ∀ j ≤ maxOrder, ∀ a ∈ zone.head j :: free j, Apart x a) :
    Rings zone (insertAfter m (zone.head k) x) (Function.update free k (x :: free k)) := by
  intro j hj
  by_cases hjk : j = k
  · subst hjk
    rw [Function.update_self]
    exact (h.rings j hj).insertAfter hx (hapart j hj)
  · rw [Function.update_of_ne hjk]
    have hne : (⟨j, hj⟩ : {k // k ≤ maxOrder}) ≠ ⟨k, hk⟩ := fun heq => hjk (Subtype.ext_iff.mp heq)
    exact (h.rings j hj).congr (h.ringFamily.insertAfter_other List.mem_cons_self (fun i => hapart i i.2) hne)

theorem insertAfter_outside (h : ZoneLists zone m free live) {k x y : ℕ} (hk : k ≤ maxOrder)
    (hlo : zone.startAddr ≤ x) (hhi : x + 16 ≤ zone.endAddr) (hout : zone.Outside y) :
    insertAfter m (zone.head k) x y = m y := by
  obtain ⟨hnext, -⟩ := (h.rings k hk).neighbours_mem List.mem_cons_self
  have h1 := h.nodesInside.cell hk List.mem_cons_self
  have h2 := h.nodesInside.cell hk hnext
  unfold AllocatorZone.Outside at hout
  exact insertAfter_of_outside m (by omega) (by omega) (by omega)

/-- A bitmap update keeps the lists. -/
theorem updateBit (h : ZoneLists zone m free live) (op : BitVec 8 → ℕ → BitVec 8) {k p : ℕ}
    (hk : k < maxOrder) (hp : p < zone.pairs k) :
    ZoneLists zone (HeavenOS.updateBit op m (zone.bitmap k) p) free live :=
  ⟨h.layout, h.rings.updateBit h.nodesInside h.layout op hk hp, h.pieces⟩

/-- Writing inside a live block reaches no list cell. -/
theorem of_live_write {m' : Mem} (h : ZoneLists zone m free live) {b : Block} (hb : b ∈ live)
    (hsame : ∀ x, x < b.addr ∨ b.stop ≤ x → m' x = m x) : ZoneLists zone m' free live := by
  have hinside := h.pieces.live_inside hb
  refine ⟨h.layout, fun k hk => ?_, h.pieces⟩
  refine (h.rings k hk).congr fun a ha x hlo hhi => hsame x ?_
  have hdesc := h.layout.descriptor_outside
  rcases List.mem_cons.mp ha with rfl | ha
  · have hbounds := zone.head_bounds hk
    omega
  · have hdis := h.pieces.live_free_disjoint hb hk ha
    have hsize := cell_le_blockSize k
    omega

end ZoneLists

/-! ## The four moves -/

namespace ZoneInv

variable {zone : AllocatorZone} {m : Mem} {free : ℕ → List ℕ} {live : Multiset Block}

/-- Writing inside a live block keeps the zone well-formed. -/
theorem of_live_write {m' : Mem} (h : ZoneInv zone m free live) {b : Block} (hb : b ∈ live)
    (hsame : ∀ x, x < b.addr ∨ b.stop ≤ x → m' x = m x) : ZoneInv zone m' free live := by
  have hinside := h.pieces.live_inside hb
  refine ⟨h.toZoneLists.of_live_write hb hsame, fun k hk pair hpair => ?_⟩
  rw [← h.bits k hk pair hpair]
  refine h.layout.bit_congr (fun x hout => hsame x ?_) hk hpair
  unfold AllocatorZone.Outside at hout
  omega

/-- The index of a free or live block below the top order. -/
theorem exists_index (h : ZoneInv zone m free live) {b : Block} (hb : b ∈ freeBlocks free + live)
    (hk : b.order < maxOrder) :
    ∃ t, b.addr = zone.nth b.order t ∧ t / 2 < zone.pairs b.order ∧
      zone.buddyIndex b.addr b.order = t / 2 := by
  have hinside := h.pieces.tiles.inside hb b.addr_lt_stop
  exact h.layout.exists_index hk (h.pieces.aligned b hb).2 hinside.1 hinside.2

/-- Take a block of an order below the top off its list: unlink it, flip its bit. -/
theorem take (h : ZoneInv zone m free live) {k b : ℕ} {before after : List ℕ} (hk : k < maxOrder)
    (hfree : free k = before ++ b :: after) :
    ZoneInv zone (updateBit flipBit (unlink m b) (zone.bitmap k) (zone.buddyIndex b k))
      (Function.update free k (before ++ after)) (⟨b, k⟩ ::ₘ live) := by
  have hle : k ≤ maxOrder := le_of_lt hk
  have hmem : b ∈ free k := by simp [hfree]
  obtain ⟨t, hbt, hpair, hindex⟩ := h.exists_index (Pieces.free_mem hle hmem) hk
  simp only at hbt hpair hindex
  have hlists : ZoneLists zone (unlink m b) (Function.update free k (before ++ after))
      (⟨b, k⟩ ::ₘ live) :=
    ⟨h.layout, h.rings_unlink hle hfree,
      h.pieces.take hle (by rw [hfree]; exact List.perm_middle)⟩
  rw [hindex]
  refine ⟨hlists.updateBit _ hk hpair, h.bits.toggle (k := k) (t := t) ?_ ?_⟩
  · intro order horder pair hpair'
    rw [h.layout.bit_toggle touches_flipBit _ hk hpair ?_ order horder pair hpair',
      h.layout.bit_congr (fun x hout => h.unlink_outside hle hmem hout) horder hpair']
    rw [getLsbD_flipBit _ (Nat.mod_lt _ (by decide))]
    simp [AllocatorZone.bit]
  · rw [← hbt, hfree]
    have hnodup := (h.rings k hle).nodup
    rw [hfree] at hnodup
    exact toggle_erase hnodup

/-- Take a block of the top order off its list; there is no bit to flip. -/
theorem take_top (h : ZoneInv zone m free live) {b : ℕ} {before after : List ℕ}
    (hfree : free maxOrder = before ++ b :: after) :
    ZoneInv zone (unlink m b) (Function.update free maxOrder (before ++ after))
      (⟨b, maxOrder⟩ ::ₘ live) := by
  have hmem : b ∈ free maxOrder := by simp [hfree]
  refine ⟨⟨h.layout, h.rings_unlink le_rfl hfree,
    h.pieces.take le_rfl (by rw [hfree]; exact List.perm_middle)⟩, fun k hk pair hpair => ?_⟩
  rw [h.layout.bit_congr (fun x hout => h.unlink_outside le_rfl hmem hout) hk hpair,
    h.bits k hk pair hpair, pairBit, pairBit, Function.update_of_ne (ne_of_lt hk)]

/-- Put the live block `x` on its list in a memory whose bits already count it as free. -/
theorem put_of_bits {k x : ℕ} (h : ZoneLists zone m free (⟨x, k⟩ ::ₘ live)) (hk : k ≤ maxOrder)
    (hbits : Bits zone m (Function.update free k (x :: free k))) :
    ZoneInv zone (insertAfter (single m x) (zone.head k) x)
      (Function.update free k (x :: free k)) live := by
  have hmem : (⟨x, k⟩ : Block) ∈ ⟨x, k⟩ ::ₘ live := Multiset.mem_cons_self _ _
  have hinside := h.pieces.live_inside hmem
  have hsize := cell_le_blockSize k
  simp only [Block.stop] at hinside
  have hend := h.layout.end_lt
  have hsingle : ∀ y, y < x ∨ x + blockSize k ≤ y → single m x y = m y :=
    fun y hy => single_of_outside m (by omega)
  have hlists : ZoneLists zone (single m x) free (⟨x, k⟩ ::ₘ live) := h.of_live_write hmem hsingle
  refine ⟨⟨h.layout, hlists.rings_insertAfter hk (by omega) ?_, h.pieces.put hk⟩, ?_⟩
  · exact fun j hj a ha => hlists.live_apart hmem le_rfl (by simp only [Block.stop]; omega) hj ha
  · intro order horder pair hpair
    rw [← hbits order horder pair hpair]
    refine h.layout.bit_congr (fun y hout => ?_) horder hpair
    rw [hlists.insertAfter_outside hk hinside.1 (by omega) hout]
    unfold AllocatorZone.Outside at hout
    exact hsingle y (by omega)

theorem live_not_free (h : ZoneInv zone m free live) {b : Block} (hb : b ∈ live) :
    b.addr ∉ free b.order := by
  intro hfree
  have hdis := h.pieces.live_free_disjoint hb (h.pieces.live_aligned hb).1 hfree
  have hpos := blockSize_pos b.order
  simp only [Block.stop] at hdis
  omega

/-- Put a live block of an order below the top on its list: set its bit, insert it. -/
theorem put {k x : ℕ} (h : ZoneInv zone m free (⟨x, k⟩ ::ₘ live)) (hk : k < maxOrder)
    (hbit : zone.bit m k (zone.buddyIndex x k) = false) :
    ZoneInv zone
      (insertAfter (single (updateBit setBit m (zone.bitmap k) (zone.buddyIndex x k)) x)
        (zone.head k) x)
      (Function.update free k (x :: free k)) live := by
  have hmem : (⟨x, k⟩ : Block) ∈ ⟨x, k⟩ ::ₘ live := Multiset.mem_cons_self _ _
  obtain ⟨t, hxt, hpair, hindex⟩ := h.exists_index (Multiset.mem_add.mpr (Or.inr hmem)) hk
  simp only at hxt hpair hindex
  rw [hindex] at hbit ⊢
  refine put_of_bits (h.toZoneLists.updateBit setBit hk hpair) (le_of_lt hk) ?_
  refine h.bits.toggle (k := k) (t := t) ?_ ?_
  · refine h.layout.bit_toggle touches_setBit m hk hpair ?_
    rw [getLsbD_setBit _ (Nat.mod_lt _ (by decide)), hbit]
    simp
  · rw [← hxt]
    exact toggle_cons (h.live_not_free hmem)

/-- Put a live block of the top order on its list. -/
theorem put_top {x : ℕ} (h : ZoneInv zone m free (⟨x, maxOrder⟩ ::ₘ live)) :
    ZoneInv zone (insertAfter (single m x) (zone.head maxOrder) x)
      (Function.update free maxOrder (x :: free maxOrder)) live := by
  refine put_of_bits h.toZoneLists le_rfl fun k hk pair hpair => ?_
  rw [h.bits k hk pair hpair, pairBit, pairBit, Function.update_of_ne (ne_of_lt hk)]

/-- The bit of a live block's pair says whether its buddy is free. -/
theorem bit_of_live (h : ZoneInv zone m free live) {k t : ℕ} (hk : k < maxOrder)
    (hpair : t / 2 < zone.pairs k) (hlive : ⟨zone.nth k t, k⟩ ∈ live) :
    zone.bit m k (t / 2) = decide (zone.nth k (if t % 2 = 0 then t + 1 else t - 1) ∈ free k) := by
  have hnot := h.live_not_free hlive
  rw [h.bits k hk _ hpair, pairBit]
  by_cases ht : t % 2 = 0
  · rw [if_pos ht, show 2 * (t / 2) = t by omega]
    simp [hnot]
  · rw [if_neg ht, show 2 * (t / 2) + 1 = t by omega, show 2 * (t / 2) = t - 1 by omega]
    simp [hnot]

/-- The two halves of a live block: neither is free, so the bit of their pair is clear. -/
theorem halves {j c : ℕ} (h : ZoneInv zone m free (⟨c, j + 1⟩ ::ₘ live)) :
    j < maxOrder ∧ buddyAddr c j = c + blockSize j ∧
      zone.buddyIndex c j = zone.buddyIndex (c + blockSize j) j ∧
      ZoneInv zone m free (⟨c + blockSize j, j⟩ ::ₘ ⟨c, j⟩ ::ₘ live) ∧
      zone.bit m j (zone.buddyIndex (c + blockSize j) j) = false := by
  have hwhole := h.pieces.live_aligned (Multiset.mem_cons_self _ _)
  have hj : j < maxOrder := hwhole.1
  have hhalves : ZoneInv zone m free (⟨c, j⟩ ::ₘ ⟨c + blockSize j, j⟩ ::ₘ live) :=
    ⟨⟨h.layout, h.rings, h.pieces.split⟩, h.bits⟩
  have hlow : (⟨c, j⟩ : Block) ∈ ⟨c, j⟩ ::ₘ ⟨c + blockSize j, j⟩ ::ₘ live := by simp
  have hupp : (⟨c + blockSize j, j⟩ : Block) ∈ ⟨c, j⟩ ::ₘ ⟨c + blockSize j, j⟩ ::ₘ live := by simp
  obtain ⟨t, hct, hpair, hindex⟩ := hhalves.exists_index (Multiset.mem_add.mpr (Or.inr hlow)) hj
  obtain ⟨u, hut, -, huindex⟩ := hhalves.exists_index (Multiset.mem_add.mpr (Or.inr hupp)) hj
  simp only at hct hpair hindex hut huindex
  have heven : t % 2 = 0 := by
    rw [← h.layout.dvd_nth_iff hj, ← hct]
    exact hwhole.2
  have hu : u = t + 1 := by
    rw [hct, ← AllocatorZone.nth_succ] at hut
    exact (AllocatorZone.nth_inj.mp hut).symm
  have hinside := hhalves.pieces.live_inside hlow
  have hend := h.layout.end_lt
  simp only [Block.stop] at hinside
  have hpos := blockSize_pos j
  have hbuddy : buddyAddr c j = c + blockSize j := by
    rw [hct, h.layout.buddyAddr_eq hj (by rw [← hct]; omega), if_pos heven,
      AllocatorZone.nth_succ]
  have hsame : zone.buddyIndex c j = zone.buddyIndex (c + blockSize j) j := by
    rw [hindex, huindex, hu]
    omega
  have hswap : ZoneInv zone m free (⟨c + blockSize j, j⟩ ::ₘ ⟨c, j⟩ ::ₘ live) := by
    rw [Multiset.cons_swap]
    exact hhalves
  refine ⟨hj, hbuddy, hsame, hswap, ?_⟩
  rw [← hsame, hindex, hhalves.bit_of_live hj hpair (by rw [← hct]; exact hlow), if_pos heven,
    AllocatorZone.nth_succ, ← hct]
  simpa using hhalves.live_not_free hupp

/-- Split a live block: set the bit of the new pair, put the upper half on its list. -/
theorem split {j c : ℕ} (h : ZoneInv zone m free (⟨c, j + 1⟩ ::ₘ live)) :
    buddyAddr c j = c + blockSize j ∧
      ZoneInv zone
        (insertAfter (single (updateBit setBit m (zone.bitmap j) (zone.buddyIndex c j))
          (buddyAddr c j)) (zone.head j) (buddyAddr c j))
        (Function.update free j (buddyAddr c j :: free j)) (⟨c, j⟩ ::ₘ live) := by
  obtain ⟨hj, hbuddy, hindex, hhalves, hbit⟩ := h.halves
  refine ⟨hbuddy, ?_⟩
  rw [hbuddy, hindex]
  exact hhalves.put hj hbit

/-- Merge a live block with its buddy when the bit says that the buddy is free: clear
the bit, take the buddy off its list. -/
theorem merge {k a : ℕ} (h : ZoneInv zone m free (⟨a, k⟩ ::ₘ live)) (hk : k < maxOrder)
    (hbit : zone.bit m k (zone.buddyIndex a k) = true) :
    buddyAddr a k ∈ free k ∧ ∀ before after, free k = before ++ buddyAddr a k :: after →
      ZoneInv zone
        (unlink (updateBit clearBit m (zone.bitmap k) (zone.buddyIndex a k)) (buddyAddr a k))
        (Function.update free k (before ++ after))
        (⟨if buddyAddr a k < a then buddyAddr a k else a, k + 1⟩ ::ₘ live) := by
  have hmem : (⟨a, k⟩ : Block) ∈ ⟨a, k⟩ ::ₘ live := Multiset.mem_cons_self _ _
  obtain ⟨t, hat, hpair, hindex⟩ := h.exists_index (Multiset.mem_add.mpr (Or.inr hmem)) hk
  simp only at hat hpair hindex
  have hinside := h.pieces.live_inside hmem
  simp only [Block.stop] at hinside
  have hend := h.layout.end_lt
  have hpos := blockSize_pos k
  have hbuddy : buddyAddr a k = zone.nth k (if t % 2 = 0 then t + 1 else t - 1) := by
    rw [hat, h.layout.buddyAddr_eq hk (by rw [← hat]; omega)]
  have hfreeBuddy : buddyAddr a k ∈ free k := by
    rw [hindex, h.bit_of_live hk hpair (by rw [← hat]; exact hmem), ← hbuddy] at hbit
    simpa using hbit
  refine ⟨hfreeBuddy, fun before after hfree => ?_⟩
  have hle : k ≤ maxOrder := le_of_lt hk
  have hlists : ZoneLists zone (updateBit clearBit m (zone.bitmap k) (zone.buddyIndex a k)) free
      (⟨a, k⟩ ::ₘ live) := by
    rw [hindex]
    exact h.toZoneLists.updateBit clearBit hk hpair
  have hpieces : Pieces zone (Function.update free k (before ++ after))
      (⟨buddyAddr a k, k⟩ ::ₘ ⟨a, k⟩ ::ₘ live) :=
    h.pieces.take hle (by rw [hfree]; exact List.perm_middle)
  have hmerged : Pieces zone (Function.update free k (before ++ after))
      (⟨if buddyAddr a k < a then buddyAddr a k else a, k + 1⟩ ::ₘ live) := by
    by_cases ht : t % 2 = 0
    · have hupper : buddyAddr a k = a + blockSize k := by
        rw [hbuddy, if_pos ht, AllocatorZone.nth_succ, hat]
      rw [if_neg (by omega)]
      rw [hupper, Multiset.cons_swap] at hpieces
      refine hpieces.merge hk ?_
      rw [hat, h.layout.dvd_nth_iff hk]
      exact ht
    · have hlower : a = buddyAddr a k + blockSize k := by
        rw [hbuddy, if_neg ht, ← AllocatorZone.nth_succ, Nat.sub_add_cancel (by omega), hat]
      rw [if_pos (by omega)]
      have hpieces' : Pieces zone (Function.update free k (before ++ after))
          (⟨buddyAddr a k, k⟩ ::ₘ ⟨buddyAddr a k + blockSize k, k⟩ ::ₘ live) := by
        rwa [← hlower]
      refine hpieces'.merge hk ?_
      rw [hbuddy, if_neg ht, h.layout.dvd_nth_iff hk]
      omega
  refine ⟨⟨h.layout, hlists.rings_unlink hle hfree, hmerged⟩, ?_⟩
  refine h.bits.toggle (k := k) (t := if t % 2 = 0 then t + 1 else t - 1) ?_ ?_
  · intro order horder pair hpair'
    have hsamePair : (if t % 2 = 0 then t + 1 else t - 1) / 2 = t / 2 := by split_ifs <;> omega
    rw [h.layout.bit_congr (fun x hout => hlists.unlink_outside hle hfreeBuddy hout) horder
      hpair', hsamePair, hindex]
    refine h.layout.bit_toggle touches_clearBit m hk hpair ?_ order horder pair hpair'
    rw [getLsbD_clearBit _ (Nat.mod_lt _ (by decide)), ← hindex, hbit]
    simp
  · rw [← hbuddy, hfree]
    have hnodup := (h.rings k hle).nodup
    rw [hfree] at hnodup
    exact toggle_erase hnodup

end ZoneInv

end HeavenOS

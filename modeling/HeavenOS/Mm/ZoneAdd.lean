/-
# Laying out a zone

`zone_add` takes a run of pages, reserves bitmap pages at its beginning, rounds
the rest to the largest block size and puts every block on the top free list. The
reservation counts the bits of each order; the layout afterwards gives every order
the bitmap of the top one, computed with `MAX_ORDER` where the loop variable should
be, and clears nothing.
-/

import HeavenOS.Mm.ZoneRun

namespace HeavenOS

open Lib Lib.Ring

/-- `allocator_zones` and `zones_count`: the descriptors in use, in order, in an
array at `zonesAddr`. A descriptor takes 288 bytes. -/
structure FrameAllocator where
  zonesAddr : ℕ
  zones : List AllocatorZone

/-- `required_bitmap_size`, in bytes. -/
def requiredBitmapSize (pagesCount : ℕ) : ℕ :=
  (List.range (maxOrder + 1)).foldl
    (fun total i => (total + divRoundUp (pagesCount / 2 ^ i / 2) 8) % 2 ^ 64) 0

/-- `bitmap_size`, in pages. -/
def bitmapSize (pagesCount : ℕ) : ℕ := divRoundUp (requiredBitmapSize pagesCount) pageSize

/-- `order_bitmap_size` as the source computes it for every order. -/
def orderBitmapSize (zone : AllocatorZone) : ℕ := divRoundUp (zone.pagesCount / 2 ^ maxOrder / 2) 8

/-- The address and size part of `zone_add`, before any pointer is filled in. -/
def zoneBounds (descriptor addr pagesCount : ℕ) : AllocatorZone :=
  let bitmapPages := bitmapSize pagesCount
  let startAddr := (addr + pageSize * bitmapPages) % 2 ^ 64
  let pagesCount := subU64 pagesCount bitmapPages
  let startAddr := roundUp startAddr (blockSize maxOrder)
  let endAddr := roundDown ((startAddr + pagesCount * pageSize) % 2 ^ 64) (blockSize maxOrder)
  { addr := descriptor
    bitmapPages := bitmapPages
    bitmap := fun _ => 0
    startAddr := startAddr
    endAddr := endAddr
    pagesCount := subU64 endAddr startAddr / pageSize }

/-- The loop that fills in the bitmap pointers and initialises the free lists, with
`count` orders to go from order `i`. -/
def fillBitmaps : (count i bitmapPtr : ℕ) → AllocatorZone → Mem → Except Panic (AllocatorZone × Mem)
  | 0, _, _, zone, m => return (zone, m)
  | count + 1, i, bitmapPtr, zone, m => do
      let size := orderBitmapSize zone
      let zone := { zone with bitmap := Function.update zone.bitmap i bitmapPtr }
      let bitmapPtr := (bitmapPtr + size) % 2 ^ 64
      kassert (bitmapPtr < (bitmapPtr + zone.bitmapPages * pageSize) % 2 ^ 64)
        "bitmap_ptr < bitmap_ptr + bitmap_size * PAGE_SIZE"
      let m ← listInit m (zone.head i)
      fillBitmaps count (i + 1) bitmapPtr zone m

/-- The loop that puts the blocks on the top free list, with `count` blocks to go
from block `i`. -/
def fillBlocks (zone : AllocatorZone) : (count i : ℕ) → Mem → Except Panic Mem
  | 0, _, m => return m
  | count + 1, i, m => do
      let block := (zone.startAddr + i * 2 ^ maxOrder * pageSize) % 2 ^ 64
      let m ← listInit m block
      let m ← listInsertAfter m (zone.head maxOrder) block
      fillBlocks zone count (i + 1) m

/-- `zone_add`: the number of pages added, the new descriptor table, and memory. -/
def zoneAdd (fa : FrameAllocator) (addr pagesCount : ℕ) (m : Mem) :
    Except Panic (ℕ × FrameAllocator × Mem) := do
  kassert (maskDown addr pageSize = addr) "(addr & (~(4096 - 1))) == addr"
  kassert (pagesCount > 2 ^ maxOrder) "pages_count > ((size_t)1 << 10)"
  kassert (fa.zones.length < maxZoneCount) "zones_count < 10"
  let zone := zoneBounds (fa.zonesAddr + 288 * fa.zones.length) addr pagesCount
  let (zone, m) ← fillBitmaps maxOrder 0 addr zone m
  let zone := { zone with bitmap := Function.update zone.bitmap maxOrder 0 }
  let m ← listInit m (zone.head maxOrder)
  let m ← fillBlocks zone (zone.pagesCount / 2 ^ maxOrder) 0 m
  return (zone.pagesCount, { fa with zones := fa.zones ++ [zone] }, m)

/-! ## Bounds -/

/-- The sum of the first `n` terms of `required_bitmap_size`. Each term is half the one
before it, up to a byte, so the terms still to come are the room left below an eighth. -/
theorem requiredBitmapSize_partial {pagesCount : ℕ} (hmin : 2 ^ maxOrder < pagesCount)
    (hmax : pagesCount < 2 ^ 63) {n : ℕ} (hn : n ≤ 2 ^ 32) :
    let total := (List.range n).foldl
      (fun total i => (total + divRoundUp (pagesCount / 2 ^ i / 2) 8) % 2 ^ 64) 0
    total + 2 * (pagesCount / 16 / 2 ^ n) ≤ 2 * (pagesCount / 16) + n ∧ (0 < n → 0 < total) := by
  induction n with
  | zero => simp
  | succ n ih =>
      obtain ⟨hle, hpos⟩ := ih (by omega)
      rw [List.range_succ, List.foldl_append, List.foldl_cons, List.foldl_nil]
      have hterm : divRoundUp (pagesCount / 2 ^ n / 2) 8 ≤ pagesCount / 16 / 2 ^ n + 1 := by
        rw [Nat.div_div_eq_div_mul pagesCount 16, Nat.mul_comm 16, ← Nat.div_div_eq_div_mul]
        have hdiv := Nat.div_le_self pagesCount (2 ^ n)
        unfold divRoundUp
        generalize pagesCount / 2 ^ n = y at hdiv
        omega
      have hhalf : pagesCount / 16 / 2 ^ (n + 1) = pagesCount / 16 / 2 ^ n / 2 := by
        rw [pow_succ, ← Nat.div_div_eq_div_mul]
      have hterm0 : n = 0 → 0 < divRoundUp (pagesCount / 2 ^ n / 2) 8 := by
        rintro rfl
        simp only [maxOrder] at hmin
        unfold divRoundUp
        omega
      rw [hhalf]
      generalize (List.range n).foldl _ 0 = total at *
      generalize divRoundUp (pagesCount / 2 ^ n / 2) 8 = term at *
      generalize pagesCount / 16 / 2 ^ n = rest at *
      rw [Nat.mod_eq_of_lt (by omega)]
      omega

/-- The reservation is not empty, and at most an eighth of the pages in bytes and one
byte an order. -/
theorem requiredBitmapSize_bounds {pagesCount : ℕ} (hmin : 2 ^ maxOrder < pagesCount)
    (hmax : pagesCount < 2 ^ 63) :
    0 < requiredBitmapSize pagesCount ∧ requiredBitmapSize pagesCount ≤ pagesCount / 8 + 11 := by
  obtain ⟨hle, hpos⟩ := requiredBitmapSize_partial hmin hmax (n := maxOrder + 1) (by decide)
  have heleven : maxOrder + 1 = 11 := rfl
  refine ⟨hpos (by omega), ?_⟩
  unfold requiredBitmapSize
  omega

/-- At least one page is reserved, and a region of more than one block of the top
order keeps at least one block. -/
theorem bitmapSize_bounds {pagesCount : ℕ} (hmin : 2 ^ maxOrder < pagesCount)
    (hmax : pagesCount < 2 ^ 63) :
    0 < bitmapSize pagesCount ∧ bitmapSize pagesCount + 2 ^ maxOrder ≤ pagesCount := by
  obtain ⟨hpos, hle⟩ := requiredBitmapSize_bounds hmin hmax
  simp only [bitmapSize, divRoundUp, pageSize, maxOrder] at *
  omega

/-- Where the zone begins and ends. The beginning is rounded up past the bitmap pages,
and the end is counted from there by all remaining pages. -/
theorem zoneBounds_spec (descriptor : ℕ) {addr pagesCount : ℕ} (hmin : 2 ^ maxOrder < pagesCount)
    (hwrap : addr + pagesCount * pageSize + blockSize maxOrder ≤ 2 ^ 64) :
    let zone := zoneBounds descriptor addr pagesCount
    let blocks := (pagesCount - bitmapSize pagesCount) / 2 ^ maxOrder
    blockSize maxOrder ∣ zone.startAddr ∧
      addr + pageSize * bitmapSize pagesCount ≤ zone.startAddr ∧
      zone.startAddr < addr + pageSize * bitmapSize pagesCount + blockSize maxOrder ∧
      zone.endAddr = zone.startAddr + blocks * blockSize maxOrder ∧
      zone.pagesCount = blocks * 2 ^ maxOrder ∧ 0 < blocks ∧
      zone.endAddr ≤ addr + pagesCount * pageSize + blockSize maxOrder - 1 := by
  have hpage : pageSize = 4096 := rfl
  have hblock : blockSize maxOrder = 4194304 := rfl
  have htwo : 2 ^ maxOrder = 1024 := rfl
  rw [hpage, hblock] at hwrap
  obtain ⟨hpos, hroom⟩ := bitmapSize_bounds hmin (by omega)
  have hstartSum : (addr + 4096 * bitmapSize pagesCount) % 2 ^ 64 =
      addr + 4096 * bitmapSize pagesCount := Nat.mod_eq_of_lt (by omega)
  have hleft : subU64 pagesCount (bitmapSize pagesCount) = pagesCount - bitmapSize pagesCount :=
    subU64_of_le (by omega) (by omega)
  obtain ⟨hlo, hhi⟩ := roundUp_bounds (a := addr + 4096 * bitmapSize pagesCount)
    (n := 4194304) (by decide) (by omega)
  obtain ⟨c, hc⟩ := dvd_roundUp (addr + 4096 * bitmapSize pagesCount) 4194304
  simp only [zoneBounds, hstartSum, hleft, hpage, hblock, htwo] at *
  rw [hc] at hlo hhi ⊢
  have hendSum : (4194304 * c + (pagesCount - bitmapSize pagesCount) * 4096) % 2 ^ 64 =
      4194304 * c + (pagesCount - bitmapSize pagesCount) * 4096 := Nat.mod_eq_of_lt (by omega)
  have hend : roundDown (4194304 * c + (pagesCount - bitmapSize pagesCount) * 4096) 4194304 =
      4194304 * c + (pagesCount - bitmapSize pagesCount) / 1024 * 4194304 := by
    unfold roundDown
    omega
  rw [hendSum, hend, subU64_of_le (by omega) (by omega)]
  omega

/-- The bitmap pointers after `count` iterations from order `i`. -/
def consecutiveBitmaps (zone : AllocatorZone) (i count ptr : ℕ) : ℕ → ℕ :=
  fun j => if i ≤ j ∧ j < i + count then ptr + (j - i) * orderBitmapSize zone else zone.bitmap j

/-- Every order gets a bitmap of the same size, one behind the other. -/
theorem fillBitmaps_spec (zone : AllocatorZone) (count i ptr : ℕ) (m : Mem)
    (haddr : zone.addr ≠ 0) (hpages : 0 < zone.bitmapPages)
    (hwrap : ptr + count * orderBitmapSize zone + zone.bitmapPages * pageSize < 2 ^ 64) :
    ∃ m', fillBitmaps count i ptr zone m =
      .ok ({ zone with bitmap := consecutiveBitmaps zone i count ptr }, m') := by
  induction count generalizing i ptr zone m with
  | zero =>
      refine ⟨m, ?_⟩
      have hnone : consecutiveBitmaps zone i 0 ptr = zone.bitmap := by
        funext j
        rw [consecutiveBitmaps, if_neg (by omega)]
      rw [hnone]
      rfl
  | succ count ih =>
      have hsize : (count + 1) * orderBitmapSize zone =
          count * orderBitmapSize zone + orderBitmapSize zone := by ring
      have hpage : pageSize = 4096 := rfl
      have hptr : (ptr + orderBitmapSize zone) % 2 ^ 64 = ptr + orderBitmapSize zone :=
        Nat.mod_eq_of_lt (by omega)
      have hhead : zone.head i ≠ 0 := by
        unfold AllocatorZone.head
        omega
      obtain ⟨m', hrun⟩ := ih { zone with bitmap := Function.update zone.bitmap i ptr }
        (i + 1) (ptr + orderBitmapSize zone) (single m (zone.head i)) haddr hpages (by
          change ptr + orderBitmapSize zone + count * orderBitmapSize zone +
            zone.bitmapPages * pageSize < 2 ^ 64
          omega)
      refine ⟨m', ?_⟩
      rw [fillBitmaps]
      simp only [hptr]
      rw [hpage] at hwrap ⊢
      rw [kassert_of_true (by rw [Nat.mod_eq_of_lt (by omega)]; omega), ok_bind]
      have hinit : listInit m (AllocatorZone.head
          { zone with bitmap := Function.update zone.bitmap i ptr } i) =
            .ok (single m (zone.head i)) := listInit_eq m hhead
      rw [hinit, ok_bind, hrun]
      congr 3
      funext j
      simp only [consecutiveBitmaps, Function.update_apply, orderBitmapSize]
      by_cases hji : j = i
      · subst hji
        rw [if_neg (by omega), if_pos rfl, if_pos (by omega)]
        simp
      · by_cases hin : i + 1 ≤ j ∧ j < i + 1 + count
        · rw [if_pos hin, if_pos (by omega), show j - i = j - (i + 1) + 1 by omega]
          ring
        · rw [if_neg hin, if_neg hji, if_neg (by omega)]

theorem fillBlocks_ok (zone : AllocatorZone) {count i : ℕ} (m : Mem) (haddr : zone.addr ≠ 0)
    (hstart : zone.startAddr ≠ 0)
    (hwrap : zone.startAddr + (i + count) * blockSize maxOrder < 2 ^ 64) :
    ∃ m', fillBlocks zone count i m = .ok m' := by
  induction count generalizing i m with
  | zero => exact ⟨m, rfl⟩
  | succ count ih =>
      have hblock : blockSize maxOrder = 2 ^ maxOrder * pageSize := by decide
      have haddr' : (zone.startAddr + i * 2 ^ maxOrder * pageSize) % 2 ^ 64 =
          zone.startAddr + i * blockSize maxOrder := by
        rw [Nat.mul_assoc, ← hblock]
        exact Nat.mod_eq_of_lt (by
          have : (i + (count + 1)) * blockSize maxOrder =
            i * blockSize maxOrder + (count + 1) * blockSize maxOrder := by ring
          omega)
      have hne : zone.startAddr + i * blockSize maxOrder ≠ 0 := by omega
      have hhead : zone.head maxOrder ≠ 0 := by
        unfold AllocatorZone.head
        omega
      rw [fillBlocks]
      simp only [haddr', listInit_eq m hne, ok_bind, listInsertAfter_eq _ hhead hne]
      exact ih _ (by rwa [show i + 1 + count = i + (count + 1) by omega])

/-- `zone_add` when its assertions hold and its two loops and the list initialisation
between them return. -/
theorem zoneAdd_of_ok {fa : FrameAllocator} {addr pagesCount : ℕ} {m m1 m2 m3 : Mem}
    {zone zone1 zone2 : AllocatorZone} (halign : maskDown addr pageSize = addr)
    (hmin : pagesCount > 2 ^ maxOrder) (hslot : fa.zones.length < maxZoneCount)
    (hzone : zoneBounds (fa.zonesAddr + 288 * fa.zones.length) addr pagesCount = zone)
    (hbitmaps : fillBitmaps maxOrder 0 addr zone m = .ok (zone1, m1))
    (hlast : { zone1 with bitmap := Function.update zone1.bitmap maxOrder 0 } = zone2)
    (hinit : listInit m1 (zone2.head maxOrder) = .ok m2)
    (hblocks : fillBlocks zone2 (zone2.pagesCount / 2 ^ maxOrder) 0 m2 = .ok m3) :
    zoneAdd fa addr pagesCount m =
      .ok (zone2.pagesCount, { fa with zones := fa.zones ++ [zone2] }, m3) := by
  rw [zoneAdd, kassert_of_true halign, ok_bind, kassert_of_true hmin, ok_bind,
    kassert_of_true hslot, ok_bind]
  have hcount : zone1.pagesCount = zone2.pagesCount := by rw [← hlast]
  simp only [hzone, hbitmaps, ok_bind, hlast, hinit]
  simp only [hcount, hblocks, ok_bind]
  rfl

/-- `zone_add` returns, with these fields in the new descriptor. -/
theorem zoneAdd_ok (fa : FrameAllocator) (addr pagesCount : ℕ) (m : Mem)
    (hzones : fa.zonesAddr ≠ 0) (hslot : fa.zones.length < maxZoneCount)
    (haddr : pageSize ∣ addr) (hmin : 2 ^ maxOrder < pagesCount)
    (hwrap : addr + pagesCount * pageSize + blockSize maxOrder ≤ 2 ^ 64) :
    ∃ zone m', zoneAdd fa addr pagesCount m =
        .ok (zone.pagesCount, { fa with zones := fa.zones ++ [zone] }, m') ∧
      zone.startAddr = (zoneBounds 0 addr pagesCount).startAddr ∧
      zone.endAddr = (zoneBounds 0 addr pagesCount).endAddr ∧
      zone.pagesCount = (zoneBounds 0 addr pagesCount).pagesCount ∧
      zone.bitmapPages = bitmapSize pagesCount ∧
      ∀ j < maxOrder, zone.bitmap j = addr + j * orderBitmapSize zone := by
  have hpage : pageSize = 4096 := rfl
  have hblock : blockSize maxOrder = 4194304 := rfl
  have htwo : 2 ^ maxOrder = 1024 := rfl
  have hwrap' : addr + pagesCount * 4096 + 4194304 ≤ 2 ^ 64 := by rwa [hpage, hblock] at hwrap
  obtain ⟨hpos, hroom⟩ := bitmapSize_bounds hmin (by omega)
  obtain ⟨-, hlo, -, hend, hcount, -, hlast⟩ :=
    zoneBounds_spec (fa.zonesAddr + 288 * fa.zones.length) hmin hwrap
  set zone := zoneBounds (fa.zonesAddr + 288 * fa.zones.length) addr pagesCount with hzone
  rw [hpage] at hlo hlast
  rw [hblock] at hlast
  have hzaddr : zone.addr ≠ 0 := by
    have : zone.addr = fa.zonesAddr + 288 * fa.zones.length := rfl
    omega
  have hzpages : zone.bitmapPages = bitmapSize pagesCount := rfl
  have hsize : maxOrder * orderBitmapSize zone ≤ pagesCount - bitmapSize pagesCount := by
    have hten : maxOrder = 10 := rfl
    unfold orderBitmapSize divRoundUp
    rw [hcount, hten]
    omega
  obtain ⟨m1, hfill⟩ := fillBitmaps_spec _ maxOrder 0 addr m hzaddr
    (by omega) (by rw [hzpages, hpage]; omega)
  set zone2 : AllocatorZone := { zone with
    bitmap := Function.update (consecutiveBitmaps zone 0 maxOrder addr) maxOrder 0 } with hzone2
  have hhead : zone2.head maxOrder ≠ 0 := by
    have : zone2.head maxOrder = zone.addr + 24 * maxOrder := rfl
    omega
  have hblocks : zone2.startAddr + (0 + zone2.pagesCount / 2 ^ maxOrder) * blockSize maxOrder <
      2 ^ 64 := by
    have h1 : zone2.startAddr = zone.startAddr := rfl
    have h2 : zone2.pagesCount = zone.pagesCount := rfl
    rw [h1, h2, hcount, Nat.mul_div_cancel _ (by decide), zero_add, ← hend]
    omega
  have hstart2 : zone2.startAddr ≠ 0 := by
    have h1 : zone2.startAddr = zone.startAddr := rfl
    omega
  obtain ⟨m3, hfill3⟩ := fillBlocks_ok zone2 (single m1 (zone2.head maxOrder)) hzaddr
    hstart2 hblocks
  have halign : maskDown addr pageSize = addr :=
    (maskDown_two_pow_eq_self_iff (k := 12) (by omega)).mpr haddr
  have hadd := zoneAdd_of_ok halign hmin hslot hzone.symm hfill hzone2.symm (listInit_eq _ hhead) hfill3
  refine ⟨zone2, m3, hadd, rfl, rfl, rfl, rfl, fun j hj => ?_⟩
  · have hbitmap : zone2.bitmap j = consecutiveBitmaps zone 0 maxOrder addr j :=
      Function.update_of_ne (ne_of_lt hj) _ _
    have horder : orderBitmapSize zone2 = orderBitmapSize zone := rfl
    rw [hbitmap, horder]
    simp [consecutiveBitmaps, hj]

/-- The loop over the orders touches the bitmap pointers only, each of them once. -/
theorem fillBitmaps_eq_ok {count i ptr : ℕ} {zone zone' : AllocatorZone} {m m' : Mem}
    (hfill : fillBitmaps count i ptr zone m = .ok (zone', m')) :
    zone' = { zone with bitmap := zone'.bitmap } ∧
      (∀ j < i, zone'.bitmap j = zone.bitmap j) ∧ (0 < count → zone'.bitmap i = ptr) := by
  induction count generalizing i ptr zone m with
  | zero =>
      obtain ⟨rfl, -⟩ := Prod.mk.inj (Except.ok.inj hfill)
      exact ⟨rfl, fun _ _ => rfl, fun h => absurd h (lt_irrefl 0)⟩
  | succ count ih =>
      rw [fillBitmaps] at hfill
      obtain ⟨_, -, hfill⟩ := bind_eq_ok.mp hfill
      obtain ⟨m1, -, hfill⟩ := bind_eq_ok.mp hfill
      obtain ⟨hzone, hbelow, -⟩ := ih hfill
      refine ⟨hzone, fun j hj => ?_, fun _ => ?_⟩
      · rw [hbelow j (by omega)]
        exact Function.update_of_ne (ne_of_lt hj) _ _
      · rw [hbelow i (by omega)]
        exact Function.update_self _ _ _

/-- What is known of the new zone when `zone_add` has returned. -/
theorem zoneAdd_eq_ok {fa fa' : FrameAllocator} {addr pagesCount added : ℕ} {m m' : Mem}
    (hadd : zoneAdd fa addr pagesCount m = .ok (added, fa', m')) :
    2 ^ maxOrder < pagesCount ∧ ∃ zone, fa' = { fa with zones := fa.zones ++ [zone] } ∧
      zone.bitmap 0 = addr ∧ zone.bitmapPages = bitmapSize pagesCount ∧
      zone.startAddr = (zoneBounds 0 addr pagesCount).startAddr ∧
      zone.endAddr = (zoneBounds 0 addr pagesCount).endAddr := by
  rw [zoneAdd] at hadd
  obtain ⟨_, -, hadd⟩ := bind_eq_ok.mp hadd
  obtain ⟨_, hmin, hadd⟩ := bind_eq_ok.mp hadd
  obtain ⟨_, -, hadd⟩ := bind_eq_ok.mp hadd
  obtain ⟨⟨zone, m1⟩, hfill, hadd⟩ := bind_eq_ok.mp hadd
  obtain ⟨m2, -, hadd⟩ := bind_eq_ok.mp hadd
  obtain ⟨m3, -, hadd⟩ := bind_eq_ok.mp hadd
  obtain ⟨hzone, -, hzero⟩ := fillBitmaps_eq_ok hfill
  obtain ⟨-, hfa, -⟩ : _ ∧ _ ∧ _ := by simpa [pure, Except.pure] using hadd
  refine ⟨kassert_eq_ok_iff.mp hmin, _, hfa.symm, ?_, ?_, ?_, ?_⟩
  · exact (Function.update_of_ne (show 0 ≠ maxOrder by decide) 0 zone.bitmap).trans
      (hzero (by decide))
  · change zone.bitmapPages = _
    rw [hzone]
    rfl
  · change zone.startAddr = _
    rw [hzone]
    rfl
  · change zone.endAddr = _
    rw [hzone]
    rfl

/-! ## The bitmaps overlap -/

/-- What the allocator needs of the bitmaps of a zone built on the region at `addr`,
with `len k` bytes for the bitmap of order `k`. -/
structure BitmapLayout (zone : AllocatorZone) (addr : ℕ) (len : ℕ → ℕ) (m : Mem) : Prop where
  /-- Each bitmap has a byte for every pair index computed from a block of its order. -/
  long_enough : ∀ k < maxOrder, ∀ block, zone.startAddr ≤ block → block < zone.endAddr →
    blockSize k ∣ block → zone.buddyIndex block k / 8 < len k
  disjoint : ∀ j < maxOrder, ∀ k < maxOrder, j ≠ k → ∀ a,
    zone.bitmap j ≤ a → a < zone.bitmap j + len j →
      ¬(zone.bitmap k ≤ a ∧ a < zone.bitmap k + len k)
  /-- They lie in the pages reserved at the beginning of the region. -/
  reserved : ∀ k < maxOrder, addr ≤ zone.bitmap k ∧
    zone.bitmap k + len k ≤ addr + pageSize * zone.bitmapPages ∧
    addr + pageSize * zone.bitmapPages ≤ zone.startAddr
  clear : ∀ k < maxOrder, ∀ b < len k, m (zone.bitmap k + b) = 0

/-- The pair index of the page numbered `page`. -/
theorem buddyIndex_page (zone : AllocatorZone) {page : ℕ}
    (hwrap : zone.startAddr + page * pageSize < 2 ^ 64) :
    zone.buddyIndex (zone.startAddr + page * pageSize) 0 = page / 2 := by
  unfold AllocatorZone.buddyIndex
  rw [subU64_of_le (by omega) hwrap, Nat.add_sub_cancel_left, blockSize, pow_zero, Nat.mul_one,
    Nat.mul_div_cancel _ (by decide)]

/-- One bit for sixteen blocks of the top order is too little for its thousand pages:
the pair index of some page falls into the bitmap of order one. -/
theorem not_bitmapLayout (blocks : ℕ) {zone : AllocatorZone} {addr : ℕ} {m : Mem}
    (hstart : blockSize maxOrder ∣ zone.startAddr) (hpos : 0 < blocks)
    (hend : zone.endAddr = zone.startAddr + blocks * blockSize maxOrder)
    (hcount : zone.pagesCount = blocks * 2 ^ maxOrder) (hwrap : zone.endAddr ≤ 2 ^ 64)
    (hbitmap : ∀ j < maxOrder, zone.bitmap j = addr + j * orderBitmapSize zone) :
    ¬ ∃ len, BitmapLayout zone addr len m := by
  rintro ⟨len, hlayout⟩
  have hblock : blockSize maxOrder = 1024 * pageSize := rfl
  have hten : maxOrder = 10 := rfl
  have hpage : pageSize = 4096 := rfl
  set size := orderBitmapSize zone with hsize
  have hsmall : 16 * size < blocks * 1024 := by
    rw [hsize, orderBitmapSize, divRoundUp, hcount, Nat.mul_div_cancel _ (by decide)]
    omega
  rw [hblock, ← Nat.mul_assoc] at hend
  have hinside : zone.startAddr + 16 * size * pageSize < zone.endAddr := by
    rw [hend]
    have := Nat.mul_lt_mul_of_pos_right hsmall (show 0 < pageSize by decide)
    omega
  have hzero : size < len 0 := by
    have hlong := hlayout.long_enough 0 (by decide) (zone.startAddr + 16 * size * pageSize)
      (by omega) hinside (by
        refine Nat.dvd_add (dvd_trans ?_ hstart) (Dvd.intro_left _ rfl)
        decide)
    rw [buddyIndex_page zone (by omega)] at hlong
    omega
  have hone : 0 < len 1 := by
    have hlong := hlayout.long_enough 1 (by decide) zone.startAddr (by omega) (by omega)
      (dvd_trans (by decide) hstart)
    omega
  have h0 := hbitmap 0 (by decide)
  have h1 := hbitmap 1 (by decide)
  exact hlayout.disjoint 0 (by decide) 1 (by decide) (by decide) (addr + size) (by omega) (by omega)
    (by omega)

/-- Whatever the region, `zone_add` returns with bitmaps that overlap. -/
theorem zoneAdd_not_bitmapLayout (fa : FrameAllocator) {addr pagesCount : ℕ} (m : Mem)
    (hzones : fa.zonesAddr ≠ 0) (hslot : fa.zones.length < maxZoneCount)
    (haddr : pageSize ∣ addr) (hmin : 2 ^ maxOrder < pagesCount)
    (hwrap : addr + pagesCount * pageSize + blockSize maxOrder ≤ 2 ^ 64) :
    ∃ zone m', zoneAdd fa addr pagesCount m =
        .ok (zone.pagesCount, { fa with zones := fa.zones ++ [zone] }, m') ∧
      ¬ ∃ len, BitmapLayout zone addr len m' := by
  obtain ⟨zone, m', hadd, hstart, hend, hcount, -, hbitmap⟩ :=
    zoneAdd_ok fa addr pagesCount m hzones hslot haddr hmin hwrap
  obtain ⟨hdvd, -, -, hend', hcount', hpos, hlast⟩ :=
    zoneBounds_spec 0 hmin hwrap
  refine ⟨zone, m', hadd, not_bitmapLayout _ (by rwa [hstart]) hpos ?_ (by rw [hcount, hcount']) ?_
    hbitmap⟩
  · rw [hend, hstart, hend']
  · omega

/-- A region of two thousand pages. -/
theorem zoneAdd_not_bitmapLayout_2000 :
    ∃ zone m', zoneAdd ⟨0xffffffff80200000, []⟩ 0xffff888000400000 2000 (fun _ => 0) =
        .ok (zone.pagesCount, ⟨0xffffffff80200000, [zone]⟩, m') ∧
      ¬ ∃ len, BitmapLayout zone 0xffff888000400000 len m' :=
  zoneAdd_not_bitmapLayout ⟨0xffffffff80200000, []⟩ (fun _ => 0) (by decide) (by decide) (by decide)
    (by decide) (by decide)

/-- Zero memory does not help: eight megabytes at the beginning of the direct mapping
give one block, ten bitmaps at one address and no byte for any of them. -/
theorem zoneAdd_bitmaps_coincide :
    ∃ zone m', zoneAdd ⟨0xffffffff80200000, []⟩ 0xffff888000000000 2048 (fun _ => 0) =
        .ok (zone.pagesCount, ⟨0xffffffff80200000, [zone]⟩, m') ∧
      (∀ k < maxOrder, zone.bitmap k = 0xffff888000000000) ∧
      ¬ ∃ len, BitmapLayout zone 0xffff888000000000 len m' := by
  obtain ⟨zone, m', hadd, hstart, hend, hcount, -, hbitmap⟩ :=
    zoneAdd_ok ⟨0xffffffff80200000, []⟩ 0xffff888000000000 2048
      (fun _ => 0) (by decide) (by decide) (by decide) (by decide) (by decide)
  have hstart' : zone.startAddr = 0xffff888000400000 := by rw [hstart]; decide
  have hend' : zone.endAddr = 0xffff888000800000 := by rw [hend]; decide
  have hcount' : zone.pagesCount = 1024 := by rw [hcount]; decide
  have hsize : orderBitmapSize zone = 0 := by rw [orderBitmapSize, hcount']; decide
  refine ⟨zone, m', hadd, fun k hk => ?_, not_bitmapLayout 1 ?_ (by decide) ?_ ?_ ?_
    hbitmap⟩
  · rw [hbitmap k hk, hsize, Nat.mul_zero, Nat.add_zero]
  · rw [hstart']; decide
  · rw [hend', hstart']; decide
  · rw [hcount']; decide
  · rw [hend']; decide

end HeavenOS

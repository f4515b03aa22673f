/-
# When initialisation passes its own checks

`frame_alloc_init` drops regions of fewer than `2 ^ MAX_ORDER` pages and `zone_add`
asserts more than `2 ^ MAX_ORDER`, so the two disagree about one size. Every other
check and every subtraction is decided by that size and by how near the region comes
to the top of the address space.
-/

import HeavenOS.Mm.FrameAllocInit

namespace HeavenOS

open Lib Lib.Ring

/-! ## Which regions are added -/

namespace MemmapEntry

/-- The values an entry of the memory map can hold. -/
def InRange (e : MemmapEntry) : Prop := e.baseAddr < 2 ^ 64 ∧ e.length < 2 ^ 64

instance (e : MemmapEntry) : Decidable e.InRange := inferInstanceAs (Decidable (_ ∧ _))

/-- `base_addr` and `region_size` of the entry before the reserved part is cut off. -/
def firstPage (e : MemmapEntry) : ℕ := roundUp (physToVirt e.baseAddr) pageSize

def pages (e : MemmapEntry) : ℕ := e.length / pageSize

/-- The entry reaches past the top of the address space from below the reserved end, and
the comparison of the ends skips it. -/
def WrapsAround (reservedEnd : ℕ) (e : MemmapEntry) : Prop :=
  e.firstPage < reservedEnd ∧ 2 ^ 64 ≤ e.firstPage + e.pages * pageSize

instance (reservedEnd : ℕ) (e : MemmapEntry) : Decidable (e.WrapsAround reservedEnd) :=
  inferInstanceAs (Decidable (_ ∧ _))

/-- Whole pages of the entry from the reserved end on. -/
def pagesAbove (reservedEnd : ℕ) (e : MemmapEntry) : ℕ :=
  (e.firstPage + e.pages * pageSize - max e.firstPage reservedEnd) / pageSize

end MemmapEntry

/-- The loop body hands over the pages above the reserved end if there are enough. -/
theorem entryRegion_eq {reservedEnd : ℕ} {e : MemmapEntry} (hres : pageSize ∣ reservedEnd)
    (hlt : reservedEnd < 2 ^ 64) (hrange : e.InRange) :
    entryRegion reservedEnd e =
      if e.Usable ∧ ¬e.WrapsAround reservedEnd ∧ 2 ^ maxOrder ≤ e.pagesAbove reservedEnd then
        some (max e.firstPage reservedEnd, e.pagesAbove reservedEnd)
      else none := by
  have hpage : pageSize = 4096 := rfl
  have htwo : 2 ^ maxOrder = 1024 := rfl
  have hdvd : 4096 ∣ e.firstPage := dvd_roundUp _ _
  have hfirst : e.firstPage < 2 ^ 64 := by
    have hdown := roundDown_le ((physToVirt e.baseAddr + pageSize - 1) % 2 ^ 64) pageSize
    unfold MemmapEntry.firstPage roundUp
    omega
  have hpages : e.pages * 4096 < 2 ^ 64 := by
    have := hrange.2
    unfold MemmapEntry.pages
    rw [hpage]
    omega
  have hfold : roundUp (physToVirt e.baseAddr) pageSize = e.firstPage := rfl
  have hfold' : e.length / pageSize = e.pages := rfl
  rw [hpage] at hres
  unfold entryRegion MemmapEntry.WrapsAround MemmapEntry.pagesAbove
  simp only [hfold, hfold']
  simp only [hpage, htwo]
  generalize e.firstPage = first at *
  generalize e.pages = pages at *
  by_cases husable : e.Usable
  · simp only [husable, not_true_eq_false, if_false, true_and]
    by_cases hcut : first < reservedEnd
    · simp only [hcut, if_true, true_and, max_eq_right (le_of_lt hcut)]
      by_cases hwraps : 2 ^ 64 ≤ first + pages * 4096
      · rw [if_pos (by omega), if_neg (by omega)]
      · rw [Nat.mod_eq_of_lt (by omega)]
        by_cases hskip : reservedEnd ≥ first + pages * 4096
        · rw [if_pos hskip, if_neg (by omega)]
        · have hsub : subU64 pages (subU64 reservedEnd first / 4096) =
              (first + pages * 4096 - reservedEnd) / 4096 := by
            rw [subU64_of_le (le_of_lt hcut) hlt, subU64_of_le (by omega) (by omega)]
            omega
          rw [if_neg hskip, hsub]
          by_cases hsmall : (first + pages * 4096 - reservedEnd) / 4096 < 1024
          · rw [if_pos hsmall, if_neg (by omega)]
          · rw [if_neg hsmall, if_pos ⟨hwraps, by omega⟩]
    · have hall : (first + pages * 4096 - first) / 4096 = pages := by omega
      simp only [hcut, if_false, false_and, not_false_eq_true, true_and,
        max_eq_left (not_lt.mp hcut), hall]
      by_cases hsmall : pages < 1024
      · rw [if_pos hsmall, if_neg (by omega)]
      · rw [if_neg hsmall, if_pos (by omega)]
  · simp only [husable, not_false_eq_true, if_true, false_and, if_false]

/-! ## When `zone_add` returns -/

/-- The assertion on `bitmap_ptr` after the bitmap of order `i`, the first being at `ptr`. -/
def BitmapPtrPasses (zone : AllocatorZone) (ptr i : ℕ) : Prop :=
  (ptr + (i + 1) * orderBitmapSize zone) % 2 ^ 64 <
    ((ptr + (i + 1) * orderBitmapSize zone) % 2 ^ 64 + zone.bitmapPages * pageSize) % 2 ^ 64

theorem bitmapPtrPasses_succ (zone : AllocatorZone) (ptr i : ℕ) :
    BitmapPtrPasses zone ((ptr + orderBitmapSize zone) % 2 ^ 64) i ↔
      BitmapPtrPasses zone ptr (i + 1) := by
  have hsum : ((ptr + orderBitmapSize zone) % 2 ^ 64 + (i + 1) * orderBitmapSize zone) % 2 ^ 64 =
      (ptr + (i + 1 + 1) * orderBitmapSize zone) % 2 ^ 64 := by
    rw [Nat.mod_add_mod]
    congr 1
    ring
  unfold BitmapPtrPasses
  rw [hsum]

/-- The loop over the orders returns if and only if its assertion passes every time. -/
theorem fillBitmaps_ok_iff {zone : AllocatorZone} {count i ptr : ℕ} {m : Mem}
    (haddr : zone.addr ≠ 0) :
    (∃ result, fillBitmaps count i ptr zone m = .ok result) ↔
      ∀ j < count, BitmapPtrPasses zone ptr j := by
  induction count generalizing i ptr zone m with
  | zero => simp [fillBitmaps, pure, Except.pure]
  | succ count ih =>
      have hhead : zone.head i ≠ 0 := by
        unfold AllocatorZone.head
        omega
      have hinit : listInit m (AllocatorZone.head
          { zone with bitmap := Function.update zone.bitmap i ptr } i) =
            .ok (single m (zone.head i)) := listInit_eq m hhead
      rw [Nat.forall_lt_succ_left]
      by_cases hpass : BitmapPtrPasses zone ptr 0
      · have hassert : (ptr + orderBitmapSize zone) % 2 ^ 64 <
            ((ptr + orderBitmapSize zone) % 2 ^ 64 + zone.bitmapPages * pageSize) % 2 ^ 64 := by
          simpa [BitmapPtrPasses] using hpass
        rw [fillBitmaps]
        simp only [kassert_of_true hassert, ok_bind, hinit, hpass, true_and]
        rw [ih (by exact haddr)]
        exact forall₂_congr fun j _ => bitmapPtrPasses_succ zone ptr j
      · have hassert : ¬(ptr + orderBitmapSize zone) % 2 ^ 64 <
            ((ptr + orderBitmapSize zone) % 2 ^ 64 + zone.bitmapPages * pageSize) % 2 ^ 64 := by
          simpa [BitmapPtrPasses] using hpass
        simp only [hpass, false_and, iff_false]
        rintro ⟨result, hfill⟩
        rw [fillBitmaps] at hfill
        obtain ⟨_, hkassert, -⟩ := bind_eq_ok.mp hfill
        exact hassert (kassert_eq_ok_iff.mp hkassert)

/-- With at least one block to put on the list, `zone_add` returns if and only if its
assertions pass and no block is at `NULL`. -/
theorem zoneAdd_ok_iff {fa : FrameAllocator} {addr pagesCount : ℕ} {m : Mem}
    (hzones : fa.zonesAddr ≠ 0)
    (hblocks : 0 < (zoneBounds 0 addr pagesCount).pagesCount / 2 ^ maxOrder)
    (hwrap : (zoneBounds 0 addr pagesCount).startAddr +
      (zoneBounds 0 addr pagesCount).pagesCount / 2 ^ maxOrder * blockSize maxOrder < 2 ^ 64) :
    (∃ result, zoneAdd fa addr pagesCount m = .ok result) ↔
      maskDown addr pageSize = addr ∧ 2 ^ maxOrder < pagesCount ∧ fa.zones.length < maxZoneCount ∧
        (∀ j < maxOrder, BitmapPtrPasses (zoneBounds 0 addr pagesCount) addr j) ∧
        (zoneBounds 0 addr pagesCount).startAddr ≠ 0 := by
  set zone := zoneBounds (fa.zonesAddr + 288 * fa.zones.length) addr pagesCount with hzone
  have haddr : zone.addr ≠ 0 := by
    have : zone.addr = fa.zonesAddr + 288 * fa.zones.length := rfl
    omega
  have hpasses : (∃ result, fillBitmaps maxOrder 0 addr zone m = .ok result) ↔
      ∀ j < maxOrder, BitmapPtrPasses (zoneBounds 0 addr pagesCount) addr j :=
    fillBitmaps_ok_iff haddr
  constructor
  · rintro ⟨result, hadd⟩
    rw [zoneAdd] at hadd
    obtain ⟨_, halign, hadd⟩ := bind_eq_ok.mp hadd
    obtain ⟨_, hmin, hadd⟩ := bind_eq_ok.mp hadd
    obtain ⟨_, hslot, hadd⟩ := bind_eq_ok.mp hadd
    obtain ⟨⟨zone1, m1⟩, hfill, hadd⟩ := bind_eq_ok.mp hadd
    obtain ⟨m2, -, hadd⟩ := bind_eq_ok.mp hadd
    obtain ⟨m3, hput, -⟩ := bind_eq_ok.mp hadd
    refine ⟨kassert_eq_ok_iff.mp halign, kassert_eq_ok_iff.mp hmin, kassert_eq_ok_iff.mp hslot,
      hpasses.mp ⟨_, hfill⟩, fun hnull => ?_⟩
    -- The first block would be the list node at `NULL`.
    obtain ⟨hzone1, -, -⟩ := fillBitmaps_eq_ok hfill
    have hstart : zone1.startAddr = 0 := by
      rw [hzone1]
      exact hnull
    have hcount : zone1.pagesCount = (zoneBounds 0 addr pagesCount).pagesCount := by
      rw [hzone1]
      rfl
    obtain ⟨count, hcount'⟩ : ∃ count, zone1.pagesCount / 2 ^ maxOrder = count + 1 :=
      ⟨zone1.pagesCount / 2 ^ maxOrder - 1, by rw [hcount]; omega⟩
    simp only [hcount', fillBlocks, hstart] at hput
    obtain ⟨m4, hinit, -⟩ := bind_eq_ok.mp hput
    simp [listInit, kassert, bind, Except.bind] at hinit
  · rintro ⟨halign, hmin, hslot, hptr, hstart⟩
    obtain ⟨⟨zone1, m1⟩, hfill⟩ := hpasses.mpr hptr
    obtain ⟨hzone1, -, -⟩ := fillBitmaps_eq_ok hfill
    have haddr1 : zone1.addr ≠ 0 := by
      rw [hzone1]
      exact haddr
    have hwrap1 : zone1.startAddr + (0 + zone1.pagesCount / 2 ^ maxOrder) * blockSize maxOrder <
        2 ^ 64 := by
      rw [hzone1, Nat.zero_add]
      exact hwrap
    have hhead : AllocatorZone.head
        { zone1 with bitmap := Function.update zone1.bitmap maxOrder 0 } maxOrder ≠ 0 := by
      unfold AllocatorZone.head
      exact Nat.ne_of_gt (Nat.add_pos_left (Nat.pos_of_ne_zero haddr1) _)
    obtain ⟨m3, hput⟩ := fillBlocks_ok
      { zone1 with bitmap := Function.update zone1.bitmap maxOrder 0 }
      (single m1 (AllocatorZone.head
        { zone1 with bitmap := Function.update zone1.bitmap maxOrder 0 } maxOrder))
      haddr1 (by rw [hzone1]; exact hstart) hwrap1
    exact ⟨_, zoneAdd_of_ok halign hmin hslot hzone.symm hfill rfl (listInit_eq _ hhead) hput⟩

/-- The zone ends above its beginning if and only if counting the pages from there does
not wrap, and then it has all whole blocks of them. -/
theorem zoneBounds_start_le_end (addr : ℕ) {pagesCount : ℕ} (hmin : 2 ^ maxOrder < pagesCount)
    (hmax : pagesCount * pageSize < 2 ^ 64) :
    let zone := zoneBounds 0 addr pagesCount
    let rest := pagesCount - bitmapSize pagesCount
    (zone.startAddr ≤ zone.endAddr ↔ zone.startAddr + rest * pageSize < 2 ^ 64) ∧
      (zone.startAddr ≤ zone.endAddr → zone.pagesCount = rest / 2 ^ maxOrder * 2 ^ maxOrder) := by
  have hpage : pageSize = 4096 := rfl
  have hblock : blockSize maxOrder = 4194304 := rfl
  have htwo : 2 ^ maxOrder = 1024 := rfl
  rw [hpage] at hmax
  obtain ⟨hpos, hroom⟩ := bitmapSize_bounds hmin (by omega)
  have hleft : subU64 pagesCount (bitmapSize pagesCount) = pagesCount - bitmapSize pagesCount :=
    subU64_of_le (by omega) (by omega)
  have hdvd := dvd_roundUp ((addr + pageSize * bitmapSize pagesCount) % 2 ^ 64) (blockSize maxOrder)
  have hlt : roundUp ((addr + pageSize * bitmapSize pagesCount) % 2 ^ 64) (blockSize maxOrder) <
      2 ^ 64 := lt_of_le_of_lt (roundDown_le _ _) (Nat.mod_lt _ (by decide))
  simp only [zoneBounds, hleft]
  generalize roundUp ((addr + pageSize * bitmapSize pagesCount) % 2 ^ 64) (blockSize maxOrder) =
    start at *
  generalize hrest : pagesCount - bitmapSize pagesCount = rest at *
  rw [htwo] at hroom
  rw [hblock] at hdvd
  simp only [hpage, hblock, htwo]
  obtain ⟨c, rfl⟩ := hdvd
  by_cases hwraps : 4194304 * c + rest * 4096 < 2 ^ 64
  · have hend : roundDown ((4194304 * c + rest * 4096) % 2 ^ 64) 4194304 =
        4194304 * c + rest / 1024 * 4194304 := by
      rw [Nat.mod_eq_of_lt hwraps]
      unfold roundDown
      omega
    have hsub : subU64 (4194304 * c + rest / 1024 * 4194304) (4194304 * c) = rest / 1024 * 4194304 := by
      unfold subU64
      omega
    rw [hend, hsub]
    omega
  · have hend := roundDown_le ((4194304 * c + rest * 4096) % 2 ^ 64) 4194304
    omega

/-- The first block boundary at or behind an address. -/
def nextBlock (a : ℕ) : ℕ := (a + blockSize maxOrder - 1) / blockSize maxOrder * blockSize maxOrder

/-- The zone of a region stays below `2 ^ 64`, or the region starts so near to it that
its first bitmap already crosses it and the zone lies behind. -/
def Room (addr pagesCount : ℕ) : Prop :=
  let first := addr + pageSize * bitmapSize pagesCount
  let rest := pagesCount - bitmapSize pagesCount
  nextBlock first + rest * pageSize < 2 ^ 64 ∨
    2 ^ 64 < first ∧ nextBlock (first - 2 ^ 64) + rest * pageSize < 2 ^ 64 ∧
      2 ^ 64 ≤ addr + divRoundUp (rest / 2 ^ maxOrder / 2) 8

instance (addr pagesCount : ℕ) : Decidable (Room addr pagesCount) :=
  inferInstanceAs (Decidable (_ ∨ _))

/-- What the sums of `zone_add` need on a region it accepts. -/
theorem room_iff {addr pagesCount : ℕ} (haddr : addr < 2 ^ 64) (hmin : 2 ^ maxOrder < pagesCount)
    (hmax : pagesCount * pageSize < 2 ^ 64) :
    ((zoneBounds 0 addr pagesCount).startAddr ≤ (zoneBounds 0 addr pagesCount).endAddr ∧
      (∀ j < maxOrder, BitmapPtrPasses (zoneBounds 0 addr pagesCount) addr j) ∧
      (zoneBounds 0 addr pagesCount).startAddr ≠ 0) ↔ Room addr pagesCount := by
  obtain ⟨hends, hcount⟩ := zoneBounds_start_le_end addr hmin hmax
  have hpage : pageSize = 4096 := rfl
  have hblock : blockSize maxOrder = 4194304 := rfl
  have htwo : 2 ^ maxOrder = 1024 := rfl
  have hten : maxOrder = 10 := rfl
  rw [hpage] at hmax
  obtain ⟨hpos, hroom⟩ := bitmapSize_bounds hmin (by omega)
  have hstart : (zoneBounds 0 addr pagesCount).startAddr =
      roundUp ((addr + 4096 * bitmapSize pagesCount) % 2 ^ 64) 4194304 := rfl
  have hpages : (zoneBounds 0 addr pagesCount).bitmapPages = bitmapSize pagesCount := rfl
  have hsize (hle : (zoneBounds 0 addr pagesCount).startAddr ≤
      (zoneBounds 0 addr pagesCount).endAddr) :
      orderBitmapSize (zoneBounds 0 addr pagesCount) =
        divRoundUp ((pagesCount - bitmapSize pagesCount) / 2 ^ maxOrder / 2) 8 := by
    rw [orderBitmapSize, hcount hle, Nat.mul_div_cancel _ (by decide)]
  have hsmall : 10 * divRoundUp ((pagesCount - bitmapSize pagesCount) / 1024 / 2) 8 ≤
      pagesCount - bitmapSize pagesCount := by
    unfold divRoundUp
    omega
  have hroom4 : bitmapSize pagesCount + 1024 ≤ pagesCount := hroom
  rw [hpage] at hends
  rw [hends]
  unfold Room nextBlock BitmapPtrPasses
  rw [hpages, hpage, hblock]
  dsimp only
  generalize hrest : pagesCount - bitmapSize pagesCount = rest at *
  constructor
  · rintro ⟨hlt, hptr, hne⟩
    have hfirst := hptr 0 (by decide)
    rw [hsize (hends.mpr hlt), Nat.zero_add, Nat.one_mul] at hfirst
    generalize divRoundUp (rest / 2 ^ maxOrder / 2) 8 = size at *
    rw [hstart] at hlt hne
    unfold roundUp roundDown at hlt hne
    omega
  · intro hroom
    have hbounds : (zoneBounds 0 addr pagesCount).startAddr + rest * 4096 < 2 ^ 64 ∧
        (zoneBounds 0 addr pagesCount).startAddr ≠ 0 := by
      rw [hstart]
      unfold roundUp roundDown
      generalize divRoundUp (rest / 2 ^ maxOrder / 2) 8 = size at *
      omega
    refine ⟨hbounds.1, fun j hj => ?_, hbounds.2⟩
    rw [hsize (hends.mpr hbounds.1)]
    have hsmall' : 10 * divRoundUp (rest / 2 ^ maxOrder / 2) 8 ≤ rest := hsmall
    generalize divRoundUp (rest / 2 ^ maxOrder / 2) 8 = size at *
    have hle : (j + 1) * size ≤ 10 * size := Nat.mul_le_mul_right size hj
    have hpos : 1 * size ≤ (j + 1) * size := Nat.mul_le_mul_right size (by omega)
    generalize (j + 1) * size = offset at *
    rcases hroom with hlow | ⟨hcross, -, hcross'⟩
    · have hsum : addr + offset + bitmapSize pagesCount * 4096 < 2 ^ 64 := by omega
      rw [Nat.mod_eq_of_lt (by omega), Nat.mod_eq_of_lt hsum]
      omega
    · have hmod : (addr + offset) % 2 ^ 64 = addr + offset - 2 ^ 64 := by omega
      rw [hmod, Nat.mod_eq_of_lt (by omega)]
      omega

/-- `zone_add` on an aligned region, with a descriptor left and a zone that does not end
below its beginning. -/
theorem zoneAdd_ok_iff_room {fa : FrameAllocator} {addr pagesCount : ℕ} {m : Mem}
    (hzones : fa.zonesAddr ≠ 0) (hslot : fa.zones.length < maxZoneCount) (hdvd : pageSize ∣ addr)
    (haddr : addr < 2 ^ 64) (hmax : pagesCount * pageSize < 2 ^ 64)
    (hends : (zoneBounds 0 addr pagesCount).startAddr ≤ (zoneBounds 0 addr pagesCount).endAddr) :
    (∃ result, zoneAdd fa addr pagesCount m = .ok result) ↔
      2 ^ maxOrder < pagesCount ∧ Room addr pagesCount := by
  have halign : maskDown addr pageSize = addr :=
    (maskDown_two_pow_eq_self_iff (k := 12) haddr).mpr hdvd
  by_cases hmin : 2 ^ maxOrder < pagesCount
  · obtain ⟨hlt, hcount⟩ := zoneBounds_start_le_end addr hmin hmax
    have hrest : 2 ^ maxOrder ≤ pagesCount - bitmapSize pagesCount := by
      have hpage : pageSize = 4096 := rfl
      rw [hpage] at hmax
      have := (bitmapSize_bounds hmin (by omega)).2
      omega
    have hblocks : (zoneBounds 0 addr pagesCount).pagesCount / 2 ^ maxOrder =
        (pagesCount - bitmapSize pagesCount) / 2 ^ maxOrder := by
      rw [hcount hends, Nat.mul_div_cancel _ (by decide)]
    have hwrap : (zoneBounds 0 addr pagesCount).startAddr +
        (zoneBounds 0 addr pagesCount).pagesCount / 2 ^ maxOrder * blockSize maxOrder < 2 ^ 64 := by
      have hblock : blockSize maxOrder = 2 ^ maxOrder * pageSize := rfl
      rw [hblocks, hblock, ← Nat.mul_assoc]
      refine lt_of_le_of_lt (Nat.add_le_add_left (Nat.mul_le_mul_right _ ?_) _) (hlt.mp hends)
      exact Nat.div_mul_le_self _ _
    have hpos : 0 < (zoneBounds 0 addr pagesCount).pagesCount / 2 ^ maxOrder := by
      rw [hblocks]
      exact Nat.div_pos hrest (by decide)
    rw [zoneAdd_ok_iff hzones hpos hwrap, ← room_iff haddr hmin hmax]
    exact ⟨fun h => ⟨hmin, hends, h.2.2.2⟩, fun h => ⟨halign, hmin, hslot, h.2.2⟩⟩
  · refine iff_of_false ?_ fun h => hmin h.1
    rintro ⟨⟨added, fa', m'⟩, hadd⟩
    exact hmin (zoneAdd_eq_ok hadd).1

/-! ## The loop over the memory map -/

section Memmap

variable {reservedEnd : ℕ} {memmap : List MemmapEntry} (hres : pageSize ∣ reservedEnd)
  (hlt : reservedEnd < 2 ^ 64)

include hres hlt in
/-- What the loop body hands over is aligned and of a size that an entry can have. -/
theorem entryRegion_range {e : MemmapEntry} {baseAddr regionSize : ℕ} (hrange : e.InRange)
    (hregion : entryRegion reservedEnd e = some (baseAddr, regionSize)) :
    pageSize ∣ baseAddr ∧ baseAddr < 2 ^ 64 ∧ regionSize * pageSize < 2 ^ 64 := by
  rw [entryRegion_eq hres hlt hrange] at hregion
  split_ifs at hregion
  obtain ⟨rfl, rfl⟩ := Prod.mk.inj (Option.some.inj hregion)
  have hdvd : pageSize ∣ e.firstPage := dvd_roundUp _ _
  have hfirst : e.firstPage < 2 ^ 64 :=
    lt_of_le_of_lt (roundDown_le _ _) (Nat.mod_lt _ (by decide))
  refine ⟨?_, max_lt hfirst hlt, ?_⟩
  · rw [max_def]
    split_ifs
    · exact hres
    · exact hdvd
  · have hpage : pageSize = 4096 := rfl
    have hlength := hrange.2
    unfold MemmapEntry.pagesAbove MemmapEntry.pages
    rw [hpage]
    omega

include hres hlt in
/-- The loop returns if and only if every region is accepted by `zone_add`. -/
theorem addEntries_ok_iff (fa : FrameAllocator) (m : Mem) (hzones : fa.zonesAddr ≠ 0)
    (hrange : ∀ e ∈ memmap, e.InRange)
    (hslots : fa.zones.length + (memmap.filterMap (entryRegion reservedEnd)).length ≤ maxZoneCount)
    (hends : ∀ region ∈ memmap.filterMap (entryRegion reservedEnd),
      (zoneBounds 0 region.1 region.2).startAddr ≤ (zoneBounds 0 region.1 region.2).endAddr) :
    (∃ result, addEntries reservedEnd memmap fa m = .ok result) ↔
      ∀ region ∈ memmap.filterMap (entryRegion reservedEnd),
        2 ^ maxOrder < region.2 ∧ Room region.1 region.2 := by
  induction memmap generalizing fa m with
  | nil => simp [addEntries, pure, Except.pure]
  | cons e rest ih =>
      have hrest := fun e he => hrange e (List.mem_cons_of_mem _ he)
      rw [addEntries]
      cases hregion : entryRegion reservedEnd e with
      | none =>
          rw [List.filterMap_cons_none hregion] at hslots hends ⊢
          exact ih fa m hzones hrest hslots hends
      | some region =>
          obtain ⟨baseAddr, regionSize⟩ := region
          rw [List.filterMap_cons_some hregion] at hslots hends ⊢
          rw [List.length_cons] at hslots
          rw [List.forall_mem_cons] at hends ⊢
          obtain ⟨hdvd, hbase, hsize⟩ :=
            entryRegion_range hres hlt (hrange e List.mem_cons_self) hregion
          have hcall : (∃ result, zoneAdd fa baseAddr regionSize m = .ok result) ↔ _ :=
            zoneAdd_ok_iff_room hzones (by omega) hdvd hbase hsize hends.1
          rw [← hcall]
          constructor
          · rintro ⟨result, hadd⟩
            obtain ⟨⟨added, fa', m'⟩, hzone, hadd⟩ := bind_eq_ok.mp hadd
            obtain ⟨last, hlast, -⟩ := bind_eq_ok.mp hadd
            obtain ⟨-, zone, rfl, -⟩ := zoneAdd_eq_ok hzone
            refine ⟨⟨_, hzone⟩, (ih ⟨fa.zonesAddr, fa.zones ++ [zone]⟩ m' hzones hrest ?_
              hends.2).mp ⟨last, hlast⟩⟩
            rw [List.length_append, List.length_singleton]
            omega
          · rintro ⟨⟨⟨added, fa', m'⟩, hzone⟩, hall⟩
            obtain ⟨-, zone, rfl, -⟩ := zoneAdd_eq_ok hzone
            obtain ⟨⟨pgcnt, fa'', m''⟩, hlast⟩ :=
              (ih ⟨fa.zonesAddr, fa.zones ++ [zone]⟩ m' hzones hrest
                (by rw [List.length_append, List.length_singleton]; omega) hends.2).mpr hall
            exact ⟨_, by simp only [hzone, ok_bind, hlast]; rfl⟩

end Memmap

/-- Initialisation returns, and none of its three subtractions goes below zero. -/
structure InitSafe (zonesAddr kernelEnd bootInfo totalSize : ℕ) (memmap : List MemmapEntry)
    (m : Mem) : Prop where
  returns : ∃ result,
    frameAllocInit zonesAddr kernelEnd bootInfo totalSize memmap m = .ok result
  /-- `region_size -= (reserved_end - base_addr) / PAGE_SIZE` -/
  cut : ∀ e ∈ memmap, e.Usable →
    let reserved := reservedEnd kernelEnd (mbMemoryRegionEnd bootInfo totalSize)
    e.firstPage < reserved → reserved < (e.firstPage + e.pages * pageSize) % 2 ^ 64 →
      (reserved - e.firstPage) / pageSize ≤ e.pages
  /-- `pages_count -= bitmap_size` -/
  bitmap : ∀ e ∈ memmap, ∀ baseAddr regionSize,
    entryRegion (reservedEnd kernelEnd (mbMemoryRegionEnd bootInfo totalSize)) e =
      some (baseAddr, regionSize) → bitmapSize regionSize ≤ regionSize
  /-- `end_addr - start_addr` -/
  ends : ∀ e ∈ memmap, ∀ baseAddr regionSize,
    entryRegion (reservedEnd kernelEnd (mbMemoryRegionEnd bootInfo totalSize)) e =
      some (baseAddr, regionSize) →
      (zoneBounds 0 baseAddr regionSize).startAddr ≤ (zoneBounds 0 baseAddr regionSize).endAddr

/-- The entry is skipped, or has more than `2 ^ MAX_ORDER` pages above the reserved end
and room for its zone below the top of the address space. -/
def MemmapEntry.Passes (reservedEnd : ℕ) (e : MemmapEntry) : Prop :=
  e.Usable → ¬e.WrapsAround reservedEnd → 2 ^ maxOrder ≤ e.pagesAbove reservedEnd →
    e.pagesAbove reservedEnd ≠ 2 ^ maxOrder ∧
      Room (max e.firstPage reservedEnd) (e.pagesAbove reservedEnd)

/-- Initialisation passes its checks exactly on the memory maps of which no entry keeps
`2 ^ MAX_ORDER` pages or comes too near to the top of the address space. -/
theorem frameAllocInit_safe_iff {zonesAddr kernelEnd bootInfo totalSize : ℕ}
    {memmap : List MemmapEntry} {m : Mem} (hzones : zonesAddr ≠ 0)
    (hrange : ∀ e ∈ memmap, e.InRange)
    (hslots : (memmap.filterMap (entryRegion
      (reservedEnd kernelEnd (mbMemoryRegionEnd bootInfo totalSize)))).length ≤ maxZoneCount) :
    InitSafe zonesAddr kernelEnd bootInfo totalSize memmap m ↔
      ∀ e ∈ memmap, e.Passes (reservedEnd kernelEnd (mbMemoryRegionEnd bootInfo totalSize)) := by
  have hres : pageSize ∣ reservedEnd kernelEnd (mbMemoryRegionEnd bootInfo totalSize) :=
    dvd_roundUp _ _
  have hlt : reservedEnd kernelEnd (mbMemoryRegionEnd bootInfo totalSize) < 2 ^ 64 :=
    lt_of_le_of_lt (roundDown_le _ _) (Nat.mod_lt _ (by decide))
  have hloop (hends : _) := addEntries_ok_iff hres hlt ⟨zonesAddr, []⟩ m hzones hrange
    (by simpa using hslots) hends
  constructor
  · intro hsafe e he husable hwraps hpages
    have hregion := entryRegion_eq hres hlt (hrange e he)
    rw [if_pos ⟨husable, hwraps, hpages⟩] at hregion
    have hends : ∀ region ∈ memmap.filterMap (entryRegion
        (reservedEnd kernelEnd (mbMemoryRegionEnd bootInfo totalSize))),
        (zoneBounds 0 region.1 region.2).startAddr ≤ (zoneBounds 0 region.1 region.2).endAddr := by
      intro region hmem
      obtain ⟨f, hf, hfregion⟩ := List.mem_filterMap.mp hmem
      exact hsafe.ends f hf _ _ hfregion
    obtain ⟨hmin, hroom⟩ := (hloop hends).mp hsafe.returns _
      (List.mem_filterMap.mpr ⟨e, he, hregion⟩)
    exact ⟨Nat.ne_of_gt hmin, hroom⟩
  · intro hpasses
    have haccepted : ∀ e ∈ memmap, ∀ baseAddr regionSize,
        entryRegion (reservedEnd kernelEnd (mbMemoryRegionEnd bootInfo totalSize)) e =
          some (baseAddr, regionSize) →
        2 ^ maxOrder < regionSize ∧ Room baseAddr regionSize := by
      intro e he baseAddr regionSize hregion
      rw [entryRegion_eq hres hlt (hrange e he)] at hregion
      split_ifs at hregion with hadd
      obtain ⟨rfl, rfl⟩ := Prod.mk.inj (Option.some.inj hregion)
      obtain ⟨hne, hroom⟩ := hpasses e he hadd.1 hadd.2.1 hadd.2.2
      exact ⟨lt_of_le_of_ne hadd.2.2 (Ne.symm hne), hroom⟩
    have hends : ∀ e ∈ memmap, ∀ baseAddr regionSize,
        entryRegion (reservedEnd kernelEnd (mbMemoryRegionEnd bootInfo totalSize)) e =
          some (baseAddr, regionSize) →
        (zoneBounds 0 baseAddr regionSize).startAddr ≤ (zoneBounds 0 baseAddr regionSize).endAddr := by
      intro e he baseAddr regionSize hregion
      obtain ⟨-, hbase, hsize⟩ := entryRegion_range hres hlt (hrange e he) hregion
      obtain ⟨hmin, hroom⟩ := haccepted e he _ _ hregion
      exact ((room_iff hbase hmin hsize).mpr hroom).1
    refine ⟨(hloop ?_).mpr ?_, ?_, ?_, hends⟩
    · intro region hmem
      obtain ⟨e, he, hregion⟩ := List.mem_filterMap.mp hmem
      exact hends e he _ _ hregion
    · intro region hmem
      obtain ⟨e, he, hregion⟩ := List.mem_filterMap.mp hmem
      exact haccepted e he _ _ hregion
    · intro e he husable reserved hcut hroom
      have hpage : pageSize = 4096 := rfl
      have hend : reserved < e.firstPage + e.pages * pageSize := lt_of_lt_of_le hroom (Nat.mod_le _ _)
      rw [hpage] at hend ⊢
      omega
    · intro e he baseAddr regionSize hregion
      obtain ⟨-, -, hsize⟩ := entryRegion_range hres hlt (hrange e he) hregion
      have hmin := (haccepted e he _ _ hregion).1
      have hpage : pageSize = 4096 := rfl
      rw [hpage] at hsize
      exact le_trans (Nat.le_add_right _ _) (bitmapSize_bounds hmin (by omega)).2

/-- One region of eight megabytes above the kernel. -/
theorem frameAllocInit_safe_eightMegabytes :
    InitSafe 0xffffffff80200000 0x600000 0xffff888000009500 0x400 [⟨0x1000000, 0x800000, 1⟩]
      (fun _ => 0) := by
  refine (frameAllocInit_safe_iff (by decide) (by decide) (by decide)).mpr ?_
  rw [List.forall_mem_singleton]
  intro _ _ _
  exact ⟨by decide, by decide⟩

/-- A region of exactly four megabytes passes the filter and fails the assertion. -/
theorem frameAllocInit_fails_fourMegabytes :
    [(⟨0x1000000, 0x400000, 1⟩ : MemmapEntry)].Pairwise MemmapEntry.Disjoint ∧
      frameAllocInit 0xffffffff80200000 0x600000 0xffff888000009500 0x400
        [⟨0x1000000, 0x400000, 1⟩] (fun _ => 0) =
        .error "assertion failed: 'pages_count > ((size_t)1 << 10)'" ∧
      ¬InitSafe 0xffffffff80200000 0x600000 0xffff888000009500 0x400 [⟨0x1000000, 0x400000, 1⟩]
        (fun _ => 0) := by
  have hpanic : frameAllocInit 0xffffffff80200000 0x600000 0xffff888000009500 0x400
      [⟨0x1000000, 0x400000, 1⟩] (fun _ => 0) =
        .error "assertion failed: 'pages_count > ((size_t)1 << 10)'" := by
    have hregion : entryRegion (reservedEnd 0x600000 (mbMemoryRegionEnd 0xffff888000009500 0x400))
        ⟨0x1000000, 0x400000, 1⟩ = some (0xffff888001000000, 1024) := by decide
    rw [frameAllocInit, addEntries, hregion]
    rfl
  refine ⟨List.pairwise_singleton _ _, hpanic, fun hsafe => ?_⟩
  obtain ⟨result, hok⟩ := hsafe.returns
  cases hpanic.symm.trans hok

end HeavenOS

/-
# Building the zones from the memory map

`frame_alloc_init` walks the Multiboot memory map and adds a zone for every large
enough piece of usable memory above the kernel and the boot information. The pages a
zone owns are compared here with the entry they were cut from: rounding the start of a
zone up moves its end as well, and nothing checks that the end stays in the entry.
-/

import HeavenOS.Mm.ZoneAdd
import HeavenOS.Mm.Paging

namespace HeavenOS

open Lib Lib.Ring

/-- `mb_memmap_entry_t` -/
structure MemmapEntry where
  baseAddr : ℕ
  length : ℕ
  type : ℕ
  deriving DecidableEq

namespace MemmapEntry

/-- `MB_MEMMAP_TYPE_RAM` or `MB_MEMMAP_TYPE_HIBER` -/
def Usable (e : MemmapEntry) : Prop := e.type = 1 ∨ e.type = 4

instance (e : MemmapEntry) : Decidable e.Usable := inferInstanceAs (Decidable (_ ∨ _))

end MemmapEntry

/-- `mb_memory_region().end`, from `mb_boot_info` and its `total_size`. -/
def mbMemoryRegionEnd (bootInfo totalSize : ℕ) : ℕ := (bootInfo + alignUp totalSize pageSize) % 2 ^ 64

/-- `reserved_end` when the loop starts; `kernelEnd` is the address of
`_phys_end_kernel_sections`. -/
def reservedEnd (kernelEnd bootInfoEnd : ℕ) : ℕ :=
  let reservedEnd := physToVirt kernelEnd
  let reservedEnd := if bootInfoEnd > reservedEnd then bootInfoEnd else reservedEnd
  roundUp reservedEnd pageSize

/-- The body of the loop up to the call of `zone_add`: its arguments, or nothing where
the source continues with the next entry. -/
def entryRegion (reservedEnd : ℕ) (e : MemmapEntry) : Option (ℕ × ℕ) :=
  if ¬ e.Usable then none
  else
    let baseAddr := roundUp (physToVirt e.baseAddr) pageSize
    let regionSize := e.length / pageSize
    if baseAddr < reservedEnd ∧ reservedEnd ≥ (baseAddr + regionSize * pageSize) % 2 ^ 64 then none
    else
      let (baseAddr, regionSize) :=
        if baseAddr < reservedEnd then
          (reservedEnd, subU64 regionSize (subU64 reservedEnd baseAddr / pageSize))
        else (baseAddr, regionSize)
      if regionSize < 2 ^ maxOrder then none else some (baseAddr, regionSize)

/-- The loop of `frame_alloc_init` over the entries still to come: the number of frames
added, and the zones. -/
def addEntries (reservedEnd : ℕ) :
    List MemmapEntry → FrameAllocator → Mem → Except Panic (ℕ × FrameAllocator × Mem)
  | [], fa, m => return (0, fa, m)
  | e :: rest, fa, m =>
      match entryRegion reservedEnd e with
      | none => addEntries reservedEnd rest fa m
      | some (baseAddr, regionSize) => do
          let (added, fa, m) ← zoneAdd fa baseAddr regionSize m
          let (pgcnt, fa, m) ← addEntries reservedEnd rest fa m
          return ((added + pgcnt) % 2 ^ 64, fa, m)

/-- `frame_alloc_init`, with the descriptor table at `zonesAddr`. -/
def frameAllocInit (zonesAddr kernelEnd bootInfo totalSize : ℕ) (memmap : List MemmapEntry)
    (m : Mem) : Except Panic (ℕ × FrameAllocator × Mem) :=
  addEntries (reservedEnd kernelEnd (mbMemoryRegionEnd bootInfo totalSize)) memmap ⟨zonesAddr, []⟩ m

/-! ## What a zone owns -/

/-- The byte is in the bitmap pages of the zone or in one of its blocks. -/
def AllocatorZone.Owns (zone : AllocatorZone) (a : ℕ) : Prop :=
  zone.bitmap 0 ≤ a ∧ a < zone.bitmap 0 + pageSize * zone.bitmapPages ∨
    zone.startAddr ≤ a ∧ a < zone.endAddr

namespace MemmapEntry

/-- The first byte behind the entry in the direct mapping. -/
def virtEnd (e : MemmapEntry) : ℕ := physToVirt e.baseAddr + e.length

/-- The page lies entirely inside the entry. -/
def HoldsPage (e : MemmapEntry) (p : ℕ) : Prop :=
  physToVirt e.baseAddr ≤ p ∧ p + pageSize ≤ e.virtEnd

instance (e : MemmapEntry) (p : ℕ) : Decidable (e.HoldsPage p) :=
  inferInstanceAs (Decidable (_ ∧ _))

/-- No byte of physical memory is in both. -/
def Disjoint (e f : MemmapEntry) : Prop :=
  ∀ a, ¬(e.baseAddr ≤ a ∧ a < e.baseAddr + e.length ∧ f.baseAddr ≤ a ∧ a < f.baseAddr + f.length)

/-- The sums made from the entry do not wrap, the two roundings included. -/
def NoWrap (e : MemmapEntry) : Prop :=
  directMapStart + e.baseAddr + e.length + pageSize + blockSize maxOrder ≤ 2 ^ 64

instance (e : MemmapEntry) : Decidable e.NoWrap := inferInstanceAs (Decidable (_ ≤ _))

end MemmapEntry

/-- The frame allocator owns only usable memory, and each byte once. -/
structure OwnsOnlyRam (memmap : List MemmapEntry) (reservedEnd : ℕ) (zones : List AllocatorZone) :
    Prop where
  usable : ∀ zone ∈ zones, ∀ p, pageSize ∣ p → zone.Owns p →
    ∃ e ∈ memmap, e.Usable ∧ e.HoldsPage p
  above : ∀ zone ∈ zones, ∀ a, zone.Owns a → reservedEnd ≤ a
  disjoint : zones.Pairwise fun zone zone' => ∀ a, ¬(zone.Owns a ∧ zone'.Owns a)

/-! ## When a zone stays in its entry -/

/-- Bytes between the bitmap pages of a region and the next block boundary. -/
def padding (baseAddr regionSize : ℕ) : ℕ :=
  roundUp (baseAddr + pageSize * bitmapSize regionSize) (blockSize maxOrder) -
    (baseAddr + pageSize * bitmapSize regionSize)

/-- Bytes of a region that do not make up a block of the top order. -/
def dropped (regionSize : ℕ) : ℕ := pageSize * ((regionSize - bitmapSize regionSize) % 2 ^ maxOrder)

/-- The entry has room for the padding of its zone, or what follows it makes up for it:
whole pages of usable entries that are themselves too small for a zone. -/
def Fits (memmap : List MemmapEntry) (reservedEnd : ℕ) (e : MemmapEntry) : Prop :=
  ∀ baseAddr regionSize, entryRegion reservedEnd e = some (baseAddr, regionSize) →
    baseAddr + regionSize * pageSize + padding baseAddr regionSize ≤ e.virtEnd + dropped regionSize ∨
      pageSize ∣ e.virtEnd ∧ ∀ p, pageSize ∣ p → e.virtEnd ≤ p →
        p + dropped regionSize < baseAddr + regionSize * pageSize + padding baseAddr regionSize →
          ∃ e' ∈ memmap, e'.Usable ∧ e'.HoldsPage p ∧ entryRegion reservedEnd e' = none

/-- What the loop body hands to `zone_add`: an aligned run of pages of the entry, above
the reserved memory, and ending at most a partial page behind the entry. -/
theorem entryRegion_spec {reservedEnd : ℕ} {e : MemmapEntry} {baseAddr regionSize : ℕ}
    (hres : pageSize ∣ reservedEnd) (hwrap : e.NoWrap)
    (hregion : entryRegion reservedEnd e = some (baseAddr, regionSize)) :
    e.Usable ∧ pageSize ∣ baseAddr ∧ reservedEnd ≤ baseAddr ∧ physToVirt e.baseAddr ≤ baseAddr ∧
      baseAddr + regionSize * pageSize < e.virtEnd + pageSize ∧
      ∀ p, pageSize ∣ p → physToVirt e.baseAddr ≤ p → reservedEnd ≤ p → baseAddr ≤ p := by
  have hpage : pageSize = 4096 := rfl
  have hblock : blockSize maxOrder = 4194304 := rfl
  unfold MemmapEntry.NoWrap at hwrap
  rw [hblock] at hwrap
  have hvirt : physToVirt e.baseAddr = directMapStart + e.baseAddr := physToVirt_of_lt (by omega)
  unfold MemmapEntry.virtEnd
  obtain ⟨hlo, hhi⟩ := roundUp_bounds (a := physToVirt e.baseAddr) (n := pageSize) (by decide)
    (by omega)
  have hdvd := dvd_roundUp (physToVirt e.baseAddr) pageSize
  unfold entryRegion at hregion
  generalize roundUp (physToVirt e.baseAddr) pageSize = base at *
  rw [hpage] at hres hdvd hhi hregion hwrap ⊢
  by_cases husable : e.Usable
  · rw [if_neg (by simpa using husable)] at hregion
    simp only at hregion
    rw [Nat.mod_eq_of_lt (by omega)] at hregion
    split_ifs at hregion with hskip hcut hsmall hsmall
    · simp only [Option.some.injEq, Prod.mk.injEq] at hregion
      obtain ⟨rfl, rfl⟩ := hregion
      have hlen : reservedEnd < base + e.length / 4096 * 4096 := by
        by_contra hle
        exact hskip ⟨hcut, by omega⟩
      rw [subU64_of_le (a := reservedEnd) (by omega) (by omega), subU64_of_le (by omega) (by omega)]
      refine ⟨husable, hres, le_refl _, by omega, by omega, fun p _ _ hp => hp⟩
    · simp only [Option.some.injEq, Prod.mk.injEq] at hregion
      obtain ⟨rfl, rfl⟩ := hregion
      refine ⟨husable, hdvd, by omega, hlo, by omega, fun p hp hle _ => by omega⟩
  · rw [if_pos (by simpa using husable)] at hregion
    cases hregion

/-- The bytes owned by the zone built from these arguments of `zone_add`. -/
def RegionOwns (region : ℕ × ℕ) (a : ℕ) : Prop :=
  region.1 ≤ a ∧ a < region.1 + pageSize * bitmapSize region.2 ∨
    (zoneBounds 0 region.1 region.2).startAddr ≤ a ∧ a < (zoneBounds 0 region.1 region.2).endAddr

/-- The zones at the end are those of the entries that were not skipped, in order, and
each of these was more than one block large. -/
theorem addEntries_eq_ok {reservedEnd pgcnt : ℕ} {memmap : List MemmapEntry}
    {fa fa' : FrameAllocator} {m m' : Mem}
    (hadd : addEntries reservedEnd memmap fa m = .ok (pgcnt, fa', m')) :
    fa'.zones.map AllocatorZone.Owns =
        fa.zones.map AllocatorZone.Owns ++ (memmap.filterMap (entryRegion reservedEnd)).map RegionOwns ∧
      ∀ e ∈ memmap, ∀ baseAddr regionSize,
        entryRegion reservedEnd e = some (baseAddr, regionSize) → 2 ^ maxOrder < regionSize := by
  induction memmap generalizing fa m pgcnt with
  | nil =>
      obtain ⟨-, rfl, -⟩ : _ ∧ _ ∧ _ := by simpa [addEntries, pure, Except.pure] using hadd
      simp
  | cons e rest ih =>
      rw [addEntries] at hadd
      cases hregion : entryRegion reservedEnd e with
      | none =>
          rw [hregion] at hadd
          obtain ⟨hzones, hmin⟩ := ih hadd
          rw [List.filterMap_cons_none hregion]
          exact ⟨hzones, List.forall_mem_cons.mpr ⟨by simp [hregion], hmin⟩⟩
      | some region =>
          obtain ⟨baseAddr, regionSize⟩ := region
          rw [hregion] at hadd
          obtain ⟨⟨added, fa1, m1⟩, hzone, hadd⟩ := bind_eq_ok.mp hadd
          obtain ⟨⟨pgcnt', fa2, m2⟩, hrest, hadd⟩ := bind_eq_ok.mp hadd
          obtain ⟨-, rfl, rfl⟩ : _ ∧ _ ∧ _ := by simpa [pure, Except.pure] using hadd
          obtain ⟨hmin, zone, rfl, hbitmap, hpages, hstart, hend⟩ := zoneAdd_eq_ok hzone
          obtain ⟨hzones, hmins⟩ := ih hrest
          have howns : zone.Owns = RegionOwns (baseAddr, regionSize) := by
            funext a
            rw [AllocatorZone.Owns, RegionOwns, hbitmap, hpages, hstart, hend]
          refine ⟨?_, List.forall_mem_cons.mpr ⟨?_, hmins⟩⟩
          · rw [hzones, List.filterMap_cons_some hregion]
            simp [howns]
          · intro u n hun
            obtain ⟨rfl, rfl⟩ := Prod.mk.inj (Option.some.inj (hregion.symm.trans hun))
            exact hmin

/-- The zone of an added entry: bitmap pages at the beginning, blocks from some page
before the end of the entry on, and the end where the padding has moved it. -/
theorem region_shape {reservedEnd : ℕ} {e : MemmapEntry} {baseAddr regionSize : ℕ}
    (hres : pageSize ∣ reservedEnd) (hwrap : e.NoWrap) (hmin : 2 ^ maxOrder < regionSize)
    (hregion : entryRegion reservedEnd e = some (baseAddr, regionSize)) :
    ∃ startAddr endAddr, pageSize ∣ startAddr ∧ pageSize ∣ endAddr ∧
      (∀ a, RegionOwns (baseAddr, regionSize) a ↔
        baseAddr ≤ a ∧ a < baseAddr + pageSize * bitmapSize regionSize ∨
          startAddr ≤ a ∧ a < endAddr) ∧
      baseAddr + pageSize ≤ baseAddr + pageSize * bitmapSize regionSize ∧
      baseAddr + pageSize * bitmapSize regionSize ≤ startAddr ∧
      startAddr < e.virtEnd ∧
      endAddr + dropped regionSize =
        baseAddr + regionSize * pageSize + padding baseAddr regionSize := by
  obtain ⟨-, hdvd, -, -, hlast, -⟩ := entryRegion_spec hres hwrap hregion
  have hpage : pageSize = 4096 := rfl
  have hblock : blockSize maxOrder = 4194304 := rfl
  have hwrap' : baseAddr + regionSize * pageSize + blockSize maxOrder ≤ 2 ^ 64 := by
    unfold MemmapEntry.NoWrap at hwrap
    unfold MemmapEntry.virtEnd at hlast
    rw [physToVirt_of_lt (by omega)] at hlast
    omega
  have htwo : 2 ^ maxOrder = 1024 := rfl
  have hwrap4 : baseAddr + regionSize * 4096 + 4194304 ≤ 2 ^ 64 := by rwa [hpage, hblock] at hwrap'
  obtain ⟨hpos, hroom⟩ := bitmapSize_bounds hmin (by omega)
  obtain ⟨hsdvd, hlo, hhi, hend, -, -, -⟩ := zoneBounds_spec 0 hmin hwrap'
  have hstart : (zoneBounds 0 baseAddr regionSize).startAddr =
      roundUp (baseAddr + pageSize * bitmapSize regionSize) (blockSize maxOrder) := by
    change roundUp ((baseAddr + pageSize * bitmapSize regionSize) % 2 ^ 64) _ = _
    rw [Nat.mod_eq_of_lt (by rw [hpage]; omega)]
  have hsdvd' : pageSize ∣ (zoneBounds 0 baseAddr regionSize).startAddr :=
    dvd_trans (by decide) hsdvd
  refine ⟨_, _, hsdvd', ?_, fun a => Iff.rfl, ?_, hlo, ?_, ?_⟩
  · rw [hend]
    exact Nat.dvd_add hsdvd' (Dvd.dvd.mul_left (by decide) _)
  · rw [hpage]
    omega
  · rw [hpage] at hdvd hsdvd' hhi hlast
    rw [hblock] at hhi
    omega
  · unfold padding dropped
    rw [hend, ← hstart, hpage, hblock, htwo]
    rw [hpage] at hlo
    omega

/-! ## Memory maps whose zones are usable memory -/

/-- The byte of the direct mapping is a byte of the entry. -/
def MemmapEntry.HoldsByte (e : MemmapEntry) (a : ℕ) : Prop :=
  physToVirt e.baseAddr ≤ a ∧ a < e.virtEnd

theorem MemmapEntry.HoldsPage.holdsByte {e : MemmapEntry} {p a : ℕ} (hpage : e.HoldsPage p)
    (hlo : p ≤ a) (hhi : a < p + pageSize) : e.HoldsByte a :=
  ⟨hpage.1.trans hlo, lt_of_lt_of_le hhi hpage.2⟩

/-- Disjoint entries share no byte of the direct mapping either. -/
theorem MemmapEntry.Disjoint.not_both {e f : MemmapEntry} {a : ℕ} (hdisjoint : e.Disjoint f)
    (hewrap : e.NoWrap) (hfwrap : f.NoWrap) (he : e.HoldsByte a) (hf : f.HoldsByte a) : False := by
  unfold MemmapEntry.NoWrap at hewrap hfwrap
  unfold MemmapEntry.HoldsByte MemmapEntry.virtEnd at he hf
  rw [physToVirt_of_lt (by omega)] at he hf
  exact hdisjoint (a - directMapStart) (by omega)

section Memmap

variable {memmap : List MemmapEntry} {reservedEnd : ℕ}
  (hres : pageSize ∣ reservedEnd) (hwrap : ∀ e ∈ memmap, e.NoWrap)
  (hdisjoint : memmap.Pairwise MemmapEntry.Disjoint)
  (hmin : ∀ e ∈ memmap, ∀ baseAddr regionSize,
    entryRegion reservedEnd e = some (baseAddr, regionSize) → 2 ^ maxOrder < regionSize)

include hwrap hdisjoint in
/-- A byte is in at most one entry. -/
theorem entry_unique {e f : MemmapEntry} {a : ℕ} (he : e ∈ memmap) (hf : f ∈ memmap)
    (hea : e.HoldsByte a) (hfa : f.HoldsByte a) : e = f := by
  by_contra hne
  have : Std.Symm MemmapEntry.Disjoint := ⟨fun e f h a ha => h a ⟨ha.2.2.1, ha.2.2.2, ha.1, ha.2.1⟩⟩
  exact (hdisjoint.forall he hf hne).not_both (hwrap e he) (hwrap f hf) hea hfa

include hwrap hdisjoint in
/-- A page of a skipped entry has no byte of an added one. -/
theorem skipped_ne_added {e f : MemmapEntry} {p a : ℕ} {region : ℕ × ℕ} (he : e ∈ memmap)
    (hf : f ∈ memmap) (hskip : entryRegion reservedEnd e = none) (hpage : e.HoldsPage p)
    (hadd : entryRegion reservedEnd f = some region) (hfa : f.HoldsByte a)
    (hlo : p ≤ a) (hhi : a < p + pageSize) : False := by
  have hef : e = f := entry_unique hwrap hdisjoint he hf (hpage.holdsByte hlo hhi) hfa
  subst hef
  cases hskip.symm.trans hadd

include hres hwrap hmin in
/-- A byte of a zone that fits is in its entry, or behind it with every page between
the end of the entry and the byte in a skipped entry. -/
theorem owns_cases {e : MemmapEntry} {baseAddr regionSize a : ℕ} (he : e ∈ memmap)
    (hfits : Fits memmap reservedEnd e)
    (hregion : entryRegion reservedEnd e = some (baseAddr, regionSize))
    (ha : RegionOwns (baseAddr, regionSize) a) :
    e.HoldsByte a ∨ e.HoldsByte (e.virtEnd - 1) ∧ pageSize ∣ e.virtEnd ∧ e.virtEnd ≤ a ∧
      ∀ p, pageSize ∣ p → e.virtEnd ≤ p → p ≤ a →
        ∃ e' ∈ memmap, e'.Usable ∧ e'.HoldsPage p ∧ entryRegion reservedEnd e' = none := by
  obtain ⟨-, -, -, hbase, -, -⟩ := entryRegion_spec hres (hwrap e he) hregion
  obtain ⟨startAddr, endAddr, -, -, howns, -, hbitmap, hstart, hend⟩ :=
    region_shape hres (hwrap e he) (hmin e he _ _ hregion) hregion
  have hown := (howns a).mp ha
  unfold MemmapEntry.HoldsByte
  by_cases hin : a < e.virtEnd
  · exact Or.inl ⟨by omega, hin⟩
  · rcases hfits _ _ hregion with hroom | ⟨hdvd, hpages⟩
    · omega
    · exact Or.inr ⟨by omega, hdvd, by omega, fun p hp hle hpa => hpages p hp hle (by omega)⟩

include hres hwrap hdisjoint hmin in
/-- Zones of different entries share no byte when they fit. -/
theorem regions_disjoint (hfits : ∀ e ∈ memmap, Fits memmap reservedEnd e) {e f : MemmapEntry}
    (he : e ∈ memmap) (hf : f ∈ memmap) (hef : e.Disjoint f) {eregion fregion : ℕ × ℕ} {a : ℕ}
    (heregion : entryRegion reservedEnd e = some eregion)
    (hfregion : entryRegion reservedEnd f = some fregion)
    (hea : RegionOwns eregion a) (hfa : RegionOwns fregion a) : False := by
  have hpage : pageSize = 4096 := rfl
  have hround := lt_roundDown_add a (show 0 < pageSize by decide)
  have hrounddvd := dvd_roundDown a pageSize
  have hroundle := roundDown_le a pageSize
  rcases owns_cases hres hwrap hmin he (hfits e he) heregion hea with
    hein | ⟨helast, hedvd, heout, hepages⟩ <;>
  rcases owns_cases hres hwrap hmin hf (hfits f hf) hfregion hfa with
    hfin | ⟨hflast, hfdvd, hfout, hfpages⟩
  · exact hef.not_both (hwrap e he) (hwrap f hf) hein hfin
  · obtain ⟨g, hg, -, hgpage, hskip⟩ := hfpages (roundDown a pageSize) hrounddvd
      (by rw [hpage] at *; omega) hroundle
    exact skipped_ne_added hwrap hdisjoint hg he hskip hgpage heregion hein hroundle hround
  · obtain ⟨g, hg, -, hgpage, hskip⟩ := hepages (roundDown a pageSize) hrounddvd
      (by rw [hpage] at *; omega) hroundle
    exact skipped_ne_added hwrap hdisjoint hg hf hskip hgpage hfregion hfin hroundle hround
  · -- The last page of the entry that ends later lies behind the other one.
    rcases lt_trichotomy e.virtEnd f.virtEnd with hlt | heq | hlt
    · obtain ⟨g, hg, -, hgpage, hskip⟩ := hepages (f.virtEnd - pageSize)
        (Nat.dvd_sub hfdvd (dvd_refl _)) (by rw [hpage] at *; omega) (by omega)
      exact skipped_ne_added hwrap hdisjoint hg hf hskip hgpage hfregion hflast
        (by rw [hpage]; omega) (by rw [hpage]; omega)
    · rw [heq] at helast
      exact hef.not_both (hwrap e he) (hwrap f hf) helast hflast
    · obtain ⟨g, hg, -, hgpage, hskip⟩ := hfpages (e.virtEnd - pageSize)
        (Nat.dvd_sub hedvd (dvd_refl _)) (by rw [hpage] at *; omega) (by omega)
      exact skipped_ne_added hwrap hdisjoint hg he hskip hgpage heregion helast
        (by rw [hpage]; omega) (by rw [hpage]; omega)

include hres hwrap hmin in
/-- Every page of a zone that fits is a page of a usable entry. -/
theorem region_usable {e : MemmapEntry} {baseAddr regionSize p : ℕ} (he : e ∈ memmap)
    (hfits : Fits memmap reservedEnd e)
    (hregion : entryRegion reservedEnd e = some (baseAddr, regionSize)) (hdvd : pageSize ∣ p)
    (hp : RegionOwns (baseAddr, regionSize) p) : ∃ f ∈ memmap, f.Usable ∧ f.HoldsPage p := by
  have hpage : pageSize = 4096 := rfl
  obtain ⟨husable, hbdvd, -, hbase, -, -⟩ := entryRegion_spec hres (hwrap e he) hregion
  obtain ⟨startAddr, endAddr, hsdvd, hedvd, howns, -, hbitmap, hstart, hend⟩ :=
    region_shape hres (hwrap e he) (hmin e he _ _ hregion) hregion
  have hown := (howns p).mp hp
  by_cases hin : p + pageSize ≤ e.virtEnd
  · exact ⟨e, he, husable, by omega, hin⟩
  · have hdvd4 : 4096 ∣ p := hdvd
    have hsdvd4 : 4096 ∣ startAddr := hsdvd
    have hedvd4 : 4096 ∣ endAddr := hedvd
    have hbdvd4 : 4096 ∣ baseAddr := hbdvd
    have hblocks : startAddr ≤ p ∧ p < endAddr := by
      rw [hpage] at hown hbitmap hin
      omega
    rcases hfits _ _ hregion with hroom | ⟨htdvd, hpages⟩
    · omega
    · have htdvd4 : 4096 ∣ e.virtEnd := htdvd
      obtain ⟨f, hf, hfusable, hfpage, -⟩ := hpages p hdvd (by omega) (by omega)
      exact ⟨f, hf, hfusable, hfpage⟩

include hres hwrap hdisjoint hmin in
/-- If the zones own usable pages only and each page once, every zone fits. -/
theorem fits_of_owns
    (husable : ∀ e ∈ memmap, ∀ region, entryRegion reservedEnd e = some region → ∀ p, pageSize ∣ p →
      RegionOwns region p → ∃ f ∈ memmap, f.Usable ∧ f.HoldsPage p)
    (hregions : ∀ e ∈ memmap, ∀ f ∈ memmap, e ≠ f → ∀ eregion, entryRegion reservedEnd e = some eregion →
      ∀ fregion, entryRegion reservedEnd f = some fregion →
        ∀ a, ¬(RegionOwns eregion a ∧ RegionOwns fregion a))
    {e : MemmapEntry} (he : e ∈ memmap) : Fits memmap reservedEnd e := by
  intro baseAddr regionSize hregion
  have hpage : pageSize = 4096 := rfl
  obtain ⟨-, hbdvd, habove, hbase, hlast, -⟩ := entryRegion_spec hres (hwrap e he) hregion
  obtain ⟨startAddr, endAddr, hsdvd, hedvd, howns, -, hbitmap, hstart, hend⟩ :=
    region_shape hres (hwrap e he) (hmin e he _ _ hregion) hregion
  have hlastByte : e.HoldsByte (e.virtEnd - 1) := by
    unfold MemmapEntry.HoldsByte
    omega
  refine or_iff_not_imp_left.mpr fun hover => ?_
  have htdvd : pageSize ∣ e.virtEnd := by
    -- The page with the last byte of the entry belongs to the zone and to no other entry.
    have hle := roundDown_le (e.virtEnd - 1) pageSize
    have hlt := lt_roundDown_add (e.virtEnd - 1) (show 0 < pageSize by decide)
    have hdvd := dvd_roundDown (e.virtEnd - 1) pageSize
    generalize roundDown (e.virtEnd - 1) pageSize = p at *
    obtain ⟨f, hf, -, hfpage⟩ := husable e he _ hregion p hdvd
      ((howns p).mpr (Or.inr (by rw [hpage] at *; omega)))
    obtain rfl := entry_unique hwrap hdisjoint hf he (hfpage.holdsByte hle hlt) hlastByte
    obtain ⟨-, hfpage⟩ := hfpage
    have hvirt : f.virtEnd = p + pageSize := by omega
    rw [hvirt]
    exact Nat.dvd_add hdvd (dvd_refl _)
  refine ⟨htdvd, fun p hdvd hle hlt => ?_⟩
  have hpzone : startAddr ≤ p ∧ p < endAddr := by omega
  obtain ⟨f, hf, hfusable, hfpage⟩ := husable e he _ hregion p hdvd ((howns p).mpr (Or.inr hpzone))
  refine ⟨f, hf, hfusable, hfpage, ?_⟩
  cases hfregion : entryRegion reservedEnd f with
  | none => rfl
  | some fregion =>
      obtain ⟨fbase, fsize⟩ := fregion
      obtain ⟨-, -, -, hfbase, -, hfle⟩ := entryRegion_spec hres (hwrap f hf) hfregion
      obtain ⟨fstart, fend, -, -, hfowns, hfpos, -, -, -⟩ :=
        region_shape hres (hwrap f hf) (hmin f hf _ _ hfregion) hfregion
      have hfle := hfle p hdvd hfpage.1 (by omega)
      have hne : e ≠ f := by
        rintro rfl
        have := hfpage.2
        omega
      by_cases hfirst : e.virtEnd ≤ fbase
      · -- The first bitmap page of the other zone is a page of this one.
        refine absurd ⟨(howns fbase).mpr (Or.inr ⟨by omega, by omega⟩), (hfowns fbase).mpr (Or.inl ?_)⟩
          (hregions e he f hf hne _ hregion _ hfregion fbase)
        rw [hpage] at *
        omega
      · have hfbyte : f.HoldsByte (e.virtEnd - 1) := by
          have := hfpage.2
          unfold MemmapEntry.HoldsByte
          rw [hpage] at *
          omega
        exact absurd (entry_unique hwrap hdisjoint he hf hlastByte hfbyte) hne

end Memmap

theorem ownsOnlyRam_iff_regions {memmap : List MemmapEntry} {reservedEnd : ℕ}
    {zones : List AllocatorZone} {regions : List (ℕ × ℕ)}
    (hzones : zones.map AllocatorZone.Owns = regions.map RegionOwns) :
    OwnsOnlyRam memmap reservedEnd zones ↔
      (∀ region ∈ regions, ∀ p, pageSize ∣ p → RegionOwns region p →
        ∃ e ∈ memmap, e.Usable ∧ e.HoldsPage p) ∧
      (∀ region ∈ regions, ∀ a, RegionOwns region a → reservedEnd ≤ a) ∧
      regions.Pairwise fun region region' => ∀ a, ¬(RegionOwns region a ∧ RegionOwns region' a) := by
  have hmem (P : (ℕ → Prop) → Prop) :
      (∀ zone ∈ zones, P zone.Owns) ↔ ∀ region ∈ regions, P (RegionOwns region) := by
    rw [← List.forall_mem_map (f := AllocatorZone.Owns), hzones, List.forall_mem_map]
  have hpair : (zones.Pairwise fun zone zone' => ∀ a, ¬(zone.Owns a ∧ zone'.Owns a)) ↔
      regions.Pairwise fun region region' => ∀ a, ¬(RegionOwns region a ∧ RegionOwns region' a) := by
    rw [← List.pairwise_map (f := AllocatorZone.Owns) (R := fun A B => ∀ a, ¬(A a ∧ B a)), hzones,
      List.pairwise_map]
  rw [← hmem fun A => ∀ p, pageSize ∣ p → A p → ∃ e ∈ memmap, e.Usable ∧ e.HoldsPage p,
    ← hmem fun A => ∀ a, A a → reservedEnd ≤ a, ← hpair]
  exact ⟨fun h => ⟨h.usable, h.above, h.disjoint⟩, fun h => ⟨h.1, h.2.1, h.2.2⟩⟩

/-- When the frame allocator has been initialised, it owns only usable memory if and only
if every entry has room for the padding in front of its zone. -/
theorem frameAllocInit_ownsOnlyRam_iff {zonesAddr kernelEnd bootInfo totalSize pgcnt : ℕ}
    {memmap : List MemmapEntry} {fa : FrameAllocator} {m m' : Mem}
    (hinit : frameAllocInit zonesAddr kernelEnd bootInfo totalSize memmap m = .ok (pgcnt, fa, m'))
    (hdisjoint : memmap.Pairwise MemmapEntry.Disjoint) (hwrap : ∀ e ∈ memmap, e.NoWrap) :
    OwnsOnlyRam memmap (reservedEnd kernelEnd (mbMemoryRegionEnd bootInfo totalSize)) fa.zones ↔
      ∀ e ∈ memmap, Fits memmap (reservedEnd kernelEnd (mbMemoryRegionEnd bootInfo totalSize)) e := by
  obtain ⟨hzones, hmin⟩ := addEntries_eq_ok hinit
  have hres : pageSize ∣ reservedEnd kernelEnd (mbMemoryRegionEnd bootInfo totalSize) :=
    dvd_roundUp _ _
  generalize reservedEnd kernelEnd (mbMemoryRegionEnd bootInfo totalSize) = reserved at *
  simp only [List.map_nil, List.nil_append] at hzones
  rw [ownsOnlyRam_iff_regions hzones, List.pairwise_filterMap]
  constructor
  · rintro ⟨husable, -, hpair⟩ e he
    refine fits_of_owns hres hwrap hdisjoint hmin (fun e he region hregion => ?_)
      (fun e he f hf hne => ?_) he
    · exact husable region (List.mem_filterMap.mpr ⟨e, he, hregion⟩)
    · have : Std.Symm fun e f : MemmapEntry => ∀ b, entryRegion reserved e = some b → ∀ b',
          entryRegion reserved f = some b' → ∀ a, ¬(RegionOwns b a ∧ RegionOwns b' a) :=
        ⟨fun e f h b hb b' hb' a ha => h b' hb' b hb a ha.symm⟩
      exact hpair.forall he hf hne
  · intro hfits
    refine ⟨?_, ?_, ?_⟩
    · intro region hmem p hdvd hp
      obtain ⟨e, he, hregion⟩ := List.mem_filterMap.mp hmem
      exact region_usable hres hwrap hmin he (hfits e he) hregion hdvd hp
    · intro region hmem a ha
      obtain ⟨e, he, hregion⟩ := List.mem_filterMap.mp hmem
      obtain ⟨-, -, habove, -, -, -⟩ := entryRegion_spec hres (hwrap e he) hregion
      obtain ⟨startAddr, endAddr, -, -, howns, -, hbitmap, -, -⟩ :=
        region_shape hres (hwrap e he) (hmin e he _ _ hregion) hregion
      have hown := (howns a).mp ha
      omega
    · refine hdisjoint.imp_of_mem fun he hf hef eregion heregion fregion hfregion a ha => ?_
      exact regions_disjoint hres hwrap hdisjoint hmin hfits he hf hef heregion hfregion ha.1 ha.2

/-! ## Two memory maps -/

theorem addEntries_of_skipped {reservedEnd : ℕ} {memmap : List MemmapEntry} (fa : FrameAllocator)
    (m : Mem) (hskip : memmap.filterMap (entryRegion reservedEnd) = []) :
    addEntries reservedEnd memmap fa m = .ok (0, fa, m) := by
  induction memmap with
  | nil => rfl
  | cons e rest ih =>
      obtain ⟨hnone, hrest⟩ : entryRegion reservedEnd e = none ∧
          rest.filterMap (entryRegion reservedEnd) = [] := by
        simpa [List.filterMap_eq_nil_iff] using hskip
      rw [addEntries, hnone]
      exact ih hrest

/-- Only one entry is large enough for a zone. -/
theorem addEntries_of_single (memmap : List MemmapEntry) (reservedEnd : ℕ)
    {baseAddr regionSize added : ℕ} {fa fa' : FrameAllocator} {m m' : Mem}
    (hsingle : memmap.filterMap (entryRegion reservedEnd) = [(baseAddr, regionSize)])
    (hadd : zoneAdd fa baseAddr regionSize m = .ok (added, fa', m')) :
    addEntries reservedEnd memmap fa m = .ok (added % 2 ^ 64, fa', m') := by
  induction memmap with
  | nil => simp at hsingle
  | cons e rest ih =>
      cases hregion : entryRegion reservedEnd e with
      | none =>
          rw [List.filterMap_cons_none hregion] at hsingle
          rw [addEntries, hregion]
          exact ih hsingle
      | some region =>
          rw [List.filterMap_cons_some hregion, List.cons.injEq] at hsingle
          obtain ⟨rfl, hrest⟩ := hsingle
          simp only [addEntries, hregion, hadd, ok_bind, addEntries_of_skipped _ _ hrest,
            Nat.add_zero]
          rfl

/-- Sixteen megabytes at the address sixteen megabytes. -/
def roundMemmap : List MemmapEntry := [⟨0x1000000, 0x1000000, 1⟩]

/-- A region of whole blocks at a block boundary: the padding is what is dropped. -/
theorem frameAllocInit_ownsOnlyRam_round :
    ∃ pgcnt fa m', frameAllocInit 0xffffffff80200000 0x600000 0xffff888000009500 0x400 roundMemmap
        (fun _ => 0) = .ok (pgcnt, fa, m') ∧
      OwnsOnlyRam roundMemmap
        (reservedEnd 0x600000 (mbMemoryRegionEnd 0xffff888000009500 0x400)) fa.zones := by
  obtain ⟨zone, m', hadd, -⟩ := zoneAdd_ok ⟨0xffffffff80200000, []⟩ 0xffff888001000000
    4096 (fun _ => 0) (by decide) (by decide) (by decide) (by decide) (by decide)
  have hregion : entryRegion (reservedEnd 0x600000 (mbMemoryRegionEnd 0xffff888000009500 0x400))
      ⟨0x1000000, 0x1000000, 1⟩ = some (0xffff888001000000, 4096) := by decide
  have hinit := addEntries_of_single roundMemmap _
    (by rw [roundMemmap, List.filterMap_cons_some hregion, List.filterMap_nil]) hadd
  refine ⟨_, _, _, hinit, (frameAllocInit_ownsOnlyRam_iff hinit ?_ ?_).mpr ?_⟩
  · exact List.pairwise_singleton _ _
  · rw [roundMemmap, List.forall_mem_singleton]
    decide
  · rw [roundMemmap, List.forall_mem_singleton]
    intro baseAddr regionSize h
    obtain ⟨rfl, rfl⟩ := Prod.mk.inj (Option.some.inj (hregion.symm.trans h))
    left
    decide

/-- The memory map of a virtual machine with 128 megabytes: the last 128 kilobytes are
reserved for firmware tables. -/
def vmMemmap : List MemmapEntry :=
  [⟨0x0, 0x9fc00, 1⟩, ⟨0x9fc00, 0x400, 2⟩, ⟨0xf0000, 0x10000, 2⟩, ⟨0x100000, 0x7ee0000, 1⟩,
    ⟨0x7fe0000, 0x20000, 2⟩, ⟨0xfffc0000, 0x40000, 2⟩]

/-- With the kernel ending at seven megabytes, the zone is padded to the next block
boundary and ends at 128 megabytes, 32 pages behind its entry. -/
theorem frameAllocInit_owns_reserved :
    vmMemmap.Pairwise MemmapEntry.Disjoint ∧ (∀ e ∈ vmMemmap, e.NoWrap) ∧
    ∃ pgcnt fa m', frameAllocInit 0xffffffff80200000 0x700000 0xffff888000009500 0x400 vmMemmap
        (fun _ => 0) = .ok (pgcnt, fa, m') ∧
      ¬OwnsOnlyRam vmMemmap
        (reservedEnd 0x700000 (mbMemoryRegionEnd 0xffff888000009500 0x400)) fa.zones := by
  refine ⟨?_, by decide, ?_⟩
  · simp only [vmMemmap, List.pairwise_cons, List.forall_mem_cons, MemmapEntry.Disjoint]
    refine ⟨⟨?_, ?_, ?_, ?_, ?_, ?_⟩, ⟨?_, ?_, ?_, ?_, ?_⟩, ⟨?_, ?_, ?_, ?_⟩, ⟨?_, ?_, ?_⟩, ⟨?_, ?_⟩,
      ?_, List.Pairwise.nil⟩ <;>
    first
      | exact List.forall_mem_nil _
      | intro a
        omega
  · obtain ⟨zone, m', hadd, hstart, hend, -, -, -⟩ :=
      zoneAdd_ok ⟨0xffffffff80200000, []⟩ 0xffff888000700000 30944
        (fun _ => 0) (by decide) (by decide) (by decide) (by decide) (by decide)
    have hinit := addEntries_of_single vmMemmap
      (reservedEnd 0x700000 (mbMemoryRegionEnd 0xffff888000009500 0x400))
      (by decide) hadd
    refine ⟨_, _, _, hinit, fun hram => ?_⟩
    have hstart' : zone.startAddr = 0xffff888000800000 := by rw [hstart]; decide
    have hend' : zone.endAddr = 0xffff888008000000 := by rw [hend]; decide
    have howns : zone.Owns 0xffff888007fe0000 := Or.inr (by rw [hstart', hend']; decide)
    obtain ⟨e, he, husable, hpage⟩ :=
      hram.usable zone (by simp) 0xffff888007fe0000 (by decide) howns
    revert husable hpage
    have hnone : ∀ e ∈ vmMemmap, e.Usable → ¬e.HoldsPage 0xffff888007fe0000 := by decide
    exact hnone e he

end HeavenOS

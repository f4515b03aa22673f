/-
# Multiboot information

The parser of `kernel/multiboot.c`. The boot information is a header and a sequence of tags,
each padded to eight bytes, up to a tag of type zero. The parser goes from tag to tag by their
sizes and remembers the last tag of each type that it knows. One of these is the memory map, for
whose entries there is an iterator.
-/

import HeavenOS.Common
import HeavenOS.Lib.Mem
import HeavenOS.Lib.Scan

namespace HeavenOS

open Lib

/-- `MB_TAG_ALIGNMENT` -/
def mbTagAlignment : ℕ := 8

/-- `MB_TAG_END` -/
def mbTagEnd : ℕ := 0

/-- `MB_TAG_MEMMAP` -/
def mbTagMemmap : ℕ := 6

/-- `MB_TAG_FB` -/
def mbTagFb : ℕ := 8

/-- `MB_TAG_RSDP_V1` -/
def mbTagRsdpV1 : ℕ := 14

/-- `MB_TAG_RSDP_V2` -/
def mbTagRsdpV2 : ℕ := 15

/-! ## The parser -/

/-- The pointers that the parser leaves to the rest of the kernel. -/
structure MbPointers where
  mbBootInfo : ℕ
  mbFbInfo : ℕ
  mbMemmapInfo : ℕ
  mbAcpiRsdpV1 : ℕ
  mbAcpiRsdpV2 : ℕ
  deriving DecidableEq

/-- Before the parser runs. -/
def MbPointers.null : MbPointers := ⟨0, 0, 0, 0, 0⟩

/-- `((mb_boot_info_header_t*)base)->total_size` -/
def mbTotalSize (m : Mem) (base : ℕ) : ℕ := m.loadU32 base

/-- `tag->type` -/
def mbTagType (m : Mem) (tag : ℕ) : ℕ := m.loadU32 tag

/-- `tag->size` -/
def mbTagSize (m : Mem) (tag : ℕ) : ℕ := m.loadU32 (tag + 4)

/-- `case MB_TAG_END` -/
def IsEndTag (m : Mem) (tag : ℕ) : Prop := mbTagType m tag = mbTagEnd

instance (m : Mem) : DecidablePred (IsEndTag m) := fun _ => inferInstanceAs (Decidable (_ = _))

/-- The body of the `switch` for a tag that is not the last one. -/
def MbPointers.see (m : Mem) (p : MbPointers) (currTag : ℕ) : MbPointers :=
  if mbTagType m currTag = mbTagMemmap then { p with mbMemmapInfo := currTag }
  else if mbTagType m currTag = mbTagFb then { p with mbFbInfo := currTag }
  else if mbTagType m currTag = mbTagRsdpV1 then { p with mbAcpiRsdpV1 := currTag }
  else if mbTagType m currTag = mbTagRsdpV2 then { p with mbAcpiRsdpV2 := currTag }
  else p

/-- Where the parser goes from a tag. -/
def mbNextTag (m : Mem) (iter : ℕ) : ℕ := roundUp ((iter + mbTagSize m iter) % 2 ^ 64) mbTagAlignment

/-- The loop over the tags: the pointers, and the tags whose headers were read, in order;
nothing if it has not come to its end within `fuel` iterations. -/
def mbParseTags (m : Mem) : (fuel iter : ℕ) → MbPointers → Option (MbPointers × List ℕ)
  | 0, _, _ => none
  | fuel + 1, iter, p =>
      let shouldStop := IsEndTag m iter
      let p := if shouldStop then p else p.see m iter
      let next := mbNextTag m iter
      if shouldStop then some (p, [iter])
      else (mbParseTags m fuel next p).map fun (p, tags) => (p, iter :: tags)

/-- `mb_parse_boot_info` -/
def mbParseBootInfo (m : Mem) (fuel earlyData : ℕ) (p : MbPointers) : Except Panic (Option (MbPointers × List ℕ)) := do
  kassert (earlyData ≠ 0) "early_data != NULL"
  let p := { p with mbBootInfo := m.loadPtr earlyData }
  return mbParseTags m fuel ((p.mbBootInfo + 8) % 2 ^ 64) p

/-- The loop is a walk from tag to tag. -/
theorem mbParseTags_eq (m : Mem) (fuel iter : ℕ) (p : MbPointers) :
    mbParseTags m fuel iter p =
      (scan (IsEndTag m) (mbNextTag m) fuel iter).map
        fun tags => (tags.dropLast.foldl (MbPointers.see m) p, tags) := by
  induction fuel generalizing iter p with
  | zero => rfl
  | succ fuel ih =>
      rw [mbParseTags]
      by_cases hstop : IsEndTag m iter
      · rw [scan_of_stop hstop, if_pos hstop, if_pos hstop]
        rfl
      · rw [scan_of_not_stop hstop, if_neg hstop, if_neg hstop, ih, Option.map_map, Option.map_map]
        refine Option.map_congr fun tags htags => ?_
        simp [List.dropLast_cons_of_ne_nil (scan_ne_nil htags)]

/-! ## The iterator -/

/-- `mb_memmap_info->entry_size` -/
def mbEntrySize (m : Mem) (info : ℕ) : ℕ := m.loadU32 (info + 8)

/-- `mb_memmap_iter_init`: the first entry. -/
def mbMemmapIterInit (mbMemmapInfo : ℕ) : Except Panic ℕ := do
  kassert (mbMemmapInfo ≠ 0) "mb_memmap_info != NULL"
  return (mbMemmapInfo + 16) % 2 ^ 64

/-- `mb_memmap_iter_next`: the entry, `0` for `NULL`, and the iterator. -/
def mbMemmapIterNext (m : Mem) (mbMemmapInfo currEntry : ℕ) : ℕ × ℕ :=
  if (mbMemmapInfo + mbTagSize m mbMemmapInfo) % 2 ^ 64 ≤ currEntry then (0, currEntry)
  else (currEntry, (currEntry + mbEntrySize m mbMemmapInfo) % 2 ^ 64)

/-- `while ((entry = mb_memmap_iter_next(&it)) != NULL)`: the entries, and the iterator behind
the loop. -/
def mbMemmapEntries (m : Mem) (mbMemmapInfo : ℕ) : (fuel currEntry : ℕ) → Option (List ℕ × ℕ)
  | 0, _ => none
  | fuel + 1, currEntry =>
      let (entry, currEntry) := mbMemmapIterNext m mbMemmapInfo currEntry
      if entry = 0 then some ([], currEntry)
      else (mbMemmapEntries m mbMemmapInfo fuel currEntry).map fun (entries, it) => (entry :: entries, it)

/-! ## Well-formed information -/

/-- A tag of this size and its padding. -/
def padded (size : ℕ) : ℕ := (size + 7) / 8 * 8

/-- The tags from `tag` on, all of them before `stop`: every one has a header and is padded to
eight bytes, and the first one of type zero is the last. -/
inductive TagList (m : Mem) (stop : ℕ) : ℕ → List ℕ → Prop
  | last {tag : ℕ} (htype : IsEndTag m tag) (hsize : 8 ≤ mbTagSize m tag)
      (hin : tag + mbTagSize m tag ≤ stop) : TagList m stop tag [tag]
  | cons {tag : ℕ} {tags : List ℕ} (htype : ¬IsEndTag m tag) (hsize : 8 ≤ mbTagSize m tag)
      (hin : tag + mbTagSize m tag ≤ stop) (hrest : TagList m stop (tag + padded (mbTagSize m tag)) tags) :
      TagList m stop tag (tag :: tags)

/-- Boot information at `base` with these tags. -/
structure BootInfo (m : Mem) (base : ℕ) (tags : List ℕ) : Prop where
  aligned : 8 ∣ base
  /-- It lies in the address space. -/
  fits : base + mbTotalSize m base ≤ 2 ^ 64
  tags : TagList m (base + mbTotalSize m base) (base + 8) tags

/-- The last tag of a type, `0` for none. -/
def lastTag (m : Mem) (tags : List ℕ) (type : ℕ) : ℕ := (tags.filter fun t => mbTagType m t = type).getLastD 0

section TagList

variable {m : Mem} {stop tag : ℕ} {tags : List ℕ} (h : TagList m stop tag tags)

include h

theorem TagList.head_lt : tag < stop := by
  cases h with
  | last _ hsize hin | cons _ hsize hin _ => omega

/-- Every tag is in front of the end, and all but the last have another one behind them. -/
theorem TagList.mem_bounds {t : ℕ} (ht : t ∈ tags) : tag ≤ t ∧ 8 ≤ mbTagSize m t ∧ t + mbTagSize m t ≤ stop ∧
    (¬IsEndTag m t → t + padded (mbTagSize m t) < stop) := by
  induction h with
  | last htype hsize hin =>
      obtain rfl := List.mem_singleton.mp ht
      exact ⟨le_refl _, hsize, hin, fun hne => absurd htype hne⟩
  | @cons tag tags htype hsize hin hrest ih =>
      rcases List.mem_cons.mp ht with rfl | ht
      · exact ⟨le_refl _, hsize, hin, fun _ => hrest.head_lt⟩
      · obtain ⟨hlo, hsize', hin', hnext⟩ := ih ht
        exact ⟨by omega, hsize', hin', hnext⟩

/-- The walk visits exactly the tags. -/
theorem TagList.scan_eq (haligned : 8 ∣ tag) (hstop : stop ≤ 2 ^ 64) {fuel : ℕ} (hfuel : tags.length ≤ fuel) :
    scan (IsEndTag m) (mbNextTag m) fuel tag = some tags := by
  induction h generalizing fuel with
  | last htype hsize hin =>
      obtain ⟨fuel, rfl⟩ : ∃ n, fuel = n + 1 := ⟨fuel - 1, by simp at hfuel; omega⟩
      exact scan_of_stop htype fuel
  | @cons tag tags htype hsize hin hrest ih =>
      obtain ⟨fuel, rfl⟩ : ∃ n, fuel = n + 1 := ⟨fuel - 1, by simp at hfuel; omega⟩
      have hlt := hrest.head_lt
      have hnext : mbNextTag m tag = tag + padded (mbTagSize m tag) := by
        unfold mbNextTag padded mbTagAlignment roundUp roundDown at *
        omega
      rw [scan_of_not_stop htype, hnext, ih (by unfold padded; omega) (by simpa using hfuel)]
      rfl

theorem TagList.eq_concat : ∃ last, tags = tags.dropLast ++ [last] ∧ IsEndTag m last := by
  induction h with
  | @last tag htype _ _ => exact ⟨tag, rfl, htype⟩
  | @cons tag tags htype hsize hin hrest ih =>
      obtain ⟨last, heq, hend⟩ := ih
      refine ⟨last, ?_, hend⟩
      have hne : tags ≠ [] := by
        rintro rfl
        cases hrest
      rw [List.dropLast_cons_of_ne_nil hne, List.cons_append, ← heq]

end TagList

/-! ## The last tag of each type -/

/-- What the pointers say about the tags seen so far. -/
structure Sees (m : Mem) (base : ℕ) (tags : List ℕ) (p : MbPointers) : Prop where
  mbBootInfo : p.mbBootInfo = base
  mbFbInfo : p.mbFbInfo = lastTag m tags mbTagFb
  mbMemmapInfo : p.mbMemmapInfo = lastTag m tags mbTagMemmap
  mbAcpiRsdpV1 : p.mbAcpiRsdpV1 = lastTag m tags mbTagRsdpV1
  mbAcpiRsdpV2 : p.mbAcpiRsdpV2 = lastTag m tags mbTagRsdpV2

theorem lastTag_concat (m : Mem) (tags : List ℕ) (tag type : ℕ) :
    lastTag m (tags ++ [tag]) type = if mbTagType m tag = type then tag else lastTag m tags type := by
  unfold lastTag
  rw [List.filter_append]
  by_cases h : mbTagType m tag = type <;> simp [h]

/-- One more tag has been seen. -/
theorem Sees.see {m : Mem} {base : ℕ} {tags : List ℕ} {p : MbPointers} (h : Sees m base tags p) (tag : ℕ) :
    Sees m base (tags ++ [tag]) (p.see m tag) := by
  have hother (type type' : ℕ) (hne : type ≠ type') (htag : mbTagType m tag = type) :
      lastTag m (tags ++ [tag]) type' = lastTag m tags type' := by
    rw [lastTag_concat, htag, if_neg hne]
  have hself (type : ℕ) (htag : mbTagType m tag = type) : lastTag m (tags ++ [tag]) type = tag := by
    rw [lastTag_concat, if_pos htag]
  obtain ⟨hbase, hfb, hmemmap, hv1, hv2⟩ := h
  unfold MbPointers.see
  split_ifs with h1 h2 h3 h4
  · exact ⟨hbase, by rw [hother _ _ (by decide) h1, hfb], (hself _ h1).symm, by rw [hother _ _ (by decide) h1, hv1],
      by rw [hother _ _ (by decide) h1, hv2]⟩
  · exact ⟨hbase, (hself _ h2).symm, by rw [hother _ _ (by decide) h2, hmemmap],
      by rw [hother _ _ (by decide) h2, hv1], by rw [hother _ _ (by decide) h2, hv2]⟩
  · exact ⟨hbase, by rw [hother _ _ (by decide) h3, hfb], by rw [hother _ _ (by decide) h3, hmemmap],
      (hself _ h3).symm, by rw [hother _ _ (by decide) h3, hv2]⟩
  · exact ⟨hbase, by rw [hother _ _ (by decide) h4, hfb], by rw [hother _ _ (by decide) h4, hmemmap],
      by rw [hother _ _ (by decide) h4, hv1], (hself _ h4).symm⟩
  · exact ⟨hbase, by rw [lastTag_concat, if_neg h2, hfb], by rw [lastTag_concat, if_neg h1, hmemmap],
      by rw [lastTag_concat, if_neg h3, hv1], by rw [lastTag_concat, if_neg h4, hv2]⟩

theorem Sees.foldl {m : Mem} {base : ℕ} {seen : List ℕ} {p : MbPointers} (h : Sees m base seen p) (tags : List ℕ) :
    Sees m base (seen ++ tags) (tags.foldl (MbPointers.see m) p) := by
  induction tags generalizing seen p with
  | nil => simpa using h
  | cons tag tags ih =>
      rw [List.foldl_cons, show seen ++ tag :: tags = seen ++ [tag] ++ tags by simp]
      exact ih (h.see tag)

/-- The tag of type zero is none of those that the pointers are for. -/
theorem Sees.addEnd {m : Mem} {base : ℕ} {tags : List ℕ} {p : MbPointers} (h : Sees m base tags p) {last : ℕ}
    (hend : IsEndTag m last) : Sees m base (tags ++ [last]) p := by
  have hskip (type : ℕ) (hne : mbTagEnd ≠ type) : lastTag m (tags ++ [last]) type = lastTag m tags type := by
    rw [lastTag_concat, show mbTagType m last = mbTagEnd from hend, if_neg hne]
  obtain ⟨hbase, hfb, hmemmap, hv1, hv2⟩ := h
  exact ⟨hbase, by rw [hskip _ (by decide), hfb], by rw [hskip _ (by decide), hmemmap], by rw [hskip _ (by decide), hv1],
    by rw [hskip _ (by decide), hv2]⟩

/-- On well-formed information the parser visits its tags and remembers the last ones. -/
theorem mbParseBootInfo_spec {m : Mem} {earlyData base : ℕ} {tags : List ℕ} (hearly : earlyData ≠ 0)
    (hbase : m.loadPtr earlyData = base) (hinfo : BootInfo m base tags) {fuel : ℕ} (hfuel : tags.length ≤ fuel) :
    ∃ p, mbParseBootInfo m fuel earlyData .null = .ok (some (p, tags)) ∧ Sees m base tags p := by
  have htotal := hinfo.fits
  have hhead := hinfo.tags.head_lt
  have hscan := hinfo.tags.scan_eq (Nat.dvd_add hinfo.aligned (dvd_refl 8)) htotal hfuel
  refine ⟨tags.dropLast.foldl (MbPointers.see m) { MbPointers.null with mbBootInfo := base }, ?_, ?_⟩
  · rw [mbParseBootInfo, kassert_of_true hearly, ok_bind]
    simp only [hbase, Nat.mod_eq_of_lt (show base + 8 < 2 ^ 64 by omega), mbParseTags_eq, hscan]
    rfl
  · obtain ⟨last, heq, hend⟩ := hinfo.tags.eq_concat
    have hstart : Sees m base [] { MbPointers.null with mbBootInfo := base } := ⟨rfl, rfl, rfl, rfl, rfl⟩
    rw [heq]
    simpa using (hstart.foldl tags.dropLast).addEnd hend

/-! ## The entries of a memory map -/

/-- The iterator comes to an end where the size of the tag says. -/
theorem mbMemmapEntries_spec {m : Mem} {info n : ℕ} (hne : mbEntrySize m info ≠ 0)
    (hsize : mbTagSize m info = 16 + n * mbEntrySize m info) (hfits : info + mbTagSize m info < 2 ^ 64) {i fuel : ℕ}
    (hi : i ≤ n) (hfuel : n < i + fuel) :
    mbMemmapEntries m info fuel (info + 16 + i * mbEntrySize m info) =
      some ((List.range' i (n - i)).map fun j => info + 16 + j * mbEntrySize m info, info + mbTagSize m info) := by
  induction fuel generalizing i with
  | zero => omega
  | succ fuel ih =>
      rw [mbMemmapEntries, mbMemmapIterNext, Nat.mod_eq_of_lt hfits]
      by_cases hlast : i = n
      · subst hlast
        rw [if_pos (by omega), Nat.sub_self, show info + mbTagSize m info = info + 16 + i * mbEntrySize m info by omega]
        rfl
      · have hmul := Nat.mul_le_mul_right (mbEntrySize m info) (show i + 1 ≤ n by omega)
        rw [Nat.succ_mul] at hmul
        have hnext : (info + 16 + i * mbEntrySize m info + mbEntrySize m info) % 2 ^ 64 =
            info + 16 + (i + 1) * mbEntrySize m info := by
          rw [Nat.succ_mul, Nat.mod_eq_of_lt (by omega)]
          omega
        simp only [if_neg (show ¬info + mbTagSize m info ≤ info + 16 + i * mbEntrySize m info by omega),
          if_neg (show info + 16 + i * mbEntrySize m info ≠ 0 by omega), hnext, ih (show i + 1 ≤ n by omega) (by omega)]
        rw [show n - i = n - (i + 1) + 1 by omega, List.range']
        rfl

/-- The parser visits the tags of well-formed boot information in order, reads nothing outside,
and remembers the last tag of each type; and the iterator yields the entries of every memory map
in order, and then `NULL`. -/
theorem boot_info_parsed {m : Mem} {earlyData base : ℕ} {tags : List ℕ} (hearly : earlyData ≠ 0)
    (hbase : m.loadPtr earlyData = base) (hinfo : BootInfo m base tags) :
    (∀ fuel, tags.length ≤ fuel → ∃ p, mbParseBootInfo m fuel earlyData .null = .ok (some (p, tags)) ∧ Sees m base tags p) ∧
      (∀ tag ∈ tags, base ≤ tag ∧ tag + 8 ≤ base + mbTotalSize m base) ∧
      ∀ tag ∈ tags, mbTagType m tag = mbTagMemmap → ∀ n, mbEntrySize m tag ≠ 0 →
        mbTagSize m tag = 16 + n * mbEntrySize m tag →
        mbMemmapIterInit tag = .ok (tag + 16) ∧
          (∀ fuel, n < fuel → mbMemmapEntries m tag fuel (tag + 16) =
            some ((List.range n).map fun i => tag + 16 + i * mbEntrySize m tag, tag + mbTagSize m tag)) ∧
          mbMemmapIterNext m tag (tag + mbTagSize m tag) = (0, tag + mbTagSize m tag) := by
  refine ⟨fun fuel hfuel => mbParseBootInfo_spec hearly hbase hinfo hfuel, fun tag htag => ?_,
    fun tag htag htype n hne hsize => ?_⟩
  · obtain ⟨hlo, hsize, hin, -⟩ := hinfo.tags.mem_bounds htag
    omega
  · obtain ⟨hlo, -, -, hnext⟩ := hinfo.tags.mem_bounds htag
    have hnotEnd : ¬IsEndTag m tag := fun hend => by
      have heq := hend.symm.trans htype
      exact absurd heq (by decide)
    have htotal := hinfo.fits
    have hfits : tag + mbTagSize m tag < 2 ^ 64 := by
      have := hnext hnotEnd
      unfold padded at this
      omega
    refine ⟨?_, fun fuel hfuel => ?_, ?_⟩
    · rw [mbMemmapIterInit, kassert_of_true (by omega), ok_bind, Nat.mod_eq_of_lt (by omega)]
      rfl
    · have hspec := mbMemmapEntries_spec hne hsize hfits (Nat.zero_le n) (show n < 0 + fuel by omega)
      rwa [Nat.zero_mul, Nat.add_zero, Nat.sub_zero, ← List.range_eq_range'] at hspec
    · rw [mbMemmapIterNext, Nat.mod_eq_of_lt hfits, if_pos (le_refl _)]

/-- A pointer to boot information with a memory map of one entry behind it. -/
def memmapBytes : List ℕ :=
  List.replicate 8 0 ++ [16, 0, 0, 0, 0, 0, 0, 0] ++ [56, 0, 0, 0, 0, 0, 0, 0] ++
    [6, 0, 0, 0, 40, 0, 0, 0, 24, 0, 0, 0, 0, 0, 0, 0] ++ List.replicate 24 0 ++ [0, 0, 0, 0, 8, 0, 0, 0]

theorem memmapBytes_info : BootInfo (Mem.ofBytes 0 memmapBytes) 16 [24, 64] where
  aligned := by decide
  fits := by decide
  tags := .cons (by decide) (by decide) (by decide) (.last (by decide) (by decide) (by decide))

theorem boot_info_parsed_memmap :
    (∃ p, mbParseBootInfo (Mem.ofBytes 0 memmapBytes) 2 8 .null = .ok (some (p, [24, 64])) ∧ p.mbMemmapInfo = 24) ∧
      mbMemmapEntries (Mem.ofBytes 0 memmapBytes) 24 2 40 = some ([40], 64) := by
  obtain ⟨hparse, -, hentries⟩ := boot_info_parsed (m := Mem.ofBytes 0 memmapBytes) (show 8 ≠ 0 by decide) (by decide)
    memmapBytes_info
  obtain ⟨p, hcall, hsees⟩ := hparse 2 (by decide)
  obtain ⟨-, hdrain, -⟩ := hentries 24 (by decide) (by decide) 1 (by decide) (by decide)
  refine ⟨⟨p, hcall, hsees.mbMemmapInfo.trans (by decide)⟩, ?_⟩
  have hone := hdrain 2 (by decide)
  rwa [show (List.range 1).map (fun i => 24 + 16 + i * mbEntrySize (Mem.ofBytes 0 memmapBytes) 24) = [40] by decide,
    show 24 + mbTagSize (Mem.ofBytes 0 memmapBytes) 24 = 64 by decide] at hone

end HeavenOS

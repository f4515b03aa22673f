/-
# The tables of the boot code

`early_setup_paging` fills static tables by hand, before there is an allocator: 1 GiB
pages for the direct mapping, and 2 MiB pages for the kernel sections. The tables are
arrays here; where the linker puts them is a parameter, and the walk is that of a memory
which has them there.
-/

import HeavenOS.Mm.VmemMap

namespace HeavenOS

open Lib

/-! ## Layout -/

/-- The kernel sections in physical memory, from `_phys_start_hh` to `_phys_end_kernel_sections`.
An entry of a page table has room for physical addresses of 48 bits. -/
structure Image where
  start : ℕ
  size : ℕ
  start_dvd : twoMb ∣ start
  size_dvd : twoMb ∣ size
  size_pos : 0 < size
  size_le : size ≤ kernelSectionsSize
  phys : start + size ≤ 2 ^ 48

/-- Number of 2 MiB pages. -/
def Image.pages (image : Image) : ℕ := image.size / twoMb

/-- The physical addresses of the static tables. The type of a table has the alignment of a
page. -/
structure EarlyAddrs where
  earlyPml4 : ℕ
  earlyPdpt : ℕ
  directPhysMappingPdpts : ℕ
  higherHalfPdpt : ℕ
  higherHalfPgdirs : ℕ
  pdpts_dvd : pageSize ∣ directPhysMappingPdpts
  pdpts_le : directPhysMappingPdpts + pageSize * 128 ≤ 2 ^ 48
  pdpt_dvd : pageSize ∣ higherHalfPdpt
  pdpt_lt : higherHalfPdpt < 2 ^ 48
  pgdirs_dvd : pageSize ∣ higherHalfPgdirs
  pgdirs_le : higherHalfPgdirs + pageSize * 2 ≤ 2 ^ 48

/-- The tables, an array of 64-bit words each. -/
structure EarlyTables where
  earlyPml4 : ℕ → BitVec 64
  directPhysMappingPdpts : ℕ → ℕ → BitVec 64
  higherHalfPdpt : ℕ → BitVec 64
  higherHalfPgdirs : ℕ → ℕ → BitVec 64

/-! ## The boot code -/

/-- The tables when `early_init` is called: all zero but for the entry that `boot.asm` has
written for its identity mapping. -/
def bootTables (addrs : EarlyAddrs) : EarlyTables where
  earlyPml4 i := if i = 0 then BitVec.ofNat 64 addrs.earlyPdpt ||| ptePresent ||| pteWriteable else 0
  directPhysMappingPdpts _ _ := 0
  higherHalfPdpt _ := 0
  higherHalfPgdirs _ _ := 0

/-- `direct_phys_mapping_pdpts[i].entries[j] = …`, with `count` entries to go. -/
def fillPdpt : (count j physAddr : ℕ) → (ℕ → BitVec 64) → ℕ → BitVec 64
  | 0, _, _, entries => entries
  | count + 1, j, physAddr, entries =>
      fillPdpt count (j + 1) ((physAddr + gb) % 2 ^ 64) (Function.update entries j
        (BitVec.ofNat 64 physAddr ||| ptePageSize ||| ptePresent ||| pteWriteable))

/-- The loop over the tables of the direct mapping, with `count` of them to go. -/
def earlyMapDirect (addrs : EarlyAddrs) : (count i : ℕ) → EarlyTables → EarlyTables
  | 0, _, t => t
  | count + 1, i, t =>
      let physAddr := i * 512 * gb % 2 ^ 64
      let virtAddr := (directMapStart + physAddr) % 2 ^ 64
      let pdpt := fillPdpt 512 0 physAddr (t.directPhysMappingPdpts i)
      let pml4e := BitVec.ofNat 64 (addrs.directPhysMappingPdpts + pageSize * i) ||| ptePresent ||| pteWriteable
      earlyMapDirect addrs count (i + 1)
        { t with
          directPhysMappingPdpts := Function.update t.directPhysMappingPdpts i pdpt
          earlyPml4 := Function.update t.earlyPml4 (tableIndex 3 virtAddr) pml4e }

/-- The loop over the kernel sections; it also gives the last value of `virt_addr_curr`. The
entry of the PDPT is written for the address that comes next. -/
def earlyMapSections (addrs : EarlyAddrs) (virtAddrCurr physAddrCurr physAddrEnd : ℕ) (t : EarlyTables) :
    EarlyTables × ℕ :=
  if physAddrCurr < physAddrEnd then
    let pgdirIdx := subU64 (tableIndex 2 virtAddrCurr) (tableIndex 2 kernelSectionsStart)
    let pde := BitVec.ofNat 64 physAddrCurr ||| ptePageSize ||| ptePresent ||| pteWriteable
    let pgdir := Function.update (t.higherHalfPgdirs pgdirIdx) (tableIndex 1 virtAddrCurr) pde
    let virtAddrNext := (virtAddrCurr + twoMb) % 2 ^ 64
    let pdpe := BitVec.ofNat 64 (addrs.higherHalfPgdirs + pageSize * pgdirIdx) ||| ptePresent ||| pteWriteable
    earlyMapSections addrs virtAddrNext (physAddrCurr + twoMb) physAddrEnd
      { t with
        higherHalfPgdirs := Function.update t.higherHalfPgdirs pgdirIdx pgdir
        higherHalfPdpt := Function.update t.higherHalfPdpt (tableIndex 2 virtAddrNext) pdpe }
  else (t, virtAddrCurr)
  termination_by physAddrEnd - physAddrCurr
  decreasing_by
    unfold twoMb
    omega

def earlySetupPaging (addrs : EarlyAddrs) (physStart physEnd : ℕ) (t : EarlyTables) : EarlyTables :=
  let t := earlyMapDirect addrs (divRoundUp (directMapSize / gb) 512) 0 t
  let (t, virtAddrCurr) := earlyMapSections addrs kernelSectionsStart physStart physEnd t
  { t with
    earlyPml4 := Function.update t.earlyPml4 (tableIndex 3 virtAddrCurr)
      (BitVec.ofNat 64 addrs.higherHalfPdpt ||| ptePresent ||| pteWriteable) }

/-- The rights of the kernel mappings. -/
def kernelRights : Rights := ⟨false, true, false⟩

theorem linkWord_eq (phys : ℕ) :
    BitVec.ofNat 64 phys ||| ptePresent ||| pteWriteable = pteWord phys false kernelRights := by
  simp [pteWord, kernelRights, Rights.pte]

theorem largeWord_eq (phys : ℕ) :
    BitVec.ofNat 64 phys ||| ptePageSize ||| ptePresent ||| pteWriteable = pteWord phys true kernelRights := by
  simp only [pteWord, kernelRights, Rights.pte, if_true, Bool.false_eq_true, if_false]
  ac_rfl

/-! ## The direct mapping -/

theorem fillPdpt_apply {count j physAddr : ℕ} (hphys : physAddr + count * gb ≤ 2 ^ 63) (entries : ℕ → BitVec 64) (i : ℕ) :
    fillPdpt count j physAddr entries i =
      if j ≤ i ∧ i < j + count then pteWord (physAddr + (i - j) * gb) true kernelRights else entries i := by
  induction count generalizing j physAddr entries with
  | zero =>
      rw [fillPdpt, if_neg (by omega)]
  | succ count ih =>
      have hnext : (physAddr + gb) % 2 ^ 64 = physAddr + gb := Nat.mod_eq_of_lt (by unfold gb at *; omega)
      rw [fillPdpt, hnext, ih (by unfold gb at *; omega), largeWord_eq]
      by_cases hi : i = j
      · subst hi
        rw [if_neg (by omega), if_pos (by omega), Function.update_self, Nat.sub_self, Nat.zero_mul, Nat.add_zero]
      · rw [Function.update_of_ne hi]
        by_cases hin : j + 1 ≤ i ∧ i < j + 1 + count
        · have hsteps : physAddr + gb + (i - (j + 1)) * gb = physAddr + (i - j) * gb := by
            rw [show i - j = i - (j + 1) + 1 by omega, Nat.add_mul]
            omega
          rw [if_pos hin, if_pos (by omega), hsteps]
        · rw [if_neg hin, if_neg (by omega)]

/-- What the loop writes: an entry of the PML4 for each table. -/
theorem earlyMapDirect_spec (addrs : EarlyAddrs) {count i : ℕ} (hcount : i + count ≤ 128) (t : EarlyTables) :
    (∀ m, (earlyMapDirect addrs count i t).earlyPml4 m =
      if 273 + i ≤ m ∧ m < 273 + i + count then
        pteWord (addrs.directPhysMappingPdpts + pageSize * (m - 273)) false kernelRights
      else t.earlyPml4 m) ∧
    (∀ n, ∀ j < 512, (earlyMapDirect addrs count i t).directPhysMappingPdpts n j =
      if i ≤ n ∧ n < i + count then pteWord ((n * 512 + j) * gb) true kernelRights
      else t.directPhysMappingPdpts n j) ∧
    (earlyMapDirect addrs count i t).higherHalfPdpt = t.higherHalfPdpt ∧
    (earlyMapDirect addrs count i t).higherHalfPgdirs = t.higherHalfPgdirs := by
  induction count generalizing i t with
  | zero =>
      refine ⟨fun m => ?_, fun n j hj => ?_, rfl, rfl⟩
      · rw [if_neg (by omega)]
        rfl
      · rw [if_neg (by omega)]
        rfl
  | succ count ih =>
      have hphys : i * 512 * gb % 2 ^ 64 = i * 512 * gb := Nat.mod_eq_of_lt (by unfold gb; omega)
      have hindex : tableIndex 3 ((directMapStart + i * 512 * gb) % 2 ^ 64) = 273 + i := by
        rw [tableIndex_eq]
        unfold directMapStart gb
        omega
      rw [earlyMapDirect]
      simp only [hphys, hindex, linkWord_eq]
      obtain ⟨hpml4, hpdpts, hpdpt, hpgdirs⟩ := ih (i := i + 1) (by omega)
        { t with
          directPhysMappingPdpts := Function.update t.directPhysMappingPdpts i
            (fillPdpt 512 0 (i * 512 * gb) (t.directPhysMappingPdpts i))
          earlyPml4 := Function.update t.earlyPml4 (273 + i)
            (pteWord (addrs.directPhysMappingPdpts + pageSize * i) false kernelRights) }
      simp only at hpml4 hpdpts
      refine ⟨fun m => ?_, fun n j hj => ?_, hpdpt, hpgdirs⟩
      · rw [hpml4]
        by_cases hm : m = 273 + i
        · subst hm
          rw [if_neg (by omega), if_pos (by omega), Function.update_self, Nat.add_sub_cancel_left]
        · rw [Function.update_of_ne hm]
          exact if_congr (by omega) rfl rfl
      · rw [hpdpts n j hj]
        by_cases hn : n = i
        · subst hn
          rw [if_neg (by omega), if_pos (by omega), Function.update_self, fillPdpt_apply (by unfold gb; omega),
            if_pos (by omega), Nat.sub_zero, Nat.add_mul]
        · rw [Function.update_of_ne hn]
          exact if_congr (by omega) rfl rfl

/-! ## The kernel sections -/

/-- The directory that entry `j` of the PDPT leads to after `k` pages. An entry is written when
the first page after it comes, and corrected by the page after that. -/
def sectionsPdpe (k j : ℕ) : Option ℕ :=
  if j = 510 ∧ 1 ≤ k then some 0
  else if j = 511 ∧ k = 512 then some 0
  else if j = 511 ∧ 512 < k then some 1
  else if j = 0 ∧ k = 1024 then some 1
  else none

theorem sectionsPdpe_lt {k j g : ℕ} (h : sectionsPdpe k j = some g) : g < 2 := by
  unfold sectionsPdpe at h
  split_ifs at h <;> · obtain rfl := Option.some.inj h; decide

/-- The tables of the kernel sections after `k` pages. -/
structure EarlyTables.Sections (addrs : EarlyAddrs) (image : Image) (k : ℕ) (t : EarlyTables) : Prop where
  pdpt : ∀ j < 512, t.higherHalfPdpt j =
    match sectionsPdpe k j with
    | some g => pteWord (addrs.higherHalfPgdirs + pageSize * g) false kernelRights
    | none => 0
  pgdirs : ∀ g < 2, ∀ d < 512, t.higherHalfPgdirs g d =
    if g * 512 + d < k then pteWord (image.start + (g * 512 + d) * twoMb) true kernelRights else 0

theorem sections_indices {k : ℕ} (hk : k < 1024) :
    subU64 (tableIndex 2 (kernelSectionsStart + k * twoMb)) (tableIndex 2 kernelSectionsStart) = k / 512 ∧
      tableIndex 1 (kernelSectionsStart + k * twoMb) = k % 512 := by
  rw [tableIndex_eq, tableIndex_eq, tableIndex_eq]
  unfold kernelSectionsStart twoMb subU64
  omega

theorem sections_next (k : ℕ) :
    tableIndex 2 ((kernelSectionsStart + k * twoMb + twoMb) % 2 ^ 64) = (510 + (k + 1) / 512) % 512 := by
  rw [tableIndex_eq]
  unfold kernelSectionsStart twoMb
  omega

/-- The entry written behind page `k` is the one for the page that comes next. -/
theorem sectionsPdpe_succ {k : ℕ} (hk : k < 1024) (j : ℕ) :
    sectionsPdpe (k + 1) j = if j = (510 + (k + 1) / 512) % 512 then some (k / 512) else sectionsPdpe k j := by
  unfold sectionsPdpe
  split_ifs <;> first | rfl | omega | exact congrArg some (by omega)

/-- One round of the loop. -/
theorem EarlyTables.Sections.next {addrs : EarlyAddrs} {image : Image} {k : ℕ} {t : EarlyTables}
    (h : t.Sections addrs image k) (hk : k < 1024) :
    EarlyTables.Sections addrs image (k + 1)
      { t with
        higherHalfPgdirs := Function.update t.higherHalfPgdirs (k / 512)
          (Function.update (t.higherHalfPgdirs (k / 512)) (k % 512)
            (pteWord (image.start + k * twoMb) true kernelRights))
        higherHalfPdpt := Function.update t.higherHalfPdpt ((510 + (k + 1) / 512) % 512)
          (pteWord (addrs.higherHalfPgdirs + pageSize * (k / 512)) false kernelRights) } where
  pdpt := by
    intro j hj
    simp only [sectionsPdpe_succ hk, Function.update_apply]
    split_ifs
    · rfl
    · exact h.pdpt j hj
  pgdirs := by
    intro g hg d hd
    have hdiv := Nat.div_add_mod k 512
    have hmod := Nat.mod_lt k (show 0 < 512 by decide)
    by_cases hgk : g = k / 512
    · subst hgk
      simp only [Function.update_self]
      by_cases hdk : d = k % 512
      · subst hdk
        rw [Function.update_self, if_pos (by omega), show k / 512 * 512 + k % 512 = k by omega]
      · rw [Function.update_of_ne hdk, h.pgdirs _ hg d hd]
        exact if_congr (by omega) rfl rfl
    · simp only [Function.update_of_ne hgk]
      rw [h.pgdirs g hg d hd]
      exact if_congr (by omega) rfl rfl

/-- The whole loop. -/
theorem earlyMapSections_spec {addrs : EarlyAddrs} {image : Image} {k n : ℕ} (hkn : k ≤ n) (hn : n ≤ 1024)
    {t : EarlyTables} (h : t.Sections addrs image k) :
    ∃ t', earlyMapSections addrs ((kernelSectionsStart + k * twoMb) % 2 ^ 64) (image.start + k * twoMb)
        (image.start + n * twoMb) t = (t', (kernelSectionsStart + n * twoMb) % 2 ^ 64) ∧
      t'.Sections addrs image n ∧ t'.earlyPml4 = t.earlyPml4 ∧
      t'.directPhysMappingPdpts = t.directPhysMappingPdpts := by
  induction hleft : n - k generalizing k t with
  | zero =>
      obtain rfl : k = n := by omega
      refine ⟨t, ?_, h, rfl, rfl⟩
      rw [earlyMapSections, if_neg (lt_irrefl _)]
  | succ left ih =>
      have hk : k < 1024 := by omega
      have hvirt : (kernelSectionsStart + k * twoMb) % 2 ^ 64 = kernelSectionsStart + k * twoMb :=
        Nat.mod_eq_of_lt (by unfold kernelSectionsStart twoMb; omega)
      obtain ⟨hdir, hpage⟩ := sections_indices hk
      obtain ⟨t', hloop, hsections, hpml4, hpdpts⟩ := ih (k := k + 1) (by omega) (h.next hk) (by omega)
      refine ⟨t', ?_, hsections, hpml4, hpdpts⟩
      rw [earlyMapSections, if_pos (by unfold twoMb; omega), hvirt]
      simp only [hdir, hpage, sections_next, linkWord_eq, largeWord_eq]
      rw [← hloop, Nat.add_mul, Nat.one_mul, ← Nat.add_assoc, ← Nat.add_assoc]

/-! ## All tables -/

theorem Image.size_eq (image : Image) : image.size = image.pages * twoMb :=
  (Nat.div_mul_cancel image.size_dvd).symm

theorem Image.pages_bounds (image : Image) : 1 ≤ image.pages ∧ image.pages ≤ 1024 := by
  have hsize := image.size_eq
  have hpos := image.size_pos
  have hle := image.size_le
  unfold kernelSectionsSize at hle
  unfold twoMb at hsize
  omega

/-- What the walk of an address in the higher half meets in the tables. -/
structure EarlyTables.Final (addrs : EarlyAddrs) (image : Image) (t : EarlyTables) : Prop where
  pml4 : ∀ m, 256 ≤ m → m < 512 → t.earlyPml4 m =
    if 273 ≤ m ∧ m < 401 then pteWord (addrs.directPhysMappingPdpts + pageSize * (m - 273)) false kernelRights
    else if m = 511 ∧ image.pages < 1024 then pteWord addrs.higherHalfPdpt false kernelRights
    else 0
  pdpts : ∀ n < 128, ∀ j < 512, t.directPhysMappingPdpts n j = pteWord ((n * 512 + j) * gb) true kernelRights
  sections : t.Sections addrs image image.pages

theorem earlySetupPaging_final (addrs : EarlyAddrs) (image : Image) :
    (earlySetupPaging addrs image.start (image.start + image.size) (bootTables addrs)).Final addrs image := by
  obtain ⟨hone, hmax⟩ := image.pages_bounds
  obtain ⟨hpml4, hpdpts, hpdpt, hpgdirs⟩ :=
    earlyMapDirect_spec addrs (i := 0) (le_refl (0 + 128)) (bootTables addrs)
  have hstart : (earlyMapDirect addrs 128 0 (bootTables addrs)).Sections addrs image 0 := by
    refine ⟨fun j hj => ?_, fun g hg d hd => ?_⟩
    · rw [hpdpt, show sectionsPdpe 0 j = none by simp [sectionsPdpe]]
      rfl
    · rw [hpgdirs, if_neg (by omega)]
      rfl
  obtain ⟨t, hloop, hsections, hpml4', hpdpts'⟩ := earlyMapSections_spec (Nat.zero_le _) hmax hstart
  rw [Nat.zero_mul, Nat.add_zero, Nat.add_zero, ← image.size_eq,
    show kernelSectionsStart % 2 ^ 64 = kernelSectionsStart by decide] at hloop
  have hcount : divRoundUp (directMapSize / gb) 512 = 128 := by decide
  rw [earlySetupPaging, hcount]
  simp only [hloop, linkWord_eq]
  have hindex : tableIndex 3 ((kernelSectionsStart + image.size) % 2 ^ 64) = if image.pages < 1024 then 511 else 0 := by
    rw [tableIndex_eq, image.size_eq]
    unfold kernelSectionsStart twoMb
    split_ifs <;> omega
  refine ⟨fun m hlo hhi => ?_, fun n hn j hj => ?_, ⟨hsections.pdpt, hsections.pgdirs⟩⟩
  · have hzero : (bootTables addrs).earlyPml4 m = 0 := if_neg (by omega)
    simp only [Function.update_apply, hindex, hpml4', hpml4, hzero]
    by_cases hpages : image.pages < 1024
    · simp only [hpages, if_true, and_true]
      split_ifs <;> first | omega | rfl
    · simp only [hpages, if_false, and_false]
      split_ifs <;> first | omega | rfl
  · simp only [hpdpts']
    rw [hpdpts n j hj, if_pos (by omega)]

/-! ## The walk -/

section Walk

variable {m : Mem} {addr level tbl phys : ℕ} {user write : Bool} {r : Rights}

theorem walkFrom_of_zero (hentry : entry m tbl (tableIndex level addr) = 0) :
    walkFrom m addr level tbl user write = none := by
  cases level with
  | zero =>
      rw [walkFrom]
      simp only [hentry]
      rw [if_pos (by simp)]
  | succ level =>
      rw [walkFrom]
      simp only [hentry]
      rw [if_pos (by simp)]

theorem walkFrom_of_link (hentry : entry m tbl (tableIndex (level + 1) addr) = pteWord phys false r)
    (hdvd : pageSize ∣ phys) (hlt : phys < 2 ^ 48) :
    walkFrom m addr (level + 1) tbl user write =
      walkFrom m addr level (physToVirt phys) (user && r.user) (write && r.write) := by
  have hsize := (pteWord_and_pageSize hdvd hlt false r).mpr rfl
  rw [walkFrom]
  simp only [hentry]
  rw [if_neg (pteWord_and_present _ _ _), if_neg (fun hlarge => hlarge.1 hsize), pteAddr_pteWord hdvd hlt,
    decide_flag (pteWord_and_user hdvd hlt _ _), decide_flag (pteWord_and_write hdvd hlt _ _)]

theorem walkFrom_of_large (hlevel : level < 2)
    (hentry : entry m tbl (tableIndex (level + 1) addr) = pteWord phys true r)
    (hdvd : 2 ^ (12 + 9 * (level + 1)) ∣ phys) (hlt : phys < 2 ^ 48) :
    walkFrom m addr (level + 1) tbl user write =
      some ⟨phys + addr % 2 ^ (12 + 9 * (level + 1)), level + 1, ⟨user && r.user, write && r.write, r.alloc⟩⟩ := by
  have hpage : pageSize ∣ phys := (Nat.pow_dvd_pow 2 (Nat.le_add_right 12 _)).trans hdvd
  have hsize : pteWord phys true r &&& ptePageSize ≠ 0 := fun hzero => by
    cases (pteWord_and_pageSize hpage hlt true r).mp hzero
  rw [walkFrom]
  simp only [hentry]
  rw [if_neg (pteWord_and_present _ _ _), if_pos ⟨hsize, hlevel⟩, pteAddr_pteWord hpage hlt,
    Nat.div_mul_cancel hdvd, decide_flag (pteWord_and_user hpage hlt _ _),
    decide_flag (pteWord_and_write hpage hlt _ _), decide_flag (pteWord_and_alloc hpage hlt _ _)]

end Walk

/-- A memory, seen through the direct mapping, that has the tables at their addresses. -/
structure EarlyTables.InMemory (addrs : EarlyAddrs) (t : EarlyTables) (m : Mem) : Prop where
  pml4 : ∀ i < 512, entry m (physToVirt addrs.earlyPml4) i = t.earlyPml4 i
  pdpts : ∀ n < 128, ∀ i < 512,
    entry m (physToVirt (addrs.directPhysMappingPdpts + pageSize * n)) i = t.directPhysMappingPdpts n i
  pdpt : ∀ i < 512, entry m (physToVirt addrs.higherHalfPdpt) i = t.higherHalfPdpt i
  pgdirs : ∀ g < 2, ∀ i < 512,
    entry m (physToVirt (addrs.higherHalfPgdirs + pageSize * g)) i = t.higherHalfPgdirs g i

section EarlyWalk

variable {addrs : EarlyAddrs} {image : Image} {t : EarlyTables} {m : Mem} {v : ℕ} (hfinal : t.Final addrs image)
  (hmem : t.InMemory addrs m)

include hfinal hmem

theorem early_walk_direct (hlo : directMapStart ≤ v) (hhi : v < directMapStart + directMapSize) :
    walk m (physToVirt addrs.earlyPml4) v = some ⟨v - directMapStart, 2, kernelRights⟩ := by
  have hindex : tableIndex 3 v = 273 + (v - directMapStart) / 2 ^ 39 := by
    rw [tableIndex_eq]
    unfold directMapStart directMapSize at *
    omega
  have hn : (v - directMapStart) / 2 ^ 39 < 128 := by
    unfold directMapSize at hhi
    omega
  have hlink := (hmem.pml4 _ (tableIndex_lt 3 v)).trans (hfinal.pml4 _ (by omega) (tableIndex_lt 3 v))
  rw [hindex, if_pos (by omega), Nat.add_sub_cancel_left, ← hindex] at hlink
  have hlarge := (hmem.pdpts _ hn _ (tableIndex_lt 2 v)).trans (hfinal.pdpts _ hn _ (tableIndex_lt 2 v))
  have hphys : ((v - directMapStart) / 2 ^ 39 * 512 + tableIndex 2 v) * gb + v % 2 ^ (12 + 9 * 2) = v - directMapStart := by
    rw [tableIndex_eq]
    unfold directMapStart gb at *
    omega
  have hdvd : pageSize ∣ addrs.directPhysMappingPdpts + pageSize * ((v - directMapStart) / 2 ^ 39) :=
    Nat.dvd_add addrs.pdpts_dvd (Nat.dvd_mul_right _ _)
  have hlt : addrs.directPhysMappingPdpts + pageSize * ((v - directMapStart) / 2 ^ 39) < 2 ^ 48 := by
    have := addrs.pdpts_le
    unfold pageSize at *
    omega
  rw [walk, walkFrom_of_link hlink hdvd hlt,
    walkFrom_of_large (by decide) hlarge (Nat.dvd_mul_left _ _) (by unfold directMapSize at hhi; omega), hphys]
  rfl

/-- The walk of an address of the kernel sections. -/
theorem early_walk_sections (hlo : kernelSectionsStart ≤ v) (hhi : v < 2 ^ 64) (hpages : image.pages < 1024) :
    walk m (physToVirt addrs.earlyPml4) v =
      match sectionsPdpe image.pages (tableIndex 2 v) with
      | none => none
      | some g =>
          if g * 512 + tableIndex 1 v < image.pages then
            some ⟨image.start + (g * 512 + tableIndex 1 v) * twoMb + v % twoMb, 1, kernelRights⟩
          else none := by
  have hindex : tableIndex 3 v = 511 := by
    rw [tableIndex_eq]
    unfold kernelSectionsStart at hlo
    omega
  have hlink := (hmem.pml4 _ (tableIndex_lt 3 v)).trans (hfinal.pml4 _ (by omega) (tableIndex_lt 3 v))
  rw [if_neg (by omega), if_pos ⟨hindex, hpages⟩] at hlink
  have hpdpe := (hmem.pdpt _ (tableIndex_lt 2 v)).trans (hfinal.sections.pdpt _ (tableIndex_lt 2 v))
  rw [walk, walkFrom_of_link hlink addrs.pdpt_dvd addrs.pdpt_lt]
  cases hfirst : sectionsPdpe image.pages (tableIndex 2 v) with
  | none =>
      rw [hfirst] at hpdpe
      exact walkFrom_of_zero hpdpe
  | some g =>
      rw [hfirst] at hpdpe
      have hg : g < 2 := sectionsPdpe_lt hfirst
      have hpde := (hmem.pgdirs g hg _ (tableIndex_lt 1 v)).trans (hfinal.sections.pgdirs g hg _ (tableIndex_lt 1 v))
      have hdvd : pageSize ∣ addrs.higherHalfPgdirs + pageSize * g :=
        Nat.dvd_add addrs.pgdirs_dvd (Nat.dvd_mul_right _ _)
      have hlt : addrs.higherHalfPgdirs + pageSize * g < 2 ^ 48 := by
        have := addrs.pgdirs_le
        unfold pageSize at *
        omega
      rw [walkFrom_of_link hpdpe hdvd hlt]
      by_cases hpage : g * 512 + tableIndex 1 v < image.pages
      · have hframe : image.start + (g * 512 + tableIndex 1 v) * twoMb < 2 ^ 48 := by
          have hphys := image.phys
          rw [image.size_eq] at hphys
          unfold twoMb at *
          omega
        have hdvd : twoMb ∣ image.start + (g * 512 + tableIndex 1 v) * twoMb :=
          Nat.dvd_add image.start_dvd (Nat.dvd_mul_left _ _)
        rw [if_pos hpage] at hpde
        rw [walkFrom_of_large (by decide) hpde hdvd hframe]
        simp only [if_pos hpage]
        rfl
      · rw [if_neg hpage] at hpde
        rw [walkFrom_of_zero hpde]
        simp only [if_neg hpage]

/-- Where the sections do not end with a table, exactly their addresses are mapped. -/
theorem early_walk_sections_apart (hlo : kernelSectionsStart ≤ v) (hhi : v < 2 ^ 64) (hpages : image.pages < 1024)
    (hapart : image.pages ≠ 512) :
    walk m (physToVirt addrs.earlyPml4) v =
      if v < kernelSectionsStart + image.size then some ⟨image.start + (v - kernelSectionsStart), 1, kernelRights⟩
      else none := by
  have hone := image.pages_bounds.1
  have hpage : tableIndex 1 v = (v - kernelSectionsStart) / twoMb % 512 := by
    rw [tableIndex_eq]
    unfold kernelSectionsStart twoMb at *
    omega
  rw [early_walk_sections hfinal hmem hlo hhi hpages, image.size_eq, hpage]
  by_cases hfirst : v < kernelSectionsStart + 2 ^ 30
  · have hdir : tableIndex 2 v = 510 := by
      rw [tableIndex_eq]
      unfold kernelSectionsStart at *
      omega
    rw [show sectionsPdpe image.pages (tableIndex 2 v) = some 0 by rw [hdir, sectionsPdpe, if_pos ⟨rfl, hone⟩]]
    simp only
    refine if_congr ?_ (congrArg (fun phys => some (Translation.mk phys 1 kernelRights)) ?_) rfl
    · unfold kernelSectionsStart twoMb at *
      omega
    · unfold kernelSectionsStart twoMb at *
      omega
  · have hdir : tableIndex 2 v = 511 := by
      rw [tableIndex_eq]
      unfold kernelSectionsStart at *
      omega
    by_cases hmany : 512 < image.pages
    · rw [show sectionsPdpe image.pages (tableIndex 2 v) = some 1 by
        rw [hdir, sectionsPdpe, if_neg (by omega), if_neg (by omega), if_pos ⟨rfl, hmany⟩]]
      simp only
      refine if_congr ?_ (congrArg (fun phys => some (Translation.mk phys 1 kernelRights)) ?_) rfl
      · unfold kernelSectionsStart twoMb at *
        omega
      · unfold kernelSectionsStart twoMb at *
        omega
    · rw [show sectionsPdpe image.pages (tableIndex 2 v) = none by
        rw [hdir, sectionsPdpe, if_neg (by omega), if_neg (by omega), if_neg (by omega), if_neg (by omega)]]
      simp only
      rw [if_neg]
      unfold twoMb
      omega

/-- The walk of an address of the higher half that is in neither mapping. -/
theorem early_walk_none (hhigh : kernelHigherHalfStart ≤ v) (hhi : v < 2 ^ 64)
    (hdirect : v < directMapStart ∨ directMapStart + directMapSize ≤ v)
    (hsections : v < kernelSectionsStart ∨ image.pages = 1024) : walk m (physToVirt addrs.earlyPml4) v = none := by
  have hindex : 256 ≤ tableIndex 3 v ∧ ¬(273 ≤ tableIndex 3 v ∧ tableIndex 3 v < 401) := by
    rw [tableIndex_eq]
    unfold kernelHigherHalfStart directMapStart directMapSize at *
    omega
  have hlink := (hmem.pml4 _ (tableIndex_lt 3 v)).trans (hfinal.pml4 _ hindex.1 (tableIndex_lt 3 v))
  rw [if_neg hindex.2] at hlink
  by_cases hlast : tableIndex 3 v = 511 ∧ image.pages < 1024
  · -- below the kernel sections the PDPT is empty
    rw [if_pos hlast] at hlink
    have hlow : tableIndex 2 v < 510 := by
      rw [tableIndex_eq] at hlast ⊢
      unfold kernelSectionsStart at hsections
      unfold kernelHigherHalfStart at hhigh
      omega
    have hpdpe := (hmem.pdpt _ (tableIndex_lt 2 v)).trans (hfinal.sections.pdpt _ (tableIndex_lt 2 v))
    rw [show sectionsPdpe image.pages (tableIndex 2 v) = none by
      unfold sectionsPdpe
      split_ifs <;> first | omega | rfl] at hpdpe
    rw [walk, walkFrom_of_link hlink addrs.pdpt_dvd addrs.pdpt_lt, walkFrom_of_zero hpdpe]
  · rw [if_neg hlast] at hlink
    rw [walk, walkFrom_of_zero hlink]

end EarlyWalk

end HeavenOS

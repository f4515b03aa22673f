/-
# Page faults without memory

`vmem_handle_pf` takes a frame for the page, and up to three more for missing tables. It
should panic where one of them is `NULL`. The test of the first comes after the conversion to
a physical address, which is not zero for `NULL`: the handler then maps a frame that
`frame_alloc` never returned, unless a table is missing, too.
-/

import HeavenOS.Mm.VmemClone

namespace HeavenOS

open Lib PageTable

/-! ## Frames needed -/

/-- The call of `frame_alloc` number `i` from now on returns a frame. -/
def HasFrame (frames : List (Option ℕ)) (i : ℕ) : Prop := ∃ f, frames[i]? = some (some f)

/-- The tables missing on the way to the page of an address, from the table `tbl` of the given
level on. -/
def missingTables (m : Mem) (addr : ℕ) : (level tbl : ℕ) → ℕ
  | 0, _ => 0
  | level + 1, tbl =>
      let pte := entry m tbl (tableIndex (level + 1) addr)
      if pte &&& ptePresent = 0 then level + 1 else missingTables m addr level (physToVirt (pteAddr pte))

theorem missingTables_le (m : Mem) (addr level tbl : ℕ) : missingTables m addr level tbl ≤ level := by
  induction level generalizing tbl with
  | zero => exact le_refl 0
  | succ level ih =>
      rw [missingTables]
      split_ifs
      · exact le_refl _
      · exact (ih _).trans (Nat.le_succ level)

namespace PageTable

variable {pt : PageTable} {pml4 : ℕ} {claimed : Set Path} {k : Kernel} {addr : ℕ}

/-- A call of `frame_alloc` takes one answer, and does nothing to the tree. -/
theorem Valid.frameAlloc (h : pt.Valid pml4 claimed k) :
    pt.Valid pml4 claimed (frameAlloc k).2 ∧ ((frameAlloc k).1 = 0 ↔ ¬HasFrame k.frames 0) ∧
      (HeavenOS.frameAlloc k).2.frames = k.frames.drop 1 := by
  cases hframes : k.frames with
  | nil =>
      have hnull : HeavenOS.frameAlloc k = (0, k) := by rw [HeavenOS.frameAlloc, hframes]
      rw [hnull]
      refine ⟨h, ⟨fun _ => ?_, fun _ => rfl⟩, hframes⟩
      rintro ⟨f, hf⟩
      cases hf
  | cons answer frames =>
      cases answer with
      | none =>
          have hnull : HeavenOS.frameAlloc k = (0, { k with frames := frames }) := by rw [HeavenOS.frameAlloc, hframes]
          rw [hnull]
          refine ⟨(h.dropNull hframes).1, ⟨fun _ => ?_, fun _ => rfl⟩, rfl⟩
          rintro ⟨f, hf⟩
          cases hf
      | some f =>
          obtain ⟨halloc, hf, -, hvalid⟩ := h.frameAlloc_some hframes
          refine ⟨hvalid, ⟨fun hzero => ?_, fun hno => absurd ⟨f, rfl⟩ hno⟩, by rw [halloc]; rfl⟩
          rw [halloc] at hzero
          exact absurd hzero hf.ne_zero

/-- An address without a page can be claimed. -/
theorem Valid.claim (h : pt.Valid pml4 claimed k) (hunmapped : walk k.mem pml4 addr = none) :
    ∃ claimed', pt.Valid pml4 claimed' k ∧ pathTo addr 4 ∈ claimed' := by
  have hnone (n : ℕ) : pt.leaf (pathTo addr n) = none := by
    by_contra hsome
    obtain ⟨l, hl⟩ := Option.ne_none_iff_exists'.mp hsome
    rw [walk_of_leaf h.wf h.rep hl] at hunmapped
    cases hunmapped
  have hlen : (pathTo addr 4).length = 4 := pathTo_length addr 4
  have hleaf : ∀ q, (pt.leaf q).isSome → ¬pathTo addr 4 <:+ q ∧ ¬q <:+ pathTo addr 4 := by
    intro q hq
    constructor
    · intro hsuf
      have hle := (h.wf.claimed_length (h.wf.leaf_claimed hq)).2
      rw [← hsuf.eq_of_length_le (by omega), hnone 4] at hq
      cases hq
    · intro hsuf
      obtain ⟨n, -, rfl⟩ := suffix_pathTo_iff.mp hsuf
      rw [hnone n] at hq
      cases hq
  have htable : pt.table (pathTo addr 4) = none := by
    by_contra hsome
    rcases h.wf.table_claimed (Option.isSome_iff_ne_none.mpr hsome) with hnil | ⟨c, hc, hsuf, hne⟩
    · rw [hnil] at hlen
      cases hlen
    · exact hne (hsuf.eq_of_length_le (by have := (h.wf.claimed_length hc).2; omega))
  have hwf := h.wf.release (by omega) (fun i hi => pathTo_lt hi) hleaf htable
  exact ⟨_, ⟨hwf, h.rep, h.fresh⟩, Set.mem_insert _ _⟩

/-- Behind the calls that make the tables down to `q`, the entry of a missing table below is
still empty. -/
theorem Valid.entry_ensureTo (h : pt.Valid pml4 claimed k) {i : ℕ} {q c : Path} (hc : c ∈ claimed) (hsuf : i :: q <:+ c)
    (hne : i :: q ≠ c) (hnone : pt.table (i :: q) = none) (r : Rights) :
    (ensureTo pml4 r.pte q k).1 = 0 ∨
      entry (ensureTo pml4 r.pte q k).2.mem (ensureTo pml4 r.pte q k).1 i = 0 := by
  have hi : i < 512 := h.wf.claimed_lt hc i (hsuf.subset List.mem_cons_self)
  have hnoleaf := h.wf.leaf_of_suffix hc hsuf hne
  cases q with
  | nil =>
      right
      obtain ⟨rq, hroot⟩ := h.wf.root
      rw [ensureTo, h.rep _ _ _ hroot i hi, WellFormed.word_of_none hnone hnoleaf]
  | cons j q =>
      -- the path itself can be claimed instead, and then the way to it ends before it
      have hleaf : ∀ p, (pt.leaf p).isSome → ¬i :: j :: q <:+ p ∧ ¬p <:+ i :: j :: q := by
        intro p hp
        obtain ⟨l, hl⟩ := Option.isSome_iff_exists.mp hp
        constructor
        · intro hbelow
          by_cases heq : i :: j :: q = p
          · rw [← heq, hnoleaf] at hp
            cases hp
          · have := h.wf.table_of_suffix_leaf hl hbelow heq
            rw [hnone] at this
            cases this
        · intro habove
          have hpc : p <:+ c := habove.trans hsuf
          rw [h.wf.leaf_of_suffix hc hpc (fun heq => hne (hsuf.eq_of_length_le (heq ▸ habove.length_le)))] at hp
          cases hp
      have hlen : 2 ≤ (i :: j :: q).length ∧ (i :: j :: q).length ≤ 4 := by
        have hle := hsuf.length_le
        have hmax := (h.wf.claimed_length hc).2
        simp only [List.length_cons] at hle ⊢
        omega
      have hwf := h.wf.release hlen (fun x hx => h.wf.claimed_lt hc x (hsuf.subset hx)) hleaf hnone
      have hvalid : pt.Valid pml4 (insert (i :: j :: q) (apartFrom (i :: j :: q) claimed)) k := ⟨hwf, h.rep, h.fresh⟩
      obtain ⟨_, -, -, -, hres⟩ := ensureTo_new hvalid (Set.mem_insert _ _) hnoleaf r
      exact hres.imp_right fun hres => hres.2.2

/-- The answer that an empty entry waits for decides about its table. -/
theorem Valid.ensure_empty (h : pt.Valid pml4 claimed k) {t i : ℕ} (hentry : entry k.mem t i = 0) (flags : BitVec 64) :
    ((vmemEnsureNextTable k t i flags).1 = 0 ↔ ¬HasFrame k.frames 0) ∧
      (vmemEnsureNextTable k t i flags).2.frames = k.frames.drop 1 := by
  obtain ⟨-, hzero, hframes⟩ := h.frameAlloc
  have habsent : ¬entry k.mem t i &&& ptePresent ≠ 0 := by
    rw [hentry]
    simp
  unfold vmemEnsureNextTable
  simp only [if_neg habsent]
  split_ifs with hnull
  · exact ⟨⟨fun _ => hzero.mp hnull, fun _ => rfl⟩, hframes⟩
  · exact ⟨hzero, hframes⟩

/-- Where the tables of an address end. -/
theorem WellFormed.exists_last (h : pt.WellFormed pml4 claimed) (addr : ℕ) :
    ∃ n ≤ 3, (pt.table (pathTo addr n)).isSome ∧ ∀ n', n < n' → n' ≤ 3 → pt.table (pathTo addr n') = none := by
  have hroot : (pt.table (pathTo addr 0)).isSome := by
    obtain ⟨r, hroot⟩ := h.root
    rw [pathTo, hroot]
    rfl
  have hfind := Nat.findGreatest_spec (P := fun n => (pt.table (pathTo addr n)).isSome) (Nat.zero_le 3) hroot
  refine ⟨_, Nat.findGreatest_le 3, hfind, fun n' hlt hle => ?_⟩
  exact Option.not_isSome_iff_eq_none.mp (Nat.findGreatest_is_greatest hlt hle)

theorem mapAt_eq_zero_iff {i : ℕ} {q : Path} {l : Leaf} :
    (mapAt pml4 (i :: q) l k).1 = 0 ↔ (ensureTo pml4 l.rights.pte q k).1 ≠ 0 := by
  rw [mapAt]
  simp only
  split_ifs with hzero
  · exact ⟨fun heq => absurd heq (show -enomem ≠ 0 by decide), fun hne => absurd hzero hne⟩
  · exact ⟨fun _ => hzero, fun _ => rfl⟩

section Claimed

variable (h : pt.Valid pml4 claimed k) (hc : pathTo addr 4 ∈ claimed)

include h hc

theorem missingTables_eq {last level t : ℕ} {r : Rights} (hlast : last ≤ 3) (hsome : (pt.table (pathTo addr last)).isSome)
    (hnone : ∀ n, last < n → n ≤ 3 → pt.table (pathTo addr n) = none) (hlevel : level ≤ 3)
    (ht : pt.table (pathTo addr (3 - level)) = some (t, r)) : missingTables k.mem addr level t = 3 - last := by
  have hle {n : ℕ} (hn : n ≤ 3) (htable : (pt.table (pathTo addr n)).isSome) : n ≤ last := by
    by_contra hlt
    rw [hnone n (by omega) hn] at htable
    cases htable
  induction level generalizing t r with
  | zero =>
      have := hle (le_refl 3) (by rw [show (3 : ℕ) = 3 - 0 from rfl, ht]; rfl)
      rw [missingTables]
      omega
  | succ level ih =>
      have hentry := h.rep _ t r ht _ (tableIndex_lt (level + 1) addr)
      have hpath : tableIndex (level + 1) addr :: pathTo addr (3 - (level + 1)) = pathTo addr (3 - level) := by
        rw [show 3 - level = 3 - (level + 1) + 1 by omega, pathTo, show 3 - (3 - (level + 1)) = level + 1 by omega]
      have hhere := hle (show 3 - (level + 1) ≤ 3 by omega) (by rw [ht]; rfl)
      rw [hpath] at hentry
      rw [missingTables]
      simp only [hentry]
      cases hnext : pt.table (pathTo addr (3 - level)) with
      | none =>
          have hleaf := h.wf.leaf_of_suffix (q := pathTo addr (3 - level)) hc (suffix_pathTo_iff.mpr ⟨_, by omega, rfl⟩)
            fun heq => by have := congrArg List.length heq; simp at this; omega
          have hbefore : last ≤ 3 - (level + 1) := by
            by_contra hgt
            have := h.wf.table_suffix hsome (p := pathTo addr (3 - level)) (suffix_pathTo_iff.mpr ⟨_, by omega, rfl⟩)
            rw [hnext] at this
            cases this
          rw [WellFormed.word_of_none hnext hleaf, if_pos (by simp)]
          omega
      | some next =>
          obtain ⟨t', r'⟩ := next
          obtain ⟨hpresent, -, haddr, -, -⟩ := table_word_reads h.wf hnext
          rw [if_neg hpresent, haddr]
          exact ih (by omega) hnext

/-- The way down to a missing table takes one frame for every table that is missing. -/
theorem ensureTo_needs {last : ℕ} (hsome : (pt.table (pathTo addr last)).isSome)
    (hnone : ∀ n, last < n → n ≤ 3 → pt.table (pathTo addr n) = none) (r : Rights) {j : ℕ} (hj : last + j ≤ 3) :
    ((ensureTo pml4 r.pte (pathTo addr (last + j)) k).1 = 0 ↔ ∃ i < j, ¬HasFrame k.frames i) ∧
      ((ensureTo pml4 r.pte (pathTo addr (last + j)) k).1 ≠ 0 →
        (ensureTo pml4 r.pte (pathTo addr (last + j)) k).2.frames = k.frames.drop j) := by
  have hne {n : ℕ} (hn : n ≤ 3) : pathTo addr n ≠ pathTo addr 4 := fun heq => by
    have := congrArg List.length heq
    simp at this
    omega
  have hsuf {n : ℕ} (hn : n ≤ 3) : pathTo addr n <:+ pathTo addr 4 := suffix_pathTo_iff.mpr ⟨n, by omega, rfl⟩
  induction j with
  | zero =>
      obtain ⟨⟨t, rt⟩, ht⟩ := Option.isSome_iff_exists.mp hsome
      obtain ⟨hfst, hframes⟩ := ensureTo_of_table h hc (hsuf hj) (hne hj) ht r
      have hnz := (h.wf.isFrame ht).ne_zero
      rw [hfst]
      refine ⟨⟨fun hzero => absurd hzero hnz, ?_⟩, fun _ => hframes⟩
      rintro ⟨i, hi, -⟩
      exact absurd hi (Nat.not_lt_zero i)
  | succ j ih =>
      obtain ⟨hzero, hframes⟩ := ih (by omega)
      have hmissing := hnone (last + (j + 1)) (by omega) hj
      have hpath : pathTo addr (last + (j + 1)) = tableIndex (3 - (last + j)) addr :: pathTo addr (last + j) := rfl
      obtain ⟨_, hvalid, -⟩ := ensureTo_spec h hc (hsuf (show last + j ≤ 3 by omega)) (hne (by omega)) r
      have hentry := h.entry_ensureTo hc (hpath ▸ hsuf hj) (hpath ▸ hne hj) (hpath ▸ hmissing) r
      rw [hpath, ensureTo]
      simp only
      generalize ensureTo pml4 r.pte (pathTo addr (last + j)) k = way at *
      by_cases hway : way.1 = 0
      · rw [if_pos hway]
        obtain ⟨i, hi, hno⟩ := hzero.mp hway
        exact ⟨⟨fun _ => ⟨i, by omega, hno⟩, fun _ => rfl⟩, fun h => absurd rfl h⟩
      · rw [if_neg hway]
        obtain ⟨hnext, hrest⟩ := hvalid.ensure_empty (hentry.resolve_left hway) r.pte
        have hshift : HasFrame way.2.frames 0 ↔ HasFrame k.frames j := by
          unfold HasFrame
          rw [hframes hway, List.getElem?_drop, Nat.add_zero]
        rw [hnext, hshift, hrest, hframes hway, List.drop_drop]
        refine ⟨⟨fun hno => ⟨j, Nat.lt_succ_self j, hno⟩, ?_⟩, fun _ => rfl⟩
        rintro ⟨i, hi, hno⟩
        rcases Nat.lt_succ_iff_lt_or_eq.mp hi with hlt | rfl
        · exact absurd (hzero.mpr ⟨i, hlt, hno⟩) hway
        · exact hno

end Claimed

end PageTable

/-! ## The mapping call of the handler -/

section Answer

variable {f addr : ℕ} (hf : f = 0 ∨ IsFrame f)

include hf

theorem virtToPhys_answer : 4096 ∣ virtToPhys f ∧ virtToPhys f < 2 ^ 48 ∧ physToVirt (virtToPhys f) = f := by
  rcases hf with rfl | hframe
  · exact ⟨by decide, by decide, by decide⟩
  · exact ⟨hframe.dvd_virtToPhys, hframe.virtToPhys_lt, hframe.physToVirt_virtToPhys⟩

/-- The test for `NULL` behind the conversion never fires. -/
theorem virtToPhys_answer_ne_zero : virtToPhys f ≠ 0 := by
  rcases hf with rfl | hframe
  · decide
  · have := hframe.2.1
    rw [hframe.virtToPhys_eq]
    omega

theorem faultCall_legal_answer (haddr : Canonical addr) (flags : BitVec 64) : (faultCall addr f flags).Legal :=
  ⟨faultCall_aligned haddr, (virtToPhys_answer hf).1, (virtToPhys_answer hf).2.1⟩

theorem vmemHandlePf_eq {vm : Vmem} {k : Kernel} {area : VmemArea} (hanswer : (frameAlloc k).1 = f)
    (harea : vmemIsMapped vm addr = some area) :
    vmemHandlePf vm addr k = ((faultCall addr f (area.flags ||| vmemAlloc)).run vm (frameAlloc k).2 >>=
      fun out => if out.1 < 0 then .error "Can't map page: %i" else .ok (true, out.2)) := by
  have hnz := virtToPhys_answer_ne_zero hf
  subst hanswer
  unfold vmemHandlePf
  rw [harea]
  simp only [if_neg hnz]
  rfl

end Answer

/-- `frame_alloc` answers `NULL` or a frame, and neither is an answer to come. -/
theorem frameAlloc_answer {pt : PageTable} {pml4 : ℕ} {claimed : Set Path} {k : Kernel}
    (h : pt.Valid pml4 claimed k) :
    ((frameAlloc k).1 = 0 ∨ IsFrame (frameAlloc k).1) ∧ some (frameAlloc k).1 ∉ (frameAlloc k).2.frames := by
  obtain ⟨hvalid, hzero, -⟩ := h.frameAlloc
  by_cases hframe : HasFrame k.frames 0
  · obtain ⟨f, hf⟩ := hframe
    obtain ⟨frames, hframes⟩ : ∃ frames, k.frames = some f :: frames := by
      cases hcase : k.frames with
      | nil => rw [hcase] at hf; cases hf
      | cons answer frames => rw [hcase] at hf; exact ⟨frames, by rw [Option.some.inj hf]⟩
    obtain ⟨halloc, hf, hnew, -⟩ := h.frameAlloc_some hframes
    rw [halloc]
    exact ⟨Or.inr hf, hnew⟩
  · rw [hzero.mpr hframe]
    exact ⟨Or.inl rfl, fun hmem => (hvalid.fresh.2 0 hmem).1.ne_zero rfl⟩

section Fault

variable {s : Space} {pt : PageTable} {claimed : Set Path} {addr : ℕ} (h : SpaceInv s pt claimed)
  (haddr : Canonical addr)

include h haddr

/-- The mapping call at an address without a page. It returns 0 where there is a frame for
every table that is missing, whatever the answer for the page was. -/
theorem SpaceInv.faultCall_run (hunmapped : walk s.k.mem s.vm.pml4 addr = none) (flags : BitVec 64) :
    ∃ res k' pt' claimed', (faultCall addr (frameAlloc s.k).1 flags).run s.vm (frameAlloc s.k).2 = .ok (res, k') ∧
      pt'.Valid s.vm.pml4 claimed' k' ∧ Grows pt (frameAlloc s.k).2 pt' k' ∧
      (res = 0 ∧ pt'.leaf = Function.update pt.leaf (pathTo addr 4)
          (some ⟨virtToPhys (frameAlloc s.k).1, rightsOf flags⟩) ∨ res = -enomem ∧ pt'.leaf = pt.leaf) ∧
      (res = 0 ↔ ∀ i < missingTables s.k.mem addr 3 s.vm.pml4, HasFrame s.k.frames (i + 1)) := by
  obtain ⟨claimed', hvalid, hc⟩ := h.valid.claim hunmapped
  obtain ⟨hvalid1, -, hframes⟩ := hvalid.frameAlloc
  have hlegal := faultCall_legal_answer (frameAlloc_answer h.valid).1 haddr flags
  have hpath := faultCall_path haddr (frameAlloc s.k).1 flags
  have hnone : pt.leaf (pathTo addr 4) = none := by
    by_contra hsome
    obtain ⟨l, hl⟩ := Option.ne_none_iff_exists'.mp hsome
    rw [walk_of_leaf hvalid.wf hvalid.rep hl] at hunmapped
    cases hunmapped
  obtain ⟨res, k', pt', hrun, hvalid', hgrows, hres, -⟩ :=
    MapCall.run_claimed hvalid1 hlegal (hpath ▸ hc) (hpath ▸ hnone)
  refine ⟨res, k', pt', claimed', hrun, hvalid', hgrows, hpath ▸ hres, ?_⟩
  -- what the call returns depends on the tables down to the last one only
  obtain ⟨r, hroot⟩ := h.valid.wf.root
  obtain ⟨last, hlast, hsome, hends⟩ := hvalid.wf.exists_last addr
  have hmissing := missingTables_eq hvalid hc hlast hsome hends (le_refl 3) hroot
  have hcons : pathTo addr 4 = tableIndex 0 addr :: pathTo addr 3 := rfl
  obtain ⟨_, -, -, -, hempty⟩ := ensureTo_new hvalid1 (hcons ▸ hc) (hcons ▸ hnone) (rightsOf flags)
  obtain ⟨hneeds, -⟩ := ensureTo_needs hvalid1 hc hsome hends (rightsOf flags) (Nat.add_sub_of_le hlast).le
  rw [Nat.add_sub_of_le hlast] at hneeds
  have hmapAt : (faultCall addr (frameAlloc s.k).1 flags).run s.vm (frameAlloc s.k).2 =
      .ok (mapAt s.vm.pml4 (faultCall addr (frameAlloc s.k).1 flags).path
        (faultCall addr (frameAlloc s.k).1 flags).leaf (frameAlloc s.k).2) := by
    obtain ⟨hindex, -⟩ := List.cons.inj ((MapCall.path_eq_cons _).symm.trans hpath)
    refine MapCall.run_eq_mapAt (h.valid.wf.isFrame hroot).ne_zero hlegal ?_
    rw [hpath, hindex]
    exact hempty.imp_right fun hway => hway.2.2
  have hres0 : res = 0 ↔ (ensureTo s.vm.pml4 (rightsOf flags).pte (pathTo addr 3) (frameAlloc s.k).2).1 ≠ 0 := by
    rw [hpath, hcons] at hmapAt
    have hfst : res = _ := congrArg Prod.fst (Except.ok.inj (hrun.symm.trans hmapAt))
    rw [hfst]
    exact mapAt_eq_zero_iff
  have hshift (i : ℕ) : HasFrame (frameAlloc s.k).2.frames i ↔ HasFrame s.k.frames (i + 1) := by
    unfold HasFrame
    rw [hframes, List.getElem?_drop, Nat.add_comm]
  rw [hres0, Ne, hneeds, hmissing, not_exists]
  simp only [not_and, not_not, hshift]

/-- The mapping call at an address with a page of 4 KiB stops. -/
theorem SpaceInv.faultCall_stops {tr : Translation} (hwalk : walk s.k.mem s.vm.pml4 addr = some tr)
    (hlevel : tr.level = 0) (flags : BitVec 64) :
    ∃ text, (faultCall addr (frameAlloc s.k).1 flags).run s.vm (frameAlloc s.k).2 = .error text := by
  obtain ⟨hvalid1, -, -⟩ := h.valid.frameAlloc
  obtain ⟨n, hleaf, htr, hn⟩ := exists_leaf_of_walk h.valid.wf h.valid.rep hwalk
  obtain rfl : n = 4 := by omega
  have hpath := faultCall_path haddr (frameAlloc s.k).1 flags
  have hlegal := faultCall_legal_answer (frameAlloc_answer h.valid).1 haddr flags
  refine (MapCall.refused_of_blocked hvalid1 hlegal (h.valid.wf.leaf_claimed hleaf) ?_ (Or.inr ⟨?_, ?_⟩)).stops
  · rw [hpath]
  · rwa [hpath]
  · exact fun heq => by cases heq

end Fault

/-! ## Reachable address spaces -/

/-- The pages in the areas have 4 KiB. -/
def Space.SmallInAreas (s : Space) : Prop :=
  ∀ addr tr, (vmemIsMapped s.vm addr).isSome → walk s.k.mem s.vm.pml4 addr = some tr → tr.level = 0

/-- How an address space comes about: it is new, it grows by the steps of its life with large
pages kept apart from the areas, a page fault is handled whatever `frame_alloc` answers, or it
is the copy of another one. -/
inductive Paged : Space → Prop
  | init {vm : Vmem} {k k' : Kernel} (hfresh : FreshFrames k.frames) (hinit : vmemInit k = (0, vm, k')) :
      Paged ⟨vm, k', [vm.pml4]⟩
  | step {s t : Space} {label : SpaceLabel} (hs : Paged s) (hstep : SpaceStep s label t)
      (hsmall : t.SmallInAreas) : Paged t
  | fault {s : Space} {addr : ℕ} {handled : Bool} {k : Kernel} (hs : Paged s) (haddr : Canonical addr)
      (hunmapped : walk s.k.mem s.vm.pml4 addr = none)
      (hcall : vmemHandlePf s.vm addr s.k = .ok (handled, k)) :
      Paged ⟨s.vm, k, taken s.k k ++ s.allocated⟩
  | clone {s : Space} {dst : Vmem} {k : Kernel} (hs : Paged s)
      (hcall : vmemClone s.vm s.k = .ok (0, dst, k)) : Paged ⟨dst, k, taken s.k k⟩

/-- On the tree. -/
theorem smallInAreas_iff {s : Space} {pt : PageTable} {claimed : Set Path} (h : SpaceInv s pt claimed) :
    s.SmallInAreas ↔
      ∀ addr n, (vmemIsMapped s.vm addr).isSome → (pt.leaf (pathTo addr n)).isSome → n = 4 := by
  constructor
  · intro hsmall addr n harea hleaf
    obtain ⟨l, hl⟩ := Option.isSome_iff_exists.mp hleaf
    have hlen := (h.valid.wf.claimed_length (h.valid.wf.leaf_claimed hleaf)).2
    have hlevel := hsmall addr _ harea (walk_of_leaf h.valid.wf h.valid.rep hl)
    rw [pathTo_length] at hlen
    simp only at hlevel
    omega
  · intro hsmall addr tr harea hwalk
    obtain ⟨n, hleaf, hlevel, -⟩ := exists_leaf_of_walk h.valid.wf h.valid.rep hwalk
    rw [hlevel, hsmall addr n harea hleaf]

theorem vmemIsMapped_isSome_iff {vm : Vmem} {addr : ℕ} :
    (vmemIsMapped vm addr).isSome ↔ ∃ area ∈ vm.areas, area.Holds addr := by
  unfold vmemIsMapped
  simp

theorem Paged.inv {s : Space} (hs : Paged s) :
    ∃ pt claimed, SpaceInv s pt claimed ∧ s.SmallInAreas := by
  induction hs with
  | init hfresh hinit =>
      obtain ⟨-, hareas, -⟩ := vmemInit_spec hfresh hinit
      refine ⟨_, _, SpaceInv.init hfresh hinit, fun addr tr harea => ?_⟩
      rw [vmemIsMapped, hareas] at harea
      cases harea
  | step _ hstep hsmall ih =>
      obtain ⟨pt, claimed, h, -⟩ := ih
      obtain ⟨pt', claimed', h', -⟩ := hstep.inv h
      exact ⟨pt', claimed', h', hsmall⟩
  | @fault s addr handled k _ haddr hunmapped hcall ih =>
      obtain ⟨pt, claimed, h, hsmall⟩ := ih
      obtain ⟨hanswer, hnew⟩ := frameAlloc_answer h.valid
      cases harea : vmemIsMapped s.vm addr with
      | none =>
          rw [vmemHandlePf, harea] at hcall
          obtain ⟨-, rfl⟩ := Prod.mk.inj (Except.ok.inj hcall)
          exact ⟨pt, claimed, ⟨h.valid, h.small, h.unused⟩, hsmall⟩
      | some area =>
          obtain ⟨res, k', pt', claimed', hrun, hvalid, hgrows, hres, -⟩ :=
            h.faultCall_run haddr hunmapped (area.flags ||| vmemAlloc)
          rw [vmemHandlePf_eq hanswer rfl harea, hrun, ok_bind] at hcall
          simp only at hcall
          split_ifs at hcall with hneg
          obtain ⟨-, rfl⟩ := Prod.mk.inj (Except.ok.inj hcall)
          have hleaf := (hres.resolve_right fun hres => hneg (by rw [hres.1]; decide)).2
          have hphys := (virtToPhys_answer hanswer).2.2
          obtain ⟨used, hused, -⟩ := hgrows.used
          have hinv : SpaceInv ⟨s.vm, k', taken s.k k' ++ s.allocated⟩ pt' claimed' := by
            refine h.setLeaf _ hvalid (fun f hf => ?_) hleaf (fun _ => pathTo_length _ _) fun _ hmem => hnew ?_
            · refine List.mem_of_mem_drop (i := 1) ?_
              rw [← h.valid.frameAlloc.2.2, hused]
              exact List.mem_append_right _ hf
            · rw [hused, ← hphys]
              exact List.mem_append_right _ hmem
          refine ⟨pt', claimed', hinv, (smallInAreas_iff hinv).mpr fun addr' n harea' hsome => ?_⟩
          by_contra hne
          rw [hleaf, Function.update_of_ne fun heq => hne (by simpa using congrArg List.length heq)] at hsome
          exact hne ((smallInAreas_iff h).mp hsmall addr' n harea' hsome)
  | @clone s dst k _ hcall ih =>
      obtain ⟨pt, claimed, h, hsmall⟩ := ih
      obtain ⟨res, dst', k', hcall', hcopy⟩ := vmemClone_spec h
      obtain ⟨rfl, rfl, rfl⟩ : 0 = res ∧ dst = dst' ∧ k = k' := by
        obtain ⟨hres, hrest⟩ := Prod.mk.inj (Except.ok.inj (hcall.symm.trans hcall'))
        exact ⟨hres, Prod.mk.inj hrest⟩
      obtain ⟨pt', hcopying⟩ := hcopy rfl
      refine ⟨pt', _, hcopying.inv, (smallInAreas_iff hcopying.inv).mpr fun addr n harea hsome => ?_⟩
      obtain ⟨l, l', hl, -⟩ := hcopying.copied _ (hcopying.inv.valid.wf.leaf_claimed hsome)
      refine (smallInAreas_iff h).mp hsmall addr n ?_ (by rw [hl]; rfl)
      obtain ⟨_, -, hareas⟩ := vmemClone_areas hcall
      rw [vmemIsMapped_isSome_iff] at harea ⊢
      simpa [hareas rfl] using harea

/-! ## What a page fault is to do -/

/-- A page fault outside of the areas is not handled and changes nothing. In an area, at an
address without a page, it maps the page of the address to the frame that `frame_alloc` just
returned, or panics where a frame is missing. It never installs an entry for another frame. -/
structure FaultOk (s : Space) (addr : ℕ) : Prop where
  outside : vmemIsMapped s.vm addr = none → vmemHandlePf s.vm addr s.k = .ok (false, s.k)
  maps : ∀ area, vmemIsMapped s.vm addr = some area → walk s.k.mem s.vm.pml4 addr = none →
    (∀ i ≤ missingTables s.k.mem addr 3 s.vm.pml4, HasFrame s.k.frames i) →
    ∃ f k', s.k.frames.head? = some (some f) ∧ vmemHandlePf s.vm addr s.k = .ok (true, k') ∧
      ∀ addr', Canonical addr' → walk k'.mem s.vm.pml4 addr' =
        if roundDown addr' pageSize = roundDown addr pageSize then
          some ⟨virtToPhys f + addr' % pageSize, 0,
            ⟨decide (area.flags &&& vmemUser ≠ 0), decide (area.flags &&& vmemWrite ≠ 0), true⟩⟩
        else walk s.k.mem s.vm.pml4 addr'
  panics : (vmemIsMapped s.vm addr).isSome → walk s.k.mem s.vm.pml4 addr = none →
    (∃ i ≤ missingTables s.k.mem addr 3 s.vm.pml4, ¬HasFrame s.k.frames i) →
    ∃ text, vmemHandlePf s.vm addr s.k = .error text
  real : ∀ handled k', vmemHandlePf s.vm addr s.k = .ok (handled, k') →
    (∀ depth t, IsTable k'.mem s.vm.pml4 depth t → IsTable s.k.mem s.vm.pml4 depth t ∨ t ∈ taken s.k k') ∧
    ∀ addr' tr, Canonical addr' → walk k'.mem s.vm.pml4 addr' = some tr →
      walk s.k.mem s.vm.pml4 addr' = some tr ∨ ∃ f ∈ taken s.k k', InFrame f (physToVirt tr.phys)

theorem rightsOf_or_vmemAlloc (flags : BitVec 64) : rightsOf (flags ||| vmemAlloc) =
    ⟨decide (flags &&& vmemUser ≠ 0), decide (flags &&& vmemWrite ≠ 0), true⟩ := by
  have hbit {k : ℕ} (hk : k < 64) (hne : k ≠ 2) :
      (flags ||| vmemAlloc) &&& (1#64 <<< k) = 0 ↔ flags &&& (1#64 <<< k) = 0 := by
    rw [and_bit_eq_zero_iff _ hk, and_bit_eq_zero_iff _ hk, BitVec.getLsbD_or, vmemAlloc,
      getLsbD_one_shiftLeft hk]
    simp [hne]
  have halloc := rightsOf_alloc flags
  unfold rightsOf at halloc ⊢
  simp only [Rights.mk.injEq, decide_eq_decide, ne_eq]
  exact ⟨not_congr (hbit (by decide) (by decide)), not_congr (hbit (by decide) (by decide)), halloc⟩

theorem pathTo_eq_iff {addr addr' : ℕ} (haddr : Canonical addr) (haddr' : Canonical addr') :
    pathTo addr' 4 = pathTo addr 4 ↔ roundDown addr' pageSize = roundDown addr pageSize := by
  have hcovers := PageSpan.covers_iff (@faultCall_aligned addr 0 0 haddr) haddr'
  rw [faultCall_path haddr] at hcovers
  refine hcovers.symm.trans ?_
  show roundDown addr pageSize ≤ addr' ∧ addr' < roundDown addr pageSize + 2 ^ (12 + 9 * 0) ↔ _
  have hdvd : pageSize ∣ roundDown addr pageSize := dvd_roundDown addr pageSize
  have hdvd' : pageSize ∣ roundDown addr' pageSize := dvd_roundDown addr' pageSize
  have hle' := roundDown_le addr' pageSize
  have hlt' := lt_roundDown_add addr' (show 0 < pageSize by decide)
  generalize roundDown addr pageSize = base at *
  generalize roundDown addr' pageSize = base' at *
  unfold pageSize at *
  omega

section Mapped

variable {s : Space} {pt pt' : PageTable} {claimed claimed' : Set Path} {addr : ℕ} {k' : Kernel}
  (h : SpaceInv s pt claimed) (hvalid : pt'.Valid s.vm.pml4 claimed' k')

include h hvalid

/-- The translations with one more page. -/
theorem SpaceInv.walk_setLeaf {l : Leaf} (hleaf : pt'.leaf = Function.update pt.leaf (pathTo addr 4) (some l))
    (haddr : Canonical addr) {addr' : ℕ} (haddr' : Canonical addr') :
    walk k'.mem s.vm.pml4 addr' =
      if roundDown addr' pageSize = roundDown addr pageSize then some ⟨l.frame + addr' % pageSize, 0, l.rights⟩
      else walk s.k.mem s.vm.pml4 addr' := by
  split_ifs with hpage
  · have hpath := (pathTo_eq_iff haddr haddr').mpr hpage
    exact walk_of_leaf hvalid.wf hvalid.rep (n := 4) (by rw [hleaf, hpath, Function.update_self])
  · refine walk_congr_at h.valid hvalid fun n hn => ?_
    rw [hleaf, Function.update_of_ne fun heq => hpage ((pathTo_eq_iff haddr haddr').mp ?_)]
    obtain rfl : n = 4 := by simpa using congrArg List.length heq
    exact heq

/-- The tables after a mapping call are those of before and frames taken since. -/
theorem SpaceInv.isTable_grows (hgrows : Grows pt (frameAlloc s.k).2 pt' k') {depth t : ℕ}
    (htable : IsTable k'.mem s.vm.pml4 depth t) :
    IsTable s.k.mem s.vm.pml4 depth t ∨ t ∈ taken (frameAlloc s.k).2 k' := by
  obtain ⟨used, hused, hold, -⟩ := hgrows.used
  obtain ⟨q, r, hq, rfl⟩ := htable.exists_path hvalid.wf hvalid.rep
  rcases hold hq with ⟨r', hq'⟩ | hmem
  · exact Or.inl (isTable_of_table h.valid.wf h.valid.rep hq')
  · refine Or.inr ?_
    rw [taken_eq hused]
    exact List.mem_filterMap.mpr ⟨_, hmem, rfl⟩

end Mapped

section Cases

variable {s : Space} {addr : ℕ} (hs : Paged s) (haddr : Canonical addr)

theorem faultOk_of_outside (harea : vmemIsMapped s.vm addr = none) : FaultOk s addr := by
  have hcall : vmemHandlePf s.vm addr s.k = .ok (false, s.k) := by
    rw [vmemHandlePf, harea]
    rfl
  refine ⟨fun _ => hcall, fun _ h => ?_, fun h => ?_, fun handled k' hrun => ?_⟩
  · rw [harea] at h
    cases h
  · rw [harea] at h
    cases h
  · obtain ⟨-, rfl⟩ := Prod.mk.inj (Except.ok.inj (hcall.symm.trans hrun))
    exact ⟨fun _ _ => Or.inl, fun _ _ _ => Or.inl⟩

/-- A fault in an area that ends in a panic. -/
theorem faultOk_of_panic {area : VmemArea} {text : Panic} (harea : vmemIsMapped s.vm addr = some area)
    (hcall : vmemHandlePf s.vm addr s.k = .error text)
    (hno : walk s.k.mem s.vm.pml4 addr = none →
      ∃ i ≤ missingTables s.k.mem addr 3 s.vm.pml4, ¬HasFrame s.k.frames i) : FaultOk s addr := by
  refine ⟨fun h => ?_, fun _ _ hunmapped hall => ?_, fun _ _ _ => ⟨text, hcall⟩, fun handled k' hrun => ?_⟩
  · rw [harea] at h
    cases h
  · obtain ⟨i, hi, hnone⟩ := hno hunmapped
    exact absurd (hall i hi) hnone
  · rw [hcall] at hrun
    cases hrun

include hs haddr

/-- A page is not mapped twice. -/
theorem faultOk_of_page {area : VmemArea} {tr : Translation} (harea : vmemIsMapped s.vm addr = some area)
    (hwalk : walk s.k.mem s.vm.pml4 addr = some tr) : FaultOk s addr := by
  obtain ⟨pt, claimed, h, hsmall⟩ := hs.inv
  have hlevel := hsmall addr tr (by rw [harea]; rfl) hwalk
  obtain ⟨text, hstop⟩ := h.faultCall_stops haddr hwalk hlevel (area.flags ||| vmemAlloc)
  have hcall := vmemHandlePf_eq (frameAlloc_answer h.valid).1 rfl harea
  rw [hstop] at hcall
  exact faultOk_of_panic harea hcall fun hnone => by rw [hwalk] at hnone; cases hnone

variable (hunmapped : walk s.k.mem s.vm.pml4 addr = none)

include hunmapped

theorem faultOk_of_missing {area : VmemArea} (harea : vmemIsMapped s.vm addr = some area)
    (hmissing : ∃ i < missingTables s.k.mem addr 3 s.vm.pml4, ¬HasFrame s.k.frames (i + 1)) :
    FaultOk s addr := by
  obtain ⟨pt, claimed, h, -⟩ := hs.inv
  obtain ⟨i, hi, hno⟩ := hmissing
  obtain ⟨res, k', _, _, hrun, -, -, hres, hzero⟩ := h.faultCall_run haddr hunmapped (area.flags ||| vmemAlloc)
  have henomem : res = -enomem := by
    rcases hres with ⟨hres, -⟩ | ⟨hres, -⟩
    · exact absurd (hzero.mp hres i hi) hno
    · exact hres
  have hcall := vmemHandlePf_eq (frameAlloc_answer h.valid).1 rfl harea
  rw [hrun, ok_bind, henomem, if_pos (show -enomem < 0 by decide)] at hcall
  exact faultOk_of_panic harea hcall fun _ => ⟨i + 1, hi, hno⟩

/-- Where no answer is `NULL` the page is mapped. -/
theorem faultOk_of_frames {area : VmemArea} (harea : vmemIsMapped s.vm addr = some area)
    (hall : ∀ i ≤ missingTables s.k.mem addr 3 s.vm.pml4, HasFrame s.k.frames i) : FaultOk s addr := by
  obtain ⟨pt, claimed, h, -⟩ := hs.inv
  obtain ⟨-, hnull, hframes⟩ := h.valid.frameAlloc
  obtain ⟨res, k', pt', claimed', hrun, hvalid, hgrows, hres, hzero⟩ :=
    h.faultCall_run haddr hunmapped (area.flags ||| vmemAlloc)
  have hres0 : res = 0 := hzero.mpr fun i hi => hall (i + 1) hi
  have hleaf := (hres.resolve_right fun hres => absurd (hres0.symm.trans hres.1) (by decide)).2
  have hcall := vmemHandlePf_eq (frameAlloc_answer h.valid).1 rfl harea
  rw [hrun, ok_bind, hres0, if_neg (show ¬(0 : ℤ) < 0 by decide)] at hcall
  have hf := (frameAlloc_answer h.valid).1.resolve_left fun hzero => hnull.mp hzero (hall 0 (Nat.zero_le _))
  have hwalk {addr' : ℕ} (haddr' : Canonical addr') := h.walk_setLeaf hvalid hleaf haddr haddr'
  rw [rightsOf_or_vmemAlloc] at hwalk
  -- the frame is the first answer
  obtain ⟨f, hfirst⟩ := hall 0 (Nat.zero_le _)
  obtain ⟨frames, hcons⟩ : ∃ frames, s.k.frames = some f :: frames := by
    cases hcase : s.k.frames with
    | nil => rw [hcase] at hfirst; cases hfirst
    | cons answer frames => rw [hcase] at hfirst; exact ⟨frames, by rw [Option.some.inj hfirst]⟩
  have hanswer : (frameAlloc s.k).1 = f := by rw [(h.valid.frameAlloc_some hcons).1]
  rw [hanswer] at hf hwalk
  obtain ⟨used, hused, -⟩ := hgrows.used
  have htaken : taken s.k k' = f :: taken (frameAlloc s.k).2 k' := by
    rw [taken_eq hused, taken_eq (show s.k.frames = (some f :: used) ++ k'.frames by
      rw [hframes, hcons] at hused
      rw [hcons, List.cons_append, ← hused]
      rfl)]
    rfl
  refine ⟨fun h => ?_, fun area' h _ _ => ⟨f, k', by rw [hcons]; rfl, hcall, ?_⟩, fun _ _ hno => ?_,
    fun handled k'' hrun' => ?_⟩
  · rw [harea] at h
    cases h
  · obtain rfl := Option.some.inj (harea.symm.trans h)
    exact fun addr' haddr' => hwalk haddr'
  · obtain ⟨i, hi, hno⟩ := hno
    exact absurd (hall i hi) hno
  · obtain ⟨-, rfl⟩ := Prod.mk.inj (Except.ok.inj (hcall.symm.trans hrun'))
    rw [htaken]
    refine ⟨fun depth t ht => (h.isTable_grows hvalid hgrows ht).imp_right (List.mem_cons_of_mem _),
      fun addr' tr haddr' htr => ?_⟩
    rw [hwalk haddr'] at htr
    split_ifs at htr
    · refine Or.inr ⟨f, List.mem_cons_self, ?_⟩
      obtain rfl := Option.some.inj htr
      have hoff : addr' % pageSize < 4096 := Nat.mod_lt _ (by decide)
      rw [physToVirt_add hf.dvd_virtToPhys hoff, hf.physToVirt_virtToPhys]
      exact ⟨Nat.le_add_right _ _, Nat.add_lt_add_left hoff f⟩
    · exact Or.inl htr

/-- Where only the data frame is `NULL`, the handler maps what `NULL` is converted to. -/
theorem fault_null {area : VmemArea} (harea : vmemIsMapped s.vm addr = some area) (hnull : ¬HasFrame s.k.frames 0)
    (htables : ∀ i < missingTables s.k.mem addr 3 s.vm.pml4, HasFrame s.k.frames (i + 1)) :
    ∃ k', vmemHandlePf s.vm addr s.k = .ok (true, k') ∧ walk k'.mem s.vm.pml4 addr =
      some ⟨0x778000000000 + addr % pageSize, 0, rightsOf (area.flags ||| vmemAlloc)⟩ := by
  obtain ⟨pt, claimed, h, -⟩ := hs.inv
  obtain ⟨res, k', pt', claimed', hrun, hvalid, -, hres, hzero⟩ :=
    h.faultCall_run haddr hunmapped (area.flags ||| vmemAlloc)
  have hres0 := hzero.mpr htables
  have hleaf := (hres.resolve_right fun hres => absurd (hres0.symm.trans hres.1) (by decide)).2
  have hcall := vmemHandlePf_eq (frameAlloc_answer h.valid).1 rfl harea
  rw [hrun, ok_bind, hres0, if_neg (show ¬(0 : ℤ) < 0 by decide)] at hcall
  rw [h.valid.frameAlloc.2.1.mpr hnull] at hleaf
  exact ⟨k', hcall, (h.walk_setLeaf hvalid hleaf haddr haddr).trans (if_pos rfl)⟩

theorem not_faultOk (harea : (vmemIsMapped s.vm addr).isSome) (hnull : ¬HasFrame s.k.frames 0)
    (htables : ∀ i < missingTables s.k.mem addr 3 s.vm.pml4, HasFrame s.k.frames (i + 1)) : ¬FaultOk s addr := by
  intro hok
  obtain ⟨text, hpanic⟩ := hok.panics harea hunmapped ⟨0, Nat.zero_le _, hnull⟩
  obtain ⟨area, harea⟩ := Option.isSome_iff_exists.mp harea
  obtain ⟨k', hcall, -⟩ := fault_null hs haddr hunmapped harea hnull htables
  rw [hcall] at hpanic
  cases hpanic

end Cases

/-- The handler does what it is to do exactly where the address is in no area or has a page,
where there is a frame for the page, and where one for a missing table is missing. -/
theorem fault_ok_iff {s : Space} {addr : ℕ} (hs : Paged s) (haddr : Canonical addr) :
    FaultOk s addr ↔ vmemIsMapped s.vm addr = none ∨ (walk s.k.mem s.vm.pml4 addr).isSome ∨
      HasFrame s.k.frames 0 ∨ ∃ i < missingTables s.k.mem addr 3 s.vm.pml4, ¬HasFrame s.k.frames (i + 1) := by
  cases harea : vmemIsMapped s.vm addr with
  | none => exact ⟨fun _ => Or.inl rfl, fun _ => faultOk_of_outside harea⟩
  | some area =>
      cases hwalk : walk s.k.mem s.vm.pml4 addr with
      | some tr => exact ⟨fun _ => Or.inr (Or.inl rfl), fun _ => faultOk_of_page hs haddr harea hwalk⟩
      | none =>
          by_cases htables : ∀ i < missingTables s.k.mem addr 3 s.vm.pml4, HasFrame s.k.frames (i + 1)
          · by_cases hnull : HasFrame s.k.frames 0
            · refine ⟨fun _ => Or.inr (Or.inr (Or.inl hnull)), fun _ => faultOk_of_frames hs haddr hwalk harea ?_⟩
              intro i hi
              cases i with
              | zero => exact hnull
              | succ i => exact htables i hi
            · refine iff_of_false (not_faultOk hs haddr hwalk (by rw [harea]; rfl) hnull htables) ?_
              rintro (h | h | h | ⟨i, hi, h⟩)
              · cases h
              · cases h
              · exact hnull h
              · exact h (htables i hi)
          · have hmissing : ∃ i < missingTables s.k.mem addr 3 s.vm.pml4, ¬HasFrame s.k.frames (i + 1) := by
              simpa using htables
            exact ⟨fun _ => Or.inr (Or.inr (Or.inr hmissing)),
              fun _ => faultOk_of_missing hs haddr hwalk harea hmissing⟩

/-! The area for the data of a program, and the first faults in it. -/

def dataArea : VmemArea := ⟨0x70000000, 4, vmemUser ||| vmemWrite⟩

theorem exists_dataArea {rest : List (Option ℕ)} (hfresh : FreshFrames (some 0xffff888000100000 :: rest)) :
    ∃ s, Paged s ∧ s.k.frames = rest ∧ s.vm.areas = [dataArea] ∧ ∀ addr, walk s.k.mem s.vm.pml4 addr = none := by
  let k0 : Kernel := ⟨fun _ => 0, some 0xffff888000100000 :: rest, [true, true], [], fun _ _ => 0, []⟩
  have hinit : vmemInit k0 = (0, ⟨[], 0xffff888000100000⟩, (vmemInit k0).2.2) := rfl
  have hcall : vmemAllocPages ⟨[], 0xffff888000100000⟩ 0x70000000 4 (vmemUser ||| vmemWrite) (vmemInit k0).2.2 =
      .ok (0, ⟨[dataArea], 0xffff888000100000⟩, { (vmemInit k0).2.2 with objects := [] }) := rfl
  obtain ⟨hvalid, -⟩ := vmemInit_spec hfresh hinit
  have hnone (addr : ℕ) : walk (vmemInit k0).2.2.mem 0xffff888000100000 addr = none :=
    walk_of_no_leaf hvalid.wf hvalid.rep fun _ _ => rfl
  refine ⟨_, (Paged.init hfresh hinit).step (.allocPages hcall) fun addr tr _ hwalk => ?_, rfl, rfl, hnone⟩
  rw [hnone addr] at hwalk
  cases hwalk

theorem vmemIsMapped_dataArea {vm : Vmem} (hareas : vm.areas = [dataArea]) :
    vmemIsMapped vm 0x70000000 = some dataArea ∧ vmemIsMapped vm 0x70001000 = some dataArea := by
  unfold vmemIsMapped
  rw [hareas]
  exact ⟨rfl, rfl⟩

theorem fault_ok_frame : ∃ s, Paged s ∧ (vmemIsMapped s.vm 0x70000000).isSome ∧
    walk s.k.mem s.vm.pml4 0x70000000 = none ∧ FaultOk s 0x70000000 := by
  obtain ⟨s, hs, hframes, hareas, hunmapped⟩ := exists_dataArea fourFrames_fresh
  have harea := (vmemIsMapped_dataArea hareas).1
  refine ⟨s, hs, by rw [harea]; rfl, hunmapped _, (fault_ok_iff hs (by decide)).mpr ?_⟩
  refine Or.inr (Or.inr (Or.inl ⟨0xffff888000101000, ?_⟩))
  rw [hframes]
  rfl

theorem dataFrames_fresh : FreshFrames (fourFrames ++ [some 0xffff888000104000]) := by
  refine ⟨by decide, fun f hf => ?_⟩
  rcases List.mem_append.mp hf with hf | hf
  · exact fourFrames_fresh.2 f hf
  · rw [Option.some.inj (List.mem_singleton.mp hf)]
    unfold IsFrame
    decide

/-- The program has touched the first page of its data, with which there are all the tables for
the second one, and then the memory is used up. -/
theorem exists_dataPage : ∃ s, Paged s ∧ s.k.frames = [none] ∧ s.vm.areas = [dataArea] ∧
    (∃ tr, walk s.k.mem s.vm.pml4 0x70000000 = some tr) ∧ walk s.k.mem s.vm.pml4 0x70001000 = none ∧
    missingTables s.k.mem 0x70001000 3 s.vm.pml4 = 0 := by
  obtain ⟨s, hs, hframes, hareas, hnone⟩ := exists_dataArea dataFrames_fresh
  have harea := (vmemIsMapped_dataArea hareas).1
  have hall : ∀ i ≤ missingTables s.k.mem 0x70000000 3 s.vm.pml4, HasFrame s.k.frames i := by
    intro i hi
    have hlt := hi.trans (missingTables_le _ _ _ _)
    rw [hframes]
    obtain rfl | rfl | rfl | rfl : i = 0 ∨ i = 1 ∨ i = 2 ∨ i = 3 := by omega
    all_goals exact ⟨_, rfl⟩
  obtain ⟨f, k, -, hcall, hwalk⟩ :=
    (faultOk_of_frames hs (by decide) (hnone _) harea hall).maps _ harea (hnone _) hall
  have hfirst := hwalk 0x70000000 (by decide)
  have hsecond := (hwalk 0x70001000 (by decide)).trans ((if_neg (by decide)).trans (hnone _))
  rw [if_pos rfl] at hfirst
  have hpaged := hs.fault (by decide) (hnone _) hcall
  obtain ⟨pt, claimed, h, hsmall⟩ := hpaged.inv
  have hused : Untouched ⟨s.vm, k, taken s.k k ++ s.allocated⟩ { k with frames := [none], freed := [] } :=
    ⟨fun _ _ _ _ _ => rfl, ⟨⟨by simp, by simp⟩, by simp⟩, by simp, by simp⟩
  refine ⟨_, hpaged.step (.other hused) hsmall, rfl, hareas, ⟨_, hfirst⟩, hsecond, ?_⟩
  obtain ⟨n, hleaf, hlevel, -, hle⟩ := exists_leaf_of_walk h.valid.wf h.valid.rep hfirst
  obtain ⟨claimed', hvalid, hc⟩ := h.valid.claim hsecond
  obtain rfl : n = 4 := by
    simp only at hlevel
    omega
  have htable : (pt.table (pathTo 0x70001000 3)).isSome := hvalid.wf.leaf_parent hleaf
  obtain ⟨r, hroot⟩ := hvalid.wf.root
  exact missingTables_eq hvalid hc (le_refl 3) htable (fun n hlt hn => by omega) (le_refl 3) hroot

/-- `frame_alloc` has no frame for the second page, and all its tables are there. -/
theorem fault_maps_null : ∃ s k, Paged s ∧ s.k.frames = [none] ∧
    missingTables s.k.mem 0x70001000 3 s.vm.pml4 = 0 ∧ ¬FaultOk s 0x70001000 ∧
    vmemHandlePf s.vm 0x70001000 s.k = .ok (true, k) ∧
    walk k.mem s.vm.pml4 0x70001000 = some ⟨0x778000000000, 0, ⟨true, true, true⟩⟩ := by
  obtain ⟨s, hs, hframes, hareas, -, hunmapped, hmissing⟩ := exists_dataPage
  have harea := (vmemIsMapped_dataArea hareas).2
  have hnull : ¬HasFrame s.k.frames 0 := by
    rw [hframes]
    rintro ⟨f, hf⟩
    cases hf
  have htables : ∀ i < missingTables s.k.mem 0x70001000 3 s.vm.pml4, HasFrame s.k.frames (i + 1) := by
    rw [hmissing]
    exact fun i hi => absurd hi (Nat.not_lt_zero i)
  obtain ⟨k, hcall, hwalk⟩ := fault_null hs (by decide) hunmapped harea hnull htables
  exact ⟨s, k, hs, hframes, hmissing, not_faultOk hs (by decide) hunmapped (by rw [harea]; rfl) hnull htables, hcall, hwalk⟩

end HeavenOS

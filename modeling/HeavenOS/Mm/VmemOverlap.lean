/-
# Mapping over a mapped range

Each mapping function asserts something about the entry it is about to write, and
the way to that entry is followed by `vmem_ensure_next_table`, which looks at the
present bit alone. A range that is mapped by pages no larger than the requested one is
therefore refused, unless a page of 1 GiB is put over another. A larger page on the way
is taken for a table.
-/

import HeavenOS.Mm.VmemMap

namespace HeavenOS

open Lib PageTable

/-! ## Tables in memory -/

/-- The frame at `t` is a page table of the given depth, 0 being the PML4. -/
inductive IsTable (m : Mem) (pml4 : ℕ) : ℕ → ℕ → Prop
  | root : IsTable m pml4 0 pml4
  | next {depth t i : ℕ} : IsTable m pml4 depth t → depth < 3 → i < 512 →
      entry m t i &&& ptePresent ≠ 0 → (entry m t i &&& ptePageSize = 0 ∨ depth = 0) →
      IsTable m pml4 (depth + 1) (physToVirt (pteAddr (entry m t i)))

section Tables

variable {pt : PageTable} {pml4 : ℕ} {claimed : Set Path} {m : Mem}
  (hwf : pt.WellFormed pml4 claimed) (hrep : pt.Represents m)

include hwf hrep

theorem IsTable.exists_path {depth t : ℕ} (h : IsTable m pml4 depth t) :
    ∃ q r, pt.table q = some (t, r) ∧ q.length = depth := by
  induction h with
  | root =>
      obtain ⟨r, hroot⟩ := hwf.root
      exact ⟨[], r, hroot, rfl⟩
  | @next depth t i _ hdepth hi hpresent hsize ih =>
      obtain ⟨q, r, hq, hlen⟩ := ih
      rw [hrep q t r hq i hi] at hpresent hsize ⊢
      cases hnext : pt.table (i :: q) with
      | some next =>
          obtain ⟨t', r'⟩ := next
          obtain ⟨-, -, haddr, -, -⟩ := table_word_reads hwf hnext
          exact ⟨i :: q, r', by rw [haddr, hnext], by rw [List.length_cons, hlen]⟩
      | none =>
          exfalso
          cases hleaf : pt.leaf (i :: q) with
          | none => exact hpresent (by rw [WellFormed.word_of_none hnext hleaf]; rfl)
          | some l =>
              obtain ⟨-, hlarge, -⟩ := leaf_word_reads hwf hleaf
              have hlen' := hwf.claimed_length (hwf.leaf_claimed (q := i :: q) (by rw [hleaf]; rfl))
              rw [List.length_cons] at hlarge hlen'
              rcases hsize with hsize | hsize
              · have := hlarge.mp hsize
                omega
              · omega

theorem isTable_of_table {q : Path} {t : ℕ} {r : Rights} (hq : pt.table q = some (t, r)) :
    IsTable m pml4 q.length t := by
  induction q generalizing t r with
  | nil =>
      obtain ⟨r', hroot⟩ := hwf.root
      obtain ⟨rfl, -⟩ := Prod.mk.inj (Option.some.inj (hq.symm.trans hroot))
      exact .root
  | cons i q ih =>
      have hlen := hwf.table_length (q := i :: q) (by rw [hq]; rfl)
      obtain ⟨⟨t', r'⟩, hparent⟩ := Option.isSome_iff_exists.mp
        (hwf.table_suffix (q := i :: q) (by rw [hq]; rfl) (List.suffix_cons i q))
      have hi : i < 512 := by
        rcases hwf.table_claimed (q := i :: q) (by rw [hq]; rfl) with hnil | ⟨c, hc, hsuf, -⟩
        · cases hnil
        · exact hwf.claimed_lt hc i (hsuf.subset List.mem_cons_self)
      obtain ⟨hpresent, hsize, haddr, -, -⟩ := table_word_reads hwf hq
      rw [← hrep q t' r' hparent i hi] at hpresent hsize haddr
      rw [List.length_cons] at hlen ⊢
      exact haddr ▸ (ih hparent).next (by omega) hi hpresent (Or.inl hsize)

end Tables

/-! ## Claims given up -/

namespace PageTable

variable {pt : PageTable} {pml4 : ℕ} {claimed : Set Path} {k : Kernel}

/-- The paths that are neither above nor below `c`. -/
def apartFrom (c : Path) (claimed : Set Path) : Set Path :=
  {x | x ∈ claimed ∧ ¬c <:+ x ∧ ¬x <:+ c}

/-- Claims in the way of a new path are given up where nothing came of them. -/
theorem WellFormed.release (h : pt.WellFormed pml4 claimed) {c : Path}
    (hlen : 2 ≤ c.length ∧ c.length ≤ 4) (hlt : ∀ i ∈ c, i < 512)
    (hleaf : ∀ q, (pt.leaf q).isSome → ¬c <:+ q ∧ ¬q <:+ c) (htable : pt.table c = none) :
    pt.WellFormed pml4 (insert c (apartFrom c claimed)) where
  root := h.root
  isFrame := h.isFrame
  inj := h.inj
  table_suffix := h.table_suffix
  table_claimed := by
    intro q hq
    have hqc : q ≠ c := fun heq => by rw [heq, htable] at hq; cases hq
    rcases h.table_claimed hq with rfl | ⟨x, hx, hqx, hne⟩
    · exact Or.inl rfl
    · right
      by_cases hcx : c <:+ x
      · refine ⟨c, Set.mem_insert _ _, ?_, hqc⟩
        rcases List.suffix_or_suffix_of_suffix hqx hcx with hsuf | hsuf
        · exact hsuf
        · have := h.table_suffix hq hsuf
          rw [htable] at this
          cases this
      · by_cases hxc : x <:+ c
        · exact ⟨c, Set.mem_insert _ _, hqx.trans hxc, hqc⟩
        · exact ⟨x, Set.mem_insert_of_mem _ ⟨hx, hcx, hxc⟩, hqx, hne⟩
  leaf_claimed hq := Set.mem_insert_of_mem _ ⟨h.leaf_claimed hq, hleaf _ hq⟩
  leaf_parent := h.leaf_parent
  leaf_frame := h.leaf_frame
  rights := h.rights
  claimed_length := by
    rintro x (rfl | hx)
    · exact hlen
    · exact h.claimed_length hx.1
  claimed_lt := by
    rintro x (rfl | hx)
    · exact hlt
    · exact h.claimed_lt hx.1
  antichain := (h.antichain.subset fun x hx => hx.1).insert (fun x hx _ => hx.2.2) fun x hx _ => hx.2.1

end PageTable

/-! ## What a call tests -/

/-- The last assertion of each function, about the entry to be written. -/
def MapSize.Accepts : MapSize → BitVec 64 → Prop
  | .page, pte => pte &&& ptePresent = 0
  | .page2mb, pde => pde &&& ptePresent = 0 ∧ pde &&& ptePageSize = 0
  | .page1gb, pdpe => ¬(pdpe &&& ptePresent ≠ 0 ∧ pdpe &&& ptePageSize = 0)

theorem kassert_bind_eq_ok_iff {cond : Prop} [Decidable cond] {expr : String} {α : Type} {a : α} :
    (∃ b, (kassert cond expr >>= fun _ => (Except.ok a : Except Panic α)) = .ok b) ↔ cond := by
  constructor
  · rintro ⟨b, hb⟩
    obtain ⟨_, hcond, -⟩ := bind_eq_ok.mp hb
    exact kassert_eq_ok_iff.mp hcond
  · intro h
    exact ⟨a, by rw [kassert_of_true h, ok_bind]⟩

namespace MapCall

/-- The table of depth `n` that a call comes to, and the state it is in there. -/
def way (vm : Vmem) (call : MapCall) (n : ℕ) (k : Kernel) : ℕ × Kernel :=
  ensureTo vm.pml4 (vmemConvertFlags call.flags) (pathTo call.virtAddr n) k

/-- The entry that a call tests before it writes it. -/
def tested (vm : Vmem) (call : MapCall) (k : Kernel) : BitVec 64 :=
  entry (call.way vm (3 - call.size.level) k).2.mem (call.way vm (3 - call.size.level) k).1
    (tableIndex call.size.level call.virtAddr)

/-- With the tables in place, a call goes through exactly when its assertion accepts the
entry. -/
theorem run_ok_iff {vm : Vmem} {call : MapCall} {k : Kernel} (hpml4 : vm.pml4 ≠ 0)
    (hlegal : call.Legal) (hway : (call.way vm (3 - call.size.level) k).1 ≠ 0) :
    (∃ out, call.run vm k = .ok out) ↔ call.size.Accepts (call.tested vm k) := by
  have hvirt : call.virtAddr < 2 ^ 64 := by
    have := hlegal.aligned.canonical
    unfold Canonical at this
    omega
  have hframe : call.frame < 2 ^ 64 := lt_of_lt_of_le hlegal.frame_lt (by decide)
  have hvmask := (maskDown_two_pow_eq_self_iff hvirt).mpr hlegal.aligned.dvd
  have hfmask := (maskDown_two_pow_eq_self_iff hframe).mpr hlegal.frame_dvd
  obtain ⟨⟨size, virtAddr⟩, frame, flags⟩ := call
  unfold run tested way at *
  rw [vmemConvertFlags_eq] at *
  cases size with
  | page =>
      simp only [MapSize.level] at *
      rw [vmemMapPage_eq hpml4 hvmask hfmask, ensureThen, if_neg hway]
      exact kassert_bind_eq_ok_iff
  | page2mb =>
      simp only [MapSize.level] at *
      rw [vmemMapPage2mb_eq hpml4 hvmask hfmask, ensureThen, if_neg hway]
      exact kassert_bind_eq_ok_iff
  | page1gb =>
      simp only [MapSize.level] at *
      rw [vmemMapPage1gb_eq hpml4 hvmask hfmask, ensureThen, if_neg hway]
      exact kassert_bind_eq_ok_iff

/-- What is to happen to a call on a mapped range. It stops at an assertion; no entry it
follows is that of a large page; where it stops every address still has its translation
and only page tables have been written to. -/
structure Refused (vm : Vmem) (call : MapCall) (k : Kernel) : Prop where
  stops : ∃ text, call.run vm k = .error text
  follows : ∀ n < 3 - call.size.level,
    entry (call.way vm n k).2.mem (call.way vm n k).1 (tableIndex (3 - n) call.virtAddr) &&&
      ptePageSize = 0
  walk : ∀ addr, walk (call.way vm (3 - call.size.level) k).2.mem vm.pml4 addr =
    walk k.mem vm.pml4 addr
  mem : ∀ a, (∀ depth t, IsTable k.mem vm.pml4 depth t → ¬InFrame t a) →
    (call.way vm (3 - call.size.level) k).2.mem a = k.mem a

/-- Some address of the requested page is mapped. -/
def Overlaps (vm : Vmem) (call : MapCall) (m : Mem) : Prop :=
  ∃ addr, call.Covers addr ∧ (HeavenOS.walk m vm.pml4 addr).isSome

/-- The pages mapped in the requested range are no larger than the requested one, and
none of them has 1 GiB. -/
def Seen (vm : Vmem) (call : MapCall) (m : Mem) : Prop :=
  ∀ addr tr, call.Covers addr → HeavenOS.walk m vm.pml4 addr = some tr →
    tr.level ≤ call.size.level ∧ tr.level < 2

/-! ## On the tree -/

section Tree

variable {vm : Vmem} {pt : PageTable} {claimed : Set Path} {k : Kernel} {call : MapCall}
  (h : pt.Valid vm.pml4 claimed k)

include h

/-- Where the tables of the way exist, a call comes to them and adds rights only. -/
theorem way_of_table {c : Path} {n : ℕ} (hc : c ∈ claimed) (hsuf : pathTo call.virtAddr n <:+ c)
    (hne : pathTo call.virtAddr n ≠ c) (htable : (pt.table (pathTo call.virtAddr n)).isSome) :
    ∃ pt' : PageTable, pt'.Valid vm.pml4 claimed (call.way vm n k).2 ∧
      Grows pt k pt' (call.way vm n k).2 ∧ pt'.leaf = pt.leaf ∧
      (∃ r, pt'.table (pathTo call.virtAddr n) = some ((call.way vm n k).1, r)) ∧
      ∀ q t r, pt'.table q = some (t, r) → ∃ r', pt.table q = some (t, r') := by
  obtain ⟨⟨t, r⟩, hq⟩ := Option.isSome_iff_exists.mp htable
  unfold way
  rw [vmemConvertFlags_eq]
  obtain ⟨ht, hframes⟩ := ensureTo_of_table h hc hsuf hne hq (rightsOf call.flags)
  obtain ⟨pt', hvalid, hgrows, hleaf, hres⟩ := ensureTo_spec h hc hsuf hne (rightsOf call.flags)
  have hnz := (h.wf.isFrame hq).ne_zero
  refine ⟨pt', hvalid, hgrows, hleaf, (hres.resolve_left (ht.symm ▸ hnz)).1, fun q t r hq => ?_⟩
  obtain ⟨used, hused, hold, -⟩ := hgrows.used
  have hnil : used = [] := by
    rw [hframes] at hused
    exact List.append_left_eq_self.mp hused.symm
  subst hnil
  exact (hold hq).resolve_right (List.not_mem_nil)

/-- A call comes to an entry on the way to a claimed path as the tree has it. -/
theorem entry_way (call : MapCall) {c : Path} {n : ℕ} (hc : c ∈ claimed) (hsuf : pathTo call.virtAddr (n + 1) <:+ c)
    (htable : (pt.table (pathTo call.virtAddr n)).isSome) :
    ∃ pt' : PageTable, pt'.Valid vm.pml4 claimed (call.way vm n k).2 ∧
      Grows pt k pt' (call.way vm n k).2 ∧ pt'.leaf = pt.leaf ∧ (call.way vm n k).1 ≠ 0 ∧
      (∀ q t r, pt'.table q = some (t, r) → ∃ r', pt.table q = some (t, r')) ∧
      entry (call.way vm n k).2.mem (call.way vm n k).1 (tableIndex (3 - n) call.virtAddr) =
        pt'.word (pathTo call.virtAddr (n + 1)) := by
  have hcons : pathTo call.virtAddr (n + 1) = tableIndex (3 - n) call.virtAddr ::
      pathTo call.virtAddr n := rfl
  have hsuf' : pathTo call.virtAddr n <:+ c := (hcons ▸ List.suffix_cons _ _).trans hsuf
  have hne : pathTo call.virtAddr n ≠ c := by
    rintro rfl
    have := hsuf.length_le
    rw [pathTo_length, pathTo_length] at this
    omega
  obtain ⟨pt', hvalid, hgrows, hleaf, ⟨r, hq⟩, hsame⟩ := way_of_table h hc hsuf' hne htable
  exact ⟨pt', hvalid, hgrows, hleaf, (hvalid.wf.isFrame hq).ne_zero, hsame,
    hvalid.rep _ _ _ hq _ (tableIndex_lt _ _)⟩

variable (hlegal : call.Legal)

include hlegal

/-- A table, or a page below 1 GiB, in the place of the requested page: the call is
refused. -/
theorem refused_of_blocked {c : Path} (hc : c ∈ claimed) (hsuf : call.path <:+ c)
    (hblock : (pt.table call.path).isSome ∨ (pt.leaf call.path).isSome ∧ call.size ≠ .page1gb) :
    call.Refused vm k := by
  have hlevel := PageSpan.level_le call.size
  have hpath : call.path = pathTo call.virtAddr (3 - call.size.level + 1) := by
    rw [PageSpan.path, show 4 - call.size.level = 3 - call.size.level + 1 by omega]
  have hparent : (pt.table (pathTo call.virtAddr (3 - call.size.level))).isSome := by
    rcases hblock with htable | ⟨hleaf, -⟩
    · refine h.wf.table_suffix htable ?_
      rw [path_eq_cons]
      exact List.suffix_cons _ _
    · rw [path_eq_cons] at hleaf
      exact h.wf.leaf_parent hleaf
  have hupper {n : ℕ} (hn : n ≤ 3 - call.size.level) : (pt.table (pathTo call.virtAddr n)).isSome :=
    h.wf.table_suffix hparent (suffix_pathTo_iff.mpr ⟨n, hn, rfl⟩)
  obtain ⟨r, hroot⟩ := h.wf.root
  obtain ⟨pt', hvalid, hgrows, hleafs, hnz, hsame, hentry⟩ :=
    entry_way h call hc (hpath ▸ hsuf) hparent
  rw [show 3 - (3 - call.size.level) = call.size.level by omega, ← hpath] at hentry
  refine ⟨?_, fun n hn => ?_, fun addr => walk_congr h hvalid hleafs addr, fun a ha => ?_⟩
  · have hrefuse : ¬call.size.Accepts (call.tested vm k) := by
      rw [tested, hentry]
      rcases hblock with htable | ⟨hleaf, hsize⟩
      · obtain ⟨⟨t, r⟩, hq⟩ := Option.isSome_iff_exists.mp htable
        obtain ⟨r', hq', -⟩ := hgrows.table hq
        obtain ⟨hpresent, hsmall, -⟩ := table_word_reads hvalid.wf hq'
        cases hcase : call.size with
        | page => exact hpresent
        | page2mb => exact fun hacc => hpresent hacc.1
        | page1gb => exact fun hacc => hacc ⟨hpresent, hsmall⟩
      · obtain ⟨l, hl⟩ := Option.isSome_iff_exists.mp hleaf
        obtain ⟨hpresent, -⟩ := leaf_word_reads hvalid.wf (hleafs ▸ hl)
        cases hcase : call.size with
        | page => exact hpresent
        | page2mb => exact fun hacc => hpresent hacc.1
        | page1gb => exact absurd hcase hsize
    cases hrun : call.run vm k with
    | error text => exact ⟨text, rfl⟩
    | ok out =>
        have hok : ∃ out, call.run vm k = .ok out := ⟨out, hrun⟩
        exact absurd ((run_ok_iff (h.wf.isFrame hroot).ne_zero hlegal hnz).mp hok) hrefuse
  · have hsuf' : pathTo call.virtAddr (n + 1) <:+ c :=
      (suffix_pathTo_iff.mpr ⟨n + 1, by omega, rfl⟩).trans (hpath ▸ hsuf)
    obtain ⟨ptn, hvalidn, hgrowsn, -, -, -, hentryn⟩ := entry_way h call hc hsuf' (hupper (by omega))
    obtain ⟨⟨t, r⟩, hq⟩ := Option.isSome_iff_exists.mp (hupper (n := n + 1) (by omega))
    obtain ⟨r', hq', -⟩ := hgrowsn.table hq
    rw [hentryn]
    exact (table_word_reads hvalidn.wf hq').2.1
  · refine hgrows.mem a fun q t r hq => ?_
    obtain ⟨r', hq'⟩ := hsame q t r hq
    exact ha _ _ (isTable_of_table h.wf h.rep hq')

omit hlegal in
/-- A larger page above the requested one is followed. -/
theorem not_refused_of_larger {n : ℕ} (hn : n < 4 - call.size.level)
    (hleaf : (pt.leaf (pathTo call.virtAddr n)).isSome) : ¬call.Refused vm k := by
  intro hrefused
  have hc := h.wf.leaf_claimed hleaf
  have hlen := h.wf.claimed_length hc
  rw [pathTo_length] at hlen
  obtain ⟨m, rfl⟩ : ∃ m, n = m + 1 := ⟨n - 1, by omega⟩
  have hparent : (pt.table (pathTo call.virtAddr m)).isSome := h.wf.leaf_parent hleaf
  obtain ⟨pt', hvalid, -, hleafs, -, -, hentry⟩ :=
    entry_way h call hc (List.suffix_refl _) hparent
  obtain ⟨l, hl⟩ := Option.isSome_iff_exists.mp hleaf
  obtain ⟨-, hsize, -⟩ := leaf_word_reads hvalid.wf (hleafs ▸ hl)
  rw [pathTo_length] at hsize
  have hfollow := hrefused.follows m (by omega)
  rw [hentry] at hfollow
  exact hsize.mp hfollow (by omega)

/-- A page of 1 GiB is put over another one. -/
theorem run_over_1gb (hsize : call.size = .page1gb) (hleaf : (pt.leaf call.path).isSome) :
    ∃ out, call.run vm k = .ok out := by
  obtain ⟨r, hroot⟩ := h.wf.root
  have hlevel : call.size.level = 2 := by rw [hsize]; rfl
  have hpath : call.path = pathTo call.virtAddr (1 + 1) := by
    rw [PageSpan.path, hlevel]
  have hparent : (pt.table (pathTo call.virtAddr 1)).isSome := by
    rw [hpath] at hleaf
    exact h.wf.leaf_parent hleaf
  obtain ⟨pt', hvalid, -, hleafs, hnz, -, hentry⟩ :=
    entry_way h call (h.wf.leaf_claimed hleaf) (hpath ▸ List.suffix_refl _) hparent
  obtain ⟨l, hl⟩ := Option.isSome_iff_exists.mp hleaf
  obtain ⟨-, hlarge, -⟩ := leaf_word_reads hvalid.wf (hleafs ▸ hl)
  refine (run_ok_iff (h.wf.isFrame hroot).ne_zero hlegal (by rwa [hlevel])).mpr ?_
  rw [tested, hlevel, hsize]
  rw [hpath, pathTo_length] at hlarge
  refine fun hacc => hlarge.mp ?_ (by decide)
  exact hentry ▸ hacc.2

/-- A call on a mapped range is refused exactly when it sees what is mapped there. -/
theorem refused_iff_seen (hover : call.Overlaps vm k.mem) :
    call.Refused vm k ↔ call.Seen vm k.mem := by
  have hlevel := PageSpan.level_le call.size
  constructor
  · intro hrefused addr tr hcov hwalk
    have hpath := (PageSpan.covers_iff hlegal.aligned (hcov.canonical hlegal.aligned)).mp hcov
    obtain ⟨n, hleaf, htr, hn⟩ := exists_leaf_of_walk h.wf h.rep hwalk
    by_contra hunseen
    rcases Nat.lt_or_ge n (4 - call.size.level) with hlt | hge
    · have hsuf : pathTo addr n <:+ call.path :=
        hpath ▸ suffix_pathTo_iff.mpr ⟨n, le_of_lt hlt, rfl⟩
      obtain ⟨m, -, hm⟩ := suffix_pathTo_iff.mp hsuf
      obtain rfl : n = m := by simpa using congrArg List.length hm
      exact not_refused_of_larger h hlt (hm ▸ hleaf) hrefused
    · have hsize : call.size = .page1gb := by
        cases hcase : call.size with
        | page1gb => rfl
        | page =>
            simp only [hcase, MapSize.level] at hge hunseen
            omega
        | page2mb =>
            simp only [hcase, MapSize.level] at hge hunseen
            omega
      have hn2 : n = 4 - call.size.level := by
        simp only [hsize, MapSize.level] at hge hunseen ⊢
        omega
      obtain ⟨out, hrun⟩ := run_over_1gb h hlegal hsize (by rwa [hn2, hpath] at hleaf)
      obtain ⟨text, hstop⟩ := hrefused.stops
      rw [hrun] at hstop
      cases hstop
  · intro hseen
    obtain ⟨addr, hcov, hsome⟩ := hover
    obtain ⟨tr, hwalk⟩ := Option.isSome_iff_exists.mp hsome
    have hpath := (PageSpan.covers_iff hlegal.aligned (hcov.canonical hlegal.aligned)).mp hcov
    obtain ⟨n, hleaf, htr, hn⟩ := exists_leaf_of_walk h.wf h.rep hwalk
    obtain ⟨hle, hlt⟩ := hseen addr tr hcov hwalk
    have hsuf : call.path <:+ pathTo addr n :=
      hpath ▸ suffix_pathTo_iff.mpr ⟨_, by omega, rfl⟩
    refine refused_of_blocked h hlegal (h.wf.leaf_claimed hleaf) hsuf ?_
    by_cases heq : call.path = pathTo addr n
    · have hlen : 4 - call.size.level = n := by
        simpa [PageSpan.path] using congrArg List.length heq
      refine Or.inr ⟨heq ▸ hleaf, fun hsize => ?_⟩
      simp only [hsize, MapSize.level] at hlen
      omega
    · obtain ⟨l, hl⟩ := Option.isSome_iff_exists.mp hleaf
      exact Or.inl (h.wf.table_of_suffix_leaf hl hsuf heq)

/-- A page in the tree above or below the requested one is an overlap. -/
theorem overlaps_of_leaf {q : Path} (hleaf : (pt.leaf q).isSome)
    (hmeet : call.path <:+ q ∨ q <:+ call.path) : call.Overlaps vm k.mem := by
  obtain ⟨l, hl⟩ := Option.isSome_iff_exists.mp hleaf
  have hc := h.wf.leaf_claimed hleaf
  rcases hmeet with hsuf | hsuf
  · obtain ⟨addr, haddr, hpath⟩ := exists_pathTo (h.wf.claimed_length hc).2 (h.wf.claimed_lt hc)
    rw [← hpath] at hsuf hl
    obtain ⟨m, -, hm⟩ := suffix_pathTo_iff.mp hsuf
    have hlen : 4 - call.size.level = m := by
      simpa [PageSpan.path] using congrArg List.length hm
    refine ⟨addr, (PageSpan.covers_iff hlegal.aligned haddr).mpr (by rw [hlen, hm]), ?_⟩
    rw [walk_of_leaf h.wf h.rep hl]
    rfl
  · obtain ⟨m, -, rfl⟩ := suffix_pathTo_iff.mp hsuf
    have hpos : 0 < call.size.bytes := Nat.two_pow_pos _
    refine ⟨call.virtAddr, ⟨le_refl _, by omega⟩, ?_⟩
    rw [walk_of_leaf h.wf h.rep hl]
    rfl

/-- An overlap is a page in the tree above or below the requested one. -/
theorem overlaps_iff_leaf :
    call.Overlaps vm k.mem ↔ ∃ q, (pt.leaf q).isSome ∧ (call.path <:+ q ∨ q <:+ call.path) := by
  refine ⟨?_, fun ⟨q, hq, hmeet⟩ => overlaps_of_leaf h hlegal hq hmeet⟩
  rintro ⟨addr, hcov, hsome⟩
  obtain ⟨tr, hwalk⟩ := Option.isSome_iff_exists.mp hsome
  obtain ⟨n, hn, -⟩ := exists_leaf_of_walk h.wf h.rep hwalk
  refine ⟨_, hn, ?_⟩
  rw [← (PageSpan.covers_iff hlegal.aligned (hcov.canonical hlegal.aligned)).mp hcov]
  exact (le_total (4 - call.size.level) n).imp (fun hle => suffix_pathTo_iff.mpr ⟨_, hle, rfl⟩)
    fun hle => suffix_pathTo_iff.mpr ⟨_, hle, rfl⟩

section Clear

variable (hclear : ¬call.Overlaps vm k.mem)

include hclear

/-- The claims of calls that ran out of memory may be in the way, and are given up. -/
theorem reclaim (htable : pt.table call.path = none) :
    pt.Valid vm.pml4 (insert call.path (apartFrom call.path claimed)) k ∧ pt.leaf call.path = none := by
  have hleaf : ∀ q, (pt.leaf q).isSome → ¬call.path <:+ q ∧ ¬q <:+ call.path := by
    intro q hq
    rw [← not_or]
    exact fun hmeet => hclear (overlaps_of_leaf h hlegal hq hmeet)
  refine ⟨⟨h.wf.release call.path_length (fun i hi => pathTo_lt hi) hleaf htable, h.rep, h.fresh⟩, ?_⟩
  by_contra hsome
  exact (hleaf _ (Option.isSome_iff_ne_none.mpr hsome)).1 (List.suffix_refl _)

/-- A call on a range without any page puts its page into the tree if it returns 0, and
else leaves every page as it was. -/
theorem run_of_not_overlaps {res : Int} {k' : Kernel} (hrun : call.run vm k = .ok (res, k')) :
    ∃ (pt' : PageTable) (claimed' : Set Path), pt'.Valid vm.pml4 claimed' k' ∧ Grows pt k pt' k' ∧
      (∀ q, (pt.leaf q).isSome → q ∈ claimed' ∧ q ≠ call.path) ∧
      (res = 0 ∧ pt'.leaf = Function.update pt.leaf call.path (some call.leaf) ∨
        res = -enomem ∧ pt'.leaf = pt.leaf) := by
  have htable : pt.table call.path = none := by
    by_contra hne
    have hsome := Option.isSome_iff_ne_none.mpr hne
    rcases h.wf.table_claimed hsome with hnil | ⟨c, hc, hsuf, -⟩
    · have := call.path_length.1
      rw [hnil] at this
      cases this
    · obtain ⟨text, hstop⟩ := (refused_of_blocked h hlegal hc hsuf (Or.inl hsome)).stops
      rw [hrun] at hstop
      cases hstop
  obtain ⟨hvalid, hnone⟩ := reclaim h hlegal hclear htable
  obtain ⟨_, _, pt', hcall, hvalid', hgrows, hres, -⟩ :=
    run_claimed hvalid hlegal (Set.mem_insert _ _) hnone
  obtain ⟨rfl, rfl⟩ := Prod.mk.inj (Except.ok.inj (hrun.symm.trans hcall))
  refine ⟨pt', _, hvalid', hgrows, fun q hq => ⟨hvalid.wf.leaf_claimed hq, fun heq => ?_⟩, hres⟩
  rw [heq, hnone] at hq
  cases hq

/-- A page of 4 KiB finds no table in its place, and is mapped if there are three frames. -/
theorem run_page_plenty (hsize : call.size = .page) {n : ℕ} (hplenty : Plenty (n + 3) k.frames) :
    ∃ k', call.run vm k = .ok (0, k') ∧ Plenty n k'.frames := by
  have htable : pt.table call.path = none := by
    by_contra hne
    have hlen := h.wf.table_length (Option.isSome_iff_ne_none.mpr hne)
    rw [PageSpan.path, pathTo_length, hsize] at hlen
    exact absurd hlen (by decide)
  obtain ⟨hvalid, hnone⟩ := reclaim h hlegal hclear htable
  exact run_claimed_plenty hvalid hlegal (Set.mem_insert _ _) hnone hplenty

end Clear

/-- A call that returns, and saw what was mapped, leaves a tree behind. -/
theorem valid_of_run (hseen : call.Seen vm k.mem) {res : Int} {k' : Kernel}
    (hrun : call.run vm k = .ok (res, k')) :
    ∃ (pt' : PageTable) (claimed' : Set Path), pt'.Valid vm.pml4 claimed' k' := by
  have hclear : ¬call.Overlaps vm k.mem := fun hover => by
    obtain ⟨text, hstop⟩ := ((refused_iff_seen h hlegal hover).mpr hseen).stops
    rw [hrun] at hstop
    cases hstop
  obtain ⟨pt', claimed', hvalid, -⟩ := run_of_not_overlaps h hlegal hclear hrun
  exact ⟨pt', claimed', hvalid⟩

end Tree

end MapCall

/-! ## Runs -/

/-- A legal call that returns and sees every page that is mapped in its range. -/
def SeeingStep (vm : Vmem) (k : Kernel) (label : MapLabel) (k' : Kernel) : Prop :=
  label.1.Legal ∧ label.1.Seen vm k.mem ∧ MapStep vm k label k'

/-- In every address space made by such calls, a call on a mapped range is refused exactly
when it sees the pages that are mapped there. -/
theorem map_run_refused_iff {vm : Vmem} {k0 k1 k : Kernel} {labels : List MapLabel} {call : MapCall}
    (hfresh : FreshFrames k0.frames) (hinit : vmemInit k0 = (0, vm, k1))
    (hrun : Run (SeeingStep vm) k1 labels k) (hlegal : call.Legal) (hover : call.Overlaps vm k.mem) :
    call.Refused vm k ↔ call.Seen vm k.mem := by
  have hinv : ∃ (pt : PageTable) (claimed : Set Path), pt.Valid vm.pml4 claimed k := by
    refine hrun.invariant (fun k => ∃ (pt : PageTable) (claimed : Set Path), pt.Valid vm.pml4 claimed k)
      ⟨_, _, (vmemInit_spec hfresh hinit).1⟩ ?_
    rintro k label k' ⟨pt, claimed, hvalid⟩ ⟨hlabel, hseen, hstep⟩
    exact MapCall.valid_of_run hvalid hlabel hseen hstep
  obtain ⟨pt, claimed, hvalid⟩ := hinv
  exact MapCall.refused_iff_seen hvalid hlegal hover

theorem map_run_refused_iff_onePage :
    ∃ vm k1 k, vmemInit bootKernel = (0, vm, k1) ∧ Run (SeeingStep vm) k1 [(onePage, 0)] k ∧
      onePage.Refused vm k := by
  obtain ⟨vm, k1, k, pt, hinit, hcall, hvalid, -, hleaf⟩ := @fourFrames_map bootKernel rfl rfl _ onePage_legal
  have hempty : onePage.Seen vm k1.mem := by
    intro addr tr _ hwalk
    have hnew := (vmemInit_spec fourFrames_fresh hinit).1
    rw [walk_of_no_leaf hnew.wf hnew.rep fun _ _ => rfl] at hwalk
    cases hwalk
  have hrun : Run (SeeingStep vm) k1 [(onePage, 0)] k := Run.single _ ⟨onePage_legal, hempty, hcall⟩
  refine ⟨vm, k1, k, hinit, hrun, ?_⟩
  have hself : (pt.leaf onePage.path).isSome := by rw [hleaf, Function.update_self]; rfl
  refine (map_run_refused_iff fourFrames_fresh hinit hrun onePage_legal
    (MapCall.overlaps_of_leaf hvalid onePage_legal hself (Or.inl (List.suffix_refl _)))).mpr ?_
  intro addr tr _ hwalk
  obtain ⟨n, hn, hlevel, -, -⟩ := exists_leaf_of_walk hvalid.wf hvalid.rep hwalk
  have hlen := congrArg List.length (Set.mem_singleton_iff.mp (hvalid.wf.leaf_claimed hn))
  rw [pathTo_length, PageSpan.path, pathTo_length] at hlen
  rw [hlevel, hlen]
  decide

/-- 1 GiB at `0x40000000`. -/
def hugePage : MapCall := ⟨⟨.page1gb, 0x40000000⟩, 0x40000000, vmemWrite⟩

/-- The page at `0x40000000`. -/
def firstPage : MapCall := ⟨⟨.page, 0x40000000⟩, 0x1000, vmemUser⟩

/-- A small page inside of a huge one is not refused: the first frame of the huge page is
taken for a page directory. -/
theorem map_run_small_in_huge :
    ∃ vm k1 k, vmemInit bootKernel = (0, vm, k1) ∧ Run (MapStep vm) k1 [(hugePage, 0)] k ∧
      hugePage.Legal ∧ firstPage.Legal ∧ firstPage.Overlaps vm k.mem ∧ ¬firstPage.Refused vm k := by
  have hhuge : hugePage.Legal := ⟨⟨by decide, by decide⟩, by decide, by decide⟩
  have hfirst : firstPage.Legal := ⟨⟨by decide, by decide⟩, by decide, by decide⟩
  obtain ⟨vm, k1, k, pt, hinit, hcall, hvalid, -, hleaf⟩ := @fourFrames_map bootKernel rfl rfl _ hhuge
  have hself : (pt.leaf hugePage.path).isSome := by rw [hleaf, Function.update_self]; rfl
  refine ⟨vm, k1, k, hinit, Run.single _ hcall, hhuge, hfirst, ?_, ?_⟩
  · exact MapCall.overlaps_of_leaf hvalid hfirst hself
      (Or.inr (suffix_pathTo_iff.mpr ⟨2, by decide, rfl⟩))
  · exact MapCall.not_refused_of_larger (n := 2) hvalid (by decide) hself

end HeavenOS

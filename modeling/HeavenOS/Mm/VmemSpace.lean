/-
# The life of an address space

An address space grows by mapping calls, by areas and by the page faults that fill
them, while the rest of the kernel and the programs write to other memory and take
frames of their own. Two things survive all of it: the page table in memory is a
tree, and every frame allocated for the address space has exactly one place in it.
-/

import HeavenOS.Mm.VmemOverlap

namespace HeavenOS

open Lib PageTable

/-! ## Owned frames -/

namespace PageTable

/-- The frame that the address space owns at a path: a table, or a page of 4 KiB marked
as allocated. -/
def held (pt : PageTable) (q : Path) : Option ℕ :=
  match pt.table q with
  | some (t, _) => some t
  | none =>
      match pt.leaf q with
      | some l => if l.rights.alloc ∧ q.length = 4 then some (physToVirt l.frame) else none
      | none => none

theorem held_of_table {pt : PageTable} {q : Path} {t : ℕ} {r : Rights}
    (hq : pt.table q = some (t, r)) : pt.held q = some t := by
  rw [held, hq]

theorem held_of_none {pt : PageTable} {q : Path} (hq : pt.table q = none) (hleaf : pt.leaf q = none) :
    pt.held q = none := by
  rw [held, hq, hleaf]

theorem held_of_leaf {pt : PageTable} {q : Path} {l : Leaf} (hq : pt.table q = none)
    (hleaf : pt.leaf q = some l) :
    pt.held q = if l.rights.alloc ∧ q.length = 4 then some (physToVirt l.frame) else none := by
  rw [held, hq, hleaf]

/-- The frames allocated for the address space are those it owns, each in one place, and
none of them is handed out again. -/
structure Ledger (pt : PageTable) (allocated : List ℕ) (frames : List (Option ℕ)) : Prop where
  mem_iff : ∀ f, f ∈ allocated ↔ ∃ q, pt.held q = some f
  inj : ∀ {q q' f}, pt.held q = some f → pt.held q' = some f → q = q'
  nodup : allocated.Nodup
  notMem : ∀ f ∈ allocated, some f ∉ frames

/-- Tables made of new frames are entered into the ledger. -/
theorem Ledger.grow {pt pt' : PageTable} {allocated : List ℕ} {k k' : Kernel} {pml4 : ℕ}
    {claimed claimed' : Set Path} {used : List (Option ℕ)} (h : pt.Ledger allocated k.frames)
    (hvalid : pt.Valid pml4 claimed k) (hvalid' : pt'.Valid pml4 claimed' k')
    (hleaf : ∀ q, (pt.leaf q).isSome → q ∈ claimed') (hgrows : Grows pt k pt' k')
    (hused : k.frames = used ++ k'.frames) :
    Ledger ⟨pt'.table, pt.leaf⟩ (used.filterMap id ++ allocated) k'.frames := by
  obtain ⟨used', hused', hold, hnew⟩ := hgrows.used
  obtain rfl : used' = used := List.append_cancel_right (hused'.symm.trans hused)
  have hmem {f : ℕ} : f ∈ used'.filterMap id ↔ some f ∈ used' := by simp
  have hnodup := hvalid.fresh.1
  rw [hused, List.filterMap_append] at hnodup
  have hsplit {q : Path} {f : ℕ} (hq : PageTable.held ⟨pt'.table, pt.leaf⟩ q = some f) :
      pt.held q = some f ∨ some f ∈ used' ∧ ∃ r, pt'.table q = some (f, r) := by
    cases htable : pt'.table q with
    | some next =>
        obtain ⟨t, r⟩ := next
        have ht : PageTable.held ⟨pt'.table, pt.leaf⟩ q = some t := held_of_table htable
        obtain rfl : t = f := Option.some.inj (ht.symm.trans hq)
        rcases hold htable with ⟨r', hq'⟩ | hmem
        · exact Or.inl (held_of_table hq')
        · exact Or.inr ⟨hmem, r, rfl⟩
    | none =>
        left
        have hnone : pt.table q = none := by
          by_contra hne
          obtain ⟨⟨t, r⟩, hq'⟩ := Option.ne_none_iff_exists'.mp hne
          obtain ⟨r', hq'', -⟩ := hgrows.table hq'
          rw [htable] at hq''
          cases hq''
        simpa only [held, htable, hnone] using hq
  have hkeep {q : Path} {f : ℕ} (hq : pt.held q = some f) :
      PageTable.held ⟨pt'.table, pt.leaf⟩ q = some f := by
    cases htable : pt.table q with
    | some next =>
        obtain ⟨t, r⟩ := next
        obtain rfl : t = f := Option.some.inj ((held_of_table htable).symm.trans hq)
        obtain ⟨r', hq', -⟩ := hgrows.table htable
        exact held_of_table hq'
    | none =>
        cases hl : pt.leaf q with
        | none =>
            rw [held_of_none htable hl] at hq
            cases hq
        | some l =>
            have hnone : pt'.table q = none :=
              hvalid'.wf.table_of_claimed (hleaf q (by rw [hl]; rfl))
            simpa only [held, htable, hnone] using hq
  refine ⟨fun f => ?_, fun {q q' f} hq hq' => ?_, ?_, fun f hf => ?_⟩
  · rw [List.mem_append, hmem, h.mem_iff]
    constructor
    · rintro (hf | ⟨q, hq⟩)
      · obtain ⟨q, r, hq⟩ := hnew f hf
        exact ⟨q, held_of_table hq⟩
      · exact ⟨q, hkeep hq⟩
    · rintro ⟨q, hq⟩
      rcases hsplit hq with hq | ⟨hf, -⟩
      · exact Or.inr ⟨q, hq⟩
      · exact Or.inl hf
  · have hfresh {f : ℕ} {q : Path} (hf : some f ∈ used') : pt.held q ≠ some f := fun hq =>
      h.notMem f ((h.mem_iff f).mpr ⟨q, hq⟩) (by rw [hused]; exact List.mem_append_left _ hf)
    rcases hsplit hq with hq | ⟨hf, r, hq⟩ <;> rcases hsplit hq' with hq' | ⟨hf', r', hq'⟩
    · exact h.inj hq hq'
    · exact absurd hq (hfresh hf')
    · exact absurd hq' (hfresh hf)
    · exact hvalid'.wf.inj hq hq'
  · refine List.nodup_append.mpr ⟨(List.nodup_append.mp hnodup).1, h.nodup, fun f hf g hg heq => ?_⟩
    subst heq
    exact h.notMem f hg (by rw [hused]; exact List.mem_append_left _ (hmem.mp hf))
  · rcases List.mem_append.mp hf with hf | hf
    · intro hf'
      exact (List.nodup_append.mp hnodup).2.2 f hf f
        (List.mem_filterMap.mpr ⟨some f, hf', rfl⟩) rfl
    · exact fun hf' => h.notMem f hf (by rw [hused]; exact List.mem_append_right _ hf')

/-- The ledger is about the owned frames only. -/
theorem Ledger.congr {pt pt' : PageTable} {allocated : List ℕ} {frames frames' : List (Option ℕ)}
    (h : pt.Ledger allocated frames) (hheld : pt'.held = pt.held)
    (hframes : ∀ f ∈ allocated, some f ∉ frames') : pt'.Ledger allocated frames' where
  mem_iff := by
    rw [hheld]
    exact h.mem_iff
  inj := by
    rw [hheld]
    exact h.inj
  nodup := h.nodup
  notMem := hframes

/-- A page that is not the address space's own changes nothing. -/
theorem held_setLeaf_foreign {pt : PageTable} {c : Path} {l : Leaf} (hc : pt.held c = none)
    (hl : l.rights.alloc = false) : (pt.setLeaf c l).held = pt.held := by
  funext q
  by_cases hq : q = c
  · subst hq
    cases htable : pt.table q with
    | some next =>
        obtain ⟨t, r⟩ := next
        rw [held_of_table htable] at hc
        cases hc
    | none =>
        rw [hc, @held_of_leaf (pt.setLeaf q l) _ _ htable (Function.update_self _ _ _), hl]
        simp
  · simp only [held, setLeaf_table, setLeaf_leaf, Function.update_of_ne hq]

/-- A page with a frame of its own is entered into the ledger. -/
theorem Ledger.setLeaf {pt : PageTable} {allocated : List ℕ} {frames : List (Option ℕ)} {c : Path}
    {l : Leaf} {f : ℕ} (h : pt.Ledger allocated frames) (htable : pt.table c = none)
    (hleaf : pt.leaf c = none) (hl : l.rights.alloc = true) (hlen : c.length = 4)
    (hf : physToVirt l.frame = f) (hnew : f ∉ allocated) (hframes : some f ∉ frames) :
    (pt.setLeaf c l).Ledger (f :: allocated) frames := by
  have hself : (pt.setLeaf c l).held c = some f := by
    rw [@held_of_leaf (pt.setLeaf c l) _ _ htable (Function.update_self _ _ _), if_pos ⟨hl, hlen⟩, hf]
  have hother {q : Path} (hq : q ≠ c) : (pt.setLeaf c l).held q = pt.held q := by
    simp only [held, setLeaf_table, setLeaf_leaf, Function.update_of_ne hq]
  have hold : pt.held c = none := held_of_none htable hleaf
  have hcase {q : Path} {g : ℕ} (hq : (pt.setLeaf c l).held q = some g) :
      q = c ∧ g = f ∨ q ≠ c ∧ pt.held q = some g := by
    by_cases hqc : q = c
    · rw [hqc, hself] at hq
      exact Or.inl ⟨hqc, (Option.some.inj hq).symm⟩
    · rw [hother hqc] at hq
      exact Or.inr ⟨hqc, hq⟩
  refine ⟨fun g => ?_, fun {q q' g} hq hq' => ?_, List.nodup_cons.mpr ⟨hnew, h.nodup⟩, fun g hg => ?_⟩
  · rw [List.mem_cons, h.mem_iff]
    constructor
    · rintro (rfl | ⟨q, hq⟩)
      · exact ⟨c, hself⟩
      · have hqc : q ≠ c := fun heq => by rw [heq, hold] at hq; cases hq
        exact ⟨q, by rw [hother hqc, hq]⟩
    · rintro ⟨q, hq⟩
      rcases hcase hq with ⟨-, rfl⟩ | ⟨-, hq⟩
      · exact Or.inl rfl
      · exact Or.inr ⟨q, hq⟩
  · rcases hcase hq with ⟨hqc, hg⟩ | ⟨-, hq⟩ <;> rcases hcase hq' with ⟨hqc', hg'⟩ | ⟨-, hq'⟩
    · rw [hqc, hqc']
    · exact absurd ((h.mem_iff f).mpr ⟨q', hg ▸ hq'⟩) hnew
    · exact absurd ((h.mem_iff f).mpr ⟨q, hg' ▸ hq⟩) hnew
    · exact h.inj hq hq'
  · rcases List.mem_cons.mp hg with rfl | hg
    · exact hframes
    · exact h.notMem g hg

/-- `frame_alloc` hands out a frame: nothing happens to the tree. -/
theorem Valid.frameAlloc_some {pt : PageTable} {pml4 : ℕ} {claimed : Set Path} {k : Kernel} {f : ℕ}
    {frames : List (Option ℕ)} (h : pt.Valid pml4 claimed k) (hframes : k.frames = some f :: frames) :
    frameAlloc k = (f, { k with
        mem := k.mem.memset f 0 pageSize, frames := frames, freed := k.freed.filter (· ≠ f) }) ∧
      IsFrame f ∧ some f ∉ frames ∧ pt.Valid pml4 claimed (frameAlloc k).2 := by
  obtain ⟨hnodup, hfresh⟩ := h.fresh
  rw [hframes] at hnodup hfresh
  obtain ⟨hnew, hnodup⟩ := List.nodup_cons.mp hnodup
  obtain ⟨hframe, hnotable⟩ := hfresh f List.mem_cons_self
  have halloc : frameAlloc k = (f, { k with
      mem := k.mem.memset f 0 pageSize, frames := frames, freed := k.freed.filter (· ≠ f) }) := by
    rw [frameAlloc, hframes]
  refine ⟨halloc, hframe, fun hmem => hnew (List.mem_filterMap.mpr ⟨some f, hmem, rfl⟩), ?_⟩
  rw [halloc]
  refine ⟨h.wf, h.rep.congr fun q t r hq a ha => ?_, hnodup, fun g hg => hfresh g (List.mem_cons_of_mem _ hg)⟩
  refine Mem.memset_of_outside _ _ ?_
  by_contra hin
  have hfa : InFrame f a := show f ≤ a ∧ a < f + pageSize by omega
  have heq := inFrame_unique (h.wf.isFrame hq).1 hframe.1 ha hfa
  exact hnotable q r (heq ▸ hq)

end PageTable

/-! ## Steps -/

/-- An address space, the kernel it lives in, and the frames taken for it so far. -/
structure Space where
  vm : Vmem
  k : Kernel
  allocated : List ℕ

/-- The frames that `frame_alloc` handed out between two states. -/
def taken (k k' : Kernel) : List ℕ :=
  (k.frames.take (k.frames.length - k'.frames.length)).filterMap id

theorem taken_eq {k k' : Kernel} {used : List (Option ℕ)} (hused : k.frames = used ++ k'.frames) :
    taken k k' = used.filterMap id := by
  rw [taken, hused, List.length_append, Nat.add_sub_cancel, List.take_left]

/-- The frames to come are different frames that the address space neither has as tables
nor maps as pages of 4 KiB. -/
def Unused (m : Mem) (pml4 : ℕ) (frames : List (Option ℕ)) : Prop :=
  FreshFrames frames ∧ ∀ f, some f ∈ frames → (∀ depth, ¬IsTable m pml4 depth f) ∧
    ∀ addr tr, pageSize ∣ addr → walk m pml4 addr = some tr → tr.level = 0 → physToVirt tr.phys ≠ f

/-- What the rest of the system does in the meantime: it writes anywhere but to the tables,
and frames of the address space are neither handed out nor given back. -/
structure Untouched (s : Space) (k : Kernel) : Prop where
  tables : ∀ depth t a, IsTable s.k.mem s.vm.pml4 depth t → InFrame t a → k.mem a = s.k.mem a
  unused : Unused k.mem s.vm.pml4 k.frames
  kept : ∀ f ∈ s.allocated, some f ∉ k.frames
  freed : ∀ g ∈ k.freed, pageSize ∣ g ∧ g ∉ s.allocated

inductive SpaceLabel
  | map (call : MapCall)
  | allocPages (start pgcnt : ℕ) (flags : BitVec 64)
  | fault (addr : ℕ)
  | freePages (start pgcnt : ℕ)
  | other

/-- How an address space grows. Mapping calls are legal and do not overlap, ask for
`VMEM_ALLOC` on pages of 4 KiB only, and map no frame that is still to be handed out. A
page fault happens at an address without a page, and there is a frame for it. -/
inductive SpaceStep : Space → SpaceLabel → Space → Prop
  | map {s : Space} {call : MapCall} {res : Int} {k : Kernel} (hlegal : call.Legal)
      (hclear : ¬call.Overlaps s.vm s.k.mem)
      (hsmall : call.flags &&& vmemAlloc ≠ 0 → call.size = .page)
      (hframe : call.size = .page → some (physToVirt call.frame) ∉ s.k.frames)
      (hcall : call.run s.vm s.k = .ok (res, k)) :
      SpaceStep s (.map call) ⟨s.vm, k, taken s.k k ++ s.allocated⟩
  | allocPages {s : Space} {start pgcnt : ℕ} {flags : BitVec 64} {res : Int} {vm : Vmem} {k : Kernel}
      (hcall : vmemAllocPages s.vm start pgcnt flags s.k = .ok (res, vm, k)) :
      SpaceStep s (.allocPages start pgcnt flags) ⟨vm, k, s.allocated⟩
  | fault {s : Space} {addr f : ℕ} {frames : List (Option ℕ)} {handled : Bool} {k : Kernel}
      (haddr : Canonical addr) (hunmapped : walk s.k.mem s.vm.pml4 addr = none)
      (hframe : s.k.frames = some f :: frames)
      (hcall : vmemHandlePf s.vm addr s.k = .ok (handled, k)) :
      SpaceStep s (.fault addr) ⟨s.vm, k, taken s.k k ++ s.allocated⟩
  | other {s : Space} {k : Kernel} (huntouched : Untouched s k) :
      SpaceStep s .other ⟨s.vm, k, s.allocated⟩

/-- A mapping call for a frame that is not, and does not become, the address space's
own. -/
def SpaceLabel.Foreign (s : Space) : SpaceLabel → Prop
  | .map call => call.flags &&& vmemAlloc = 0 ∧ (call.size = .page → physToVirt call.frame ∉ s.allocated)
  | _ => True

/-! ## Invariants -/

/-- The tree of an address space whose own pages have 4 KiB. -/
structure SpaceInv (s : Space) (pt : PageTable) (claimed : Set Path) : Prop where
  valid : pt.Valid s.vm.pml4 claimed s.k
  small : ∀ {q l}, pt.leaf q = some l → l.rights.alloc → q.length = 4
  unused : ∀ {q l}, pt.leaf q = some l → q.length = 4 → some (physToVirt l.frame) ∉ s.k.frames

/-- The frames taken for an address space are those that it owns. -/
structure Owned (s : Space) (pt : PageTable) : Prop where
  ledger : pt.Ledger s.allocated s.k.frames
  isFrame : ∀ f ∈ s.allocated, IsFrame f
  foreign : ∀ {q l}, pt.leaf q = some l → q.length = 4 → l.rights.alloc = false →
    physToVirt l.frame ∉ s.allocated
  freed : ∀ g ∈ s.k.freed, g ∉ s.allocated

section Steps

variable {s : Space} {pt pt' : PageTable} {claimed claimed' : Set Path} {k' : Kernel}

/-- The tree with one more page. -/
theorem SpaceInv.setLeaf (h : SpaceInv s pt claimed) {c : Path} {l : Leaf} (allocated : List ℕ)
    (hvalid : pt'.Valid s.vm.pml4 claimed' k') (hframes : ∀ f, some f ∈ k'.frames → some f ∈ s.k.frames)
    (hleaf : pt'.leaf = Function.update pt.leaf c (some l)) (hsmall : l.rights.alloc → c.length = 4)
    (hunused : c.length = 4 → some (physToVirt l.frame) ∉ k'.frames) :
    SpaceInv ⟨s.vm, k', allocated⟩ pt' claimed' := by
  have hcase {q : Path} {l' : Leaf} (hl : pt'.leaf q = some l') :
      q = c ∧ l' = l ∨ pt.leaf q = some l' := by
    rw [hleaf] at hl
    exact (@setLeaf_cases pt _ _ _ _ hl).imp_right And.right
  refine ⟨hvalid, fun hl halloc => ?_, fun hl hq hmem => ?_⟩
  · rcases hcase hl with ⟨rfl, rfl⟩ | hl
    · exact hsmall halloc
    · exact h.small hl halloc
  · rcases hcase hl with ⟨rfl, rfl⟩ | hl
    · exact hunused hq hmem
    · exact h.unused hl hq (hframes _ hmem)

theorem MapCall.size_of_path_length {call : MapCall} (hlen : call.path.length = 4) :
    call.size = .page := by
  rw [PageSpan.path, pathTo_length] at hlen
  cases hcase : call.size with
  | page => rfl
  | page2mb => rw [hcase] at hlen; cases hlen
  | page1gb => rw [hcase] at hlen; cases hlen

/-- A mapping call keeps the tree. -/
theorem SpaceInv.map (h : SpaceInv s pt claimed) {call : MapCall} {res : Int} (hlegal : call.Legal)
    (hclear : ¬call.Overlaps s.vm s.k.mem)
    (hsmall : call.flags &&& vmemAlloc ≠ 0 → call.size = .page)
    (hframe : call.size = .page → some (physToVirt call.frame) ∉ s.k.frames)
    (hcall : call.run s.vm s.k = .ok (res, k')) (allocated : List ℕ) :
    ∃ pt' claimed', SpaceInv ⟨s.vm, k', allocated⟩ pt' claimed' ∧ Grows pt s.k pt' k' ∧
      (∀ q, (pt.leaf q).isSome → q ∈ claimed' ∧ q ≠ call.path) ∧
      (res = 0 ∧ pt'.leaf = Function.update pt.leaf call.path (some call.leaf) ∨
        res = -enomem ∧ pt'.leaf = pt.leaf) := by
  obtain ⟨pt', claimed', hvalid, hgrows, hold, hres⟩ :=
    MapCall.run_of_not_overlaps h.valid hlegal hclear hcall
  obtain ⟨used, hused, -⟩ := hgrows.used
  have hmore : ∀ f, some f ∈ k'.frames → some f ∈ s.k.frames := fun f hf =>
    hused ▸ List.mem_append_right _ hf
  refine ⟨pt', claimed', ?_, hgrows, hold, hres⟩
  rcases hres with ⟨-, hleaf⟩ | ⟨-, hleaf⟩
  · refine h.setLeaf allocated hvalid hmore hleaf (fun halloc => ?_) fun hlen hmem => ?_
    · have hsize := hsmall (by simpa [MapCall.leaf, rightsOf] using halloc)
      rw [PageSpan.path, pathTo_length, hsize]
      rfl
    · exact hframe (MapCall.size_of_path_length hlen) (hmore _ hmem)
  · refine ⟨hvalid, fun hl => h.small (hleaf ▸ hl), fun hl hq hmem => ?_⟩
    exact h.unused (hleaf ▸ hl) hq (hmore _ hmem)

/-- With three frames a call on a new part of the address space puts its page into the tree. -/
theorem SpaceInv.map_new (h : SpaceInv s pt claimed) {call : MapCall} (hlegal : call.Legal)
    (hnew : ∀ c ∈ claimed, ¬call.path <:+ c ∧ ¬c <:+ call.path)
    (hsmall : call.flags &&& vmemAlloc ≠ 0 → call.size = .page)
    (hframe : call.size = .page → some (physToVirt call.frame) ∉ s.k.frames) {n : ℕ}
    (hplenty : Plenty (n + 3) s.k.frames) :
    ¬call.Overlaps s.vm s.k.mem ∧ ∃ k' pt', call.run s.vm s.k = .ok (0, k') ∧ Plenty n k'.frames ∧
      SpaceInv ⟨s.vm, k', taken s.k k' ++ s.allocated⟩ pt' (insert call.path claimed) ∧ Grows pt s.k pt' k' ∧
      pt'.leaf = Function.update pt.leaf call.path (some call.leaf) := by
  refine ⟨fun hover => ?_, ?_⟩
  · obtain ⟨q, hq, hmeet⟩ := (MapCall.overlaps_iff_leaf h.valid hlegal).mp hover
    have hapart := hnew q (h.valid.wf.leaf_claimed hq)
    exact hmeet.elim hapart.1 hapart.2
  obtain ⟨res, k', pt', hcall, hvalid, hgrows, hres, -⟩ := MapCall.run_spec h.valid hlegal hnew
  obtain ⟨rfl, hleft⟩ := MapCall.run_enough h.valid hlegal hnew hcall hplenty
  have hleaf : pt'.leaf = Function.update pt.leaf call.path (some call.leaf) := by
    rcases hres with ⟨-, hleaf⟩ | ⟨henomem, -⟩
    · exact hleaf
    · exact absurd henomem (by decide)
  obtain ⟨used, hused, -⟩ := hgrows.used
  have hmore : ∀ f, some f ∈ k'.frames → some f ∈ s.k.frames := fun f hf =>
    hused ▸ List.mem_append_right _ hf
  refine ⟨k', pt', hcall, hleft, h.setLeaf _ hvalid hmore hleaf (fun halloc => ?_) fun hlen hmem => ?_,
    hgrows, hleaf⟩
  · have hsize := hsmall (by simpa [MapCall.leaf, rightsOf] using halloc)
    rw [PageSpan.path, pathTo_length, hsize]
    rfl
  · exact hframe (MapCall.size_of_path_length hlen) (hmore _ hmem)

/-- New tables are entered into the books. -/
theorem Owned.grow (h : Owned s pt) (hinv : SpaceInv s pt claimed)
    (hvalid : pt'.Valid s.vm.pml4 claimed' k') (hold : ∀ q, (pt.leaf q).isSome → q ∈ claimed')
    (hgrows : Grows pt s.k pt' k') :
    Owned ⟨s.vm, k', taken s.k k' ++ s.allocated⟩ ⟨pt'.table, pt.leaf⟩ := by
  obtain ⟨used, hused, -⟩ := hgrows.used
  have htaken := taken_eq hused
  have hmem {f : ℕ} (hf : f ∈ taken s.k k') : some f ∈ used := by
    rw [htaken] at hf
    simpa using hf
  have hmem' {f : ℕ} (hf : f ∈ taken s.k k') : some f ∈ s.k.frames :=
    hused ▸ List.mem_append_left _ (hmem hf)
  refine ⟨?_, fun f hf => ?_, fun hl hq hforeign hf => ?_, fun g hg hf => ?_⟩
  · have hledger := h.ledger.grow hinv.valid hvalid hold hgrows hused
    rwa [← htaken] at hledger
  · rcases List.mem_append.mp hf with hf | hf
    · exact (hinv.valid.fresh.2 f (hmem' hf)).1
    · exact h.isFrame f hf
  · rcases List.mem_append.mp hf with hf | hf
    · exact hinv.unused hl hq (hmem' hf)
    · exact h.foreign hl hq hforeign hf
  · rcases List.mem_append.mp hf with hf | hf
    · have hnodup := hinv.valid.fresh.1
      rw [hused, List.filterMap_append] at hnodup
      refine (List.nodup_append.mp hnodup).2.2 g (htaken ▸ hf) g ?_ rfl
      exact List.mem_filterMap.mpr ⟨some g, (hgrows.freed g hg).2 (hmem' hf), rfl⟩
    · exact h.freed g (hgrows.freed g hg).1 hf

/-- A foreign page. -/
theorem Owned.setForeign (h : Owned s pt) {c : Path} {l : Leaf} (hc : pt.held c = none)
    (hl : l.rights.alloc = false) (hforeign : c.length = 4 → physToVirt l.frame ∉ s.allocated) :
    Owned s (pt.setLeaf c l) where
  ledger := h.ledger.congr (held_setLeaf_foreign hc hl) h.ledger.notMem
  isFrame := h.isFrame
  foreign := by
    intro q l' hq hlen halloc
    rcases setLeaf_cases hq with ⟨rfl, rfl⟩ | ⟨-, hq⟩
    · exact hforeign hlen
    · exact h.foreign hq hlen halloc
  freed := h.freed

/-- A page with a frame of its own. -/
theorem Owned.setOwned (h : Owned s pt) {c : Path} {l : Leaf} {f : ℕ} (htable : pt.table c = none)
    (hleaf : pt.leaf c = none) (hl : l.rights.alloc = true) (hlen : c.length = 4)
    (hf : physToVirt l.frame = f) (hframe : IsFrame f) (hnew : f ∉ s.allocated)
    (hframes : some f ∉ s.k.frames) (hfreed : f ∉ s.k.freed)
    (hforeign : ∀ q l, pt.leaf q = some l → q.length = 4 → physToVirt l.frame ≠ f) :
    Owned ⟨s.vm, s.k, f :: s.allocated⟩ (pt.setLeaf c l) where
  ledger := h.ledger.setLeaf htable hleaf hl hlen hf hnew hframes
  isFrame := by
    intro g hg
    rcases List.mem_cons.mp hg with rfl | hg
    · exact hframe
    · exact h.isFrame g hg
  foreign := by
    intro q l' hq hqlen halloc hmem
    rcases setLeaf_cases hq with ⟨-, rfl⟩ | ⟨-, hq⟩
    · rw [hl] at halloc
      cases halloc
    · rcases List.mem_cons.mp hmem with heq | hmem
      · exact hforeign q l' hq hqlen heq
      · exact h.foreign hq hqlen halloc hmem
  freed := by
    intro g hg hmem
    rcases List.mem_cons.mp hmem with rfl | hmem
    · exact hfreed hg
    · exact h.freed g hg hmem

/-- The tree after a mapping call is the one before with its page, or with more tables. -/
theorem eq_setLeaf {c : Path} {l : Leaf} (hleaf : pt'.leaf = Function.update pt.leaf c (some l)) :
    pt' = PageTable.setLeaf ⟨pt'.table, pt.leaf⟩ c l := by
  rw [setLeaf, ← hleaf]

theorem Owned.map (h : Owned s pt) (hinv : SpaceInv s pt claimed) {call : MapCall} {res : Int}
    (hvalid : pt'.Valid s.vm.pml4 claimed' k') (hgrows : Grows pt s.k pt' k')
    (hold : ∀ q, (pt.leaf q).isSome → q ∈ claimed' ∧ q ≠ call.path)
    (hres : res = 0 ∧ pt'.leaf = Function.update pt.leaf call.path (some call.leaf) ∨
      res = -enomem ∧ pt'.leaf = pt.leaf)
    (hframe : call.size = .page → some (physToVirt call.frame) ∉ s.k.frames)
    (hforeign : SpaceLabel.Foreign s (.map call)) :
    Owned ⟨s.vm, k', taken s.k k' ++ s.allocated⟩ pt' := by
  have hgrown := h.grow hinv hvalid (fun q hq => (hold q hq).1) hgrows
  rcases hres with ⟨-, hleaf⟩ | ⟨-, hleaf⟩
  · rw [eq_setLeaf hleaf]
    have hclaim := hvalid.wf.leaf_claimed (q := call.path) (by rw [hleaf, Function.update_self]; rfl)
    have hnone : pt.leaf call.path = none := by
      by_contra hsome
      exact (hold _ (Option.isSome_iff_ne_none.mpr hsome)).2 rfl
    have halloc : call.leaf.rights.alloc = false := by simp [MapCall.leaf, rightsOf, hforeign.1]
    refine hgrown.setForeign (held_of_none (hvalid.wf.table_of_claimed hclaim) hnone) halloc
      fun hlen hmem => ?_
    have hsize := MapCall.size_of_path_length hlen
    rcases List.mem_append.mp hmem with hmem | hmem
    · obtain ⟨used, hused, -⟩ := hgrows.used
      rw [taken_eq hused] at hmem
      refine hframe hsize ?_
      rw [hused]
      exact List.mem_append_left _ (by simpa [MapCall.leaf] using hmem)
    · exact hforeign.2 hsize hmem
  · rw [show pt' = ⟨pt'.table, pt.leaf⟩ by rw [← hleaf]]
    exact hgrown

/-- `vmem_alloc_pages` changes the list of areas only. -/
theorem vmemAllocPages_keeps {vm vm' : Vmem} {start pgcnt : ℕ} {flags : BitVec 64} {k : Kernel}
    {res : Int} (hcall : vmemAllocPages vm start pgcnt flags k = .ok (res, vm', k')) :
    vm'.pml4 = vm.pml4 ∧ k' = { k with objects := k'.objects } := by
  unfold vmemAllocPages at hcall
  obtain ⟨_, -, hcall⟩ := bind_eq_ok.mp hcall
  simp only at hcall
  have hobj := objectAlloc_eq k
  generalize objectAlloc k = out at hcall hobj
  obtain ⟨ok, k1⟩ := out
  simp only at hcall hobj
  split_ifs at hcall
  · obtain ⟨-, rfl, rfl⟩ : _ ∧ _ ∧ _ := by simpa [pure, Except.pure] using hcall
    exact ⟨rfl, hobj⟩
  · obtain ⟨-, rfl, rfl⟩ : _ ∧ _ ∧ _ := by simpa [pure, Except.pure] using hcall
    exact ⟨rfl, hobj⟩

/-- What `vmem_alloc_pages` does to the list of areas. -/
theorem vmemAllocPages_cases {vm vm' : Vmem} {start pgcnt : ℕ} {flags : BitVec 64} {k : Kernel}
    {res : Int} (hcall : vmemAllocPages vm start pgcnt flags k = .ok (res, vm', k')) :
    res < 0 ∧ vm'.areas = vm.areas ∨
      vmemIntersects vm start pgcnt = false ∧ vm'.areas = ⟨start, pgcnt, flags⟩ :: vm.areas := by
  unfold vmemAllocPages at hcall
  obtain ⟨_, -, hcall⟩ := bind_eq_ok.mp hcall
  simp only at hcall
  split_ifs at hcall with hinter hobj
  · obtain ⟨-, rfl, -⟩ : _ ∧ _ ∧ _ := by simpa [pure, Except.pure] using hcall
    exact Or.inr ⟨by simpa using hinter, rfl⟩
  · obtain ⟨rfl, rfl, -⟩ : _ ∧ _ ∧ _ := by simpa [pure, Except.pure] using hcall
    exact Or.inl ⟨by decide, rfl⟩

end Steps

/-! ## Page faults -/

/-- The mapping call of `vmem_handle_pf`. -/
def faultCall (addr f : ℕ) (flags : BitVec 64) : MapCall :=
  ⟨⟨.page, roundDown addr pageSize⟩, virtToPhys f, flags⟩

theorem faultCall_aligned {addr f : ℕ} {flags : BitVec 64} (haddr : Canonical addr) :
    (faultCall addr f flags).Aligned := by
  refine ⟨?_, dvd_roundDown addr pageSize⟩
  have hdvd : pageSize ∣ roundDown addr pageSize := dvd_roundDown addr pageSize
  have hle := roundDown_le addr pageSize
  have hlt := lt_roundDown_add addr (show 0 < pageSize by decide)
  show Canonical (roundDown addr pageSize)
  generalize roundDown addr pageSize = base at *
  unfold Canonical at *
  unfold pageSize at *
  omega

theorem faultCall_legal {addr f : ℕ} (haddr : Canonical addr) (hf : IsFrame f) (flags : BitVec 64) :
    (faultCall addr f flags).Legal :=
  ⟨faultCall_aligned haddr, hf.dvd_virtToPhys, hf.virtToPhys_lt⟩

theorem faultCall_covers {addr f : ℕ} {flags : BitVec 64} : (faultCall addr f flags).Covers addr :=
  ⟨roundDown_le addr pageSize, lt_roundDown_add addr (show 0 < pageSize by decide)⟩

theorem faultCall_path {addr : ℕ} (haddr : Canonical addr) (f : ℕ) (flags : BitVec 64) :
    (faultCall addr f flags).path = pathTo addr 4 :=
  ((PageSpan.covers_iff (faultCall_aligned haddr) haddr).mp faultCall_covers).symm

theorem rightsOf_alloc (flags : BitVec 64) : (rightsOf (flags ||| vmemAlloc)).alloc = true := by
  have hbit : ¬(flags ||| vmemAlloc) &&& vmemAlloc = 0 := by
    rw [vmemAlloc, and_bit_eq_zero_iff _ (by decide), BitVec.getLsbD_or,
      getLsbD_one_shiftLeft (by decide)]
    simp
  simpa [rightsOf] using hbit

/-- A page fault outside of the areas does nothing; else it takes a frame and maps it. -/
theorem vmemHandlePf_cases {vm : Vmem} {addr : ℕ} {k k' : Kernel} {handled : Bool}
    (hcall : vmemHandlePf vm addr k = .ok (handled, k')) :
    vmemIsMapped vm addr = none ∧ handled = false ∧ k' = k ∨
      ∃ area res, vmemIsMapped vm addr = some area ∧ handled = true ∧ 0 ≤ res ∧
        (faultCall addr (frameAlloc k).1 (area.flags ||| vmemAlloc)).run vm (frameAlloc k).2 =
          .ok (res, k') := by
  unfold vmemHandlePf at hcall
  cases harea : vmemIsMapped vm addr with
  | none =>
      rw [harea] at hcall
      obtain ⟨rfl, rfl⟩ := Prod.mk.inj (Except.ok.inj hcall)
      exact Or.inl ⟨rfl, rfl, rfl⟩
  | some area =>
      rw [harea] at hcall
      simp only at hcall
      split_ifs at hcall
      obtain ⟨⟨res, k1⟩, hmap, hcall⟩ := bind_eq_ok.mp hcall
      simp only at hcall
      split_ifs at hcall with hres
      obtain ⟨rfl, rfl⟩ := Prod.mk.inj (Except.ok.inj hcall)
      exact Or.inr ⟨area, res, rfl, rfl, by omega, hmap⟩

/-- Whether an address has a page depends on its indices only. -/
theorem walk_isSome_congr {pt : PageTable} {pml4 : ℕ} {claimed claimed' : Set Path} {k k' : Kernel}
    (h : pt.Valid pml4 claimed k) (h' : pt.Valid pml4 claimed' k') {addr addr' : ℕ}
    (hpath : pathTo addr 4 = pathTo addr' 4) (hsome : (walk k.mem pml4 addr).isSome) :
    (walk k'.mem pml4 addr').isSome := by
  obtain ⟨tr, hwalk⟩ := Option.isSome_iff_exists.mp hsome
  obtain ⟨n, hn, -, -, hle⟩ := exists_leaf_of_walk h.wf h.rep hwalk
  rw [pathTo_congr hpath hle] at hn
  obtain ⟨l, hl⟩ := Option.isSome_iff_exists.mp hn
  rw [walk_of_leaf h'.wf h'.rep hl]
  rfl

/-- At an address without a page there is nothing in the way of the handler. -/
theorem SpaceInv.fault_clear {s : Space} {pt : PageTable} {claimed : Set Path} (h : SpaceInv s pt claimed)
    {addr f : ℕ} {frames : List (Option ℕ)} (flags : BitVec 64) (haddr : Canonical addr)
    (hunmapped : walk s.k.mem s.vm.pml4 addr = none) (hframe : s.k.frames = some f :: frames) :
    ¬(faultCall addr f flags).Overlaps s.vm (frameAlloc s.k).2.mem := by
  obtain ⟨-, hf, -, hvalid⟩ := h.valid.frameAlloc_some hframe
  have hlegal := faultCall_legal haddr hf flags
  rintro ⟨addr', hcov, hsome⟩
  have hsame := (PageSpan.covers_iff hlegal.aligned (hcov.canonical hlegal.aligned)).mp hcov
  have hwalk := walk_isSome_congr hvalid h.valid (hsame.trans (faultCall_path haddr f flags)) hsome
  rw [hunmapped] at hwalk
  cases hwalk

/-- In an area, and with four frames, a page fault is handled. -/
theorem SpaceInv.fault_plenty {s : Space} {pt : PageTable} {claimed : Set Path} (h : SpaceInv s pt claimed)
    {addr n : ℕ} {area : VmemArea} (haddr : Canonical addr) (hunmapped : walk s.k.mem s.vm.pml4 addr = none)
    (harea : vmemIsMapped s.vm addr = some area) (hplenty : Plenty (n + 4) s.k.frames) :
    ∃ k', vmemHandlePf s.vm addr s.k = .ok (true, k') ∧ Plenty n k'.frames := by
  obtain ⟨f, frames, hframe, hrest⟩ := hplenty.cons
  obtain ⟨halloc, hf, -, hvalid⟩ := h.valid.frameAlloc_some hframe
  have hclear := h.fault_clear (area.flags ||| vmemAlloc) haddr hunmapped hframe
  have hleft : (frameAlloc s.k).2.frames = frames := by rw [halloc]
  obtain ⟨k', hrun, hplenty'⟩ := MapCall.run_page_plenty hvalid (faultCall_legal haddr hf _) hclear rfl (hleft ▸ hrest)
  refine ⟨k', ?_, hplenty'⟩
  have hphys : virtToPhys f ≠ 0 := by
    have hlow := hf.2.1
    rw [hf.virtToPhys_eq]
    omega
  have hfst : (frameAlloc s.k).1 = f := by rw [halloc]
  have hmap : vmemMapPage s.vm (roundDown addr pageSize) (virtToPhys f) (area.flags ||| vmemAlloc) (frameAlloc s.k).2 =
      .ok (0, k') := hrun
  unfold vmemHandlePf
  simp only [harea, hfst, if_neg hphys, hmap, ok_bind]
  rfl

/-- A page fault at an address without a page puts a page with a frame of its own into
the tree. -/
theorem SpaceInv.fault {s : Space} {pt : PageTable} {claimed : Set Path} (h : SpaceInv s pt claimed)
    {addr f : ℕ} {frames : List (Option ℕ)} {handled : Bool} {k' : Kernel} (haddr : Canonical addr)
    (hunmapped : walk s.k.mem s.vm.pml4 addr = none) (hframe : s.k.frames = some f :: frames)
    (hcall : vmemHandlePf s.vm addr s.k = .ok (handled, k')) :
    handled = false ∧ k' = s.k ∨ ∃ pt' claimed' area, vmemIsMapped s.vm addr = some area ∧
      SpaceInv ⟨s.vm, k', taken s.k k' ++ s.allocated⟩ pt' claimed' ∧
      Grows pt (frameAlloc s.k).2 pt' k' ∧
      (∀ q, (pt.leaf q).isSome → q ∈ claimed' ∧ q ≠ pathTo addr 4) ∧
      pt'.leaf = Function.update pt.leaf (pathTo addr 4)
        (some ⟨virtToPhys f, rightsOf (area.flags ||| vmemAlloc)⟩) := by
  obtain ⟨halloc, hf, hnew, hvalid⟩ := h.valid.frameAlloc_some hframe
  rcases vmemHandlePf_cases hcall with ⟨-, hunhandled, rfl⟩ | ⟨area, res, harea, -, hres, hrun⟩
  · exact Or.inl ⟨hunhandled, rfl⟩
  right
  have hfst : (frameAlloc s.k).1 = f := by rw [halloc]
  have hrest : (frameAlloc s.k).2.frames = frames := by rw [halloc]
  rw [hfst] at hrun
  have hlegal := faultCall_legal haddr hf (area.flags ||| vmemAlloc)
  have hpath := faultCall_path haddr f (area.flags ||| vmemAlloc)
  have hinv : SpaceInv ⟨s.vm, (frameAlloc s.k).2, s.allocated⟩ pt claimed := by
    refine ⟨hvalid, h.small, fun hl hq hmem => h.unused hl hq ?_⟩
    rw [hrest] at hmem
    rw [hframe]
    exact List.mem_cons_of_mem _ hmem
  have hclear := h.fault_clear (area.flags ||| vmemAlloc) haddr hunmapped hframe
  have hphys : physToVirt (virtToPhys f) = f := hf.physToVirt_virtToPhys
  obtain ⟨pt', claimed', hinv', hgrows, hold, hleaf⟩ := hinv.map hlegal hclear (fun _ => rfl)
    (fun _ hmem => hnew (by rw [← hrest, ← hphys]; exact hmem)) hrun (taken s.k k' ++ s.allocated)
  rw [hpath] at hold hleaf
  refine ⟨pt', claimed', area, harea, hinv', hgrows, hold, ?_⟩
  rcases hleaf with ⟨-, hleaf⟩ | ⟨hneg, -⟩
  · exact hleaf
  · rw [hneg] at hres
    exact absurd hres (by decide)

/-- A page with a frame `f` that was just handed out; between that and the mapping call only
`f` was written to. -/
theorem Owned.mapOwn {s : Space} {pt pt' : PageTable} {claimed claimed' : Set Path} (h : Owned s pt)
    (hinv : SpaceInv s pt claimed) {c : Path} {f : ℕ} {frames : List (Option ℕ)} {r : Rights}
    {k1 k' : Kernel} (hframe : s.k.frames = some f :: frames) (hrest : k1.frames = frames)
    (hfreed : k1.freed = s.k.freed.filter (· ≠ f)) (hvalid1 : pt.Valid s.vm.pml4 claimed k1)
    (hvalid : pt'.Valid s.vm.pml4 claimed' k') (hgrows : Grows pt k1 pt' k')
    (hold : ∀ q, (pt.leaf q).isSome → q ∈ claimed' ∧ q ≠ c) (hlen : c.length = 4)
    (halloc : r.alloc = true) (hleaf : pt'.leaf = Function.update pt.leaf c (some ⟨virtToPhys f, r⟩)) :
    Owned ⟨s.vm, k', taken s.k k' ++ s.allocated⟩ pt' := by
  obtain ⟨-, hf, hnew, -⟩ := hinv.valid.frameAlloc_some hframe
  have hmore {g : ℕ} (hg : some g ∈ frames) : some g ∈ s.k.frames := by
    rw [hframe]
    exact List.mem_cons_of_mem _ hg
  have hfmem : some f ∈ s.k.frames := by
    rw [hframe]
    exact List.mem_cons_self
  have hown : Owned ⟨s.vm, k1, s.allocated⟩ pt := by
    refine ⟨h.ledger.congr rfl fun g hg hmem => h.ledger.notMem g hg (hmore (hrest ▸ hmem)), h.isFrame,
      h.foreign, fun g hg => h.freed g ?_⟩
    rw [hfreed] at hg
    exact (List.mem_filter.mp hg).1
  have hinv1 : SpaceInv ⟨s.vm, k1, s.allocated⟩ pt claimed :=
    ⟨hvalid1, hinv.small, fun hl hq hmem => hinv.unused hl hq (hmore (hrest ▸ hmem))⟩
  obtain ⟨used, hused, -⟩ := hgrows.used
  have hused' := hused
  rw [hrest] at hused'
  have htaken : taken s.k k' = f :: taken k1 k' := by
    rw [taken_eq hused, taken_eq (show s.k.frames = (some f :: used) ++ k'.frames by
      rw [hframe, hused']; rfl)]
    rfl
  have hgrown := hown.grow hinv1 hvalid (fun q hq => (hold q hq).1) hgrows
  have hclaim := hvalid.wf.leaf_claimed (q := c) (by rw [hleaf, Function.update_self]; rfl)
  have hnone : pt.leaf c = none := by
    by_contra hsome
    exact (hold c (Option.isSome_iff_ne_none.mpr hsome)).2 rfl
  rw [eq_setLeaf hleaf, htaken, List.cons_append]
  refine hgrown.setOwned (hvalid.wf.table_of_claimed hclaim) hnone halloc hlen
    hf.physToVirt_virtToPhys hf (fun hmem => ?_) (fun hmem => hnew ?_) (fun hmem => ?_)
    fun q l hl hq heq => ?_
  · rcases List.mem_append.mp hmem with hmem | hmem
    · rw [taken_eq hused] at hmem
      exact hnew (hused' ▸ List.mem_append_left _ (by simpa using hmem))
    · exact h.ledger.notMem f hmem hfmem
  · exact hused' ▸ List.mem_append_right _ hmem
  · have := (hgrows.freed f hmem).1
    rw [hfreed] at this
    simp at this
  · exact hinv.unused hl hq (by rwa [heq])

/-! ## The rest of the system -/

/-- Every place for a page of 4 KiB is the place of an aligned address. -/
theorem exists_aligned_pathTo {q : Path} (hlen : q.length = 4) (hlt : ∀ i ∈ q, i < 512) :
    ∃ addr, pageSize ∣ addr ∧ pathTo addr 4 = q := by
  obtain ⟨addr, -, hpath⟩ := exists_pathTo (le_of_eq hlen) hlt
  refine ⟨roundDown addr pageSize, dvd_roundDown _ _, ?_⟩
  rw [← hpath, hlen]
  refine pathTo_eq_of_div_eq (by omega) ?_
  have hle := roundDown_le addr pageSize
  have hlt := lt_roundDown_add addr (show 0 < pageSize by decide)
  have hdvd := dvd_roundDown addr pageSize
  generalize roundDown addr pageSize = base at *
  unfold pageSize at *
  norm_num
  omega

theorem SpaceInv.other {s : Space} {pt : PageTable} {claimed : Set Path} (h : SpaceInv s pt claimed)
    {k : Kernel} (hun : Untouched s k) : SpaceInv ⟨s.vm, k, s.allocated⟩ pt claimed := by
  have hrep : pt.Represents k.mem := h.valid.rep.congr fun q t r hq a ha =>
    hun.tables q.length t a (isTable_of_table h.valid.wf h.valid.rep hq) ha
  have hvalid : pt.Valid s.vm.pml4 claimed k := by
    refine ⟨h.valid.wf, hrep, hun.unused.1.1, fun f hf => ⟨hun.unused.1.2 f hf, fun q r hq => ?_⟩⟩
    exact (hun.unused.2 f hf).1 q.length (isTable_of_table h.valid.wf hrep hq)
  refine ⟨hvalid, h.small, fun {q l} hl hq hmem => ?_⟩
  have hclaim := h.valid.wf.leaf_claimed (q := q) (by rw [hl]; rfl)
  obtain ⟨addr, hdvd, hpath⟩ := exists_aligned_pathTo hq (h.valid.wf.claimed_lt hclaim)
  have hwalk := walk_of_leaf hvalid.wf hvalid.rep (hpath.symm ▸ hl)
  refine (hun.unused.2 _ hmem).2 addr _ hdvd hwalk rfl ?_
  show physToVirt (l.frame + addr % pageSize) = physToVirt l.frame
  rw [Nat.mod_eq_zero_of_dvd hdvd, Nat.add_zero]

theorem Owned.other {s : Space} {pt : PageTable} (h : Owned s pt) {k : Kernel} (hun : Untouched s k) :
    Owned ⟨s.vm, k, s.allocated⟩ pt :=
  ⟨h.ledger.congr rfl hun.kept, h.isFrame, h.foreign, fun g hg => (hun.freed g hg).2⟩

/-! ## Runs -/

/-- Every step keeps the tree, and the books where its mapping calls are for foreign
frames. -/
theorem SpaceStep.inv {s t : Space} {label : SpaceLabel} {pt : PageTable} {claimed : Set Path}
    (h : SpaceInv s pt claimed) (hstep : SpaceStep s label t) :
    ∃ pt' claimed', SpaceInv t pt' claimed' ∧ (label.Foreign s → Owned s pt → Owned t pt') ∧
      ((∀ g ∈ s.k.freed, pageSize ∣ g) → ∀ g ∈ t.k.freed, pageSize ∣ g) := by
  cases hstep with
  | @map call res k hlegal hclear hsmall hframe hcall =>
      obtain ⟨pt', claimed', hinv, hgrows, hold, hres⟩ :=
        h.map hlegal hclear hsmall hframe hcall (taken s.k k ++ s.allocated)
      exact ⟨pt', claimed', hinv, fun hforeign hown =>
        hown.map h hinv.valid hgrows hold hres hframe hforeign, fun hfreed g hg => hfreed g (hgrows.freed g hg).1⟩
  | allocPages hcall =>
      obtain ⟨hpml4, hk⟩ := vmemAllocPages_keeps hcall
      refine ⟨pt, claimed, ⟨?_, h.small, ?_⟩, fun _ hown => ⟨?_, hown.isFrame, hown.foreign, ?_⟩, ?_⟩
      · rw [hpml4, hk]
        exact ⟨h.valid.wf, h.valid.rep, h.valid.fresh⟩
      · rw [hk]
        exact h.unused
      · rw [hk]
        exact hown.ledger
      · rw [hk]
        exact hown.freed
      · rw [hk]
        exact id
  | @fault addr f frames handled k haddr hunmapped hframe hcall =>
      rcases h.fault haddr hunmapped hframe hcall with ⟨-, heq⟩ | ⟨pt', claimed', area, -, hinv, hgrows, hold, hleaf⟩
      · have hnil : taken s.k k = [] := by simp [taken, heq]
        rw [hnil, heq]
        exact ⟨pt, claimed, h, fun _ hown => hown, id⟩
      · obtain ⟨hget, -, -, hvalid⟩ := h.valid.frameAlloc_some hframe
        have hfreed : (frameAlloc s.k).2.freed = s.k.freed.filter (· ≠ f) := by rw [hget]
        refine ⟨pt', claimed', hinv, fun _ hown => hown.mapOwn h hframe (by rw [hget]) hfreed
          hvalid hinv.valid hgrows hold (pathTo_length _ _) (rightsOf_alloc _) hleaf, fun halign g hg => ?_⟩
        have hg' := (hgrows.freed g hg).1
        rw [hfreed] at hg'
        exact halign g (List.mem_filter.mp hg').1
  | other hun =>
      exact ⟨pt, claimed, h.other hun, fun _ hown => hown.other hun, fun _ g hg => (hun.freed g hg).1⟩

/-- A new address space. -/
theorem SpaceInv.init {vm : Vmem} {k k' : Kernel} (hfresh : FreshFrames k.frames)
    (hinit : vmemInit k = (0, vm, k')) : SpaceInv ⟨vm, k', [vm.pml4]⟩ (emptyTable vm.pml4) ∅ :=
  ⟨(vmemInit_spec hfresh hinit).1, fun hl _ => (by cases hl), fun hl _ => (by cases hl)⟩

theorem Owned.init {vm : Vmem} {k k' : Kernel} (hfresh : FreshFrames k.frames)
    (hinit : vmemInit k = (0, vm, k')) :
    Owned ⟨vm, k', [vm.pml4]⟩ (emptyTable vm.pml4) := by
  obtain ⟨hvalid, -, hframes, -, -, -, hfreed'⟩ := vmemInit_spec hfresh hinit
  have hheld {q : Path} {f : ℕ} (hq : (emptyTable vm.pml4).held q = some f) : q = [] ∧ f = vm.pml4 := by
    by_cases hnil : q = []
    · subst hnil
      exact ⟨rfl, (Option.some.inj hq).symm⟩
    · rw [held_of_none (if_neg hnil) rfl] at hq
      cases hq
  refine ⟨⟨fun f => ?_, fun hq hq' => (hheld hq).1.trans (hheld hq').1.symm, List.nodup_singleton _,
    fun f hf hmem => ?_⟩, fun f hf => ?_, fun hl _ _ => (by cases hl), fun g hg => ?_⟩
  · rw [List.mem_singleton]
    exact ⟨fun hf => ⟨[], by rw [hf]; rfl⟩, fun ⟨q, hq⟩ => (hheld hq).2⟩
  · rw [List.mem_singleton.mp hf] at hmem
    have hnodup := hfresh.1
    rw [hframes] at hnodup
    exact (List.nodup_cons.mp hnodup).1 (List.mem_filterMap.mpr ⟨_, hmem, rfl⟩)
  · rw [List.mem_singleton.mp hf]
    exact hfresh.2 _ (by rw [hframes]; exact List.mem_cons_self)
  · simpa using (hfreed' g hg).2

end HeavenOS

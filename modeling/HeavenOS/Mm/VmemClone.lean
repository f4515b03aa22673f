/-
# Copying an address space

`vmem_clone` walks the four levels of the source, rebuilds the address of every page it
finds and maps it again in a new address space. A page of the source's own is copied
into a new frame, every other page is shared. The source stays as it is, because the
copy writes to frames that have just been handed out and to no other.
-/

import Mathlib.Algebra.BigOperators.Intervals
import Mathlib.Algebra.BigOperators.Ring.Finset
import HeavenOS.Mm.VmemAreas
import HeavenOS.Mm.VmemSpace

namespace HeavenOS

open Lib PageTable

/-! ## Flags -/

/-- The flags that are read from an entry of a page ask for the rights of the page. -/
theorem rightsOf_unconvert {phys : ℕ} (hdvd : 4096 ∣ phys) (hlt : phys < 2 ^ 48) (large : Bool)
    (r : Rights) : rightsOf (vmemUnconvertFlags (pteWord phys large r &&& pteFlagsMask)) = r := by
  have hmask {i : ℕ} (hi : i < 12) (w : BitVec 64) :
      (w &&& pteFlagsMask) &&& (1#64 <<< i) = 0 ↔ w &&& (1#64 <<< i) = 0 := by
    rw [and_bit_eq_zero_iff _ (by omega), and_bit_eq_zero_iff _ (by omega), BitVec.getLsbD_and,
      show pteFlagsMask = BitVec.ofNat 64 (2 ^ 12 - 1) by decide, BitVec.getLsbD_ofNat,
      Nat.testBit_two_pow_sub_one]
    simp [hi, show i < 64 by omega]
  have huser := (hmask (i := 2) (by decide) _).trans (pteWord_and_user hdvd hlt large r)
  have hwrite := (hmask (i := 1) (by decide) _).trans (pteWord_and_write hdvd hlt large r)
  have halloc := (hmask (i := 10) (by decide) _).trans (pteWord_and_alloc hdvd hlt large r)
  unfold vmemUnconvertFlags pteUser pteWriteable pteAlloc
  generalize pteWord phys large r &&& pteFlagsMask = w at *
  obtain ⟨u, wr, al⟩ := r
  simp only at huser hwrite halloc
  simp only [ne_eq, huser, hwrite, halloc]
  cases u <;> cases wr <;> cases al <;> decide

/-- `VMEM_ALLOC` again for a page that has it. -/
theorem rightsOf_or_alloc {flags : BitVec 64} (h : (rightsOf flags).alloc = true) :
    rightsOf (flags ||| vmemAlloc) = rightsOf flags := by
  have hbit (i : ℕ) (hi : i < 64) (hne : i ≠ 2) :
      ((flags ||| vmemAlloc) &&& (1#64 <<< i) = 0) ↔ flags &&& (1#64 <<< i) = 0 := by
    rw [and_bit_eq_zero_iff _ hi, and_bit_eq_zero_iff _ hi, BitVec.getLsbD_or, vmemAlloc,
      getLsbD_one_shiftLeft hi]
    simp [hne]
  have hall := rightsOf_alloc flags
  have huser := hbit 0 (by decide) (by decide)
  have hwrite := hbit 1 (by decide) (by decide)
  simp only [rightsOf, vmemUser, vmemWrite, Rights.mk.injEq] at *
  refine ⟨?_, ?_, hall.trans h.symm⟩
  · exact decide_eq_decide.mpr (not_congr huser)
  · exact decide_eq_decide.mpr (not_congr hwrite)

/-! ## The copy so far -/

/-- The page `l'` is the copy of the page `l` whose bytes were read in `m` and are now to be
found in `m'`: a new frame with the same bytes for a page of the source's own, else the
same frame. -/
structure CopyOf (m m' : Mem) (l l' : Leaf) : Prop where
  rights : l'.rights = l.rights
  shared : l.rights.alloc = false → l'.frame = l.frame
  bytes : l.rights.alloc = true →
    ∀ i < pageSize, m' (physToVirt l'.frame + i) = m (physToVirt l.frame + i)

/-- The copy of an address space whose pages `done` have been copied. The copy began in the
state `k0`; what it has taken since then it owns, and it wrote to nothing else. -/
structure Copying (src : PageTable) (dst : Vmem) (k0 : Kernel) (done : Set Path) (k : Kernel)
    (pt : PageTable) : Prop where
  inv : SpaceInv ⟨dst, k, taken k0 k⟩ pt done
  own : Owned ⟨dst, k, taken k0 k⟩ pt
  used : ∃ used, k0.frames = used ++ k.frames
  copied : ∀ q ∈ done, ∃ l l', src.leaf q = some l ∧ pt.leaf q = some l' ∧ CopyOf k0.mem k.mem l l'
  mem : ∀ a, (∀ f ∈ taken k0 k, ¬InFrame f a) → k.mem a = k0.mem a
  freed : ∀ g ∈ k.freed, g ∈ k0.freed

theorem mem_taken {k0 k : Kernel} (hused : ∃ used, k0.frames = used ++ k.frames) {f : ℕ}
    (hf : f ∈ taken k0 k) : some f ∈ k0.frames := by
  obtain ⟨used, hused⟩ := hused
  rw [taken_eq hused] at hf
  rw [hused]
  exact List.mem_append_left _ (by simpa using hf)

theorem taken_trans {k0 k k' : Kernel} (hused : ∃ used, k0.frames = used ++ k.frames)
    (hused' : ∃ used, k.frames = used ++ k'.frames) :
    taken k0 k' = taken k0 k ++ taken k k' := by
  obtain ⟨used, hused⟩ := hused
  obtain ⟨used', hused'⟩ := hused'
  have htotal : k0.frames = (used ++ used') ++ k'.frames := by
    rw [hused, hused', List.append_assoc]
  rw [taken_eq hused, taken_eq hused', taken_eq htotal, List.filterMap_append]

/-- The order of the books does not matter. -/
theorem Owned.perm {vm : Vmem} {k : Kernel} {allocated allocated' : List ℕ} {pt : PageTable}
    (h : Owned ⟨vm, k, allocated⟩ pt) (hperm : allocated.Perm allocated') :
    Owned ⟨vm, k, allocated'⟩ pt where
  ledger :=
    { mem_iff := fun f => hperm.mem_iff.symm.trans (h.ledger.mem_iff f)
      inj := h.ledger.inj
      nodup := hperm.nodup_iff.mp h.ledger.nodup
      notMem := fun f hf => h.ledger.notMem f (hperm.mem_iff.mpr hf) }
  isFrame f hf := h.isFrame f (hperm.mem_iff.mpr hf)
  foreign hl hq halloc hf := h.foreign hl hq halloc (hperm.mem_iff.mpr hf)
  freed g hg hf := h.freed g hg (hperm.mem_iff.mpr hf)

theorem dvd_physToVirt {phys : ℕ} (hdvd : 4096 ∣ phys) : pageSize ∣ physToVirt phys := by
  unfold pageSize physToVirt directMapStart
  omega

section Copy

variable {vm dst : Vmem} {src : PageTable} {claimed done : Set Path} {k0 k : Kernel} {pt : PageTable}
  {allocated : List ℕ} (hsrc : SpaceInv ⟨vm, k0, allocated⟩ src claimed)

include hsrc

/-- The source is as it was. -/
theorem Copying.source (h : Copying src dst k0 done k pt) :
    SpaceInv ⟨vm, k, allocated⟩ src claimed := by
  obtain ⟨used, hused⟩ := h.used
  have hmore {f : ℕ} (hf : some f ∈ k.frames) : some f ∈ k0.frames :=
    hused ▸ List.mem_append_right _ hf
  have hnodup := hsrc.valid.fresh.1
  rw [hused, List.filterMap_append] at hnodup
  refine ⟨⟨hsrc.valid.wf, hsrc.valid.rep.congr fun q t r hq a ha => h.mem a fun f hf hfa => ?_,
    (List.nodup_append.mp hnodup).2.1, fun f hf => hsrc.valid.fresh.2 f (hmore hf)⟩, hsrc.small,
    fun hl hq hmem => hsrc.unused hl hq (hmore hmem)⟩
  have hfresh := hsrc.valid.fresh.2 f (mem_taken h.used hf)
  have heq := inFrame_unique (hsrc.valid.wf.isFrame hq).1 hfresh.1.1 ha hfa
  exact hfresh.2 q r (heq ▸ hq)

/-- The bytes of a page of the source are not written to. -/
theorem Copying.page_mem (h : Copying src dst k0 done k pt) {q : Path} {l : Leaf}
    (hl : src.leaf q = some l) (hq : q.length = 4) {i : ℕ} (hi : i < pageSize) :
    k.mem (physToVirt l.frame + i) = k0.mem (physToVirt l.frame + i) := by
  refine h.mem _ fun f hf hfa => ?_
  have hmem := mem_taken h.used hf
  have hdvd := dvd_physToVirt (hsrc.valid.wf.leaf_dvd hl)
  have heq := inFrame_unique (f := physToVirt l.frame) hdvd (hsrc.valid.fresh.2 f hmem).1.1
    ⟨by omega, by omega⟩ hfa
  exact hsrc.unused hl hq (heq ▸ hmem)

omit hsrc in
/-- One more page has been copied. -/
theorem Copying.addPage (h : Copying src dst k0 done k pt) {q : Path} {l l' : Leaf} {k' : Kernel}
    {pt' : PageTable} (hl : src.leaf q = some l)
    (hinv : SpaceInv ⟨dst, k', taken k0 k'⟩ pt' (insert q done))
    (hown : Owned ⟨dst, k', taken k k' ++ taken k0 k⟩ pt')
    (hused : ∃ used, k.frames = used ++ k'.frames)
    (hleaf : pt'.leaf = Function.update pt.leaf q (some l')) (hcopy : CopyOf k0.mem k'.mem l l')
    (hmem : ∀ a, (∀ p t r, pt'.table p = some (t, r) → ¬InFrame t a) →
      (∀ f ∈ taken k k', ¬InFrame f a) → k'.mem a = k.mem a)
    (hfreed : ∀ g ∈ k'.freed, g ∈ k.freed) : Copying src dst k0 (insert q done) k' pt' := by
  have htaken := taken_trans h.used hused
  have hperm : (taken k k' ++ taken k0 k).Perm (taken k0 k') := htaken ▸ List.perm_append_comm
  have htable {p : Path} {t : ℕ} {r : Rights} (hp : pt'.table p = some (t, r)) : t ∈ taken k0 k' :=
    hperm.mem_iff.mp ((hown.ledger.mem_iff t).mpr ⟨p, held_of_table hp⟩)
  refine ⟨hinv, hown.perm hperm, ?_, fun p hp => ?_, fun a ha => ?_, fun g hg => h.freed g (hfreed g hg)⟩
  · obtain ⟨used, hused0⟩ := h.used
    obtain ⟨used', hused'⟩ := hused
    exact ⟨used ++ used', by rw [hused0, hused', List.append_assoc]⟩
  · by_cases hpq : p = q
    · subst hpq
      exact ⟨l, l', hl, by rw [hleaf, Function.update_self], hcopy⟩
    · obtain ⟨lp, lp', hlp, hlp', hc⟩ := h.copied p (hp.resolve_left hpq)
      have hlp'' : pt'.leaf p = some lp' := by rw [hleaf, Function.update_of_ne hpq, hlp']
      refine ⟨lp, lp', hlp, hlp'', hc.rights, hc.shared, fun halloc i hi => ?_⟩
      rw [← hc.bytes halloc i hi]
      -- the frame of a copy is in one place of the books only, so nothing else is put there
      have halloc' : lp'.rights.alloc = true := hc.rights ▸ halloc
      have hlen := hinv.small hlp'' halloc'
      have hheld {pt1 : PageTable} (hnone : pt1.table p = none) (h1 : pt1.leaf p = some lp') :
          pt1.held p = some (physToVirt lp'.frame) := by
        rw [held_of_leaf hnone h1, if_pos ⟨halloc', hlen⟩]
      have hself := hheld (hinv.valid.wf.table_of_leaf hlp'') hlp''
      have hold := hheld (h.inv.valid.wf.table_of_leaf hlp') hlp'
      have hg : physToVirt lp'.frame ∈ taken k0 k := (h.own.ledger.mem_iff _).mpr ⟨p, hold⟩
      have hgframe := h.own.isFrame _ hg
      have hin : InFrame (physToVirt lp'.frame) (physToVirt lp'.frame + i) := ⟨by omega, by omega⟩
      refine hmem _ (fun p' t r hp' hta => ?_) fun f hf hfa => ?_
      · have hframe := hown.isFrame t ((hown.ledger.mem_iff t).mpr ⟨p', held_of_table hp'⟩)
        have heq := inFrame_unique hgframe.1 hframe.1 hin hta
        obtain rfl := hown.ledger.inj hself (heq ▸ held_of_table hp')
        rw [hinv.valid.wf.table_of_leaf hlp''] at hp'
        cases hp'
      · have hframe := hown.isFrame f (List.mem_append_left _ hf)
        have heq := inFrame_unique hgframe.1 hframe.1 hin hfa
        exact (List.nodup_append.mp hown.ledger.nodup).2.2 f hf _ hg heq.symm
  · rw [hmem a (fun p t r hp => ha t (htable hp)) fun f hf => ha f ?_]
    · exact h.mem a fun f hf => ha f (htaken ▸ List.mem_append_left _ hf)
    · exact htaken ▸ List.mem_append_right _ hf

omit hsrc in
theorem frames_apart {f g : ℕ} (hf : pageSize ∣ f) (hg : pageSize ∣ g) (hne : f ≠ g) :
    f + pageSize ≤ g ∨ g + pageSize ≤ f := by
  unfold pageSize at *
  omega

/-- A page that is still to be copied is apart from those that are. -/
theorem Copying.apart (h : Copying src dst k0 done k pt) {q : Path} {l : Leaf}
    (hl : src.leaf q = some l) (hnew : q ∉ done) : ∀ c ∈ done, ¬q <:+ c ∧ ¬c <:+ q := by
  intro c hc
  obtain ⟨lc, -, hlc, -⟩ := h.copied c hc
  have hq := hsrc.valid.wf.leaf_claimed (q := q) (by rw [hl]; rfl)
  have hc' := hsrc.valid.wf.leaf_claimed (q := c) (by rw [hlc]; rfl)
  have hne : q ≠ c := fun heq => hnew (heq ▸ hc)
  exact ⟨hsrc.valid.wf.antichain hq hc' hne, hsrc.valid.wf.antichain hc' hq hne.symm⟩

/-- A page that is not the source's own is mapped once more. -/
theorem Copying.share (h : Copying src dst k0 done k pt) {q : Path} {l : Leaf}
    (hl : src.leaf q = some l) (hnew : q ∉ done) (halloc : l.rights.alloc = false) {call : MapCall}
    (hlegal : call.Legal) (hpath : call.path = q) (hleaf : call.leaf = l) :
    ∃ res k', call.run dst k = .ok (res, k') ∧
      (0 ≤ res → ∃ pt', Copying src dst k0 (insert q done) k' pt') ∧
      ∀ n, Plenty (n + 4) k.frames → res = 0 ∧ Plenty n k'.frames := by
  have hapart := h.apart hsrc hl hnew
  subst hpath
  obtain ⟨res, k', pt', hcall, hvalid, hgrows, hres, -⟩ := MapCall.run_spec h.inv.valid hlegal hapart
  refine ⟨res, k', hcall, fun hnonneg => ⟨pt', ?_⟩, fun n hplenty =>
    MapCall.run_enough h.inv.valid hlegal hapart hcall (hplenty.mono (by omega))⟩
  have hupdate : pt'.leaf = Function.update pt.leaf call.path (some call.leaf) := by
    rcases hres with ⟨-, hpt⟩ | ⟨hneg, -⟩
    · exact hpt
    · rw [hneg] at hnonneg
      exact absurd hnonneg (by decide)
  obtain ⟨used, hused, -⟩ := hgrows.used
  have hmore : ∀ f, some f ∈ k'.frames → some f ∈ k.frames := fun f hf =>
    hused ▸ List.mem_append_right _ hf
  have hunused (hlen : call.path.length = 4) : some (physToVirt call.frame) ∉ k0.frames := by
    rw [show call.frame = l.frame from congrArg Leaf.frame hleaf]
    exact hsrc.unused hl hlen
  have hunused' (hlen : call.path.length = 4) : some (physToVirt call.frame) ∉ k.frames := by
    obtain ⟨used0, hused0⟩ := h.used
    exact fun hmem => hunused hlen (hused0 ▸ List.mem_append_right _ hmem)
  have hpage (hsize : call.size = .page) : call.path.length = 4 := by
    rw [PageSpan.path, pathTo_length, hsize]
    rfl
  have hforeign : call.flags &&& vmemAlloc = 0 := by
    have hbit : (rightsOf call.flags).alloc = false := by
      rw [show rightsOf call.flags = l.rights from congrArg Leaf.rights hleaf]
      exact halloc
    simpa [rightsOf] using hbit
  have hinv := h.inv.setLeaf (taken k0 k') hvalid hmore hupdate
    (fun hown => by rw [hleaf, halloc] at hown; cases hown)
    fun hlen hmem => hunused' hlen (hmore _ hmem)
  have hold : ∀ p, (pt.leaf p).isSome → p ∈ insert call.path done ∧ p ≠ call.path := fun p hp =>
    ⟨Set.mem_insert_of_mem _ (h.inv.valid.wf.leaf_claimed hp),
      fun heq => hnew (heq ▸ h.inv.valid.wf.leaf_claimed hp)⟩
  have hown := h.own.map h.inv hvalid hgrows hold hres
    (fun hsize => hunused' (hpage hsize))
    ⟨hforeign, fun hsize hmem => hunused (hpage hsize) (mem_taken h.used hmem)⟩
  refine h.addPage hl hinv hown ⟨used, hused⟩ hupdate ⟨?_, ?_, ?_⟩ (fun a ha _ => hgrows.mem a ha)
    fun g hg => (hgrows.freed g hg).1
  · rw [hleaf]
  · rw [hleaf]
    exact fun _ => rfl
  · rw [halloc]
    exact fun hfalse => Bool.noConfusion hfalse

/-- A page of the source's own is copied into a new frame, which is then mapped. -/
theorem Copying.copy (h : Copying src dst k0 done k pt) {q : Path} {l : Leaf}
    (hl : src.leaf q = some l) (hnew : q ∉ done) (halloc : l.rights.alloc = true) {call : MapCall}
    {f : ℕ} {frames : List (Option ℕ)} (hframe : k.frames = some f :: frames) (hlegal : call.Legal)
    (hpath : call.path = q) (hphys : call.frame = virtToPhys f) (hrights : rightsOf call.flags = l.rights) :
    ∃ res k', call.run dst { (frameAlloc k).2 with
        mem := (frameAlloc k).2.mem.memcpy f (physToVirt l.frame) pageSize } = .ok (res, k') ∧
      (0 ≤ res → ∃ pt', Copying src dst k0 (insert q done) k' pt') ∧
      ∀ n, Plenty (n + 4) k.frames → res = 0 ∧ Plenty n k'.frames := by
  have hapart := h.apart hsrc hl hnew
  have hlen : q.length = 4 := hsrc.small hl halloc
  obtain ⟨hget, hf, hnotin, hvalid1⟩ := h.inv.valid.frameAlloc_some hframe
  obtain ⟨used0, hused0⟩ := h.used
  have hf0 : some f ∈ k0.frames := by
    rw [hused0, hframe]
    exact List.mem_append_right _ List.mem_cons_self
  -- the page that is read is not the frame that is written
  have hapartf : f + pageSize ≤ physToVirt l.frame ∨ physToVirt l.frame + pageSize ≤ f := by
    refine frames_apart hf.1 (dvd_physToVirt (hsrc.valid.wf.leaf_dvd hl)) fun heq => ?_
    exact hsrc.unused hl hlen (heq ▸ hf0)
  have hk1 : ∀ a, ¬InFrame f a → (frameAlloc k).2.mem a = k.mem a := fun a ha => by
    rw [hget]
    exact Mem.memset_of_outside _ _ (by unfold InFrame at ha; omega)
  have hframes1 : (frameAlloc k).2.frames = frames := by rw [hget]
  have hfreed1 : (frameAlloc k).2.freed = k.freed.filter (· ≠ f) := by rw [hget]
  generalize (frameAlloc k).2 = k1 at *
  obtain ⟨k2, hk2⟩ : ∃ k2, k2 = { k1 with mem := k1.mem.memcpy f (physToVirt l.frame) pageSize } :=
    ⟨_, rfl⟩
  have hframes2 : k2.frames = frames := by rw [hk2, ← hframes1]
  have hfreed2 : k2.freed = k.freed.filter (· ≠ f) := by rw [hk2, ← hfreed1]
  have hmem2 : k2.mem = k1.mem.memcpy f (physToVirt l.frame) pageSize := by rw [hk2]
  have hout : ∀ a, ¬InFrame f a → k2.mem a = k.mem a := fun a ha => by
    rw [hmem2, Mem.memcpy_of_outside _ hapartf (by unfold InFrame at ha; omega), hk1 a ha]
  rw [← hk2]
  have hvalid2 : pt.Valid dst.pml4 done k2 := by
    refine ⟨hvalid1.wf, h.inv.valid.rep.congr fun p t r hp a ha => hout a fun hfa => ?_, ?_⟩
    · have heq := inFrame_unique (h.inv.valid.wf.isFrame hp).1 hf.1 ha hfa
      exact (h.inv.valid.fresh.2 f (by rw [hframe]; exact List.mem_cons_self)).2 p r (heq ▸ hp)
    · rw [hframes2, ← hframes1]
      exact hvalid1.fresh
  subst hpath
  obtain ⟨res, k', pt', hcall, hvalid, hgrows, hres, -⟩ := MapCall.run_spec hvalid2 hlegal hapart
  refine ⟨res, k', hcall, fun hnonneg => ⟨pt', ?_⟩, fun n hplenty => ?_⟩
  swap
  · rw [hframe] at hplenty
    obtain ⟨_, _, hcons, hrest⟩ := hplenty.cons
    refine MapCall.run_enough hvalid2 hlegal hapart hcall ?_
    rw [hframes2, (List.cons.inj hcons).2]
    exact hrest
  have hleaf : call.leaf = ⟨virtToPhys f, l.rights⟩ := by rw [MapCall.leaf, hphys, hrights]
  have hupdate : pt'.leaf = Function.update pt.leaf call.path (some ⟨virtToPhys f, l.rights⟩) := by
    rcases hres with ⟨-, hpt⟩ | ⟨hneg, -⟩
    · rw [hpt, hleaf]
    · rw [hneg] at hnonneg
      exact absurd hnonneg (by decide)
  obtain ⟨used, hused, -⟩ := hgrows.used
  have hused' : frames = used ++ k'.frames := hframes2.symm.trans hused
  have htotal : k.frames = (some f :: used) ++ k'.frames := by rw [hframe, hused']; rfl
  have hinv := h.inv.setLeaf (taken k0 k') hvalid
    (fun g hg => by rw [htotal]; exact List.mem_append_right _ hg) hupdate (fun _ => hlen)
    fun _ hmem => hnotin (by
      rw [hused', ← hf.physToVirt_virtToPhys]
      exact List.mem_append_right _ hmem)
  have hold : ∀ p, (pt.leaf p).isSome → p ∈ insert call.path done ∧ p ≠ call.path := fun p hp =>
    ⟨Set.mem_insert_of_mem _ (h.inv.valid.wf.leaf_claimed hp),
      fun heq => hnew (heq ▸ h.inv.valid.wf.leaf_claimed hp)⟩
  have hown := h.own.mapOwn h.inv hframe hframes2 hfreed2 hvalid2 hvalid hgrows hold hlen halloc hupdate
  have htaken : f ∈ taken k k' := by
    rw [taken_eq htotal]
    exact List.mem_cons_self
  have hself : pt'.held call.path = some f := by
    have hleaf' : pt'.leaf call.path = some ⟨virtToPhys f, l.rights⟩ := by
      rw [hupdate, Function.update_self]
    rw [held_of_leaf (hvalid.wf.table_of_leaf hleaf') hleaf', if_pos ⟨halloc, hlen⟩,
      hf.physToVirt_virtToPhys]
  refine h.addPage hl hinv hown ⟨_, htotal⟩ hupdate ⟨rfl, fun hfalse => ?_, fun _ i hi => ?_⟩
    (fun a ha htk => ?_) fun g hg => ?_
  · rw [halloc] at hfalse
    cases hfalse
  · show k'.mem (physToVirt (virtToPhys f) + i) = _
    rw [hf.physToVirt_virtToPhys, hgrows.mem _ fun p t r hp hta => ?_]
    · rw [hmem2, Mem.memcpy_apply _ hapartf, if_pos ⟨by omega, by omega⟩, Nat.add_sub_cancel_left,
        hk1 _ (by unfold InFrame; omega), h.page_mem hsrc hl hlen hi]
    · have heq := inFrame_unique hf.1 (hvalid.wf.isFrame hp).1 ⟨by omega, by omega⟩ hta
      obtain rfl := hown.ledger.inj hself (heq ▸ held_of_table hp)
      rw [hvalid.wf.table_of_claimed (Set.mem_insert _ _)] at hp
      cases hp
  · rw [hgrows.mem a ha]
    exact hout a (htk f htaken)
  · have hg2 := (hgrows.freed g hg).1
    rw [hfreed2] at hg2
    exact (List.mem_filter.mp hg2).1

end Copy

/-! ## The loops -/

/-- The loop over a table returns, and its invariant holds at the end unless it gave up. It
does not give up where there are frames for what its steps cost. -/
theorem forPresent_spec {body : ℕ → BitVec 64 → Kernel → Except Panic (Int × Kernel)} {tbl : ℕ}
    {P : ℕ → Kernel → Prop} {cost : ℕ → ℕ}
    (habsent : ∀ i < 512, ∀ k, P i k → entry k.mem tbl i &&& ptePresent = 0 → P (i + 1) k)
    (hpresent : ∀ i < 512, ∀ k, P i k → entry k.mem tbl i &&& ptePresent ≠ 0 →
      ∃ res k', body i (entry k.mem tbl i) k = .ok (res, k') ∧ (0 ≤ res → P (i + 1) k') ∧
        ∀ n, Plenty (n + cost i) k.frames → res = 0 ∧ Plenty n k'.frames)
    {count i : ℕ} {k : Kernel} (hi : count + i = 512) (h : P i k) :
    ∃ res k', forPresent body tbl count i k = .ok (res, k') ∧ (0 ≤ res → P 512 k') ∧
      ∀ n, Plenty (n + ∑ j ∈ Finset.Ico i 512, cost j) k.frames → res = 0 ∧ Plenty n k'.frames := by
  induction count generalizing i k with
  | zero =>
      obtain rfl : i = 512 := by omega
      exact ⟨0, k, rfl, fun _ => h, fun n hplenty => ⟨rfl, hplenty.mono (Nat.le_add_right _ _)⟩⟩
  | succ count ih =>
      rw [forPresent, Finset.sum_eq_sum_Ico_succ_bot (show i < 512 by omega)]
      by_cases hbit : entry k.mem tbl i &&& ptePresent = 0
      · simp only [hbit, if_true]
        obtain ⟨res, k', hrest, hdone, henough⟩ := ih (by omega) (habsent i (by omega) k h hbit)
        exact ⟨res, k', hrest, hdone, fun n hplenty => henough n (hplenty.mono (by omega))⟩
      · simp only [hbit, if_false]
        obtain ⟨res, k1, hbody, hnext, hstep⟩ := hpresent i (by omega) k h hbit
        have hstep' (n : ℕ) (hplenty : Plenty (n + (cost i + ∑ j ∈ Finset.Ico (i + 1) 512, cost j)) k.frames) :
            res = 0 ∧ Plenty (n + ∑ j ∈ Finset.Ico (i + 1) 512, cost j) k1.frames :=
          hstep _ (hplenty.mono (by omega))
        rw [hbody, ok_bind]
        simp only
        split_ifs with hneg
        · refine ⟨res, k1, rfl, fun hpos => by omega, fun n hplenty => ?_⟩
          have := (hstep' n hplenty).1
          omega
        · obtain ⟨res', k', hrest, hdone, henough⟩ := ih (by omega) (hnext (by omega))
          exact ⟨res', k', hrest, hdone, fun n hplenty => henough n (hstep' n hplenty).2⟩

/-- The pages of the source at or below a node. -/
def PageTable.pagesBelow (src : PageTable) (q : Path) : Set Path := {c | (src.leaf c).isSome ∧ q <:+ c}

section Loops

variable {vm dst : Vmem} {src : PageTable} {claimed done : Set Path} {k0 k : Kernel} {pt : PageTable}
  {allocated : List ℕ} (hsrc : SpaceInv ⟨vm, k0, allocated⟩ src claimed)

/-- No page is below two entries. -/
theorem cons_suffix_inj {i j : ℕ} {q c : Path} (hi : i :: q <:+ c) (hj : j :: q <:+ c) : i = j :=
  (List.cons.inj ((List.suffix_of_suffix_length_le hi hj (le_refl _)).eq_of_length rfl)).1

/-- A bound for the number of pages at or below a node. -/
structure PageCost (src : PageTable) (cost : Path → ℕ) : Prop where
  leaf : ∀ {q}, (src.leaf q).isSome → 1 ≤ cost q
  table : ∀ {q}, q.length ≤ 3 → ∑ i ∈ Finset.Ico 0 512, cost (i :: q) ≤ cost q

/-- There is a bound, for what it is worth. -/
theorem PageCost.ofDepth {pml4 : ℕ} (hwf : src.WellFormed pml4 claimed) :
    PageCost src fun q => if q.length ≤ 4 then 512 ^ (4 - q.length) else 0 where
  leaf h := by
    rw [if_pos (hwf.claimed_length (hwf.leaf_claimed h)).2]
    exact Nat.one_le_two_pow.trans (Nat.pow_le_pow_left (by decide) _)
  table := by
    intro q hq
    simp only [List.length_cons, if_pos (show q.length + 1 ≤ 4 by omega), if_pos (show q.length ≤ 4 by omega),
      Finset.sum_const, Nat.card_Ico]
    rw [show 4 - q.length = 4 - (q.length + 1) + 1 by omega, pow_succ']
    exact le_refl (512 * _)

theorem sum_pages_le {pages : Finset Path} {q : Path} :
    ∑ i ∈ Finset.Ico 0 512, (pages.filter (i :: q <:+ ·)).card ≤ (pages.filter (q <:+ ·)).card := by
  rw [← Finset.card_biUnion]
  · refine Finset.card_le_card fun c hc => ?_
    obtain ⟨i, -, hc⟩ := Finset.mem_biUnion.mp hc
    obtain ⟨hmem, hsuf⟩ := Finset.mem_filter.mp hc
    exact Finset.mem_filter.mpr ⟨hmem, (List.suffix_cons i q).trans hsuf⟩
  · intro i _ j _ hij
    refine Finset.disjoint_left.mpr fun c hi hj => hij ?_
    exact (cons_suffix_inj (Finset.mem_filter.mp hi).2 (Finset.mem_filter.mp hj).2)

theorem card_pages_pos {pages : Finset Path} {q : Path} (hq : q ∈ pages) : 1 ≤ (pages.filter (q <:+ ·)).card :=
  Finset.card_pos.mpr ⟨_, Finset.mem_filter.mpr ⟨hq, List.suffix_refl _⟩⟩

/-- The pages that there are. -/
theorem PageCost.ofPages {pages : Finset Path} (hpages : ∀ q, (src.leaf q).isSome → q ∈ pages) :
    PageCost src fun q => (pages.filter (q <:+ ·)).card where
  leaf h := card_pages_pos (hpages _ h)
  table _ := sum_pages_le

/-- The pages of 4 KiB, when the large pages may be anywhere. -/
theorem PageCost.ofSmall {pml4 : ℕ} (hwf : src.WellFormed pml4 claimed) {pages : Finset Path}
    (hpages : ∀ q, (src.leaf q).isSome → q.length = 4 → q ∈ pages) :
    PageCost src fun q => (if q.length ≤ 3 then 512 ^ (3 - q.length) else 0) + (pages.filter (q <:+ ·)).card where
  leaf := by
    intro q hq
    by_cases hlen : q.length ≤ 3
    · rw [if_pos hlen]
      exact (Nat.one_le_pow _ _ (by decide)).trans (Nat.le_add_right _ _)
    · have hlen' := (hwf.claimed_length (hwf.leaf_claimed hq)).2
      exact (card_pages_pos (hpages q hq (by omega))).trans (Nat.le_add_left _ _)
  table := by
    intro q hq
    rw [Finset.sum_add_distrib]
    refine Nat.add_le_add ?_ sum_pages_le
    simp only [List.length_cons, Finset.sum_const, Nat.card_Ico, if_pos hq]
    by_cases hlen : q.length + 1 ≤ 3
    · rw [if_pos hlen, show 3 - q.length = 3 - (q.length + 1) + 1 by omega, pow_succ']
      exact le_rfl
    · rw [if_neg hlen]
      exact Nat.zero_le _

/-- What copying the pages below a node has to do: it returns, and unless it gave up all of
them have been copied. With four frames for each page it does not give up. -/
def Copies (src : PageTable) (dst : Vmem) (k0 : Kernel) (cost : Path → ℕ) (q : Path)
    (run : Kernel → Except Panic (Int × Kernel)) : Prop :=
  ∀ done k pt, Copying src dst k0 done k pt → (∀ c ∈ src.pagesBelow q, c ∉ done) →
    ∃ res k', run k = .ok (res, k') ∧
      (0 ≤ res → ∃ pt', Copying src dst k0 (done ∪ src.pagesBelow q) k' pt') ∧
      ∀ n, Plenty (n + 4 * cost q) k.frames → res = 0 ∧ Plenty n k'.frames

theorem pagesBelow_leaf {pml4 : ℕ} (hwf : src.WellFormed pml4 claimed) {q : Path} {l : Leaf}
    (hl : src.leaf q = some l) : src.pagesBelow q = {q} := by
  ext c
  simp only [pagesBelow, Set.mem_ofPred_eq, Set.mem_singleton_iff]
  constructor
  · rintro ⟨hc, hsuf⟩
    by_contra hne
    have hq := hwf.leaf_claimed (q := q) (by rw [hl]; rfl)
    exact hwf.antichain hq (hwf.leaf_claimed hc) (Ne.symm hne) hsuf
  · rintro rfl
    exact ⟨by rw [hl]; rfl, List.suffix_refl _⟩

theorem pagesBelow_none {pml4 : ℕ} (hwf : src.WellFormed pml4 claimed) {q : Path} (htable : src.table q = none)
    (hleaf : src.leaf q = none) : src.pagesBelow q = ∅ := by
  ext c
  simp only [pagesBelow, Set.mem_ofPred_eq, Set.mem_empty_iff_false, iff_false, not_and]
  intro hc hsuf
  obtain ⟨l, hl⟩ := Option.isSome_iff_exists.mp hc
  by_cases hqc : q = c
  · rw [← hqc, hleaf] at hl
    cases hl
  · have := hwf.table_of_suffix_leaf hl hsuf hqc
    rw [htable] at this
    cases this

/-- The pages below a table are those below its entries. -/
theorem pagesBelow_table {pml4 : ℕ} (hwf : src.WellFormed pml4 claimed) {q : Path} (htable : (src.table q).isSome) :
    src.pagesBelow q = {c | ∃ i < 512, c ∈ src.pagesBelow (i :: q)} := by
  ext c
  simp only [pagesBelow, Set.mem_ofPred_eq]
  constructor
  · rintro ⟨hc, hsuf⟩
    obtain ⟨pre, rfl⟩ := hsuf
    rcases List.eq_nil_or_concat pre with rfl | ⟨pre', i, rfl⟩
    · have := hwf.table_of_claimed (hwf.leaf_claimed hc)
      rw [List.nil_append] at this
      rw [this] at htable
      cases htable
    · have hi : i < 512 := hwf.claimed_lt (hwf.leaf_claimed hc) i (by simp)
      exact ⟨i, hi, hc, pre', by simp⟩
  · rintro ⟨i, -, hc, hsuf⟩
    exact ⟨hc, (List.suffix_cons i q).trans hsuf⟩

variable {cost : Path → ℕ} (hcost : PageCost src cost)

include hsrc hcost

/-- Copying entry by entry copies all pages below a table. -/
theorem copies_of_table {q : Path} {t : ℕ} {r : Rights} (hq : src.table q = some (t, r))
    {body : ℕ → BitVec 64 → Kernel → Except Panic (Int × Kernel)}
    (hbody : ∀ i < 512, src.word (i :: q) &&& ptePresent ≠ 0 →
      Copies src dst k0 cost (i :: q) (body i (src.word (i :: q)))) :
    Copies src dst k0 cost q (forPresent body t 512 0) := by
  intro done k pt h hnew
  have hwf := hsrc.valid.wf
  have hall := pagesBelow_table hwf (q := q) (by rw [hq]; rfl)
  let P (i : ℕ) (k : Kernel) : Prop :=
    ∃ pt, Copying src dst k0 (done ∪ {c | ∃ j < i, c ∈ src.pagesBelow (j :: q)}) k pt
  have hentry {i : ℕ} (hi : i < 512) {k : Kernel} (hP : P i k) : entry k.mem t i = src.word (i :: q) := by
    obtain ⟨pt, hP⟩ := hP
    exact (hP.source hsrc).valid.rep q t r hq i hi
  have hnext (i : ℕ) : {c | ∃ j < i + 1, c ∈ src.pagesBelow (j :: q)} =
      {c | ∃ j < i, c ∈ src.pagesBelow (j :: q)} ∪ src.pagesBelow (i :: q) := by
    ext c
    simp only [Set.mem_ofPred_eq, Set.mem_union, Nat.lt_succ_iff_lt_or_eq]
    constructor
    · rintro ⟨j, hj | rfl, hc⟩
      · exact Or.inl ⟨j, hj, hc⟩
      · exact Or.inr hc
    · rintro (⟨j, hj, hc⟩ | hc)
      · exact ⟨j, Or.inl hj, hc⟩
      · exact ⟨i, Or.inr rfl, hc⟩
  have hstart : P 0 k := ⟨pt, by simpa using h⟩
  have habsent : ∀ i < 512, ∀ k, P i k → entry k.mem t i &&& ptePresent = 0 → P (i + 1) k := by
    intro i hi k hP hbit
    rw [hentry hi hP] at hbit
    have hnone : src.pagesBelow (i :: q) = ∅ := by
      cases htable : src.table (i :: q) with
      | some next => exact absurd hbit (table_word_reads hwf htable).1
      | none =>
          cases hleaf : src.leaf (i :: q) with
          | some l => exact absurd hbit (leaf_word_reads hwf hleaf).1
          | none => exact pagesBelow_none hwf htable hleaf
    obtain ⟨pt, hP⟩ := hP
    refine ⟨pt, ?_⟩
    rwa [hnext, hnone, Set.union_empty]
  have hpresent : ∀ i < 512, ∀ k, P i k → entry k.mem t i &&& ptePresent ≠ 0 →
      ∃ res k', body i (entry k.mem t i) k = .ok (res, k') ∧ (0 ≤ res → P (i + 1) k') ∧
        ∀ n, Plenty (n + 4 * cost (i :: q)) k.frames → res = 0 ∧ Plenty n k'.frames := by
    intro i hi k hP hbit
    rw [hentry hi hP] at hbit ⊢
    obtain ⟨pt, hP⟩ := hP
    have hfresh : ∀ c ∈ src.pagesBelow (i :: q),
        c ∉ done ∪ {c | ∃ j < i, c ∈ src.pagesBelow (j :: q)} := by
      rintro c hc (hdone | ⟨j, hj, hcj⟩)
      · exact hnew c (by rw [hall]; exact ⟨i, hi, hc⟩) hdone
      · have := cons_suffix_inj hcj.2 hc.2
        omega
    obtain ⟨res, k', hrun, hres, henough⟩ := hbody i hi hbit _ k pt hP hfresh
    refine ⟨res, k', hrun, fun hpos => ?_, henough⟩
    obtain ⟨pt', hP'⟩ := hres hpos
    refine ⟨pt', ?_⟩
    rwa [hnext, ← Set.union_assoc]
  obtain ⟨res, k', hrun, hres, henough⟩ := forPresent_spec habsent hpresent (show 512 + 0 = 512 from rfl) hstart
  refine ⟨res, k', hrun, fun hpos => ?_, fun n hplenty => henough n (hplenty.mono ?_)⟩
  · obtain ⟨pt', hP⟩ := hres hpos
    exact ⟨pt', by rwa [hall]⟩
  · have hsum := hcost.table (hwf.table_length (q := q) (by rw [hq]; rfl))
    rw [← Finset.mul_sum]
    omega

/-- A page that is not the source's own, by one call. -/
theorem copies_of_shared {q : Path} {l : Leaf} (hl : src.leaf q = some l)
    (halloc : l.rights.alloc = false) {call : MapCall} (hlegal : call.Legal) (hpath : call.path = q)
    (hleaf : call.leaf = l) : Copies src dst k0 cost q (call.run dst) := by
  intro done k pt h hnew
  have hbelow := pagesBelow_leaf hsrc.valid.wf hl
  obtain ⟨res, k', hrun, hres, henough⟩ :=
    h.share hsrc hl (hnew q (by rw [hbelow]; rfl)) halloc hlegal hpath hleaf
  have hone := hcost.leaf (q := q) (by rw [hl]; rfl)
  refine ⟨res, k', hrun, fun hpos => ?_, fun n hplenty => henough n (hplenty.mono (by omega))⟩
  rw [hbelow, Set.union_singleton]
  exact hres hpos

end Loops

/-! ## The four levels -/

section Levels

variable {m p d t : ℕ} (hm : m < 512) (hp : p < 512)

include hm hp

theorem path_makeAddr_1gb : pathTo (makeAddr m p 0 0 0) 2 = [p, m] := by
  have hpath := pathTo_makeAddr hm hp (show 0 < 512 by decide) (show 0 < 512 by decide)
  exact (List.cons.inj (List.cons.inj hpath).2).2

theorem copyCall_legal_1gb {frame : ℕ} (hdvd : 2 ^ 30 ∣ frame) (hlt : frame < 2 ^ 48) (flags : BitVec 64) :
    MapCall.Legal ⟨⟨.page1gb, makeAddr m p 0 0 0⟩, frame, flags⟩ := by
  refine ⟨⟨canonical_makeAddr hm hp (by decide) (by decide), ?_⟩, hdvd, hlt⟩
  show 2 ^ 30 ∣ makeAddr m p 0 0 0
  rw [makeAddr_eq hm hp (by decide) (by decide)]
  split_ifs <;> omega

variable (hd : d < 512)

include hd

theorem path_makeAddr_2mb : pathTo (makeAddr m p d 0 0) 3 = [d, p, m] :=
  (List.cons.inj (pathTo_makeAddr hm hp hd (show 0 < 512 by decide))).2

theorem copyCall_legal_2mb {frame : ℕ} (hdvd : 2 ^ 21 ∣ frame) (hlt : frame < 2 ^ 48) (flags : BitVec 64) :
    MapCall.Legal ⟨⟨.page2mb, makeAddr m p d 0 0⟩, frame, flags⟩ := by
  refine ⟨⟨canonical_makeAddr hm hp hd (by decide), ?_⟩, hdvd, hlt⟩
  show 2 ^ 21 ∣ makeAddr m p d 0 0
  rw [makeAddr_eq hm hp hd (by decide)]
  split_ifs <;> omega

variable (ht : t < 512)

include ht

theorem copyCall_legal {frame : ℕ} (hdvd : 4096 ∣ frame) (hlt : frame < 2 ^ 48) (flags : BitVec 64) :
    MapCall.Legal ⟨⟨.page, makeAddr m p d t 0⟩, frame, flags⟩ := by
  refine ⟨⟨canonical_makeAddr hm hp hd ht, ?_⟩, hdvd, hlt⟩
  show 2 ^ 12 ∣ makeAddr m p d t 0
  rw [makeAddr_eq hm hp hd ht]
  split_ifs <;> omega

end Levels

theorem frameAlloc_ne_zero {k : Kernel} (h : (frameAlloc k).1 ≠ 0) : ∃ f frames, k.frames = some f :: frames := by
  unfold frameAlloc at h
  split at h
  · exact absurd rfl h
  · exact absurd rfl h
  · exact ⟨_, _, ‹_›⟩

section Bodies

variable {vm dst : Vmem} {src : PageTable} {claimed : Set Path} {k0 : Kernel} {allocated : List ℕ}
  (hsrc : SpaceInv ⟨vm, k0, allocated⟩ src claimed) {cost : Path → ℕ} (hcost : PageCost src cost)

include hsrc

/-- The rights and the frame that are read from the entry of a page. -/
theorem word_unconvert {q : Path} {l : Leaf} (hl : src.leaf q = some l) :
    rightsOf (vmemUnconvertFlags (src.word q &&& pteFlagsMask)) = l.rights := by
  rw [hsrc.valid.wf.word_of_leaf hl]
  exact rightsOf_unconvert (hsrc.valid.wf.leaf_dvd hl) (hsrc.valid.wf.leaf_frame hl).2 _ _

omit hsrc in
/-- An entry that is present leads to a table or to a page. -/
theorem table_or_leaf {q : Path} (hbit : src.word q &&& ptePresent ≠ 0) :
    (∃ t r, src.table q = some (t, r)) ∨ ∃ l, src.leaf q = some l := by
  cases htable : src.table q with
  | some next => exact Or.inl ⟨next.1, next.2, rfl⟩
  | none =>
      cases hleaf : src.leaf q with
      | some l => exact Or.inr ⟨l, rfl⟩
      | none =>
          rw [WellFormed.word_of_none htable hleaf] at hbit
          exact absurd rfl hbit

/-- A large page is not the source's own. -/
theorem large_not_alloc {q : Path} {l : Leaf} (hl : src.leaf q = some l) (hlen : q.length ≠ 4) :
    l.rights.alloc = false := by
  by_contra halloc
  exact hlen (hsrc.small hl (by simpa using halloc))

include hcost

theorem copies_clonePte {m p d t : ℕ} (hm : m < 512) (hp : p < 512) (hd : d < 512) (ht : t < 512)
    (hbit : src.word [t, d, p, m] &&& ptePresent ≠ 0) :
    Copies src dst k0 cost [t, d, p, m] (clonePte dst m p d t (src.word [t, d, p, m])) := by
  have hwf := hsrc.valid.wf
  obtain ⟨l, hl⟩ : ∃ l, src.leaf [t, d, p, m] = some l := by
    refine (table_or_leaf hbit).resolve_left ?_
    rintro ⟨tbl, r, htable⟩
    exact absurd (hwf.table_length (q := [t, d, p, m]) (by rw [htable]; rfl)) (by simp)
  obtain ⟨-, -, haddr, -, -, halloc⟩ := leaf_word_reads hwf hl
  have hrights := word_unconvert hsrc hl
  have hdvd := hwf.leaf_dvd hl
  have hlt := (hwf.leaf_frame hl).2
  have hpath := pathTo_makeAddr hm hp hd ht
  cases hown : l.rights.alloc with
  | false =>
      rw [hown, decide_eq_false_iff_not] at halloc
      have hcall : clonePte dst m p d t (src.word [t, d, p, m]) =
          MapCall.run dst ⟨⟨.page, makeAddr m p d t 0⟩, l.frame,
            vmemUnconvertFlags (src.word [t, d, p, m] &&& pteFlagsMask)⟩ := by
        funext k
        simp only [clonePte, if_neg halloc, haddr]
        rfl
      rw [hcall]
      exact copies_of_shared hsrc hcost hl hown (copyCall_legal hm hp hd ht hdvd hlt _) hpath
        (by rw [MapCall.leaf, hrights])
  | true =>
      rw [hown, decide_eq_true_iff] at halloc
      have hrights' : rightsOf (vmemUnconvertFlags (src.word [t, d, p, m] &&& pteFlagsMask) ||| vmemAlloc) =
          l.rights := by
        rw [rightsOf_or_alloc (by rw [hrights, hown]), hrights]
      intro done k pt h hnew
      have hbelow := pagesBelow_leaf hwf hl
      have hfresh := hnew [t, d, p, m] (by rw [hbelow]; rfl)
      have hone := hcost.leaf (q := [t, d, p, m]) (by rw [hl]; rfl)
      simp only [clonePte, if_pos halloc, haddr]
      by_cases hnull : (frameAlloc k).1 = 0
      · rw [if_pos hnull]
        refine ⟨-enomem, _, rfl, fun hpos => absurd hpos (by decide), fun n hplenty => ?_⟩
        obtain ⟨f, frames, hframes, -⟩ := (hplenty.mono (show 0 + 1 ≤ _ by omega)).cons
        obtain ⟨hget, hf, -⟩ := h.inv.valid.frameAlloc_some hframes
        rw [hget] at hnull
        exact absurd hnull hf.ne_zero
      · obtain ⟨f, frames, hframes⟩ := frameAlloc_ne_zero hnull
        obtain ⟨hget, hf, -, -⟩ := h.inv.valid.frameAlloc_some hframes
        have hfst : (frameAlloc k).1 = f := by rw [hget]
        rw [hfst, if_neg hf.ne_zero]
        obtain ⟨res, k', hrun, hres, henough⟩ := h.copy hsrc hl hfresh hown hframes
          (copyCall_legal hm hp hd ht hf.dvd_virtToPhys hf.virtToPhys_lt _) hpath rfl hrights'
        refine ⟨res, k', hrun, fun hpos => ?_, fun n hplenty => henough n (hplenty.mono (by omega))⟩
        rw [hbelow, Set.union_singleton]
        exact hres hpos

theorem copies_clonePde {m p d : ℕ} (hm : m < 512) (hp : p < 512) (hd : d < 512)
    (hbit : src.word [d, p, m] &&& ptePresent ≠ 0) :
    Copies src dst k0 cost [d, p, m] (clonePde dst m p d (src.word [d, p, m])) := by
  have hwf := hsrc.valid.wf
  rcases table_or_leaf hbit with ⟨t, r, htable⟩ | ⟨l, hl⟩
  · obtain ⟨-, hsmall, haddr, -, -⟩ := table_word_reads hwf htable
    have hloop : clonePde dst m p d (src.word [d, p, m]) = forPresent (clonePte dst m p d) t 512 0 := by
      funext k
      rw [clonePde, if_neg (not_not.mpr hsmall), haddr]
    rw [hloop]
    exact copies_of_table hsrc hcost htable fun i hi hbit => copies_clonePte hsrc hcost hm hp hd hi hbit
  · obtain ⟨-, hlarge, haddr, -, -, -⟩ := leaf_word_reads hwf hl
    have hcall : clonePde dst m p d (src.word [d, p, m]) =
        MapCall.run dst ⟨⟨.page2mb, makeAddr m p d 0 0⟩, l.frame,
          vmemUnconvertFlags (src.word [d, p, m] &&& pteFlagsMask)⟩ := by
      funext k
      rw [clonePde, if_pos (fun hzero => hlarge.mp hzero (by simp)), haddr]
      rfl
    rw [hcall]
    exact copies_of_shared hsrc hcost hl (large_not_alloc hsrc hl (by simp))
      (copyCall_legal_2mb hm hp hd (hwf.leaf_frame hl).1 (hwf.leaf_frame hl).2 _)
      (path_makeAddr_2mb hm hp hd) (by rw [MapCall.leaf, word_unconvert hsrc hl])

theorem copies_clonePdpe {m p : ℕ} (hm : m < 512) (hp : p < 512)
    (hbit : src.word [p, m] &&& ptePresent ≠ 0) :
    Copies src dst k0 cost [p, m] (clonePdpe dst m p (src.word [p, m])) := by
  have hwf := hsrc.valid.wf
  rcases table_or_leaf hbit with ⟨t, r, htable⟩ | ⟨l, hl⟩
  · obtain ⟨-, hsmall, haddr, -, -⟩ := table_word_reads hwf htable
    have hloop : clonePdpe dst m p (src.word [p, m]) = forPresent (clonePde dst m p) t 512 0 := by
      funext k
      rw [clonePdpe, if_neg (not_not.mpr hsmall), haddr]
    rw [hloop]
    exact copies_of_table hsrc hcost htable fun i hi hbit => copies_clonePde hsrc hcost hm hp hi hbit
  · obtain ⟨-, hlarge, haddr, -, -, -⟩ := leaf_word_reads hwf hl
    have hcall : clonePdpe dst m p (src.word [p, m]) =
        MapCall.run dst ⟨⟨.page1gb, makeAddr m p 0 0 0⟩, l.frame,
          vmemUnconvertFlags (src.word [p, m] &&& pteFlagsMask)⟩ := by
      funext k
      rw [clonePdpe, if_pos (fun hzero => hlarge.mp hzero (by simp)), haddr]
      rfl
    rw [hcall]
    exact copies_of_shared hsrc hcost hl (large_not_alloc hsrc hl (by simp))
      (copyCall_legal_1gb hm hp (hwf.leaf_frame hl).1 (hwf.leaf_frame hl).2 _)
      (path_makeAddr_1gb hm hp) (by rw [MapCall.leaf, word_unconvert hsrc hl])

theorem copies_clonePml4e {m : ℕ} (hm : m < 512) (hbit : src.word [m] &&& ptePresent ≠ 0) :
    Copies src dst k0 cost [m] (clonePml4e dst m (src.word [m])) := by
  have hwf := hsrc.valid.wf
  rcases table_or_leaf hbit with ⟨t, r, htable⟩ | ⟨l, hl⟩
  · obtain ⟨-, -, haddr, -, -⟩ := table_word_reads hwf htable
    rw [show clonePml4e dst m (src.word [m]) = forPresent (clonePdpe dst m) t 512 0 by
      funext k
      rw [clonePml4e, haddr]]
    exact copies_of_table hsrc hcost htable fun i hi hbit => copies_clonePdpe hsrc hcost hm hi hbit
  · exact absurd (hwf.claimed_length (hwf.leaf_claimed (q := [m]) (by rw [hl]; rfl))).1 (by simp)

/-- The four loops copy every page. -/
theorem copies_vmemClonePages : Copies src dst k0 cost [] (vmemClonePages dst vm.pml4) := by
  obtain ⟨r, hroot⟩ := hsrc.valid.wf.root
  exact copies_of_table hsrc hcost hroot fun i hi hbit => copies_clonePml4e hsrc hcost hi hbit

end Bodies

/-! ## The whole copy -/

theorem cloneAreas_keeps (areas : List VmemArea) (dst : Vmem) (k : Kernel) :
    (cloneAreas areas dst k).2.1.pml4 = dst.pml4 ∧
      (cloneAreas areas dst k).2.2 = { k with objects := (cloneAreas areas dst k).2.2.objects } := by
  induction areas generalizing dst k with
  | nil => exact ⟨rfl, rfl⟩
  | cons area rest ih =>
      have hobj := objectAlloc_eq k
      rw [cloneAreas]
      generalize objectAlloc k = out at *
      obtain ⟨ok, k1⟩ := out
      cases ok with
      | false => exact ⟨rfl, hobj⟩
      | true =>
          obtain ⟨hpml4, hk⟩ := ih { dst with areas := ⟨area.start, area.size, area.flags⟩ :: dst.areas } k1
          refine ⟨hpml4, hk.trans ?_⟩
          simp only at hobj
          rw [hobj]
          rfl

theorem cloneAreas_enough {areas : List VmemArea} {dst : Vmem} {k : Kernel} {objects : List Bool}
    (hobjects : k.objects = List.replicate areas.length true ++ objects) :
    ∃ dst', cloneAreas areas dst k = (0, dst', { k with objects := objects }) ∧ dst'.pml4 = dst.pml4 := by
  induction areas generalizing dst k with
  | nil =>
      refine ⟨dst, ?_, rfl⟩
      rw [cloneAreas, ← show k.objects = objects from hobjects]
  | cons area rest ih =>
      have hobj : objectAlloc k = (true, { k with objects := List.replicate rest.length true ++ objects }) := by
        rw [objectAlloc, hobjects]
        rfl
      obtain ⟨dst', hareas, hpml4⟩ := @ih { dst with areas := ⟨area.start, area.size, area.flags⟩ :: dst.areas }
        { k with objects := List.replicate rest.length true ++ objects } rfl
      refine ⟨dst', ?_, hpml4⟩
      rw [cloneAreas, hobj]
      exact hareas

theorem vmemInit_res (k : Kernel) : (vmemInit k).1 = 0 ∨ (vmemInit k).1 = -enomem := by
  unfold vmemInit
  simp only
  split_ifs
  · exact Or.inr rfl
  · exact Or.inl rfl
  · exact Or.inr rfl

/-- The list of areas and the object allocator have no part in the tree. -/
theorem Copying.areas {src pt : PageTable} {dst dst' : Vmem} {k0 k : Kernel} {done : Set Path}
    (h : Copying src dst k0 done k pt) (hpml4 : dst'.pml4 = dst.pml4) (objects : List Bool) :
    Copying src dst' k0 done { k with objects := objects } pt where
  inv :=
    { valid := hpml4 ▸ ⟨h.inv.valid.wf, h.inv.valid.rep, h.inv.valid.fresh⟩
      small := h.inv.small
      unused := h.inv.unused }
  own := ⟨h.own.ledger, h.own.isFrame, h.own.foreign, h.own.freed⟩
  used := h.used
  copied := h.copied
  mem := h.mem
  freed := h.freed

/-- Before anything is copied. -/
theorem Copying.init {src : PageTable} {vm : Vmem} {k k1 : Kernel} (hfresh : FreshFrames k.frames)
    (hinit : vmemInit k = (0, vm, k1)) : Copying src vm k ∅ k1 (emptyTable vm.pml4) := by
  obtain ⟨-, -, hframes, hmem, -, -, hfreed⟩ := vmemInit_spec hfresh hinit
  have htaken : taken k k1 = [vm.pml4] :=
    taken_eq (show k.frames = [some vm.pml4] ++ k1.frames from hframes)
  refine ⟨?_, ?_, ⟨[some vm.pml4], hframes⟩, fun q hq => hq.elim, fun a ha => hmem a ?_,
    fun g hg => (hfreed g hg).1⟩
  · rw [htaken]
    exact SpaceInv.init hfresh hinit
  · rw [htaken]
    exact Owned.init hfresh hinit
  · exact ha _ (by rw [htaken]; exact List.mem_singleton.mpr rfl)

section Whole

variable {src : Vmem} {pt : PageTable} {claimed : Set Path} {k : Kernel} {allocated : List ℕ}
  (hsrc : SpaceInv ⟨src, k, allocated⟩ pt claimed)

include hsrc

/-- The copy of an address space whose tree is known returns, and if it did not give up it
has copied every page. -/
theorem vmemClone_spec :
    ∃ res dst k', vmemClone src k = .ok (res, dst, k') ∧
      (res = 0 → ∃ pt', Copying pt dst k (pt.pagesBelow []) k' pt') := by
  have hres0 := vmemInit_res k
  unfold vmemClone
  generalize hinit : vmemInit k = init at *
  obtain ⟨res0, dst0, k1⟩ := init
  simp only at *
  split_ifs with hneg0 hneg1
  · exact ⟨res0, dst0, k1, rfl, fun h => by omega⟩
  · exact ⟨_, _, _, rfl, fun h => by omega⟩
  · obtain rfl : res0 = 0 := hres0.resolve_right fun heq => hneg0 (by rw [heq]; decide)
    have hcopy := @Copying.init pt _ _ _ hsrc.valid.freshFrames hinit
    obtain ⟨hpml4, hk⟩ := cloneAreas_keeps src.areas dst0 k1
    generalize cloneAreas src.areas dst0 k1 = areas at *
    obtain ⟨res1, dst, k2⟩ := areas
    simp only at *
    rw [hk]
    obtain ⟨res, k', hrun, hres, -⟩ := copies_vmemClonePages hsrc (PageCost.ofDepth hsrc.valid.wf) _ _ _
      (hcopy.areas hpml4 k2.objects) fun c _ => Set.notMem_empty c
    rw [hrun, ok_bind]
    simp only
    split_ifs with hneg
    · exact ⟨res, dst, k', rfl, fun h => by omega⟩
    · refine ⟨0, dst, k', rfl, fun _ => ?_⟩
      obtain ⟨pt', hdone⟩ := hres (by omega)
      rw [Set.empty_union] at hdone
      exact ⟨pt', hdone⟩

/-- With objects for the areas, and frames for the pages and their tables, the copy is
made. -/
theorem vmemClone_plenty {cost : Path → ℕ} (hcost : PageCost pt cost) {n : ℕ} {objects : List Bool}
    (hobjects : k.objects = List.replicate (src.areas.length + 1) true ++ objects)
    (hplenty : Plenty (n + 4 * cost [] + 1) k.frames) :
    ∃ dst k', vmemClone src k = .ok (0, dst, k') ∧ Plenty n k'.frames := by
  obtain ⟨f, frames, hframes, hrest⟩ := hplenty.cons
  obtain ⟨k1, hinit, hframes1, hobjects1⟩ := vmemInit_of_available
    (hsrc.valid.fresh.2 f (by rw [hframes]; exact List.mem_cons_self)).1 hframes hobjects
  have hcopy := @Copying.init pt _ _ _ hsrc.valid.freshFrames hinit
  obtain ⟨dst, hareas, hpml4⟩ := @cloneAreas_enough src.areas ⟨[], f⟩ k1 objects hobjects1
  obtain ⟨res, k', hrun, -, henough⟩ := copies_vmemClonePages hsrc hcost _ _ _
    (@Copying.areas _ _ _ dst _ _ _ hcopy hpml4 objects) fun c _ => Set.notMem_empty c
  obtain ⟨rfl, hleft⟩ := henough n (hframes1 ▸ hrest)
  refine ⟨dst, k', ?_, hleft⟩
  unfold vmemClone
  simp only [hinit, hareas]
  rw [hrun]
  rfl

/-- The only frame becomes the PML4 of the copy, and there is none for the tables of a page. -/
theorem vmemClone_one_frame {q : Path} (hq : (pt.leaf q).isSome) {g : ℕ} (hframes : k.frames = [some g]) :
    ∃ res dst k', vmemClone src k = .ok (res, dst, k') ∧ res ≠ 0 := by
  obtain ⟨res, dst, k', hcall, hcopy⟩ := vmemClone_spec hsrc
  refine ⟨res, dst, k', hcall, fun hzero => ?_⟩
  obtain ⟨pt', hdone⟩ := hcopy hzero
  have hwf := hdone.inv.valid.wf
  obtain ⟨-, l, -, hl, -⟩ := hdone.copied q ⟨hq, List.nil_suffix⟩
  have hleaf : (pt'.leaf q).isSome := by rw [hl]; rfl
  have honly {r : Path} {t : ℕ} {rights : Rights} (htable : pt'.table r = some (t, rights)) : t = g := by
    have hmem := mem_taken hdone.used ((hdone.own.ledger.mem_iff t).mpr ⟨r, held_of_table htable⟩)
    rw [hframes] at hmem
    exact Option.some.inj (List.mem_singleton.mp hmem)
  have hlength := (hwf.claimed_length (hwf.leaf_claimed hleaf)).1
  obtain ⟨r0, hroot⟩ := hwf.root
  cases q with
  | nil => exact absurd hlength (by decide)
  | cons i r =>
      obtain ⟨⟨t, rights⟩, htable⟩ := Option.isSome_iff_exists.mp (hwf.leaf_parent hleaf)
      obtain rfl := (honly htable).trans (honly hroot).symm
      rw [hwf.inj htable hroot, List.length_singleton] at hlength
      exact absurd hlength (by decide)

end Whole

/-- What an address translates to in a copy, against what it translates to in the source.
An own page of the source, always one of 4 KiB, has the same bytes in a frame that was
handed out for the copy, that is no page of 4 KiB of the source, and that no other page of
the source lies over unless one lay over frames still to be handed out; every other page
is the same. -/
def SameTranslation (src : Vmem) (k k' : Kernel) : Option Translation → Option Translation → Prop
  | none, none => True
  | some tr, some tr' => tr'.level = tr.level ∧ tr'.rights = tr.rights ∧
      (tr.rights.alloc = false → tr'.phys = tr.phys) ∧
      (tr.rights.alloc = true → tr.level = 0 ∧
        k'.mem (physToVirt tr'.phys) = k.mem (physToVirt tr.phys) ∧
        ∃ f ∈ taken k k', InFrame f (physToVirt tr'.phys) ∧
          physToVirt tr'.phys - f = physToVirt tr.phys % pageSize ∧
          ∀ addr other, walk k.mem src.pml4 addr = some other →
            (other.level = 0 ∨ ∀ g, some g ∈ k.frames → ¬InFrame g (physToVirt other.phys)) →
            ¬InFrame f (physToVirt other.phys))
  | _, _ => False

/-- The address space `dst` is a copy of `src`, made between the states `k` and `k'`. -/
structure IsClone (src : Vmem) (k : Kernel) (dst : Vmem) (k' : Kernel) : Prop where
  walk : ∀ addr, Canonical addr →
    SameTranslation src k k' (HeavenOS.walk k.mem src.pml4 addr) (HeavenOS.walk k'.mem dst.pml4 addr)
  areas : dst.areas.Perm src.areas
  isMapped : ∀ addr, vmemIsMapped dst addr = vmemIsMapped src addr
  /-- The source translates as before, and neither its tables nor its pages of 4 KiB were
  written to. -/
  source : ∀ addr, HeavenOS.walk k'.mem src.pml4 addr = HeavenOS.walk k.mem src.pml4 addr
  tables : ∀ depth t a, IsTable k.mem src.pml4 depth t → InFrame t a → k'.mem a = k.mem a
  pages : ∀ addr tr, HeavenOS.walk k.mem src.pml4 addr = some tr → tr.level = 0 →
    k'.mem (physToVirt tr.phys) = k.mem (physToVirt tr.phys)
  mem : ∀ a, (∀ f ∈ taken k k', ¬InFrame f a) → k'.mem a = k.mem a

theorem physToVirt_add {phys i : ℕ} (hdvd : 4096 ∣ phys) (hi : i < 4096) :
    physToVirt (phys + i) = physToVirt phys + i := by
  unfold physToVirt directMapStart
  omega

/-- In a list of areas that do not overlap, the order makes no difference to a search. -/
theorem find_reverse {areas : List VmemArea} (hapart : areas.Pairwise VmemArea.Apart) (addr : ℕ) :
    areas.reverse.find? (fun area => area.Holds addr) = areas.find? (fun area => area.Holds addr) := by
  have hcovers {area : VmemArea} (h : area.Holds addr) : area.Covers addr :=
    ⟨h.1, lt_of_lt_of_le h.2 (Nat.mod_le _ _)⟩
  induction areas with
  | nil => rfl
  | cons area rest ih =>
      obtain ⟨hfirst, hrest⟩ := List.pairwise_cons.mp hapart
      rw [List.reverse_cons, List.find?_append, ih hrest, List.find?_cons]
      by_cases hhold : area.Holds addr
      · have hnone : rest.find? (fun area => area.Holds addr) = none := by
          rw [List.find?_eq_none]
          intro other hother hholds
          exact hfirst other hother addr ⟨hcovers hhold, hcovers (by simpa using hholds)⟩
        simp [hnone, hhold]
      · simp [hhold]

section IsClone

variable {src dst : Vmem} {pt pt' : PageTable} {claimed : Set Path} {k k' : Kernel} {allocated : List ℕ}
  (hsrc : SpaceInv ⟨src, k, allocated⟩ pt claimed) (h : Copying pt dst k (pt.pagesBelow []) k' pt')

include hsrc h

theorem Copying.sameTranslation (addr : ℕ) :
    SameTranslation src k k' (walk k.mem src.pml4 addr) (walk k'.mem dst.pml4 addr) := by
  have hwf := hsrc.valid.wf
  by_cases hnone : ∀ n ≤ 4, pt.leaf (pathTo addr n) = none
  · have hnone' : ∀ n ≤ 4, pt'.leaf (pathTo addr n) = none := by
      intro n hn
      by_contra hsome
      have hdone := h.inv.valid.wf.leaf_claimed (Option.isSome_iff_ne_none.mpr hsome)
      exact absurd (hnone n hn) (Option.isSome_iff_ne_none.mp hdone.1)
    rw [walk_of_no_leaf hwf hsrc.valid.rep hnone,
      walk_of_no_leaf h.inv.valid.wf h.inv.valid.rep hnone']
    trivial
  · obtain ⟨n, hn⟩ := not_forall.mp hnone
    obtain ⟨-, hsome⟩ := Classical.not_imp.mp hn
    obtain ⟨l, l', hl, hl', hcopy⟩ :=
      h.copied (pathTo addr n) ⟨Option.isSome_iff_ne_none.mpr hsome, List.nil_suffix⟩
    rw [walk_of_leaf hwf hsrc.valid.rep hl, walk_of_leaf h.inv.valid.wf h.inv.valid.rep hl']
    refine ⟨rfl, hcopy.rights, fun halloc => ?_, fun halloc => ?_⟩
    · show l'.frame + _ = l.frame + _
      rw [hcopy.shared halloc]
    · have hlen := hsrc.small hl halloc
      rw [pathTo_length] at hlen
      subst hlen
      have hi : addr % pageSize < 4096 := Nat.mod_lt _ (by decide)
      have hphys := physToVirt_add (hwf.leaf_dvd hl) hi
      have hphys' := physToVirt_add (h.inv.valid.wf.leaf_dvd hl') hi
      have hheld : pt'.held (pathTo addr 4) = some (physToVirt l'.frame) := by
        rw [held_of_leaf (h.inv.valid.wf.table_of_leaf hl') hl',
          if_pos ⟨hcopy.rights ▸ halloc, pathTo_length _ _⟩]
      have hnew : physToVirt l'.frame ∈ taken k k' := (h.own.ledger.mem_iff _).mpr ⟨_, hheld⟩
      have hframe := h.own.isFrame _ hnew
      have hin : InFrame (physToVirt l'.frame) (physToVirt l'.frame + addr % pageSize) := ⟨by omega, by
        unfold pageSize at *
        omega⟩
      refine ⟨rfl, ?_, physToVirt l'.frame, hnew, ?_, ?_, fun addr2 other hother hcond hin2 => ?_⟩
      · show k'.mem (physToVirt (l'.frame + addr % pageSize)) = k.mem (physToVirt (l.frame + addr % pageSize))
        rw [hphys, hphys']
        exact hcopy.bytes halloc _ hi
      · show InFrame _ (physToVirt (l'.frame + addr % pageSize))
        rw [hphys']
        exact hin
      · show physToVirt (l'.frame + addr % pageSize) - _ = physToVirt (l.frame + addr % pageSize) % pageSize
        rw [hphys, hphys', Nat.add_sub_cancel_left]
        obtain ⟨c, hc⟩ := dvd_physToVirt (hwf.leaf_dvd hl)
        rw [hc, Nat.mul_add_mod, Nat.mod_mod]
      · have hmem := mem_taken h.used hnew
        rcases hcond with hlevel | hfree
        · obtain ⟨n2, hsome2, hn2, hle⟩ := exists_leaf_of_walk hwf hsrc.valid.rep hother
          obtain rfl : n2 = 4 := by omega
          obtain ⟨l2, hl2⟩ := Option.isSome_iff_exists.mp hsome2
          rw [walk_of_leaf hwf hsrc.valid.rep hl2] at hother
          rw [← Option.some.inj hother] at hin2
          have hi2 : addr2 % pageSize < 4096 := Nat.mod_lt _ (by decide)
          have hphys2 : physToVirt (l2.frame + addr2 % 2 ^ (12 + 9 * (4 - 4))) =
              physToVirt l2.frame + addr2 % pageSize := physToVirt_add (hwf.leaf_dvd hl2) hi2
          rw [hphys2] at hin2
          have heq := inFrame_unique hframe.1 (dvd_physToVirt (hwf.leaf_dvd hl2)) hin2
            ⟨by omega, by unfold pageSize at *; omega⟩
          exact hsrc.unused hl2 (pathTo_length _ _) (heq ▸ hmem)
        · exact hfree _ hmem hin2

theorem Copying.isClone (hareas : dst.areas = src.areas.reverse)
    (hapart : src.areas.Pairwise VmemArea.Apart) : IsClone src k dst k' where
  walk addr _ := h.sameTranslation hsrc addr
  areas := hareas ▸ List.reverse_perm _
  isMapped addr := by
    rw [vmemIsMapped, hareas, find_reverse hapart]
    rfl
  source addr := walk_congr hsrc.valid (h.source hsrc).valid rfl addr
  tables := by
    intro depth t a htable ha
    obtain ⟨q, r, hq, -⟩ := htable.exists_path hsrc.valid.wf hsrc.valid.rep
    refine h.mem a fun f hf hfa => ?_
    have hfresh := hsrc.valid.fresh.2 f (mem_taken h.used hf)
    have heq := inFrame_unique (hsrc.valid.wf.isFrame hq).1 hfresh.1.1 ha hfa
    exact hfresh.2 q r (heq ▸ hq)
  pages := by
    intro addr tr hwalk hlevel
    obtain ⟨n, hsome, hn, hle⟩ := exists_leaf_of_walk hsrc.valid.wf hsrc.valid.rep hwalk
    obtain rfl : n = 4 := by omega
    obtain ⟨l, hl⟩ := Option.isSome_iff_exists.mp hsome
    rw [walk_of_leaf hsrc.valid.wf hsrc.valid.rep hl] at hwalk
    have hi : addr % pageSize < 4096 := Nat.mod_lt _ (by decide)
    have hphys : physToVirt (l.frame + addr % 2 ^ (12 + 9 * (4 - 4))) =
        physToVirt l.frame + addr % pageSize := physToVirt_add (hsrc.valid.wf.leaf_dvd hl) hi
    rw [← Option.some.inj hwalk, hphys]
    exact h.page_mem hsrc hl (pathTo_length _ _) hi
  mem := h.mem

end IsClone

/-- The tree of every address space that was made by steps. -/
theorem space_run_inv {vm : Vmem} {k0 k1 : Kernel} {s : Space} {labels : List SpaceLabel}
    (hfresh : FreshFrames k0.frames) (hinit : vmemInit k0 = (0, vm, k1))
    (hrun : Run SpaceStep ⟨vm, k1, [vm.pml4]⟩ labels s) :
    ∃ (pt : PageTable) (claimed : Set Path), SpaceInv s pt claimed := by
  refine hrun.invariant (fun s => ∃ (pt : PageTable) (claimed : Set Path), SpaceInv s pt claimed)
    ⟨_, _, SpaceInv.init hfresh hinit⟩ ?_
  rintro s label t ⟨pt, claimed, hinv⟩ hstep
  obtain ⟨pt', claimed', hinv', -⟩ := hstep.inv hinv
  exact ⟨pt', claimed', hinv'⟩

/-- Copying an address space, whatever made it, returns; and where it returns 0 the result
is a copy and the source is as it was. -/
theorem space_run_clone {vm : Vmem} {k0 k1 : Kernel} {s : Space} {labels : List SpaceLabel}
    (hfresh : FreshFrames k0.frames) (hinit : vmemInit k0 = (0, vm, k1))
    (hrun : Run SpaceStep ⟨vm, k1, [vm.pml4]⟩ labels s)
    (hapart : s.vm.areas.Pairwise VmemArea.Apart) :
    ∃ res dst k, vmemClone s.vm s.k = .ok (res, dst, k) ∧ (res = 0 → IsClone s.vm s.k dst k) := by
  obtain ⟨pt, claimed, hinv⟩ := space_run_inv hfresh hinit hrun
  obtain ⟨res, dst, k, hcall, hcopy⟩ := vmemClone_spec hinv
  refine ⟨res, dst, k, hcall, fun hzero => ?_⟩
  obtain ⟨pt', hcopying⟩ := hcopy hzero
  obtain ⟨_, -, hareas⟩ := vmemClone_areas hcall
  exact hcopying.isClone hinv (hareas hzero) hapart

/-! The copy of an address space with a large page, a shared page and a page of its own. -/

def cloneKernel : Kernel := { bootKernel with objects := [true, true] }

def populatedKernel : Kernel := { kernelWith (manyFrames 64) with objects := [true, true, true, true] }

def largePage : MapCall := ⟨⟨.page2mb, 0x600000⟩, 0x200000, vmemUser ||| vmemWrite⟩

/-- A page that user mode may not access, in the middle of the area. -/
def sharedPage : MapCall := ⟨⟨.page, 0x401000⟩, 0x1000, 0⟩

def populatedArea : VmemArea := ⟨0x400000, 2, vmemUser⟩

def populatedLabels : List SpaceLabel :=
  [.map largePage, .map sharedPage, .allocPages 0x400000 2 vmemUser, .fault 0x400123]

/-- An address space with these pages and areas, whose frames are of these, and which has
objects and frames at hand. -/
structure Populated (s : Space) (claimed : Set Path) (leaf : Path → Option Leaf) (areas : List VmemArea)
    (objects : List Bool) (n : ℕ) : Prop where
  inv : ∃ pt, SpaceInv s pt claimed ∧ pt.leaf = leaf
  areas : s.vm.areas = areas
  objects : s.k.objects = objects
  plenty : Plenty n s.k.frames
  frames : ∃ used, manyFrames 64 = used ++ s.k.frames
  allocated : ∀ f ∈ s.allocated, some f ∈ manyFrames 64

namespace Populated

theorem init : ∃ vm k, vmemInit populatedKernel = (0, vm, k) ∧
    Populated ⟨vm, k, [vm.pml4]⟩ ∅ (fun _ => none) [] [true, true, true] 63 := by
  have hfresh := @manyFrames_fresh 64 (by decide)
  obtain ⟨f, rest, hrest, hplenty⟩ := Plenty.cons (n := 63) (manyFrames_plenty 64)
  have hmem : some f ∈ manyFrames 64 := by
    rw [hrest]
    exact List.mem_cons_self
  obtain ⟨k, hinit, hframes, hobjects⟩ :=
    @vmemInit_of_available populatedKernel f rest [true, true, true] (hfresh.2 f hmem) hrest rfl
  refine ⟨_, k, hinit, ⟨_, SpaceInv.init hfresh hinit, rfl⟩, rfl, hobjects, hframes ▸ hplenty,
    ⟨[some f], by rw [hrest, hframes]; rfl⟩, fun g hg => ?_⟩
  rw [List.mem_singleton.mp hg]
  exact hmem

variable {vm : Vmem} {k : Kernel} {allocated : List ℕ} {claimed : Set Path} {leaf : Path → Option Leaf}
  {areas : List VmemArea} {objects : List Bool} {n : ℕ}

/-- Taking frames. -/
theorem takes {k' : Kernel} (h : Populated ⟨vm, k, allocated⟩ claimed leaf areas objects n)
    (hused : ∃ used, k.frames = used ++ k'.frames) : (∃ used, manyFrames 64 = used ++ k'.frames) ∧
      ∀ f ∈ taken k k' ++ allocated, some f ∈ manyFrames 64 := by
  obtain ⟨used0, hused0⟩ := h.frames
  refine ⟨?_, fun f hf => (List.mem_append.mp hf).elim (fun hf => ?_) (h.allocated f)⟩
  · obtain ⟨used, hused⟩ := hused
    exact ⟨used0 ++ used, by rw [hused0, hused, List.append_assoc]⟩
  · rw [hused0]
    exact List.mem_append_right _ (mem_taken hused hf)

/-- A mapping call for low memory. -/
theorem map (h : Populated ⟨vm, k, allocated⟩ claimed leaf areas objects (n + 3)) (call : MapCall) (hlegal : call.Legal)
    (hnew : ∀ c ∈ claimed, ¬call.path <:+ c ∧ ¬c <:+ call.path) (hforeign : call.flags &&& vmemAlloc = 0)
    (hlow : call.frame < gb) :
    ∃ k', (SpaceStep ⟨vm, k, allocated⟩ (.map call) ⟨vm, k', taken k k' ++ allocated⟩ ∧
        SpaceLabel.Foreign ⟨vm, k, allocated⟩ (.map call)) ∧
      Populated ⟨vm, k', taken k k' ++ allocated⟩ (insert call.path claimed)
        (Function.update leaf call.path (some call.leaf)) areas objects n := by
  obtain ⟨pt, hinv, rfl⟩ := h.inv
  have hsmall : call.flags &&& vmemAlloc ≠ 0 → call.size = .page := fun hne => absurd hforeign hne
  have hframe : some (physToVirt call.frame) ∉ k.frames := fun hmem => by
    obtain ⟨used, hused⟩ := h.frames
    exact not_mem_manyFrames hlow (hused ▸ List.mem_append_right _ hmem)
  obtain ⟨hclear, k', pt', hcall, hleft, hinv', hgrows, hleaf⟩ :=
    hinv.map_new hlegal hnew hsmall (fun _ => hframe) h.plenty
  obtain ⟨used, hused, -⟩ := hgrows.used
  obtain ⟨hframes, hallocated⟩ := h.takes ⟨used, hused⟩
  refine ⟨k', ⟨.map hlegal hclear hsmall (fun _ => hframe) hcall, hforeign, fun _ hmem => ?_⟩,
    ⟨pt', hinv', hleaf⟩, h.areas, hgrows.objects.trans h.objects, hleft, hframes, hallocated⟩
  exact not_mem_manyFrames hlow (h.allocated _ hmem)

/-- The request for the area. -/
theorem allocPages (h : Populated ⟨vm, k, allocated⟩ claimed leaf [] (true :: objects) n) (start pgcnt : ℕ)
    (flags : BitVec 64) (hstart : pageSize ∣ start) (hlt : start < 2 ^ 64) :
    SpaceStep ⟨vm, k, allocated⟩ (.allocPages start pgcnt flags)
        ⟨⟨[⟨start, pgcnt, flags⟩], vm.pml4⟩, { k with objects := objects }, allocated⟩ ∧
      Populated ⟨⟨[⟨start, pgcnt, flags⟩], vm.pml4⟩, { k with objects := objects }, allocated⟩ claimed leaf
        [⟨start, pgcnt, flags⟩] objects n := by
  have hareas : vm.areas = [] := h.areas
  have hmask : maskDown start pageSize = start := (maskDown_two_pow_eq_self_iff (k := 12) hlt).mpr hstart
  have hobj : objectAlloc k = (true, { k with objects := objects }) := by
    rw [objectAlloc, show k.objects = true :: objects from h.objects]
  refine ⟨@SpaceStep.allocPages ⟨vm, k, allocated⟩ _ _ _ 0 _ _ ?_, ?_, rfl, rfl, h.plenty, h.frames, h.allocated⟩
  · unfold vmemAllocPages vmemIntersects
    rw [kassert_of_true hmask, ok_bind]
    simp only [hareas, hobj, List.any_nil]
    rfl
  · obtain ⟨pt, hinv, hleaf⟩ := h.inv
    exact ⟨pt, ⟨⟨hinv.valid.wf, hinv.valid.rep, hinv.valid.fresh⟩, hinv.small, hinv.unused⟩, hleaf⟩

/-- A page fault in an area. -/
theorem fault {area : VmemArea} (h : Populated ⟨vm, k, allocated⟩ claimed leaf areas objects (n + 4)) (addr : ℕ)
    (haddr : Canonical addr) (hempty : ∀ m ≤ 4, leaf (pathTo addr m) = none) (harea : vmemIsMapped vm addr = some area) :
    ∃ k' f claimed', SpaceStep ⟨vm, k, allocated⟩ (.fault addr) ⟨vm, k', taken k k' ++ allocated⟩ ∧
      Populated ⟨vm, k', taken k k' ++ allocated⟩ claimed'
        (Function.update leaf (pathTo addr 4) (some ⟨virtToPhys f, rightsOf (area.flags ||| vmemAlloc)⟩)) areas objects n := by
  obtain ⟨pt, hinv, rfl⟩ := h.inv
  have hunmapped : walk k.mem vm.pml4 addr = none := walk_of_no_leaf hinv.valid.wf hinv.valid.rep hempty
  obtain ⟨k', hcall, hleft⟩ := hinv.fault_plenty haddr hunmapped harea h.plenty
  obtain ⟨f, frames, hframe, -⟩ := Plenty.cons (n := n + 3) h.plenty
  obtain ⟨hget, -⟩ := hinv.valid.frameAlloc_some hframe
  rcases hinv.fault haddr hunmapped hframe hcall with ⟨hfalse, -⟩ | ⟨pt', claimed', area', harea', hinv', hgrows, -, hleaf⟩
  · cases hfalse
  obtain rfl := Option.some.inj (harea.symm.trans harea')
  obtain ⟨used, hused, -⟩ := hgrows.used
  have hrest : (frameAlloc k).2.frames = frames := by rw [hget]
  have hused' : k.frames = (some f :: used) ++ k'.frames := by
    rw [show k.frames = some f :: frames from hframe, List.cons_append, ← hused, hrest]
  obtain ⟨hframes, hallocated⟩ := h.takes ⟨_, hused'⟩
  have hobjects : (frameAlloc k).2.objects = k.objects := by rw [hget]
  exact ⟨k', f, claimed', .fault haddr hunmapped hframe hcall, ⟨pt', hinv', hleaf⟩, h.areas,
    (hgrows.objects.trans hobjects).trans h.objects, hleft, hframes, hallocated⟩

end Populated

/-- Its pages, the last one in the frame `f`. -/
def populatedLeaf (f : ℕ) : Path → Option Leaf :=
  Function.update (Function.update (Function.update (fun _ => none) largePage.path (some largePage.leaf))
    sharedPage.path (some sharedPage.leaf)) (pathTo 0x400123 4) (some ⟨virtToPhys f, ⟨true, false, true⟩⟩)

theorem populatedLeaf_shared (f : ℕ) : populatedLeaf f (pathTo 0x401000 4) = some sharedPage.leaf := by
  rw [populatedLeaf, Function.update_of_ne (by decide)]
  exact Function.update_self sharedPage.path _ _

theorem populatedLeaf_cases {f : ℕ} {q : Path} {l : Leaf} (h : populatedLeaf f q = some l) :
    q = largePage.path ∧ l = largePage.leaf ∨ q = sharedPage.path ∧ l = sharedPage.leaf ∨
      q = pathTo 0x400123 4 ∧ l = ⟨virtToPhys f, ⟨true, false, true⟩⟩ := by
  unfold populatedLeaf at h
  simp only [Function.update_apply] at h
  split_ifs at h with h1 h2 h3
  · exact Or.inr (Or.inr ⟨h1, (Option.some.inj h).symm⟩)
  · exact Or.inr (Or.inl ⟨h2, (Option.some.inj h).symm⟩)
  · exact Or.inl ⟨h3, (Option.some.inj h).symm⟩

/-- An address space with a large page, a shared page, an area and a page of its own in it. -/
theorem exists_populated :
    ∃ vm k s f claimed, vmemInit populatedKernel = (0, vm, k) ∧
      Run (fun s label t => SpaceStep s label t ∧ label.Foreign s) ⟨vm, k, [vm.pml4]⟩ populatedLabels s ∧
      Populated s claimed (populatedLeaf f) [populatedArea] [true, true] 53 := by
  obtain ⟨vm, k, hinit, h⟩ := Populated.init
  obtain ⟨k1, hlarge, h1⟩ := h.map (n := 60) largePage ⟨⟨by decide, by decide⟩, by decide, by decide⟩
    (fun _ hc => hc.elim) (by decide) (by decide)
  have hapart : ∀ c ∈ insert largePage.path (∅ : Set Path), ¬sharedPage.path <:+ c ∧ ¬c <:+ sharedPage.path := by
    rintro c (rfl | hc)
    · decide
    · exact hc.elim
  obtain ⟨k2, hshared, h2⟩ := h1.map (n := 57) sharedPage ⟨⟨by decide, by decide⟩, by decide, by decide⟩
    hapart (by decide) (by decide)
  obtain ⟨harea, h3⟩ := h2.allocPages 0x400000 2 vmemUser (by decide) (by decide)
  have hfar : ∀ m ≤ 4, pathTo 0x400123 m ≠ sharedPage.path ∧ pathTo 0x400123 m ≠ largePage.path := by decide
  obtain ⟨k4, f, claimed, hfault, h4⟩ := @Populated.fault _ _ _ _ _ _ _ 53 populatedArea h3 0x400123 (Or.inl (by decide))
    (fun m hm => by rw [Function.update_of_ne (hfar m hm).1, Function.update_of_ne (hfar m hm).2]) rfl
  exact ⟨vm, k, _, f, claimed, hinit, (((Run.single _ hlarge).snoc hshared).snoc ⟨harea, trivial⟩).snoc ⟨hfault, trivial⟩, h4⟩

/-- What the addresses of the populated address space lead to. -/
theorem Populated.walk_eq {s : Space} {claimed : Set Path} {f n : ℕ} {areas : List VmemArea} {objects : List Bool}
    (h : Populated s claimed (populatedLeaf f) areas objects n) {addr m : ℕ} {l : Leaf}
    (hl : populatedLeaf f (pathTo addr m) = some l) : walk s.k.mem s.vm.pml4 addr =
      some ⟨l.frame + addr % 2 ^ (12 + 9 * (4 - m)), 4 - m, l.rights⟩ := by
  obtain ⟨pt, hinv, hleaf⟩ := h.inv
  exact walk_of_leaf hinv.valid.wf hinv.valid.rep (hleaf ▸ hl)

theorem space_run_clone_populated :
    ∃ vm k1 s dst k, vmemInit populatedKernel = (0, vm, k1) ∧ Run SpaceStep ⟨vm, k1, [vm.pml4]⟩ populatedLabels s ∧
      s.vm.areas = [populatedArea] ∧
      walk s.k.mem s.vm.pml4 0x600000 = some ⟨0x200000, 1, ⟨true, true, false⟩⟩ ∧
      walk s.k.mem s.vm.pml4 0x401000 = some ⟨0x1000, 0, ⟨false, false, false⟩⟩ ∧
      (∃ tr, walk s.k.mem s.vm.pml4 0x400123 = some tr ∧ tr.rights.alloc = true) ∧
      vmemClone s.vm s.k = .ok (0, dst, k) ∧ IsClone s.vm s.k dst k := by
  obtain ⟨vm, k1, s, f, claimed, hinit, hrun, h⟩ := exists_populated
  obtain ⟨pt, hinv, hleaf⟩ := h.inv
  have hrun := hrun.mono fun _ _ _ hstep => hstep.1
  have hpages : ∀ q, (pt.leaf q).isSome → q ∈ ({largePage.path, sharedPage.path, pathTo 0x400123 4} : Finset Path) := by
    intro q hq
    obtain ⟨l, hl⟩ := Option.isSome_iff_exists.mp hq
    simp only [Finset.mem_insert, Finset.mem_singleton]
    exact (populatedLeaf_cases (hleaf ▸ hl)).imp And.left (Or.imp And.left And.left)
  obtain ⟨dst, k, hcall, -⟩ := vmemClone_plenty hinv (PageCost.ofPages hpages) (n := 0)
    (show s.k.objects = _ ++ [] by rw [h.areas, h.objects]; rfl) (h.plenty.mono (by decide))
  obtain ⟨res, dst', k', hcall', hclone⟩ := space_run_clone (@manyFrames_fresh 64 (by decide)) hinit hrun
    (by rw [h.areas]; exact List.pairwise_singleton _ _)
  obtain ⟨rfl, hrest⟩ := Prod.mk.inj (Except.ok.inj (hcall.symm.trans hcall'))
  obtain ⟨rfl, rfl⟩ := Prod.mk.inj hrest
  have hlarge : populatedLeaf f (pathTo 0x600000 3) = some largePage.leaf := by
    rw [populatedLeaf, Function.update_of_ne (by decide), Function.update_of_ne (by decide)]
    exact Function.update_self largePage.path _ _
  exact ⟨vm, k1, s, dst, k, hinit, hrun, h.areas, h.walk_eq hlarge, h.walk_eq (populatedLeaf_shared f),
    ⟨_, h.walk_eq (m := 4) (Function.update_self _ _ _), rfl⟩, hcall, hclone rfl⟩

end HeavenOS

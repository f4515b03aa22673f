/-
# The memory of a task

A task owns the frames of its page tables and of the pages of its stack. Besides them its
tables lead to the code page and to the large pages of the kernel, and to nothing else. The
functions that make, change and destroy an address space keep it so, and write to no
memory but frames that they own or have just taken.
-/

import HeavenOS.Mm.PageFault
import HeavenOS.Mm.VmemDestroy
import HeavenOS.Sched.UserSystem

namespace HeavenOS

open Lib PageTable

/-! ## The pages of a task -/

theorem stackArea_covers {a : ℕ} : stackArea.Covers a ↔ 0x70000000 ≤ a ∧ a < 0x70004000 := Iff.rfl

/-- The area that is found is one of the list, and holds the address. -/
theorem vmemIsMapped_some {vm : Vmem} {addr : ℕ} {area : VmemArea} (harea : vmemIsMapped vm addr = some area) :
    area ∈ vm.areas ∧ area.Holds addr :=
  ⟨List.mem_of_find?_eq_some harea, by simpa using List.find?_some harea⟩

/-- A large page of the kernel, the code page, or a page of the stack. -/
inductive PageKind (code : ℕ) : Path → Leaf → Prop
  | kernel {addr n frame : ℕ} (hlarge : 2 ≤ n ∧ n < 4) (hlo : kernelHigherHalfStart ≤ addr) (hhi : addr < 2 ^ 64) :
      PageKind code (pathTo addr n) ⟨frame, kernelRights⟩
  | code : PageKind code (pathTo 0x10000 4) ⟨code, ⟨true, false, false⟩⟩
  | stack {addr frame : ℕ} (hcov : stackArea.Covers addr) : PageKind code (pathTo addr 4) ⟨frame, ⟨true, true, true⟩⟩

/-- A page of 4 KiB that is not the task's own is the code page. -/
theorem PageKind.frame_eq {code : ℕ} {q : Path} {l : Leaf} (hkind : PageKind code q l) (hlen : q.length = 4)
    (halloc : l.rights.alloc = false) : l.frame = code := by
  cases hkind with
  | kernel hlarge =>
      rw [pathTo_length] at hlen
      omega
  | code => rfl
  | stack => cases halloc

/-- A copy of a page is a page of the same kind. -/
theorem PageKind.copy {code : ℕ} {q : Path} {l l' : Leaf} {m m' : Mem} (hkind : PageKind code q l)
    (hcopy : CopyOf m m' l l') : PageKind code q l' := by
  obtain ⟨frame', rights'⟩ := l'
  have hrights : rights' = l.rights := hcopy.rights
  subst hrights
  cases hkind with
  | kernel hlarge hlo hhi => exact .kernel hlarge hlo hhi
  | code =>
      obtain rfl : frame' = code := hcopy.shared rfl
      exact .code
  | stack hcov => exact .stack hcov

/-- The pages of `setup_vmem`. -/
theorem setupCalls_kind {image : Image} {physStartUser : ℕ} :
    ∀ call ∈ setupCalls image physStartUser,
      PageKind physStartUser call.path call.leaf ∧ call.flags &&& vmemAlloc = 0 := by
  intro call hcall
  rcases mem_setupCalls.mp hcall with ⟨i, hi, rfl⟩ | ⟨i, hi, rfl⟩ | rfl
  · refine ⟨?_, show vmemWrite &&& vmemAlloc = 0 by decide⟩
    show PageKind physStartUser (pathTo (directMapStart + i * gb) 2) ⟨i * gb, rightsOf vmemWrite⟩
    rw [rightsOf_vmemWrite]
    unfold directMapStart gb
    exact .kernel (by omega) (by unfold kernelHigherHalfStart; omega) (by omega)
  · refine ⟨?_, show vmemWrite &&& vmemAlloc = 0 by decide⟩
    show PageKind physStartUser (pathTo (kernelSectionsStart + i * twoMb) 3) ⟨image.start + i * twoMb, rightsOf vmemWrite⟩
    have hsize := image.size_le
    unfold Image.pages at hi
    unfold twoMb at *
    unfold kernelSectionsSize at hsize
    rw [rightsOf_vmemWrite]
    unfold kernelSectionsStart
    exact .kernel (by omega) (by unfold kernelHigherHalfStart; omega) (by omega)
  · refine ⟨?_, show vmemUser &&& vmemAlloc = 0 by decide⟩
    have hrights : rightsOf vmemUser = ⟨true, false, false⟩ := by decide
    show PageKind physStartUser (pathTo 0x10000 4) ⟨physStartUser, rightsOf vmemUser⟩
    rw [hrights]
    exact .code

/-- Where the pages of 4 KiB of a task may be. -/
def taskPaths : Finset Path :=
  insert (pathTo 0x10000 4) ((Finset.range 4).image fun i => [i, 384, 1, 0])

theorem card_taskPaths_le : taskPaths.card ≤ 5 :=
  (Finset.card_insert_le _ _).trans (Nat.succ_le_succ Finset.card_image_le)

theorem PageKind.mem_taskPaths {code : ℕ} {q : Path} {l : Leaf} (hkind : PageKind code q l) (hlen : q.length = 4) :
    q ∈ taskPaths := by
  cases hkind with
  | kernel hlarge =>
      rw [pathTo_length] at hlen
      omega
  | code => exact Finset.mem_insert_self _ _
  | @stack addr frame hcov =>
      rw [stackArea_covers] at hcov
      have hindex : tableIndex 0 addr < 4 ∧ tableIndex 1 addr = 384 ∧ tableIndex 2 addr = 1 ∧ tableIndex 3 addr = 0 := by
        simp only [tableIndex_eq]
        omega
      refine Finset.mem_insert_of_mem (Finset.mem_image.mpr ⟨tableIndex 0 addr, Finset.mem_range.mpr hindex.1, ?_⟩)
      show _ = [tableIndex 0 addr, tableIndex 1 addr, tableIndex 2 addr, tableIndex 3 addr]
      rw [hindex.2.1, hindex.2.2.1, hindex.2.2.2]

/-- An address space with such pages, whose frames are those in the books. -/
structure TaskSpace (code : ℕ) (s : Space) (pt : PageTable) (claimed : Set Path) : Prop where
  inv : SpaceInv s pt claimed
  own : Owned s pt
  pages : ∀ {q l}, pt.leaf q = some l → PageKind code q l
  code : physToVirt code ∉ s.allocated ∧ some (physToVirt code) ∉ s.k.frames

/-- What a call that takes frames may do: it adds them to those that it owns, and writes to
frames that it owns only. -/
structure Takes (own own' : List ℕ) (k k' : Kernel) : Prop where
  sub : own ⊆ own'
  frames : k'.frames <:+ k.frames
  new : ∀ f ∈ own', f ∈ own ∨ some f ∈ k.frames
  mem : ∀ a, (∀ f ∈ own', ¬InFrame f a) → k'.mem a = k.mem a
  freed : k'.freed ⊆ k.freed

namespace Takes

variable {own own1 own2 : List ℕ} {k k1 k2 : Kernel}

theorem refl (own : List ℕ) (k : Kernel) : Takes own own k k :=
  ⟨List.Subset.refl _, List.suffix_refl _, fun _ hf => Or.inl hf, fun _ _ => rfl, List.Subset.refl _⟩

theorem trans (h : Takes own own1 k k1) (h' : Takes own1 own2 k1 k2) : Takes own own2 k k2 where
  sub := List.Subset.trans h.sub h'.sub
  frames := h'.frames.trans h.frames
  new f hf := by
    rcases h'.new f hf with hf | hf
    · exact h.new f hf
    · exact Or.inr (h.frames.subset hf)
  mem a ha := (h'.mem a ha).trans (h.mem a fun f hf => ha f (h'.sub hf))
  freed := List.Subset.trans h'.freed h.freed

/-- One more frame that is kept. -/
theorem cons (f : ℕ) (h : Takes own own1 k k1) : Takes (f :: own) (f :: own1) k k1 where
  sub := List.cons_subset_cons f h.sub
  frames := h.frames
  new g hg := by
    rcases List.mem_cons.mp hg with rfl | hg
    · exact Or.inl List.mem_cons_self
    · exact (h.new g hg).imp_left (List.mem_cons_of_mem _)
  mem a ha := h.mem a fun g hg => ha g (List.mem_cons_of_mem _ hg)
  freed := h.freed

end Takes

theorem NewStack.takes {kstackTop page : ℕ} {own : List ℕ} {k k' : Kernel} (h : NewStack kstackTop page k k') :
    Takes own (page :: own) k k' where
  sub := List.subset_cons_self _ _
  frames := ⟨[some page], by rw [h.frames]; rfl⟩
  new f hf := by
    rcases List.mem_cons.mp hf with rfl | hf
    · exact Or.inr (by rw [h.frames]; exact List.mem_cons_self)
    · exact Or.inl hf
  mem a ha := h.mem a (ha page List.mem_cons_self)
  freed g hg := by
    rw [h.freed] at hg
    exact (List.mem_filter.mp hg).1

namespace TaskSpace

variable {code : ℕ} {s : Space} {pt : PageTable} {claimed : Set Path} (h : TaskSpace code s pt claimed)

include h

/-! ## Frames -/

theorem table_mem {q : Path} {t : ℕ} {r : Rights} (hq : pt.table q = some (t, r)) : t ∈ s.allocated :=
  (h.own.ledger.mem_iff t).mpr ⟨q, held_of_table hq⟩

theorem held_page {q : Path} {l : Leaf} (hl : pt.leaf q = some l) (halloc : l.rights.alloc = true) :
    pt.held q = some (physToVirt l.frame) := by
  rw [held_of_leaf (h.inv.valid.wf.table_of_leaf hl) hl, if_pos ⟨halloc, h.inv.small hl halloc⟩]

/-- A page of the task's own is no table. -/
theorem page_ne_table {p q : Path} {l : Leaf} {t : ℕ} {r : Rights} (hl : pt.leaf q = some l)
    (halloc : l.rights.alloc = true) (hp : pt.table p = some (t, r)) : physToVirt l.frame ≠ t := by
  rintro rfl
  obtain rfl := h.own.ledger.inj (h.held_page hl halloc) (held_of_table hp)
  rw [h.inv.valid.wf.table_of_leaf hl] at hp
  cases hp

theorem isTable_mem {depth t : ℕ} (ht : IsTable s.k.mem s.vm.pml4 depth t) : t ∈ s.allocated := by
  obtain ⟨q, r, hq, -⟩ := ht.exists_path h.inv.valid.wf h.inv.valid.rep
  exact h.table_mem hq

/-- A frame that is neither a table nor a page is not owned. -/
theorem not_mem_of_unused {frames : List (Option ℕ)} (hun : Unused s.k.mem s.vm.pml4 frames) {f : ℕ}
    (hf : some f ∈ frames) : f ∉ s.allocated := by
  intro hmem
  obtain ⟨q, hq⟩ := (h.own.ledger.mem_iff f).mp hmem
  have hwf := h.inv.valid.wf
  cases htable : pt.table q with
  | some entry =>
      obtain ⟨t, r⟩ := entry
      rw [held_of_table htable] at hq
      obtain rfl := Option.some.inj hq
      exact (hun.2 t hf).1 q.length (isTable_of_table hwf h.inv.valid.rep htable)
  | none =>
      cases hl : pt.leaf q with
      | none =>
          rw [held_of_none htable hl] at hq
          cases hq
      | some l =>
          rw [held_of_leaf htable hl] at hq
          split_ifs at hq with hpage
          obtain rfl := Option.some.inj hq
          obtain ⟨addr, hdvd, hpath⟩ := exists_aligned_pathTo hpage.2
            (hwf.claimed_lt (hwf.leaf_claimed (q := q) (by rw [hl]; rfl)))
          have hwalk := walk_of_leaf hwf h.inv.valid.rep (hpath.symm ▸ hl)
          refine (hun.2 _ hf).2 addr _ hdvd hwalk rfl ?_
          show physToVirt (l.frame + addr % pageSize) = physToVirt l.frame
          rw [Nat.mod_eq_zero_of_dvd hdvd, Nat.add_zero]

/-- Nothing changes in an address space as long as nothing is written to its tables. -/
theorem change {vm : Vmem} {k : Kernel} (hpml4 : vm.pml4 = s.vm.pml4)
    (htables : ∀ q t r, pt.table q = some (t, r) → ∀ a, InFrame t a → k.mem a = s.k.mem a)
    (hfresh : FreshFrames k.frames)
    (hnew : ∀ f, some f ∈ k.frames → f ∉ s.allocated ∧ f ≠ physToVirt code)
    (hfreed : ∀ g ∈ k.freed, g ∉ s.allocated) : TaskSpace code ⟨vm, k, s.allocated⟩ pt claimed where
  inv := by
    refine ⟨?_, h.inv.small, fun {q l} hl hq hmem => ?_⟩
    · rw [hpml4]
      exact ⟨h.inv.valid.wf, h.inv.valid.rep.congr htables, hfresh.1, fun f hf =>
        ⟨hfresh.2 f hf, fun q r hq => (hnew f hf).1 (h.table_mem hq)⟩⟩
    · have hkind := h.pages hl
      cases hkind with
      | kernel hlarge =>
          rw [pathTo_length] at hq
          omega
      | code => exact (hnew _ hmem).2 rfl
      | stack => exact (hnew _ hmem).1 ((h.own.ledger.mem_iff _).mpr ⟨_, h.held_page hl rfl⟩)
  own := ⟨h.own.ledger.congr rfl fun f hf hmem => (hnew f hmem).1 hf, h.own.isFrame, h.own.foreign, hfreed⟩
  pages := h.pages
  code := ⟨h.code.1, fun hmem => (hnew _ hmem).2 rfl⟩

/-! ## Translations -/

omit h in
/-- A page of 4 KiB lies in one frame. -/
theorem frame_page {phys off : ℕ} {r : Rights} (hdvd : 4096 ∣ phys) (hoff : off < 4096) :
    (⟨phys + off, 0, r⟩ : Translation).frame = physToVirt phys ∧
      InFrame (physToVirt phys) (physToVirt (phys + off)) := by
  have hround : roundDown (phys + off) pageSize = phys := by
    unfold roundDown pageSize
    omega
  refine ⟨by rw [Translation.frame, hround], ?_⟩
  rw [physToVirt_add hdvd hoff]
  unfold InFrame pageSize
  omega

omit h in
/-- The places of two pages of 4 KiB are the same exactly if the pages are. -/
theorem page_of_pathTo_eq {addr base : ℕ} (haddr : Canonical addr) (hbase : Canonical base)
    (hpath : pathTo addr 4 = pathTo base 4) : addr / pageSize = base / pageSize := by
  have hdiv := div_eq_of_pathTo_eq (n := 4) (by omega) haddr hbase hpath
  unfold pageSize
  omega

/-- Where an address leads to. -/
theorem walk_cases {addr : ℕ} {tr : Translation} (haddr : Canonical addr)
    (hwalk : walk s.k.mem s.vm.pml4 addr = some tr) :
    tr.rights.user = false ∧ kernelHigherHalfStart ≤ addr ∨
    tr.rights = ⟨true, false, false⟩ ∧ 0x10000 ≤ addr ∧ addr < 0x10000 + pageSize ∧
      tr.frame = physToVirt code ∨
    tr.rights = ⟨true, true, true⟩ ∧ stackArea.Covers addr ∧ InFrame tr.frame (physToVirt tr.phys) ∧
      tr.frame ∈ s.allocated ∧ ∀ q t r, pt.table q = some (t, r) → tr.frame ≠ t := by
  have hwf := h.inv.valid.wf
  obtain ⟨n, hsome, -, hlo, hhi⟩ := exists_leaf_of_walk hwf h.inv.valid.rep hwalk
  obtain ⟨l, hl⟩ := Option.isSome_iff_exists.mp hsome
  obtain rfl := Option.some.inj (hwalk.symm.trans (walk_of_leaf hwf h.inv.valid.rep hl))
  have hkind := h.pages hl
  generalize hq : pathTo addr n = q at hkind
  have hlen : n = q.length := by rw [← hq, pathTo_length]
  cases hkind with
  | @kernel base m frame hlarge hbase hlt =>
      left
      rw [pathTo_length] at hlen
      subst hlen
      refine ⟨rfl, ?_⟩
      have hdiv := div_eq_of_pathTo_eq ⟨hlo, hhi⟩ haddr (Or.inr (by unfold kernelHigherHalfStart at hbase; omega)) hq
      unfold kernelHigherHalfStart at *
      obtain rfl | rfl : n = 2 ∨ n = 3 := by omega
      · norm_num at hdiv
        omega
      · norm_num at hdiv
        omega
  | code =>
      right
      left
      obtain rfl : n = 4 := by simpa using hlen
      have hpage := page_of_pathTo_eq haddr (by decide) hq
      obtain ⟨hframe, -⟩ := frame_page (r := ⟨true, false, false⟩) (h.inv.valid.wf.leaf_dvd hl) (Nat.mod_lt addr (by decide))
      unfold pageSize at *
      exact ⟨rfl, by omega, by omega, hframe⟩
  | @stack base frame hcov =>
      right
      right
      obtain rfl : n = 4 := by simpa using hlen
      rw [stackArea_covers] at hcov
      have hbase : Canonical base := Or.inl (by omega)
      have hpage := page_of_pathTo_eq haddr hbase hq
      obtain ⟨hframe, hin⟩ := frame_page (r := ⟨true, true, true⟩) (h.inv.valid.wf.leaf_dvd hl) (Nat.mod_lt addr (by decide))
      refine ⟨rfl, ?_, ?_, ?_, fun p t r hp => ?_⟩
      · rw [stackArea_covers]
        unfold pageSize at hpage
        omega
      · exact hframe ▸ hin
      · exact hframe ▸ (h.own.ledger.mem_iff _).mpr ⟨_, h.held_page hl rfl⟩
      · exact hframe ▸ h.page_ne_table hl rfl hp

/-- At addresses of the stack and above there is nothing but pages of the stack. -/
theorem walk_stack {addr : ℕ} {tr : Translation} (hlo : 0x70000000 ≤ addr) (hhi : addr < 2 ^ 47)
    (hwalk : walk s.k.mem s.vm.pml4 addr = some tr) :
    tr.rights = ⟨true, true, true⟩ ∧ stackArea.Covers addr ∧ InFrame tr.frame (physToVirt tr.phys) ∧
      tr.frame ∈ s.allocated ∧ ∀ q t r, pt.table q = some (t, r) → tr.frame ≠ t := by
  rcases h.walk_cases (Or.inl hhi) hwalk with ⟨-, hhigh⟩ | ⟨-, -, hlow, -⟩ | hstack
  · unfold kernelHigherHalfStart at hhigh
    omega
  · unfold pageSize at hlow
    omega
  · exact hstack

/-- Where a program may write, it is on a page of its own. -/
theorem writable {addr : ℕ} {tr : Translation} (haddr : Canonical addr) (hwalk : walk s.k.mem s.vm.pml4 addr = some tr)
    (huser : tr.rights.user = true) (hwrite : tr.rights.write = true) :
    stackArea.Covers addr ∧ tr.frame ∈ s.allocated ∧ ∀ q t r, pt.table q = some (t, r) → tr.frame ≠ t := by
  rcases h.walk_cases haddr hwalk with ⟨hno, -⟩ | ⟨hrights, -⟩ | ⟨-, hcov, -, hmem, htable⟩
  · rw [huser] at hno
    cases hno
  · rw [hrights] at hwrite
    cases hwrite
  · exact ⟨hcov, hmem, htable⟩

/-- A fault that the handler ends is at an address that leads nowhere. -/
theorem unmapped_of_handled (hareas : s.vm.areas = [stackArea]) {addr : ℕ} {write : Bool} {k k' : Kernel}
    (hfault : ¬Allowed (walk s.k.mem s.vm.pml4 addr) write) (hcall : vmemHandlePf s.vm addr k = .ok (true, k')) :
    walk s.k.mem s.vm.pml4 addr = none := by
  rcases vmemHandlePf_cases hcall with ⟨-, hbad, -⟩ | ⟨area, -, harea, -⟩
  · cases hbad
  obtain ⟨hmem, hholds⟩ := vmemIsMapped_some harea
  rw [hareas, List.mem_singleton] at hmem
  have hcov : stackArea.Covers addr := hmem ▸ hholds.covers
  rw [stackArea_covers] at hcov
  cases hwalk : walk s.k.mem s.vm.pml4 addr with
  | none => rfl
  | some tr =>
      obtain ⟨hrights, -⟩ := h.walk_stack hcov.1 (by omega) hwalk
      exact absurd ⟨tr, hwalk, by rw [hrights], fun _ => by rw [hrights]⟩ hfault

/-! ## What the calls do -/

omit h in
/-- Growing the tree. -/
theorem takes_of_grows {pt' : PageTable} {k' : Kernel} (hgrows : Grows pt s.k pt' k')
    (hown : Owned ⟨s.vm, k', taken s.k k' ++ s.allocated⟩ pt') :
    Takes s.allocated (taken s.k k' ++ s.allocated) s.k k' := by
  obtain ⟨used, hused, -⟩ := hgrows.used
  refine ⟨List.subset_append_right _ _, ⟨used, hused.symm⟩, fun f hf => ?_, fun a ha => ?_, fun g hg => (hgrows.freed g hg).1⟩
  · rcases List.mem_append.mp hf with hf | hf
    · exact Or.inr (mem_taken ⟨used, hused⟩ hf)
    · exact Or.inl hf
  · exact hgrows.mem a fun q t r hq => ha t ((hown.ledger.mem_iff t).mpr ⟨q, held_of_table hq⟩)

/-- One more page of the kernel, or the code page. -/
theorem map {call : MapCall} {res : Int} {k' : Kernel} (hlegal : call.Legal)
    (hnew : ∀ c ∈ claimed, ¬call.path <:+ c ∧ ¬c <:+ call.path) (hkind : PageKind code call.path call.leaf)
    (halloc : call.flags &&& vmemAlloc = 0) (hcall : call.run s.vm s.k = .ok (res, k')) :
    ∃ pt', TaskSpace code ⟨s.vm, k', taken s.k k' ++ s.allocated⟩ pt' (insert call.path claimed) ∧
      Takes s.allocated (taken s.k k' ++ s.allocated) s.k k' := by
  obtain ⟨res', k1, pt', hrun, hvalid, hgrows, hres, -⟩ := MapCall.run_spec h.inv.valid hlegal hnew
  obtain ⟨rfl, rfl⟩ := Prod.mk.inj (Except.ok.inj (hcall.symm.trans hrun))
  have hrights : call.leaf.rights.alloc = false := by simp [MapCall.leaf, rightsOf, halloc]
  have hcode : call.size = .page → call.frame = code := fun hsize =>
    hkind.frame_eq (by rw [PageSpan.path, pathTo_length, hsize]; rfl) hrights
  have hframes : ∀ f, some f ∈ k'.frames → some f ∈ s.k.frames := by
    obtain ⟨used, hused, -⟩ := hgrows.used
    exact fun f hf => hused ▸ List.mem_append_right _ hf
  have hold : ∀ q, (pt.leaf q).isSome → q ∈ insert call.path claimed ∧ q ≠ call.path := fun q hq =>
    have hq := h.inv.valid.wf.leaf_claimed hq
    ⟨Set.mem_insert_of_mem _ hq, fun heq => (hnew q hq).1 (heq ▸ List.suffix_refl _)⟩
  have hown := h.own.map h.inv hvalid hgrows hold hres (fun hsize => by rw [hcode hsize]; exact h.code.2)
    ⟨halloc, fun hsize => by rw [hcode hsize]; exact h.code.1⟩
  refine ⟨pt', ⟨?_, hown, fun hl => ?_, fun hmem => ?_, fun hmem => h.code.2 (hframes _ hmem)⟩, takes_of_grows hgrows hown⟩
  · rcases hres with ⟨-, hleaf⟩ | ⟨-, hleaf⟩
    · exact h.inv.setLeaf _ hvalid hframes hleaf (fun halloc' => by rw [hrights] at halloc'; cases halloc')
        fun hlen hmem => h.code.2 (hframes _ (by rwa [hkind.frame_eq hlen hrights] at hmem))
    · exact ⟨hvalid, fun hl => h.inv.small (hleaf ▸ hl), fun hl hq hmem => h.inv.unused (hleaf ▸ hl) hq (hframes _ hmem)⟩
  · rcases hres with ⟨-, hleaf⟩ | ⟨-, hleaf⟩
    · rw [hleaf] at hl
      rcases @setLeaf_cases pt _ _ _ _ hl with ⟨rfl, rfl⟩ | ⟨-, hl⟩
      · exact hkind
      · exact h.pages hl
    · exact h.pages (hleaf ▸ hl)
  · rcases (takes_of_grows hgrows hown).new _ hmem with hmem | hmem
    · exact h.code.1 hmem
    · exact h.code.2 hmem

/-- A sequence of calls. -/
theorem runCalls {calls : List MapCall} {res : Int} {k' : Kernel} (hlegal : ∀ call ∈ calls, call.Legal)
    (hdisjoint : calls.Pairwise fun x y => x.toPageSpan.Disjoint y.toPageSpan)
    (hnew : ∀ call ∈ calls, ∀ c ∈ claimed, ¬call.path <:+ c ∧ ¬c <:+ call.path)
    (hkind : ∀ call ∈ calls, PageKind code call.path call.leaf)
    (halloc : ∀ call ∈ calls, call.flags &&& vmemAlloc = 0) (hcalls : runCalls s.vm calls s.k = .ok (res, k')) :
    ∃ own pt' claimed', TaskSpace code ⟨s.vm, k', own⟩ pt' claimed' ∧ Takes s.allocated own s.k k' := by
  induction calls generalizing s pt claimed with
  | nil =>
      obtain ⟨-, rfl⟩ := Prod.mk.inj (Except.ok.inj hcalls)
      exact ⟨_, pt, claimed, h, Takes.refl _ _⟩
  | cons call calls ih =>
      rw [HeavenOS.runCalls] at hcalls
      obtain ⟨⟨err, k1⟩, hcall, hcalls⟩ := bind_eq_ok.mp hcalls
      simp only at hcalls
      obtain ⟨hfirst, hdisjoint⟩ := List.pairwise_cons.mp hdisjoint
      obtain ⟨pt1, h1, htakes⟩ := h.map (hlegal call List.mem_cons_self) (hnew call List.mem_cons_self)
        (hkind call List.mem_cons_self) (halloc call List.mem_cons_self) hcall
      split_ifs at hcalls
      · obtain ⟨-, rfl⟩ := Prod.mk.inj (Except.ok.inj hcalls)
        exact ⟨_, pt1, _, h1, htakes⟩
      · have hnew' : ∀ c ∈ calls, ∀ x ∈ insert call.path claimed, ¬c.path <:+ x ∧ ¬x <:+ c.path := by
          intro c hc x hx
          rcases hx with rfl | hx
          · have halign := (hlegal c (List.mem_cons_of_mem _ hc)).aligned
            have halign' := (hlegal call List.mem_cons_self).aligned
            exact ⟨(hfirst c hc).symm.not_suffix halign halign', (hfirst c hc).not_suffix halign' halign⟩
          · exact hnew c (List.mem_cons_of_mem _ hc) x hx
        obtain ⟨own, pt', claimed', h', htakes'⟩ := ih h1 (fun c hc => hlegal c (List.mem_cons_of_mem _ hc))
          hdisjoint hnew' (fun c hc => hkind c (List.mem_cons_of_mem _ hc))
          (fun c hc => halloc c (List.mem_cons_of_mem _ hc)) hcalls
        exact ⟨own, pt', claimed', h', htakes.trans htakes'⟩

/-- What copying the pages of a task costs at most. -/
theorem cost : PageCost pt fun q =>
    (if q.length ≤ 3 then 512 ^ (3 - q.length) else 0) + (taskPaths.filter (q <:+ ·)).card :=
  PageCost.ofSmall h.inv.valid.wf fun _ hq => by
    obtain ⟨l, hl⟩ := Option.isSome_iff_exists.mp hq
    exact (h.pages hl).mem_taskPaths

/-- A page fault in the area of the stack. -/
theorem fault {addr f : ℕ} {frames : List (Option ℕ)} {handled : Bool} {k' : Kernel} (hareas : s.vm.areas = [stackArea])
    (haddr : Canonical addr) (hunmapped : walk s.k.mem s.vm.pml4 addr = none) (hframe : s.k.frames = some f :: frames)
    (hcall : vmemHandlePf s.vm addr s.k = .ok (handled, k')) :
    ∃ own pt' claimed', TaskSpace code ⟨s.vm, k', own⟩ pt' claimed' ∧ Takes s.allocated own s.k k' := by
  rcases h.inv.fault haddr hunmapped hframe hcall with ⟨-, rfl⟩ | ⟨pt', claimed', area, harea, hinv, hgrows, hold, hleaf⟩
  · exact ⟨_, pt, claimed, h, Takes.refl _ _⟩
  · obtain ⟨hget, -, -, hvalid⟩ := h.inv.valid.frameAlloc_some hframe
    have hrest : (frameAlloc s.k).2.frames = frames := by rw [hget]
    have hfreed : (frameAlloc s.k).2.freed = s.k.freed.filter (· ≠ f) := by rw [hget]
    have hown := h.own.mapOwn h.inv hframe hrest hfreed hvalid hinv.valid hgrows hold (pathTo_length _ _)
      (rightsOf_alloc _) hleaf
    obtain ⟨used, hused, -⟩ := hgrows.used
    rw [hrest] at hused
    have hsplit : s.k.frames = (some f :: used) ++ k'.frames := by rw [hframe, hused, List.cons_append]
    have htakes : Takes s.allocated (taken s.k k' ++ s.allocated) s.k k' := by
      refine ⟨List.subset_append_right _ _, ⟨_, hsplit.symm⟩, fun g hg => ?_, fun a ha => ?_, fun g hg => ?_⟩
      · rcases List.mem_append.mp hg with hg | hg
        · exact Or.inr (mem_taken ⟨_, hsplit⟩ hg)
        · exact Or.inl hg
      · rw [hgrows.mem a fun q t r hq => ha t ((hown.ledger.mem_iff t).mpr ⟨q, held_of_table hq⟩), hget]
        have hf : ¬InFrame f a := ha f (List.mem_append_left _ (by rw [taken_eq hsplit]; exact List.mem_cons_self))
        exact Mem.memset_of_outside _ _ (by unfold InFrame at hf; omega)
      · have hg' := (hgrows.freed g hg).1
        rw [hfreed] at hg'
        exact (List.mem_filter.mp hg').1
    refine ⟨_, pt', claimed', ⟨hinv, hown, fun {q l} hl => ?_, fun hmem => ?_, fun hmem => ?_⟩, htakes⟩
    · rw [hleaf] at hl
      rcases @setLeaf_cases pt _ _ _ _ hl with ⟨rfl, rfl⟩ | ⟨-, hl⟩
      · obtain ⟨hmem, hholds⟩ := vmemIsMapped_some harea
        rw [hareas, List.mem_singleton] at hmem
        subst hmem
        exact .stack hholds.covers
      · exact h.pages hl
    · rcases htakes.new _ hmem with hmem | hmem
      · exact h.code.1 hmem
      · exact h.code.2 hmem
    · exact h.code.2 (htakes.frames.subset hmem)

/-- A kernel stack leaves the address space as it is. -/
theorem newStack {kstackTop page : ℕ} {k : Kernel} (hstack : NewStack kstackTop page s.k k) :
    TaskSpace code ⟨s.vm, k, s.allocated⟩ pt claimed ∧ pageSize ∣ page ∧ page ∉ s.allocated ∧ some page ∉ k.frames ∧
      page ∉ k.freed := by
  obtain ⟨hnodup, hframe⟩ := h.inv.valid.fresh
  have hpage : some page ∈ s.k.frames := by
    rw [hstack.frames]
    exact List.mem_cons_self
  have hmore {f : ℕ} (hf : some f ∈ k.frames) : some f ∈ s.k.frames := by
    rw [hstack.frames]
    exact List.mem_cons_of_mem _ hf
  have hdvd : pageSize ∣ page := (hframe page hpage).1.1
  have hnot : page ∉ s.allocated := fun hmem => h.own.ledger.notMem page hmem hpage
  rw [hstack.frames, List.filterMap_cons_some (by rfl)] at hnodup
  obtain ⟨honce, hnodup⟩ := List.nodup_cons.mp hnodup
  refine ⟨h.change rfl (fun q t r hq a ha => hstack.mem a fun hin => ?_) ⟨hnodup, fun f hf => (hframe f (hmore hf)).1⟩
    (fun f hf => ⟨fun hmem => h.own.ledger.notMem f hmem (hmore hf), fun heq => h.code.2 (heq ▸ hmore hf)⟩)
    (fun g hg => ?_), hdvd, hnot, fun hmem => honce (List.mem_filterMap.mpr ⟨some page, hmem, rfl⟩), ?_⟩
  · obtain rfl := inFrame_unique hdvd (h.own.isFrame t (h.table_mem hq)).1 hin ha
    exact hnot (h.table_mem hq)
  · rw [hstack.freed] at hg
    exact h.own.freed g (List.mem_filter.mp hg).1
  · rw [hstack.freed]
    simp

/-- The copy of an address space. -/
theorem clone {dst : Vmem} {k' : Kernel} (hcall : vmemClone s.vm s.k = .ok (0, dst, k')) :
    ∃ own pt' claimed', TaskSpace code ⟨dst, k', own⟩ pt' claimed' ∧ Takes [] own s.k k' := by
  obtain ⟨res, dst', k1, hrun, hcopy⟩ := vmemClone_spec h.inv
  obtain ⟨hres, hrest⟩ := Prod.mk.inj (Except.ok.inj (hcall.symm.trans hrun))
  obtain ⟨rfl, rfl⟩ := Prod.mk.inj hrest
  obtain ⟨pt', hcopy⟩ := hcopy hres.symm
  have htakes : Takes [] (taken s.k k') s.k k' := by
    obtain ⟨used, hused⟩ := hcopy.used
    exact ⟨List.nil_subset _, ⟨used, hused.symm⟩, fun f hf => Or.inr (mem_taken hcopy.used hf), hcopy.mem, hcopy.freed⟩
  refine ⟨_, pt', _, ⟨hcopy.inv, hcopy.own, fun {q l'} hl' => ?_, fun hmem => ?_, fun hmem => ?_⟩, htakes⟩
  · obtain ⟨l, l1, hl, hl1, hsame⟩ := hcopy.copied q (hcopy.inv.valid.wf.leaf_claimed (by rw [hl']; rfl))
    obtain rfl := Option.some.inj (hl'.symm.trans hl1)
    exact (h.pages hl).copy hsame
  · exact h.code.2 (mem_taken hcopy.used hmem)
  · exact h.code.2 (htakes.frames.subset hmem)

/-- Teardown gives back what the task owns. -/
theorem destroy (hfreed : ∀ g ∈ s.k.freed, pageSize ∣ g) :
    ∃ k', vmemDestroy s.vm false s.k = .ok k' ∧ k'.frames = s.k.frames ∧
      (∀ g, g ∈ k'.freed ↔ g ∈ s.k.freed ∨ g ∈ s.allocated) ∧
      ∀ a, (∀ g ∈ k'.freed, ¬InFrame g a) → k'.mem a = s.k.mem a := by
  obtain ⟨k', hcall, htears⟩ := vmemDestroy_spec h.inv h.own hfreed
  refine ⟨k', hcall, htears.frames, fun g => ?_, htears.mem⟩
  rw [htears.freed, h.own.ledger.mem_iff]
  refine or_congr_right ⟨fun hg => ?_, fun ⟨q, hq⟩ => visit_of_held h.inv.valid.wf rfl (List.nil_suffix) hq⟩
  obtain ⟨q, -, hq⟩ := held_of_visit hg
  exact ⟨q, hq⟩

/-- An address that leads nowhere still leads nowhere when the tables are the same. -/
theorem unmapped {s' : Space} {claimed' : Set Path} (h' : TaskSpace code s' pt claimed') {addr : ℕ}
    (hnone : walk s.k.mem s.vm.pml4 addr = none) : walk s'.k.mem s'.vm.pml4 addr = none := by
  refine walk_of_no_leaf h'.inv.valid.wf h'.inv.valid.rep fun n _ => ?_
  cases hl : pt.leaf (pathTo addr n) with
  | none => rfl
  | some leaf =>
      rw [walk_of_leaf h.inv.valid.wf h.inv.valid.rep hl] at hnone
      cases hnone

/-- The answers to come may be used. -/
theorem unusedFrames : Unused s.k.mem s.vm.pml4 s.k.frames := by
  obtain ⟨hnodup, hframe⟩ := h.inv.valid.fresh
  refine ⟨⟨hnodup, fun f hf => (hframe f hf).1⟩, fun f hf => ⟨fun depth ht => ?_, fun addr tr hdvd hwalk hlevel heq => ?_⟩⟩
  · exact h.own.ledger.notMem f (h.isTable_mem ht) hf
  · obtain ⟨n, hsome, hn, -, hle⟩ := exists_leaf_of_walk h.inv.valid.wf h.inv.valid.rep hwalk
    obtain rfl : n = 4 := by omega
    obtain ⟨l, hl⟩ := Option.isSome_iff_exists.mp hsome
    obtain rfl := Option.some.inj (hwalk.symm.trans (walk_of_leaf h.inv.valid.wf h.inv.valid.rep hl))
    refine h.inv.unused hl (pathTo_length _ _) ?_
    have hphys : l.frame + addr % 4096 = l.frame := by
      rw [show addr % 4096 = 0 from Nat.mod_eq_zero_of_dvd hdvd, Nat.add_zero]
    exact hphys ▸ heq ▸ hf

omit h in
/-- A new address space with the mappings of the kernel and the code page. -/
theorem setup {l : LinkedImage} {vm : Vmem} {k k1 k' : Kernel} {res : Int} (hfresh : FreshFrames k.frames)
    (hcode : some (physToVirt l.physStartUser) ∉ k.frames) (hinit : vmemInit k = (0, vm, k1))
    (hcall : setupVmem l.image.start (l.image.start + l.image.size) l.physStartUser vm k1 = .ok (res, k')) :
    ∃ own pt claimed, TaskSpace l.physStartUser ⟨vm, k', own⟩ pt claimed ∧ Takes [] own k k' := by
  obtain ⟨-, -, hframes, hmem, -, -, hfreed⟩ := vmemInit_spec hfresh hinit
  have hsuf : k1.frames <:+ k.frames := ⟨[some vm.pml4], by rw [hframes]; rfl⟩
  have hnew : TaskSpace l.physStartUser ⟨vm, k1, [vm.pml4]⟩ (emptyTable vm.pml4) ∅ := by
    refine ⟨SpaceInv.init hfresh hinit, Owned.init hfresh hinit, fun hl => (by cases hl), fun hmem => hcode ?_,
      fun hmem => hcode (hsuf.subset hmem)⟩
    rw [hframes, List.mem_singleton.mp hmem]
    exact List.mem_cons_self
  have htakes : Takes [] [vm.pml4] k k1 := by
    refine ⟨List.nil_subset _, hsuf, fun f hf => Or.inr ?_, fun a ha => hmem a (ha _ List.mem_cons_self),
      fun g hg => (hfreed g hg).1⟩
    rw [hframes, List.mem_singleton.mp hf]
    exact List.mem_cons_self
  have hlegal := @setupCalls_legal l.image l.physStartUser ⟨l.user_dvd, l.user_lt⟩
  rw [setupVmem_eq] at hcall
  obtain ⟨own, pt, claimed, h, htakes'⟩ := hnew.runCalls hlegal setupCalls_disjoint (fun _ _ c hc => hc.elim)
    (fun call hc => (setupCalls_kind call hc).1) (fun call hc => (setupCalls_kind call hc).2) hcall
  exact ⟨own, pt, claimed, h, htakes.trans htakes'⟩

end TaskSpace

end HeavenOS

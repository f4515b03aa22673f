/-
# Where the frames are

A frame that is free when the machine starts should never get lost: at each moment it is
either free or held by one task, as a page table, as a page of its own or as its kernel stack.
Which frames a task holds is read off its page tables, not off the books of a proof; when the
last task is gone, all frames are free again.
-/

import HeavenOS.Sched.FrameClient
import HeavenOS.Sched.Isolation

namespace HeavenOS

open Lib PageTable

/-! ## Who holds a frame -/

/-- The frames of an address space: its page tables, and the pages that are marked as its
own. -/
def SpaceHolds (m : Mem) (pml4 f : ℕ) : Prop :=
  (∃ depth, IsTable m pml4 depth f) ∨
    ∃ addr tr, Canonical addr ∧ walk m pml4 addr = some tr ∧ tr.rights.alloc = true ∧ tr.frame = f

/-- The frames of a task. -/
def ForkState.Holds (s : ForkState) (i f : ℕ) : Prop :=
  f = s.kstack i ∨ SpaceHolds s.kernel.mem (s.tasks i).vmem.pml4 f

/-- A frame is free, or a task that has not been torn down holds it. -/
def ForkState.Accounted (s : ForkState) (f : ℕ) : Prop :=
  f ∈ s.kernel.freed ∨ ∃ i, s.Live i ∧ s.Holds i f

/-- What is read off the tables in memory is what the tree holds. -/
theorem spaceHolds_iff {pt : PageTable} {pml4 : ℕ} {claimed : Set Path} {m : Mem} (hwf : pt.WellFormed pml4 claimed)
    (hrep : pt.Represents m) (hsmall : ∀ {q l}, pt.leaf q = some l → l.rights.alloc → q.length = 4) {f : ℕ} :
    SpaceHolds m pml4 f ↔ ∃ q, pt.held q = some f := by
  constructor
  · rintro (⟨depth, htable⟩ | ⟨addr, tr, haddr, hwalk, halloc, rfl⟩)
    · obtain ⟨q, r, hq, -⟩ := htable.exists_path hwf hrep
      exact ⟨q, held_of_table hq⟩
    · obtain ⟨n, hsome, -⟩ := exists_leaf_of_walk hwf hrep hwalk
      obtain ⟨l, hl⟩ := Option.isSome_iff_exists.mp hsome
      obtain rfl := Option.some.inj (hwalk.symm.trans (walk_of_leaf hwf hrep hl))
      have hlen := hsmall hl halloc
      obtain rfl : n = 4 := by simpa using hlen
      obtain ⟨hframe, -⟩ := @TaskSpace.frame_page l.frame (addr % 4096) l.rights (hwf.leaf_dvd hl) (Nat.mod_lt _ (by decide))
      exact ⟨pathTo addr 4, by rw [held_of_leaf (hwf.table_of_leaf hl) hl, if_pos ⟨halloc, hlen⟩, ← hframe]; rfl⟩
  · rintro ⟨q, hq⟩
    cases htable : pt.table q with
    | some next =>
        obtain ⟨t, r⟩ := next
        rw [held_of_table htable] at hq
        obtain rfl := Option.some.inj hq
        exact Or.inl ⟨q.length, isTable_of_table hwf hrep htable⟩
    | none =>
        cases hl : pt.leaf q with
        | none =>
            rw [held_of_none htable hl] at hq
            cases hq
        | some l =>
            rw [held_of_leaf htable hl] at hq
            split_ifs at hq with hpage
            obtain rfl := Option.some.inj hq
            have hclaim := hwf.leaf_claimed (q := q) (by rw [hl]; rfl)
            obtain ⟨addr, haddr, hpath⟩ := exists_pathTo (le_of_eq hpage.2) (hwf.claimed_lt hclaim)
            rw [hpage.2] at hpath
            obtain ⟨hframe, -⟩ := @TaskSpace.frame_page l.frame (addr % 4096) l.rights (hwf.leaf_dvd hl) (Nat.mod_lt _ (by decide))
            exact Or.inr ⟨addr, _, haddr, walk_of_leaf hwf hrep (hpath.symm ▸ hl), hpage.1, hframe⟩

/-- The books of an address space are right. -/
theorem Owned.mem_iff_holds {s : Space} {pt : PageTable} {claimed : Set Path} (h : Owned s pt) (hinv : SpaceInv s pt claimed)
    {f : ℕ} : f ∈ s.allocated ↔ SpaceHolds s.k.mem s.vm.pml4 f :=
  (h.ledger.mem_iff f).trans (spaceHolds_iff hinv.valid.wf hinv.valid.rep hinv.small).symm

namespace TaskSpace

variable {code : ℕ} {s : Space} {pt : PageTable} {claimed : Set Path} (h : TaskSpace code s pt claimed)

include h

theorem mem_iff_holds {f : ℕ} : f ∈ s.allocated ↔ SpaceHolds s.k.mem s.vm.pml4 f := h.own.mem_iff_holds h.inv

/-- An address space holds its frames as long as nobody writes to them. -/
theorem holds_of_same {m : Mem} (hsame : ∀ t ∈ s.allocated, ∀ a, InFrame t a → m a = s.k.mem a) {f : ℕ}
    (hf : f ∈ s.allocated) : SpaceHolds m s.vm.pml4 f :=
  (spaceHolds_iff h.inv.valid.wf (h.inv.valid.rep.congr fun _ t _ hq a ha => hsame t (h.table_mem hq) a ha) h.inv.small).mpr
    ((h.own.ledger.mem_iff f).mp hf)

/-! ## Frames that are taken -/

/-- What a page fault takes, the address space holds. -/
theorem fault_taken {addr f : ℕ} {frames : List (Option ℕ)} {handled : Bool} {k' : Kernel} (haddr : Canonical addr)
    (hunmapped : walk s.k.mem s.vm.pml4 addr = none) (hframe : s.k.frames = some f :: frames)
    (hcall : vmemHandlePf s.vm addr s.k = .ok (handled, k')) :
    ∀ g ∈ taken s.k k', SpaceHolds k'.mem s.vm.pml4 g := by
  obtain ⟨pt', claimed', hinv, hown, -⟩ := (SpaceStep.fault haddr hunmapped hframe hcall).inv h.inv
  exact fun g hg => ((hown trivial h.own).mem_iff_holds hinv).mp (List.mem_append_left _ hg)

/-- What a copy takes, the copy holds. -/
theorem clone_taken {dst : Vmem} {k' : Kernel} (hcall : vmemClone s.vm s.k = .ok (0, dst, k')) :
    ∀ g ∈ taken s.k k', SpaceHolds k'.mem dst.pml4 g := by
  obtain ⟨res, dst', k1, hrun, hcopy⟩ := vmemClone_spec h.inv
  obtain ⟨hres, hrest⟩ := Prod.mk.inj (Except.ok.inj (hcall.symm.trans hrun))
  obtain ⟨rfl, rfl⟩ := Prod.mk.inj hrest
  obtain ⟨pt', hcopy⟩ := hcopy hres.symm
  exact fun g hg => (hcopy.own.mem_iff_holds hcopy.inv).mp hg

/-- A sequence of mapping calls: what they take is added to what the address space holds. -/
theorem runCalls_taken {calls : List MapCall} {res : Int} {k' : Kernel} (hlegal : ∀ call ∈ calls, call.Legal)
    (hdisjoint : calls.Pairwise fun x y => x.toPageSpan.Disjoint y.toPageSpan)
    (hnew : ∀ call ∈ calls, ∀ c ∈ claimed, ¬call.path <:+ c ∧ ¬c <:+ call.path)
    (hkind : ∀ call ∈ calls, PageKind code call.path call.leaf)
    (halloc : ∀ call ∈ calls, call.flags &&& vmemAlloc = 0) (hcalls : HeavenOS.runCalls s.vm calls s.k = .ok (res, k')) :
    ∀ g, g ∈ taken s.k k' ∨ g ∈ s.allocated → SpaceHolds k'.mem s.vm.pml4 g := by
  induction calls generalizing s pt claimed with
  | nil =>
      obtain ⟨-, rfl⟩ := Prod.mk.inj (Except.ok.inj hcalls)
      rw [taken_of_same rfl]
      exact fun g hg => h.mem_iff_holds.mp (hg.resolve_left List.not_mem_nil)
  | cons call calls ih =>
      rw [HeavenOS.runCalls] at hcalls
      obtain ⟨⟨err, k1⟩, hcall, hcalls⟩ := bind_eq_ok.mp hcalls
      simp only at hcalls
      obtain ⟨hfirst, hdisjoint⟩ := List.pairwise_cons.mp hdisjoint
      obtain ⟨pt1, h1, -⟩ := h.map (hlegal call List.mem_cons_self) (hnew call List.mem_cons_self)
        (hkind call List.mem_cons_self) (halloc call List.mem_cons_self) hcall
      split_ifs at hcalls
      · obtain ⟨-, rfl⟩ := Prod.mk.inj (Except.ok.inj hcalls)
        exact fun g hg => h1.mem_iff_holds.mp (List.mem_append.mpr hg)
      · have hnew' : ∀ c ∈ calls, ∀ x ∈ insert call.path claimed, ¬c.path <:+ x ∧ ¬x <:+ c.path := by
          intro c hc x hx
          rcases hx with rfl | hx
          · have halign := (hlegal c (List.mem_cons_of_mem _ hc)).aligned
            have halign' := (hlegal call List.mem_cons_self).aligned
            exact ⟨(hfirst c hc).symm.not_suffix halign halign', (hfirst c hc).not_suffix halign' halign⟩
          · exact hnew c (List.mem_cons_of_mem _ hc) x hx
        have hrest := ih h1 (fun c hc => hlegal c (List.mem_cons_of_mem _ hc)) hdisjoint hnew'
          (fun c hc => hkind c (List.mem_cons_of_mem _ hc)) (fun c hc => halloc c (List.mem_cons_of_mem _ hc)) hcalls
        have htaken : taken s.k k' = taken s.k k1 ++ taken k1 k' :=
          taken_trans (Client.mapCall hcall).spends.frames (Client.runCalls hcalls).spends.frames
        intro g hg
        rw [htaken, List.mem_append] at hg
        refine hrest g ?_
        rw [List.mem_append]
        tauto

omit h in
/-- What a new address space takes, it holds. -/
theorem setup_taken {l : LinkedImage} {vm : Vmem} {k k1 k' : Kernel} {res : Int} (hfresh : FreshFrames k.frames)
    (hcode : some (physToVirt l.physStartUser) ∉ k.frames) (hinit : vmemInit k = (0, vm, k1))
    (hcall : setupVmem l.image.start (l.image.start + l.image.size) l.physStartUser vm k1 = .ok (res, k')) :
    ∀ g ∈ taken k k', SpaceHolds k'.mem vm.pml4 g := by
  obtain ⟨-, -, hframes, -⟩ := vmemInit_spec hfresh hinit
  have hnew : TaskSpace l.physStartUser ⟨vm, k1, [vm.pml4]⟩ (emptyTable vm.pml4) ∅ := by
    refine ⟨SpaceInv.init hfresh hinit, Owned.init hfresh hinit, fun hl => (by cases hl), fun hmem => hcode ?_,
      fun hmem => hcode (by rw [hframes]; exact List.mem_cons_of_mem _ hmem)⟩
    rw [hframes, List.mem_singleton.mp hmem]
    exact List.mem_cons_self
  have hlegal := @setupCalls_legal l.image l.physStartUser ⟨l.user_dvd, l.user_lt⟩
  rw [setupVmem_eq] at hcall
  have htaken : taken k k' = [vm.pml4] ++ taken k1 k' := by
    rw [taken_trans ⟨[some vm.pml4], hframes⟩ (Client.runCalls hcall).spends.frames,
      taken_eq (show k.frames = [some vm.pml4] ++ k1.frames from hframes)]
    rfl
  intro g hg
  rw [htaken, List.mem_append] at hg
  exact hnew.runCalls_taken hlegal setupCalls_disjoint (fun _ _ c hc => hc.elim)
    (fun call hc => (setupCalls_kind call hc).1) (fun call hc => (setupCalls_kind call hc).2) hcall g hg.symm

end TaskSpace

/-- A kernel stack is the only frame taken. -/
theorem NewStack.spends {kstackTop page : ℕ} {k k' : Kernel} (h : NewStack kstackTop page k k') :
    Spends k k' ∧ taken k k' = [page] := by
  have htaken : taken k k' = [page] := taken_eq (show k.frames = [some page] ++ k'.frames from h.frames)
  refine ⟨⟨⟨[some page], h.frames⟩, fun f hf => ?_⟩, htaken⟩
  rw [htaken, List.mem_singleton, h.freed, List.mem_filter, decide_eq_true_iff]
  by_cases hpage : f = page
  · exact Or.inr hpage
  · exact Or.inl ⟨hf, hpage⟩

/-- A call that succeeds has found a free entry, and changes no other. -/
theorem setupInitTask_entry {l : LinkedImage} {s s' : ForkState} {res : Int} (h : setupInitTask l s = .returned res s')
    (hres : 0 ≤ res) : ∃ c, (s.tasks c).state = .notAllocated ∧ (s'.tasks c).state = .runnable := by
  unfold setupInitTask at h
  cases halloc : schedAllocateTask s.tasks with
  | none =>
      rw [halloc] at h
      cases h
      exact absurd hres (by decide)
  | some found =>
      obtain ⟨c, tasks⟩ := found
      obtain ⟨-, -, hfree, -⟩ := schedAllocateTask_spec halloc
      refine ⟨c, hfree, ?_⟩
      rw [halloc] at h
      simp only at h
      split_ifs at h
      · cases h
        omega
      split at h
      · cases h
      split_ifs at h
      · cases h
        omega
      split at h
      · cases h
      split_ifs at h
      · cases h
        omega
      · cases h
        omega
      · obtain ⟨-, rfl⟩ := ForkEnd.returned.inj h
        simp

/-! ## Steps -/

namespace FramesApart

variable {l : LinkedImage} {s s' : ForkState} {own : ℕ → List ℕ} (h : FramesApart l s own)

include h

theorem mem_held_iff {i : ℕ} (hi : s.Live i) {f : ℕ} : f ∈ s.held own i ↔ s.Holds i f := by
  obtain ⟨pt, claimed, hspace⟩ := (h.task i hi).space
  exact List.mem_cons.trans (or_congr_right hspace.mem_iff_holds)

/-- A step that concerns one entry: no other task loses a frame. -/
theorem keeps (c : ℕ)
    (hothers : ∀ i, i ≠ c → s.Live i → s'.Live i ∧ (s'.tasks i).vmem = (s.tasks i).vmem ∧ s'.threads i = s.threads i)
    (hmem : ∀ a, s'.kernel.mem a ≠ s.kernel.mem a →
      ∃ g, pageSize ∣ g ∧ InFrame g a ∧ ∀ i, i ≠ c → s.Live i → g ∉ s.held own i)
    (hfree : ∀ f ∈ s.kernel.freed, s'.Accounted f) (hmine : s.Live c → ∀ f ∈ s.held own c, s'.Accounted f) :
    ∀ f, s.Accounted f → s'.Accounted f := by
  rintro f (hf | ⟨i, hi, hf⟩)
  · exact hfree f hf
  have hheld := (h.mem_held_iff hi).mpr hf
  by_cases hic : i = c
  · subst hic
    exact hmine hi f hheld
  · obtain ⟨hlive, hvmem, hthread⟩ := hothers i hic hi
    refine Or.inr ⟨i, hlive, ?_⟩
    rcases List.mem_cons.mp hheld with heq | hown
    · exact Or.inl (by rw [heq, ForkState.kstack, ForkState.kstack, hthread])
    · obtain ⟨pt, claimed, hspace⟩ := (h.task i hi).space
      refine Or.inr (hvmem ▸ hspace.holds_of_same (fun t ht a ha => ?_) hown)
      by_contra hne
      obtain ⟨g, hdvd, hin, hnot⟩ := hmem a hne
      obtain rfl := inFrame_unique (hspace.own.isFrame t ht).1 hdvd ha hin
      exact hnot i hic hi (List.mem_cons_of_mem _ ht)

/-- A step that takes frames for the task in entry `c`. -/
theorem keeps_of_takes {c : ℕ} (kept own' : List ℕ)
    (hothers : ∀ i, i ≠ c → s'.tasks i = s.tasks i ∧ s'.threads i = s.threads i)
    (hkept : ∀ f ∈ kept, s.Live c ∧ f ∈ s.held own c) (htakes : Takes kept own' s.kernel s'.kernel)
    (hdvd : ∀ f ∈ own', pageSize ∣ f) (hspends : Spends s.kernel s'.kernel) (hlive : s'.Live c)
    (htaken : ∀ f ∈ taken s.kernel s'.kernel, s'.Holds c f) (hmine : s.Live c → ∀ f ∈ s.held own c, s'.Holds c f) :
    ∀ f, s.Accounted f → s'.Accounted f := by
  refine h.keeps c (fun i hi hlive => ?_) (fun a hne => ?_) (fun f hf => ?_) fun hc f hf => Or.inr ⟨c, hlive, hmine hc f hf⟩
  · obtain ⟨htask, hthread⟩ := hothers i hi
    exact ⟨by rwa [ForkState.Live, htask], by rw [htask], hthread⟩
  · by_contra hcon
    refine hne (htakes.mem a fun f hf hin => hcon ⟨f, hdvd f hf, hin, fun i hi hlive hheld => ?_⟩)
    rcases htakes.new f hf with hmem | hmem
    · exact h.apart c i (hkept f hmem).1 hlive (Ne.symm hi) f (hkept f hmem).2 hheld
    · exact h.spare i hlive f hheld hmem
  · exact (hspends.freed f hf).imp_right fun hf => ⟨c, hlive, htaken f hf⟩

omit h in
/-- Only other members of the entries change, and tasks stay as they are. -/
theorem keeps_retask {tasks : TaskTable}
    (hsame : ∀ i, (tasks i).vmem = (s.tasks i).vmem ∧ (tasks i).vmemLive = (s.tasks i).vmemLive) :
    ∀ f, s.Accounted f → ForkState.Accounted { s with tasks := tasks } f := by
  refine fun f hf => hf.imp_right fun ⟨i, hi, hf⟩ => ⟨i, (hsame i).2.trans hi, ?_⟩
  unfold ForkState.Holds at hf ⊢
  rwa [(hsame i).1]

section Memory

variable {p : ℕ} (hp : s.Live p)

include hp

/-- A page fault in the area of the stack. -/
theorem fault_keeps {addr : ℕ} {k : Kernel} (haddr : Canonical addr) (hunmapped : s.walk p addr = none)
    (hanswer : s.kernel.frames ≠ []) (hcall : vmemHandlePf (s.tasks p).vmem addr s.kernel = .ok (true, k)) :
    ∀ f, s.Accounted f → ForkState.Accounted { s with kernel := k } f := by
  have hok := h.task p hp
  obtain ⟨pt, claimed, hspace⟩ := hok.space
  obtain ⟨f, frames, hframe⟩ : ∃ f frames, s.kernel.frames = some f :: frames := by
    cases hframes : s.kernel.frames with
    | nil => exact absurd hframes hanswer
    | cons answer frames =>
        cases answer with
        | none => exact absurd (by rw [hframes]; exact List.mem_cons_self) h.always
        | some f => exact ⟨f, frames, rfl⟩
  obtain ⟨own', pt', claimed', hspace', htakes⟩ := hspace.fault hok.areas haddr hunmapped hframe hcall
  refine h.keeps_of_takes (c := p) (own p) own' (fun i _ => ⟨rfl, rfl⟩)
    (fun f hf => ⟨hp, List.mem_cons_of_mem _ hf⟩) htakes (fun f hf => (hspace'.own.isFrame f hf).1)
    (Client.handlePf hcall).spends hp (fun f hf => Or.inr (hspace.fault_taken haddr hunmapped hframe hcall f hf))
    fun _ f hf => ?_
  rcases List.mem_cons.mp hf with heq | hf
  · exact Or.inl heq
  · exact Or.inr (hspace'.mem_iff_holds.mp (htakes.sub hf))

/-- A store to the stack. -/
theorem store_keeps {addr : ℕ} {tr : Translation} (b : BitVec 8) (haddr : stackArea.Covers addr)
    (hwalk : s.walk p addr = some tr) : ∀ f, s.Accounted f →
      ForkState.Accounted { s with kernel := { s.kernel with mem := s.kernel.mem.storeByte (physToVirt tr.phys) b } } f := by
  have hok := h.task p hp
  obtain ⟨pt, claimed, hspace⟩ := hok.space
  rw [stackArea_covers] at haddr
  obtain ⟨-, -, hin, hmem, htable⟩ := hspace.walk_stack haddr.1 (by omega) hwalk
  have hdvd := (hspace.own.isFrame _ hmem).1
  have hsame {a : ℕ} (ha : ¬InFrame tr.frame a) : s.kernel.mem.storeByte (physToVirt tr.phys) b a = s.kernel.mem a :=
    Mem.storeByte_of_ne _ b fun heq => ha (heq ▸ hin)
  have hrep : pt.Represents (s.kernel.mem.storeByte (physToVirt tr.phys) b) :=
    hspace.inv.valid.rep.congr fun q t r hq a ha => hsame fun hin' =>
      htable q t r hq (inFrame_unique hdvd (hspace.own.isFrame t (hspace.table_mem hq)).1 hin' ha)
  refine h.keeps p (fun i _ hlive => ⟨hlive, rfl, rfl⟩)
    (fun a hne => ⟨tr.frame, hdvd, not_imp_comm.mp hsame hne, fun i hi hlive => ?_⟩) (fun f hf => Or.inl hf)
    fun _ f hf => Or.inr ⟨p, hp, ?_⟩
  · exact h.apart p i hp hlive (Ne.symm hi) _ (List.mem_cons_of_mem _ hmem)
  · rcases List.mem_cons.mp hf with heq | hf
    · exact Or.inl heq
    · exact Or.inr ((spaceHolds_iff hspace.inv.valid.wf hrep hspace.inv.small).mpr ((hspace.own.ledger.mem_iff f).mp hf))

/-- A store of the kernel at the stack or a few bytes behind it. -/
theorem kernelStore_keeps {addr : ℕ} {b : BitVec 8} {k : Kernel} (hlo : 0x70000000 ≤ addr) (hhi : addr < 2 ^ 47)
    (hcall : HeavenOS.kernelStore (s.tasks p).vmem addr b s.kernel = .ok k) (hleft : k.frames ≠ []) :
    ∀ f, s.Accounted f → ForkState.Accounted { s with kernel := k } f := by
  obtain ⟨k1, tr, hpage, hwalk, rfl⟩ := kernelStore_cases hcall
  obtain ⟨own1, h1, hkeeps⟩ : ∃ own1, FramesApart l { s with kernel := k1 } own1 ∧
      ∀ f, s.Accounted f → ForkState.Accounted { s with kernel := k1 } f := by
    rcases hpage with rfl | ⟨hunmapped, hfault⟩
    · exact ⟨own, h, fun _ hf => hf⟩
    · have hframes := vmemHandlePf_frames hfault
      have hanswer : s.kernel.frames ≠ [] := fun hnil => hleft (List.suffix_nil.mp (hnil ▸ hframes))
      obtain ⟨own1, h1⟩ := h.fault hp (Or.inl hhi) hunmapped hanswer hfault
      exact ⟨own1, h1, h.fault_keeps hp (Or.inl hhi) hunmapped hanswer hfault⟩
  obtain ⟨pt, claimed, hspace⟩ := (h1.task p hp).space
  obtain ⟨-, haddr, -⟩ := hspace.walk_stack hlo hhi hwalk
  exact fun f hf => h1.store_keeps hp b haddr hwalk f (hkeeps f hf)

/-- `*status = exitcode` -/
theorem storeStatus_keeps {status count i : ℕ} {exitcode : BitVec 32} {k : Kernel} (hstatus : stackArea.Covers status)
    (hi : i + count ≤ 4) (hcall : HeavenOS.storeStatus (s.tasks p).vmem status exitcode count i s.kernel = .ok k)
    (hleft : k.frames ≠ []) : ∀ f, s.Accounted f → ForkState.Accounted { s with kernel := k } f := by
  induction count generalizing s own i with
  | zero =>
      obtain rfl := Except.ok.inj hcall
      exact fun _ hf => hf
  | succ count ih =>
      rw [HeavenOS.storeStatus] at hcall
      obtain ⟨k1, hstore, hcall⟩ := bind_eq_ok.mp hcall
      rw [stackArea_covers] at hstatus
      have hleft' : k1.frames ≠ [] := fun hnil => hleft (List.suffix_nil.mp (hnil ▸ storeStatus_frames hcall))
      obtain ⟨own1, h1⟩ := h.kernelStore hp (by omega) (by omega) hstore hleft'
      have hfirst := h.kernelStore_keeps hp (by omega) (by omega) hstore hleft'
      have hrest := @ih { s with kernel := k1 } own1 h1 hp (i + 1) (by omega) hcall
      exact fun f hf => hrest f (hfirst f hf)

/-- The end of `sys_wait`. -/
theorem waitFinish_keeps {childPid status : ℕ} {res : Int} (hcall : HeavenOS.waitFinish p childPid status s = .ok (res, s'))
    (hleft : s'.kernel.frames ≠ []) : ∀ f, s.Accounted f → s'.Accounted f := by
  have hreap : ∀ i, ((s.tasks.modify childPid fun t => { t with state := .notAllocated }) i).vmem = (s.tasks i).vmem ∧
      ((s.tasks.modify childPid fun t => { t with state := .notAllocated }) i).vmemLive = (s.tasks i).vmemLive := fun i => by
    rw [TaskTable.modify_apply]
    split_ifs
    · exact ⟨rfl, rfl⟩
    · exact ⟨rfl, rfl⟩
  rw [HeavenOS.waitFinish, sysWaitFinish] at hcall
  by_cases hnull : status = 0
  · rw [if_neg (fun hbad => hbad.1 hnull), if_neg (not_not.mpr hnull)] at hcall
    obtain ⟨-, rfl⟩ := Prod.mk.inj (Except.ok.inj hcall)
    exact keeps_retask hreap
  · by_cases hok : statusOk (s.tasks p).vmem status = true
    · rw [if_neg (fun hbad => hbad.2 hok), if_pos hnull] at hcall
      obtain ⟨k, hstore, hcall⟩ := bind_eq_ok.mp hcall
      obtain ⟨-, rfl⟩ := Prod.mk.inj (Except.ok.inj hcall)
      have hcovers := statusOk_covers (h.task p hp).areas hok
      have hkeeps := h.storeStatus_keeps hp hcovers (le_refl 4) hstore hleft
      exact fun f hf => @keeps_retask { s with kernel := k } _ hreap f (hkeeps f hf)
    · rw [if_pos ⟨hnull, hok⟩] at hcall
      obtain ⟨-, rfl⟩ := Prod.mk.inj (Except.ok.inj hcall)
      exact fun _ hf => hf

/-- `sys_exit` and the teardown: what the task held is free. -/
theorem exit_keeps {code : BitVec 64} (hcall : exitCall p code s = .ok s') : ∀ f, s.Accounted f → s'.Accounted f := by
  have hok := h.task p hp
  obtain ⟨pt, claimed, hspace⟩ := hok.space
  obtain ⟨k1, hdestroy, -, hfreed, hmem⟩ := hspace.destroy h.freed
  have hvmem : (sysExit s.tasks p code p).vmem = (s.tasks p).vmem := by rw [sysExit_apply, if_pos rfl]
  rw [exitCall, hvmem, hdestroy] at hcall
  obtain rfl := Except.ok.inj hcall
  have htears := Tears.frameFree k1 (s.kstack p)
  have hgiven : ∀ g, g ∈ (frameFree k1 (s.kstack p)).freed ↔ g ∈ s.kernel.freed ∨ g ∈ s.held own p := fun g => by
    have hone : VmemEvent.free g ∈ [VmemEvent.free (s.kstack p)] ↔ g = s.kstack p := by
      rw [List.mem_singleton, VmemEvent.free.injEq]
    rw [htears.freed, hfreed, hone, ForkState.held, List.mem_cons]
    exact or_assoc.trans (or_congr_right or_comm)
  refine h.keeps p (fun i hi hlive => ?_) (fun a hne => ?_) (fun f hf => Or.inl ((hgiven f).mpr (Or.inl hf)))
    fun _ f hf => Or.inl ((hgiven f).mpr (Or.inr hf))
  · have htask : (TaskTable.modify (sysExit s.tasks p code) p fun t => { t with vmemLive := false, kstackLive := false }) i =
        sysExit s.tasks p code i := TaskTable.modify_of_ne _ _ hi
    rw [ForkState.live_mk, htask, sysExit_apply, if_neg hi]
    refine ⟨?_, ?_, rfl⟩
    · split_ifs
      · exact hlive
      · exact hlive
    · show (TaskTable.modify _ p _ i).vmem = _
      rw [htask, sysExit_apply, if_neg hi]
      split_ifs
      · rfl
      · rfl
  · by_contra hcon
    have hout : ∀ g ∈ (frameFree k1 (s.kstack p)).freed, ¬InFrame g a := fun g hg hin => by
      refine hcon ⟨g, ?_, hin, fun i hi hlive hheld => ?_⟩
      · rcases (hgiven g).mp hg with hg | hg
        · exact h.freed g hg
        · exact hok.dvd g hg
      · rcases (hgiven g).mp hg with hg | hg
        · exact h.free i hlive g hheld hg
        · exact h.apart p i hp hlive (Ne.symm hi) g hg hheld
    exact hne ((htears.mem a hout).trans (hmem a fun g hg => hout g ((htears.freed g).mpr (Or.inl hg))))

end Memory

/-- An entry becomes a task: it gets an address space that holds what was taken for it, then a
kernel stack. -/
theorem newTask_keeps {c page : ℕ} {f : Task → Task} {th : ArchThread} {own' : List ℕ} {pt : PageTable} {claimed : Set Path}
    {vm : Vmem} {k : Kernel} (hdead : ¬s.Live c) (htasks : s'.tasks = s.tasks.modify c f)
    (hthreads : s'.threads = Function.update s.threads c th) {t : Task} (ht : f (s.tasks c) = t) (hlive : t.vmemLive = true)
    (hpml4 : t.vmem.pml4 = vm.pml4) (hspace : TaskSpace l.physStartUser ⟨vm, k, own'⟩ pt claimed)
    (htakes : Takes [] own' s.kernel k) (hspends : Spends s.kernel k)
    (htaken : ∀ f ∈ taken s.kernel k, SpaceHolds k.mem vm.pml4 f)
    (hstack : NewStack th.kstackTop page k s'.kernel) : ∀ f, s.Accounted f → s'.Accounted f := by
  have hself : s'.tasks c = t := by rw [htasks, TaskTable.modify_self, ht]
  have hthread : s'.threads c = th := by rw [hthreads, Function.update_self]
  have hpage : s'.kstack c = page := by rw [ForkState.kstack, hthread, hstack.kstackTop, Nat.add_sub_cancel]
  obtain ⟨hspace', hdvd, -⟩ := hspace.newStack hstack
  obtain ⟨hspends', htaken'⟩ := hstack.spends
  refine h.keeps_of_takes (c := c) _ _ (fun i hi => ⟨by rw [htasks, TaskTable.modify_of_ne _ _ hi],
      by rw [hthreads, Function.update_of_ne hi]⟩) (fun f hf => absurd hf List.not_mem_nil) (htakes.trans hstack.takes)
    (fun f hf => ?_) (hspends.trans hspends') (by rw [ForkState.Live, hself]; exact hlive) (fun f hf => ?_)
    fun hc => absurd hc hdead
  · rcases List.mem_cons.mp hf with heq | hf
    · exact heq ▸ hdvd
    · exact (hspace.own.isFrame f hf).1
  · rw [taken_trans hspends.frames hspends'.frames, htaken', List.mem_append, List.mem_singleton] at hf
    rcases hf with hf | heq
    · -- nothing is written to the tables after that
      refine Or.inr ?_
      rw [hself, hpml4]
      exact hspace'.mem_iff_holds.mp (hspace.mem_iff_holds.mpr (htaken f hf))
    · exact Or.inl (by rw [heq, hpage])

/-- `sys_fork` -/
theorem fork_keeps {p : ℕ} (hp : s.Live p) {back : BitVec 64} {res : Int} (hcall : forkCall back p s = .returned res s')
    (hres : 0 ≤ res) : ∀ f, s.Accounted f → s'.Accounted f := by
  obtain ⟨c, vm, k, err, th, regs, k1, -, htable, hclone, hthread, herr, hkernel, hthreads⟩ := forkCall_succeeds hcall hres
  obtain ⟨-, -, hfree, htasks⟩ := sysFork_spec htable
  have hok := h.task p hp
  have hne : p ≠ c := by
    rintro rfl
    exact hok.state.1 hfree
  have htasks := htasks hne
  obtain ⟨pt, claimed, hspace⟩ := hok.space
  obtain ⟨own', pt', claimed', hcopy, htakes⟩ := hspace.clone hclone
  have hsize : archRegsSize = 176 := rfl
  obtain ⟨page, hstack, hregs⟩ := archThreadCloneCurrent_stack hthread herr
    (by rw [hok.kstackTop, hsize]; unfold pageSize; omega) fun page hhead => by
      obtain ⟨frames, hframes⟩ := List.head?_eq_some_iff.mp hhead
      have hmem : some page ∈ k.frames := by
        rw [hframes]
        exact List.mem_cons_self
      -- the two pages differ, and both are aligned
      have hdvd := (hcopy.inv.valid.fresh.2 page hmem).1.1
      have hpage : page ≠ s.kstack p := fun heq =>
        h.spare p hp _ List.mem_cons_self (heq ▸ htakes.frames.subset hmem)
      have hkstack := hok.kstack.1
      rw [hok.kstackTop, hsize]
      unfold pageSize at *
      omega
  have hslot : Reg.rax.slot < 15 := by decide
  have hwrite := hstack.write (m := k1.mem.storeWord (regs + 8 * Reg.rax.slot) 0) fun x hx => by
    unfold InFrame pageSize at hx
    unfold pageSize at hregs
    exact Mem.storeWord_of_outside _ _ (by omega)
  exact h.newTask_keeps (fun hc => (h.task c hc).state.1 hfree) htasks hthreads rfl rfl rfl hcopy htakes
    (Client.clone hclone).spends (hspace.clone_taken hclone) (hkernel ▸ hwrite)

/-- `setup_init_task` -/
theorem setup_keeps {res : Int} (hcall : setupInitTask l s = .returned res s') (hres : 0 ≤ res) :
    ∀ f, s.Accounted f → s'.Accounted f := by
  obtain ⟨c, vm, vm', k, k1, k2, err, err1, err2, th, hinit, hsetup, harea, herr1, hthread, herr2, hthreads, htasks⟩ :=
    setupInitTask_succeeds hcall hres
  obtain ⟨c', hfree, hused⟩ := setupInitTask_entry hcall hres
  obtain rfl : c' = c := by
    by_contra hne
    rw [htasks, TaskTable.modify_of_ne _ _ hne, hfree] at hused
    cases hused
  obtain ⟨own', pt, claimed, hspace, htakes⟩ := TaskSpace.setup h.fresh h.code hinit hsetup
  obtain ⟨hpml4, hkernel⟩ := vmemAllocPages_keeps harea
  have hspends : Spends s.kernel k1 := by
    have hinit' := (Client.init s.kernel).spends
    rw [hinit] at hinit'
    rw [setupVmem_eq] at hsetup
    exact hinit'.trans (Client.runCalls hsetup).spends
  obtain ⟨page, hstack⟩ := archThreadNew_stack hthread herr2
  -- the list of areas, which is all that `vmem_alloc_pages` changes, is not part of the tables
  have hstack' : NewStack th.kstackTop page k1 s'.kernel := by
    rw [hkernel] at hstack
    exact ⟨hstack.kstackTop, hstack.frames, hstack.freed, hstack.mem⟩
  exact h.newTask_keeps (fun hc => (h.task c' hc).state.1 hfree) htasks hthreads rfl rfl hpml4 hspace htakes hspends
    (TaskSpace.setup_taken h.fresh h.code hinit hsetup) hstack'

end FramesApart

/-! ## Runs -/

/-- No step loses a frame. -/
theorem UserStep.keeps {l : LinkedImage} {s s' : UserSystem} {label : UserLabel} (hstep : UserStep l s label s')
    (hapart : ∃ own, FramesApart l s.toForkState own) : ∀ f, s.Accounted f → s'.Accounted f := by
  obtain ⟨own, h⟩ := hapart
  cases hstep with
  | @setup s' frames objects res hsupply hcall hres =>
      have hsup := h.supplied hsupply objects
      by_cases hfree : ∃ i, FreeEntry s.tasks i
      · exact hsup.setup_keeps hcall (hres hfree)
      · have hnone := (schedAllocateTask_eq_none_iff s.tasks).mpr hfree
        have hfull : setupInitTask l (s.supply frames objects) = .returned (-enomem) (s.supply frames objects) := by
          unfold setupInitTask
          rw [show schedAllocateTask (s.supply frames objects).tasks = none from hnone]
        obtain ⟨-, rfl⟩ := ForkEnd.returned.inj (hcall.symm.trans hfull)
        exact fun _ hf => hf
  | @fork s' p frames objects res huser hsupply hcall hres =>
      exact (h.supplied hsupply objects).fork_keeps huser.1 hcall hres
  | @fault p addr write frames objects k huser haddr hfault hsupply hcall hleft =>
      have hok := h.task p huser.1
      obtain ⟨pt, claimed, hspace⟩ := hok.space
      have hunmapped := hspace.unmapped_of_handled hok.areas hfault hcall
      have hframes := vmemHandlePf_frames hcall
      exact (h.supplied hsupply objects).fault_keeps huser.1 haddr hunmapped
        (fun hnil => hleft (List.suffix_nil.mp (hnil ▸ hframes))) hcall
  | @store p addr b tr huser haddr hwalk hallowed =>
      obtain ⟨pt, claimed, hspace⟩ := (h.task p huser.1).space
      obtain ⟨t, ht, hright, hwrite⟩ := hallowed
      obtain rfl := Option.some.inj (hwalk.symm.trans ht)
      obtain ⟨hcov, -⟩ := hspace.writable haddr hwalk hright (hwrite rfl)
      exact h.store_keeps huser.1 b hcov hwalk
  | exit huser hcall => exact h.exit_keeps huser.1 hcall
  | refused => exact fun _ hf => hf
  | @blocked p childPid status tasks huser hwait =>
      rcases sysWait_cases s.tasks p childPid with ⟨-, hres⟩ | ⟨-, -, hres⟩ | ⟨-, -, hres⟩
      · cases hwait.symm.trans hres
      · obtain rfl := WaitStart.blocked.inj (hwait.symm.trans hres)
        refine FramesApart.keeps_retask fun i => ?_
        rw [TaskTable.modify_apply]
        split_ifs
        · exact ⟨rfl, rfl⟩
        · exact ⟨rfl, rfl⟩
      · cases hwait.symm.trans hres
  | @ready s' p childPid status frames objects res huser hwait hsupply hcall hleft =>
      exact (h.supplied hsupply objects).waitFinish_keeps huser.1 hcall hleft
  | @waited s' p childPid status frames objects res hlive hstate hwaits hassert hsupply hcall hleft =>
      exact (h.supplied hsupply objects).waitFinish_keeps hlive hcall hleft

/-! ## The object allocator -/

/-- The machine, with the pages of the object allocator. They come from `frame_alloc` too, and
`object_alloc` never gives one back. Page tables, tasks and kernel stacks do not get them: in
the books of the kernel they stay among the free frames. -/
structure LedgerSystem extends UserSystem where
  objectPages : List ℕ

namespace LedgerSystem

variable (s : LedgerSystem)

/-- `frame_alloc` has the frame. -/
def Free (f : ℕ) : Prop := f ∈ s.kernel.freed ∧ f ∉ s.objectPages

/-- A frame is in one of three places only. -/
inductive Kept (f : ℕ) : Prop
  | free (hfree : s.Free f) (hnobody : ∀ i, s.Live i → ¬s.Holds i f)
  | objects (hpage : f ∈ s.objectPages) (hnobody : ∀ i, s.Live i → ¬s.Holds i f)
  | task (hnot : ¬s.Free f ∧ f ∉ s.objectPages) (hone : ∃! i, s.Live i ∧ s.Holds i f)

end LedgerSystem

inductive LedgerLabel
  | user (label : UserLabel)
  | refill (page : ℕ)
  | objects

/-- A call that runs out of objects takes a page and goes on, which is a step of its own before
the call. -/
inductive LedgerStep (l : LinkedImage) : LedgerSystem → LedgerLabel → LedgerSystem → Prop
  /-- `frame_alloc` does not hand out a page of the objects again, so it stays in the books. -/
  | user {s : LedgerSystem} {u : UserSystem} {label : UserLabel} (hstep : UserStep l s.toUserSystem label u)
      (hkept : ∀ page ∈ s.objectPages, page ∈ u.kernel.freed) :
      LedgerStep l s (.user label) { s with toUserSystem := u }
  /-- `frame_alloc` in `object_alloc` -/
  | refill {s : LedgerSystem} {page : ℕ} (hfree : s.Free page) :
      LedgerStep l s (.refill page) { s with objectPages := page :: s.objectPages }
  /-- Objects are taken, used and freed, which changes their pages. -/
  | objects {s : LedgerSystem} {m : Mem} (hsame : ∀ a, m a ≠ s.kernel.mem a → ∃ page ∈ s.objectPages, InFrame page a) :
      LedgerStep l s .objects { s with kernel := { s.kernel with mem := m } }

/-- What is written elsewhere does not concern the tasks. -/
theorem FramesApart.writes {l : LinkedImage} {s : ForkState} {own : ℕ → List ℕ} (h : FramesApart l s own) {m : Mem}
    (hmem : ∀ a, m a ≠ s.kernel.mem a → ∃ g, pageSize ∣ g ∧ InFrame g a ∧ ∀ i, s.Live i → g ∉ s.held own i) :
    FramesApart l { s with kernel := { s.kernel with mem := m } } own where
  always := h.always
  fresh := h.fresh
  code := h.code
  task i hi := by
    have hok := h.task i hi
    obtain ⟨pt, claimed, hspace⟩ := hok.space
    refine ⟨⟨pt, claimed, hspace.change rfl (fun q t r hq a ha => ?_) h.fresh (fun f hf => ⟨fun hmem' => ?_, fun heq => ?_⟩)
      hspace.own.freed⟩, hok.areas, hok.state, hok.kstackTop, hok.kstack⟩
    · by_contra hne
      obtain ⟨g, hdvd, hin, hnot⟩ := hmem a hne
      have ht := hspace.table_mem hq
      obtain rfl := inFrame_unique (hspace.own.isFrame t ht).1 hdvd ha hin
      exact hnot i hi (List.mem_cons_of_mem _ ht)
    · exact h.spare i hi f (List.mem_cons_of_mem _ hmem') hf
    · exact h.code (heq ▸ hf)
  apart := h.apart
  spare := h.spare
  free := h.free
  freed := h.freed

/-- The frames of the tasks are apart, and the pages of the objects are not among them. -/
structure LedgerInv (l : LinkedImage) (s : LedgerSystem) : Prop where
  apart : ∃ own, FramesApart l s.toForkState own
  pages : ∀ page ∈ s.objectPages, page ∈ s.kernel.freed

theorem Booted.ledger {l : LinkedImage} {s : UserSystem} (h : Booted s) : LedgerInv l ⟨s, []⟩ :=
  ⟨⟨_, h.apart⟩, fun _ hpage => absurd hpage List.not_mem_nil⟩

/-- The pages of the objects belong to no task. -/
theorem LedgerInv.writes {l : LinkedImage} {s : LedgerSystem} (h : LedgerInv l s) {m : Mem}
    (hsame : ∀ a, m a ≠ s.kernel.mem a → ∃ page ∈ s.objectPages, InFrame page a) {own : ℕ → List ℕ}
    (hapart : FramesApart l s.toForkState own) :
    FramesApart l { s.toForkState with kernel := { s.kernel with mem := m } } own :=
  hapart.writes fun a hne => by
    obtain ⟨page, hpage, hin⟩ := hsame a hne
    have hfreed := h.pages page hpage
    exact ⟨page, hapart.freed page hfreed, hin, fun i hi hheld => hapart.free i hi page hheld hfreed⟩

namespace LedgerStep

variable {l : LinkedImage} {s s' : LedgerSystem} {label : LedgerLabel} (hstep : LedgerStep l s label s') (h : LedgerInv l s)

include hstep

theorem objectPages : s.objectPages ⊆ s'.objectPages := by
  cases hstep with
  | user => exact List.Subset.refl _
  | refill => exact List.subset_cons_self _ _
  | objects => exact List.Subset.refl _

include h

theorem inv : LedgerInv l s' := by
  cases hstep with
  | user hstep hkept => exact ⟨hstep.apart h.apart, hkept⟩
  | refill hfree =>
      refine ⟨h.apart, fun page hpage => ?_⟩
      rcases List.mem_cons.mp hpage with heq | hpage
      · exact heq ▸ hfree.1
      · exact h.pages page hpage
  | objects hsame =>
      obtain ⟨own, hapart⟩ := h.apart
      exact ⟨⟨own, h.writes hsame hapart⟩, h.pages⟩

theorem accounted : ∀ f, s.Accounted f → s'.Accounted f := by
  cases hstep with
  | user hstep => exact hstep.keeps h.apart
  | refill => exact fun _ hf => hf
  | objects hsame =>
      obtain ⟨own, hapart⟩ := h.apart
      have hapart' := h.writes hsame hapart
      exact fun f hf => hf.imp_right fun ⟨i, hi, hf⟩ => ⟨i, hi, (hapart'.mem_held_iff hi).mp ((hapart.mem_held_iff hi).mpr hf)⟩

end LedgerStep

/-- The invariant leaves a frame that is accounted for one place only. -/
theorem LedgerInv.kept {l : LinkedImage} {s : LedgerSystem} (h : LedgerInv l s) {f : ℕ} (hf : s.Accounted f) : s.Kept f := by
  obtain ⟨own, hapart⟩ := h.apart
  have hfree {i : ℕ} (hi : s.Live i) (hheld : s.Holds i f) : f ∉ s.kernel.freed :=
    hapart.free i hi f ((hapart.mem_held_iff hi).mpr hheld)
  rcases hf with hf | ⟨i, hi, hheld⟩
  · have hnobody : ∀ i, s.Live i → ¬s.Holds i f := fun i hi hheld => hfree hi hheld hf
    by_cases hpage : f ∈ s.objectPages
    · exact .objects hpage hnobody
    · exact .free ⟨hf, hpage⟩ hnobody
  · refine .task ⟨fun hf => hfree hi hheld hf.1, fun hpage => hfree hi hheld (h.pages f hpage)⟩ ⟨i, ⟨hi, hheld⟩, fun j ⟨hj, hheld'⟩ => ?_⟩
    by_contra hji
    exact hapart.apart j i hj hi hji f ((hapart.mem_held_iff hj).mpr hheld') ((hapart.mem_held_iff hi).mpr hheld)

/-- A frame that is free, in the hands of the object allocator, or a task's, is at any later
time in exactly one of these places, and what the object allocator has it keeps. So when no
task is left, every other frame is free again. -/
theorem frames_conserved {l : LinkedImage} {s0 : UserSystem} {s t : LedgerSystem} {labels labels' : List LedgerLabel}
    (hboot : Booted s0) (hrun : Run (LedgerStep l) ⟨s0, []⟩ labels s) (hrun' : Run (LedgerStep l) s labels' t) {f : ℕ}
    (hf : s.Free f ∨ f ∈ s.objectPages ∨ ∃ i, s.Live i ∧ s.Holds i f) :
    t.Kept f ∧ (f ∈ s.objectPages → f ∈ t.objectPages) ∧ ((∀ i, ¬t.Live i) → t.Free f ∨ f ∈ t.objectPages) := by
  have h : LedgerInv l s := hrun.invariant (LedgerInv l) hboot.ledger fun _ _ _ hinv hstep => hstep.inv hinv
  have hacc : s.Accounted f := by
    rcases hf with hf | hf | hf
    · exact Or.inl hf.1
    · exact Or.inl (h.pages f hf)
    · exact Or.inr hf
  obtain ⟨⟨h', hacc'⟩, hpages⟩ := hrun'.invariant
    (fun t => (LedgerInv l t ∧ t.Accounted f) ∧ s.objectPages ⊆ t.objectPages) ⟨⟨h, hacc⟩, List.Subset.refl _⟩
    fun _ _ _ hinv hstep => ⟨⟨hstep.inv hinv.1.1, hstep.accounted hinv.1.1 f hinv.1.2⟩,
      List.Subset.trans hinv.2 hstep.objectPages⟩
  refine ⟨h'.kept hacc', fun hpage => hpages hpage, fun hnone => ?_⟩
  cases h'.kept hacc' with
  | free hfree => exact Or.inl hfree
  | objects hpage => exact Or.inr hpage
  | task _ hone =>
      obtain ⟨i, ⟨hi, -⟩, -⟩ := hone
      exact absurd hi (hnone i)

/-- Nothing has happened yet, and these frames are free. -/
def freeSystem (frames : List (Option ℕ)) : UserSystem :=
  { bootSystem with kernel := { bootSystem.kernel with freed := frames.filterMap id } }

theorem freeSystem_booted {frames : List (Option ℕ)} (hfresh : FreshFrames frames) : Booted (freeSystem frames) := by
  refine ⟨bootSystem_booted.tasks, rfl, fun g hg => ?_⟩
  obtain ⟨answer, hmem, hanswer⟩ := List.mem_filterMap.mp hg
  obtain rfl : answer = some g := hanswer
  exact (hfresh.2 g hmem).1

/-- `setup_init_task` spends the frames that it is given. -/
theorem setupInitTask_spends {l : LinkedImage} {s s' : ForkState} {res : Int} (hcall : setupInitTask l s = .returned res s')
    (hres : 0 ≤ res) : Spends s.kernel s'.kernel := by
  obtain ⟨c, vm, vm', k, k1, k2, err, err1, err2, th, hinit, hsetup, harea, -, hthread, herr2, -⟩ :=
    setupInitTask_succeeds hcall hres
  have hinit' := (Client.init s.kernel).spends
  rw [hinit] at hinit'
  rw [setupVmem_eq] at hsetup
  obtain ⟨page, hstack⟩ := archThreadNew_stack hthread herr2
  exact ((hinit'.trans (Client.runCalls hsetup).spends).trans (Client.allocPages harea).spends).trans hstack.spends.1

/-- The object allocator takes a page and writes to it, then there is a first task: its PML4 is
its own, and the page is still the allocator's. -/
theorem frames_conserved_init : ∃ page f s, Run (LedgerStep linkedOnePage) ⟨freeSystem (manyFrames 200000), []⟩
      [.refill page, .objects, .user .setup] s ∧
    s.Live 1 ∧ s.Holds 1 f ∧ page ∈ s.objectPages ∧ s.Kept page ∧ s.Kept f := by
  have hfresh := @manyFrames_fresh 200000 (by decide)
  have hcode : some (physToVirt linkedOnePage.physStartUser) ∉ manyFrames 200000 := not_mem_manyFrames (by decide)
  have halways : none ∉ manyFrames 200000 := fun hmem => by simp [manyFrames] at hmem
  have hplenty : Plenty (199998 + 1 + 1) (manyFrames 200000) := manyFrames_plenty 200000
  generalize manyFrames 200000 = frames at hfresh hcode halways hplenty ⊢
  obtain ⟨page, frames', hpage, hplenty'⟩ := hplenty.cons
  obtain ⟨f, rest, hf, hrest⟩ := hplenty'.cons
  have hboot := freeSystem_booted hfresh
  have hsub : frames' ⊆ frames := hpage ▸ List.subset_cons_self _ _
  have hfresh' : FreshFrames frames' := by
    rw [hpage] at hfresh
    exact ⟨(List.nodup_cons.mp hfresh.1).2, fun g hg => hfresh.2 g (List.mem_cons_of_mem _ hg)⟩
  have hnot : some page ∉ frames' := fun hmem => by
    rw [hpage] at hfresh
    exact (List.nodup_cons.mp hfresh.1).1 (List.mem_filterMap.mpr ⟨some page, hmem, rfl⟩)
  have hfree {g : ℕ} (hg : some g ∈ frames) : g ∈ (freeSystem frames).kernel.freed := List.mem_filterMap.mpr ⟨some g, hg, rfl⟩
  have hmemPage : some page ∈ frames := hpage ▸ List.mem_cons_self
  have hmemF : some f ∈ frames := hsub (hf ▸ List.mem_cons_self)
  -- the two steps of the object allocator
  let m : Mem := (freeSystem frames).kernel.mem.storeByte page 1
  let s1 : UserSystem := { freeSystem frames with kernel := { (freeSystem frames).kernel with mem := m } }
  have hrefill : LedgerStep linkedOnePage ⟨freeSystem frames, []⟩ (.refill page) ⟨freeSystem frames, [page]⟩ :=
    .refill ⟨hfree hmemPage, List.not_mem_nil⟩
  have hwrite : LedgerStep linkedOnePage ⟨freeSystem frames, [page]⟩ .objects ⟨s1, [page]⟩ :=
    .objects fun a hne => by
      have heq : a = page := not_imp_comm.mp (Mem.storeByte_of_ne _ 1) hne
      exact ⟨page, List.mem_cons_self, heq ▸ ⟨le_refl _, by unfold pageSize; omega⟩⟩
  -- the first task
  have hsupply : Supplied linkedOnePage s1.toForkState frames' :=
    ⟨fun hmem => halways (hsub hmem), hfresh', fun hmem => hcode (hsub hmem), fun i hi => absurd hi (hboot.tasks i),
      fun i hi => absurd hi (hboot.tasks i)⟩
  obtain ⟨s', hcall, hlive, -, hpml4, -⟩ := setupInitTask_of_plenty (s := s1.supply frames' [true, true]) (n := 0)
    schedAllocateTask_boot hfresh' (fun hmem => hcode (hsub hmem)) hf (hrest.mono (by rw [setupCalls_length]; decide)) rfl
  have hspends := setupInitTask_spends hcall (le_refl 0)
  have hkept : page ∈ s'.kernel.freed := by
    rcases hspends.freed page (hfree hmemPage) with hkept | htaken
    · exact hkept
    · exact absurd (mem_taken hspends.frames htaken) hnot
  have hsetup : LedgerStep linkedOnePage ⟨s1, [page]⟩ (.user .setup) ⟨{ s1 with toForkState := s' }, [page]⟩ :=
    .user (.setup hsupply hcall fun _ => le_refl 0) fun g hg => (List.mem_singleton.mp hg) ▸ hkept
  have hrun : Run (LedgerStep linkedOnePage) ⟨freeSystem frames, []⟩ [.refill page, .objects, .user .setup]
      ⟨{ s1 with toForkState := s' }, [page]⟩ := ((Run.single _ hrefill).snoc hwrite).snoc hsetup
  have hzero {g : ℕ} (hg : some g ∈ frames) : LedgerSystem.Free ⟨freeSystem frames, []⟩ g := ⟨hfree hg, List.not_mem_nil⟩
  have hroot : IsTable s'.kernel.mem (s'.tasks 1).vmem.pml4 0 f := by
    rw [hpml4]
    exact .root
  exact ⟨page, f, _, hrun, hlive, Or.inr (Or.inl ⟨0, hroot⟩), List.mem_cons_self,
    (frames_conserved hboot Run.nil hrun (Or.inl (hzero hmemPage))).1, (frames_conserved hboot Run.nil hrun (Or.inl (hzero hmemF))).1⟩

end HeavenOS

/-
# Isolation of user programs

Every frame belongs to one task at most: its page tables, the pages of its stack, and its
kernel stack. A call takes frames that belong to nobody, and writes to frames of its own
task. So what one task may write no other task sees, in any order of calls.
-/

import HeavenOS.Sched.TaskSpace

namespace HeavenOS

open Lib PageTable

/-! ## The invariant -/

/-- The frames of a task that owns `own` besides its kernel stack. -/
def ForkState.held (s : ForkState) (own : ℕ → List ℕ) (i : ℕ) : List ℕ := s.kstack i :: own i

theorem ForkState.live_mk {k : Kernel} {tasks : TaskTable} {threads : ℕ → ArchThread} {i : ℕ} :
    ForkState.Live ⟨k, tasks, threads⟩ i ↔ (tasks i).vmemLive = true := Iff.rfl

/-- A task that has not been torn down. -/
structure TaskOk (l : LinkedImage) (s : ForkState) (i : ℕ) (own : List ℕ) : Prop where
  space : ∃ pt claimed, TaskSpace l.physStartUser ⟨(s.tasks i).vmem, s.kernel, own⟩ pt claimed
  areas : (s.tasks i).vmem.areas = [stackArea]
  state : (s.tasks i).state ≠ .notAllocated ∧ (s.tasks i).state ≠ .zombie
  kstackTop : (s.threads i).kstackTop = s.kstack i + pageSize
  kstack : pageSize ∣ s.kstack i ∧ s.kstack i ∉ own

/-- No frame belongs to two tasks; the frames that are free or still to be handed out belong
to none. -/
structure FramesApart (l : LinkedImage) (s : ForkState) (own : ℕ → List ℕ) : Prop where
  always : none ∉ s.kernel.frames
  fresh : FreshFrames s.kernel.frames
  code : some (physToVirt l.physStartUser) ∉ s.kernel.frames
  task : ∀ i, s.Live i → TaskOk l s i (own i)
  apart : ∀ i j, s.Live i → s.Live j → i ≠ j → ∀ f ∈ s.held own i, f ∉ s.held own j
  spare : ∀ i, s.Live i → ∀ f ∈ s.held own i, some f ∉ s.kernel.frames
  free : ∀ i, s.Live i → ∀ f ∈ s.held own i, f ∉ s.kernel.freed
  freed : ∀ g ∈ s.kernel.freed, pageSize ∣ g

theorem TaskOk.dvd {l : LinkedImage} {s : ForkState} {i : ℕ} {own : List ℕ} (h : TaskOk l s i own) :
    ∀ f ∈ s.kstack i :: own, pageSize ∣ f := by
  obtain ⟨pt, claimed, hspace⟩ := h.space
  intro f hf
  rcases List.mem_cons.mp hf with heq | hf
  · rw [heq]
    exact h.kstack.1
  · exact (hspace.own.isFrame f hf).1

/-- A status that is not refused lies in the area of the stack. -/
theorem statusOk_covers {vm : Vmem} {status : ℕ} (hareas : vm.areas = [stackArea]) (hok : statusOk vm status = true) :
    stackArea.Covers status := by
  cases harea : vmemIsMapped vm status with
  | none => simp [statusOk, harea] at hok
  | some area =>
      obtain ⟨hmem, hholds⟩ := vmemIsMapped_some harea
      rw [hareas, List.mem_singleton] at hmem
      exact hmem ▸ hholds.covers

/-! What is left of the answers. -/

theorem vmemHandlePf_frames {vm : Vmem} {addr : ℕ} {k k' : Kernel} {handled : Bool}
    (hcall : vmemHandlePf vm addr k = .ok (handled, k')) : k'.frames <:+ k.frames := by
  rcases vmemHandlePf_cases hcall with ⟨-, -, rfl⟩ | ⟨area, res, -, -, -, hrun⟩
  · exact List.suffix_refl _
  · exact ((Uses.frameAlloc k).trans (Uses.mapPage hrun)).frames

/-- A store of the kernel is a store to the page that is there, or that the handler makes. -/
theorem kernelStore_cases {vm : Vmem} {addr : ℕ} {b : BitVec 8} {k k' : Kernel} (hcall : kernelStore vm addr b k = .ok k') :
    ∃ k1 tr, (k1 = k ∨ walk k.mem vm.pml4 addr = none ∧ vmemHandlePf vm addr k = .ok (true, k1)) ∧
      walk k1.mem vm.pml4 addr = some tr ∧ k' = { k1 with mem := k1.mem.storeByte (physToVirt tr.phys) b } := by
  obtain ⟨k1, hpage, hcall⟩ := bind_eq_ok.mp hcall
  have hpage : k1 = k ∨ walk k.mem vm.pml4 addr = none ∧ vmemHandlePf vm addr k = .ok (true, k1) := by
    unfold pageIn at hpage
    cases hwalk : walk k.mem vm.pml4 addr with
    | some tr =>
        rw [hwalk] at hpage
        exact Or.inl (Except.ok.inj hpage).symm
    | none =>
        rw [hwalk] at hpage
        obtain ⟨⟨handled, k2⟩, hfault, hpage⟩ := bind_eq_ok.mp hpage
        cases handled with
        | false => cases hpage
        | true =>
            obtain rfl := Except.ok.inj hpage
            exact Or.inr ⟨rfl, hfault⟩
  cases hwalk : walk k1.mem vm.pml4 addr with
  | none =>
      rw [hwalk] at hcall
      cases hcall
  | some tr =>
      rw [hwalk] at hcall
      exact ⟨k1, tr, hpage, hwalk, (Except.ok.inj hcall).symm⟩

theorem kernelStore_frames {vm : Vmem} {addr : ℕ} {b : BitVec 8} {k k' : Kernel} (hcall : kernelStore vm addr b k = .ok k') :
    k'.frames <:+ k.frames := by
  obtain ⟨k1, tr, hpage, -, rfl⟩ := kernelStore_cases hcall
  rcases hpage with rfl | ⟨-, hfault⟩
  · exact List.suffix_refl _
  · have hframes := vmemHandlePf_frames hfault
    exact hframes

theorem storeStatus_frames {vm : Vmem} {status count i : ℕ} {exitcode : BitVec 32} {k k' : Kernel}
    (hcall : storeStatus vm status exitcode count i k = .ok k') : k'.frames <:+ k.frames := by
  induction count generalizing i k with
  | zero =>
      obtain rfl := Except.ok.inj hcall
      exact List.suffix_refl _
  | succ count ih =>
      rw [storeStatus] at hcall
      obtain ⟨k1, hstore, hcall⟩ := bind_eq_ok.mp hcall
      exact (ih hcall).trans (kernelStore_frames hstore)

namespace FramesApart

variable {l : LinkedImage} {s s' : ForkState} {own : ℕ → List ℕ} (h : FramesApart l s own)

include h

/-- A step that concerns one entry: what it changes in memory, and what it gives back, belongs
to no other task. -/
theorem step (c : ℕ) (own' : List ℕ)
    (hothers : ∀ i, i ≠ c → s'.Live i → s.Live i ∧ (s'.tasks i).vmem = (s.tasks i).vmem ∧
      s'.threads i = s.threads i ∧ (s'.tasks i).state ≠ .notAllocated ∧ (s'.tasks i).state ≠ .zombie)
    (hframes : s'.kernel.frames <:+ s.kernel.frames)
    (hmem : ∀ a, s'.kernel.mem a ≠ s.kernel.mem a →
      ∃ g, pageSize ∣ g ∧ InFrame g a ∧ ∀ i, i ≠ c → s.Live i → g ∉ s.held own i)
    (hfreed : ∀ g ∈ s'.kernel.freed, pageSize ∣ g ∧ ∀ i, i ≠ c → s.Live i → g ∉ s.held own i)
    (htask : s'.Live c → TaskOk l s' c own')
    (hnew : s'.Live c → ∀ f ∈ s'.kstack c :: own', some f ∉ s'.kernel.frames ∧ f ∉ s'.kernel.freed ∧
      ∀ i, i ≠ c → s.Live i → f ∉ s.held own i) :
    FramesApart l s' (Function.update own c own') := by
  have hmore {f : ℕ} (hf : some f ∈ s'.kernel.frames) : some f ∈ s.kernel.frames := hframes.subset hf
  have hself : s'.held (Function.update own c own') c = s'.kstack c :: own' := by
    rw [ForkState.held, Function.update_self]
  have hheld (i : ℕ) (hi : i ≠ c) (hlive : s'.Live i) : s'.held (Function.update own c own') i = s.held own i := by
    rw [ForkState.held, ForkState.held, Function.update_of_ne hi, ForkState.kstack, ForkState.kstack,
      (hothers i hi hlive).2.2.1]
  have hfresh : FreshFrames s'.kernel.frames :=
    ⟨h.fresh.1.sublist (hframes.sublist.filterMap _), fun f hf => h.fresh.2 f (hmore hf)⟩
  refine ⟨fun hmem => h.always (hframes.subset hmem), hfresh, fun hmem => h.code (hmore hmem), fun i hlive => ?_,
    fun i j hi hj hij f hf => ?_, fun i hlive f hf => ?_, fun i hlive f hf => ?_, fun g hg => (hfreed g hg).1⟩
  · by_cases hi : i = c
    · subst hi
      rw [Function.update_self]
      exact htask hlive
    · obtain ⟨hlive', hvmem, hthread, hstate⟩ := hothers i hi hlive
      have hok := h.task i hlive'
      obtain ⟨pt, claimed, hspace⟩ := hok.space
      have hstack : s'.kstack i = s.kstack i := by rw [ForkState.kstack, ForkState.kstack, hthread]
      rw [Function.update_of_ne hi]
      refine ⟨⟨pt, claimed, ?_⟩, by rw [hvmem]; exact hok.areas, hstate, by rw [hthread, hstack]; exact hok.kstackTop,
        by rw [hstack]; exact hok.kstack⟩
      rw [hvmem]
      refine hspace.change rfl (fun q t r hq a ha => ?_) hfresh (fun f hf => ⟨fun hmem => ?_, fun heq => ?_⟩)
        fun g hg hmem => (hfreed g hg).2 i hi hlive' (List.mem_cons_of_mem _ hmem)
      · by_contra hne
        obtain ⟨g, hdvd, hin, hnot⟩ := hmem a hne
        have ht := hspace.table_mem hq
        obtain rfl := inFrame_unique (hspace.own.isFrame t ht).1 hdvd ha hin
        exact hnot i hi hlive' (List.mem_cons_of_mem _ ht)
      · exact h.spare i hlive' f (List.mem_cons_of_mem _ hmem) (hmore hf)
      · exact h.code (hmore (heq ▸ hf))
  · by_cases hic : i = c
    · subst hic
      rw [hself] at hf
      rw [hheld j (Ne.symm hij) hj]
      exact (hnew hi f hf).2.2 j (Ne.symm hij) (hothers j (Ne.symm hij) hj).1
    · have hlive := (hothers i hic hi).1
      rw [hheld i hic hi] at hf
      by_cases hjc : j = c
      · subst hjc
        rw [hself]
        exact fun hmem => (hnew hj f hmem).2.2 i hic hlive hf
      · rw [hheld j hjc hj]
        exact h.apart i j hlive (hothers j hjc hj).1 hij f hf
  · by_cases hi : i = c
    · subst hi
      rw [hself] at hf
      exact (hnew hlive f hf).1
    · rw [hheld i hi hlive] at hf
      exact fun hmem => h.spare i (hothers i hi hlive).1 f hf (hmore hmem)
  · by_cases hi : i = c
    · subst hi
      rw [hself] at hf
      exact (hnew hlive f hf).2.1
    · rw [hheld i hi hlive] at hf
      exact fun hmem => (hfreed f hmem).2 i hi (hothers i hi hlive).1 hf

/-- The allocators get new answers. -/
theorem resupply {frames : List (Option ℕ)} (objects : List Bool) (halways : none ∉ frames) (hfresh : FreshFrames frames)
    (hcode : some (physToVirt l.physStartUser) ∉ frames)
    (hspare : ∀ i, s.Live i → ∀ f ∈ s.held own i, some f ∉ frames) : FramesApart l (s.supply frames objects) own where
  always := halways
  fresh := hfresh
  code := hcode
  task i hi := by
    have hok := h.task i hi
    obtain ⟨pt, claimed, hspace⟩ := hok.space
    refine ⟨⟨pt, claimed, hspace.change rfl (fun _ _ _ _ _ _ => rfl) hfresh (fun f hf => ⟨fun hmem => ?_, fun heq => ?_⟩)
      hspace.own.freed⟩, hok.areas, hok.state, hok.kstackTop, hok.kstack⟩
    · exact hspare i hi f (List.mem_cons_of_mem _ hmem) hf
    · exact hcode (heq ▸ hf)
  apart := h.apart
  spare := hspare
  free := h.free
  freed := h.freed

theorem supplied {frames : List (Option ℕ)} (hsupply : Supplied l s frames) (objects : List Bool) :
    FramesApart l (s.supply frames objects) own := by
  refine h.resupply objects hsupply.always hsupply.fresh hsupply.code fun i hi f hf hmem => ?_
  obtain ⟨pt, claimed, hspace⟩ := (h.task i hi).space
  rcases List.mem_cons.mp hf with heq | hf
  · exact hsupply.kstacks i hi (heq ▸ hmem)
  · exact hspace.not_mem_of_unused (hsupply.spaces i hi) hmem hf

/-- A step that takes frames for the task in entry `c`. -/
theorem takes {c : ℕ} {kept own' : List ℕ}
    (hothers : ∀ i, i ≠ c → s'.tasks i = s.tasks i ∧ s'.threads i = s.threads i)
    (hkept : ∀ f ∈ kept, s.Live c ∧ f ∈ s.held own c) (htakes : Takes kept (s'.kstack c :: own') s.kernel s'.kernel)
    (htask : TaskOk l s' c own') (hstack : some (s'.kstack c) ∉ s'.kernel.frames ∧ s'.kstack c ∉ s'.kernel.freed) :
    FramesApart l s' (Function.update own c own') := by
  have hnot : ∀ f ∈ s'.kstack c :: own', ∀ i, i ≠ c → s.Live i → f ∉ s.held own i := fun f hf i hi hlive => by
    rcases htakes.new f hf with hmem | hmem
    · exact h.apart c i (hkept f hmem).1 hlive (Ne.symm hi) f (hkept f hmem).2
    · exact fun hheld => h.spare i hlive f hheld hmem
  refine h.step c own' (fun i hi hlive => ?_) htakes.frames (fun a hne => ?_)
    (fun g hg => ⟨h.freed g (htakes.freed hg), fun i _ hlive hmem => h.free i hlive g hmem (htakes.freed hg)⟩)
    (fun _ => htask) fun _ f hf => ?_
  · obtain ⟨htask', hthread⟩ := hothers i hi
    have hlive' : s.Live i := by rwa [ForkState.Live, htask'] at hlive
    exact ⟨hlive', by rw [htask'], hthread, htask' ▸ (h.task i hlive').state⟩
  · by_contra hcon
    refine hne (htakes.mem a fun f hf hin => hcon ⟨f, htask.dvd f hf, hin, hnot f hf⟩)
  · obtain ⟨pt, claimed, hspace⟩ := htask.space
    rcases List.mem_cons.mp hf with heq | hmem
    · exact ⟨heq ▸ hstack.1, heq ▸ hstack.2, hnot f hf⟩
    · exact ⟨hspace.own.ledger.notMem f hmem, fun hg => hspace.own.freed f hg hmem, hnot f hf⟩

/-- Only other members of the entries change. -/
theorem retask {tasks : TaskTable} (hsame : ∀ i, (tasks i).vmem = (s.tasks i).vmem ∧
      (tasks i).vmemLive = (s.tasks i).vmemLive ∧
      (s.Live i → (tasks i).state ≠ .notAllocated ∧ (tasks i).state ≠ .zombie)) :
    FramesApart l { s with tasks := tasks } own := by
  have hlive {i : ℕ} (hi : ForkState.Live { s with tasks := tasks } i) : s.Live i := (hsame i).2.1.symm.trans hi
  refine ⟨h.always, h.fresh, h.code, fun i hi => ?_, fun i j hi hj => h.apart i j (hlive hi) (hlive hj),
    fun i hi => h.spare i (hlive hi), fun i hi => h.free i (hlive hi), h.freed⟩
  have hok := h.task i (hlive hi)
  refine ⟨?_, ?_, (hsame i).2.2 (hlive hi), hok.kstackTop, hok.kstack⟩
  · show ∃ pt claimed, TaskSpace l.physStartUser ⟨(tasks i).vmem, s.kernel, own i⟩ pt claimed
    rw [(hsame i).1]
    exact hok.space
  · show (tasks i).vmem.areas = _
    rw [(hsame i).1]
    exact hok.areas

/-! ## Memory of a task -/

variable {p : ℕ} (hp : s.Live p)

include hp

/-- A page fault in the area of the stack. -/
theorem fault {addr : ℕ} {k : Kernel} (haddr : Canonical addr) (hunmapped : s.walk p addr = none)
    (hanswer : s.kernel.frames ≠ []) (hcall : vmemHandlePf (s.tasks p).vmem addr s.kernel = .ok (true, k)) :
    ∃ own', FramesApart l { s with kernel := k } own' := by
  have hok := h.task p hp
  obtain ⟨pt, claimed, hspace⟩ := hok.space
  obtain ⟨f, frames, hframe⟩ : ∃ f frames, s.kernel.frames = some f :: frames := by
    cases hframes : s.kernel.frames with
    | nil => exact absurd hframes hanswer
    | cons answer frames =>
        cases answer with
        | none => exact absurd (by rw [hframes]; exact List.mem_cons_self) h.always
        | some f => exact ⟨f, frames, rfl⟩
  obtain ⟨own', pt', claimed', hspace', htakes⟩ := hspace.fault hok.areas haddr hunmapped hframe hcall
  have hstack : s.kstack p ∈ s.held own p := List.mem_cons_self
  have htask : TaskOk l { s with kernel := k } p own' := by
    refine ⟨⟨pt', claimed', hspace'⟩, hok.areas, hok.state, hok.kstackTop, hok.kstack.1, fun hmem => ?_⟩
    rcases htakes.new _ hmem with hmem | hmem
    · exact hok.kstack.2 hmem
    · exact h.spare p hp _ hstack hmem
  have hapart : FramesApart l { s with kernel := k } (Function.update own p own') :=
    h.takes (c := p) (fun i _ => ⟨rfl, rfl⟩) (fun f (hf : f ∈ s.held own p) => ⟨hp, hf⟩) (htakes.cons (s.kstack p)) htask
      ⟨fun hmem => h.spare p hp _ hstack (htakes.frames.subset hmem), fun hmem => h.free p hp _ hstack (htakes.freed hmem)⟩
  exact ⟨_, hapart⟩

/-- A store to the stack. -/
theorem store {addr : ℕ} {tr : Translation} (b : BitVec 8) (haddr : stackArea.Covers addr) (hwalk : s.walk p addr = some tr) :
    FramesApart l { s with kernel := { s.kernel with mem := s.kernel.mem.storeByte (physToVirt tr.phys) b } } own := by
  have hok := h.task p hp
  obtain ⟨pt, claimed, hspace⟩ := hok.space
  rw [stackArea_covers] at haddr
  obtain ⟨-, -, hin, hmem, htable⟩ := hspace.walk_stack haddr.1 (by omega) hwalk
  have hdvd := (hspace.own.isFrame _ hmem).1
  have hsame {a : ℕ} (ha : ¬InFrame tr.frame a) : s.kernel.mem.storeByte (physToVirt tr.phys) b a = s.kernel.mem a :=
    Mem.storeByte_of_ne _ b fun heq => ha (heq ▸ hin)
  have htask : TaskOk l { s with kernel := { s.kernel with mem := s.kernel.mem.storeByte (physToVirt tr.phys) b } } p (own p) := by
    refine ⟨⟨pt, claimed, hspace.change rfl (fun q t r hq a ha => hsame fun hin' => ?_) h.fresh
      (fun f hf => ⟨fun hmem' => ?_, fun heq => ?_⟩) hspace.own.freed⟩, hok.areas, hok.state, hok.kstackTop, hok.kstack⟩
    · exact htable q t r hq (inFrame_unique hdvd (hspace.own.isFrame t (hspace.table_mem hq)).1 hin' ha)
    · exact h.spare p hp f (List.mem_cons_of_mem _ hmem') hf
    · exact h.code (heq ▸ hf)
  have hapart : FramesApart l { s with kernel := { s.kernel with mem := s.kernel.mem.storeByte (physToVirt tr.phys) b } }
      (Function.update own p (own p)) := by
    refine h.step p (own p) (fun i _ hlive => ⟨hlive, rfl, rfl, (h.task i hlive).state⟩) (List.suffix_refl _)
      (fun a hne => ⟨tr.frame, hdvd, not_imp_comm.mp hsame hne, fun i hi hlive => ?_⟩)
      (fun g hg => ⟨h.freed g hg, fun i _ hlive hheld => h.free i hlive g hheld hg⟩) (fun _ => htask) fun _ f hf => ?_
    · exact h.apart p i hp hlive (Ne.symm hi) _ (List.mem_cons_of_mem _ hmem)
    · exact ⟨h.spare p hp f hf, h.free p hp f hf, fun i hi hlive => h.apart p i hp hlive (Ne.symm hi) f hf⟩
  rwa [Function.update_eq_self] at hapart

/-- A store of the kernel at the stack or a few bytes behind it. -/
theorem kernelStore {addr : ℕ} {b : BitVec 8} {k : Kernel} (hlo : 0x70000000 ≤ addr) (hhi : addr < 2 ^ 47)
    (hcall : kernelStore (s.tasks p).vmem addr b s.kernel = .ok k) (hleft : k.frames ≠ []) :
    ∃ own', FramesApart l { s with kernel := k } own' := by
  obtain ⟨k1, tr, hpage, hwalk, rfl⟩ := kernelStore_cases hcall
  obtain ⟨own1, h1⟩ : ∃ own1, FramesApart l { s with kernel := k1 } own1 := by
    rcases hpage with rfl | ⟨hunmapped, hfault⟩
    · exact ⟨own, h⟩
    · have hframes := vmemHandlePf_frames hfault
      exact h.fault hp (Or.inl hhi) hunmapped (fun hnil => hleft (List.suffix_nil.mp (hnil ▸ hframes))) hfault
  obtain ⟨pt, claimed, hspace⟩ := (h1.task p hp).space
  obtain ⟨-, haddr, -⟩ := hspace.walk_stack hlo hhi hwalk
  exact ⟨own1, h1.store hp b haddr hwalk⟩

/-- `*status = exitcode` -/
theorem storeStatus {status count i : ℕ} {exitcode : BitVec 32} {k : Kernel} (hstatus : stackArea.Covers status)
    (hi : i + count ≤ 4) (hcall : storeStatus (s.tasks p).vmem status exitcode count i s.kernel = .ok k)
    (hleft : k.frames ≠ []) : ∃ own', FramesApart l { s with kernel := k } own' := by
  induction count generalizing s own i with
  | zero =>
      obtain rfl := Except.ok.inj hcall
      exact ⟨own, h⟩
  | succ count ih =>
      rw [HeavenOS.storeStatus] at hcall
      obtain ⟨k1, hstore, hcall⟩ := bind_eq_ok.mp hcall
      rw [stackArea_covers] at hstatus
      obtain ⟨own1, h1⟩ := h.kernelStore hp (by omega) (by omega) hstore
        fun hnil => hleft (List.suffix_nil.mp (hnil ▸ storeStatus_frames hcall))
      exact @ih { s with kernel := k1 } own1 h1 hp (i + 1) (by omega) hcall

/-- The end of `sys_wait`, for a child that is dead. -/
theorem waitFinish {childPid status : ℕ} {res : Int} {s' : ForkState} (hzombie : (s.tasks childPid).state = .zombie)
    (hcall : waitFinish p childPid status s = .ok (res, s')) (hleft : s'.kernel.frames ≠ []) : ∃ own', FramesApart l s' own' := by
  have hreap : ∀ i, ((s.tasks.modify childPid fun t => { t with state := .notAllocated }) i).vmem = (s.tasks i).vmem ∧
      ((s.tasks.modify childPid fun t => { t with state := .notAllocated }) i).vmemLive = (s.tasks i).vmemLive ∧
      (s.Live i → ((s.tasks.modify childPid fun t => { t with state := .notAllocated }) i).state ≠ .notAllocated ∧
        ((s.tasks.modify childPid fun t => { t with state := .notAllocated }) i).state ≠ .zombie) := fun i => by
    rw [TaskTable.modify_apply]
    split_ifs with hi
    · exact ⟨rfl, rfl, fun hlive => absurd (hi ▸ hzombie) (h.task i hlive).state.2⟩
    · exact ⟨rfl, rfl, fun hlive => (h.task i hlive).state⟩
  rw [HeavenOS.waitFinish, sysWaitFinish] at hcall
  by_cases hnull : status = 0
  · rw [if_neg (fun hbad => hbad.1 hnull), if_neg (not_not.mpr hnull)] at hcall
    obtain ⟨-, rfl⟩ := Prod.mk.inj (Except.ok.inj hcall)
    exact ⟨own, h.retask hreap⟩
  · by_cases hok : statusOk (s.tasks p).vmem status = true
    · rw [if_neg (fun hbad => hbad.2 hok), if_pos hnull] at hcall
      obtain ⟨k, hstore, hcall⟩ := bind_eq_ok.mp hcall
      obtain ⟨-, rfl⟩ := Prod.mk.inj (Except.ok.inj hcall)
      obtain ⟨own1, h1⟩ := h.storeStatus hp (statusOk_covers (h.task p hp).areas hok) (le_refl 4) hstore hleft
      exact ⟨own1, h1.retask hreap⟩
    · rw [if_pos ⟨hnull, hok⟩] at hcall
      obtain ⟨-, rfl⟩ := Prod.mk.inj (Except.ok.inj hcall)
      exact ⟨own, h⟩

/-- `sys_exit` and the teardown. -/
theorem exit {code : BitVec 64} (hcall : exitCall p code s = .ok s') : ∃ own', FramesApart l s' own' := by
  have hok := h.task p hp
  obtain ⟨pt, claimed, hspace⟩ := hok.space
  obtain ⟨k1, hdestroy, hframes, hfreed, hmem⟩ := hspace.destroy h.freed
  have hvmem : (sysExit s.tasks p code p).vmem = (s.tasks p).vmem := by rw [sysExit_apply, if_pos rfl]
  rw [exitCall, hvmem, hdestroy] at hcall
  obtain rfl := Except.ok.inj hcall
  have htears := Tears.frameFree k1 (s.kstack p)
  have hgiven : ∀ g ∈ (frameFree k1 (s.kstack p)).freed, g ∈ s.kernel.freed ∨ g ∈ s.held own p := fun g hg => by
    rcases (htears.freed g).mp hg with hg | hg
    · exact ((hfreed g).mp hg).imp_right (List.mem_cons_of_mem _)
    · have heq : g = s.kstack p := VmemEvent.free.inj (List.mem_singleton.mp hg)
      exact Or.inr (heq ▸ List.mem_cons_self)
  have hforeign : ∀ g ∈ (frameFree k1 (s.kstack p)).freed,
      pageSize ∣ g ∧ ∀ i, i ≠ p → s.Live i → g ∉ s.held own i := fun g hg => by
    rcases hgiven g hg with hg | hg
    · exact ⟨h.freed g hg, fun i _ hlive hheld => h.free i hlive g hheld hg⟩
    · exact ⟨hok.dvd g hg, fun i hi hlive => h.apart p i hp hlive (Ne.symm hi) g hg⟩
  have hleft : (frameFree k1 (s.kstack p)).frames <:+ s.kernel.frames := by
    rw [htears.frames]
    exact hframes ▸ List.suffix_refl _
  have hdead : ∀ (tasks : TaskTable) (threads : ℕ → ArchThread), ¬ForkState.Live ⟨frameFree k1 (s.kstack p),
      tasks.modify p fun t => { t with vmemLive := false, kstackLive := false }, threads⟩ p := fun tasks threads hlive => by
    rw [ForkState.live_mk, TaskTable.modify_self] at hlive
    cases hlive
  refine ⟨_, h.step p [] (fun i hi hlive => ?_) hleft (fun a hne => ?_) hforeign (fun hlive => absurd hlive (hdead _ _))
    fun hlive => absurd hlive (hdead _ _)⟩
  · have htask : (TaskTable.modify (sysExit s.tasks p code) p fun t => { t with vmemLive := false, kstackLive := false }) i =
        sysExit s.tasks p code i := TaskTable.modify_of_ne _ _ hi
    rw [ForkState.live_mk, htask, sysExit_apply, if_neg hi] at hlive
    show _ ∧ (TaskTable.modify _ p _ i).vmem = _ ∧ _ ∧ (TaskTable.modify _ p _ i).state ≠ _ ∧
      (TaskTable.modify _ p _ i).state ≠ _
    rw [htask, sysExit_apply, if_neg hi]
    split_ifs at hlive ⊢ with hwake
    · exact ⟨hlive, rfl, rfl, nofun, nofun⟩
    · exact ⟨hlive, rfl, rfl, (h.task i hlive).state⟩
  · by_contra hcon
    have hout : ∀ g ∈ (frameFree k1 (s.kstack p)).freed, ¬InFrame g a := fun g hg hin =>
      hcon ⟨g, (hforeign g hg).1, hin, (hforeign g hg).2⟩
    exact hne ((htears.mem a hout).trans (hmem a fun g hg => hout g ((htears.freed g).mpr (Or.inl hg))))

end FramesApart

/-! ## New tasks -/

theorem vmemInit_eq_zero {k k' : Kernel} {vm : Vmem} {err : Int} (h : vmemInit k = (err, vm, k')) (herr : 0 ≤ err) :
    err = 0 := by
  unfold vmemInit at h
  simp only at h
  split_ifs at h
  all_goals
    obtain ⟨rfl, -⟩ := Prod.mk.inj h
    first
    | rfl
    | exact absurd herr (by decide)

/-- A call that succeeds has made an address space, with the area of the stack, and a thread. -/
theorem setupInitTask_succeeds {l : LinkedImage} {s s' : ForkState} {res : Int}
    (h : setupInitTask l s = .returned res s') (hres : 0 ≤ res) :
    ∃ c vm vm' k k1 k2 err err1 err2 th, vmemInit s.kernel = (0, vm, k) ∧
      setupVmem l.image.start (l.image.start + l.image.size) l.physStartUser vm k = .ok (err, k1) ∧
      vmemAllocPages vm 0x70000000 4 (vmemUser ||| vmemWrite) k1 = .ok (err1, vm', k2) ∧ 0 ≤ err1 ∧
      archThreadNew (s.threads c) l.userProgram l.popAndIret k2 = (err2, th, s'.kernel) ∧ 0 ≤ err2 ∧
      s'.threads = Function.update s.threads c th ∧
      s'.tasks = s.tasks.modify c fun t =>
        { t with pid := c, vmem := vm', state := .runnable, vmemLive := true, kstackLive := true } := by
  unfold setupInitTask at h
  cases halloc : schedAllocateTask s.tasks with
  | none =>
      rw [halloc] at h
      cases h
      exact absurd hres (by decide)
  | some found =>
      obtain ⟨c, tasks⟩ := found
      obtain ⟨-, -, -, rfl⟩ := schedAllocateTask_spec halloc
      rw [halloc] at h
      cases hinit : vmemInit s.kernel with
      | mk err out =>
          obtain ⟨vm, k⟩ := out
          rw [hinit] at h
          simp only at h
          split_ifs at h with herr
          · cases h
            omega
          cases hsetup : setupVmem l.image.start (l.image.start + l.image.size) l.physStartUser vm k with
          | error msg =>
              rw [hsetup] at h
              cases h
          | ok mapped =>
              obtain ⟨err1, k1⟩ := mapped
              rw [hsetup] at h
              simp only at h
              split_ifs at h with herr1
              · cases h
                omega
              cases hstack : vmemAllocPages vm 0x70000000 4 (vmemUser ||| vmemWrite) k1 with
              | error msg =>
                  rw [hstack] at h
                  cases h
              | ok areas =>
                  obtain ⟨err2, vm', k2⟩ := areas
                  rw [hstack] at h
                  simp only at h
                  split_ifs at h with herr2 herr3
                  · cases h
                    omega
                  · cases h
                    omega
                  · obtain ⟨rfl, rfl⟩ := ForkEnd.returned.inj h
                    obtain rfl := vmemInit_eq_zero hinit (not_lt.mp herr)
                    refine ⟨c, vm, vm', k, k1, k2, err1, err2, _, _, rfl, hsetup, hstack, not_lt.mp herr2, rfl, not_lt.mp herr3, rfl,
                      funext fun j => ?_⟩
                    by_cases hj : j = c
                    · subst hj
                      simp
                    · simp [TaskTable.modify_of_ne _ _ hj]

namespace FramesApart

variable {l : LinkedImage} {s s' : ForkState} {own : ℕ → List ℕ} (h : FramesApart l s own)

include h

/-- An entry becomes the task `t`: it gets an address space, then a kernel stack. -/
theorem newTask {c page : ℕ} {f : Task → Task} {th : ArchThread} {own' : List ℕ} {pt : PageTable} {claimed : Set Path}
    {k : Kernel} (htasks : s'.tasks = s.tasks.modify c f) (hthreads : s'.threads = Function.update s.threads c th)
    {t : Task} (ht : f (s.tasks c) = t) (hareas : t.vmem.areas = [stackArea])
    (hstate : t.state ≠ .notAllocated ∧ t.state ≠ .zombie)
    (hspace : TaskSpace l.physStartUser ⟨t.vmem, k, own'⟩ pt claimed) (htakes : Takes [] own' s.kernel k)
    (hstack : NewStack th.kstackTop page k s'.kernel) : ∃ own', FramesApart l s' own' := by
  have hself : s'.tasks c = t := by rw [htasks, TaskTable.modify_self, ht]
  have hthread : s'.threads c = th := by rw [hthreads, Function.update_self]
  have hpage : s'.kstack c = page := by rw [ForkState.kstack, hthread, hstack.kstackTop, Nat.add_sub_cancel]
  obtain ⟨hspace', hdvd, hnot, hframes, hfreed⟩ := hspace.newStack hstack
  have hothers (i : ℕ) (hi : i ≠ c) : s'.tasks i = s.tasks i ∧ s'.threads i = s.threads i :=
    ⟨by rw [htasks, TaskTable.modify_of_ne _ _ hi], by rw [hthreads, Function.update_of_ne hi]⟩
  have htask : TaskOk l s' c own' := by
    refine ⟨⟨pt, claimed, ?_⟩, ?_, ?_, ?_, ?_⟩
    · rw [hself]
      exact hspace'
    · rw [hself]
      exact hareas
    · rw [hself]
      exact hstate
    · rw [hpage, hthread, hstack.kstackTop]
    · rw [hpage]
      exact ⟨hdvd, hnot⟩
  refine ⟨_, h.takes (c := c) hothers (fun f hf => absurd hf List.not_mem_nil) ?_ htask ?_⟩
  · rw [hpage]
    exact htakes.trans hstack.takes
  · rw [hpage]
    exact ⟨hframes, hfreed⟩

/-- `sys_fork` -/
theorem fork {p : ℕ} (hp : s.Live p) {back : BitVec 64} {res : Int} (hcall : forkCall back p s = .returned res s')
    (hres : 0 ≤ res) : ∃ own', FramesApart l s' own' := by
  obtain ⟨c, vm, k, err, th, regs, k1, -, htable, hclone, hthread, herr, hkernel, hthreads⟩ := forkCall_succeeds hcall hres
  obtain ⟨-, -, hfree, htasks⟩ := sysFork_spec htable
  have hok := h.task p hp
  have hne : p ≠ c := by
    rintro rfl
    exact hok.state.1 hfree
  have htasks := htasks hne
  obtain ⟨pt, claimed, hspace⟩ := hok.space
  obtain ⟨own', pt', claimed', hcopy, htakes⟩ := hspace.clone hclone
  obtain ⟨-, -, hareas⟩ := vmemClone_areas hclone
  have hareas := hareas rfl
  rw [hok.areas, List.reverse_singleton] at hareas
  have hsize : archRegsSize = 176 := rfl
  obtain ⟨page, hstack, hregs⟩ := archThreadCloneCurrent_stack hthread herr
    (by rw [hok.kstackTop, hsize]; unfold pageSize; omega) fun page hhead => by
      obtain ⟨frames, hframes⟩ := List.head?_eq_some_iff.mp hhead
      have hmem : some page ∈ k.frames := by
        rw [hframes]
        exact List.mem_cons_self
      -- the two pages differ, and both are aligned
      have hdvd := (hcopy.inv.valid.fresh.2 page hmem).1.1
      have hpage : page ≠ s.kstack p := fun heq =>
        h.spare p hp _ List.mem_cons_self (heq ▸ htakes.frames.subset hmem)
      have hkstack := hok.kstack.1
      rw [hok.kstackTop, hsize]
      unfold pageSize at *
      omega
  have hslot : Reg.rax.slot < 15 := by decide
  have hwrite := hstack.write (m := k1.mem.storeWord (regs + 8 * Reg.rax.slot) 0) fun x hx => by
    unfold InFrame pageSize at hx
    unfold pageSize at hregs
    exact Mem.storeWord_of_outside _ _ (by omega)
  exact h.newTask htasks hthreads rfl hareas ⟨nofun, nofun⟩ hcopy htakes (hkernel ▸ hwrite)

/-- `setup_init_task` -/
theorem setup {res : Int} (hcall : setupInitTask l s = .returned res s') (hres : 0 ≤ res) : ∃ own', FramesApart l s' own' := by
  obtain ⟨c, vm, vm', k, k1, k2, err, err1, err2, th, hinit, hsetup, harea, herr1, hthread, herr2, hthreads, htasks⟩ :=
    setupInitTask_succeeds hcall hres
  obtain ⟨own', pt, claimed, hspace, htakes⟩ := TaskSpace.setup h.fresh h.code hinit hsetup
  obtain ⟨hpml4, hkernel⟩ := vmemAllocPages_keeps harea
  have hareas : vm'.areas = [stackArea] := by
    rcases vmemAllocPages_cases harea with ⟨hneg, -⟩ | ⟨-, hcons⟩
    · omega
    · have hempty := vmemInit_areas s.kernel
      rw [hinit] at hempty
      rw [hcons, hempty]
      rfl
  -- the list of areas, which is all that `vmem_alloc_pages` changes, is not part of the tables
  have hspace' : TaskSpace l.physStartUser ⟨vm', k2, own'⟩ pt claimed := by
    have hframes : k2.frames = k1.frames := by rw [hkernel]
    have hfreed : k2.freed = k1.freed := by rw [hkernel]
    obtain ⟨hnodup, hframe⟩ := hspace.inv.valid.fresh
    refine hspace.change hpml4 (fun _ _ _ _ a _ => by rw [hkernel]) ?_ (fun f hf => ?_) fun g hg => ?_
    · rw [hframes]
      exact ⟨hnodup, fun f hf => (hframe f hf).1⟩
    · rw [hframes] at hf
      exact ⟨fun hmem => hspace.own.ledger.notMem f hmem hf, fun heq => hspace.code.2 (heq ▸ hf)⟩
    · rw [hfreed] at hg
      exact hspace.own.freed g hg
  have htakes' : Takes [] own' s.kernel k2 := by
    rw [hkernel]
    exact ⟨htakes.sub, htakes.frames, htakes.new, htakes.mem, htakes.freed⟩
  obtain ⟨page, hstack⟩ := archThreadNew_stack hthread herr2
  exact h.newTask htasks hthreads rfl hareas ⟨nofun, nofun⟩ hspace' htakes' hstack

end FramesApart

/-! ## Runs -/

/-- Every step keeps the frames of the tasks apart. -/
theorem UserStep.apart {l : LinkedImage} {s s' : UserSystem} {label : UserLabel} (hstep : UserStep l s label s')
    (hapart : ∃ own, FramesApart l s.toForkState own) : ∃ own, FramesApart l s'.toForkState own := by
  obtain ⟨own, h⟩ := hapart
  cases hstep with
  | @setup s' frames objects res hsupply hcall hres =>
      have hsup := h.supplied hsupply objects
      by_cases hfree : ∃ i, FreeEntry s.tasks i
      · exact hsup.setup hcall (hres hfree)
      · have hnone := (schedAllocateTask_eq_none_iff s.tasks).mpr hfree
        have hfull : setupInitTask l (s.supply frames objects) = .returned (-enomem) (s.supply frames objects) := by
          unfold setupInitTask
          rw [show schedAllocateTask (s.supply frames objects).tasks = none from hnone]
        obtain ⟨-, rfl⟩ := ForkEnd.returned.inj (hcall.symm.trans hfull)
        exact ⟨own, hsup⟩
  | @fork s' p frames objects res huser hsupply hcall hres =>
      exact (h.supplied hsupply objects).fork huser.1 hcall hres
  | @fault p addr write frames objects k huser haddr hfault hsupply hcall hleft =>
      have hok := h.task p huser.1
      obtain ⟨pt, claimed, hspace⟩ := hok.space
      have hunmapped := hspace.unmapped_of_handled hok.areas hfault hcall
      have hframes := vmemHandlePf_frames hcall
      exact (h.supplied hsupply objects).fault huser.1 haddr hunmapped
        (fun hnil => hleft (List.suffix_nil.mp (hnil ▸ hframes))) hcall
  | @store p addr b tr huser haddr hwalk hallowed =>
      obtain ⟨pt, claimed, hspace⟩ := (h.task p huser.1).space
      obtain ⟨t, ht, hright, hwrite⟩ := hallowed
      obtain rfl := Option.some.inj (hwalk.symm.trans ht)
      obtain ⟨hcov, -⟩ := hspace.writable haddr hwalk hright (hwrite rfl)
      exact ⟨own, h.store huser.1 b hcov hwalk⟩
  | exit huser hcall => exact h.exit huser.1 hcall
  | refused => exact ⟨own, h⟩
  | @blocked p childPid status tasks huser hwait =>
      rcases sysWait_cases s.tasks p childPid with ⟨-, hres⟩ | ⟨-, -, hres⟩ | ⟨-, -, hres⟩
      · cases hwait.symm.trans hres
      · obtain rfl := WaitStart.blocked.inj (hwait.symm.trans hres)
        refine ⟨own, h.retask fun i => ?_⟩
        rw [TaskTable.modify_apply]
        split_ifs
        · exact ⟨rfl, rfl, fun _ => ⟨nofun, nofun⟩⟩
        · exact ⟨rfl, rfl, fun hlive => (h.task i hlive).state⟩
      · cases hwait.symm.trans hres
  | @ready s' p childPid status frames objects res huser hwait hsupply hcall hleft =>
      rcases sysWait_cases s.tasks p childPid with ⟨-, hres⟩ | ⟨-, -, hres⟩ | ⟨-, hzombie, -⟩
      · cases hwait.symm.trans hres
      · cases hwait.symm.trans hres
      · exact (h.supplied hsupply objects).waitFinish huser.1 hzombie hcall hleft
  | @waited s' p childPid status frames objects res hlive hstate hwaits hassert hsupply hcall hleft =>
      exact (h.supplied hsupply objects).waitFinish hlive hassert hcall hleft

/-- Where the frames are apart, user programs are isolated. -/
theorem FramesApart.isolated {l : LinkedImage} {s : ForkState} {own : ℕ → List ℕ} (h : FramesApart l s own) : UserIsolated s where
  areas i hi addr tr haddr hwalk huser := by
    obtain ⟨pt, claimed, hspace⟩ := (h.task i hi).space
    rcases hspace.walk_cases haddr hwalk with ⟨hno, -⟩ | ⟨hrights, hlo, hhi, -⟩ | ⟨-, hcov, -⟩
    · rw [huser] at hno
      cases hno
    · exact Or.inl ⟨hlo, hhi, by rw [hrights]⟩
    · exact Or.inr hcov
  kernel i hi addr tr hlo hhi hwalk := by
    obtain ⟨pt, claimed, hspace⟩ := (h.task i hi).space
    unfold kernelHigherHalfStart at hlo
    rcases hspace.walk_cases (Or.inr (by omega)) hwalk with ⟨hno, -⟩ | ⟨-, -, hlow, -⟩ | ⟨-, hcov, -⟩
    · exact hno
    · unfold pageSize at hlow
      omega
    · rw [stackArea_covers] at hcov
      omega
  others i hi addr tr haddr hwalk huser hwrite j hj hij addr' tr' haddr' hwalk' huser' heq := by
    obtain ⟨pt, claimed, hspace⟩ := (h.task i hi).space
    obtain ⟨pt', claimed', hspace'⟩ := (h.task j hj).space
    obtain ⟨-, hmem, -⟩ := hspace.writable haddr hwalk huser hwrite
    rcases hspace'.walk_cases haddr' hwalk' with ⟨hno, -⟩ | ⟨-, -, -, hframe⟩ | ⟨-, -, -, hmem', -⟩
    · rw [huser'] at hno
      cases hno
    · exact hspace.code.1 (hframe ▸ heq ▸ hmem)
    · exact h.apart j i hj hi hij _ (List.mem_cons_of_mem _ hmem') (heq ▸ List.mem_cons_of_mem _ hmem)
  notKernel i hi addr tr haddr hwalk huser hwrite := by
    obtain ⟨pt, claimed, hspace⟩ := (h.task i hi).space
    obtain ⟨-, hmem, htable⟩ := hspace.writable haddr hwalk huser hwrite
    have hheld : tr.frame ∈ s.held own i := List.mem_cons_of_mem _ hmem
    refine ⟨h.free i hi _ hheld, fun j hj => ⟨fun heq => ?_, fun depth hdepth => ?_⟩⟩
    · by_cases hij : j = i
      · subst hij
        exact (h.task j hj).kstack.2 (heq ▸ hmem)
      · exact h.apart j i hj hi hij _ List.mem_cons_self (heq ▸ hheld)
    · obtain ⟨pt', claimed', hspace'⟩ := (h.task j hj).space
      by_cases hij : j = i
      · subst hij
        obtain ⟨q, r, hq, -⟩ := hdepth.exists_path hspace.inv.valid.wf hspace.inv.valid.rep
        exact htable q _ r hq rfl
      · exact h.apart j i hj hi hij _ (List.mem_cons_of_mem _ (hspace'.isTable_mem hdepth)) hheld

/-- The machine before the first step: there is no task, nobody allocates, and what is free are
pages. -/
structure Booted (s : UserSystem) : Prop where
  tasks : ∀ i, ¬s.Live i
  idle : s.kernel.frames = []
  freed : ∀ g ∈ s.kernel.freed, pageSize ∣ g

theorem Booted.apart {l : LinkedImage} {s : UserSystem} (h : Booted s) : FramesApart l s.toForkState fun _ => [] where
  always := by simp [h.idle]
  fresh := by simp [h.idle, FreshFrames]
  code := by simp [h.idle]
  task i hi := absurd hi (h.tasks i)
  apart i _ hi := absurd hi (h.tasks i)
  spare i hi := absurd hi (h.tasks i)
  free i hi := absurd hi (h.tasks i)
  freed := h.freed

/-- In every run the user programs are isolated from one another and from the kernel. -/
theorem user_isolation {l : LinkedImage} {s0 s : UserSystem} {labels : List UserLabel} (hboot : Booted s0)
    (hrun : Run (UserStep l) s0 labels s) : UserIsolated s.toForkState := by
  obtain ⟨own, h⟩ := hrun.invariant (fun s => ∃ own, FramesApart l s.toForkState own) ⟨_, hboot.apart⟩
    fun _ _ _ hapart hstep => hstep.apart hapart
  exact h.isolated

/-! ## Calls that succeed -/

namespace FramesApart

variable {l : LinkedImage} {s : ForkState} {own : ℕ → List ℕ} (h : FramesApart l s own)

include h

/-- The answers that are left may be used by the next call. -/
theorem rest : Supplied l s s.kernel.frames where
  always := h.always
  fresh := h.fresh
  code := h.code
  spaces i hi := by
    obtain ⟨pt, claimed, hspace⟩ := (h.task i hi).space
    exact hspace.unusedFrames
  kstacks i hi := h.spare i hi _ List.mem_cons_self

/-- A fault in the area of the stack is handled. -/
theorem fault_of_plenty {p addr n : ℕ} (hp : s.Live p) (haddr : stackArea.Covers addr) (hunmapped : s.walk p addr = none)
    (hplenty : Plenty (n + 4) s.kernel.frames) :
    ∃ k, vmemHandlePf (s.tasks p).vmem addr s.kernel = .ok (true, k) ∧ Plenty n k.frames := by
  have hok := h.task p hp
  obtain ⟨pt, claimed, hspace⟩ := hok.space
  rw [stackArea_covers] at haddr
  have hend : (stackArea.start + stackArea.size * pageSize) % 2 ^ 64 = 0x70004000 := by decide
  have harea : vmemIsMapped (s.tasks p).vmem addr = some stackArea := by
    rw [vmemIsMapped, hok.areas, List.find?_cons_of_pos]
    exact decide_eq_true ⟨haddr.1, hend ▸ haddr.2⟩
  exact hspace.inv.fault_plenty (Or.inl (by omega)) hunmapped harea hplenty

/-- With a free entry and enough memory a fork succeeds. -/
theorem fork_of_plenty {p : ℕ} (hp : s.Live p) (back : BitVec 64) (hfree : ∃ i, FreeEntry s.tasks i)
    (hobjects : s.kernel.objects = [true, true]) (hplenty : Plenty (2 ^ 30) s.kernel.frames) :
    ∃ (c : ℕ) (s' : ForkState), forkCall back p s = .returned c s' ∧ c ≠ p ∧ s'.Live p ∧ s'.Live c := by
  have hok := h.task p hp
  obtain ⟨pt, claimed, hspace⟩ := hok.space
  obtain ⟨c, tasks, halloc⟩ : ∃ c tasks, schedAllocateTask s.tasks = some (c, tasks) := by
    cases halloc : schedAllocateTask s.tasks with
    | none => exact absurd hfree ((schedAllocateTask_eq_none_iff s.tasks).mp halloc)
    | some found => exact ⟨found.1, found.2, rfl⟩
  obtain ⟨-, -, hstate, rfl⟩ := schedAllocateTask_spec halloc
  have hne : p ≠ c := by
    rintro rfl
    exact hok.state.1 hstate
  have hcost : (taskPaths.filter ([] <:+ ·)).card ≤ 5 := (Finset.card_filter_le _ _).trans card_taskPaths_le
  obtain ⟨vm, k, hclone, hleft⟩ := vmemClone_plenty hspace.inv hspace.cost (n := 1)
    (show s.kernel.objects = List.replicate ((s.tasks p).vmem.areas.length + 1) true ++ [] by rw [hok.areas, hobjects]; rfl)
    (hplenty.mono (by rw [if_pos (by decide), List.length_nil]; omega))
  obtain ⟨page, rest, hpage, -⟩ := hleft.cons
  obtain ⟨own', pt', claimed', hcopy, -⟩ := hspace.clone hclone
  have hzero : page ≠ 0 := (hcopy.inv.valid.freshFrames.2 page (by rw [hpage]; exact List.mem_cons_self)).ne_zero
  obtain ⟨th, regs, k', hthread⟩ : ∃ th regs k', archThreadCloneCurrent (s.threads p) (s.threads c) back k =
      (0, th, regs, k') := by
    simp only [archThreadCloneCurrent, allocateKstack, frameAlloc, hpage, if_neg hzero]
    exact ⟨_, _, _, rfl⟩
  have hvmem : ((s.tasks.modify c fun t => { t with pid := c }) p).vmem = (s.tasks p).vmem := by
    rw [TaskTable.modify_of_ne _ _ hne]
  refine ⟨c, _, forkCall_of_copies halloc (hvmem ▸ hclone) hthread, Ne.symm hne, ?_, ?_⟩
  · rw [ForkState.live_mk, TaskTable.modify_of_ne _ _ hne, TaskTable.modify_of_ne _ _ hne, TaskTable.modify_of_ne _ _ hne]
    exact hp
  · rw [ForkState.live_mk, TaskTable.modify_self]

end FramesApart

/-- With enough memory `setup_init_task` makes a task, which has no page in its stack yet. -/
theorem setupInitTask_of_plenty {l : LinkedImage} {s : ForkState} {c f n : ℕ} {tasks : TaskTable} {frames : List (Option ℕ)}
    {objects : List Bool} (halloc : schedAllocateTask s.tasks = some (c, tasks)) (hfresh : FreshFrames s.kernel.frames)
    (hcode : some (physToVirt l.physStartUser) ∉ s.kernel.frames) (hframes : s.kernel.frames = some f :: frames)
    (hplenty : Plenty (3 * (setupCalls l.image l.physStartUser).length + (n + 1)) frames)
    (hobjects : s.kernel.objects = true :: true :: objects) :
    ∃ s', setupInitTask l s = .returned 0 s' ∧ s'.Live c ∧ (s'.tasks c).state = .runnable ∧ (s'.tasks c).vmem.pml4 = f ∧
      Plenty n s'.kernel.frames ∧ (∀ i, i ≠ c → s'.tasks i = s.tasks i) ∧
      ∀ addr, stackArea.Covers addr → s'.walk c addr = none := by
  have hf : IsFrame f := hfresh.2 f (by rw [hframes]; exact List.mem_cons_self)
  obtain ⟨k, hinit, hkframes, hkobjects⟩ := vmemInit_of_available hf hframes hobjects
  have hvalid := (vmemInit_spec hfresh hinit).1
  have huser : pageSize ∣ l.physStartUser ∧ l.physStartUser < 2 ^ 48 := ⟨l.user_dvd, l.user_lt⟩
  obtain ⟨k1, hsetup, hrun, hleft, hobj⟩ := setupVmem_run huser hvalid (hkframes ▸ hplenty)
  obtain ⟨own, pt, claimed, hspace, htakes⟩ := TaskSpace.setup hfresh hcode hinit hsetup
  obtain ⟨g, rest, hrest, hmore⟩ := hleft.cons
  have hne : g ≠ 0 := (hfresh.2 g (htakes.frames.subset (by rw [hrest]; exact List.mem_cons_self))).ne_zero
  have harea : vmemAllocPages ⟨[], f⟩ 0x70000000 4 (vmemUser ||| vmemWrite) k1 =
      .ok (0, ⟨[stackArea], f⟩, { k1 with objects := objects }) := by
    simp only [vmemAllocPages, objectAlloc, hobj, hkobjects]
    rfl
  obtain ⟨th, k3, hthread⟩ : ∃ th k3, archThreadNew (s.threads c) l.userProgram l.popAndIret { k1 with objects := objects } =
      (0, th, k3) := by
    simp only [archThreadNew, allocateKstack, frameAlloc, hrest, if_neg hne]
    exact ⟨_, _, rfl⟩
  obtain ⟨page, hstack⟩ := archThreadNew_stack hthread (le_refl 0)
  have hspace' := hspace.newStack (k := k3) ⟨hstack.kstackTop, hstack.frames, hstack.freed, hstack.mem⟩
  have hcall : setupInitTask l s = .returned 0 ⟨k3, (((tasks.modify c fun t => { t with vmem := ⟨[], f⟩ }).modify c
      fun t => { t with vmem := ⟨[stackArea], f⟩ }).modify c fun t => { t with state := .runnable }).modify c
      fun t => { t with vmemLive := true, kstackLive := true }, Function.update s.threads c th⟩ := by
    unfold setupInitTask
    simp only [halloc, hinit, hsetup, harea, hthread]
    rfl
  refine ⟨_, hcall, by rw [ForkState.live_mk, TaskTable.modify_self], by simp, by simp, ?_, fun i hi => ?_, fun addr haddr => ?_⟩
  · have hk3 : k3.frames = rest := (List.cons.inj (hstack.frames.symm.trans hrest)).2
    exact hk3 ▸ hmore
  · obtain ⟨-, -, -, rfl⟩ := schedAllocateTask_spec halloc
    simp [TaskTable.modify_of_ne _ _ hi]
  · rw [stackArea_covers] at haddr
    have hcan : Canonical addr := Or.inl (by omega)
    have hdirect : addr < directMapStart := by
      unfold directMapStart
      omega
    have hsections : addr < kernelSectionsStart := by
      unfold kernelSectionsStart
      omega
    have hcodePage : 0x10000 + pageSize ≤ addr := by
      unfold pageSize
      omega
    have hnone := setup_walk_outside huser hvalid hrun hcan (Or.inl hdirect) (Or.inl hsections) (Or.inr hcodePage)
    have hnone' := hspace.unmapped hspace'.1 hnone
    simpa [ForkState.walk] using hnone'

/-- A kernel of one page, with the user code at `0x3000`. -/
def linkedOnePage : LinkedImage := ⟨onePageImage, 0x3000, 0x10000, 0xffffffffc0001000, by decide, by decide⟩

/-- Nothing has happened yet. -/
def bootSystem : UserSystem := ⟨⟨kernelWith [], fun _ => Task.zero, fun _ => ⟨0, 0⟩⟩, fun _ => none⟩

theorem bootSystem_booted : Booted bootSystem := ⟨fun _ hlive => Bool.noConfusion hlive, rfl, fun _ hg => absurd hg List.not_mem_nil⟩

theorem schedAllocateTask_boot :
    schedAllocateTask bootSystem.tasks = some (1, bootSystem.tasks.modify 1 fun t => { t with pid := 1 }) := rfl

/-- The first task, with memory for what follows. -/
theorem init_step {frames : List (Option ℕ)} (hfresh : FreshFrames frames) (halways : none ∉ frames)
    (hcode : some (physToVirt linkedOnePage.physStartUser) ∉ frames) (hplenty : Plenty (2 ^ 30 + 2 ^ 29 + 1) frames) :
    ∃ s, UserStep linkedOnePage bootSystem .setup s ∧ s.InUser 1 ∧ FreeEntry s.tasks 2 ∧
      Plenty (2 ^ 30 + 4) s.kernel.frames ∧ ∀ addr, stackArea.Covers addr → s.walk 1 addr = none := by
  obtain ⟨f, rest, hframes, hrest⟩ := hplenty.cons
  have hlen : 3 * (setupCalls linkedOnePage.image linkedOnePage.physStartUser).length + (2 ^ 30 + 4 + 1) ≤ 2 ^ 30 + 2 ^ 29 := by
    rw [setupCalls_length]
    decide
  obtain ⟨s', hcall, hlive, hstate, -, hleft, hothers, hnone⟩ := setupInitTask_of_plenty
    (s := bootSystem.supply frames [true, true]) (n := 2 ^ 30 + 4) schedAllocateTask_boot hfresh hcode hframes
    (hrest.mono hlen) rfl
  have hsupply : Supplied linkedOnePage bootSystem.toForkState frames :=
    ⟨halways, hfresh, hcode, fun i hi => absurd hi (bootSystem_booted.tasks i), fun i hi => absurd hi (bootSystem_booted.tasks i)⟩
  refine ⟨{ bootSystem with toForkState := s' }, .setup hsupply hcall fun _ => le_refl 0, ⟨hlive, hstate, rfl⟩, ?_, hleft, hnone⟩
  exact ⟨by decide, by decide, by rw [hothers 2 (by decide)]; rfl⟩

/-- The first task makes a page of its stack and forks; both tasks are isolated. -/
theorem user_isolation_forked : ∃ (c : ℕ) (s : UserSystem),
    Run (UserStep linkedOnePage) bootSystem [.setup, .fault 1 0x70000000 true, .fork 1] s ∧ c ≠ 1 ∧ s.Live 1 ∧ s.Live c ∧
    UserIsolated s.toForkState := by
  obtain ⟨s1, hsetup, huser, hfree, hplenty, hnone⟩ := init_step (@manyFrames_fresh (2 ^ 31) (by decide))
    (fun hmem => by simp [manyFrames] at hmem) (not_mem_manyFrames (by decide)) ((manyFrames_plenty _).mono (by decide))
  obtain ⟨own1, h1⟩ := hsetup.apart ⟨_, bootSystem_booted.apart⟩
  have hcov : stackArea.Covers 0x70000000 := stackArea_covers.mpr (by decide)
  obtain ⟨k, hcall, hleft⟩ := (h1.supplied h1.rest [true, true]).fault_of_plenty huser.1 hcov (hnone _ hcov) hplenty
  have hfault : UserStep linkedOnePage s1 (.fault 1 0x70000000 true) { s1 with kernel := k } := by
    refine .fault huser (Or.inl (by decide)) ?_ h1.rest hcall ?_
    · rintro ⟨tr, htr, -⟩
      rw [hnone _ hcov] at htr
      cases htr
    · intro hnil
      obtain ⟨f, hf⟩ := hleft 0 (by decide)
      rw [hnil] at hf
      cases hf
  obtain ⟨own2, h2⟩ := hfault.apart ⟨_, h1⟩
  obtain ⟨c, s3, hcall3, hne, hlive1, hlivec⟩ := (h2.supplied h2.rest [true, true]).fork_of_plenty huser.1
    linkedOnePage.popAndIret ⟨2, hfree⟩ rfl hleft
  have hfork : UserStep linkedOnePage { s1 with kernel := k } (.fork 1) { s1 with toForkState := s3 } :=
    .fork huser h2.rest hcall3 (Int.natCast_nonneg c)
  have hrun : Run (UserStep linkedOnePage) bootSystem [.setup, .fault 1 0x70000000 true, .fork 1] { s1 with toForkState := s3 } :=
    ((Run.single _ hsetup).snoc hfault).snoc hfork
  exact ⟨c, _, hrun, hne, hlive1, hlivec, user_isolation bootSystem_booted hrun⟩

end HeavenOS

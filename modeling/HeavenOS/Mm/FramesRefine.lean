/-
# The buddy zones implement `frame_alloc`

The address spaces are built over a `frame_alloc` whose answers are a list that is given. Here
the answers come from the zones. A client that allocates frames, gives them back, and writes to
the frames that it has and to memory outside the zones cannot tell the two apart: what it reads
is the same, the frames that are free are the same, and a frame is refused exactly when none is
free.
-/

import HeavenOS.Mm.FramesAlloc
import HeavenOS.Mm.VmemMap

namespace HeavenOS

open Lib Lib.Ring

/-! ## The two machines -/

/-- `frame_alloc` -/
def zonesFrameAlloc (zones : List AllocatorZone) (m : Mem) : Except Panic (ℕ × Mem) := framesAlloc zones 1 m

/-- `frame_free` -/
def zonesFrameFree (zones : List AllocatorZone) (addr : ℕ) (m : Mem) : Except Panic Mem := framesFree zones addr 1 m

/-- What a client of the frame allocator does. The label of an allocation says what it
returned. -/
inductive FrameLabel
  | alloc (f : ℕ)
  | free (f : ℕ)
  | store (a : ℕ) (b : BitVec 8)

/-- Memory, and the frames that the client has. -/
structure ZonesState where
  mem : Mem
  held : List ℕ

/-- Memory that the client may write to and whose contents it can rely on. -/
def ZonesState.Theirs (zones : List AllocatorZone) (s : ZonesState) (a : ℕ) : Prop :=
  (∃ f ∈ s.held, InFrame f a) ∨ ∀ zone ∈ zones, ¬zone.Uses a

/-- The client over the zones. -/
inductive ZonesStep (zones : List AllocatorZone) : ZonesState → FrameLabel → ZonesState → Prop
  | alloc {s : ZonesState} {f : ℕ} {m : Mem} (hcall : zonesFrameAlloc zones s.mem = .ok (f, m)) :
      ZonesStep zones s (.alloc f) ⟨m, if f = 0 then s.held else f :: s.held⟩
  | free {s : ZonesState} {f : ℕ} {m : Mem} (hheld : f ∈ s.held) (hcall : zonesFrameFree zones f s.mem = .ok m) :
      ZonesStep zones s (.free f) ⟨m, s.held.erase f⟩
  | store {s : ZonesState} {a : ℕ} {b : BitVec 8} (htheirs : s.Theirs zones a) :
      ZonesStep zones s (.store a b) ⟨s.mem.storeByte a b, s.held⟩

/-- The client over the list of answers. -/
inductive KernelStep : Kernel → FrameLabel → Kernel → Prop
  | alloc (k : Kernel) : KernelStep k (.alloc (frameAlloc k).1) (frameAlloc k).2
  | free (k : Kernel) (f : ℕ) : KernelStep k (.free f) (frameFree k f)
  | store (k : Kernel) (a : ℕ) (b : BitVec 8) : KernelStep k (.store a b) { k with mem := k.mem.storeByte a b }

/-- The answers of `frame_alloc` in a run. -/
def FrameLabel.answers (labels : List FrameLabel) : List (Option ℕ) :=
  labels.filterMap fun
    | .alloc f => some (if f = 0 then none else some f)
    | _ => none

/-- A page of a zone that the client does not have. -/
structure FreePage (zones : List AllocatorZone) (held : List ℕ) (f : ℕ) : Prop where
  dvd : pageSize ∣ f
  zone : ∃ zone ∈ zones, zone.startAddr ≤ f ∧ f < zone.endAddr
  notHeld : f ∉ held

/-- The client cannot tell the two machines apart. -/
structure Implements (zones : List AllocatorZone) (s : ZonesState) (k : Kernel) : Prop where
  free : ∀ f, f ∈ k.freed ↔ FreePage zones s.held f
  mem : ∀ a, s.Theirs zones a → k.mem a = s.mem a

/-! ## Pages of the zones -/

theorem orderOf_one : orderOf 1 = 0 := rfl

theorem blockSize_zero : blockSize 0 = pageSize := rfl

/-- The invariant of the zones and of the frames handed out. -/
structure HeldInv (zones : List AllocatorZone) (s : ZonesState) (live : Multiset Allocation) (free : ℕ → ℕ → List ℕ) : Prop
    extends FramesInv zones (fun _ => 0) ⟨s.mem, live⟩ free where
  held : live.map Allocation.addr = s.held
  single : ∀ a ∈ live, a.n = 1
  nodup : s.held.Nodup

section Pages

variable {zones : List AllocatorZone} {s : ZonesState} {live : Multiset Allocation} {free : ℕ → ℕ → List ℕ}
  (h : HeldInv zones s live free)

include h

/-- The frames handed out are the live blocks. -/
theorem HeldInv.mem_held {f : ℕ} : f ∈ s.held ↔ ∃ i, (⟨i, f, 1⟩ : Allocation) ∈ live := by
  rw [← Multiset.mem_coe, ← h.held, Multiset.mem_map]
  constructor
  · rintro ⟨⟨i, g, n⟩, ha, rfl⟩
    obtain rfl : n = 1 := h.single _ ha
    exact ⟨i, ha⟩
  · rintro ⟨i, ha⟩
    exact ⟨_, ha, rfl⟩

theorem HeldInv.mem_liveIn {i : ℕ} {b : Block} :
    b ∈ liveIn (fun _ => 0) live i ↔ b.order = 0 ∧ (⟨i, b.addr, 1⟩ : Allocation) ∈ live := by
  simp only [liveIn, zero_add, Multiset.mem_map, Multiset.mem_filter]
  constructor
  · rintro ⟨⟨j, f, n⟩, ⟨ha, rfl⟩, rfl⟩
    obtain rfl : n = 1 := h.single _ ha
    exact ⟨rfl, ha⟩
  · rintro ⟨horder, ha⟩
    obtain ⟨addr, order⟩ := b
    obtain rfl : order = 0 := horder
    exact ⟨_, ⟨ha, rfl⟩, rfl⟩

/-- Where a frame that was handed out is. -/
theorem HeldInv.page_of_live {i f : ℕ} (ha : (⟨i, f, 1⟩ : Allocation) ∈ live) :
    ∃ zone, zones[i]? = some zone ∧ pageSize ∣ f ∧ zone.startAddr ≤ f ∧ f + pageSize ≤ zone.endAddr := by
  obtain ⟨hi, -⟩ := h.bounds _ ha
  have hzone : zones[i]? = some zones[i] := List.getElem?_eq_getElem hi
  have hmem : (⟨f, 0⟩ : Block) ∈ liveIn (fun _ => 0) live i := h.mem_liveIn.mpr ⟨rfl, ha⟩
  have hpieces := (h.zone i _ hzone).pieces
  obtain ⟨hlo, hhi⟩ := hpieces.live_inside hmem
  exact ⟨_, hzone, (hpieces.live_aligned hmem).2, hlo, hhi⟩

theorem HeldInv.page {f : ℕ} (hf : f ∈ s.held) :
    pageSize ∣ f ∧ ∃ zone ∈ zones, zone.startAddr ≤ f ∧ f + pageSize ≤ zone.endAddr := by
  obtain ⟨i, ha⟩ := h.mem_held.mp hf
  obtain ⟨zone, hzone, hdvd, hlo, hhi⟩ := h.page_of_live ha
  exact ⟨hdvd, zone, List.mem_of_getElem? hzone, hlo, hhi⟩

/-- A page of a zone is all inside of it. -/
theorem HeldInv.freePage_stop {f : ℕ} (hf : FreePage zones s.held f) :
    ∃ (i : ℕ) (zone : AllocatorZone), zones[i]? = some zone ∧ zone.startAddr ≤ f ∧ f + pageSize ≤ zone.endAddr := by
  obtain ⟨zone, hzone, hlo, hhi⟩ := hf.zone
  obtain ⟨i, hi⟩ := List.getElem?_of_mem hzone
  have hend : pageSize ∣ zone.endAddr :=
    (Dvd.intro (2 ^ maxOrder) rfl : pageSize ∣ blockSize maxOrder).trans (h.zone i zone hi).layout.end_dvd
  exact ⟨i, zone, hi, hlo, add_le_of_dvd_of_lt hf.dvd hend hhi⟩

/-- Nothing that the client has or that is outside the zones is in a free page. -/
theorem HeldInv.theirs_not_free {a f : ℕ} (ha : s.Theirs zones a) (hf : FreePage zones s.held f) : ¬InFrame f a := by
  rintro hin
  rcases ha with ⟨g, hg, hin'⟩ | hout
  · exact hf.notHeld (inFrame_unique hf.dvd (h.page hg).1 hin hin' ▸ hg)
  · obtain ⟨i, zone, hi, hlo, hhi⟩ := h.freePage_stop hf
    refine hout zone (List.mem_of_getElem? hi) (Or.inl ?_)
    unfold InFrame at hin
    omega

/-- There is a free page exactly if some list has a block. -/
theorem HeldInv.exists_free_block {f : ℕ} (hf : FreePage zones s.held f) :
    ∃ (i : ℕ) (zone : AllocatorZone) (k : ℕ), zones[i]? = some zone ∧ k ≤ maxOrder ∧ free i k ≠ [] := by
  obtain ⟨i, zone, hi, hlo, hhi⟩ := h.freePage_stop hf
  have hpage : pageSize = 4096 := rfl
  obtain ⟨k, hk, a, ha, -⟩ := (h.zone i zone hi).pieces.exists_free hlo (by omega) fun b hb hin => by
    obtain ⟨horder, hlive⟩ := h.mem_liveIn.mp hb
    obtain ⟨-, -, hdvd, -⟩ := h.page_of_live hlive
    rw [Block.stop, horder, blockSize_zero] at hin
    have heq : f = b.addr := inFrame_unique hf.dvd hdvd ⟨le_refl f, by omega⟩ hin
    exact hf.notHeld (h.mem_held.mpr ⟨i, heq ▸ hlive⟩)
  exact ⟨i, zone, k, hi, hk, List.ne_nil_of_mem ha⟩

/-! ## Steps -/

/-- `frame_alloc` returns. What it returns was free and is zero, and where nothing is free it
returns `NULL`. -/
theorem HeldInv.alloc : ∃ f m, zonesFrameAlloc zones s.mem = .ok (f, m) ∧
    (f = 0 → m = s.mem ∧ ∀ g, ¬FreePage zones s.held g) ∧
    (f ≠ 0 → FreePage zones s.held f ∧ Zeroed m f 0 ∧ ∀ a, s.Theirs zones a → m a = s.mem a) ∧
    ∃ live' free', HeldInv zones ⟨m, if f = 0 then s.held else f :: s.held⟩ live' free' := by
  obtain ⟨f, t, hcall, hnull, hsome, free', hspec⟩ := framesCall_alloc_spec h.toFramesInv (n := 1) ⟨le_refl 1, by decide⟩
  have halloc := framesCall_alloc_eq zones ⟨s.mem, live⟩ 1
  rw [hcall] at halloc
  refine ⟨f, t.mem, halloc.symm, fun hzero => ?_, ?_⟩
  · obtain ⟨rfl, hempty⟩ := hnull hzero
    refine ⟨rfl, fun g hg => ?_⟩
    obtain ⟨i, zone, k, hi, hk, hne⟩ := h.exists_free_block hg
    exact hne (hempty i zone hi k (Nat.zero_le k) hk)
  · by_cases hzero : f = 0
    · obtain ⟨rfl, -⟩ := hnull hzero
      rw [if_pos hzero]
      exact ⟨fun hne => absurd hzero hne, live, free, h⟩
    · obtain ⟨hzeroed, i, zone, hi, hlive⟩ := hsome hzero
      have hinv := hspec.inv
      have hnewIn : (⟨f, 0⟩ : Block) ∈ liveIn (fun _ => 0) t.live i := by
        rw [hlive, liveIn_cons, Function.update_self]
        exact Multiset.mem_cons_self _ _
      have hpieces := (hinv.zone i zone hi).pieces
      obtain ⟨hlo, hhi⟩ := hpieces.live_inside hnewIn
      simp only [Block.stop, blockSize_zero] at hlo hhi
      have hpage : pageSize = 4096 := rfl
      -- no live block has the page: not in this zone, and the others are elsewhere
      have hnew : f ∉ s.held := by
        intro hheld
        obtain ⟨j, hj⟩ := h.mem_held.mp hheld
        obtain ⟨zone', hzone', -, hlo', hhi'⟩ := h.page_of_live hj
        by_cases hij : j = i
        · subst hij
          rw [hlive, liveIn_cons, Function.update_self] at hpieces
          have hdis := hpieces.live_disjoint (c := ⟨f, 0⟩) (h.mem_liveIn.mpr ⟨rfl, hj⟩)
          simp only [Allocation.block, Block.stop, orderOf_one, blockSize_zero] at hdis
          omega
        · exact h.separate j i zone' zone hzone' hi hij f (Or.inl ⟨hlo', by omega⟩) (Or.inl ⟨hlo, by omega⟩)
      have hfree : FreePage zones s.held f :=
        ⟨(hpieces.live_aligned hnewIn).2, ⟨zone, List.mem_of_getElem? hi, hlo, by omega⟩, hnew⟩
      rw [if_neg hzero]
      refine ⟨fun _ => ⟨hfree, hzeroed, fun a ha => ?_⟩, t.live, free', hinv, ?_, fun a ha => ?_, List.nodup_cons.mpr ⟨hnew, h.nodup⟩⟩
      · rcases ha with ⟨g, hg, hin⟩ | hout
        · obtain ⟨j, hj⟩ := h.mem_held.mp hg
          have hmem : (⟨g, 0⟩ : Block) ∈ liveIn (fun _ => 0) live j := h.mem_liveIn.mpr ⟨rfl, hj⟩
          refine hspec.live_frame j (h.bounds _ hj).1 ⟨g, 0⟩ hmem ?_ a hin.1 hin.2
          rw [hlive, liveIn_cons]
          by_cases hji : j = i
          · subst hji
            rw [Function.update_self]
            exact Multiset.mem_cons_of_mem hmem
          · rwa [Function.update_of_ne hji]
        · exact hspec.outside_frame a hout
      · rw [hlive, Multiset.map_cons, h.held]
        rfl
      · rw [hlive] at ha
        rcases Multiset.mem_cons.mp ha with rfl | ha
        · rfl
        · exact h.single a ha

/-- While a page is free, a frame is handed out. -/
theorem HeldInv.exists_alloc {page : ℕ} (hpage : FreePage zones s.held page) : ∃ f m live' free', f ≠ 0 ∧
    ZonesStep zones s (.alloc f) ⟨m, f :: s.held⟩ ∧ HeldInv zones ⟨m, f :: s.held⟩ live' free' := by
  obtain ⟨f, m, hcall, hnull, -, live', free', hinv⟩ := h.alloc
  have hne : f ≠ 0 := fun hzero => (hnull hzero).2 page hpage
  have hstep := ZonesStep.alloc hcall
  rw [if_neg hne] at hinv hstep
  exact ⟨f, m, live', free', hne, hstep, hinv⟩

/-- `frame_free` of a frame that was handed out returns, and leaves the rest alone. -/
theorem HeldInv.dealloc {f : ℕ} (hf : f ∈ s.held) : ∃ m, zonesFrameFree zones f s.mem = .ok m ∧
    (∀ a, ZonesState.Theirs zones ⟨m, s.held.erase f⟩ a → m a = s.mem a) ∧
    ∃ live' free', HeldInv zones ⟨m, s.held.erase f⟩ live' free' := by
  obtain ⟨i, ha⟩ := h.mem_held.mp hf
  obtain ⟨zone, t, -, -, hcall, free', hspec⟩ := framesCall_free_spec h.toFramesInv ha
  obtain ⟨m, hfree, hret⟩ := bind_eq_ok.mp hcall
  obtain ⟨-, rfl⟩ := Prod.mk.inj (Except.ok.inj hret)
  have hinv : HeldInv zones ⟨m, s.held.erase f⟩ (live.erase ⟨i, f, 1⟩) free' := by
    refine ⟨hspec.inv, ?_, fun a ha => h.single a (Multiset.mem_of_mem_erase ha), h.nodup.erase f⟩
    rw [Multiset.map_erase_of_mem _ _ ha, h.held, Multiset.coe_erase]
  refine ⟨m, hfree, fun a htheirs => ?_, _, free', hinv⟩
  rcases htheirs with ⟨g, hg, hin⟩ | hout
  · obtain ⟨j, hj⟩ := hinv.mem_held.mp hg
    exact hspec.live_frame j (hinv.bounds _ hj).1 ⟨g, 0⟩ (h.mem_liveIn.mpr ⟨rfl, Multiset.mem_of_mem_erase hj⟩)
      (hinv.mem_liveIn.mpr ⟨rfl, hj⟩) a hin.1 hin.2
  · exact hspec.outside_frame a hout

/-- What the client writes is no part of the zones' own data. -/
theorem HeldInv.store {a : ℕ} (b : BitVec 8) (ha : s.Theirs zones a) :
    HeldInv zones ⟨s.mem.storeByte a b, s.held⟩ live free := by
  refine ⟨⟨⟨h.separate, fun i zone hi => ?_⟩, h.bounds⟩, h.held, h.single, h.nodup⟩
  have hzone := h.zone i zone hi
  have hother (hnot : ¬zone.Uses a) : ZoneInv zone (s.mem.storeByte a b) (free i) (liveIn (fun _ => 0) live i) :=
    hzone.congr fun x hx => Mem.storeByte_of_ne _ b fun heq => hnot (heq ▸ hx)
  rcases ha with ⟨f, hf, hin⟩ | hout
  · obtain ⟨j, hj⟩ := h.mem_held.mp hf
    by_cases hij : i = j
    · subst hij
      refine hzone.of_live_write (h.mem_liveIn.mpr ⟨rfl, hj⟩ : (⟨f, 0⟩ : Block) ∈ _) fun x hx => Mem.storeByte_of_ne _ b ?_
      simp only [Block.stop, blockSize_zero] at hx
      unfold InFrame at hin
      omega
    · obtain ⟨zone', hzone', -, hlo, hhi⟩ := h.page_of_live hj
      refine hother (h.separate j i zone' zone hzone' hi (Ne.symm hij) a (Or.inl ?_))
      unfold InFrame at hin
      omega
  · exact hother (hout zone (List.mem_of_getElem? hi))

end Pages

/-! ## Simulation -/

theorem FrameLabel.answers_append (labels labels' : List FrameLabel) :
    answers (labels ++ labels') = answers labels ++ answers labels' := List.filterMap_append

/-- A page is handed out. -/
theorem freePage_cons {zones : List AllocatorZone} {held : List ℕ} {f g : ℕ} :
    FreePage zones (f :: held) g ↔ FreePage zones held g ∧ g ≠ f := by
  constructor
  · rintro ⟨hdvd, hzone, hnot⟩
    exact ⟨⟨hdvd, hzone, fun hg => hnot (List.mem_cons_of_mem _ hg)⟩, fun heq => hnot (heq ▸ List.mem_cons_self)⟩
  · rintro ⟨⟨hdvd, hzone, hnot⟩, hne⟩
    exact ⟨hdvd, hzone, fun hg => (List.mem_cons.mp hg).elim hne hnot⟩

/-- A page is given back. -/
theorem HeldInv.freePage_erase {zones : List AllocatorZone} {s : ZonesState} {live : Multiset Allocation}
    {free : ℕ → ℕ → List ℕ} (h : HeldInv zones s live free) {f g : ℕ} (hf : f ∈ s.held) :
    FreePage zones (s.held.erase f) g ↔ g = f ∨ FreePage zones s.held g := by
  have hmem : g ∈ s.held.erase f ↔ g ≠ f ∧ g ∈ s.held := h.nodup.mem_erase_iff
  constructor
  · rintro ⟨hdvd, hzone, hnot⟩
    by_cases hgf : g = f
    · exact Or.inl hgf
    · exact Or.inr ⟨hdvd, hzone, fun hg => hnot (hmem.mpr ⟨hgf, hg⟩)⟩
  · rintro (rfl | ⟨hdvd, hzone, hnot⟩)
    · obtain ⟨hdvd, zone, hzone, hlo, hhi⟩ := h.page hf
      have hpage : pageSize = 4096 := rfl
      exact ⟨hdvd, ⟨zone, hzone, hlo, by omega⟩, fun hg => (hmem.mp hg).1 rfl⟩
    · exact ⟨hdvd, hzone, fun hg => hnot (hmem.mp hg).2⟩

section Steps

variable {zones : List AllocatorZone} {s t : ZonesState} {label : FrameLabel} {live : Multiset Allocation} {free : ℕ → ℕ → List ℕ}
  (h : HeldInv zones s live free) (hstep : ZonesStep zones s label t)

include h hstep

theorem ZonesStep.inv : ∃ live' free', HeldInv zones t live' free' := by
  cases hstep with
  | alloc hcall =>
      obtain ⟨f', m', hcall', -, -, hinv⟩ := h.alloc
      obtain ⟨rfl, rfl⟩ := Prod.mk.inj (Except.ok.inj (hcall.symm.trans hcall'))
      exact hinv
  | free hheld hcall =>
      obtain ⟨m', hcall', -, hinv⟩ := h.dealloc hheld
      obtain rfl := Except.ok.inj (hcall.symm.trans hcall')
      exact hinv
  | store htheirs => exact ⟨live, free, h.store _ htheirs⟩

/-- A step over the zones is a step over the list of answers. -/
theorem ZonesStep.simulated {k : Kernel} (himp : Implements zones s k) {rest : List (Option ℕ)}
    (hframes : k.frames = FrameLabel.answers [label] ++ rest) :
    ∃ k', KernelStep k label k' ∧ Implements zones t k' ∧ k'.frames = rest := by
  cases hstep with
  | @alloc f m hcall =>
      obtain ⟨f', m', hcall', hnull, hsome, -⟩ := h.alloc
      obtain ⟨rfl, rfl⟩ := Prod.mk.inj (Except.ok.inj (hcall.symm.trans hcall'))
      by_cases hzero : f = 0
      · obtain ⟨rfl, -⟩ := hnull hzero
        have hkframes : k.frames = none :: rest := by
          rw [hframes, hzero]
          rfl
        have hget : frameAlloc k = (0, { k with frames := rest }) := by rw [frameAlloc, hkframes]
        have hstep := KernelStep.alloc k
        rw [hget] at hstep
        rw [hzero]
        exact ⟨_, hstep, ⟨himp.free, himp.mem⟩, rfl⟩
      · obtain ⟨hfree, hzeroed, hsame⟩ := hsome hzero
        have hkframes : k.frames = some f :: rest := by
          rw [hframes]
          simp only [FrameLabel.answers, List.filterMap_cons, if_neg hzero]
          rfl
        have hget : frameAlloc k = (f, { k with
            mem := k.mem.memset f 0 pageSize, frames := rest, freed := k.freed.filter (· ≠ f) }) := by
          rw [frameAlloc, hkframes]
        have hstep := KernelStep.alloc k
        rw [hget] at hstep
        rw [if_neg hzero]
        refine ⟨_, hstep, ⟨fun g => ?_, fun a ha => ?_⟩, rfl⟩
        · rw [freePage_cons, ← himp.free]
          simp
        · show k.mem.memset f 0 pageSize a = m a
          rw [Mem.memset_apply]
          split_ifs with hin
          · exact (hzeroed a hin.1 hin.2).symm
          · -- outside of the new frame nothing is new
            have htheirs : s.Theirs zones a := by
              rcases ha with ⟨g, hg, hing⟩ | hout
              · rcases List.mem_cons.mp hg with rfl | hg
                · exact absurd hing hin
                · exact Or.inl ⟨g, hg, hing⟩
              · exact Or.inr hout
            exact (himp.mem a htheirs).trans (hsame a htheirs).symm
  | @free f m hheld hcall =>
      obtain ⟨m', hcall', hsame, hinv⟩ := h.dealloc hheld
      obtain rfl := Except.ok.inj (hcall.symm.trans hcall')
      refine ⟨frameFree k f, .free k f, ⟨fun g => ?_, fun a ha => ?_⟩, hframes⟩
      · rw [h.freePage_erase hheld, ← himp.free]
        exact List.mem_cons
      · obtain ⟨live', free', hinv⟩ := hinv
        have hout : ¬∃ g ∈ f :: k.freed, g ≤ a ∧ a < g + pageSize := by
          rintro ⟨g, hg, hin⟩
          refine hinv.theirs_not_free ha ((h.freePage_erase hheld).mpr ?_) hin
          exact (List.mem_cons.mp hg).imp_right (himp.free g).mp
        have hback : s.Theirs zones a := by
          rcases ha with ⟨g, hg, hing⟩ | houtside
          · exact Or.inl ⟨g, List.mem_of_mem_erase hg, hing⟩
          · exact Or.inr houtside
        rw [frameFree]
        simp only [if_neg hout]
        exact (himp.mem a hback).trans (hsame a ha).symm
  | @store a b htheirs =>
      refine ⟨{ k with mem := k.mem.storeByte a b }, .store k a b, ⟨himp.free, fun x hx => ?_⟩, hframes⟩
      show k.mem.storeByte a b x = s.mem.storeByte a b x
      by_cases hxa : x = a
      · rw [hxa, Mem.storeByte_self, Mem.storeByte_self]
      · rw [Mem.storeByte_of_ne _ b hxa, Mem.storeByte_of_ne _ b hxa]
        exact himp.mem x hx

/-- A frame that is handed out was free, and from then on the client has it. -/
theorem ZonesStep.handsOut {f : ℕ} (hf : some f ∈ FrameLabel.answers [label]) :
    FreePage zones s.held f ∧ t.held = f :: s.held ∧ FrameLabel.answers [label] = [some f] := by
  cases hstep with
  | @alloc g m hcall =>
      obtain ⟨g', m', hcall', -, hsome, -⟩ := h.alloc
      obtain ⟨rfl, rfl⟩ := Prod.mk.inj (Except.ok.inj (hcall.symm.trans hcall'))
      have hanswers : FrameLabel.answers [.alloc g] = [if g = 0 then none else some g] := rfl
      rw [hanswers, List.mem_singleton] at hf
      split_ifs at hf with hzero
      obtain rfl := Option.some.inj hf
      exact ⟨(hsome hzero).1, if_neg hzero, by rw [hanswers, if_neg hzero]⟩
  | free => exact absurd hf List.not_mem_nil
  | store => exact absurd hf List.not_mem_nil

end Steps

/-! ## The start -/

/-- Well-formed zones without live blocks. -/
theorem exists_heldInv {zones : List AllocatorZone} {m : Mem} (hsep : Separate zones)
    (hwf : ∀ zone ∈ zones, WellFormed zone m 0) : ∃ free, HeldInv zones ⟨m, []⟩ 0 free := by
  obtain ⟨free, hinv, -⟩ := exists_framesInv (P := fun _ _ => True) (fun _ => 0) hsep fun i zone hi => by
    obtain ⟨free, hfree⟩ := hwf zone (List.mem_of_getElem? hi)
    exact ⟨free, hfree, trivial⟩
  exact ⟨free, hinv, rfl, fun a ha => absurd ha (Multiset.notMem_zero a), List.nodup_nil⟩

/-- All pages of the zones. -/
def zonePages (zones : List AllocatorZone) : List ℕ :=
  zones.flatMap fun zone => (List.range ((zone.endAddr - zone.startAddr) / pageSize)).map fun i => zone.startAddr + pageSize * i

theorem mem_zonePages {zones : List AllocatorZone}
    (hdvd : ∀ zone ∈ zones, pageSize ∣ zone.startAddr ∧ pageSize ∣ zone.endAddr) {f : ℕ} :
    f ∈ zonePages zones ↔ FreePage zones [] f := by
  simp only [zonePages, List.mem_flatMap, List.mem_map, List.mem_range]
  constructor
  · rintro ⟨zone, hzone, i, hi, rfl⟩
    obtain ⟨hstart, -⟩ := hdvd zone hzone
    refine ⟨Nat.dvd_add hstart (Nat.dvd_mul_right _ _), ⟨zone, hzone, Nat.le_add_right _ _, ?_⟩, List.not_mem_nil⟩
    have hle := Nat.div_mul_le_self (zone.endAddr - zone.startAddr) pageSize
    unfold pageSize at *
    omega
  · rintro ⟨hf, ⟨zone, hzone, hlo, hhi⟩, -⟩
    obtain ⟨hstart, hend⟩ := hdvd zone hzone
    refine ⟨zone, hzone, (f - zone.startAddr) / pageSize, ?_, ?_⟩
    · unfold pageSize at *
      omega
    · rw [Nat.mul_div_cancel' (Nat.dvd_sub hf hstart)]
      omega

/-- To begin with all pages of the zones are free. -/
theorem implements_start {zones : List AllocatorZone} {m : Mem} (hwf : ∀ zone ∈ zones, WellFormed zone m 0) (k : Kernel)
    (frames : List (Option ℕ)) :
    Implements zones ⟨m, []⟩ { k with mem := m, frames := frames, freed := zonePages zones } := by
  refine ⟨fun f => mem_zonePages fun zone hzone => ?_, fun _ _ => rfl⟩
  obtain ⟨free, hinv⟩ := hwf zone hzone
  have hpage : pageSize ∣ blockSize maxOrder := Dvd.intro (2 ^ maxOrder) rfl
  exact ⟨hpage.trans hinv.layout.start_dvd, hpage.trans hinv.layout.end_dvd⟩

/-- A zone of one block, with its heads initialised and its bitmaps clear: the block is live. -/
theorem oneBlock_inv {zone : AllocatorZone} (hlayout : zone.Layout) (hend : zone.endAddr = zone.startAddr + blockSize maxOrder)
    (haddr : zone.addr + 288 ≤ 2 ^ 64) :
    ZoneInv zone (((List.range 11).map zone.head).foldl single fun _ => 0) (fun _ => []) {⟨zone.startAddr, maxOrder⟩} := by
  have hempty : freeBlocks (fun _ => []) = 0 := by simp [freeBlocks]
  refine ⟨⟨hlayout, fun k hk => ?_, ?_, fun x => ?_⟩, fun k hk pair hpair => ?_⟩
  · refine IsRing.foldl_single ?_ ?_ _ (List.mem_map_of_mem (List.mem_range.mpr (Nat.lt_succ_of_le hk)))
    · intro a ha
      obtain ⟨i, hi, rfl⟩ := List.mem_map.mp ha
      have hi' := List.mem_range.mp hi
      unfold AllocatorZone.head
      omega
    · rw [List.pairwise_map]
      refine List.pairwise_lt_range.imp ?_
      intro i j hij
      unfold Apart AllocatorZone.head
      omega
  · rw [hempty, zero_add]
    simp only [Multiset.mem_singleton, forall_eq]
    exact ⟨le_refl _, hlayout.start_dvd⟩
  · rw [hempty, zero_add, ← Multiset.cons_zero, cover_cons, cover_zero, zero_add, hend]
    exact if_congr Iff.rfl rfl rfl
  · have hbyte : (((List.range 11).map zone.head).foldl single fun _ => 0) (zone.bitmap k + pair / 8) = 0 := by
      refine IsRing.foldl_single_of_outside fun a ha => ?_
      obtain ⟨i, hi, rfl⟩ := List.mem_map.mp ha
      have hi' := List.mem_range.mp hi
      have happart := hlayout.bitmap_descriptor k hk
      unfold AllocatorZone.bitmapBytes at happart
      unfold AllocatorZone.head
      omega
    rw [AllocatorZone.bit, hbyte]
    simp [pairBit]

/-- A zone of one block in the direct mapping. -/
def directZone : AllocatorZone where
  addr := directMapStart + 0x1000
  bitmapPages := 1
  bitmap k := directMapStart + 0x2000 + 0x100 * k
  startAddr := directMapStart + 0x400000
  endAddr := directMapStart + 0x800000
  pagesCount := 1024

theorem directZone_layout : directZone.Layout where
  addr_ne := by decide
  start_ne := by decide
  start_dvd := by decide
  end_dvd := by decide
  start_le := by decide
  end_lt := by decide
  descriptor_outside := by decide
  bitmap_outside := by decide
  bitmap_descriptor := by decide
  bitmap_disjoint := by decide

/-- The block is on its list. -/
def directMem : Mem :=
  insertAfter (single (((List.range 11).map directZone.head).foldl single fun _ => 0) directZone.startAddr)
    (directZone.head maxOrder) directZone.startAddr

theorem directZone_wellFormed : ∀ zone ∈ [directZone], WellFormed zone directMem 0 := by
  intro zone hzone
  obtain rfl := List.mem_singleton.mp hzone
  have hinv := oneBlock_inv directZone_layout (by decide) (by decide)
  rw [← Multiset.cons_zero] at hinv
  exact ⟨_, hinv.put_top⟩

theorem directZone_freePage {held : List ℕ} {i : ℕ} (hi : i < 1024) (hnot : directZone.startAddr + pageSize * i ∉ held) :
    FreePage [directZone] held (directZone.startAddr + pageSize * i) := by
  refine ⟨Nat.dvd_add (by decide) (Nat.dvd_mul_right _ _), ⟨directZone, List.mem_singleton_self _, Nat.le_add_right _ _, ?_⟩, hnot⟩
  have hend : directZone.endAddr = directZone.startAddr + pageSize * 1024 := rfl
  rw [hend]
  exact Nat.add_lt_add_left (Nat.mul_lt_mul_of_pos_left hi (by decide)) _

/-- A frame is handed out, written to and given back; then two frames are handed out. -/
theorem directZone_run : ∃ f g g' s t, f ≠ 0 ∧ g ≠ 0 ∧ g' ≠ 0 ∧
    Run (ZonesStep [directZone]) ⟨directMem, []⟩ [.alloc f, .store f 1, .free f] s ∧ s.held = [] ∧
    Run (ZonesStep [directZone]) s [.alloc g, .alloc g'] t := by
  obtain ⟨free, h⟩ := exists_heldInv (separate_singleton directZone) directZone_wellFormed
  obtain ⟨f, m1, live1, free1, hf, hstep1, h1⟩ := h.exists_alloc (directZone_freePage (i := 0) (by decide) List.not_mem_nil)
  have hstore : ZonesStep [directZone] ⟨m1, [f]⟩ (.store f 1) ⟨m1.storeByte f 1, [f]⟩ :=
    .store (Or.inl ⟨f, List.mem_cons_self, le_refl f, Nat.lt_add_of_pos_right (by decide)⟩)
  obtain ⟨live2, free2, h2⟩ := hstore.inv h1
  obtain ⟨m3, hcall, -, live3, free3, h3⟩ := h2.dealloc List.mem_cons_self
  have hfree := ZonesStep.free (s := ⟨m1.storeByte f 1, [f]⟩) List.mem_cons_self hcall
  have hempty : [f].erase f = [] := List.erase_cons_head f []
  rw [hempty] at h3 hfree
  obtain ⟨g, m4, live4, free4, hg, hstep4, h4⟩ := h3.exists_alloc (directZone_freePage (i := 0) (by decide) List.not_mem_nil)
  -- one of the first two pages is still free
  have hother : ∃ page, FreePage [directZone] [g] page := by
    by_cases hfirst : directZone.startAddr + pageSize * 0 = g
    · refine ⟨_, directZone_freePage (i := 1) (by decide) fun hmem => ?_⟩
      have hsecond := List.mem_singleton.mp hmem
      have hpage : pageSize = 4096 := rfl
      omega
    · exact ⟨_, directZone_freePage (i := 0) (by decide) fun hmem => hfirst (List.mem_singleton.mp hmem)⟩
  obtain ⟨page, hpage⟩ := hother
  obtain ⟨g', m5, -, -, hg', hstep5, -⟩ := h4.exists_alloc hpage
  exact ⟨f, g, g', _, _, hf, hg, hg', ((Run.single _ hstep1).snoc hstore).snoc hfree, rfl, (Run.single _ hstep4).snoc hstep5⟩

/-! ## Runs -/

section Runs

variable {zones : List AllocatorZone} {m : Mem} {labels : List FrameLabel} {s : ZonesState}

theorem zones_run_inv (hsep : Separate zones) (hwf : ∀ zone ∈ zones, WellFormed zone m 0)
    (hrun : Run (ZonesStep zones) ⟨m, []⟩ labels s) : ∃ live free, HeldInv zones s live free := by
  obtain ⟨free, hstart⟩ := exists_heldInv hsep hwf
  exact hrun.invariant (fun s => ∃ live free, HeldInv zones s live free) ⟨0, free, hstart⟩
    fun _ _ _ ⟨_, _, h⟩ hstep => hstep.inv h

/-- In every run over well-formed zones apart the zones do what `frame_alloc` and `frame_free` of
the address spaces do, for the answers that the zones give: the client sees the same memory, and
the same pages are free. Both calls return; `frame_alloc` refuses exactly when no page is free. -/
theorem zones_implement_frames (hsep : Separate zones) (hwf : ∀ zone ∈ zones, WellFormed zone m 0)
    (hrun : Run (ZonesStep zones) ⟨m, []⟩ labels s) {k0 : Kernel} (hstart : Implements zones ⟨m, []⟩ k0)
    {rest : List (Option ℕ)}
    (hframes : k0.frames = FrameLabel.answers labels ++ rest) :
    (∃ k, Run KernelStep k0 labels k ∧ Implements zones s k ∧ k.frames = rest) ∧
      (∃ f m', zonesFrameAlloc zones s.mem = .ok (f, m') ∧ (f = 0 ↔ ∀ g, ¬FreePage zones s.held g)) ∧
      ∀ f ∈ s.held, ∃ m', zonesFrameFree zones f s.mem = .ok m' := by
  obtain ⟨live, free, h⟩ := zones_run_inv hsep hwf hrun
  refine ⟨?_, ?_, fun f hf => ?_⟩
  · clear h
    induction hrun generalizing rest with
    | nil => exact ⟨k0, .nil, hstart, hframes⟩
    | @snoc labels t u label hrun hstep ih =>
        rw [FrameLabel.answers_append, List.append_assoc] at hframes
        obtain ⟨k, hkrun, himp, hleft⟩ := ih hframes
        obtain ⟨live, free, h⟩ := zones_run_inv hsep hwf hrun
        obtain ⟨k', hkstep, himp', hleft'⟩ := hstep.simulated h himp hleft
        exact ⟨k', hkrun.snoc hkstep, himp', hleft'⟩
  · obtain ⟨f, m', hcall, hnull, hsome, -⟩ := h.alloc
    refine ⟨f, m', hcall, fun hzero => (hnull hzero).2, fun hnone => ?_⟩
    by_contra hne
    exact hnone f (hsome hne).1
  · obtain ⟨m', hcall, -⟩ := h.dealloc hf
    exact ⟨m', hcall⟩

/-- The two machines are in the same state after a frame was given back and two were handed
out. -/
theorem zones_implement_frames_reused : ∃ f g g' t k, f ≠ 0 ∧ g ≠ 0 ∧ g' ≠ 0 ∧
    Run (ZonesStep [directZone]) ⟨directMem, []⟩ [.alloc f, .store f 1, .free f, .alloc g, .alloc g'] t ∧
    Run KernelStep { bootKernel with mem := directMem, frames := [some f, some g, some g'], freed := zonePages [directZone] }
      [.alloc f, .store f 1, .free f, .alloc g, .alloc g'] k ∧
    Implements [directZone] t k := by
  obtain ⟨f, g, g', s, t, hf, hg, hg', hrun, -, hrun'⟩ := directZone_run
  have hanswers : FrameLabel.answers [.alloc f, .store f 1, .free f, .alloc g, .alloc g'] = [some f, some g, some g'] := by
    simp [FrameLabel.answers, hf, hg, hg']
  obtain ⟨⟨k, hkrun, himp, -⟩, -⟩ := zones_implement_frames (separate_singleton directZone) directZone_wellFormed
    (hrun.trans hrun') (implements_start directZone_wellFormed bootKernel [some f, some g, some g'])
    (show [some f, some g, some g'] = FrameLabel.answers [.alloc f, .store f 1, .free f, .alloc g, .alloc g'] ++ [] by
      rw [hanswers, List.append_nil])
  exact ⟨f, g, g', t, k, hf, hg, hg', hrun.trans hrun', hkrun, himp⟩

/-- As long as nothing is given back, what was handed out was free before and differs. -/
theorem zones_run_handsOut (hsep : Separate zones) (hwf : ∀ zone ∈ zones, WellFormed zone m 0)
    (hrun : Run (ZonesStep zones) ⟨m, []⟩ labels s) {labels' : List FrameLabel} {t : ZonesState} (hrun' : Run (ZonesStep zones) s labels' t)
    (hkeeps : ∀ f, .free f ∉ labels') :
    ((FrameLabel.answers labels').filterMap id).Nodup ∧
      (∀ f, some f ∈ FrameLabel.answers labels' → FreePage zones s.held f ∧ f ∈ t.held) ∧ s.held ⊆ t.held := by
  induction hrun' with
  | nil => exact ⟨List.nodup_nil, fun f hf => absurd hf List.not_mem_nil, List.Subset.refl _⟩
  | @snoc labels' t u label hrun' hstep ih =>
      obtain ⟨hnodup, hold, hsub⟩ := ih fun f hf => hkeeps f (List.mem_append_left _ hf)
      obtain ⟨live, free, h⟩ := zones_run_inv hsep hwf (hrun.trans hrun')
      have hmono : t.held ⊆ u.held := by
        cases hstep with
        | alloc =>
            split_ifs
            · exact List.Subset.refl _
            · exact List.subset_cons_self _ _
        | free => exact absurd (List.mem_append_right _ List.mem_cons_self) (hkeeps _)
        | store => exact List.Subset.refl _
      rw [FrameLabel.answers_append, List.filterMap_append]
      refine ⟨List.nodup_append.mpr ⟨hnodup, ?_, fun f hf g hg => ?_⟩, fun f hf => ?_, List.Subset.trans hsub hmono⟩
      · by_cases hsome : ∃ f, some f ∈ FrameLabel.answers [label]
        · obtain ⟨f, hf⟩ := hsome
          rw [(hstep.handsOut h hf).2.2]
          exact List.nodup_singleton f
        · have hnil : (FrameLabel.answers [label]).filterMap id = [] :=
            List.filterMap_eq_nil_iff.mpr fun answer hanswer => by
              cases answer with
              | none => rfl
              | some f => exact absurd ⟨f, hanswer⟩ hsome
          rw [hnil]
          exact List.nodup_nil
      · rintro rfl
        have hf' : some f ∈ FrameLabel.answers labels' := by simpa using hf
        have hg' : some f ∈ FrameLabel.answers [label] := by simpa using hg
        exact (hstep.handsOut h hg').1.notHeld (hold f hf').2
      · rcases List.mem_append.mp hf with hf | hf
        · exact ⟨(hold f hf).1, hmono (hold f hf).2⟩
        · obtain ⟨hfree, hheld, -⟩ := hstep.handsOut h hf
          exact ⟨⟨hfree.dvd, hfree.zone, fun hmem => hfree.notHeld (hsub hmem)⟩, hheld ▸ List.mem_cons_self⟩

/-- Where the zones lie in the direct mapping and nothing is given back, the frames handed out
are different frames that were free before: what a call that makes an address space needs. -/
theorem zones_supply_fresh (hsep : Separate zones) (hwf : ∀ zone ∈ zones, WellFormed zone m 0)
    (hrun : Run (ZonesStep zones) ⟨m, []⟩ labels s)
    (hdirect : ∀ zone ∈ zones, directMapStart < zone.startAddr ∧ zone.endAddr ≤ directMapStart + 2 ^ 46)
    {labels' : List FrameLabel} {t : ZonesState} (hrun' : Run (ZonesStep zones) s labels' t) (hkeeps : ∀ f, .free f ∉ labels') :
    FreshFrames (FrameLabel.answers labels') ∧
      ∀ f, some f ∈ FrameLabel.answers labels' → FreePage zones s.held f ∧ f ∈ t.held := by
  obtain ⟨live, free, h⟩ := zones_run_inv hsep hwf hrun
  obtain ⟨hnodup, hold, -⟩ := zones_run_handsOut hsep hwf hrun hrun' hkeeps
  refine ⟨⟨hnodup, fun f hf => ?_⟩, hold⟩
  obtain ⟨i, zone, hi, hlo, hhi⟩ := h.freePage_stop (hold f hf).1
  obtain ⟨hstart, hend⟩ := hdirect zone (List.mem_of_getElem? hi)
  exact ⟨(hold f hf).1.dvd, by omega, by omega⟩

/-- After a frame was given back, the next two are frames that an address space can use. -/
theorem zones_supply_fresh_reused : ∃ g g', FreshFrames [some g, some g'] ∧ g ≠ g' ∧
    FreePage [directZone] [] g ∧ FreePage [directZone] [] g' := by
  obtain ⟨f, g, g', s, t, -, hg, hg', hrun, hheld, hrun'⟩ := directZone_run
  have hanswers : FrameLabel.answers [.alloc g, .alloc g'] = [some g, some g'] := by simp [FrameLabel.answers, hg, hg']
  obtain ⟨hfresh, hfree⟩ := zones_supply_fresh (separate_singleton directZone) directZone_wellFormed hrun
    (fun zone hzone => by obtain rfl := List.mem_singleton.mp hzone; decide) hrun' (by simp)
  rw [hanswers, hheld] at hfree
  rw [hanswers] at hfresh
  have hne : g ≠ g' := by simpa using hfresh.1
  exact ⟨g, g', hfresh, hne, (hfree g List.mem_cons_self).1, (hfree g' (List.mem_cons_of_mem _ List.mem_cons_self)).1⟩

end Runs

end HeavenOS

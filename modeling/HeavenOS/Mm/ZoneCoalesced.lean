/-
# Complete coalescing

In a zone where no two buddies are free together, an aligned range of free pages always
lies in one free block: if it did not, its two halves would, and would be buddies. So a
zone without live blocks has all its memory on the top list, whatever the order in
which the blocks came back.
-/

import HeavenOS.Mm.ZoneRun

namespace HeavenOS

open Lib Lib.Ring

variable {zone : AllocatorZone} {m : Mem} {free : ℕ → List ℕ} {live : Multiset Block}

/-- No byte of the block at `a` belongs to a live block. -/
def FreeRange (live : Multiset Block) (a order : ℕ) : Prop :=
  ∀ x, a ≤ x → x < a + blockSize order → ∀ b ∈ live, ¬(b.addr ≤ x ∧ x < b.stop)

/-- Of two multiples, the larger is larger by at least the factor. -/
theorem add_le_of_dvd_of_lt {d a b : ℕ} (ha : d ∣ a) (hb : d ∣ b) (hlt : a < b) : a + d ≤ b := by
  have hle := Nat.le_of_dvd (Nat.sub_pos_of_lt hlt) (Nat.dvd_sub hb ha)
  omega

/-- A byte of the zone that is in no live block is in a free one. -/
theorem Pieces.exists_free (h : Pieces zone free live) {x : ℕ} (hlo : zone.startAddr ≤ x)
    (hhi : x < zone.endAddr) (hfree : ∀ b ∈ live, ¬(b.addr ≤ x ∧ x < b.stop)) :
    ∃ k ≤ maxOrder, ∃ a ∈ free k, a ≤ x ∧ x < a + blockSize k := by
  have hcover := h.tiles x
  rw [if_pos ⟨hlo, hhi⟩] at hcover
  have hpos : 0 < cover Block.addr Block.stop (freeBlocks free + live) x := by omega
  obtain ⟨b, hb, hin⟩ := Multiset.countP_pos.mp hpos
  rcases Multiset.mem_add.mp hb with hb | hb
  · obtain ⟨hk, ha⟩ := mem_freeBlocks.mp hb
    exact ⟨b.order, hk, b.addr, ha, hin.1, hin.2⟩
  · exact absurd hin (hfree b hb)

/-- An aligned block without a live byte lies in a free block. -/
theorem Coalesced.exists_free (hc : Coalesced zone free) (hl : zone.Layout)
    (hp : Pieces zone free live) {k a : ℕ} (hk : k ≤ maxOrder) (hdvd : blockSize k ∣ a)
    (hlo : zone.startAddr ≤ a) (hhi : a + blockSize k ≤ zone.endAddr)
    (hfree : FreeRange live a k) :
    ∃ j, k ≤ j ∧ j ≤ maxOrder ∧ ∃ b ∈ free j, b ≤ a ∧ a + blockSize k ≤ b + blockSize j := by
  induction k generalizing a with
  | zero =>
      have hpos := blockSize_pos 0
      obtain ⟨j, hj, b, hb, hle, hlt⟩ :=
        hp.exists_free hlo (by omega) (hfree a le_rfl (by omega))
      have hbdvd := (hp.aligned ⟨b, j⟩ (Pieces.free_mem hj hb)).2
      have hsize := blockSize_dvd (Nat.zero_le j)
      exact ⟨j, Nat.zero_le j, hj, b, hb, hle,
        add_le_of_dvd_of_lt hdvd (Nat.dvd_add (hsize.trans hbdvd) hsize) hlt⟩
  | succ k ih =>
      have hsucc := blockSize_succ k
      have hpos := blockSize_pos k
      have hhalf : blockSize k ∣ blockSize (k + 1) := blockSize_dvd (Nat.le_succ k)
      obtain ⟨j, hkj, hj, b, hb, hbl, hbr⟩ := ih (by omega) (hhalf.trans hdvd) hlo (by omega)
        fun x hx hx' => hfree x hx (by omega)
      obtain ⟨j', hkj', hj', b', hb', hbl', hbr'⟩ := ih (a := a + blockSize k) (by omega)
        (Nat.dvd_add (hhalf.trans hdvd) (dvd_refl _)) (by omega) (by omega)
        fun x hx hx' => hfree x (by omega) (by omega)
      -- a larger block around one half is aligned to the whole
      have hwide : ∀ {i c : ℕ}, k < i → i ≤ maxOrder → c ∈ free i →
          blockSize (k + 1) ∣ c ∧ blockSize (k + 1) ∣ c + blockSize i := by
        intro i c hki hi hc
        have hsize : blockSize (k + 1) ∣ blockSize i := blockSize_dvd hki
        have hcdvd := hsize.trans (hp.aligned ⟨c, i⟩ (Pieces.free_mem hi hc)).2
        exact ⟨hcdvd, Nat.dvd_add hcdvd hsize⟩
      by_cases hkj1 : k < j
      · exact ⟨j, hkj1, hj, b, hb, hbl,
          add_le_of_dvd_of_lt hdvd (hwide hkj1 hj hb).2 (by omega)⟩
      by_cases hkj2 : k < j'
      · refine ⟨j', hkj2, hj', b', hb', ?_, by omega⟩
        by_contra hlt
        have := add_le_of_dvd_of_lt hdvd (hwide hkj2 hj' hb').1 (by omega)
        omega
      obtain rfl : k = j := by omega
      obtain rfl : k = j' := by omega
      obtain rfl : b = a := by omega
      obtain rfl : b' = b + blockSize k := by omega
      obtain ⟨t, ht⟩ := Nat.dvd_sub hdvd ((blockSize_dvd hk).trans hl.start_dvd)
      have hb0 : b = zone.nth k (2 * t) := by
        rw [AllocatorZone.nth_double]
        unfold AllocatorZone.nth
        rw [Nat.mul_comm t]
        omega
      have hb1 : b + blockSize k = zone.nth k (2 * t + 1) := by
        rw [AllocatorZone.nth_succ, ← hb0]
      rw [hb0] at hb
      rw [hb1] at hb'
      exact absurd ⟨hb, hb'⟩ (hc k hk t)

/-! ## Zones without live blocks -/

/-- With no live block, the top list holds every aligned block of the zone. -/
theorem Coalesced.mem_top_iff (hc : Coalesced zone free) (h : ZoneInv zone m free 0) {a : ℕ} :
    a ∈ free maxOrder ↔
      blockSize maxOrder ∣ a ∧ zone.startAddr ≤ a ∧ a + blockSize maxOrder ≤ zone.endAddr := by
  constructor
  · intro ha
    exact ⟨(h.pieces.aligned ⟨a, maxOrder⟩ (Pieces.free_mem le_rfl ha)).2,
      h.nodesInside maxOrder le_rfl a ha⟩
  · rintro ⟨hdvd, hlo, hhi⟩
    obtain ⟨j, hlow, hj, b, hb, hbl, hbr⟩ :=
      hc.exists_free h.layout h.pieces le_rfl hdvd hlo hhi fun _ _ _ b hb =>
        absurd hb (Multiset.notMem_zero b)
    obtain rfl : j = maxOrder := le_antisymm hj hlow
    obtain rfl : b = a := by omega
    exact hb

/-- With no live block, every lower list is empty. -/
theorem Coalesced.lower_empty (hc : Coalesced zone free) (h : ZoneInv zone m free 0) {k : ℕ}
    (hk : k < maxOrder) : free k = [] := by
  refine List.eq_nil_iff_forall_not_mem.mpr fun a ha => ?_
  have hinside := h.nodesInside k (le_of_lt hk) a ha
  have hpos := blockSize_pos k
  have htop := blockSize_pos maxOrder
  -- the top-order block around it is free as well
  have hround := roundDown_le (a - zone.startAddr) (blockSize maxOrder)
  have hround' := lt_roundDown_add (a - zone.startAddr) htop
  have hrounddvd := dvd_roundDown (a - zone.startAddr) (blockSize maxOrder)
  have hdvd : blockSize maxOrder ∣
      zone.startAddr + roundDown (a - zone.startAddr) (blockSize maxOrder) :=
    Nat.dvd_add h.layout.start_dvd hrounddvd
  generalize roundDown (a - zone.startAddr) (blockSize maxOrder) = offset at *
  have hend := add_le_of_dvd_of_lt hdvd h.layout.end_dvd (by omega)
  have hb : zone.startAddr + offset ∈ free maxOrder :=
    (hc.mem_top_iff h).mpr ⟨hdvd, by omega, hend⟩
  have hne : (⟨a, k⟩ : Block) ≠ ⟨zone.startAddr + offset, maxOrder⟩ := by
    intro heq
    exact absurd (congrArg Block.order heq) (ne_of_lt hk)
  have hdis := h.pieces.tiles.disjoint_of_ne (Pieces.free_mem (le_of_lt hk) ha)
    (Pieces.free_mem le_rfl hb) hne (Block.addr_lt_stop _) (Block.addr_lt_stop _)
  simp only [Block.stop] at hdis
  omega

/-- A well-formed zone in which no two buddies below the top are free together. -/
def WellCoalesced (zone : AllocatorZone) (m : Mem) (live : Multiset Block) : Prop :=
  ∃ free, ZoneInv zone m free live ∧ Coalesced zone free

/-- Where all memory is on the top list, no pair can be free. -/
theorem coalesced_of_lower_empty (hempty : ∀ k < maxOrder, free k = []) : Coalesced zone free := by
  intro k hk pair hboth
  rw [hempty k hk] at hboth
  exact List.not_mem_nil hboth.1

theorem ZoneStep.wellCoalesced {s t : ZoneState} {call : ZoneCall} (hstep : ZoneStep zone s call t)
    (h : WellCoalesced zone s.mem s.live) : WellCoalesced zone t.mem t.live := by
  obtain ⟨hlegal, result, hcall⟩ := hstep
  obtain ⟨free, hinv, hc⟩ := h
  cases call with
  | alloc order =>
      obtain ⟨block, m', hrun, hnull, hsome⟩ := zoneAlloc_spec hinv hlegal
      rw [zoneCall, hrun] at hcall
      obtain ⟨-, rfl⟩ := Prod.mk.inj (Except.ok.inj hcall)
      by_cases hzero : block = 0
      · simp only [if_pos hzero, (hnull hzero).1]
        exact ⟨free, hinv, hc⟩
      · obtain ⟨free', hinv', hkeeps, -⟩ := hsome hzero
        simp only [if_neg hzero]
        exact ⟨free', hinv', hkeeps.coalesced hc⟩
  | dealloc block =>
      obtain ⟨rest, hrest⟩ := Multiset.exists_cons_of_mem (show block ∈ s.live from hlegal)
      rw [hrest] at hinv
      obtain ⟨m', free', hrun, hinv', hkeeps⟩ := zoneDealloc_spec hinv
      rw [zoneCall, hrun, hrest, Multiset.erase_cons_head] at hcall
      obtain ⟨-, rfl⟩ := Prod.mk.inj (Except.ok.inj hcall)
      exact ⟨free', hinv', hkeeps.coalesced hc⟩

/-- Each call keeps free buddies apart, and a run from a fully free zone that has given
back all its blocks ends with the same top list, empty lower lists and clear bitmaps. -/
theorem zone_run_coalesces (zone : AllocatorZone) :
    (∀ s call t, WellCoalesced zone s.mem s.live → ZoneStep zone s call t →
      WellCoalesced zone t.mem t.live) ∧
    ∀ (m : Mem) (free : ℕ → List ℕ) (calls : List ZoneCall) (t : ZoneState),
      ZoneInv zone m free 0 → (∀ k < maxOrder, free k = []) →
      Run (ZoneStep zone) ⟨m, 0⟩ calls t → t.live = 0 →
      ∃ free', ZoneInv zone t.mem free' 0 ∧ (free' maxOrder).Perm (free maxOrder) ∧
        (∀ k < maxOrder, free' k = []) ∧
        ∀ k < maxOrder, ∀ pair < zone.pairs k, zone.bit t.mem k pair = false := by
  refine ⟨fun s call t h hstep => hstep.wellCoalesced h, ?_⟩
  intro m free calls t hinv hempty hrun hlive
  have hc : Coalesced zone free := coalesced_of_lower_empty hempty
  have hend : WellCoalesced zone t.mem t.live :=
    hrun.invariant (fun u => WellCoalesced zone u.mem u.live) ⟨free, hinv, hc⟩
      fun a call b ha hstep => hstep.wellCoalesced ha
  rw [hlive] at hend
  obtain ⟨free', hinv', hc'⟩ := hend
  have hempty' : ∀ k < maxOrder, free' k = [] := fun k hk => hc'.lower_empty hinv' hk
  refine ⟨free', hinv', ?_, hempty', fun k hk pair hpair => ?_⟩
  · refine (List.perm_ext_iff_of_nodup (hinv'.rings maxOrder le_rfl).nodup
      (hinv.rings maxOrder le_rfl).nodup).mpr fun a => ?_
    rw [hc'.mem_top_iff hinv', hc.mem_top_iff hinv]
  · rw [hinv'.bits k hk pair hpair, pairBit, hempty' k hk]
    simp

/-! The zone of one top-order block, with the block on its list. -/

def freeZoneMem : Mem :=
  insertAfter (single oneBlockMem 0x400000) (oneBlockZone.head maxOrder) 0x400000

def freeZoneLists : ℕ → List ℕ := Function.update (fun _ => []) maxOrder [0x400000]

theorem freeZone_inv : ZoneInv oneBlockZone freeZoneMem freeZoneLists 0 :=
  oneBlockZone_inv.put_top

theorem freeZoneLists_lower (k : ℕ) (hk : k < maxOrder) : freeZoneLists k = [] :=
  Function.update_of_ne (ne_of_lt hk) _ _

/-- A page is allocated, which splits the block ten times, and given back. -/
theorem zone_run_coalesces_onePage :
    ∃ block t, Run (ZoneStep oneBlockZone) ⟨freeZoneMem, 0⟩ [.alloc 0, .dealloc ⟨block, 0⟩] t ∧
      ∃ free', ZoneInv oneBlockZone t.mem free' 0 ∧ (free' maxOrder).Perm [0x400000] ∧
        ∀ k < maxOrder, free' k = [] := by
  obtain ⟨block, m, hrun, hnull, hsome⟩ := zoneAlloc_spec freeZone_inv (show 0 < maxOrder by decide)
  have hne : block ≠ 0 := by
    intro hzero
    have hnil := (hnull hzero).2 maxOrder (Nat.zero_le _) le_rfl
    rw [freeZoneLists, Function.update_self] at hnil
    cases hnil
  obtain ⟨free1, hinv1, -, -⟩ := hsome hne
  obtain ⟨m', free2, hrun', -, -⟩ := zoneDealloc_spec hinv1
  have halloc : ZoneStep oneBlockZone ⟨freeZoneMem, 0⟩ (.alloc 0) ⟨m, {⟨block, 0⟩}⟩ := by
    refine ⟨show 0 < maxOrder by decide, block, ?_⟩
    rw [zoneCall, hrun, ok_bind]
    simp only [if_neg hne]
    rfl
  have hdealloc : ZoneStep oneBlockZone ⟨m, {⟨block, 0⟩}⟩ (.dealloc ⟨block, 0⟩) ⟨m', 0⟩ := by
    refine ⟨Multiset.mem_singleton_self _, 0, ?_⟩
    rw [zoneCall, hrun', ok_bind]
    simp only [← Multiset.cons_zero, Multiset.erase_cons_head]
    rfl
  have hcalls := (Run.single (ZoneStep oneBlockZone) halloc).snoc hdealloc
  obtain ⟨free', hinv', hperm, hempty, -⟩ := (zone_run_coalesces oneBlockZone).2 _ _ _ _
    freeZone_inv freeZoneLists_lower hcalls rfl
  rw [freeZoneLists, Function.update_self] at hperm
  exact ⟨block, _, hcalls, free', hinv', hperm, hempty⟩

end HeavenOS

/-
# Runs of a zone

Each call of `zone_alloc` and `zone_dealloc` on a well-formed zone returns, passes
all its assertions and leaves the zone well-formed. The live blocks are the ghost
part of the state: a successful allocation adds its block, a deallocation removes
it. A run is any sequence of legal calls.
-/

import HeavenOS.Lib.Runs
import HeavenOS.Mm.ZoneKeeps

namespace HeavenOS

open Lib Lib.Ring

variable {zone : AllocatorZone} {m : Mem} {free : ℕ → List ℕ} {live : Multiset Block}

/-! ## Allocation -/

/-- `list_empty` on a list head looks at the list. -/
theorem ZoneInv.listEmpty_head (h : ZoneInv zone m free live) {k : ℕ} (hk : k ≤ maxOrder) :
    listEmpty m (zone.head k) = .ok (decide (free k = [])) :=
  listEmpty_of_isRing (h.rings k hk) (h.layout.head_ne k)

/-- The first block of a non-empty free list can be extracted. -/
theorem ZoneInv.listExtract_eq (h : ZoneInv zone m free live) {k b : ℕ} (hk : k ≤ maxOrder)
    (hb : b ∈ free k) : listExtract m b = .ok (unlink m b) :=
  HeavenOS.listExtract_eq m (h.free_ne_zero hk hb) ((h.rings k hk).next_ne_self hb)

/-- The split loop halves a live block down to the order asked for. -/
theorem splitBlock_spec {order block count : ℕ}
    (h : ZoneInv zone m free (⟨block, order + count⟩ ::ₘ live)) :
    ∃ m' free', splitBlock zone order block count m = .ok m' ∧
      ZoneInv zone m' free' (⟨block, order⟩ ::ₘ live) ∧ Keeps zone live free m free' m' := by
  induction count generalizing m free with
  | zero => exact ⟨m, free, rfl, h, Keeps.refl⟩
  | succ count ih =>
      obtain ⟨hbuddy, hsplit⟩ := h.split (j := order + count)
      have hinside := h.pieces.live_inside (Multiset.mem_cons_self _ _)
      have hstart := h.layout.start_ne
      have hne : buddyAddr block (order + count) ≠ 0 := by
        have hle : zone.startAddr ≤ block := hinside.1
        omega
      obtain ⟨m', free', hrun, hinv, hkeeps⟩ := ih hsplit
      refine ⟨m', free', ?_, hinv, h.split_keeps.trans hkeeps⟩
      rw [splitBlock, listInit_eq _ hne, ok_bind,
        listInsertAfter_eq _ (h.layout.head_ne _) hne, ok_bind]
      exact hrun

/-- Every byte of the block is zero. -/
def Zeroed (m : Mem) (block order : ℕ) : Prop :=
  ∀ x, block ≤ x → x < block + blockSize order → m x = 0

theorem memset_zeroed (m : Mem) (block order : ℕ) :
    Zeroed (m.memset block 0 (blockSize order)) block order := by
  intro x hlo hhi
  rw [Mem.memset_apply, if_pos ⟨hlo, hhi⟩]

/-- Zeroing a live block keeps the zone well-formed. -/
theorem ZoneInv.memset {block order : ℕ} (h : ZoneInv zone m free (⟨block, order⟩ ::ₘ live)) :
    ZoneInv zone (m.memset block 0 (blockSize order)) free (⟨block, order⟩ ::ₘ live) :=
  h.of_live_write (Multiset.mem_cons_self _ _) fun _ hx => Mem.memset_of_outside m 0 hx

/-- The search over larger orders returns a live block, or nothing when all the
lists it looks at are empty. -/
theorem allocLarger_spec (h : ZoneInv zone m free live) {order : ℕ} {orders : List ℕ}
    (horders : ∀ i ∈ orders, order ≤ i ∧ i ≤ maxOrder) :
    ∃ block m', allocLarger zone order orders m = .ok (block, m') ∧
      (block = 0 → m' = m ∧ ∀ i ∈ orders, free i = []) ∧
      (block ≠ 0 → ∃ free', ZoneInv zone m' free' (⟨block, order⟩ ::ₘ live) ∧
        Keeps zone live free m free' m' ∧ Zeroed m' block order) := by
  induction orders with
  | nil => exact ⟨0, m, rfl, fun _ => ⟨rfl, by simp⟩, fun hne => absurd rfl hne⟩
  | cons i rest ih =>
      obtain ⟨hle, hmax⟩ := horders i List.mem_cons_self
      rw [allocLarger, h.listEmpty_head hmax, ok_bind]
      cases hfree : free i with
      | nil =>
          obtain ⟨block, m', hrun, hnull, hsome⟩ :=
            ih fun j hj => horders j (List.mem_cons_of_mem _ hj)
          refine ⟨block, m', by simpa using hrun, fun hzero => ?_, hsome⟩
          obtain ⟨hm, hall⟩ := hnull hzero
          exact ⟨hm, fun j hj => (List.mem_cons.mp hj).elim (fun hji => hji ▸ hfree) (hall j)⟩
      | cons b bs =>
          have hb : b ∈ free i := by simp [hfree]
          have hnext : next m (zone.head i) = b := by
            rw [(h.rings i hmax).next_head, hfree]
            rfl
          have hcut : free i = [] ++ b :: bs := hfree
          have hsplit : i = order + (i - order) := by omega
          -- taking the block off its list makes it live at the order it was found
          obtain ⟨m1, free1, hm1, htaken, hkeeps⟩ : ∃ m1 free1,
              (if i < maxOrder then
                updateBit flipBit (unlink m b) (zone.bitmap i) (zone.buddyIndex b i)
              else unlink m b) = m1 ∧ ZoneInv zone m1 free1 (⟨b, i⟩ ::ₘ live) ∧
                Keeps zone live free m free1 m1 := by
            by_cases hi : i < maxOrder
            · exact ⟨_, _, if_pos hi, h.take hi hcut, h.take_keeps hi hcut⟩
            · obtain rfl : i = maxOrder := by omega
              exact ⟨_, _, if_neg hi, h.take_top hcut, h.take_top_keeps hcut⟩
          rw [hsplit] at htaken
          obtain ⟨m2, free2, hrun, hinv, hkeeps'⟩ := splitBlock_spec htaken
          have hbne : b ≠ 0 := h.free_ne_zero hmax hb
          refine ⟨b, m2.memset b 0 (blockSize order), ?_, fun hzero => absurd hzero hbne,
            fun _ => ⟨free2, hinv.memset, (hkeeps.trans hkeeps').trans hinv.memset_keeps,
              memset_zeroed _ _ _⟩⟩
          simp only [List.cons_ne_nil, decide_false, Bool.false_eq_true, if_false, hnext,
            h.listExtract_eq hmax hb, ok_bind, hm1, hrun]
          rfl

/-- `zone_alloc` on a well-formed zone, for an order that has a bitmap. -/
theorem zoneAlloc_spec (h : ZoneInv zone m free live) {order : ℕ} (horder : order < maxOrder) :
    ∃ block m', zoneAlloc zone order m = .ok (block, m') ∧
      (block = 0 → m' = m ∧ ∀ i, order ≤ i → i ≤ maxOrder → free i = []) ∧
      (block ≠ 0 → ∃ free', ZoneInv zone m' free' (⟨block, order⟩ ::ₘ live) ∧
        Keeps zone live free m free' m' ∧ Zeroed m' block order) := by
  have hle : order ≤ maxOrder := le_of_lt horder
  rw [zoneAlloc, kassert_of_true h.layout.addr_ne, ok_bind, kassert_of_true hle, ok_bind,
    h.listEmpty_head hle, ok_bind]
  cases hfree : free order with
  | nil =>
      have horders : ∀ i ∈ List.range' order (maxOrder + 1 - order), order ≤ i ∧ i ≤ maxOrder := by
        intro i hi
        rw [List.mem_range'_1] at hi
        omega
      obtain ⟨block, m', hrun, hnull, hsome⟩ := allocLarger_spec h horders
      refine ⟨block, m', by simpa using hrun, fun hzero => ⟨(hnull hzero).1, ?_⟩, hsome⟩
      intro i hlo hhi
      exact (hnull hzero).2 i (by rw [List.mem_range'_1]; omega)
  | cons b bs =>
      have hb : b ∈ free order := by simp [hfree]
      have hnext : next m (zone.head order) = b := by
        rw [(h.rings order hle).next_head, hfree]
        rfl
      have hcut : free order = [] ++ b :: bs := hfree
      have htaken := h.take horder hcut
      refine ⟨b, _, ?_, fun hzero => absurd hzero (h.free_ne_zero hle hb),
        fun _ => ⟨_, htaken.memset, (h.take_keeps horder hcut).trans htaken.memset_keeps,
          memset_zeroed _ _ _⟩⟩
      simp only [List.cons_ne_nil, decide_false, Bool.false_eq_true, if_false, hnext,
        h.listExtract_eq hle hb, ok_bind]
      rfl

/-! ## Deallocation -/

/-- The buddy of a live block is the block just above or just below it. -/
theorem ZoneInv.buddyAddr_cases {a k : ℕ} (h : ZoneInv zone m free (⟨a, k⟩ ::ₘ live))
    (hk : k < maxOrder) : buddyAddr a k = a + blockSize k ∨ a = buddyAddr a k + blockSize k := by
  have hmem : (⟨a, k⟩ : Block) ∈ ⟨a, k⟩ ::ₘ live := Multiset.mem_cons_self _ _
  obtain ⟨t, hat, -, -⟩ := h.exists_index (Multiset.mem_add.mpr (Or.inr hmem)) hk
  have hinside := h.pieces.live_inside hmem
  have hend := h.layout.end_lt
  have hpos := blockSize_pos k
  simp only [Block.stop] at hat hinside
  have hbuddy := h.layout.buddyAddr_eq (t := t) hk (by rw [← hat]; omega)
  rw [← hat] at hbuddy
  by_cases ht : t % 2 = 0
  · left
    rw [hbuddy, if_pos ht, AllocatorZone.nth_succ, ← hat]
  · right
    rw [hbuddy, if_neg ht, ← AllocatorZone.nth_succ, Nat.sub_add_cancel (by omega), ← hat]

/-- The buddy can still be extracted when the bit of the pair has been cleared. -/
theorem ZoneInv.mergeExtract_eq {a k : ℕ} (h : ZoneInv zone m free (⟨a, k⟩ ::ₘ live))
    (hk : k < maxOrder) (hbuddy : buddyAddr a k ∈ free k) :
    listExtract (updateBit clearBit m (zone.bitmap k) (zone.buddyIndex a k)) (buddyAddr a k) =
      .ok (unlink (updateBit clearBit m (zone.bitmap k) (zone.buddyIndex a k)) (buddyAddr a k)) := by
  have hmem : (⟨a, k⟩ : Block) ∈ ⟨a, k⟩ ::ₘ live := Multiset.mem_cons_self _ _
  obtain ⟨t, -, hpair, hindex⟩ := h.exists_index (Multiset.mem_add.mpr (Or.inr hmem)) hk
  simp only at hpair hindex
  have hrings : IsRing (updateBit clearBit m (zone.bitmap k) (zone.buddyIndex a k)) (zone.head k)
      (free k) := by
    rw [hindex]
    exact (h.toZoneLists.updateBit clearBit hk hpair).rings k (le_of_lt hk)
  exact HeavenOS.listExtract_eq _ (h.free_ne_zero (le_of_lt hk) hbuddy)
    (hrings.next_ne_self hbuddy)

/-- The coalescing loop ends with a block around the freed one that can be put on its list. -/
theorem coalesce_spec (count : ℕ) {block order : ℕ} (hcount : order + count = maxOrder)
    (h : ZoneInv zone m free (⟨block, order⟩ ::ₘ live)) :
    ∃ block' order' m' free', coalesce zone count block order m = .ok (block', order', m') ∧
      block' ≠ 0 ∧ order' ≤ maxOrder ∧ blockSize order' ∣ block' ∧
      block' ≤ block ∧ block + blockSize order ≤ block' + blockSize order' ∧
      ZoneInv zone (insertAfter (single m' block') (zone.head order') block') free' live ∧
      Keeps zone live free m free' (insertAfter (single m' block') (zone.head order') block') := by
  have hstart := h.layout.start_ne
  have hmem : (⟨block, order⟩ : Block) ∈ ⟨block, order⟩ ::ₘ live := Multiset.mem_cons_self _ _
  have hinside : zone.startAddr ≤ block := (h.pieces.live_inside hmem).1
  have haligned := h.pieces.live_aligned hmem
  induction count generalizing m free block order with
  | zero =>
      obtain rfl : order = maxOrder := by omega
      exact ⟨block, maxOrder, m, _, rfl, by omega, le_rfl, haligned.2, le_rfl, le_rfl, h.put_top,
        h.put_top_keeps⟩
  | succ count ih =>
      have hk : order < maxOrder := by omega
      have hbyte : (m (zone.bitmap order + zone.buddyIndex block order / 8)).getLsbD
          (zone.buddyIndex block order % 8) =
            zone.bit m order (zone.buddyIndex block order) := rfl
      have hmod : zone.buddyIndex block order % 8 < 8 := Nat.mod_lt _ (by decide)
      by_cases hbit : zone.bit m order (zone.buddyIndex block order) = true
      · obtain ⟨hbuddyFree, hmerge⟩ := h.merge hk hbit
        obtain ⟨before, after, hcut⟩ := List.append_of_mem hbuddyFree
        have hinv := hmerge before after hcut
        have hmem' := Multiset.mem_cons_self
          (⟨if buddyAddr block order < block then buddyAddr block order else block, order + 1⟩ :
            Block) live
        obtain ⟨block', order', m', free', hrun, hne, hmax, hdvd, hle, hcover, hput, hkeeps⟩ :=
          ih (by omega) hinv hmem' (hinv.pieces.live_inside hmem').1 (hinv.pieces.live_aligned hmem')
        have hsize := blockSize_succ order
        have hcases := h.buddyAddr_cases hk
        refine ⟨block', order', m', free', ?_, hne, hmax, hdvd, ?_, ?_, hput,
          (h.merge_keeps hk hcut).trans hkeeps⟩
        · have hlists := h.mergeExtract_eq hk hbuddyFree
          rw [coalesce, if_neg (by rw [getBit_eq_zero_iff _ hmod, hbyte, hbit]; decide)]
          simp only [hlists, ok_bind]
          exact hrun
        · split_ifs at hle <;> omega
        · split_ifs at hcover <;> omega
      · have hclear : zone.bit m order (zone.buddyIndex block order) = false := by
          simpa using hbit
        refine ⟨block, order, _, _, ?_, by omega, le_of_lt hk, haligned.2, le_rfl, le_rfl,
          h.put hk hclear, h.put_keeps hk hclear⟩
        rw [coalesce, if_pos (by rw [getBit_eq_zero_iff _ hmod, hbyte, hclear])]
        rfl

/-- `zone_dealloc` of a live block of a well-formed zone. -/
theorem zoneDealloc_spec {b : Block} (h : ZoneInv zone m free (b ::ₘ live)) :
    ∃ m' free', zoneDealloc zone b.addr b.order m = .ok m' ∧ ZoneInv zone m' free' live ∧
      Keeps zone live free m free' m' := by
  have hmem := Multiset.mem_cons_self b live
  have haligned := h.pieces.live_aligned hmem
  have hinside := h.pieces.live_inside hmem
  have hend := h.layout.end_lt
  have hlt : b.addr < 2 ^ 64 := by
    have := b.addr_lt_stop
    omega
  have hpage : maskDown b.addr pageSize = b.addr := by
    refine (maskDown_two_pow_eq_self_iff (k := 12) hlt).mpr (Dvd.dvd.trans ?_ haligned.2)
    exact Nat.dvd_mul_right _ _
  obtain ⟨block', order', m', free', hrun, hne, hmax, hdvd, hle, hcover, hput, hkeeps⟩ :=
    coalesce_spec (maxOrder - b.order) (by omega) h
  have hmask : maskDown b.addr (2 ^ (12 + order')) = block' := by
    -- the merged block is the aligned block that holds the address
    rw [maskDown_two_pow hlt, ← blockSize_eq_two_pow]
    obtain ⟨c, rfl⟩ := hdvd
    have hpos := blockSize_pos b.order
    have hdiv : b.addr / blockSize order' = c := by
      refine Nat.div_eq_of_lt_le ?_ ?_
      · rwa [Nat.mul_comm]
      · calc b.addr < blockSize order' * c + blockSize order' := by omega
          _ = (c + 1) * blockSize order' := by ring
    have hmod := Nat.div_add_mod b.addr (blockSize order')
    rw [hdiv] at hmod
    unfold roundDown
    omega
  refine ⟨_, free', ?_, hput, hkeeps⟩
  rw [zoneDealloc, kassert_of_true h.layout.addr_ne, ok_bind, kassert_of_true hpage, ok_bind,
    kassert_of_true haligned.1, ok_bind, hrun, ok_bind]
  simp only [kassert_of_true hmask, ok_bind, listInit_eq m' hne,
    listInsertAfter_eq _ (h.layout.head_ne order') hne]

/-! ## Runs -/

/-- The two calls a client of a zone makes. -/
inductive ZoneCall
  | alloc (order : ℕ)
  | dealloc (block : Block)

/-- Memory, and the blocks handed out and not yet given back. -/
structure ZoneState where
  mem : Mem
  live : Multiset Block

/-- Orders with a bitmap may be asked for; a live block may be given back with the
order it was allocated with. -/
def ZoneCall.Legal (s : ZoneState) : ZoneCall → Prop
  | .alloc order => order < maxOrder
  | .dealloc block => block ∈ s.live

/-- Execute one call; the result is the block `zone_alloc` returned, if any. -/
def zoneCall (zone : AllocatorZone) (s : ZoneState) : ZoneCall → Except Panic (ℕ × ZoneState)
  | .alloc order => do
      let (block, m) ← zoneAlloc zone order s.mem
      return (block, ⟨m, if block = 0 then s.live else ⟨block, order⟩ ::ₘ s.live⟩)
  | .dealloc block => do
      let m ← zoneDealloc zone block.addr block.order s.mem
      return (0, ⟨m, s.live.erase block⟩)

/-- A legal call that returns. -/
def ZoneStep (zone : AllocatorZone) (s : ZoneState) (call : ZoneCall) (t : ZoneState) : Prop :=
  call.Legal s ∧ ∃ result, zoneCall zone s call = .ok (result, t)

/-- A legal call on a well-formed zone passes every assertion, leaves the zone
well-formed, and the block it returns is aligned, inside the zone and apart from
every live block. -/
theorem zoneCall_spec (call : ZoneCall) {s : ZoneState} (h : WellFormed zone s.mem s.live)
    (hlegal : call.Legal s) :
    ∃ result t, zoneCall zone s call = .ok (result, t) ∧ WellFormed zone t.mem t.live ∧
      ∀ order, call = .alloc order → result ≠ 0 →
        blockSize order ∣ result ∧ zone.startAddr ≤ result ∧
          result + blockSize order ≤ zone.endAddr ∧
          ∀ b ∈ s.live, result + blockSize order ≤ b.addr ∨ b.stop ≤ result := by
  obtain ⟨free, hinv⟩ := h
  cases call with
  | alloc order =>
      obtain ⟨block, m', hrun, hnull, hsome⟩ := zoneAlloc_spec hinv hlegal
      have hcall : zoneCall zone s (.alloc order) =
          .ok (block, ⟨m', if block = 0 then s.live else ⟨block, order⟩ ::ₘ s.live⟩) := by
        rw [zoneCall, hrun]
        rfl
      refine ⟨block, _, hcall, ?_, ?_⟩
      · by_cases hzero : block = 0
        · rw [if_pos hzero, (hnull hzero).1]
          exact ⟨free, hinv⟩
        · obtain ⟨free', hinv', -⟩ := hsome hzero
          rw [if_neg hzero]
          exact ⟨free', hinv'⟩
      · rintro asked ⟨rfl⟩ hne
        obtain ⟨free', hinv', -⟩ := hsome hne
        have hmem := Multiset.mem_cons_self (⟨block, order⟩ : Block) s.live
        have hinside := hinv'.pieces.live_inside hmem
        refine ⟨(hinv'.pieces.live_aligned hmem).2, hinside.1, hinside.2, fun b hb => ?_⟩
        have htiles := hinv'.pieces.tiles
        rw [Multiset.add_cons] at htiles
        exact htiles.disjoint_of_mem (Multiset.mem_add.mpr (Or.inr hb)) (Block.addr_lt_stop _)
          b.addr_lt_stop
  | dealloc block =>
      obtain ⟨rest, hrest⟩ := Multiset.exists_cons_of_mem (show block ∈ s.live from hlegal)
      rw [hrest] at hinv
      obtain ⟨m', free', hrun, hinv', -⟩ := zoneDealloc_spec hinv
      refine ⟨0, ⟨m', rest⟩, ?_, ⟨free', hinv'⟩, by simp⟩
      rw [zoneCall, hrun, hrest, Multiset.erase_cons_head]
      rfl

/-- The buddy-zone invariant: along every run of legal calls from a well-formed zone
each state is well-formed, the next legal call passes all its assertions, and an
allocated block is aligned to its size and overlaps no live block. -/
theorem zone_run_wellFormed (zone : AllocatorZone) {s t : ZoneState} {calls : List ZoneCall}
    (hstart : WellFormed zone s.mem s.live) (hrun : Run (ZoneStep zone) s calls t) :
    WellFormed zone t.mem t.live ∧
      (∀ call : ZoneCall, call.Legal t → ∃ result u, zoneCall zone t call = .ok (result, u)) ∧
      ∀ order < maxOrder, ∀ block u, zoneCall zone t (.alloc order) = .ok (block, u) → block ≠ 0 →
        blockSize order ∣ block ∧ zone.startAddr ≤ block ∧
          block + blockSize order ≤ zone.endAddr ∧
          ∀ b ∈ t.live, block + blockSize order ≤ b.addr ∨ b.stop ≤ block := by
  have hwf : WellFormed zone t.mem t.live := by
    refine hrun.invariant (fun u => WellFormed zone u.mem u.live) hstart ?_
    rintro a call b ha ⟨hlegal, result, hcall⟩
    obtain ⟨result', t', hcall', hwf', -⟩ := zoneCall_spec _ ha hlegal
    obtain ⟨-, rfl⟩ := by simpa using hcall.symm.trans hcall'
    exact hwf'
  refine ⟨hwf, fun call hlegal => ?_, fun order horder block u hcall hne => ?_⟩
  · obtain ⟨result, u, hcall, -, -⟩ := zoneCall_spec _ hwf hlegal
    exact ⟨result, u, hcall⟩
  · obtain ⟨result, u', hcall', -, hblock⟩ :=
      zoneCall_spec (.alloc order) hwf horder
    obtain ⟨rfl, -⟩ := by simpa using hcall.symm.trans hcall'
    exact hblock order rfl hne

/-! A zone of one top-order block, handed out: its lists are empty and its bitmaps clear. -/

def oneBlockZone : AllocatorZone where
  addr := 0x1000
  bitmapPages := 1
  bitmap k := 0x2000 + 0x100 * k
  startAddr := 0x400000
  endAddr := 0x800000
  pagesCount := 1024

/-- Zero memory with the list heads initialised. -/
def oneBlockMem : Mem := ((List.range 11).map oneBlockZone.head).foldl single fun _ => 0

theorem oneBlockZone_layout : oneBlockZone.Layout where
  addr_ne := by decide
  start_ne := by decide
  start_dvd := by decide
  end_dvd := by decide
  start_le := by decide
  end_lt := by decide
  descriptor_outside := by decide
  bitmap_outside := by decide
  bitmap_descriptor := by decide
  bitmap_disjoint := by decide

/-- The whole zone is one live block. -/
def oneBlockState : ZoneState := ⟨oneBlockMem, {⟨0x400000, maxOrder⟩}⟩

theorem oneBlockZone_inv :
    ZoneInv oneBlockZone oneBlockMem (fun _ => []) {⟨0x400000, maxOrder⟩} := by
  have hempty : freeBlocks (fun _ => []) = 0 := by
    simp [freeBlocks]
  refine ⟨⟨oneBlockZone_layout, ?_, ?_⟩, ?_⟩
  · intro k hk
    refine IsRing.foldl_single ?_ ?_ _ (List.mem_map_of_mem (List.mem_range.mpr ?_))
    · decide
    · rw [List.pairwise_map]
      refine List.pairwise_lt_range.imp ?_
      intro i j hij
      unfold Apart AllocatorZone.head
      omega
    · have hmax : maxOrder = 10 := rfl
      omega
  · refine ⟨?_, fun x => ?_⟩
    · rw [hempty, zero_add]
      simp only [Multiset.mem_singleton, forall_eq]
      decide
    · rw [hempty, zero_add, ← Multiset.cons_zero, cover_cons, cover_zero, zero_add]
      exact if_congr Iff.rfl rfl rfl
  · intro k hk pair hpair
    have hbyte : oneBlockMem (oneBlockZone.bitmap k + pair / 8) = 0 := by
      refine IsRing.foldl_single_of_outside fun a ha => ?_
      obtain ⟨i, hi, rfl⟩ := List.mem_map.mp ha
      have hi' := List.mem_range.mp hi
      simp only [AllocatorZone.head, oneBlockZone]
      omega
    simp [AllocatorZone.bit, hbyte, pairBit]

theorem oneBlockState_wellFormed :
    WellFormed oneBlockZone oneBlockState.mem oneBlockState.live := by
  simp only [oneBlockState]
  exact ⟨_, oneBlockZone_inv⟩

/-- Where nothing is handed out, a list is not empty. -/
theorem ZoneInv.exists_free (h : ZoneInv oneBlockZone m free 0) : ∃ i ≤ maxOrder, free i ≠ [] := by
  by_contra hnone
  have hempty : freeBlocks free = 0 := by
    refine Finset.sum_eq_zero fun k hk => ?_
    have hfree : free k = [] := by
      by_contra hne
      exact hnone ⟨k, Nat.lt_succ_iff.mp (Finset.mem_range.mp hk), hne⟩
    rw [hfree]
    rfl
  have hcover := h.pieces.tiles 0x400000
  rw [hempty, add_zero, cover_zero] at hcover
  exact absurd hcover (by decide)

/-- The block is given back, a page is allocated, which splits it ten times, and given back,
which merges it again; the zone is well-formed after that. -/
theorem zone_run_wellFormed_onePage :
    ∃ block t, block ≠ 0 ∧
      Run (ZoneStep oneBlockZone) oneBlockState [.dealloc ⟨0x400000, maxOrder⟩, .alloc 0, .dealloc ⟨block, 0⟩] t ∧
      WellFormed oneBlockZone t.mem t.live := by
  have hinv := oneBlockZone_inv
  rw [← Multiset.cons_zero] at hinv
  obtain ⟨m1, free1, hrun1, hinv1, -⟩ := zoneDealloc_spec hinv
  obtain ⟨block, m2, hrun2, hnull, hsome⟩ := zoneAlloc_spec hinv1 (show 0 < maxOrder by decide)
  have hne : block ≠ 0 := fun hzero => by
    obtain ⟨i, hi, hfree⟩ := hinv1.exists_free
    exact hfree ((hnull hzero).2 i (Nat.zero_le _) hi)
  obtain ⟨free2, hinv2, -⟩ := hsome hne
  obtain ⟨m3, free3, hrun3, -⟩ := zoneDealloc_spec hinv2
  have hfirst : ZoneStep oneBlockZone oneBlockState (.dealloc ⟨0x400000, maxOrder⟩) ⟨m1, 0⟩ := by
    refine ⟨Multiset.mem_singleton_self _, 0, ?_⟩
    simp only [zoneCall, oneBlockState, hrun1, ok_bind, ← Multiset.cons_zero, Multiset.erase_cons_head]
    rfl
  have halloc : ZoneStep oneBlockZone ⟨m1, 0⟩ (.alloc 0) ⟨m2, {⟨block, 0⟩}⟩ := by
    refine ⟨show 0 < maxOrder by decide, block, ?_⟩
    rw [zoneCall, hrun2, ok_bind]
    simp only [if_neg hne]
    rfl
  have hlast : ZoneStep oneBlockZone ⟨m2, {⟨block, 0⟩}⟩ (.dealloc ⟨block, 0⟩) ⟨m3, 0⟩ := by
    refine ⟨Multiset.mem_singleton_self _, 0, ?_⟩
    rw [zoneCall, hrun3, ok_bind]
    simp only [← Multiset.cons_zero, Multiset.erase_cons_head]
    rfl
  have hrun := ((Run.single (ZoneStep oneBlockZone) hfirst).snoc halloc).snoc hlast
  exact ⟨block, _, hne, hrun, (zone_run_wellFormed oneBlockZone oneBlockState_wellFormed hrun).1⟩

end HeavenOS

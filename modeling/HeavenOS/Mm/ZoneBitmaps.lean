/-
# Bitmap accesses

`zone_alloc` and `zone_dealloc` once more, with a hook in front of every access to a
bitmap; with the hook that does nothing they are the functions they were. The hook that
takes the bitmaps as arrays, one for each order below the top, finds the one access that
no array stands for: an exact fit at the top order.
-/

import HeavenOS.Mm.ZoneCoalesced

namespace HeavenOS

open Lib Lib.Ring

section Hooks

-- what happens before `bitmap[i / 8]` of an order is read or written
variable (access : (order i : ℕ) → Except Panic Unit)

def splitBlockWith (zone : AllocatorZone) (order block : ℕ) : ℕ → Mem → Except Panic Mem
  | 0, m => return m
  | count + 1, m => do
      let j := order + count
      access j (zone.buddyIndex block j)
      let m := updateBit setBit m (zone.bitmap j) (zone.buddyIndex block j)
      let secondHalf := buddyAddr block j
      let m ← listInit m secondHalf
      let m ← listInsertAfter m (zone.head j) secondHalf
      splitBlockWith zone order block count m

/-- The bitmap update behind `if (i < MAX_ORDER)`. -/
def flipBelowTop (zone : AllocatorZone) (block i : ℕ) (m : Mem) : Except Panic Mem :=
  if i < maxOrder then do
    access i (zone.buddyIndex block i)
    return updateBit flipBit m (zone.bitmap i) (zone.buddyIndex block i)
  else return m

def allocLargerWith (zone : AllocatorZone) (order : ℕ) : List ℕ → Mem → Except Panic (ℕ × Mem)
  | [], m => return (0, m)
  | i :: rest, m => do
      if ← listEmpty m (zone.head i) then
        allocLargerWith zone order rest m
      else
        let block := next m (zone.head i)
        let m ← listExtract m block
        let m ← flipBelowTop access zone block i m
        let m ← splitBlockWith access zone order block (i - order) m
        return (block, m.memset block 0 (blockSize order))

/-- `zone_alloc` -/
def zoneAllocWith (zone : AllocatorZone) (order : ℕ) (m : Mem) : Except Panic (ℕ × Mem) := do
  kassert (zone.addr ≠ 0) "zone != ((void *)0)"
  kassert (order ≤ maxOrder) "order <= 10"
  if ← listEmpty m (zone.head order) then
    allocLargerWith access zone order (List.range' order (maxOrder + 1 - order)) m
  else
    let block := next m (zone.head order)
    let m ← listExtract m block
    access order (zone.buddyIndex block order)
    let m := updateBit flipBit m (zone.bitmap order) (zone.buddyIndex block order)
    return (block, m.memset block 0 (blockSize order))

def coalesceWith (zone : AllocatorZone) : ℕ → ℕ → ℕ → Mem → Except Panic (ℕ × ℕ × Mem)
  | 0, block, order, m => return (block, order, m)
  | count + 1, block, order, m => do
      let buddy := buddyAddr block order
      let index := zone.buddyIndex block order
      let bitmap := zone.bitmap order
      access order index
      if getBit (m (bitmap + index / 8)) (index % 8) = 0 then
        return (block, order, updateBit setBit m bitmap index)
      else
        let m := updateBit clearBit m bitmap index
        let m ← listExtract m buddy
        coalesceWith zone count (if buddy < block then buddy else block) (order + 1) m

/-- `zone_dealloc` -/
def zoneDeallocWith (zone : AllocatorZone) (addr order : ℕ) (m : Mem) : Except Panic Mem := do
  kassert (zone.addr ≠ 0) "zone != ((void *)0)"
  kassert (maskDown addr pageSize = addr) "(addr & (~(4096 - 1))) == addr"
  kassert (order ≤ maxOrder) "order <= 10"
  let (freeBlockAddr, freeOrder, m) ← coalesceWith access zone (maxOrder - order) addr order m
  kassert (maskDown addr (2 ^ (12 + freeOrder)) = freeBlockAddr)
    "(addr & (~(((size_t)1 << (12 + free_order)) - 1))) == free_block_addr"
  let m ← listInit m freeBlockAddr
  listInsertAfter m (zone.head freeOrder) freeBlockAddr

end Hooks

/-! ## The hook that does nothing -/

section NoHook

variable (zone : AllocatorZone)

theorem splitBlockWith_ok (order block count : ℕ) (m : Mem) :
    splitBlockWith (fun _ _ => .ok ()) zone order block count m = splitBlock zone order block count m := by
  induction count generalizing m with
  | zero => rfl
  | succ count ih =>
      rw [splitBlockWith, splitBlock]
      simp only [ok_bind, ih]

theorem flipBelowTop_ok (block i : ℕ) (m : Mem) :
    flipBelowTop (fun _ _ => .ok ()) zone block i m =
      .ok (if i < maxOrder then updateBit flipBit m (zone.bitmap i) (zone.buddyIndex block i) else m) := by
  unfold flipBelowTop
  split_ifs <;> rfl

theorem allocLargerWith_ok (order : ℕ) (orders : List ℕ) (m : Mem) :
    allocLargerWith (fun _ _ => .ok ()) zone order orders m = allocLarger zone order orders m := by
  induction orders with
  | nil => rfl
  | cons i rest ih =>
      rw [allocLargerWith, allocLarger]
      simp only [flipBelowTop_ok, ok_bind, splitBlockWith_ok, ih]

theorem zoneAllocWith_ok (order : ℕ) (m : Mem) :
    zoneAllocWith (fun _ _ => .ok ()) zone order m = zoneAlloc zone order m := by
  rw [zoneAllocWith, zoneAlloc]
  simp only [ok_bind, allocLargerWith_ok]

theorem coalesceWith_ok (count block order : ℕ) (m : Mem) :
    coalesceWith (fun _ _ => .ok ()) zone count block order m = coalesce zone count block order m := by
  induction count generalizing block order m with
  | zero => rfl
  | succ count ih =>
      rw [coalesceWith, coalesce, ok_bind]
      refine if_congr Iff.rfl rfl ?_
      exact bind_congr fun m' => ih _ _ m'

theorem zoneDeallocWith_ok (addr order : ℕ) (m : Mem) :
    zoneDeallocWith (fun _ _ => .ok ()) zone addr order m = zoneDealloc zone addr order m := by
  rw [zoneDeallocWith, zoneDealloc]
  refine bind_congr fun _ => bind_congr fun _ => bind_congr fun _ => ?_
  rw [coalesceWith_ok]

end NoHook

/-! ## Bitmaps as arrays -/

/-- The bitmaps are arrays with a bit for every pair; the top order has none. -/
def checkAccess (zone : AllocatorZone) (order i : ℕ) : Except Panic Unit :=
  if order < maxOrder ∧ i / 8 < zone.bitmapBytes order then .ok ()
  else .error "bitmap accessed outside its bounds"

variable {zone : AllocatorZone} {m : Mem} {free : ℕ → List ℕ} {live : Multiset Block}

theorem checkAccess_of_lt {order i : ℕ} (horder : order < maxOrder) (hi : i < zone.pairs order) :
    checkAccess zone order i = .ok () := by
  refine if_pos ⟨horder, ?_⟩
  unfold AllocatorZone.bitmapBytes
  omega

/-- The pair of a free or live block has a bit. -/
theorem ZoneInv.checkAccess_eq (h : ZoneInv zone m free live) {b : Block}
    (hb : b ∈ freeBlocks free + live) (hk : b.order < maxOrder) :
    checkAccess zone b.order (zone.buddyIndex b.addr b.order) = .ok () := by
  obtain ⟨t, -, hpair, hindex⟩ := h.exists_index hb hk
  rw [hindex]
  exact checkAccess_of_lt hk hpair

/-- The split loop stays inside the bitmaps. -/
theorem splitBlockWith_check {order block count : ℕ}
    (h : ZoneInv zone m free (⟨block, order + count⟩ ::ₘ live)) :
    splitBlockWith (checkAccess zone) zone order block count m = splitBlock zone order block count m := by
  induction count generalizing m free with
  | zero => rfl
  | succ count ih =>
      obtain ⟨hj, -, -, hhalves, -⟩ := h.halves (j := order + count)
      have hlow : (⟨block, order + count⟩ : Block) ∈ freeBlocks free +
          (⟨block + blockSize (order + count), order + count⟩ ::ₘ ⟨block, order + count⟩ ::ₘ live) := by
        simp
      have haccess := hhalves.checkAccess_eq hlow hj
      obtain ⟨hbuddy, hsplit⟩ := h.split (j := order + count)
      have hinside := h.pieces.live_inside (Multiset.mem_cons_self _ _)
      have hstart := h.layout.start_ne
      have hne : buddyAddr block (order + count) ≠ 0 := by
        have hle : zone.startAddr ≤ block := hinside.1
        omega
      rw [splitBlockWith, splitBlock]
      simp only [haccess, ok_bind, listInit_eq _ hne, listInsertAfter_eq _ (h.layout.head_ne _) hne]
      exact ih hsplit

/-- The search over larger orders stays inside the bitmaps. -/
theorem allocLargerWith_check (h : ZoneInv zone m free live) {order : ℕ} {orders : List ℕ}
    (horders : ∀ i ∈ orders, order ≤ i ∧ i ≤ maxOrder) :
    allocLargerWith (checkAccess zone) zone order orders m = allocLarger zone order orders m := by
  induction orders with
  | nil => rfl
  | cons i rest ih =>
      obtain ⟨hle, hmax⟩ := horders i List.mem_cons_self
      rw [allocLargerWith, allocLarger, h.listEmpty_head hmax, ok_bind, ok_bind]
      cases hfree : free i with
      | nil =>
          simp only [decide_true, if_true]
          exact ih fun j hj => horders j (List.mem_cons_of_mem _ hj)
      | cons b bs =>
          have hb : b ∈ free i := by simp [hfree]
          have hnext : next m (zone.head i) = b := by
            rw [(h.rings i hmax).next_head, hfree]
            rfl
          have hcut : free i = [] ++ b :: bs := hfree
          have hsplit : i = order + (i - order) := by omega
          simp only [List.cons_ne_nil, decide_false, Bool.false_eq_true, if_false, hnext,
            h.listExtract_eq hmax hb, ok_bind]
          by_cases hi : i < maxOrder
          · have haccess := h.checkAccess_eq (Pieces.free_mem hmax hb) hi
            have htaken := h.take hi hcut
            rw [hsplit] at htaken
            simp only [flipBelowTop, if_pos hi, haccess, ok_bind, pure_bind]
            rw [splitBlockWith_check (by rw [← hsplit] at htaken ⊢; exact htaken)]
          · obtain rfl : i = maxOrder := by omega
            have htaken := h.take_top hcut
            rw [hsplit] at htaken
            simp only [flipBelowTop, if_neg hi, pure_bind]
            rw [splitBlockWith_check (by rw [← hsplit] at htaken ⊢; exact htaken)]

theorem mem_range'_orders {order i : ℕ} (hi : i ∈ List.range' order (maxOrder + 1 - order)) :
    order ≤ i ∧ i ≤ maxOrder := by
  rw [List.mem_range'_1] at hi
  omega

/-- `zone_alloc` stays inside the bitmaps for an order that has one, and for the top order
when its list is empty. -/
theorem zoneAllocWith_check (h : ZoneInv zone m free live) {order : ℕ} (horder : order ≤ maxOrder)
    (htop : order = maxOrder → free order = []) :
    zoneAllocWith (checkAccess zone) zone order m = zoneAlloc zone order m := by
  rw [zoneAllocWith, zoneAlloc, h.listEmpty_head horder]
  refine bind_congr fun _ => bind_congr fun _ => ?_
  rw [ok_bind, ok_bind]
  cases hfree : free order with
  | nil =>
      simp only [decide_true, if_true]
      exact allocLargerWith_check h fun i hi => mem_range'_orders hi
  | cons b bs =>
      have hb : b ∈ free order := by simp [hfree]
      have hlt : order < maxOrder := by
        refine lt_of_le_of_ne horder fun heq => ?_
        rw [htop heq] at hfree
        cases hfree
      have hnext : next m (zone.head order) = b := by
        rw [(h.rings order horder).next_head, hfree]
        rfl
      simp only [List.cons_ne_nil, decide_false, Bool.false_eq_true, if_false, hnext,
        h.listExtract_eq horder hb, ok_bind, h.checkAccess_eq (Pieces.free_mem horder hb) hlt]

/-- An exact fit at the top order asks for the bitmap that does not exist. -/
theorem zoneAllocWith_top (h : ZoneInv zone m free live) (hne : free maxOrder ≠ []) :
    ∀ r, zoneAllocWith (checkAccess zone) zone maxOrder m ≠ .ok r := by
  intro r hrun
  obtain ⟨b, bs, hfree⟩ := List.exists_cons_of_ne_nil hne
  have hb : b ∈ free maxOrder := by simp [hfree]
  rw [zoneAllocWith, kassert_of_true h.layout.addr_ne, ok_bind, kassert_of_true le_rfl, ok_bind,
    h.listEmpty_head le_rfl, ok_bind, if_neg (by simpa using hne)] at hrun
  obtain ⟨m1, -, hrun⟩ := bind_eq_ok.mp hrun
  obtain ⟨_, haccess, -⟩ := bind_eq_ok.mp hrun
  rw [checkAccess, if_neg fun hlt => lt_irrefl _ hlt.1] at haccess
  cases haccess

/-- At the top order an empty list means that there is nothing to allocate. -/
theorem zoneAlloc_top_empty (h : ZoneInv zone m free live) (hempty : free maxOrder = []) :
    zoneAlloc zone maxOrder m = .ok (0, m) := by
  rw [zoneAlloc, kassert_of_true h.layout.addr_ne, ok_bind, kassert_of_true le_rfl, ok_bind,
    h.listEmpty_head le_rfl, ok_bind, if_pos (by simpa using hempty)]
  have hrange : List.range' maxOrder (maxOrder + 1 - maxOrder) = [maxOrder] := by decide
  rw [hrange, allocLarger, h.listEmpty_head le_rfl, ok_bind, if_pos (by simpa using hempty)]
  rfl

/-- The coalescing loop stays inside the bitmaps. -/
theorem coalesceWith_check (count : ℕ) {block order : ℕ} (hcount : order + count = maxOrder)
    (h : ZoneInv zone m free (⟨block, order⟩ ::ₘ live)) :
    coalesceWith (checkAccess zone) zone count block order m = coalesce zone count block order m := by
  induction count generalizing m free block order with
  | zero => rfl
  | succ count ih =>
      have hk : order < maxOrder := by omega
      have hmem : (⟨block, order⟩ : Block) ∈ freeBlocks free + (⟨block, order⟩ ::ₘ live) := by simp
      have haccess := h.checkAccess_eq hmem hk
      simp only at haccess
      have hmod : zone.buddyIndex block order % 8 < 8 := Nat.mod_lt _ (by decide)
      rw [coalesceWith, coalesce, haccess, ok_bind]
      refine if_ctx_congr Iff.rfl (fun _ => rfl) fun hset => ?_
      have hbit : zone.bit m order (zone.buddyIndex block order) = true := by
        rw [getBit_eq_zero_iff _ hmod] at hset
        simpa [AllocatorZone.bit] using hset
      obtain ⟨hbuddyFree, hmerge⟩ := h.merge hk hbit
      obtain ⟨before, after, hcut⟩ := List.append_of_mem hbuddyFree
      have hlists := h.mergeExtract_eq hk hbuddyFree
      simp only [hlists, ok_bind]
      exact ih (by omega) (hmerge before after hcut)

/-- `zone_dealloc` of a live block stays inside the bitmaps. -/
theorem zoneDeallocWith_check {b : Block} (h : ZoneInv zone m free (b ::ₘ live)) :
    zoneDeallocWith (checkAccess zone) zone b.addr b.order m = zoneDealloc zone b.addr b.order m := by
  have horder := (h.pieces.live_aligned (Multiset.mem_cons_self b live)).1
  rw [zoneDeallocWith, zoneDealloc]
  refine bind_congr fun _ => bind_congr fun _ => bind_congr fun _ => ?_
  rw [coalesceWith_check (maxOrder - b.order) (by omega) h]

/-! ## Runs -/

/-- The range the assertions admit: orders up to the top, live blocks. -/
def ZoneCall.Admitted (s : ZoneState) : ZoneCall → Prop
  | .alloc order => order ≤ maxOrder
  | .dealloc block => block ∈ s.live

/-- Not an allocation of the top order from a list that is not empty. -/
def ZoneCall.AvoidsTopFit (zone : AllocatorZone) (s : ZoneState) : ZoneCall → Prop
  | .alloc order => order = maxOrder → next s.mem (zone.head maxOrder) = zone.head maxOrder
  | .dealloc _ => True

/-- The call executed with every bitmap access checked. -/
def zoneCallChecked (zone : AllocatorZone) (s : ZoneState) : ZoneCall → Except Panic Unit
  | .alloc order => do
      let _ ← zoneAllocWith (checkAccess zone) zone order s.mem
      return ()
  | .dealloc block => do
      let _ ← zoneDeallocWith (checkAccess zone) zone block.addr block.order s.mem
      return ()

/-- A call that the assertions admit, that avoids the exact fit at the top and returns. -/
def AvoidingStep (zone : AllocatorZone) (s : ZoneState) (call : ZoneCall) (t : ZoneState) : Prop :=
  call.Admitted s ∧ call.AvoidsTopFit zone s ∧ ∃ result, zoneCall zone s call = .ok (result, t)

theorem AvoidingStep.wellFormed {s t : ZoneState} {call : ZoneCall} (hstep : AvoidingStep zone s call t)
    (h : WellFormed zone s.mem s.live) : WellFormed zone t.mem t.live := by
  obtain ⟨hadmitted, havoids, result, hcall⟩ := hstep
  have hlegal : call.Legal s → WellFormed zone t.mem t.live := by
    intro hlegal
    obtain ⟨result', t', hcall', hwf, -⟩ := zoneCall_spec call h hlegal
    obtain ⟨-, rfl⟩ := Prod.mk.inj (Except.ok.inj (hcall.symm.trans hcall'))
    exact hwf
  cases call with
  | dealloc block => exact hlegal hadmitted
  | alloc order =>
      rcases Nat.lt_or_eq_of_le (show order ≤ maxOrder from hadmitted) with hlt | rfl
      · exact hlegal hlt
      · obtain ⟨free, hinv⟩ := h
        have hempty : free maxOrder = [] := ((hinv.rings maxOrder le_rfl).next_head_eq_iff).mp
          (havoids rfl)
        rw [zoneCall, zoneAlloc_top_empty hinv hempty] at hcall
        obtain ⟨-, rfl⟩ := Prod.mk.inj (Except.ok.inj hcall)
        exact ⟨free, hinv⟩

/-- Along every run that avoids it, the exact fit at the top order is the only admitted
call that leaves the bitmaps. -/
theorem zone_run_bitmap_accesses (zone : AllocatorZone) {s t : ZoneState} {calls : List ZoneCall}
    (hstart : WellFormed zone s.mem s.live) (hrun : Run (AvoidingStep zone) s calls t) :
    ∀ call : ZoneCall, call.Admitted t →
      (zoneCallChecked zone t call = .ok () ↔ call.AvoidsTopFit zone t) := by
  obtain ⟨free, hinv⟩ := hrun.invariant (fun u => WellFormed zone u.mem u.live) hstart
    fun a call b ha hstep => hstep.wellFormed ha
  intro call hadmitted
  cases call with
  | alloc order =>
      have hempty := (hinv.rings maxOrder le_rfl).next_head_eq_iff
      constructor
      · rintro hchecked rfl
        by_contra hne
        obtain ⟨r, hr, -⟩ := bind_eq_ok.mp hchecked
        exact zoneAllocWith_top hinv (fun hnil => hne (hempty.mpr hnil)) r hr
      · intro havoids
        rw [zoneCallChecked, zoneAllocWith_check hinv hadmitted ?_]
        · rcases Nat.lt_or_eq_of_le (show order ≤ maxOrder from hadmitted) with hlt | rfl
          · obtain ⟨block, m', hok, -⟩ := zoneAlloc_spec hinv hlt
            rw [hok]
            rfl
          · rw [zoneAlloc_top_empty hinv (hempty.mp (havoids rfl))]
            rfl
        · rintro rfl
          exact hempty.mp (havoids rfl)
  | dealloc block =>
      obtain ⟨rest, hrest⟩ := Multiset.exists_cons_of_mem (show block ∈ t.live from hadmitted)
      rw [hrest] at hinv
      obtain ⟨m', free', hok, -⟩ := zoneDealloc_spec hinv
      refine iff_of_true ?_ trivial
      rw [zoneCallChecked, zoneDeallocWith_check hinv, hok]
      rfl

/-- A page and eight pages are split off a fully free zone. Then both the next allocation and
giving the page back stay inside the bitmaps. -/
theorem zone_run_bitmap_accesses_split : ∃ block t,
    Run (AvoidingStep oneBlockZone) ⟨freeZoneMem, 0⟩ [.alloc 0, .alloc 3] t ∧ (⟨block, 0⟩ : Block) ∈ t.live ∧
      zoneCallChecked oneBlockZone t (.alloc 5) = .ok () ∧ zoneCallChecked oneBlockZone t (.dealloc ⟨block, 0⟩) = .ok () := by
  obtain ⟨block, m1, hrun1, hnull, hsome⟩ := zoneAlloc_spec freeZone_inv (show 0 < maxOrder by decide)
  have hne : block ≠ 0 := fun hzero => by
    obtain ⟨i, hi, hfree⟩ := freeZone_inv.exists_free
    exact hfree ((hnull hzero).2 i (Nat.zero_le _) hi)
  obtain ⟨free1, hinv1, -⟩ := hsome hne
  obtain ⟨block', m2, hrun2, -⟩ := zoneAlloc_spec hinv1 (show 3 < maxOrder by decide)
  have hfirst : AvoidingStep oneBlockZone ⟨freeZoneMem, 0⟩ (.alloc 0) ⟨m1, ⟨block, 0⟩ ::ₘ 0⟩ := by
    refine ⟨show 0 ≤ maxOrder by decide, fun htop => absurd htop (by decide), block, ?_⟩
    rw [zoneCall, hrun1, ok_bind]
    simp only [if_neg hne]
    rfl
  have hsecond : AvoidingStep oneBlockZone ⟨m1, ⟨block, 0⟩ ::ₘ 0⟩ (.alloc 3)
      ⟨m2, if block' = 0 then ⟨block, 0⟩ ::ₘ 0 else ⟨block', 3⟩ ::ₘ ⟨block, 0⟩ ::ₘ 0⟩ := by
    refine ⟨show 3 ≤ maxOrder by decide, fun htop => absurd htop (by decide), block', ?_⟩
    rw [zoneCall, hrun2, ok_bind]
    rfl
  have hrun := (Run.single (AvoidingStep oneBlockZone) hfirst).snoc hsecond
  have hmem : (⟨block, 0⟩ : Block) ∈ if block' = 0 then ⟨block, 0⟩ ::ₘ 0 else (⟨block', 3⟩ : Block) ::ₘ ⟨block, 0⟩ ::ₘ 0 := by
    split_ifs
    · exact Multiset.mem_cons_self _ _
    · exact Multiset.mem_cons_of_mem (Multiset.mem_cons_self _ _)
  have hinside := zone_run_bitmap_accesses oneBlockZone ⟨_, freeZone_inv⟩ hrun
  exact ⟨block, _, hrun, hmem, (hinside (.alloc 5) (show 5 ≤ maxOrder by decide)).mpr fun htop => absurd htop (by decide),
    (hinside (.dealloc ⟨block, 0⟩) hmem).mpr trivial⟩

/-- In a fully free zone, asking for a block of the top order accesses the missing bitmap. -/
theorem zoneAlloc_top_accesses_missing :
    (∃ free, ZoneInv oneBlockZone freeZoneMem free 0 ∧ ∀ k < maxOrder, free k = []) ∧
      (ZoneCall.alloc maxOrder).Admitted ⟨freeZoneMem, 0⟩ ∧
      zoneCallChecked oneBlockZone ⟨freeZoneMem, 0⟩ (.alloc maxOrder) ≠ .ok () := by
  refine ⟨⟨_, freeZone_inv, freeZoneLists_lower⟩, show maxOrder ≤ maxOrder from le_rfl, ?_⟩
  intro hchecked
  obtain ⟨r, hr, -⟩ := bind_eq_ok.mp hchecked
  refine zoneAllocWith_top freeZone_inv ?_ r hr
  rw [freeZoneLists, Function.update_self]
  exact List.cons_ne_nil _ _

end HeavenOS

/-
# The frame allocator

`frames_alloc` asks the zones one after the other, `frames_free` looks for the zone
around the address. An operation on one zone writes nothing of another, so the zones
are well-formed together along every run, and the allocator gives up only when no zone
has room.
-/

import HeavenOS.Mm.ZoneAdd
import HeavenOS.Mm.ZoneCoalesced

namespace HeavenOS

open Lib Lib.Ring

/-- The loop of `pages2order`, with at most `count` iterations to come. -/
def pages2orderLoop (pages : ℕ) : (count order : ℕ) → ℕ
  | 0, order => order
  | count + 1, order => if 2 ^ order < pages then pages2orderLoop pages count (order + 1) else order

/-- `pages2order`. What the assertion lets through leaves the loop after `MAX_ORDER`
iterations at the latest. -/
def pages2order (pages : ℕ) : Except Panic ℕ := do
  kassert (pages ≤ 2 ^ maxOrder) "pages <= (1 << 10)"
  return pages2orderLoop pages maxOrder 0

/-- The loop of `frames_alloc` from zone `i` on: the zone it stopped at, what
`zone_alloc` returned there, and memory. -/
def allocFrom (order : ℕ) : List AllocatorZone → ℕ → Mem → Except Panic (ℕ × ℕ × Mem)
  | [], i, m => return (i, 0, m)
  | zone :: rest, i, m => do
      let (block, m) ← zoneAlloc zone order m
      if block ≠ 0 then return (i, block, m) else allocFrom order rest (i + 1) m

/-- `frames_alloc` -/
def framesAlloc (zones : List AllocatorZone) (n : ℕ) (m : Mem) : Except Panic (ℕ × Mem) := do
  let order ← pages2order n
  let (_, block, m) ← allocFrom order zones 0 m
  return (block, m)

/-- `%p` of `printk` -/
def bprintptr (ptr : ℕ) : String :=
  if ptr = 0 then "(nil)" else "0x" ++ String.ofList (Nat.toDigits 16 ptr)

/-- `frames_free` -/
def framesFree (zones : List AllocatorZone) (addr n : ℕ) (m : Mem) : Except Panic Mem := do
  let order ← pages2order n
  match zones.find? fun zone => zone.startAddr ≤ addr ∧ addr < zone.endAddr with
  | some zone => zoneDealloc zone addr order m
  | none => .error ("frames_free on unknown address " ++ bprintptr addr)

/-! ## The order of a request -/

/-- The loop stops at the least order that is large enough. -/
theorem pages2orderLoop_spec {pages count order : ℕ} (hroom : pages ≤ 2 ^ (order + count))
    (hleast : ∀ j < order, 2 ^ j < pages) :
    pages ≤ 2 ^ pages2orderLoop pages count order ∧
      ∀ j < pages2orderLoop pages count order, 2 ^ j < pages := by
  induction count generalizing order with
  | zero => exact ⟨hroom, hleast⟩
  | succ count ih =>
      rw [pages2orderLoop]
      by_cases hlt : 2 ^ order < pages
      · rw [if_pos hlt]
        refine ih (by rwa [Nat.add_right_comm]) fun j hj => ?_
        rcases Nat.lt_succ_iff_lt_or_eq.mp hj with hj | rfl
        · exact hleast j hj
        · exact hlt
      · rw [if_neg hlt]
        exact ⟨not_lt.mp hlt, hleast⟩

/-- The order of a request, as `pages2order` computes it. -/
def orderOf (n : ℕ) : ℕ := pages2orderLoop n maxOrder 0

/-- A request of at most 512 pages has an order with a bitmap, the least that fits. -/
theorem pages2order_eq {n : ℕ} (hn : n ≤ 512) :
    pages2order n = .ok (orderOf n) ∧ orderOf n < maxOrder ∧ n ≤ 2 ^ orderOf n ∧
      ∀ j, n ≤ 2 ^ j → orderOf n ≤ j := by
  have hmax : n ≤ 2 ^ maxOrder := hn.trans (by decide)
  obtain ⟨hfits, hleast⟩ := @pages2orderLoop_spec n maxOrder 0 (by rwa [Nat.zero_add])
    fun j hj => absurd hj (Nat.not_lt_zero j)
  have hmin : ∀ j, n ≤ 2 ^ j → orderOf n ≤ j := by
    intro j hj
    by_contra hlt
    exact absurd hj (not_le.mpr (hleast j (not_le.mp hlt)))
  refine ⟨?_, Nat.lt_succ_of_le (hmin 9 hn), hfits, hmin⟩
  rw [pages2order, kassert_of_true hmax]
  rfl

/-! ## Several zones -/

/-- No byte is part of two zones. -/
def Separate (zones : List AllocatorZone) : Prop :=
  ∀ (i j : ℕ) (zone zone' : AllocatorZone), zones[i]? = some zone → zones[j]? = some zone' →
    i ≠ j → ∀ x, zone.Uses x → ¬zone'.Uses x

/-- The invariant of every zone, with its free lists and live blocks named by its index. -/
structure ZonesInv (zones : List AllocatorZone) (m : Mem) (free : ℕ → ℕ → List ℕ)
    (live : ℕ → Multiset Block) : Prop where
  separate : Separate zones
  zone : ∀ i zone, zones[i]? = some zone → ZoneInv zone m (free i) (live i)

/-- The zone invariant is about the memory the zone uses. -/
theorem ZoneInv.congr {zone : AllocatorZone} {m m' : Mem} {free : ℕ → List ℕ}
    {live : Multiset Block} (h : ZoneInv zone m free live)
    (hsame : ∀ x, zone.Uses x → m' x = m x) : ZoneInv zone m' free live := by
  refine ⟨⟨h.layout, fun k hk => ?_, h.pieces⟩, fun k hk pair hpair => ?_⟩
  · refine (h.rings k hk).congr fun a ha x hlo hhi => hsame x ?_
    have hcell := h.nodesInside.cell hk ha
    rcases hcell with hcell | hcell
    · exact Or.inl (by omega)
    · exact Or.inr (Or.inl (by omega))
  · rw [← h.bits k hk pair hpair, AllocatorZone.bit, AllocatorZone.bit, hsame]
    refine Or.inr (Or.inr ⟨k, hk, Nat.le_add_right _ _, ?_⟩)
    unfold AllocatorZone.bitmapBytes
    omega

section Zones

variable {zones : List AllocatorZone} {m m' : Mem} {free : ℕ → ℕ → List ℕ}
  {live : ℕ → Multiset Block}

/-- An operation on one zone keeps all the others. -/
theorem ZonesInv.update (h : ZonesInv zones m free live) {i : ℕ} {zone : AllocatorZone}
    (hi : zones[i]? = some zone) {free' : ℕ → List ℕ} {live' rest : Multiset Block}
    (hinv : ZoneInv zone m' free' live') (hkeeps : Keeps zone rest (free i) m free' m') :
    ZonesInv zones m' (Function.update free i free') (Function.update live i live') := by
  refine ⟨h.separate, fun j zone' hj => ?_⟩
  by_cases hji : j = i
  · subst hji
    obtain rfl := Option.some.inj (hi.symm.trans hj)
    rwa [Function.update_self, Function.update_self]
  · rw [Function.update_of_ne hji, Function.update_of_ne hji]
    refine (h.zone j zone' hj).congr fun x hx => hkeeps.frame x (Or.inl ?_)
    exact h.separate j i zone' zone hj hi hji x hx

/-- An operation on one zone changes no byte of a block that stays live, in any zone. -/
theorem ZonesInv.frame (h : ZonesInv zones m free live) {i j : ℕ} {zone zone' : AllocatorZone}
    (hi : zones[i]? = some zone) (hj : zones[j]? = some zone') {free' : ℕ → List ℕ}
    {rest : Multiset Block} (hkeeps : Keeps zone rest (free i) m free' m') {b : Block}
    (hb : b ∈ live j) (hrest : j = i → b ∈ rest) {x : ℕ} (hlo : b.addr ≤ x) (hhi : x < b.stop) :
    m' x = m x := by
  refine hkeeps.frame x ?_
  by_cases hji : j = i
  · exact Or.inr ⟨b, hrest hji, hlo, hhi⟩
  · have hinside := (h.zone j zone' hj).pieces.live_inside hb
    exact Or.inl (h.separate j i zone' zone hj hi hji x (Or.inl (by omega)))

/-- What a successful allocation does. -/
structure AllocatedFrom (zones : List AllocatorZone) (order : ℕ) (m : Mem) (free : ℕ → ℕ → List ℕ)
    (live : ℕ → Multiset Block) (i block : ℕ) (zone : AllocatorZone) (free' : ℕ → List ℕ) (m' : Mem) :
    Prop where
  at_index : zones[i]? = some zone
  inv : ZoneInv zone m' free' (⟨block, order⟩ ::ₘ live i)
  keeps : Keeps zone (live i) (free i) m free' m'
  zeroed : Zeroed m' block order

/-- The loop of `frames_alloc` finds a block in some zone, or every list from the order
on is empty in every zone it looked at. -/
theorem allocFrom_spec (h : ZonesInv zones m free live) {order : ℕ} (horder : order < maxOrder)
    (rest : List AllocatorZone) (i : ℕ) (hrest : zones.drop i = rest) :
    ∃ j block m', allocFrom order rest i m = .ok (j, block, m') ∧
      (block = 0 → m' = m ∧ ∀ j ≥ i, ∀ zone, zones[j]? = some zone →
        ∀ k, order ≤ k → k ≤ maxOrder → free j k = []) ∧
      (block ≠ 0 → ∃ zone free', AllocatedFrom zones order m free live j block zone free' m') := by
  induction rest generalizing i with
  | nil =>
      refine ⟨i, 0, m, rfl, fun _ => ⟨rfl, fun j hj zone hzone => ?_⟩, fun hne => absurd rfl hne⟩
      have hlen := List.drop_eq_nil_iff.mp hrest
      rw [List.getElem?_eq_none (by omega)] at hzone
      cases hzone
  | cons zone rest ih =>
      have hzone : zones[i]? = some zone := by
        rw [← Nat.add_zero i, ← List.getElem?_drop, hrest]
        rfl
      have hrest' : zones.drop (i + 1) = rest := by
        rw [← List.drop_drop, hrest]
        rfl
      obtain ⟨block, m1, hrun, hnull, hsome⟩ := zoneAlloc_spec (h.zone i zone hzone) horder
      by_cases hzero : block = 0
      · obtain ⟨rfl, hempty⟩ := hnull hzero
        obtain ⟨j, block', m', hrun', hnull', hsome'⟩ := ih (i + 1) hrest'
        refine ⟨j, block', m', ?_, fun hblock => ⟨(hnull' hblock).1, fun j hj zone' hzone' => ?_⟩,
          hsome'⟩
        · rw [allocFrom, hrun, ok_bind]
          simpa [hzero] using hrun'
        · rcases Nat.eq_or_lt_of_le hj with rfl | hlt
          · exact hempty
          · exact (hnull' hblock).2 j hlt zone' hzone'
      · obtain ⟨free', hinv, hkeeps, hzeroed⟩ := hsome hzero
        refine ⟨i, block, m1, ?_, fun hblock => absurd hblock hzero,
          fun _ => ⟨zone, free', hzone, hinv, hkeeps, hzeroed⟩⟩
        rw [allocFrom, hrun, ok_bind]
        simp only [ne_eq, hzero, not_false_eq_true, if_true]
        rfl

/-- `frames_free` of a live block works on the zone the block is in. -/
theorem framesFree_eq (h : ZonesInv zones m free live) {i n addr : ℕ} {zone : AllocatorZone}
    (hi : zones[i]? = some zone) (hlive : ⟨addr, orderOf n⟩ ∈ live i) (hn : n ≤ 512) :
    framesFree zones addr n m = zoneDealloc zone addr (orderOf n) m := by
  have hinside := (h.zone i zone hi).pieces.live_inside hlive
  have hpos := blockSize_pos (orderOf n)
  simp only [Block.stop] at hinside
  have hfind : zones.find? (fun zone => zone.startAddr ≤ addr ∧ addr < zone.endAddr) =
      some zone := by
    rw [List.find?_eq_some_iff_getElem]
    obtain ⟨hlt, hget⟩ := List.getElem?_eq_some_iff.mp hi
    refine ⟨by simp; omega, i, hlt, hget, fun j hj => ?_⟩
    simp only [Bool.not_eq_true', decide_eq_false_iff_not]
    intro hin
    -- the address would be part of two zones
    have hjlt : j < zones.length := by omega
    exact h.separate j i zones[j] zone (List.getElem?_eq_getElem hjlt) hi (by omega) addr
      (Or.inl hin) (Or.inl (by omega))
  rw [framesFree, (pages2order_eq hn).1, ok_bind]
  simp only [hfind]

end Zones

/-! ## Runs -/

/-- A block handed out by `frames_alloc(n)`, with the index of the zone it came from. -/
structure Allocation where
  zone : ℕ
  addr : ℕ
  n : ℕ
  deriving DecidableEq

def Allocation.block (a : Allocation) : Block := ⟨a.addr, orderOf a.n⟩

/-- Memory, and what was handed out and not yet given back. -/
structure FramesState where
  mem : Mem
  live : Multiset Allocation

/-- The live blocks of a zone: those that were live before the run, and those handed out
in it. -/
def liveIn (base : ℕ → Multiset Block) (live : Multiset Allocation) (i : ℕ) : Multiset Block :=
  base i + (live.filter fun a => a.zone = i).map Allocation.block

inductive FramesCall
  | alloc (n : ℕ)
  | free (a : Allocation)

/-- Requests are for 1 to 512 pages; what was allocated is given back with the same `n`. -/
def FramesCall.Legal (s : FramesState) : FramesCall → Prop
  | .alloc n => 1 ≤ n ∧ n ≤ 512
  | .free a => a ∈ s.live

/-- Execute one call. The result is what `frames_alloc` returned; the ghost state notes the
zone at which its loop stopped. -/
def framesCall (zones : List AllocatorZone) (s : FramesState) :
    FramesCall → Except Panic (ℕ × FramesState)
  | .alloc n => do
      let order ← pages2order n
      let (i, block, m) ← allocFrom order zones 0 s.mem
      return (block, ⟨m, if block = 0 then s.live else ⟨i, block, n⟩ ::ₘ s.live⟩)
  | .free a => do
      let m ← framesFree zones a.addr a.n s.mem
      return (0, ⟨m, s.live.erase a⟩)

def FramesStep (zones : List AllocatorZone) (s : FramesState) (call : FramesCall) (t : FramesState) :
    Prop :=
  call.Legal s ∧ ∃ result, framesCall zones s call = .ok (result, t)

theorem framesCall_alloc_eq (zones : List AllocatorZone) (s : FramesState) (n : ℕ) :
    (framesCall zones s (.alloc n)).map (fun r => (r.1, r.2.mem)) = framesAlloc zones n s.mem := by
  rw [framesCall, framesAlloc]
  cases pages2order n with
  | error e => rfl
  | ok order =>
      simp only [ok_bind]
      cases allocFrom order zones 0 s.mem with
      | error e => rfl
      | ok r => rfl

theorem liveIn_cons (base : ℕ → Multiset Block) (a : Allocation) (live : Multiset Allocation) :
    liveIn base (a ::ₘ live) =
      Function.update (liveIn base live) a.zone (a.block ::ₘ liveIn base live a.zone) := by
  funext i
  unfold liveIn
  by_cases hi : i = a.zone
  · subst hi
    have hpos : (a ::ₘ live).filter (fun b => b.zone = a.zone) =
        a ::ₘ live.filter fun b => b.zone = a.zone := Multiset.filter_cons_of_pos live rfl
    rw [Function.update_self, hpos, Multiset.map_cons, Multiset.add_cons]
  · have hneg : (a ::ₘ live).filter (fun b => b.zone = i) = live.filter fun b => b.zone = i :=
      Multiset.filter_cons_of_neg live (Ne.symm hi)
    rw [Function.update_of_ne hi, hneg]

/-- The invariant of a run: every zone is well-formed with its live blocks, and every
allocation names a zone and a legal size. -/
structure FramesInv (zones : List AllocatorZone) (base : ℕ → Multiset Block) (s : FramesState)
    (free : ℕ → ℕ → List ℕ) : Prop extends ZonesInv zones s.mem free (liveIn base s.live) where
  bounds : ∀ a ∈ s.live, a.zone < zones.length ∧ a.n ≤ 512

/-- What a call does to a state with the invariant. -/
structure FramesCallSpec (zones : List AllocatorZone) (base : ℕ → Multiset Block) (s : FramesState)
    (free : ℕ → ℕ → List ℕ) (t : FramesState) (free' : ℕ → ℕ → List ℕ) : Prop where
  inv : FramesInv zones base t free'
  coalesced : ∀ (i : ℕ) (zone : AllocatorZone), zones[i]? = some zone →
    Coalesced zone (free i) → Coalesced zone (free' i)
  /-- Blocks that are live before and after the call. -/
  live_frame : ∀ i < zones.length, ∀ b ∈ liveIn base s.live i, b ∈ liveIn base t.live i →
    ∀ x, b.addr ≤ x → x < b.stop → t.mem x = s.mem x
  /-- Memory that is no zone's. -/
  outside_frame : ∀ x, (∀ zone ∈ zones, ¬zone.Uses x) → t.mem x = s.mem x

section Runs

variable {zones : List AllocatorZone} {base : ℕ → Multiset Block} {s : FramesState}
  {free : ℕ → ℕ → List ℕ}

/-- A call that works on one zone. -/
theorem FramesInv.callSpec (h : FramesInv zones base s free) {i : ℕ} {zone : AllocatorZone}
    (hi : zones[i]? = some zone) {free' : ℕ → List ℕ} {t : FramesState} {live' rest : Multiset Block}
    (hinv : ZoneInv zone t.mem free' live')
    (hlive : liveIn base t.live = Function.update (liveIn base s.live) i live')
    (hkeeps : Keeps zone rest (free i) s.mem free' t.mem)
    (hrest : ∀ b ∈ liveIn base s.live i, b ∈ liveIn base t.live i → b ∈ rest)
    (hbounds : ∀ a ∈ t.live, a.zone < zones.length ∧ a.n ≤ 512) :
    FramesCallSpec zones base s free t (Function.update free i free') := by
  refine ⟨⟨?_, hbounds⟩, fun j zone' hj hc => ?_, fun j hj b hb hb' x hlo hhi => ?_, fun x hx => ?_⟩
  · rw [hlive]
    exact h.update hi hinv hkeeps
  · by_cases hji : j = i
    · subst hji
      obtain rfl := Option.some.inj (hi.symm.trans hj)
      rw [Function.update_self]
      exact hkeeps.coalesced hc
    · rwa [Function.update_of_ne hji]
  · exact h.frame hi (List.getElem?_eq_getElem hj) hkeeps hb
      (fun hji => hrest b (hji ▸ hb) (hji ▸ hb')) hlo hhi
  · exact hkeeps.frame x (Or.inl (hx zone (List.mem_of_getElem? hi)))

/-- `frames_alloc` returns. It fails only where every list from the order on is empty, and
then changes nothing; a block it returns is zero. -/
theorem framesCall_alloc_spec (h : FramesInv zones base s free) {n : ℕ} (hn : 1 ≤ n ∧ n ≤ 512) :
    ∃ block t, framesCall zones s (.alloc n) = .ok (block, t) ∧
      (block = 0 → t = s ∧ ∀ (j : ℕ) (zone : AllocatorZone), zones[j]? = some zone →
        ∀ k, orderOf n ≤ k → k ≤ maxOrder → free j k = []) ∧
      (block ≠ 0 → Zeroed t.mem block (orderOf n) ∧ ∃ i zone, zones[i]? = some zone ∧
        t.live = ⟨i, block, n⟩ ::ₘ s.live) ∧
      ∃ free', FramesCallSpec zones base s free t free' := by
  obtain ⟨horder, hlt, -, -⟩ := pages2order_eq hn.2
  obtain ⟨i, block, m', hrun, hnull, hsome⟩ := allocFrom_spec h.toZonesInv hlt zones 0 rfl
  have hcall : framesCall zones s (.alloc n) =
      .ok (block, ⟨m', if block = 0 then s.live else ⟨i, block, n⟩ ::ₘ s.live⟩) := by
    rw [framesCall, horder, ok_bind, hrun]
    rfl
  refine ⟨block, _, hcall, ?_⟩
  by_cases hzero : block = 0
  · obtain ⟨rfl, hempty⟩ := hnull hzero
    rw [if_pos hzero]
    refine ⟨fun _ => ⟨rfl, fun j zone hzone => hempty j (Nat.zero_le j) zone hzone⟩,
      fun hne => absurd hzero hne, free, h, fun _ _ _ hc => hc, fun _ _ _ _ _ _ _ _ => rfl,
      fun _ _ => rfl⟩
  · obtain ⟨zone, free', hi, hinv, hkeeps, hzeroed⟩ := hsome hzero
    rw [if_neg hzero]
    refine ⟨fun hblock => absurd hblock hzero, fun _ => ⟨hzeroed, i, zone, hi, rfl⟩, _,
      h.callSpec hi (t := ⟨m', ⟨i, block, n⟩ ::ₘ s.live⟩) hinv (liveIn_cons base _ s.live) hkeeps
        (fun b hb _ => hb) fun a ha => ?_⟩
    rcases Multiset.mem_cons.mp ha with rfl | ha
    · exact ⟨(List.getElem?_eq_some_iff.mp hi).1, hn.2⟩
    · exact h.bounds a ha

/-- `frames_free` of something allocated returns, and works on the zone it came from. -/
theorem framesCall_free_spec (h : FramesInv zones base s free) {a : Allocation} (ha : a ∈ s.live) :
    ∃ zone t, zones[a.zone]? = some zone ∧
      framesFree zones a.addr a.n s.mem = zoneDealloc zone a.addr (orderOf a.n) s.mem ∧
      framesCall zones s (.free a) = .ok (0, t) ∧
      ∃ free', FramesCallSpec zones base s free t free' := by
  obtain ⟨hzone, hn⟩ := h.bounds a ha
  obtain ⟨rest, hrest⟩ := Multiset.exists_cons_of_mem ha
  have hi : zones[a.zone]? = some zones[a.zone] := List.getElem?_eq_getElem hzone
  have hlive : liveIn base s.live a.zone = a.block ::ₘ liveIn base rest a.zone := by
    rw [hrest, liveIn_cons, Function.update_self]
  have hinv := h.zone a.zone _ hi
  rw [hlive] at hinv
  obtain ⟨m', free', hrun, hinv', hkeeps⟩ := zoneDealloc_spec hinv
  have hfree : framesFree zones a.addr a.n s.mem =
      zoneDealloc zones[a.zone] a.addr (orderOf a.n) s.mem :=
    framesFree_eq h.toZonesInv hi (by rw [hlive]; exact Multiset.mem_cons_self _ _) hn
  refine ⟨zones[a.zone], ⟨m', rest⟩, hi, hfree, ?_, _, h.callSpec hi (t := ⟨m', rest⟩) hinv' ?_ hkeeps
    (fun b _ hb => hb) fun c hc => h.bounds c (by rw [hrest]; exact Multiset.mem_cons_of_mem hc)⟩
  · have hrun' : framesFree zones a.addr a.n s.mem = .ok m' := hfree.trans hrun
    rw [framesCall, hrun', hrest, Multiset.erase_cons_head]
    rfl
  · rw [hrest, liveIn_cons, Function.update_idem, Function.update_eq_self]

/-- Every legal call has its specification. -/
theorem framesCall_spec (h : FramesInv zones base s free) {call : FramesCall} (hlegal : call.Legal s) :
    ∃ result t free', framesCall zones s call = .ok (result, t) ∧
      FramesCallSpec zones base s free t free' := by
  cases call with
  | alloc n =>
      obtain ⟨block, t, hcall, -, -, free', hspec⟩ := framesCall_alloc_spec h hlegal
      exact ⟨block, t, free', hcall, hspec⟩
  | free a =>
      obtain ⟨zone, t, -, -, hcall, free', hspec⟩ := framesCall_free_spec h hlegal
      exact ⟨0, t, free', hcall, hspec⟩

/-- Free lists for all zones at once. -/
theorem exists_framesInv (base : ℕ → Multiset Block) {m : Mem} {P : AllocatorZone → (ℕ → List ℕ) → Prop} (hsep : Separate zones)
    (hzones : ∀ i zone, zones[i]? = some zone → ∃ free, ZoneInv zone m free (base i) ∧ P zone free) :
    ∃ free, FramesInv zones base ⟨m, 0⟩ free ∧
      ∀ i zone, zones[i]? = some zone → P zone (free i) := by
  have hchoose : ∀ i, ∃ f : ℕ → List ℕ, ∀ zone, zones[i]? = some zone →
      ZoneInv zone m f (base i) ∧ P zone f := by
    intro i
    cases hi : zones[i]? with
    | none => exact ⟨fun _ => [], fun zone hzone => by cases hzone⟩
    | some zone =>
        obtain ⟨f, hf⟩ := hzones i zone hi
        refine ⟨f, fun zone' hzone' => ?_⟩
        obtain rfl := Option.some.inj hzone'
        exact hf
  choose free hfree using hchoose
  refine ⟨free, ⟨⟨hsep, fun i zone hi => ?_⟩, fun a ha => absurd ha (Multiset.notMem_zero a)⟩,
    fun i zone hi => (hfree i zone hi).2⟩
  have hempty : liveIn base 0 i = base i := by simp [liveIn]
  rw [hempty]
  exact (hfree i zone hi).1

/-- The invariant holds along every run, and with it that no buddies are free together. -/
theorem frames_run_inv {P : AllocatorZone → (ℕ → List ℕ) → Prop} {calls : List FramesCall}
    {t : FramesState}
    (hP : ∀ zone free free', (Coalesced zone free → Coalesced zone free') → P zone free → P zone free')
    (hstart : ∃ free, FramesInv zones base s free ∧ ∀ i zone, zones[i]? = some zone → P zone (free i))
    (hrun : Run (FramesStep zones) s calls t) :
    ∃ free, FramesInv zones base t free ∧ ∀ i zone, zones[i]? = some zone → P zone (free i) := by
  refine hrun.invariant (fun u => ∃ free, FramesInv zones base u free ∧
    ∀ i zone, zones[i]? = some zone → P zone (free i)) hstart ?_
  rintro a call b ⟨free, hinv, hall⟩ ⟨hlegal, result, hcall⟩
  obtain ⟨result', t', free', hcall', hspec⟩ := framesCall_spec hinv hlegal
  obtain ⟨-, rfl⟩ := Prod.mk.inj (Except.ok.inj (hcall.symm.trans hcall'))
  exact ⟨free', hspec.inv, fun i zone hi => hP _ _ _ (hspec.coalesced i zone hi) (hall i zone hi)⟩

end Runs

/-- In every state of a run each legal call returns without a panic, changes no byte of a
block that stays live and none outside the zones; a new block is zero and of the least
order that fits, and a block goes back to the zone it came from. -/
theorem frames_run_live_untouched (zones : List AllocatorZone) (base : ℕ → Multiset Block) {m : Mem}
    {calls : List FramesCall} {t : FramesState} (hsep : Separate zones)
    (hwf : ∀ i zone, zones[i]? = some zone → WellFormed zone m (base i))
    (hrun : Run (FramesStep zones) ⟨m, 0⟩ calls t) :
    ∀ call : FramesCall, call.Legal t → ∃ result u, framesCall zones t call = .ok (result, u) ∧
      (∀ i < zones.length, ∀ b ∈ liveIn base t.live i, b ∈ liveIn base u.live i →
        ∀ x, b.addr ≤ x → x < b.stop → u.mem x = t.mem x) ∧
      (∀ x, (∀ zone ∈ zones, ¬zone.Uses x) → u.mem x = t.mem x) ∧
      (∀ n, call = .alloc n → framesAlloc zones n t.mem = .ok (result, u.mem) ∧
        (result ≠ 0 → Zeroed u.mem result (orderOf n) ∧ n ≤ 2 ^ orderOf n ∧
          ∀ j, n ≤ 2 ^ j → orderOf n ≤ j)) ∧
      ∀ a, call = .free a → framesFree zones a.addr a.n t.mem = .ok u.mem ∧
        ∃ zone, zones[a.zone]? = some zone ∧
          framesFree zones a.addr a.n t.mem = zoneDealloc zone a.addr (orderOf a.n) t.mem := by
  obtain ⟨free, hinv, -⟩ := frames_run_inv (P := fun _ _ => True) (fun _ _ _ _ _ => trivial)
    (exists_framesInv base hsep fun i zone hi => by
      obtain ⟨free, hfree⟩ := hwf i zone hi
      exact ⟨free, hfree, trivial⟩) hrun
  intro call hlegal
  cases call with
  | alloc n =>
      obtain ⟨block, u, hcall, -, hsome, free', hspec⟩ := framesCall_alloc_spec hinv hlegal
      have halloc := framesCall_alloc_eq zones t n
      rw [hcall] at halloc
      obtain ⟨-, -, hfits, hleast⟩ := pages2order_eq hlegal.2
      refine ⟨block, u, hcall, hspec.live_frame, hspec.outside_frame, ?_, fun a ha => FramesCall.noConfusion ha⟩
      rintro n' ⟨rfl⟩
      exact ⟨halloc.symm, fun hne => ⟨(hsome hne).1, hfits, hleast⟩⟩
  | free a =>
      obtain ⟨zone, u, hi, hfree, hcall, free', hspec⟩ := framesCall_free_spec hinv hlegal
      refine ⟨0, u, hcall, hspec.live_frame, hspec.outside_frame, fun n hn => FramesCall.noConfusion hn, ?_⟩
      rintro a' ⟨rfl⟩
      obtain ⟨m', hm', hret⟩ := bind_eq_ok.mp hcall
      obtain ⟨-, rfl⟩ := Prod.mk.inj (Except.ok.inj hret)
      exact ⟨hm', zone, hi, hfree⟩

theorem separate_singleton (zone : AllocatorZone) : Separate [zone] := by
  intro i j _ _ hi hj hij
  have hi' := (List.getElem?_eq_some_iff.mp hi).1
  have hj' := (List.getElem?_eq_some_iff.mp hj).1
  rw [List.length_singleton] at hi' hj'
  omega

/-- Two pages one after the other from the zone of one block: the second call leaves the
first page alone. -/
theorem frames_run_live_untouched_twoPages :
    ∃ t, Run (FramesStep [oneBlockZone]) ⟨freeZoneMem, 0⟩ [.alloc 1] t ∧
      ∃ block u, framesAlloc [oneBlockZone] 1 t.mem = .ok (block, u) ∧
        ∀ b ∈ liveIn (fun _ => 0) t.live 0, ∀ x, b.addr ≤ x → x < b.stop → u x = t.mem x := by
  have hwf : ∀ (i : ℕ) (zone : AllocatorZone), [oneBlockZone][i]? = some zone →
      WellFormed zone freeZoneMem 0 := by
    intro i zone hi
    obtain rfl := List.mem_singleton.mp (List.mem_of_getElem? hi)
    exact ⟨_, freeZone_inv⟩
  have hlegal : ∀ s : FramesState, (FramesCall.alloc 1).Legal s := fun s => ⟨by decide, by decide⟩
  obtain ⟨first, t, hfirst, -⟩ := frames_run_live_untouched [oneBlockZone] (fun _ => 0)
    (separate_singleton _) hwf Run.nil (.alloc 1) (hlegal _)
  have hrun := Run.single (FramesStep [oneBlockZone]) ⟨hlegal _, first, hfirst⟩
  obtain ⟨block, u, hcall, hlive, -, halloc, -⟩ := frames_run_live_untouched [oneBlockZone]
    (fun _ => 0) (separate_singleton _) hwf hrun (.alloc 1) (hlegal _)
  refine ⟨t, hrun, block, u.mem, (halloc 1 rfl).1, fun b hb => hlive 0 (by decide) b hb ?_⟩
  have hsub : t.live ⊆ u.live := by
    obtain ⟨order, -, hcall⟩ := bind_eq_ok.mp hcall
    obtain ⟨⟨i, block', m'⟩, -, hcall⟩ := bind_eq_ok.mp hcall
    obtain ⟨-, rfl⟩ := Prod.mk.inj (Except.ok.inj hcall)
    dsimp only
    split_ifs
    · exact Multiset.Subset.refl _
    · exact Multiset.subset_cons _ _
  simp only [liveIn, zero_add, Multiset.mem_map, Multiset.mem_filter] at hb ⊢
  obtain ⟨a, ⟨ha, hzone⟩, rfl⟩ := hb
  exact ⟨a, ⟨hsub ha, hzone⟩, rfl⟩

/-- All memory of the zone is on its top list. -/
def FullyFree (zone : AllocatorZone) (m : Mem) : Prop :=
  ∃ free, ZoneInv zone m free 0 ∧ ∀ k < maxOrder, free k = []

/-- In every state reached from fully free zones, `frames_alloc` returns `NULL` if and only
if no zone has an aligned run of enough free pages, and then nothing has changed. -/
theorem frames_run_alloc_null_iff (zones : List AllocatorZone) {m : Mem} {calls : List FramesCall}
    {t : FramesState} (hsep : Separate zones)
    (hfull : ∀ zone ∈ zones, FullyFree zone m)
    (hrun : Run (FramesStep zones) ⟨m, 0⟩ calls t) {n : ℕ} (hn : 1 ≤ n ∧ n ≤ 512) :
    ∃ block m', framesAlloc zones n t.mem = .ok (block, m') ∧
      (block = 0 ↔ ¬∃ (i : ℕ) (zone : AllocatorZone) (a : ℕ), zones[i]? = some zone ∧
        blockSize (orderOf n) ∣ a ∧ zone.startAddr ≤ a ∧ a + blockSize (orderOf n) ≤ zone.endAddr ∧
        FreeRange (liveIn (fun _ => 0) t.live i) a (orderOf n)) ∧
      (block = 0 → m' = t.mem) := by
  obtain ⟨free, hinv, hcoalesced⟩ := frames_run_inv (P := Coalesced) (fun _ _ _ h => h)
    (exists_framesInv (fun _ => 0) hsep fun i zone hi => by
      obtain ⟨free, hfree, hempty⟩ := hfull zone (List.mem_of_getElem? hi)
      exact ⟨free, hfree, coalesced_of_lower_empty hempty⟩) hrun
  obtain ⟨block, u, hcall, hnull, hsome, free', hspec⟩ := framesCall_alloc_spec hinv hn
  obtain ⟨-, hlt, -, -⟩ := pages2order_eq hn.2
  have halloc := framesCall_alloc_eq zones t n
  rw [hcall] at halloc
  refine ⟨block, u.mem, halloc.symm, ⟨fun hzero => ?_, fun hnone => ?_⟩, fun hzero => ?_⟩
  · rintro ⟨i, zone, a, hi, hdvd, hlo, hhi, hrange⟩
    have hzone := hinv.zone i zone hi
    obtain ⟨k, hk, hmax, b, hb, -⟩ := (hcoalesced i zone hi).exists_free hzone.layout hzone.pieces
      (le_of_lt hlt) hdvd hlo hhi hrange
    rw [(hnull hzero).2 i zone hi k hk hmax] at hb
    exact List.not_mem_nil hb
  · by_contra hne
    obtain ⟨-, i, zone, hi, hlive⟩ := hsome hne
    have hzone := hspec.inv.zone i zone hi
    rw [hlive, liveIn_cons, Function.update_self] at hzone
    have hmem := Multiset.mem_cons_self (⟨block, orderOf n⟩ : Block)
      (liveIn (fun _ => 0) t.live i)
    have hinside := hzone.pieces.live_inside hmem
    refine hnone ⟨i, zone, block, hi, (hzone.pieces.live_aligned hmem).2, hinside.1, hinside.2, ?_⟩
    intro x hlo hhi b hb hin
    have htiles := hzone.pieces.tiles
    rw [Multiset.add_cons] at htiles
    have hdis := htiles.disjoint_of_mem (Multiset.mem_add.mpr (Or.inr hb)) (Block.addr_lt_stop _)
      b.addr_lt_stop
    simp only [Allocation.block, Block.stop] at hdis hin
    omega
  · rw [(hnull hzero).1]

theorem liveIn_cons_self (base : ℕ → Multiset Block) (i addr n : ℕ) (live : Multiset Allocation) :
    liveIn base (⟨i, addr, n⟩ ::ₘ live) i = ⟨addr, orderOf n⟩ ::ₘ liveIn base live i := by
  rw [liveIn_cons]
  exact Function.update_self _ _ _

/-- A block that `frames_alloc` returns is handed out. -/
theorem framesStep_of_alloc {zones : List AllocatorZone} {base : ℕ → Multiset Block} {s : FramesState}
    {free : ℕ → ℕ → List ℕ} (h : FramesInv zones base s free) {n block : ℕ} {m : Mem} (hn : 1 ≤ n ∧ n ≤ 512)
    (halloc : framesAlloc zones n s.mem = .ok (block, m)) (hne : block ≠ 0) :
    ∃ i zone free', zones[i]? = some zone ∧ FramesStep zones s (.alloc n) ⟨m, ⟨i, block, n⟩ ::ₘ s.live⟩ ∧
      FramesInv zones base ⟨m, ⟨i, block, n⟩ ::ₘ s.live⟩ free' := by
  obtain ⟨block', ⟨m', live⟩, hcall, -, hsome, free', hspec⟩ := framesCall_alloc_spec h hn
  have heq := framesCall_alloc_eq zones s n
  rw [hcall, halloc] at heq
  obtain ⟨rfl, rfl⟩ := Prod.mk.inj (Except.ok.inj heq)
  obtain ⟨-, i, zone, hi, hlive⟩ := hsome hne
  obtain rfl : live = ⟨i, block', n⟩ ::ₘ s.live := hlive
  exact ⟨i, zone, free', hi, ⟨hn, block', hcall⟩, hspec.inv⟩

/-! ### A page and the half of a block -/

/-- Of the pages of a block of 4 MiB, one is neither the page at `p` nor in the half at `q`. -/
theorem exists_page_apart {p q : ℕ} (hp : 4096 ∣ p) (hq : q = 0x400000 ∨ q = 0x600000) :
    ∃ a, 4096 ∣ a ∧ 0x400000 ≤ a ∧ a + 4096 ≤ 0x800000 ∧ (a + 4096 ≤ p ∨ p + 4096 ≤ a) ∧
      (a + 4096 ≤ q ∨ q + 0x200000 ≤ a) := by
  obtain ⟨half, hhalf, hne⟩ : ∃ half, (half = 0x400000 ∨ half = 0x600000) ∧ half ≠ q := by
    rcases hq with rfl | rfl
    · exact ⟨0x600000, Or.inr rfl, by decide⟩
    · exact ⟨0x400000, Or.inl rfl, by decide⟩
  -- its first page, or its second one
  by_cases heq : p = half
  · exact ⟨half + 4096, by omega, by omega, by omega, by omega, by omega⟩
  · exact ⟨half, by omega, by omega, by omega, by omega, by omega⟩

theorem oneBlockZone_fullyFree : ∀ zone ∈ [oneBlockZone], FullyFree zone freeZoneMem := by
  intro zone hzone
  obtain rfl := List.mem_singleton.mp hzone
  exact ⟨_, freeZone_inv, freeZoneLists_lower⟩

theorem oneBlockZone_of_getElem? {i : ℕ} {zone : AllocatorZone} (hi : [oneBlockZone][i]? = some zone) :
    i = 0 ∧ zone = oneBlockZone := by
  cases i with
  | zero => exact ⟨rfl, (Option.some.inj hi).symm⟩
  | succ i => cases hi

/-- A page is handed out, and then the half of the block that it is not in. -/
theorem frames_run_page_half : ∃ b1 b2 t, Run (FramesStep [oneBlockZone]) ⟨freeZoneMem, 0⟩ [.alloc 1, .alloc 512] t ∧
    t.live = {⟨0, b2, 512⟩, ⟨0, b1, 1⟩} ∧ 4096 ∣ b1 ∧ (b2 = 0x400000 ∨ b2 = 0x600000) ∧
    0x400000 ≤ b1 ∧ b1 + 4096 ≤ 0x800000 ∧ (b2 + 0x200000 ≤ b1 ∨ b1 + 4096 ≤ b2) := by
  have hone : blockSize (orderOf 1) = 4096 := rfl
  have hhalf : blockSize (orderOf 512) = 0x200000 := by decide
  have hstart : oneBlockZone.startAddr = 0x400000 := rfl
  have hend : oneBlockZone.endAddr = 0x800000 := rfl
  obtain ⟨free0, hinv0, -⟩ := exists_framesInv (P := fun _ _ => True) (fun _ => 0) (separate_singleton oneBlockZone)
    fun i zone hi => by
      obtain ⟨rfl, rfl⟩ := oneBlockZone_of_getElem? hi
      exact ⟨_, freeZone_inv, trivial⟩
  -- the page
  obtain ⟨b1, m1, halloc1, hnull1, -⟩ := frames_run_alloc_null_iff [oneBlockZone] (separate_singleton _)
    oneBlockZone_fullyFree Run.nil (n := 1) ⟨by decide, by decide⟩
  have hne1 : b1 ≠ 0 := fun hzero => hnull1.mp hzero
    ⟨0, oneBlockZone, 0x400000, rfl, by decide, by decide, by decide, fun x _ _ b hb => by simp [liveIn] at hb⟩
  obtain ⟨i, zone, free1, hi, hstep1, hinv1⟩ := framesStep_of_alloc hinv0 ⟨by decide, by decide⟩ halloc1 hne1
  obtain ⟨rfl, rfl⟩ := oneBlockZone_of_getElem? hi
  have hrun1 := Run.single (FramesStep [oneBlockZone]) hstep1
  have hpage := (hinv1.zone 0 _ rfl).pieces
  rw [liveIn_cons_self] at hpage
  obtain ⟨hlo1, hhi1⟩ := hpage.live_inside (Multiset.mem_cons_self _ _)
  obtain ⟨-, c1, hc1⟩ := hpage.live_aligned (Multiset.mem_cons_self _ _)
  simp only [Block.stop, hone, hstart, hend] at hlo1 hhi1 hc1
  -- the other half
  obtain ⟨b2, m2, halloc2, hnull2, -⟩ := frames_run_alloc_null_iff [oneBlockZone] (separate_singleton _)
    oneBlockZone_fullyFree hrun1 (n := 512) ⟨by decide, by decide⟩
  have hne2 : b2 ≠ 0 := fun hzero => hnull2.mp hzero
    ⟨0, oneBlockZone, if b1 < 0x600000 then 0x600000 else 0x400000, rfl, by split_ifs <;> decide, by split_ifs <;> decide,
      by split_ifs <;> decide, fun x hlo hhi b hb => by
        rw [liveIn_cons_self] at hb
        obtain rfl : b = ⟨b1, orderOf 1⟩ := by simpa [liveIn] using hb
        simp only [Block.stop, hone, hhalf] at hhi ⊢
        split_ifs at hlo hhi <;> omega⟩
  obtain ⟨i, zone, free2, hi, hstep2, hinv2⟩ := framesStep_of_alloc hinv1 ⟨by decide, by decide⟩ halloc2 hne2
  obtain ⟨rfl, rfl⟩ := oneBlockZone_of_getElem? hi
  have hboth := (hinv2.zone 0 _ rfl).pieces
  rw [liveIn_cons_self, liveIn_cons_self] at hboth
  obtain ⟨hlo2, hhi2⟩ := hboth.live_inside (Multiset.mem_cons_self _ _)
  obtain ⟨-, c2, hc2⟩ := hboth.live_aligned (Multiset.mem_cons_self _ _)
  have hapart := hboth.live_disjoint (Multiset.mem_cons_self _ _)
  simp only [Block.stop, hone, hhalf, hstart, hend] at hlo2 hhi2 hc2 hapart
  exact ⟨b1, b2, _, hrun1.snoc hstep2, rfl, ⟨c1, hc1⟩, by omega, hlo1, hhi1, hapart⟩

/-- From the fully free zone of one block a page and then a half of the block are handed out.
There is no second half after that, but still a page. -/
theorem frames_run_alloc_null_iff_halves : ∃ b1 b2 b3 t m,
    Run (FramesStep [oneBlockZone]) ⟨freeZoneMem, 0⟩ [.alloc 1, .alloc 512] t ∧ t.live = {⟨0, b2, 512⟩, ⟨0, b1, 1⟩} ∧
      framesAlloc [oneBlockZone] 512 t.mem = .ok (0, t.mem) ∧ framesAlloc [oneBlockZone] 1 t.mem = .ok (b3, m) ∧ b3 ≠ 0 := by
  obtain ⟨b1, b2, t, hrun, hlive, hdvd1, hb2, hlo1, hhi1, hapart⟩ := frames_run_page_half
  have hone : blockSize (orderOf 1) = 4096 := rfl
  have hhalf : blockSize (orderOf 512) = 0x200000 := by decide
  have hblocks : liveIn (fun _ => 0) t.live 0 = ⟨b2, orderOf 512⟩ ::ₘ ⟨b1, orderOf 1⟩ ::ₘ 0 := by
    rw [hlive]
    exact (liveIn_cons_self _ _ _ _ _).trans (congrArg _ (liveIn_cons_self _ _ _ _ _))
  -- the page keeps one half from being free, and the block that was handed out is the other
  have hno : ∀ c, 0x400000 ≤ 0x200000 * c → 0x200000 * c + 0x200000 ≤ 0x800000 →
      ¬FreeRange (liveIn (fun _ => 0) t.live 0) (0x200000 * c) (orderOf 512) := by
    intro c hlo hhi hrange
    rw [hblocks] at hrange
    by_cases hc : 0x200000 * c = b2
    · exact hrange b2 (by omega) (by rw [hhalf]; omega) _ (Multiset.mem_cons_self _ _)
        ⟨le_refl _, by simp only [Block.stop, hhalf]; omega⟩
    · exact hrange b1 (by omega) (by rw [hhalf]; omega) _ (Multiset.mem_cons_of_mem (Multiset.mem_cons_self _ _))
        ⟨le_refl _, by simp only [Block.stop, hone]; omega⟩
  obtain ⟨block, m3, hcall3, hnull3, hsame3⟩ := frames_run_alloc_null_iff [oneBlockZone] (separate_singleton _)
    oneBlockZone_fullyFree hrun (n := 512) ⟨by decide, by decide⟩
  have hnone : block = 0 := by
    refine hnull3.mpr ?_
    rintro ⟨i, zone, a, hi, ⟨c, rfl⟩, hlo, hhi, hrange⟩
    obtain ⟨rfl, rfl⟩ := oneBlockZone_of_getElem? hi
    rw [hhalf] at hlo hhi hrange
    exact hno c hlo hhi hrange
  obtain ⟨b3, m4, hcall4, hnull4, -⟩ := frames_run_alloc_null_iff [oneBlockZone] (separate_singleton _)
    oneBlockZone_fullyFree hrun (n := 1) ⟨by decide, by decide⟩
  rw [hnone, hsame3 hnone] at hcall3
  refine ⟨b1, b2, b3, t, m4, hrun, hlive, hcall3, hcall4, fun hzero => hnull4.mp hzero ?_⟩
  obtain ⟨a, ⟨c, hc⟩, hlo, hhi, hne, hdis⟩ := exists_page_apart hdvd1 hb2
  refine ⟨0, oneBlockZone, a, rfl, ⟨c, hc⟩, hlo, hhi, fun x hxlo hxhi b hb => ?_⟩
  simp only [hblocks, Multiset.mem_cons, Multiset.notMem_zero, or_false] at hb
  rcases hb with rfl | rfl
  · simp only [Block.stop, hhalf, hone] at hxhi ⊢
    omega
  · simp only [Block.stop, hone] at hxhi ⊢
    omega

end HeavenOS

/-
# Page tables as trees

What a page table in memory stands for: a tree whose inner nodes are table frames
and whose leaves are mapped pages. A node is named by the indices that lead to it,
the deepest one first, so that the children of `q` are the paths `i :: q` and the
ancestors of a path are its suffixes.

Rights of inner entries only grow. The invariant keeps them above the rights of
every leaf below, and keeps tables on the way to paths that some call has asked for.
-/

import Mathlib.Order.Antichain
import HeavenOS.Mm.Vmem

namespace HeavenOS

open Lib

/-- Indices from the PML4 down to a table or page, the deepest one first. -/
abbrev Path := List ℕ

/-- A mapped page: its physical address and its rights. -/
structure Leaf where
  frame : ℕ
  rights : Rights

/-- A page table. A table node has the address of its frame in the direct mapping and the
rights of the entry that leads to it. -/
structure PageTable where
  table : Path → Option (ℕ × Rights)
  leaf : Path → Option Leaf

/-- The byte is in the frame at `f`. -/
def InFrame (f a : ℕ) : Prop := f ≤ a ∧ a < f + pageSize

/-- A frame address that `frame_alloc` may return: aligned and in the direct mapping, not
its very first frame. -/
def IsFrame (f : ℕ) : Prop :=
  pageSize ∣ f ∧ directMapStart < f ∧ f + pageSize ≤ directMapStart + 2 ^ 46

theorem IsFrame.ne_zero {f : ℕ} (hf : IsFrame f) : f ≠ 0 := by
  have := hf.2.1
  omega

theorem IsFrame.lt {f : ℕ} (hf : IsFrame f) : f < 2 ^ 64 := by
  have := hf.2.2
  unfold directMapStart at this
  omega

theorem IsFrame.physToVirt_virtToPhys {f : ℕ} (hf : IsFrame f) : physToVirt (virtToPhys f) = f :=
  HeavenOS.physToVirt_virtToPhys hf.lt

theorem IsFrame.virtToPhys_eq {f : ℕ} (hf : IsFrame f) : virtToPhys f = f - directMapStart :=
  subU64_of_le (le_of_lt hf.2.1) hf.lt

theorem IsFrame.virtToPhys_lt {f : ℕ} (hf : IsFrame f) : virtToPhys f < 2 ^ 48 := by
  have := hf.2.2
  rw [hf.virtToPhys_eq]
  omega

theorem IsFrame.dvd_virtToPhys {f : ℕ} (hf : IsFrame f) : 4096 ∣ virtToPhys f := by
  rw [hf.virtToPhys_eq]
  exact Nat.dvd_sub hf.1 (by decide)

/-- Different frames share no byte. -/
theorem inFrame_unique {f g a : ℕ} (hf : pageSize ∣ f) (hg : pageSize ∣ g) (hfa : InFrame f a)
    (hga : InFrame g a) : f = g := by
  unfold InFrame pageSize at *
  omega

theorem inFrame_entry {t i a : ℕ} (hi : i < 512) (hlo : t + 8 * i ≤ a) (hhi : a < t + 8 * i + 8) :
    InFrame t a := by
  unfold InFrame pageSize
  omega

theorem entry_congr {m m' : Mem} {t i : ℕ} (hi : i < 512) (hsame : ∀ a, InFrame t a → m' a = m a) :
    entry m' t i = entry m t i :=
  Mem.loadWord_congr fun a hlo hhi => hsame a (inFrame_entry hi hlo hhi)

/-- The state after `frame_alloc` returned `f` and `f` was cleared once more. -/
def Kernel.takeFrame (k : Kernel) (f : ℕ) (frames : List (Option ℕ)) : Kernel :=
  { k with
    mem := (k.mem.memset f 0 pageSize).memset f 0 pageSize
    frames := frames
    freed := k.freed.filter (· ≠ f) }

namespace Kernel

theorem takeFrame_mem (k : Kernel) (f : ℕ) (frames : List (Option ℕ)) :
    (k.takeFrame f frames).mem = (k.mem.memset f 0 pageSize).memset f 0 pageSize := rfl

theorem takeFrame_mem_of_outside (k : Kernel) {f a : ℕ} (frames : List (Option ℕ))
    (ha : ¬InFrame f a) : (k.takeFrame f frames).mem a = k.mem a := by
  unfold InFrame at ha
  rw [takeFrame_mem, Mem.memset_of_outside _ _ (by omega), Mem.memset_of_outside _ _ (by omega)]

theorem entry_takeFrame (k : Kernel) (f : ℕ) (frames : List (Option ℕ)) {i : ℕ} (hi : i < 512) :
    entry (k.takeFrame f frames).mem f i = 0 := by
  have hpage : f + 8 * i + 8 ≤ f + pageSize := by
    unfold pageSize
    omega
  rw [entry, takeFrame_mem, Mem.loadWord_memset_zero _ (Nat.le_add_right _ _) hpage]

end Kernel

namespace PageTable

variable (pt : PageTable)

/-- The entry for a path: a link to a table, a page, or nothing. -/
def word (q : Path) : BitVec 64 :=
  match pt.table q with
  | some (t, r) => pteWord (virtToPhys t) false r
  | none =>
      match pt.leaf q with
      | some l => pteWord l.frame (q.length < 4) l.rights
      | none => 0

/-- The tables in memory hold the entries of the tree. -/
def Represents (m : Mem) : Prop :=
  ∀ q t r, pt.table q = some (t, r) → ∀ i < 512, entry m t i = pt.word (i :: q)

/-- The tree of an address space in which the paths `claimed` have been asked for. -/
structure WellFormed (pml4 : ℕ) (claimed : Set Path) : Prop where
  root : ∃ r, pt.table [] = some (pml4, r)
  isFrame : ∀ {q t r}, pt.table q = some (t, r) → IsFrame t
  inj : ∀ {q q' t r r'}, pt.table q = some (t, r) → pt.table q' = some (t, r') → q = q'
  /-- The way to a table is made of tables. -/
  table_suffix : ∀ {p q}, (pt.table q).isSome → p <:+ q → (pt.table p).isSome
  /-- Every table but the root is on the way to a claimed path. -/
  table_claimed : ∀ {q}, (pt.table q).isSome → q = [] ∨ ∃ c ∈ claimed, q <:+ c ∧ q ≠ c
  leaf_claimed : ∀ {q}, (pt.leaf q).isSome → q ∈ claimed
  leaf_parent : ∀ {i q}, (pt.leaf (i :: q)).isSome → (pt.table q).isSome
  leaf_frame : ∀ {q l}, pt.leaf q = some l → 2 ^ (12 + 9 * (4 - q.length)) ∣ l.frame ∧ l.frame < 2 ^ 48
  /-- The entries on the way to a page grant the rights of the page. -/
  rights : ∀ {p q t r l}, pt.table p = some (t, r) → p ≠ [] → pt.leaf q = some l → p <:+ q →
    l.rights.Le r
  claimed_length : ∀ {c}, c ∈ claimed → 2 ≤ c.length ∧ c.length ≤ 4
  claimed_lt : ∀ {c}, c ∈ claimed → ∀ i ∈ c, i < 512
  antichain : IsAntichain (· <:+ ·) claimed

/-- The tree with a table at `q`. -/
def setTable (q : Path) (t : ℕ) (r : Rights) : PageTable :=
  { pt with table := Function.update pt.table q (some (t, r)) }

/-- The tree with a page at `q`. -/
def setLeaf (q : Path) (l : Leaf) : PageTable :=
  { pt with leaf := Function.update pt.leaf q (some l) }

@[simp]
theorem setTable_table (q : Path) (t : ℕ) (r : Rights) :
    (pt.setTable q t r).table = Function.update pt.table q (some (t, r)) := rfl

@[simp]
theorem setTable_leaf (q : Path) (t : ℕ) (r : Rights) : (pt.setTable q t r).leaf = pt.leaf := rfl

@[simp]
theorem setLeaf_table (q : Path) (l : Leaf) : (pt.setLeaf q l).table = pt.table := rfl

@[simp]
theorem setLeaf_leaf (q : Path) (l : Leaf) :
    (pt.setLeaf q l).leaf = Function.update pt.leaf q (some l) := rfl

variable {pt} in
theorem setTable_cases {q q' : Path} {t t' : ℕ} {r r' : Rights}
    (h : (pt.setTable q t r).table q' = some (t', r')) :
    q' = q ∧ t' = t ∧ r' = r ∨ q' ≠ q ∧ pt.table q' = some (t', r') := by
  by_cases heq : q' = q
  · subst heq
    rw [setTable_table, Function.update_self] at h
    obtain ⟨rfl, rfl⟩ := Prod.mk.inj (Option.some.inj h)
    exact Or.inl ⟨rfl, rfl, rfl⟩
  · rw [setTable_table, Function.update_of_ne heq] at h
    exact Or.inr ⟨heq, h⟩

variable {pt} in
theorem setLeaf_cases {q q' : Path} {l l' : Leaf} (h : (pt.setLeaf q l).leaf q' = some l') :
    q' = q ∧ l' = l ∨ q' ≠ q ∧ pt.leaf q' = some l' := by
  by_cases heq : q' = q
  · subst heq
    rw [setLeaf_leaf, Function.update_self] at h
    exact Or.inl ⟨rfl, (Option.some.inj h).symm⟩
  · rw [setLeaf_leaf, Function.update_of_ne heq] at h
    exact Or.inr ⟨heq, h⟩

namespace WellFormed

variable {pt} {pml4 : ℕ} {claimed : Set Path} (h : pt.WellFormed pml4 claimed)

include h

/-- A claimed path is no table. -/
theorem table_of_claimed {c : Path} (hc : c ∈ claimed) : pt.table c = none := by
  by_contra hne
  rcases h.table_claimed (Option.isSome_iff_ne_none.mpr hne) with rfl | ⟨c', hc', hsuf, hcc'⟩
  · exact absurd (h.claimed_length hc).1 (by decide)
  · exact h.antichain hc hc' hcc' hsuf

/-- What is on the way to a claimed path is no page. -/
theorem leaf_of_suffix {q c : Path} (hc : c ∈ claimed) (hsuf : q <:+ c) (hne : q ≠ c) :
    pt.leaf q = none := by
  by_contra hleaf
  exact h.antichain (h.leaf_claimed (Option.isSome_iff_ne_none.mpr hleaf)) hc hne hsuf

theorem table_length {q : Path} (hq : (pt.table q).isSome) : q.length ≤ 3 := by
  rcases h.table_claimed hq with rfl | ⟨c, hc, hsuf, hne⟩
  · exact Nat.zero_le _
  · have hlt : q.length < c.length :=
      lt_of_le_of_ne hsuf.length_le fun heq => hne (hsuf.eq_of_length heq)
    have := (h.claimed_length hc).2
    omega

theorem table_of_leaf {q : Path} {l : Leaf} (hleaf : pt.leaf q = some l) : pt.table q = none :=
  h.table_of_claimed (h.leaf_claimed (by rw [hleaf]; rfl))

/-- The way to a page is made of tables. -/
theorem table_of_suffix_leaf {p q : Path} {l : Leaf} (hleaf : pt.leaf q = some l) (hsuf : p <:+ q)
    (hne : p ≠ q) : (pt.table p).isSome := by
  cases q with
  | nil => exact absurd (List.eq_nil_of_suffix_nil hsuf) hne
  | cons i q =>
      rcases List.suffix_cons_iff.mp hsuf with heq | hsuf
      · exact absurd heq hne
      · exact h.table_suffix (h.leaf_parent (by rw [hleaf]; rfl)) hsuf

theorem word_of_leaf {q : Path} {l : Leaf} (hleaf : pt.leaf q = some l) :
    pt.word q = pteWord l.frame (q.length < 4) l.rights := by
  rw [word, h.table_of_leaf hleaf, hleaf]

theorem leaf_dvd {q : Path} {l : Leaf} (hleaf : pt.leaf q = some l) : 4096 ∣ l.frame :=
  (Nat.pow_dvd_pow 2 (Nat.le_add_right 12 _)).trans (h.leaf_frame hleaf).1

omit h in
theorem word_of_table {q : Path} {t : ℕ} {r : Rights} (htable : pt.table q = some (t, r)) :
    pt.word q = pteWord (virtToPhys t) false r := by
  rw [word, htable]

omit h in
theorem word_of_none {q : Path} (htable : pt.table q = none) (hleaf : pt.leaf q = none) :
    pt.word q = 0 := by
  rw [word, htable, hleaf]

/-- Asking for one more path changes nothing yet. -/
theorem claim {c : Path} (hlen : 2 ≤ c.length ∧ c.length ≤ 4) (hlt : ∀ i ∈ c, i < 512)
    (hnew : ∀ c' ∈ claimed, ¬c <:+ c' ∧ ¬c' <:+ c) : pt.WellFormed pml4 (insert c claimed) where
  root := h.root
  isFrame := h.isFrame
  inj := h.inj
  table_suffix := h.table_suffix
  table_claimed hq := (h.table_claimed hq).imp_right fun ⟨c', hc', hsuf⟩ =>
    ⟨c', Set.mem_insert_of_mem _ hc', hsuf⟩
  leaf_claimed hq := Set.mem_insert_of_mem _ (h.leaf_claimed hq)
  leaf_parent := h.leaf_parent
  leaf_frame := h.leaf_frame
  rights := h.rights
  claimed_length := by
    rintro c' (rfl | hc')
    · exact hlen
    · exact h.claimed_length hc'
  claimed_lt := by
    rintro c' (rfl | hc')
    · exact hlt
    · exact h.claimed_lt hc'
  antichain := h.antichain.insert (fun c' hc' _ => (hnew c' hc').2) (fun c' hc' _ => (hnew c' hc').1)

/-- Give a node on the way to a claimed path a table, or the entry of its table more
rights. -/
theorem setTable {i : ℕ} {q c : Path} {t : ℕ} {r : Rights} (hq : (pt.table q).isSome)
    (hc : c ∈ claimed) (hsuf : i :: q <:+ c) (hne : i :: q ≠ c) (ht : IsFrame t)
    (hinj : ∀ q' r', pt.table q' = some (t, r') → q' = i :: q)
    (hrights : ∀ q' l, pt.leaf q' = some l → i :: q <:+ q' → l.rights.Le r) :
    (pt.setTable (i :: q) t r).WellFormed pml4 claimed where
  root := by
    rw [setTable_table, Function.update_of_ne (List.cons_ne_nil _ _).symm]
    exact h.root
  isFrame := by
    intro q' t' r' hq'
    rcases setTable_cases hq' with ⟨rfl, rfl, rfl⟩ | ⟨-, hq'⟩
    · exact ht
    · exact h.isFrame hq'
  inj := by
    intro q1 q2 t' r1 r2 h1 h2
    rcases setTable_cases h1 with ⟨rfl, rfl, rfl⟩ | ⟨-, h1⟩ <;>
    rcases setTable_cases h2 with ⟨rfl, heq, -⟩ | ⟨-, h2⟩
    · rfl
    · exact (hinj _ _ h2).symm
    · exact hinj _ _ (heq ▸ h1)
    · exact h.inj h1 h2
  table_suffix := by
    intro p q' hq' hsuf'
    by_cases hp : p = i :: q
    · rw [hp, setTable_table, Function.update_self]
      rfl
    · rw [setTable_table, Function.update_of_ne hp]
      by_cases hq'' : q' = i :: q
      · rcases List.suffix_cons_iff.mp (hq'' ▸ hsuf') with heq | hsuf'
        · exact absurd heq hp
        · exact h.table_suffix hq hsuf'
      · rw [setTable_table, Function.update_of_ne hq''] at hq'
        exact h.table_suffix hq' hsuf'
  table_claimed := by
    intro q' hq'
    by_cases hq'' : q' = i :: q
    · exact Or.inr ⟨c, hc, hq'' ▸ hsuf, hq'' ▸ hne⟩
    · rw [setTable_table, Function.update_of_ne hq''] at hq'
      exact h.table_claimed hq'
  leaf_claimed := h.leaf_claimed
  leaf_parent := by
    intro j p hleaf
    by_cases hp : p = i :: q
    · rw [hp, setTable_table, Function.update_self]
      rfl
    · rw [setTable_table, Function.update_of_ne hp]
      exact h.leaf_parent hleaf
  leaf_frame := h.leaf_frame
  rights := by
    intro p q' t' r' l hp hnil hleaf hsuf'
    rcases setTable_cases hp with ⟨rfl, rfl, rfl⟩ | ⟨-, hp⟩
    · exact hrights q' l hleaf hsuf'
    · exact h.rights hp hnil hleaf hsuf'
  claimed_length := h.claimed_length
  claimed_lt := h.claimed_lt
  antichain := h.antichain

/-- Put a page at a claimed path. -/
theorem setLeaf {i : ℕ} {q : Path} {l : Leaf} (hc : i :: q ∈ claimed) (hq : (pt.table q).isSome)
    (hframe : 2 ^ (12 + 9 * (4 - (i :: q).length)) ∣ l.frame ∧ l.frame < 2 ^ 48)
    (hrights : ∀ p t r, pt.table p = some (t, r) → p ≠ [] → p <:+ q → l.rights.Le r) :
    (pt.setLeaf (i :: q) l).WellFormed pml4 claimed where
  root := h.root
  isFrame := h.isFrame
  inj := h.inj
  table_suffix := h.table_suffix
  table_claimed := h.table_claimed
  leaf_claimed := by
    intro q' hq'
    by_cases heq : q' = i :: q
    · exact heq ▸ hc
    · rw [setLeaf_leaf, Function.update_of_ne heq] at hq'
      exact h.leaf_claimed hq'
  leaf_parent := by
    intro j p hleaf
    by_cases heq : j :: p = i :: q
    · exact (List.cons.inj heq).2 ▸ hq
    · rw [setLeaf_leaf, Function.update_of_ne heq] at hleaf
      exact h.leaf_parent hleaf
  leaf_frame := by
    intro q' l' hleaf
    rcases setLeaf_cases hleaf with ⟨rfl, rfl⟩ | ⟨-, hleaf⟩
    · exact hframe
    · exact h.leaf_frame hleaf
  rights := by
    intro p q' t r l' hp hnil hleaf hsuf
    rcases setLeaf_cases hleaf with ⟨rfl, rfl⟩ | ⟨-, hleaf⟩
    · rcases List.suffix_cons_iff.mp hsuf with rfl | hsuf
      · rw [setLeaf_table, h.table_of_claimed hc] at hp
        cases hp
      · exact hrights p t r hp hnil hsuf
    · exact h.rights hp hnil hleaf hsuf
  claimed_length := h.claimed_length
  claimed_lt := h.claimed_lt
  antichain := h.antichain

end WellFormed

/-! ## Memory -/

/-- The tree does not change when nothing changes in its tables. -/
theorem Represents.congr {pt : PageTable} {m m' : Mem} (hrep : pt.Represents m)
    (hsame : ∀ q t r, pt.table q = some (t, r) → ∀ a, InFrame t a → m' a = m a) : pt.Represents m' := by
  intro q t r ht i hi
  rw [entry_congr hi (hsame q t r ht)]
  exact hrep q t r ht i hi

/-- Writing one entry of a tree whose other entries are in memory. -/
theorem Represents.storeEntry {pt : PageTable} {pml4 : ℕ} {claimed : Set Path} {m : Mem} {q : Path}
    {t i : ℕ} {r : Rights} (h : pt.WellFormed pml4 claimed) (ht : pt.table q = some (t, r))
    (hi : i < 512)
    (hother : ∀ q' t' r', pt.table q' = some (t', r') → ∀ j < 512, j :: q' ≠ i :: q →
      entry m t' j = pt.word (j :: q')) :
    pt.Represents (m.storeWord (t + 8 * i) (pt.word (i :: q))) := by
  intro q' t' r' ht' j hj
  by_cases heq : j :: q' = i :: q
  · obtain ⟨rfl, rfl⟩ := List.cons.inj heq
    obtain ⟨rfl, -⟩ := Prod.mk.inj (Option.some.inj (ht'.symm.trans ht))
    exact Mem.loadWord_storeWord_self _ _ _
  · rw [← hother q' t' r' ht' j hj heq]
    refine Mem.loadWord_storeWord_of_disjoint _ _ ?_
    have hdvd : 4096 ∣ t := (h.isFrame ht).1
    have hdvd' : 4096 ∣ t' := (h.isFrame ht').1
    by_cases htt : t = t'
    · subst htt
      obtain rfl := h.inj ht ht'
      have hji : j ≠ i := fun hji => heq (by rw [hji])
      omega
    · omega

/-- The frames still to be handed out are different frames and none of them is a table. -/
def Fresh (pt : PageTable) (frames : List (Option ℕ)) : Prop :=
  (frames.filterMap id).Nodup ∧
    ∀ f, some f ∈ frames → IsFrame f ∧ ∀ q r, pt.table q ≠ some (f, r)

/-- The tree of an address space, in memory, with frames for its growth. -/
structure Valid (pt : PageTable) (pml4 : ℕ) (claimed : Set Path) (k : Kernel) : Prop where
  wf : pt.WellFormed pml4 claimed
  rep : pt.Represents k.mem
  fresh : pt.Fresh k.frames

/-- What the mapping functions may do: take frames and make tables of them, add rights on
the way, and write to tables. -/
structure Grows (pt : PageTable) (k : Kernel) (pt' : PageTable) (k' : Kernel) : Prop where
  table : ∀ {q t r}, pt.table q = some (t, r) → ∃ r', pt'.table q = some (t, r') ∧ r.Le r'
  used : ∃ used, k.frames = used ++ k'.frames ∧
    (∀ {q t r}, pt'.table q = some (t, r) → (∃ r', pt.table q = some (t, r')) ∨ some t ∈ used) ∧
    ∀ f, some f ∈ used → ∃ q r, pt'.table q = some (f, r)
  mem : ∀ a, (∀ q t r, pt'.table q = some (t, r) → ¬InFrame t a) → k'.mem a = k.mem a
  objects : k'.objects = k.objects
  litter : k'.litter = k.litter
  trace : k'.trace = k.trace
  freed : ∀ g ∈ k'.freed, g ∈ k.freed ∧ (some g ∈ k.frames → some g ∈ k'.frames)

theorem setEntry_mem_of_outside (k : Kernel) {t i a : ℕ} (w : BitVec 64) (hi : i < 512)
    (ha : ¬InFrame t a) : (HeavenOS.setEntry k t i w).mem a = k.mem a :=
  Mem.storeWord_of_outside _ _ (by unfold InFrame pageSize at ha; omega)

theorem Grows.refl (pt : PageTable) (k : Kernel) : Grows pt k pt k where
  table hq := ⟨_, hq, Rights.le_refl _⟩
  used := ⟨[], rfl, fun hq => Or.inl ⟨_, hq⟩, by simp⟩
  mem _ _ := rfl
  objects := rfl
  litter := rfl
  trace := rfl
  freed _ hg := ⟨hg, id⟩

theorem Grows.trans {pt1 pt2 pt3 : PageTable} {k1 k2 k3 : Kernel} (h12 : Grows pt1 k1 pt2 k2)
    (h23 : Grows pt2 k2 pt3 k3) : Grows pt1 k1 pt3 k3 where
  table := by
    intro q t r hq
    obtain ⟨r', hq', hle⟩ := h12.table hq
    obtain ⟨r'', hq'', hle'⟩ := h23.table hq'
    exact ⟨r'', hq'', hle.trans hle'⟩
  used := by
    obtain ⟨used, hused, hold, hnew⟩ := h12.used
    obtain ⟨used', hused', hold', hnew'⟩ := h23.used
    refine ⟨used ++ used', by rw [hused, hused', List.append_assoc], fun hq => ?_, fun f hf => ?_⟩
    · rcases hold' hq with ⟨r', hq'⟩ | hmem
      · exact (hold hq').imp_right (List.mem_append_left _)
      · exact Or.inr (List.mem_append_right _ hmem)
    · rcases List.mem_append.mp hf with hf | hf
      · obtain ⟨q, r, hq⟩ := hnew f hf
        obtain ⟨r', hq', -⟩ := h23.table hq
        exact ⟨q, r', hq'⟩
      · exact hnew' f hf
  mem := by
    intro a ha
    rw [h23.mem a ha, h12.mem a]
    intro q t r hq
    obtain ⟨r', hq', -⟩ := h23.table hq
    exact ha q t r' hq'
  objects := h23.objects.trans h12.objects
  litter := h23.litter.trans h12.litter
  trace := h23.trace.trans h12.trace
  freed g hg := by
    obtain ⟨hg2, hfr2⟩ := h23.freed g hg
    obtain ⟨hg1, hfr1⟩ := h12.freed g hg2
    exact ⟨hg1, hfr2 ∘ hfr1⟩

/-! ## Growing the way to a page -/

/-- The next table exists: its entry gets the new rights as well. -/
theorem Valid.grant {pt : PageTable} {pml4 : ℕ} {claimed : Set Path} {k : Kernel} {q c : Path}
    {t i t' : ℕ} {rq r' : Rights} (h : pt.Valid pml4 claimed k) (hq : pt.table q = some (t, rq))
    (hi : i < 512) (hc : c ∈ claimed) (hsuf : i :: q <:+ c) (hne : i :: q ≠ c)
    (ht' : pt.table (i :: q) = some (t', r')) (r : Rights) :
    (pt.setTable (i :: q) t' (r'.join r)).Valid pml4 claimed
        (setEntry k t i (pteWord (virtToPhys t') false (r'.join r))) ∧
      Grows pt k (pt.setTable (i :: q) t' (r'.join r))
        (setEntry k t i (pteWord (virtToPhys t') false (r'.join r))) := by
  have hqsome : (pt.table q).isSome := by rw [hq]; rfl
  have hqne : q ≠ i :: q := fun heq => by simpa using congrArg List.length heq
  have hwf : (pt.setTable (i :: q) t' (r'.join r)).WellFormed pml4 claimed :=
    h.wf.setTable hqsome hc hsuf hne (h.wf.isFrame ht') (fun q' r'' hq' => h.wf.inj hq' ht')
      fun q' l hl hsuf' => (h.wf.rights ht' (List.cons_ne_nil _ _) hl hsuf').join_left r
  have hword : (pt.setTable (i :: q) t' (r'.join r)).word (i :: q) =
      pteWord (virtToPhys t') false (r'.join r) :=
    WellFormed.word_of_table (Function.update_self _ _ _)
  have hq' : (pt.setTable (i :: q) t' (r'.join r)).table q = some (t, rq) := by
    rw [setTable_table, Function.update_of_ne hqne, hq]
  refine ⟨⟨hwf, ?_, h.fresh.1, fun f hf => ⟨(h.fresh.2 f hf).1, fun q' r'' hq'' => ?_⟩⟩, ?_⟩
  · rw [← hword]
    refine Represents.storeEntry hwf hq' hi fun p t'' r'' hp j hj hjne => ?_
    have hsame : (pt.setTable (i :: q) t' (r'.join r)).word (j :: p) = pt.word (j :: p) := by
      simp only [word, setTable_table, setTable_leaf, Function.update_of_ne hjne]
    rw [hsame]
    rcases setTable_cases hp with ⟨rfl, rfl, -⟩ | ⟨-, hp⟩
    · exact h.rep _ _ _ ht' j hj
    · exact h.rep _ _ _ hp j hj
  · rcases setTable_cases hq'' with ⟨rfl, rfl, -⟩ | ⟨-, hq''⟩
    · exact (h.fresh.2 f hf).2 _ _ ht'
    · exact (h.fresh.2 f hf).2 _ _ hq''
  · refine ⟨fun {p t'' r''} hp => ?_, ⟨[], rfl, fun {p t'' r''} hp => ?_, by simp⟩, fun a ha => ?_, rfl,
      rfl, rfl, fun _ hg => ⟨hg, id⟩⟩
    · by_cases hpq : p = i :: q
      · subst hpq
        obtain ⟨rfl, rfl⟩ := Prod.mk.inj (Option.some.inj (ht'.symm.trans hp))
        exact ⟨_, Function.update_self _ _ _, (Rights.le_refl _).join_left r⟩
      · exact ⟨r'', by rw [setTable_table, Function.update_of_ne hpq, hp], Rights.le_refl _⟩
    · rcases setTable_cases hp with ⟨rfl, rfl, -⟩ | ⟨-, hp⟩
      · exact Or.inl ⟨_, ht'⟩
      · exact Or.inl ⟨_, hp⟩
    · exact setEntry_mem_of_outside k _ hi (ha q t rq hq')

/-- There is no next table and a frame for it: the entry gets a link to the frame. -/
theorem Valid.attach {pt : PageTable} {pml4 : ℕ} {claimed : Set Path} {k : Kernel} {q c : Path}
    {t i f : ℕ} {rq : Rights} {frames : List (Option ℕ)} (h : pt.Valid pml4 claimed k)
    (hq : pt.table q = some (t, rq)) (hi : i < 512) (hc : c ∈ claimed) (hsuf : i :: q <:+ c)
    (hne : i :: q ≠ c) (hnone : pt.table (i :: q) = none) (hframes : k.frames = some f :: frames)
    (r : Rights) :
    (pt.setTable (i :: q) f r).Valid pml4 claimed
        (setEntry (k.takeFrame f frames) t i (pteWord (virtToPhys f) false r)) ∧
      Grows pt k (pt.setTable (i :: q) f r)
        (setEntry (k.takeFrame f frames) t i (pteWord (virtToPhys f) false r)) := by
  obtain ⟨hnodup, hfresh⟩ := h.fresh
  rw [hframes] at hnodup hfresh
  obtain ⟨hfnew, hnodup⟩ := List.nodup_cons.mp hnodup
  obtain ⟨hframe, hnotable⟩ := hfresh f List.mem_cons_self
  have hqsome : (pt.table q).isSome := by rw [hq]; rfl
  have hqne : q ≠ i :: q := fun heq => by simpa using congrArg List.length heq
  -- nothing is below a node that is no table
  have hnoleaf {p : Path} (hp : i :: q <:+ p) : pt.leaf p = none := by
    by_cases heq : i :: q = p
    · exact heq ▸ h.wf.leaf_of_suffix hc hsuf hne
    · by_contra hleaf
      obtain ⟨l, hleaf⟩ := Option.ne_none_iff_exists'.mp hleaf
      have := h.wf.table_of_suffix_leaf hleaf hp heq
      rw [hnone] at this
      cases this
  have hnosub {p : Path} (hp : i :: q <:+ p) : pt.table p = none := by
    by_contra htable
    have := h.wf.table_suffix (Option.isSome_iff_ne_none.mpr htable) hp
    rw [hnone] at this
    cases this
  have hwf : (pt.setTable (i :: q) f r).WellFormed pml4 claimed :=
    h.wf.setTable hqsome hc hsuf hne hframe (fun q' r'' hq' => absurd hq' (hnotable q' r''))
      fun q' l hl hsuf' => by rw [hnoleaf hsuf'] at hl; cases hl
  have hword : (pt.setTable (i :: q) f r).word (i :: q) = pteWord (virtToPhys f) false r :=
    WellFormed.word_of_table (Function.update_self _ _ _)
  have hq' : (pt.setTable (i :: q) f r).table q = some (t, rq) := by
    rw [setTable_table, Function.update_of_ne hqne, hq]
  refine ⟨⟨hwf, ?_, hnodup, fun g hg => ?_⟩, ?_⟩
  · rw [← hword]
    refine Represents.storeEntry hwf hq' hi fun p t'' r'' hp j hj hjne => ?_
    have hsame : (pt.setTable (i :: q) f r).word (j :: p) = pt.word (j :: p) := by
      simp only [word, setTable_table, setTable_leaf, Function.update_of_ne hjne]
    rw [hsame]
    rcases setTable_cases hp with ⟨rfl, ht'', -⟩ | ⟨-, hp⟩
    · rw [ht'', WellFormed.word_of_none (hnosub (List.suffix_cons _ _)) (hnoleaf (List.suffix_cons _ _))]
      exact k.entry_takeFrame f frames hj
    · rw [← h.rep _ _ _ hp j hj]
      refine entry_congr hj fun a ha => k.takeFrame_mem_of_outside frames fun hfa => ?_
      have heq := inFrame_unique (h.wf.isFrame hp).1 hframe.1 ha hfa
      exact hnotable _ _ (heq ▸ hp)
  · refine ⟨(hfresh g (List.mem_cons_of_mem _ hg)).1, fun q' r'' hq'' => ?_⟩
    rcases setTable_cases hq'' with ⟨-, rfl, -⟩ | ⟨-, hq''⟩
    · exact hfnew (List.mem_filterMap.mpr ⟨some g, hg, rfl⟩)
    · exact (hfresh g (List.mem_cons_of_mem _ hg)).2 _ _ hq''
  · refine ⟨fun {p t'' r''} hp => ?_, ⟨[some f], hframes, fun {p t'' r''} hp => ?_, fun g hg => ?_⟩,
      fun a ha => ?_, rfl, rfl, rfl, fun g hg => ?_⟩
    · have hpq : p ≠ i :: q := fun heq => by rw [heq, hnone] at hp; cases hp
      exact ⟨r'', by rw [setTable_table, Function.update_of_ne hpq, hp], Rights.le_refl _⟩
    · rcases setTable_cases hp with ⟨-, ht'', -⟩ | ⟨-, hp⟩
      · exact Or.inr (ht'' ▸ List.mem_cons_self)
      · exact Or.inl ⟨_, hp⟩
    · obtain rfl : g = f := Option.some.inj (List.mem_singleton.mp hg)
      exact ⟨i :: q, r, Function.update_self _ _ _⟩
    · rw [setEntry_mem_of_outside _ _ hi (ha q t rq hq')]
      exact k.takeFrame_mem_of_outside frames (ha _ _ _ (Function.update_self _ _ _))
    · obtain ⟨hg, hgf⟩ := List.mem_filter.mp hg
      refine ⟨hg, fun hmem => ?_⟩
      rw [hframes] at hmem
      exact (List.mem_cons.mp hmem).resolve_left fun heq => by simp [Option.some.inj heq] at hgf

/-- `frame_alloc` answers `NULL`: nothing happens to the tree. -/
theorem Valid.dropNull {pt : PageTable} {pml4 : ℕ} {claimed : Set Path} {k : Kernel}
    {frames : List (Option ℕ)} (h : pt.Valid pml4 claimed k) (hframes : k.frames = none :: frames) :
    pt.Valid pml4 claimed { k with frames := frames } ∧ Grows pt k pt { k with frames := frames } := by
  obtain ⟨hnodup, hfresh⟩ := h.fresh
  rw [hframes] at hnodup hfresh
  refine ⟨⟨h.wf, h.rep, hnodup, fun f hf => hfresh f (List.mem_cons_of_mem _ hf)⟩, ?_⟩
  refine ⟨fun hq => ⟨_, hq, Rights.le_refl _⟩, ⟨[none], hframes, fun hq => Or.inl ⟨_, hq⟩, by simp⟩,
    fun _ _ => rfl, rfl, rfl, rfl, fun g hg => ⟨hg, fun hmem => ?_⟩⟩
  rw [hframes] at hmem
  exact (List.mem_cons.mp hmem).resolve_left (by simp)

/-- Where there is a next table, its entry gets the rights in addition. -/
theorem vmemEnsureNextTable_of_table {pt : PageTable} {pml4 : ℕ} {claimed : Set Path} {k : Kernel}
    {q : Path} {t i t' : ℕ} {rq r' : Rights} (h : pt.Valid pml4 claimed k)
    (hq : pt.table q = some (t, rq)) (hi : i < 512) (hnext : pt.table (i :: q) = some (t', r'))
    (r : Rights) :
    vmemEnsureNextTable k t i r.pte =
      (t', setEntry k t i (pteWord (virtToPhys t') false (r'.join r))) := by
  have hentry := h.rep q t rq hq i hi
  have hframe := h.wf.isFrame hnext
  rw [WellFormed.word_of_table hnext] at hentry
  unfold vmemEnsureNextTable
  simp only [hentry]
  rw [if_pos (pteWord_and_present _ _ _),
    pteAddr_pteWord hframe.dvd_virtToPhys hframe.virtToPhys_lt, hframe.physToVirt_virtToPhys,
    pteWord_or_pte]

/-- One level of the way to a claimed path. -/
theorem vmemEnsureNextTable_spec {pt : PageTable} {pml4 : ℕ} {claimed : Set Path} {k : Kernel}
    {q c : Path} {t i : ℕ} {rq : Rights} (h : pt.Valid pml4 claimed k)
    (hq : pt.table q = some (t, rq)) (hi : i < 512) (hc : c ∈ claimed) (hsuf : i :: q <:+ c)
    (hne : i :: q ≠ c) (r : Rights) :
    ∃ pt', pt'.Valid pml4 claimed (vmemEnsureNextTable k t i r.pte).2 ∧
      Grows pt k pt' (vmemEnsureNextTable k t i r.pte).2 ∧ pt'.leaf = pt.leaf ∧
      ((vmemEnsureNextTable k t i r.pte).1 = 0 ∨
        ∃ r', pt'.table (i :: q) = some ((vmemEnsureNextTable k t i r.pte).1, r') ∧ r.Le r') := by
  cases hnext : pt.table (i :: q) with
  | some next =>
      obtain ⟨t', r'⟩ := next
      rw [vmemEnsureNextTable_of_table h hq hi hnext r]
      obtain ⟨hvalid, hgrows⟩ := h.grant hq hi hc hsuf hne hnext r
      exact ⟨_, hvalid, hgrows, rfl, Or.inr ⟨_, Function.update_self _ _ _, Rights.le_join_right _ _⟩⟩
  | none =>
      have hentry := h.rep q t rq hq i hi
      rw [WellFormed.word_of_none hnext (h.wf.leaf_of_suffix hc hsuf hne)] at hentry
      have hmiss : vmemEnsureNextTable k t i r.pte =
          if (frameAlloc k).1 = 0 then (0, (frameAlloc k).2)
          else ((frameAlloc k).1, setEntry
            { (frameAlloc k).2 with mem := (frameAlloc k).2.mem.memset (frameAlloc k).1 0 pageSize } t i
            (BitVec.ofNat 64 (virtToPhys (frameAlloc k).1) ||| ptePresent ||| r.pte)) := by
        unfold vmemEnsureNextTable
        simp only [hentry]
        rw [if_neg (by simp)]
      rw [hmiss]
      match hframes : k.frames with
      | [] =>
          have hnull : frameAlloc k = (0, k) := by rw [frameAlloc, hframes]
          rw [hnull, if_pos rfl]
          exact ⟨pt, h, Grows.refl pt k, rfl, Or.inl rfl⟩
      | none :: frames =>
          have hnull : frameAlloc k = (0, { k with frames := frames }) := by rw [frameAlloc, hframes]
          rw [hnull, if_pos rfl]
          obtain ⟨hvalid, hgrows⟩ := h.dropNull hframes
          exact ⟨pt, hvalid, hgrows, rfl, Or.inl rfl⟩
      | some f :: frames =>
          have hframe := (h.fresh.2 f (by rw [hframes]; exact List.mem_cons_self)).1
          have hsome : frameAlloc k = (f, { k with
              mem := k.mem.memset f 0 pageSize, frames := frames, freed := k.freed.filter (· ≠ f) }) := by
            rw [frameAlloc, hframes]
          obtain ⟨hvalid, hgrows⟩ := h.attach hq hi hc hsuf hne hnext hframes r
          have hword : BitVec.ofNat 64 (virtToPhys f) ||| ptePresent ||| r.pte =
              pteWord (virtToPhys f) false r := by simp [pteWord]
          rw [hsome, if_neg hframe.ne_zero, hword]
          exact ⟨_, hvalid, hgrows, rfl, Or.inr ⟨r, Function.update_self _ _ _, Rights.le_refl r⟩⟩

/-- The next `n` calls of `frame_alloc` succeed. -/
def Plenty (n : ℕ) (frames : List (Option ℕ)) : Prop := ∀ i < n, ∃ f, frames[i]? = some (some f)

theorem Plenty.cons {n : ℕ} {frames : List (Option ℕ)} (h : Plenty (n + 1) frames) :
    ∃ f rest, frames = some f :: rest ∧ Plenty n rest := by
  obtain ⟨f, hf⟩ := h 0 (by omega)
  cases frames with
  | nil => cases hf
  | cons first rest =>
      obtain rfl := Option.some.inj hf
      exact ⟨f, rest, rfl, fun i hi => h (i + 1) (by omega)⟩

theorem Plenty.mono {m n : ℕ} {frames : List (Option ℕ)} (h : Plenty n frames) (hle : m ≤ n) : Plenty m frames :=
  fun i hi => h i (lt_of_lt_of_le hi hle)

/-- With a frame at hand there is always a next table. -/
theorem vmemEnsureNextTable_plenty {pt : PageTable} {pml4 : ℕ} {claimed : Set Path} {k : Kernel}
    {q c : Path} {t i n : ℕ} {rq : Rights} (h : pt.Valid pml4 claimed k)
    (hq : pt.table q = some (t, rq)) (hi : i < 512) (hc : c ∈ claimed) (hsuf : i :: q <:+ c)
    (hne : i :: q ≠ c) (r : Rights) (hplenty : Plenty (n + 1) k.frames) :
    (vmemEnsureNextTable k t i r.pte).1 ≠ 0 ∧ Plenty n (vmemEnsureNextTable k t i r.pte).2.frames := by
  cases hnext : pt.table (i :: q) with
  | some next =>
      obtain ⟨t', r'⟩ := next
      rw [vmemEnsureNextTable_of_table h hq hi hnext r]
      exact ⟨(h.wf.isFrame hnext).ne_zero, hplenty.mono (by omega)⟩
  | none =>
      have hentry := h.rep q t rq hq i hi
      unfold vmemEnsureNextTable
      rw [WellFormed.word_of_none hnext (h.wf.leaf_of_suffix hc hsuf hne)] at hentry
      obtain ⟨f, frames, hframes, hrest⟩ := hplenty.cons
      have hframe := (h.fresh.2 f (by rw [hframes]; exact List.mem_cons_self)).1
      have halloc : frameAlloc k = (f, { k with
          mem := k.mem.memset f 0 pageSize, frames := frames, freed := k.freed.filter (· ≠ f) }) := by
        rw [frameAlloc, hframes]
      simp only [hentry]
      rw [if_neg (by simp), halloc, if_neg hframe.ne_zero]
      exact ⟨hframe.ne_zero, hrest⟩

/-- The calls of `vmem_ensure_next_table` that lead to the table at `q`; `0` where one of
them failed. -/
def ensureTo (pml4 : ℕ) (flags : BitVec 64) : Path → Kernel → ℕ × Kernel
  | [], k => (pml4, k)
  | i :: q, k =>
      let (t, k) := ensureTo pml4 flags q k
      if t = 0 then (0, k) else vmemEnsureNextTable k t i flags

/-- The whole way to a claimed path. Every entry on it grants the new rights. -/
theorem ensureTo_spec {pt : PageTable} {pml4 : ℕ} {claimed : Set Path} {k : Kernel} {q c : Path}
    (h : pt.Valid pml4 claimed k) (hc : c ∈ claimed) (hsuf : q <:+ c) (hne : q ≠ c) (r : Rights) :
    ∃ pt', pt'.Valid pml4 claimed (ensureTo pml4 r.pte q k).2 ∧
      Grows pt k pt' (ensureTo pml4 r.pte q k).2 ∧ pt'.leaf = pt.leaf ∧
      ((ensureTo pml4 r.pte q k).1 = 0 ∨
        (∃ r', pt'.table q = some ((ensureTo pml4 r.pte q k).1, r')) ∧
        ∀ p t r', pt'.table p = some (t, r') → p ≠ [] → p <:+ q → r.Le r') := by
  induction q with
  | nil =>
      refine ⟨pt, h, Grows.refl pt k, rfl, Or.inr ⟨h.wf.root, fun p _ _ _ hne hsuf => ?_⟩⟩
      exact absurd (List.eq_nil_of_suffix_nil hsuf) hne
  | cons i q ih =>
      have hsufq : q <:+ c := (List.suffix_cons i q).trans hsuf
      have hneq : q ≠ c := by
        rintro rfl
        have hlen := hsuf.length_le
        rw [List.length_cons] at hlen
        omega
      obtain ⟨pt1, hvalid1, hgrows1, hleaf1, hres1⟩ := ih hsufq hneq
      rw [ensureTo]
      simp only
      generalize ensureTo pml4 r.pte q k = step1 at *
      obtain ⟨t1, k1⟩ := step1
      simp only at *
      by_cases hzero : t1 = 0
      · rw [if_pos hzero]
        exact ⟨pt1, hvalid1, hgrows1, hleaf1, Or.inl rfl⟩
      · rw [if_neg hzero]
        obtain ⟨⟨r1, hq1⟩, hway1⟩ := hres1.resolve_left hzero
        have hi : i < 512 := h.wf.claimed_lt hc i (hsuf.subset List.mem_cons_self)
        obtain ⟨pt2, hvalid2, hgrows2, hleaf2, hres2⟩ :=
          vmemEnsureNextTable_spec hvalid1 hq1 hi hc hsuf hne r
        refine ⟨pt2, hvalid2, hgrows1.trans hgrows2, hleaf2.trans hleaf1, hres2.imp_right ?_⟩
        rintro ⟨r', htable, hle⟩
        refine ⟨⟨r', htable⟩, fun p t r'' hp hpne hpsuf => ?_⟩
        rcases List.suffix_cons_iff.mp hpsuf with rfl | hpsuf
        · obtain ⟨-, rfl⟩ := Prod.mk.inj (Option.some.inj (htable.symm.trans hp))
          exact hle
        · obtain ⟨⟨t0, r0⟩, hp1⟩ := Option.isSome_iff_exists.mp
            (hvalid1.wf.table_suffix (by rw [hq1]; rfl) hpsuf)
          obtain ⟨r0', hp2, hle0⟩ := hgrows2.table hp1
          obtain ⟨-, rfl⟩ := Prod.mk.inj (Option.some.inj (hp2.symm.trans hp))
          exact (hway1 p t0 r0 hp1 hpne hpsuf).trans hle0

/-- A way that exists is followed, and takes no frame. -/
theorem ensureTo_of_table {pt : PageTable} {pml4 : ℕ} {claimed : Set Path} {k : Kernel} {q c : Path}
    {t : ℕ} {rq : Rights} (h : pt.Valid pml4 claimed k) (hc : c ∈ claimed) (hsuf : q <:+ c)
    (hne : q ≠ c) (hq : pt.table q = some (t, rq)) (r : Rights) :
    (ensureTo pml4 r.pte q k).1 = t ∧ (ensureTo pml4 r.pte q k).2.frames = k.frames := by
  induction q generalizing t rq with
  | nil =>
      obtain ⟨r', hroot⟩ := h.wf.root
      obtain ⟨rfl, -⟩ := Prod.mk.inj (Option.some.inj (hq.symm.trans hroot))
      exact ⟨rfl, rfl⟩
  | cons i q ih =>
      have hsufq : q <:+ c := (List.suffix_cons i q).trans hsuf
      have hneq : q ≠ c := by
        rintro rfl
        have hlen := hsuf.length_le
        rw [List.length_cons] at hlen
        omega
      obtain ⟨⟨t0, r0⟩, hparent⟩ := Option.isSome_iff_exists.mp
        (h.wf.table_suffix (q := i :: q) (by rw [hq]; rfl) (List.suffix_cons i q))
      obtain ⟨ht0, hframes⟩ := ih hsufq hneq hparent
      obtain ⟨pt1, hvalid1, hgrows1, -, hres1⟩ := ensureTo_spec h hc hsufq hneq r
      have hnz := (h.wf.isFrame hparent).ne_zero
      obtain ⟨⟨r1, hq1⟩, -⟩ := hres1.resolve_left (ht0.symm ▸ hnz)
      obtain ⟨r2, hnext, -⟩ := hgrows1.table hq
      have hi : i < 512 := h.wf.claimed_lt hc i (hsuf.subset List.mem_cons_self)
      rw [ensureTo]
      simp only [ht0, if_neg hnz]
      rw [ht0] at hq1
      rw [vmemEnsureNextTable_of_table hvalid1 hq1 hi hnext r]
      exact ⟨rfl, hframes⟩

/-- With a frame for each level the way is always completed. -/
theorem ensureTo_plenty {pt : PageTable} {pml4 : ℕ} {claimed : Set Path} {k : Kernel} {q c : Path}
    {n : ℕ} (h : pt.Valid pml4 claimed k) (hc : c ∈ claimed) (hsuf : q <:+ c) (hne : q ≠ c)
    (r : Rights) (hplenty : Plenty (n + q.length) k.frames) :
    (ensureTo pml4 r.pte q k).1 ≠ 0 ∧ Plenty n (ensureTo pml4 r.pte q k).2.frames := by
  induction q generalizing n with
  | nil =>
      obtain ⟨rq, hroot⟩ := h.wf.root
      exact ⟨(h.wf.isFrame hroot).ne_zero, hplenty⟩
  | cons i q ih =>
      have hsufq : q <:+ c := (List.suffix_cons i q).trans hsuf
      have hneq : q ≠ c := by
        rintro rfl
        have hlen := hsuf.length_le
        rw [List.length_cons] at hlen
        omega
      rw [List.length_cons, ← Nat.add_assoc, Nat.add_right_comm] at hplenty
      obtain ⟨hnz, hplenty1⟩ := ih hsufq hneq hplenty
      obtain ⟨pt1, hvalid1, -, -, hres1⟩ := ensureTo_spec h hc hsufq hneq r
      obtain ⟨⟨r1, hq1⟩, -⟩ := hres1.resolve_left hnz
      have hi : i < 512 := h.wf.claimed_lt hc i (hsuf.subset List.mem_cons_self)
      rw [ensureTo]
      simp only [if_neg hnz]
      exact vmemEnsureNextTable_plenty hvalid1 hq1 hi hc hsuf hne r hplenty1

/-! ## Mapping a page -/

/-- What the three mapping functions do for a page at the path `c`. -/
def mapAt (pml4 : ℕ) (c : Path) (l : Leaf) (k : Kernel) : Int × Kernel :=
  match c with
  | [] => (0, k)
  | i :: q =>
      let (t, k) := ensureTo pml4 l.rights.pte q k
      if t = 0 then (-enomem, k)
      else (0, setEntry k t i (pteWord l.frame ((i :: q).length < 4) l.rights))

section NewPage

variable {pt : PageTable} {pml4 : ℕ} {claimed : Set Path} {k : Kernel} {i : ℕ} {q : Path}
  (h : pt.Valid pml4 claimed k) (hmem : i :: q ∈ claimed)

include h hmem

/-- The tables on the way to a new path, and the entry that is still empty. -/
theorem ensureTo_new (hnone : pt.leaf (i :: q) = none) (r : Rights) :
    ∃ pt', pt'.Valid pml4 claimed (ensureTo pml4 r.pte q k).2 ∧
      Grows pt k pt' (ensureTo pml4 r.pte q k).2 ∧ pt'.leaf = pt.leaf ∧
      ((ensureTo pml4 r.pte q k).1 = 0 ∨
        (∃ r', pt'.table q = some ((ensureTo pml4 r.pte q k).1, r')) ∧
        (∀ p t r', pt'.table p = some (t, r') → p ≠ [] → p <:+ q → r.Le r') ∧
        entry (ensureTo pml4 r.pte q k).2.mem (ensureTo pml4 r.pte q k).1 i = 0) := by
  have hqne : q ≠ i :: q := fun heq => by simpa using congrArg List.length heq
  obtain ⟨pt', hvalid, hgrows, hleaf, hres⟩ := ensureTo_spec h hmem (List.suffix_cons i q) hqne r
  refine ⟨pt', hvalid, hgrows, hleaf, hres.imp_right fun ⟨⟨r', htable⟩, hway⟩ => ⟨⟨r', htable⟩, hway, ?_⟩⟩
  rw [hvalid.rep q _ r' htable i (h.wf.claimed_lt hmem i List.mem_cons_self)]
  exact WellFormed.word_of_none (hvalid.wf.table_of_claimed hmem) (by rw [hleaf, hnone])

/-- Mapping a page puts it into the tree, or runs out of memory and leaves every page as
it was. -/
theorem mapAt_spec (hnone : pt.leaf (i :: q) = none) {l : Leaf}
    (hframe : 2 ^ (12 + 9 * (4 - (i :: q).length)) ∣ l.frame ∧ l.frame < 2 ^ 48) :
    ∃ pt', pt'.Valid pml4 claimed (mapAt pml4 (i :: q) l k).2 ∧
      Grows pt k pt' (mapAt pml4 (i :: q) l k).2 ∧
      ((mapAt pml4 (i :: q) l k).1 = 0 ∧ pt'.leaf = Function.update pt.leaf (i :: q) (some l) ∨
        (mapAt pml4 (i :: q) l k).1 = -enomem ∧ pt'.leaf = pt.leaf) := by
  obtain ⟨pt1, hvalid, hgrows, hleaf, hres⟩ := ensureTo_new h hmem hnone l.rights
  rw [mapAt]
  generalize ensureTo pml4 l.rights.pte q k = step at *
  obtain ⟨t, k1⟩ := step
  simp only at *
  by_cases hzero : t = 0
  · rw [if_pos hzero]
    exact ⟨pt1, hvalid, hgrows, Or.inr ⟨rfl, hleaf⟩⟩
  · rw [if_neg hzero]
    obtain ⟨⟨r', htable⟩, hway, -⟩ := hres.resolve_left hzero
    have hi : i < 512 := h.wf.claimed_lt hmem i List.mem_cons_self
    have hwf : (pt1.setLeaf (i :: q) l).WellFormed pml4 claimed :=
      hvalid.wf.setLeaf hmem (by rw [htable]; rfl) hframe hway
    have hword : (pt1.setLeaf (i :: q) l).word (i :: q) =
        pteWord l.frame ((i :: q).length < 4) l.rights :=
      hwf.word_of_leaf (Function.update_self _ _ _)
    refine ⟨pt1.setLeaf (i :: q) l, ⟨hwf, ?_, hvalid.fresh⟩, ?_, Or.inl ⟨rfl, ?_⟩⟩
    · rw [← hword]
      refine Represents.storeEntry hwf htable hi fun p t' r'' hp j hj hjne => ?_
      rw [hvalid.rep p t' r'' hp j hj]
      simp only [word, setLeaf_table, setLeaf_leaf, Function.update_of_ne hjne]
    · refine hgrows.trans ⟨fun hp => ⟨_, hp, Rights.le_refl _⟩, ⟨[], rfl, fun hp => Or.inl ⟨_, hp⟩, by simp⟩,
        fun a ha => ?_, rfl, rfl, rfl, fun _ hg => ⟨hg, id⟩⟩
      exact setEntry_mem_of_outside k1 _ hi (ha q t r' htable)
    · rw [setLeaf_leaf, hleaf]

/-- With three frames at hand a page is always mapped. -/
theorem mapAt_plenty {l : Leaf} {n : ℕ} (hplenty : Plenty (n + 3) k.frames) :
    (mapAt pml4 (i :: q) l k).1 = 0 ∧ Plenty n (mapAt pml4 (i :: q) l k).2.frames := by
  have hqne : q ≠ i :: q := fun heq => by simpa using congrArg List.length heq
  have hq : n + (3 - q.length) + q.length = n + 3 := by
    have := (h.wf.claimed_length hmem).2
    rw [List.length_cons] at this
    omega
  obtain ⟨hnz, hrest⟩ := ensureTo_plenty (n := n + (3 - q.length)) h hmem
    (List.suffix_cons i q) hqne l.rights (hq.symm ▸ hplenty)
  rw [mapAt]
  simp only [if_neg hnz]
  exact ⟨trivial, fun j hj => hrest j (by omega)⟩

end NewPage

end PageTable

end HeavenOS

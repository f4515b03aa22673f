/-
# Tearing an address space down

`vmem_destroy` walks the four levels of the page table and gives back, below every
entry, first what the table behind it holds and then the table itself. The order is that
of a tree traversal: a node comes after everything below it. Every frame taken for the
address space has one place in the tree, so it is given back once.
-/

import HeavenOS.Mm.VmemFree

namespace HeavenOS

open Lib PageTable

/-! ## What teardown does -/

/-- The reads and the frames given back at a node with `n` levels below it. -/
def visit (pt : PageTable) : (n : ℕ) → Path → List VmemEvent
  | 0, q => (pt.held q).toList.map .free
  | n + 1, q =>
      match pt.table q with
      | some (t, _) => (List.range' 0 512).flatMap (fun i => .read t :: visit pt n (i :: q)) ++ [.free t]
      | none => []

/-- What is given back is neither read nor given back later. -/
def VmemEvent.Over (e e' : VmemEvent) : Prop := ∀ f, e = .free f → e' ≠ .read f ∧ e' ≠ .free f

section Visit

variable {pt : PageTable}

theorem visit_of_table {n t : ℕ} {q : Path} {r : Rights} (hq : pt.table q = some (t, r)) :
    visit pt (n + 1) q =
      (List.range' 0 512).flatMap (fun i => .read t :: visit pt n (i :: q)) ++ [.free t] := by
  rw [visit, hq]

theorem visit_of_none {n : ℕ} {q : Path} (hq : pt.table q = none) : visit pt (n + 1) q = [] := by
  rw [visit, hq]

/-- Only frames held at the node or below it are given back. -/
theorem held_of_visit {n f : ℕ} {q : Path} (hf : .free f ∈ visit pt n q) :
    ∃ p, q <:+ p ∧ pt.held p = some f := by
  induction n generalizing q with
  | zero => exact ⟨q, List.suffix_refl q, by simpa [visit] using hf⟩
  | succ n ih =>
      cases hq : pt.table q with
      | none => simp [visit_of_none hq] at hf
      | some next =>
          obtain ⟨t, r⟩ := next
          rw [visit_of_table hq, List.mem_append, List.mem_flatMap, List.mem_singleton] at hf
          rcases hf with ⟨i, -, hf⟩ | hf
          · rcases List.mem_cons.mp hf with hf | hf
            · cases hf
            · obtain ⟨p, hsuf, hp⟩ := ih hf
              exact ⟨p, (List.suffix_cons i q).trans hsuf, hp⟩
          · obtain rfl := VmemEvent.free.inj hf
            exact ⟨q, List.suffix_refl q, held_of_table hq⟩

/-- Only tables at the node or below it are read. -/
theorem table_of_visit {n t : ℕ} {q : Path} (ht : .read t ∈ visit pt n q) :
    ∃ p r, q <:+ p ∧ pt.table p = some (t, r) := by
  induction n generalizing q with
  | zero => simp [visit] at ht
  | succ n ih =>
      cases hq : pt.table q with
      | none => simp [visit_of_none hq] at ht
      | some next =>
          obtain ⟨t', r⟩ := next
          rw [visit_of_table hq, List.mem_append, List.mem_flatMap, List.mem_singleton] at ht
          rcases ht with ⟨i, -, ht⟩ | ht
          · rcases List.mem_cons.mp ht with ht | ht
            · obtain rfl := VmemEvent.read.inj ht
              exact ⟨q, r, List.suffix_refl q, hq⟩
            · obtain ⟨p, r', hsuf, hp⟩ := ih ht
              exact ⟨p, r', (List.suffix_cons i q).trans hsuf, hp⟩
          · cases ht

/-- No path is below two different children of a node. -/
theorem child_unique {i j : ℕ} {p q : Path} (hi : i :: q <:+ p) (hj : j :: q <:+ p) : i = j := by
  have hsame := List.suffix_of_suffix_length_le hi hj (le_of_eq rfl)
  exact (List.cons.inj (hsame.eq_of_length rfl)).1

theorem not_below_child {i : ℕ} {q : Path} : ¬i :: q <:+ q := fun h => by
  have := h.length_le
  simp at this

variable (hinj : ∀ {q q' f}, pt.held q = some f → pt.held q' = some f → q = q')

include hinj

/-- Nothing is read or given back once it has been given back. -/
theorem visit_over (n : ℕ) (q : Path) : (visit pt n q).Pairwise VmemEvent.Over := by
  induction n generalizing q with
  | zero =>
      cases hheld : pt.held q with
      | none => simp [visit, hheld]
      | some f => simp [visit, hheld]
  | succ n ih =>
      cases hq : pt.table q with
      | none => simp [visit_of_none hq]
      | some next =>
          obtain ⟨t, r⟩ := next
          rw [visit_of_table hq, List.pairwise_append, List.pairwise_flatMap]
          refine ⟨⟨fun i _ => List.pairwise_cons.mpr ⟨fun _ _ f hf => (by cases hf), ih _⟩, ?_⟩,
            List.pairwise_singleton _ _, fun e he e' he' f hf => ?_⟩
          · refine List.Pairwise.imp (fun {i j} hlt e he e' he' f hf => ?_) List.pairwise_lt_range'
            subst hf
            obtain ⟨p, hsuf, hp⟩ := held_of_visit ((List.mem_cons.mp he).resolve_left (by simp))
            have hread (p' : Path) (r' : Rights) (hp' : pt.table p' = some (f, r')) : p' = p :=
              hinj (held_of_table hp') hp
            constructor
            · rintro rfl
              rcases List.mem_cons.mp he' with heq | he'
              · obtain rfl := VmemEvent.read.inj heq
                exact not_below_child (hread q r hq ▸ hsuf)
              · obtain ⟨p', r', hsuf', hp'⟩ := table_of_visit he'
                exact absurd (child_unique hsuf (hread p' r' hp' ▸ hsuf')) (by omega)
            · rintro rfl
              obtain ⟨p', hsuf', hp'⟩ := held_of_visit ((List.mem_cons.mp he').resolve_left (by simp))
              exact absurd (child_unique hsuf (hinj hp' hp ▸ hsuf')) (by omega)
          · subst hf
            obtain rfl := List.mem_singleton.mp he'
            obtain ⟨i, -, he⟩ := List.mem_flatMap.mp he
            obtain ⟨p, hsuf, hp⟩ := held_of_visit ((List.mem_cons.mp he).resolve_left (by simp))
            refine ⟨by simp, fun heq => ?_⟩
            obtain rfl := VmemEvent.free.inj heq
            exact not_below_child (hinj (held_of_table hq) hp ▸ hsuf)

end Visit

/-- Everything held at a node or below it is given back. -/
theorem visit_of_held {pt : PageTable} {pml4 : ℕ} {claimed : Set Path} (hwf : pt.WellFormed pml4 claimed)
    {n f : ℕ} {p q : Path} (hlen : q.length + n = 4) (hsuf : q <:+ p) (hp : pt.held p = some f) :
    .free f ∈ visit pt n q := by
  -- the path of a held frame leads through tables and has indices below 512
  have hpath : (∀ p', p' <:+ p → p' ≠ p → (pt.table p').isSome) ∧ (∀ i ∈ p, i < 512) ∧ p.length ≤ 4 ∧
      (p.length < 4 → ∃ r, pt.table p = some (f, r)) := by
    cases htable : pt.table p with
    | some next =>
        obtain ⟨t, r⟩ := next
        obtain rfl := Option.some.inj ((held_of_table htable).symm.trans hp)
        have hsome : (pt.table p).isSome := by
          rw [htable]
          rfl
        refine ⟨fun p' hp' _ => hwf.table_suffix hsome hp', fun i hi => ?_,
          (hwf.table_length hsome).trans (by decide), fun _ => ⟨r, rfl⟩⟩
        rcases hwf.table_claimed hsome with rfl | ⟨c, hc, hpc, -⟩
        · cases hi
        · exact hwf.claimed_lt hc i (hpc.subset hi)
    | none =>
        cases hl : pt.leaf p with
        | none =>
            rw [held_of_none htable hl] at hp
            cases hp
        | some l =>
            rw [held_of_leaf htable hl] at hp
            split_ifs at hp with hcond
            refine ⟨fun p' hp' hne => hwf.table_of_suffix_leaf hl hp' hne, fun i hi => ?_,
              le_of_eq hcond.2, fun hlt => absurd hcond.2 (by omega)⟩
            exact hwf.claimed_lt (hwf.leaf_claimed (by rw [hl]; rfl)) i hi
  obtain ⟨htables, hlt, hle, hlast⟩ := hpath
  induction n generalizing q with
  | zero =>
      have heq : q = p := hsuf.eq_of_length (le_antisymm hsuf.length_le (by omega))
      simp [visit, heq, hp]
  | succ n ih =>
      by_cases heq : q = p
      · subst heq
        obtain ⟨r, hr⟩ := hlast (by omega)
        rw [visit_of_table hr]
        exact List.mem_append_right _ (List.mem_singleton.mpr rfl)
      · obtain ⟨⟨t, r⟩, ht⟩ := Option.isSome_iff_exists.mp (htables q hsuf heq)
        obtain ⟨front, rfl⟩ := hsuf
        rcases List.eq_nil_or_concat' front with rfl | ⟨front, i, rfl⟩
        · exact absurd rfl heq
        have hchild : i :: q <:+ front ++ [i] ++ q := ⟨front, by simp⟩
        have hi : i < 512 := hlt i (hchild.subset List.mem_cons_self)
        rw [visit_of_table ht]
        refine List.mem_append_left _ (List.mem_flatMap.mpr ⟨i, ?_, ?_⟩)
        · rw [List.mem_range'_1]
          omega
        · exact List.mem_cons_of_mem _ (ih (by rw [List.length_cons]; omega) hchild)

/-! ## The loops -/

/-- The frames given back are in the hands of the allocator; nothing else changes. -/
structure Tears (events : List VmemEvent) (k k' : Kernel) : Prop where
  trace : k'.trace = k.trace ++ events
  freed : ∀ g, g ∈ k'.freed ↔ g ∈ k.freed ∨ .free g ∈ events
  mem : ∀ a, (∀ g ∈ k'.freed, ¬InFrame g a) → k'.mem a = k.mem a
  frames : k'.frames = k.frames
  objects : k'.objects = k.objects

namespace Tears

variable {k k1 k2 : Kernel} {events events' : List VmemEvent}

theorem refl (k : Kernel) : Tears [] k k := ⟨by simp, by simp, fun _ _ => rfl, rfl, rfl⟩

theorem trans (h : Tears events k k1) (h' : Tears events' k1 k2) : Tears (events ++ events') k k2 where
  trace := by rw [h'.trace, h.trace, List.append_assoc]
  freed g := by rw [h'.freed, h.freed, List.mem_append, or_assoc]
  mem a ha := by
    rw [h'.mem a ha, h.mem a fun g hg => ha g ((h'.freed g).mpr (Or.inl hg))]
  frames := h'.frames.trans h.frames
  objects := h'.objects.trans h.objects

theorem readEntry (k : Kernel) (tbl i : ℕ) : Tears [.read tbl] k (readEntry k tbl i).2 :=
  ⟨rfl, by simp [HeavenOS.readEntry], fun _ _ => rfl, rfl, rfl⟩

theorem frameFree (k : Kernel) (f : ℕ) : Tears [.free f] k (frameFree k f) where
  trace := rfl
  freed g := by simp [HeavenOS.frameFree, or_comm]
  mem a ha := if_neg fun ⟨g, hg, hin⟩ => ha g hg hin
  frames := rfl
  objects := rfl

end Tears

/-- The tables of a part of the tree are as they were. -/
structure Intact (pt : PageTable) (k : Kernel) (part : Set Path) : Prop where
  aligned : ∀ g ∈ k.freed, pageSize ∣ g
  notMem : ∀ {p t r}, p ∈ part → pt.table p = some (t, r) → t ∉ k.freed
  entries : ∀ {p t r}, p ∈ part → pt.table p = some (t, r) → ∀ i < 512, entry k.mem t i = pt.word (i :: p)

theorem Intact.mono {pt : PageTable} {k : Kernel} {part part' : Set Path} (h : Intact pt k part)
    (hsub : part' ⊆ part) : Intact pt k part' :=
  ⟨h.aligned, fun hp => h.notMem (hsub hp), fun hp => h.entries (hsub hp)⟩

/-- The nodes at `q` and below. -/
def below (q : Path) : Set Path := {p | q <:+ p}

/-- A table and what is below its entries from `i` on. -/
def fromEntry (q : Path) (i : ℕ) : Set Path := {p | p = q ∨ ∃ j, i ≤ j ∧ j :: q <:+ p}

theorem fromEntry_subset (q : Path) (i : ℕ) : fromEntry q i ⊆ below q := by
  rintro p (rfl | ⟨j, -, hsuf⟩)
  · exact List.suffix_refl _
  · exact (List.suffix_cons j q).trans hsuf

section Destroy

variable {pt : PageTable} {pml4 : ℕ} {claimed : Set Path} (hwf : pt.WellFormed pml4 claimed)
  (hinj : ∀ {q q' f}, pt.held q = some f → pt.held q' = some f → q = q')
  (hheld : ∀ {q f}, pt.held q = some f → pageSize ∣ f)

include hwf hinj hheld

/-- A part of the tree is as it was when frames held elsewhere have been given back. -/
theorem Intact.tears {k k' : Kernel} {part : Set Path} {events : List VmemEvent} (h : Intact pt k part)
    (htears : Tears events k k')
    (hevents : ∀ f, .free f ∈ events → ∃ p, p ∉ part ∧ pt.held p = some f) : Intact pt k' part := by
  have haligned : ∀ g ∈ k'.freed, pageSize ∣ g := fun g hg => by
    rcases (htears.freed g).mp hg with hg | hg
    · exact h.aligned g hg
    · obtain ⟨p, -, hp⟩ := hevents g hg
      exact hheld hp
  have hnot {p : Path} {t : ℕ} {r : Rights} (hpart : p ∈ part) (hp : pt.table p = some (t, r)) :
      t ∉ k'.freed := fun ht => by
    rcases (htears.freed t).mp ht with ht | ht
    · exact h.notMem hpart hp ht
    · obtain ⟨p', hnot, hp'⟩ := hevents t ht
      exact hnot (hinj (held_of_table hp) hp' ▸ hpart)
  refine ⟨haligned, hnot, fun {p t r} hpart hp i hi => ?_⟩
  rw [← h.entries hpart hp i hi]
  refine entry_congr hi fun a ha => htears.mem a fun g hg hga => hnot hpart hp ?_
  rwa [← inFrame_unique (haligned g hg) (hwf.isFrame hp).1 hga ha]

/-- One of the loops: every entry is read, and what is below it is given back before the
next one is read. -/
theorem tears_entries {n t : ℕ} {q : Path} {r : Rights} {body : BitVec 64 → Kernel → Kernel}
    (hq : pt.table q = some (t, r))
    (hbody : ∀ i < 512, pt.word (i :: q) &&& ptePresent ≠ 0 → ∀ k, Intact pt k (below (i :: q)) →
      Tears (visit pt n (i :: q)) k (body (pt.word (i :: q)) k))
    (habsent : ∀ i < 512, pt.word (i :: q) &&& ptePresent = 0 → visit pt n (i :: q) = [])
    {count i : ℕ} (hcount : i + count = 512) {k : Kernel} (hrest : Intact pt k (fromEntry q i)) :
    Tears ((List.range' i count).flatMap (fun i => .read t :: visit pt n (i :: q))) k
      (destroyEntries body t count i k) := by
  induction count generalizing i k with
  | zero => exact Tears.refl k
  | succ count ih =>
      have hi : i < 512 := by omega
      have hread := Tears.readEntry k t i
      have hintact : Intact pt (readEntry k t i).2 (fromEntry q i) :=
        hrest.tears hwf hinj hheld hread (by simp)
      have hword : (readEntry k t i).1 = pt.word (i :: q) := hrest.entries (Or.inl rfl) hq i hi
      have hfirst : Tears (visit pt n (i :: q)) (readEntry k t i).2
          (if (readEntry k t i).1 &&& ptePresent = 0 then (readEntry k t i).2
            else body (readEntry k t i).1 (readEntry k t i).2) := by
        rw [hword]
        split_ifs with hbit
        · rw [habsent i hi hbit]
          exact Tears.refl _
        · exact hbody i hi hbit _ (hintact.mono fun p hp => Or.inr ⟨i, le_refl i, hp⟩)
      have hnext : destroyEntries body t (count + 1) i k = destroyEntries body t count (i + 1)
          (if (readEntry k t i).1 &&& ptePresent = 0 then (readEntry k t i).2
            else body (readEntry k t i).1 (readEntry k t i).2) := rfl
      rw [hnext, List.range'_succ, List.flatMap_cons]
      generalize (if (readEntry k t i).1 &&& ptePresent = 0 then (readEntry k t i).2
        else body (readEntry k t i).1 (readEntry k t i).2) = k' at *
      have hboth : Tears (.read t :: visit pt n (i :: q)) k k' := hread.trans hfirst
      refine hboth.trans (ih (i := i + 1) (by omega) ?_)
      refine (hintact.mono ?_).tears hwf hinj hheld hfirst fun f hf => ?_
      · rintro p (rfl | ⟨j, hj, hsuf⟩)
        · exact Or.inl rfl
        · exact Or.inr ⟨j, by omega, hsuf⟩
      · obtain ⟨p, hsuf, hp⟩ := held_of_visit hf
        refine ⟨p, ?_, hp⟩
        rintro (rfl | ⟨j, hj, hsuf'⟩)
        · exact not_below_child hsuf
        · exact absurd (child_unique hsuf hsuf') (by omega)

omit hinj hheld in
/-- Below an entry that is not present there is nothing to give back. -/
theorem visit_of_absent {n : ℕ} {q : Path} (hbit : pt.word q &&& ptePresent = 0) : visit pt n q = [] := by
  have htable : pt.table q = none := by
    by_contra hne
    obtain ⟨⟨t, r⟩, hq⟩ := Option.ne_none_iff_exists'.mp hne
    exact (table_word_reads hwf hq).1 hbit
  have hleaf : pt.leaf q = none := by
    by_contra hne
    obtain ⟨l, hl⟩ := Option.ne_none_iff_exists'.mp hne
    exact (leaf_word_reads hwf hl).1 hbit
  cases n with
  | zero => simp [visit, held_of_none htable hleaf]
  | succ n => exact visit_of_none htable

/-- A table is given back after everything below it. -/
theorem tears_table {n t : ℕ} {q : Path} {r : Rights} {body : BitVec 64 → Kernel → Kernel}
    (hq : pt.table q = some (t, r))
    (hbody : ∀ i < 512, pt.word (i :: q) &&& ptePresent ≠ 0 → ∀ k, Intact pt k (below (i :: q)) →
      Tears (visit pt n (i :: q)) k (body (pt.word (i :: q)) k))
    {k : Kernel} (hintact : Intact pt k (below q)) :
    Tears (visit pt (n + 1) q) k (frameFree (destroyEntries body t 512 0 k) t) := by
  rw [visit_of_table hq]
  refine (tears_entries hwf hinj hheld hq hbody (fun i _ hbit => visit_of_absent hwf hbit) (by decide)
    (hintact.mono (fromEntry_subset q 0))).trans (Tears.frameFree _ _)

omit hinj hheld in
theorem tears_destroyPte {q : Path} (hlen : q.length = 4) (hbit : pt.word q &&& ptePresent ≠ 0)
    {k : Kernel} : Tears (visit pt 0 q) k (destroyPte (pt.word q) k) := by
  rcases table_or_leaf hbit with ⟨t, r, htable⟩ | ⟨l, hl⟩
  · have := hwf.table_length (q := q) (by rw [htable]; rfl)
    omega
  · obtain ⟨-, -, haddr, -, -, halloc⟩ := leaf_word_reads hwf hl
    have htest : pt.word q &&& pteAlloc ≠ 0 ↔ l.rights.alloc = true := by
      rw [← halloc]
      exact decide_eq_true_iff.symm
    rw [destroyPte, visit, held_of_leaf (hwf.table_of_leaf hl) hl, haddr]
    by_cases hcase : l.rights.alloc = true
    · rw [if_pos (htest.mpr hcase), if_pos ⟨hcase, hlen⟩]
      exact Tears.frameFree _ _
    · rw [if_neg (mt htest.mp hcase), if_neg (fun h => hcase h.1)]
      exact Tears.refl _

theorem tears_destroyPde {q : Path} (hlen : q.length = 3) (hbit : pt.word q &&& ptePresent ≠ 0)
    {k : Kernel} (hintact : Intact pt k (below q)) : Tears (visit pt 1 q) k (destroyPde (pt.word q) k) := by
  rcases table_or_leaf hbit with ⟨t, r, htable⟩ | ⟨l, hl⟩
  · obtain ⟨-, hsmall, haddr, -, -⟩ := table_word_reads hwf htable
    rw [destroyPde, if_neg (not_not.mpr hsmall), haddr]
    exact tears_table hwf hinj hheld htable
      (fun i _ hbit k _ => tears_destroyPte hwf (by rw [List.length_cons, hlen]) hbit) hintact
  · obtain ⟨-, hlarge, -⟩ := leaf_word_reads hwf hl
    rw [destroyPde, if_pos (fun hzero => hlarge.mp hzero (by omega)), visit_of_none (hwf.table_of_leaf hl)]
    exact Tears.refl _

theorem tears_destroyPdpe {q : Path} (hlen : q.length = 2) (hbit : pt.word q &&& ptePresent ≠ 0)
    {k : Kernel} (hintact : Intact pt k (below q)) : Tears (visit pt 2 q) k (destroyPdpe (pt.word q) k) := by
  rcases table_or_leaf hbit with ⟨t, r, htable⟩ | ⟨l, hl⟩
  · obtain ⟨-, hsmall, haddr, -, -⟩ := table_word_reads hwf htable
    rw [destroyPdpe, if_neg (not_not.mpr hsmall), haddr]
    exact tears_table hwf hinj hheld htable
      (fun i _ hbit k => tears_destroyPde hwf hinj hheld (by rw [List.length_cons, hlen]) hbit) hintact
  · obtain ⟨-, hlarge, -⟩ := leaf_word_reads hwf hl
    rw [destroyPdpe, if_pos (fun hzero => hlarge.mp hzero (by omega)), visit_of_none (hwf.table_of_leaf hl)]
    exact Tears.refl _

theorem tears_destroyPml4e {q : Path} (hlen : q.length = 1) (hbit : pt.word q &&& ptePresent ≠ 0)
    {k : Kernel} (hintact : Intact pt k (below q)) : Tears (visit pt 3 q) k (destroyPml4e (pt.word q) k) := by
  rcases table_or_leaf hbit with ⟨t, r, htable⟩ | ⟨l, hl⟩
  · obtain ⟨-, -, haddr, -, -⟩ := table_word_reads hwf htable
    rw [destroyPml4e, haddr]
    exact tears_table hwf hinj hheld htable
      (fun i _ hbit k => tears_destroyPdpe hwf hinj hheld (by rw [List.length_cons, hlen]) hbit) hintact
  · have := (hwf.claimed_length (hwf.leaf_claimed (q := q) (by rw [hl]; rfl))).1
    omega

end Destroy

/-! ## The frames of the address space -/

theorem givenBack_tears {k k' : Kernel} {events : List VmemEvent} (h : Tears events k k') (f : ℕ) :
    f ∈ givenBack k k' ↔ .free f ∈ events := by
  rw [givenBack, h.trace, List.drop_left, List.mem_filterMap]
  constructor
  · rintro ⟨e, he, hf⟩
    cases e with
    | read t => cases hf
    | free g =>
        obtain rfl := Option.some.inj hf
        exact he
  · exact fun hf => ⟨_, hf, rfl⟩

theorem nodup_givenBack {k k' : Kernel} {events : List VmemEvent} (h : Tears events k k')
    (hover : events.Pairwise VmemEvent.Over) : (givenBack k k').Nodup := by
  rw [givenBack, h.trace, List.drop_left, List.Nodup, List.pairwise_filterMap]
  refine hover.imp fun {e e'} hee f hf f' hf' heq => ?_
  cases e with
  | read t => cases hf
  | free g =>
      cases e' with
      | read t => cases hf'
      | free g' =>
          obtain rfl := Option.some.inj hf
          obtain rfl := Option.some.inj hf'
          exact (hee g rfl).2 (by rw [heq])

section Space

variable {s : Space} {pt : PageTable} {claimed : Set Path} (hinv : SpaceInv s pt claimed)
  (hown : Owned s pt) (hfreed : ∀ g ∈ s.k.freed, pageSize ∣ g)

include hinv hown hfreed

/-- Teardown visits the whole tree. -/
theorem vmemDestroy_spec :
    ∃ k, vmemDestroy s.vm false s.k = .ok k ∧ Tears (visit pt 4 []) s.k k := by
  have hwf := hinv.valid.wf
  obtain ⟨r, hroot⟩ := hwf.root
  have hheld {q : Path} {f : ℕ} (hq : pt.held q = some f) : pageSize ∣ f :=
    (hown.isFrame f ((hown.ledger.mem_iff f).mpr ⟨q, hq⟩)).1
  have hintact : Intact pt s.k (below []) := by
    refine ⟨hfreed, fun {p t r} _ hp ht => hown.freed t ht ?_, fun {p t r} _ hp => hinv.valid.rep p t r hp⟩
    exact (hown.ledger.mem_iff t).mpr ⟨p, held_of_table hp⟩
  refine ⟨_, by rw [vmemDestroy, kassert_of_true (by simp)]; rfl, ?_⟩
  exact tears_table hwf hown.ledger.inj hheld hroot
    (fun i _ hbit k => tears_destroyPml4e hwf hown.ledger.inj hheld rfl hbit) hintact

/-- Teardown gives back the frames taken for the address space, each of them once, and reads
no table that it has given back. -/
theorem vmemDestroy_frees :
    ∃ k, vmemDestroy s.vm false s.k = .ok k ∧ (givenBack s.k k).Nodup ∧
      (∀ f, f ∈ givenBack s.k k ↔ f ∈ s.allocated) ∧
      ∃ events, k.trace = s.k.trace ++ events ∧ events.Pairwise VmemEvent.Over := by
  obtain ⟨k, hcall, htears⟩ := vmemDestroy_spec hinv hown hfreed
  have hover := visit_over hown.ledger.inj 4 []
  refine ⟨k, hcall, nodup_givenBack htears hover, fun f => ?_, _, htears.trace, hover⟩
  rw [givenBack_tears htears, hown.ledger.mem_iff]
  constructor
  · intro hf
    obtain ⟨q, -, hq⟩ := held_of_visit hf
    exact ⟨q, hq⟩
  · rintro ⟨q, hq⟩
    exact visit_of_held hinv.valid.wf rfl (List.nil_suffix) hq

end Space

/-- The address spaces that map foreign frames: made by `vmem_init` or as copies, and grown
by mapping calls, areas and page faults. -/
inductive Grown : Space → Prop
  | init {vm : Vmem} {k k' : Kernel} (hfresh : FreshFrames k.frames)
      (hfreed : ∀ g ∈ k.freed, pageSize ∣ g) (hinit : vmemInit k = (0, vm, k')) :
      Grown ⟨vm, k', [vm.pml4]⟩
  | step {s t : Space} {label : SpaceLabel} (hs : Grown s) (hforeign : label.Foreign s)
      (hstep : SpaceStep s label t) : Grown t
  | clone {s : Space} {dst : Vmem} {k : Kernel} (hs : Grown s)
      (hcall : vmemClone s.vm s.k = .ok (0, dst, k)) : Grown ⟨dst, k, taken s.k k⟩

theorem Grown.owned {s : Space} (h : Grown s) :
    ∃ pt claimed, SpaceInv s pt claimed ∧ Owned s pt ∧ ∀ g ∈ s.k.freed, pageSize ∣ g := by
  induction h with
  | init hfresh hfreed hinit =>
      obtain ⟨-, -, -, -, -, -, hfreed'⟩ := vmemInit_spec hfresh hinit
      exact ⟨_, _, SpaceInv.init hfresh hinit, Owned.init hfresh hinit, fun g hg => hfreed g (hfreed' g hg).1⟩
  | step _ hforeign hstep ih =>
      obtain ⟨pt, claimed, hinv, hown, hfreed⟩ := ih
      obtain ⟨pt', claimed', hinv', hown', hfreed'⟩ := hstep.inv hinv
      exact ⟨pt', claimed', hinv', hown' hforeign hown, hfreed' hfreed⟩
  | @clone s dst k _ hcall ih =>
      obtain ⟨pt, claimed, hinv, -, hfreed⟩ := ih
      obtain ⟨res, dst', k', hcall', hcopy⟩ := vmemClone_spec hinv
      obtain ⟨rfl, rfl, rfl⟩ : 0 = res ∧ dst = dst' ∧ k = k' := by
        obtain ⟨hres, hrest⟩ := Prod.mk.inj (Except.ok.inj (hcall.symm.trans hcall'))
        exact ⟨hres, Prod.mk.inj hrest⟩
      obtain ⟨pt', hcopying⟩ := hcopy rfl
      exact ⟨pt', _, hcopying.inv, hcopying.own, fun g hg => hfreed g (hcopying.freed g hg)⟩

/-- Teardown of every such address space gives back exactly the frames taken for it, each of
them once: the PML4, the tables and the frames allocated on demand or copied. No table is
read once it has been given back. -/
theorem grown_destroy {s : Space} (hs : Grown s) :
    ∃ k, vmemDestroy s.vm false s.k = .ok k ∧ (givenBack s.k k).Perm s.allocated ∧
      s.allocated.Nodup ∧ ∀ before t after, k.trace = s.k.trace ++ before ++ .free t :: after →
        .read t ∉ after := by
  obtain ⟨pt, claimed, hinv, hown, hfreed⟩ := hs.owned
  obtain ⟨k, hcall, hnodup, hmem, events, htrace, hover⟩ := vmemDestroy_frees hinv hown hfreed
  refine ⟨k, hcall, (List.perm_ext_iff_of_nodup hnodup hown.ledger.nodup).mpr hmem, hown.ledger.nodup,
    fun before t after heq hread => ?_⟩
  rw [htrace, List.append_assoc] at heq
  obtain rfl := List.append_cancel_left heq
  have hrest := (List.pairwise_append.mp hover).2.1
  exact ((List.pairwise_cons.mp hrest).1 _ hread t rfl).1 rfl

/-- Teardown of an address space with one foreign page: the page is kept. -/
theorem grown_destroy_onePage :
    ∃ s : Space, Grown s ∧ (walk s.k.mem s.vm.pml4 0x400000).isSome ∧
      ∃ k, vmemDestroy s.vm false s.k = .ok k ∧ (givenBack s.k k).Perm s.allocated := by
  obtain ⟨vm, k1, k, pt, hinit, hcall, hvalid, -, hleaf⟩ := @fourFrames_map cloneKernel rfl rfl _ onePage_legal
  obtain ⟨hstep, hforeign⟩ := onePage_step hinit hcall
  have hnew : Grown ⟨vm, k1, [vm.pml4]⟩ := .init fourFrames_fresh (by simp [cloneKernel, bootKernel]) hinit
  have hs := hnew.step hforeign hstep
  have hself : pt.leaf (pathTo 0x400000 4) = some onePage.leaf := by
    rw [hleaf]
    exact Function.update_self _ _ _
  obtain ⟨k', hdestroy, hperm, -⟩ := grown_destroy hs
  refine ⟨_, hs, ?_, k', hdestroy, hperm⟩
  rw [show walk _ _ _ = _ from walk_of_leaf (n := 4) hvalid.wf hvalid.rep hself]
  rfl

end HeavenOS

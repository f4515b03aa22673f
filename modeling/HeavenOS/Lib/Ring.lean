/-
# Circular doubly linked lists in memory

A node is a sixteen-byte cell: a forward pointer followed by a backward pointer.
`Linked` says that memory holds a chain of nodes between two given ends, and
`IsRing` closes the chain on its head. Whoever inserts or unlinks a node by its
raw address needs no walk along the list, so both operations are stated for the
node alone; `IsRing.rotate` moves the head to the node at hand.
-/

import HeavenOS.Lib.Mem
import Mathlib.Data.List.Nodup

namespace HeavenOS.Lib.Ring

/-- The forward pointer of the cell at `a`. -/
def next (m : Mem) (a : ℕ) : ℕ := m.loadPtr a

/-- The backward pointer of the cell at `a`. -/
def prev (m : Mem) (a : ℕ) : ℕ := m.loadPtr (a + 8)

def setNext (m : Mem) (a p : ℕ) : Mem := m.storePtr a p

def setPrev (m : Mem) (a p : ℕ) : Mem := m.storePtr (a + 8) p

/-- Two cells without a common byte. -/
def Apart (a b : ℕ) : Prop := a + 16 ≤ b ∨ b + 16 ≤ a

theorem Apart.symm {a b : ℕ} (h : Apart a b) : Apart b a := Or.symm h

theorem Apart.ne {a b : ℕ} (h : Apart a b) : a ≠ b := by
  unfold Apart at h
  omega

/-- Make `a` a ring of its own. -/
def single (m : Mem) (a : ℕ) : Mem := setPrev (setNext m a a) a a

/-- Put the cell `new` directly behind `node`. -/
def insertAfter (m : Mem) (node new : ℕ) : Mem :=
  let old := next m node
  setPrev (setNext (setPrev (setNext m node new) new node) new old) old new

/-- Join the two neighbours of `node`. -/
def unlink (m : Mem) (node : ℕ) : Mem :=
  setPrev (setNext m (prev m node) (next m node)) (next m node) (prev m node)

/-! ## Pointers after pointer updates -/

section Updates

variable (m : Mem) {a b p : ℕ}

theorem next_lt (a : ℕ) : next m a < 2 ^ 64 := m.loadPtr_lt a

theorem prev_lt (a : ℕ) : prev m a < 2 ^ 64 := m.loadPtr_lt (a + 8)

theorem next_setNext_self (hp : p < 2 ^ 64) : next (setNext m a p) a = p :=
  m.loadPtr_storePtr_self a hp

theorem prev_setPrev_self (hp : p < 2 ^ 64) : prev (setPrev m a p) a = p :=
  m.loadPtr_storePtr_self (a + 8) hp

theorem next_setNext_apart (h : Apart a b) : next (setNext m a p) b = next m b := by
  unfold Apart at h
  exact m.loadPtr_storePtr_of_disjoint p (by omega)

theorem prev_setPrev_apart (h : Apart a b) : prev (setPrev m a p) b = prev m b := by
  unfold Apart at h
  exact m.loadPtr_storePtr_of_disjoint p (by omega)

theorem next_setPrev (h : a = b ∨ Apart a b) : next (setPrev m a p) b = next m b := by
  unfold Apart at h
  exact m.loadPtr_storePtr_of_disjoint p (by omega)

theorem prev_setNext (h : a = b ∨ Apart a b) : prev (setNext m a p) b = prev m b := by
  unfold Apart at h
  exact m.loadPtr_storePtr_of_disjoint p (by omega)

theorem setNext_of_outside {x : ℕ} (hout : x < a ∨ a + 16 ≤ x) : setNext m a p x = m x :=
  m.storePtr_of_outside p (by omega)

theorem setPrev_of_outside {x : ℕ} (hout : x < a ∨ a + 16 ≤ x) : setPrev m a p x = m x :=
  m.storePtr_of_outside p (by omega)

end Updates

/-- `single` writes the cell it initialises and nothing else. -/
theorem single_of_outside (m : Mem) {a x : ℕ} (hout : x < a ∨ a + 16 ≤ x) :
    single m a x = m x := by
  rw [single, setPrev_of_outside _ hout, setNext_of_outside _ hout]

/-- Insertion writes the cells of the node, of the new node and of the old successor. -/
theorem insertAfter_of_outside (m : Mem) {node new x : ℕ}
    (hnode : x < node ∨ node + 16 ≤ x) (hnew : x < new ∨ new + 16 ≤ x)
    (hold : x < next m node ∨ next m node + 16 ≤ x) : insertAfter m node new x = m x := by
  simp only [insertAfter]
  rw [setPrev_of_outside _ hold, setNext_of_outside _ hnew, setPrev_of_outside _ hnew,
    setNext_of_outside _ hnode]

/-- Unlinking writes the cells of the two neighbours only. -/
theorem unlink_of_outside (m : Mem) {node x : ℕ}
    (hprev : x < prev m node ∨ prev m node + 16 ≤ x)
    (hnext : x < next m node ∨ next m node + 16 ≤ x) : unlink m node x = m x := by
  rw [unlink, setPrev_of_outside _ hnext, setNext_of_outside _ hprev]

theorem next_congr {m m' : Mem} {a : ℕ} (hsame : ∀ x, a ≤ x → x < a + 16 → m' x = m x) :
    next m' a = next m a :=
  Mem.loadPtr_congr fun x hlo hhi => hsame x hlo (by omega)

theorem prev_congr {m m' : Mem} {a : ℕ} (hsame : ∀ x, a ≤ x → x < a + 16 → m' x = m x) :
    prev m' a = prev m a :=
  Mem.loadPtr_congr fun x hlo hhi => hsame x (by omega) (by omega)

/-! ## Chains -/

/-- Memory links `x` through the nodes of the list to `y`, in both directions. -/
def Linked (m : Mem) : ℕ → List ℕ → ℕ → Prop
  | x, [], y => next m x = y ∧ prev m y = x
  | x, z :: zs, y => (next m x = z ∧ prev m z = x) ∧ Linked m z zs y

theorem linked_append {m : Mem} {x y z : ℕ} {xs ys : List ℕ} :
    Linked m x (xs ++ z :: ys) y ↔ Linked m x xs z ∧ Linked m z ys y := by
  induction xs generalizing x with
  | nil => simp [Linked]
  | cons w ws ih => simp [Linked, ih, and_assoc]

/-- A chain survives every memory change that keeps the pointers along it. -/
theorem Linked.congr {m m' : Mem} {x y : ℕ} {xs : List ℕ} (h : Linked m x xs y)
    (hnext : ∀ a ∈ x :: xs, next m' a = next m a)
    (hprev : ∀ a ∈ xs ++ [y], prev m' a = prev m a) : Linked m' x xs y := by
  induction xs generalizing x with
  | nil =>
      obtain ⟨h1, h2⟩ := h
      exact ⟨by rw [hnext x (by simp), h1], by rw [hprev y (by simp), h2]⟩
  | cons z zs ih =>
      obtain ⟨⟨h1, h2⟩, h3⟩ := h
      refine ⟨⟨?_, ?_⟩, ih h3 ?_ ?_⟩
      · rw [hnext x (by simp), h1]
      · rw [hprev z (by simp), h2]
      · exact fun a ha => hnext a (List.mem_cons_of_mem _ ha)
      · exact fun a ha => hprev a (List.mem_cons_of_mem _ ha)

theorem Linked.lt_of_mem {m : Mem} {x y a : ℕ} {xs : List ℕ} (h : Linked m x xs y)
    (ha : a ∈ xs) : a < 2 ^ 64 := by
  induction xs generalizing x with
  | nil => simp at ha
  | cons z zs ih =>
      rcases List.mem_cons.mp ha with rfl | ha
      · rw [← h.1.1]
        exact next_lt m x
      · exact ih h.2 ha

/-! ## Rings -/

/-- A proper circular list: the chain closes on its head and no two cells of it
share a byte. -/
structure IsRing (m : Mem) (head : ℕ) (nodes : List ℕ) : Prop where
  linked : Linked m head nodes head
  apart : (head :: nodes).Pairwise Apart

namespace IsRing

variable {m : Mem} {head : ℕ} {nodes : List ℕ}

theorem head_lt (h : IsRing m head nodes) : head < 2 ^ 64 := by
  cases nodes with
  | nil =>
      rw [← h.linked.1]
      exact next_lt m head
  | cons z zs =>
      rw [← h.linked.1.2]
      exact prev_lt m z

theorem lt_of_mem (h : IsRing m head nodes) {a : ℕ} (ha : a ∈ nodes) : a < 2 ^ 64 :=
  h.linked.lt_of_mem ha

theorem head_apart (h : IsRing m head nodes) {a : ℕ} (ha : a ∈ nodes) : Apart head a :=
  (List.pairwise_cons.mp h.apart).1 a ha

theorem nodup (h : IsRing m head nodes) : nodes.Nodup :=
  (List.pairwise_cons.mp h.apart).2.imp Apart.ne

/-- The successor of the head is the first node, or the head itself. -/
theorem next_head (h : IsRing m head nodes) : next m head = nodes.headD head := by
  cases nodes with
  | nil => exact h.linked.1
  | cons z zs => exact h.linked.1.1

/-- The head's own pointer tells whether the ring has a node. -/
theorem next_head_eq_iff (h : IsRing m head nodes) : next m head = head ↔ nodes = [] := by
  rw [h.next_head]
  cases nodes with
  | nil => simp
  | cons z zs => simpa using (h.head_apart (List.mem_cons_self)).symm.ne

/-- Any node can serve as the head. -/
theorem rotate {node : ℕ} {before after : List ℕ}
    (h : IsRing m head (before ++ node :: after)) :
    IsRing m node (after ++ head :: before) := by
  obtain ⟨h1, h2⟩ := linked_append.mp h.linked
  refine ⟨linked_append.mpr ⟨h2, h1⟩, ?_⟩
  have hperm : (head :: (before ++ node :: after)).Perm (node :: (after ++ head :: before)) := by
    have hswap : (head :: before ++ node :: after).Perm (node :: after ++ head :: before) :=
      List.perm_append_comm
    simpa using hswap
  exact (hperm.pairwise_iff fun hab => Apart.symm hab).mp h.apart

/-- A ring survives every memory change outside its cells. -/
theorem congr {m' : Mem} (h : IsRing m head nodes)
    (hsame : ∀ a ∈ head :: nodes, ∀ x, a ≤ x → x < a + 16 → m' x = m x) :
    IsRing m' head nodes := by
  refine ⟨h.linked.congr (fun a ha => next_congr (hsame a ha)) (fun a ha => ?_), h.apart⟩
  exact prev_congr (hsame a (by simp at ha ⊢; tauto))

/-- A freshly initialised cell is the empty ring. -/
theorem single {a : ℕ} (ha : a < 2 ^ 64) : IsRing (Ring.single m a) a [] := by
  refine ⟨⟨?_, ?_⟩, List.pairwise_singleton _ _⟩
  · rw [Ring.single, next_setPrev _ (Or.inl rfl), next_setNext_self m ha]
  · rw [Ring.single, prev_setPrev_self _ ha]

/-- Initialising cells one after the other writes no byte outside them. -/
theorem foldl_single_of_outside {addrs : List ℕ} {x : ℕ}
    (hout : ∀ a ∈ addrs, x < a ∨ a + 16 ≤ x) : addrs.foldl Ring.single m x = m x := by
  induction addrs generalizing m with
  | nil => rfl
  | cons a rest ih =>
      rw [List.foldl_cons, ih fun b hb => hout b (List.mem_cons_of_mem _ hb),
        single_of_outside m (hout a List.mem_cons_self)]

/-- Initialising separate cells one after the other leaves each an empty ring. -/
theorem foldl_single {addrs : List ℕ} (hlt : ∀ a ∈ addrs, a < 2 ^ 64)
    (hapart : addrs.Pairwise Apart) :
    ∀ a ∈ addrs, IsRing (addrs.foldl Ring.single m) a [] := by
  induction addrs generalizing m with
  | nil => simp
  | cons a rest ih =>
      obtain ⟨hfirst, hrest⟩ := List.pairwise_cons.mp hapart
      intro b hb
      rw [List.foldl_cons]
      rcases List.mem_cons.mp hb with rfl | hb
      · refine (IsRing.single (m := m) (hlt b List.mem_cons_self)).congr fun c hc x hlo hhi => ?_
        obtain rfl := List.mem_singleton.mp hc
        refine foldl_single_of_outside fun d hd => ?_
        have hcd := hfirst d hd
        unfold Apart at hcd
        omega
      · exact ih (fun c hc => hlt c (List.mem_cons_of_mem _ hc)) hrest b hb

/-- Insertion behind the head puts the new node first. -/
theorem insertAfter {new : ℕ} (h : IsRing m head nodes) (hnew : new < 2 ^ 64)
    (hapart : ∀ a ∈ head :: nodes, Apart new a) :
    IsRing (Ring.insertAfter m head new) head (new :: nodes) := by
  have hhead : Apart new head := hapart head (by simp)
  refine ⟨?_, ?_⟩
  · cases nodes with
    | nil =>
        have hold : next m head = head := h.next_head
        simp only [Linked, Ring.insertAfter, hold]
        refine ⟨⟨?_, ?_⟩, ?_, ?_⟩
        · rw [next_setPrev _ (Or.inl rfl), next_setNext_apart _ hhead,
            next_setPrev _ (Or.inr hhead), next_setNext_self _ hnew]
        · rw [prev_setPrev_apart _ hhead.symm, prev_setNext _ (Or.inl rfl),
            prev_setPrev_self _ h.head_lt]
        · rw [next_setPrev _ (Or.inr hhead.symm), next_setNext_self _ h.head_lt]
        · rw [prev_setPrev_self _ hnew]
    | cons z zs =>
        have hz : Apart new z := hapart z (by simp)
        have hzhead : Apart head z := h.head_apart (by simp)
        have hold : next m head = z := h.next_head
        have hzlt : z < 2 ^ 64 := h.lt_of_mem (by simp)
        have hrest := (List.pairwise_cons.mp (List.pairwise_cons.mp h.apart).2).1
        simp only [Linked, Ring.insertAfter, hold]
        refine ⟨⟨?_, ?_⟩, ⟨?_, ?_⟩, h.linked.2.congr ?_ ?_⟩
        · rw [next_setPrev _ (Or.inr hzhead.symm), next_setNext_apart _ hhead,
            next_setPrev _ (Or.inr hhead), next_setNext_self _ hnew]
        · rw [prev_setPrev_apart _ hz.symm, prev_setNext _ (Or.inl rfl),
            prev_setPrev_self _ h.head_lt]
        · rw [next_setPrev _ (Or.inr hz.symm), next_setNext_self _ hzlt]
        · rw [prev_setPrev_self _ hnew]
        · intro a ha
          have hanew : Apart new a := hapart a (List.mem_cons_of_mem _ ha)
          have hahead : Apart head a := h.head_apart ha
          have haz : z = a ∨ Apart z a :=
            (List.mem_cons.mp ha).imp Eq.symm (fun hmem => hrest a hmem)
          rw [next_setPrev _ haz, next_setNext_apart _ hanew, next_setPrev _ (Or.inr hanew),
            next_setNext_apart _ hahead]
        · intro a ha
          -- the old successor is the one node whose back pointer changes
          have haz : Apart z a := by
            rcases List.mem_append.mp ha with hmem | hmem
            · exact hrest a hmem
            · rw [List.mem_singleton.mp hmem]
              exact hzhead.symm
          have hmem : a ∈ head :: z :: zs := by
            simp at ha ⊢
            tauto
          have hahead : head = a ∨ Apart head a :=
            (List.mem_cons.mp hmem).imp Eq.symm (fun hmem => h.head_apart hmem)
          have hanew : Apart new a := hapart a hmem
          rw [prev_setPrev_apart _ haz, prev_setNext _ (Or.inr hanew),
            prev_setPrev_apart _ hanew, prev_setNext _ hahead]
  · have hswap : (new :: head :: nodes).Perm (head :: new :: nodes) := List.Perm.swap _ _ _
    refine (hswap.pairwise_iff fun hab => Apart.symm hab).mp ?_
    exact List.pairwise_cons.mpr ⟨hapart, h.apart⟩

/-- Unlinking the node in the head position leaves the ring of the others. -/
theorem unlink_head {node : ℕ} {nodes : List ℕ} (h : IsRing m node (head :: nodes)) :
    IsRing (Ring.unlink m node) head nodes := by
  have hnext : next m node = head := h.linked.1.1
  have hapart := (List.pairwise_cons.mp h.apart).2
  refine ⟨?_, hapart⟩
  rcases List.eq_nil_or_concat' nodes with rfl | ⟨front, last, rfl⟩
  · have hprev : prev m node = head := h.linked.2.2
    rw [Ring.unlink, hnext, hprev]
    have hlt : head < 2 ^ 64 := h.lt_of_mem (by simp)
    exact ⟨by rw [next_setPrev _ (Or.inl rfl), next_setNext_self _ hlt],
      prev_setPrev_self _ hlt⟩
  · obtain ⟨hfront, hlast⟩ := linked_append.mp h.linked.2
    have hprev : prev m node = last := hlast.2
    have hheadlt : head < 2 ^ 64 := h.lt_of_mem (by simp)
    have hlastlt : last < 2 ^ 64 := h.lt_of_mem (by simp)
    have hpair := List.pairwise_cons.mp hapart
    have hend : ∀ a ∈ head :: front, Apart last a := by
      intro a ha
      have hsplit : (head :: front ++ [last]).Pairwise Apart := by simpa using hapart
      exact (List.pairwise_append.mp hsplit).2.2 a ha last (by simp) |>.symm
    rw [Ring.unlink, hnext, hprev]
    refine linked_append.mpr ⟨hfront.congr ?_ ?_, ?_, ?_⟩
    · intro a ha
      have hahead : head = a ∨ Apart head a :=
        (List.mem_cons.mp ha).imp Eq.symm fun hmem => hpair.1 a (by simp [hmem])
      rw [next_setPrev _ hahead, next_setNext_apart _ (hend a ha)]
    · intro a ha
      have hahead : Apart head a := hpair.1 a ha
      have halast : last = a ∨ Apart last a := by
        rcases List.mem_append.mp ha with hmem | hmem
        · exact Or.inr (hend a (List.mem_cons_of_mem _ hmem))
        · exact Or.inl (List.mem_singleton.mp hmem).symm
      rw [prev_setPrev_apart _ hahead, prev_setNext _ halast]
    · rw [next_setPrev _ (Or.inr (hpair.1 last (by simp))), next_setNext_self _ hheadlt]
    · exact prev_setPrev_self _ hlastlt

/-- Unlinking any node but the head removes it from the ring. -/
theorem unlink {node : ℕ} {before after : List ℕ}
    (h : IsRing m head (before ++ node :: after)) :
    IsRing (Ring.unlink m node) head (before ++ after) := by
  have hrot := h.rotate
  cases after with
  | nil =>
      rw [List.append_nil]
      exact hrot.unlink_head
  | cons z zs =>
      exact hrot.unlink_head.rotate

/-- A node of the ring is never its own successor. -/
theorem next_ne_self {node : ℕ} (h : IsRing m head nodes) (hmem : node ∈ nodes) :
    next m node ≠ node := by
  obtain ⟨before, after, rfl⟩ := List.append_of_mem hmem
  have hrot := h.rotate
  rw [Ne, hrot.next_head_eq_iff]
  simp

/-- Both neighbours of a node are cells of the ring. -/
theorem neighbours_mem {node : ℕ} (h : IsRing m head nodes) (hmem : node ∈ head :: nodes) :
    next m node ∈ head :: nodes ∧ prev m node ∈ head :: nodes := by
  have hhead : ∀ {first : ℕ} {rest : List ℕ}, IsRing m first rest →
      next m first ∈ first :: rest ∧ prev m first ∈ first :: rest := by
    intro first rest hring
    refine ⟨?_, ?_⟩
    · rw [hring.next_head]
      cases rest with
      | nil => simp
      | cons z zs => simp
    · rcases List.eq_nil_or_concat' rest with rfl | ⟨front, last, rfl⟩
      · rw [hring.linked.2]
        simp
      · rw [(linked_append.mp hring.linked).2.2]
        simp
  rcases List.mem_cons.mp hmem with rfl | hin
  · exact hhead h
  · obtain ⟨before, after, rfl⟩ := List.append_of_mem hin
    have hrot := hhead h.rotate
    -- rotation permutes the cells
    have hcells : ∀ a, a ∈ node :: (after ++ head :: before) →
        a ∈ head :: (before ++ node :: after) := by
      intro a ha
      simp only [List.mem_cons, List.mem_append] at ha ⊢
      tauto
    exact ⟨hcells _ hrot.1, hcells _ hrot.2⟩

/-- Insertion behind a node writes to cells of the ring and to the new one. -/
theorem insertAfter_of_outside (h : IsRing m head nodes) {node new x : ℕ} (hmem : node ∈ head :: nodes)
    (hnew : x < new ∨ new + 16 ≤ x) (hout : ∀ c ∈ head :: nodes, x < c ∨ c + 16 ≤ x) :
    Ring.insertAfter m node new x = m x :=
  Ring.insertAfter_of_outside m (hout node hmem) hnew (hout _ (h.neighbours_mem hmem).1)

/-- Unlinking a node writes to cells of the ring. -/
theorem unlink_of_outside (h : IsRing m head nodes) {node x : ℕ} (hmem : node ∈ head :: nodes)
    (hout : ∀ c ∈ head :: nodes, x < c ∨ c + 16 ≤ x) : Ring.unlink m node x = m x :=
  Ring.unlink_of_outside m (hout _ (h.neighbours_mem hmem).2) (hout _ (h.neighbours_mem hmem).1)

end IsRing

end HeavenOS.Lib.Ring

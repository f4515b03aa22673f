/-
# The kernel mappings of a task

`setup_vmem` maps what `early_setup_paging` has mapped once more, by the mapping functions:
the direct mapping, the kernel sections, and the code of the first task. It is a sequence of
calls on pages that do not overlap. Both walks of an address in the higher half are the same,
unless the kernel sections end where a table ends.
-/

import HeavenOS.Boot.Early

namespace HeavenOS

open Lib PageTable

/-! ## The code -/

/-- The loop over the direct mapping, with `count` pages to go. -/
def mapDirect (vm : Vmem) : (count virtAddr physAddr : ℕ) → Kernel → Except Panic (Int × Kernel)
  | 0, _, _, k => return (0, k)
  | count + 1, virtAddr, physAddr, k => do
      let (err, k) ← vmemMapPage1gb vm virtAddr physAddr vmemWrite k
      if err < 0 then return (err, k) else
      mapDirect vm count ((virtAddr + gb) % 2 ^ 64) ((physAddr + gb) % 2 ^ 64) k

/-- The loop over the kernel sections. -/
def mapSections (vm : Vmem) (virtAddrCurr physAddrCurr physAddrEnd : ℕ) (k : Kernel) : Except Panic (Int × Kernel) :=
  if physAddrCurr < physAddrEnd then do
    let (err, k) ← vmemMapPage2mb vm virtAddrCurr physAddrCurr vmemWrite k
    if err < 0 then return (err, k) else
    mapSections vm ((virtAddrCurr + twoMb) % 2 ^ 64) (physAddrCurr + twoMb) physAddrEnd k
  else return (0, k)
  termination_by physAddrEnd - physAddrCurr
  decreasing_by
    unfold twoMb
    omega

/-- `setup_vmem`; `physStartUser` is the address of `_phys_start_user`. -/
def setupVmem (physStart physEnd physStartUser : ℕ) (vm : Vmem) (k : Kernel) : Except Panic (Int × Kernel) := do
  let (err, k) ← mapDirect vm (directMapSize / gb) directMapStart 0 k
  if err < 0 then return (err, k) else
  let (err, k) ← mapSections vm kernelSectionsStart physStart physEnd k
  if err < 0 then return (err, k) else
  let (err, k) ← vmemMapPage vm 0x10000 physStartUser vmemUser k
  if err < 0 then return (err, k) else
  return (0, k)

/-! ## A sequence of calls -/

/-- The calls one after the other; a negative result ends them. -/
def runCalls (vm : Vmem) : List MapCall → Kernel → Except Panic (Int × Kernel)
  | [], k => return (0, k)
  | call :: calls, k => do
      let (err, k) ← call.run vm k
      if err < 0 then return (err, k) else
      runCalls vm calls k

theorem runCalls_append (vm : Vmem) (calls calls' : List MapCall) (k : Kernel) :
    runCalls vm (calls ++ calls') k = (do
      let (err, k) ← runCalls vm calls k
      if err < 0 then return (err, k) else
      runCalls vm calls' k) := by
  induction calls generalizing k with
  | nil => rfl
  | cons call calls ih =>
      rw [List.cons_append, runCalls, runCalls]
      cases hcall : call.run vm k with
      | error e => rfl
      | ok out =>
          obtain ⟨err, k1⟩ := out
          simp only [ok_bind]
          split_ifs with herr
          · simp [pure, Except.pure, herr, ok_bind]
          · exact ih k1

def directCall (i : ℕ) : MapCall := ⟨⟨.page1gb, directMapStart + i * gb⟩, i * gb, vmemWrite⟩

def sectionCall (image : Image) (i : ℕ) : MapCall :=
  ⟨⟨.page2mb, kernelSectionsStart + i * twoMb⟩, image.start + i * twoMb, vmemWrite⟩

def userCall (physStartUser : ℕ) : MapCall := ⟨⟨.page, 0x10000⟩, physStartUser, vmemUser⟩

def setupCalls (image : Image) (physStartUser : ℕ) : List MapCall :=
  (List.range' 0 65536).map directCall ++ (List.range' 0 image.pages).map (sectionCall image) ++
    [userCall physStartUser]

theorem mapDirect_eq (vm : Vmem) {count i : ℕ} (hcount : i + count ≤ 65536) (k : Kernel) :
    mapDirect vm count (directMapStart + i * gb) (i * gb) k = runCalls vm ((List.range' i count).map directCall) k := by
  induction count generalizing i k with
  | zero => rfl
  | succ count ih =>
      have hvirt : (directMapStart + i * gb + gb) % 2 ^ 64 = directMapStart + (i + 1) * gb := by
        unfold directMapStart gb
        omega
      have hphys : (i * gb + gb) % 2 ^ 64 = (i + 1) * gb := by
        unfold gb
        omega
      rw [mapDirect, List.range', List.map_cons, runCalls, hvirt, hphys]
      refine congrArg (Bind.bind (vmemMapPage1gb vm (directMapStart + i * gb) (i * gb) vmemWrite k)) ?_
      funext out
      exact if_congr Iff.rfl rfl (ih (by omega) out.2)

theorem mapSections_eq (vm : Vmem) (image : Image) {i : ℕ} (hi : i ≤ image.pages) (k : Kernel) :
    mapSections vm ((kernelSectionsStart + i * twoMb) % 2 ^ 64) (image.start + i * twoMb) (image.start + image.size) k =
      runCalls vm ((List.range' i (image.pages - i)).map (sectionCall image)) k := by
  have hsize := image.size_eq
  have hmax := image.pages_bounds.2
  induction hleft : image.pages - i generalizing i k with
  | zero =>
      rw [mapSections, if_neg (by unfold twoMb at *; omega)]
      rfl
  | succ left ih =>
      have hvirt : (kernelSectionsStart + i * twoMb) % 2 ^ 64 = kernelSectionsStart + i * twoMb :=
        Nat.mod_eq_of_lt (by unfold kernelSectionsStart twoMb; omega)
      have hnext : kernelSectionsStart + i * twoMb + twoMb = kernelSectionsStart + (i + 1) * twoMb := by
        rw [Nat.add_mul, Nat.one_mul, Nat.add_assoc]
      have hphys : image.start + i * twoMb + twoMb = image.start + (i + 1) * twoMb := by
        rw [Nat.add_mul, Nat.one_mul, Nat.add_assoc]
      rw [mapSections, if_pos (by unfold twoMb at *; omega), hvirt, hnext, hphys, List.range', List.map_cons, runCalls]
      refine congrArg (Bind.bind (vmemMapPage2mb vm (kernelSectionsStart + i * twoMb) (image.start + i * twoMb) vmemWrite k)) ?_
      funext out
      exact if_congr Iff.rfl rfl (ih (by omega) out.2 (by omega))

theorem setupVmem_eq (image : Image) (physStartUser : ℕ) (vm : Vmem) (k : Kernel) :
    setupVmem image.start (image.start + image.size) physStartUser vm k = runCalls vm (setupCalls image physStartUser) k := by
  have hdirect (k : Kernel) := @mapDirect_eq vm 65536 0 (le_refl _) k
  have hsections (k : Kernel) := mapSections_eq vm image (Nat.zero_le _) k
  simp only [Nat.zero_mul, Nat.add_zero, Nat.sub_zero, show kernelSectionsStart % 2 ^ 64 = kernelSectionsStart by decide]
    at hdirect hsections
  rw [setupCalls, runCalls_append, runCalls_append, setupVmem, show directMapSize / gb = 65536 by decide, hdirect]
  cases hfirst : runCalls vm ((List.range' 0 65536).map directCall) k with
  | error e => rfl
  | ok out =>
      obtain ⟨err, k1⟩ := out
      simp only [ok_bind, hsections]
      split_ifs with herr
      · simp [pure, Except.pure, herr]
      · rfl

/-- The labels of calls that all returned 0. -/
def succeeded (calls : List MapCall) : List MapLabel := calls.map fun call => (call, 0)

/-- With frames at hand, legal calls on pages that do not overlap all succeed, and take three
frames each at most. -/
theorem runCalls_spec {vm : Vmem} {k0 k : Kernel} {labels : List MapLabel} {calls : List MapCall} {n : ℕ}
    (hstart : (emptyTable vm.pml4).Valid vm.pml4 ∅ k0) (hrun : Run (MapStep vm) k0 labels k)
    (hlegal : ∀ x ∈ labels ++ succeeded calls, x.1.Legal)
    (hdisjoint : (labels ++ succeeded calls).Pairwise fun x y => x.1.toPageSpan.Disjoint y.1.toPageSpan)
    (hplenty : Plenty (3 * calls.length + n) k.frames) :
    ∃ k', runCalls vm calls k = .ok (0, k') ∧ Run (MapStep vm) k0 (labels ++ succeeded calls) k' ∧
      Plenty n k'.frames ∧ k'.objects = k.objects := by
  induction calls generalizing k labels with
  | nil => exact ⟨k, rfl, by simpa [succeeded] using hrun, by simpa using hplenty, rfl⟩
  | cons call calls ih =>
      have hassoc : labels ++ succeeded (call :: calls) = labels ++ [(call, 0)] ++ succeeded calls := by simp [succeeded]
      rw [hassoc] at hlegal hdisjoint ⊢
      have hpair := (List.pairwise_append.mp hdisjoint).1
      obtain ⟨hpair', -, hlast⟩ := List.pairwise_append.mp hpair
      have hlegals : ∀ x ∈ labels, x.1.Legal := fun x hx => hlegal x (by simp [hx])
      have hcall : call.Legal := hlegal (call, 0) (by simp)
      obtain ⟨pt, hvalid, -, -⟩ := map_run_tree hstart hrun hlegals hpair'
      have hnew := claims_not_suffix hlegals hcall fun x hx => hlast x hx (call, 0) (by simp)
      obtain ⟨k1, hstep, hrest⟩ := MapCall.run_plenty (n := 3 * calls.length + n) hvalid hcall hnew
        (by simpa only [List.length_cons, Nat.mul_succ, Nat.add_right_comm] using hplenty)
      have hmade : MapStep vm k (call, 0) k1 := hstep
      obtain ⟨_, k1', _, hstep', -, hgrows, -⟩ := MapCall.run_spec hvalid hcall hnew
      obtain ⟨-, rfl⟩ := Prod.mk.inj (Except.ok.inj (hstep.symm.trans hstep'))
      obtain ⟨k', hcalls, hrun', hleft, hobjects⟩ := ih (hrun.snoc hmade) hlegal hdisjoint hrest
      refine ⟨k', ?_, hrun', hleft, hobjects.trans hgrows.objects⟩
      rw [runCalls, hstep]
      exact hcalls

/-! ## The pages -/

section Setup

variable {image : Image} {physStartUser : ℕ}

theorem mem_upTo {i n : ℕ} : i ∈ List.range' 0 n ↔ i < n := by
  simp [List.mem_range']

theorem mem_setupCalls {call : MapCall} : call ∈ setupCalls image physStartUser ↔
    (∃ i < 65536, directCall i = call) ∨ (∃ i < image.pages, sectionCall image i = call) ∨
      call = userCall physStartUser := by
  simp only [setupCalls, List.mem_append, List.mem_map, mem_upTo, List.mem_singleton, or_assoc]

theorem directCall_covers {i v : ℕ} :
    (directCall i).Covers v ↔ directMapStart + i * gb ≤ v ∧ v < directMapStart + i * gb + gb := Iff.rfl

theorem sectionCall_covers {i v : ℕ} : (sectionCall image i).Covers v ↔
    kernelSectionsStart + i * twoMb ≤ v ∧ v < kernelSectionsStart + i * twoMb + twoMb := Iff.rfl

theorem userCall_covers {v : ℕ} : (userCall physStartUser).Covers v ↔ 0x10000 ≤ v ∧ v < 0x11000 := Iff.rfl

theorem setupCalls_legal (huser : pageSize ∣ physStartUser ∧ physStartUser < 2 ^ 48) :
    ∀ call ∈ setupCalls image physStartUser, call.Legal := by
  intro call hcall
  rcases mem_setupCalls.mp hcall with ⟨i, hi, rfl⟩ | ⟨i, hi, rfl⟩ | rfl
  · refine ⟨⟨?_, ?_⟩, Nat.dvd_mul_left _ _, ?_⟩
    · show Canonical (directMapStart + i * gb)
      unfold Canonical directMapStart gb
      omega
    · show 2 ^ 30 ∣ directMapStart + i * gb
      exact Nat.dvd_add (by decide) (Nat.dvd_mul_left _ _)
    · show i * gb < 2 ^ 48
      unfold gb
      omega
  · have hmax := image.pages_bounds.2
    refine ⟨⟨?_, ?_⟩, Nat.dvd_add image.start_dvd (Nat.dvd_mul_left _ _), ?_⟩
    · show Canonical (kernelSectionsStart + i * twoMb)
      unfold Canonical kernelSectionsStart twoMb
      omega
    · show 2 ^ 21 ∣ kernelSectionsStart + i * twoMb
      exact Nat.dvd_add (by decide) (Nat.dvd_mul_left _ _)
    · have hphys := image.phys
      rw [image.size_eq] at hphys
      show image.start + i * twoMb < 2 ^ 48
      unfold twoMb at *
      omega
  · have halign : (userCall 0).Aligned := ⟨by decide, by decide⟩
    exact ⟨halign, huser.1, huser.2⟩

/-- Pages at multiples of a size do not overlap. -/
theorem apart_of_lt {base size i j v : ℕ} (hij : i < j) (hi : v < base + i * size + size) : ¬base + j * size ≤ v := by
  have hle : (i + 1) * size ≤ j * size := Nat.mul_le_mul_right size hij
  rw [Nat.add_mul, Nat.one_mul] at hle
  omega

theorem setupCalls_disjoint :
    (setupCalls image physStartUser).Pairwise fun x y => x.toPageSpan.Disjoint y.toPageSpan := by
  have hmax := image.pages_bounds.2
  rw [setupCalls, List.pairwise_append, List.pairwise_append, List.pairwise_map, List.pairwise_map]
  refine ⟨⟨List.Pairwise.imp (fun {i j} hij addr hcov => ?_) List.pairwise_lt_range',
    List.Pairwise.imp (fun {i j} hij addr hcov => ?_) List.pairwise_lt_range', fun x hx y hy addr hcov => ?_⟩,
    List.pairwise_singleton _ _, fun x hx y hy addr hcov => ?_⟩
  · exact apart_of_lt hij (directCall_covers.mp hcov.1).2 (directCall_covers.mp hcov.2).1
  · exact apart_of_lt hij (sectionCall_covers.mp hcov.1).2 (sectionCall_covers.mp hcov.2).1
  · obtain ⟨i, hi, rfl⟩ := List.mem_map.mp hx
    obtain ⟨j, hj, rfl⟩ := List.mem_map.mp hy
    have hlow := (directCall_covers.mp hcov.1).2
    have hhigh := (sectionCall_covers.mp hcov.2).1
    have := mem_upTo.mp hi
    unfold directMapStart gb at hlow
    unfold kernelSectionsStart at hhigh
    omega
  · have hlow : kernelHigherHalfStart ≤ addr := by
      rcases List.mem_append.mp hx with hx | hx
      · obtain ⟨i, -, rfl⟩ := List.mem_map.mp hx
        exact le_trans (Nat.le_add_right_of_le (by decide)) (directCall_covers.mp hcov.1).1
      · obtain ⟨i, -, rfl⟩ := List.mem_map.mp hx
        exact le_trans (Nat.le_add_right_of_le (by decide)) (sectionCall_covers.mp hcov.1).1
    rw [List.mem_singleton.mp hy] at hcov
    have hhigh := (userCall_covers.mp hcov.2).2
    unfold kernelHigherHalfStart at hlow
    omega

theorem succeeded_legal {calls : List MapCall} (hlegal : ∀ call ∈ calls, call.Legal) :
    ∀ x ∈ succeeded calls, x.1.Legal := by
  intro x hx
  obtain ⟨call, hcall, rfl⟩ := List.mem_map.mp hx
  exact hlegal call hcall

theorem succeeded_disjoint {calls : List MapCall}
    (hdisjoint : calls.Pairwise fun x y => x.toPageSpan.Disjoint y.toPageSpan) :
    (succeeded calls).Pairwise fun x y => x.1.toPageSpan.Disjoint y.1.toPageSpan :=
  List.pairwise_map.mpr hdisjoint

/-- With frames at hand `setup_vmem` succeeds. -/
theorem setupVmem_run {vm : Vmem} {k : Kernel} {n : ℕ} (huser : pageSize ∣ physStartUser ∧ physStartUser < 2 ^ 48)
    (hstart : (emptyTable vm.pml4).Valid vm.pml4 ∅ k)
    (hplenty : Plenty (3 * (setupCalls image physStartUser).length + n) k.frames) :
    ∃ k', setupVmem image.start (image.start + image.size) physStartUser vm k = .ok (0, k') ∧
      Run (MapStep vm) k (succeeded (setupCalls image physStartUser)) k' ∧ Plenty n k'.frames ∧
      k'.objects = k.objects := by
  have hlegal : ∀ call ∈ setupCalls image physStartUser, call.Legal := setupCalls_legal huser
  have hspec := runCalls_spec hstart Run.nil (succeeded_legal hlegal) (succeeded_disjoint setupCalls_disjoint) hplenty
  rw [setupVmem_eq]
  simpa using hspec

theorem rightsOf_vmemWrite : rightsOf vmemWrite = kernelRights := by decide

section TaskWalk

variable {vm : Vmem} {k k' : Kernel} {v : ℕ} (huser : pageSize ∣ physStartUser ∧ physStartUser < 2 ^ 48)
  (hstart : (emptyTable vm.pml4).Valid vm.pml4 ∅ k)
  (hrun : Run (MapStep vm) k (succeeded (setupCalls image physStartUser)) k')

include huser hstart hrun

theorem setup_walk_direct (hlo : directMapStart ≤ v) (hhi : v < directMapStart + directMapSize) :
    walk k'.mem vm.pml4 v = some ⟨v - directMapStart, 2, kernelRights⟩ := by
  have hi : (v - directMapStart) / gb < 65536 := by
    unfold directMapSize at hhi
    unfold gb
    omega
  have hcov : (directCall ((v - directMapStart) / gb)).Covers v := by
    rw [directCall_covers]
    unfold gb
    omega
  have hmem : (directCall ((v - directMapStart) / gb), (0 : Int)) ∈ succeeded (setupCalls image physStartUser) :=
    List.mem_map.mpr ⟨_, mem_setupCalls.mpr (Or.inl ⟨_, hi, rfl⟩), rfl⟩
  have hphys : (v - directMapStart) / gb * gb + (v - (directMapStart + (v - directMapStart) / gb * gb)) =
      v - directMapStart := by
    unfold gb
    omega
  have hwalk := map_run_covered hstart hrun (succeeded_legal (setupCalls_legal huser))
    (succeeded_disjoint setupCalls_disjoint) hmem rfl hcov
  simp only [directCall, hphys, rightsOf_vmemWrite] at hwalk
  exact hwalk

theorem setup_walk_sections (hlo : kernelSectionsStart ≤ v) (hhi : v < kernelSectionsStart + image.size) :
    walk k'.mem vm.pml4 v = some ⟨image.start + (v - kernelSectionsStart), 1, kernelRights⟩ := by
  rw [image.size_eq] at hhi
  have hi : (v - kernelSectionsStart) / twoMb < image.pages := by
    unfold twoMb at *
    omega
  have hcov : (sectionCall image ((v - kernelSectionsStart) / twoMb)).Covers v := by
    rw [sectionCall_covers]
    unfold twoMb
    omega
  have hmem : (sectionCall image ((v - kernelSectionsStart) / twoMb), (0 : Int)) ∈
      succeeded (setupCalls image physStartUser) :=
    List.mem_map.mpr ⟨_, mem_setupCalls.mpr (Or.inr (Or.inl ⟨_, hi, rfl⟩)), rfl⟩
  have hphys : image.start + (v - kernelSectionsStart) / twoMb * twoMb +
      (v - (kernelSectionsStart + (v - kernelSectionsStart) / twoMb * twoMb)) =
      image.start + (v - kernelSectionsStart) := by
    unfold twoMb
    omega
  have hwalk := map_run_covered hstart hrun (succeeded_legal (setupCalls_legal huser))
    (succeeded_disjoint setupCalls_disjoint) hmem rfl hcov
  simp only [sectionCall, hphys, rightsOf_vmemWrite] at hwalk
  exact hwalk

/-- An address in no area that is mapped. -/
theorem setup_walk_outside (hcan : Canonical v) (hdirect : v < directMapStart ∨ directMapStart + directMapSize ≤ v)
    (hsections : v < kernelSectionsStart ∨ kernelSectionsStart + image.size ≤ v)
    (hcode : v < 0x10000 ∨ 0x10000 + pageSize ≤ v) : walk k'.mem vm.pml4 v = none := by
  refine map_run_uncovered hstart hrun (succeeded_legal (setupCalls_legal huser)) (succeeded_disjoint setupCalls_disjoint)
    hcan fun x hx _ hcov => ?_
  obtain ⟨call, hcall, rfl⟩ := List.mem_map.mp hx
  rw [image.size_eq] at hsections
  rcases mem_setupCalls.mp hcall with ⟨i, hi, rfl⟩ | ⟨i, hi, rfl⟩ | rfl
  · have := directCall_covers.mp hcov
    unfold directMapSize at hdirect
    unfold gb at this
    omega
  · have := sectionCall_covers.mp hcov
    unfold twoMb at *
    omega
  · have := userCall_covers.mp hcov
    unfold pageSize at hcode
    omega

theorem setup_walk_none (hhigh : kernelHigherHalfStart ≤ v) (hhi : v < 2 ^ 64)
    (hdirect : v < directMapStart ∨ directMapStart + directMapSize ≤ v)
    (hsections : v < kernelSectionsStart ∨ kernelSectionsStart + image.size ≤ v) : walk k'.mem vm.pml4 v = none :=
  setup_walk_outside huser hstart hrun (Or.inr ⟨hhigh, hhi⟩) hdirect hsections (Or.inr (by
    unfold kernelHigherHalfStart at hhigh
    unfold pageSize
    omega))

end TaskWalk

end Setup

/-! ## Both walks -/

/-- To the code of the kernel a change of `CR3` from the tables of the boot code to those of a
task makes no difference. -/
structure Agree (image : Image) (bootWalk taskWalk : ℕ → Option Translation) : Prop where
  same : ∀ v, kernelHigherHalfStart ≤ v → v < 2 ^ 64 → bootWalk v = taskWalk v
  rights : ∀ v tr, kernelHigherHalfStart ≤ v → v < 2 ^ 64 → bootWalk v = some tr →
    tr.rights.write = true ∧ tr.rights.user = false
  sections : ∀ o < image.size, ∃ tr, bootWalk (kernelSectionsStart + o) = some tr ∧ tr.phys = image.start + o
  direct : ∀ a < directMapSize, ∃ tr, bootWalk (directMapStart + a) = some tr ∧ tr.phys = a

section Handover

variable {addrs : EarlyAddrs} {image : Image} {physStartUser : ℕ} {t : EarlyTables} {m : Mem} {vm : Vmem} {k k' : Kernel}
  (hfinal : t.Final addrs image) (hmem : t.InMemory addrs m)
  (huser : pageSize ∣ physStartUser ∧ physStartUser < 2 ^ 48)
  (hstart : (emptyTable vm.pml4).Valid vm.pml4 ∅ k)
  (hrun : Run (MapStep vm) k (succeeded (setupCalls image physStartUser)) k')

include hfinal hmem huser hstart hrun

theorem walks_agree (hpages : image.pages < 1024) (hapart : image.pages ≠ 512) :
    Agree image (walk m (physToVirt addrs.earlyPml4)) (walk k'.mem vm.pml4) := by
  have hsize := image.size_eq
  have hmax : kernelSectionsStart + image.size ≤ 2 ^ 64 := by
    have := image.size_le
    unfold kernelSectionsSize at this
    unfold kernelSectionsStart
    omega
  have hdirectEnd : directMapStart + directMapSize ≤ kernelSectionsStart := by decide
  have hsections {v : ℕ} (hlo : kernelSectionsStart ≤ v) (hhi : v < kernelSectionsStart + image.size) :
      walk m (physToVirt addrs.earlyPml4) v = some ⟨image.start + (v - kernelSectionsStart), 1, kernelRights⟩ := by
    rw [early_walk_sections_apart hfinal hmem hlo (by omega) hpages hapart, if_pos hhi]
  have hnone {v : ℕ} (hhigh : kernelHigherHalfStart ≤ v) (hhi : v < 2 ^ 64)
      (hdirect : v < directMapStart ∨ directMapStart + directMapSize ≤ v)
      (hout : v < kernelSectionsStart ∨ kernelSectionsStart + image.size ≤ v) :
      walk m (physToVirt addrs.earlyPml4) v = none := by
    by_cases hlow : v < kernelSectionsStart
    · exact early_walk_none hfinal hmem hhigh hhi hdirect (Or.inl hlow)
    · rw [early_walk_sections_apart hfinal hmem (by omega) hhi hpages hapart, if_neg (by omega)]
  refine ⟨fun v hhigh hhi => ?_, fun v tr hhigh hhi htr => ?_, fun o ho => ?_, fun a ha => ?_⟩
  · by_cases hdirect : directMapStart ≤ v ∧ v < directMapStart + directMapSize
    · rw [early_walk_direct hfinal hmem hdirect.1 hdirect.2, setup_walk_direct huser hstart hrun hdirect.1 hdirect.2]
    · by_cases hin : kernelSectionsStart ≤ v ∧ v < kernelSectionsStart + image.size
      · rw [hsections hin.1 hin.2, setup_walk_sections huser hstart hrun hin.1 hin.2]
      · rw [hnone hhigh hhi (by omega) (by omega), setup_walk_none huser hstart hrun hhigh hhi (by omega) (by omega)]
  · by_cases hdirect : directMapStart ≤ v ∧ v < directMapStart + directMapSize
    · rw [early_walk_direct hfinal hmem hdirect.1 hdirect.2] at htr
      exact Option.some.inj htr ▸ ⟨rfl, rfl⟩
    · by_cases hin : kernelSectionsStart ≤ v ∧ v < kernelSectionsStart + image.size
      · rw [hsections hin.1 hin.2] at htr
        exact Option.some.inj htr ▸ ⟨rfl, rfl⟩
      · rw [hnone hhigh hhi (by omega) (by omega)] at htr
        cases htr
  · exact ⟨_, hsections (Nat.le_add_right _ _) (by omega), by rw [Nat.add_sub_cancel_left]⟩
  · exact ⟨_, early_walk_direct hfinal hmem (Nat.le_add_right _ _) (by omega), Nat.add_sub_cancel_left _ _⟩

/-- Kernel sections of exactly 1 GiB: the boot tables map them a second time, behind themselves. -/
theorem not_agree_of_512 (hpages : image.pages = 512) :
    ¬Agree image (walk m (physToVirt addrs.earlyPml4)) (walk k'.mem vm.pml4) := by
  intro hagree
  have hsame := hagree.same (kernelSectionsStart + 2 ^ 30) (by decide) (by decide)
  rw [early_walk_sections hfinal hmem (Nat.le_add_right _ _) (by decide) (by omega), hpages,
    setup_walk_none huser hstart hrun (by decide) (by decide) (Or.inr (by decide))
      (Or.inr (by rw [image.size_eq, hpages]; decide)),
    show sectionsPdpe 512 (tableIndex 2 (kernelSectionsStart + 2 ^ 30)) = some 0 by decide,
    show tableIndex 1 (kernelSectionsStart + 2 ^ 30) = 0 by decide] at hsame
  simp at hsame

omit huser hstart hrun in
/-- Kernel sections up to the end of the address space: they are not mapped at all. -/
theorem not_agree_of_1024 (hpages : image.pages = 1024) (taskWalk : ℕ → Option Translation) :
    ¬Agree image (walk m (physToVirt addrs.earlyPml4)) taskWalk := by
  intro hagree
  obtain ⟨tr, htr, -⟩ := hagree.sections 0 image.size_pos
  rw [early_walk_none hfinal hmem (by decide) (by decide) (Or.inr (by decide)) (Or.inr hpages)] at htr
  cases htr

theorem agree_iff : Agree image (walk m (physToVirt addrs.earlyPml4)) (walk k'.mem vm.pml4) ↔
    image.size ≠ 2 ^ 30 ∧ image.size ≠ 2 ^ 31 := by
  have hsize := image.size_eq
  have hmax := image.pages_bounds.2
  constructor
  · intro hagree
    refine ⟨fun hone => ?_, fun htwo => ?_⟩
    · exact not_agree_of_512 hfinal hmem huser hstart hrun (by unfold twoMb at hsize; omega) hagree
    · exact not_agree_of_1024 hfinal hmem (by unfold twoMb at hsize; omega) _ hagree
  · rintro ⟨hone, htwo⟩
    unfold twoMb at hsize
    exact walks_agree hfinal hmem huser hstart hrun (by omega) (by omega)

end Handover

/-- The tables that `early_setup_paging` builds and those that `setup_vmem` builds in a new
address space with frames at hand translate every address of the higher half alike, except
where the kernel sections have the size of a page directory or of all directories there are. -/
theorem handover_agrees_iff {addrs : EarlyAddrs} {image : Image} {physStartUser : ℕ} {m : Mem} {vm : Vmem} {k0 k : Kernel}
    (hmem : (earlySetupPaging addrs image.start (image.start + image.size) (bootTables addrs)).InMemory addrs m)
    (huser : pageSize ∣ physStartUser ∧ physStartUser < 2 ^ 48) (hfresh : FreshFrames k0.frames)
    (hinit : vmemInit k0 = (0, vm, k)) (hplenty : Plenty (3 * (setupCalls image physStartUser).length) k.frames) :
    ∃ k', setupVmem image.start (image.start + image.size) physStartUser vm k = .ok (0, k') ∧
      (Agree image (walk m (physToVirt addrs.earlyPml4)) (walk k'.mem vm.pml4) ↔
        image.size ≠ 2 ^ 30 ∧ image.size ≠ 2 ^ 31) := by
  have hstart := (vmemInit_spec hfresh hinit).1
  obtain ⟨k', hsetup, hrun, -⟩ := setupVmem_run (n := 0) huser hstart (by rwa [Nat.add_zero])
  exact ⟨k', hsetup, agree_iff (earlySetupPaging_final addrs image) hmem huser hstart hrun⟩

/-! The boot tables from 2 MiB on, and frames from 1 GiB on. -/

def earlyAddrs : EarlyAddrs where
  earlyPml4 := 0x200000
  earlyPdpt := 0x201000
  directPhysMappingPdpts := 0x202000
  higherHalfPdpt := 0x282000
  higherHalfPgdirs := 0x283000
  pdpts_dvd := by decide
  pdpts_le := by decide
  pdpt_dvd := by decide
  pdpt_lt := by decide
  pgdirs_dvd := by decide
  pgdirs_le := by decide

/-- A memory that has the tables at these addresses. -/
def earlyMem (t : EarlyTables) : Mem := Mem.ofWords fun w =>
  let frame := w / 512 - physToVirt 0 / pageSize
  if frame = 0x200 then t.earlyPml4 (w % 512)
  else if frame = 0x282 then t.higherHalfPdpt (w % 512)
  else if 0x283 ≤ frame then t.higherHalfPgdirs (frame - 0x283) (w % 512)
  else t.directPhysMappingPdpts (frame - 0x202) (w % 512)

theorem entry_earlyMem (t : EarlyTables) {frame i : ℕ} (hframe : frame < 2 ^ 20) (hi : i < 512) :
    entry (earlyMem t) (physToVirt (frame * pageSize)) i =
      if frame = 0x200 then t.earlyPml4 i
      else if frame = 0x282 then t.higherHalfPdpt i
      else if 0x283 ≤ frame then t.higherHalfPgdirs (frame - 0x283) i
      else t.directPhysMappingPdpts (frame - 0x202) i := by
  have hvirt : physToVirt (frame * pageSize) + 8 * i = 8 * ((physToVirt 0 / pageSize + frame) * 512 + i) := by
    unfold physToVirt directMapStart pageSize
    omega
  rw [entry, hvirt, earlyMem, Mem.loadWord_ofWords]
  simp only [show ((physToVirt 0 / pageSize + frame) * 512 + i) / 512 = physToVirt 0 / pageSize + frame by omega,
    show ((physToVirt 0 / pageSize + frame) * 512 + i) % 512 = i by omega, Nat.add_sub_cancel_left]

theorem earlyMem_inMemory (t : EarlyTables) : t.InMemory earlyAddrs (earlyMem t) where
  pml4 i hi := @entry_earlyMem t 0x200 i (by decide) hi
  pdpts n hn i hi := by
    have haddr : 0x202000 + pageSize * n = (0x202 + n) * pageSize := by
      unfold pageSize
      omega
    rw [show earlyAddrs.directPhysMappingPdpts + pageSize * n = (0x202 + n) * pageSize from haddr, entry_earlyMem t (by omega) hi, if_neg (by omega), if_neg (by omega),
      if_neg (by omega), Nat.add_sub_cancel_left]
  pdpt i hi := @entry_earlyMem t 0x282 i (by decide) hi
  pgdirs g hg i hi := by
    have haddr : 0x283000 + pageSize * g = (0x283 + g) * pageSize := by
      unfold pageSize
      omega
    rw [show earlyAddrs.higherHalfPgdirs + pageSize * g = (0x283 + g) * pageSize from haddr, entry_earlyMem t (by omega) hi, if_neg (by omega), if_neg (by omega),
      if_pos (by omega), Nat.add_sub_cancel_left]

/-- Frames enough for an address space with the kernel mappings. -/
theorem manyFrames_init {n : ℕ} (hn : n < 2 ^ 20) : ∃ vm k, vmemInit (kernelWith (manyFrames (n + 1))) = (0, vm, k) ∧
    FreshFrames (kernelWith (manyFrames (n + 1))).frames ∧ Plenty n k.frames := by
  have hfresh := @manyFrames_fresh (n + 1) (hn.trans (by decide))
  obtain ⟨f, rest, hrest⟩ := manyFrames_succ n
  have hplenty := manyFrames_plenty (n + 1)
  rw [hrest] at hfresh hplenty ⊢
  obtain ⟨k, hinit, hframes, -⟩ := vmemInit_of_available (k := kernelWith (some f :: rest)) (hfresh.2 f List.mem_cons_self) rfl rfl
  refine ⟨_, k, hinit, hfresh, fun i hi => ?_⟩
  obtain ⟨g, hg⟩ := hplenty (i + 1) (by omega)
  exact ⟨g, by rwa [hframes, ← List.getElem?_cons_succ]⟩

theorem setupCalls_length (image : Image) (physStartUser : ℕ) :
    (setupCalls image physStartUser).length = 65536 + image.pages + 1 := by
  simp only [setupCalls, List.length_append, List.length_map, List.length_range', List.length_singleton]

/-- Kernel sections of one page, and of 512 pages. -/
def onePageImage : Image := ⟨0x400000, twoMb, by decide, by decide, by decide, by decide, by decide⟩

def gigabyteImage : Image := ⟨0x400000, gb, by decide, by decide, by decide, by decide, by decide⟩

theorem handover_agrees_onePage : ∃ vm k k', vmemInit (kernelWith (manyFrames 200000)) = (0, vm, k) ∧
    setupVmem onePageImage.start (onePageImage.start + onePageImage.size) 0x3000 vm k = .ok (0, k') ∧
      Agree onePageImage (walk (earlyMem (earlySetupPaging earlyAddrs onePageImage.start
        (onePageImage.start + onePageImage.size) (bootTables earlyAddrs))) (physToVirt earlyAddrs.earlyPml4))
        (walk k'.mem vm.pml4) := by
  obtain ⟨vm, k, hinit, hfresh, hplenty⟩ := @manyFrames_init 199999 (by decide)
  have henough : Plenty (3 * (setupCalls onePageImage 0x3000).length) k.frames := fun i hi =>
    hplenty i (lt_of_lt_of_le hi (by rw [setupCalls_length]; decide))
  obtain ⟨k', hsetup, hagree⟩ := handover_agrees_iff (earlyMem_inMemory _) ⟨by decide, by decide⟩ hfresh hinit henough
  exact ⟨vm, k, k', hinit, hsetup, hagree.mpr ⟨by decide, by decide⟩⟩

/-- Where the kernel sections have 1 GiB, the boot tables map addresses that those of the first
task do not. -/
theorem handover_differs_gigabyte : ∃ vm k k', vmemInit (kernelWith (manyFrames 200000)) = (0, vm, k) ∧
    setupVmem gigabyteImage.start (gigabyteImage.start + gigabyteImage.size) 0x3000 vm k = .ok (0, k') ∧
      ¬Agree gigabyteImage (walk (earlyMem (earlySetupPaging earlyAddrs gigabyteImage.start
        (gigabyteImage.start + gigabyteImage.size) (bootTables earlyAddrs))) (physToVirt earlyAddrs.earlyPml4))
        (walk k'.mem vm.pml4) := by
  obtain ⟨vm, k, hinit, hfresh, hplenty⟩ := @manyFrames_init 199999 (by decide)
  have henough : Plenty (3 * (setupCalls gigabyteImage 0x3000).length) k.frames := fun i hi =>
    hplenty i (lt_of_lt_of_le hi (by rw [setupCalls_length]; decide))
  have hstart := (vmemInit_spec hfresh hinit).1
  have huser : pageSize ∣ 0x3000 ∧ 0x3000 < 2 ^ 48 := ⟨by decide, by decide⟩
  obtain ⟨k', hsetup, hrun, -⟩ := setupVmem_run (n := 0) huser hstart (by rwa [Nat.add_zero])
  exact ⟨vm, k, k', hinit, hsetup, not_agree_of_512 (earlySetupPaging_final earlyAddrs gigabyteImage)
    (earlyMem_inMemory _) huser hstart hrun (by decide)⟩

end HeavenOS

/-
# Clients of the allocators

The functions that build address spaces and threads change the state in three ways only: they
call `frame_alloc`, they call `object_alloc`, and they write to memory. So a frame leaves the
allocator only by being handed out.
-/

import HeavenOS.Mm.VmemClone
import HeavenOS.Sched.SetupVmem

namespace HeavenOS

open Lib

/-- What a client of the allocators does. -/
inductive ClientStep : Kernel → Kernel → Prop
  | frameAlloc (k : Kernel) : ClientStep k (frameAlloc k).2
  | objectAlloc (k : Kernel) : ClientStep k (objectAlloc k).2
  | write (k : Kernel) (m : Mem) : ClientStep k { k with mem := m }

/-- Any number of such steps. -/
def Client : Kernel → Kernel → Prop := Relation.ReflTransGen ClientStep

namespace Client

variable {k k' k'' : Kernel}

theorem refl (k : Kernel) : Client k k := Relation.ReflTransGen.refl

theorem trans (h : Client k k') (h' : Client k' k'') : Client k k'' := Relation.ReflTransGen.trans h h'

theorem write (k : Kernel) (m : Mem) : Client k { k with mem := m } := .single (.write k m)

theorem frameAlloc (k : Kernel) : Client k (frameAlloc k).2 := .single (.frameAlloc k)

theorem objectAlloc (k : Kernel) : Client k (objectAlloc k).2 := .single (.objectAlloc k)

/-! ## Mapping -/

theorem ensureNextTable (k : Kernel) (tbl idx : ℕ) (flags : BitVec 64) :
    Client k (vmemEnsureNextTable k tbl idx flags).2 := by
  unfold vmemEnsureNextTable
  simp only
  split_ifs
  · exact write _ _
  · exact frameAlloc k
  · exact (frameAlloc k).trans (write _ _)

/-- A level of the tables, and what comes after it. -/
theorem next {tbl idx : ℕ} {flags : BitVec 64} {res : Int} {body : ℕ → Kernel → Except Panic (Int × Kernel)}
    (hbody : ∀ t k1, body t k1 = .ok (res, k') → Client k1 k')
    (h : (match vmemEnsureNextTable k tbl idx flags with
      | (t, k1) => if t = 0 then pure (-enomem, k1) else body t k1) = .ok (res, k')) : Client k k' := by
  have htable := ensureNextTable k tbl idx flags
  generalize vmemEnsureNextTable k tbl idx flags = table at h htable
  simp only at h
  split_ifs at h
  · cases h
    exact htable
  · exact htable.trans (hbody _ _ h)

/-- The entry of the page, behind the last assertion. -/
theorem last {t i : ℕ} {pte : BitVec 64} {c : Prop} [Decidable c] {msg : String} {res : Int}
    (h : (kassert c msg >>= fun _ => pure (0, setEntry k t i pte)) = .ok (res, k')) : Client k k' := by
  obtain ⟨-, -, h⟩ := bind_eq_ok.mp h
  cases h
  exact write _ _

section Mapping

variable {vm : Vmem} {virtAddr frame : ℕ} {flags : BitVec 64} {res : Int}

theorem mapPage (h : vmemMapPage vm virtAddr frame flags k = .ok (res, k')) : Client k k' := by
  unfold vmemMapPage at h
  obtain ⟨-, -, h⟩ := bind_eq_ok.mp h
  obtain ⟨-, -, h⟩ := bind_eq_ok.mp h
  exact next (fun _ _ => next fun _ _ => next fun _ _ => last) h

theorem mapPage2mb (h : vmemMapPage2mb vm virtAddr frame flags k = .ok (res, k')) : Client k k' := by
  unfold vmemMapPage2mb at h
  obtain ⟨-, -, h⟩ := bind_eq_ok.mp h
  obtain ⟨-, -, h⟩ := bind_eq_ok.mp h
  exact next (fun _ _ => next fun _ _ => last) h

theorem mapPage1gb (h : vmemMapPage1gb vm virtAddr frame flags k = .ok (res, k')) : Client k k' := by
  unfold vmemMapPage1gb at h
  obtain ⟨-, -, h⟩ := bind_eq_ok.mp h
  obtain ⟨-, -, h⟩ := bind_eq_ok.mp h
  exact next (fun _ _ => last) h

end Mapping

theorem mapCall {vm : Vmem} {call : MapCall} {res : Int} (h : call.run vm k = .ok (res, k')) : Client k k' := by
  unfold MapCall.run at h
  split at h
  · exact mapPage h
  · exact mapPage2mb h
  · exact mapPage1gb h

theorem runCalls {vm : Vmem} {calls : List MapCall} {res : Int} (h : runCalls vm calls k = .ok (res, k')) : Client k k' := by
  induction calls generalizing k with
  | nil =>
      cases h
      exact refl _
  | cons call calls ih =>
      rw [HeavenOS.runCalls] at h
      obtain ⟨⟨err, k1⟩, hcall, h⟩ := bind_eq_ok.mp h
      simp only at h
      split_ifs at h
      · cases h
        exact mapCall hcall
      · exact (mapCall hcall).trans (ih h)

theorem handlePf {vm : Vmem} {addr : ℕ} {handled : Bool} (h : vmemHandlePf vm addr k = .ok (handled, k')) : Client k k' := by
  rcases vmemHandlePf_cases h with ⟨-, -, rfl⟩ | ⟨area, res, -, -, -, hrun⟩
  · exact refl _
  · exact (frameAlloc k).trans (mapCall hrun)

theorem allocPages {vm vm' : Vmem} {virtAddr pgcnt : ℕ} {flags : BitVec 64} {res : Int}
    (h : vmemAllocPages vm virtAddr pgcnt flags k = .ok (res, vm', k')) : Client k k' := by
  unfold vmemAllocPages at h
  obtain ⟨-, -, h⟩ := bind_eq_ok.mp h
  simp only at h
  split_ifs at h
  all_goals
    cases h
    exact objectAlloc k

/-! ## Copying -/

section Cloning

variable {dst : Vmem} {pml4ei pdpei pdei ptei : ℕ} {pte : BitVec 64} {res : Int}

theorem forPresent {body : ℕ → BitVec 64 → Kernel → Except Panic (Int × Kernel)} {tbl : ℕ}
    (hbody : ∀ {i pte k res k'}, body i pte k = .ok (res, k') → Client k k') {count i : ℕ}
    (h : forPresent body tbl count i k = .ok (res, k')) : Client k k' := by
  induction count generalizing i k with
  | zero =>
      cases h
      exact refl _
  | succ count ih =>
      rw [HeavenOS.forPresent] at h
      simp only at h
      split_ifs at h
      · exact ih h
      · obtain ⟨⟨res1, k1⟩, hone, h⟩ := bind_eq_ok.mp h
        simp only at h
        split_ifs at h
        · cases h
          exact hbody hone
        · exact (hbody hone).trans (ih h)

theorem clonePte (h : clonePte dst pml4ei pdpei pdei ptei pte k = .ok (res, k')) : Client k k' := by
  unfold HeavenOS.clonePte at h
  simp only at h
  split_ifs at h
  · cases h
    exact frameAlloc k
  · exact ((frameAlloc k).trans (write _ _)).trans (mapPage h)
  · exact mapPage h

theorem clonePde (h : clonePde dst pml4ei pdpei pdei pte k = .ok (res, k')) : Client k k' := by
  unfold HeavenOS.clonePde at h
  split_ifs at h
  · exact mapPage2mb h
  · exact forPresent clonePte h

theorem clonePdpe (h : clonePdpe dst pml4ei pdpei pte k = .ok (res, k')) : Client k k' := by
  unfold HeavenOS.clonePdpe at h
  split_ifs at h
  · exact mapPage1gb h
  · exact forPresent clonePde h

theorem init (k : Kernel) : Client k (vmemInit k).2.2 := by
  unfold vmemInit
  simp only
  split_ifs
  · exact frameAlloc k
  · exact (frameAlloc k).trans (objectAlloc _)
  · exact (frameAlloc k).trans (objectAlloc _)

theorem cloneAreas (areas : List VmemArea) (dst : Vmem) (k : Kernel) : Client k (cloneAreas areas dst k).2.2 := by
  induction areas generalizing dst k with
  | nil => exact refl k
  | cons area rest ih =>
      rw [HeavenOS.cloneAreas]
      simp only
      split_ifs
      · exact (objectAlloc k).trans (ih _ _)
      · exact objectAlloc k

/-- `vmem_clone` -/
theorem clone {src vm : Vmem} (h : vmemClone src k = .ok (res, vm, k')) : Client k k' := by
  unfold vmemClone at h
  simp only at h
  have hareas := (init k).trans (cloneAreas src.areas (vmemInit k).2.1 (vmemInit k).2.2)
  split_ifs at h
  · cases h
    exact init k
  · cases h
    exact hareas
  · obtain ⟨⟨res1, k1⟩, hpages, h⟩ := bind_eq_ok.mp h
    have hclone := hareas.trans (forPresent (forPresent clonePdpe) hpages)
    simp only at h
    split_ifs at h
    all_goals
      cases h
      exact hclone

end Cloning

end Client

/-! ## What a client takes -/

section Spends

variable {k k' k'' : Kernel}

/-- Frames have been handed out, and a frame that is no longer free is one of them. -/
structure Spends (k k' : Kernel) : Prop where
  frames : ∃ used, k.frames = used ++ k'.frames
  freed : ∀ f ∈ k.freed, f ∈ k'.freed ∨ f ∈ taken k k'

/-- Nothing has been handed out. -/
theorem taken_of_same (h : k'.frames = k.frames) : taken k k' = [] :=
  @taken_eq k k' [] (by rw [h, List.nil_append])

theorem Spends.of_same (hframes : k'.frames = k.frames) (hfreed : k'.freed = k.freed) : Spends k k' :=
  ⟨⟨[], by rw [hframes, List.nil_append]⟩, fun _ hf => Or.inl (hfreed ▸ hf)⟩

theorem Spends.trans (h : Spends k k') (h' : Spends k' k'') : Spends k k'' := by
  have htaken := taken_trans h.frames h'.frames
  refine ⟨?_, fun f hf => ?_⟩
  · obtain ⟨used, hused⟩ := h.frames
    obtain ⟨used', hused'⟩ := h'.frames
    exact ⟨used ++ used', by rw [hused, hused', List.append_assoc]⟩
  · rw [htaken, List.mem_append]
    rcases h.freed f hf with hf | hf
    · exact (h'.freed f hf).imp_right Or.inr
    · exact Or.inr (Or.inl hf)

theorem ClientStep.spends (h : ClientStep k k') : Spends k k' := by
  cases h with
  | write m => exact .of_same rfl rfl
  | objectAlloc =>
      unfold HeavenOS.objectAlloc
      split
      · exact .of_same rfl rfl
      · exact .of_same rfl rfl
  | frameAlloc =>
      unfold HeavenOS.frameAlloc
      split
      · exact .of_same rfl rfl
      · next frames hframes => exact ⟨⟨[none], hframes⟩, fun f hf => Or.inl hf⟩
      · next g frames hframes =>
          refine ⟨⟨[some g], hframes⟩, fun f hf => ?_⟩
          rw [taken_eq (show k.frames = [some g] ++ frames from hframes)]
          by_cases hfg : f = g
          · exact Or.inr (by simp [hfg])
          · exact Or.inl (List.mem_filter.mpr ⟨hf, by simpa using hfg⟩)

theorem Client.spends (h : Client k k') : Spends k k' := by
  induction h with
  | refl => exact .of_same rfl rfl
  | tail _ hstep ih => exact ih.trans hstep.spends

end Spends

end HeavenOS

import NexusRT.Firmware.CudaMemory
import NexusRT.Python.BackendMemory

namespace NexusRT.Python

open Prog Firmware Memory

structure CudaBacked (A : CuResult → Prop) (lost : List Ptr)
    (live : Table Ptr Memory.Allocation) (d : CudaDriver) : Prop where
  once : d.allocated.Nodup
  has : ∀ p, live.find p ≠ none → p ∈ d.allocated ∧ p ≠ 0
  only : (∀ r, A r → r = .success) → ∀ p ∈ d.allocated, live.find p ≠ none
  lost : ∀ p ∈ lost, p ∈ d.allocated ∧ live.find p = none

section Steps

variable {A : CuResult → Prop} {lost : List Ptr} {live : Table Ptr Memory.Allocation}
  {d d' : CudaDriver} {p : Ptr}

theorem CudaBacked.same (h : CudaBacked A lost live d) (hsame : d'.allocated = d.allocated) :
    CudaBacked A lost live d' := by
  obtain ⟨honce, hhas, honly, hlost⟩ := h
  rw [← hsame] at honce hhas honly hlost
  exact ⟨honce, hhas, honly, hlost⟩

theorem CudaBacked.allocated (h : CudaBacked A lost live d) (hnew : p ∉ d.allocated) (hp : p ≠ 0)
    (hcons : d'.allocated = p :: d.allocated) (a : Memory.Allocation) :
    CudaBacked A lost (live.insert p a) d' := by
  refine ⟨?_, fun q hq => ?_, fun hA q hq => ?_, fun q hq => ?_⟩
  · rw [hcons]
    exact List.nodup_cons.mpr ⟨hnew, h.once⟩
  · rw [hcons]
    rw [Table.find_insert] at hq
    by_cases hqp : q = p
    · exact ⟨hqp ▸ List.mem_cons_self, hqp ▸ hp⟩
    · rw [if_neg hqp] at hq
      exact ⟨List.mem_cons_of_mem _ (h.has q hq).1, (h.has q hq).2⟩
  · rw [hcons] at hq
    rw [Table.find_insert]
    rcases List.mem_cons.mp hq with rfl | hq
    · simp
    · split
      · exact Option.some_ne_none a
      · exact h.only hA q hq
  · obtain ⟨hmem, hnone⟩ := h.lost q hq
    have hqp : q ≠ p := fun heq => hnew (heq ▸ hmem)
    rw [hcons, Table.find_insert, if_neg hqp]
    exact ⟨List.mem_cons_of_mem _ hmem, hnone⟩

theorem CudaBacked.forgotten (h : CudaBacked A lost live d) {r : CuResult} (hA : A r)
    (hr : r ≠ .success) (hsame : d'.allocated = d.allocated) :
    CudaBacked A lost (live.erase p) d' := by
  -- The driver refuses, and the manager forgets the address all the same.
  refine ⟨hsame ▸ h.once, fun q hq => ?_, fun hall => absurd (hall r hA) hr, fun q hq => ?_⟩
  · rw [Table.find_erase] at hq
    split at hq
    · exact absurd rfl hq
    · rw [hsame]
      exact h.has q hq
  · obtain ⟨hmem, hnone⟩ := h.lost q hq
    rw [hsame, Table.find_erase]
    refine ⟨hmem, ?_⟩
    split
    · rfl
    · exact hnone

theorem CudaBacked.freed (h : CudaBacked A lost live d) (hlive : live.find p ≠ none)
    (herase : d'.allocated = d.allocated.erase p) : CudaBacked A lost (live.erase p) d' := by
  refine ⟨?_, fun q hq => ?_, fun hA q hq => ?_, fun q hq => ?_⟩
  · rw [herase]
    exact h.once.erase p
  · rw [Table.find_erase] at hq
    split at hq
    · exact absurd rfl hq
    · next hqp =>
      rw [herase, h.once.mem_erase_iff]
      exact ⟨⟨hqp, (h.has q hq).1⟩, (h.has q hq).2⟩
  · rw [herase, h.once.mem_erase_iff] at hq
    rw [Table.find_erase, if_neg hq.1]
    exact h.only hA q hq.2
  · obtain ⟨hmem, hnone⟩ := h.lost q hq
    have hqp : q ≠ p := fun heq => hlive (heq ▸ hnone)
    rw [herase, h.once.mem_erase_iff, Table.find_erase, if_neg hqp]
    exact ⟨⟨hqp, hmem⟩, hnone⟩

theorem cuda_takes {p : Ptr} (hp : p ≠ 0) {e : Status}
    (hserves : (CudaDriver.Serves A) (.freeHbm p) d e d') : e = .ok ∧
      ((∃ r, A r ∧ r ≠ .success ∧ d'.allocated = d.allocated) ∨
        (p ∈ d.allocated ∧ d'.allocated = d.allocated.erase p)) :=
  (always_iff _ _ _).mp (CudaPlatform.freeHbm_spec hp d.allocated) _ _ hserves.2

theorem cuda_ties (A : CuResult → Prop) (lost : List Ptr) :
    Ties (CudaDriver.Serves A) (CudaBacked A lost) where
  tags _ _ _ _ h := h.2
  refused := by
    intro live d d' bytes e p h he hserves
    rcases (always_iff _ _ _).mp (CudaPlatform.allocHbm_spec d.entry bytes d.allocated) _ _ hserves
      with ⟨_, hsame⟩ | ⟨hok, _⟩
    · exact h.same hsame
    · exact absurd hok he
  handed := by
    intro live d d' bytes p h hserves
    rcases (always_iff _ _ _).mp (CudaPlatform.allocHbm_spec d.entry bytes d.allocated) _ _ hserves
      with ⟨hne, _⟩ | ⟨_, hnew, hp, hcons⟩
    · exact absurd rfl hne
    · refine ⟨?_, fun a => h.allocated hnew hp hcons a⟩
      by_contra hlive
      exact hnew (h.has p hlive).1
  kept := by
    intro live d d' p e h hlive he hserves
    exact absurd (cuda_takes (h.has p hlive).2 hserves).1 he
  freed := by
    intro live d d' p h hlive hserves
    rcases (cuda_takes (h.has p hlive).2 hserves).2 with ⟨r, hA, hr, hsame⟩ | ⟨_, herase⟩
    · exact h.forgotten hA hr hsame
    · exact h.freed hlive herase

end Steps

theorem cuda_memory_exact (A : CuResult → Prop) (m₀ : MemoryManager) (entry : Option CudaState)
    (hempty : ∀ p, m₀.live.find p = none) (s : OverBackend CudaDriver)
    (h : Relation.ReflTransGen (BackendStep (CudaDriver.Serves A))
      { client := { m := m₀ }, backend := { entry } } s) :
    HandedOut s.client ∧
    (∀ e ∈ s.client.handed, ∃ p ∈ s.backend.allocated, e.1.ptr = p.toNat) ∧
    ((∀ r, A r → r = .success) → (s.client.handed.map fun e => e.1.ptr).Perm
      (s.backend.allocated.map fun p => (p.toNat : ℤ))) ∧
    (∀ (ctx : Option Ptr) (found : Ptr → Bool) (a : Allocation) (r : Except PyError Unit)
      (m' : MemoryManager) (d' : CudaDriver), HasContext ctx found →
        Exec (CudaDriver.Serves A) (free ctx found s.client.m a) s.backend (r, m') d' →
          (r = .ok () ↔ ∃ e ∈ s.client.handed, e.1.ptr = (UInt64.ofInt a.ptr).toNat)) ∧
    ∀ p ∈ s.backend.allocated, (∀ e ∈ s.client.handed, e.1.ptr ≠ p.toNat) →
      ∀ s', Relation.ReflTransGen (BackendStep (CudaDriver.Serves A)) s s' →
        p ∈ s'.backend.allocated ∧ ∀ e ∈ s'.client.handed, e.1.ptr ≠ p.toNat := by
  have hstart : CudaBacked A [] m₀.live { entry } :=
    ⟨List.nodup_nil, fun p hp => absurd (hempty p) hp, by simp, by simp⟩
  obtain ⟨hout, hback⟩ := (cuda_ties A []).run ⟨.start hempty, hstart⟩ h
  refine ⟨hout, fun e he => ?_, fun hA => hout.perm hback.once fun p => ?_, ?_, ?_⟩
  · obtain ⟨_, p, a, hptr, hfind, _⟩ := hout.asked e he
    exact ⟨p, (hback.has p (by simp [hfind])).1, hptr⟩
  · exact ⟨fun hlive => (hback.has p hlive).1, hback.only hA p⟩
  · intro ctx found a r m' d' hctx hexec
    exact hout.free_iff (fun e hsome hserves => (cuda_takes (hback.has _ hsome).2 hserves).1) hctx
      hexec
  · intro p hp hnot s' hrun
    have hnone : s.client.m.live.find p = none := by
      by_contra hlive
      obtain ⟨e, he, heq⟩ := (hout.live p).mp hlive
      exact hnot e he heq
    have hlost : CudaBacked A [p] s.client.m.live s.backend := by
      refine ⟨hback.once, hback.has, hback.only, fun q hq => ?_⟩
      obtain rfl := List.mem_singleton.mp hq
      exact ⟨hp, hnone⟩
    obtain ⟨hout', hback'⟩ := (cuda_ties A [p]).run ⟨hout, hlost⟩ hrun
    obtain ⟨hmem, hnone'⟩ := hback'.lost p List.mem_cons_self
    exact ⟨hmem, fun e he heq => (hout'.live p).mpr ⟨e, he, heq⟩ hnone'⟩

def cudaAllocation : Allocation := { ptr := 0x20000, bytes := 0x10000, hints := 0 }

theorem cuda_memory_exact_lost : ∃ s, Relation.ReflTransGen
      (BackendStep (CudaDriver.Serves fun r => r = .invalidValue))
      { client := {}, backend := {} } s ∧ s.client.handed = [] ∧
    ∀ s', Relation.ReflTransGen (BackendStep (CudaDriver.Serves fun r => r = .invalidValue)) s s' →
      (0x20000 : Ptr) ∈ s'.backend.allocated := by
  let d : CudaDriver := { entry := some { primary := 1 }, allocated := [0x20000] }
  have hserves : CudaDriver.Serves (fun r => r = .invalidValue) (.allocHbm 0x10000) {}
      (.ok, 0x20000) d :=
    ⟨(.success, 1), _, rfl, (.success, 0x20000), _, .inl ⟨rfl, by decide, by simp, rfl⟩, rfl, rfl⟩
  have hserves' : CudaDriver.Serves (fun r => r = .invalidValue) (.freeHbm 0x20000) d .ok d :=
    ⟨rfl, .invalidValue, _, ⟨rfl, .inr ⟨by decide, rfl⟩⟩, rfl, rfl⟩
  obtain ⟨m, hlive, hexec⟩ : ∃ m, m.live.find 0x20000 ≠ none ∧
      Exec (CudaDriver.Serves fun r => r = .invalidValue)
        (alloc (some 1) (fun _ => true) {} 0x10000 {} id id) {} (.ok cudaAllocation, m) d := by
    refine ⟨_, ?_, (.ok, 0x20000), d, hserves, rfl, rfl⟩
    exact Option.some_ne_none _
  obtain ⟨m', hfree⟩ := free_exec (fun _ => true) 1 cudaAllocation rfl hlive hserves'
  have hrun := Relation.ReflTransGen.tail (.single
    (BackendStep.alloc (s := { client := {}, backend := {} }) _ _ _ _ _ _ _ m d hexec))
    (BackendStep.free _ _ _ _ m' d hfree)
  obtain ⟨_, _, _, _, hlost⟩ := cuda_memory_exact _ {} none (fun _ => rfl) _ hrun
  refine ⟨_, hrun, rfl, fun s' hs' => (hlost 0x20000 List.mem_cons_self ?_ s' hs').1⟩
  simp [MemoryClient.handedAfterFree, MemoryClient.handedAfterAlloc]

end NexusRT.Python

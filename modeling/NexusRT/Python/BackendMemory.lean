import NexusRT.Python.Memory

namespace NexusRT.Python

open Prog Firmware Memory

structure OverBackend (σ : Type) where
  client : MemoryClient := {}
  backend : σ

section Backends

variable {σ : Type} {H : (c : PlatformCall) → σ → c.Answer → σ → Prop}

inductive BackendStep (H : (c : PlatformCall) → σ → c.Answer → σ → Prop) (s : OverBackend σ) :
    OverBackend σ → Prop
  | alloc (ctx : Option Ptr) (found : Ptr → Bool) (bytes : ℤ) (k : AllocKeywords)
      (now later : UInt64 → UInt64) (r : Except PyError Allocation) (m' : MemoryManager) (d' : σ)
      (h : Exec H (alloc ctx found s.client.m bytes k now later) s.backend (r, m') d') :
      BackendStep H s
        { client := { m := m', handed := s.client.handedAfterAlloc k r }, backend := d' }
  | free (ctx : Option Ptr) (found : Ptr → Bool) (a : Allocation) (r : Except PyError Unit)
      (m' : MemoryManager) (d' : σ)
      (h : Exec H (free ctx found s.client.m a) s.backend (r, m') d') :
      BackendStep H s
        { client := { m := m', handed := s.client.handedAfterFree a r }, backend := d' }
  | advise (ctx : Option Ptr) (found : Ptr → Bool) (ptr bytes : ℤ) (now : UInt64 → UInt64) :
      BackendStep H s { s with
        client.m := (adviseReadMostly ctx found s.client.m ptr bytes now).2 }

structure Ties (H : (c : PlatformCall) → σ → c.Answer → σ → Prop)
    (I : Table Ptr Memory.Allocation → σ → Prop) : Prop where
  tags : MemoryManager.TagsOnly H
  refused : ∀ {live d d' bytes e p}, I live d → e ≠ .ok → H (.allocHbm bytes) d (e, p) d' →
    I live d'
  handed : ∀ {live d d' bytes p}, I live d → H (.allocHbm bytes) d (.ok, p) d' →
    live.find p = none ∧ ∀ a, I (live.insert p a) d'
  kept : ∀ {live d d' p e}, I live d → live.find p ≠ none → e ≠ .ok → H (.freeHbm p) d e d' →
    I live d'
  freed : ∀ {live d d' p}, I live d → live.find p ≠ none → H (.freeHbm p) d .ok d' →
    I (live.erase p) d'

section Runs

variable {I : Table Ptr Memory.Allocation → σ → Prop} {s s' : OverBackend σ}

structure Tied (I : Table Ptr Memory.Allocation → σ → Prop) (s : OverBackend σ) : Prop where
  handed : HandedOut s.client
  backend : I s.client.m.live s.backend

theorem Ties.step (hI : Ties H I) (h : Tied I s) (hstep : BackendStep H s s') : Tied I s' := by
  obtain ⟨hout, hback⟩ := h
  cases hstep with
  | alloc ctx found bytes k now later r m' d' hexec =>
    rcases alloc_outcome hI.tags hexec with
      ⟨e, rfl, rfl, rfl | ⟨e', p, he, hserves⟩⟩ | ⟨p, a, rfl, hserves, hlive, hbytes, hhints⟩
    · exact ⟨hout, hback⟩
    · exact ⟨hout, hI.refused hback he hserves⟩
    · obtain ⟨hfresh, hinsert⟩ := hI.handed hback hserves
      refine ⟨hout.handed hfresh hlive hbytes hhints, ?_⟩
      dsimp only
      rw [hlive]
      exact hinsert a
  | free ctx found a r m' d' hexec =>
    rcases free_outcome hexec with
      ⟨e, rfl, rfl, rfl, _⟩ | ⟨hsome, ⟨e, e', rfl, he, hserves, hlive⟩ | ⟨rfl, hserves, hlive⟩⟩
    · exact ⟨hout, hback⟩
    · refine ⟨hout.same_live hlive, ?_⟩
      dsimp only
      rw [hlive]
      exact hI.kept hback hsome he hserves
    · refine ⟨hout.freed hlive, ?_⟩
      dsimp only
      rw [hlive]
      exact hI.freed hback hsome hserves
  | advise ctx found ptr bytes now =>
    have hlive := adviseReadMostly_live ctx found s.client.m ptr bytes now
    refine ⟨hout.same_live hlive, ?_⟩
    dsimp only
    rw [hlive]
    exact hback

theorem Ties.run (hI : Ties H I) (h : Tied I s)
    (hrun : Relation.ReflTransGen (BackendStep H) s s') : Tied I s' := by
  induction hrun with
  | refl => exact h
  | tail _ hstep ih => exact hI.step ih hstep

end Runs

section Results

variable {s : MemoryClient} {d d' : σ}

theorem HandedOut.start {m₀ : MemoryManager} (hempty : ∀ p, m₀.live.find p = none) :
    HandedOut { m := m₀ } := ⟨by simp [hempty], List.nodup_nil, by simp⟩

theorem HandedOut.perm (h : HandedOut s) {v : List Ptr} (hv : v.Nodup)
    (hlive : ∀ p, s.m.live.find p ≠ none ↔ p ∈ v) :
    (s.handed.map fun e => e.1.ptr).Perm (v.map fun p => (p.toNat : ℤ)) := by
  have hinj : Function.Injective fun p : Ptr => (p.toNat : ℤ) := fun p q hpq => toNat_inj.mp hpq
  rw [List.perm_ext_iff_of_nodup h.once (hv.map hinj)]
  intro x
  simp only [List.mem_map]
  constructor
  · rintro ⟨e, he, rfl⟩
    obtain ⟨_, p, a, hptr, hfind, _⟩ := h.asked e he
    exact ⟨p, (hlive p).mp (by simp [hfind]), hptr.symm⟩
  · rintro ⟨p, hp, rfl⟩
    exact (h.live p).mp ((hlive p).mpr hp)

theorem HandedOut.free_iff (h : HandedOut s) {ctx : Option Ptr} {found : Ptr → Bool}
    {a : Allocation} {r : Except PyError Unit} {m' : MemoryManager}
    (htakes : ∀ e, s.m.live.find (UInt64.ofInt a.ptr) ≠ none →
      H (.freeHbm (UInt64.ofInt a.ptr)) d e d' → e = .ok)
    (hctx : HasContext ctx found) (hexec : Exec H (free ctx found s.m a) d (r, m') d') :
    r = .ok () ↔ ∃ e ∈ s.handed, e.1.ptr = (UInt64.ofInt a.ptr).toNat := by
  rw [← h.live]
  rcases free_outcome hexec with
    ⟨e, rfl, _, _, hnone⟩ | ⟨hsome, ⟨e, e', rfl, he, hserves, _⟩ | ⟨rfl, _, _⟩⟩
  · exact ⟨by simp, fun hsome => absurd (hnone hctx) hsome⟩
  · exact absurd (htakes e' hsome hserves) he
  · exact ⟨fun _ => hsome, fun _ => rfl⟩

end Results

end Backends

end NexusRT.Python

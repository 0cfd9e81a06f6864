import Mathlib.Data.List.Nodup
import NexusRT.Firmware.MicroKernel

namespace NexusRT.Firmware.MicroKernel

def Pooled (klass : StreamClass) : Prop := klass = .compute ∨ klass = .dma ∨ klass = .fence

def all (m : MicroKernel) : List StreamHandle := m.freeCompute ++ m.freeDma ++ m.freeFence

theorem pooled_of_mem_free {m : MicroKernel} {klass : StreamClass} {h : StreamHandle}
    (hm : h ∈ m.free klass) : Pooled klass := by
  cases klass <;> simp_all [free, Pooled]

theorem free_sublist_all (m : MicroKernel) (klass : StreamClass) : (m.free klass).Sublist m.all := by
  cases klass <;> simp [free, all]

theorem free_popBack (m : MicroKernel) (klass c : StreamClass) :
    (m.popBack klass).free c = if c = klass then (m.free c).dropLast else m.free c := by
  cases klass <;> cases c <;> simp [popBack, free]

theorem free_pushBack (m : MicroKernel) {h : StreamHandle} (hk : Pooled h.klass) (c : StreamClass) :
    (m.pushBack h).free c = if c = h.klass then m.free c ++ [h] else m.free c := by
  rcases hk with hk | hk | hk <;> cases c <;> simp [pushBack, free, hk]

theorem all_pushBack (m : MicroKernel) {h : StreamHandle} (hk : Pooled h.klass) :
    (m.pushBack h).all.Perm (h :: m.all) := by
  rcases hk with hk | hk | hk
  · simp [pushBack, all, hk]
  · simpa [pushBack, all, hk] using
      @List.perm_middle _ h (m.freeCompute ++ m.freeDma) m.freeFence
  · simpa [pushBack, all, hk] using
      List.perm_append_singleton h (m.freeCompute ++ m.freeDma ++ m.freeFence)

theorem nextId_pushBack (m : MicroKernel) (h : StreamHandle) : (m.pushBack h).nextId = m.nextId := by
  rw [pushBack]
  cases h.klass <;> rfl

theorem acquireStream_cases {m m' : MicroKernel} {klass : StreamClass} {priority : Int32}
    {h : StreamHandle} (he : (h, m') = m.acquireStream klass priority) :
    (h.id = 0 ∧ m' = m) ∨
      (m.free klass = m'.free klass ++ [h] ∧ ∀ c ≠ klass, m'.free c = m.free c) := by
  rw [acquireStream] at he
  cases hlast : (m.free klass).getLast? with
  | none =>
    simp only [hlast, Prod.mk.injEq] at he
    exact .inl ⟨by rw [he.1], he.2⟩
  | some x =>
    simp only [hlast, Prod.mk.injEq] at he
    obtain ⟨rfl, rfl⟩ := he
    refine .inr ⟨?_, fun c hc => by rw [free_popBack, if_neg hc]⟩
    rw [free_popBack, if_pos rfl]
    exact (List.dropLast_append_getLast? h hlast).symm

theorem releaseStream_cases (m : MicroKernel) {h : StreamHandle} (hid : h.id ≠ 0)
    (hk : Pooled h.klass) (c : StreamClass) :
    (m.releaseStream h).free c = if c = h.klass then m.free c ++ [h] else m.free c := by
  rw [releaseStream, if_neg hid, free_pushBack m hk]

theorem loadModule_free (m : MicroKernel) (name source : String) :
    Prog.Always (Prog.allow anyBackend) (m.loadModule name source) ()
      (fun r _ => r.2.free = m.free) := by
  rw [loadModule]
  split
  · rfl
  · simp only [Platform.loadModule, Prog.op, Prog.call_bind, Prog.ret_bind, Prog.always_call]
    rintro ⟨s, raw, functions⟩ ⟨⟩ _
    split <;> rfl

theorem count_all (m : MicroKernel) (h : StreamHandle) : m.all.count h =
    (m.free .compute).count h + (m.free .dma).count h + (m.free .fence).count h := by
  simp [all, free, Nat.add_assoc]

structure Spawned (m : MicroKernel) : Prop where
  nodup : (m.all.map StreamHandle.id).Nodup
  fresh : ∀ h ∈ m.all, h.id.toNat < m.nextId.toNat
  valid : ∀ h ∈ m.all, h.id ≠ 0
  klass : ∀ c, ∀ h ∈ m.free c, h.klass = c
  next : m.nextId ≠ 0

theorem spawned_empty (arch : Arch) : Spawned { arch } where
  nodup := by simp [all]
  fresh h hm := by simp [all] at hm
  valid h hm := by simp [all] at hm
  klass c h hm := by cases c <;> simp [free] at hm
  next := by simp

theorem Spawned.advance {m : MicroKernel} (hs : Spawned m) (hn : m.nextId.toNat + 1 < 2 ^ 64) :
    (m.nextId + 1).toNat = m.nextId.toNat + 1 ∧ Spawned { m with nextId := m.nextId + 1 } := by
  have hnext : (m.nextId + 1).toNat = m.nextId.toNat + 1 := by
    rw [UInt64.toNat_add]
    exact Nat.mod_eq_of_lt hn
  refine ⟨hnext, hs.nodup, fun h hm => ?_, hs.valid, hs.klass, ?_⟩
  · have := hs.fresh h hm
    simp only [hnext]
    omega
  · intro hzero
    have := congrArg UInt64.toNat hzero
    rw [hnext] at this
    simp at this

theorem Spawned.pushBack {m : MicroKernel} (hs : Spawned m) (hn : m.nextId.toNat + 1 < 2 ^ 64)
    {klass : StreamClass} (hk : Pooled klass) (raw : Ptr) :
    Spawned (({ m with nextId := m.nextId + 1 } : MicroKernel).pushBack
      { id := m.nextId, raw, klass }) := by
  obtain ⟨hnext, hs'⟩ := hs.advance hn
  have hmem := all_pushBack { m with nextId := m.nextId + 1 }
    (h := { id := m.nextId, raw, klass }) hk
  constructor
  · rw [(hmem.map StreamHandle.id).nodup_iff, List.map_cons, List.nodup_cons]
    refine ⟨fun hdup => ?_, hs.nodup⟩
    obtain ⟨h, hh, hid⟩ := List.mem_map.mp hdup
    have hlt := hs.fresh h hh
    rw [hid] at hlt
    exact lt_irrefl _ hlt
  · intro h hh
    rw [nextId_pushBack]
    rcases List.mem_cons.mp (hmem.mem_iff.mp hh) with rfl | hh
    · simp only [hnext]
      omega
    · exact hs'.fresh h hh
  · intro h hh
    rcases List.mem_cons.mp (hmem.mem_iff.mp hh) with rfl | hh
    · exact hs.next
    · exact hs.valid h hh
  · intro c h hh
    rw [free_pushBack _ hk] at hh
    split at hh
    · next hc =>
      rcases List.mem_append.mp hh with hh | hh
      · exact hs'.klass c h hh
      · obtain rfl := List.mem_singleton.mp hh
        exact hc.symm
    · exact hs'.klass c h hh
  · rw [nextId_pushBack]
    exact hs'.next

theorem spawnStreams_spawned {klass : StreamClass} (hk : Pooled klass) (priority : Int32) (n : ℕ)
    (m : MicroKernel) (hs : Spawned m) (hn : m.nextId.toNat + n < 2 ^ 64) :
    Prog.Always (Prog.allow anyBackend) (spawnStreams klass priority n m) ()
      (fun r _ => Spawned r.2 ∧ r.2.nextId.toNat ≤ m.nextId.toNat + n) := by
  induction n generalizing m with
  | zero => exact ⟨hs, le_rfl⟩
  | succ n ih =>
    simp only [spawnStreams, Platform.createStream, Prog.op, Prog.call_bind, Prog.ret_bind,
      Prog.always_call]
    rintro ⟨s, raw⟩ ⟨⟩ _
    obtain ⟨hnext, hadvance⟩ := hs.advance (by omega)
    by_cases hok : ok s = true
    · simp only [hok, Bool.not_true, Bool.false_eq_true, ↓reduceIte]
      have hid : (pushBack { m with nextId := m.nextId + 1 } { id := m.nextId, raw, klass }).nextId
          = m.nextId + 1 := nextId_pushBack _ _
      apply Prog.always_mono (ih _ (hs.pushBack (by omega) hk raw) (by rw [hid]; omega))
      rintro r _ ⟨hr, hle⟩
      rw [hid, hnext] at hle
      exact ⟨hr, by omega⟩
    · rw [Bool.not_eq_true] at hok
      simp only [hok, Bool.not_false, ↓reduceIte]
      exact ⟨hadvance, by simp only [hnext]; omega⟩

theorem spawnStreamPool_spawned (arch : Arch) (nCompute nDma : UInt32) :
    Prog.Always (Prog.allow anyBackend) (spawnStreamPool { arch } nCompute nDma) ()
      (fun r _ => Spawned r.2) := by
  have hcompute := nCompute.toNat_lt
  have hdma := nDma.toNat_lt
  have hzero : ({ arch } : MicroKernel).nextId.toNat = 1 := rfl
  rw [spawnStreamPool, Prog.always_bind]
  apply Prog.always_mono (spawnStreams_spawned (.inl rfl) 0 _ _ (spawned_empty arch) (by omega))
  rintro ⟨s, m⟩ _ ⟨hm, hnext⟩
  by_cases hs : ok s = true
  · simp only [hs, Bool.not_true, Bool.false_eq_true, ↓reduceIte, Prog.always_bind]
    refine Prog.always_mono (spawnStreams_spawned (.inr (.inl rfl)) (-1) _ m hm ?_) ?_
    · have hle : m.nextId.toNat ≤ 1 + nCompute.toNat := hnext
      omega
    rintro ⟨s', m'⟩ _ ⟨hm', hnext'⟩
    by_cases hs' : ok s' = true
    · simp only [hs', Bool.not_true, Bool.false_eq_true, ↓reduceIte]
      split
      · refine Prog.always_mono (spawnStreams_spawned (.inr (.inr rfl)) 1 1 m' hm' ?_)
          (fun r _ hr => hr.1)
        have hle : m.nextId.toNat ≤ 1 + nCompute.toNat := hnext
        have hle' : m'.nextId.toNat ≤ m.nextId.toNat + nDma.toNat := hnext'
        omega
      · exact hm'
    · rw [Bool.not_eq_true] at hs'
      simp only [hs', Bool.not_false, ↓reduceIte]
      exact hm'
  · rw [Bool.not_eq_true] at hs
    simp only [hs, Bool.not_false, ↓reduceIte]
    exact hm

end NexusRT.Firmware.MicroKernel

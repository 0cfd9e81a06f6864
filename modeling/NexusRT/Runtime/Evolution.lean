import NexusRT.Runtime.Sections
import NexusRT.Scheduler.Races

namespace NexusRT.Runtime

open Firmware Interleave Memory Prog Scheduler TokenOpt

/-- A whole call on a compression manager, whatever the driver answers. -/
inductive IlcCall (i i' : IlcManager) : Prop
  | tag (h : Ptr) (bytes : UInt64) (s : Status) (hcall : Yields (i.tag h bytes) (s, i'))
  | untag (h : Ptr) (s : Status) (hcall : Yields (i.untag h) (s, i'))
  | disable (s : Status) (hcall : Yields i.disable (s, i'))

/-- A whole call on a memory manager, whatever the driver answers. -/
inductive MemoryCall (m m' : MemoryManager) : Prop
  | alloc (bytes : UInt64) (hints : AllocHints) (out : Allocation) (now later : UInt64 → UInt64)
      (s : Status) (a : Allocation)
      (hcall : Yields (m.alloc bytes hints out now later) (s, a, m'))
  | free (a : Allocation) (s : Status) (hcall : Yields (m.free a) (s, m'))
  | destructor (hcall : Yields m.destructor m')

def recordOf (m : MemoryManager) : Live := ⟨m.live, m.bytesAllocated⟩

def Evolves : (m : Mutex) → m.State → m.State → Prop
  | .registry, h, h' => h' = h ∨ (∃ ctx, h' = { h with managed := ctx :: h.managed }) ∨
      (∃ k sp, h' = { h with registry := h.registry.insert k sp }) ∨
      ∃ k, h' = { h with registry := h.registry.erase k }
  | .dispatch, d, d' =>
      (∃ v impl, d' = d.registerBackend v impl) ∨ ∃ found, Yields d.probe (found, d')
  | .cudaStates, t, t' => ∃ ctx retain, t' = (t.state ctx retain).2
  | .metalStates, t, t' => t' = t ∨ ∃ ctx s, t.find ctx = none ∧ t' = t.insert ctx s
  | .buffers _, l, l' => l' = l ∨ (∃ p, l' = l ++ [p]) ∨ ∃ p, l' = l.erase p
  | .kernel _, m, m' =>
      (∃ c r, MicroKernel.Serves c m r m') ∨ Exec (allow anyBackend) m.drainStreams () m' ()
  | .ilc _, t, t' => ∃ i i', i.tagged = t ∧ IlcCall i i' ∧ i'.tagged = t'
  | .tma _, e, e' =>
      (∃ key a r, Yields (e.encodeWith key a) (r, e')) ∨ ∃ key, Yields (e.invalidate key) e'
  | .inject _, _, _ => True
  | .memory _, w, w' => ∃ m m', recordOf m = w ∧ MemoryCall m m' ∧ recordOf m' = w'
  | .pages _, t, t' => ∃ c : PageCall, t' = c.after t
  | .graph _, g, g' => ∃ dev c r, TaskGraph.Serves dev TaskGraph.anyKernel c g r g'
  | .scope _, s, s' => (∃ l spec, s' = s.setLayer l spec) ∨ (∃ n, s' = (s.step n).2) ∨
      (∃ kv bytes maxRes, s' = s.bindKvCache kv bytes maxRes) ∨ ∃ maxRes, s' = (s.pruneTo maxRes).2
  | .prefetcher _, _, _ => True
  | .poller _, _, _ => True

section Compression

theorem platform_yields {α : Type} (p : PlatformProg α) : ∃ a, Yields p a :=
  exists_yields (fun c => ⟨PlatformDispatch.nullPlatform c⟩) p

theorem evolves_disable (ctx : Ptr) (t : Table Ptr Unit) : Evolves (.ilc ctx) t .empty := by
  refine ⟨{ enabled := true, tagged := t }, { tagged := .empty }, rfl, .disable .ok ?_, rfl⟩
  obtain ⟨_, h⟩ := platform_yields (t.keys.forM fun h => do
    let _ ← Platform.ilcUntag h
    return ())
  exact h.bind ⟨rfl, rfl⟩

theorem tag_yields {i : IlcManager} (hi : i.enabled = true) (h : Ptr) (bytes : UInt64) (s : Status) :
    ∃ s' i', ok s' = ok s ∧ Yields (i.tag h bytes) (s', i') ∧
      i'.tagged = if ok s then i.tagged.insert h () else i.tagged := by
  rw [IlcManager.tag, hi]
  cases hs : ok s with
  | false =>
    refine ⟨s, i, hs, Yields.op_bind s ?_, rfl⟩
    rw [hs]
    exact ⟨rfl, rfl⟩
  | true =>
    refine ⟨.ok, {
      enabled := true
      tagged := i.tagged.insert h ()
      totalBytes := i.totalBytes + bytes
      totalAllocs := i.totalAllocs + 1 }, rfl, Yields.op_bind s ?_, rfl⟩
    rw [hs]
    exact ⟨rfl, rfl⟩

theorem evolves_tag (ctx : Ptr) (t : Table Ptr Unit) (h : Ptr) :
    Evolves (.ilc ctx) t (t.insert h ()) := by
  obtain ⟨s, i', _, hcall, htagged⟩ := tag_yields (i := { enabled := true, tagged := t }) rfl h 0 .ok
  exact ⟨_, i', rfl, .tag h 0 s hcall, htagged⟩

theorem evolves_untag (ctx : Ptr) (t : Table Ptr Unit) (h : Ptr) :
    Evolves (.ilc ctx) t (if t.contains h then t.erase h else t) := by
  let i : IlcManager := { enabled := true, tagged := t }
  have hcall : ∃ s, Yields (i.untag h) (s, { i with tagged := if t.contains h then t.erase h else t }) := by
    cases hcontains : t.contains h with
    | false =>
      refine ⟨.invalidArgument, ?_⟩
      simp only [IlcManager.untag, i, hcontains]
      exact ⟨rfl, rfl⟩
    | true =>
      refine ⟨.ok, ?_⟩
      simp only [IlcManager.untag, i, hcontains]
      exact Yields.op_bind .ok ⟨rfl, rfl⟩
  obtain ⟨s, hcall⟩ := hcall
  exact ⟨i, _, rfl, .untag h s hcall, rfl⟩

end Compression

section Memory

def Live.manager (w : Live) : MemoryManager := { live := w.live, bytesAllocated := w.bytesAllocated }

theorem tagIlc_yields {ctx : Ptr} {out out' : Allocation} (w : Live)
    (h : Yields (tagIlc ctx out) out') : ∃ m m', recordOf m = w ∧
      Yields (m.tagIlc out) (out', m') ∧ recordOf m' = w := by
  have hsame : out' = out → ∃ m m', recordOf m = w ∧
      Yields (m.tagIlc out) (out', m') ∧ recordOf m' = w := by
    rintro rfl
    exact ⟨w.manager, w.manager, rfl, ⟨rfl, rfl⟩, rfl⟩
  rw [tagIlc] at h
  split at h
  · exact hsame h.1
  · next hhint =>
    obtain ⟨sub, _, h⟩ := h.of_bind
    split at h
    · exact hsame h.1
    · obtain ⟨enabled, _, h⟩ := h.of_bind
      split at h
      · exact hsame h.1
      · obtain ⟨s, _, h⟩ := h.of_bind
        obtain ⟨s', i', hs, hcall, _⟩ := tag_yields (i := { enabled := true }) rfl out.hbmPtr out.bytes s
        refine ⟨{ w.manager with ilc := some { enabled := true } },
          { w.manager with ilc := some i' }, rfl, ?_, rfl⟩
        have hilc : out.hints.ilc = true := by simpa using hhint
        simp only [MemoryManager.tagIlc, hilc]
        refine hcall.bind ?_
        rw [h.1, ← hs]
        exact ⟨rfl, rfl⟩

theorem evolves_alloc (ctx : Ptr) {bytes : UInt64} {hints : AllocHints} {out a : Allocation}
    (now later : UInt64 → UInt64) {s : Status} {hbm : Ptr} (hbytes : bytes ≠ 0) (hs : ok s = true)
    (h : Yields (tagIlc ctx { out with vaddr := hbm, bytes, hints, hbmPtr := hbm }) a) (w : Live) :
    Evolves (.memory ctx) w ⟨w.live.insert hbm a, w.bytesAllocated + bytes⟩ := by
  obtain ⟨m, m', hm, htag, rfl⟩ := tagIlc_yields w h
  let m₁ : MemoryManager :=
    { m' with pageTable := (m'.pageTable.mapRange a.vaddr bytes .hbm hbm now).2 }
  let m₂ := if hints.readMostly then (m₁.adviseReadMostly hbm bytes later).2 else m₁
  have hrecord : recordOf m₂ = recordOf m' := by
    simp only [m₂]
    split <;> rfl
  refine ⟨m, { m₂ with
    live := m₂.live.insert hbm a
    bytesAllocated := m₂.bytesAllocated + bytes }, hm, .alloc bytes hints out now later .ok a ?_, ?_⟩
  · rw [MemoryManager.alloc, if_neg hbytes]
    refine Yields.op_bind (s, hbm) ?_
    dsimp only
    rw [hs]
    exact htag.bind ⟨rfl, rfl⟩
  · rw [← hrecord]
    rfl

theorem evolves_refuse (ctx : Ptr) {w : Live} {a : Allocation} (h : w.live.find a.hbmPtr = none) :
    Evolves (.memory ctx) w w := by
  refine ⟨w.manager, w.manager, rfl, .free a .invalidArgument ?_, rfl⟩
  rw [MemoryManager.free, show w.manager.live.find a.hbmPtr = none from h]
  exact ⟨rfl, rfl⟩

theorem evolves_free (ctx : Ptr) {w : Live} {a b : Allocation} (h : w.live.find a.hbmPtr = some b)
    (s : Status) : Evolves (.memory ctx) w
      (if ok s then ⟨w.live.erase a.hbmPtr, w.bytesAllocated - a.bytes⟩ else w) := by
  let m : MemoryManager :=
    { w.manager with pageTable := (w.manager.pageTable.unmapRange a.vaddr a.bytes).2 }
  have hfind : w.manager.live.find a.hbmPtr = some b := h
  cases hs : ok s with
  | false =>
    refine ⟨w.manager, m, rfl, .free a s ?_, rfl⟩
    rw [MemoryManager.free, hfind]
    refine Yields.op_bind s ?_
    rw [hs]
    exact ⟨rfl, rfl⟩
  | true =>
    refine ⟨w.manager, { m with
      live := m.live.erase a.hbmPtr
      bytesAllocated := m.bytesAllocated - a.bytes }, rfl, .free a .ok ?_, rfl⟩
    rw [MemoryManager.free, hfind]
    refine Yields.op_bind s ?_
    rw [hs]
    exact ⟨rfl, rfl⟩

theorem releaseEach_yields (as : List Allocation) {m : MemoryManager} (h : m.ilc = none) :
    Yields (MemoryManager.releaseEach as m) m := by
  induction as with
  | nil => exact ⟨rfl, rfl⟩
  | cons a as ih =>
    obtain ⟨_, hrelease⟩ := platform_yields (MemoryManager.releaseMemory a)
    refine hrelease.bind (Yields.bind (a := m) ?_ ih)
    rw [MemoryManager.untagIlc, h]
    exact ⟨rfl, rfl⟩

theorem evolves_destructor (ctx : Ptr) (w : Live) :
    Evolves (.memory ctx) w { w with live := .empty } := by
  refine ⟨w.manager, { w.manager with live := .empty }, rfl, .destructor ?_, rfl⟩
  exact (releaseEach_yields _ rfl).bind ⟨rfl, rfl⟩

end Memory

end NexusRT.Runtime

import NexusRT.Firmware.BootRelease
import NexusRT.Firmware.Shims
import NexusRT.Library.Guarded

namespace NexusRT.Firmware

open Prog Relation

/-- `state` stands for the lookup of the entry in the side table, with whether there is one. -/
inductive VmmCall
  | state
  | memAddressReserve (bytes : UInt64)
  | memCreate (bytes : UInt64)
  | memMap (ptr : Ptr) (bytes : UInt64) (h : Ptr)
  | memRelease (h : Ptr)
  | memSetAccess (ptr : Ptr) (bytes : UInt64)
  | memUnmap (ptr : Ptr) (bytes : UInt64)
  | memAddressFree (ptr : Ptr) (bytes : UInt64)
  deriving DecidableEq

abbrev VmmCall.Answer : VmmCall → Type
  | .state => Bool
  | .memAddressReserve _ => CuResult × Ptr
  | .memCreate _ => CuResult × Ptr
  | .memMap _ _ _ => CuResult
  | .memRelease _ => CuResult
  | .memSetAccess _ _ => CuResult
  | .memUnmap _ _ => CuResult
  | .memAddressFree _ _ => CuResult

abbrev VmmProg := Prog VmmCall VmmCall.Answer

abbrev VmmEvent := Event VmmCall VmmCall.Answer

structure PoolContext where
  device : DeviceDesc := {}
  hbmPoolBytes : UInt64 := 0
  vaddressBase : Ptr := 0
  vaddressSize : UInt64 := 0

namespace CudaPlatform

open VmmCall

def reserveVaddress (ctx : PoolContext) (bytes : UInt64) : VmmProg (Status × PoolContext) := do
  if !(← op VmmCall.state) then return (.invalidArgument, ctx) else
  if ctx.device.arch = .pascal ∨ ctx.device.arch = .turing then
    return (.ok, { ctx with vaddressBase := 0, vaddressSize := 0 }) else
  let (r, base) ← op (memAddressReserve bytes)
  if r ≠ .success then return (cuToStatus r, ctx) else
  return (.ok, { ctx with vaddressBase := base, vaddressSize := bytes })

def mapHbmPool (ctx : PoolContext) : VmmProg Status := do
  if !(← op VmmCall.state) then return .invalidArgument else
  if ctx.vaddressBase = 0 ∨ ctx.hbmPoolBytes = 0 then return .ok else
  let (r, h) ← op (memCreate ctx.hbmPoolBytes)
  if r ≠ .success then return cuToStatus r else
  let r ← op (memMap ctx.vaddressBase ctx.hbmPoolBytes h)
  if r ≠ .success then do
    let _ ← op (memRelease h)
    return cuToStatus r
  else
  let r ← op (memSetAccess ctx.vaddressBase ctx.hbmPoolBytes)
  return cuToStatus r

def releaseVaddress (ctx : PoolContext) : VmmProg (Status × PoolContext) := do
  if ctx.vaddressBase = 0 then return (.ok, ctx) else
  let _ ← op (memUnmap ctx.vaddressBase ctx.hbmPoolBytes)
  let _ ← op (memAddressFree ctx.vaddressBase ctx.hbmPoolBytes)
  return (.ok, { ctx with vaddressBase := 0, vaddressSize := 0 })

end CudaPlatform

structure PoolMapping where
  ptr : Ptr
  bytes : UInt64
  handle : Ptr

@[ext] structure Vmm where
  handles : List Ptr := []
  mappings : List PoolMapping := []

namespace Vmm

def apply (v : Vmm) : VmmEvent → Vmm
  | ⟨.memCreate _, (.success, h)⟩ => { v with handles := h :: v.handles }
  | ⟨.memMap ptr bytes h, .success⟩ => { v with mappings := ⟨ptr, bytes, h⟩ :: v.mappings }
  | ⟨.memRelease h, .success⟩ => { v with handles := v.handles.erase h }
  | ⟨.memUnmap ptr bytes, .success⟩ =>
    { v with mappings := v.mappings.filter fun m => ¬ (m.ptr = ptr ∧ m.bytes = bytes) }
  | _ => v

def after (v : Vmm) (t : List VmmEvent) : Vmm := t.foldl apply v

variable {r : CuResult}

theorem apply_memCreate_failed (v : Vmm) (bytes : UInt64) (h : Ptr) (hr : r ≠ .success) :
    v.apply ⟨.memCreate bytes, (r, h)⟩ = v := by
  cases r <;> first | rfl | exact absurd rfl hr

theorem apply_memMap_failed (v : Vmm) (ptr : Ptr) (bytes : UInt64) (h : Ptr) (hr : r ≠ .success) :
    v.apply ⟨.memMap ptr bytes h, r⟩ = v := by
  cases r <;> first | rfl | exact absurd rfl hr

theorem apply_memRelease_failed (v : Vmm) (h : Ptr) (hr : r ≠ .success) :
    v.apply ⟨.memRelease h, r⟩ = v := by
  cases r <;> first | rfl | exact absurd rfl hr

end Vmm

inductive PoolEvent
  | mapped (s : Status) (before after : Vmm)
  | released (after : Vmm)

def PoolEvent.Clean : PoolEvent → Prop
  | .mapped s before after => s ≠ .ok → after = before
  | .released after => after = {}

def anyDriver (c : VmmCall) (_ : c.Answer) : Prop := True

/-- `heard` are the calls of the driver, with its answers, since the context was booted or its
shutdown began. The log is ghost state. -/
structure PoolWorld where
  ctx : PoolContext := {}
  vmm : Vmm := {}
  heard : List VmmEvent := []
  log : List PoolEvent := []

/-- What the calls do to the pool. `init_hbm` sets the size of the pool to the bytes that it
reserves. -/
def PoolWorld.Serves : (c : PlatformCall) → PoolWorld → c.Answer → PoolWorld → Prop
  | .describeDevice _, w, d, w' => w' = { w with ctx := { device := d } }
  | .reserveVaddress bytes, w, s, w' => ∃ t ctx,
    Traces anyDriver (CudaPlatform.reserveVaddress { w.ctx with hbmPoolBytes := bytes } bytes) t
      (s, ctx) ∧
    w' = { w with ctx, vmm := w.vmm.after t, heard := w.heard ++ t }
  | .mapHbmPool, w, s, w' => ∃ t, Traces anyDriver (CudaPlatform.mapHbmPool w.ctx) t s ∧
    w' = { w with
      vmm := w.vmm.after t, heard := w.heard ++ t
      log := w.log ++ [.mapped s w.vmm (w.vmm.after t)] }
  | .releaseVaddress, w, s, w' => ∃ t ctx,
    Traces anyDriver (CudaPlatform.releaseVaddress w.ctx) t (s, ctx) ∧
    w' = { ctx, vmm := w.vmm.after t, heard := w.heard ++ t,
           log := w.log ++ [.released (w.vmm.after t)] }
  | _, w, _, w' => w' = w

structure Pools where
  ctx : Option PoolContext := none
  vmm : Vmm := {}
  log : List PoolEvent := []

inductive PoolAction
  | boot (opts : BootOptions) (heard : List VmmEvent)
  | shutdown

inductive PoolStep (s : Pools) : PoolAction → Pools → Prop
  | boot (hdown : s.ctx = none) (opts : BootOptions) (r : BootResult) (ev : List BootEvent)
      (w : PoolWorld)
      (h : Exec PoolWorld.Serves (boot opts) { vmm := s.vmm, log := s.log } (r, ev) w) :
      PoolStep s (.boot opts w.heard) ⟨r.ctx.map fun _ => w.ctx, w.vmm, w.log⟩
  | shutdown (pool : PoolContext) (hup : s.ctx = some pool) (ctx : FirmwareContext)
      (r : Status × FirmwareContext) (w : PoolWorld)
      (h : Exec PoolWorld.Serves (shutdown ctx) { ctx := pool, vmm := s.vmm, log := s.log } r w) :
      PoolStep s .shutdown ⟨none, w.vmm, w.log⟩

def Clean (s : Pools) : Prop := ∀ e ∈ s.log, e.Clean

def Settled (heard : List VmmEvent) : Prop :=
  ∀ bytes h, ⟨.memCreate bytes, (.success, h)⟩ ∈ heard →
    (∃ ptr, ⟨.memSetAccess ptr bytes, .success⟩ ∈ heard) ∨ ⟨.memRelease h, .success⟩ ∈ heard

def HoldsNothing (s : Pools) : PoolAction → Prop
  | .boot _ heard => Settled heard
  | .shutdown => s.vmm.handles = []

section Functions

variable {ctx ctx' : PoolContext} {s : Status} {t : List VmmEvent} {v : Vmm}

theorem settled_of_refused (h : ∀ bytes p, ⟨.memCreate bytes, (.success, p)⟩ ∉ t) : Settled t :=
  fun bytes p hmem => absurd hmem (h bytes p)

theorem reserveVaddress_heard {bytes : UInt64}
    (h : Traces anyDriver (CudaPlatform.reserveVaddress ctx bytes) t (s, ctx')) :
    v.after t = v ∧ ∀ c ∈ calls t, c = .state ∨ c = .memAddressReserve bytes := by
  rw [CudaPlatform.reserveVaddress, traces_op_bind] at h
  obtain ⟨found, u, _, rfl, h⟩ := h
  cases found with
  | false =>
    obtain ⟨rfl, _⟩ := h
    exact ⟨rfl, by simp⟩
  | true =>
    simp only [Bool.not_true, Bool.false_eq_true, ↓reduceIte] at h
    split at h
    · obtain ⟨rfl, _⟩ := h
      exact ⟨rfl, by simp⟩
    · rw [traces_op_bind] at h
      obtain ⟨⟨r, base⟩, w, _, rfl, h⟩ := h
      have hw : w = [] := by
        dsimp only at h
        split at h
        · exact h.1
        · exact h.1
      subst hw
      exact ⟨rfl, by simp⟩

theorem released_cases (v : Vmm) (bytes : UInt64) (ptr p : Ptr) {r : CuResult} (hmap : r ≠ .success)
    (r' : CuResult) (t : List VmmEvent) (ht : t = [⟨.state, true⟩, ⟨.memCreate bytes, (.success, p)⟩,
      ⟨.memMap ptr bytes p, r⟩, ⟨.memRelease p, r'⟩]) :
    (v.after t = v ∧ Settled t) ∨ ((v.after t).handles = p :: v.handles ∧ ¬ Settled t) := by
  subst ht
  by_cases hrelease : r' = .success
  · subst hrelease
    refine .inl ⟨?_, fun bytes p' hmem => .inr ?_⟩
    · simp only [Vmm.after, List.foldl_cons, List.foldl_nil, Vmm.apply_memMap_failed _ _ _ _ hmap]
      change ({ v with handles := (p :: v.handles).erase p } : Vmm) = v
      rw [List.erase_cons_head]
    · simp at hmem ⊢
      exact hmem.2
  · refine .inr ⟨?_, fun hsettled => ?_⟩
    · simp only [Vmm.after, List.foldl_cons, List.foldl_nil, Vmm.apply_memMap_failed _ _ _ _ hmap,
        Vmm.apply_memRelease_failed _ _ hrelease]
      rfl
    · have hend := hsettled _ p (List.mem_cons_of_mem _ List.mem_cons_self)
      simp [Ne.symm hrelease] at hend

theorem mapHbmPool_cases (v : Vmm) (h : Traces anyDriver (CudaPlatform.mapHbmPool ctx) t s) :
    (v.after t = v ∧ Settled t) ∨
      ((∃ p, (v.after t).handles = p :: v.handles) ∧ (s = .ok ↔ Settled t)) := by
  rw [CudaPlatform.mapHbmPool, traces_op_bind] at h
  obtain ⟨found, u, _, rfl, h⟩ := h
  cases found with
  | false =>
    obtain ⟨rfl, _⟩ := h
    exact .inl ⟨rfl, settled_of_refused (by simp)⟩
  | true =>
    simp only [Bool.not_true, Bool.false_eq_true, ↓reduceIte] at h
    split at h
    · obtain ⟨rfl, _⟩ := h
      exact .inl ⟨rfl, settled_of_refused (by simp)⟩
    rw [traces_op_bind] at h
    obtain ⟨⟨r, p⟩, u, _, rfl, h⟩ := h
    by_cases hcreate : r = .success
    · subst hcreate
      simp only [ne_eq, not_true_eq_false, ↓reduceIte] at h
      rw [traces_op_bind] at h
      obtain ⟨r, u, _, rfl, h⟩ := h
      split at h
      · next hmap =>
        obtain ⟨r', _, _, rfl, rfl, rfl⟩ := h
        rcases released_cases v _ _ p hmap r' _ rfl with hkept | ⟨hheld, hnot⟩
        · exact .inl hkept
        · exact .inr ⟨⟨p, hheld⟩, iff_of_false (mt CudaPlatform.cuToStatus_eq_ok.mp hmap) hnot⟩
      · next hmap =>
        -- the handle is held from here on, also where `cuMemSetAccess` fails
        obtain ⟨r', _, _, rfl, rfl, rfl⟩ := h
        obtain rfl := not_not.mp hmap
        refine .inr ⟨⟨p, rfl⟩, ?_⟩
        rw [CudaPlatform.cuToStatus_eq_ok]
        constructor
        · rintro rfl bytes p' hmem
          left
          simp at hmem ⊢
          exact hmem.1
        · intro hsettled
          have hend := hsettled _ p (List.mem_cons_of_mem _ List.mem_cons_self)
          simpa [eq_comm] using hend
    · rw [if_pos hcreate] at h
      obtain ⟨rfl, _⟩ := h
      left
      constructor
      · change (Vmm.apply v ⟨.memCreate _, (r, p)⟩) = v
        exact Vmm.apply_memCreate_failed v _ p hcreate
      · exact settled_of_refused (by simp [Ne.symm hcreate])

end Functions

def Spares : PlatformCall → Prop
  | .describeDevice _ | .reserveVaddress _ | .mapHbmPool | .releaseVaddress => False
  | _ => True

theorem serves_spared {c : PlatformCall} {w w' : PoolWorld} {r : c.Answer} (hc : Spares c)
    (h : PoolWorld.Serves c w r w') : w' = w := by
  cases c <;> first | exact h | exact hc.elim

theorem exec_spared {α : Type} {p : PlatformProg α} {w w' : PoolWorld} {a : α} (hp : Only Spares p)
    (h : Exec PoolWorld.Serves p w a w') : w' = w := by
  apply hp.exec_invariant (I := (· = w)) _ h rfl
  rintro c _ r u hc hserves rfl
  exact serves_spared hc hserves

section Spares

variable {opts : BootOptions} {d : DeviceDesc} {ctx : FirmwareContext}

theorem registerDma_spares : Only Spares (registerDma d opts ctx) := by
  have hgds (e : DmaEngine) : Only Spares (registerGds d opts e) :=
    .ite (.ite trivial (.op_bind trivial fun _ => trivial)) trivial
  have hgrdma (e : DmaEngine) : Only Spares (registerGrdma d opts e) :=
    .ite (.ite trivial (.op_bind trivial fun _ => trivial)) trivial
  exact (hgds _).bind fun r => .ite trivial ((hgrdma r.2).bind fun _ => trivial)

theorem spawnStreams_spares (klass : StreamClass) (priority : Int32) (n : ℕ) (m : MicroKernel) :
    Only Spares (MicroKernel.spawnStreams klass priority n m) := by
  induction n generalizing m with
  | zero => exact trivial
  | succ n ih => exact .op_bind trivial fun _ => .ite trivial (ih _)

theorem spawnStreamPool_spares (m : MicroKernel) (nCompute nDma : UInt32) :
    Only Spares (m.spawnStreamPool nCompute nDma) := by
  refine (spawnStreams_spares _ _ _ _).bind fun r => Only.ite trivial ?_
  refine (spawnStreams_spares _ _ _ _).bind fun r => Only.ite trivial ?_
  exact .ite (spawnStreams_spares _ _ _ _) trivial

theorem install_spares (f : FaultHandler) : Only Spares (f.install d) :=
  .ite trivial (.op_bind trivial fun _ => .ite trivial (.op_bind trivial fun _ => trivial))

theorem bootSubsystems_spares (ev : List BootEvent) :
    Only Spares (bootSubsystems d opts ctx ev) := by
  refine registerDma_spares.bind fun r => Only.ite trivial ?_
  refine Only.bind ((spawnStreamPool_spares _ _ _).bind fun _ => trivial) fun r =>
    Only.ite trivial ?_
  refine Only.bind ((install_spares _).bind fun _ => trivial) fun r => Only.ite trivial ?_
  exact trivial

theorem uninstallFaults_spares : Only Spares ctx.uninstallFaults := by
  rw [FirmwareContext.uninstallFaults]
  cases ctx.faults with
  | none => exact trivial
  | some f =>
    have huninstall : Only Spares f.uninstall :=
      .ite trivial ⟨trivial, fun _ => ⟨trivial, fun _ => trivial⟩⟩
    exact huninstall.bind fun _ => trivial

theorem drainStreams_spares : Only Spares ctx.drainStreams := by
  rw [FirmwareContext.drainStreams]
  cases ctx.microkernel with
  | none => exact trivial
  | some m =>
    have hdestroy (v : List StreamHandle) : Only Spares (MicroKernel.destroyStreams v) := by
      apply Only.forM
      exact fun _ => ⟨trivial, fun _ => trivial⟩
    refine Only.bind ?_ fun _ => trivial
    exact (hdestroy _).bind fun _ => (hdestroy _).bind fun _ => (hdestroy _).bind fun _ => trivial

theorem shutdownDma_spares : Only Spares ctx.shutdownDma := by
  rw [FirmwareContext.shutdownDma]
  cases ctx.dma with
  | none => exact trivial
  | some e =>
    have hgrdma : Only Spares e.finiGrdma := .ite trivial (.op_bind trivial fun _ => trivial)
    have hgds (e : DmaEngine) : Only Spares e.finiGds :=
      .ite trivial (.op_bind trivial fun _ => trivial)
    exact (hgrdma.bind hgds).bind fun _ => trivial

theorem disableIlc_spares : Only Spares ctx.disableIlc := by
  rw [FirmwareContext.disableIlc]
  cases ctx.ilc with
  | none => exact trivial
  | some i =>
    have hdisable : Only Spares i.disable := by
      refine Only.ite trivial (Only.bind (Only.forM ?_ _) fun _ => trivial)
      exact fun _ => ⟨trivial, fun _ => trivial⟩
    exact hdisable.bind fun _ => trivial

end Spares

section Actions

variable {vmm : Vmm} {log : List PoolEvent} {w w' : PoolWorld}

theorem probeDriver_pool {opts : BootOptions} {r : Status × DeviceDesc}
    (h : Exec PoolWorld.Serves (probeDriver opts) w r w') : ∃ ctx, w' = { w with ctx } := by
  rw [probeDriver, Platform.probe, exec_op_bind] at h
  obtain ⟨found, _, rfl, h⟩ := h
  cases found with
  | false =>
    obtain ⟨_, rfl⟩ := h
    exact ⟨w'.ctx, rfl⟩
  | true =>
    simp only [Bool.not_true, Bool.false_eq_true, ↓reduceIte, Platform.describeDevice,
      exec_op_bind] at h
    obtain ⟨d, _, rfl, h⟩ := h
    refine ⟨{ device := d }, ?_⟩
    split at h
    · exact h.2
    · exact h.2

theorem exec_unless {α : Type} {s : Status} {a b : α} {p : PlatformProg α}
    (h : Exec PoolWorld.Serves (if !ok s then pure a else p) w b w') :
    (s ≠ .ok ∧ b = a ∧ w' = w) ∨ (s = .ok ∧ Exec PoolWorld.Serves p w b w') := by
  by_cases hs : s = .ok
  · subst hs
    exact .inr ⟨rfl, h⟩
  · have hok : ok s = false := by simpa using hs
    simp only [hok, Bool.not_false, ↓reduceIte] at h
    exact .inl ⟨hs, h.1, h.2⟩

def Mapped (vmm : Vmm) (log : List PoolEvent) (w : PoolWorld) : Prop :=
  (w.vmm = vmm ∧ w.log = log ∧ Settled w.heard) ∨
    ∃ pool t s, Traces anyDriver (CudaPlatform.mapHbmPool pool) t s ∧ w.vmm = vmm.after t ∧
      w.log = log ++ [.mapped s vmm (vmm.after t)] ∧ (Settled w.heard ↔ Settled t)

theorem settled_append {t u : List VmmEvent} {bytes : UInt64}
    (ht : ∀ c ∈ calls t, c = .state ∨ c = .memAddressReserve bytes) :
    Settled (t ++ u) ↔ Settled u := by
  have hnot (e : VmmEvent) (he : e.1 ≠ .state ∧ e.1 ≠ .memAddressReserve bytes) :
      e ∈ t ++ u ↔ e ∈ u := by
    rw [List.mem_append, or_iff_right]
    intro hmem
    rcases ht e.1 (List.mem_map_of_mem hmem) with hstate | hreserve
    · exact he.1 hstate
    · exact he.2 hreserve
  have hcreate (bytes : UInt64) (p : Ptr) : (⟨.memCreate bytes, (.success, p)⟩ : VmmEvent) ∈ t ++ u ↔
      ⟨.memCreate bytes, (.success, p)⟩ ∈ u := hnot _ ⟨nofun, nofun⟩
  have haccess (ptr : Ptr) (bytes : UInt64) : (⟨.memSetAccess ptr bytes, .success⟩ : VmmEvent) ∈
      t ++ u ↔ ⟨.memSetAccess ptr bytes, .success⟩ ∈ u := hnot _ ⟨nofun, nofun⟩
  have hrelease (p : Ptr) : (⟨.memRelease p, .success⟩ : VmmEvent) ∈ t ++ u ↔
      ⟨.memRelease p, .success⟩ ∈ u := hnot _ ⟨nofun, nofun⟩
  simp only [Settled, hcreate, haccess, hrelease]

theorem settled_reserved {t : List VmmEvent} {bytes : UInt64}
    (ht : ∀ c ∈ calls t, c = .state ∨ c = .memAddressReserve bytes) : Settled t := by
  rw [← List.append_nil t, settled_append ht]
  exact settled_of_refused (by simp)

theorem initHbm_pool {d : DeviceDesc} {ctx : FirmwareContext} {r : Status × FirmwareContext}
    (h : Exec PoolWorld.Serves (initHbm d ctx) w r w') (hheard : w.heard = []) :
    Mapped w.vmm w.log w' := by
  rw [initHbm, Platform.reserveVaddress, exec_op_bind] at h
  obtain ⟨s₁, _, ⟨t₁, pool, hreserve, rfl⟩, h⟩ := h
  obtain ⟨hkept, ht₁⟩ := reserveVaddress_heard (v := w.vmm) hreserve
  rw [hheard, List.nil_append, hkept] at h
  rcases exec_unless h with ⟨_, _, rfl⟩ | ⟨_, s₂, _, ⟨t₂, hmap, rfl⟩, _, rfl⟩
  · exact .inl ⟨rfl, rfl, settled_reserved ht₁⟩
  · exact .inr ⟨pool, t₂, s₂, hmap, rfl, rfl, settled_append ht₁⟩

theorem boot_pool {opts : BootOptions} {r : BootResult × List BootEvent}
    (h : Exec PoolWorld.Serves (boot opts) { vmm, log } r w) : Mapped vmm log w := by
  have hnothing {ctx : PoolContext} : Mapped vmm log { ctx, vmm, log } :=
    .inl ⟨rfl, rfl, settled_of_refused (by simp)⟩
  rw [boot, exec_bind] at h
  obtain ⟨⟨s₁, d⟩, _, hprobe, h⟩ := h
  obtain ⟨pool, rfl⟩ := probeDriver_pool hprobe
  rcases exec_unless h with ⟨_, _, rfl⟩ | ⟨_, h⟩
  · exact hnothing
  · rw [Platform.lockClocks, exec_op_bind] at h
    obtain ⟨s₂, _, rfl, h⟩ := h
    rw [exec_bind] at h
    obtain ⟨⟨s₃, ctx⟩, w₁, hinit, h⟩ := h
    have hmapped := initHbm_pool hinit rfl
    rcases exec_unless h with ⟨_, _, rfl⟩ | ⟨_, h⟩
    · exact hmapped
    · obtain rfl := exec_spared (bootSubsystems_spares _) h
      exact hmapped

theorem releaseVaddress_heard {ctx ctx' : PoolContext} {s : Status} {t : List VmmEvent} (v : Vmm)
    (h : Traces anyDriver (CudaPlatform.releaseVaddress ctx) t (s, ctx')) :
    (v.after t).handles = v.handles ∧ (v.after t).mappings ⊆ v.mappings := by
  rw [CudaPlatform.releaseVaddress] at h
  split at h
  · obtain ⟨rfl, _⟩ := h
    exact ⟨rfl, .refl _⟩
  · obtain ⟨r, _, _, rfl, r', _, _, rfl, rfl, _⟩ := h
    change (v.apply ⟨.memUnmap _ _, r⟩).handles = _ ∧ (v.apply ⟨.memUnmap _ _, r⟩).mappings ⊆ _
    cases r with
    | success => exact ⟨rfl, fun _ hm => List.mem_of_mem_filter hm⟩
    | _ => exact ⟨rfl, .refl _⟩

theorem shutdown_pool {ctx : FirmwareContext} {r : Status × FirmwareContext}
    (h : Exec PoolWorld.Serves (shutdown ctx) w r w') :
    w'.vmm.handles = w.vmm.handles ∧ w'.vmm.mappings ⊆ w.vmm.mappings ∧
      w'.log = w.log ++ [.released w'.vmm] := by
  rw [shutdown, exec_bind] at h
  obtain ⟨⟨last, ctx₁⟩, _, hfaults, h⟩ := h
  obtain rfl := exec_spared uninstallFaults_spares hfaults
  rw [exec_bind] at h
  obtain ⟨ctx₂, _, hdrain, h⟩ := h
  obtain rfl := exec_spared drainStreams_spares hdrain
  rw [exec_bind] at h
  obtain ⟨ctx₃, _, hdma, h⟩ := h
  obtain rfl := exec_spared shutdownDma_spares hdma
  rw [exec_bind] at h
  obtain ⟨ctx₄, _, hilc, h⟩ := h
  obtain rfl := exec_spared disableIlc_spares hilc
  obtain ⟨s, _, ⟨t, pool, hrelease, rfl⟩, _, rfl⟩ := h
  obtain ⟨hhandles, hmappings⟩ := releaseVaddress_heard _ hrelease
  exact ⟨hhandles, hmappings, rfl⟩

end Actions

structure PoolInv (s : Pools) : Prop where
  clean : Clean s
  backed : s.vmm.handles = [] → s.vmm.mappings = []

theorem clean_concat {ctx : Option PoolContext} {vmm : Vmm} {log : List PoolEvent} {e : PoolEvent} :
    Clean ⟨ctx, vmm, log ++ [e]⟩ ↔ (∀ e ∈ log, e.Clean) ∧ e.Clean := by
  rw [Clean, List.forall_mem_append, List.forall_mem_singleton]

theorem boot_clean {s : Pools} {w : PoolWorld} (hi : PoolInv s) (ctx : Option PoolContext)
    (h : Mapped s.vmm s.log w) : (Clean ⟨ctx, w.vmm, w.log⟩ ↔ Settled w.heard) ∧
      (Settled w.heard → PoolInv ⟨ctx, w.vmm, w.log⟩) := by
  rcases w with ⟨pool, vmm, heard, log⟩
  rcases h with ⟨rfl, rfl, hsettled⟩ | ⟨pool, t, st, hmap, rfl, rfl, hheard⟩
  · exact ⟨iff_of_true hi.clean hsettled, fun _ => ⟨hi.clean, hi.backed⟩⟩
  dsimp only at hheard ⊢
  rw [hheard]
  rcases mapHbmPool_cases s.vmm hmap with ⟨hkept, hsettled⟩ | ⟨⟨p, hheld⟩, hok⟩
  · have hclean : Clean ⟨ctx, s.vmm.after t, s.log ++ [.mapped st s.vmm (s.vmm.after t)]⟩ :=
      clean_concat.mpr ⟨hi.clean, fun _ => hkept⟩
    refine ⟨iff_of_true hclean hsettled, fun _ => ⟨hclean, ?_⟩⟩
    dsimp only
    rw [hkept]
    exact hi.backed
  · have hnew : s.vmm.after t ≠ s.vmm := fun hkept => by simp [hkept] at hheld
    have hclean : Clean ⟨ctx, s.vmm.after t, s.log ++ [.mapped st s.vmm (s.vmm.after t)]⟩ ↔
        Settled t := by
      rw [clean_concat, and_iff_right (show ∀ e ∈ s.log, e.Clean from hi.clean), ← hok, PoolEvent.Clean]
      exact ⟨fun hfails => not_not.mp fun hs => hnew (hfails hs), fun hs hfails => absurd hs hfails⟩
    refine ⟨hclean, fun hsettled => ⟨hclean.mpr hsettled, fun hnone => ?_⟩⟩
    rw [hheld] at hnone
    cases hnone

theorem shutdown_clean {s : Pools} {w : PoolWorld} (hi : PoolInv s)
    (hhandles : w.vmm.handles = s.vmm.handles) (hmappings : w.vmm.mappings ⊆ s.vmm.mappings)
    (hlog : w.log = s.log ++ [.released w.vmm]) :
    (Clean ⟨none, w.vmm, w.log⟩ ↔ s.vmm.handles = []) ∧
      (s.vmm.handles = [] → PoolInv ⟨none, w.vmm, w.log⟩) := by
  have hnone (hheld : s.vmm.handles = []) : w.vmm = {} := by
    rw [hi.backed hheld] at hmappings
    exact Vmm.ext (hhandles.trans hheld) (List.subset_nil.mp hmappings)
  have hclean : Clean ⟨none, w.vmm, w.log⟩ ↔ s.vmm.handles = [] := by
    rw [hlog, clean_concat, and_iff_right (show ∀ e ∈ s.log, e.Clean from hi.clean)]
    constructor
    · intro hreleased
      rw [← hhandles, show w.vmm = {} from hreleased]
    · exact hnone
  refine ⟨hclean, fun hheld => ⟨hclean.mpr hheld, fun _ => ?_⟩⟩
  dsimp only
  rw [hnone hheld]

theorem holdsNothing_exact : ExactGuard PoolStep HoldsNothing PoolInv Clean := by
  apply ExactGuard.of_iff fun _ hi => hi.clean
  intro s c s' hi h
  cases h with
  | boot hdown opts r ev w h => exact boot_clean hi _ (boot_pool h)
  | shutdown pool hup ctx r w h =>
    obtain ⟨hhandles, hmappings, hlog⟩ := shutdown_pool h
    exact shutdown_clean hi hhandles hmappings hlog

theorem pool_returned (s : Pools) (h : GuardedRun PoolStep HoldsNothing {} s) :
    Clean s ∧ ∀ c s', PoolStep s c s' → (Clean s' ↔ HoldsNothing s c) :=
  h.good_iff holdsNothing_exact ⟨by simp [Clean], fun _ => rfl⟩

def poolBackend (d : DeviceDesc) (f : (c : VmmCall) → c.Answer) :
    (c : PlatformCall) → PoolWorld → c.Answer × PoolWorld
  | .describeDevice _, w => (d, { w with ctx := { device := d } })
  | .reserveVaddress bytes, w =>
    let (t, s, ctx) :=
      traceWith f (CudaPlatform.reserveVaddress { w.ctx with hbmPoolBytes := bytes } bytes)
    (s, { w with ctx, vmm := w.vmm.after t, heard := w.heard ++ t })
  | .mapHbmPool, w =>
    let (t, s) := traceWith f (CudaPlatform.mapHbmPool w.ctx)
    (s, { w with
      vmm := w.vmm.after t, heard := w.heard ++ t
      log := w.log ++ [.mapped s w.vmm (w.vmm.after t)] })
  | .releaseVaddress, w =>
    let (t, s, ctx) := traceWith f (CudaPlatform.releaseVaddress w.ctx)
    (s, { ctx, vmm := w.vmm.after t, heard := w.heard ++ t,
          log := w.log ++ [.released (w.vmm.after t)] })
  | c, w => (succeedingBackend d c, w)

theorem serves_poolBackend (d : DeviceDesc) (f : (c : VmmCall) → c.Answer) (c : PlatformCall)
    (w : PoolWorld) : PoolWorld.Serves c w (poolBackend d f c w).1 (poolBackend d f c w).2 := by
  have htraces {α : Type} (p : VmmProg α) :
      Traces anyDriver p (traceWith f p).1 (traceWith f p).2 := traces_traceWith (fun _ => trivial) p
  cases c with
  | reserveVaddress bytes => exact ⟨_, _, htraces _, rfl⟩
  | mapHbmPool => exact ⟨_, htraces _, rfl⟩
  | releaseVaddress => exact ⟨_, _, htraces _, rfl⟩
  | _ => rfl

def pooled : DeviceDesc where
  vendor := .nvidia
  arch := .ampere
  hbmCapacityBytes := 1000

def vmmDriver (map : CuResult) : (c : VmmCall) → c.Answer
  | .state => true
  | .memAddressReserve _ => (.success, 0x7000)
  | .memCreate _ => (.success, 5)
  | .memMap _ _ _ => map
  | .memRelease _ => .success
  | .memSetAccess _ _ => .success
  | .memUnmap _ _ => .success
  | .memAddressFree _ _ => .success

def bootedPools (map : CuResult) : Pools :=
  let (r, w) := eval (poolBackend pooled (vmmDriver map)) (boot {}) {}
  ⟨r.1.ctx.map fun _ => w.ctx, w.vmm, w.log⟩

def poolShutdown (map : CuResult) : (Status × FirmwareContext) × PoolWorld :=
  let s := bootedPools map
  eval (poolBackend pooled (vmmDriver map)) (shutdown { device := pooled })
    { ctx := s.ctx.getD {}, vmm := s.vmm, log := s.log }

def downPools (map : CuResult) : Pools :=
  ⟨none, (poolShutdown map).2.vmm, (poolShutdown map).2.log⟩

theorem step_bootedPools (map : CuResult) : PoolStep {}
    (.boot {} (eval (poolBackend pooled (vmmDriver map)) (boot {}) {}).2.heard) (bootedPools map) := by
  have hboot := exec_eval (serves_poolBackend pooled (vmmDriver map)) (boot {}) {}
  rw [bootedPools]
  -- the run stays closed, or the unifier boots the context
  generalize eval (poolBackend pooled (vmmDriver map)) (boot {}) {} = run at hboot ⊢
  exact .boot rfl {} run.1.1 run.1.2 run.2 hboot

theorem step_downPools (map : CuResult)
    (hup : (bootedPools map).ctx = some ((bootedPools map).ctx.getD {})) :
    PoolStep (bootedPools map) .shutdown (downPools map) :=
  .shutdown _ hup { device := pooled } (poolShutdown map).1 (poolShutdown map).2
    (exec_eval (serves_poolBackend pooled (vmmDriver map)) (shutdown { device := pooled }) _)

theorem pool_returned_unmapped :
    GuardedRun PoolStep HoldsNothing {} (downPools .outOfMemory) ∧ Clean (downPools .outOfMemory) ∧
      (downPools .outOfMemory).log.length = 2 := by
  have hlog : (bootedPools .outOfMemory).log = [.mapped .outOfMemory {} {}] := by rfl
  have hboot := step_bootedPools .outOfMemory
  have hsettled := ((pool_returned {} .refl).2 _ _ hboot).mp (by simp [Clean, hlog, PoolEvent.Clean])
  have hdown := step_downPools .outOfMemory rfl
  have hrun : GuardedRun PoolStep HoldsNothing {} (downPools .outOfMemory) :=
    .tail (.single ⟨_, hboot, hsettled⟩) ⟨_, hdown, rfl⟩
  exact ⟨hrun, (pool_returned _ hrun).1, rfl⟩

theorem pool_kept : ¬ ∀ s, ReflTransGen (fun s s' => ∃ c, PoolStep s c s') {} s → Clean s := by
  intro hall
  have hclean := hall _ (.tail (.single ⟨_, step_bootedPools .success⟩)
    ⟨_, step_downPools .success rfl⟩)
  have hreleased := hclean (.released { handles := [5] }) (by
    rw [show (downPools .success).log = [.mapped .ok {} ⟨[5], [⟨0x7000, 850, 5⟩]⟩,
      .released { handles := [5] }] from rfl]
    simp)
  cases hreleased

end NexusRT.Firmware

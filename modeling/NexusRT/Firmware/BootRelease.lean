import NexusRT.Firmware.Resources

namespace NexusRT.Firmware

open Prog MicroKernel

def FirmwareContext.resources (ctx : FirmwareContext) : List Resource :=
  ctx.releaseCalls.filterMap releases

def MicroKernel.resources (m : MicroKernel) : List Resource := m.releaseCalls.filterMap releases

def DmaEngine.resources (e : DmaEngine) : List Resource := e.releaseCalls.filterMap releases

variable {A : (c : PlatformCall) → c.Answer → Prop} {t : List PlatformEvent}

theorem MicroKernel.resources_eq (m : MicroKernel) :
    m.resources = m.all.map fun h => .stream h.raw := by
  rw [resources, releaseCalls, List.filterMap_map]
  exact congrFun List.filterMap_eq_map m.all

theorem probeDriver_traces {opts : BootOptions} {s : Status} {d : DeviceDesc}
    (h : Traces A (probeDriver opts) t (s, d)) : released t = [] ∧ acquired t = [] := by
  rw [probeDriver, Platform.probe, traces_op_bind] at h
  obtain ⟨found, u, _, rfl, h⟩ := h
  cases found with
  | false =>
    obtain ⟨rfl, _⟩ := h
    exact ⟨rfl, rfl⟩
  | true =>
    simp only [Bool.not_true, Bool.false_eq_true, ↓reduceIte, Platform.describeDevice,
      traces_op_bind] at h
    obtain ⟨out, v, _, rfl, h⟩ := h
    split at h <;>
      · obtain ⟨rfl, _⟩ := h
        exact ⟨rfl, rfl⟩

theorem initHbm_traces {d : DeviceDesc} {ctx ctx' : FirmwareContext} {s : Status}
    (h : Traces A (initHbm d ctx) t (s, ctx')) :
    released t = [] ∧ (∃ hbmPoolBytes, ctx' = { ctx with hbmPoolBytes }) ∧
      ((acquired t = [] ∧ s ≠ .ok) ∨ acquired t = [.vaddress]) := by
  rw [initHbm, Platform.reserveVaddress, traces_op_bind] at h
  obtain ⟨s₁, u, _, rfl, h⟩ := h
  rcases traces_unless h with ⟨hs, rfl, hret⟩ | ⟨rfl, hmap⟩
  · obtain ⟨rfl, rfl⟩ := Prod.mk.inj hret
    refine ⟨rfl, ⟨_, rfl⟩, .inl ⟨?_, hs⟩⟩
    have hok : ok s = false := by simpa using hs
    simp [acquired, acquires, hok]
  · rw [Platform.mapHbmPool, traces_op_bind] at hmap
    obtain ⟨s₂, u, _, rfl, rfl, hret⟩ := hmap
    obtain ⟨rfl, rfl⟩ := Prod.mk.inj hret
    exact ⟨rfl, ⟨_, rfl⟩, .inr rfl⟩

theorem enableGds_traces {e e' : DmaEngine} {s : Status} (h : Traces A e.enableGds t (s, e')) :
    (e.device.features.gds = false ∧ t = [] ∧ s = .notImplemented ∧ e' = e) ∨
      (e.device.features.gds = true ∧ A .gdsInit s ∧ t = [⟨.gdsInit, s⟩] ∧
        e' = if ok s then { e with gdsEnabled := true } else e) := by
  rw [DmaEngine.enableGds] at h
  rcases traces_guarded_op.mp h with ⟨hnot, rfl, hret⟩ | ⟨hhas, s₁, hA, rfl, hret⟩
  · obtain ⟨rfl, rfl⟩ := Prod.mk.inj hret
    exact .inl ⟨hnot, rfl, rfl, rfl⟩
  · obtain ⟨rfl, rfl⟩ := Prod.mk.inj hret
    exact .inr ⟨hhas, hA, rfl, rfl⟩

theorem enableGrdma_traces {e e' : DmaEngine} {s : Status} (h : Traces A e.enableGrdma t (s, e')) :
    (e.device.features.grdma = false ∧ t = [] ∧ s = .notImplemented ∧ e' = e) ∨
      (e.device.features.grdma = true ∧ A .grdmaInit s ∧ t = [⟨.grdmaInit, s⟩] ∧
        e' = if ok s then { e with grdmaEnabled := true } else e) := by
  rw [DmaEngine.enableGrdma] at h
  rcases traces_guarded_op.mp h with ⟨hnot, rfl, hret⟩ | ⟨hhas, s₁, hA, rfl, hret⟩
  · obtain ⟨rfl, rfl⟩ := Prod.mk.inj hret
    exact .inl ⟨hnot, rfl, rfl, rfl⟩
  · obtain ⟨rfl, rfl⟩ := Prod.mk.inj hret
    exact .inr ⟨hhas, hA, rfl, rfl⟩

theorem registerGds_traces {d : DeviceDesc} {opts : BootOptions} {e e' : DmaEngine} {s : Status}
    (h : Traces A (registerGds d opts e) t (s, e')) (hnot : e.gdsEnabled = false) :
    released t = [] ∧ e'.grdmaEnabled = e.grdmaEnabled ∧
      acquired t = if e'.gdsEnabled then [.gds] else [] := by
  rw [registerGds] at h
  split at h
  · rcases enableGds_traces h with ⟨_, rfl, _, rfl⟩ | ⟨_, _, rfl, rfl⟩
    · exact ⟨rfl, rfl, by simp [hnot]⟩
    · cases hok : ok s <;> simp [acquired, acquires, released, releases, hok, hnot]
  · obtain ⟨rfl, hret⟩ := h
    obtain ⟨rfl, rfl⟩ := Prod.mk.inj hret
    exact ⟨rfl, rfl, by simp [hnot]⟩

theorem registerGrdma_traces {d : DeviceDesc} {opts : BootOptions} {e e' : DmaEngine} {s : Status}
    (h : Traces A (registerGrdma d opts e) t (s, e')) (hnot : e.grdmaEnabled = false) :
    released t = [] ∧ e'.gdsEnabled = e.gdsEnabled ∧
      acquired t = if e'.grdmaEnabled then [.grdma] else [] := by
  rw [registerGrdma] at h
  split at h
  · rcases enableGrdma_traces h with ⟨_, rfl, _, rfl⟩ | ⟨_, _, rfl, rfl⟩
    · exact ⟨rfl, rfl, by simp [hnot]⟩
    · cases hok : ok s <;> simp [acquired, acquires, released, releases, hok, hnot]
  · obtain ⟨rfl, hret⟩ := h
    obtain ⟨rfl, rfl⟩ := Prod.mk.inj hret
    exact ⟨rfl, rfl, by simp [hnot]⟩

theorem DmaEngine.resources_eq (e : DmaEngine) : e.resources =
    (if e.grdmaEnabled then [.grdma] else []) ++ (if e.gdsEnabled then [.gds] else []) := by
  cases hgrdma : e.grdmaEnabled <;> cases hgds : e.gdsEnabled <;>
    simp [resources, releaseCalls, releases, hgrdma, hgds]

theorem registerDma_traces {d : DeviceDesc} {opts : BootOptions} {ctx ctx' : FirmwareContext}
    {s : Status} (h : Traces A (registerDma d opts ctx) t (s, ctx')) :
    released t = [] ∧ ∃ e : DmaEngine, ctx' = { ctx with dma := some e } ∧
      (acquired t).Perm e.resources := by
  rw [registerDma, traces_bind] at h
  obtain ⟨t₁, u, ⟨s₁, e₁⟩, rfl, hgds, h⟩ := h
  obtain ⟨hrel₁, hgrdma, hacq₁⟩ := registerGds_traces hgds rfl
  rcases traces_unless h with ⟨_, rfl, hret⟩ | ⟨rfl, hrest⟩
  · obtain ⟨rfl, rfl⟩ := Prod.mk.inj hret
    refine ⟨by simpa using hrel₁, e₁, rfl, ?_⟩
    have hoff : e₁.grdmaEnabled = false := hgrdma
    simp [DmaEngine.resources_eq, hacq₁, hoff]
  · rw [traces_bind] at hrest
    obtain ⟨t₂, u, ⟨s₂, e₂⟩, rfl, hgrdma₂, rfl, hret⟩ := hrest
    obtain ⟨rfl, rfl⟩ := Prod.mk.inj hret
    obtain ⟨hrel₂, hsame, hacq₂⟩ := registerGrdma_traces hgrdma₂ hgrdma
    refine ⟨by simp [hrel₁, hrel₂], e₂, rfl, ?_⟩
    rw [DmaEngine.resources_eq, hsame, acquired_append, acquired_append, hacq₁, hacq₂, acquired_nil,
      List.append_nil]
    exact List.perm_append_comm

theorem spawnStreams_traces {klass : StreamClass} (hk : Pooled klass) {priority : Int32} {n : ℕ}
    {m m' : MicroKernel} {s : Status}
    (h : Traces A (spawnStreams klass priority n m) t (s, m')) :
    released t = [] ∧ m'.resources.Perm (acquired t ++ m.resources) := by
  induction n generalizing m t with
  | zero =>
    obtain ⟨rfl, hret⟩ := h
    obtain ⟨rfl, rfl⟩ := Prod.mk.inj hret
    exact ⟨rfl, .refl _⟩
  | succ n ih =>
    simp only [spawnStreams, Platform.createStream, traces_op_bind] at h
    obtain ⟨⟨s₁, raw⟩, u, _, rfl, h⟩ := h
    rcases traces_unless h with ⟨hs, rfl, hret⟩ | ⟨rfl, hrest⟩
    · obtain ⟨rfl, rfl⟩ := Prod.mk.inj hret
      have hok : ok s = false := by simpa using hs
      refine ⟨rfl, ?_⟩
      simp [acquired, acquires, hok, resources_eq, all]
    · obtain ⟨hrel, hperm⟩ := ih hrest
      refine ⟨hrel, hperm.trans ?_⟩
      rw [acquired_cons]
      have hpush := (all_pushBack { m with nextId := m.nextId + 1 }
        (h := { id := m.nextId, raw, klass }) hk).map fun h => Resource.stream h.raw
      rw [resources_eq, resources_eq]
      exact (hpush.append_left (acquired u)).trans List.perm_middle

theorem spawnStreamPool_traces {m m' : MicroKernel} {nCompute nDma : UInt32} {s : Status}
    (h : Traces A (m.spawnStreamPool nCompute nDma) t (s, m')) :
    released t = [] ∧ m'.resources.Perm (acquired t ++ m.resources) := by
  rw [spawnStreamPool, traces_bind] at h
  obtain ⟨t₁, u, ⟨s₁, m₁⟩, rfl, hcompute, h⟩ := h
  obtain ⟨hrel₁, hperm₁⟩ := spawnStreams_traces (.inl rfl) hcompute
  rcases traces_unless h with ⟨_, rfl, hret⟩ | ⟨rfl, hrest⟩
  · obtain ⟨rfl, rfl⟩ := Prod.mk.inj hret
    exact ⟨by simpa using hrel₁, by simpa using hperm₁⟩
  · rw [traces_bind] at hrest
    obtain ⟨t₂, u, ⟨s₂, m₂⟩, rfl, hdma, h⟩ := hrest
    obtain ⟨hrel₂, hperm₂⟩ := spawnStreams_traces (.inr (.inl rfl)) hdma
    have hperm₂' : m₂.resources.Perm (acquired t₁ ++ (acquired t₂ ++ m.resources)) :=
      (hperm₂.trans (hperm₁.append_left _)).trans (List.perm_append_comm_assoc _ _ _)
    rcases traces_unless h with ⟨_, rfl, hret⟩ | ⟨rfl, hrest⟩
    · obtain ⟨rfl, rfl⟩ := Prod.mk.inj hret
      exact ⟨by simp [hrel₁, hrel₂], by simpa using hperm₂'⟩
    · split at hrest
      · obtain ⟨hrel₃, hperm₃⟩ := spawnStreams_traces (.inr (.inr rfl)) hrest
        refine ⟨by simp [hrel₁, hrel₂, hrel₃], hperm₃.trans ?_⟩
        refine (hperm₂'.append_left (acquired u)).trans ?_
        simp only [acquired_append, ← List.append_assoc]
        apply List.Perm.append_right _
        rw [List.append_assoc]
        exact List.perm_append_comm
      · obtain ⟨rfl, hret⟩ := hrest
        obtain ⟨rfl, rfl⟩ := Prod.mk.inj hret
        exact ⟨by simp [hrel₁, hrel₂], by simpa using hperm₂'⟩

theorem spawnScheduler_traces {d : DeviceDesc} {opts : BootOptions} {ctx ctx' : FirmwareContext}
    {s : Status} (h : Traces A (spawnScheduler d opts ctx) t (s, ctx')) :
    released t = [] ∧ ∃ m : MicroKernel, ctx' = { ctx with microkernel := some m } ∧
      m.resources.Perm (acquired t) := by
  rw [spawnScheduler, traces_bind] at h
  obtain ⟨t, _, ⟨s₁, m⟩, rfl, hspawn, rfl, hret⟩ := h
  obtain ⟨rfl, rfl⟩ := Prod.mk.inj hret
  obtain ⟨hrel, hperm⟩ := spawnStreamPool_traces hspawn
  exact ⟨by simpa using hrel, m, rfl, by simpa [MicroKernel.resources_eq, all] using hperm⟩

theorem attachFaultHandler_traces {d : DeviceDesc} {opts : BootOptions}
    {ctx ctx' : FirmwareContext} {s : Status}
    (h : Traces A (attachFaultHandler d opts ctx) t (s, ctx')) :
    released t = [] ∧ ∃ f : FaultHandler, ctx' = { ctx with faults := some f } ∧
      ((acquired t = [] ∧ f.hbmFaultBuffer = 0) ∨
        acquired t = [.hbm f.hbmFaultBuffer] ∨
        acquired t = [.hbm f.hbmFaultBuffer, .faultBuffer f.hbmFaultBuffer]) := by
  rw [attachFaultHandler, traces_bind] at h
  obtain ⟨t, _, ⟨s₁, f⟩, rfl, hinstall, rfl, hret⟩ := h
  obtain ⟨rfl, rfl⟩ := Prod.mk.inj hret
  rw [List.append_nil]
  rw [FaultHandler.install] at hinstall
  split at hinstall
  · obtain ⟨rfl, hret⟩ := hinstall
    obtain ⟨rfl, rfl⟩ := Prod.mk.inj hret
    exact ⟨rfl, _, rfl, .inl ⟨rfl, rfl⟩⟩
  · rw [Platform.allocHbm, traces_op_bind] at hinstall
    obtain ⟨⟨s₂, buf⟩, u, _, rfl, h⟩ := hinstall
    rcases traces_unless h with ⟨hs, rfl, hret⟩ | ⟨rfl, hrest⟩
    · obtain ⟨rfl, rfl⟩ := Prod.mk.inj hret
      have hok : ok s = false := by simpa using hs
      refine ⟨rfl, _, rfl, .inl ⟨?_, rfl⟩⟩
      simp [acquired, acquires, hok]
    · rw [Platform.installFaultBuffer, traces_op_bind] at hrest
      obtain ⟨s₃, u, _, rfl, rfl, hret⟩ := hrest
      obtain ⟨rfl, rfl⟩ := Prod.mk.inj hret
      refine ⟨rfl, _, rfl, .inr ?_⟩
      cases hok : ok s₃
      · exact .inl (by simp [acquired, acquires, hok])
      · exact .inr (by simp [acquired, acquires, hok])

theorem initIlc_cases (d : DeviceDesc) (opts : BootOptions) (ctx : FirmwareContext) :
    ∃ ilc : Option IlcManager, (initIlc d opts ctx).2 = { ctx with ilc } ∧
      ∀ i, ilc = some i → i.enabled = true ∧ i.tagged.keys = [] := by
  rw [initIlc]
  split
  · exact ⟨none, rfl, nofun⟩
  · next hfeature =>
    simp only [Bool.or_eq_true, Bool.not_eq_true', not_or, Bool.not_eq_false] at hfeature
    refine ⟨some (IlcManager.enable {} d).2, rfl, ?_⟩
    rintro i ⟨⟩
    simp only [IlcManager.enable, hfeature.1]
    exact ⟨rfl, rfl⟩

def Releasable (r : Resource) : Prop := r ≠ .vaddress ∧ r ≠ .hbm 0 ∧ r ≠ .faultBuffer 0

instance (r : Resource) : Decidable (Releasable r) :=
  inferInstanceAs (Decidable (r ≠ .vaddress ∧ r ≠ .hbm 0 ∧ r ≠ .faultBuffer 0))

structure Booted (t : List PlatformEvent) (ctx : FirmwareContext) : Prop where
  released : released t = []
  memory : ctx.mem = none
  enabled : ∀ i, ctx.ilc = some i → i.enabled = true
  count : ∀ r ∈ acquired t, Releasable r → ctx.resources.count r = (acquired t).count r
  reserved : acquired t = [] ∨ Resource.vaddress ∈ acquired t

theorem Booted.of_perm {ctx : FirmwareContext} (hrel : Firmware.released t = [])
    (hmem : ctx.mem = none) (hilc : ctx.ilc = none)
    (hperm : (acquired t).Perm (.vaddress :: ctx.resources)) : Booted t ctx where
  released := hrel
  memory := hmem
  enabled := by simp [hilc]
  count r _ hr := by rw [hperm.count_eq, List.count_cons_of_ne hr.1.symm]
  reserved := .inr (hperm.mem_iff.mpr List.mem_cons_self)

theorem FirmwareContext.resources_eq (ctx : FirmwareContext) : ctx.resources =
    ctx.faults.elim [] (fun f => f.releaseCalls.filterMap releases) ++
      ctx.microkernel.elim [] MicroKernel.resources ++ ctx.dma.elim [] DmaEngine.resources ++
      ctx.ilc.elim [] (fun i => i.releaseCalls.filterMap releases) := by
  simp only [resources, releaseCalls, List.filterMap_append, filterMap_elim]
  rfl

theorem faultHandler_released (f : FaultHandler) : f.releaseCalls.filterMap releases =
    if f.hbmFaultBuffer = 0 then [] else [.faultBuffer f.hbmFaultBuffer, .hbm f.hbmFaultBuffer] := by
  rw [FaultHandler.releaseCalls]
  split <;> rfl

theorem Booted.attach (ctx : FirmwareContext) {f : FaultHandler} {u : List PlatformEvent}
    (hrel : Firmware.released (t ++ u) = []) (hmem : ctx.mem = none) (hilc : ctx.ilc = none)
    (hfaults : ctx.faults = none)
    (hperm : (acquired t).Perm (.vaddress :: ctx.resources))
    (hno : ∀ buf, Resource.faultBuffer buf ∉ ctx.resources)
    (hu : (acquired u = [] ∧ f.hbmFaultBuffer = 0) ∨ acquired u = [.hbm f.hbmFaultBuffer] ∨
      acquired u = [.hbm f.hbmFaultBuffer, .faultBuffer f.hbmFaultBuffer]) :
    Booted (t ++ u) { ctx with faults := some f } where
  released := hrel
  memory := hmem
  enabled := by simp [hilc]
  reserved := .inr (by simp [hperm.mem_iff])
  count r hr hok := by
    have hres : ({ ctx with faults := some f } : FirmwareContext).resources =
        f.releaseCalls.filterMap releases ++ ctx.resources := by
      rw [FirmwareContext.resources_eq, FirmwareContext.resources_eq, hfaults]
      simp
    have hcount : (acquired t).count r = ctx.resources.count r := by
      rw [hperm.count_eq, List.count_cons_of_ne hok.1.symm]
    rw [hres, List.count_append, acquired_append, List.count_append, hcount, Nat.add_comm,
      faultHandler_released]
    congr 1
    rcases hu with ⟨hacq, hzero⟩ | hacq | hacq
    · rw [hacq, if_pos hzero]
    · have hne : Resource.faultBuffer f.hbmFaultBuffer ≠ r := by
        rintro rfl
        rw [acquired_append, hacq, List.mem_append, hperm.mem_iff] at hr
        simp [hno] at hr
      rw [hacq]
      split
      · next hzero =>
        rw [hzero, List.count_singleton, if_neg (by simpa using hok.2.1.symm)]
        rfl
      · rw [List.count_cons_of_ne hne]
    · rw [hacq]
      split
      · next hzero =>
        rw [hzero, List.count_cons_of_ne hok.2.1.symm, List.count_cons_of_ne hok.2.2.symm]
      · exact (List.Perm.swap _ _ _).count_eq r

theorem Booted.withIlc {ctx : FirmwareContext} (h : Booted t ctx) (hilc : ctx.ilc = none)
    {ilc : Option IlcManager}
    (hnew : ∀ i, ilc = some i → i.enabled = true ∧ i.tagged.keys = []) :
    Booted t { ctx with ilc } := by
  have hres : ({ ctx with ilc } : FirmwareContext).resources = ctx.resources := by
    rw [FirmwareContext.resources_eq, FirmwareContext.resources_eq, hilc]
    cases ilc with
    | none => rfl
    | some i => simp [IlcManager.releaseCalls, (hnew i rfl).2]
  exact ⟨h.released, h.memory, fun i hi => (hnew i hi).1, by rw [hres]; exact h.count, h.reserved⟩

theorem faultBuffer_not_mem (e : DmaEngine) (m : MicroKernel) (buf : Ptr) :
    Resource.faultBuffer buf ∉ m.resources ++ e.resources := by
  rw [MicroKernel.resources_eq, DmaEngine.resources_eq]
  cases e.grdmaEnabled <;> cases e.gdsEnabled <;> simp

theorem bootSubsystems_booted {d : DeviceDesc} {opts : BootOptions} {ctx : FirmwareContext}
    {ev ev' : List BootEvent} {r : BootResult} {u : List PlatformEvent}
    (hctx : ctx = { device := d, options := opts, hbmPoolBytes := ctx.hbmPoolBytes })
    (hrel : released t = []) (hacq : acquired t = [.vaddress])
    (h : Traces A (bootSubsystems d opts ctx ev) u (r, ev')) :
    ∃ ctx, r.ctx = some ctx ∧ Booted (t ++ u) ctx := by
  rw [bootSubsystems, traces_bind] at h
  obtain ⟨t₁, u, ⟨s₁, ctx₁⟩, rfl, hdma, h⟩ := h
  obtain ⟨hrel₁, e, rfl, hperm₁⟩ := registerDma_traces hdma
  rcases traces_unless h with ⟨_, rfl, hret⟩ | ⟨rfl, hrest⟩
  · obtain ⟨rfl, rfl⟩ := Prod.mk.inj hret
    refine ⟨_, rfl, .of_perm (by simp [hrel, hrel₁]) (by rw [hctx]) (by rw [hctx]) ?_⟩
    rw [hctx]
    simpa [hacq, FirmwareContext.resources_eq] using hperm₁
  rw [traces_bind] at hrest
  obtain ⟨t₂, u, ⟨s₂, ctx₂⟩, rfl, hspawn, h⟩ := hrest
  obtain ⟨hrel₂, m, rfl, hperm₂⟩ := spawnScheduler_traces hspawn
  have hres : ({ ctx with dma := some e, microkernel := some m } : FirmwareContext).resources =
      m.resources ++ e.resources := by
    rw [hctx]
    simp [FirmwareContext.resources_eq]
  have hperm : (acquired (t ++ (t₁ ++ t₂))).Perm (.vaddress :: (m.resources ++ e.resources)) := by
    simp only [acquired_append, hacq, List.cons_append, List.nil_append]
    exact ((hperm₁.append hperm₂.symm).trans List.perm_append_comm).cons _
  rcases traces_unless h with ⟨_, rfl, hret⟩ | ⟨rfl, hrest⟩
  · obtain ⟨rfl, rfl⟩ := Prod.mk.inj hret
    rw [List.append_nil]
    refine ⟨_, rfl, .of_perm (by simp [hrel, hrel₁, hrel₂]) (by rw [hctx]) (by rw [hctx]) ?_⟩
    rw [hres]
    exact hperm
  rw [traces_bind] at hrest
  obtain ⟨t₃, u, ⟨s₃, ctx₃⟩, rfl, hattach, h⟩ := hrest
  obtain ⟨hrel₃, f, rfl, hacq₃⟩ := attachFaultHandler_traces hattach
  have hbooted := Booted.attach { ctx with dma := some e, microkernel := some m }
    (t := t ++ (t₁ ++ t₂)) (f := f) (u := t₃) (by simp [hrel, hrel₁, hrel₂, hrel₃]) (by rw [hctx])
    (by rw [hctx]) (by rw [hctx]) (by rw [hres]; exact hperm)
    (by rw [hres]; exact faultBuffer_not_mem e m) hacq₃
  simp only [List.append_assoc] at hbooted
  rcases traces_unless h with ⟨_, rfl, hret⟩ | ⟨rfl, rfl, hret⟩
  · obtain ⟨rfl, rfl⟩ := Prod.mk.inj hret
    rw [List.append_nil]
    exact ⟨_, rfl, hbooted⟩
  · obtain ⟨rfl, rfl⟩ := Prod.mk.inj hret
    rw [List.append_nil]
    obtain ⟨ilc, hilc, hnew⟩ := initIlc_cases d opts
      { ctx with dma := some e, microkernel := some m, faults := some f }
    have hfinal := hbooted.withIlc (by rw [hctx]) hnew
    rw [← hilc] at hfinal
    exact ⟨_, rfl, hfinal⟩

theorem boot_booted {opts : BootOptions} {r : BootResult} {ev : List BootEvent}
    (h : Traces A (boot opts) t (r, ev)) :
    (r.ctx = none ∧ released t = [] ∧ acquired t = []) ∨ ∃ ctx, r.ctx = some ctx ∧ Booted t ctx := by
  rw [boot, traces_bind] at h
  obtain ⟨t₁, u, ⟨s₁, d⟩, rfl, hprobe, h⟩ := h
  obtain ⟨hrel₁, hacq₁⟩ := probeDriver_traces hprobe
  rcases traces_unless h with ⟨_, rfl, hret⟩ | ⟨_, hrest⟩
  · obtain ⟨rfl, rfl⟩ := Prod.mk.inj hret
    exact .inl ⟨rfl, by simp [hrel₁], by simp [hacq₁]⟩
  right
  rw [Platform.lockClocks, traces_op_bind] at hrest
  obtain ⟨s₂, u, _, rfl, hrest⟩ := hrest
  rw [traces_bind] at hrest
  obtain ⟨t₂, u, ⟨s₃, ctx₃⟩, rfl, hhbm, h⟩ := hrest
  obtain ⟨hrel₂, ⟨pool, rfl⟩, hacq₂⟩ := initHbm_traces hhbm
  have hrel : released (t₁ ++ ⟨.lockClocks d, s₂⟩ :: t₂) = [] := by
    simp [hrel₁, hrel₂, released_cons, releases]
  have hacq : acquired (t₁ ++ ⟨.lockClocks d, s₂⟩ :: t₂) = acquired t₂ := by
    simp [hacq₁, acquired_cons, acquires]
  rw [← List.cons_append, ← List.append_assoc]
  rcases traces_unless h with ⟨_, rfl, hret⟩ | ⟨rfl, hrest⟩
  · obtain ⟨rfl, rfl⟩ := Prod.mk.inj hret
    rw [List.append_nil]
    refine ⟨_, rfl, ?_⟩
    rcases hacq₂ with ⟨hnone, _⟩ | hvaddress
    · exact ⟨hrel, rfl, by simp, by simp [hacq, hnone], .inl (hacq.trans hnone)⟩
    · exact .of_perm hrel rfl rfl (by rw [hacq, hvaddress]; exact .refl _)
  · have hvaddress := hacq.trans (hacq₂.resolve_left (by simp))
    exact bootSubsystems_booted rfl hrel hvaddress hrest

theorem destructor_calls {ctx : FirmwareContext} (hmem : ctx.mem = none)
    (h : Traces A ctx.destructor t ()) : (calls t).Perm ctx.releaseCalls := by
  have hdestroy : ctx.destroyMemory = .ret ctx := by
    rw [FirmwareContext.destroyMemory, hmem]
    rfl
  simp only [FirmwareContext.destructor, hdestroy, ret_bind, traces_bind] at h
  obtain ⟨t₁, _, ctx₁, rfl, hilc, t₂, _, ⟨s, ctx₂⟩, rfl, hfaults, t₃, _, ctx₃, rfl, hdma, t₄, _, ctx₄,
    rfl, hdrain, rfl, _⟩ := h
  obtain ⟨hcalls₁, rfl⟩ := FirmwareContext.disableIlc_calls hilc
  obtain ⟨hcalls₂, _, rfl⟩ := FirmwareContext.uninstallFaults_calls hfaults
  obtain ⟨hcalls₃, rfl⟩ := FirmwareContext.shutdownDma_calls hdma
  obtain ⟨hcalls₄, rfl⟩ := FirmwareContext.drainStreams_calls hdrain
  rw [FirmwareContext.releaseCalls]
  simp only [calls_append, List.append_nil, hcalls₁, hcalls₂, hcalls₃, hcalls₄]
  apply List.perm_append_comm.trans
  apply List.Perm.append_right _
  rw [List.append_assoc]
  exact List.perm_append_comm.append_left _

def bootAndDrop (opts : BootOptions) : PlatformProg Unit := do
  let (r, _) ← boot opts
  match r.ctx with
  | none => return ()
  | some ctx => ctx.destructor

theorem mem_releaseCalls {ctx : FirmwareContext} {c : PlatformCall} (h : c ∈ ctx.releaseCalls) :
    ∃ r, releases c = some r ∧ r ≠ .vaddress := by
  simp only [FirmwareContext.releaseCalls, List.mem_append] at h
  rcases h with ((h | h) | h) | h
  · obtain ⟨f, _, h⟩ := mem_elim_nil h
    rw [FaultHandler.releaseCalls] at h
    split at h
    · simp at h
    · rcases List.mem_pair.mp h with rfl | rfl <;> simp [releases]
  · obtain ⟨m, _, h⟩ := mem_elim_nil h
    obtain ⟨x, _, rfl⟩ := List.mem_map.mp h
    simp [releases]
  · obtain ⟨e, _, h⟩ := mem_elim_nil h
    rcases List.mem_append.mp h with h | h <;>
      · split at h
        · rw [List.mem_singleton.mp h]
          simp [releases]
        · simp at h
  · obtain ⟨i, _, h⟩ := mem_elim_nil h
    rw [IlcManager.releaseCalls] at h
    split at h
    · obtain ⟨x, _, rfl⟩ := List.mem_map.mp h
      simp [releases]
    · simp at h

theorem boot_released (opts : BootOptions) (t : List PlatformEvent)
    (h : Traces anyBackend (bootAndDrop opts) t ()) :
    ((∀ r ∈ acquired t, (released t).count r = (acquired t).count r) ↔
        Resource.vaddress ∉ acquired t) ∧
      ∀ r ∈ acquired t, Releasable r → (released t).count r = (acquired t).count r := by
  rw [bootAndDrop, traces_bind] at h
  obtain ⟨t₁, t₂, ⟨r, ev⟩, rfl, hboot, h⟩ := h
  rcases boot_booted hboot with ⟨hnone, hrel, hacq⟩ | ⟨ctx, hctx, hbooted⟩
  · simp only [hnone] at h
    obtain ⟨rfl, _⟩ := h
    simp [hacq]
  simp only [hctx] at h
  have hcalls := destructor_calls hbooted.memory h
  have hdrop : (released t₂).Perm ctx.resources := hcalls.filterMap releases
  have hnone : acquired t₂ = [] := by
    apply acquired_of_releases
    intro c hc
    obtain ⟨r, hr, _⟩ := mem_releaseCalls (hcalls.mem_iff.mp hc)
    simp [hr]
  simp only [acquired_append, released_append, hbooted.released, hnone, List.append_nil,
    List.nil_append]
  refine ⟨?_, fun r hr hok => by rw [hdrop.count_eq, hbooted.count r hr hok]⟩
  constructor
  · intro hall hmem
    have hpos := List.count_pos_iff.mpr hmem
    rw [← hall _ hmem, List.count_pos_iff, hdrop.mem_iff] at hpos
    obtain ⟨c, hc, hreleases⟩ := List.mem_filterMap.mp hpos
    obtain ⟨r, hr, hne⟩ := mem_releaseCalls hc
    exact hne (Option.some.inj (hr.symm.trans hreleases))
  · intro hnot
    have hacq := hbooted.reserved.resolve_right hnot
    simp [hacq]

def succeedingBackend (d : DeviceDesc) : (c : PlatformCall) → c.Answer
  | .allocHbm _ => (.ok, 0x10000)
  | .freeHbm _ => .ok
  | .createStream _ _ => (.ok, 7)
  | .syncStream _ => .ok
  | .loadModule _ _ => (.ok, 9, .empty)
  | .launchKernel _ _ _ _ _ _ => .ok
  | .ilcTag _ => .ok
  | .ilcUntag _ => .ok
  | .probe => true
  | .describeDevice _ => d
  | .lockClocks _ => .ok
  | .reserveVaddress _ => .ok
  | .mapHbmPool => .ok
  | .releaseVaddress => .ok
  | .destroyStream _ => .ok
  | .gdsInit => .ok
  | .gdsFini => .ok
  | .grdmaInit => .ok
  | .grdmaFini => .ok
  | .installFaultBuffer _ _ => .ok
  | .uninstallFaultBuffer _ => .ok

def apple : DeviceDesc := { vendor := .apple, arch := .appleSilicon }

theorem boot_released_apple : ∃ t, Traces anyBackend (bootAndDrop {}) t () ∧
    (released t).count (.hbm 0x10000) = 1 ∧ (released t).count (.faultBuffer 0x10000) = 1 ∧
    (released t).count (.stream 7) = 12 := by
  have ht : Traces anyBackend (bootAndDrop {})
      (traceWith (succeedingBackend apple) (bootAndDrop {})).1 () :=
    traces_traceWith (fun _ => trivial) _
  have hall := (boot_released {} _ ht).2
  refine ⟨_, ht, ?_, ?_, ?_⟩
  · rw [hall (.hbm 0x10000) (by decide) (by decide)]
    decide
  · rw [hall (.faultBuffer 0x10000) (by decide) (by decide)]
    decide
  · rw [hall (.stream 7) (by decide) (by decide)]
    decide

theorem boot_keeps_vaddress : ¬ ∀ (opts : BootOptions) (t : List PlatformEvent),
    Traces anyBackend (bootAndDrop opts) t () →
      ∀ r ∈ acquired t, (released t).count r = (acquired t).count r := by
  intro hall
  have hcount := hall {} (traceWith (succeedingBackend apple) (bootAndDrop {})).1
    (traces_traceWith (fun _ => trivial) _) .vaddress (by decide)
  exact absurd hcount (by decide)

end NexusRT.Firmware

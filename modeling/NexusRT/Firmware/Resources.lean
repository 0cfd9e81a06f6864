import NexusRT.Firmware.Boot
import NexusRT.Firmware.StreamPool
import NexusRT.Library.Trace

namespace NexusRT.Firmware

open Prog MicroKernel

inductive Resource
  | vaddress | stream (raw : Ptr) | gds | grdma | hbm (p : Ptr) | faultBuffer (buf : Ptr)
  | tag (alloc : Ptr)
  deriving DecidableEq, Repr

abbrev PlatformEvent := Event PlatformCall PlatformCall.Answer

def acquires : PlatformEvent → Option Resource
  | ⟨.reserveVaddress _, s⟩ => if ok s then some .vaddress else none
  | ⟨.createStream _ _, (s, raw)⟩ => if ok s then some (.stream raw) else none
  | ⟨.gdsInit, s⟩ => if ok s then some .gds else none
  | ⟨.grdmaInit, s⟩ => if ok s then some .grdma else none
  | ⟨.allocHbm _, (s, p)⟩ => if ok s then some (.hbm p) else none
  | ⟨.installFaultBuffer buf _, s⟩ => if ok s then some (.faultBuffer buf) else none
  | ⟨.ilcTag alloc, s⟩ => if ok s then some (.tag alloc) else none
  | _ => none

def releases : PlatformCall → Option Resource
  | .releaseVaddress => some .vaddress
  | .destroyStream raw => some (.stream raw)
  | .gdsFini => some .gds
  | .grdmaFini => some .grdma
  | .freeHbm p => some (.hbm p)
  | .uninstallFaultBuffer buf => some (.faultBuffer buf)
  | .ilcUntag alloc => some (.tag alloc)
  | _ => none

def acquired (t : List PlatformEvent) : List Resource := t.filterMap acquires

def released (t : List PlatformEvent) : List Resource := (calls t).filterMap releases

@[simp] theorem acquired_nil : acquired [] = [] := rfl

theorem acquired_cons (e : PlatformEvent) (t : List PlatformEvent) :
    acquired (e :: t) = (acquires e).toList ++ acquired t := by
  cases he : acquires e <;> simp [acquired, he]

@[simp] theorem acquired_append (t u : List PlatformEvent) :
    acquired (t ++ u) = acquired t ++ acquired u := List.filterMap_append

@[simp] theorem released_nil : released [] = [] := rfl

theorem released_cons (e : PlatformEvent) (t : List PlatformEvent) :
    released (e :: t) = (releases e.1).toList ++ released t := by
  cases he : releases e.1 <;> simp [released, he]

@[simp] theorem released_append (t u : List PlatformEvent) :
    released (t ++ u) = released t ++ released u := by
  rw [released, calls_append, List.filterMap_append]
  rfl

theorem mem_elim_nil {α β : Type} {o : Option α} {f : α → List β} {x : β} (h : x ∈ o.elim [] f) :
    ∃ a, o = some a ∧ x ∈ f a := by
  cases o with
  | none => simp at h
  | some a => exact ⟨a, rfl, h⟩

theorem elim_map_nil {α β γ : Type} {f : β → List γ} {g : α → β} (h : ∀ a, f (g a) = [])
    (o : Option α) : (o.map g).elim [] f = [] := by
  cases o with
  | none => rfl
  | some a => exact h a

theorem filterMap_elim {α β γ : Type} (g : β → Option γ) (o : Option α) (f : α → List β) :
    (o.elim [] f).filterMap g = o.elim [] fun a => (f a).filterMap g := by
  cases o with
  | none => rfl
  | some a => rfl

theorem acquires_of_releases {c : PlatformCall} (h : (releases c).isSome = true) (r : c.Answer) :
    acquires ⟨c, r⟩ = none := by
  cases c <;> first | rfl | simp [releases] at h

theorem acquired_of_releases {t : List PlatformEvent}
    (h : ∀ c ∈ calls t, (releases c).isSome = true) : acquired t = [] := by
  induction t with
  | nil => rfl
  | cons e t ih =>
    have hnone : acquires e = none := acquires_of_releases (h e.1 (by simp)) e.2
    rw [acquired, List.filterMap_cons, hnone]
    exact ih fun c hc => h c (by simp [hc])

def MicroKernel.releaseCalls (m : MicroKernel) : List PlatformCall :=
  m.all.map fun h => .destroyStream h.raw

def DmaEngine.releaseCalls (e : DmaEngine) : List PlatformCall :=
  (if e.grdmaEnabled then [.grdmaFini] else []) ++ (if e.gdsEnabled then [.gdsFini] else [])

def FaultHandler.releaseCalls (f : FaultHandler) : List PlatformCall :=
  if f.hbmFaultBuffer = 0 then [] else
    [.uninstallFaultBuffer f.hbmFaultBuffer, .freeHbm f.hbmFaultBuffer]

def IlcManager.releaseCalls (i : IlcManager) : List PlatformCall :=
  if i.enabled then i.tagged.keys.map .ilcUntag else []

def MicroKernel.drained (m : MicroKernel) : MicroKernel :=
  { m with freeCompute := [], freeDma := [], freeFence := [], modules := .empty }

def DmaEngine.stopped (e : DmaEngine) : DmaEngine :=
  { e with gdsEnabled := false, grdmaEnabled := false }

def FaultHandler.uninstalled (f : FaultHandler) : FaultHandler := { f with hbmFaultBuffer := 0 }

def IlcManager.disabled (i : IlcManager) : IlcManager :=
  if i.enabled then { i with tagged := .empty, enabled := false } else i

theorem MicroKernel.drained_releaseCalls (m : MicroKernel) : m.drained.releaseCalls = [] := rfl

theorem DmaEngine.stopped_releaseCalls (e : DmaEngine) : e.stopped.releaseCalls = [] := rfl

theorem FaultHandler.uninstalled_releaseCalls (f : FaultHandler) :
    f.uninstalled.releaseCalls = [] := rfl

@[simp] theorem IlcManager.disabled_enabled (i : IlcManager) : i.disabled.enabled = false := by
  rw [disabled]
  split
  · rfl
  · next h => simpa using h

theorem IlcManager.disabled_releaseCalls (i : IlcManager) : i.disabled.releaseCalls = [] := by
  rw [releaseCalls, disabled_enabled]
  rfl

section Releases

variable {A : (c : PlatformCall) → c.Answer → Prop} {t : List PlatformEvent}

theorem traces_unless {α : Type} {s : Status} {a b : α} {p : PlatformProg α}
    (h : Traces A (if !ok s then pure a else p) t b) :
    (s ≠ .ok ∧ t = [] ∧ b = a) ∨ (s = .ok ∧ Traces A p t b) := by
  by_cases hs : s = .ok
  · subst hs
    exact .inr ⟨rfl, h⟩
  · have hok : ok s = false := by simpa using hs
    simp only [hok, Bool.not_false, ↓reduceIte] at h
    exact .inl ⟨hs, h⟩

theorem traces_of_ok {α : Type} {s : Status} {a b : α} {p : PlatformProg α} (hs : s = .ok)
    (h : Traces A (if !ok s then pure a else p) t b) : Traces A p t b := by
  rcases traces_unless h with ⟨hfails, _⟩ | ⟨_, hrest⟩
  · exact absurd hs hfails
  · exact hrest

theorem destroyStreams_calls {v : List StreamHandle} {u : Unit}
    (h : Traces A (destroyStreams v) t u) : calls t = v.map fun h => .destroyStream h.raw := by
  apply traces_forM _ h
  rintro x t u ⟨_, _, _, rfl, rfl, _⟩
  rfl

theorem drainStreams_calls {m m' : MicroKernel} (h : Traces A m.drainStreams t m') :
    calls t = m.releaseCalls ∧ m' = m.drained := by
  simp only [drainStreams, traces_bind] at h
  obtain ⟨t₁, _, _, rfl, hcompute, t₂, _, _, rfl, hdma, t₃, _, _, rfl, hfence, rfl, rfl⟩ := h
  refine ⟨?_, rfl⟩
  simp [destroyStreams_calls hcompute, destroyStreams_calls hdma, destroyStreams_calls hfence, all,
    MicroKernel.releaseCalls]

theorem fini_calls {enabled : Bool} {c : PlatformCall} {e e₀ e' : DmaEngine}
    (hoff : enabled = false → e₀ = e)
    (h : Traces A (if !enabled then pure e else Prog.op c >>= fun _ => pure e₀) t e') :
    calls t = (if enabled then [c] else []) ∧ e' = e₀ := by
  rcases traces_guarded_op.mp h with ⟨rfl, rfl, rfl⟩ | ⟨rfl, _, _, rfl, rfl⟩
  · exact ⟨rfl, (hoff rfl).symm⟩
  · exact ⟨rfl, rfl⟩

theorem finiGrdma_calls {e e' : DmaEngine} (h : Traces A e.finiGrdma t e') :
    calls t = (if e.grdmaEnabled then [.grdmaFini] else []) ∧
      e' = { e with grdmaEnabled := false } := by
  refine fini_calls (fun hoff => ?_) h
  rw [← hoff]

theorem finiGds_calls {e e' : DmaEngine} (h : Traces A e.finiGds t e') :
    calls t = (if e.gdsEnabled then [.gdsFini] else []) ∧ e' = { e with gdsEnabled := false } := by
  refine fini_calls (fun hoff => ?_) h
  rw [← hoff]

theorem dmaShutdown_calls {e e' : DmaEngine} (h : Traces A e.shutdown t e') :
    calls t = e.releaseCalls ∧ e' = e.stopped := by
  rw [DmaEngine.shutdown, traces_bind] at h
  obtain ⟨t₁, t₂, e₁, rfl, hgrdma, hgds⟩ := h
  obtain ⟨hcalls₁, rfl⟩ := finiGrdma_calls hgrdma
  obtain ⟨hcalls₂, rfl⟩ := finiGds_calls hgds
  refine ⟨?_, rfl⟩
  rw [calls_append, hcalls₁, hcalls₂, DmaEngine.releaseCalls]

theorem uninstall_calls {f f' : FaultHandler} {s : Status} (h : Traces A f.uninstall t (s, f')) :
    calls t = f.releaseCalls ∧ s = .ok ∧ f' = f.uninstalled := by
  rw [FaultHandler.uninstall] at h
  rw [FaultHandler.releaseCalls]
  split at h
  · next hzero =>
    obtain ⟨rfl, hs⟩ := h
    obtain ⟨rfl, rfl⟩ := Prod.mk.inj hs
    rw [if_pos hzero]
    refine ⟨rfl, rfl, ?_⟩
    rw [FaultHandler.uninstalled, ← hzero]
  · next hzero =>
    obtain ⟨_, _, _, rfl, _, _, _, rfl, rfl, hs⟩ := h
    obtain ⟨rfl, rfl⟩ := Prod.mk.inj hs
    rw [if_neg hzero]
    exact ⟨rfl, rfl, rfl⟩

theorem disable_calls {i i' : IlcManager} {s : Status} (h : Traces A i.disable t (s, i')) :
    calls t = i.releaseCalls ∧ i' = i.disabled := by
  rw [IlcManager.disable] at h
  cases henabled : i.enabled with
  | false =>
    rw [henabled] at h
    obtain ⟨rfl, hs⟩ := h
    obtain ⟨rfl, rfl⟩ := Prod.mk.inj hs
    simp [IlcManager.releaseCalls, IlcManager.disabled, henabled]
  | true =>
    rw [henabled] at h
    simp only [Bool.not_true, Bool.false_eq_true, ↓reduceIte, traces_bind] at h
    obtain ⟨t, _, _, rfl, hfor, rfl, hs⟩ := h
    obtain ⟨rfl, rfl⟩ := Prod.mk.inj hs
    have hcalls : calls t = i.tagged.keys.map .ilcUntag := by
      apply traces_forM _ hfor
      rintro x t u ⟨_, _, _, rfl, rfl, _⟩
      rfl
    simp [IlcManager.releaseCalls, IlcManager.disabled, henabled, hcalls]

end Releases

namespace FirmwareContext

def releaseCalls (ctx : FirmwareContext) : List PlatformCall :=
  ctx.faults.elim [] FaultHandler.releaseCalls ++ ctx.microkernel.elim [] MicroKernel.releaseCalls ++
    ctx.dma.elim [] DmaEngine.releaseCalls ++ ctx.ilc.elim [] IlcManager.releaseCalls

def shutDown (ctx : FirmwareContext) : FirmwareContext :=
  { ctx with
    faults := ctx.faults.map FaultHandler.uninstalled
    microkernel := ctx.microkernel.map MicroKernel.drained
    dma := ctx.dma.map DmaEngine.stopped
    ilc := ctx.ilc.map IlcManager.disabled }

@[simp] theorem releaseCalls_shutDown (ctx : FirmwareContext) : ctx.shutDown.releaseCalls = [] := by
  simp only [releaseCalls, shutDown, elim_map_nil FaultHandler.uninstalled_releaseCalls,
    elim_map_nil MicroKernel.drained_releaseCalls, elim_map_nil DmaEngine.stopped_releaseCalls,
    elim_map_nil IlcManager.disabled_releaseCalls, List.append_nil]

variable {A : (c : PlatformCall) → c.Answer → Prop} {t : List PlatformEvent}

theorem uninstallFaults_calls {ctx ctx' : FirmwareContext} {s : Status}
    (h : Traces A ctx.uninstallFaults t (s, ctx')) :
    calls t = ctx.faults.elim [] FaultHandler.releaseCalls ∧ s = .ok ∧
      ctx' = { ctx with faults := ctx.faults.map FaultHandler.uninstalled } := by
  rw [uninstallFaults] at h
  cases hf : ctx.faults with
  | none =>
    rw [hf] at h
    obtain ⟨rfl, hs⟩ := h
    obtain ⟨rfl, rfl⟩ := Prod.mk.inj hs
    refine ⟨rfl, rfl, ?_⟩
    rw [Option.map_none, ← hf]
  | some f =>
    rw [hf] at h
    simp only [traces_bind] at h
    obtain ⟨t, _, ⟨s', f'⟩, rfl, hu, rfl, hs⟩ := h
    obtain ⟨rfl, rfl⟩ := Prod.mk.inj hs
    obtain ⟨hcalls, rfl, rfl⟩ := uninstall_calls hu
    exact ⟨by simpa using hcalls, rfl, rfl⟩

theorem drainStreams_calls {ctx ctx' : FirmwareContext} (h : Traces A ctx.drainStreams t ctx') :
    calls t = ctx.microkernel.elim [] MicroKernel.releaseCalls ∧
      ctx' = { ctx with microkernel := ctx.microkernel.map MicroKernel.drained } := by
  rw [drainStreams] at h
  cases hm : ctx.microkernel with
  | none =>
    rw [hm] at h
    obtain ⟨rfl, rfl⟩ := h
    refine ⟨rfl, ?_⟩
    rw [Option.map_none, ← hm]
  | some m =>
    rw [hm] at h
    simp only [traces_bind] at h
    obtain ⟨t, _, m', rfl, hd, rfl, rfl⟩ := h
    obtain ⟨hcalls, rfl⟩ := Firmware.drainStreams_calls hd
    exact ⟨by simpa using hcalls, rfl⟩

theorem shutdownDma_calls {ctx ctx' : FirmwareContext} (h : Traces A ctx.shutdownDma t ctx') :
    calls t = ctx.dma.elim [] DmaEngine.releaseCalls ∧
      ctx' = { ctx with dma := ctx.dma.map DmaEngine.stopped } := by
  rw [shutdownDma] at h
  cases he : ctx.dma with
  | none =>
    rw [he] at h
    obtain ⟨rfl, rfl⟩ := h
    refine ⟨rfl, ?_⟩
    rw [Option.map_none, ← he]
  | some e =>
    rw [he] at h
    simp only [traces_bind] at h
    obtain ⟨t, _, e', rfl, hd, rfl, rfl⟩ := h
    obtain ⟨hcalls, rfl⟩ := dmaShutdown_calls hd
    exact ⟨by simpa using hcalls, rfl⟩

theorem disableIlc_calls {ctx ctx' : FirmwareContext} (h : Traces A ctx.disableIlc t ctx') :
    calls t = ctx.ilc.elim [] IlcManager.releaseCalls ∧
      ctx' = { ctx with ilc := ctx.ilc.map IlcManager.disabled } := by
  rw [disableIlc] at h
  cases hi : ctx.ilc with
  | none =>
    rw [hi] at h
    obtain ⟨rfl, rfl⟩ := h
    refine ⟨rfl, ?_⟩
    rw [Option.map_none, ← hi]
  | some i =>
    rw [hi] at h
    simp only [traces_bind] at h
    obtain ⟨t, _, ⟨s, i'⟩, rfl, hd, rfl, rfl⟩ := h
    obtain ⟨hcalls, rfl⟩ := disable_calls hd
    exact ⟨by simpa using hcalls, rfl⟩

theorem shutdown_traces {ctx ctx' : FirmwareContext} {s : Status}
    (h : Traces A (shutdown ctx) t (s, ctx')) :
    ∃ u, t = u ++ [⟨.releaseVaddress, s⟩] ∧ calls u = ctx.releaseCalls ∧ ctx' = ctx.shutDown := by
  simp only [shutdown, traces_bind] at h
  obtain ⟨t₁, _, ⟨last, ctx₁⟩, rfl, hfaults, t₂, _, ctx₂, rfl, hdrain, t₃, _, ctx₃, rfl, hdma, t₄, _,
    ctx₄, rfl, hilc, _, _, s', rfl, ⟨_, _, _, rfl, rfl, rfl⟩, rfl, hs⟩ := h
  obtain ⟨hcalls₁, rfl, rfl⟩ := uninstallFaults_calls hfaults
  obtain ⟨hcalls₂, rfl⟩ := drainStreams_calls hdrain
  obtain ⟨hcalls₃, rfl⟩ := shutdownDma_calls hdma
  obtain ⟨hcalls₄, rfl⟩ := disableIlc_calls hilc
  obtain ⟨hstatus, hctx⟩ := Prod.mk.inj hs
  have hlast : s = s' := by
    rw [hstatus]
    cases s' <;> rfl
  refine ⟨t₁ ++ t₂ ++ t₃ ++ t₄, ?_, ?_, hctx⟩
  · simp [hlast]
  · simp [hcalls₁, hcalls₂, hcalls₃, hcalls₄, releaseCalls]

end FirmwareContext

end NexusRT.Firmware

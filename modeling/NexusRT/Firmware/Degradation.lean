import NexusRT.Firmware.BootRelease
import NexusRT.Firmware.Shims
import Mathlib.Logic.Relation

namespace NexusRT.Firmware

open Prog

inductive TransferCall
  | platform (c : PlatformCall)
  | dmaSubmit (r : DmaRequest)
  | dmaWait (event : Ptr) (timeoutMs : UInt32)
  | gdsReadFallback (path : String) (off : UInt64) (dst : Ptr) (bytes : UInt64)
  | gdsWriteFallback (path : String) (off : UInt64) (src : Ptr) (bytes : UInt64)

abbrev TransferCall.Answer : TransferCall → Type
  | .platform c => c.Answer
  | .dmaSubmit _ => Status × Option Ptr
  | .dmaWait _ _ => Status
  | .gdsReadFallback _ _ _ _ => Status
  | .gdsWriteFallback _ _ _ _ => Status

abbrev TransferProg := Prog TransferCall TransferCall.Answer

namespace Transfer

def platform {α : Type} (p : PlatformProg α) : TransferProg α :=
  p.translate TransferCall.platform (fun _ r => r)

def dmaSubmit (r : DmaRequest) : TransferProg (Status × Option Ptr) :=
  .op (TransferCall.dmaSubmit r)

def dmaWait (event : Ptr) (timeoutMs : UInt32) : TransferProg Status :=
  .op (TransferCall.dmaWait event timeoutMs)

def gdsReadFallback (path : String) (off : UInt64) (dst : Ptr) (bytes : UInt64) :
    TransferProg Status := .op (TransferCall.gdsReadFallback path off dst bytes)

def gdsWriteFallback (path : String) (off : UInt64) (src : Ptr) (bytes : UInt64) :
    TransferProg Status := .op (TransferCall.gdsWriteFallback path off src bytes)

def submitAndWait (r : DmaRequest) : TransferProg Status := do
  let (s, ev) ← dmaSubmit r
  if !ok s then return s else
  dmaWait (ev.getD 0) 30000

end Transfer

namespace DmaEngine

def gdsRead (e : DmaEngine) (path : String) (off : UInt64) (dst : Ptr) (bytes : UInt64) :
    TransferProg Status :=
  if !e.gdsEnabled then Transfer.gdsReadFallback path off dst bytes else
  Transfer.submitAndWait { kind := .gdsRead, dst, bytes, nvmePath := path, nvmeOffset := off }

def gdsWrite (e : DmaEngine) (path : String) (off : UInt64) (src : Ptr) (bytes : UInt64) :
    TransferProg Status :=
  if !e.gdsEnabled then Transfer.gdsWriteFallback path off src bytes else
  Transfer.submitAndWait { kind := .gdsWrite, src, bytes, nvmePath := path, nvmeOffset := off }

end DmaEngine

inductive DmaCall
  | enableGds
  | enableGrdma
  | shutdown
  | submit (r : DmaRequest)
  | wait (event : Ptr) (timeoutMs : UInt32)
  | gdsRead (path : String) (off : UInt64) (dst : Ptr) (bytes : UInt64)
  | gdsWrite (path : String) (off : UInt64) (src : Ptr) (bytes : UInt64)

def DmaCall.run (e : DmaEngine) : DmaCall → TransferProg DmaEngine
  | .enableGds => do
    let (_, e) ← Transfer.platform e.enableGds
    return e
  | .enableGrdma => do
    let (_, e) ← Transfer.platform e.enableGrdma
    return e
  | .shutdown => Transfer.platform e.shutdown
  | .submit r => do
    let _ ← Transfer.dmaSubmit r
    return e
  | .wait event timeoutMs => do
    let _ ← Transfer.dmaWait event timeoutMs
    return e
  | .gdsRead path off dst bytes => do
    let _ ← e.gdsRead path off dst bytes
    return e
  | .gdsWrite path off src bytes => do
    let _ ← e.gdsWrite path off src bytes
    return e

/-- A backend that finds the device `d` and on which the memory and the streams work. GDS and GRDMA
come up or not, and the other calls may fail at any time. -/
def Boots (d : DeviceDesc) (gds grdma : Status) : (c : PlatformCall) → c.Answer → Prop
  | .probe, found => found = true
  | .describeDevice _, out => out = d
  | .reserveVaddress _, s => s = .ok
  | .mapHbmPool, s => s = .ok
  | .createStream _ _, r => r.1 = .ok
  | .allocHbm _, r => r.1 = .ok
  | .gdsInit, s => s = gds
  | .grdmaInit, s => s = grdma
  | _, _ => True

def Transfers (A : (c : PlatformCall) → c.Answer → Prop) : (c : TransferCall) → c.Answer → Prop
  | .platform c, r => A c r
  | _, _ => True

def Used (A : (c : PlatformCall) → c.Answer → Prop) (e e' : DmaEngine) : Prop :=
  ∃ (c : DmaCall) (t : List (Event TransferCall TransferCall.Answer)),
    Traces (Transfers A) (c.run e) t e'

variable {d : DeviceDesc} {gds grdma : Status} {t : List PlatformEvent}

theorem probeDriver_boots {opts : BootOptions} {s : Status} {d' : DeviceDesc}
    (hd : d.vendor ≠ .unknown) (h : Traces (Boots d gds grdma) (probeDriver opts) t (s, d')) :
    s = .ok ∧ d' = d := by
  rw [probeDriver, Platform.probe, traces_op_bind] at h
  obtain ⟨found, u, rfl, rfl, h⟩ := h
  simp only [Bool.not_true, Bool.false_eq_true, ↓reduceIte, Platform.describeDevice,
    traces_op_bind] at h
  obtain ⟨out, v, rfl, rfl, h⟩ := h
  rw [if_neg hd] at h
  obtain ⟨_, hret⟩ := h
  exact Prod.mk.inj hret

theorem initHbm_boots {d' : DeviceDesc} {ctx ctx' : FirmwareContext} {s : Status}
    (h : Traces (Boots d gds grdma) (initHbm d' ctx) t (s, ctx')) : s = .ok := by
  rw [initHbm, Platform.reserveVaddress, traces_op_bind] at h
  obtain ⟨s₁, u, rfl, rfl, h⟩ := h
  have hmap := traces_of_ok rfl h
  rw [Platform.mapHbmPool, traces_op_bind] at hmap
  obtain ⟨s₂, u, rfl, rfl, _, hret⟩ := hmap
  exact (Prod.mk.inj hret).1

theorem enableGds_boots {e e' : DmaEngine} {s : Status}
    (h : Traces (Boots d gds grdma) e.enableGds t (s, e')) :
    s = (if e.device.features.gds then gds else .notImplemented) ∧
      e' = (if e.device.features.gds ∧ gds = .ok then { e with gdsEnabled := true } else e) := by
  rcases enableGds_traces h with ⟨hf, _, rfl, rfl⟩ | ⟨hf, rfl, _, rfl⟩
  · simp [hf]
  · simp [hf]

theorem enableGrdma_boots {e e' : DmaEngine} {s : Status}
    (h : Traces (Boots d gds grdma) e.enableGrdma t (s, e')) :
    s = (if e.device.features.grdma then grdma else .notImplemented) ∧
      e'.gdsEnabled = e.gdsEnabled := by
  rcases enableGrdma_traces h with ⟨hf, _, rfl, rfl⟩ | ⟨hf, rfl, _, rfl⟩
  · simp [hf]
  · refine ⟨by simp [hf], ?_⟩
    split <;> rfl

theorem registerGds_boots {opts : BootOptions} {e e' : DmaEngine} {s : Status}
    (hdevice : e.device = d) (h : Traces (Boots d gds grdma) (registerGds d opts e) t (s, e')) :
    (s = .ok ↔ (d.features.gds = true → opts.enableGds = true → gds = .ok)) ∧
      e'.device = d ∧ (gds ≠ .ok → e'.gdsEnabled = e.gdsEnabled) := by
  rw [registerGds] at h
  split at h
  · next hboth =>
    rw [Bool.and_eq_true] at hboth
    obtain ⟨rfl, rfl⟩ := enableGds_boots h
    rw [hdevice, if_pos hboth.1]
    refine ⟨by simp [hboth], ?_, fun hfails => by simp [hfails]⟩
    split
    · rfl
    · exact hdevice
  · next hnot =>
    obtain ⟨_, hret⟩ := h
    obtain ⟨rfl, rfl⟩ := Prod.mk.inj hret
    refine ⟨iff_of_true rfl fun hgds henable => ?_, hdevice, fun _ => rfl⟩
    simp [hgds, henable] at hnot

theorem registerGrdma_boots {opts : BootOptions} {e e' : DmaEngine} {s : Status}
    (hdevice : e.device = d) (h : Traces (Boots d gds grdma) (registerGrdma d opts e) t (s, e')) :
    (s = .ok ↔ (d.features.grdma = true → opts.enableGrdma = true → grdma = .ok)) ∧
      e'.gdsEnabled = e.gdsEnabled := by
  rw [registerGrdma] at h
  split at h
  · next hboth =>
    rw [Bool.and_eq_true] at hboth
    obtain ⟨rfl, hsame⟩ := enableGrdma_boots h
    rw [hdevice, if_pos hboth.1]
    exact ⟨by simp [hboth], hsame⟩
  · next hnot =>
    obtain ⟨_, hret⟩ := h
    obtain ⟨rfl, rfl⟩ := Prod.mk.inj hret
    refine ⟨iff_of_true rfl fun hgrdma henable => ?_, rfl⟩
    simp [hgrdma, henable] at hnot

def PathsUp (d : DeviceDesc) (opts : BootOptions) (gds grdma : Status) : Prop :=
  (d.features.gds = true → opts.enableGds = true → gds = .ok) ∧
    (d.features.grdma = true → opts.enableGrdma = true → grdma = .ok)

theorem registerDma_boots {opts : BootOptions} {ctx ctx' : FirmwareContext} {s : Status}
    (h : Traces (Boots d gds grdma) (registerDma d opts ctx) t (s, ctx')) :
    (s = .ok ↔ PathsUp d opts gds grdma) ∧
      ∃ e, ctx' = { ctx with dma := some e } ∧ (gds ≠ .ok → e.gdsEnabled = false) := by
  rw [registerDma, traces_bind] at h
  obtain ⟨t₁, u, ⟨s₁, e₁⟩, rfl, hgds, h⟩ := h
  obtain ⟨hs₁, hdevice, hoff⟩ := registerGds_boots (e := { device := d }) rfl hgds
  rcases traces_unless h with ⟨hfails, _, hret⟩ | ⟨rfl, hrest⟩
  · obtain ⟨rfl, rfl⟩ := Prod.mk.inj hret
    refine ⟨iff_of_false hfails fun hup => ?_, e₁, rfl, hoff⟩
    exact hfails (hs₁.mpr hup.1)
  · rw [traces_bind] at hrest
    obtain ⟨t₂, u, ⟨s₂, e₂⟩, rfl, hgrdma, _, hret⟩ := hrest
    obtain ⟨rfl, rfl⟩ := Prod.mk.inj hret
    obtain ⟨hs₂, hsame⟩ := registerGrdma_boots hdevice hgrdma
    refine ⟨?_, e₂, rfl, fun hfails => ?_⟩
    · rw [hs₂, PathsUp, and_iff_right (hs₁.mp rfl)]
    · rw [hsame]
      exact hoff hfails

theorem spawnStreams_boots {klass : StreamClass} {priority : Int32} {n : ℕ} {m m' : MicroKernel}
    {s : Status}
    (h : Traces (Boots d gds grdma) (MicroKernel.spawnStreams klass priority n m) t (s, m')) :
    s = .ok := by
  induction n generalizing m t with
  | zero =>
    obtain ⟨_, hret⟩ := h
    exact (Prod.mk.inj hret).1
  | succ n ih =>
    simp only [MicroKernel.spawnStreams, Platform.createStream, traces_op_bind] at h
    obtain ⟨⟨s₁, raw⟩, u, hs, _, h⟩ := h
    exact ih (traces_of_ok hs h)

theorem spawnStreamPool_boots {m m' : MicroKernel} {nCompute nDma : UInt32} {s : Status}
    (h : Traces (Boots d gds grdma) (m.spawnStreamPool nCompute nDma) t (s, m')) : s = .ok := by
  rw [MicroKernel.spawnStreamPool, traces_bind] at h
  obtain ⟨t₁, u, ⟨s₁, m₁⟩, rfl, hcompute, h⟩ := h
  have hrest := traces_of_ok (spawnStreams_boots hcompute) h
  rw [traces_bind] at hrest
  obtain ⟨t₂, u, ⟨s₂, m₂⟩, rfl, hdma, h⟩ := hrest
  have hfence := traces_of_ok (spawnStreams_boots hdma) h
  split at hfence
  · exact spawnStreams_boots hfence
  · obtain ⟨_, hret⟩ := hfence
    exact (Prod.mk.inj hret).1

theorem spawnScheduler_boots {d' : DeviceDesc} {opts : BootOptions} {ctx ctx' : FirmwareContext}
    {s : Status} (h : Traces (Boots d gds grdma) (spawnScheduler d' opts ctx) t (s, ctx')) :
    s = .ok ∧ ctx'.dma = ctx.dma := by
  rw [spawnScheduler, traces_bind] at h
  obtain ⟨t, _, ⟨s₁, m⟩, rfl, hspawn, _, hret⟩ := h
  obtain ⟨rfl, rfl⟩ := Prod.mk.inj hret
  exact ⟨spawnStreamPool_boots hspawn, rfl⟩

theorem attachFaultHandler_boots {d' : DeviceDesc} {opts : BootOptions}
    {ctx ctx' : FirmwareContext} {s : Status}
    (h : Traces (Boots d gds grdma) (attachFaultHandler d' opts ctx) t (s, ctx')) :
    s = .ok ∧ ctx'.dma = ctx.dma := by
  rw [attachFaultHandler, traces_bind] at h
  obtain ⟨t, _, ⟨s₁, f⟩, rfl, hinstall, _, hret⟩ := h
  obtain ⟨rfl, rfl⟩ := Prod.mk.inj hret
  refine ⟨?_, rfl⟩
  rw [FaultHandler.install] at hinstall
  split at hinstall
  · obtain ⟨_, hret⟩ := hinstall
    exact (Prod.mk.inj hret).1
  · rw [Platform.allocHbm, traces_op_bind] at hinstall
    obtain ⟨⟨s₂, buf⟩, u, hs, _, h⟩ := hinstall
    obtain ⟨s₃, u, _, _, _, hret⟩ := traces_of_ok hs h
    exact (Prod.mk.inj hret).1

def Reports (opts : BootOptions) (r : BootResult) (ev : List BootEvent) : Prop :=
  r.status = .ok ∧ (opts.onEvent = true → ∃ e ∈ ev, e.phase = .ready ∧ e.status = .ok)

theorem bootSubsystems_boots {opts : BootOptions} {ctx : FirmwareContext} {ev ev' : List BootEvent}
    {r : BootResult} (h : Traces (Boots d gds grdma) (bootSubsystems d opts ctx ev) t (r, ev')) :
    (Reports opts r ev' ↔ PathsUp d opts gds grdma) ∧
      ∃ ctx' e, r.ctx = some ctx' ∧ ctx'.dma = some e ∧ (gds ≠ .ok → e.gdsEnabled = false) := by
  rw [bootSubsystems, traces_bind] at h
  obtain ⟨t₁, u, ⟨s₁, ctx₁⟩, rfl, hdma, h⟩ := h
  obtain ⟨hs₁, e, rfl, hoff⟩ := registerDma_boots hdma
  rcases traces_unless h with ⟨hfails, _, hret⟩ | ⟨rfl, hrest⟩
  · obtain ⟨rfl, rfl⟩ := Prod.mk.inj hret
    refine ⟨iff_of_false (fun hreports => hfails hreports.1) ?_, _, e, rfl, rfl, hoff⟩
    exact fun hup => hfails (hs₁.mpr hup)
  rw [traces_bind] at hrest
  obtain ⟨t₂, u, ⟨s₂, ctx₂⟩, rfl, hspawn, h⟩ := hrest
  obtain ⟨rfl, hdma₂⟩ := spawnScheduler_boots hspawn
  have hrest := traces_of_ok rfl h
  rw [traces_bind] at hrest
  obtain ⟨t₃, u, ⟨s₃, ctx₃⟩, rfl, hattach, h⟩ := hrest
  obtain ⟨rfl, hdma₃⟩ := attachFaultHandler_boots hattach
  obtain ⟨_, hret⟩ := traces_of_ok rfl h
  obtain ⟨rfl, rfl⟩ := Prod.mk.inj hret
  obtain ⟨ilc, hilc, _⟩ := initIlc_cases d opts ctx₃
  have hlast : (initIlc d opts ctx₃).2.dma = some e := by
    rw [hilc]
    exact hdma₃.trans hdma₂
  refine ⟨iff_of_true ⟨rfl, fun hcallback => ?_⟩ (hs₁.mp rfl), _, e, rfl, hlast, hoff⟩
  refine ⟨⟨.ready, .ok, "firmware-equivalent layer ready"⟩, ?_, rfl, rfl⟩
  simp [emit, hcallback]

theorem boot_boots {opts : BootOptions} {r : BootResult} {ev : List BootEvent}
    (hd : d.vendor ≠ .unknown) (h : Traces (Boots d gds grdma) (boot opts) t (r, ev)) :
    (Reports opts r ev ↔ PathsUp d opts gds grdma) ∧
      ∃ ctx e, r.ctx = some ctx ∧ ctx.dma = some e ∧ (gds ≠ .ok → e.gdsEnabled = false) := by
  rw [boot, traces_bind] at h
  obtain ⟨t₁, u, ⟨s₁, d₁⟩, rfl, hprobe, h⟩ := h
  obtain ⟨rfl, rfl⟩ := probeDriver_boots hd hprobe
  have hrest := traces_of_ok rfl h
  -- the status of the clocks goes into an event and nowhere else
  rw [Platform.lockClocks, traces_op_bind] at hrest
  obtain ⟨s₂, u, _, rfl, hrest⟩ := hrest
  rw [traces_bind] at hrest
  obtain ⟨t₂, u, ⟨s₃, ctx₃⟩, rfl, hhbm, h⟩ := hrest
  cases initHbm_boots hhbm
  exact bootSubsystems_boots (traces_of_ok rfl h)

theorem Used.gds_off {e e' : DmaEngine} (hfails : gds ≠ .ok) (hoff : e.gdsEnabled = false)
    (h : Used (Boots d gds grdma) e e') : e'.gdsEnabled = false := by
  obtain ⟨c, t, h⟩ := h
  cases c with
  | enableGds =>
    obtain ⟨_, _, ⟨s, e₁⟩, _, hcall, _, rfl⟩ := (traces_bind _ _ _ _).mp h
    obtain ⟨u, hu⟩ := hcall.of_translate fun _ _ hA => hA
    rw [(enableGds_boots hu).2, if_neg (by simp [hfails])]
    exact hoff
  | enableGrdma =>
    obtain ⟨_, _, ⟨s, e₁⟩, _, hcall, _, rfl⟩ := (traces_bind _ _ _ _).mp h
    obtain ⟨u, hu⟩ := hcall.of_translate fun _ _ hA => hA
    rw [(enableGrdma_boots hu).2]
    exact hoff
  | shutdown =>
    obtain ⟨u, hu⟩ := Traces.of_translate (fun _ _ hA => hA) h
    rw [(dmaShutdown_calls hu).2]
    rfl
  | submit r =>
    obtain ⟨_, _, _, _, _, rfl⟩ := h
    exact hoff
  | wait event timeoutMs =>
    obtain ⟨_, _, _, _, _, rfl⟩ := h
    exact hoff
  | gdsRead path off dst bytes =>
    obtain ⟨_, _, _, _, _, _, rfl⟩ := (traces_bind _ _ _ _).mp h
    exact hoff
  | gdsWrite path off src bytes =>
    obtain ⟨_, _, _, _, _, _, rfl⟩ := (traces_bind _ _ _ _).mp h
    exact hoff

theorem DmaEngine.gds_fallback {e : DmaEngine} (hoff : e.gdsEnabled = false) (path : String)
    (off : UInt64) (p : Ptr) (bytes : UInt64) :
    e.gdsRead path off p bytes = Transfer.gdsReadFallback path off p bytes ∧
      e.gdsWrite path off p bytes = Transfer.gdsWriteFallback path off p bytes := by
  simp [gdsRead, gdsWrite, hoff]

theorem boot_degrades_iff (opts : BootOptions) (d : DeviceDesc) (gds grdma : Status)
    (t : List PlatformEvent) (r : BootResult) (ev : List BootEvent) (hd : d.vendor ≠ .unknown)
    (h : Traces (Boots d gds grdma) (boot opts) t (r, ev)) :
    (Reports opts r ev ↔
        (d.features.gds = true → opts.enableGds = true → gds = .ok) ∧
          (d.features.grdma = true → opts.enableGrdma = true → grdma = .ok)) ∧
      (gds ≠ .ok → ∃ ctx e, r.ctx = some ctx ∧ ctx.dma = some e ∧
        ∀ e', Relation.ReflTransGen (Used (Boots d gds grdma)) e e' →
          e'.gdsEnabled = false ∧ ∀ path off p bytes,
            e'.gdsRead path off p bytes = Transfer.gdsReadFallback path off p bytes ∧
              e'.gdsWrite path off p bytes = Transfer.gdsWriteFallback path off p bytes) := by
  obtain ⟨hreports, ctx, e, hctx, hdma, hoff⟩ := boot_boots hd h
  refine ⟨hreports, fun hfails => ⟨ctx, e, hctx, hdma, fun e' hrun => ?_⟩⟩
  have hstays : e'.gdsEnabled = false := by
    induction hrun with
    | refl => exact hoff hfails
    | tail _ hused ih => exact hused.gds_off hfails ih
  exact ⟨hstays, e'.gds_fallback hstays⟩

def ampere : DeviceDesc where
  vendor := .nvidia
  arch := .ampere
  features := { gds := true }

def withoutGds (d : DeviceDesc) (c : PlatformCall) : c.Answer :=
  match c with
  | .gdsInit => .notImplemented
  | c => succeedingBackend d c

theorem boots_withoutGds (d : DeviceDesc) (c : PlatformCall) :
    Boots d .notImplemented .ok c (withoutGds d c) := by
  cases c <;> first | exact rfl | exact trivial

theorem boot_degrades_iff_disabled :
    ∃ t r ev, Traces (Boots ampere .notImplemented .ok) (boot { enableGds := false }) t (r, ev) ∧
      r.status = .ok := by
  have ht := traces_traceWith (boots_withoutGds ampere) (boot { enableGds := false })
  refine ⟨_, _, _, ht, ?_⟩
  exact ((boot_degrades_iff _ _ _ _ _ _ _ (by decide) ht).1.mpr (by decide)).1

theorem boot_fails_without_gds : ¬ ∀ (opts : BootOptions) (d : DeviceDesc) (gds grdma : Status)
    (t : List PlatformEvent) (r : BootResult) (ev : List BootEvent), d.vendor ≠ .unknown →
      Traces (Boots d gds grdma) (boot opts) t (r, ev) → Reports opts r ev := by
  intro hall
  have ht := traces_traceWith (boots_withoutGds ampere) (boot {})
  exact absurd (hall _ _ _ _ _ _ _ (by decide) ht).1 (by decide)

end NexusRT.Firmware

import NexusRT.Firmware.Boot
import NexusRT.Library.Trace

/-!
The front door of the platform, which passes every call on to one of the registered backends.
-/

namespace NexusRT

open Prog

/-- The backends are told apart by their addresses. -/
inductive BackendCall
  | probe (backend : Ptr)
  | forward (backend : Ptr) (c : PlatformCall)

abbrev BackendCall.Answer : BackendCall → Type
  | .probe _ => Bool
  | .forward _ c => c.Answer

abbrev BackendProg := Prog BackendCall BackendCall.Answer

structure PlatformDispatch where
  backends : Table Vendor Ptr := .empty
  active : Option Ptr := none

namespace PlatformDispatch

def registerBackend (d : PlatformDispatch) (v : Vendor) (impl : Ptr) : PlatformDispatch :=
  { d with backends := d.backends.insert v impl }

def probeEach : List Vendor → PlatformDispatch → BackendProg (Bool × PlatformDispatch)
  | [], d => return (false, d)
  | v :: vs, d => match d.backends.find v with
    | none => probeEach vs d
    | some impl => do
      let found ← op (BackendCall.probe impl)
      if found then return (true, { d with active := some impl }) else probeEach vs d

def probe (d : PlatformDispatch) : BackendProg (Bool × PlatformDispatch) :=
  if d.active.isSome then return (true, d) else probeEach [.nvidia, .apple] d

def nullPlatform : (c : PlatformCall) → c.Answer
  | .probe => false
  | .describeDevice _ => {}
  | .lockClocks _ => .deviceNotFound
  | .reserveVaddress _ => .deviceNotFound
  | .mapHbmPool => .deviceNotFound
  | .releaseVaddress => .ok
  | .allocHbm _ => (.outOfMemory, 0)
  | .freeHbm _ => .ok
  | .createStream _ _ => (.deviceNotFound, 0)
  | .destroyStream _ => .ok
  | .syncStream _ => .ok
  | .loadModule _ _ => (.deviceNotFound, 0, .empty)
  | .launchKernel _ _ _ _ _ _ => .deviceNotFound
  | .gdsInit => .notImplemented
  | .gdsFini => .ok
  | .grdmaInit => .notImplemented
  | .grdmaFini => .ok
  | .installFaultBuffer _ _ => .ok
  | .uninstallFaultBuffer _ => .ok
  | .ilcTag _ => .notImplemented
  | .ilcUntag _ => .ok

/-- `none` is the null platform. -/
def backend (d : PlatformDispatch) : BackendProg (Option Ptr × PlatformDispatch) := do
  if d.active.isSome then return (d.active, d) else
  let (_, d) ← d.probe
  return (d.active, d)

def forward (d : PlatformDispatch) (c : PlatformCall) : BackendProg (c.Answer × PlatformDispatch) := do
  let (b, d) ← d.backend
  match b with
  | none => return (nullPlatform c, d)
  | some b => do
    let r ← op (BackendCall.forward b c)
    return (r, d)

def serve : (c : PlatformCall) → PlatformDispatch → BackendProg (c.Answer × PlatformDispatch)
  | .probe, d => d.probe
  | c, d => d.forward c

inductive DispatchOp
  | register (v : Vendor) (impl : Ptr)
  | run (p : PlatformProg Unit)

def history : List DispatchOp → PlatformDispatch → BackendProg PlatformDispatch
  | [], d => return d
  | .register v impl :: ops, d => history ops (d.registerBackend v impl)
  | .run p :: ops, d => do
    let (_, d) ← p.interpWith serve d
    history ops d

def registered : List DispatchOp → Table Vendor Ptr → Table Vendor Ptr
  | [], backends => backends
  | .register v impl :: ops, backends => registered ops (backends.insert v impl)
  | .run _ :: ops, backends => registered ops backends

abbrev PlatformEvent := Event PlatformCall PlatformCall.Answer

abbrev BackendEvent := Event BackendCall BackendCall.Answer

def heard (b : Ptr) : PlatformEvent → Option BackendEvent
  | ⟨.probe, _⟩ => none
  | ⟨c, r⟩ => some ⟨.forward b c, r⟩

def Refused (t : List BackendEvent) : Prop := ∀ e ∈ t, ∃ b, e = ⟨.probe b, false⟩

def OnNull (w : List PlatformEvent) : Prop := ∀ e ∈ w, e.2 = nullPlatform e.1

structure OnBackend (b : Ptr) (w : List PlatformEvent) (t : List BackendEvent) : Prop where
  heard : t = w.filterMap (heard b)
  found : ∀ r, ⟨.probe, r⟩ ∈ w → r = true

def Chosen (backends : Table Vendor Ptr) (b : Ptr) (t : List BackendEvent) : Prop :=
  backends.find .nvidia = some b ∨ backends.find .apple = some b ∧
    ∀ x, backends.find .nvidia = some x → ∃ t', t = t' ++ [⟨.probe x, false⟩]

inductive View (S : Table Vendor Ptr → Prop) :
    Option Ptr → List PlatformEvent → List BackendEvent → Option Ptr → Prop
  | unselected (w : List PlatformEvent) (t : List BackendEvent) (hnull : OnNull w)
      (hrefused : Refused t) : View S none w t none
  | selected (b : Ptr) (w : List PlatformEvent) (t : List BackendEvent) (h : OnBackend b w t) :
      View S (some b) w t (some b)
  | select (b : Ptr) (w₁ w₂ : List PlatformEvent) (t₁ t₂ : List BackendEvent) (hnull : OnNull w₁)
      (hrefused : Refused t₁) (backends : Table Vendor Ptr) (hbackends : S backends)
      (hchosen : Chosen backends b t₁) (h : OnBackend b w₂ t₂) :
      View S none (w₁ ++ w₂) (t₁ ++ ⟨.probe b, true⟩ :: t₂) (some b)

variable {a b : Option Ptr} {w w' : List PlatformEvent} {t t' : List BackendEvent}
  {d d' : PlatformDispatch} {S S' : Table Vendor Ptr → Prop}

theorem Chosen.prepend {backends : Table Vendor Ptr} {x : Ptr} (h : Chosen backends x t')
    (t : List BackendEvent) : Chosen backends x (t ++ t') := by
  rcases h with hnvidia | ⟨happle, hrefused⟩
  · exact .inl hnvidia
  · refine .inr ⟨happle, fun y hy => ?_⟩
    obtain ⟨u, rfl⟩ := hrefused y hy
    exact ⟨t ++ u, (List.append_assoc ..).symm⟩

theorem OnBackend.append {x : Ptr} (h : OnBackend x w t) (h' : OnBackend x w' t') :
    OnBackend x (w ++ w') (t ++ t') := by
  refine ⟨?_, fun r hr => ?_⟩
  · rw [h.heard, h'.heard, List.filterMap_append]
  · exact (List.mem_append.mp hr).elim (h.found r) (h'.found r)

theorem View.refl (a : Option Ptr) : View S a [] [] a := by
  cases a with
  | none => exact .unselected _ _ (by simp [OnNull]) (by simp [Refused])
  | some b => exact .selected b _ _ ⟨rfl, by simp⟩

theorem View.mono (h : View S a w t b) (hS : ∀ backends, S backends → S' backends) :
    View S' a w t b := by
  cases h with
  | unselected w t hnull hrefused => exact .unselected w t hnull hrefused
  | selected x w t h => exact .selected x w t h
  | select x w₁ w₂ t₁ t₂ hnull hrefused backends hbackends hchosen h =>
    exact .select x w₁ w₂ t₁ t₂ hnull hrefused backends (hS _ hbackends) hchosen h

theorem View.trans {c : Option Ptr} (h : View S a w t b) (h' : View S b w' t' c) :
    View S a (w ++ w') (t ++ t') c := by
  cases h with
  | unselected w t hnull hrefused =>
    cases h' with
    | unselected w' t' hnull' hrefused' =>
      exact .unselected _ _ (List.forall_mem_append.mpr ⟨hnull, hnull'⟩)
        (List.forall_mem_append.mpr ⟨hrefused, hrefused'⟩)
    | select x w₁ w₂ t₁ t₂ hnull' hrefused' backends hbackends hchosen hon =>
      rw [← List.append_assoc, ← List.append_assoc]
      exact .select x _ _ _ _ (List.forall_mem_append.mpr ⟨hnull, hnull'⟩)
        (List.forall_mem_append.mpr ⟨hrefused, hrefused'⟩) backends hbackends (hchosen.prepend t) hon
  | selected x w t hon =>
    cases h' with
    | selected _ w' t' hon' => exact .selected x _ _ (hon.append hon')
  | select x w₁ w₂ t₁ t₂ hnull hrefused backends hbackends hchosen hon =>
    cases h' with
    | selected _ w' t' hon' =>
      rw [List.append_assoc, List.append_assoc, List.cons_append]
      exact .select x _ _ _ _ hnull hrefused backends hbackends hchosen (hon.append hon')

theorem probeEach_cons {v : Vendor} {vs : List Vendor} {found : Bool}
    (h : Traces (fun _ _ => True) (probeEach (v :: vs) d) t (found, d')) :
    (∃ x, d.backends.find v = some x ∧ t = [⟨.probe x, true⟩] ∧ found = true ∧
        d' = { d with active := some x }) ∨
      ∃ u u', t = u ++ u' ∧ Traces (fun _ _ => True) (probeEach vs d) u' (found, d') ∧ Refused u ∧
        ∀ x, d.backends.find v = some x → u = [⟨.probe x, false⟩] := by
  rw [probeEach] at h
  cases himpl : d.backends.find v with
  | none =>
    rw [himpl] at h
    exact .inr ⟨[], t, rfl, h, by simp [Refused], by simp⟩
  | some impl =>
    rw [himpl] at h
    obtain ⟨said, u, _, rfl, h⟩ := h
    cases said with
    | true =>
      obtain ⟨rfl, heq⟩ := h
      obtain ⟨rfl, rfl⟩ := Prod.mk.inj heq
      exact .inl ⟨impl, rfl, rfl, rfl, rfl⟩
    | false =>
      exact .inr ⟨[_], u, rfl, h, List.forall_mem_singleton.mpr ⟨impl, rfl⟩, by simp⟩

theorem probe_view {found : Bool} (h : Traces (fun _ _ => True) d.probe t (found, d')) :
    found = d'.active.isSome ∧ d'.backends = d.backends ∧
      View (· = d.backends) d.active [] t d'.active := by
  rw [probe] at h
  cases hd : d.active with
  | some x =>
    rw [hd] at h
    obtain ⟨rfl, heq⟩ := h
    obtain ⟨rfl, rfl⟩ := Prod.mk.inj heq
    rw [hd]
    exact ⟨rfl, rfl, .refl _⟩
  | none =>
    rw [hd] at h
    have hselect {x : Ptr} {u : List BackendEvent} (hrefused : Refused u) (hx : Chosen d.backends x u) :
        View (· = d.backends) none [] (u ++ [⟨.probe x, true⟩]) (some x) :=
      .select x [] [] u [] (by simp [OnNull]) hrefused _ rfl hx ⟨rfl, by simp⟩
    rcases probeEach_cons h with ⟨x, hx, rfl, rfl, rfl⟩ | ⟨u, v, rfl, h, hu, hnvidia⟩
    · exact ⟨rfl, rfl, hselect (u := []) (by simp [Refused]) (.inl hx)⟩
    · rcases probeEach_cons h with ⟨x, hx, rfl, rfl, rfl⟩ | ⟨u', v', rfl, h, hu', _⟩
      · exact ⟨rfl, rfl, hselect hu (.inr ⟨hx, fun y hy => ⟨[], hnvidia y hy⟩⟩)⟩
      · obtain ⟨rfl, heq⟩ := h
        obtain ⟨rfl, rfl⟩ := Prod.mk.inj heq
        rw [hd, List.append_nil]
        exact ⟨rfl, rfl, .unselected _ _ (by simp [OnNull]) (List.forall_mem_append.mpr ⟨hu, hu'⟩)⟩

theorem backend_view (h : Traces (fun _ _ => True) d.backend t (b, d')) :
    b = d'.active ∧ d'.backends = d.backends ∧ View (· = d.backends) d.active [] t d'.active := by
  rw [backend] at h
  cases hd : d.active with
  | none =>
    rw [hd] at h
    change Traces _ (d.probe >>= fun s => .ret (s.2.active, s.2)) t (b, d') at h
    rw [traces_bind] at h
    obtain ⟨u, _, ⟨found, e⟩, rfl, hprobe, rfl, heq⟩ := h
    obtain ⟨rfl, rfl⟩ := Prod.mk.inj heq
    rw [List.append_nil, ← hd]
    exact ⟨rfl, (probe_view hprobe).2⟩
  | some x =>
    rw [hd] at h
    obtain ⟨rfl, heq⟩ := h
    obtain ⟨rfl, rfl⟩ := Prod.mk.inj heq
    rw [hd]
    exact ⟨rfl, rfl, .refl _⟩

theorem view_probe (a : Option Ptr) : View S a [⟨.probe, a.isSome⟩] [] a := by
  cases a with
  | none => exact .unselected _ _ (List.forall_mem_singleton.mpr rfl) (by simp [Refused])
  | some x => exact .selected x _ _ ⟨rfl, fun r hr => by simpa using hr⟩

theorem serve_eq {c : PlatformCall} (hc : c ≠ .probe) : serve c d = d.forward c := by
  cases c <;> first | rfl | exact absurd rfl hc

theorem heard_eq {c : PlatformCall} (hc : c ≠ .probe) (x : Ptr) (r : c.Answer) :
    heard x ⟨c, r⟩ = some ⟨.forward x c, r⟩ := by
  cases c <;> first | rfl | exact absurd rfl hc

theorem onBackend_forward {c : PlatformCall} (hc : c ≠ .probe) (x : Ptr) (r : c.Answer) :
    OnBackend x [⟨c, r⟩] [⟨.forward x c, r⟩] := by
  refine ⟨by rw [List.filterMap_cons, heard_eq hc]; rfl, fun r' hr' => ?_⟩
  obtain ⟨rfl, _⟩ := Sigma.mk.inj (List.mem_singleton.mp hr')
  exact absurd rfl hc

theorem serve_view {c : PlatformCall} {r : c.Answer}
    (h : Traces (fun _ _ => True) (serve c d) t (r, d')) :
    d'.backends = d.backends ∧ View (· = d.backends) d.active [⟨c, r⟩] t d'.active := by
  by_cases hc : c = .probe
  · subst hc
    obtain ⟨rfl, hbackends, hview⟩ := probe_view h
    have hasked := hview.trans (view_probe d'.active)
    rw [List.append_nil] at hasked
    exact ⟨hbackends, hasked⟩
  · rw [serve_eq hc, forward, traces_bind] at h
    obtain ⟨u, v, ⟨b, e⟩, rfl, hbackend, h⟩ := h
    obtain ⟨rfl, hbackends, hview⟩ := backend_view hbackend
    suffices hrest : d'.backends = e.backends ∧
        View (· = d.backends) e.active [⟨c, r⟩] v d'.active from
      ⟨hrest.1.trans hbackends, hview.trans hrest.2⟩
    cases he : e.active with
    | none =>
      rw [he] at h
      obtain ⟨rfl, heq⟩ := h
      obtain ⟨rfl, rfl⟩ := Prod.mk.inj heq
      rw [he]
      exact ⟨rfl, .unselected _ _ (List.forall_mem_singleton.mpr rfl) (by simp [Refused])⟩
    | some x =>
      rw [he] at h
      obtain ⟨said, _, _, rfl, rfl, heq⟩ := h
      obtain ⟨rfl, rfl⟩ := Prod.mk.inj heq
      rw [he]
      exact ⟨rfl, .selected x _ _ (onBackend_forward hc x r)⟩

theorem interp_view {α : Type} {p : PlatformProg α} {x : α}
    (h : Traces (fun _ _ => True) (p.interpWith serve d) t (x, d')) : d'.backends = d.backends ∧
      ∃ w, Traces anyBackend p w x ∧ View (· = d.backends) d.active w t d'.active := by
  induction p generalizing d t with
  | ret y =>
    obtain ⟨rfl, heq⟩ := h
    obtain ⟨rfl, rfl⟩ := Prod.mk.inj heq
    exact ⟨rfl, [], ⟨rfl, rfl⟩, .refl _⟩
  | call c k ih =>
    rw [interpWith, traces_bind] at h
    obtain ⟨u, v, ⟨r, e⟩, rfl, hserve, hrest⟩ := h
    obtain ⟨hserved, hcall⟩ := serve_view hserve
    obtain ⟨hbackends, w, hw, hview⟩ := ih r hrest
    rw [hserved] at hbackends hview
    exact ⟨hbackends, ⟨c, r⟩ :: w, ⟨r, w, trivial, rfl, hw⟩, hcall.trans hview⟩

section Boot

open Firmware

variable {opts : BootOptions} {r : BootResult × List BootEvent}

theorem boot_asks (opts : BootOptions) : ∃ k ev, boot opts = .call .probe k ∧
    k false = .ret ({ status := .deviceNotFound }, ev) := ⟨_, _, rfl, rfl⟩

theorem boot_one_backend (opts : BootOptions) (d d' : PlatformDispatch) (t : List BackendEvent)
    (r : BootResult × List BootEvent) (hd : d.active = none)
    (h : Traces (fun _ _ => True) ((boot opts).interpWith serve d) t (r, d')) :
    (d'.active = none ∧ Refused t ∧ r.1 = { status := .deviceNotFound }) ∨
      ∃ b t₁ w, d'.active = some b ∧ Refused t₁ ∧
        Traces anyBackend (boot opts) (⟨.probe, true⟩ :: w) r ∧
        t = t₁ ++ ⟨.probe b, true⟩ :: w.filterMap (heard b) := by
  obtain ⟨k, ev, hboot, hnone⟩ := boot_asks opts
  rw [hboot, interpWith, traces_bind] at h
  obtain ⟨u, v, ⟨found, e⟩, rfl, hprobe, h⟩ := h
  obtain ⟨rfl, _, hview⟩ := probe_view hprobe
  rw [hd] at hview
  generalize he : e.active = active at hview
  generalize hnil : ([] : List PlatformEvent) = w₀ at hview
  cases hview with
  | unselected w₀ u hnull hrefused =>
    change Traces _ ((k e.active.isSome).interpWith serve e) v (r, d') at h
    rw [he, Option.isSome_none, hnone] at h
    obtain ⟨rfl, heq⟩ := h
    obtain ⟨rfl, rfl⟩ := Prod.mk.inj heq
    rw [List.append_nil]
    exact .inl ⟨he, hrefused, rfl⟩
  | select b w₁ w₂ t₁ t₂ hnull hrefused _ _ _ hon =>
    obtain ⟨rfl, rfl⟩ := List.append_eq_nil_iff.mp hnil.symm
    obtain rfl : t₂ = [] := hon.heard
    change Traces _ ((k e.active.isSome).interpWith serve e) v (r, d') at h
    rw [he, Option.isSome_some] at h
    obtain ⟨_, w, hw, hrest⟩ := interp_view h
    rw [he] at hrest
    generalize hd' : d'.active = active' at hrest
    cases hrest with
    | selected _ w v hon' =>
      refine .inr ⟨b, t₁, w, rfl, hrefused, ?_, ?_⟩
      · rw [hboot]
        exact ⟨true, w, trivial, rfl, hw⟩
      · rw [hon'.heard, List.append_assoc, List.singleton_append]

def bootRun : List BackendEvent × (BootResult × List BootEvent) × PlatformDispatch :=
  traceWith (fun
      | .probe _ => true
      | .forward _ (.describeDevice _) => { vendor := .apple }
      | .forward _ c => nullPlatform c)
    ((boot {}).interpWith serve { backends := Table.empty.insert .apple 8 })

theorem boot_one_backend_apple : bootRun.2.2.active = some 8 ∧ ∃ w,
    Traces anyBackend (boot {}) (⟨.probe, true⟩ :: w) bootRun.2.1 := by
  have hactive : bootRun.2.2.active = some 8 := by rfl
  rcases boot_one_backend {} { backends := Table.empty.insert .apple 8 } bootRun.2.2 bootRun.1
    bootRun.2.1 rfl (traces_traceWith (fun _ => trivial) _) with ⟨hnone, _⟩ | ⟨b, _, w, _, _, hw, _⟩
  · rw [hactive] at hnone
    cases hnone
  · exact ⟨hactive, w, hw⟩

end Boot

end PlatformDispatch

end NexusRT

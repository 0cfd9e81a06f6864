import NexusRT.Firmware.BootRelease

namespace NexusRT.Firmware

open Prog

def BootPhase.order : List BootPhase :=
  [.preInit, .driverProbe, .clockConfig, .hbmController, .dmaEngine, .schedulerSpawn, .faultHandler,
    .ilcInit, .ready]

def BootPhase.Tolerated (p : BootPhase) : Prop := p = .clockConfig ∨ p = .ilcInit

instance (p : BootPhase) : Decidable p.Tolerated := inferInstanceAs (Decidable (_ ∨ _))

structure Logged (ev : List BootEvent) (r : BootResult) : Prop where
  nonempty : ev ≠ []
  phases : ev.map BootEvent.phase <+: BootPhase.order
  last : ∃ e, ev.getLast? = some e ∧ e.status = r.status
  ready : .ready ∈ ev.map BootEvent.phase ↔ r.status = .ok
  fails : ∀ l e l', ev = l ++ e :: l' → e.status ≠ .ok → (e.phase.Tolerated ↔ l' ≠ [])
  ctx : r.ctx = none ↔ ∃ e ∈ ev, e.phase = .driverProbe ∧ e.status ≠ .ok

structure Going (ev : List BootEvent) (n : ℕ) : Prop where
  phases : ev.map BootEvent.phase = BootPhase.order.take n
  fails : ∀ e ∈ ev, e.status ≠ .ok → e.phase.Tolerated

def Reported (opts : BootOptions) (P : List BootEvent → Prop) (ev : List BootEvent) : Prop :=
  (opts.onEvent = false ∧ ev = []) ∨ (opts.onEvent = true ∧ P ev)

variable {opts : BootOptions} {ev : List BootEvent} {n : ℕ} {e : BootEvent} {r : BootResult}

theorem Reported.emit {P Q : List BootEvent → Prop} {p : BootPhase} {s : Status} {detail : String}
    (h : Reported opts P ev) (hPQ : P ev → Q (ev ++ [⟨p, s, detail⟩])) :
    Reported opts Q (emit opts ev p s detail) := by
  unfold Firmware.emit
  rcases h with ⟨hoff, rfl⟩ | ⟨hon, hev⟩
  · exact .inl ⟨hoff, by simp [hoff]⟩
  · right
    rw [if_pos hon]
    exact ⟨hon, hPQ hev⟩

theorem Going.phases_append (h : Going ev n) (he : BootPhase.order[n]? = some e.phase) :
    (ev ++ [e]).map BootEvent.phase = BootPhase.order.take (n + 1) := by
  rw [List.map_append, h.phases, List.take_add_one, he]
  rfl

theorem Going.next (h : Going ev n) (he : BootPhase.order[n]? = some e.phase)
    (hgoes : e.status = .ok ∨ e.phase.Tolerated) : Going (ev ++ [e]) (n + 1) := by
  refine ⟨h.phases_append he, fun e' hmem hfails => ?_⟩
  rcases List.mem_append.mp hmem with hev | hlast
  · exact h.fails e' hev hfails
  · obtain rfl := List.mem_singleton.mp hlast
    exact hgoes.resolve_left hfails

theorem ready_mem_take (h : BootPhase.order[n]? = some e.phase) :
    .ready ∈ BootPhase.order.take (n + 1) ↔ e.phase = .ready := by
  have hall : ∀ i : Fin 9, .ready ∈ BootPhase.order.take (i + 1) ↔
      BootPhase.order[i.val]? = some .ready := by decide
  have hn := (List.getElem?_eq_some_iff.mp h).1
  rw [hall ⟨n, hn⟩, h, Option.some_inj]

theorem Going.stop (h : Going ev n) (he : BootPhase.order[n]? = some e.phase)
    (hstops : ¬ e.phase.Tolerated) (hready : e.status = .ok ↔ e.phase = .ready)
    (hstatus : r.status = e.status) (hctx : r.ctx = none ↔ e.phase = .driverProbe) :
    Logged (ev ++ [e]) r := by
  refine ⟨by simp, ?_, ⟨e, List.getLast?_concat, hstatus.symm⟩, ?_, ?_, ?_⟩
  · rw [h.phases_append he]
    exact List.take_prefix _ _
  · rw [h.phases_append he, ready_mem_take he, hstatus, hready]
  · intro l e' l' hsplit hfails
    rcases List.eq_nil_or_concat l' with rfl | ⟨m, x, rfl⟩
    · obtain ⟨_, hlast⟩ := List.append_inj' hsplit rfl
      obtain rfl := List.singleton_inj.mp hlast
      simpa using hstops
    · rw [List.concat_eq_append, ← List.cons_append, ← List.append_assoc] at hsplit
      obtain ⟨rfl, _⟩ := List.append_inj' hsplit rfl
      have htolerated := h.fails e' (by simp) hfails
      simpa using htolerated
  · rw [hctx]
    constructor
    · intro hprobe
      refine ⟨e, List.mem_append_right _ (List.mem_singleton_self _), hprobe, fun hok => ?_⟩
      have hphase := hready.mp hok
      rw [hprobe] at hphase
      cases hphase
    · rintro ⟨e', hmem, hphase, hfails⟩
      rcases List.mem_append.mp hmem with hev | hlast
      · have htolerated := h.fails e' hev hfails
        rw [hphase] at htolerated
        exact absurd htolerated (by decide)
      · obtain rfl := List.mem_singleton.mp hlast
        exact hphase

section Reported

variable {p : BootPhase} {s : Status}

theorem Reported.next (h : Reported opts (Going · n) ev) (hp : BootPhase.order[n]? = some p)
    (hgoes : s = .ok ∨ p.Tolerated) (detail : String) :
    Reported opts (Going · (n + 1)) (Firmware.emit opts ev p s detail) :=
  h.emit fun hgoing => hgoing.next hp hgoes

theorem Reported.stop (h : Reported opts (Going · n) ev) (hp : BootPhase.order[n]? = some p)
    (hstops : ¬ p.Tolerated) (hready : s = .ok ↔ p = .ready) (hstatus : r.status = s)
    (hctx : r.ctx = none ↔ p = .driverProbe) (detail : String) :
    Reported opts (Logged · r) (Firmware.emit opts ev p s detail) :=
  h.emit fun hgoing => hgoing.stop hp hstops hready hstatus hctx

theorem Reported.fail (h : Reported opts (Going · n) ev) (hp : BootPhase.order[n]? = some p)
    (hstops : ¬ p.Tolerated) (hlate : p ≠ .ready ∧ p ≠ .driverProbe) (hs : s ≠ .ok)
    (ctx : FirmwareContext) (detail : String) :
    Reported opts (Logged · { status := s, ctx := some ctx }) (Firmware.emit opts ev p s detail) :=
  h.stop hp hstops ⟨fun hok => absurd hok hs, fun hready => absurd hready hlate.1⟩ rfl
    ⟨fun hnone => absurd hnone (Option.some_ne_none ctx), fun hprobe => absurd hprobe hlate.2⟩ detail

end Reported

variable {A : (c : PlatformCall) → c.Answer → Prop} {t : List PlatformEvent}

theorem bootSubsystems_reported {d : DeviceDesc} {ctx : FirmwareContext} {ev' : List BootEvent}
    (hev : Reported opts (Going · 4) ev) (h : Traces A (bootSubsystems d opts ctx ev) t (r, ev')) :
    r.ctx ≠ none ∧ Reported opts (Logged · r) ev' := by
  rw [bootSubsystems, traces_bind] at h
  obtain ⟨_, u, ⟨s₁, ctx₁⟩, rfl, _, h⟩ := h
  rcases traces_unless h with ⟨hs, _, hret⟩ | ⟨rfl, hrest⟩
  · obtain ⟨rfl, rfl⟩ := Prod.mk.inj hret
    exact ⟨Option.some_ne_none ctx₁, hev.fail rfl (by decide) (by decide) hs ctx₁ _⟩
  have hev₁ := hev.next rfl (.inl rfl)
  rw [traces_bind] at hrest
  obtain ⟨_, u, ⟨s₂, ctx₂⟩, rfl, _, h⟩ := hrest
  rcases traces_unless h with ⟨hs, _, hret⟩ | ⟨rfl, hrest⟩
  · obtain ⟨rfl, rfl⟩ := Prod.mk.inj hret
    exact ⟨Option.some_ne_none ctx₂, (hev₁ _).fail rfl (by decide) (by decide) hs ctx₂ _⟩
  have hev₂ := (hev₁ "DMA engines up").next rfl (.inl rfl)
  rw [traces_bind] at hrest
  obtain ⟨_, u, ⟨s₃, ctx₃⟩, rfl, _, h⟩ := hrest
  rcases traces_unless h with ⟨hs, _, hret⟩ | ⟨rfl, hrest⟩
  · obtain ⟨rfl, rfl⟩ := Prod.mk.inj hret
    exact ⟨Option.some_ne_none ctx₃, (hev₂ _).fail rfl (by decide) (by decide) hs ctx₃ _⟩
  have hev₃ := (hev₂ "stream pool ready").next rfl (.inl rfl)
  rcases hilc : initIlc d opts ctx₃ with ⟨s₄, ctx₄⟩
  simp only [hilc] at hrest
  obtain ⟨_, hret⟩ := hrest
  obtain ⟨rfl, rfl⟩ := Prod.mk.inj hret
  have hev₄ := (hev₃ "fault buffer installed").next (s := s₄) rfl (.inr (.inr rfl))
  exact ⟨Option.some_ne_none ctx₄, (hev₄ _).stop rfl (by decide) (by simp) rfl (by simp) _⟩

theorem boot_reported (opts : BootOptions) (t : List PlatformEvent) (r : BootResult)
    (ev : List BootEvent) (h : Traces anyBackend (boot opts) t (r, ev)) :
    Reported opts (Logged · r) ev ∧ ∃ t₁ t₂ s d, t = t₁ ++ t₂ ∧
      Traces anyBackend (probeDriver opts) t₁ (s, d) ∧ (r.ctx = none ↔ s ≠ .ok) := by
  have hev₀ : Reported opts (Going · 0) [] := by
    cases hon : opts.onEvent with
    | false => exact .inl ⟨hon, rfl⟩
    | true => exact .inr ⟨hon, rfl, by simp⟩
  have hev₁ := hev₀.next rfl (.inl rfl) "boot started"
  rw [boot, traces_bind] at h
  obtain ⟨t₁, u, ⟨s₁, d⟩, rfl, hprobe, h⟩ := h
  rcases traces_unless h with ⟨hs, rfl, hret⟩ | ⟨rfl, hrest⟩
  · obtain ⟨rfl, rfl⟩ := Prod.mk.inj hret
    refine ⟨?_, t₁, [], s₁, d, rfl, hprobe, ⟨fun _ => hs, fun _ => rfl⟩⟩
    have hready : s₁ = .ok ↔ BootPhase.driverProbe = .ready := iff_of_false hs (by decide)
    exact hev₁.stop rfl (by decide) hready rfl ⟨fun _ => rfl, fun _ => rfl⟩ _
  have hev₂ := hev₁.next rfl (.inl rfl) "driver found"
  rw [Platform.lockClocks, traces_op_bind] at hrest
  obtain ⟨s₂, u, _, rfl, hrest⟩ := hrest
  -- whether the clocks were locked is reported, and the boot goes on
  have hev₃ := hev₂.next (s := s₂) rfl (.inr (.inl rfl))
    (if ok s₂ then "clocks locked" else "clock lock failed (continuing)")
  rw [traces_bind] at hrest
  obtain ⟨t₂, u, ⟨s₃, ctx₃⟩, rfl, _, h⟩ := hrest
  rcases traces_unless h with ⟨hs, rfl, hret⟩ | ⟨rfl, hrest⟩
  · obtain ⟨rfl, rfl⟩ := Prod.mk.inj hret
    refine ⟨hev₃.fail rfl (by decide) (by decide) hs ctx₃ _, t₁, _, .ok, d, rfl, hprobe, ?_⟩
    exact ⟨fun hnone => absurd hnone (Option.some_ne_none ctx₃), fun hfails => absurd rfl hfails⟩
  · obtain ⟨hctx, hlogged⟩ := bootSubsystems_reported (hev₃.next rfl (.inl rfl) _) hrest
    refine ⟨hlogged, t₁, _, .ok, d, rfl, hprobe, ?_⟩
    exact ⟨fun hnone => absurd hnone hctx, fun hfails => absurd rfl hfails⟩

def unlockedBackend : (c : PlatformCall) → c.Answer
  | .lockClocks _ => .notImplemented
  | .createStream _ _ => (.driverError, 0)
  | c => succeedingBackend apple c

theorem boot_reported_unlocked : ∃ t r ev,
    Traces anyBackend (boot { onEvent := true }) t (r, ev) ∧ Logged ev r ∧
      ev.map BootEvent.phase = BootPhase.order.take 6 ∧ r.status = .driverError := by
  have ht : Traces anyBackend (boot { onEvent := true })
      (traceWith unlockedBackend (boot { onEvent := true })).1
      (traceWith unlockedBackend (boot { onEvent := true })).2 :=
    traces_traceWith (fun _ => trivial) _
  obtain ⟨hreported, _⟩ := boot_reported { onEvent := true } _ _ _ ht
  rcases hreported with ⟨hoff, _⟩ | ⟨_, hlogged⟩
  · cases hoff
  · exact ⟨_, _, _, ht, hlogged, by decide, by decide⟩

end NexusRT.Firmware

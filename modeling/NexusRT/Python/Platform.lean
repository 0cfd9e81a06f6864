import NexusRT.Python.DeviceInfo

namespace NexusRT.Python

open Prog Firmware

/-- Whatever `device_info` raises, it is caught. -/
def detect : WrapperProg String := do
  let info ← Wrapper.deviceInfo
  match info with
  | .ok info => return info.vendor
  | .error _ => return "unknown"

def isNvidia : WrapperProg Bool := do
  let v ← detect
  return v = "nvidia"

def isApple : WrapperProg Bool := do
  let v ← detect
  return v = "apple"

def bootAndAsk (profile : String) :
    WrapperProg (Except PyError DeviceInfo × String × Bool × Bool) := do
  let r ← Wrapper.init profile
  let v ← detect
  let nvidia ← isNvidia
  let apple ← isApple
  return (r, v, nvidia, apple)

section Detect

variable {device : ContextRef → DeviceDescription} {o : CtypesObjects} {e : AbiOutcome}
  {s t : WrapperState × Bytes.Memory}

def platformOf (device : ContextRef → DeviceDescription) (s : WrapperState) : String :=
  match answer device s with
  | .ok info => info.vendor
  | .error _ => "unknown"

theorem detect_answer {v : String} (h : Exec (Describes device o e) detect s v t) :
    v = platformOf device s.1 ∧ answer device t.1 = answer device s.1 := by
  rw [detect, exec_bind] at h
  obtain ⟨r, u, hinfo, h⟩ := h
  obtain ⟨hr, _⟩ := deviceInfo_answer hinfo
  obtain ⟨abi, hu, hregistry, _⟩ := deviceInfo_spec
    (exec_coarsen Prod.fst (fun _ _ _ _ hd => Describes.serves hd) hinfo)
  have hsame : answer device u.1 = answer device s.1 := by
    rw [hu]
    exact answer_congr rfl hregistry
  rw [platformOf, ← hr]
  cases r with
  | error err =>
    obtain ⟨rfl, rfl⟩ := h
    exact ⟨rfl, hsame.trans hr.symm⟩
  | ok info =>
    obtain ⟨rfl, rfl⟩ := h
    exact ⟨rfl, hsame.trans hr.symm⟩

theorem exists_detect (device : ContextRef → DeviceDescription) (o : CtypesObjects) (e : AbiOutcome)
    (s : WrapperState × Bytes.Memory) :
    ∃ t, Exec (Describes device o e) detect s (platformOf device s.1) t := by
  obtain ⟨t, hinfo, _⟩ := exists_deviceInfo device o e s
  refine ⟨t, (exec_bind _ _ _ _ _).mpr ⟨_, t, hinfo, ?_⟩⟩
  rw [platformOf]
  cases answer device s.1 <;> exact ⟨rfl, rfl⟩

theorem exists_bootAndAsk (device : ContextRef → DeviceDescription) (o : CtypesObjects)
    {e : AbiOutcome} (profile : String) (s : WrapperState × Bytes.Memory) (hbooted : e.booted = .ok)
    (ha : e.address ≠ 0) (hfree : ∀ c ∈ s.1.abi.pointers, c.address ≠ e.address) :
    ∃ info v nvidia apple t,
      Exec (Describes device o e) (bootAndAsk profile) s (.ok info, v, nvidia, apple) t := by
  obtain ⟨info, t, hinit⟩ := exists_init device o profile s hbooted ha hfree
  obtain ⟨t₁, hv⟩ := exists_detect device o e t
  obtain ⟨t₂, hnvidia⟩ := exists_detect device o e t₁
  obtain ⟨t₃, happle⟩ := exists_detect device o e t₂
  refine ⟨info, platformOf device t.1, decide (platformOf device t₁.1 = "nvidia"),
    decide (platformOf device t₂.1 = "apple"), t₃, ?_⟩
  simp only [bootAndAsk, isNvidia, isApple, exec_bind]
  exact ⟨_, t, hinit, _, t₁, hv, _, t₂, ⟨_, t₂, hnvidia, rfl, rfl⟩, _, t₃, ⟨_, t₃, happle, rfl, rfl⟩,
    rfl, rfl⟩

theorem init_raised {profile : String} {err : PyError}
    (hzero : s.1.abi.registry.find 0 = none)
    (h : Exec (Describes device o e) (Wrapper.init profile) s (.error err) t) :
    ∃ err', answer device t.1 = .error err' := by
  -- A boot that failed leaves a null handle, under which there is no context.
  obtain ⟨_, u, ⟨hu, _⟩, rc, v, ⟨⟨out, w, hinit, hv⟩, _⟩, h⟩ := h
  rcases init_spec hinit with ⟨hbooted, rfl, rfl, rfl⟩ | ⟨_, rfl, rfl, _, hregistry, _⟩
  · dsimp only [Prog.bind] at h
    rw [check_status, if_neg hbooted] at h
    obtain ⟨_, rfl⟩ := h
    refine ⟨.nexusRTError (-1) "INVALID_ARGUMENT", ?_⟩
    have hctx : t.1.ctx = some 0 := by rw [hv, hu]; rfl
    have hfind : t.1.abi.registry.find 0 = none := by rw [hv, hu]; exact hzero
    simp only [answer, hctx, hfind]
  · obtain ⟨hinfo, _⟩ := deviceInfo_answer h
    have hctx : v.1.ctx = some e.address := by rw [hv]; rfl
    have hfind : v.1.abi.registry.find e.address = some ⟨u.1.abi.made, e.address⟩ := by
      rw [hv]
      dsimp only
      rw [hregistry, Table.find_insert, if_pos rfl]
    rw [answer, hctx] at hinfo
    dsimp only at hinfo
    rw [hfind] at hinfo
    cases hinfo

end Detect

section Reachable

variable {e : AbiOutcome}

theorem shutdown_registry {w w' : HandleState} {k : Ptr} {rc : Int}
    (h : Exec e.Registers (Registry.nexusrtFirmwareShutdown k) w rc w') :
    w'.registry = w.registry ∨ w'.registry = w.registry.erase k := by
  by_cases hk : k = 0
  · rw [Registry.nexusrtFirmwareShutdown, if_pos hk] at h
    obtain ⟨_, rfl⟩ := h
    exact .inl rfl
  · cases hfind : w.registry.find k with
    | some sp => exact .inr (shutdown_found hk hfind h).2.1
    | none =>
      rw [Registry.nexusrtFirmwareShutdown, if_neg hk] at h
      obtain ⟨r, u, ⟨_, hr, rfl⟩, h⟩ := h
      rw [hfind] at hr
      subst hr
      obtain ⟨_, rfl⟩ := h
      obtain ⟨late, hlate⟩ := asked_eq w k
      refine .inl ?_
      rw [HandleState.take, hfind]
      dsimp only
      rw [hlate]

theorem zero_unregistered {s : WrapperState}
    (h : Relation.ReflTransGen (fun s s' => ∃ c, WrapperStep s c s') {} s) :
    s.abi.registry.find 0 = none := by
  induction h with
  | refl => rfl
  | tail _ hstep ih =>
    obtain ⟨⟨method, e⟩, r, hexec⟩ := hstep
    cases method with
    | init profile =>
      obtain ⟨_, _, hinit, _, rfl⟩ := (exec_bind _ _ _ _ _).mp hexec
      rcases init_step hinit with ⟨_, rfl⟩ | ⟨_, ha, hopened⟩
      · exact ih
      · rw [hopened.registry, Table.find_insert, if_neg (Ne.symm ha)]
        exact ih
    | shutdown =>
      obtain ⟨c, s₁, ⟨rfl, rfl⟩, h⟩ := hexec
      cases hctx : s₁.ctx with
      | none =>
        rw [hctx] at h
        obtain ⟨_, rfl⟩ := h
        exact ih
      | some k =>
        rw [hctx] at h
        obtain ⟨rc, _, ⟨w, hshutdown, rfl⟩, h⟩ := h
        have hzero : w.registry.find 0 = none := by
          rcases shutdown_registry hshutdown with hsame | herase
          · rw [hsame]
            exact ih
          · rw [herase, Table.find_erase]
            split
            · rfl
            · exact ih
        dsimp only [Prog.bind] at h
        cases hcheck : check rc with
        | error err =>
          rw [hcheck] at h
          obtain ⟨_, rfl⟩ := h
          exact hzero
        | ok _ =>
          rw [hcheck] at h
          obtain ⟨_, _, rfl, _, rfl⟩ := h
          exact hzero

end Reachable

theorem detect_after_init (device : ContextRef → FoundDevice) (o : CtypesObjects) (e : AbiOutcome)
    (profile : String) (s : WrapperState) (m : Bytes.Memory)
    (hs : Relation.ReflTransGen (fun s s' => ∃ c, WrapperStep s c s') {} s) :
    Always (Describes (fun sp => (device sp).description) o e) (bootAndAsk profile) (s, m)
      fun (r, v, nvidia, apple) _ =>
        (∀ info, r = .ok info → v = info.vendor ∧ v ≠ "unknown" ∧ nvidia = !apple) ∧
        (∀ err, r = .error err → v = "unknown" ∧ nvidia = false ∧ apple = false) ∧
        (nvidia = true ↔ v = "nvidia") ∧ (apple = true ↔ v = "apple") := by
  rw [always_iff]
  rintro ⟨r, v, nvidia, apple⟩ t h
  rw [bootAndAsk, exec_bind] at h
  obtain ⟨r', u, hinit, h⟩ := h
  simp only [isNvidia, isApple, exec_bind] at h
  obtain ⟨v₁, u₁, hv₁, n, u₂, ⟨v₂, u₂', hv₂, rfl, rfl⟩, a, u₃, ⟨v₃, u₃', hv₃, rfl, rfl⟩, heq, rfl⟩ :=
    h
  obtain ⟨rfl, rfl, rfl, rfl⟩ : r = r' ∧ v = v₁ ∧ nvidia = decide (v₂ = "nvidia") ∧
      apple = decide (v₃ = "apple") := by simpa using heq
  obtain ⟨hv, hsame₁⟩ := detect_answer hv₁
  obtain ⟨hnvidia, hsame₂⟩ := detect_answer hv₂
  obtain ⟨happle, _⟩ := detect_answer hv₃
  rw [platformOf, hsame₁, ← platformOf, ← hv] at hnvidia
  rw [platformOf, hsame₂, hsame₁, ← platformOf, ← hv] at happle
  subst hnvidia happle
  refine ⟨?_, ?_, by simp, by simp⟩
  · rintro info rfl
    obtain ⟨sp, hctx, hfind, _, rfl⟩ := init_answer hinit
    have hvendor : v₃ = (infoOf (device sp).description).vendor := by
      rw [hv]
      simp only [platformOf, answer, hctx, hfind]
    rw [hvendor]
    rcases (described_sensible (device sp).described).vendor with hn | hn
    · rw [hn]
      exact ⟨rfl, by decide, by decide⟩
    · rw [hn]
      exact ⟨rfl, by decide, by decide⟩
  · rintro err rfl
    obtain ⟨err', herr⟩ := init_raised (zero_unregistered hs) hinit
    have hunknown : v₃ = "unknown" := by
      rw [hv]
      simp only [platformOf, herr]
    rw [hunknown]
    exact ⟨rfl, by decide, by decide⟩

def someObjects : CtypesObjects where
  vendor := 0x100
  arch := 0x200
  name := 0x300
  hbm := 0x400
  sms := 0x500
  bits := 0x600
  nonnull := by decide
  apart := by simp [OutPointers.regions, regionAt, Bytes.Region.Apart]

theorem detect_after_init_retried : ∃ s info v nvidia apple t, WrapperStep {} (.init "auto", failing) s ∧
    Exec (Describes (fun _ => hopper.description) someObjects healthy) (bootAndAsk "auto")
      (s, fun _ => 0) (.ok info, v, nvidia, apple) t ∧
    v = info.vendor ∧ v ≠ "unknown" ∧ nvidia = !apple := by
  let s : WrapperState := { ctx := some 0 }
  have hhistory : Relation.ReflTransGen (fun s s' => ∃ c, WrapperStep s c s') {} s :=
    .single ⟨_, init_failing⟩
  obtain ⟨info, v, nvidia, apple, t, hexec⟩ := exists_bootAndAsk (fun _ => hopper.description)
    someObjects (e := healthy) "auto" (s, fun _ => 0) rfl (by decide) (by simp [s])
  have hall := detect_after_init (fun _ => hopper) someObjects healthy "auto" s (fun _ => 0) hhistory
  have hasked := (always_iff _ _ _).mp hall _ t hexec
  exact ⟨s, info, v, nvidia, apple, t, init_failing, hexec, hasked.1 info rfl⟩

end NexusRT.Python

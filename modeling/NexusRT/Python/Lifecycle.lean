import NexusRT.Firmware.Handles
import NexusRT.Library.Guarded
import NexusRT.Python.Firmware

namespace NexusRT.Python

open Prog Firmware

section Library

variable {e : AbiOutcome} {w w' : HandleState}

theorem init_spec {profile : Option String} {rc : Int} {out : Option Ptr}
    (h : Exec e.Registers (Registry.nexusrtFirmwareInit profile true e.address) w (rc, out) w') :
    (e.booted ≠ .ok ∧ rc = e.booted.code ∧ out = none ∧ w' = w) ∨
    (e.booted = .ok ∧ rc = 0 ∧ out = some e.address ∧ e.address ≠ 0 ∧
      w'.registry = w.registry.insert e.address ⟨w.made, e.address⟩ ∧ w'.made = w.made + 1) := by
  obtain ⟨r, u, ⟨hanswers, hserves⟩, h⟩ := h
  cases r with
  | error s =>
    obtain ⟨hs, rfl⟩ := hserves
    obtain ⟨hresult, rfl⟩ := h
    obtain rfl : s = e.booted := hanswers
    exact .inl ⟨hs, (Prod.mk.inj hresult).1, (Prod.mk.inj hresult).2, rfl⟩
  | ok sp =>
    obtain ⟨ha, _, rfl, rfl⟩ := hserves
    obtain ⟨_, _, ⟨_, rfl⟩, _, _, ⟨_, rfl⟩, hresult, rfl⟩ := h
    exact .inr ⟨hanswers, (Prod.mk.inj hresult).1, (Prod.mk.inj hresult).2, ha, rfl, rfl⟩

theorem describe_spec {k : Ptr} {rc : Int}
    (h : Exec e.Registers (Registry.withHandle k AbiOutcome.describe) w rc w') :
    w'.registry = w.registry ∧ w'.made = w.made := by
  obtain ⟨r, u, ⟨_, _, rfl⟩, h⟩ := h
  cases r with
  | none =>
    obtain ⟨_, rfl⟩ := h
    exact lookup_registry w k
  | some sp =>
    obtain ⟨_, _, ⟨_, rfl⟩, _, _, ⟨_, rfl⟩, _, rfl⟩ := h
    exact lookup_registry w k

theorem shutdown_found {k : Ptr} {rc : Int} {sp : ContextRef} (hk : k ≠ 0)
    (hfind : w.registry.find k = some sp)
    (h : Exec e.Registers (Registry.nexusrtFirmwareShutdown k) w rc w') :
    rc = e.closed.code ∧ w'.registry = w.registry.erase k ∧ w'.made = w.made := by
  rw [Registry.nexusrtFirmwareShutdown, if_neg hk] at h
  obtain ⟨r, u, ⟨_, hr, rfl⟩, h⟩ := h
  rw [hfind] at hr
  subst hr
  obtain ⟨s, v, ⟨hs, rfl⟩, _, _, ⟨_, rfl⟩, hresult, rfl⟩ := h
  obtain rfl : s = e.closed := hs
  exact ⟨hresult, take_found hfind⟩

end Library

structure Paired (s : WrapperState) : Prop where
  held : ∀ k, s.ctx = some k → ∃ c, s.abi.registry.find k = some c
  only : ∀ k c, s.abi.registry.find k = some c →
    k ≠ 0 ∧ c.address = k ∧ s.ctx = some k ∧ c ∈ s.created ∧ c ∉ s.passed
  made : ∀ c, c ∈ s.created ∨ c ∈ s.passed → c.number < s.abi.made
  kept : ∀ c ∈ s.created, c ∈ s.passed ∨ s.abi.registry.find c.address = some c

structure InStep (s : WrapperState) : Prop where
  live : ∀ k, Wrapper.ctx s.ctx = .ok k → ∃ c, s.abi.registry.find k = some c
  idle : s.ctx = none → ∀ k, s.abi.registry.find k = none
  kept : ∀ c ∈ s.created, c ∈ s.passed ∨
    s.ctx = some c.address ∧ s.abi.registry.find c.address = some c

def Meets (s : WrapperState) (c : WrapperMethod × AbiOutcome) : Prop :=
  match c.1 with
  | .init _ => s.ctx = none ∧ c.2.booted = .ok
  | .shutdown => s.ctx = none ∨ c.2.closed = .ok

section Steps

variable {s s' : WrapperState} {e : AbiOutcome}

theorem ctx_eq_ok {c : Option Ptr} {k : Ptr} : Wrapper.ctx c = .ok k ↔ c = some k := by
  cases c with
  | none => simp [Wrapper.ctx]
  | some j => simp [Wrapper.ctx]

theorem deviceInfo_spec {r : Except PyError DeviceInfo}
    (h : Exec e.Serves Wrapper.deviceInfo s r s') :
    ∃ abi, s' = { s with abi } ∧ abi.registry = s.abi.registry ∧ abi.made = s.abi.made := by
  obtain ⟨c, s, ⟨rfl, rfl⟩, h⟩ := h
  cases hctx : s.ctx with
  | none =>
    rw [hctx] at h
    exact ⟨s.abi, h.2.trans (by rw [← hctx]), rfl, rfl⟩
  | some k =>
    rw [hctx] at h
    obtain ⟨⟨rc, d⟩, _, ⟨w, hdescribe, _, rfl⟩, h⟩ := h
    refine ⟨w, ?_, describe_spec hdescribe⟩
    rw [← hctx]
    dsimp only [Prog.bind] at h
    cases hcheck : check rc with
    | error _ =>
      rw [hcheck] at h
      exact h.2
    | ok _ =>
      rw [hcheck] at h
      exact h.2

structure Opened (a : Ptr) (s s' : WrapperState) : Prop where
  ctx : s'.ctx = some a
  registry : s'.abi.registry = s.abi.registry.insert a ⟨s.abi.made, a⟩
  made : s'.abi.made = s.abi.made + 1
  created : s'.created = ⟨s.abi.made, a⟩ :: s.created
  passed : s'.passed = s.passed

structure Closed (k : Ptr) (c : ContextRef) (s s' : WrapperState) : Prop where
  registry : s'.abi.registry = s.abi.registry.erase k
  made : s'.abi.made = s.abi.made
  created : s'.created = s.created
  passed : s'.passed = c :: s.passed

theorem init_step {profile : String} {r : Except PyError DeviceInfo}
    (h : Exec e.Serves (Wrapper.init profile) s r s') :
    (e.booted ≠ .ok ∧ s' = { s with ctx := some 0 }) ∨
    (e.booted = .ok ∧ e.address ≠ 0 ∧ Opened e.address s s') := by
  obtain ⟨_, _, rfl, rc, _, ⟨out, w, hinit, rfl⟩, h⟩ := h
  rcases init_spec hinit with ⟨hbooted, rfl, rfl, rfl⟩ | ⟨hbooted, rfl, rfl, ha, hregistry, hmade⟩
  · dsimp only [Prog.bind] at h
    rw [check_status, if_neg hbooted] at h
    exact .inl ⟨hbooted, h.2⟩
  · obtain ⟨abi, rfl, hsame, hnumber⟩ := deviceInfo_spec h
    refine .inr ⟨hbooted, ha, rfl, hsame.trans hregistry, hnumber.trans hmade, ?_, rfl⟩
    simp [hregistry]

theorem shutdown_step {k : Ptr} {c : ContextRef} {r : Except PyError Unit} (hctx : s.ctx = some k)
    (hk : k ≠ 0) (hfind : s.abi.registry.find k = some c)
    (h : Exec e.Serves Wrapper.shutdown s r s') :
    s'.ctx = (if e.closed = .ok then none else some k) ∧ Closed k c s s' := by
  obtain ⟨_, s, ⟨rfl, rfl⟩, h⟩ := h
  rw [hctx] at h
  obtain ⟨rc, _, ⟨w, hshutdown, rfl⟩, h⟩ := h
  obtain ⟨rfl, hregistry, hmade⟩ := shutdown_found hk hfind hshutdown
  dsimp only [Prog.bind] at h
  rw [check_status] at h
  by_cases hclosed : e.closed = .ok
  · rw [if_pos hclosed] at h ⊢
    obtain ⟨_, _, rfl, _, rfl⟩ := h
    exact ⟨rfl, hregistry, hmade, rfl, by simp [hfind]⟩
  · rw [if_neg hclosed] at h ⊢
    obtain ⟨_, rfl⟩ := h
    exact ⟨hctx, hregistry, hmade, rfl, by simp [hfind]⟩

theorem Paired.idle (h : Paired s) (hctx : s.ctx = none) (k : Ptr) :
    s.abi.registry.find k = none := by
  rw [Option.eq_none_iff_forall_ne_some]
  intro c hc
  have hheld := (h.only k c hc).2.2.1
  rw [hctx] at hheld
  exact absurd hheld (by simp)

theorem Paired.inStep (h : Paired s) : InStep s where
  live k hk := h.held k (ctx_eq_ok.mp hk)
  idle := h.idle
  kept c hc := (h.kept c hc).imp_right fun hfind => ⟨(h.only c.address c hfind).2.2.1, hfind⟩

theorem Opened.paired {a : Ptr} (ho : Opened a s s') (ha : a ≠ 0) (hctx : s.ctx = none)
    (h : Paired s) : Paired s' where
  held k hk := by
    obtain rfl := Option.some.inj (ho.ctx.symm.trans hk)
    exact ⟨_, by rw [ho.registry, Table.find_insert, if_pos rfl]⟩
  only k c hc := by
    rw [ho.registry, Table.find_insert, h.idle hctx k] at hc
    split at hc
    · next hk =>
      obtain rfl := Option.some.inj hc
      refine ⟨hk ▸ ha, hk.symm, hk ▸ ho.ctx, by simp [ho.created], fun hmem => ?_⟩
      exact absurd (h.made _ (.inr (ho.passed ▸ hmem))) (lt_irrefl _)
    · exact absurd hc (by simp)
  made c hc := by
    rw [ho.created, ho.passed, List.mem_cons] at hc
    rw [ho.made]
    rcases hc with (rfl | hc) | hc
    · exact Nat.lt_succ_self _
    · exact Nat.lt_succ_of_lt (h.made c (.inl hc))
    · exact Nat.lt_succ_of_lt (h.made c (.inr hc))
  kept c hc := by
    rw [ho.created, List.mem_cons] at hc
    rw [ho.passed, ho.registry]
    rcases hc with rfl | hc
    · exact .inr (by rw [Table.find_insert, if_pos rfl])
    · rcases h.kept c hc with hc | hc
      · exact .inl hc
      · exact absurd hc (by simp [h.idle hctx])

theorem Opened.not_inStep {a k : Ptr} (ho : Opened a s s') (hctx : s.ctx = some k) (h : Paired s) :
    ¬ InStep s' := by
  intro hgood
  obtain ⟨c, hc⟩ := h.held k hctx
  obtain ⟨_, _, _, hmem, hnot⟩ := h.only k c hc
  rcases hgood.kept c (by simp [ho.created, hmem]) with hpass | ⟨haddress, hfind⟩
  · exact hnot (ho.passed ▸ hpass)
  · have hsame : a = c.address := Option.some.inj (ho.ctx.symm.trans haddress)
    rw [ho.registry, Table.find_insert, if_pos hsame.symm] at hfind
    have hnumber := h.made c (.inl hmem)
    rw [← Option.some.inj hfind] at hnumber
    exact absurd hnumber (lt_irrefl _)

theorem init_exact {profile : String} {r : Except PyError DeviceInfo} (h : Paired s)
    (hinit : Exec e.Serves (Wrapper.init profile) s r s') :
    (Meets s (.init profile, e) ∧ Paired s') ∨ (¬ Meets s (.init profile, e) ∧ ¬ InStep s') := by
  rcases init_step hinit with ⟨hbooted, rfl⟩ | ⟨hbooted, ha, hopened⟩
  · -- the null pointer object stays in `_ctx`
    refine .inr ⟨fun hmeets => hbooted hmeets.2, fun hgood => ?_⟩
    obtain ⟨c, hc⟩ := hgood.live 0 rfl
    exact (h.only 0 c hc).1 rfl
  · cases hctx : s.ctx with
    | none => exact .inl ⟨⟨hctx, hbooted⟩, hopened.paired ha hctx h⟩
    | some k =>
      refine .inr ⟨fun hmeets => ?_, hopened.not_inStep hctx h⟩
      exact absurd (hctx.symm.trans hmeets.1) (by simp)

theorem Closed.paired {k : Ptr} {c : ContextRef} (hclosed : Closed k c s s') (hctx' : s'.ctx = none)
    (hctx : s.ctx = some k) (hc : s.abi.registry.find k = some c) (h : Paired s) : Paired s' where
  held j hj := absurd (hctx'.symm.trans hj) (by simp)
  only j d hd := by
    rw [hclosed.registry, Table.find_erase] at hd
    split at hd
    · exact absurd hd (by simp)
    · next hjk =>
      have hheld := (h.only j d hd).2.2.1
      exact absurd (Option.some.inj (hheld.symm.trans hctx)) hjk
  made d hd := by
    rw [hclosed.created, hclosed.passed, List.mem_cons] at hd
    rw [hclosed.made]
    rcases hd with hd | rfl | hd
    · exact h.made d (.inl hd)
    · exact h.made d (.inl (h.only k d hc).2.2.2.1)
    · exact h.made d (.inr hd)
  kept d hd := by
    rw [hclosed.created] at hd
    rw [hclosed.passed, List.mem_cons]
    rcases h.kept d hd with hd | hfind
    · exact .inl (.inr hd)
    · have hheld := (h.only _ d hfind).2.2.1
      rw [Option.some.inj (hheld.symm.trans hctx), hc] at hfind
      exact .inl (.inl (Option.some.inj hfind).symm)

theorem shutdown_exact {r : Except PyError Unit} (h : Paired s)
    (hshutdown : Exec e.Serves Wrapper.shutdown s r s') :
    (Meets s (.shutdown, e) ∧ Paired s') ∨ (¬ Meets s (.shutdown, e) ∧ ¬ InStep s') := by
  cases hctx : s.ctx with
  | none =>
    obtain ⟨_, _, ⟨rfl, rfl⟩, hrest⟩ := hshutdown
    rw [hctx] at hrest
    obtain ⟨_, rfl⟩ := hrest
    exact .inl ⟨.inl hctx, h⟩
  | some k =>
    obtain ⟨c, hc⟩ := h.held k hctx
    have hk : k ≠ 0 := (h.only k c hc).1
    obtain ⟨hctx', hclosed⟩ := shutdown_step hctx hk hc hshutdown
    by_cases hok : e.closed = .ok
    · rw [if_pos hok] at hctx'
      exact .inl ⟨.inr hok, hclosed.paired hctx' hctx hc h⟩
    · -- the registry has forgotten the handle that stays in `_ctx`
      rw [if_neg hok] at hctx'
      refine .inr ⟨fun hmeets => hmeets.elim (fun hnone => ?_) hok, fun hgood => ?_⟩
      · exact absurd (hctx.symm.trans hnone) (by simp)
      · obtain ⟨d, hd⟩ := hgood.live k (ctx_eq_ok.mpr hctx')
        rw [hclosed.registry, Table.find_erase, if_pos rfl] at hd
        exact absurd hd (by simp)

theorem exactGuard : ExactGuard WrapperStep Meets Paired InStep where
  good _ h := h.inStep
  step s c s' h hstep := by
    obtain ⟨m, e⟩ := c
    obtain ⟨r, hexec⟩ := hstep
    cases m with
    | init profile =>
      obtain ⟨_, _, hinit, _, rfl⟩ := (exec_bind _ _ _ _ _).mp hexec
      exact init_exact h hinit
    | shutdown => exact shutdown_exact h hexec

end Steps

theorem paired_initial : Paired {} where
  held := nofun
  only := nofun
  made := by simp
  kept := by simp

theorem wrapper_in_step {s : WrapperState} (h : GuardedRun WrapperStep Meets {} s) :
    InStep s ∧ ∀ c s', WrapperStep s c s' → (InStep s' ↔ Meets s c) :=
  h.good_iff exactGuard paired_initial

def healthy : AbiOutcome := ⟨.ok, 16, 0, .ok⟩

theorem init_healthy : ∃ s, WrapperStep {} (.init "auto", healthy) s := by
  have hinit : ∃ w, Exec healthy.Registers (Registry.nexusrtFirmwareInit (some "auto") true 16) {}
      (0, some 16) w ∧ w.registry.find 16 = some ⟨0, 16⟩ :=
    ⟨_, ⟨.ok ⟨0, 16⟩, _, ⟨rfl, by decide, by simp, rfl, rfl⟩, (), _, ⟨trivial, rfl⟩, (), _,
      ⟨trivial, rfl⟩, rfl, rfl⟩, rfl⟩
  obtain ⟨w, hinit, hfind⟩ := hinit
  have hdescribe : ∃ w', Exec healthy.Registers (Registry.withHandle 16 AbiOutcome.describe) w 0 w' :=
    ⟨_, some ⟨0, 16⟩, _, ⟨trivial, hfind.symm, rfl⟩, (0 : Int), _, ⟨rfl, rfl⟩, (), _, ⟨trivial, rfl⟩,
      rfl, rfl⟩
  obtain ⟨w', hdescribe⟩ := hdescribe
  refine ⟨_, _, (exec_bind _ _ _ _ _).mpr ⟨_, _, ⟨(), _, rfl, (0 : Int), _,
    ⟨some 16, w, hinit, rfl⟩, some 16, _, ⟨rfl, rfl⟩, ((0 : Int), {}), _,
    ⟨w', hdescribe, nofun, rfl⟩, rfl, rfl⟩, rfl, rfl⟩⟩

theorem wrapper_in_step_init : ∃ s, GuardedRun WrapperStep Meets {} s ∧ InStep s := by
  obtain ⟨s, hstep⟩ := init_healthy
  have hrun : GuardedRun WrapperStep Meets {} s :=
    Relation.ReflTransGen.single ⟨(.init "auto", healthy), hstep, rfl, rfl⟩
  exact ⟨s, hrun, (wrapper_in_step hrun).1⟩

def failing : AbiOutcome := ⟨.deviceNotFound, 16, 0, .ok⟩

theorem init_failing : WrapperStep {} (.init "auto", failing) { ctx := some 0 } := by
  have hinit : Exec failing.Registers (Registry.nexusrtFirmwareInit (some "auto") true 16) {}
      (-4, none) {} := ⟨.error .deviceNotFound, _, ⟨rfl, by decide, rfl⟩, rfl, rfl⟩
  exact ⟨_, (exec_bind _ _ _ _ _).mpr ⟨_, _, ⟨(), _, rfl, (-4 : Int), _, ⟨none, _, hinit, rfl⟩, rfl, rfl⟩,
    rfl, rfl⟩⟩

theorem wrapper_out_of_step : ¬ ∀ s,
    Relation.ReflTransGen (fun s s' => ∃ c, WrapperStep s c s') {} s → InStep s := by
  intro hclaim
  obtain ⟨c, hc⟩ := (hclaim _ (Relation.ReflTransGen.single ⟨_, init_failing⟩)).live 0 rfl
  exact absurd hc (by simp)

end NexusRT.Python

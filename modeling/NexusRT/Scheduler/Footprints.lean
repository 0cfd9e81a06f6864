import NexusRT.Scheduler.Completion

namespace NexusRT.Scheduler

def StageContract.Fits (dev : DeviceDesc) (hbmPoolBytes : UInt64) (c : StageContract) : Prop :=
  c.smFootprintMb.toNat * 2 ^ 20 ≤ dev.smemPerSmBytes.toNat ∧
    c.memFootprintMb.toNat * 2 ^ 20 ≤ hbmPoolBytes.toNat

namespace TaskGraph

open Firmware Relation

def contract (g : TaskGraph) (k : String) : Option StageContract :=
  (g.nodes.find k).map StageNode.contract

def AllFit (dev : DeviceDesc) (hbmPoolBytes : UInt64) (g : TaskGraph) : Prop :=
  ∀ k c, g.contract k = some c → c.Fits dev hbmPoolBytes

/-- What `validate` tests: a footprint in megabytes against a size in kilobytes. -/
def OverKb (dev : DeviceDesc) (g : TaskGraph) : Prop :=
  ∃ k c, g.contract k = some c ∧ dev.smemPerSmBytes / 1024 < c.smFootprintMb

theorem overKb_iff (dev : DeviceDesc) (g : TaskGraph) : g.OverKb dev ↔ g.nodes.entries.any
    (fun e => e.2.contract.smFootprintMb > dev.smemPerSmBytes / 1024) = true := by
  simp only [OverKb, contract, Option.map_eq_some_iff, List.any_eq_true, decide_eq_true_eq, Prod.exists,
    Table.mem_entries]
  constructor
  · rintro ⟨k, _, ⟨n, hk, rfl⟩, hover⟩
    exact ⟨k, n, hk, hover⟩
  · rintro ⟨k, n, hk, hover⟩
    exact ⟨k, _, ⟨n, hk, rfl⟩, hover⟩

theorem validate_violation_iff (dev : DeviceDesc) (g : TaskGraph) :
    (g.validate dev).1 = .contractViolation ↔
      ¬ (g.Missing ∨ g.Repeats ∨ g.Cyclic) ∧ g.OverKb dev := by
  rw [← validate_invalid_iff dev g, overKb_iff, validate]
  split
  · simp
  · split
    · simp
    · split
      · next hover => simpa using hover
      · next hover => simpa using hover

theorem validate_ok_overKb {dev : DeviceDesc} {g : TaskGraph} (h : (g.validate dev).1 = .ok) :
    ¬ g.OverKb dev := by
  intro hover
  have hinvalid : ¬ (g.validate dev).1 = .invalidArgument := by simp [h]
  rw [validate_invalid_iff] at hinvalid
  have hviolation := (validate_violation_iff dev g).mpr ⟨hinvalid, hover⟩
  simp [h] at hviolation

theorem SameStages.overKb_iff {dev : DeviceDesc} {g g' : TaskGraph} (h : SameStages g g') :
    g'.OverKb dev ↔ g.OverKb dev := by
  have hcontract : g'.contract = g.contract := funext h
  rw [OverKb, OverKb, hcontract]

def Admitted (dev : DeviceDesc) (g : TaskGraph) : Prop := g.validated = true → ¬ g.OverKb dev

variable {A : (c : MicroKernelCall) → c.Answer → Prop}

theorem serves_admitted {dev : DeviceDesc} {c : GraphCall} {g g' : TaskGraph} {r : c.Answer}
    (h : Serves dev A c g r g') (hi : Admitted dev g) : Admitted dev g' := by
  cases c with
  | addStage c =>
    obtain rfl | ⟨_, _, rfl⟩ := addStage_cases h
    · exact hi
    · simp [Admitted]
  | loadValidated => exact h.2 ▸ hi
  | validate =>
    by_cases hr : r = .ok
    · subst hr
      obtain ⟨rfl, _⟩ := validate_ok h
      have hover : ¬ g.OverKb dev := validate_ok_overKb (congrArg Prod.fst h).symm
      exact fun _ => hover
    · rw [validate_not_ok h hr]
      exact hi
  | launchReady =>
    obtain ⟨fuel, h⟩ := h
    obtain ⟨hsame, hvalidated⟩ := (launchReady_executed h).sameStages
    rw [Admitted, hsame.overKb_iff, hvalidated]
    exact hi

theorem Reaches.admitted {dev : DeviceDesc} {calls : GraphProg Status → Prop} {g g' : TaskGraph}
    (h : Reaches dev calls g g') (hi : Admitted dev g) : Admitted dev g' := by
  induction h with
  | refl => exact hi
  | tail _ h ih =>
    cases h with
    | exec p _ s _ he =>
      exact Prog.exec_invariant (I := Admitted dev) (fun _ _ _ _ h => serves_admitted h) he ih
    | reorder order h =>
      rw [Admitted, (sameStages_reorder _ order h).overKb_iff]
      exact ih

structure FootprintsEnforced (dev : DeviceDesc) (hbmPoolBytes : UInt64) (g : TaskGraph) : Prop where
  launched : ∀ s g', Prog.Exec (Serves dev anyKernel) run g s g' →
    ∃ new, g'.launches = new ++ g.launches ∧
      ∀ l ∈ new, ∃ c, g.contract l.stage = some c ∧ c.Fits dev hbmPoolBytes
  rejected : ¬ g.Missing → ¬ g.Cyclic → ¬ g.AllFit dev hbmPoolBytes →
    (g.validate dev).1 = .contractViolation

theorem run_launches_known {dev : DeviceDesc} {g g' : TaskGraph} {s : Status}
    (h : Prog.Exec (Serves dev A) run g s g') :
    ∃ new, g'.launches = new ++ g.launches ∧
      ((new = []) ∨ (g.validated = false → (g.validate dev).1 = .ok) ∧
        ∀ l ∈ new, ∃ c, g.contract l.stage = some c) := by
  rcases run_exec h with ⟨_, _, rfl⟩ | ⟨hvalidate, fuel, hlaunch⟩
  · exact ⟨[], rfl, .inl rfl⟩
  · obtain ⟨new, hnew, hkeys⟩ := (launchReady_executed hlaunch).launches
    refine ⟨new, hnew, .inr ⟨fun hv => (congrArg Prod.fst (hvalidate hv)).symm, fun l hl => ?_⟩⟩
    obtain ⟨n, hn⟩ := (g.nodes.mem_keys_iff l.stage).mp (hkeys l hl)
    exact ⟨n.contract, by rw [contract, hn]; rfl⟩

theorem footprints_enforced_iff (dev : DeviceDesc) (hbmPoolBytes : UInt64) (g : TaskGraph)
    (hreach : Reaches dev IsPublic {} g) :
    FootprintsEnforced dev hbmPoolBytes g ↔
      g.Missing ∨ g.Cyclic ∨ g.AllFit dev hbmPoolBytes ∨ (¬ g.Repeats ∧ g.OverKb dev) := by
  have hi : Inv g := hreach.inv inv_empty
  have hadmitted : Admitted dev g := hreach.admitted (by simp [Admitted])
  constructor
  · intro h
    by_contra hnot
    obtain ⟨hmissing, hcyclic, hfit, hover⟩ : ¬ g.Missing ∧ ¬ g.Cyclic ∧
        ¬ g.AllFit dev hbmPoolBytes ∧ ¬ (¬ g.Repeats ∧ g.OverKb dev) := by tauto
    have hviolation := (validate_violation_iff dev g).mp (h.rejected hmissing hcyclic hfit)
    exact hover ⟨fun hrepeats => hviolation.1 (.inr (.inl hrepeats)), hviolation.2⟩
  · intro hcond
    refine ⟨fun s g' hrun => ?_, fun hmissing hcyclic hfit => ?_⟩
    · obtain ⟨new, hnew, rfl | ⟨hvalidate, hknown⟩⟩ := run_launches_known hrun
      · exact ⟨[], hnew, by simp⟩
      · refine ⟨new, hnew, fun l hl => ?_⟩
        -- A graph that gets as far as a launch is sound and has no stage over the tested limit.
        obtain ⟨hsound, hover⟩ : (¬ g.Missing ∧ ¬ g.Cyclic) ∧ ¬ g.OverKb dev := by
          by_cases hv : g.validated = true
          · exact ⟨hi.sound hv, hadmitted hv⟩
          · have hok := hvalidate (by simpa using hv)
            exact ⟨(validate_ok (validate_eq_of_ok hok)).2, validate_ok_overKb hok⟩
        have hall : g.AllFit dev hbmPoolBytes := by tauto
        obtain ⟨c, hc⟩ := hknown l hl
        exact ⟨c, hc, hall _ _ hc⟩
    · have hover : ¬ g.Repeats ∧ g.OverKb dev := by tauto
      apply (validate_violation_iff dev g).mpr
      exact ⟨by tauto, hover.2⟩

def oversized : TaskGraph :=
  (TaskGraph.addStage {} { name := "a", smFootprintMb := 1, memFootprintMb := 1 }).2

def smallDevice : DeviceDesc := { smemPerSmBytes := 0x10000 }

theorem reaches_oversized : Reaches smallDevice IsPublic {} oversized :=
  .addStage .refl _ (.inl ⟨_, rfl⟩)

theorem validate_oversized :
    (.ok, { oversized with validated := true }) = oversized.validate smallDevice :=
  validate_eq_of_ok (by decide)

def fitting : TaskGraph := (TaskGraph.addStage {} { name := "a", memFootprintMb := 1 }).2

theorem footprints_enforced_iff_fitting : FootprintsEnforced smallDevice 0x100000 fitting := by
  have hreach : Reaches smallDevice IsPublic {} fitting := .addStage .refl _ (.inl ⟨_, rfl⟩)
  apply (footprints_enforced_iff smallDevice 0x100000 _ hreach).mpr
  refine .inr (.inr (.inl fun k c hc => ?_))
  by_cases hk : k = "a"
  · subst hk
    obtain rfl := Option.some.inj hc
    exact ⟨by decide, by decide⟩
  · simp [fitting, contract, TaskGraph.addStage, Table.contains, hk] at hc

theorem footprints_not_enforced : ¬ ∀ (dev : DeviceDesc) (hbmPoolBytes : UInt64) (g : TaskGraph),
    Reaches dev IsPublic {} g → FootprintsEnforced dev hbmPoolBytes g := by
  intro h
  have hvalid := reaches_oversized.tail (.exec Scheduler.validate (.inr (.inl rfl)) .ok
    { oversized with validated := true } ⟨_, _, validate_oversized, rfl, rfl⟩)
  obtain ⟨⟨s, g'⟩, hrun⟩ := Option.isSome_iff_exists.mp
    (show (scriptedRun .ok { oversized with validated := true }).isSome = true by decide)
  have hlaunches : g'.launches.map Launch.stage = ["a"] := by
    have hstages : (scriptedRun .ok { oversized with validated := true }).map
        (fun e => e.2.launches.map Launch.stage) = some ["a"] := by decide
    simpa [hrun] using hstages
  obtain ⟨new, hnew, hfit⟩ := (h smallDevice 0 _ hvalid).launched s g' (run_scriptedRun rfl hrun)
  have hnone : oversized.launches = [] := by decide
  rw [hnew, hnone, List.append_nil, List.map_eq_singleton_iff] at hlaunches
  obtain ⟨l, rfl, hl⟩ := hlaunches
  obtain ⟨c, hc, hcfits⟩ := hfit l (by simp)
  rw [hl] at hc
  obtain rfl := Option.some.inj hc
  exact absurd hcfits.1 (by decide)

end TaskGraph

end NexusRT.Scheduler

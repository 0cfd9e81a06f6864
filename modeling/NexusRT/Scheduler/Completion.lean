import NexusRT.Scheduler.Runs

namespace NexusRT.Scheduler.TaskGraph

open Firmware Relation Dependencies

def AllPending (g : TaskGraph) : Prop := ∀ k n, g.nodes.find k = some n → n.state = .pending

def AllCompleted (g : TaskGraph) : Prop := ∀ k n, g.nodes.find k = some n → n.state = .completed

def Terminates (g : TaskGraph) : Prop := ∀ A fuel, g.nodes.size < fuel →
  Prog.Always (Prog.allow A) (g.launchReady fuel) () (fun o _ => o ≠ none)

theorem Reaches.validated {dev : DeviceDesc} {g g' : TaskGraph} (h : Reaches dev IsRun g g')
    (hv : g.validated = true) : g'.validated = true := by
  induction h with
  | refl => exact hv
  | tail _ h ih =>
    cases h with
    | exec p hp s _ he =>
      obtain rfl : p = run := hp
      rcases run_exec he with ⟨_, hfalse, _⟩ | ⟨_, fuel, hlaunch⟩
      · simp [ih] at hfalse
      · exact (launchReady_executed hlaunch).sameStages.2
    | reorder order h => exact ih

theorem run_succeeds {dev : DeviceDesc} {g g' : TaskGraph} {s : Status}
    (h : Prog.Exec (Serves dev succeeding) run g s g') (hv : g.validated = true) : s = .ok := by
  rcases run_exec h with ⟨_, hfalse, _⟩ | ⟨_, fuel, hlaunch⟩
  · simp [hv] at hfalse
  · exact (Prog.always_iff _ _ _).mp (launchReady_succeeds fuel _) _ _ hlaunch (s, g') rfl

theorem run_ok {dev : DeviceDesc} {g g' : TaskGraph} {A : (c : MicroKernelCall) → c.Answer → Prop}
    (h : Prog.Exec (Serves dev A) run g .ok g') (hi : Inv g) :
    Inv { g with validated := true } ∧ Executed { g with validated := true } .ok g' := by
  rcases run_exec h with ⟨hs, _, _⟩ | ⟨hvalidate, fuel, hlaunch⟩
  · exact absurd rfl hs
  · exact ⟨hi.validate hvalidate, launchReady_executed hlaunch⟩

theorem run_ok_allCompleted_iff {dev : DeviceDesc} {g g' : TaskGraph}
    {A : (c : MicroKernelCall) → c.Answer → Prop}
    (h : Prog.Exec (Serves dev A) run g .ok g') (hi : Inv g) :
    g'.AllCompleted ↔ ∀ k, g.state k ≠ some .failed := by
  obtain ⟨hi₁, hexec⟩ := run_ok h hi
  constructor
  · intro hall k hfailed
    obtain ⟨n, hn, hnfailed⟩ := Option.map_eq_some_iff.mp ((hexec.ok_failed k).mpr hfailed)
    rw [hall k n hn] at hnfailed
    simp at hnfailed
  · intro hnone k n hk
    rcases hexec.ok_settled hi₁ rfl k n hk with hcompleted | ⟨_, hfailed⟩ | ⟨_, d, _, hfailed⟩
    · exact hcompleted
    · exact absurd hfailed (hnone k)
    · exact absurd hfailed (hnone d)

theorem run_validated (dev : DeviceDesc) (g₀ g g' : TaskGraph)
    (hbuilt : Reaches dev IsAddStage {} g₀) (hvalid : (.ok, g) = g₀.validate dev)
    (hruns : Reaches dev IsRun g g') :
    g'.validated = true ∧ g'.Terminates ∧
      (g'.launches.map Launch.stage).Nodup ∧
      (∀ l ∈ g'.launches, ∀ d ∈ g'.dependsOn l.stage, l.states d = some .completed) ∧
      (g'.AllPending → ∀ s g'', Prog.Exec (Serves dev succeeding) run g' s g'' →
        s = .ok ∧ g''.AllCompleted) := by
  have hi : Inv g' := hruns.inv (validate_inv hvalid (hbuilt.inv inv_empty))
  have hv : g'.validated = true := hruns.validated (by rw [(validate_ok hvalid).1])
  refine ⟨hv, fun A fuel hfuel => launchReady_leaves hfuel, hi.once, hi.ordered, ?_⟩
  intro hpending s g'' hrun
  obtain rfl := run_succeeds hrun hv
  refine ⟨rfl, (run_ok_allCompleted_iff hrun hi).mpr fun k hk => ?_⟩
  obtain ⟨n, hn, hfailed⟩ := Option.map_eq_some_iff.mp hk
  rw [hpending k n hn] at hfailed
  simp at hfailed

theorem Reaches.addStage {dev : DeviceDesc} {calls : GraphProg Status → Prop} {g₀ g : TaskGraph}
    (h : Reaches dev calls g₀ g) (c : StageContract) (hcalls : calls (Scheduler.addStage c)) :
    Reaches dev calls g₀ (g.addStage c).2 :=
  h.tail (.exec _ hcalls _ _ ⟨_, _, rfl, rfl, rfl⟩)

def chain : TaskGraph :=
  ((TaskGraph.addStage {} { name := "a" }).2.addStage { name := "b", dependsOn := ["a"] }).2

theorem reaches_chain {dev : DeviceDesc} {calls : GraphProg Status → Prop}
    (h : ∀ c, calls (Scheduler.addStage c)) : Reaches dev calls {} chain :=
  .addStage (.addStage .refl _ (h _)) _ (h _)

def scripted (s : Status) (c : MicroKernelCall) (_ : Unit) : c.Answer × Unit :=
  match c with
  | .loadModule _ _ => ((.ok, none), ())
  | .acquireStream klass _ => ({ id := 1, klass }, ())
  | .releaseStream _ => ((), ())
  | .launch _ _ _ _ _ _ _ => (s, ())
  | .syncStream _ => (.ok, ())

def scriptedRun (s : Status) (g : TaskGraph) : Option (Status × TaskGraph) :=
  (Prog.eval (scripted s) (launchReady (g.nodes.size + 1) g) ()).1

theorem exec_scriptedRun {s r : Status} {g g' : TaskGraph} (h : scriptedRun s g = some (r, g')) :
    ∃ fuel, Prog.Exec (Prog.allow anyKernel) (launchReady fuel g) () (some (r, g')) () := by
  have hexec := Prog.exec_eval (H := Prog.allow anyKernel) (f := scripted s)
    (fun _ _ => trivial) (launchReady (g.nodes.size + 1) g) ()
  rw [show (Prog.eval (scripted s) (launchReady (g.nodes.size + 1) g) ()).1 = some (r, g') from h]
    at hexec
  exact ⟨_, hexec⟩

theorem run_scriptedRun {dev : DeviceDesc} {s r : Status} {g g' : TaskGraph}
    (hv : g.validated = true) (h : scriptedRun s g = some (r, g')) :
    Prog.Exec (Serves dev anyKernel) run g r g' := by
  simp only [run, Prog.op, Prog.call_bind, Prog.ret_bind, Prog.exec_call]
  refine ⟨_, g, ⟨rfl, rfl⟩, ?_⟩
  simp only [hv, ↓reduceIte]
  exact ⟨r, g', exec_scriptedRun h, rfl, rfl⟩

theorem validate_chain : (.ok, { chain with validated := true }) = chain.validate {} :=
  validate_eq_of_ok (by decide)

theorem run_validated_chain : ∃ g' : TaskGraph,
    g'.launches.map Launch.stage = ["b", "a"] ∧ (g'.launches.map Launch.stage).Nodup := by
  obtain ⟨⟨s, g'⟩, hrun⟩ := Option.isSome_iff_exists.mp
    (show (scriptedRun .ok { chain with validated := true }).isSome = true by decide)
  have hlaunches : g'.launches.map Launch.stage = ["b", "a"] := by
    have h : (scriptedRun .ok { chain with validated := true }).map
        (fun e => e.2.launches.map Launch.stage) = some ["b", "a"] := by decide
    simpa [hrun] using h
  have h := run_validated {} chain _ g' (reaches_chain fun c => ⟨c, rfl⟩) validate_chain
    (.single (.exec run (show IsRun run from rfl) s g' (run_scriptedRun rfl hrun)))
  exact ⟨g', hlaunches, h.2.2.1⟩

theorem run_ok_settled (dev : DeviceDesc) (A : (c : MicroKernelCall) → c.Answer → Prop)
    (g g' : TaskGraph) (hreach : Reaches dev IsPublic {} g)
    (hrun : Prog.Exec (Serves dev A) run g .ok g') :
    (∀ k n, g'.nodes.find k = some n → n.state = .completed ∨
      (n.state = .failed ∧ g.state k = some .failed) ∨
      (n.state = .pending ∧
        ∃ d, TransGen (Edge g.nodes.keys g.dependsOn) d k ∧ g.state d = some .failed)) ∧
      (g'.AllCompleted ↔ ∀ k, g.state k ≠ some .failed) := by
  have hi : Inv g := hreach.inv inv_empty
  obtain ⟨hi₁, hexec⟩ := run_ok hrun hi
  exact ⟨hexec.ok_settled hi₁ rfl, run_ok_allCompleted_iff hrun hi⟩

theorem rerun_after_failure : ∃ g g' : TaskGraph, Reaches {} IsPublic {} g ∧
    Prog.Exec (Serves {} anyKernel) run g .ok g' ∧ g.state "a" = some .failed := by
  obtain ⟨⟨s, g⟩, hrun⟩ := Option.isSome_iff_exists.mp
    (show (scriptedRun .driverError { chain with validated := true }).isSome = true by decide)
  have hsecond : ((scriptedRun .driverError { chain with validated := true }).bind
      (fun e => scriptedRun .ok e.2)).map Prod.fst = some .ok := by decide
  have hfailed : (scriptedRun .driverError { chain with validated := true }).map
      (fun e => (e.2.validated, e.2.state "a")) = some (true, some .failed) := by decide
  simp only [hrun, Option.bind_some, Option.map_some, Option.some.injEq, Prod.mk.injEq,
    Option.map_eq_some_iff, Prod.exists, exists_and_right, exists_eq_right] at hsecond hfailed
  obtain ⟨g', hsecond⟩ := hsecond
  refine ⟨g, g', ?_, run_scriptedRun hfailed.1 hsecond, hfailed.2⟩
  have hchain : Reaches {} IsPublic {} chain := reaches_chain fun c => .inl ⟨c, rfl⟩
  have hvalid := hchain.tail (.exec Scheduler.validate (.inr (.inl rfl)) .ok
    { chain with validated := true } ⟨_, _, validate_chain, rfl, rfl⟩)
  exact hvalid.tail (.exec run (.inr (.inr rfl)) s g (run_scriptedRun rfl hrun))

theorem run_ok_settled_failed : ∃ g' : TaskGraph, ¬ g'.AllCompleted := by
  obtain ⟨g, g', hreach, hrun, hfailed⟩ := rerun_after_failure
  have h := run_ok_settled {} anyKernel g g' hreach hrun
  exact ⟨g', fun hall => h.2.mp hall "a" hfailed⟩

theorem run_ok_not_completed : ¬ ∀ (dev : DeviceDesc) (g g' : TaskGraph),
    Reaches dev IsPublic {} g → Prog.Exec (Serves dev anyKernel) run g .ok g' →
      g'.AllCompleted := by
  intro hclaim
  obtain ⟨g, g', hreach, hrun, hfailed⟩ := rerun_after_failure
  have hall := hclaim {} g g' hreach hrun
  exact (run_ok_allCompleted_iff hrun (hreach.inv inv_empty)).mp hall "a" hfailed

end NexusRT.Scheduler.TaskGraph

import NexusRT.Library.Interleave
import NexusRT.Scheduler.Completion

/-!
Clients of one graph that interleave at the sections under its mutex and at the atomic reads of
`validated_`.
-/

namespace NexusRT.Scheduler

open Interleave TaskGraph

/-- A graph with two ghosts: the stages it had when `validate` last returned `Ok`, and every launch
with the stages that were approved at its moment. -/
structure World where
  graph : TaskGraph := {}
  approved : List String := []
  launched : List (String × List String) := []

namespace World

def approvedAfter (w : World) (g : TaskGraph) : (c : GraphCall) → c.Answer → List String
  | .addStage _, _ => w.approved
  | .loadValidated, _ => w.approved
  | .validate, s => if ok s then g.nodes.keys else w.approved
  | .launchReady, _ => w.approved

def next (w : World) (c : GraphCall) (r : c.Answer) (g : TaskGraph) : World where
  graph := g
  approved := w.approvedAfter g c r
  launched := (g.launches.take (g.launches.length - w.graph.launches.length)).map
    (fun l => (l.stage, w.approved)) ++ w.launched

/-- A section finds the stages in any iteration order. -/
inductive Serves (dev : DeviceDesc) (c : GraphCall) (w : World) (r : c.Answer) : World → Prop
  | intro (order : List String) (h : order.Perm w.graph.nodes.keys) (g : TaskGraph)
      (hg : TaskGraph.Serves dev anyKernel c (w.graph.reorder order h) r g) :
      Serves dev c w r (w.next c r g)

end World

def session : List (GraphProg Status) → GraphProg Unit
  | [] => return ()
  | p :: ps => do
    let _ ← p
    session ps

def sawValidated : (c : GraphCall) → c.Answer → Bool → Bool
  | .addStage _, _, _ => false
  | .loadValidated, v, _ => v
  | .validate, s, _ => ok s
  | .launchReady, _, _ => false

def graphClients (dev : DeviceDesc) : System GraphCall GraphCall.Answer World Bool where
  serves c w r w' := World.Serves dev c w r w'
  client p := ∃ ps, (∀ q ∈ ps, IsPublic q) ∧ p = session ps
  initial := false
  after := sawValidated

def launchAllowed : GraphCall → Bool → Prop
  | .launchReady, saw => saw = true
  | _, _ => True

theorem run_respects (l : Bool) :
    Respects sawValidated launchAllowed run l (fun _ _ => True) := by
  simp only [run, validate, Prog.op, Prog.call_bind, Prog.ret_bind, respects_call]
  refine ⟨trivial, fun v => ?_⟩
  cases v with
  | true => exact ⟨rfl, fun _ => trivial⟩
  | false =>
    refine ⟨trivial, fun s => ?_⟩
    by_cases hs : ok s = true
    · simp only [hs, Bool.not_true, Bool.false_eq_true, ↓reduceIte]
      exact ⟨hs, fun _ => trivial⟩
    · rw [Bool.not_eq_true] at hs
      simp only [hs, Bool.not_false, ↓reduceIte]
      trivial

theorem session_respects {ps : List (GraphProg Status)} (hps : ∀ q ∈ ps, IsPublic q) (l : Bool) :
    Respects sawValidated launchAllowed (session ps) l (fun _ _ => True) := by
  induction ps generalizing l with
  | nil => trivial
  | cons p ps ih =>
    rw [session, respects_bind]
    refine respects_mono (Q := fun _ _ => True) ?_
      (fun _ m _ => ih (fun q hq => hps q (List.mem_cons_of_mem p hq)) m)
    rcases hps p (by simp) with ⟨c, rfl⟩ | rfl | rfl
    · exact ⟨trivial, fun _ => trivial⟩
    · exact ⟨trivial, fun _ => trivial⟩
    · exact run_respects l

def Armed (t : Thread GraphCall GraphCall.Answer Bool) : Prop :=
  t.ghost = true ∧ ∃ k, t.prog = .call .launchReady k

def Approved (w : World) : Prop := ∀ k ∈ w.graph.nodes.keys, k ∈ w.approved

structure RaceFree (w : World) (ts : List (Thread GraphCall GraphCall.Answer Bool)) : Prop where
  validated : w.graph.validated = true → Approved w
  armed : ∀ t ∈ ts, Armed t → Approved w
  launched : ∀ e ∈ w.launched, e.1 ∈ e.2

theorem next_launched {w : World} {c : GraphCall} {r : c.Answer} {g : TaskGraph}
    (hg : g.launches = w.graph.launches) (hw : ∀ e ∈ w.launched, e.1 ∈ e.2) :
    ∀ e ∈ (w.next c r g).launched, e.1 ∈ e.2 := by
  simpa [World.next, hg] using hw

theorem next_launched_mem {w : World} {c : GraphCall} {r : c.Answer} {g : TaskGraph}
    {new : List Launch} (h : g.launches = new ++ w.graph.launches) {e : String × List String}
    (he : e ∈ (w.next c r g).launched) :
    (∃ l ∈ new, e = (l.stage, w.approved)) ∨ e ∈ w.launched := by
  simp only [World.next, h, List.length_append, Nat.add_sub_cancel_right, List.take_left',
    List.mem_append, List.mem_map] at he
  obtain ⟨l, hl, rfl⟩ | he := he
  · exact .inl ⟨l, hl, rfl⟩
  · exact .inr he

def Calm (p : Pool GraphCall GraphCall.Answer World Bool) : Action GraphCall → Prop
  | .call (.addStage c) => c.name = "" ∨ p.state.graph.nodes.contains c.name = true ∨
    ∀ t ∈ p.threads, ∀ k, t.prog ≠ .call .launchReady k
  | _ => True

section Calls

variable {dev : DeviceDesc} {pre post : List (Thread GraphCall GraphCall.Answer Bool)} {l : Bool}
  {w : World} {order : List String} {horder : order.Perm w.graph.nodes.keys} {g : TaskGraph}

theorem raceFree_addStage {c : StageContract} {k : Status → GraphProg Unit} {s : Status}
    (hg : (s, g) = (w.graph.reorder order horder).addStage c)
    (hcalm : Calm ⟨w, pre ++ ⟨l, .call (.addStage c) k⟩ :: post⟩ (.call (.addStage c)))
    (h : RaceFree w (pre ++ ⟨l, .call (.addStage c) k⟩ :: post)) :
    RaceFree (w.next (.addStage c) s g) (pre ++ ⟨false, k s⟩ :: post) := by
  have hold : ∀ t ∈ pre ++ ⟨false, k s⟩ :: post, Armed t →
      t ∈ pre ++ ⟨l, .call (.addStage c) k⟩ :: post := by
    intro t ht harmed
    rcases mem_threads ht with rfl | ht
    · simp [Armed] at harmed
    · exact ht
  obtain rfl | ⟨hname, hnone, rfl⟩ := addStage_cases hg
  · refine ⟨fun hv j hj => ?_, fun t ht harmed j hj => ?_, ?_⟩
    · exact h.validated hv j (horder.mem_iff.mp hj)
    · exact h.armed t (hold t ht harmed) harmed j (horder.mem_iff.mp hj)
    · exact next_launched rfl h.launched
  · refine ⟨fun hv => by simp [World.next] at hv, fun t ht harmed => ?_, ?_⟩
    · have hfind : w.graph.nodes.find c.name = none := hnone
      have hcontains : ¬ w.graph.nodes.contains c.name = true := by simp [Table.contains, hfind]
      obtain ⟨k', hk'⟩ := harmed.2
      exact absurd hk' (((hcalm.resolve_left hname).resolve_left hcontains) t (hold t ht harmed) k')
    · exact next_launched rfl h.launched

theorem raceFree_loadValidated {k : Bool → GraphProg Unit}
    (h : RaceFree w (pre ++ ⟨l, .call .loadValidated k⟩ :: post)) :
    RaceFree (w.next .loadValidated w.graph.validated (w.graph.reorder order horder))
      (pre ++ ⟨w.graph.validated, k w.graph.validated⟩ :: post) := by
  refine ⟨fun hv j hj => ?_, fun t ht harmed j hj => ?_, ?_⟩
  · exact h.validated hv j (horder.mem_iff.mp hj)
  · rcases mem_threads ht with rfl | ht
    · exact h.validated harmed.1 j (horder.mem_iff.mp hj)
    · exact h.armed t ht harmed j (horder.mem_iff.mp hj)
  · exact next_launched rfl h.launched

theorem raceFree_validate {k : Status → GraphProg Unit} {s : Status}
    (hg : (s, g) = (w.graph.reorder order horder).validate dev)
    (h : RaceFree w (pre ++ ⟨l, .call .validate k⟩ :: post)) :
    RaceFree (w.next .validate s g) (pre ++ ⟨ok s, k s⟩ :: post) := by
  by_cases hs : s = .ok
  · subst hs
    obtain ⟨rfl, _⟩ := validate_ok hg
    refine ⟨fun _ j hj => hj, fun _ _ _ j hj => hj, ?_⟩
    exact next_launched rfl h.launched
  · obtain rfl := validate_not_ok hg hs
    have hok : ok s = false := (ok_eq_false_iff s).mpr hs
    have happroved : ∀ g, (w.next .validate s g).approved = w.approved := by
      intro g
      simp [World.next, World.approvedAfter, hok]
    refine ⟨fun hv j hj => ?_, fun t ht harmed j hj => ?_, ?_⟩
    · rw [happroved]
      exact h.validated hv j (horder.mem_iff.mp hj)
    · rw [happroved]
      rcases mem_threads ht with rfl | ht
      · simp [Armed, hok] at harmed
      · exact h.armed t ht harmed j (horder.mem_iff.mp hj)
    · exact next_launched rfl h.launched

theorem raceFree_launchReady {k : Status → GraphProg Unit} {s : Status}
    (hg : Executed (w.graph.reorder order horder) s g)
    (h : RaceFree w (pre ++ ⟨true, .call .launchReady k⟩ :: post)) :
    RaceFree (w.next .launchReady s g) (pre ++ ⟨false, k s⟩ :: post) := by
  have happroved : Approved w := h.armed ⟨true, .call .launchReady k⟩ (by simp) ⟨rfl, k, rfl⟩
  have hafter : Approved (w.next .launchReady s g) := fun j hj =>
    happroved j (horder.mem_iff.mp ((hg.sameStages.1.mem_keys_iff j).mp hj))
  obtain ⟨new, hnew, hkeys⟩ := hg.launches
  refine ⟨fun _ => hafter, fun _ _ _ => hafter, fun e he => ?_⟩
  rcases next_launched_mem hnew he with ⟨x, hx, rfl⟩ | he
  · exact happroved x.stage (horder.mem_iff.mp (hkeys x hx))
  · exact h.launched e he

end Calls

theorem raceFree_call (dev : DeviceDesc) (pre post : List (Thread GraphCall GraphCall.Answer Bool))
    (l : Bool) (o : GraphCall) (k : o.Answer → GraphProg Unit) (w : World) (r : o.Answer) (w' : World)
    (hserves : World.Serves dev o w r w') (hallowed : launchAllowed o l)
    (hcalm : Calm ⟨w, pre ++ ⟨l, .call o k⟩ :: post⟩ (.call o))
    (h : RaceFree w (pre ++ ⟨l, .call o k⟩ :: post)) :
    RaceFree w' (pre ++ ⟨sawValidated o r l, k r⟩ :: post) := by
  obtain ⟨order, horder, g, hg⟩ := hserves
  cases o with
  | addStage c => exact raceFree_addStage hg hcalm h
  | loadValidated =>
    obtain ⟨rfl, rfl⟩ := hg
    exact raceFree_loadValidated h
  | validate => exact raceFree_validate hg h
  | launchReady =>
    obtain rfl : l = true := hallowed
    obtain ⟨fuel, hlaunch⟩ := hg
    exact raceFree_launchReady (launchReady_executed hlaunch) h

theorem run_launches_approved (dev : DeviceDesc) (p : Pool GraphCall GraphCall.Answer World Bool)
    (hrun : Run (graphClients dev) Calm ⟨{}, []⟩ p) : ∀ e ∈ p.state.launched, e.1 ∈ e.2 := by
  have hinit : Sound (graphClients dev) launchAllowed (fun _ => True) RaceFree ⟨{}, []⟩ :=
    ⟨by simp, by simp, by simp, by simp⟩
  refine (hrun.sound ?_ (raceFree_call dev) ?_ hinit).state.launched
  · rintro _ ⟨ps, hps, rfl⟩
    exact session_respects hps false
  · rintro w ts q _ h
    refine ⟨h.validated, fun t ht harmed => ?_, h.launched⟩
    rcases List.mem_cons.mp ht with rfl | ht
    · simp [Armed, graphClients] at harmed
    · exact h.armed t ht harmed

def runner : GraphProg Unit := session [addStage { name := "a" }, run]

def adder : GraphProg Unit := session [addStage { name := "b" }]

def single : TaskGraph := (TaskGraph.addStage {} { name := "a" }).2

def World.unvalidated : World :=
  (World.next {} (.addStage { name := "a" }) .ok single).next .loadValidated false single

def World.validated : World := World.unvalidated.next .validate .ok { single with validated := true }

theorem run_call {dev : DeviceDesc} {G : Pool GraphCall GraphCall.Answer World Bool →
    Action GraphCall → Prop} {p : Pool GraphCall GraphCall.Answer World Bool} {w : World}
    (pre : List (Thread GraphCall GraphCall.Answer Bool))
    {post : List (Thread GraphCall GraphCall.Answer Bool)} {l : Bool} (c : GraphCall) (r : c.Answer)
    (g : TaskGraph) {k : c.Answer → GraphProg Unit}
    (h : Run (graphClients dev) G p ⟨w, pre ++ ⟨l, .call c k⟩ :: post⟩)
    (hg : TaskGraph.Serves dev anyKernel c w.graph r g)
    (hG : G ⟨w, pre ++ ⟨l, .call c k⟩ :: post⟩ (.call c)) :
    Run (graphClients dev) G p ⟨w.next c r g, pre ++ ⟨sawValidated c r l, k r⟩ :: post⟩ :=
  h.call pre c r (.intro w.graph.nodes.keys (.refl _) g hg) hG

theorem run_to_validated : ∃ k, Run (graphClients {}) Calm ⟨{}, []⟩
    ⟨World.validated, [⟨true, .call .launchReady k⟩, ⟨false, adder⟩]⟩ := by
  have hclient : (graphClients {}).client adder ∧ (graphClients {}).client runner := by
    refine ⟨⟨_, ?_, rfl⟩, _, ?_, rfl⟩ <;> simp [IsPublic, IsAddStage]
  have hvalid : (.ok, { single with validated := true }) = single.validate {} :=
    validate_eq_of_ok (by decide)
  have hspawn : Run (graphClients {}) Calm ⟨{}, []⟩ ⟨{}, [⟨false, runner⟩, ⟨false, adder⟩]⟩ :=
    (Run.spawn .refl adder hclient.1 trivial).spawn runner hclient.2 trivial
  have hadd := run_call [] (.addStage { name := "a" }) .ok single hspawn rfl
    (.inr (.inr (by simp [adder, session, addStage, Prog.op])))
  have hload := run_call [] .loadValidated false single hadd ⟨rfl, rfl⟩ trivial
  exact ⟨_, run_call [] .validate .ok _ hload hvalid trivial⟩

theorem scriptedRun_next {w : World} {l : List String} (hl : w.launched = [])
    (hg : w.graph.launches = []) (h : (scriptedRun .ok w.graph).map
      (fun e => e.2.launches.map Launch.stage) = some l) :
    ∃ s g, scriptedRun .ok w.graph = some (s, g) ∧
      (w.next .launchReady s g).launched = l.map (·, w.approved) := by
  obtain ⟨⟨s, g⟩, hrun, rfl⟩ := Option.map_eq_some_iff.mp h
  exact ⟨s, g, hrun, by simp [World.next, hl, hg]⟩

theorem run_launches_approved_single : ∃ p : Pool GraphCall GraphCall.Answer World Bool,
    p.state.launched = [("a", ["a"])] ∧ ∀ e ∈ p.state.launched, e.1 ∈ e.2 := by
  obtain ⟨k, hrun⟩ := run_to_validated
  obtain ⟨s, g, hg, hlaunched⟩ := scriptedRun_next (w := World.validated) (l := ["a"]) (by decide) rfl
    (by decide)
  have happroved : World.validated.approved = ["a"] := by decide
  have hlaunch := run_call [] .launchReady s g hrun (exec_scriptedRun hg) trivial
  exact ⟨_, hlaunched, run_launches_approved {} _ hlaunch⟩

theorem run_launches_unapproved : ¬ ∀ (dev : DeviceDesc)
    (p : Pool GraphCall GraphCall.Answer World Bool),
    Run (graphClients dev) (fun _ _ => True) ⟨{}, []⟩ p → ∀ e ∈ p.state.launched, e.1 ∈ e.2 := by
  intro hclaim
  obtain ⟨k, hrun⟩ := run_to_validated
  let g : TaskGraph := (World.validated.graph.addStage { name := "b" }).2
  have hadd := run_call [⟨true, .call .launchReady k⟩] (.addStage { name := "b" }) .ok g
    (hrun.weaken (fun _ _ _ => trivial)) rfl trivial
  obtain ⟨s, g', hg, hlaunched⟩ := scriptedRun_next
    (w := World.validated.next (.addStage { name := "b" }) .ok g) (l := ["a", "b"]) (by decide) rfl
    (by decide)
  have hlaunch := run_call [] .launchReady s g' hadd (exec_scriptedRun hg) trivial
  have hmem := hclaim {} _ hlaunch ("b", ["a"])
  rw [hlaunched] at hmem
  exact absurd (hmem (by decide)) (by decide)

end NexusRT.Scheduler

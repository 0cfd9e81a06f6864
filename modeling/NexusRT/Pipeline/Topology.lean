import NexusRT.Library.Guarded
import NexusRT.Pipeline.Waiting
import NexusRT.Scheduler.Completion

namespace NexusRT.Pipeline

open Scheduler Firmware TaskGraph Relation

/-- `topology.edges` of `config/pipeline.yaml`. -/
def edges : List (String × String) :=
  [("preprocess", "train"), ("preprocess", "infer"), ("train", "infer"), ("infer", "postprocess")]

def Respects (g : TaskGraph) : Prop :=
  ∀ e ∈ edges, ∀ l ∈ g.launches, l.stage = e.2 → l.states e.1 = some .completed

theorem order_perm {g : TaskGraph} {order : List String} (horder : order.Perm stageNames)
    (h : Running g) : order.Perm g.nodes.keys := by
  rw [List.perm_ext_iff_of_nodup (horder.nodup_iff.mpr (by decide)) g.nodes.nodup]
  intro k
  rw [h.mem_keys, horder.mem_iff]

theorem Running.reorder {g : TaskGraph} {order : List String} (h : Running g)
    (horder : order.Perm g.nodes.keys) : Running (g.reorder order horder) :=
  ⟨fun k => h.stages k, reorder_inv order horder h.inv, h.validated, h.waited⟩

section Run

variable {dev : DeviceDesc} {g : TaskGraph} {order : List String}

theorem run_running {g' : TaskGraph} {s : Status} (horder : order.Perm stageNames) (h : Running g)
    (hw : InferWaits order g) (hrun : Answers dev order .run g s g') : Running g' := by
  have hkeys := order_perm horder h
  have hmem {k : String} (hk : k ∈ stageNames) : k ∈ order := horder.mem_iff.mpr hk
  have hreorder : Running (g.reorder order hkeys) := h.reorder hkeys
  rw [Answers, inOrder, dif_pos hkeys] at hrun
  rcases run_exec hrun with ⟨_, _, rfl⟩ | ⟨hvalidate, fuel, hlaunch⟩
  · exact hreorder
  · have hpassed : Passed order .ok { g.reorder order hkeys with validated := true } :=
      ⟨⟨hreorder.stages, hreorder.inv.validate hvalidate, rfl, hreorder.waited⟩, rfl, fun _ => hw⟩
    exact (Prog.always_iff _ _ _).mp
      (launchReady_running (hmem (by decide)) (hmem (by decide)) fuel hpassed) _ _ hlaunch _ rfl

theorem run_overtaken (dev : DeviceDesc) (horder : order.Perm stageNames) (h : Running g)
    (hdue : ¬ InferWaits order g) : ∃ s g', Answers dev order .run g s g' ∧ Overtaken g' := by
  have hkeys := order_perm horder h
  have hmem {k : String} (hk : k ∈ stageNames) : k ∈ order := horder.mem_iff.mpr hk
  let g₁ := g.reorder order hkeys
  have hreorder : Running g₁ := h.reorder hkeys
  have hserved : ∀ c s, succeeding c (scripted .ok c s).1 := by
    intro c s
    cases c <;> simp [succeeding, scripted]
  have hexec := Prog.exec_eval (H := Prog.allow succeeding) (f := scripted .ok)
    (fun c s => hserved c s) (launchReady (g₁.nodes.size + 1) g₁) ()
  have hleaves := (Prog.always_iff _ _ _).mp
    (launchReady_leaves (A := succeeding) (Nat.lt_succ_self g₁.nodes.size)) _ _ hexec
  obtain ⟨⟨s, g'⟩, hrun⟩ := Option.ne_none_iff_exists'.mp hleaves
  have hover := (Prog.always_iff _ _ _).mp (launchReady_due (hmem (by decide)) (hmem (by decide)) _
    ⟨hreorder, rfl, hdue⟩) _ _ hexec _ hrun
  refine ⟨s, g', ?_, hover⟩
  rw [Answers, inOrder, dif_pos hkeys]
  exact run_scriptedRun hreorder.validated hrun

end Run

section Build

variable {dev : DeviceDesc} {g g' : TaskGraph} {s : Status} {order : List String}

theorem inOrder_find (order : List String) (g : TaskGraph) :
    (inOrder order g).nodes.find = g.nodes.find ∧ (inOrder order g).launches = g.launches := by
  rw [inOrder]
  split <;> exact ⟨rfl, rfl⟩

theorem inOrder_inv (hi : TaskGraph.Inv g) : TaskGraph.Inv (inOrder order g) := by
  rw [inOrder]
  split
  · exact reorder_inv order _ hi
  · exact hi

theorem answers_inv {o : GraphOp} (h : Answers dev order o g s g') (hi : TaskGraph.Inv g) :
    TaskGraph.Inv g' :=
  Prog.exec_invariant (I := TaskGraph.Inv) (fun _ _ _ _ h => serves_inv h) h (inOrder_inv hi)

theorem addStage_answers {c : StageContract} (h : Answers dev order (.addStage c) g s g') :
    (s, g') = (inOrder order g).addStage c := by
  obtain ⟨_, _, hserves, rfl, rfl⟩ := h
  exact hserves

theorem addStage_find {c : StageContract} (h : Answers dev order (.addStage c) g s g') :
    (s ≠ .ok ∧ g' = inOrder order g) ∨ (s = .ok ∧ g.nodes.find c.name = none ∧
      g'.launches = g.launches ∧ g'.nodes.find =
        fun k => if k = c.name then some { contract := c } else g.nodes.find k) := by
  obtain ⟨hfind, hlaunches⟩ := inOrder_find order g
  have hadd := addStage_answers h
  rw [TaskGraph.addStage] at hadd
  split at hadd
  · obtain ⟨rfl, rfl⟩ := Prod.mk.inj hadd
    exact .inl ⟨by simp, rfl⟩
  · split at hadd
    · obtain ⟨rfl, rfl⟩ := Prod.mk.inj hadd
      exact .inl ⟨by simp, rfl⟩
    · next hfree =>
      obtain ⟨rfl, rfl⟩ := Prod.mk.inj hadd
      rw [Table.contains, hfind] at hfree
      refine .inr ⟨rfl, by simpa using hfree, hlaunches, ?_⟩
      funext k
      simp [hfind]

theorem validate_find (h : Answers dev order .validate g s g') :
    g'.launches = g.launches ∧ g'.nodes.find = g.nodes.find ∧ (s = .ok → g'.validated = true) := by
  obtain ⟨hfind, hlaunches⟩ := inOrder_find order g
  obtain ⟨_, _, hserves, rfl, rfl⟩ := h
  by_cases hs : s = .ok
  · subst hs
    rw [(validate_ok hserves).1]
    exact ⟨hlaunches, hfind, fun _ => rfl⟩
  · rw [validate_not_ok hserves hs]
    exact ⟨hlaunches, hfind, fun hok => absurd hok hs⟩

structure Unbuilt (g : TaskGraph) : Prop where
  inv : TaskGraph.Inv g
  launches : g.launches = []
  first : (∀ k, g.nodes.find k = none) ∨ g.nodes.find "preprocess" ≠ none

theorem Unbuilt.inOrder (h : Unbuilt g) : Unbuilt (Pipeline.inOrder order g) := by
  obtain ⟨hfind, hlaunches⟩ := inOrder_find order g
  refine ⟨inOrder_inv h.inv, by rw [hlaunches, h.launches], ?_⟩
  rw [hfind]
  exact h.first

theorem Running.inOrder (h : Running g) : Running (Pipeline.inOrder order g) := by
  obtain ⟨hfind, hlaunches⟩ := inOrder_find order g
  refine ⟨fun k => ?_, inOrder_inv h.inv, ?_, ?_⟩
  · rw [hfind]
    exact h.stages k
  · rw [Pipeline.inOrder]
    split <;> exact h.validated
  · rw [hlaunches]
    exact h.waited

theorem addStage_unbuilt {c : StageContract} (h : Answers dev order (.addStage c) g s g')
    (hg : Unbuilt g) (hfirst : c.name = "preprocess" ∨ g.nodes.find "preprocess" ≠ none) :
    Unbuilt g' ∧ (s = .ok → g'.nodes.find "preprocess" ≠ none ∧ g'.nodes.find =
      fun k => if k = c.name then some { contract := c } else g.nodes.find k) := by
  rcases addStage_find h with ⟨hs, rfl⟩ | ⟨rfl, _, hlaunches, hfind⟩
  · exact ⟨hg.inOrder, fun hok => absurd hok hs⟩
  · have hpre : g'.nodes.find "preprocess" ≠ none := by
      rw [hfind]
      rcases hfirst with hname | hpre
      · simp [hname]
      · by_cases hname : "preprocess" = c.name
        · simp [hname]
        · simpa [hname] using hpre
    exact ⟨⟨answers_inv h hg.inv, by rw [hlaunches, hg.launches], .inr hpre⟩, fun _ => ⟨hpre, hfind⟩⟩

theorem exec_guarded {H : (o : GraphOp) → TaskGraph → o.Answer → TaskGraph → Prop} {o : GraphOp}
    {built : Bool} {rest : PipelineProg (Status × Bool)} {r : Status × Bool}
    (h : Prog.Exec H (do let s ← .op o; if !ok s then return (s, built) else rest) g r g') :
    (r.1 ≠ .ok ∧ r.2 = built ∧ H o g r.1 g') ∨ ∃ g₁, H o g .ok g₁ ∧ Prog.Exec H rest g₁ r g' := by
  simp only [Prog.op, Prog.call_bind, Prog.ret_bind, Prog.exec_call] at h
  obtain ⟨s, g₁, hH, h⟩ := h
  by_cases hs : s = .ok
  · subst hs
    simp only [(ok_iff .ok).mpr rfl, Bool.not_true, Bool.false_eq_true, ↓reduceIte] at h
    exact .inr ⟨g₁, hH, h⟩
  · simp only [(ok_eq_false_iff s).mpr hs, Bool.not_false, ↓reduceIte] at h
    obtain ⟨rfl, rfl⟩ := h
    exact .inl ⟨hs, rfl, hH⟩

theorem build_unbuilt {r : Status × Bool}
    (h : Prog.Exec (Answers dev order) (build false) g r g') (hg : Unbuilt g) :
    (r.1 ≠ .ok ∧ r.2 = false ∧ Unbuilt g') ∨ (r = (.ok, true) ∧ Running g' ∧
      g'.nodes.find = builtGraph.nodes.find ∧ g'.launches = []) := by
  rcases exec_guarded h with ⟨hs, hb, h₁⟩ | ⟨g₁, h₁, h⟩
  · exact .inl ⟨hs, hb, (addStage_unbuilt h₁ hg (.inl rfl)).1⟩
  obtain ⟨hg₁, hok₁⟩ := addStage_unbuilt h₁ hg (.inl rfl)
  obtain ⟨hpre₁, hfind₁⟩ := hok₁ rfl
  rcases exec_guarded h with ⟨hs, hb, h₂⟩ | ⟨g₂, h₂, h⟩
  · exact .inl ⟨hs, hb, (addStage_unbuilt h₂ hg₁ (.inr hpre₁)).1⟩
  obtain ⟨hg₂, hok₂⟩ := addStage_unbuilt h₂ hg₁ (.inr hpre₁)
  obtain ⟨hpre₂, hfind₂⟩ := hok₂ rfl
  rcases exec_guarded h with ⟨hs, hb, h₃⟩ | ⟨g₃, h₃, h⟩
  · exact .inl ⟨hs, hb, (addStage_unbuilt h₃ hg₂ (.inr hpre₂)).1⟩
  obtain ⟨hg₃, hok₃⟩ := addStage_unbuilt h₃ hg₂ (.inr hpre₂)
  obtain ⟨hpre₃, hfind₃⟩ := hok₃ rfl
  rcases exec_guarded h with ⟨hs, hb, h₄⟩ | ⟨g₄, h₄, h⟩
  · exact .inl ⟨hs, hb, (addStage_unbuilt h₄ hg₃ (.inr hpre₃)).1⟩
  obtain ⟨hg₄, hok₄⟩ := addStage_unbuilt h₄ hg₃ (.inr hpre₃)
  obtain ⟨hpre₄, hfind₄⟩ := hok₄ rfl
  rcases exec_guarded h with ⟨hs, hb, h₅⟩ | ⟨g₅, h₅, rfl, rfl⟩
  · obtain ⟨hlaunches, hfind, _⟩ := validate_find h₅
    have hempty : g'.launches = [] := by rw [hlaunches, hg₄.launches]
    exact .inl ⟨hs, hb, answers_inv h₅ hg₄.inv, hempty, .inr (hfind ▸ hpre₄)⟩
  · obtain ⟨hlaunches, hfind, hvalidated⟩ := validate_find h₅
    have hnone : ∀ k, g.nodes.find k = none := by
      rcases hg.first with hnone | hpre
      · exact hnone
      · rcases addStage_find h₁ with ⟨hs, _⟩ | ⟨_, hfree, _⟩
        · exact absurd rfl hs
        · exact absurd hfree hpre
    have hnodes : g'.nodes.find = builtGraph.nodes.find := by
      funext k
      rw [hfind, hfind₄, hfind₃, hfind₂, hfind₁]
      simp [builtGraph, TaskGraph.addStage, Table.contains, preprocess, train, infer, postprocess,
        hnone]
    have hempty : g'.launches = [] := by rw [hlaunches, hg₄.launches]
    refine .inr ⟨rfl, ⟨fun k => by rw [hnodes], answers_inv h₅ hg₄.inv, hvalidated rfl, ?_⟩, hnodes,
      hempty⟩
    simp [hempty]

theorem build_running {built : Bool} {r : Status × Bool}
    (h : Prog.Exec (Answers dev order) (build built) g r g') (hg : Running g) :
    r.1 ≠ .ok ∧ r.2 = built ∧ Running g' := by
  have hpre : g.nodes.find "preprocess" ≠ none := by
    rw [Ne, ← Table.not_mem_keys, hg.mem_keys]
    decide
  rcases exec_guarded h with ⟨hr, hb, h₁⟩ | ⟨g₁, h₁, _⟩
  · rcases addStage_find h₁ with ⟨_, rfl⟩ | ⟨hs, _⟩
    · exact ⟨hr, hb, hg.inOrder⟩
    · exact absurd hs hr
  · rcases addStage_find h₁ with ⟨hs, _⟩ | ⟨_, hfree, _⟩
    · exact absurd rfl hs
    · exact absurd hfree hpre

end Build

inductive Sound (p : Pipeline) : Prop
  | unbuilt (hb : p.built = false) (h : Unbuilt p.graph)
  | running (hb : p.built = true) (h : Running p.graph)

theorem Sound.respects {p : Pipeline} (h : Sound p) : Respects p.graph := by
  cases h with
  | unbuilt _ h =>
    intro e _ l hl
    simp [h.launches] at hl
  | running _ h =>
    have hdeps (l : Launch) (hl : l ∈ p.graph.launches) :
        ∀ d ∈ builtGraph.dependsOn l.stage, l.states d = some .completed := by
      rw [← h.stages.dependsOn_eq]
      exact h.inv.ordered l hl
    intro e he l hl hstage
    simp only [edges, List.mem_cons, List.not_mem_nil, or_false] at he
    rcases he with rfl | rfl | rfl | rfl
    · exact hdeps l hl _ (by simp [dependsOn_builtGraph, hstage])
    · exact hdeps l hl _ (by simp [dependsOn_builtGraph, hstage])
    · exact h.waited l hl hstage
    · exact hdeps l hl _ (by simp [dependsOn_builtGraph, hstage])

def TrainAhead (p : Pipeline) : PipelineCall → Prop
  | .build _ => True
  | .run order => p.dryRun = true ∨ InferWaits order (if p.built then p.graph else builtGraph)

theorem run_sound {dev : DeviceDesc} {order : List String} {dryRun : Bool} {g g' : TaskGraph} {r : Status × Bool}
    (horder : order.Perm stageNames) (hg : Running g) (hguard : dryRun = true ∨ InferWaits order g)
    (h : Prog.Exec (Answers dev order) (run dryRun true) g r g') : r.2 = true ∧ Running g' := by
  simp only [run, ↓reduceIte, Prog.pure_eq, Prog.ret_bind, (ok_iff .ok).mpr rfl, Bool.not_true,
    Bool.false_eq_true] at h
  cases dryRun with
  | true =>
    obtain ⟨rfl, rfl⟩ := h
    exact ⟨rfl, hg⟩
  | false =>
    obtain ⟨s, _, hrun, rfl, rfl⟩ := h
    exact ⟨rfl, run_running horder hg (hguard.resolve_left (by simp)) hrun⟩

theorem run_unbuilt {H : (o : GraphOp) → TaskGraph → o.Answer → TaskGraph → Prop} {dryRun : Bool}
    {g g' : TaskGraph} {r : Status × Bool} (h : Prog.Exec H (run dryRun false) g r g') :
    ∃ r₁ g₁, Prog.Exec H (build false) g r₁ g₁ ∧ (r₁.1 ≠ .ok → r = r₁ ∧ g' = g₁) ∧
      (r₁ = (.ok, true) → Prog.Exec H (run dryRun true) g₁ r g') := by
  simp only [run, Bool.false_eq_true, ↓reduceIte, Prog.exec_bind] at h
  obtain ⟨⟨s, built⟩, g₁, hbuild, h⟩ := h
  refine ⟨(s, built), g₁, hbuild, fun hs => ?_, ?_⟩
  · simp only [(ok_eq_false_iff s).mpr hs, Bool.not_false, ↓reduceIte] at h
    exact h
  · rintro ⟨rfl, rfl⟩
    simpa only [run, ↓reduceIte, Prog.pure_eq, Prog.ret_bind] using h

theorem Step.sound {dev : DeviceDesc} {p p' : Pipeline} {c : PipelineCall} (h : Step dev p c p')
    (hguard : TrainAhead p c) (hp : Sound p) : Sound p' := by
  obtain ⟨dryRun, g, built⟩ := p
  cases h with
  | build order horder s built' g' h =>
    rcases hp with ⟨rfl, hg⟩ | ⟨rfl, hg⟩
    · rcases build_unbuilt h hg with ⟨_, rfl, hg'⟩ | ⟨hr, hg', _⟩
      · exact .unbuilt rfl hg'
      · exact .running (congrArg Prod.snd hr) hg'
    · obtain ⟨_, rfl, hg'⟩ := build_running h hg
      exact .running rfl hg'
  | run order horder s built' g' h =>
    rcases hp with ⟨rfl, hg⟩ | ⟨rfl, hg⟩
    · obtain ⟨r₁, g₁, hbuild, hfail, hrest⟩ := run_unbuilt h
      rcases build_unbuilt hbuild hg with ⟨hs, hb, hg₁⟩ | ⟨rfl, hg₁, hfind, _⟩
      · obtain ⟨rfl, rfl⟩ := hfail hs
        exact .unbuilt hb hg₁
      · have hwaits : dryRun = true ∨ InferWaits order g₁ := by
          have hstate : g₁.state = builtGraph.state := by
            funext k
            rw [state, state, hfind]
          apply hguard.imp_right
          intro (hw : InferWaits order builtGraph)
          simpa only [InferWaits, InferWaitsFrom, upcoming, hstate] using hw
        obtain ⟨rfl, hg'⟩ := run_sound horder hg₁ hwaits (hrest rfl)
        exact .running rfl hg'
    · obtain ⟨rfl, hg'⟩ := run_sound horder hg hguard h
      exact .running rfl hg'

theorem Overtaken.not_respects {g : TaskGraph} (h : Overtaken g) : ¬ Respects g := by
  obtain ⟨l, hl, hstage, hnot⟩ := h
  exact fun hrespects => hnot (hrespects ("train", "infer") (by decide) l hl hstage)

theorem step_overtaken (dev : DeviceDesc) {g : TaskGraph} {order : List String}
    (horder : order.Perm stageNames) (hg : Running g) (hdue : ¬ InferWaits order g) :
    ∃ p', Step dev { graph := g, built := true } (.run order) p' ∧ ¬ Respects p'.graph := by
  obtain ⟨s, g', hrun, hover⟩ := run_overtaken dev horder hg hdue
  exact ⟨_, .run order horder s true g' ⟨s, g', hrun, rfl, rfl⟩, hover.not_respects⟩

theorem topology_respected (dev : DeviceDesc) (dryRun : Bool) (p : Pipeline)
    (h : GuardedRun (Step dev) TrainAhead { dryRun } p) :
    Respects p.graph ∧ (p.built = true → ∀ order, order.Perm stageNames →
      (TrainAhead p (.run order) ↔ ∀ p', Step dev p (.run order) p' → Respects p'.graph)) := by
  have hsound : Sound p := by
    induction h with
    | refl => exact .unbuilt rfl ⟨inv_empty, rfl, .inl fun _ => rfl⟩
    | tail _ h ih =>
      obtain ⟨c, hstep, hguard⟩ := h
      exact hstep.sound hguard ih
  refine ⟨hsound.respects, fun hbuilt order horder => ?_⟩
  constructor
  · intro hguard p' hstep
    exact (hstep.sound hguard hsound).respects
  · intro hall
    by_contra hnot
    obtain ⟨dry, g, built⟩ := p
    obtain rfl : built = true := hbuilt
    rw [TrainAhead, not_or, if_pos rfl] at hnot
    obtain rfl : dry = false := by simpa using hnot.1
    cases hsound with
    | unbuilt hb _ => simp at hb
    | running _ hg =>
      obtain ⟨p', hstep, hbad⟩ := step_overtaken dev horder hg hnot.2
      exact hbad (hall p' hstep)

theorem exec_ok {H : (o : GraphOp) → TaskGraph → o.Answer → TaskGraph → Prop} {o : GraphOp}
    {built : Bool} {rest : PipelineProg (Status × Bool)} {r : Status × Bool} {g g₁ g' : TaskGraph}
    (hH : H o g .ok g₁) (h : Prog.Exec H rest g₁ r g') :
    Prog.Exec H (do let s ← .op o; if !ok s then return (s, built) else rest) g r g' :=
  ⟨.ok, g₁, hH, h⟩

def device : DeviceDesc := { smemPerSmBytes := 0x20000 }

def added (order : List String) : TaskGraph :=
  [preprocess, train, infer, postprocess].foldl (fun g c => ((inOrder order g).addStage c).2) {}

def builtPipeline (order : List String) : Pipeline where
  graph := ((inOrder order (added order)).validate device).2
  built := true

def inferEarly : List String := ["preprocess", "infer", "train", "postprocess"]

theorem step_build : Step device {} (.build inferEarly) (builtPipeline inferEarly) := by
  have hadd (g : TaskGraph) (c : StageContract) (h : ((inOrder inferEarly g).addStage c).1 = .ok) :
      Answers device inferEarly (.addStage c) g .ok ((inOrder inferEarly g).addStage c).2 :=
    ⟨_, _, Prod.ext h.symm rfl, rfl, rfl⟩
  refine .build inferEarly (by decide) .ok true _ ?_
  apply exec_ok (hadd _ _ (by decide))
  apply exec_ok (hadd _ _ (by decide))
  apply exec_ok (hadd _ _ (by decide))
  apply exec_ok (hadd _ _ (by decide))
  have hvalid : Answers device inferEarly .validate (added inferEarly) .ok
      (builtPipeline inferEarly).graph := ⟨_, _, Prod.ext (by decide) rfl, rfl, rfl⟩
  exact exec_ok hvalid ⟨rfl, rfl⟩

theorem not_trainAhead_inferEarly : ¬ InferWaits inferEarly (builtPipeline inferEarly).graph := by
  decide

theorem topology_respected_built : ∃ g, Step device (builtPipeline inferEarly) (.run stageNames)
      { graph := g, built := true } ∧
    g.launches.map Launch.stage = ["postprocess", "infer", "train", "preprocess"] ∧ Respects g ∧
    ¬ ∀ p', Step device (builtPipeline inferEarly) (.run inferEarly) p' → Respects p'.graph := by
  have hbuild : GuardedRun (Step device) TrainAhead {} (builtPipeline inferEarly) :=
    .single ⟨_, step_build, trivial⟩
  obtain ⟨⟨s, g⟩, hscript⟩ := Option.isSome_iff_exists.mp
    (show (scriptedRun .ok (inOrder stageNames (builtPipeline inferEarly).graph)).isSome = true by
      decide)
  have hlaunches : (scriptedRun .ok (inOrder stageNames (builtPipeline inferEarly).graph)).map
      (fun e => e.2.launches.map Launch.stage) =
        some ["postprocess", "infer", "train", "preprocess"] := by decide
  rw [hscript] at hlaunches
  have hstep : Step device (builtPipeline inferEarly) (.run stageNames) { graph := g, built := true } :=
    .run stageNames (.refl _) s true g ⟨s, g, run_scriptedRun (by decide) hscript, rfl, rfl⟩
  have hwaits : InferWaits stageNames (builtPipeline inferEarly).graph := by decide
  have hrespects := (topology_respected device false _ (hbuild.tail ⟨_, hstep, .inr hwaits⟩)).1
  refine ⟨g, hstep, Option.some.inj hlaunches, hrespects, fun hall => ?_⟩
  have hexact := (topology_respected device false _ hbuild).2 rfl inferEarly (by decide)
  rcases hexact.mpr hall with hdry | hw
  · exact absurd hdry (by decide)
  · exact not_trainAhead_inferEarly hw

theorem topology_not_respected : ¬ ∀ (dev : DeviceDesc) (dryRun : Bool) (p : Pipeline),
    ReflTransGen (fun p p' => ∃ c, Step dev p c p') { dryRun } p → Respects p.graph := by
  intro h
  have hfresh : Sound {} := .unbuilt rfl ⟨inv_empty, rfl, .inl fun _ => rfl⟩
  have hrunning : Running (builtPipeline inferEarly).graph := by
    cases step_build.sound trivial hfresh with
    | unbuilt hb _ => exact absurd hb (by decide)
    | running _ hg => exact hg
  obtain ⟨p', hstep, hbad⟩ := step_overtaken device (by decide) hrunning not_trainAhead_inferEarly
  exact hbad (h device false p' (.tail (.single ⟨_, step_build⟩) ⟨_, hstep⟩))

end NexusRT.Pipeline

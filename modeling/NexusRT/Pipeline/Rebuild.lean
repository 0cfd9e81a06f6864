import NexusRT.Pipeline.Topology
import NexusRT.Scheduler.Footprints

namespace NexusRT.Pipeline

open Scheduler Firmware TaskGraph Relation

def after (p : Pipeline) (r : Status × Bool) (g : TaskGraph) : Pipeline :=
  { p with graph := g, built := r.2 }

def afterBuild (dryRun : Bool) : Status × Bool → PipelineProg (Status × Bool)
  | (s, built) =>
    if !ok s then return (s, built) else
    if dryRun then return (.ok, built) else do
    let s ← .op .run
    return (s, built)

theorem run_eq (dryRun built : Bool) :
    run dryRun built = (if built then pure (.ok, built) else build built) >>= afterBuild dryRun := by
  cases built <;> rfl

structure Building where
  before : Pipeline
  status : Status
  after : Pipeline

/-- `builds` is ghost state, the oldest call first. -/
structure BuildLog where
  p : Pipeline := {}
  builds : List Building := []

def BuildLog.note (s : BuildLog) (r : Status × Bool) (g : TaskGraph) : BuildLog where
  p := s.p.after r g
  builds := s.builds ++ [⟨s.p, r.1, s.p.after r g⟩]

inductive BuildStep (dev : DeviceDesc) (s : BuildLog) : PipelineCall → BuildLog → Prop
  | build (order : List String) (horder : order.Perm stageNames) (r : Status × Bool)
      (g' : TaskGraph) (h : Prog.Exec (Answers dev order) (build s.p.built) s.p.graph r g') :
      BuildStep dev s (.build order) (s.note r g')
  | run (order : List String) (horder : order.Perm stageNames) (hb : s.p.built = true)
      (r : Status × Bool) (g' : TaskGraph)
      (h : Prog.Exec (Answers dev order) (afterBuild s.p.dryRun (.ok, true)) s.p.graph r g') :
      BuildStep dev s (.run order) { s with p := s.p.after r g' }
  | buildAndRun (order : List String) (horder : order.Perm stageNames) (hb : s.p.built = false)
      (r₁ : Status × Bool) (g₁ : TaskGraph)
      (hbuild : Prog.Exec (Answers dev order) (Pipeline.build false) s.p.graph r₁ g₁)
      (r : Status × Bool) (g' : TaskGraph)
      (h : Prog.Exec (Answers dev order) (afterBuild s.p.dryRun r₁) g₁ r g') :
      BuildStep dev s (.run order) { s.note r₁ g₁ with p := s.p.after r g' }

structure Unchanged (p p' : Pipeline) : Prop where
  built : p'.built = p.built
  nodes : p'.graph.nodes.find = p.graph.nodes.find
  validated : p'.graph.validated = p.graph.validated
  launches : p'.graph.launches = p.graph.launches

structure Repeatable (builds : List Building) : Prop where
  kept : ∀ b ∈ builds, b.status ≠ .ok →
    ∀ k, k ∈ b.after.graph.nodes.keys ↔ k ∈ b.before.graph.nodes.keys
  same : ∀ b ∈ builds, ∀ first ∈ builds.head?, b.status = first.status
  idle : ∀ b ∈ builds, b.before.built = true → b.status = .ok ∧ Unchanged b.before b.after

def Builds (p : Pipeline) : PipelineCall → Prop
  | .build _ => True
  | .run _ => p.built = false

def BuildsOnce (dev : DeviceDesc) (s : BuildLog) (c : PipelineCall) : Prop :=
  Builds s.p c → s.builds = [] ∧ 128 ≤ dev.smemPerSmBytes / 1024

theorem step_iff {dev : DeviceDesc} {s : BuildLog} {c : PipelineCall} {p' : Pipeline} :
    Step dev s.p c p' ↔ ∃ builds, BuildStep dev s c ⟨p', builds⟩ := by
  constructor
  · intro h
    cases h with
    | build order horder status built g' h => exact ⟨_, .build order horder (status, built) g' h⟩
    | run order horder status built g' h =>
      rw [run_eq, Prog.exec_bind] at h
      obtain ⟨r₁, g₁, h₁, h⟩ := h
      cases hb : s.p.built with
      | false =>
        rw [hb, if_neg Bool.false_ne_true] at h₁
        exact ⟨_, .buildAndRun order horder hb r₁ g₁ h₁ (status, built) g' h⟩
      | true =>
        rw [hb, if_pos rfl] at h₁
        obtain ⟨rfl, rfl⟩ := h₁
        exact ⟨_, .run order horder hb (status, built) g' h⟩
  · rintro ⟨builds, h⟩
    generalize hs' : (⟨p', builds⟩ : BuildLog) = s' at h
    cases h with
    | build order horder r g' h =>
      obtain ⟨rfl, _⟩ := BuildLog.mk.inj hs'
      exact .build order horder r.1 r.2 g' h
    | run order horder hb r g' h =>
      obtain ⟨rfl, _⟩ := BuildLog.mk.inj hs'
      refine .run order horder r.1 r.2 g' ?_
      rw [run_eq, hb, if_pos rfl]
      exact h
    | buildAndRun order horder hb r₁ g₁ hbuild r g' h =>
      obtain ⟨rfl, _⟩ := BuildLog.mk.inj hs'
      refine .run order horder r.1 r.2 g' ?_
      rw [run_eq, hb, if_neg Bool.false_ne_true, Prog.exec_bind]
      exact ⟨r₁, g₁, hbuild, h⟩

section Build

variable {dev : DeviceDesc} {g g' : TaskGraph} {order : List String}

theorem addStage_free {c : StageContract} {s : Status} (hname : c.name ≠ "")
    (hfree : g.nodes.find c.name = none) (h : Answers dev order (.addStage c) g s g') :
    s = .ok ∧ g'.nodes.find = fun k => if k = c.name then some { contract := c } else g.nodes.find k := by
  have hadd := addStage_answers h
  rcases addStage_find h with ⟨hs, _⟩ | ⟨hs, _, _, hfind⟩
  · have hnot : ¬ (inOrder order g).nodes.contains c.name = true := by
      rw [Table.contains, (inOrder_find order g).1, hfree]
      simp
    rw [TaskGraph.addStage, if_neg hname, if_neg hnot] at hadd
    exact absurd (Prod.mk.inj hadd).1 hs
  · exact ⟨hs, hfind⟩

theorem exec_addStage {c : StageContract} {built : Bool} {rest : PipelineProg (Status × Bool)}
    {r : Status × Bool} (hname : c.name ≠ "") (hfree : g.nodes.find c.name = none)
    (h : Prog.Exec (Answers dev order)
      (do let s ← .op (.addStage c); if !ok s then return (s, built) else rest) g r g') :
    ∃ g₁ : TaskGraph, g₁.nodes.find =
      (fun k => if k = c.name then some { contract := c } else g.nodes.find k) ∧
        Prog.Exec (Answers dev order) rest g₁ r g' := by
  rcases exec_guarded h with ⟨hs, _, h₁⟩ | ⟨g₁, h₁, h⟩
  · exact absurd (addStage_free hname hfree h₁).1 hs
  · exact ⟨g₁, (addStage_free hname hfree h₁).2, h⟩

theorem validate_cases (dev : DeviceDesc) (g : TaskGraph) : (g.validate dev).1 = .ok ∨
    (g.validate dev).1 = .invalidArgument ∨ (g.validate dev).1 = .contractViolation := by
  rw [TaskGraph.validate]
  split
  · exact .inr (.inl rfl)
  · split
    · exact .inr (.inl rfl)
    · split
      · exact .inr (.inr rfl)
      · exact .inl rfl

theorem overKb_builtGraph (hg : g.nodes.find = builtGraph.nodes.find) :
    g.OverKb dev ↔ dev.smemPerSmBytes / 1024 < 128 := by
  have hall : ∀ e ∈ builtGraph.nodes.entries, e.2.contract.smFootprintMb ≤ 128 := by decide
  constructor
  · rintro ⟨k, c, hk, hover⟩
    rw [TaskGraph.contract, hg] at hk
    obtain ⟨n, hn, rfl⟩ := Option.map_eq_some_iff.mp hk
    exact UInt32.lt_of_lt_of_le hover (hall (k, n) ((builtGraph.nodes.mem_entries k n).mpr hn))
  · intro hover
    refine ⟨"train", train, ?_, hover⟩
    rw [TaskGraph.contract, hg]
    rfl

theorem validate_built (hg : g.nodes.find = builtGraph.nodes.find) : (g.validate dev).1 =
    if 128 ≤ dev.smemPerSmBytes / 1024 then .ok else .contractViolation := by
  have hsame : SameStages builtGraph g := fun k => by rw [hg]
  have hbuilt : ¬ (builtGraph.Missing ∨ builtGraph.Repeats ∨ builtGraph.Cyclic) := by
    rw [← validate_invalid_iff device]
    decide
  have hsound : ¬ (g.Missing ∨ g.Repeats ∨ g.Cyclic) := by
    rw [hsame.missing_iff, hsame.cyclic_iff, Repeats, hg]
    exact hbuilt
  have hinvalid := (not_congr (validate_invalid_iff dev g)).mpr hsound
  have hviolation : (g.validate dev).1 = .contractViolation ↔ dev.smemPerSmBytes / 1024 < 128 := by
    rw [validate_violation_iff, overKb_builtGraph hg]
    exact and_iff_right hsound
  split
  · next hfits =>
    have hnot := mt hviolation.mp (UInt32.not_lt.mpr hfits)
    rcases validate_cases dev g with hok | hbad | hbad
    · exact hok
    · exact absurd hbad hinvalid
    · exact absurd hbad hnot
  · next hlarge => exact hviolation.mpr (UInt32.not_le.mp hlarge)

theorem build_fresh {r : Status × Bool} (hg : ∀ k, g.nodes.find k = none)
    (h : Prog.Exec (Answers dev order) (build false) g r g') :
    g'.nodes.find = builtGraph.nodes.find ∧
      r = if 128 ≤ dev.smemPerSmBytes / 1024 then (.ok, true) else (.contractViolation, false) := by
  obtain ⟨g₁, hfind₁, h⟩ := exec_addStage (by decide) (hg _) h
  obtain ⟨g₂, hfind₂, h⟩ := exec_addStage (by decide) (by rw [hfind₁]; exact hg _) h
  obtain ⟨g₃, hfind₃, h⟩ := exec_addStage (by decide) (by rw [hfind₂, hfind₁]; exact hg _) h
  obtain ⟨g₄, hfind₄, h⟩ := exec_addStage (by decide) (by rw [hfind₃, hfind₂, hfind₁]; exact hg _) h
  have hbuilt : g₄.nodes.find = builtGraph.nodes.find := by
    funext k
    rw [hfind₄, hfind₃, hfind₂, hfind₁]
    simp [builtGraph, TaskGraph.addStage, Table.contains, preprocess, train, infer, postprocess, hg]
  have hvalidate {s : Status} {g₅ : TaskGraph} (h₅ : Answers dev order .validate g₄ s g₅) :
      g₅.nodes.find = builtGraph.nodes.find ∧
        s = if 128 ≤ dev.smemPerSmBytes / 1024 then .ok else .contractViolation := by
    refine ⟨(validate_find h₅).2.1.trans hbuilt, ?_⟩
    obtain ⟨_, _, hserves, rfl, rfl⟩ := h₅
    rw [← validate_built ((inOrder_find order g₄).1.trans hbuilt)]
    exact congrArg Prod.fst hserves
  rcases exec_guarded h with ⟨hs, hb, h₅⟩ | ⟨g₅, h₅, rfl, rfl⟩
  · obtain ⟨hfind, hstatus⟩ := hvalidate h₅
    refine ⟨hfind, ?_⟩
    split at hstatus
    · exact absurd hstatus hs
    · next hlarge =>
      rw [if_neg hlarge]
      exact Prod.ext hstatus hb
  · obtain ⟨hfind, hstatus⟩ := hvalidate h₅
    refine ⟨hfind, ?_⟩
    split at hstatus
    · next hfits => rw [if_pos hfits]
    · cases hstatus

theorem build_taken {built : Bool} {r : Status × Bool}
    (hpre : g.nodes.find "preprocess" ≠ none)
    (h : Prog.Exec (Answers dev order) (build built) g r g') : r.1 ≠ .ok := by
  rcases exec_guarded h with ⟨hr, _, _⟩ | ⟨g₁, h₁, _⟩
  · exact hr
  · rcases addStage_find h₁ with ⟨hs, _⟩ | ⟨_, hfree, _⟩
    · exact absurd rfl hs
    · exact absurd hfree hpre

theorem run_keeps {s : Status} {k : String} (h : Answers dev order .run g s g') :
    g'.nodes.find k = none ↔ g.nodes.find k = none := by
  have hfind := (inOrder_find order g).1
  rcases run_exec h with ⟨_, _, rfl⟩ | ⟨_, _, hlaunch⟩
  · rw [hfind]
  · rw [(launchReady_executed hlaunch).sameStages.1.find_eq_none_iff, hfind]

theorem afterBuild_keeps {dryRun built : Bool} {r : Status × Bool} {k : String}
    (h : Prog.Exec (Answers dev order) (afterBuild dryRun (.ok, built)) g r g') :
    r.2 = built ∧ (g'.nodes.find k = none ↔ g.nodes.find k = none) := by
  cases dryRun with
  | true =>
    obtain ⟨rfl, rfl⟩ := h
    exact ⟨rfl, Iff.rfl⟩
  | false =>
    obtain ⟨s, g₁, hrun, rfl, rfl⟩ := h
    exact ⟨rfl, run_keeps hrun⟩

end Build

inductive BuildInv : BuildLog → Prop
  | fresh (p : Pipeline) (hb : p.built = false) (hg : ∀ k, p.graph.nodes.find k = none) :
      BuildInv { p }
  | built (p : Pipeline) (b : Building) (hb : p.built = true)
      (hpre : p.graph.nodes.find "preprocess" ≠ none) (hstatus : b.status = .ok)
      (hbefore : b.before.built = false) : BuildInv { p, builds := [b] }

theorem BuildInv.repeatable {s : BuildLog} (h : BuildInv s) : Repeatable s.builds := by
  cases h with
  | fresh p hb hg => exact ⟨by simp, by simp, by simp⟩
  | built p b hb hpre hstatus hbefore =>
    refine ⟨?_, ?_, ?_⟩
    · simp [hstatus]
    · simp
    · simp [hbefore]

section First

variable {dev : DeviceDesc} {p : Pipeline} {r : Status × Bool} {g : TaskGraph} {order : List String}

theorem find_preprocess (hg : g.nodes.find = builtGraph.nodes.find) :
    g.nodes.find "preprocess" ≠ none := by
  rw [hg]
  exact Option.isSome_iff_ne_none.mp (by decide)

theorem first_build (hg : ∀ k, p.graph.nodes.find k = none)
    (h : Prog.Exec (Answers dev order) (build false) p.graph r g) :
    (128 ≤ dev.smemPerSmBytes / 1024 ∧ r = (.ok, true) ∧ g.nodes.find "preprocess" ≠ none) ∨
      (¬ 128 ≤ dev.smemPerSmBytes / 1024 ∧ ¬ Repeatable [⟨p, r.1, p.after r g⟩]) := by
  obtain ⟨hfind, rfl⟩ := build_fresh hg h
  have hpre := find_preprocess hfind
  by_cases hfits : 128 ≤ dev.smemPerSmBytes / 1024
  · rw [if_pos hfits]
    exact .inl ⟨hfits, rfl, hpre⟩
  · rw [if_neg hfits]
    refine .inr ⟨hfits, fun hrepeats => ?_⟩
    have hkept := hrepeats.kept _ (List.mem_singleton_self _) (by simp) "preprocess"
    rw [Table.mem_keys_iff, Table.mem_keys_iff] at hkept
    obtain ⟨n, hn⟩ := hkept.mp (Option.ne_none_iff_exists'.mp hpre)
    rw [hg] at hn
    cases hn

theorem second_build {b : Building} {built : Bool} (hstatus : b.status = .ok)
    (hpre : p.graph.nodes.find "preprocess" ≠ none)
    (h : Prog.Exec (Answers dev order) (build built) p.graph r g) :
    ¬ Repeatable [b, ⟨p, r.1, p.after r g⟩] := by
  intro hrepeats
  have hsame : r.1 = b.status := hrepeats.same ⟨p, r.1, p.after r g⟩ (by simp) b (by simp)
  exact build_taken hpre h (hsame.trans hstatus)

end First

theorem buildsOnce_exact (dev : DeviceDesc) :
    ExactGuard (BuildStep dev) (BuildsOnce dev) BuildInv (fun s => Repeatable s.builds) where
  good _ h := h.repeatable
  step s c s' hi h := by
    cases hi with
    | fresh p hb hg =>
      cases h with
      | build order horder r g' h =>
        change Prog.Exec _ (build p.built) _ _ _ at h
        rw [hb] at h
        rcases first_build hg h with ⟨hfits, rfl, hpre⟩ | ⟨hlarge, hbad⟩
        · exact .inl ⟨fun _ => ⟨rfl, hfits⟩, .built _ _ rfl hpre rfl hb⟩
        · exact .inr ⟨fun hmeets => hlarge (hmeets trivial).2, hbad⟩
      | run order horder hbuilt r g' h =>
        change p.built = true at hbuilt
        rw [hb] at hbuilt
        cases hbuilt
      | buildAndRun order horder _ r₁ g₁ hbuild r g' h =>
        rcases first_build hg hbuild with ⟨hfits, rfl, hpre⟩ | ⟨hlarge, hbad⟩
        · obtain ⟨hbuilt, hkeeps⟩ := afterBuild_keeps (k := "preprocess") h
          exact .inl ⟨fun _ => ⟨rfl, hfits⟩, .built _ _ hbuilt (mt hkeeps.mp hpre) rfl hb⟩
        · exact .inr ⟨fun hmeets => hlarge (hmeets hb).2, hbad⟩
    | built p b hb hpre hstatus hbefore =>
      cases h with
      | build order horder r g' h =>
        refine .inr ⟨fun hmeets => ?_, second_build hstatus hpre h⟩
        have hnil := (hmeets trivial).1
        cases hnil
      | run order horder _ r g' h =>
        obtain ⟨hbuilt, hkeeps⟩ := afterBuild_keeps (k := "preprocess") h
        refine .inl ⟨fun hbuilds => ?_, .built _ _ hbuilt (mt hkeeps.mp hpre) hstatus hbefore⟩
        change p.built = false at hbuilds
        rw [hb] at hbuilds
        cases hbuilds
      | buildAndRun order horder hnot r₁ g₁ hbuild r g' h =>
        change p.built = false at hnot
        rw [hb] at hnot
        cases hnot

theorem build_repeatable (dev : DeviceDesc) (dryRun : Bool) (s : BuildLog)
    (h : GuardedRun (BuildStep dev) (BuildsOnce dev) { p := { dryRun } } s) :
    Repeatable s.builds ∧ ∀ c s', BuildStep dev s c s' →
      (Repeatable s'.builds ↔ BuildsOnce dev s c) :=
  h.good_iff (buildsOnce_exact dev) (.fresh _ rfl fun _ => rfl)

theorem build_repeatable_once : ∃ builds,
    BuildStep device {} (.build inferEarly) ⟨builtPipeline inferEarly, builds⟩ ∧ Repeatable builds := by
  obtain ⟨builds, hstep⟩ := (step_iff (s := {})).mp step_build
  have hrun : GuardedRun (BuildStep device) (BuildsOnce device) { p := { dryRun := false } }
      ⟨builtPipeline inferEarly, builds⟩ := .single ⟨_, hstep, fun _ => ⟨rfl, by decide⟩⟩
  exact ⟨builds, hstep, (build_repeatable device false _ hrun).1⟩

theorem build_not_repeatable : ¬ ∀ (dev : DeviceDesc) (dryRun : Bool) (s : BuildLog),
    ReflTransGen (fun s s' => ∃ c, BuildStep dev s c s') { p := { dryRun } } s →
      Repeatable s.builds := by
  intro hall
  obtain ⟨builds, hstep⟩ := (step_iff (s := {})).mp step_build
  have hbuilds : builds ≠ [] := by
    generalize hs' : (⟨builtPipeline inferEarly, builds⟩ : BuildLog) = s' at hstep
    cases hstep
    rw [(BuildLog.mk.inj hs').2]
    simp
  have hrefused : Answers device inferEarly (.addStage preprocess) (builtPipeline inferEarly).graph
      .invalidArgument (inOrder inferEarly (builtPipeline inferEarly).graph) :=
    ⟨_, _, Prod.ext (by decide) rfl, rfl, rfl⟩
  have hagain : BuildStep device ⟨builtPipeline inferEarly, builds⟩ (.build inferEarly)
      (BuildLog.note ⟨builtPipeline inferEarly, builds⟩ (.invalidArgument, true)
        (inOrder inferEarly (builtPipeline inferEarly).graph)) := by
    exact .build _ (by decide) _ _ ⟨.invalidArgument, _, hrefused, rfl, rfl⟩
  have hrun : GuardedRun (BuildStep device) (BuildsOnce device) { p := { dryRun := false } }
      ⟨builtPipeline inferEarly, builds⟩ := .single ⟨_, hstep, fun _ => ⟨rfl, by decide⟩⟩
  obtain ⟨hreach, hbad⟩ := hrun.not_good (buildsOnce_exact device) (.fresh _ rfl fun _ => rfl) hagain
    fun hmeets => hbuilds (hmeets trivial).1
  exact hbad (hall device false _ hreach)

end NexusRT.Pipeline

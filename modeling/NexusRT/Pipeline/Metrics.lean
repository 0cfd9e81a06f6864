import NexusRT.Library.Json
import NexusRT.Pipeline.Rebuild

namespace NexusRT

open Scheduler TaskGraph

def stageStateCode : StageState → ℤ
  | .pending => 0
  | .ready => 1
  | .running => 2
  | .completed => 3
  | .failed => 4

namespace Pipeline

def metricsStage (g : TaskGraph) (r : String × Bool) (name : String) : String × Bool :=
  let os := if r.2 then r.1 else r.1 ++ ","
  let n := g.nodes.find name
  let state := match n with
    | some n => stageStateCode n.state
    | none => 0
  let lastStatus := match n with
    | some n => n.lastStatus
    | none => 0
  (os ++ ("\x7b\"name\":\"" ++ name ++ "\"," ++ "\"state\":" ++ toString state ++ "," ++
    "\"last_status\":" ++ toString lastStatus ++ "\x7d"), false)

def metricsJson (p : Pipeline) (names : List String) : String :=
  (names.foldl (metricsStage p.graph) ("\x7b\"stages\":[", true)).1 ++ "]\x7d"

section Snapshot

open Json

def stageSnapshot (g : TaskGraph) (name : String) : Json :=
  let n := g.nodes.find name
  .object [("name", .string name),
    ("state", .number (n.elim 0 fun n => stageStateCode n.state)),
    ("last_status", .number (n.elim 0 StageNode.lastStatus))]

def snapshot (g : TaskGraph) (names : List String) : Json :=
  .object [("stages", .array (names.map (stageSnapshot g)))]

variable {g : TaskGraph}

theorem metricsStage_toList (r : String × Bool) (name : String) :
    (metricsStage g r name).1.toList =
      (if r.2 then r.1.toList else r.1.toList ++ [',']) ++ text (stageSnapshot g name) := by
  have hos : (if r.2 then r.1 else r.1 ++ ",").toList =
      if r.2 then r.1.toList else r.1.toList ++ [','] := by
    split
    · rfl
    · rw [String.toList_append]
      rfl
  cases hn : g.nodes.find name with
  | none => simp [metricsStage, hos, stageSnapshot, hn, text, separated_cons_cons, quoted]
  | some n => simp [metricsStage, hos, stageSnapshot, hn, text, separated_cons_cons, quoted]

theorem foldl_metricsStage (os : String) (names : List String) :
    (names.foldl (metricsStage g) (os, false)).1.toList =
      os.toList ++ (names.map fun k => ',' :: text (stageSnapshot g k)).flatten := by
  induction names generalizing os with
  | nil => simp
  | cons name names ih =>
    have hstage := metricsStage_toList (g := g) (os, false) name
    rw [List.foldl_cons]
    change (names.foldl (metricsStage g) ((metricsStage g (os, false) name).1, false)).1.toList = _
    rw [ih, hstage]
    simp

theorem metricsJson_toList (p : Pipeline) (names : List String) :
    (p.metricsJson names).toList = text (snapshot p.graph names) := by
  rw [metricsJson, String.toList_append, snapshot, text]
  cases names with
  | nil => simp [text, quoted]
  | cons name names =>
    have hstage := metricsStage_toList (g := p.graph) ("\x7b\"stages\":[", true) name
    rw [List.foldl_cons]
    change (names.foldl (metricsStage p.graph)
      ((metricsStage p.graph ("\x7b\"stages\":[", true) name).1, false)).1.toList ++ _ = _
    rw [foldl_metricsStage, hstage]
    simp [text, separated_cons, quoted, Function.comp_def]

theorem parse_metricsJson (p : Pipeline) {names : List String} (h : ∀ k ∈ names, PlainText k) :
    parse (p.metricsJson names) = some (snapshot p.graph names) := by
  have hnames : ∀ s ∈ ["stages", "name", "state", "last_status"], PlainText s :=
    plainText_of_all (by decide)
  have hstage (k : String) (hk : k ∈ names) : Plain (stageSnapshot p.graph k) := by
    refine .object _ ?_ ?_
    · simpa using fun s hs => hnames s (List.mem_cons_of_mem _ hs)
    · simpa using ⟨Plain.string k (h k hk), .number _, .number _⟩
  have hplain : Plain (snapshot p.graph names) := by
    refine .object _ ?_ ?_
    · simpa using hnames "stages" (by decide)
    · have hstages : Plain (.array (names.map (stageSnapshot p.graph))) := by
        refine .array _ fun v hv => ?_
        obtain ⟨k, hk, rfl⟩ := List.mem_map.mp hv
        exact hstage k hk
      simpa using hstages
  rw [← String.ofList_toList (s := p.metricsJson names), metricsJson_toList, parse_text hplain]

end Snapshot

section Runs

variable {dev : DeviceDesc} {p p' : Pipeline} {g g' : TaskGraph} {r : Status × Bool} {order : List String}

inductive Staged (p : Pipeline) : Prop
  | fresh (hb : p.built = false) (h : ∀ k, p.graph.nodes.find k = none)
  | staged (h : ∀ k, p.graph.nodes.find k = none ↔ k ∉ stageNames)

theorem find_built (h : g.nodes.find = builtGraph.nodes.find) (k : String) :
    g.nodes.find k = none ↔ k ∉ stageNames := by
  rw [h, ← keys_builtGraph.mem_iff, Table.mem_keys, Option.not_isSome_iff_eq_none]

theorem build_again {built : Bool} (h : ∀ k, g.nodes.find k = none ↔ k ∉ stageNames)
    (hbuild : Prog.Exec (Answers dev order) (build built) g r g') (k : String) :
    g'.nodes.find k = none ↔ k ∉ stageNames := by
  have hpre : g.nodes.find "preprocess" ≠ none := mt (h _).mp (by decide)
  rcases exec_guarded hbuild with ⟨hr, _, h₁⟩ | ⟨g₁, h₁, _⟩
  · rcases addStage_find h₁ with ⟨_, rfl⟩ | ⟨_, hfree, _⟩
    · rw [(inOrder_find order g).1]
      exact h k
    · exact absurd hfree hpre
  · rcases addStage_find h₁ with ⟨hs, _⟩ | ⟨_, hfree, _⟩
    · exact absurd rfl hs
    · exact absurd hfree hpre

theorem afterBuild_stages {dryRun : Bool} {r₁ : Status × Bool}
    (h : Prog.Exec (Answers dev order) (afterBuild dryRun r₁) g r g') (k : String) :
    g'.nodes.find k = none ↔ g.nodes.find k = none := by
  obtain ⟨s, built⟩ := r₁
  by_cases hs : s = .ok
  · subst hs
    exact (afterBuild_keeps h).2
  · rw [afterBuild, (ok_eq_false_iff s).mpr hs] at h
    obtain ⟨_, rfl⟩ := h
    rfl

theorem Staged.step {c : PipelineCall} (h : Staged p) (hstep : Step dev p c p') : Staged p' := by
  cases h with
  | fresh hb hg =>
    cases hstep with
    | build order horder s built g' hbuild =>
      rw [hb] at hbuild
      exact .staged (find_built (build_fresh hg hbuild).1)
    | run order horder s built g' hrun =>
      rw [run_eq, hb, Prog.exec_bind] at hrun
      obtain ⟨r₁, g₁, hbuild, hafter⟩ := hrun
      refine .staged fun k => ?_
      rw [afterBuild_stages hafter]
      exact find_built (build_fresh hg hbuild).1 k
  | staged hg =>
    cases hstep with
    | build order horder s built g' hbuild => exact .staged (build_again hg hbuild)
    | run order horder s built g' hrun =>
      rw [run_eq, Prog.exec_bind] at hrun
      obtain ⟨r₁, g₁, hbuild, hafter⟩ := hrun
      refine .staged fun k => ?_
      rw [afterBuild_stages hafter]
      split at hbuild
      · obtain ⟨_, rfl⟩ := hbuild
        exact hg k
      · exact build_again hg hbuild k

theorem staged_of_run {dryRun : Bool}
    (h : Relation.ReflTransGen (fun p p' => ∃ c, Step dev p c p') { dryRun } p) : Staged p := by
  induction h with
  | refl => exact .fresh rfl fun _ => rfl
  | tail _ hstep ih =>
    obtain ⟨c, hstep⟩ := hstep
    exact ih.step hstep

theorem Staged.names {names : List String} (h : Staged p) (hnames : names.Perm p.graph.nodes.keys) :
    names = [] ∨ names.Perm stageNames := by
  cases h with
  | fresh hb hg =>
    refine .inl (List.eq_nil_iff_forall_not_mem.mpr fun k hk => ?_)
    obtain ⟨n, hn⟩ := (Table.mem_keys_iff _ k).mp (hnames.mem_iff.mp hk)
    rw [hg k] at hn
    cases hn
  | staged hg =>
    refine .inr (hnames.trans ?_)
    rw [List.perm_ext_iff_of_nodup p.graph.nodes.nodup (by decide)]
    intro k
    rw [Table.mem_keys, Option.isSome_iff_ne_none, ne_eq, hg, not_not]

end Runs

theorem metrics_snapshot (dev : DeviceDesc) (dryRun : Bool) (p : Pipeline) (names : List String)
    (h : Relation.ReflTransGen (fun p p' => ∃ c, Step dev p c p') { dryRun } p)
    (hnames : names.Perm p.graph.nodes.keys) :
    Json.parse (p.metricsJson names) = some (snapshot p.graph names) ∧
      (names = [] ∨ names.Perm stageNames) := by
  have hcases := (staged_of_run h).names hnames
  refine ⟨parse_metricsJson p fun k hk => ?_, hcases⟩
  rcases hcases with rfl | hperm
  · cases hk
  · have hplain : ∀ k ∈ stageNames, Json.PlainText k := Json.plainText_of_all (by decide)
    exact hplain k (hperm.mem_iff.mp hk)

theorem metrics_snapshot_built :
    Json.parse ((builtPipeline inferEarly).metricsJson stageNames) =
      some (snapshot (builtPipeline inferEarly).graph stageNames) :=
  (metrics_snapshot device false _ stageNames (.single ⟨_, step_build⟩) (by decide)).1

end Pipeline

end NexusRT

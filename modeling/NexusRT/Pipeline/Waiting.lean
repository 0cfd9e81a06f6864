import NexusRT.Pipeline.Orchestrator

namespace NexusRT.Pipeline

open Scheduler Firmware TaskGraph Relation

def trainFirst : List String → Bool
  | [] => true
  | k :: ks => if k = "train" then true else if k = "infer" then false else trainFirst ks

def afterPreprocess : List String → List String
  | [] => []
  | k :: ks => if k = "preprocess" then ks else afterPreprocess ks

def upcoming (order rest : List String) (g : TaskGraph) : List String :=
  if g.state "preprocess" = some .pending then afterPreprocess (rest ++ order) ++ order
  else rest ++ order

def InferWaitsFrom (order rest : List String) (g : TaskGraph) : Prop :=
  g.state "infer" ≠ some .pending ∨ g.state "train" = some .completed ∨
    g.state "preprocess" = some .failed ∨
    (g.state "train" = some .pending ∧ trainFirst (upcoming order rest g) = true)

instance (order rest : List String) (g : TaskGraph) : Decidable (InferWaitsFrom order rest g) :=
  inferInstanceAs (Decidable (_ ∨ _ ∨ _ ∨ _))

def InferWaits (order : List String) (g : TaskGraph) : Prop := InferWaitsFrom order [] g

instance (order : List String) (g : TaskGraph) : Decidable (InferWaits order g) :=
  inferInstanceAs (Decidable (InferWaitsFrom order [] g))

theorem trainFirst_append {l : List String} (h : "train" ∈ l) (m : List String) :
    trainFirst (l ++ m) = trainFirst l := by
  induction l with
  | nil => simp at h
  | cons k ks ih =>
    rw [List.cons_append, trainFirst, trainFirst]
    by_cases htrain : k = "train"
    · simp [htrain]
    · rw [ih (by simpa [Ne.symm htrain] using h)]

theorem afterPreprocess_append {l : List String} (h : "preprocess" ∈ l) (m : List String) :
    afterPreprocess (l ++ m) = afterPreprocess l ++ m := by
  induction l with
  | nil => simp at h
  | cons k ks ih =>
    rw [List.cons_append, afterPreprocess, afterPreprocess]
    by_cases hpre : k = "preprocess"
    · simp [hpre]
    · rw [if_neg hpre, if_neg hpre, ih (by simpa [Ne.symm hpre] using h)]

section Order

variable {order rest : List String} {g : TaskGraph}

theorem inferWaits_start (htrain : "train" ∈ order) (hpre : "preprocess" ∈ order) :
    InferWaitsFrom order order g ↔ InferWaits order g := by
  have hfirst : trainFirst (upcoming order order g) = trainFirst (upcoming order [] g) := by
    rw [upcoming, upcoming, List.nil_append, afterPreprocess_append hpre]
    split
    · rw [trainFirst_append (by simp [htrain])]
    · rw [trainFirst_append htrain]
  rw [InferWaits, InferWaitsFrom, InferWaitsFrom, hfirst]

end Order

def builtGraph : TaskGraph :=
  let g := (TaskGraph.addStage {} preprocess).2
  let g := (g.addStage train).2
  let g := (g.addStage infer).2
  { (g.addStage postprocess).2 with validated := true }

structure Running (g : TaskGraph) : Prop where
  stages : SameStages builtGraph g
  inv : TaskGraph.Inv g
  validated : g.validated = true
  waited : ∀ l ∈ g.launches, l.stage = "infer" → l.states "train" = some .completed

theorem dependsOn_builtGraph (k : String) : builtGraph.dependsOn k =
    if k = "postprocess" then ["infer"] else if k = "infer" then ["preprocess"]
    else if k = "train" then ["preprocess"] else [] := by
  by_cases hpost : k = "postprocess"
  · subst hpost
    rfl
  · by_cases hinfer : k = "infer"
    · subst hinfer
      rfl
    · by_cases htrain : k = "train"
      · subst htrain
        rfl
      · by_cases hpre : k = "preprocess"
        · subst hpre
          rfl
        · have hfind : builtGraph.nodes.find k = none := by
            simp [builtGraph, TaskGraph.addStage, Table.contains, preprocess, train, infer, postprocess,
              hpost, hinfer, htrain, hpre]
          simp [TaskGraph.dependsOn, hfind, hpost, hinfer, htrain]

theorem keys_builtGraph : builtGraph.nodes.keys.Perm stageNames := by decide

namespace Running

variable {g : TaskGraph} {k : String} {n n' : StageNode} {order rest : List String} {s : Status}

theorem mem_keys (h : Running g) : k ∈ g.nodes.keys ↔ k ∈ stageNames := by
  rw [h.stages.mem_keys_iff, keys_builtGraph.mem_iff]

theorem state_cases (h : Running g) (hk : k ∈ stageNames) :
    g.state k = some .pending ∨ g.state k = some .completed ∨ g.state k = some .failed := by
  obtain ⟨n, hn⟩ := (g.nodes.mem_keys_iff k).mp (h.mem_keys.mpr hk)
  rw [state, hn]
  rcases h.inv.settled k n hn with hstate | hstate | hstate <;> simp [hstate]

theorem ready_iff (h : Running g) (hk : g.nodes.find k = some n) : g.readyToRun n = true ↔
    g.state k = some .pending ∧ ∀ d ∈ builtGraph.dependsOn k, g.state d = some .completed := by
  rw [readyToRun_iff, ← h.stages.dependsOn_eq, dependsOn_of_find hk, state, hk]
  simp

theorem not_skipped (h : Running g) (hskip : ∀ n, g.nodes.find k = some n → g.readyToRun n = false)
    (hk : k ∈ stageNames) (hpending : g.state k = some .pending) :
    ∃ d ∈ builtGraph.dependsOn k, g.state d ≠ some .completed := by
  obtain ⟨n, hn⟩ := (g.nodes.mem_keys_iff k).mp (h.mem_keys.mpr hk)
  by_contra hnot
  push Not at hnot
  simpa [hskip n hn] using (h.ready_iff hn).mpr ⟨hpending, hnot⟩

theorem skip (h : Running g) (hskip : ∀ n, g.nodes.find k = some n → g.readyToRun n = false) :
    InferWaitsFrom order (k :: rest) g ↔ InferWaitsFrom order rest g := by
  by_cases hinfer : g.state "infer" = some .pending
  · apply or_congr_right
    apply or_congr_right
    rcases h.state_cases (k := "preprocess") (by decide) with hp | hp | hp
    · have hpre : k ≠ "preprocess" := by
        rintro rfl
        obtain ⟨d, hd, _⟩ := h.not_skipped hskip (by decide) hp
        simp [dependsOn_builtGraph] at hd
      simp [upcoming, hp, afterPreprocess, hpre]
    · have hdone (hk : ∀ d ∈ builtGraph.dependsOn k, d = "preprocess") (hmem : k ∈ stageNames) :
          g.state k ≠ some .pending := by
        intro hpending
        obtain ⟨d, hd, hnot⟩ := h.not_skipped hskip hmem hpending
        rw [hk d hd] at hnot
        exact hnot hp
      have hki : k ≠ "infer" := by
        rintro rfl
        exact hdone (by simp [dependsOn_builtGraph]) (by decide) hinfer
      by_cases hkt : k = "train"
      · subst hkt
        have htrain := hdone (by simp [dependsOn_builtGraph]) (by decide)
        simp [htrain]
      · simp [upcoming, hp, trainFirst, hkt, hki]
    · simp [hp]
  · exact iff_of_true (.inl hinfer) (.inl hinfer)

theorem infer_waited (h : Running g) (hk : g.nodes.find "infer" = some n)
    (hready : g.readyToRun n = true) (hw : InferWaitsFrom order ("infer" :: rest) g) :
    g.state "train" = some .completed := by
  obtain ⟨hpending, hdeps⟩ := (h.ready_iff hk).mp hready
  have hp : g.state "preprocess" = some .completed := hdeps _ (by simp [dependsOn_builtGraph])
  rcases hw with hinfer | hdone | hfailed | ⟨_, hfirst⟩
  · exact absurd hpending hinfer
  · exact hdone
  · simp [hp] at hfailed
  · simp [upcoming, hp, trainFirst] at hfirst

theorem state_finish (hk : g.nodes.find k = some n) (j : String) :
    (g.finish k n').state j = if j = k then some n'.state else g.state j := by
  by_cases hj : j = k
  · simp [state, finish, hj, hk]
  · simp [state, finish, hj]

theorem finish (h : Running g) (hk : g.nodes.find k = some n) (hready : g.readyToRun n = true)
    (hcontract : n'.contract = n.contract) (hstate : n'.state = if ok s then .completed else .failed)
    (hwaited : k = "infer" → g.state "train" = some .completed) : Running (g.finish k n') := by
  refine ⟨fun j => (sameStages_finish hk hcontract j).trans (h.stages j),
    (LaunchStep.intro k n n' hk hready hcontract hstate).inv h.inv, h.validated,
    fun l hl hinfer => ?_⟩
  rcases List.mem_cons.mp hl with rfl | hl
  · obtain rfl : k = "infer" := hinfer
    simpa using hwaited rfl
  · exact h.waited l hl hinfer

theorem waits_finish (h : Running g) (hk : g.nodes.find k = some n) (hready : g.readyToRun n = true)
    (hstate : n'.state = .completed) (htrain : "train" ∈ order) (hinfer : k ≠ "infer") :
    InferWaitsFrom order (k :: rest) g ↔ InferWaitsFrom order rest (g.finish k n') := by
  obtain ⟨hpending, hdeps⟩ := (h.ready_iff hk).mp hready
  simp only [InferWaitsFrom, upcoming, state_finish hk, hstate, Ne.symm hinfer, ↓reduceIte]
  by_cases hkt : k = "train"
  · subst hkt
    have hp : g.state "preprocess" = some .completed := hdeps _ (by simp [dependsOn_builtGraph])
    simp [hp, hpending, trainFirst]
  · by_cases hpre : k = "preprocess"
    · subst hpre
      have hlast : trainFirst (rest ++ order ++ order) = trainFirst (rest ++ order) :=
        trainFirst_append (by simp [htrain]) order
      simp [hpending, afterPreprocess, ← hlast]
    · have hfirst : trainFirst (upcoming order (k :: rest) g) = trainFirst (upcoming order rest g) := by
        simp only [upcoming, List.cons_append, afterPreprocess, hpre, ↓reduceIte]
        split
        · rfl
        · rw [trainFirst, if_neg hkt, if_neg hinfer]
      rw [upcoming, upcoming] at hfirst
      simp only [Ne.symm hkt, Ne.symm hpre, ↓reduceIte, hfirst]

theorem waits_launched (h : Running g) (hk : g.nodes.find k = some n) (hready : g.readyToRun n = true)
    (hstate : n'.state = .completed) (htrain : "train" ∈ order)
    (hw : InferWaitsFrom order (k :: rest) g) : InferWaitsFrom order rest (g.finish k n') := by
  by_cases hinfer : k = "infer"
  · refine .inl ?_
    rw [← hinfer, state_finish hk]
    simp [hstate]
  · exact (h.waits_finish hk hready hstate htrain hinfer).mp hw

end Running

variable {A : (c : MicroKernelCall) → c.Answer → Prop} {order : List String}

structure Passed (order : List String) (s : Status) (g : TaskGraph) : Prop where
  running : Running g
  keys : g.nodes.keys = order
  waits : s = .ok → InferWaits order g

theorem sweep_passed (htrain : "train" ∈ order) (ks : List String) (progress : Bool) {g : TaskGraph}
    (h : Running g) (hkeys : g.nodes.keys = order) (hw : InferWaitsFrom order ks g) :
    Prog.Always (Prog.allow A) (sweep ks progress g) () (fun r _ => Passed order r.1 r.2.2) := by
  induction ks generalizing progress g with
  | nil => exact ⟨h, hkeys, fun _ => hw⟩
  | cons k ks ih =>
    rw [sweep]
    cases hk : g.nodes.find k with
    | none => exact ih progress h hkeys ((h.skip (by simp [hk])).mp hw)
    | some n =>
      by_cases hready : g.readyToRun n = true
      · simp only [hready, Bool.not_true, Bool.false_eq_true, ↓reduceIte, Prog.always_bind]
        apply Prog.always_mono (launch_spec g k n hk)
        rintro ⟨s, g₁⟩ _ (hstarved | ⟨n', hcontract, hstate, rfl⟩)
        · obtain ⟨rfl, rfl⟩ : s = .outOfMemory ∧ g₁ = g := by simpa using hstarved
          exact ⟨h, hkeys, by simp⟩
        · have hrunning := h.finish hk hready hcontract hstate
            (by rintro rfl; exact h.infer_waited hk hready hw)
          by_cases hs : s = .ok
          · subst hs
            have hwaits := h.waits_launched hk hready hstate htrain hw
            simp only [(ok_iff .ok).mpr rfl, Bool.not_true, Bool.false_eq_true, ↓reduceIte]
            exact ih true hrunning hkeys hwaits
          · simp only [(ok_eq_false_iff s).mpr hs, Bool.not_false, ↓reduceIte]
            exact ⟨hrunning, hkeys, fun h => absurd h hs⟩
      · rw [Bool.not_eq_true] at hready
        simp only [hready, Bool.not_false, ↓reduceIte]
        exact ih progress h hkeys ((h.skip (by simp [hk, hready])).mp hw)

theorem launchReady_running (htrain : "train" ∈ order) (hpre : "preprocess" ∈ order) (fuel : ℕ)
    {g : TaskGraph} (h : Passed order .ok g) :
    Prog.Always (Prog.allow A) (g.launchReady fuel) ()
      (fun o _ => ∀ e, o = some e → Running e.2) := by
  refine Prog.always_iterate (fun g' _ => Passed order .ok g')
    (fun (e : Status × TaskGraph) _ => Running e.2) ?_ fuel g () h
  intro g₁ _ h₁
  rw [sweepAll, Prog.always_bind, h₁.keys]
  apply Prog.always_mono (sweep_passed htrain order false h₁.running h₁.keys
    ((inferWaits_start htrain hpre).mpr (h₁.waits rfl)))
  rintro ⟨s, progress, g'⟩ _ hpassed
  by_cases hs : s = .ok
  · subst hs
    simp only [(ok_iff .ok).mpr rfl, Bool.not_true, Bool.false_eq_true, ↓reduceIte]
    cases progress with
    | true => exact hpassed
    | false => exact hpassed.running
  · simp only [(ok_eq_false_iff s).mpr hs, Bool.not_false, ↓reduceIte]
    exact hpassed.running

def Overtaken (g : TaskGraph) : Prop :=
  ∃ l ∈ g.launches, l.stage = "infer" ∧ l.states "train" ≠ some .completed

theorem Overtaken.swept {g g' : TaskGraph} {ks : List String} {progress progress' : Bool} {s : Status}
    (h : Overtaken g) (hswept : Swept ks progress g (s, progress', g')) : Overtaken g' := by
  have hstep {a b : TaskGraph} {s : Status} (hab : LaunchStep a s b) (ha : Overtaken a) :
      Overtaken b := by
    obtain ⟨k, n, n', _, _, _, _⟩ := hab
    obtain ⟨l, hl, hstage⟩ := ha
    exact ⟨l, List.mem_cons_of_mem _ hl, hstage⟩
  have hsteps {a b : TaskGraph} (hab : ReflTransGen OkStep a b) (ha : Overtaken a) :
      Overtaken b := by
    induction hab with
    | refl => exact ha
    | tail _ hlast ih => exact hstep hlast ih
  cases hswept with
  | idle _ => exact h
  | progressed hab => exact hsteps hab.to_reflTransGen h
  | starved hab => exact hsteps hab h
  | failed hab _ hlast => exact hstep hlast (hsteps hab h)

structure Due (order rest : List String) (g : TaskGraph) : Prop where
  running : Running g
  keys : g.nodes.keys = order
  due : ¬ InferWaitsFrom order rest g

theorem Due.not_idle {rest : List String} {g : TaskGraph} (h : Due order rest g) : ¬ g.Idle := by
  intro hidle
  have hready {k : String} (hk : k ∈ stageNames) (hpending : g.state k = some .pending) :=
    h.running.not_skipped (fun n hn => hidle k n hn) hk hpending
  have hdue := h.due
  rw [InferWaitsFrom, not_or, not_not, not_or, not_or] at hdue
  obtain ⟨hinfer, _, hfailed, _⟩ := hdue
  rcases h.running.state_cases (k := "preprocess") (by decide) with hp | hp | hp
  · obtain ⟨d, hd, _⟩ := hready (by decide) hp
    simp [dependsOn_builtGraph] at hd
  · obtain ⟨d, hd, hnot⟩ := hready (by decide) hinfer
    obtain rfl : d = "preprocess" := by simpa [dependsOn_builtGraph] using hd
    exact hnot hp
  · exact hfailed hp

theorem sweep_due (htrain : "train" ∈ order) (ks : List String) (progress : Bool) {g : TaskGraph}
    (h : Due order ks g) : Prog.Always (Prog.allow succeeding) (sweep ks progress g) ()
      (fun r _ => Overtaken r.2.2 ∨ Due order [] r.2.2) := by
  induction ks generalizing progress g with
  | nil => exact .inr h
  | cons k ks ih =>
    rw [sweep]
    cases hk : g.nodes.find k with
    | none =>
      have hskip : InferWaitsFrom order (k :: ks) g ↔ InferWaitsFrom order ks g :=
        h.running.skip (by simp [hk])
      exact ih progress ⟨h.running, h.keys, fun hw => h.due (hskip.mpr hw)⟩
    | some n =>
      by_cases hready : g.readyToRun n = true
      · simp only [hready, Bool.not_true, Bool.false_eq_true, ↓reduceIte, Prog.always_bind]
        apply Prog.always_mono (Prog.always_and (launch_spec g k n hk) (launch_succeeds g k n))
        rintro ⟨s, g₁⟩ _ ⟨hstarved | ⟨n', hcontract, hstate, rfl⟩, hs : s = .ok⟩
        · simp [hs] at hstarved
        subst hs
        simp only [(ok_iff .ok).mpr rfl, Bool.not_true, Bool.false_eq_true, ↓reduceIte]
        by_cases hinfer : k = "infer"
        · have hover : Overtaken (g.finish k n') := by
            refine ⟨_, List.mem_cons_self, hinfer, ?_⟩
            have htrain : g.state "train" ≠ some .completed := fun hdone => h.due (.inr (.inl hdone))
            simpa [hinfer] using htrain
          exact Prog.always_mono (sweep_spec ks true _) (fun r _ hr => .inl (hover.swept hr))
        · have hwaits : InferWaitsFrom order (k :: ks) g ↔ InferWaitsFrom order ks (g.finish k n') :=
            h.running.waits_finish hk hready hstate htrain hinfer
          have hrunning := h.running.finish hk hready hcontract hstate (fun h => absurd h hinfer)
          exact ih true ⟨hrunning, h.keys, fun hw => h.due (hwaits.mpr hw)⟩
      · rw [Bool.not_eq_true] at hready
        simp only [hready, Bool.not_false, ↓reduceIte]
        have hskip : InferWaitsFrom order (k :: ks) g ↔ InferWaitsFrom order ks g :=
          h.running.skip (by simp [hk, hready])
        exact ih progress ⟨h.running, h.keys, fun hw => h.due (hskip.mpr hw)⟩

theorem sweepAll_due (htrain : "train" ∈ order) (hpre : "preprocess" ∈ order) {g : TaskGraph}
    (h : Overtaken g ∨ Due order [] g) : Prog.Always (Prog.allow succeeding) g.sweepAll ()
      (fun r _ => r.elim (fun g' => Overtaken g' ∨ Due order [] g') (fun e => Overtaken e.2)) := by
  have hnext : Prog.Always (Prog.allow succeeding) (sweep g.nodes.keys false g) ()
      (fun r _ => Overtaken r.2.2 ∨ Due order [] r.2.2) := by
    rcases h with hover | hdue
    · exact Prog.always_mono (sweep_spec _ false g) (fun r _ hr => .inl (hover.swept hr))
    · have hstart : Due order g.nodes.keys g := by
        refine ⟨hdue.running, hdue.keys, ?_⟩
        rw [hdue.keys, inferWaits_start htrain hpre]
        exact hdue.due
      exact sweep_due htrain _ false hstart
  rw [sweepAll, Prog.always_bind]
  apply Prog.always_mono (Prog.always_and hnext
    (Prog.always_and (sweep_spec _ false g) (sweep_succeeds g.nodes.keys false g)))
  rintro ⟨s, progress, g'⟩ _ ⟨hover, hswept, hs : s = .ok⟩
  subst hs
  simp only [(ok_iff .ok).mpr rfl, Bool.not_true, Bool.false_eq_true, ↓reduceIte]
  cases progress with
  | true => exact hover
  | false =>
    rcases hover with hover | hdue
    · exact hover
    · cases hswept with
      | idle hidle =>
        exact absurd (fun k n hk => hidle k (Table.mem_keys_of_find hk) n hk) hdue.not_idle

theorem launchReady_due (htrain : "train" ∈ order) (hpre : "preprocess" ∈ order) (fuel : ℕ)
    {g : TaskGraph} (h : Due order [] g) : Prog.Always (Prog.allow succeeding) (g.launchReady fuel) ()
      (fun o _ => ∀ e, o = some e → Overtaken e.2) := by
  refine Prog.always_iterate (fun g' _ => Overtaken g' ∨ Due order [] g')
    (fun (e : Status × TaskGraph) _ => Overtaken e.2) ?_ fuel g () (.inr h)
  intro g₁ _ h₁
  apply Prog.always_mono (sweepAll_due htrain hpre h₁)
  rintro (g' | e) _ hr <;> exact hr

end NexusRT.Pipeline

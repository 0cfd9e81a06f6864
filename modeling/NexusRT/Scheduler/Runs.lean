import NexusRT.Scheduler.Execution

/-!
Histories of calls on one graph. Between two calls the map may change its iteration order.
-/

namespace NexusRT.Scheduler.TaskGraph

open Firmware Relation Dependencies

def reorder (g : TaskGraph) (order : List String) (h : order.Perm g.nodes.keys) : TaskGraph :=
  { g with nodes := g.nodes.reorder order h }

def anyKernel (c : MicroKernelCall) (_ : c.Answer) : Prop := True

inductive Call (dev : DeviceDesc) (calls : GraphProg Status → Prop) (g : TaskGraph) :
    TaskGraph → Prop
  | exec (p : GraphProg Status) (hp : calls p) (s : Status) (g' : TaskGraph)
      (h : Prog.Exec (Serves dev anyKernel) p g s g') : Call dev calls g g'
  | reorder (order : List String) (h : order.Perm g.nodes.keys) : Call dev calls g (g.reorder order h)

def Reaches (dev : DeviceDesc) (calls : GraphProg Status → Prop) (g g' : TaskGraph) : Prop :=
  ReflTransGen (Call dev calls) g g'

def IsAddStage (p : GraphProg Status) : Prop := ∃ c, p = Scheduler.addStage c

def IsRun (p : GraphProg Status) : Prop := p = run

def IsPublic (p : GraphProg Status) : Prop := IsAddStage p ∨ p = Scheduler.validate ∨ p = run

def SameStages (g g' : TaskGraph) : Prop :=
  ∀ k, (g'.nodes.find k).map StageNode.contract = (g.nodes.find k).map StageNode.contract

namespace SameStages

variable {g g' : TaskGraph} (h : SameStages g g')

include h

theorem dependsOn_eq (k : String) : g'.dependsOn k = g.dependsOn k := by
  have hk := h k
  simp only [TaskGraph.dependsOn]
  cases h₁ : g.nodes.find k <;> cases h₂ : g'.nodes.find k <;> simp_all

theorem find_eq_none_iff (k : String) : g'.nodes.find k = none ↔ g.nodes.find k = none := by
  rw [← Option.map_eq_none_iff (f := StageNode.contract), h k, Option.map_eq_none_iff]

theorem mem_keys_iff (k : String) : k ∈ g'.nodes.keys ↔ k ∈ g.nodes.keys := by
  rw [← not_iff_not, Table.not_mem_keys, Table.not_mem_keys, h.find_eq_none_iff]

theorem edge_eq : Edge g'.nodes.keys g'.dependsOn = Edge g.nodes.keys g.dependsOn := by
  funext d k
  simp only [Edge, h.dependsOn_eq, h.mem_keys_iff]

theorem cyclic_iff : g'.Cyclic ↔ g.Cyclic := by
  rw [Cyclic, Cyclic, HasCycle, HasCycle, h.edge_eq]

end SameStages

theorem missing_iff_edge (g : TaskGraph) :
    g.Missing ↔ ∃ d k, Edge g.nodes.keys g.dependsOn d k ∧ d ∉ g.nodes.keys := by
  constructor
  · rintro ⟨k, n, hk, d, hd, hmissing⟩
    refine ⟨d, k, ⟨Table.mem_keys_of_find hk, ?_⟩, Table.not_mem_keys.mpr hmissing⟩
    rwa [dependsOn_of_find hk]
  · rintro ⟨d, k, ⟨hk, hd⟩, hmissing⟩
    obtain ⟨n, hn⟩ := (g.nodes.mem_keys_iff k).mp hk
    rw [dependsOn_of_find hn] at hd
    exact ⟨k, n, hn, d, hd, Table.not_mem_keys.mp hmissing⟩

theorem SameStages.missing_iff {g g' : TaskGraph} (h : SameStages g g') : g'.Missing ↔ g.Missing := by
  simp only [missing_iff_edge, h.edge_eq, h.mem_keys_iff]

theorem sameStages_finish {g : TaskGraph} {k : String} {n n' : StageNode}
    (hk : g.nodes.find k = some n) (hcontract : n'.contract = n.contract) :
    SameStages g (g.finish k n') := by
  intro j
  by_cases hj : j = k
  · simp [finish, hj, hk, hcontract]
  · simp [finish, hj]

theorem sameStages_reorder (g : TaskGraph) (order : List String) (h : order.Perm g.nodes.keys) :
    SameStages g (g.reorder order h) := fun _ => rfl

structure Inv (g : TaskGraph) : Prop where
  settled : ∀ k n, g.nodes.find k = some n →
    n.state = .pending ∨ n.state = .completed ∨ n.state = .failed
  sound : g.validated = true → ¬ g.Missing ∧ ¬ g.Cyclic
  once : (g.launches.map Launch.stage).Nodup
  launched : ∀ l ∈ g.launches, ∃ n, g.nodes.find l.stage = some n ∧ n.state ≠ .pending
  ordered : ∀ l ∈ g.launches, ∀ d ∈ g.dependsOn l.stage, l.states d = some .completed

theorem inv_empty : Inv {} where
  settled k n h := by simp at h
  sound h := by simp at h
  once := by simp
  launched l h := by simp at h
  ordered l h := by simp at h

theorem readyToRun_iff {g : TaskGraph} {n : StageNode} : g.readyToRun n = true ↔
    n.state = .pending ∧ ∀ d ∈ n.contract.dependsOn, g.state d = some .completed := by
  simp only [readyToRun, Bool.and_eq_true, decide_eq_true_eq, List.all_eq_true, state,
    Option.map_eq_some_iff]
  refine and_congr_right fun _ => forall₂_congr fun d _ => ?_
  cases g.nodes.find d <;> simp

theorem LaunchStep.sameStages {g g' : TaskGraph} {s : Status} (h : LaunchStep g s g') :
    SameStages g g' ∧ g'.validated = g.validated := by
  obtain ⟨k, n, n', hk, _, hcontract, _⟩ := h
  exact ⟨sameStages_finish hk hcontract, rfl⟩

theorem LaunchStep.inv {g g' : TaskGraph} {s : Status} (h : LaunchStep g s g') (hi : Inv g) :
    Inv g' := by
  obtain ⟨hsame, hvalidated⟩ := h.sameStages
  obtain ⟨k, n, n', hk, hready, hcontract, hstate⟩ := h
  obtain ⟨hpending, hdeps⟩ := readyToRun_iff.mp hready
  have hdone : n'.state = .completed ∨ n'.state = .failed := by
    rw [hstate]
    split <;> simp
  constructor
  · intro j m hj
    by_cases hjk : j = k
    · obtain rfl : n' = m := by simpa [finish, hjk, hk] using hj
      exact .inr hdone
    · exact hi.settled j m (by simpa [finish, hjk] using hj)
  · rw [hsame.missing_iff, hsame.cyclic_iff, hvalidated]
    exact hi.sound
  · refine List.nodup_cons.mpr ⟨fun hmem => ?_, hi.once⟩
    obtain ⟨l, hl, rfl⟩ := List.mem_map.mp hmem
    obtain ⟨m, hm, hne⟩ := hi.launched l hl
    rw [hk] at hm
    exact hne (Option.some.inj hm ▸ hpending)
  · intro l hl
    rcases List.mem_cons.mp hl with rfl | hl
    · refine ⟨n', by simp [finish, hk], ?_⟩
      rcases hdone with h | h <;> simp [h]
    · obtain ⟨m, hm, hne⟩ := hi.launched l hl
      have hlk : l.stage ≠ k := by
        rintro rfl
        rw [hk] at hm
        exact hne (Option.some.inj hm ▸ hpending)
      exact ⟨m, by simpa [finish, hlk] using hm, hne⟩
  · intro l hl d hd
    rw [hsame.dependsOn_eq] at hd
    rcases List.mem_cons.mp hl with rfl | hl
    · rw [dependsOn_of_find hk] at hd
      have hdk : d ≠ k := by
        rintro rfl
        simpa [state, hk, hpending] using hdeps d hd
      simpa [hdk] using hdeps d hd
    · exact hi.ordered l hl d hd

theorem Executed.induction {g g' : TaskGraph} {s : Status} (h : Executed g s g')
    {P : TaskGraph → Prop} (hstep : ∀ a s b, LaunchStep a s b → P a → P b) (hg : P g) : P g' := by
  have hok : ∀ b, ReflTransGen OkStep g b → P b := by
    intro b hb
    induction hb with
    | refl => exact hg
    | tail _ h ih => exact hstep _ _ _ h ih
  cases h with
  | drained h _ => exact hok _ h
  | starved h => exact hok _ h
  | failed h _ hlast => exact hstep _ _ _ hlast (hok _ h)

theorem Executed.sameStages {g g' : TaskGraph} {s : Status} (h : Executed g s g') :
    SameStages g g' ∧ g'.validated = g.validated := by
  refine h.induction (P := fun b => SameStages g b ∧ b.validated = g.validated) ?_
    ⟨fun _ => rfl, rfl⟩
  rintro a s b hab ⟨hsame, hvalidated⟩
  exact ⟨fun k => (hab.sameStages.1 k).trans (hsame k), hab.sameStages.2.trans hvalidated⟩

theorem Executed.launches {g g' : TaskGraph} {s : Status} (h : Executed g s g') :
    ∃ new, g'.launches = new ++ g.launches ∧ ∀ l ∈ new, l.stage ∈ g.nodes.keys := by
  have hall := h.induction (P := fun b => SameStages g b ∧
    ∃ new, b.launches = new ++ g.launches ∧ ∀ l ∈ new, l.stage ∈ g.nodes.keys) ?_
    ⟨fun _ => rfl, [], by simp⟩
  · exact hall.2
  rintro a s b hab ⟨hsame, new, hnew, hkeys⟩
  refine ⟨fun k => (hab.sameStages.1 k).trans (hsame k), ?_⟩
  obtain ⟨k, n, n', hk, _, _, _⟩ := hab
  refine ⟨⟨k, fun d => if d = k then some .running else a.state d⟩ :: new,
    by simp only [finish, hnew, List.cons_append], ?_⟩
  rintro l (_ | ⟨_, hl⟩)
  · exact (hsame.mem_keys_iff k).mp (Table.mem_keys_of_find hk)
  · exact hkeys l hl

theorem addStage_cases {g g' : TaskGraph} {c : StageContract} {s : Status}
    (h : (s, g') = g.addStage c) : g' = g ∨ c.name ≠ "" ∧ g.nodes.find c.name = none ∧
      g' = { g with nodes := g.nodes.insert c.name { contract := c }, validated := false } := by
  rw [addStage] at h
  split at h
  · exact .inl (Prod.mk.inj h).2
  · next hname =>
    split at h
    · exact .inl (Prod.mk.inj h).2
    · next hcontains =>
      exact .inr ⟨hname, by simpa [Table.contains] using hcontains, (Prod.mk.inj h).2⟩

theorem addStage_inv {g g' : TaskGraph} {c : StageContract} {s : Status}
    (h : (s, g') = g.addStage c) (hi : Inv g) : Inv g' := by
  obtain rfl | ⟨_, hnone, rfl⟩ := addStage_cases h
  · exact hi
  have hlaunched : ∀ l ∈ g.launches, l.stage ≠ c.name := by
    rintro l hl heq
    obtain ⟨m, hm, _⟩ := hi.launched l hl
    rw [heq, hnone] at hm
    simp at hm
  constructor
  · intro k n hk
    by_cases hkc : k = c.name
    · obtain rfl : _ = n := by simpa [hkc] using hk
      exact .inl rfl
    · exact hi.settled k n (by simpa [hkc] using hk)
  · simp
  · exact hi.once
  · intro l hl
    simpa [hlaunched l hl] using hi.launched l hl
  · intro l hl d hd
    exact hi.ordered l hl d (by simpa [dependsOn, hlaunched l hl] using hd)

theorem validate_inv {dev : DeviceDesc} {g g' : TaskGraph} {s : Status}
    (h : (s, g') = g.validate dev) (hi : Inv g) : Inv g' := by
  by_cases hs : s = .ok
  · subst hs
    obtain ⟨rfl, hgood⟩ := validate_ok h
    exact ⟨hi.settled, fun _ => hgood, hi.once, hi.launched, hi.ordered⟩
  · rw [validate_not_ok h hs]
    exact hi

variable {A : (c : MicroKernelCall) → c.Answer → Prop}

theorem serves_inv {dev : DeviceDesc} {c : GraphCall} {g g' : TaskGraph} {r : c.Answer}
    (h : Serves dev A c g r g') (hi : Inv g) : Inv g' := by
  cases c with
  | addStage c => exact addStage_inv h hi
  | loadValidated => exact h.2 ▸ hi
  | validate => exact validate_inv h hi
  | launchReady =>
    obtain ⟨fuel, h⟩ := h
    exact (launchReady_executed h).induction (fun _ _ _ hstep => hstep.inv) hi

theorem reorder_inv {g : TaskGraph} (order : List String) (h : order.Perm g.nodes.keys)
    (hi : Inv g) : Inv (g.reorder order h) := by
  have hsame := sameStages_reorder g order h
  refine ⟨hi.settled, ?_, hi.once, hi.launched, hi.ordered⟩
  rw [hsame.missing_iff, hsame.cyclic_iff]
  exact hi.sound

theorem Reaches.inv {dev : DeviceDesc} {calls : GraphProg Status → Prop} {g g' : TaskGraph}
    (h : Reaches dev calls g g') (hi : Inv g) : Inv g' := by
  induction h with
  | refl => exact hi
  | tail _ h ih =>
    cases h with
    | exec p _ s _ he => exact Prog.exec_invariant (I := Inv) (fun _ _ _ _ h => serves_inv h) he ih
    | reorder order h => exact reorder_inv order h ih

theorem run_exec {dev : DeviceDesc} {g g' : TaskGraph} {s : Status}
    (h : Prog.Exec (Serves dev A) run g s g') :
    (s ≠ .ok ∧ g.validated = false ∧ g' = g) ∨
      ((g.validated = false → (.ok, { g with validated := true }) = g.validate dev) ∧ ∃ fuel,
        Prog.Exec (Prog.allow A) (launchReady fuel { g with validated := true }) ()
          (some (s, g')) ()) := by
  simp only [run, Scheduler.validate, Prog.op, Prog.call_bind, Prog.ret_bind, Prog.exec_call] at h
  obtain ⟨v, g₀, ⟨rfl, hg₀⟩, h⟩ := h
  rw [hg₀] at h
  by_cases hv : g.validated = true
  · have hg : { g with validated := true } = g := by rw [← hv]
    simp only [hv, ↓reduceIte, Prog.exec_call, Prog.exec_ret] at h
    obtain ⟨_, _, hserves, rfl, rfl⟩ := h
    exact .inr ⟨by simp [hv], hg ▸ hserves⟩
  · rw [Bool.not_eq_true] at hv
    simp only [hv, Bool.false_eq_true, ↓reduceIte, Prog.exec_call] at h
    obtain ⟨r, g₁, hvalidate, h⟩ := h
    by_cases hr : r = .ok
    · subst hr
      simp only [(ok_iff .ok).mpr rfl, Bool.not_true, Bool.false_eq_true, ↓reduceIte,
        Prog.exec_call, Prog.exec_ret] at h
      obtain ⟨_, _, hserves, rfl, rfl⟩ := h
      have hg₁ := (validate_ok hvalidate).1
      subst hg₁
      exact .inr ⟨fun _ => hvalidate, hserves⟩
    · simp only [(ok_eq_false_iff r).mpr hr, Bool.not_false, ↓reduceIte, Prog.pure_eq,
        Prog.exec_ret] at h
      obtain ⟨rfl, rfl⟩ := h
      exact .inl ⟨hr, hv, validate_not_ok hvalidate hr⟩

theorem Inv.validate {dev : DeviceDesc} {g : TaskGraph} (hi : Inv g)
    (h : g.validated = false → (.ok, { g with validated := true }) = g.validate dev) :
    Inv { g with validated := true } := by
  by_cases hv : g.validated = true
  · have hg : { g with validated := true } = g := by rw [← hv]
    exact hg ▸ hi
  · exact validate_inv (h (by simpa using hv)) hi

theorem OkStep.failed_iff {g g' : TaskGraph} (h : OkStep g g') (k : String) :
    g'.state k = some .failed ↔ g.state k = some .failed := by
  obtain ⟨j, n, n', hj, hready, _, hstate⟩ := h
  have hpending := (readyToRun_iff.mp hready).1
  by_cases hkj : k = j
  · simp [state, finish, hkj, hj, hpending, hstate]
  · simp [state, finish, hkj]

theorem okSteps_failed_iff {g g' : TaskGraph} (h : ReflTransGen OkStep g g') (k : String) :
    g'.state k = some .failed ↔ g.state k = some .failed := by
  induction h with
  | refl => rfl
  | tail _ hstep ih => rw [hstep.failed_iff, ih]

theorem Idle.blocked {g : TaskGraph} (hi : Inv g) (hidle : g.Idle) (hv : g.validated = true)
    {k : String} {n : StageNode} (hk : g.nodes.find k = some n) (hn : n.state = .pending) :
    ∃ d, TransGen (Edge g.nodes.keys g.dependsOn) d k ∧ g.state d = some .failed := by
  obtain ⟨hmissing, hcyclic⟩ := hi.sound hv
  let blocked (k : String) : Prop :=
    ∃ d, TransGen (Edge g.nodes.keys g.dependsOn) d k ∧ g.state d = some .failed
  let U : Set String := {k | g.state k = some .pending ∧ ¬ blocked k}
  by_contra hnot
  have hU : U.Nonempty := ⟨k, by simp [state, hk, hn], hnot⟩
  have hsub : ∀ u ∈ U, u ∈ g.nodes.keys := by
    rintro u ⟨hu, _⟩
    obtain ⟨m, hm, _⟩ := Option.map_eq_some_iff.mp hu
    exact Table.mem_keys_of_find hm
  obtain ⟨u, ⟨hu, hublocked⟩, hsource⟩ := exists_source hcyclic hU hsub
  obtain ⟨m, hm, hmstate⟩ := Option.map_eq_some_iff.mp hu
  -- Every dependency of `u` is completed, so `u` is ready.
  have hnotready : ¬ g.readyToRun m = true := by simp [hidle u m hm]
  refine hnotready (readyToRun_iff.mpr ⟨hmstate, fun d hd => ?_⟩)
  rw [← dependsOn_of_find hm] at hd
  have hedge : Edge g.nodes.keys g.dependsOn d u := ⟨Table.mem_keys_of_find hm, hd⟩
  obtain ⟨x, hx⟩ := (g.nodes.mem_keys_iff d).mp
    (closed_of_not_missing hmissing u (Table.mem_keys_of_find hm) d hd)
  have hstate : g.state d = some x.state := by simp [state, hx]
  rcases hi.settled d x hx with hpending | hcompleted | hfailed
  · have hdblocked : blocked d := by
      by_contra hd'
      exact hsource d hd ⟨by rw [hstate, hpending], hd'⟩
    obtain ⟨e, he, hefailed⟩ := hdblocked
    exact absurd ⟨e, he.tail hedge, hefailed⟩ hublocked
  · rw [hstate, hcompleted]
  · exact absurd ⟨d, .single hedge, by rw [hstate, hfailed]⟩ hublocked

theorem Executed.ok_settled {g g' : TaskGraph} (h : Executed g .ok g') (hi : Inv g)
    (hv : g.validated = true) (k : String) (n : StageNode) (hk : g'.nodes.find k = some n) :
    n.state = .completed ∨ (n.state = .failed ∧ g.state k = some .failed) ∨
      (n.state = .pending ∧
        ∃ d, TransGen (Edge g.nodes.keys g.dependsOn) d k ∧ g.state d = some .failed) := by
  obtain ⟨hsame, hvalidated⟩ := h.sameStages
  have hi' : Inv g' := h.induction (fun _ _ _ hstep => hstep.inv) hi
  obtain ⟨hsteps, hidle⟩ : ReflTransGen OkStep g g' ∧ g'.Idle := by
    cases h with
    | drained h hidle => exact ⟨h, hidle⟩
    | failed _ hs _ => exact absurd rfl hs
  rcases hi'.settled k n hk with hpending | hcompleted | hfailed
  · obtain ⟨d, hd, hdfailed⟩ := hidle.blocked hi' (hvalidated.trans hv) hk hpending
    rw [hsame.edge_eq] at hd
    exact .inr (.inr ⟨hpending, d, hd, (okSteps_failed_iff hsteps d).mp hdfailed⟩)
  · exact .inl hcompleted
  · refine .inr (.inl ⟨hfailed, (okSteps_failed_iff hsteps k).mp ?_⟩)
    simp [state, hk, hfailed]

theorem Executed.ok_failed {g g' : TaskGraph} (h : Executed g .ok g') (k : String) :
    g'.state k = some .failed ↔ g.state k = some .failed := by
  cases h with
  | drained h _ => exact okSteps_failed_iff h k
  | failed _ hs _ => exact absurd rfl hs

end NexusRT.Scheduler.TaskGraph

import NexusRT.Library.Outcomes
import NexusRT.Scheduler.Completion

namespace NexusRT.Scheduler.TaskGraph

open Firmware Relation Dependencies

def wait (g : TaskGraph) (name : String) (_timeoutMs : UInt32) : Status :=
  match g.nodes.find name with
  | none => .invalidArgument
  | some n =>
    if n.state = .completed then .ok
    else if n.state = .failed then .aborted
    else .timeout

def waitEach (g : TaskGraph) (timeoutMs : UInt32) : List String → Status
  | [] => .ok
  | k :: ks =>
    let s := g.wait k timeoutMs
    if !ok s then s else waitEach g timeoutMs ks

def waitAll (g : TaskGraph) (timeoutMs : UInt32) : Status := g.waitEach timeoutMs g.nodes.keys

def outcome (g : TaskGraph) (k : String) : Outcome :=
  match g.state k with
  | some .completed => .done
  | some .failed => .failed
  | _ => .waiting

def Founded (g : TaskGraph) : Prop :=
  ∀ k n, g.nodes.find k = some n → n.state ≠ .pending →
    ∀ d ∈ n.contract.dependsOn, g.state d = some .completed

section Outcomes

variable {g g' : TaskGraph} {k : String} {n : StageNode}

theorem state_of_find (hk : g.nodes.find k = some n) : g.state k = some n.state := by
  rw [state, hk]
  rfl

theorem outcome_eq_done_iff : g.outcome k = .done ↔ g.state k = some .completed := by
  rw [outcome]
  split <;> simp_all

theorem outcome_eq_failed_iff : g.outcome k = .failed ↔ g.state k = some .failed := by
  rw [outcome]
  split <;> simp_all

theorem Inv.outcome_eq_waiting_iff (hi : Inv g) (hk : g.nodes.find k = some n) :
    g.outcome k = .waiting ↔ n.state = .pending := by
  rw [outcome, state_of_find hk]
  rcases hi.settled k n hk with h | h | h
  · simp [h]
  · simp [h]
  · simp [h]

theorem Inv.state_eq_of_outcome {n' : StageNode} (hi : Inv g) (hi' : Inv g')
    (hk : g.nodes.find k = some n) (hk' : g'.nodes.find k = some n')
    (h : g.outcome k = g'.outcome k) : n.state = n'.state := by
  rw [outcome, outcome, state_of_find hk, state_of_find hk'] at h
  rcases hi.settled k n hk with hs | hs | hs <;> rcases hi'.settled k n' hk' with hs' | hs' | hs'
  all_goals simp_all

theorem LaunchStep.completed {s : Status} (h : LaunchStep g s g')
    (hk : g.state k = some .completed) : g'.state k = some .completed := by
  obtain ⟨j, n, n', hj, hready, _, _⟩ := h
  have hkj : k ≠ j := by
    rintro rfl
    rw [state_of_find hj, (readyToRun_iff.mp hready).1] at hk
    cases hk
  rw [← hk, state, state, finish, Table.find_modify, if_neg hkj]

theorem LaunchStep.founded {s : Status} (h : LaunchStep g s g') (hf : Founded g) : Founded g' := by
  intro i m hi hm d hd
  apply h.completed
  obtain ⟨j, n, n', hj, hready, hcontract, _⟩ := h
  by_cases hij : i = j
  · obtain rfl : n' = m := by simpa [finish, hij, hj] using hi
    rw [hcontract] at hd
    exact (readyToRun_iff.mp hready).2 d hd
  · exact hf i m (by simpa [finish, hij] using hi) hm d hd

theorem addStage_founded {c : StageContract} {s : Status} (h : (s, g') = g.addStage c)
    (hf : Founded g) : Founded g' := by
  obtain rfl | ⟨_, hnone, rfl⟩ := addStage_cases h
  · exact hf
  intro k n hk hn d hd
  by_cases hkc : k = c.name
  · obtain rfl : _ = n := by simpa [hkc] using hk
    exact absurd rfl hn
  · have hdep := hf k n (by simpa [hkc] using hk) hn d hd
    have hdc : d ≠ c.name := by
      rintro rfl
      rw [state, hnone] at hdep
      cases hdep
    rw [← hdep, state, state, Table.find_insert, if_neg hdc]

theorem serves_founded {dev : DeviceDesc} {A : (c : MicroKernelCall) → c.Answer → Prop}
    {c : GraphCall} {r : c.Answer} (h : Serves dev A c g r g') (hf : Founded g) : Founded g' := by
  cases c with
  | addStage c => exact addStage_founded h hf
  | loadValidated => exact h.2 ▸ hf
  | validate =>
    by_cases hr : r = .ok
    · subst hr
      rw [(validate_ok h).1]
      exact hf
    · rw [validate_not_ok h hr]
      exact hf
  | launchReady =>
    obtain ⟨fuel, h⟩ := h
    exact (launchReady_executed h).induction (fun _ _ _ hstep => hstep.founded) hf

theorem Reaches.founded {dev : DeviceDesc} {calls : GraphProg Status → Prop}
    (h : Reaches dev calls g g') (hf : Founded g) : Founded g' := by
  induction h with
  | refl => exact hf
  | tail _ h ih =>
    cases h with
    | exec p _ s _ he =>
      exact Prog.exec_invariant (I := Founded) (fun _ _ _ _ h => serves_founded h) he ih
    | reorder order h => exact ih

theorem Idle.settled (hidle : g.Idle) (hi : Inv g) (hf : Founded g) (hv : g.validated = true) :
    Settled g.nodes.keys g.dependsOn g.outcome where
  closed := closed_of_not_missing (hi.sound hv).1
  acyclic := (hi.sound hv).2
  started := by
    intro k hk
    obtain ⟨n, hn⟩ := (g.nodes.mem_keys_iff k).mp hk
    rw [dependsOn_of_find hn, ne_eq, hi.outcome_eq_waiting_iff hn]
    simp only [outcome_eq_done_iff]
    constructor
    · exact hf k n hn
    · intro hdeps hpending
      have hready := readyToRun_iff.mpr ⟨hpending, hdeps⟩
      rw [hidle k n hn] at hready
      cases hready

structure Drained (g : TaskGraph) : Prop where
  inv : Inv g
  founded : Founded g
  validated : g.validated = true
  idle : g.Idle

theorem Drained.settled (h : Drained g) : Settled g.nodes.keys g.dependsOn g.outcome :=
  h.idle.settled h.inv h.founded h.validated

theorem run_drained {dev : DeviceDesc} (hi : Inv g) (hf : Founded g)
    (h : Prog.Exec (Serves dev anyKernel) run g .ok g') : Drained g' := by
  obtain ⟨hi₁, hexec⟩ := run_ok h hi
  refine ⟨hexec.induction (fun _ _ _ hstep => hstep.inv) hi₁,
    hexec.induction (fun _ _ _ hstep => hstep.founded) hf, hexec.sameStages.2, ?_⟩
  cases hexec with
  | drained _ hidle => exact hidle
  | failed _ hs _ => exact absurd rfl hs

theorem Reaches.sameStages {dev : DeviceDesc} (h : Reaches dev IsRun g g') : SameStages g g' := by
  induction h with
  | refl => exact fun _ => rfl
  | tail _ h ih =>
    cases h with
    | exec p hp s _ he =>
      obtain rfl : p = run := hp
      rcases run_exec he with ⟨_, _, rfl⟩ | ⟨_, fuel, hlaunch⟩
      · exact ih
      · exact fun k => ((launchReady_executed hlaunch).sameStages.1 k).trans (ih k)
    | reorder order h => exact ih

theorem run_sameStages {dev : DeviceDesc} {s : Status}
    (h : Prog.Exec (Serves dev anyKernel) run g s g') : SameStages g g' :=
  Reaches.sameStages (.single (.exec run (show IsRun run from rfl) s g' h))

end Outcomes

theorem run_order_irrelevant (dev : DeviceDesc) (g m₁ m₂ g₁ g₂ : TaskGraph)
    (hg : Reaches dev IsPublic {} g)
    (h₁ : Reaches dev IsRun g m₁) (hrun₁ : Prog.Exec (Serves dev anyKernel) run m₁ .ok g₁)
    (h₂ : Reaches dev IsRun g m₂) (hrun₂ : Prog.Exec (Serves dev anyKernel) run m₂ .ok g₂)
    (hagree : ∀ k, g₁.state k ≠ some .pending → g₂.state k ≠ some .pending →
      g₁.state k = g₂.state k) (k : String) : g₁.state k = g₂.state k := by
  have hi : Inv g := hg.inv inv_empty
  have hf : Founded g := hg.founded fun k n hk => by simp at hk
  have hd₁ : Drained g₁ := run_drained (h₁.inv hi) (h₁.founded hf) hrun₁
  have hd₂ : Drained g₂ := run_drained (h₂.inv hi) (h₂.founded hf) hrun₂
  have hsame₁ : SameStages g g₁ := fun k => (run_sameStages hrun₁ k).trans (h₁.sameStages k)
  have hsame₂ : SameStages g g₂ := fun k => (run_sameStages hrun₂ k).trans (h₂.sameStages k)
  have hsame : SameStages g₁ g₂ := fun k => (hsame₂ k).trans (hsame₁ k).symm
  by_cases hk : k ∈ g₁.nodes.keys
  · have hsettled : Settled g₁.nodes.keys g₁.dependsOn g₂.outcome := by
      have hset := hd₂.settled
      exact ⟨hd₁.settled.closed, hd₁.settled.acyclic, fun j hj => by
        rw [hset.started j ((hsame.mem_keys_iff j).mpr hj), hsame.dependsOn_eq]⟩
    obtain ⟨n₁, hn₁⟩ := (g₁.nodes.mem_keys_iff k).mp hk
    obtain ⟨n₂, hn₂⟩ := (g₂.nodes.mem_keys_iff k).mp ((hsame.mem_keys_iff k).mpr hk)
    rw [state_of_find hn₁, state_of_find hn₂]
    congr 1
    refine hd₁.inv.state_eq_of_outcome hd₂.inv hn₁ hn₂ ?_
    refine hd₁.settled.unique hsettled (fun j hj hs₁ hs₂ => ?_) hk
    obtain ⟨x₁, hx₁⟩ := (g₁.nodes.mem_keys_iff j).mp hj
    obtain ⟨x₂, hx₂⟩ := (g₂.nodes.mem_keys_iff j).mp ((hsame.mem_keys_iff j).mpr hj)
    rw [ne_eq, hd₁.inv.outcome_eq_waiting_iff hx₁] at hs₁
    rw [ne_eq, hd₂.inv.outcome_eq_waiting_iff hx₂] at hs₂
    have hboth := hagree j (by simpa [state_of_find hx₁] using hs₁)
      (by simpa [state_of_find hx₂] using hs₂)
    rw [outcome, outcome, hboth]
  · have hnone := Table.not_mem_keys.mp hk
    rw [state, state, hnone, (hsame.find_eq_none_iff k).mpr hnone]

def validChain : TaskGraph := { chain with validated := true }

theorem reaches_validChain : Reaches {} IsPublic {} validChain :=
  (reaches_chain fun c => .inl ⟨c, rfl⟩).tail (.exec Scheduler.validate (.inr (.inl rfl)) .ok
    validChain ⟨_, _, validate_chain, rfl, rfl⟩)

theorem not_failed_validChain (k : String) : validChain.state k ≠ some .failed := by
  intro h
  obtain ⟨n, hn, hfailed⟩ := Option.map_eq_some_iff.mp h
  have hall : ∀ j ∈ validChain.nodes.keys, validChain.state j = some .pending := by decide
  have hpending := hall k (Table.mem_keys_of_find hn)
  rw [h] at hpending
  cases hpending

theorem run_order_irrelevant_chain : ∃ g₁ g₂ : TaskGraph, g₁.nodes.keys ≠ g₂.nodes.keys ∧
    ∀ k, g₁.state k = g₂.state k := by
  let turned := validChain.reorder ["a", "b"] (by decide)
  obtain ⟨⟨s₁, g₁⟩, h₁⟩ := Option.isSome_iff_exists.mp
    (show (scriptedRun .ok validChain).isSome = true by decide)
  obtain ⟨⟨s₂, g₂⟩, h₂⟩ := Option.isSome_iff_exists.mp
    (show (scriptedRun .ok turned).isSome = true by decide)
  have hends₁ : (scriptedRun .ok validChain).map (fun e => (e.1, e.2.nodes.keys)) =
      some (.ok, ["b", "a"]) := by decide
  have hends₂ : (scriptedRun .ok turned).map (fun e => (e.1, e.2.nodes.keys)) =
      some (.ok, ["a", "b"]) := by decide
  rw [h₁] at hends₁
  rw [h₂] at hends₂
  obtain ⟨rfl, hkeys₁⟩ := Prod.mk.inj (Option.some.inj hends₁)
  obtain ⟨rfl, hkeys₂⟩ := Prod.mk.inj (Option.some.inj hends₂)
  have hrun₁ : Prog.Exec (Serves {} anyKernel) run validChain .ok g₁ := run_scriptedRun rfl h₁
  have hrun₂ : Prog.Exec (Serves {} anyKernel) run turned .ok g₂ := run_scriptedRun rfl h₂
  have hturned : Reaches {} IsRun validChain turned := .single (.reorder _ _)
  have hall₁ := (run_ok_allCompleted_iff hrun₁ (reaches_validChain.inv inv_empty)).mpr
    not_failed_validChain
  have hall₂ := (run_ok_allCompleted_iff hrun₂ (hturned.inv (reaches_validChain.inv inv_empty))).mpr
    not_failed_validChain
  refine ⟨g₁, g₂, by rw [hkeys₁, hkeys₂]; decide, ?_⟩
  apply run_order_irrelevant {} validChain validChain turned g₁ g₂ reaches_validChain .refl hrun₁
    hturned hrun₂
  intro k _ _
  have hmem : k ∈ g₁.nodes.keys ↔ k ∈ g₂.nodes.keys := by
    rw [hkeys₁, hkeys₂, List.mem_pair, List.mem_pair, or_comm]
  by_cases hk : k ∈ g₁.nodes.keys
  · obtain ⟨n₁, hn₁⟩ := (g₁.nodes.mem_keys_iff k).mp hk
    obtain ⟨n₂, hn₂⟩ := (g₂.nodes.mem_keys_iff k).mp (hmem.mp hk)
    rw [state_of_find hn₁, state_of_find hn₂, hall₁ k n₁ hn₁, hall₂ k n₂ hn₂]
  · rw [state, state, Table.not_mem_keys.mp hk, Table.not_mem_keys.mp (mt hmem.mpr hk)]

section Idle

variable {g g' : TaskGraph}

theorem Idle.sweep_eq (h : g.Idle) (ks : List String) (progress : Bool) :
    sweep ks progress g = .ret (.ok, progress, g) := by
  induction ks with
  | nil => rfl
  | cons k ks ih =>
    rw [sweep]
    cases hk : g.nodes.find k with
    | none => exact ih
    | some n =>
      simp only [h k n hk, Bool.not_false, ↓reduceIte]
      exact ih

theorem Idle.launchReady_eq (h : g.Idle) (fuel : ℕ) :
    g.launchReady (fuel + 1) = .ret (some (.ok, g)) := by
  rw [launchReady, Prog.iterate, sweepAll, h.sweep_eq]
  rfl

theorem Drained.run_again {dev : DeviceDesc} {s : Status} (h : Drained g)
    (hrun : Prog.Exec (Serves dev anyKernel) run g s g') : s = .ok ∧ g' = g := by
  -- Once `run` has returned `Ok` it finds nothing to do.
  rcases run_exec hrun with ⟨_, hfalse, _⟩ | ⟨_, fuel, hlaunch⟩
  · rw [h.validated] at hfalse
    cases hfalse
  · have hg : { g with validated := true } = g := by rw [← h.validated]
    rw [hg] at hlaunch
    cases fuel with
    | zero => exact absurd hlaunch.1 (by simp)
    | succ fuel =>
      rw [h.idle.launchReady_eq] at hlaunch
      simpa using hlaunch.1

theorem Drained.reorder (h : Drained g) (order : List String) (ho : order.Perm g.nodes.keys) :
    Drained (g.reorder order ho) :=
  ⟨reorder_inv order ho h.inv, h.founded, h.validated, h.idle⟩

theorem Drained.reaches {dev : DeviceDesc} (h : Drained g) (hlater : Reaches dev IsRun g g') :
    Drained g' ∧ g'.nodes.find = g.nodes.find ∧ g'.launches = g.launches := by
  induction hlater with
  | refl => exact ⟨h, rfl, rfl⟩
  | tail _ hcall ih =>
    obtain ⟨hd, hfind, hlaunches⟩ := ih
    cases hcall with
    | exec p hp s _ he =>
      obtain rfl : p = run := hp
      obtain ⟨_, rfl⟩ := hd.run_again he
      exact ⟨hd, hfind, hlaunches⟩
    | reorder order ho => exact ⟨hd.reorder order ho, hfind, hlaunches⟩

end Idle

section Verdicts

variable {g : TaskGraph} {k : String} {n : StageNode}

theorem wait_eq_ok_iff (hk : k ∈ g.nodes.keys) (timeoutMs : UInt32) :
    g.wait k timeoutMs = .ok ↔ g.outcome k = .done := by
  obtain ⟨n, hn⟩ := (g.nodes.mem_keys_iff k).mp hk
  rw [outcome_eq_done_iff, state_of_find hn, wait, hn]
  split <;> simp_all
  split <;> simp_all

theorem wait_eq_aborted_iff (hk : k ∈ g.nodes.keys) (timeoutMs : UInt32) :
    g.wait k timeoutMs = .aborted ↔ g.outcome k = .failed := by
  obtain ⟨n, hn⟩ := (g.nodes.mem_keys_iff k).mp hk
  rw [outcome_eq_failed_iff, state_of_find hn, wait, hn]
  split <;> simp_all
  split <;> simp_all

theorem Inv.wait_eq_timeout_iff (hi : Inv g) (hk : k ∈ g.nodes.keys) (timeoutMs : UInt32) :
    g.wait k timeoutMs = .timeout ↔ g.outcome k = .waiting := by
  obtain ⟨n, hn⟩ := (g.nodes.mem_keys_iff k).mp hk
  rw [hi.outcome_eq_waiting_iff hn, wait, hn]
  rcases hi.settled k n hn with h | h | h
  · simp [h]
  · simp [h]
  · simp [h]

theorem waitEach_eq_ok_iff (timeoutMs : UInt32) (ks : List String) :
    g.waitEach timeoutMs ks = .ok ↔ ∀ k ∈ ks, g.wait k timeoutMs = .ok := by
  induction ks with
  | nil => simp [waitEach]
  | cons k ks ih =>
    rw [waitEach, List.forall_mem_cons, ← ih]
    by_cases hk : g.wait k timeoutMs = .ok
    · simp [hk]
    · simp [hk, (ok_eq_false_iff _).mpr hk]

end Verdicts

theorem wait_after_run (dev : DeviceDesc) (g g' g'' : TaskGraph) (hg : Reaches dev IsPublic {} g)
    (hrun : Prog.Exec (Serves dev anyKernel) run g .ok g') (hlater : Reaches dev IsRun g' g'')
    (timeoutMs : UInt32) :
    g''.launches = g'.launches ∧
      (∀ k ∈ g'.nodes.keys,
        (g''.wait k timeoutMs = .ok ↔ ∀ d, ReflTransGen (Edge g'.nodes.keys g'.dependsOn) d k →
          g'.state d ≠ some .failed) ∧
        (g''.wait k timeoutMs = .aborted ↔ g'.state k = some .failed) ∧
        (g''.wait k timeoutMs = .timeout ↔ ∃ d,
          TransGen (Edge g'.nodes.keys g'.dependsOn) d k ∧ g'.state d = some .failed)) ∧
      (g''.waitAll timeoutMs = .ok ↔ ∀ k, g'.state k ≠ some .failed) := by
  have hd : Drained g' := run_drained (hg.inv inv_empty) (hg.founded fun k n hk => by simp at hk) hrun
  obtain ⟨hd', hfind, hlaunches⟩ := hd.reaches hlater
  have hstate : g''.state = g'.state := by
    funext d
    rw [state, state, hfind]
  have hwait (k : String) : g''.wait k timeoutMs = g'.wait k timeoutMs := by
    rw [wait, wait, hfind]
  have hset := hd.settled
  refine ⟨hlaunches, fun k hk => ?_, ?_⟩
  · rw [hwait, wait_eq_ok_iff hk, wait_eq_aborted_iff hk, hd.inv.wait_eq_timeout_iff hk,
      hset.done_iff hk, hset.waiting_iff hk]
    simp only [ne_eq, outcome_eq_failed_iff, and_self]
  · rw [waitAll, waitEach_eq_ok_iff]
    constructor
    · intro hall k hfailed
      obtain ⟨n, hn, _⟩ := Option.map_eq_some_iff.mp hfailed
      have hk := Table.mem_keys_of_find hn
      have hok := hall k (Table.mem_keys_of_find (hfind ▸ hn))
      rw [hwait, wait_eq_ok_iff hk, outcome_eq_done_iff, hfailed] at hok
      cases hok
    · intro hnone k hk
      obtain ⟨n, hn⟩ := (g''.nodes.mem_keys_iff k).mp hk
      have hk' := Table.mem_keys_of_find (hfind ▸ hn)
      rw [hwait, wait_eq_ok_iff hk', hset.done_iff hk']
      exact fun d _ hfailed => hnone d (outcome_eq_failed_iff.mp hfailed)

theorem wait_after_run_failed : ∃ g' : TaskGraph,
    g'.wait "a" 0 = .aborted ∧ g'.waitAll 0 ≠ .ok := by
  obtain ⟨g, g', hreach, hrun, hfailed⟩ := rerun_after_failure
  obtain ⟨_, hwait, hall⟩ := wait_after_run {} g g' g' hreach hrun .refl 0
  have hi : Inv g := hreach.inv inv_empty
  have hstill : g'.state "a" = some .failed := by
    obtain ⟨_, hexec⟩ := run_ok hrun hi
    exact (hexec.ok_failed "a").mpr hfailed
  obtain ⟨n, hn, _⟩ := Option.map_eq_some_iff.mp hstill
  exact ⟨g', (hwait "a" (Table.mem_keys_of_find hn)).2.1.mpr hstill,
    fun hok => hall.mp hok "a" hstill⟩

inductive Retries (dev : DeviceDesc) (g : TaskGraph) : List Status → TaskGraph → Prop
  | start : Retries dev g [] g
  | run {ss : List Status} {m g' : TaskGraph} {s : Status} (h : Retries dev g ss m)
      (hrun : Prog.Exec (Serves dev anyKernel) run m s g') : Retries dev g (ss ++ [s]) g'
  | reorder {ss : List Status} {m : TaskGraph} (h : Retries dev g ss m) (order : List String)
      (ho : order.Perm m.nodes.keys) : Retries dev g ss (m.reorder order ho)

section Retries

variable {g g' : TaskGraph} {s : Status}

theorem LaunchStep.pendingCount_lt (h : LaunchStep g s g') : g'.pendingCount < g.pendingCount := by
  obtain ⟨k, n, n', hk, hready, hcontract, hstate⟩ := h
  have hpending : n.state = .pending := (readyToRun_iff.mp hready).1
  have hnot : n'.state ≠ .pending := by
    rw [hstate]
    split <;> simp
  have hcount := Table.count_of_find_off (t := g.nodes) (u := (g.finish k n').nodes) k
    (fun j hj => by simp [finish, hj]) (fun n => n.state = .pending)
  have hfind : (g.finish k n').nodes.find k = some n' := by simp [finish, hk]
  simp only [hk, hfind, Option.any_some, hpending, hnot, decide_true, decide_false,
    Bool.toNat_true, Bool.toNat_false] at hcount
  simp only [pendingCount]
  omega

theorem okSteps_pendingCount_le (h : ReflTransGen OkStep g g') : g'.pendingCount ≤ g.pendingCount := by
  induction h with
  | refl => exact Nat.le_refl _
  | tail _ hstep ih => exact (hstep.pendingCount_lt.trans_le ih).le

theorem Executed.pendingCount_le (h : Executed g s g') :
    g'.pendingCount + (if s = .ok ∨ s = .outOfMemory then 0 else 1) ≤ g.pendingCount := by
  cases h with
  | drained h _ => simpa using okSteps_pendingCount_le h
  | starved h => simpa using okSteps_pendingCount_le h
  | failed h _ hlast =>
    have hlt := hlast.pendingCount_lt.trans_le (okSteps_pendingCount_le h)
    split
    · omega
    · omega

theorem pendingCount_reorder (g : TaskGraph) (order : List String) (h : order.Perm g.nodes.keys) :
    (g.reorder order h).pendingCount = g.pendingCount := by
  rw [pendingCount, pendingCount, Table.count_eq_total, Table.count_eq_total]
  exact Table.total_eq_of_find (show (g.reorder order h).nodes.find = g.nodes.find from rfl) _

theorem run_executed {dev : DeviceDesc} (hv : g.validated = true)
    (h : Prog.Exec (Serves dev anyKernel) run g s g') : Executed g s g' := by
  rcases run_exec h with ⟨_, hfalse, _⟩ | ⟨_, fuel, hlaunch⟩
  · rw [hv] at hfalse
    cases hfalse
  · have hg : { g with validated := true } = g := by rw [← hv]
    rw [hg] at hlaunch
    exact launchReady_executed hlaunch

end Retries

def failures (ss : List Status) : ℕ := ss.countP fun s => s ≠ .ok ∧ s ≠ .outOfMemory

theorem failures_concat (ss : List Status) (s : Status) :
    failures (ss ++ [s]) = failures ss + if s = .ok ∨ s = .outOfMemory then 0 else 1 := by
  rw [failures, failures, List.countP_append, List.countP_singleton]
  congr 1
  by_cases hok : s = .ok
  · simp [hok]
  · by_cases hoom : s = .outOfMemory
    · simp [hoom]
    · simp [hok, hoom]

structure Retried (g : TaskGraph) (ss : List Status) (m : TaskGraph) : Prop where
  inv : Inv m
  founded : Founded m
  validated : m.validated = true
  failures_le : failures ss + m.pendingCount ≤ g.pendingCount
  split : ∃ failing oks, ss = failing ++ List.replicate oks .ok ∧ .ok ∉ failing ∧
    (oks ≠ 0 → m.Idle)

theorem Retries.retried {dev : DeviceDesc} {g m : TaskGraph} {ss : List Status}
    (h : Retries dev g ss m) (hi : Inv g) (hf : Founded g) (hv : g.validated = true) :
    Retried g ss m := by
  induction h with
  | start => exact ⟨hi, hf, hv, by simp [failures], [], 0, rfl, by simp, by simp⟩
  | reorder _ order ho ih =>
    refine ⟨reorder_inv order ho ih.inv, ih.founded, ih.validated, ?_, ih.split⟩
    rw [pendingCount_reorder]
    exact ih.failures_le
  | @run ss m m' s _ hrun ih =>
    have hexec := run_executed ih.validated hrun
    have hpending := hexec.pendingCount_le
    refine ⟨hexec.induction (fun _ _ _ hstep => hstep.inv) ih.inv,
      hexec.induction (fun _ _ _ hstep => hstep.founded) ih.founded,
      hexec.sameStages.2.trans ih.validated, ?_, ?_⟩
    · have hle := ih.failures_le
      rw [failures_concat]
      omega
    · obtain ⟨failing, oks, hss, hfailing, hidle⟩ := ih.split
      by_cases hoks : oks = 0
      · rw [hoks, List.replicate_zero, List.append_nil] at hss
        by_cases hs : s = .ok
        · subst hs
          exact ⟨failing, 1, by rw [hss]; rfl, hfailing,
            fun _ => (run_drained ih.inv ih.founded hrun).idle⟩
        · refine ⟨failing ++ [s], 0, by rw [hss]; simp, ?_, by simp⟩
          rw [List.mem_append, List.mem_singleton]
          rintro (h | h)
          · exact hfailing h
          · exact hs h.symm
      · have hdrained : Drained m := ⟨ih.inv, ih.founded, ih.validated, hidle hoks⟩
        obtain ⟨rfl, rfl⟩ := hdrained.run_again hrun
        exact ⟨failing, oks + 1, by rw [hss, List.append_assoc, List.replicate_succ'], hfailing,
          fun _ => hdrained.idle⟩

theorem run_retries (dev : DeviceDesc) (g g' : TaskGraph) (ss : List Status)
    (hg : Reaches dev IsPublic {} g) (hv : g.validated = true) (h : Retries dev g ss g') :
    failures ss + g'.pendingCount ≤ g.pendingCount ∧
      ∃ failing oks, ss = failing ++ List.replicate oks .ok ∧ .ok ∉ failing := by
  have hr := h.retried (hg.inv inv_empty) (hg.founded fun k n hk => by simp at hk) hv
  obtain ⟨failing, oks, hss, hfailing, _⟩ := hr.split
  exact ⟨hr.failures_le, failing, oks, hss, hfailing⟩

theorem run_retries_twice : ∃ g' : TaskGraph, Retries {} validChain [.driverError, .ok] g' ∧
    failures [.driverError, .ok] + g'.pendingCount ≤ validChain.pendingCount := by
  obtain ⟨⟨s, g⟩, h₁⟩ := Option.isSome_iff_exists.mp
    (show (scriptedRun .driverError validChain).isSome = true by decide)
  have hfirst : (scriptedRun .driverError validChain).map (fun e => (e.1, e.2.validated)) =
      some (.driverError, true) := by decide
  have hsecond : ((scriptedRun .driverError validChain).bind
      (fun e => scriptedRun .ok e.2)).map Prod.fst = some .ok := by decide
  rw [h₁] at hfirst hsecond
  obtain ⟨rfl, hv⟩ := Prod.mk.inj (Option.some.inj hfirst)
  obtain ⟨⟨_, g'⟩, h₂, rfl⟩ := Option.map_eq_some_iff.mp hsecond
  have hretries : Retries {} validChain [.driverError, .ok] g' :=
    .run (.run .start (run_scriptedRun rfl h₁)) (run_scriptedRun hv h₂)
  exact ⟨g', hretries, (run_retries {} validChain g' _ reaches_validChain rfl hretries).1⟩

end NexusRT.Scheduler.TaskGraph

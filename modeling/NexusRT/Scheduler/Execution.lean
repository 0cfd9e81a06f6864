import NexusRT.Scheduler.Validation

/-!
The abstract executor: a run is a sequence of launches of ready stages. `launchReady` refines it
for every behaviour of the micro-kernel.
-/

namespace NexusRT.Scheduler.TaskGraph

open Firmware Relation

def finish (g : TaskGraph) (k : String) (n : StageNode) : TaskGraph where
  nodes := g.nodes.modify k (fun _ => n)
  validated := g.validated
  launches := ⟨k, fun d => if d = k then some .running else g.state d⟩ :: g.launches

inductive LaunchStep (g : TaskGraph) (s : Status) : TaskGraph → Prop
  | intro (k : String) (n n' : StageNode) (hk : g.nodes.find k = some n)
      (hready : g.readyToRun n = true) (hcontract : n'.contract = n.contract)
      (hstate : n'.state = if ok s then .completed else .failed) : LaunchStep g s (g.finish k n')

def OkStep (g g' : TaskGraph) : Prop := LaunchStep g .ok g'

def Idle (g : TaskGraph) : Prop := ∀ k n, g.nodes.find k = some n → g.readyToRun n = false

inductive Executed (g : TaskGraph) : Status → TaskGraph → Prop
  | drained {g' : TaskGraph} (h : ReflTransGen OkStep g g') (hidle : g'.Idle) : Executed g .ok g'
  | starved {g' : TaskGraph} (h : ReflTransGen OkStep g g') : Executed g .outOfMemory g'
  | failed {g₁ g' : TaskGraph} {s : Status} (h : ReflTransGen OkStep g g₁) (hs : s ≠ .ok)
      (hstep : LaunchStep g₁ s g') : Executed g s g'

theorem finish_eq {g : TaskGraph} {k : String} {n : StageNode} (hk : g.nodes.find k = some n)
    {r n' : StageNode} (hr : r.state = .running) :
    ((g.setNode k r).noteLaunch k).setNode k n' = g.finish k n' := by
  simp only [setNode, noteLaunch, finish, mk.injEq, List.cons.injEq, Launch.mk.injEq, true_and,
    and_true]
  refine ⟨?_, funext fun d => ?_⟩
  · simp only [Table.modify, Table.mk.injEq, and_true]
    funext j
    by_cases hj : j = k <;> simp [hj, hk]
  · by_cases hd : d = k <;> simp [state, hd, hk, hr]

variable {A : (c : MicroKernelCall) → c.Answer → Prop}

theorem launch_spec (g : TaskGraph) (k : String) (n : StageNode) (hk : g.nodes.find k = some n) :
    Prog.Always (Prog.allow A) (g.launch k n) () (fun r _ => r = (.outOfMemory, g) ∨
      ∃ n', n'.contract = n.contract ∧ n'.state = (if ok r.1 then .completed else .failed) ∧
        r.2 = g.finish k n') := by
  simp only [launch, Prog.always_bind, acquireStream, Firmware.launch, releaseStream, syncStream,
    Prog.op, Prog.always_call, Prog.always_ret, Prog.pure_eq]
  intro sh _ _
  by_cases hid : sh.id = 0
  · simp [hid]
  · simp only [hid, ↓reduceIte, Prog.always_bind, Prog.always_call, Prog.always_ret]
    intro s _ _
    by_cases hs : s = .ok
    · simp only [hs, (ok_iff .ok).mpr rfl, Bool.not_true, Bool.false_eq_true, ↓reduceIte,
        Prog.always_bind, Prog.always_call, Prog.always_ret]
      intro s' _ _ _ _ _
      refine .inr ⟨_, ?_, ?_, finish_eq hk rfl⟩ <;> split <;> rfl
    · have hok : ok s = false := (ok_eq_false_iff s).mpr hs
      simp only [hok, Bool.not_false, ↓reduceIte, Prog.always_bind, Prog.always_call,
        Prog.always_ret]
      intro _ _ _
      refine .inr ⟨_, ?_, ?_, finish_eq hk rfl⟩
      · rfl
      · simp

inductive Swept (ks : List String) (progress : Bool) (g : TaskGraph) :
    Status × Bool × TaskGraph → Prop
  | idle (h : ∀ k ∈ ks, ∀ n, g.nodes.find k = some n → g.readyToRun n = false) :
      Swept ks progress g (.ok, progress, g)
  | progressed {g' : TaskGraph} (h : TransGen OkStep g g') : Swept ks progress g (.ok, true, g')
  | starved {g' : TaskGraph} (h : ReflTransGen OkStep g g') :
      Swept ks progress g (.outOfMemory, true, g')
  | failed {g₁ g' : TaskGraph} {s : Status} (h : ReflTransGen OkStep g g₁) (hs : s ≠ .ok)
      (hstep : LaunchStep g₁ s g') : Swept ks progress g (s, true, g')

theorem Swept.cons_idle {k : String} {ks : List String} {progress : Bool} {g : TaskGraph}
    {r : Status × Bool × TaskGraph} (h : Swept ks progress g r)
    (hk : ∀ n, g.nodes.find k = some n → g.readyToRun n = false) : Swept (k :: ks) progress g r := by
  cases h with
  | idle h =>
    refine .idle fun j hj => ?_
    rcases List.mem_cons.mp hj with rfl | hj
    · exact hk
    · exact h j hj
  | progressed h => exact .progressed h
  | starved h => exact .starved h
  | failed h hs hstep => exact .failed h hs hstep

theorem Swept.head {k : String} {ks : List String} {progress : Bool} {g g₁ : TaskGraph}
    {r : Status × Bool × TaskGraph} (hstep : OkStep g g₁) (h : Swept ks true g₁ r) :
    Swept (k :: ks) progress g r := by
  cases h with
  | idle _ => exact .progressed (.single hstep)
  | progressed h => exact .progressed (.head hstep h)
  | starved h => exact .starved (.head hstep h)
  | failed h hs hlast => exact .failed (.head hstep h) hs hlast

theorem sweep_spec (ks : List String) (progress : Bool) (g : TaskGraph) :
    Prog.Always (Prog.allow A) (sweep ks progress g) () (fun r _ => Swept ks progress g r) := by
  induction ks generalizing progress g with
  | nil => exact .idle (by simp)
  | cons k ks ih =>
    rw [sweep]
    cases hk : g.nodes.find k with
    | none => exact Prog.always_mono (ih progress g) (fun r _ h => h.cons_idle (by simp [hk]))
    | some n =>
      by_cases hready : g.readyToRun n = true
      · simp only [hready, Bool.not_true, Bool.false_eq_true, ↓reduceIte, Prog.always_bind]
        apply Prog.always_mono (launch_spec g k n hk)
        rintro ⟨s, g₁⟩ _ (h | ⟨n', hcontract, hstate, hg₁ : g₁ = g.finish k n'⟩)
        · obtain ⟨rfl, rfl⟩ : s = .outOfMemory ∧ g₁ = g := by simpa using h
          exact .starved .refl
        · have hstep : LaunchStep g s g₁ := by
            rw [hg₁]
            exact .intro k n n' hk hready hcontract hstate
          by_cases hs : s = .ok
          · subst hs
            simp only [(ok_iff .ok).mpr rfl, Bool.not_true, Bool.false_eq_true, ↓reduceIte]
            exact Prog.always_mono (ih true g₁) (fun r _ h => h.head hstep)
          · simp only [(ok_eq_false_iff s).mpr hs, Bool.not_false, ↓reduceIte]
            exact .failed .refl hs hstep
      · rw [Bool.not_eq_true] at hready
        simp only [hready, Bool.not_false, ↓reduceIte]
        exact Prog.always_mono (ih progress g) (fun r _ h => h.cons_idle (by simp [hk, hready]))

theorem sweepAll_spec (g : TaskGraph) :
    Prog.Always (Prog.allow A) g.sweepAll ()
      (fun r _ => r.elim (TransGen OkStep g) (fun e => Executed g e.1 e.2)) := by
  rw [sweepAll, Prog.always_bind]
  apply Prog.always_mono (sweep_spec g.nodes.keys false g)
  rintro ⟨s, progress, g'⟩ _ h
  cases h with
  | idle h =>
    simp only [(ok_iff .ok).mpr rfl, Bool.not_true, Bool.false_eq_true, ↓reduceIte]
    exact .drained .refl (fun k n hk => h k (Table.mem_keys_of_find hk) n hk)
  | progressed h =>
    simp only [(ok_iff .ok).mpr rfl, Bool.not_true, Bool.false_eq_true, ↓reduceIte]
    exact h
  | starved h =>
    exact .starved h
  | failed h hs hstep =>
    simp only [(ok_eq_false_iff s).mpr hs, Bool.not_false, ↓reduceIte]
    exact .failed h hs hstep

theorem Executed.head {g g₁ g' : TaskGraph} {s : Status} (h₁ : ReflTransGen OkStep g g₁)
    (h : Executed g₁ s g') : Executed g s g' := by
  cases h with
  | drained h hidle => exact .drained (h₁.trans h) hidle
  | starved h => exact .starved (h₁.trans h)
  | failed h hs hstep => exact .failed (h₁.trans h) hs hstep

theorem launchReady_spec (fuel : ℕ) (g : TaskGraph) :
    Prog.Always (Prog.allow A) (g.launchReady fuel) ()
      (fun o _ => ∀ e, o = some e → Executed g e.1 e.2) := by
  refine Prog.always_iterate (fun g' _ => ReflTransGen OkStep g g') _ ?_ fuel g () .refl
  intro g₁ _ h₁
  apply Prog.always_mono (sweepAll_spec g₁)
  rintro (g' | e) _ h
  · exact h₁.trans h.to_reflTransGen
  · exact Executed.head h₁ h

theorem launchReady_executed {fuel : ℕ} {g g' : TaskGraph} {s : Status}
    (h : Prog.Exec (Prog.allow A) (g.launchReady fuel) () (some (s, g')) ()) : Executed g s g' :=
  (Prog.always_iff _ _ _).mp (launchReady_spec fuel g) _ _ h (s, g') rfl

def pendingCount (g : TaskGraph) : ℕ := g.nodes.count (fun n => n.state = .pending)

theorem pendingCount_le (g : TaskGraph) : g.pendingCount ≤ g.nodes.size := List.countP_le_length

theorem OkStep.pendingCount_lt {g g' : TaskGraph} (h : OkStep g g') :
    g'.pendingCount < g.pendingCount := by
  obtain ⟨k, n, n', hk, hready, hcontract, hstate⟩ := h
  have hpending : n.state = .pending := by
    simp only [readyToRun, Bool.and_eq_true, decide_eq_true_eq] at hready
    exact hready.1
  have hcount := Table.count_of_find_off (t := g.nodes) (u := (g.finish k n').nodes) k
    (fun j hj => by simp [finish, hj]) (fun n => n.state = .pending)
  have hfind : (g.finish k n').nodes.find k = some n' := by simp [finish, hk]
  simp only [hk, hfind, Option.any_some, hpending, hstate, (ok_iff .ok).mpr rfl, ↓reduceIte,
    reduceCtorEq, decide_true, decide_false, Bool.toNat_true, Bool.toNat_false] at hcount
  simp only [pendingCount]
  omega

theorem transGen_pendingCount_lt {g g' : TaskGraph} (h : TransGen OkStep g g') :
    g'.pendingCount < g.pendingCount := by
  induction h with
  | single h => exact h.pendingCount_lt
  | tail _ h ih => exact h.pendingCount_lt.trans ih

theorem launchReady_leaves {fuel : ℕ} {g : TaskGraph} (hfuel : g.nodes.size < fuel) :
    Prog.Always (Prog.allow A) (g.launchReady fuel) () (fun o _ => o ≠ none) := by
  refine Prog.always_iterate_leaves (fun _ _ => True) pendingCount ?_ fuel g () trivial
    (g.pendingCount_le.trans_lt hfuel)
  intro g₁ _ _
  apply Prog.always_mono (sweepAll_spec g₁)
  rintro r _ h g' rfl
  exact ⟨trivial, transGen_pendingCount_lt h⟩

def succeeding : (c : MicroKernelCall) → c.Answer → Prop
  | .loadModule _ _, r => r.1 = .ok
  | .acquireStream _ _, h => h.id ≠ 0
  | .releaseStream _, _ => True
  | .launch _ _ _ _ _ _ _, s => s = .ok
  | .syncStream _, s => s = .ok

theorem launch_succeeds (g : TaskGraph) (k : String) (n : StageNode) :
    Prog.Always (Prog.allow succeeding) (g.launch k n) () (fun r _ => r.1 = .ok) := by
  simp only [launch, Prog.always_bind, acquireStream, Firmware.launch, releaseStream, syncStream,
    Prog.op, Prog.always_call, Prog.always_ret, Prog.pure_eq]
  intro sh _ hsh
  have hid : sh.id ≠ 0 := hsh
  simp only [hid, ↓reduceIte, Prog.always_bind, Prog.always_call, Prog.always_ret]
  rintro s _ rfl
  simp only [(ok_iff .ok).mpr rfl, Bool.not_true, Bool.false_eq_true, ↓reduceIte,
    Prog.always_bind, Prog.always_call, Prog.always_ret]
  rintro s _ rfl _ _ _
  rfl

theorem sweep_succeeds (ks : List String) (progress : Bool) (g : TaskGraph) :
    Prog.Always (Prog.allow succeeding) (sweep ks progress g) () (fun r _ => r.1 = .ok) := by
  induction ks generalizing progress g with
  | nil => rfl
  | cons k ks ih =>
    rw [sweep]
    cases g.nodes.find k with
    | none => exact ih progress g
    | some n =>
      by_cases hready : g.readyToRun n = true
      · simp only [hready, Bool.not_true, Bool.false_eq_true, ↓reduceIte, Prog.always_bind]
        apply Prog.always_mono (launch_succeeds g k n)
        rintro ⟨s, g₁⟩ _ rfl
        exact ih true g₁
      · rw [Bool.not_eq_true] at hready
        simpa only [hready, Bool.not_false, ↓reduceIte] using ih progress g

theorem launchReady_succeeds (fuel : ℕ) (g : TaskGraph) :
    Prog.Always (Prog.allow succeeding) (g.launchReady fuel) ()
      (fun o _ => ∀ e, o = some e → e.1 = .ok) := by
  refine Prog.always_iterate (fun _ _ => True) (fun (e : Status × TaskGraph) _ => e.1 = .ok) ?_ fuel
    g () trivial
  intro g₁ _ _
  rw [sweepAll, Prog.always_bind]
  apply Prog.always_mono (sweep_succeeds g₁.nodes.keys false g₁)
  rintro ⟨s, progress, g'⟩ _ rfl
  cases progress <;> simp

end NexusRT.Scheduler.TaskGraph

import NexusRT.Library.Trace
import NexusRT.Scheduler.Runs

/-!
One stage submitted through the C interface: a new graph with one node.
-/

namespace NexusRT.Scheduler

open Firmware Prog TaskGraph

def onGraph {α : Type} (dev : DeviceDesc) :
    GraphProg α → TaskGraph → MicroKernelProg (Option (α × TaskGraph))
  | .ret a, g => return some (a, g)
  | .call (.addStage c) k, g => onGraph dev (k (g.addStage c).1) (g.addStage c).2
  | .call .loadValidated k, g => onGraph dev (k g.validated) g
  | .call .validate k, g => onGraph dev (k (g.validate dev).1) (g.validate dev).2
  | .call .launchReady k, g => do
    let r ← g.launchReady (g.nodes.size + 1)
    match r with
    | none => return none
    | some (s, g) => onGraph dev (k s) g

theorem onGraph_serves {α : Type} {dev : DeviceDesc} {A : (c : MicroKernelCall) → c.Answer → Prop}
    {p : GraphProg α} {g g' : TaskGraph} {a : α}
    (h : Exec (allow A) (onGraph dev p g) () (some (a, g')) ()) : Exec (Serves dev A) p g a g' := by
  induction p generalizing g with
  | ret b =>
    obtain ⟨h, _⟩ := h
    obtain ⟨rfl, rfl⟩ := Prod.mk.inj (Option.some.inj h)
    exact ⟨rfl, rfl⟩
  | call o k ih =>
    cases o with
    | addStage c => exact ⟨_, _, rfl, ih _ h⟩
    | loadValidated => exact ⟨_, _, ⟨rfl, rfl⟩, ih _ h⟩
    | validate => exact ⟨_, _, rfl, ih _ h⟩
    | launchReady =>
      rw [onGraph, exec_bind] at h
      obtain ⟨r, _, hlaunch, h⟩ := h
      cases r with
      | none => exact absurd h.1 (by simp)
      | some r => exact ⟨r.1, r.2, ⟨_, hlaunch⟩, ih _ h⟩

def submitOne (c : StageContract) : GraphProg Int := do
  let s ← addStage c
  if !ok s then return s.code else do
    let s ← run
    return s.code

def submitGraph (dev : DeviceDesc) (c : StageContract) : MicroKernelProg (Option Int) := do
  let r ← onGraph dev (submitOne c) {}
  match r with
  | none => return none
  | some (code, g) => do
    g.destructor
    return some code

/-- `ctx` is whether `lookup_handle` finds the context, whose device is `dev`. -/
def nexusrtSubmitStage (dev : DeviceDesc) (ctx : Bool) (stageName moduleName functionName : String)
    (tokenBudget smFootprintMb memFootprintMb : UInt32) (grid block : Dim3) (sharedMemBytes : UInt32)
    (kernelArgs : List Ptr) (nArgs : UInt32) : MicroKernelProg (Option Int) :=
  if !ctx then return some Status.invalidArgument.code else
    submitGraph dev {
      name := stageName
      moduleName
      functionName
      tokenBudget
      smFootprintMb
      memFootprintMb
      grid
      block
      sharedMemBytes
      kernelArgs := kernelArgs.take nArgs.toNat }

section Single

variable {c : StageContract}

def oneStage (c : StageContract) : TaskGraph where
  nodes := Table.empty.insert c.name { contract := c }

def checked (c : StageContract) : TaskGraph := { oneStage c with validated := true }

theorem addStage_fresh (hname : c.name ≠ "") : TaskGraph.addStage {} c = (.ok, oneStage c) := by
  rw [TaskGraph.addStage, if_neg hname]
  rfl

theorem entries_oneStage : (oneStage c).nodes.entries = [(c.name, { contract := c })] := by
  simp [oneStage, Table.entries, Table.insert, Table.empty]

theorem find_oneStage {k : String} {n : StageNode} (h : (oneStage c).nodes.find k = some n) :
    k = c.name ∧ n = { contract := c } := by
  rw [oneStage, Table.find_insert, Table.find_empty] at h
  split at h
  · next hk => exact ⟨hk, (Option.some.inj h).symm⟩
  · exact absurd h (by simp)

theorem validate_oneStage (dev : DeviceDesc) (hdeps : c.dependsOn = []) : (oneStage c).validate dev =
    if c.smFootprintMb > dev.smemPerSmBytes / 1024 then (.contractViolation, oneStage c)
    else (.ok, checked c) := by
  have hmissing : ¬ (oneStage c).Missing := by
    rintro ⟨k, n, hk, d, hd, _⟩
    rw [(find_oneStage hk).2, hdeps] at hd
    exact absurd hd (by simp)
  have hrepeats : ¬ (oneStage c).Repeats := by
    rintro ⟨k, n, hk, hnodup⟩
    rw [(find_oneStage hk).2, hdeps] at hnodup
    exact hnodup List.nodup_nil
  have hcyclic : ¬ (oneStage c).Cyclic := by
    rintro ⟨k, hk⟩
    obtain ⟨_, _, hlast, hedge⟩ := Relation.TransGen.tail'_iff.mp hk
    obtain ⟨n, hn⟩ := ((oneStage c).nodes.mem_keys_iff k).mp hlast
    rw [dependsOn_of_find hn, (find_oneStage hn).2, hdeps] at hedge
    exact absurd hedge (by simp)
  have hvisited := (visited_eq_size_iff hmissing).mpr ⟨hrepeats, hcyclic⟩
  rw [TaskGraph.validate, if_neg (fun h => hmissing ((missing_iff _).mpr h)),
    if_neg (by simpa using hvisited), entries_oneStage]
  simp only [List.any_cons, List.any_nil, Bool.or_false, decide_eq_true_eq]
  rfl

end Single

section Outcome

variable {dev : DeviceDesc} {c : StageContract} {f : (o : MicroKernelCall) → o.Answer}

def isLaunch : Event MicroKernelCall MicroKernelCall.Answer → Bool
  | ⟨.launch _ _ _ _ _ _ _, s⟩ => ok s
  | _ => false

def kernels (t : List (Event MicroKernelCall MicroKernelCall.Answer)) :
    List (Event MicroKernelCall MicroKernelCall.Answer) := t.filter isLaunch

@[simp] theorem kernels_append (t u : List (Event MicroKernelCall MicroKernelCall.Answer)) :
    kernels (t ++ u) = kernels t ++ kernels u := List.filter_append ..

def Starts (f : (o : MicroKernelCall) → o.Answer) (c : StageContract) : Prop :=
  (f (.acquireStream (streamClass c) 0)).id ≠ 0 ∧
    f (.launch c.moduleName c.functionName c.grid c.block c.sharedMemBytes
      (f (.acquireStream (streamClass c) 0)) c.kernelArgs) = .ok

theorem launch_starts {g : TaskGraph} {k : String} {n : StageNode} (h : Starts f n.contract) :
    kernels (traceWith f (g.launch k n)).1 ≠ [] := by
  obtain ⟨hid, hok⟩ := h
  simp [TaskGraph.launch, acquireStream, Firmware.launch, op, hid, hok, kernels, isLaunch,
    (ok_iff .ok).mpr rfl]

theorem launch_refused {g : TaskGraph} {k : String} {n : StageNode} (h : ¬ Starts f n.contract) :
    kernels (traceWith f (g.launch k n)).1 = [] ∧ (traceWith f (g.launch k n)).2.1 ≠ .ok := by
  by_cases hid : (f (.acquireStream (streamClass n.contract) 0)).id = 0
  · simp [TaskGraph.launch, acquireStream, op, hid, kernels, isLaunch]
  · have hrefused := mt (And.intro hid) h
    simp [TaskGraph.launch, acquireStream, Firmware.launch, releaseStream, op, hid, hrefused, kernels,
      isLaunch]

theorem sweep_idle {g : TaskGraph} (h : g.Idle) (ks : List String) (progress : Bool) :
    sweep ks progress g = .ret (.ok, progress, g) := by
  induction ks with
  | nil => rfl
  | cons k ks ih =>
    rw [sweep]
    cases hk : g.nodes.find k with
    | none => exact ih
    | some n =>
      dsimp only
      rw [h k n hk, Bool.not_false, if_pos rfl]
      exact ih

theorem sweepAll_idle {g : TaskGraph} (h : g.Idle) : g.sweepAll = .ret (.inr (.ok, g)) := by
  rw [sweepAll, sweep_idle h]
  rfl

theorem launched_idle (c : StageContract) :
    Always (allow anyKernel) ((checked c).launch c.name { contract := c }) ()
      (fun r _ => r.1 = .ok → r.2.Idle) := by
  have hspec := launch_spec (A := anyKernel) (checked c) c.name { contract := c }
    (by simp [checked, oneStage])
  apply always_mono hspec
  rintro ⟨s, g'⟩ _ hr hs
  obtain rfl : s = .ok := hs
  obtain hnone | ⟨n', _, hstate, rfl⟩ := hr
  · exact absurd hnone (by simp)
  · rw [(ok_iff .ok).mpr rfl, if_pos rfl] at hstate
    intro k n hk
    have hn : n = n' := by
      simp only [finish, checked, oneStage, Table.find_modify, Table.find_insert, Table.find_empty,
        ↓reduceIte, Option.map_some] at hk
      split at hk
      · exact (Option.some.inj hk).symm
      · exact absurd hk (by simp)
    rw [← Bool.not_eq_true, readyToRun_iff, hn, hstate]
    simp

theorem sweepAll_checked (hdeps : c.dependsOn = []) : (checked c).sweepAll =
    (checked c).launch c.name { contract := c } >>= fun r =>
      .ret (if r.1 = .ok then .inl r.2 else .inr r) := by
  have hkeys : (checked c).nodes.keys = [c.name] := by
    simp [checked, oneStage, Table.insert, Table.empty]
  have hfind : (checked c).nodes.find c.name = some { contract := c } := by
    simp [checked, oneStage]
  have hready : (checked c).readyToRun { contract := c } = true := by
    simp [readyToRun, hdeps]
  rw [sweepAll, hkeys, sweep, hfind]
  dsimp only
  rw [hready, Bool.not_true, if_neg Bool.false_ne_true, bind_bind]
  congr 1
  funext r
  by_cases hs : r.1 = .ok
  · simp [hs, (ok_iff .ok).mpr rfl, sweep]
  · simp [hs]

theorem launchReady_checked (hdeps : c.dependsOn = []) : launchReady 2 (checked c) =
    (checked c).launch c.name { contract := c } >>= fun r => .ret (some r) := by
  -- After the only stage no other is ready, so the graph does what its launch does.
  rw [launchReady, iterate, sweepAll_checked hdeps, bind_bind]
  apply bind_congr_of_always
  apply always_mono (launched_idle c)
  rintro ⟨s, g⟩ _ hidle
  by_cases hs : s = .ok
  · rw [ret_bind, if_pos hs]
    dsimp only
    rw [iterate, sweepAll_idle (hidle hs), hs]
    rfl
  · rw [ret_bind, if_neg hs]

theorem kernels_destructor (g : TaskGraph) : kernels (traceWith f g.destructor).1 = [] := by
  rw [TaskGraph.destructor]
  induction g.nodes.entries with
  | nil => rfl
  | cons e l ih =>
    rw [List.foldlM_cons, traceWith_bind, kernels_append, ih, List.append_nil]
    by_cases hstream : e.2.stream = 0
    · simp [hstream, kernels]
    · simp [hstream, releaseStream, op, kernels, isLaunch]

def Launches (dev : DeviceDesc) (f : (o : MicroKernelCall) → o.Answer) (c : StageContract) : Prop :=
  c.name ≠ "" ∧ c.smFootprintMb ≤ dev.smemPerSmBytes / 1024 ∧ Starts f c

theorem submitOne_unnamed (hname : c.name = "") :
    onGraph dev (submitOne c) {} = .ret (some (Status.invalidArgument.code, {})) := by
  simp [submitOne, Scheduler.addStage, op, onGraph, TaskGraph.addStage, hname]

theorem submitOne_violates (hname : c.name ≠ "") (hdeps : c.dependsOn = [])
    (hsm : c.smFootprintMb > dev.smemPerSmBytes / 1024) : onGraph dev (submitOne c) {} =
      .ret (some (Status.contractViolation.code, oneStage c)) := by
  have hvalidate := validate_oneStage dev hdeps
  rw [if_pos hsm] at hvalidate
  have hunchecked : (oneStage c).validated = false := rfl
  simp [submitOne, Scheduler.addStage, Scheduler.run, Scheduler.validate, op, onGraph,
    addStage_fresh hname, hunchecked, hvalidate]

theorem submitOne_checked (hname : c.name ≠ "") (hdeps : c.dependsOn = [])
    (hsm : ¬ c.smFootprintMb > dev.smemPerSmBytes / 1024) : onGraph dev (submitOne c) {} =
      launchReady 2 (checked c) >>= fun r => match r with
        | none => return none
        | some (s, g) => return some (s.code, g) := by
  have hvalidate := validate_oneStage dev hdeps
  rw [if_neg hsm] at hvalidate
  have hunchecked : (oneStage c).validated = false := rfl
  have hsize : (checked c).nodes.size = 1 := by
    simp [checked, oneStage, Table.size, Table.insert, Table.empty]
  simp [submitOne, Scheduler.addStage, Scheduler.run, Scheduler.validate, op, onGraph,
    addStage_fresh hname, hunchecked, hvalidate, hsize]

theorem submitOne_spec (dev : DeviceDesc) (hdeps : c.dependsOn = []) : ∃ code g,
    (traceWith f (onGraph dev (submitOne c) {})).2 = some (code, g) ∧
      (Launches dev f c → kernels (traceWith f (onGraph dev (submitOne c) {})).1 ≠ []) ∧
      (¬ Launches dev f c → kernels (traceWith f (onGraph dev (submitOne c) {})).1 = [] ∧ code < 0) := by
  by_cases hname : c.name = ""
  · rw [submitOne_unnamed hname]
    exact ⟨_, _, rfl, fun h => absurd hname h.1, fun _ => ⟨rfl, by decide⟩⟩
  by_cases hsm : c.smFootprintMb > dev.smemPerSmBytes / 1024
  · rw [submitOne_violates hname hdeps hsm]
    exact ⟨_, _, rfl, fun h => absurd h.2.1 (UInt32.not_le.mpr hsm), fun _ => ⟨rfl, by decide⟩⟩
  · rw [submitOne_checked hname hdeps hsm, launchReady_checked hdeps, bind_bind, traceWith_bind]
    obtain ⟨t, s, g', hlaunch⟩ : ∃ t s g',
        traceWith f ((checked c).launch c.name { contract := c }) = (t, s, g') := ⟨_, _, _, rfl⟩
    rw [hlaunch]
    have hlaunches : Launches dev f c ↔ Starts f c :=
      ⟨fun h => h.2.2, fun h => ⟨hname, UInt32.not_lt.mp hsm, h⟩⟩
    refine ⟨s.code, g', rfl, fun h => ?_, fun h => ?_⟩
    · have hstarts := launch_starts (g := checked c) (k := c.name) (n := { contract := c })
        (hlaunches.mp h)
      rw [hlaunch] at hstarts
      simpa using hstarts
    · have hrefused := launch_refused (g := checked c) (k := c.name) (n := { contract := c })
        (mt hlaunches.mpr h)
      rw [hlaunch] at hrefused
      have hcode := (ok_eq_false_iff s).mpr hrefused.2
      exact ⟨by simpa using hrefused.1, by simpa [ok] using hcode⟩

theorem submitGraph_spec (dev : DeviceDesc) (hdeps : c.dependsOn = []) :
    ∃ code, (traceWith f (submitGraph dev c)).2 = some code ∧
      (Launches dev f c → kernels (traceWith f (submitGraph dev c)).1 ≠ []) ∧
      (¬ Launches dev f c → kernels (traceWith f (submitGraph dev c)).1 = [] ∧ code < 0) := by
  obtain ⟨code, g, hresult, hstarted, hrefused⟩ := submitOne_spec (f := f) dev hdeps
  refine ⟨code, ?_, fun h => ?_, fun h => ⟨?_, (hrefused h).2⟩⟩
  · rw [submitGraph, traceWith_bind, hresult]
    simp [traceWith_bind]
  · rw [submitGraph, traceWith_bind, hresult]
    simp [hstarted h]
  · rw [submitGraph, traceWith_bind, hresult]
    simp [traceWith_bind, kernels_destructor, (hrefused h).1]

theorem launch_synced {g : TaskGraph} {k : String} {n : StageNode} (h : Starts f n.contract) :
    (traceWith f (g.launch k n)).2.1 = f (.syncStream (f (.acquireStream (streamClass n.contract) 0))) := by
  obtain ⟨hid, hok⟩ := h
  simp [TaskGraph.launch, acquireStream, Firmware.launch, syncStream, releaseStream, op, hid, hok]

theorem submitGraph_synced (hdeps : c.dependsOn = []) (h : Launches dev f c) :
    (traceWith f (submitGraph dev c)).2 =
      some (f (.syncStream (f (.acquireStream (streamClass c) 0)))).code := by
  have hone : (traceWith f (onGraph dev (submitOne c) {})).2.map Prod.fst =
      some (f (.syncStream (f (.acquireStream (streamClass c) 0)))).code := by
    rw [submitOne_checked h.1 hdeps (UInt32.not_lt.mpr h.2.1), launchReady_checked hdeps, bind_bind,
      traceWith_bind]
    have hsynced := launch_synced (g := checked c) (k := c.name) (n := { contract := c }) h.2.2
    exact congrArg (fun s : Status => some s.code) hsynced
  obtain ⟨⟨code, g⟩, hg, hcode⟩ := Option.map_eq_some_iff.mp hone
  obtain rfl : code = _ := hcode
  rw [submitGraph, traceWith_bind, hg]
  simp [traceWith_bind]

end Outcome

end NexusRT.Scheduler

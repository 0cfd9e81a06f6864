import NexusRT.Library.Trace
import NexusRT.Scheduler.Runs

namespace NexusRT.Scheduler

open Firmware Prog

structure KernelLaunch where
  moduleName : String
  functionName : String
  grid : Dim3
  block : Dim3
  sharedMemBytes : UInt32
  kernelArgs : List Ptr

def kernelLaunch : MicroKernelCall → Option KernelLaunch
  | .launch moduleName functionName grid block sharedMemBytes _ kernelArgs =>
    some ⟨moduleName, functionName, grid, block, sharedMemBytes, kernelArgs⟩
  | _ => none

def StageContract.kernelLaunch (c : StageContract) : KernelLaunch :=
  ⟨c.moduleName, c.functionName, c.grid, c.block, c.sharedMemBytes, c.kernelArgs⟩

namespace TaskGraph

def kernelLaunch (g : TaskGraph) (k : String) : Option KernelLaunch :=
  ((g.nodes.find k).map StageNode.contract).map StageContract.kernelLaunch

structure Logged (g : TaskGraph) (t : List (Event MicroKernelCall MicroKernelCall.Answer))
    (g' : TaskGraph) : Prop where
  same : SameStages g g'
  log : ∃ new, g'.launches = new ++ g.launches ∧
    ((calls t).filterMap Scheduler.kernelLaunch).map some =
      new.reverse.map fun l => g.kernelLaunch l.stage

variable {A : (c : MicroKernelCall) → c.Answer → Prop} {g g₁ g' : TaskGraph}
  {t u : List (Event MicroKernelCall MicroKernelCall.Answer)}

theorem Logged.refl (g : TaskGraph) : Logged g [] g := ⟨fun _ => rfl, [], rfl, rfl⟩

theorem Logged.trans (h : Logged g t g₁) (h' : Logged g₁ u g') : Logged g (t ++ u) g' := by
  obtain ⟨new, hnew, hcalls⟩ := h.log
  obtain ⟨new', hnew', hcalls'⟩ := h'.log
  refine ⟨fun k => (h'.same k).trans (h.same k), new' ++ new, ?_, ?_⟩
  · rw [hnew', hnew, List.append_assoc]
  · have hkernel : ∀ k, g₁.kernelLaunch k = g.kernelLaunch k := fun k =>
      congrArg (Option.map StageContract.kernelLaunch) (h.same k)
    rw [calls_append, List.filterMap_append, List.map_append, hcalls, hcalls', List.reverse_append,
      List.map_append]
    simp only [hkernel]

theorem launch_logged {k : String} {n : StageNode} {s : Status} (hk : g.nodes.find k = some n)
    (h : Traces A (g.launch k n) t (s, g')) : Logged g t g' := by
  have hlogged {r n' : StageNode} {v : List (Event MicroKernelCall MicroKernelCall.Answer)}
      (hr : r.state = .running) (hn' : n'.contract = n.contract)
      (hg' : g' = ((g.setNode k r).noteLaunch k).setNode k n')
      (hv : (calls v).filterMap Scheduler.kernelLaunch = [n.contract.kernelLaunch]) : Logged g v g' := by
    rw [finish_eq hk hr] at hg'
    subst hg'
    refine ⟨sameStages_finish hk hn', [_], rfl, ?_⟩
    rw [hv]
    simp [kernelLaunch, hk]
  rw [launch, acquireStream, traces_op_bind] at h
  obtain ⟨sh, u, _, rfl, h⟩ := h
  split at h
  · obtain ⟨rfl, hg'⟩ := h
    obtain ⟨_, rfl⟩ := Prod.mk.inj hg'
    exact ⟨fun _ => rfl, [], rfl, rfl⟩
  · dsimp only at h
    rw [Firmware.launch, traces_op_bind] at h
    obtain ⟨r, v, _, rfl, h⟩ := h
    split at h
    · rw [releaseStream, traces_op_bind] at h
      obtain ⟨_, w, _, rfl, rfl, hg'⟩ := h
      refine hlogged ?_ ?_ (Prod.mk.inj hg').2 rfl <;> rfl
    · rw [syncStream, traces_op_bind] at h
      obtain ⟨r', w, _, rfl, h⟩ := h
      rw [releaseStream, traces_op_bind] at h
      obtain ⟨_, x, _, rfl, rfl, hg'⟩ := h
      refine hlogged ?_ ?_ (Prod.mk.inj hg').2 rfl
      · rfl
      · split <;> rfl

theorem sweep_logged {ks : List String} {progress : Bool} {r : Status × Bool × TaskGraph}
    (h : Traces A (sweep ks progress g) t r) : Logged g t r.2.2 := by
  induction ks generalizing progress g t with
  | nil =>
    obtain ⟨rfl, rfl⟩ := h
    exact .refl g
  | cons k ks ih =>
    rw [sweep] at h
    split at h
    · exact ih h
    · next n hk =>
      split at h
      · exact ih h
      · rw [traces_bind] at h
        obtain ⟨u, v, ⟨s, g₁⟩, rfl, hlaunch, h⟩ := h
        have hfirst := launch_logged hk hlaunch
        dsimp only at h
        split at h
        · obtain ⟨rfl, rfl⟩ := h
          simpa using hfirst
        · exact hfirst.trans (ih h)

theorem sweepAll_logged {r : TaskGraph ⊕ Status × TaskGraph} (h : Traces A g.sweepAll t r) :
    Logged g t (r.elim id Prod.snd) := by
  rw [sweepAll, traces_bind] at h
  obtain ⟨u, v, ⟨s, progress, g₁⟩, rfl, hsweep, h⟩ := h
  have hlogged := sweep_logged hsweep
  dsimp only at h
  split at h
  · obtain ⟨rfl, rfl⟩ := h
    simpa using hlogged
  · split at h
    · obtain ⟨rfl, rfl⟩ := h
      simpa using hlogged
    · obtain ⟨rfl, rfl⟩ := h
      simpa using hlogged

theorem launchReady_logged {fuel : ℕ} {s : Status}
    (h : Traces A (g.launchReady fuel) t (some (s, g'))) : Logged g t g' := by
  induction fuel generalizing g t with
  | zero => cases h.2
  | succ fuel ih =>
    rw [launchReady, iterate, traces_bind] at h
    obtain ⟨u, v, r, rfl, hsweep, h⟩ := h
    have hlogged := sweepAll_logged hsweep
    cases r with
    | inl g₁ => exact hlogged.trans (ih h)
    | inr r =>
      obtain ⟨rfl, hr⟩ := h
      obtain rfl := Option.some.inj hr
      simpa using hlogged

end TaskGraph

end NexusRT.Scheduler

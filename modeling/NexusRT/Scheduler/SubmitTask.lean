import NexusRT.Scheduler.SubmitStage

namespace NexusRT.Scheduler

open Firmware Prog TaskGraph

def serve : (c : MicroKernelCall) → MicroKernel → PlatformProg (c.Answer × MicroKernel)
  | .loadModule name source, m => m.loadModule name source
  | .acquireStream klass priority, m => return m.acquireStream klass priority
  | .releaseStream h, m => return ((), m.releaseStream h)
  | .launch moduleName functionName grid block sharedMemBytes stream kernelArgs, m => do
    let s ← m.launch moduleName functionName grid block sharedMemBytes stream kernelArgs
    return (s, m)
  | .syncStream h, m => do
    let s ← MicroKernel.syncStream h
    return (s, m)

def onPool {α : Type} (p : MicroKernelProg α) (m : MicroKernel) : PlatformProg (α × MicroKernel) :=
  p.interpWith serve m

/-- `StreamClass::Dma` or `StreamClass::Compute` as an `int32_t`. -/
def taskClass (moduleName : String) : Int32 :=
  if contains moduleName "dma" || contains moduleName "gds" then 1 else 0

variable {α β : Type} {m : MicroKernel}

theorem exec_beside (p : PlatformProg α) (m : MicroKernel) (a : α) (m' : MicroKernel) :
    Exec (allow anyBackend) (p >>= fun b => pure (b, m)) () (a, m') () ↔
      m' = m ∧ Exec (allow anyBackend) p () a () := by
  rw [exec_bind]
  constructor
  · rintro ⟨b, _, hp, hret, _⟩
    obtain ⟨rfl, rfl⟩ := Prod.mk.inj hret
    exact ⟨rfl, hp⟩
  · rintro ⟨rfl, hp⟩
    exact ⟨a, (), hp, rfl, rfl⟩

theorem serves_iff (c : MicroKernelCall) (m : MicroKernel) (r : c.Answer) (m' : MicroKernel) :
    MicroKernel.Serves c m r m' ↔ Exec (allow anyBackend) (serve c m) () (r, m') () := by
  cases c with
  | loadModule name source => rfl
  | acquireStream klass priority => simp [MicroKernel.Serves, serve]
  | releaseStream h => simp [MicroKernel.Serves, serve]
  | launch moduleName functionName grid block sharedMemBytes stream kernelArgs =>
    exact (exec_beside _ m r m').symm
  | syncStream h => exact (exec_beside _ m r m').symm

theorem ofInt32_taskClass (c : StageContract) :
    StreamClass.ofInt32 (taskClass c.moduleName) = streamClass c := by
  unfold taskClass streamClass
  split <;> rfl

theorem onPool_bind (p : MicroKernelProg α) (q : α → MicroKernelProg β) :
    onPool (p >>= q) m = onPool p m >>= fun r => onPool (q r.1) r.2 := interpWith_bind serve p q m

theorem onPool_destructor (g : TaskGraph) : onPool g.destructor m = .ret ((), m) := by
  -- The handles that the destructor of a graph gives back are not taken into the pool.
  rw [TaskGraph.destructor]
  induction g.nodes.entries with
  | nil => rfl
  | cons e l ih =>
    rw [List.foldlM_cons]
    split
    · exact ih
    · exact ih

theorem onPool_acquire (klass : StreamClass) (priority : Int32)
    (k : StreamHandle → MicroKernelProg α) : onPool (acquireStream klass priority >>= k) m =
      onPool (k (m.acquireStream klass priority).1) (m.acquireStream klass priority).2 := rfl

theorem onPool_launch (g : TaskGraph) (k : String) (n : StageNode) (streamPriority : Int32) :
    onPool (g.launch k n >>= fun r => .ret (some r.1.code)) m =
      onPool (nexusrtFirmwareTaskSubmit true n.contract.moduleName n.contract.functionName
        n.contract.grid n.contract.block n.contract.sharedMemBytes n.contract.kernelArgs
        (taskClass n.contract.moduleName) streamPriority >>= fun code => .ret (some code)) m := by
  unfold TaskGraph.launch nexusrtFirmwareTaskSubmit
  simp only [ofInt32_taskClass, Bool.not_true, Bool.false_eq_true, ↓reduceIte, bind_bind,
    onPool_acquire]
  have hpriority : m.acquireStream (streamClass n.contract) streamPriority =
      m.acquireStream (streamClass n.contract) 0 := rfl
  rw [hpriority]
  generalize m.acquireStream (streamClass n.contract) 0 = acquired
  obtain ⟨sh, m₁⟩ := acquired
  by_cases hid : sh.id = 0
  · simp only [hid, ↓reduceIte]
    rfl
  · simp only [hid, ↓reduceIte, bind_bind, onPool_bind]
    congr 1
    funext ⟨s, m₂⟩
    cases hs : ok s with
    | false =>
      simp only [Bool.not_false, Bool.false_eq_true, ↓reduceIte]
      rfl
    | true =>
      simp only [Bool.not_true, Bool.false_eq_true, ↓reduceIte]
      rfl

theorem onPool_submitGraph (dev : DeviceDesc) {c : StageContract} (hname : c.name ≠ "")
    (hdeps : c.dependsOn = []) (hsm : c.smFootprintMb = 0) : onPool (submitGraph dev c) m =
      onPool ((checked c).launch c.name { contract := c } >>= fun r => .ret (some r.1.code)) m := by
  have hfits : ¬ c.smFootprintMb > dev.smemPerSmBytes / 1024 := by
    rw [hsm]
    exact UInt32.not_lt.mpr UInt32.zero_le
  rw [submitGraph, submitOne_checked hname hdeps hfits, launchReady_checked hdeps]
  simp only [bind_bind, ret_bind, pure_eq, onPool_bind, onPool_destructor]

theorem traces_some {A : (c : PlatformCall) → c.Answer → Prop} {p : MicroKernelProg α}
    {t : List (Event PlatformCall PlatformCall.Answer)} {r : Option α} {m' : MicroKernel} :
    Traces A (onPool (p >>= fun a => .ret (some a)) m) t (r, m') ↔
      ∃ a, r = some a ∧ Traces A (onPool p m) t (a, m') := by
  rw [onPool_bind, traces_bind]
  constructor
  · rintro ⟨u, _, ⟨a, m₁⟩, rfl, hp, rfl, hr⟩
    obtain ⟨rfl, rfl⟩ := Prod.mk.inj hr
    exact ⟨a, rfl, by simpa using hp⟩
  · rintro ⟨a, rfl, hp⟩
    exact ⟨t, [], (a, m'), (List.append_nil t).symm, hp, rfl, rfl⟩

theorem nexusrtSubmitStage_traces (dev : DeviceDesc) (m : MicroKernel) (ctx : Bool)
    (stageName moduleName functionName : String) (hname : stageName ≠ "")
    (tokenBudget memFootprintMb : UInt32) (grid block : Dim3) (sharedMemBytes : UInt32)
    (kernelArgs : List Ptr) (nArgs : UInt32) (streamPriority : Int32)
    (t : List (Event PlatformCall PlatformCall.Answer)) (r : Option Int) (m' : MicroKernel) :
    Traces anyBackend (onPool (nexusrtSubmitStage dev ctx stageName moduleName functionName tokenBudget
        0 memFootprintMb grid block sharedMemBytes kernelArgs nArgs) m) t (r, m') ↔
      ∃ code, r = some code ∧ Traces anyBackend (onPool (nexusrtFirmwareTaskSubmit ctx moduleName
        functionName grid block sharedMemBytes (kernelArgs.take nArgs.toNat) (taskClass moduleName)
        streamPriority) m) t (code, m') := by
  rw [← traces_some]
  unfold nexusrtSubmitStage
  cases ctx with
  | false => rfl
  | true =>
    rw [Bool.not_true, if_neg Bool.false_ne_true, onPool_submitGraph dev hname rfl rfl,
      onPool_launch _ _ _ streamPriority]

def copyPool : MicroKernel where
  arch := .hopper
  freeDma := [{ id := 1, raw := 7, klass := .dma }]
  modules := Table.empty.insert "gds" { name := "gds", functions := Table.empty.insert "copy" 9 }

theorem nexusrtSubmitStage_traces_timeout : Traces anyBackend
    (onPool (nexusrtSubmitStage {} true "load" "gds" "copy" 0 0 0 {} {} 0 [5] 1) copyPool)
    [⟨.launchKernel 9 {} {} 0 7 [5], .ok⟩, ⟨.syncStream 7, .timeout⟩] (some (-9), copyPool) := by
  rw [nexusrtSubmitStage_traces {} copyPool true "load" "gds" "copy" (by decide) 0 0 {} {} 0 [5] 1 0]
  refine ⟨-9, rfl, ?_⟩
  exact ⟨.ok, _, trivial, rfl, .timeout, [], trivial, rfl, rfl, rfl⟩

end NexusRT.Scheduler

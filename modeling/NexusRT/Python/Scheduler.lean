import NexusRT.Library.Guarded
import NexusRT.Python.Firmware
import NexusRT.Scheduler.SubmitStage

namespace NexusRT.Python

open Prog Firmware Scheduler

structure StageContract where
  name : String
  moduleName : String
  functionName : String
  tokenBudget : Int := 0
  smFootprintMb : Int := 0
  memFootprintMb : Int := 0
  grid : List Int := [1, 1, 1]
  block : List Int := [1, 1, 1]
  sharedMemBytes : Int := 0
  dependsOn : List String := []
  kernelArgs : List Int := []

/-- A string as C sees it: it ends before the first null character. -/
def cString (s : String) : String := String.ofList (s.toList.takeWhile (· ≠ '\x00'))

def index (t : List Int) (i : ℕ) : Except PyError UInt32 :=
  match t[i]? with
  | none => .error (.indexError "tuple index out of range")
  | some x => .ok (.ofInt x)

def dims (t : List Int) : Except PyError Dim3 := do
  let x ← index t 0
  let y ← index t 1
  let z ← index t 2
  return { x, y, z }

/-- What one call of `submit_stage` finds: the attribute `_ctx`, the handles of the registry, the
device, and the answers of the micro-kernel. Each of its calls is made at most once. -/
structure StageOutcome where
  ctx : Option Ptr
  found : Ptr → Bool
  device : DeviceDesc
  kernel : (o : MicroKernelCall) → o.Answer

def arguments (ctx : Option Ptr) (c : StageContract) : Except PyError (Ptr × Dim3 × Dim3) := do
  let h ← Wrapper.ctx ctx
  let grid ← dims c.grid
  let block ← dims c.block
  return (h, grid, block)

def submitStage (e : StageOutcome) (c : StageContract) :
    MicroKernelProg (Option (Except PyError Int)) :=
  match arguments e.ctx c with
  | .error err => return some (.error err)
  | .ok (h, grid, block) => do
    let rc ← nexusrtSubmitStage e.device (e.found h) (cString c.name) (cString c.moduleName)
      (cString c.functionName) (.ofInt c.tokenBudget) (.ofInt c.smFootprintMb)
      (.ofInt c.memFootprintMb) grid block (.ofInt c.sharedMemBytes)
      (c.kernelArgs.map UInt64.ofInt) (.ofNat c.kernelArgs.length)
    match rc with
    | none => return none
    | some rc => return some ((check rc).map fun _ => rc)

/-- The contract that arrives in C: without the names of the stages it depends on. -/
def StageContract.marshalled (c : StageContract) (grid block : Dim3) : Scheduler.StageContract where
  name := cString c.name
  moduleName := cString c.moduleName
  functionName := cString c.functionName
  tokenBudget := .ofInt c.tokenBudget
  smFootprintMb := .ofInt c.smFootprintMb
  memFootprintMb := .ofInt c.memFootprintMb
  grid
  block
  sharedMemBytes := .ofInt c.sharedMemBytes
  kernelArgs := (c.kernelArgs.map UInt64.ofInt).take (UInt32.ofNat c.kernelArgs.length).toNat

def CanLaunch (e : StageOutcome) (c : StageContract) : Prop :=
  ∃ h grid block, arguments e.ctx c = .ok (h, grid, block) ∧ e.found h = true ∧
    Launches e.device e.kernel (c.marshalled grid block)

structure Submission where
  contract : StageContract
  launched : List (Event MicroKernelCall MicroKernelCall.Answer)
  result : Except PyError Int

def accepted (s : List Submission) : List String :=
  s.filterMap fun e => if e.result.isOk then some e.contract.name else none

def Submission.Refused (e : Submission) : Prop := e.result.isOk = false ∧ e.launched = []

def SubmitStep (s : List Submission) (c : StageContract × StageOutcome) (s' : List Submission) : Prop :=
  ∃ t r, traceWith c.2.kernel (submitStage c.2 c.1) = (t, some r) ∧ s' = ⟨c.1, kernels t, r⟩ :: s

def Honoured : List Submission → Prop
  | [] => True
  | e :: s => ((∀ d ∈ e.contract.dependsOn, d ∈ accepted s) ∨ e.Refused) ∧ Honoured s

def Submittable (s : List Submission) (c : StageContract × StageOutcome) : Prop :=
  (∀ d ∈ c.1.dependsOn, d ∈ accepted s) ∨ ¬ CanLaunch c.2 c.1

section Submit

variable {e : StageOutcome} {c : StageContract} {h : Ptr} {grid block : Dim3}

theorem canLaunch_iff (hargs : arguments e.ctx c = .ok (h, grid, block)) : CanLaunch e c ↔
    e.found h = true ∧ Launches e.device e.kernel (c.marshalled grid block) := by
  constructor
  · rintro ⟨h', grid', block', hok, hcan⟩
    obtain ⟨rfl, rfl, rfl⟩ : h = h' ∧ grid = grid' ∧ block = block' := by
      simpa using hargs.symm.trans hok
    exact hcan
  · exact fun hcan => ⟨h, grid, block, hargs, hcan⟩

theorem submitStage_found (hargs : arguments e.ctx c = .ok (h, grid, block)) (hfound : e.found h = true) :
    submitStage e c = submitGraph e.device (c.marshalled grid block) >>= fun rc => match rc with
      | none => return none
      | some rc => return some ((check rc).map fun _ => rc) := by
  rw [submitStage, hargs]
  dsimp only
  rw [nexusrtSubmitStage, if_neg (by simpa using hfound)]
  rfl

theorem submitStage_missed (hargs : arguments e.ctx c = .ok (h, grid, block))
    (hfound : e.found h ≠ true) :
    submitStage e c = .ret (some (.error (.nexusRTError (-1) "INVALID_ARGUMENT"))) := by
  rw [submitStage, hargs]
  dsimp only
  rw [nexusrtSubmitStage, if_pos (by simpa using hfound)]
  rfl

theorem submitStage_spec (e : StageOutcome) (c : StageContract) : ∃ t r,
    traceWith e.kernel (submitStage e c) = (t, some r) ∧ (CanLaunch e c → kernels t ≠ []) ∧
      (¬ CanLaunch e c → kernels t = [] ∧ r.isOk = false) := by
  cases hargs : arguments e.ctx c with
  | error err =>
    refine ⟨[], .error err, ?_, fun ⟨h, grid, block, hok, _⟩ => ?_, fun _ => ⟨rfl, rfl⟩⟩
    · rw [submitStage, hargs]
      rfl
    · exact absurd (hargs.symm.trans hok) (by simp)
  | ok a =>
    obtain ⟨h, grid, block⟩ := a
    by_cases hfound : e.found h = true
    · obtain ⟨code, hcode, hstarts, hno⟩ := submitGraph_spec (f := e.kernel) e.device
        (c := c.marshalled grid block) rfl
      rw [submitStage_found hargs hfound, traceWith_bind, hcode]
      refine ⟨_, (check code).map fun _ => code, rfl, fun hcan => ?_, fun hcan => ?_⟩
      · simpa using hstarts ((canLaunch_iff hargs).mp hcan).2
      · obtain ⟨hnone, hneg⟩ := hno fun hlaunches =>
          hcan ((canLaunch_iff hargs).mpr ⟨hfound, hlaunches⟩)
        rw [check, if_pos hneg]
        exact ⟨by simpa using hnone, rfl⟩
    · rw [submitStage_missed hargs hfound]
      refine ⟨[], _, rfl, fun hcan => ?_, fun _ => ⟨rfl, rfl⟩⟩
      exact absurd ((canLaunch_iff hargs).mp hcan).1 hfound

theorem submitStage_synced (hcan : CanLaunch e c) (hsync : ∀ sh, e.kernel (.syncStream sh) = .ok) :
    ∃ t, traceWith e.kernel (submitStage e c) = (t, some (.ok 0)) ∧ kernels t ≠ [] := by
  obtain ⟨t, r, hrun, hlaunches, _⟩ := submitStage_spec e c
  refine ⟨t, ?_, hlaunches hcan⟩
  obtain ⟨h, grid, block, hargs, hfound, hcan⟩ := hcan
  have hresult := submitGraph_synced (f := e.kernel) (c := c.marshalled grid block) rfl hcan
  rw [hsync] at hresult
  have hr : (traceWith e.kernel (submitStage e c)).2 = some (.ok 0) := by
    rw [submitStage_found hargs hfound, traceWith_bind, hresult]
    rfl
  rw [hrun] at hr
  rw [hrun, ← hr]

theorem submit_total (s : List Submission) (c : StageContract × StageOutcome) :
    ∃ s', SubmitStep s c s' := by
  obtain ⟨t, r, hrun, _⟩ := submitStage_spec c.2 c.1
  exact ⟨_, t, r, hrun, rfl⟩

end Submit

theorem submit_exact : ExactGuard SubmitStep Submittable Honoured Honoured where
  good _ h := h
  step s c s' h hstep := by
    obtain ⟨c, e⟩ := c
    obtain ⟨t, r, hrun, rfl⟩ := hstep
    obtain ⟨_, _, hrun', hlaunches, hrefused⟩ := submitStage_spec e c
    obtain ⟨rfl, rfl⟩ : t = _ ∧ r = _ := by simpa using hrun.symm.trans hrun'
    by_cases hcan : CanLaunch e c
    · by_cases hdeps : ∀ d ∈ c.dependsOn, d ∈ accepted s
      · exact .inl ⟨.inl hdeps, .inl hdeps, h⟩
      · refine .inr ⟨fun hsubmittable => hsubmittable.elim hdeps fun hnot => hnot hcan, fun hgood => ?_⟩
        exact hgood.1.elim hdeps fun hrefused => hlaunches hcan hrefused.2
    · exact .inl ⟨.inr hcan, .inr (hrefused hcan).symm, h⟩

theorem depends_on_honoured {s : List Submission} (h : GuardedRun SubmitStep Submittable [] s) :
    Honoured s ∧ ∀ c s', SubmitStep s c s' → (Honoured s' ↔ Submittable s c) :=
  h.good_iff submit_exact trivial

def freeDevice : StageOutcome where
  ctx := some 16
  found h := h = 16
  device := {}
  kernel
    | .loadModule _ _ => (.ok, none)
    | .acquireStream _ _ => { id := 1, raw := 7 }
    | .releaseStream _ => ()
    | .launch _ _ _ _ _ _ _ => .ok
    | .syncStream _ => .ok

def embed : StageContract := { name := "embed", moduleName := "infer", functionName := "embed" }

def block : StageContract := { embed with name := "block", dependsOn := ["embed"] }

theorem embed_canLaunch : CanLaunch freeDevice embed :=
  ⟨16, {}, {}, by decide, by decide, by decide, by decide, by decide, rfl⟩

theorem block_canLaunch : CanLaunch freeDevice block :=
  ⟨16, {}, {}, by decide, by decide, by decide, by decide, by decide, rfl⟩

theorem depends_on_honoured_embed : ∃ s s', SubmitStep [] (embed, freeDevice) s ∧
    SubmitStep s (block, freeDevice) s' ∧ accepted s' = ["block", "embed"] ∧
    (∀ e ∈ s', e.launched ≠ []) ∧ Honoured s' := by
  obtain ⟨t, hembed, hlaunched⟩ := submitStage_synced embed_canLaunch fun _ => rfl
  obtain ⟨t', hblock, hlaunched'⟩ := submitStage_synced block_canLaunch fun _ => rfl
  have hfirst : SubmitStep [] (embed, freeDevice) [⟨embed, kernels t, .ok 0⟩] :=
    ⟨t, _, hembed, rfl⟩
  have hsecond : SubmitStep [⟨embed, kernels t, .ok 0⟩] (block, freeDevice)
      [⟨block, kernels t', .ok 0⟩, ⟨embed, kernels t, .ok 0⟩] := ⟨t', _, hblock, rfl⟩
  -- the second stage meets the condition through the first one, not because it cannot be launched
  have hdeps : ∀ d ∈ block.dependsOn, d ∈ accepted [⟨embed, kernels t, .ok 0⟩] := by
    intro d hd
    exact hd
  have hrun : GuardedRun SubmitStep Submittable []
      [⟨block, kernels t', .ok 0⟩, ⟨embed, kernels t, .ok 0⟩] :=
    .tail (.single ⟨_, hfirst, .inl (by simp [embed])⟩) ⟨_, hsecond, .inl hdeps⟩
  exact ⟨_, _, hfirst, hsecond, rfl, by simp [hlaunched, hlaunched'], (depends_on_honoured hrun).1⟩

theorem depends_on_ignored : ¬ ∀ s,
    Relation.ReflTransGen (fun s s' => ∃ c, SubmitStep s c s') [] s → Honoured s := by
  intro hclaim
  obtain ⟨s, hstep⟩ := submit_total [] (block, freeDevice)
  have hnot : ¬ Submittable [] (block, freeDevice) := fun hsubmittable =>
    hsubmittable.elim (fun hdeps => by simp [block, accepted] at hdeps) fun hnot => hnot block_canLaunch
  obtain ⟨hrun, hbad⟩ := GuardedRun.not_good submit_exact .refl (by exact trivial) hstep hnot
  exact hbad (hclaim s hrun)

end NexusRT.Python

import Mathlib.Data.List.Perm.Basic
import NexusRT.Library.Interleave
import NexusRT.Scheduler.Runs

namespace NexusRT.Scheduler

open Firmware Interleave

structure ScopedStream where
  handle : StreamHandle

namespace ScopedStream

def construct (klass : StreamClass) (prio : Int32) : MicroKernelProg ScopedStream := do
  let h ← acquireStream klass prio
  return ⟨h⟩

def destruct (o : ScopedStream) : MicroKernelProg Unit :=
  if o.handle.id ≠ 0 then releaseStream o.handle else return ()

def movedFrom (o : ScopedStream) : ScopedStream := ⟨{ o.handle with id := 0 }⟩

def sync (o : ScopedStream) : MicroKernelProg Status := syncStream o.handle

end ScopedStream

inductive ScopeOp
  | construct (klass : StreamClass) (prio : Int32)
  | move (i : ℕ)
  | sync (i : ℕ)
  | launch (i : ℕ) (moduleName functionName : String) (grid block : Dim3) (sharedMemBytes : UInt32)
      (kernelArgs : List Ptr)
  | destruct (i : ℕ)

def destructAll : List ScopedStream → MicroKernelProg Unit
  | [] => return ()
  | o :: os => do
    o.destruct
    destructAll os

def scope : List ScopeOp → List ScopedStream → MicroKernelProg Unit
  | [], os => destructAll os
  | .construct klass prio :: ops, os => do
    let o ← ScopedStream.construct klass prio
    scope ops (o :: os)
  | .move i :: ops, os => match os[i]? with
    | none => scope ops os
    | some o => scope ops (o :: os.set i o.movedFrom)
  | .sync i :: ops, os => match os[i]? with
    | none => scope ops os
    | some o => do
      let _ ← o.sync
      scope ops os
  | .launch i moduleName functionName grid block sharedMemBytes kernelArgs :: ops, os =>
    match os[i]? with
    | none => scope ops os
    | some o => do
      let _ ← launch moduleName functionName grid block sharedMemBytes o.handle kernelArgs
      scope ops os
  | .destruct i :: ops, os => match os[i]? with
    | none => scope ops os
    | some o => do
      o.destruct
      scope ops (os.eraseIdx i)

inductive GraphOp
  | addStage (c : StageContract)
  | validate
  | launchReady
  | reorder (order : List String)

def lifetime (dev : DeviceDesc) : List GraphOp → TaskGraph → MicroKernelProg Unit
  | [], g => g.destructor
  | .addStage c :: ops, g => lifetime dev ops (g.addStage c).2
  | .validate :: ops, g => lifetime dev ops (g.validate dev).2
  | .launchReady :: ops, g => do
    match ← g.launchReady (g.nodes.size + 1) with
    | none => return ()
    | some (_, g) => lifetime dev ops g
  | .reorder order :: ops, g =>
    if h : order.Perm g.nodes.keys then lifetime dev ops (g.reorder order h) else lifetime dev ops g

inductive StreamClient : MicroKernelProg Unit → Prop
  | graph (dev : DeviceDesc) (ops : List GraphOp) : StreamClient (lifetime dev ops {})
  | scope (ops : List ScopeOp) : StreamClient (Scheduler.scope ops [])
  | submit (ctx : Bool) (moduleName functionName : String) (grid block : Dim3)
      (sharedMemBytes : UInt32) (kernelArgs : List Ptr) (streamClass streamPriority : Int32) :
      StreamClient (nexusrtFirmwareTaskSubmit ctx moduleName functionName grid block sharedMemBytes
        kernelArgs streamClass streamPriority >>= fun _ => return ())
  | loader (name source : String) : StreamClient (loadModule name source >>= fun _ => return ())

def held : (c : MicroKernelCall) → c.Answer → List StreamHandle → List StreamHandle
  | .loadModule _ _, _, l => l
  | .acquireStream _ _, h, l => if h.id = 0 then l else h :: l
  | .releaseStream h, _, l => if h.id = 0 then l else l.erase h
  | .launch _ _ _ _ _ _ _, _, l => l
  | .syncStream _, _, l => l

def releaseAllowed : MicroKernelCall → List StreamHandle → Prop
  | .releaseStream h, l => h.id = 0 ∨ h ∈ l
  | _, _ => True

def streamClients : System MicroKernelCall MicroKernelCall.Answer MicroKernel (List StreamHandle) where
  serves c m r m' := MicroKernel.Serves c m r m'
  client := StreamClient
  initial := []
  after := held

abbrev GivesBack {α : Type} (p : MicroKernelProg α) (l : List StreamHandle) : Prop :=
  Respects held releaseAllowed p l (fun _ m => m = l)

theorem respects_acquire {α : Type} {klass : StreamClass} {prio : Int32}
    {k : StreamHandle → MicroKernelProg α} {l : List StreamHandle} {Q : α → List StreamHandle → Prop}
    (hnone : ∀ h : StreamHandle, h.id = 0 → Respects held releaseAllowed (k h) l Q)
    (hsome : ∀ h : StreamHandle, h.id ≠ 0 → Respects held releaseAllowed (k h) (h :: l) Q) :
    Respects held releaseAllowed (acquireStream klass prio >>= k) l Q := by
  refine ⟨trivial, fun h => ?_⟩
  by_cases hid : h.id = 0
  · simp only [held, hid, ↓reduceIte]
    exact hnone h hid
  · simp only [held, hid, ↓reduceIte]
    exact hsome h hid

theorem respects_release {α : Type} {h : StreamHandle} {k : Unit → MicroKernelProg α}
    {l : List StreamHandle} {Q : α → List StreamHandle → Prop} (hid : h.id ≠ 0) (hl : h ∈ l)
    (hk : Respects held releaseAllowed (k ()) (l.erase h) Q) :
    Respects held releaseAllowed (releaseStream h >>= k) l Q := by
  refine ⟨.inr hl, fun _ => ?_⟩
  simp only [held, hid, ↓reduceIte]
  exact hk

theorem respects_launch {α : Type} {moduleName functionName : String} {grid block : Dim3}
    {sharedMemBytes : UInt32} {h : StreamHandle} {kernelArgs : List Ptr} {k : Status → MicroKernelProg α}
    {l : List StreamHandle} {Q : α → List StreamHandle → Prop}
    (hk : ∀ s, Respects held releaseAllowed (k s) l Q) : Respects held releaseAllowed
      (launch moduleName functionName grid block sharedMemBytes h kernelArgs >>= k) l Q :=
  ⟨trivial, hk⟩

theorem respects_sync {α : Type} {h : StreamHandle} {k : Status → MicroKernelProg α}
    {l : List StreamHandle} {Q : α → List StreamHandle → Prop}
    (hk : ∀ s, Respects held releaseAllowed (k s) l Q) :
    Respects held releaseAllowed (syncStream h >>= k) l Q :=
  ⟨trivial, hk⟩

theorem launch_givesBack (g : TaskGraph) (k : String) (n : StageNode) (l : List StreamHandle) :
    GivesBack (g.launch k n) l := by
  rw [TaskGraph.launch]
  refine respects_acquire (fun h hid => ?_) (fun h hid => ?_)
  · simp only [hid, ↓reduceIte]
    rfl
  · simp only [hid, ↓reduceIte]
    apply respects_launch
    intro s
    by_cases hs : ok s = true
    · simp only [hs, Bool.not_true, Bool.false_eq_true, ↓reduceIte]
      exact respects_sync fun s' => respects_release hid (by simp) (by simp)
    · rw [Bool.not_eq_true] at hs
      simp only [hs, Bool.not_false, ↓reduceIte]
      exact respects_release hid (by simp) (by simp)

theorem sweep_givesBack (ks : List String) (progress : Bool) (g : TaskGraph)
    (l : List StreamHandle) : GivesBack (TaskGraph.sweep ks progress g) l := by
  induction ks generalizing progress g with
  | nil => rfl
  | cons k ks ih =>
    rw [TaskGraph.sweep]
    cases g.nodes.find k with
    | none => exact ih progress g
    | some n =>
      by_cases hready : g.readyToRun n = true
      · simp only [hready, Bool.not_true, Bool.false_eq_true, ↓reduceIte, GivesBack, respects_bind]
        apply respects_mono (launch_givesBack g k n l)
        rintro ⟨s, g'⟩ _ rfl
        by_cases hs : ok s = true
        · simpa only [hs, Bool.not_true, Bool.false_eq_true, ↓reduceIte] using ih true g'
        · rw [Bool.not_eq_true] at hs
          simp only [hs, Bool.not_false, ↓reduceIte]
          rfl
      · rw [Bool.not_eq_true] at hready
        simpa only [hready, Bool.not_false, ↓reduceIte] using ih progress g

theorem launchReady_givesBack (fuel : ℕ) (g : TaskGraph) (l : List StreamHandle) :
    GivesBack (g.launchReady fuel) l := by
  refine respects_iterate (· = l) ?_ fuel g l rfl
  rintro g₁ _ rfl
  rw [TaskGraph.sweepAll, respects_bind]
  apply respects_mono (sweep_givesBack _ false g₁ _)
  rintro ⟨s, progress, g'⟩ _ rfl
  by_cases hs : ok s = true <;> cases progress <;> simp [hs]

theorem destructor_givesBack (g : TaskGraph) (l : List StreamHandle) : GivesBack g.destructor l := by
  rw [TaskGraph.destructor]
  induction g.nodes.entries with
  | nil => rfl
  | cons e es ih =>
    rw [List.foldlM_cons]
    by_cases he : e.2.stream ≠ 0
    · rw [if_pos he]
      exact ⟨.inl rfl, fun _ => ih⟩
    · rw [if_neg he]
      exact ih

theorem lifetime_givesBack (dev : DeviceDesc) (ops : List GraphOp) (g : TaskGraph)
    (l : List StreamHandle) : GivesBack (lifetime dev ops g) l := by
  induction ops generalizing g with
  | nil => exact destructor_givesBack g l
  | cons op ops ih =>
    cases op with
    | addStage c => exact ih _
    | validate => exact ih _
    | launchReady =>
      rw [lifetime, GivesBack, respects_bind]
      apply respects_mono (launchReady_givesBack _ g l)
      rintro (_ | ⟨s, g'⟩) _ rfl
      · rfl
      · exact ih g'
    | reorder order =>
      rw [lifetime]
      split
      · exact ih _
      · exact ih g

theorem submit_givesBack (ctx : Bool) (moduleName functionName : String) (grid block : Dim3)
    (sharedMemBytes : UInt32) (kernelArgs : List Ptr) (streamClass streamPriority : Int32)
    (l : List StreamHandle) : GivesBack (nexusrtFirmwareTaskSubmit ctx moduleName functionName grid
      block sharedMemBytes kernelArgs streamClass streamPriority) l := by
  cases ctx with
  | false => rfl
  | true =>
    refine respects_acquire (fun h hid => ?_) (fun h hid => ?_)
    · simp only [hid, ↓reduceIte]
      rfl
    · simp only [hid, ↓reduceIte]
      apply respects_launch
      intro s
      by_cases hs : ok s = true
      · simp only [hs, ↓reduceIte]
        exact respects_sync fun s' => respects_release hid (by simp) (by simp)
      · simp only [hs, ↓reduceIte, Bool.false_eq_true]
        exact respects_release hid (by simp) (by simp)

def owned (os : List ScopedStream) : List StreamHandle :=
  (os.map ScopedStream.handle).filter (fun h => h.id ≠ 0)

theorem owned_cons (o : ScopedStream) (os : List ScopedStream) :
    owned (o :: os) = if o.handle.id ≠ 0 then o.handle :: owned os else owned os := by
  by_cases h : o.handle.id = 0 <;> simp [owned, h]

theorem owned_eraseIdx {os : List ScopedStream} {i : ℕ} {o : ScopedStream} (h : os[i]? = some o) :
    (owned os).Perm (owned (o :: os.eraseIdx i)) := by
  obtain ⟨hi, rfl⟩ := List.getElem?_eq_some_iff.mp h
  exact ((List.getElem_cons_eraseIdx_perm hi).symm.map _).filter _

theorem owned_move {os : List ScopedStream} {i : ℕ} {o : ScopedStream} (h : os[i]? = some o) :
    (owned os).Perm (owned (o :: os.set i o.movedFrom)) := by
  obtain ⟨hi, _⟩ := List.getElem?_eq_some_iff.mp h
  have hset : (owned (os.set i o.movedFrom)).Perm (owned (os.eraseIdx i)) := by
    have hperm : (owned (os.set i o.movedFrom)).Perm (owned (o.movedFrom :: os.eraseIdx i)) :=
      ((List.set_perm_cons_eraseIdx hi o.movedFrom).map _).filter _
    simpa [owned_cons, ScopedStream.movedFrom] using hperm
  refine (owned_eraseIdx h).trans ?_
  rw [owned_cons, owned_cons]
  split
  · exact hset.symm.cons _
  · exact hset.symm

theorem respects_destruct {o : ScopedStream} {os : List ScopedStream} {l : List StreamHandle}
    {k : Unit → MicroKernelProg Unit} {Q : Unit → List StreamHandle → Prop}
    (hl : l.Perm (owned (o :: os)))
    (hk : ∀ m, m.Perm (owned os) → Respects held releaseAllowed (k ()) m Q) :
    Respects held releaseAllowed (o.destruct >>= k) l Q := by
  rw [owned_cons] at hl
  by_cases hid : o.handle.id ≠ 0
  · rw [if_pos hid] at hl
    rw [ScopedStream.destruct, if_pos hid]
    refine respects_release hid (hl.mem_iff.mpr (by simp)) (hk _ ?_)
    simpa using hl.erase o.handle
  · rw [if_neg hid] at hl
    rw [ScopedStream.destruct, if_neg hid]
    exact hk l hl

theorem destructAll_givesBack (os : List ScopedStream) (l : List StreamHandle)
    (hl : l.Perm (owned os)) : Respects held releaseAllowed (destructAll os) l (fun _ m => m = []) := by
  induction os generalizing l with
  | nil => exact List.Perm.eq_nil hl
  | cons o os ih => exact respects_destruct hl ih

theorem scope_givesBack (ops : List ScopeOp) (os : List ScopedStream) (l : List StreamHandle)
    (hl : l.Perm (owned os)) : Respects held releaseAllowed (scope ops os) l (fun _ m => m = []) := by
  induction ops generalizing os l with
  | nil => exact destructAll_givesBack os l hl
  | cons op ops ih =>
    cases op with
    | construct klass prio =>
      refine respects_acquire (fun h hid => ih _ l ?_) (fun h hid => ih _ _ ?_)
      · simpa [owned_cons, hid] using hl
      · simpa [owned_cons, hid] using hl
    | move i =>
      rw [scope]
      cases ho : os[i]? with
      | none => exact ih os l hl
      | some o => exact ih _ l (hl.trans (owned_move ho))
    | sync i =>
      rw [scope]
      cases os[i]? with
      | none => exact ih os l hl
      | some o => exact respects_sync fun _ => ih os l hl
    | launch i moduleName functionName grid block sharedMemBytes kernelArgs =>
      rw [scope]
      cases os[i]? with
      | none => exact ih os l hl
      | some o => exact respects_launch fun _ => ih os l hl
    | destruct i =>
      rw [scope]
      cases ho : os[i]? with
      | none => exact ih os l hl
      | some o => exact respects_destruct (hl.trans (owned_eraseIdx ho)) (fun m hm => ih _ m hm)

theorem client_givesBack {p : MicroKernelProg Unit} (h : StreamClient p) :
    Respects held releaseAllowed p [] (fun _ l => l = []) := by
  cases h with
  | graph dev ops => exact lifetime_givesBack dev ops {} []
  | scope ops => exact scope_givesBack ops [] [] (.refl _)
  | submit ctx moduleName functionName grid block sharedMemBytes kernelArgs streamClass prio =>
    rw [respects_bind]
    exact submit_givesBack ctx moduleName functionName grid block sharedMemBytes kernelArgs
      streamClass prio []
  | loader name source => exact ⟨trivial, fun _ => rfl⟩

end NexusRT.Scheduler

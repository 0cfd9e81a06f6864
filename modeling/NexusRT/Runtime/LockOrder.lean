import NexusRT.Runtime.Evolution

namespace NexusRT.Runtime

open Firmware Interleave Memory Prog Relation Scheduler TokenOpt

def Mutex.rank : Mutex → ℕ
  | .registry => 0
  | .prefetcher _ | .graph _ => 1
  | .memory _ | .scope _ => 2
  | .kernel _ | .ilc _ | .tma _ | .pages _ | .inject _ => 3
  | .poller _ => 4
  | .dispatch => 5
  | .cudaStates | .metalStates => 6
  | .buffers _ => 7

abbrev Takes {α : Type} (r : ℕ) (p : RuntimeProg α) : Prop := TakesFrom Mutex.rank Evolves r p

section Takes

variable {α β : Type} {r : ℕ} (ctx : Ptr)

theorem takes_load (m : Mutex) (hr : r ≤ m.rank) : Takes r (load m) := .load hr

theorem takes_ite {c : Prop} [Decidable c] {p q : RuntimeProg α} (hp : Takes r p) (hq : Takes r q) :
    Takes r (if c then p else q) := by
  split
  · exact hp
  · exact hq

theorem takes_when {b : Bool} {p : RuntimeProg Unit} (hp : Takes r p) : Takes r (when b p) :=
  takes_ite hp (.ret ())

theorem takes_forM {l : List β} {f : β → RuntimeProg PUnit} (hf : ∀ x, Takes r (f x)) :
    Takes r (l.forM f) := by
  induction l with
  | nil => exact .ret _
  | cons x l ih => exact (hf x).bind fun _ => ih

theorem takes_update {m : Mutex} {f : m.State → α × m.State} (hr : r ≤ m.rank)
    (hf : ∀ s, Evolves m s (f s).2) : Takes r (under m fun s => .ret (f s)) := by
  refine .under hr (fun s => .ret _) fun s a s' h => ?_
  obtain rfl : s' = (f s).2 := congrArg Prod.snd h.1
  exact hf s

theorem takes_read {m : Mutex} {f : m.State → α} (hr : r ≤ m.rank) :
    Takes r (reading m fun s => .ret (f s)) :=
  .reading hr fun _ => .ret _

section Platform

theorem askBackend_takes (c : BackendCall) : Takes r (askBackend c) := by
  cases c with
  | probe b => exact .call _
  | forward b c => exact .call _

theorem registerBackend_takes (v : Vendor) (impl : Ptr) (hr : r ≤ 5) :
    Takes r (registerBackend v impl) :=
  takes_update hr fun _ => .inl ⟨v, impl, rfl⟩

theorem probe_takes (hr : r ≤ 5) : Takes r probe :=
  .under hr (fun _ => .interp askBackend_takes _) fun _ found _ h => .inr ⟨found, h.of_interp⟩

theorem backend_takes (hr : r ≤ 5) : Takes r backend := by
  refine (takes_load .dispatch hr).bind fun d => takes_ite (.ret _) ?_
  exact (probe_takes hr).bind fun _ => (takes_load .dispatch hr).bind fun _ => .ret _

theorem cudaState_takes (hr : r ≤ 6) : Takes r (cudaState ctx) := by
  refine .under hr (fun t => ?_) fun t e t' h => ?_
  · split
    · exact .ret _
    · exact (TakesFrom.call _).bind fun _ => .ret _
  · split at h
    · next e' he =>
      obtain ⟨_, rfl⟩ := Prod.mk.inj h.1
      refine ⟨ctx, (.success, 0), ?_⟩
      rw [SideTable.state, he]
    · obtain ⟨retain, _, h⟩ := h.of_bind
      exact ⟨ctx, retain, congrArg Prod.snd h.1⟩

theorem lookTimes_takes (n : ℕ) (hr : r ≤ 6) : Takes r (lookTimes ctx n) := by
  induction n with
  | zero => exact .ret _
  | succ n ih => exact (cudaState_takes ctx hr).bind fun _ => ih

theorem metalState_takes (hr : r ≤ 6) : Takes r (metalState ctx) := by
  refine .under hr (fun t => ?_) fun t e t' h => ?_
  · split
    · exact .ret _
    · exact (TakesFrom.call _).bind fun _ =>
        takes_ite (.ret _) ((TakesFrom.call _).bind fun _ => .ret _)
  · split at h
    · exact .inl (congrArg Prod.snd h.1)
    · next hnone =>
      obtain ⟨device, _, h⟩ := h.of_bind
      split at h
      · exact .inl (congrArg Prod.snd h.1)
      · obtain ⟨queue, _, h⟩ := h.of_bind
        exact .inr ⟨ctx, _, hnone, congrArg Prod.snd h.1⟩

theorem cuda_takes (b : Ptr) (c : BackendFunction) (hr : r ≤ 6) : Takes r (cuda b ctx c) :=
  (lookTimes_takes ctx _ hr).bind fun _ => .call _

theorem metalAlloc_takes (b : Ptr) (bytes : UInt64) (hr : r ≤ 6) :
    Takes r (metalAlloc b ctx bytes) := by
  refine (metalState_takes ctx hr).bind fun s => takes_ite (.ret _) ?_
  refine (TakesFrom.call _).bind fun ⟨s, buf⟩ => takes_ite (.ret _) ?_
  have hbuffers : r ≤ Mutex.rank (.buffers ctx) := Nat.le_succ_of_le hr
  exact (takes_update hbuffers fun _ => .inr (.inl ⟨buf, rfl⟩)).bind fun _ => .ret _

theorem metalFree_takes (p : Ptr) (hr : r ≤ 6) : Takes r (metalFree ctx p) := by
  refine (metalState_takes ctx hr).bind fun s => takes_ite (.ret _) ?_
  have hbuffers : r ≤ Mutex.rank (.buffers ctx) := Nat.le_succ_of_le hr
  refine .under hbuffers (fun l => takes_ite (.ret _) (.ret _)) fun l a l' h => ?_
  split at h
  · exact .inr (.inr ⟨p, congrArg Prod.snd h.1⟩)
  · exact .inl (congrArg Prod.snd h.1)

theorem metal_takes (b : Ptr) (c : BackendFunction) (hr : r ≤ 6) : Takes r (metal b ctx c) := by
  unfold metal
  split
  · exact metalAlloc_takes ctx b _ hr
  · exact metalFree_takes ctx _ hr
  · exact (takes_when ((metalState_takes ctx hr).bind fun _ => .ret _)).bind fun _ => .call _

theorem dispatch_takes (c : BackendFunction) (hr : r ≤ 5) : Takes r (dispatch ctx c) := by
  refine (backend_takes hr).bind fun b => ?_
  have hbackend : r ≤ 6 := Nat.le_succ_of_le hr
  cases b with
  | none => exact .ret _
  | some b =>
    exact (TakesFrom.call _).bind fun v =>
      takes_ite (cuda_takes ctx b c hbackend) (metal_takes ctx b c hbackend)

theorem platform_takes (hr : r ≤ 5) (c : PlatformCall) : Takes r (platform ctx c) := by
  unfold platform
  split
  · exact probe_takes hr
  · exact dispatch_takes ctx _ hr

end Platform

section Kernel

theorem kernelCall_takes (hr : r ≤ 3) (c : MicroKernelCall) : Takes r (kernelCall ctx c) := by
  have hplatform : r ≤ 5 := by omega
  cases c with
  | loadModule name source =>
    exact .under hr (fun _ => .interp (platform_takes ctx (Nat.le_succ 4)) _)
      fun _ a _ h => .inl ⟨.loadModule name source, a, h.of_interp⟩
  | acquireStream klass priority =>
    exact takes_update hr fun m =>
      .inl ⟨.acquireStream klass priority, (m.acquireStream klass priority).1, rfl⟩
  | releaseStream h =>
    exact takes_ite (.ret _) (takes_update hr fun m => .inl ⟨.releaseStream h, (), rfl⟩)
  | launch moduleName functionName grid block sharedMemBytes stream kernelArgs =>
    refine (takes_read hr).bind fun found => ?_
    split
    · exact .ret _
    · split
      · exact .ret _
      · exact platform_takes ctx hplatform _
  | syncStream h => exact platform_takes ctx hplatform (.syncStream h.raw)

theorem findModule_takes (name : String) (hr : r ≤ 3) : Takes r (findModule ctx name) :=
  takes_read hr

theorem drainStreams_takes (hr : r ≤ 3) : Takes r (drainStreams ctx) := by
  refine .under hr (fun m => ?_) fun m a m' h => ?_
  · exact (TakesFrom.interp (platform_takes ctx (Nat.le_succ 4)) _).bind fun _ => .ret _
  · obtain ⟨drained, hdrain, h⟩ := h.of_bind
    obtain ⟨_, rfl⟩ := Prod.mk.inj h.1
    exact .inr hdrain.of_interp

theorem syncEach_takes (v : List StreamHandle) (hr : r ≤ 5) : Takes r (syncEach ctx v) := by
  induction v with
  | nil => exact .ret _
  | cons h v ih => exact (platform_takes ctx hr _).bind fun _ => takes_ite (.ret _) ih

theorem syncAll_takes (hr : r ≤ 3) : Takes r (syncAll ctx) := by
  have heach (v : List StreamHandle) : Takes 4 (syncEach ctx v) :=
    syncEach_takes ctx v (Nat.le_succ 4)
  refine .reading hr fun m => ?_
  refine (heach _).bind fun _ => takes_ite (.ret _) ?_
  refine (heach _).bind fun _ => takes_ite (.ret _) ?_
  exact (heach _).bind fun _ => takes_ite (.ret _) (.ret _)

end Kernel

section Ilc

theorem ilcEnable_takes (d : DeviceDesc) : Takes r (ilcEnable ctx d) :=
  takes_ite (.ret _) ((TakesFrom.call _).bind fun _ => .ret _)

theorem ilcDisable_takes (hr : r ≤ 3) : Takes r (ilcDisable ctx) := by
  refine (TakesFrom.call _).bind fun _ => takes_ite (.ret _) ?_
  refine .underThen hr (fun tagged => ?_) (fun _ => (TakesFrom.call _).bind fun _ => .ret _)
    fun tagged a tagged' h => ?_
  · exact (takes_forM fun h => (platform_takes ctx (Nat.le_succ 4) _).bind fun _ => .ret _).bind
      fun _ => .ret _
  · obtain ⟨_, _, h⟩ := h.of_bind
    obtain rfl : tagged' = .empty := congrArg Prod.snd h.1
    exact evolves_disable ctx tagged

theorem ilcTag_takes (allocHandle : Ptr) (bytes : UInt64) (hr : r ≤ 3) :
    Takes r (ilcTag ctx allocHandle bytes) := by
  refine (TakesFrom.call _).bind fun _ => takes_ite (.ret _) ?_
  refine (platform_takes ctx (by omega) _).bind fun _ => takes_ite (.ret _) ?_
  have hinsert : Takes r (under (.ilc ctx) fun tagged => .ret ((), tagged.insert allocHandle ())) :=
    takes_update hr fun tagged => evolves_tag ctx tagged allocHandle
  refine hinsert.bind fun _ => ?_
  exact (TakesFrom.call _).bind fun _ => (TakesFrom.call _).bind fun _ => .ret _

theorem ilcUntag_takes (allocHandle : Ptr) (hr : r ≤ 3) : Takes r (ilcUntag ctx allocHandle) := by
  refine (TakesFrom.call _).bind fun _ => takes_ite (.ret _) ?_
  refine .under hr (fun tagged => takes_ite (.ret _) ?_) fun tagged a tagged' h => ?_
  · exact (platform_takes ctx (Nat.le_succ 4) _).bind fun _ => .ret _
  · have huntag := evolves_untag ctx tagged allocHandle
    cases hcontains : tagged.contains allocHandle with
    | false =>
      simp only [hcontains] at h huntag
      obtain rfl : tagged' = tagged := congrArg Prod.snd h.1
      exact huntag
    | true =>
      simp only [hcontains] at h huntag
      obtain ⟨s, _, h⟩ := Yields.of_bind h
      obtain rfl : tagged' = tagged.erase allocHandle := congrArg Prod.snd h.1
      exact huntag

end Ilc

section Tma

theorem tmaCall_takes (c : TmaCall) : Takes 4 (tmaCall ctx c) :=
  dispatch_takes ctx _ (Nat.le_succ 4)

theorem tmaEncode_takes (key : String) (a : EncodeArgs) (hr : r ≤ 3) :
    Takes r (tmaEncode ctx key a) :=
  .under hr (fun _ => .interp (tmaCall_takes ctx) _)
    fun _ out _ h => .inl ⟨key, a, out, h.of_interp⟩

theorem tmaLookup_takes (key : String) (hr : r ≤ 3) : Takes r (tmaLookup ctx key) := takes_read hr

theorem tmaInvalidate_takes (key : String) (hr : r ≤ 3) : Takes r (tmaInvalidate ctx key) := by
  refine .under hr (fun e => (TakesFrom.interp (tmaCall_takes ctx) _).bind fun _ => .ret _) ?_
  intro e a e' h
  obtain ⟨kept, hkept, h⟩ := h.of_bind
  obtain ⟨_, rfl⟩ := Prod.mk.inj h.1
  exact .inr ⟨key, hkept.of_interp⟩

theorem tmaDestructor_takes (hr : r ≤ 3) : Takes r (tmaDestructor ctx) :=
  .reading hr fun _ => .interp (tmaCall_takes ctx) _

end Tma

section Memory

theorem pageCall_takes (c : PageCall) (hr : r ≤ 3) : Takes r (pageCall ctx c) :=
  takes_update hr fun _ => ⟨c, rfl⟩

theorem pageRead_takes (f : PageTableManager → α) (hr : r ≤ 3) : Takes r (pageRead ctx f) :=
  takes_read hr

theorem tagIlc_takes (out : Allocation) (hr : r ≤ 3) : Takes r (tagIlc ctx out) := by
  refine takes_ite (.ret _) ((TakesFrom.call _).bind fun _ => takes_ite (.ret _) ?_)
  refine (TakesFrom.call _).bind fun _ => takes_ite (.ret _) ?_
  exact (ilcTag_takes ctx _ _ hr).bind fun _ => .ret _

theorem advise_takes (hints : AllocHints) (hbm : Ptr) (bytes : UInt64) (later : UInt64 → UInt64)
    (hr : r ≤ 3) : Takes r (advise ctx hints hbm bytes later) :=
  takes_ite (.ret _) (pageCall_takes ctx _ hr)

theorem alloc_takes (bytes : UInt64) (hints : AllocHints) (out : Allocation)
    (now later : UInt64 → UInt64) (hr : r ≤ 2) : Takes r (alloc ctx bytes hints out now later) := by
  have hinner : r ≤ 3 := Nat.le_succ_of_le hr
  rw [alloc]
  split
  · exact .ret _
  · next hbytes =>
    refine (platform_takes ctx (by omega) _).bind fun ⟨s, hbm⟩ => ?_
    dsimp only
    cases hs : ok s with
    | false => exact .ret _
    | true =>
      refine (tagIlc_takes ctx _ hinner).bind_yields fun a htag => ?_
      refine (pageCall_takes ctx _ hinner).bind fun _ => ?_
      refine (advise_takes ctx _ _ _ _ hinner).bind fun _ => ?_
      have hrecord : Takes r (under (.memory ctx) fun w => .ret ((), {
          live := w.live.insert hbm a
          bytesAllocated := w.bytesAllocated + bytes })) :=
        takes_update hr (evolves_alloc ctx now later hbytes hs htag)
      exact hrecord.bind fun _ => .ret _

theorem untagIlc_takes (a : Allocation) (hr : r ≤ 3) : Takes r (untagIlc ctx a) := by
  refine takes_ite (.ret _) ((TakesFrom.call _).bind fun _ => takes_ite (.ret _) ?_)
  exact (ilcUntag_takes ctx _ hr).bind fun _ => .ret _

theorem free_takes (a : Allocation) (hr : r ≤ 2) : Takes r (free ctx a) := by
  refine .under hr (fun w => ?_) fun w s w' h => ?_
  · split
    · exact .ret _
    · refine (untagIlc_takes ctx a (Nat.le_refl 3)).bind fun _ => ?_
      refine (pageCall_takes ctx _ (Nat.le_refl 3)).bind fun _ => ?_
      exact (platform_takes ctx (by omega) _).bind fun _ => takes_ite (.ret _) (.ret _)
  · split at h
    · next hnone =>
      obtain rfl : w' = w := congrArg Prod.snd h.1
      exact evolves_refuse ctx hnone
    · next found hfound =>
      obtain ⟨_, _, h⟩ := h.of_bind
      obtain ⟨_, _, h⟩ := h.of_bind
      obtain ⟨s', _, h⟩ := h.of_bind
      have hfree := evolves_free ctx hfound s'
      cases hs : ok s' with
      | false =>
        rw [hs] at h hfree
        obtain rfl : w' = w := congrArg Prod.snd h.1
        exact hfree
      | true =>
        rw [hs] at h hfree
        obtain rfl := congrArg Prod.snd h.1
        exact hfree

theorem bytesAllocated_takes (hr : r ≤ 2) : Takes r (bytesAllocated ctx) := takes_read hr

theorem releaseEach_takes (as : List Allocation) : Takes 3 (releaseEach ctx as) := by
  induction as with
  | nil => exact .ret _
  | cons a as ih =>
    refine (takes_when ((platform_takes ctx (by omega) _).bind fun _ => .ret _)).bind fun _ => ?_
    exact (untagIlc_takes ctx a (Nat.le_refl 3)).bind fun _ => ih

theorem memoryDestructor_takes (hr : r ≤ 2) : Takes r (memoryDestructor ctx) := by
  refine TakesFrom.bind ?_ fun _ => pageCall_takes ctx _ (Nat.le_succ_of_le hr)
  refine .under hr (fun w => (releaseEach_takes ctx _).bind fun _ => .ret _) fun w a w' h => ?_
  obtain ⟨_, _, h⟩ := h.of_bind
  obtain rfl := congrArg Prod.snd h.1
  exact evolves_destructor ctx w

theorem prefetch_takes (hbmPtr : Ptr) (bytes : UInt64) (hr : r ≤ 5) :
    Takes r (prefetch ctx hbmPtr bytes) := dispatch_takes ctx _ hr

end Memory

section Graph

variable (dev : DeviceDesc) (g : Ptr)

theorem graphCall_takes (hr : r ≤ 1) (c : GraphCall) : Takes r (graphCall dev ctx g c) := by
  cases c with
  | addStage c =>
    exact takes_ite (.ret _) (takes_update hr fun t => ⟨dev, .addStage c, (t.addStage c).1, rfl⟩)
  | loadValidated => exact (takes_load (.graph g) hr).bind fun _ => .ret _
  | validate => exact takes_update hr fun t => ⟨dev, .validate, (t.validate dev).1, rfl⟩
  | launchReady =>
    refine .under hr (fun t => ?_) fun t s t' h => ?_
    · exact (TakesFrom.interp (kernelCall_takes ctx (Nat.le_succ 2)) _).bind fun _ => .ret _
    · obtain ⟨r, hlaunch, h⟩ := h.of_bind
      cases r with
      | none =>
        obtain ⟨_, rfl⟩ := Prod.mk.inj h.1
        exact ⟨dev, .loadValidated, _, rfl, rfl⟩
      | some r =>
        obtain rfl : (s, t') = r := h.1
        exact ⟨dev, .launchReady, s, _, hlaunch.of_interp⟩

theorem run_takes (hr : r ≤ 1) : Takes r (run dev ctx g) := .interp (graphCall_takes ctx dev g hr) _

theorem wait_takes (name : String) (timeoutMs : UInt32) (hr : r ≤ 1) :
    Takes r (wait g name timeoutMs) := takes_read hr

theorem waitEach_takes (timeoutMs : UInt32) (ks : List String) (hr : r ≤ 1) :
    Takes r (waitEach g timeoutMs ks) := by
  induction ks with
  | nil => exact .ret _
  | cons k ks ih => exact (wait_takes g k timeoutMs hr).bind fun _ => takes_ite (.ret _) ih

theorem waitAll_takes (timeoutMs : UInt32) (hr : r ≤ 1) : Takes r (waitAll g timeoutMs) :=
  (takes_load (.graph g) hr).bind fun _ => waitEach_takes g timeoutMs _ hr

theorem setOverlap_takes (a b : String) (enable : Bool) (hr : r ≤ 1) :
    Takes r (setOverlap g a b enable) := .within hr (.ret _)

theorem graphRead_takes (f : TaskGraph → α) (hr : r ≤ 1) : Takes r (graphRead g f) := takes_read hr

theorem graphDestructor_takes (hr : r ≤ 1) : Takes r (graphDestructor ctx g) :=
  .reading hr fun _ => .interp (kernelCall_takes ctx (Nat.le_succ 2)) _

end Graph

section Faults

theorem injectFetchHint_takes (vaddr bytes : UInt64) (hr : r ≤ 3) :
    Takes r (injectFetchHint ctx vaddr bytes) :=
  .within hr (dispatch_takes ctx _ (Nat.le_succ 4))

theorem faultCall_takes (slots : UInt32) (hr : r ≤ 4) (c : FaultCall) :
    Takes r (faultCall ctx slots c) := by
  have hplatform : r ≤ 5 := Nat.le_succ_of_le hr
  unfold faultCall
  split
  · exact platform_takes ctx hplatform (.allocHbm _)
  · exact platform_takes ctx hplatform (.freeHbm _)
  · exact platform_takes ctx hplatform (.installFaultBuffer _ _)
  · exact platform_takes ctx hplatform (.uninstallFaultBuffer _)
  · exact .fork hr
  · exact .join hr
  · exact .call _

theorem uninstall_takes (slots : UInt32) (hr : r ≤ 4) : Takes r (uninstall ctx slots) :=
  .interp (faultCall_takes ctx slots hr) _

theorem install_takes (d : DeviceDesc) (slots : UInt32) (hr : r ≤ 4) :
    Takes r (install ctx d slots) := .interp (faultCall_takes ctx slots hr) _

theorem pollSlot_takes (i : ℕ) (hr : r ≤ 5) : Takes r (pollSlot ctx i) := by
  refine (TakesFrom.call _).bind fun pending => ?_
  cases pending with
  | none => exact .ret _
  | some faultingAddr => exact (dispatch_takes ctx _ hr).bind fun _ => .call _

theorem pollRounds_takes (slots : UInt32) (n : ℕ) (hr : r ≤ 5) :
    Takes r (pollRounds ctx slots n) := by
  induction n with
  | zero => exact .ret _
  | succ n ih =>
    refine (TakesFrom.call _).bind fun _ => takes_ite (.ret _) ?_
    exact (takes_forM fun i => pollSlot_takes ctx i hr).bind fun _ => ih

theorem pollLoop_takes (hr : r ≤ 5) : Takes r (pollLoop ctx) :=
  (TakesFrom.call _).bind fun slots => (TakesFrom.call _).bind fun n => pollRounds_takes ctx slots n hr

theorem work_respects (m : Mutex) : Respects MutexOp.after (MutexOp.Orderly Mutex.rank Evolves) (work m)
    ({ held := [m] } : Grip Mutex.State) (fun _ l => l.held = []) := by
  refine TakesFrom.worker ?_
  cases m with
  | poller ctx => exact pollLoop_takes ctx (Nat.le_refl 5)
  | _ => exact .ret ()

end Faults

section Tokens

variable (s : Ptr)

theorem scopeCall_takes (topk : List UInt32) (hr : r ≤ 3) (c : ScopeCall) :
    Takes r (scopeCall ctx topk c) := by
  unfold scopeCall
  split
  · exact .ret _
  · exact injectFetchHint_takes ctx _ _ hr

theorem setLayer_takes (l : IcmLayer) (spec : LayerSpec) (hr : r ≤ 2) :
    Takes r (setLayer s l spec) :=
  takes_update hr fun _ => .inl ⟨l, spec, rfl⟩

theorem step_takes (generatedSoFar : UInt32) (hr : r ≤ 2) : Takes r (step s generatedSoFar) :=
  takes_update hr fun _ => .inr (.inl ⟨generatedSoFar, rfl⟩)

theorem bindKvCache_takes (kv : Ptr) (bytes : UInt64) (maxRes : UInt32) (hr : r ≤ 2) :
    Takes r (bindKvCache s kv bytes maxRes) :=
  takes_update hr fun _ => .inr (.inr (.inl ⟨kv, bytes, maxRes, rfl⟩))

theorem prune_takes (maxRes : UInt32) (hr : r ≤ 2) : Takes r (prune s maxRes) := by
  refine (takes_load (.scope s) hr).bind fun _ => takes_ite (.ret _) ?_
  exact takes_update hr fun _ => .inr (.inr (.inr ⟨maxRes, rfl⟩))

theorem prefetchAttention_takes (topk : List UInt32) (k : UInt32) (hr : r ≤ 2) :
    Takes r (prefetchAttention ctx s topk k) := by
  refine (takes_load (.scope s) hr).bind fun _ => takes_ite (.ret _) (.reading hr fun c => ?_)
  exact (TakesFrom.interp (scopeCall_takes ctx topk (Nat.le_refl 3)) _).bind fun _ => .ret _

theorem scopeRead_takes (f : ContextScope → α) (hr : r ≤ 2) : Takes r (scopeRead s f) :=
  takes_read hr

theorem observe_takes (p : Ptr) (hr : r ≤ 1) : Takes r (observe p) := .within hr (.call _)

theorem prefetchNext_takes (p : Ptr) (k : UInt32) (hr : r ≤ 1) :
    Takes r (prefetchNext ctx p s k) := by
  refine .within hr ((TakesFrom.call _).bind fun idx => ?_)
  cases idx with
  | none => exact .ret _
  | some idx => exact prefetchAttention_takes ctx s idx _ (Nat.le_refl 2)

end Tokens

section Contexts

theorem transfer_takes (hr : r ≤ 5) (c : TransferCall) : Takes r (transfer ctx c) := by
  cases c with
  | platform c => exact platform_takes ctx hr c
  | dmaSubmit q => exact dispatch_takes ctx (.dmaSubmit q) hr
  | dmaWait event timeoutMs => exact dispatch_takes ctx (.dmaWait event timeoutMs) hr
  | gdsReadFallback path off dst bytes =>
    exact dispatch_takes ctx (.gdsReadFallback path off dst bytes) hr
  | gdsWriteFallback path off src bytes =>
    exact dispatch_takes ctx (.gdsWriteFallback path off src bytes) hr

theorem memory_takes (hr : r ≤ 0) : Takes r (memory ctx) := by
  refine takes_update hr fun h => ?_
  dsimp only
  split
  · exact .inl rfl
  · exact .inr (.inl ⟨ctx, rfl⟩)

theorem uninstallFaults_takes (faults : Option UInt32) (hr : r ≤ 4) :
    Takes r (uninstallFaults ctx faults) := by
  cases faults with
  | none => exact .ret _
  | some slots => exact uninstall_takes ctx slots hr

theorem closeDma_takes (dma : Option DmaEngine) (hr : r ≤ 5) : Takes r (closeDma ctx dma) := by
  cases dma with
  | none => exact .ret _
  | some e => exact (TakesFrom.interp (platform_takes ctx hr) _).bind fun _ => .ret _

theorem closeIlc_takes (there : Bool) (hr : r ≤ 3) : Takes r (closeIlc ctx there) :=
  takes_when ((ilcDisable_takes ctx hr).bind fun _ => .ret _)

theorem closeKernel_takes (there : Bool) (hr : r ≤ 3) : Takes r (closeKernel ctx there) :=
  takes_when ((drainStreams_takes ctx hr).bind fun _ => .ret _)

theorem shutdown_takes (hr : r ≤ 3) : Takes r (shutdown ctx) := by
  have hplatform : r ≤ 5 := by omega
  refine (TakesFrom.call _).bind fun sub => ?_
  refine (uninstallFaults_takes ctx _ (Nat.le_succ_of_le hr)).bind fun last => ?_
  refine (closeKernel_takes ctx _ hr).bind fun _ => ?_
  refine (closeDma_takes ctx _ hplatform).bind fun _ => ?_
  refine (closeIlc_takes ctx _ hr).bind fun _ => ?_
  exact (platform_takes ctx hplatform _).bind fun _ => .ret _

theorem destroyContext_takes (hr : r ≤ 2) : Takes r (destroyContext ctx) := by
  have hclose : r ≤ 3 := Nat.le_succ_of_le hr
  have hplatform : r ≤ 5 := by omega
  refine (TakesFrom.call _).bind fun sub => ?_
  refine (takes_when (memoryDestructor_takes ctx hr)).bind fun _ => ?_
  refine (closeIlc_takes ctx _ hclose).bind fun _ => ?_
  refine (uninstallFaults_takes ctx _ (Nat.le_succ_of_le hclose)).bind fun _ => ?_
  refine (takes_when (tmaDestructor_takes ctx hclose)).bind fun _ => ?_
  exact (closeDma_takes ctx _ hplatform).bind fun _ => closeKernel_takes ctx _ hclose

theorem drop_takes (sp : ContextRef) (hr : r ≤ 2) : Takes r (drop sp) :=
  (TakesFrom.call _).bind fun _ => takes_when (destroyContext_takes _ hr)

theorem registerHandle_takes (k : Ptr) (sp : ContextRef) (hr : r ≤ 0) :
    Takes r (registerHandle k sp) := by
  refine .under hr (fun h => ?_) fun h a h' hyields => ?_
  · split
    · exact .ret _
    · exact (drop_takes _ (Nat.le_succ 1)).bind fun _ => .ret _
  · split at hyields
    · exact .inr (.inr (.inl ⟨k, sp, congrArg Prod.snd hyields.1⟩))
    · obtain ⟨_, _, hyields⟩ := hyields.of_bind
      exact .inr (.inr (.inl ⟨k, sp, congrArg Prod.snd hyields.1⟩))

theorem lookupHandle_takes (k : Ptr) (hr : r ≤ 0) : Takes r (lookupHandle k) := takes_read hr

theorem takeHandle_takes (k : Ptr) (hr : r ≤ 0) : Takes r (takeHandle k) :=
  takes_update hr fun _ => .inr (.inr (.inr ⟨k, rfl⟩))

theorem bootCall_takes (hr : r ≤ 4) (c : PlatformCall) : Takes r (bootCall ctx c) := by
  have hplatform : r ≤ 5 := Nat.le_succ_of_le hr
  unfold bootCall
  split
  · refine (platform_takes ctx hplatform (.installFaultBuffer _ _)).bind fun _ => ?_
    refine (TakesFrom.call _).bind fun _ => ?_
    exact (TakesFrom.fork (m := Mutex.poller ctx) hr).bind fun _ => .ret _
  · exact platform_takes ctx hplatform _

theorem boot_takes (opts : BootOptions) (hr : r ≤ 2) : Takes r (boot ctx opts) := by
  have hcall : r ≤ 4 := by omega
  refine (TakesFrom.interp (bootCall_takes ctx hcall) _).bind fun ⟨result, _⟩ => ?_
  exact (takes_when (destroyContext_takes ctx hr)).bind fun _ => .ret _

end Contexts

end Takes

end NexusRT.Runtime

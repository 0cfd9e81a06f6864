import NexusRT.Runtime.LockOrder

namespace NexusRT.Runtime

open Firmware Interleave Memory Prog Relation Scheduler TokenOpt

inductive Client : {α : Type} → RuntimeProg α → Prop
  | ret {α : Type} (a : α) : Client (.ret a)
  | bind {α β : Type} (p : RuntimeProg α) (f : α → RuntimeProg β) (hp : Client p)
      (hf : ∀ a, Client (f a)) : Client (p >>= f)
  | registerBackend (v : Vendor) (impl : Ptr) : Client (registerBackend v impl)
  | probe : Client probe
  | boot (ctx : Ptr) (opts : BootOptions) : Client (boot ctx opts)
  | shutdown (ctx : Ptr) : Client (shutdown ctx)
  | registerHandle (k : Ptr) (sp : ContextRef) : Client (registerHandle k sp)
  | lookupHandle (k : Ptr) : Client (lookupHandle k)
  | takeHandle (k : Ptr) : Client (takeHandle k)
  | drop (sp : ContextRef) : Client (drop sp)
  | memory (ctx : Ptr) : Client (memory ctx)
  | kernelCall (ctx : Ptr) (c : MicroKernelCall) : Client (kernelCall ctx c)
  | findModule (ctx : Ptr) (name : String) : Client (findModule ctx name)
  | drainStreams (ctx : Ptr) : Client (drainStreams ctx)
  | syncAll (ctx : Ptr) : Client (syncAll ctx)
  | ilcEnable (ctx : Ptr) (d : DeviceDesc) : Client (ilcEnable ctx d)
  | ilcDisable (ctx : Ptr) : Client (ilcDisable ctx)
  | ilcTag (ctx allocHandle : Ptr) (bytes : UInt64) : Client (ilcTag ctx allocHandle bytes)
  | ilcUntag (ctx allocHandle : Ptr) : Client (ilcUntag ctx allocHandle)
  | tmaEncode (ctx : Ptr) (key : String) (a : EncodeArgs) : Client (tmaEncode ctx key a)
  | tmaLookup (ctx : Ptr) (key : String) : Client (tmaLookup ctx key)
  | tmaInvalidate (ctx : Ptr) (key : String) : Client (tmaInvalidate ctx key)
  | tmaDestructor (ctx : Ptr) : Client (tmaDestructor ctx)
  | dispatch (ctx : Ptr) (c : BackendFunction) : Client (dispatch ctx c)
  | dma (ctx : Ptr) (e : DmaEngine) (c : DmaCall) : Client ((c.run e).interp (transfer ctx))
  | pageCall (ctx : Ptr) (c : PageCall) : Client (pageCall ctx c)
  | pageRead {α : Type} (ctx : Ptr) (f : PageTableManager → α) : Client (pageRead ctx f)
  | alloc (ctx : Ptr) (bytes : UInt64) (hints : AllocHints) (out : Allocation)
      (now later : UInt64 → UInt64) : Client (alloc ctx bytes hints out now later)
  | free (ctx : Ptr) (a : Allocation) : Client (free ctx a)
  | bytesAllocated (ctx : Ptr) : Client (bytesAllocated ctx)
  | memoryDestructor (ctx : Ptr) : Client (memoryDestructor ctx)
  | prefetch (ctx hbmPtr : Ptr) (bytes : UInt64) : Client (prefetch ctx hbmPtr bytes)
  | graphCall (dev : DeviceDesc) (ctx g : Ptr) (c : GraphCall) : Client (graphCall dev ctx g c)
  | run (dev : DeviceDesc) (ctx g : Ptr) : Client (run dev ctx g)
  | wait (g : Ptr) (name : String) (timeoutMs : UInt32) : Client (wait g name timeoutMs)
  | waitAll (g : Ptr) (timeoutMs : UInt32) : Client (waitAll g timeoutMs)
  | setOverlap (g : Ptr) (a b : String) (enable : Bool) : Client (setOverlap g a b enable)
  | graphRead {α : Type} (g : Ptr) (f : TaskGraph → α) : Client (graphRead g f)
  | graphDestructor (ctx g : Ptr) : Client (graphDestructor ctx g)
  | injectFetchHint (ctx : Ptr) (vaddr bytes : UInt64) : Client (injectFetchHint ctx vaddr bytes)
  | install (ctx : Ptr) (d : DeviceDesc) (slots : UInt32) : Client (install ctx d slots)
  | uninstall (ctx : Ptr) (slots : UInt32) : Client (uninstall ctx slots)
  | setLayer (s : Ptr) (l : IcmLayer) (spec : LayerSpec) : Client (setLayer s l spec)
  | step (s : Ptr) (generatedSoFar : UInt32) : Client (step s generatedSoFar)
  | bindKvCache (s kv : Ptr) (bytes : UInt64) (maxRes : UInt32) :
      Client (bindKvCache s kv bytes maxRes)
  | prune (s : Ptr) (maxRes : UInt32) : Client (prune s maxRes)
  | prefetchAttention (ctx s : Ptr) (topk : List UInt32) (k : UInt32) :
      Client (prefetchAttention ctx s topk k)
  | scopeRead {α : Type} (s : Ptr) (f : ContextScope → α) : Client (scopeRead s f)
  | observe (p : Ptr) : Client (observe p)
  | prefetchNext (ctx p s : Ptr) (k : UInt32) : Client (prefetchNext ctx p s k)

theorem Client.takes {α : Type} {p : RuntimeProg α} (h : Client p) : Takes 0 p := by
  induction h with
  | ret a => exact .ret a
  | bind p f _ _ hp hf => exact hp.bind hf
  | registerBackend v impl => exact registerBackend_takes v impl (Nat.zero_le _)
  | probe => exact probe_takes (Nat.zero_le _)
  | boot ctx opts => exact boot_takes ctx opts (Nat.zero_le _)
  | shutdown ctx => exact shutdown_takes ctx (Nat.zero_le _)
  | registerHandle k sp => exact registerHandle_takes k sp (Nat.zero_le _)
  | lookupHandle k => exact lookupHandle_takes k (Nat.zero_le _)
  | takeHandle k => exact takeHandle_takes k (Nat.zero_le _)
  | drop sp => exact drop_takes sp (Nat.zero_le _)
  | memory ctx => exact memory_takes ctx (Nat.zero_le _)
  | kernelCall ctx c => exact kernelCall_takes ctx (Nat.zero_le _) c
  | findModule ctx name => exact findModule_takes ctx name (Nat.zero_le _)
  | drainStreams ctx => exact drainStreams_takes ctx (Nat.zero_le _)
  | syncAll ctx => exact syncAll_takes ctx (Nat.zero_le _)
  | ilcEnable ctx d => exact ilcEnable_takes ctx d
  | ilcDisable ctx => exact ilcDisable_takes ctx (Nat.zero_le _)
  | ilcTag ctx h bytes => exact ilcTag_takes ctx h bytes (Nat.zero_le _)
  | ilcUntag ctx h => exact ilcUntag_takes ctx h (Nat.zero_le _)
  | tmaEncode ctx key a => exact tmaEncode_takes ctx key a (Nat.zero_le _)
  | tmaLookup ctx key => exact tmaLookup_takes ctx key (Nat.zero_le _)
  | tmaInvalidate ctx key => exact tmaInvalidate_takes ctx key (Nat.zero_le _)
  | tmaDestructor ctx => exact tmaDestructor_takes ctx (Nat.zero_le _)
  | dispatch ctx c => exact dispatch_takes ctx c (Nat.zero_le _)
  | dma ctx e c => exact .interp (transfer_takes ctx (Nat.zero_le _)) _
  | pageCall ctx c => exact pageCall_takes ctx c (Nat.zero_le _)
  | pageRead ctx f => exact pageRead_takes ctx f (Nat.zero_le _)
  | alloc ctx bytes hints out now later =>
    exact alloc_takes ctx bytes hints out now later (Nat.zero_le _)
  | free ctx a => exact free_takes ctx a (Nat.zero_le _)
  | bytesAllocated ctx => exact bytesAllocated_takes ctx (Nat.zero_le _)
  | memoryDestructor ctx => exact memoryDestructor_takes ctx (Nat.zero_le _)
  | prefetch ctx p bytes => exact prefetch_takes ctx p bytes (Nat.zero_le _)
  | graphCall dev ctx g c => exact graphCall_takes ctx dev g (Nat.zero_le _) c
  | run dev ctx g => exact run_takes ctx dev g (Nat.zero_le _)
  | wait g name timeoutMs => exact wait_takes g name timeoutMs (Nat.zero_le _)
  | waitAll g timeoutMs => exact waitAll_takes g timeoutMs (Nat.zero_le _)
  | setOverlap g a b enable => exact setOverlap_takes g a b enable (Nat.zero_le _)
  | graphRead g f => exact graphRead_takes g f (Nat.zero_le _)
  | graphDestructor ctx g => exact graphDestructor_takes ctx g (Nat.zero_le _)
  | injectFetchHint ctx vaddr bytes => exact injectFetchHint_takes ctx vaddr bytes (Nat.zero_le _)
  | install ctx d slots => exact install_takes ctx d slots (Nat.zero_le _)
  | uninstall ctx slots => exact uninstall_takes ctx slots (Nat.zero_le _)
  | setLayer s l spec => exact setLayer_takes s l spec (Nat.zero_le _)
  | step s n => exact step_takes s n (Nat.zero_le _)
  | bindKvCache s kv bytes maxRes => exact bindKvCache_takes s kv bytes maxRes (Nat.zero_le _)
  | prune s maxRes => exact prune_takes s maxRes (Nat.zero_le _)
  | prefetchAttention ctx s topk k => exact prefetchAttention_takes ctx s topk k (Nat.zero_le _)
  | scopeRead s f => exact scopeRead_takes s f (Nat.zero_le _)
  | observe p => exact observe_takes p (Nat.zero_le _)
  | prefetchNext ctx p s k => exact prefetchNext_takes ctx s p k (Nat.zero_le _)

abbrev RuntimePool := MutexPool Mutex.State RuntimeOp.Answer

abbrev AnyRun : RuntimePool → RuntimePool → Prop := MutexRun (fun p : RuntimeProg Unit => Client p) work

/-- Nobody is there yet; `init` is what the boots leave. -/
def start (init : (m : Mutex) → m.State) : RuntimePool := ⟨⟨fun _ => false, init⟩, []⟩

theorem AnyRun.inOrder {init : (m : Mutex) → m.State} {p : RuntimePool}
    (h : AnyRun (start init) p) : InOrder Mutex.rank Evolves init p :=
  MutexRun.inOrder (fun _ hp => hp.takes) work_respects h (inOrder_empty init)

def silent : (o : RuntimeOp) → o.Answer
  | .vendor _ => .unknown
  | .probe _ => false
  | .work _ _ c => nullPlatform c
  | .retainContext => (.success, 0)
  | .createSystemDefaultDevice => (0 : Ptr)
  | .newCommandQueue _ => (0 : Ptr)
  | .subsystems _ => ⟨false, none, false, none, false, false⟩
  | .lastPointer _ => false
  | .loadEnabled _ => false
  | .storeEnabled _ _ => ()
  | .addBytes _ _ => ()
  | .addAlloc _ => ()
  | .fault _ (.allocHbm _) => (.outOfMemory, (0 : Ptr))
  | .fault _ (.freeHbm _) => Status.ok
  | .fault _ .loadBuffer => (0 : Ptr)
  | .fault _ (.storeBuffer _) => ()
  | .fault _ (.memset _) => ()
  | .fault _ (.installFaultBuffer _) => Status.ok
  | .fault _ (.uninstallFaultBuffer _) => Status.ok
  | .fault _ (.storeStop _) => ()
  | .fault _ .start => ()
  | .fault _ .join => ()
  | .bufferSlots _ => (0 : UInt32)
  | .rounds _ => (0 : ℕ)
  | .loadStop _ => false
  | .loadSlot _ _ => none
  | .storeStatus _ _ _ => ()
  | .observe _ => ()
  | .chosen _ _ => none

theorem no_deadlock (init : (m : Mutex) → m.State) (p : RuntimePool) (h : AnyRun (start init) p) :
    (∀ i, Unfinished p.threads i →
      ∃ j, ReflTransGen (Waits p.threads) i j ∧ CanStep p j) ∧
    ∀ i, ¬ TransGen (Waits p.threads) i i :=
  ⟨fun _ hi => h.inOrder.progress (fun o => ⟨silent o⟩) hi, h.inOrder.no_circle⟩

def idle : (m : Mutex) → m.State
  | .registry => {}
  | .dispatch => {}
  | .cudaStates => {}
  | .metalStates => .empty
  | .buffers _ => []
  | .kernel _ => { arch := .hopper }
  | .ilc _ => .empty
  | .tma _ => {}
  | .inject _ => ()
  | .memory _ => {}
  | .pages _ => {}
  | .graph _ => {}
  | .scope _ => {}
  | .prefetcher _ => ()
  | .poller _ => ()

def granting : (o : RuntimeOp) → o.Answer
  | .vendor _ => .apple
  | .probe _ => true
  | .work _ _ (.platform c) => succeedingBackend apple c
  | .retainContext => (.success, (3 : Ptr))
  | .createSystemDefaultDevice => (1 : Ptr)
  | .newCommandQueue _ => (2 : Ptr)
  | .subsystems _ => ⟨false, none, false, some 4, true, false⟩
  | .lastPointer _ => true
  | .loadEnabled _ => true
  | .fault _ .loadBuffer => (0x10000 : Ptr)
  | o => silent o

def calling (answer : (o : RuntimeOp) → o.Answer) (p : RuntimeProg Unit) (P : RuntimePool) : RuntimePool :=
  goNew work answer (fun _ => false) p P

theorem AnyRun.calling {P Q : RuntimePool} (h : AnyRun P Q) (answer : (o : RuntimeOp) → o.Answer)
    {p : RuntimeProg Unit} (hp : Client p) : AnyRun P (calling answer p Q) :=
  MutexRun.goNew h hp

def joined : RuntimePool :=
  let booted := calling granting (do
    registerBackend .apple 5
    let _ ← boot 1 { streamPoolCompute := 1, streamPoolDma := 1 }
    registerHandle 1 ⟨0, 1⟩) (start idle)
  let replaced := calling granting (registerHandle 1 ⟨1, 2⟩) booted
  calling granting (do
    let _ ← lookupHandle 1
    return ()) replaced

theorem joined_run : AnyRun (start idle) joined := by
  refine AnyRun.calling (.calling (.calling .refl granting ?_) granting ?_) granting ?_
  · exact .bind _ _ (.registerBackend ..) fun _ => .bind _ _ (.boot ..) fun _ => .registerHandle ..
  · exact .registerHandle ..
  · exact .bind _ _ (.lookupHandle ..) fun _ => .ret ()

theorem no_deadlock_joined : ∃ p, AnyRun (start idle) p ∧ Waits p.threads 0 1 ∧
    Waits p.threads 1 2 ∧ ∃ j, ReflTransGen (Waits p.threads) 0 j ∧ CanStep p j := by
  have hwanted : joined.threads[0]?.bind Thread.wanted = some .registry := by decide +kernel
  have hregistry : Waits joined.threads 0 1 :=
    .of_wanted hwanted (by decide +kernel) (List.mem_singleton_self _)
  have hpoller : Waits joined.threads 1 2 :=
    .of_wanted (m := Mutex.poller 1) (by decide +kernel) (by decide +kernel)
      (List.mem_singleton_self _)
  refine ⟨joined, joined_run, hregistry, hpoller, ?_⟩
  exact (no_deadlock idle joined joined_run).1 0 (.of_wanted hwanted)

theorem AnyRun.steps {init : (m : Mutex) → m.State} {p q : RuntimePool}
    (h : AnyRun (start init) p) (h' : AnyRun p q) (m : Mutex) :
    ReflTransGen (Evolves m) (p.state.values m) (q.state.values m) :=
  (MutexRun.inOrder (fun _ hp => hp.takes) work_respects h' h.inOrder.restart).state.steps m

theorem sections_whole (init : (m : Mutex) → m.State) (p q : RuntimePool)
    (h : AnyRun (start init) p) (h' : AnyRun p q) (m : Mutex) :
    ReflTransGen (Evolves m) (p.state.values m) (q.state.values m) ∧
    q.threads.countP (fun t => decide (m ∈ t.ghost.held)) ≤ 1 ∧
    ∀ t ∈ q.threads, ∀ v, t.ghost.view m = some v → q.state.values m = v := by
  have hguarded := (AnyRun.inOrder (h.trans h')).state
  exact ⟨h.steps h' m, hguarded.at_most_one m, fun t ht v hv => (hguarded.view t ht m v hv).2⟩

def spawned : (m : Mutex) → m.State
  | .kernel _ => {
      arch := .appleSilicon
      freeCompute := [{ id := 1, raw := 7 }]
      modules := Table.empty.insert "m" { name := "m", functions := Table.empty.insert "f" (8 : Ptr) } }
  | m => idle m

def used : RuntimePool :=
  let streaming := calling granting (do
    let _ ← kernelCall 1 (.acquireStream .compute 0)
    return ()) (start spawned)
  let allocated := calling granting (do
    registerBackend .apple 5
    let _ ← alloc 1 65536 {} {} id id
    return ()) streaming
  allocated

theorem used_run : AnyRun (start spawned) used := by
  refine .calling (.calling .refl granting ?_) granting ?_
  · exact .bind _ _ (.kernelCall ..) fun _ => .ret ()
  · exact .bind _ _ (.registerBackend ..) fun _ => .bind _ _ (.alloc ..) fun _ => .ret ()

theorem sections_whole_used : ∃ p, AnyRun (start spawned) p ∧
    (p.state.values (.kernel 1)).freeCompute = [] ∧
    ReflTransGen (Evolves (.kernel 1)) (spawned (.kernel 1)) (p.state.values (.kernel 1)) ∧
    (p.state.values (.memory 1)).bytesAllocated = 65536 ∧
    ReflTransGen (Evolves (.memory 1)) (spawned (.memory 1)) (p.state.values (.memory 1)) := by
  refine ⟨used, used_run, by decide +kernel, ?_, by decide +kernel, ?_⟩
  · exact (sections_whole spawned (start spawned) used .refl used_run (.kernel 1)).1
  · exact (sections_whole spawned (start spawned) used .refl used_run (.memory 1)).1

section Kept

variable {init : (m : Mutex) → m.State} {p q : RuntimePool}

theorem AnyRun.invariant (h : AnyRun (start init) p) (h' : AnyRun p q) {m : Mutex}
    {I : m.State → Prop} (hstep : ∀ s s', Evolves m s s' → I s → I s') (hp : I (p.state.values m)) :
    I (q.state.values m) := by
  have hkept : ∀ s, ReflTransGen (Evolves m) (p.state.values m) s → I s := by
    intro s hsteps
    induction hsteps with
    | refl => exact hp
    | tail _ h ih => exact hstep _ _ h ih
  exact hkept _ (h.steps h' m)

theorem dispatch_kept {d d' : PlatformDispatch} {b : Ptr} (h : Evolves .dispatch d d')
    (hd : d.active = some b) : d'.active = some b := by
  obtain ⟨v, impl, rfl⟩ | ⟨found, h⟩ := h
  · exact hd
  · rw [PlatformDispatch.probe, hd] at h
    obtain ⟨_, rfl⟩ := Prod.mk.inj h.1
    exact hd

theorem states_kept {t t' : SideTable} {ctx : Ptr} {e : CudaEntry} (h : Evolves .cudaStates t t')
    (he : t.states.find ctx = some e) : t'.states.find ctx = some e := by
  obtain ⟨c, retain, rfl⟩ := h
  rw [SideTable.state]
  split
  · exact he
  · next hnone =>
    split
    · exact he
    · have hne : ctx ≠ c := by
        rintro rfl
        rw [hnone] at he
        cases he
      simpa [hne] using he

end Kept

theorem selection_kept (init : (m : Mutex) → m.State) (p q : RuntimePool)
    (h : AnyRun (start init) p) (h' : AnyRun p q) :
    (∀ b, (p.state.values .dispatch).active = some b → (q.state.values .dispatch).active = some b) ∧
    ∀ ctx e, (p.state.values .cudaStates).states.find ctx = some e →
      (q.state.values .cudaStates).states.find ctx = some e :=
  ⟨fun b => h.invariant h' (m := .dispatch) (I := fun d => d.active = some b)
      fun _ _ hstep hd => dispatch_kept hstep hd,
    fun ctx e => h.invariant h' (m := .cudaStates) (I := fun t => t.states.find ctx = some e)
      fun _ _ hstep he => states_kept hstep he⟩

def grantingCuda : (o : RuntimeOp) → o.Answer
  | .vendor _ => .nvidia
  | o => granting o

def chosen : RuntimePool := calling grantingCuda (do
  registerBackend .nvidia 5
  let _ ← dispatch 1 (.prefetchRange 0x10000 4096)
  return ()) (start idle)

def rechosen : RuntimePool := calling grantingCuda (do
  registerBackend .nvidia 6
  registerBackend .apple 7
  let _ ← probe
  let _ ← dispatch 2 (.prefetchRange 0x10000 4096)
  return ()) chosen

theorem chosen_run : AnyRun (start idle) chosen ∧ AnyRun chosen rechosen := by
  refine ⟨.calling .refl grantingCuda ?_, .calling .refl grantingCuda ?_⟩
  · exact .bind _ _ (.registerBackend ..) fun _ => .bind _ _ (.dispatch ..) fun _ => .ret ()
  · refine .bind _ _ (.registerBackend ..) fun _ => .bind _ _ (.registerBackend ..) fun _ => ?_
    exact .bind _ _ .probe fun _ => .bind _ _ (.dispatch ..) fun _ => .ret ()

theorem selection_kept_rechosen : ∃ p q e, AnyRun (start idle) p ∧ AnyRun p q ∧
    (q.state.values .dispatch).backends.find .nvidia = some 6 ∧
    (q.state.values .dispatch).active = some 5 ∧
    (q.state.values .cudaStates).retained = 2 ∧ e.primary = 3 ∧
    (q.state.values .cudaStates).states.find 1 = some e := by
  obtain ⟨hfirst, hsecond⟩ := chosen_run
  have hentry : ((chosen.state.values .cudaStates).states.find 1).map CudaEntry.primary = some 3 := by
    decide +kernel
  obtain ⟨e, he, hprimary⟩ := Option.map_eq_some_iff.mp hentry
  have hkept := selection_kept idle chosen rechosen hfirst hsecond
  refine ⟨chosen, rechosen, e, hfirst, hsecond, by decide +kernel, hkept.1 5 (by decide +kernel),
    by decide +kernel, hprimary, hkept.2 1 e he⟩

theorem graphs_founded (init : (m : Mutex) → m.State) (g : Ptr)
    (hinit : init (.graph g) = {}) (p : RuntimePool) (h : AnyRun (start init) p) :
    ((p.state.values (.graph g)).launches.map Launch.stage).Nodup ∧
    ∀ l ∈ (p.state.values (.graph g)).launches,
      ∀ d ∈ (p.state.values (.graph g)).dependsOn l.stage, l.states d = some .completed := by
  have hinv : (p.state.values (.graph g)).Inv := by
    refine AnyRun.invariant .refl h (m := .graph g) (I := TaskGraph.Inv) ?_ ?_
    · rintro t t' ⟨dev, c, r, hserves⟩ ht
      exact TaskGraph.serves_inv hserves ht
    · change (init (.graph g)).Inv
      rw [hinit]
      exact TaskGraph.inv_empty
  exact ⟨hinv.once, hinv.ordered⟩

def depending : RuntimePool :=
  let added := calling granting (do
    let _ ← graphCall apple 1 7 (.addStage {
      name := "b"
      moduleName := "m"
      functionName := "f"
      dependsOn := ["a"] })
    return ()) (start spawned)
  calling granting (do
    registerBackend .apple 5
    let _ ← graphCall apple 1 7 (.addStage { name := "a", moduleName := "m", functionName := "f" })
    let _ ← run apple 1 7
    return ()) added

theorem depending_run : AnyRun (start spawned) depending := by
  refine .calling (.calling .refl granting ?_) granting ?_
  · exact .bind _ _ (.graphCall ..) fun _ => .ret ()
  · refine .bind _ _ (.registerBackend ..) fun _ => .bind _ _ (.graphCall ..) fun _ => ?_
    exact .bind _ _ (.run ..) fun _ => .ret ()

theorem graphs_founded_depending : ∃ p, AnyRun (start spawned) p ∧
    (p.state.values (.graph 7)).launches.map Launch.stage = ["b", "a"] ∧
    (p.state.values (.graph 7)).dependsOn "b" = ["a"] ∧
    ∀ l ∈ (p.state.values (.graph 7)).launches,
      ∀ d ∈ (p.state.values (.graph 7)).dependsOn l.stage, l.states d = some .completed :=
  ⟨depending, depending_run, by decide +kernel, by decide +kernel,
    (graphs_founded spawned 7 rfl depending depending_run).2⟩

end NexusRT.Runtime

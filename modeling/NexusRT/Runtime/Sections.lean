import NexusRT.Firmware.Degradation
import NexusRT.Firmware.FaultPoller
import NexusRT.Firmware.Registry
import NexusRT.Firmware.SideTable
import NexusRT.Firmware.TensorMaps
import NexusRT.Library.LockOrder
import NexusRT.Memory.Pins
import NexusRT.PlatformDispatch
import NexusRT.Scheduler.Verdicts
import NexusRT.TokenOpt.LayerMasks

/-!
The functions of the runtime with the mutexes that they take. Between a lock and the unlock they do
what the models of the single components do.
-/

namespace NexusRT.Runtime

open Firmware Interleave Memory Prog Scheduler TokenOpt

/-- The mutexes, those of an object by its address. `poller` is no mutex of the source: the thread of
a fault handler has it from its start to its end, and to join that thread is to wait for it. -/
inductive Mutex
  | registry
  | dispatch
  | cudaStates
  | metalStates
  | buffers (ctx : Ptr)
  | kernel (ctx : Ptr)
  | ilc (ctx : Ptr)
  | tma (ctx : Ptr)
  | inject (ctx : Ptr)
  | memory (ctx : Ptr)
  | pages (ctx : Ptr)
  | graph (g : Ptr)
  | scope (s : Ptr)
  | prefetcher (p : Ptr)
  | poller (ctx : Ptr)
  deriving DecidableEq

structure Handles where
  registry : Table Ptr ContextRef := .empty
  managed : List Ptr := []

/-- `live_` and `bytes_allocated_` of a memory manager. -/
structure Live where
  live : Table Ptr Allocation := .empty
  bytesAllocated : UInt64 := 0

/-- What each mutex guards. Of an attention prefetcher the rows are left out. -/
abbrev Mutex.State : Mutex → Type
  | .registry => Handles
  | .dispatch => PlatformDispatch
  | .cudaStates => SideTable
  | .metalStates => Table Ptr MetalState
  | .buffers _ => List Ptr
  | .kernel _ => MicroKernel
  | .ilc _ => Table Ptr Unit
  | .tma _ => TmaEngine
  | .inject _ => Unit
  | .memory _ => Live
  | .pages _ => PageTableManager
  | .graph _ => TaskGraph
  | .scope _ => ContextScope
  | .prefetcher _ => Unit
  | .poller _ => Unit

inductive BackendFunction
  | platform (c : PlatformCall)
  | prefetchRange (vaddr bytes : UInt64)
  | resolveFault (vaddr : UInt64)
  | tma (c : TmaCall)
  | tmaIssueCopy (d : TmaDescriptor) (smemDst : Ptr) (tileOffX tileOffY : UInt64) (stream : Ptr)
  | dmaSubmit (r : DmaRequest)
  | dmaWait (event : Ptr) (timeoutMs : UInt32)
  | gdsReadFallback (path : String) (off : UInt64) (dst : Ptr) (bytes : UInt64)
  | gdsWriteFallback (path : String) (off : UInt64) (src : Ptr) (bytes : UInt64)

abbrev BackendFunction.Answer : BackendFunction → Type
  | .platform c => c.Answer
  | .prefetchRange _ _ => Status
  | .resolveFault _ => Status
  | .tma c => c.Answer
  | .tmaIssueCopy _ _ _ _ _ => Status
  | .dmaSubmit _ => Status × Option Ptr
  | .dmaWait _ _ => Status
  | .gdsReadFallback _ _ _ _ => Status
  | .gdsWriteFallback _ _ _ _ => Status

def nullPlatform : (c : BackendFunction) → c.Answer
  | .platform c => PlatformDispatch.nullPlatform c
  | .prefetchRange _ _ => .ok
  | .resolveFault _ => .ok
  | .tma (.tmaEncode _) => (.notImplemented, 0)
  | .tma (.tmaRelease _) => .ok
  | .tmaIssueCopy _ _ _ _ _ => .notImplemented
  | .dmaSubmit _ => (.notImplemented, none)
  | .dmaWait _ _ => .ok
  | .gdsReadFallback _ _ _ _ => .ioError
  | .gdsWriteFallback _ _ _ _ => .ioError

structure Subsystems where
  microkernel : Bool
  dma : Option DmaEngine
  tma : Bool
  faults : Option UInt32
  ilc : Bool
  mem : Bool

/-- What the functions do besides: the work of a backend with its driver, reads and writes of
atomics and of memory that no mutex guards, and `chosen` for what a prefetcher makes of its
rows. `rounds` bounds the rounds of one poller, and `loadSlot` answers the address of a fault whose
status is 0. -/
inductive RuntimeOp
  | vendor (backend : Ptr)
  | probe (backend : Ptr)
  | work (backend ctx : Ptr) (c : BackendFunction)
  | retainContext
  | createSystemDefaultDevice
  | newCommandQueue (device : Ptr)
  | subsystems (ctx : Ptr)
  | lastPointer (sp : ContextRef)
  | loadEnabled (ctx : Ptr)
  | storeEnabled (ctx : Ptr) (enabled : Bool)
  | addBytes (ctx : Ptr) (bytes : UInt64)
  | addAlloc (ctx : Ptr)
  | fault (ctx : Ptr) (c : FaultCall)
  | bufferSlots (ctx : Ptr)
  | rounds (ctx : Ptr)
  | loadStop (ctx : Ptr)
  | loadSlot (ctx : Ptr) (i : ℕ)
  | storeStatus (ctx : Ptr) (i : ℕ) (s : Status)
  | observe (p : Ptr)
  | chosen (p : Ptr) (k : UInt32)

abbrev RuntimeOp.Answer : RuntimeOp → Type
  | .vendor _ => Vendor
  | .probe _ => Bool
  | .work _ _ c => c.Answer
  | .retainContext => CuResult × Ptr
  | .createSystemDefaultDevice => Ptr
  | .newCommandQueue _ => Ptr
  | .subsystems _ => Subsystems
  | .lastPointer _ => Bool
  | .loadEnabled _ => Bool
  | .storeEnabled _ _ => Unit
  | .addBytes _ _ => Unit
  | .addAlloc _ => Unit
  | .fault _ c => c.Answer
  | .bufferSlots _ => UInt32
  | .rounds _ => ℕ
  | .loadStop _ => Bool
  | .loadSlot _ _ => Option UInt64
  | .storeStatus _ _ _ => Unit
  | .observe _ => Unit
  | .chosen _ _ => Option (List UInt32)

abbrev RuntimeProg := MutexProg Mutex.State RuntimeOp.Answer

def load (m : Mutex) : RuntimeProg m.State := op (MutexOp.load m)

def call (o : RuntimeOp) : RuntimeProg o.Answer := op (MutexOp.op o)

def when (b : Bool) (p : RuntimeProg Unit) : RuntimeProg Unit := if b then p else return ()

section Platform

def askBackend : (c : BackendCall) → RuntimeProg c.Answer
  | .probe b => call (.probe b)
  | .forward b c => call (.work b 0 (.platform c))

def registerBackend (v : Vendor) (impl : Ptr) : RuntimeProg Unit :=
  under .dispatch fun d => return ((), d.registerBackend v impl)

def probe : RuntimeProg Bool := under .dispatch fun d => d.probe.interp askBackend

/-- `active_` is read without the mutex. -/
def backend : RuntimeProg (Option Ptr) := do
  let d ← load .dispatch
  if d.active.isSome then return d.active else
  let _ ← probe
  let d ← load .dispatch
  return d.active

def cudaState (ctx : Ptr) : RuntimeProg (Option CudaEntry) := under .cudaStates fun t =>
  match t.states.find ctx with
  | some e => return (some e, t)
  | none => do
    let retain ← call .retainContext
    return t.state ctx retain

def metalState (ctx : Ptr) : RuntimeProg (Option MetalState) := under .metalStates fun t =>
  match t.find ctx with
  | some s => return (some s, t)
  | none => do
    let device ← call .createSystemDefaultDevice
    if device = 0 then return (none, t) else
    let queue ← call (.newCommandQueue device)
    return (some { device, queue }, t.insert ctx { device, queue })

def cudaLooks : BackendFunction → ℕ
  | .platform (.lockClocks _) | .platform (.reserveVaddress _) | .platform .mapHbmPool
  | .platform (.createStream _ _) | .platform (.loadModule _ _)
  | .platform (.launchKernel _ _ _ _ _ _) | .platform (.allocHbm _)
  | .platform .gdsInit | .platform .gdsFini | .platform .grdmaInit | .platform .grdmaFini
  | .prefetchRange _ _ | .resolveFault _ | .gdsReadFallback _ _ _ _ => 1
  | .dmaSubmit r => if r.kind = .gdsRead then 2 else 1
  | _ => 0

def lookTimes (ctx : Ptr) : ℕ → RuntimeProg Unit
  | 0 => return ()
  | n + 1 => do
    let _ ← cudaState ctx
    lookTimes ctx n

def metalLooks : BackendFunction → Bool
  | .platform (.createStream _ _) | .platform (.loadModule _ _)
  | .platform (.launchKernel _ _ _ _ _ _) | .dmaSubmit _ => true
  | _ => false

def cuda (b ctx : Ptr) (c : BackendFunction) : RuntimeProg c.Answer := do
  lookTimes ctx (cudaLooks c)
  call (.work b ctx c)

def metalAlloc (b ctx : Ptr) (bytes : UInt64) : RuntimeProg (Status × Ptr) := do
  let s ← metalState ctx
  if s.isNone then return (.invalidArgument, 0) else
  let (s, buf) ← call (.work b ctx (.platform (.allocHbm bytes)))
  if !ok s then return (s, 0) else
  under (.buffers ctx) fun buffers => return ((), buffers ++ [buf])
  return (.ok, buf)

def metalFree (ctx p : Ptr) : RuntimeProg Status := do
  let s ← metalState ctx
  if s.isNone || p = 0 then return .ok else
  under (.buffers ctx) fun buffers =>
    if p ∈ buffers then return (.ok, buffers.erase p) else return (.invalidArgument, buffers)

def metal (b ctx : Ptr) : (c : BackendFunction) → RuntimeProg c.Answer
  | .platform (.allocHbm bytes) => metalAlloc b ctx bytes
  | .platform (.freeHbm p) => metalFree ctx p
  | c => do
    when (metalLooks c) do
      let _ ← metalState ctx
      return ()
    call (.work b ctx c)

def dispatch (ctx : Ptr) (c : BackendFunction) : RuntimeProg c.Answer := do
  let b ← backend
  match b with
  | none => return nullPlatform c
  | some b => do
    let v ← call (.vendor b)
    if v = .nvidia then cuda b ctx c else metal b ctx c

def platform (ctx : Ptr) : (c : PlatformCall) → RuntimeProg c.Answer
  | .probe => probe
  | c => dispatch ctx (.platform c)

end Platform

section Kernel

def kernelCall (ctx : Ptr) : (c : MicroKernelCall) → RuntimeProg c.Answer
  | .loadModule name source => under (.kernel ctx) fun m =>
    (m.loadModule name source).interp (platform ctx)
  | .acquireStream klass priority => under (.kernel ctx) fun m =>
    return m.acquireStream klass priority
  | .releaseStream h =>
    if h.id = 0 then return () else under (.kernel ctx) fun m => return ((), m.releaseStream h)
  | .launch moduleName functionName grid block sharedMemBytes stream kernelArgs => do
    let found ← reading (.kernel ctx) fun m => return m.findModule moduleName
    match found with
    | none => return .invalidArgument
    | some mod => match mod.functions.find functionName with
      | none => return .invalidArgument
      | some fn => platform ctx (.launchKernel fn grid block sharedMemBytes stream.raw kernelArgs)
  | .syncStream h => platform ctx (.syncStream h.raw)

def findModule (ctx : Ptr) (name : String) : RuntimeProg (Option KernelModule) :=
  reading (.kernel ctx) fun m => return m.findModule name

def drainStreams (ctx : Ptr) : RuntimeProg Status := under (.kernel ctx) fun m => do
  let m ← m.drainStreams.interp (platform ctx)
  return (.ok, m)

def syncEach (ctx : Ptr) : List StreamHandle → RuntimeProg Status
  | [] => return .ok
  | h :: v => do
    let s ← platform ctx (.syncStream h.raw)
    if !ok s then return s else syncEach ctx v

def syncAll (ctx : Ptr) : RuntimeProg Status := reading (.kernel ctx) fun m => do
  let a ← syncEach ctx m.freeCompute
  if !ok a then return a else
  let b ← syncEach ctx m.freeDma
  if !ok b then return b else
  let c ← syncEach ctx m.freeFence
  if !ok c then return c else
  return .ok

end Kernel

section Ilc

def ilcEnable (ctx : Ptr) (d : DeviceDesc) : RuntimeProg Status := do
  if !d.features.ilc then return .notImplemented else
  call (.storeEnabled ctx true)
  return .ok

def ilcDisable (ctx : Ptr) : RuntimeProg Status := do
  let enabled ← call (.loadEnabled ctx)
  if !enabled then return .ok else
  underThen (.ilc ctx)
    (fun tagged => do
      tagged.keys.forM fun h => do
        let _ ← platform ctx (.ilcUntag h)
        return ()
      return ((), .empty))
    (fun _ => do
      call (.storeEnabled ctx false)
      return .ok)

def ilcTag (ctx allocHandle : Ptr) (bytes : UInt64) : RuntimeProg Status := do
  let enabled ← call (.loadEnabled ctx)
  if !enabled then return .notImplemented else
  let s ← platform ctx (.ilcTag allocHandle)
  if !ok s then return s else
  under (.ilc ctx) fun tagged => return ((), tagged.insert allocHandle ())
  call (.addBytes ctx bytes)
  call (.addAlloc ctx)
  return .ok

def ilcUntag (ctx allocHandle : Ptr) : RuntimeProg Status := do
  let enabled ← call (.loadEnabled ctx)
  if !enabled then return .ok else
  under (.ilc ctx) fun tagged =>
    if !tagged.contains allocHandle then return (.invalidArgument, tagged) else do
    let s ← platform ctx (.ilcUntag allocHandle)
    return (s, tagged.erase allocHandle)

end Ilc

section Tma

def tmaCall (ctx : Ptr) (c : TmaCall) : RuntimeProg c.Answer := dispatch ctx (.tma c)

def tmaEncode (ctx : Ptr) (key : String) (a : EncodeArgs) :
    RuntimeProg (Status × Option TmaDescriptor) := under (.tma ctx) fun e =>
  (e.encodeWith key a).interp (tmaCall ctx)

def tmaLookup (ctx : Ptr) (key : String) : RuntimeProg (Option TmaDescriptor) :=
  reading (.tma ctx) fun e => return e.lookup key

def tmaInvalidate (ctx : Ptr) (key : String) : RuntimeProg Unit := under (.tma ctx) fun e => do
  let e ← (e.invalidate key).interp (tmaCall ctx)
  return ((), e)

def tmaDestructor (ctx : Ptr) : RuntimeProg Unit := reading (.tma ctx) fun e =>
  e.destructor.interp (tmaCall ctx)

end Tma

section Memory

/-- The calls of a page table; each is one section. -/
inductive PageCall
  | mapRange (vaddr bytes : UInt64) (res : PageResidency) (physOrHost : UInt64)
      (now : UInt64 → UInt64)
  | page (c : PageTableManager.PageCall)
  | clear

def PageCall.after (t : PageTableManager) : PageCall → PageTableManager
  | .mapRange vaddr bytes res physOrHost now => (t.mapRange vaddr bytes res physOrHost now).2
  | .page c => t.after c
  | .clear => { t with table := .empty }

def pageCall (ctx : Ptr) (c : PageCall) : RuntimeProg Unit :=
  under (.pages ctx) fun t => return ((), c.after t)

/-- `total_pages`, `resident_hbm_pages`, `resident_host_pages`, `spilled_pages` and `lookup`. -/
def pageRead {α : Type} (ctx : Ptr) (f : PageTableManager → α) : RuntimeProg α :=
  reading (.pages ctx) fun t => return f t

def tagIlc (ctx : Ptr) (out : Allocation) : RuntimeProg Allocation := do
  if !out.hints.ilc then return out else
  let sub ← call (.subsystems ctx)
  if !sub.ilc then return out else
  let enabled ← call (.loadEnabled ctx)
  if !enabled then return out else
  let s ← ilcTag ctx out.hbmPtr out.bytes
  return { out with ilcTagged := ok s }

def advise (ctx : Ptr) (hints : AllocHints) (hbm : Ptr) (bytes : UInt64) (later : UInt64 → UInt64) :
    RuntimeProg Unit :=
  if !hints.readMostly then return () else pageCall ctx (.mapRange hbm bytes .hbm hbm later)

def alloc (ctx : Ptr) (bytes : UInt64) (hints : AllocHints) (out : Allocation)
    (now later : UInt64 → UInt64) : RuntimeProg (Status × Allocation) := do
  if bytes = 0 then return (.invalidArgument, out) else
  let (s, hbm) ← platform ctx (.allocHbm bytes)
  if !ok s then return (s, out) else
  let out ← tagIlc ctx { out with vaddr := hbm, bytes, hints, hbmPtr := hbm }
  pageCall ctx (.mapRange out.vaddr bytes .hbm hbm now)
  advise ctx hints hbm bytes later
  under (.memory ctx) fun w => return ((), {
    live := w.live.insert hbm out
    bytesAllocated := w.bytesAllocated + bytes })
  return (.ok, out)

def untagIlc (ctx : Ptr) (a : Allocation) : RuntimeProg Unit := do
  if !a.ilcTagged then return () else
  let sub ← call (.subsystems ctx)
  if !sub.ilc then return () else
  let _ ← ilcUntag ctx a.hbmPtr
  return ()

def free (ctx : Ptr) (a : Allocation) : RuntimeProg Status := under (.memory ctx) fun w =>
  match w.live.find a.hbmPtr with
  | none => return (.invalidArgument, w)
  | some _ => do
    untagIlc ctx a
    pageCall ctx (.page (.unmapRange a.vaddr a.bytes))
    let s ← platform ctx (.freeHbm a.hbmPtr)
    if !ok s then return (s, w) else
    return (.ok, {
      live := w.live.erase a.hbmPtr
      bytesAllocated := w.bytesAllocated - a.bytes })

def bytesAllocated (ctx : Ptr) : RuntimeProg UInt64 :=
  reading (.memory ctx) fun w => return w.bytesAllocated

def releaseEach (ctx : Ptr) : List Allocation → RuntimeProg Unit
  | [] => return ()
  | a :: as => do
    when (a.hbmPtr ≠ 0) do
      let _ ← platform ctx (.freeHbm a.hbmPtr)
      return ()
    untagIlc ctx a
    releaseEach ctx as

def memoryDestructor (ctx : Ptr) : RuntimeProg Unit := do
  under (.memory ctx) fun w => do
    releaseEach ctx (w.live.entries.map Prod.snd)
    return ((), { w with live := .empty })
  pageCall ctx .clear

def prefetch (ctx hbmPtr : Ptr) (bytes : UInt64) : RuntimeProg Status :=
  dispatch ctx (.prefetchRange hbmPtr bytes)

end Memory

section Graph

/-- `validated_` is read without the mutex. -/
def graphCall (dev : DeviceDesc) (ctx g : Ptr) : (c : GraphCall) → RuntimeProg c.Answer
  | .addStage c =>
    if c.name = "" then return .invalidArgument else under (.graph g) fun t => return t.addStage c
  | .loadValidated => do
    let t ← load (.graph g)
    return t.validated
  | .validate => under (.graph g) fun t => return t.validate dev
  | .launchReady => under (.graph g) fun t => do
    let r ← (t.launchReady (t.nodes.size + 1)).interp (kernelCall ctx)
    return r.getD (.ok, t)

def run (dev : DeviceDesc) (ctx g : Ptr) : RuntimeProg Status :=
  Scheduler.run.interp (graphCall dev ctx g)

def wait (g : Ptr) (name : String) (timeoutMs : UInt32) : RuntimeProg Status :=
  reading (.graph g) fun t => return t.wait name timeoutMs

def waitEach (g : Ptr) (timeoutMs : UInt32) : List String → RuntimeProg Status
  | [] => return .ok
  | k :: ks => do
    let s ← wait g k timeoutMs
    if !ok s then return s else waitEach g timeoutMs ks

/-- The names are read without the mutex. -/
def waitAll (g : Ptr) (timeoutMs : UInt32) : RuntimeProg Status := do
  let t ← load (.graph g)
  waitEach g timeoutMs t.nodes.keys

/-- No function reads `overlap_`. -/
def setOverlap (g : Ptr) (_a _b : String) (_enable : Bool) : RuntimeProg Status :=
  locked (.graph g) (return .ok)

/-- `find` and `stage_names`. -/
def graphRead {α : Type} (g : Ptr) (f : TaskGraph → α) : RuntimeProg α :=
  reading (.graph g) fun t => return f t

def graphDestructor (ctx g : Ptr) : RuntimeProg Unit :=
  reading (.graph g) fun t => t.destructor.interp (kernelCall ctx)

end Graph

section Faults

def injectFetchHint (ctx : Ptr) (vaddr bytes : UInt64) : RuntimeProg Status :=
  locked (.inject ctx) (dispatch ctx (.prefetchRange vaddr bytes))

def faultCall (ctx : Ptr) (slots : UInt32) : (c : FaultCall) → RuntimeProg c.Answer
  | .allocHbm bytes => platform ctx (.allocHbm bytes)
  | .freeHbm p => platform ctx (.freeHbm p)
  | .installFaultBuffer p => platform ctx (.installFaultBuffer p slots)
  | .uninstallFaultBuffer p => platform ctx (.uninstallFaultBuffer p)
  | .start => op (MutexOp.fork (.poller ctx))
  | .join => join (.poller ctx)
  | c => call (.fault ctx c)

def install (ctx : Ptr) (d : DeviceDesc) (slots : UInt32) : RuntimeProg Status :=
  (FaultProg.install d slots).interp (faultCall ctx slots)

def uninstall (ctx : Ptr) (slots : UInt32) : RuntimeProg Status :=
  FaultProg.uninstall.interp (faultCall ctx slots)

def pollSlot (ctx : Ptr) (i : ℕ) : RuntimeProg Unit := do
  let pending ← call (.loadSlot ctx i)
  match pending with
  | none => return ()
  | some faultingAddr => do
    let s ← dispatch ctx (.resolveFault faultingAddr)
    call (.storeStatus ctx i s)

def pollRounds (ctx : Ptr) (slots : UInt32) : ℕ → RuntimeProg Unit
  | 0 => return ()
  | n + 1 => do
    let stop ← call (.loadStop ctx)
    if stop then return () else
    (List.range slots.toNat).forM (pollSlot ctx)
    pollRounds ctx slots n

def pollLoop (ctx : Ptr) : RuntimeProg Unit := do
  let slots ← call (.bufferSlots ctx)
  let rounds ← call (.rounds ctx)
  pollRounds ctx slots rounds

def workOf : Mutex → RuntimeProg Unit
  | .poller ctx => pollLoop ctx
  | _ => return ()

def work (m : Mutex) : RuntimeProg Unit := do
  workOf m
  op (MutexOp.unlock m)

end Faults

section Tokens

def scopeCall (ctx : Ptr) (topk : List UInt32) : (c : ScopeCall) → RuntimeProg c.Answer
  | .topk i => return topk.getD i 0
  | .fetch (.prefetchRange vaddr bytes) => injectFetchHint ctx vaddr bytes

def setLayer (s : Ptr) (l : IcmLayer) (spec : LayerSpec) : RuntimeProg Unit :=
  under (.scope s) fun c => return ((), c.setLayer l spec)

def step (s : Ptr) (generatedSoFar : UInt32) : RuntimeProg Status :=
  under (.scope s) fun c => return c.step generatedSoFar

def bindKvCache (s kv : Ptr) (bytes : UInt64) (maxRes : UInt32) : RuntimeProg Unit :=
  under (.scope s) fun c => return ((), c.bindKvCache kv bytes maxRes)

/-- `kv_hbm_` is read without the mutex. -/
def prefetchAttention (ctx s : Ptr) (topk : List UInt32) (k : UInt32) : RuntimeProg Status := do
  let c ← load (.scope s)
  if c.kvHbm = 0 then return .invalidArgument else
  reading (.scope s) fun c => do
    ((List.range k.toNat).forM c.prefetchSlot).interp (scopeCall ctx topk)
    return .ok

/-- `kv_hbm_` is read without the mutex. -/
def prune (s : Ptr) (maxRes : UInt32) : RuntimeProg Status := do
  let c ← load (.scope s)
  if c.kvHbm = 0 then return .invalidArgument else
  under (.scope s) fun c => return c.pruneTo maxRes

/-- `total_token_budget` and `total_bytes_used`. -/
def scopeRead {α : Type} (s : Ptr) (f : ContextScope → α) : RuntimeProg α :=
  reading (.scope s) fun c => return f c

def observe (p : Ptr) : RuntimeProg Unit := locked (.prefetcher p) (call (.observe p))

def prefetchNext (ctx p s : Ptr) (k : UInt32) : RuntimeProg Status := locked (.prefetcher p) do
  let idx ← call (.chosen p k)
  match idx with
  | none => return .ok
  | some idx => prefetchAttention ctx s idx (.ofNat idx.length)

end Tokens

section Contexts

def dmaShutdown (ctx : Ptr) (e : DmaEngine) : RuntimeProg Unit := do
  let _ ← e.shutdown.interp (platform ctx)
  return ()

def transfer (ctx : Ptr) : (c : TransferCall) → RuntimeProg c.Answer
  | .platform c => platform ctx c
  | .dmaSubmit r => dispatch ctx (.dmaSubmit r)
  | .dmaWait event timeoutMs => dispatch ctx (.dmaWait event timeoutMs)
  | .gdsReadFallback path off dst bytes => dispatch ctx (.gdsReadFallback path off dst bytes)
  | .gdsWriteFallback path off src bytes => dispatch ctx (.gdsWriteFallback path off src bytes)

def memory (ctx : Ptr) : RuntimeProg Unit := under .registry fun h =>
  return ((), if ctx ∈ h.managed then h else { h with managed := ctx :: h.managed })

def uninstallFaults (ctx : Ptr) (faults : Option UInt32) : RuntimeProg Status :=
  match faults with
  | none => return .ok
  | some slots => uninstall ctx slots

def closeDma (ctx : Ptr) (dma : Option DmaEngine) : RuntimeProg Unit :=
  match dma with
  | none => return ()
  | some e => dmaShutdown ctx e

def closeIlc (ctx : Ptr) (ilc : Bool) : RuntimeProg Unit := when ilc do
  let _ ← ilcDisable ctx
  return ()

def closeKernel (ctx : Ptr) (there : Bool) : RuntimeProg Unit := when there do
  let _ ← drainStreams ctx
  return ()

def shutdown (ctx : Ptr) : RuntimeProg Status := do
  let sub ← call (.subsystems ctx)
  let last ← uninstallFaults ctx sub.faults
  closeKernel ctx sub.microkernel
  closeDma ctx sub.dma
  closeIlc ctx sub.ilc
  let s ← platform ctx .releaseVaddress
  return if !ok s then s else last

def destroyContext (ctx : Ptr) : RuntimeProg Unit := do
  let sub ← call (.subsystems ctx)
  when sub.mem (memoryDestructor ctx)
  closeIlc ctx sub.ilc
  let _ ← uninstallFaults ctx sub.faults
  when sub.tma (tmaDestructor ctx)
  closeDma ctx sub.dma
  closeKernel ctx sub.microkernel

def drop (sp : ContextRef) : RuntimeProg Unit := do
  let last ← call (.lastPointer sp)
  when last (destroyContext sp.address)

/-- A pointer that is in the registry under `k` ends before the mutex is given back. -/
def registerHandle (k : Ptr) (sp : ContextRef) : RuntimeProg Unit := under .registry fun h => do
  match h.registry.find k with
  | none => pure ()
  | some old => drop old
  return ((), { h with registry := h.registry.insert k sp })

def lookupHandle (k : Ptr) : RuntimeProg (Option ContextRef) :=
  reading .registry fun h => return h.registry.find k

def takeHandle (k : Ptr) : RuntimeProg (Option ContextRef) := under .registry fun h =>
  return (h.registry.find k, { h with registry := h.registry.erase k })

/-- Only `FaultHandler::install` installs a buffer, and starts the poller after it. -/
def bootCall (ctx : Ptr) : (c : PlatformCall) → RuntimeProg c.Answer
  | .installFaultBuffer p slots => do
    let s ← platform ctx (.installFaultBuffer p slots)
    call (.fault ctx (.storeStop false))
    op (MutexOp.fork (.poller ctx))
    return s
  | c => platform ctx c

/-- The context of a boot that failed is destroyed. -/
def boot (ctx : Ptr) (opts : BootOptions) : RuntimeProg Status := do
  let (r, _) ← (Firmware.boot opts).interp (bootCall ctx)
  when (!ok r.status && r.ctx.isSome) (destroyContext ctx)
  return r.status

end Contexts

end NexusRT.Runtime

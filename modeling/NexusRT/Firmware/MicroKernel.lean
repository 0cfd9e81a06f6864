import NexusRT.Platform

namespace NexusRT.Firmware

structure StreamHandle where
  id : UInt64 := 0
  raw : Ptr := 0
  klass : StreamClass := .compute
  priority : Int32 := 0
  deriving DecidableEq, Repr

structure KernelModule where
  id : UInt64 := 0
  name : String
  rawModule : Ptr := 0
  functions : Table String Ptr := .empty

structure MicroKernel where
  arch : Arch
  freeCompute : List StreamHandle := []
  freeDma : List StreamHandle := []
  freeFence : List StreamHandle := []
  modules : Table String KernelModule := .empty
  nextId : UInt64 := 1

namespace MicroKernel

def free (m : MicroKernel) : StreamClass → List StreamHandle
  | .compute => m.freeCompute
  | .dma => m.freeDma
  | .fence => m.freeFence
  | .control => []
  | .undeclared _ => []

def pushBack (m : MicroKernel) (h : StreamHandle) : MicroKernel :=
  match h.klass with
  | .compute => { m with freeCompute := m.freeCompute ++ [h] }
  | .dma => { m with freeDma := m.freeDma ++ [h] }
  | .fence => { m with freeFence := m.freeFence ++ [h] }
  | .control => m
  | .undeclared _ => m

def popBack (m : MicroKernel) : StreamClass → MicroKernel
  | .compute => { m with freeCompute := m.freeCompute.dropLast }
  | .dma => { m with freeDma := m.freeDma.dropLast }
  | .fence => { m with freeFence := m.freeFence.dropLast }
  | .control => m
  | .undeclared _ => m

def spawnStreams (klass : StreamClass) (priority : Int32) :
    ℕ → MicroKernel → PlatformProg (Status × MicroKernel)
  | 0, m => return (.ok, m)
  | n + 1, m => do
    let h : StreamHandle := { id := m.nextId, klass }
    let m := { m with nextId := m.nextId + 1 }
    let (s, raw) ← Platform.createStream klass priority
    if !ok s then return (s, m) else
    spawnStreams klass priority n (m.pushBack { h with raw })

def spawnStreamPool (m : MicroKernel) (nCompute nDma : UInt32) :
    PlatformProg (Status × MicroKernel) := do
  let (s, m) ← spawnStreams .compute 0 nCompute.toNat m
  if !ok s then return (s, m) else
  let (s, m) ← spawnStreams .dma (-1) nDma.toNat m
  if !ok s then return (s, m) else
  if m.arch = .hopper ∨ m.arch = .ampere ∨ m.arch = .pascal ∨ m.arch = .turing then
    spawnStreams .fence 1 1 m
  else return (.ok, m)

def destroyStreams (v : List StreamHandle) : PlatformProg Unit :=
  v.forM fun h => do
    let _ ← Platform.destroyStream h.raw
    return ()

def drainStreams (m : MicroKernel) : PlatformProg MicroKernel := do
  destroyStreams m.freeCompute
  destroyStreams m.freeDma
  destroyStreams m.freeFence
  return { m with freeCompute := [], freeDma := [], freeFence := [], modules := .empty }

def loadModule (m : MicroKernel) (name source : String) :
    PlatformProg ((Status × Option KernelModule) × MicroKernel) :=
  match m.modules.find name with
  | some mod => return ((.ok, some mod), m)
  | none => do
    let id := m.nextId
    let m := { m with nextId := m.nextId + 1 }
    let (s, rawModule, functions) ← Platform.loadModule name source
    if !ok s then return ((s, none), m) else
    let mod : KernelModule := { id, name, rawModule, functions }
    return ((.ok, some mod), { m with modules := m.modules.insert name mod })

def acquireStream (m : MicroKernel) (klass : StreamClass) (_priority : Int32) :
    StreamHandle × MicroKernel :=
  match (m.free klass).getLast? with
  | none => ({ id := 0 }, m)
  | some h => (h, m.popBack klass)

def releaseStream (m : MicroKernel) (h : StreamHandle) : MicroKernel :=
  if h.id = 0 then m else m.pushBack h

def findModule (m : MicroKernel) (name : String) : Option KernelModule := m.modules.find name

def launch (m : MicroKernel) (moduleName functionName : String) (grid block : Dim3)
    (sharedMemBytes : UInt32) (stream : StreamHandle) (kernelArgs : List Ptr) :
    PlatformProg Status :=
  match m.findModule moduleName with
  | none => return .invalidArgument
  | some mod => match mod.functions.find functionName with
    | none => return .invalidArgument
    | some fn => Platform.launchKernel fn grid block sharedMemBytes stream.raw kernelArgs

def syncStream (s : StreamHandle) : PlatformProg Status := Platform.syncStream s.raw

end MicroKernel

/-- The calls that clients make on the micro-kernel; each takes its mutex at most once. -/
inductive MicroKernelCall
  | loadModule (name source : String)
  | acquireStream (klass : StreamClass) (priority : Int32)
  | releaseStream (h : StreamHandle)
  | launch (moduleName functionName : String) (grid block : Dim3) (sharedMemBytes : UInt32)
      (stream : StreamHandle) (kernelArgs : List Ptr)
  | syncStream (h : StreamHandle)

abbrev MicroKernelCall.Answer : MicroKernelCall → Type
  | .loadModule _ _ => Status × Option KernelModule
  | .acquireStream _ _ => StreamHandle
  | .releaseStream _ => Unit
  | .launch _ _ _ _ _ _ _ => Status
  | .syncStream _ => Status

abbrev MicroKernelProg := Prog MicroKernelCall MicroKernelCall.Answer

def loadModule (name source : String) : MicroKernelProg (Status × Option KernelModule) :=
  .op (MicroKernelCall.loadModule name source)

def acquireStream (klass : StreamClass) (priority : Int32) : MicroKernelProg StreamHandle :=
  .op (MicroKernelCall.acquireStream klass priority)

def releaseStream (h : StreamHandle) : MicroKernelProg Unit := .op (MicroKernelCall.releaseStream h)

def launch (moduleName functionName : String) (grid block : Dim3) (sharedMemBytes : UInt32)
    (stream : StreamHandle) (kernelArgs : List Ptr) : MicroKernelProg Status :=
  .op (MicroKernelCall.launch moduleName functionName grid block sharedMemBytes stream kernelArgs)

def syncStream (h : StreamHandle) : MicroKernelProg Status := .op (MicroKernelCall.syncStream h)

/-- `ctx` is whether `lookup_handle` finds the context. -/
def nexusrtFirmwareTaskSubmit (ctx : Bool) (moduleName functionName : String) (grid block : Dim3)
    (sharedMemBytes : UInt32) (kernelArgs : List Ptr) (streamClass streamPriority : Int32) :
    MicroKernelProg Int := do
  if !ctx then return Status.invalidArgument.code else
  let stream ← acquireStream (.ofInt32 streamClass) streamPriority
  if stream.id = 0 then return Status.outOfMemory.code else
  let s ← launch moduleName functionName grid block sharedMemBytes stream kernelArgs
  let s ← if ok s then syncStream stream else pure s
  releaseStream stream
  return s.code

def MicroKernel.Serves : (c : MicroKernelCall) → MicroKernel → c.Answer → MicroKernel → Prop
  | .loadModule name source, m, r, m' =>
    Prog.Exec (Prog.allow anyBackend) (m.loadModule name source) () (r, m') ()
  | .acquireStream klass priority, m, h, m' => (h, m') = m.acquireStream klass priority
  | .releaseStream h, m, _, m' => m' = m.releaseStream h
  | .launch mod fn grid block smem stream args, m, s, m' =>
    m' = m ∧
      Prog.Exec (Prog.allow anyBackend) (m.launch mod fn grid block smem stream args) () s ()
  | .syncStream h, m, s, m' => m' = m ∧ Prog.Exec (Prog.allow anyBackend) (syncStream h) () s ()

end NexusRT.Firmware

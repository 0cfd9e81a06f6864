import NexusRT.Firmware.Driver

namespace NexusRT.Firmware

open Driver

inductive DmaKind
  | gdsRead | gdsWrite | grdmaSend | grdmaRecv | h2d | d2h | d2d
  deriving DecidableEq

structure DmaRequest where
  kind : DmaKind := .d2d
  dst : Ptr := 0
  src : Ptr := 0
  bytes : UInt64 := 0
  nvmePath : String := ""
  nvmeOffset : UInt64 := 0

structure CudaState where
  primary : Ptr := 0
  dmaRoot : Ptr := 0

namespace CudaPlatform

def cuToStatus : CuResult → Status
  | .success => .ok
  | .outOfMemory => .outOfMemory
  | .invalidValue => .invalidArgument
  | .notFound => .deviceNotFound
  | .notSupported => .notImplemented
  | .other _ => .driverError

theorem cuToStatus_eq_ok {r : CuResult} : cuToStatus r = .ok ↔ r = .success := by
  cases r <;> simp [cuToStatus]

def state : Option CudaState → DriverProg (Option CudaState)
  | some s => return some s
  | none => do
    let (r, primary) ← retainContext
    if r ≠ .success then return none else return some { primary }

def dmaSubmit (p : Option CudaState) (r : DmaRequest) :
    DriverProg ((Status × Option Ptr) × Option CudaState) := do
  let p ← state p
  match p with
  | none => return ((.invalidArgument, none), p)
  | some s =>
    let stream := s.dmaRoot
    match r.kind with
    | .h2d => do
      let cr ← memcpyHtoDAsync r.dst r.src r.bytes stream
      return ((cuToStatus cr, some stream), p)
    | .d2h => do
      let cr ← memcpyDtoHAsync r.dst r.src r.bytes stream
      return ((cuToStatus cr, some stream), p)
    | .d2d => do
      let cr ← memcpyDtoDAsync r.dst r.src r.bytes stream
      return ((cuToStatus cr, some stream), p)
    | .gdsRead => do
      let st ← gdsReadFallback r.nvmePath r.nvmeOffset r.dst r.bytes
      return ((st, none), p)
    | .gdsWrite => do
      let st ← gdsWriteFallback r.nvmePath r.nvmeOffset r.src r.bytes
      return ((st, none), p)
    | _ => return ((.notImplemented, none), p)

def dmaWait (ev : Ptr) (_ms : UInt32) : DriverProg Status :=
  if ev = 0 then return .ok else do
    let r ← streamSynchronize ev
    return cuToStatus r

def isBinaryPath (src : String) : Bool :=
  src.toList.head? = some '/' && decide (5 < src.utf8ByteSize) &&
    (decide (".cubin".toList <:+: src.toList) || decide (".fatbin".toList <:+: src.toList))

def loadImage (src : String) : DriverProg (CuResult × Ptr) :=
  if isBinaryPath src then moduleLoad src else moduleLoadData src

/-- The first result is the status with the `raw_module` and the `functions` of `out`. -/
def loadModule (p : Option CudaState) (_name src : String) :
    DriverProg ((Status × Ptr × Table String Ptr) × Option CudaState) := do
  let p ← state p
  if p.isNone then return ((.invalidArgument, 0, .empty), p) else
  let (r, mod) ← loadImage src
  if r ≠ .success then return ((cuToStatus r, 0, .empty), p) else
  return ((.ok, mod, .empty), p)

end CudaPlatform

structure MetalState where
  device : Ptr
  queue : Ptr

namespace MetalPlatform

def state : Option MetalState → DriverProg (Option MetalState)
  | some s => return some s
  | none => do
    let device ← createSystemDefaultDevice
    if device = 0 then return none else
    let queue ← newCommandQueue device
    return some { device, queue }

/-- Whatever the request is, the command buffer stays empty. -/
def dmaSubmit (p : Option MetalState) (_r : DmaRequest) :
    DriverProg ((Status × Option Ptr) × Option MetalState) := do
  let p ← state p
  match p with
  | none => return ((.invalidArgument, none), p)
  | some s => do
    let cb ← commandBuffer s.queue
    return ((.ok, some cb), p)

def dmaWait (ev : Ptr) (_ms : UInt32) : DriverProg Status :=
  if ev = 0 then return .ok else do
    waitUntilCompleted ev
    return .ok

def loadModule (p : Option MetalState) (_name src : String) :
    DriverProg ((Status × Ptr × Table String Ptr) × Option MetalState) := do
  let p ← state p
  if p.isNone then return ((.invalidArgument, 0, .empty), p) else
  let (err, lib) ← newLibraryWithSource src
  if err then return ((.driverError, 0, .empty), p) else
  return ((.ok, lib, .empty), p)

end MetalPlatform

inductive Shim
  | cuda (p : Option CudaState)
  | metal (p : Option MetalState)

namespace Shim

def dmaSubmit (r : DmaRequest) : Shim → DriverProg ((Status × Option Ptr) × Shim)
  | .cuda p => do
    let (out, p) ← CudaPlatform.dmaSubmit p r
    return (out, .cuda p)
  | .metal p => do
    let (out, p) ← MetalPlatform.dmaSubmit p r
    return (out, .metal p)

def dmaWait (ev : Ptr) (ms : UInt32) : Shim → DriverProg Status
  | .cuda _ => CudaPlatform.dmaWait ev ms
  | .metal _ => MetalPlatform.dmaWait ev ms

def loadModule (name src : String) : Shim → DriverProg ((Status × Ptr × Table String Ptr) × Shim)
  | .cuda p => do
    let (out, p) ← CudaPlatform.loadModule p name src
    return (out, .cuda p)
  | .metal p => do
    let (out, p) ← MetalPlatform.loadModule p name src
    return (out, .metal p)

/-- Metal has one memory for both sides. -/
def locate : Shim → Space → Space
  | .cuda _, s => s
  | .metal _, _ => .host

def dstSpace (shim : Shim) (r : DmaRequest) : Space :=
  shim.locate (if r.kind = .d2h then .host else .device)

def srcSpace (shim : Shim) (r : DmaRequest) : Space :=
  shim.locate (if r.kind = .h2d then .host else .device)

end Shim

def DmaEngine.submit (shim : Shim) (req : DmaRequest) : DriverProg ((Status × Option Ptr) × Shim) :=
  shim.dmaSubmit req

def DmaEngine.wait (shim : Shim) (event : Ptr) (timeoutMs : UInt32) : DriverProg Status :=
  shim.dmaWait event timeoutMs

end NexusRT.Firmware

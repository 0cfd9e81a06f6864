import NexusRT.Firmware.MicroKernel
import NexusRT.Memory.Manager

namespace NexusRT.Firmware

open Memory

structure DmaEngine where
  device : DeviceDesc
  gdsEnabled : Bool := false
  grdmaEnabled : Bool := false

namespace DmaEngine

def enableGds (e : DmaEngine) : PlatformProg (Status × DmaEngine) := do
  if !e.device.features.gds then return (.notImplemented, e) else
  let s ← Platform.gdsInit
  return (s, if ok s then { e with gdsEnabled := true } else e)

def enableGrdma (e : DmaEngine) : PlatformProg (Status × DmaEngine) := do
  if !e.device.features.grdma then return (.notImplemented, e) else
  let s ← Platform.grdmaInit
  return (s, if ok s then { e with grdmaEnabled := true } else e)

def finiGrdma (e : DmaEngine) : PlatformProg DmaEngine := do
  if !e.grdmaEnabled then return e else
  let _ ← Platform.grdmaFini
  return { e with grdmaEnabled := false }

def finiGds (e : DmaEngine) : PlatformProg DmaEngine := do
  if !e.gdsEnabled then return e else
  let _ ← Platform.gdsFini
  return { e with gdsEnabled := false }

def shutdown (e : DmaEngine) : PlatformProg DmaEngine := do
  let e ← e.finiGrdma
  e.finiGds

end DmaEngine

/-- The handler without its slots; a null pointer is no buffer. -/
structure FaultHandler where
  bufferSlots : UInt32
  hbmFaultBuffer : Ptr := 0

namespace FaultHandler

def sizeofFaultRecord : UInt64 := 40

def install (f : FaultHandler) (d : DeviceDesc) : PlatformProg (Status × FaultHandler) := do
  if d.vendor = .nvidia then return (.ok, f) else
  let (s, faultBuffer) ← Platform.allocHbm (f.bufferSlots.toUInt64 * sizeofFaultRecord)
  if !ok s then return (s, f) else
  -- a failure of the registration falls back to the software prefetcher
  let _ ← Platform.installFaultBuffer faultBuffer f.bufferSlots
  return (.ok, { f with hbmFaultBuffer := faultBuffer })

def uninstall (f : FaultHandler) : PlatformProg (Status × FaultHandler) := do
  if f.hbmFaultBuffer = 0 then return (.ok, f) else
  let _ ← Platform.uninstallFaultBuffer f.hbmFaultBuffer
  let _ ← Platform.freeHbm f.hbmFaultBuffer
  return (.ok, { f with hbmFaultBuffer := 0 })

end FaultHandler

structure BootOptions where
  profile : String := "auto"
  enableIlc : Bool := true
  enableGrdma : Bool := true
  enableGds : Bool := true
  faultBufferSlots : UInt32 := 4096
  streamPoolCompute : UInt32 := 8
  streamPoolDma : UInt32 := 4
  onEvent : Bool := false

/-- The `ilc` inside `mem` is a copy that is renewed from the context before each use. -/
structure FirmwareContext where
  device : DeviceDesc
  options : BootOptions := {}
  hbmPoolBytes : UInt64 := 0
  microkernel : Option MicroKernel := none
  dma : Option DmaEngine := none
  faults : Option FaultHandler := none
  ilc : Option IlcManager := none
  mem : Option MemoryManager := none

namespace FirmwareContext

def memory (ctx : FirmwareContext) : MemoryManager := { ctx.mem.getD {} with ilc := ctx.ilc }

def withMemory (ctx : FirmwareContext) (m : MemoryManager) : FirmwareContext :=
  { ctx with mem := some m, ilc := m.ilc }

def uninstallFaults (ctx : FirmwareContext) : PlatformProg (Status × FirmwareContext) :=
  match ctx.faults with
  | none => return (.ok, ctx)
  | some f => do
    let (s, f) ← f.uninstall
    return (s, { ctx with faults := some f })

def drainStreams (ctx : FirmwareContext) : PlatformProg FirmwareContext :=
  match ctx.microkernel with
  | none => return ctx
  | some m => do
    let m ← m.drainStreams
    return { ctx with microkernel := some m }

def shutdownDma (ctx : FirmwareContext) : PlatformProg FirmwareContext :=
  match ctx.dma with
  | none => return ctx
  | some e => do
    let e ← e.shutdown
    return { ctx with dma := some e }

def disableIlc (ctx : FirmwareContext) : PlatformProg FirmwareContext :=
  match ctx.ilc with
  | none => return ctx
  | some i => do
    let (_, i) ← i.disable
    return { ctx with ilc := some i }

def destroyMemory (ctx : FirmwareContext) : PlatformProg FirmwareContext :=
  match ctx.mem with
  | none => return ctx
  | some m => do
    let m ← { m with ilc := ctx.ilc }.destructor
    return { ctx with mem := none, ilc := m.ilc }

def destructor (ctx : FirmwareContext) : PlatformProg Unit := do
  let ctx ← ctx.destroyMemory
  let ctx ← ctx.disableIlc
  let (_, ctx) ← ctx.uninstallFaults
  let ctx ← ctx.shutdownDma
  let _ ← ctx.drainStreams
  return ()

end FirmwareContext

end NexusRT.Firmware

import NexusRT.Firmware.Context

namespace NexusRT.Firmware

inductive BootPhase
  | preInit | driverProbe | clockConfig | hbmController | dmaEngine | schedulerSpawn | faultHandler
  | ilcInit | ready
  deriving DecidableEq, Repr

structure BootEvent where
  phase : BootPhase
  status : Status
  detail : String
  deriving DecidableEq, Repr

structure BootResult where
  status : Status := .ok
  device : DeviceDesc := {}
  ctx : Option FirmwareContext := none

def emit (opts : BootOptions) (events : List BootEvent) (phase : BootPhase) (status : Status)
    (detail : String) : List BootEvent :=
  if opts.onEvent then events ++ [⟨phase, status, detail⟩] else events

def probeDriver (opts : BootOptions) : PlatformProg (Status × DeviceDesc) := do
  if !(← Platform.probe) then return (.deviceNotFound, {}) else
  let out ← Platform.describeDevice opts.profile
  if out.vendor = .unknown then return (.deviceNotFound, out) else
  return (.ok, out)

def initHbm (d : DeviceDesc) (ctx : FirmwareContext) : PlatformProg (Status × FirmwareContext) := do
  let hbmPoolBytes := min d.hbmCapacityBytes (d.hbmCapacityBytes * 85 / 100)
  let ctx := { ctx with hbmPoolBytes }
  let s ← Platform.reserveVaddress ctx.hbmPoolBytes
  if !ok s then return (s, ctx) else
  let s ← Platform.mapHbmPool
  return (s, ctx)

def registerGds (d : DeviceDesc) (opts : BootOptions) (e : DmaEngine) :
    PlatformProg (Status × DmaEngine) :=
  if d.features.gds && opts.enableGds then e.enableGds else return (.ok, e)

def registerGrdma (d : DeviceDesc) (opts : BootOptions) (e : DmaEngine) :
    PlatformProg (Status × DmaEngine) :=
  if d.features.grdma && opts.enableGrdma then e.enableGrdma else return (.ok, e)

def registerDma (d : DeviceDesc) (opts : BootOptions) (ctx : FirmwareContext) :
    PlatformProg (Status × FirmwareContext) := do
  let (s, e) ← registerGds d opts { device := d }
  if !ok s then return (s, { ctx with dma := some e }) else
  let (s, e) ← registerGrdma d opts e
  return (s, { ctx with dma := some e })

def spawnScheduler (d : DeviceDesc) (opts : BootOptions) (ctx : FirmwareContext) :
    PlatformProg (Status × FirmwareContext) := do
  let m : MicroKernel := { arch := d.arch }
  let (s, m) ← m.spawnStreamPool opts.streamPoolCompute opts.streamPoolDma
  return (s, { ctx with microkernel := some m })

def attachFaultHandler (d : DeviceDesc) (opts : BootOptions) (ctx : FirmwareContext) :
    PlatformProg (Status × FirmwareContext) := do
  let f : FaultHandler := { bufferSlots := opts.faultBufferSlots }
  let (s, f) ← f.install d
  return (s, { ctx with faults := some f })

def initIlc (d : DeviceDesc) (opts : BootOptions) (ctx : FirmwareContext) :
    Status × FirmwareContext :=
  if !d.features.ilc || !opts.enableIlc then (.ok, { ctx with ilc := none }) else
  let (s, i) := IlcManager.enable {} d
  (s, { ctx with ilc := some i })

def bootSubsystems (d : DeviceDesc) (opts : BootOptions) (ctx : FirmwareContext)
    (ev : List BootEvent) : PlatformProg (BootResult × List BootEvent) := do
  let (s, ctx) ← registerDma d opts ctx
  let ev := emit opts ev .dmaEngine s (if ok s then "DMA engines up" else "DMA init failed")
  if !ok s then return ({ status := s, ctx := some ctx }, ev) else
  let (s, ctx) ← spawnScheduler d opts ctx
  let ev := emit opts ev .schedulerSpawn s
    (if ok s then "stream pool ready" else "scheduler spawn failed")
  if !ok s then return ({ status := s, ctx := some ctx }, ev) else
  let (s, ctx) ← attachFaultHandler d opts ctx
  let ev := emit opts ev .faultHandler s
    (if ok s then "fault buffer installed" else "fault handler failed")
  if !ok s then return ({ status := s, ctx := some ctx }, ev) else
  let (s, ctx) := initIlc d opts ctx
  let ev := emit opts ev .ilcInit s (if ok s then "ILC ready" else "ILC skipped")
  let ev := emit opts ev .ready .ok "firmware-equivalent layer ready"
  return ({ status := .ok, device := d, ctx := some ctx }, ev)

def boot (opts : BootOptions) : PlatformProg (BootResult × List BootEvent) := do
  let ev := emit opts [] .preInit .ok "boot started"
  let (s, d) ← probeDriver opts
  let ev := emit opts ev .driverProbe s (if ok s then "driver found" else "no driver")
  if !ok s then return ({ status := s }, ev) else
  let ctx : FirmwareContext := { device := d, options := opts }
  let s ← Platform.lockClocks d
  let ev := emit opts ev .clockConfig s
    (if ok s then "clocks locked" else "clock lock failed (continuing)")
  let (s, ctx) ← initHbm d ctx
  let ev := emit opts ev .hbmController s (if ok s then "HBM pool mapped" else "HBM init failed")
  if !ok s then return ({ status := s, ctx := some ctx }, ev) else
  bootSubsystems d opts ctx ev

def shutdown (ctx : FirmwareContext) : PlatformProg (Status × FirmwareContext) := do
  let (last, ctx) ← ctx.uninstallFaults
  let ctx ← ctx.drainStreams
  let ctx ← ctx.shutdownDma
  let ctx ← ctx.disableIlc
  let s ← Platform.releaseVaddress
  return (if !ok s then s else last, ctx)

end NexusRT.Firmware

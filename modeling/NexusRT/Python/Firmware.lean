import NexusRT.Firmware.Registry

namespace NexusRT.Python

open Prog Firmware

inductive PyError
  | nexusRTError (code : Int) (name : String)
  | runtimeError (message : String)
  | indexError (message : String)
  deriving DecidableEq, Repr

def statusName (code : Int) : String :=
  match code with
  | 0 => "OK"
  | -1 => "INVALID_ARGUMENT"
  | -2 => "OUT_OF_MEMORY"
  | -3 => "OUT_OF_HBM"
  | -4 => "DEVICE_NOT_FOUND"
  | -5 => "DRIVER_ERROR"
  | -6 => "NOT_IMPLEMENTED"
  | -7 => "FAULT_BUFFER_OVERFLOW"
  | -8 => "CONTRACT_VIOLATION"
  | -9 => "TIMEOUT"
  | -10 => "IO_ERROR"
  | -11 => "ABORTED"
  | _ => "UNKNOWN"

def check (code : Int) : Except PyError Unit :=
  if code < 0 then .error (.nexusRTError code (statusName code)) else .ok ()

theorem check_status (s : Status) :
    check s.code = if s = .ok then .ok () else .error (.nexusRTError s.code (statusName s.code)) := by
  cases s <;> rfl

structure DeviceInfo where
  vendor : String
  arch : String
  name : String
  hbmBytes : ℕ
  smCount : ℕ
  features : List (String × Bool)
  deriving DecidableEq, Repr

def vendorNames (vendor : Int32) : String :=
  match vendor with
  | 1 => "nvidia"
  | 2 => "apple"
  | _ => "unknown"

def archNames (arch : Int32) : String :=
  match arch with
  | 1 => "ampere"
  | 2 => "hopper"
  | 3 => "apple_silicon"
  | 4 => "pascal"
  | 5 => "turing"
  | _ => "unknown"

def featureBits : List String := ["tma", "ilc", "dsm", "gds", "grdma", "clusters", "unified_native"]

structure DescBuffers where
  vendor : Int32 := 0
  arch : Int32 := 0
  name : String := ""
  hbm : UInt64 := 0
  sms : UInt32 := 0
  bits : UInt32 := 0

/-- `setCtx` and `getCtx` are the attribute `_ctx`; a null pointer object there is `some 0`. The call
of `nexusrt_firmware_init` stores the handle in that object. -/
inductive WrapperCall
  | setCtx (c : Option Ptr)
  | getCtx
  | firmwareInit (profile : String)
  | firmwareDeviceDesc (ctx : Ptr)
  | firmwareShutdown (ctx : Ptr)

abbrev WrapperCall.Answer : WrapperCall → Type
  | .setCtx _ => Unit
  | .getCtx => Option Ptr
  | .firmwareInit _ => Int
  | .firmwareDeviceDesc _ => Int × DescBuffers
  | .firmwareShutdown _ => Int

abbrev WrapperProg := Prog WrapperCall WrapperCall.Answer

namespace Wrapper

def setCtx (c : Option Ptr) : WrapperProg Unit := .op (WrapperCall.setCtx c)

def getCtx : WrapperProg (Option Ptr) := .op WrapperCall.getCtx

def nexusrtFirmwareInit (profile : String) : WrapperProg Int :=
  .op (WrapperCall.firmwareInit profile)

def nexusrtFirmwareDeviceDesc (ctx : Ptr) : WrapperProg (Int × DescBuffers) :=
  .op (WrapperCall.firmwareDeviceDesc ctx)

def nexusrtFirmwareShutdown (ctx : Ptr) : WrapperProg Int := .op (WrapperCall.firmwareShutdown ctx)

def deviceInfo : WrapperProg (Except PyError DeviceInfo) := do
  let c ← getCtx
  match c with
  | none => return .error (.runtimeError "firmware not initialized — call init() first")
  | some ctx => do
    let (rc, d) ← nexusrtFirmwareDeviceDesc ctx
    match check rc with
    | .error e => return .error e
    | .ok () => return .ok {
        vendor := vendorNames d.vendor
        arch := archNames d.arch
        name := d.name
        hbmBytes := d.hbm.toNat
        smCount := d.sms.toNat
        features := featureBits.mapIdx fun i bit => (bit, d.bits.toNat.testBit i) }

def init (profile : String) : WrapperProg (Except PyError DeviceInfo) := do
  setCtx (some 0)
  let rc ← nexusrtFirmwareInit profile
  match check rc with
  | .error e => return .error e
  | .ok () => deviceInfo

def shutdown : WrapperProg (Except PyError Unit) := do
  let c ← getCtx
  match c with
  | none => return .ok ()
  | some ctx => do
    let rc ← nexusrtFirmwareShutdown ctx
    match check rc with
    | .error e => return .error e
    | .ok () => do
      setCtx none
      return .ok ()

def ctx (c : Option Ptr) : Except PyError Ptr :=
  match c with
  | none => .error (.runtimeError
      "firmware not initialized — call nexusrt.firmware.init() first")
  | some ctx => .ok ctx

end Wrapper

structure AbiOutcome where
  booted : Status
  address : Ptr
  described : Int
  closed : Status

/-- `created` are the contexts that `nexusrt_firmware_init` has made, `passed` those that
`nexusrt_firmware_shutdown` was called for. -/
structure WrapperState where
  ctx : Option Ptr := none
  abi : HandleState := {}
  created : List ContextRef := []
  passed : List ContextRef := []

namespace AbiOutcome

def Answers (e : AbiOutcome) : (c : RegistryCall) → c.Answer → Prop
  | .boot _ _, .error s => s = e.booted
  | .boot _ _, .ok _ => e.booted = .ok
  | .use _, code => code = e.described
  | .shutdown _, s => s = e.closed
  | _, _ => True

def Registers (e : AbiOutcome) (c : RegistryCall) (w : HandleState) (r : c.Answer)
    (w' : HandleState) : Prop :=
  e.Answers c r ∧ HandleState.Serves c w r w'

def describe (sp : ContextRef) : RegistryProg Int := .op (RegistryCall.use sp)

def Serves (e : AbiOutcome) : (c : WrapperCall) → WrapperState → c.Answer → WrapperState → Prop
  | .setCtx c, s, _, s' => s' = { s with ctx := c }
  | .getCtx, s, c, s' => c = s.ctx ∧ s' = s
  | .firmwareInit profile, s, rc, s' => ∃ out w,
      Exec e.Registers (Registry.nexusrtFirmwareInit (some profile) true e.address) s.abi (rc, out) w ∧
      s' = { s with
        ctx := out.or s.ctx
        abi := w
        created := (out.bind w.registry.find).toList ++ s.created }
  | .firmwareDeviceDesc k, s, r, s' => ∃ w,
      Exec e.Registers (Registry.withHandle k describe) s.abi r.1 w ∧ (r.1 < 0 → r.2 = {}) ∧
      s' = { s with abi := w }
  | .firmwareShutdown k, s, rc, s' => ∃ w,
      Exec e.Registers (Registry.nexusrtFirmwareShutdown k) s.abi rc w ∧
      s' = { s with abi := w, passed := (s.abi.registry.find k).toList ++ s.passed }

end AbiOutcome

inductive WrapperMethod
  | init (profile : String)
  | shutdown

def WrapperMethod.run : WrapperMethod → WrapperProg (Except PyError Unit)
  | .init profile => do
    let r ← Wrapper.init profile
    return r.map fun _ => ()
  | .shutdown => Wrapper.shutdown

def WrapperStep (s : WrapperState) (c : WrapperMethod × AbiOutcome) (s' : WrapperState) : Prop :=
  ∃ r, Exec c.2.Serves c.1.run s r s'

end NexusRT.Python

import NexusRT.Library.Interleave
import NexusRT.Library.Table
import NexusRT.Library.Trace
import NexusRT.Types

/-!
The registry of handles behind the C interface, and the calls that use it.
-/

namespace NexusRT.Firmware

open Prog Interleave

/-- A context; the number tells it from all others that ever lie at its address. -/
structure ContextRef where
  number : ℕ
  address : Ptr
  deriving DecidableEq

/-- `boot` comes with the address that the allocator chooses. `drop` is the end of one shared
pointer. `enter` and `returned` are ghosts for the begin and the end of a call; `dump` marks
`nexusrt_metrics_dump`, and `shutdownOf` is the handle of a shutdown. -/
inductive RegistryCall
  | boot (profile : String) (address : Ptr)
  | registerHandle (k : Ptr) (sp : ContextRef)
  | lookupHandle (k : Ptr)
  | takeHandle (k : Ptr)
  | use (sp : ContextRef)
  | shutdown (sp : ContextRef)
  | drop (sp : ContextRef)
  | enter (k : Ptr) (dump : Bool)
  | returned (shutdownOf : Option Ptr) (code : Int)

/-- A boot that fails leaves no context; `enter` answers whether a shutdown of the handle has
returned Ok before. -/
abbrev RegistryCall.Answer : RegistryCall → Type
  | .boot _ _ => Except Status ContextRef
  | .registerHandle _ _ => Unit
  | .lookupHandle _ => Option ContextRef
  | .takeHandle _ => Option ContextRef
  | .use _ => Int
  | .shutdown _ => Status
  | .drop _ => Unit
  | .enter _ _ => Bool
  | .returned _ _ => Unit

abbrev RegistryProg := Prog RegistryCall RegistryCall.Answer

namespace Registry

def boot (profile : String) (address : Ptr) : RegistryProg (Except Status ContextRef) :=
  .op (RegistryCall.boot profile address)

def registerHandle (k : Ptr) (sp : ContextRef) : RegistryProg Unit :=
  .op (RegistryCall.registerHandle k sp)

def lookupHandle (k : Ptr) : RegistryProg (Option ContextRef) := .op (RegistryCall.lookupHandle k)

def takeHandle (k : Ptr) : RegistryProg (Option ContextRef) := .op (RegistryCall.takeHandle k)

def shutdown (sp : ContextRef) : RegistryProg Status := .op (RegistryCall.shutdown sp)

def drop (sp : ContextRef) : RegistryProg Unit := .op (RegistryCall.drop sp)

def enter (k : Ptr) (dump : Bool) : RegistryProg Bool := .op (RegistryCall.enter k dump)

def returned (shutdownOf : Option Ptr) (code : Int) : RegistryProg Unit :=
  .op (RegistryCall.returned shutdownOf code)

def nexusrtFirmwareInit (profile : Option String) (outCtx : Bool) (address : Ptr) :
    RegistryProg (Int × Option Ptr) :=
  if !outCtx then return (Status.invalidArgument.code, none) else do
    let r ← boot (profile.getD "auto") address
    match r with
    | .error s => return (s.code, none)
    | .ok ctx => do
      registerHandle ctx.address ctx
      drop ctx
      return (0, some ctx.address)

def nexusrtFirmwareShutdown (ctx : Ptr) : RegistryProg Int :=
  if ctx = 0 then return Status.invalidArgument.code else do
    let sp ← takeHandle ctx
    match sp with
    | none => return Status.invalidArgument.code
    | some sp => do
      let s ← shutdown sp
      drop sp
      return s.code

/-- The entry points that look their handle up and go on with the context: device_desc, task_submit,
fault_handler, mem_alloc, mem_free, mem_prefetch, mem_advise_read_mostly, submit_stage, wait_barrier,
stream_overlap, context_scope, prefetch_attention and token_prune. -/
def withHandle (ctx : Ptr) (body : ContextRef → RegistryProg Int) : RegistryProg Int := do
  let sp ← lookupHandle ctx
  match sp with
  | none => return Status.invalidArgument.code
  | some sp => do
    let code ← body sp
    drop sp
    return code

def kMetrics : String := "\x7b\"status\":\"not_implemented\"\x7d"

def nexusrtMetricsDump (_ctx : Ptr) (outJson : Bool) (cap : UInt64) : Int × Option String :=
  if !outJson || cap = 0 then (-1, none)
  else (0, some (String.ofList (kMetrics.toList.take (cap.toNat - 1))))

end Registry

open Registry

/-- One call of a client; `inits` is whether there are calls of `nexusrt_firmware_init`. -/
inductive AbiClient (inits : Prop) : RegistryProg Unit → Prop
  | init (h : inits) (profile : Option String) (outCtx : Bool) (address : Ptr) :
      AbiClient inits (nexusrtFirmwareInit profile outCtx address >>= fun _ => return ())
  | shutdown (ctx : Ptr) : AbiClient inits do
      let _ ← enter ctx false
      let code ← nexusrtFirmwareShutdown ctx
      returned (some ctx) code
  | entry (ctx : Ptr) (body : ContextRef → RegistryProg Int)
      (hbody : ∀ sp, Only (· = .use sp) (body sp)) : AbiClient inits do
      let _ ← enter ctx false
      let code ← withHandle ctx body
      returned none code
  | metricsDump (ctx : Ptr) (outJson : Bool) (cap : UInt64) : AbiClient inits do
      let _ ← enter ctx true
      returned none (nexusrtMetricsDump ctx outJson cap).1

/-- `pointers` has a context once for each shared pointer to it; a context without one is destroyed.
`retired` are the handles that a `take_handle` found, `closed` those whose shutdown returned Ok, and
`late` what the registry answered for a retired handle. -/
structure HandleState where
  registry : Table Ptr ContextRef := .empty
  pointers : List ContextRef := []
  made : ℕ := 0
  retired : List Ptr := []
  closed : List Ptr := []
  late : List (Option ContextRef) := []

namespace HandleState

def register (w : HandleState) (k : Ptr) (sp : ContextRef) : HandleState :=
  { w with
    registry := w.registry.insert k sp
    pointers := sp :: (w.registry.find k).elim w.pointers w.pointers.erase }

def asked (w : HandleState) (k : Ptr) : HandleState :=
  if k ∈ w.retired then { w with late := w.registry.find k :: w.late } else w

def lookup (w : HandleState) (k : Ptr) : HandleState :=
  match w.registry.find k with
  | none => w.asked k
  | some sp => { w.asked k with pointers := sp :: w.pointers }

def take (w : HandleState) (k : Ptr) : HandleState :=
  match w.registry.find k with
  | none => w.asked k
  | some _ => { w.asked k with registry := w.registry.erase k, retired := k :: w.retired }

def ended (w : HandleState) (shutdownOf : Option Ptr) (code : Int) : HandleState :=
  match shutdownOf with
  | none => w
  | some k => if code = 0 then { w with closed := k :: w.closed } else w

/-- A new context lies where no live one does. -/
def Serves : (c : RegistryCall) → HandleState → c.Answer → HandleState → Prop
  | .boot _ _, w, .error s, w' => s ≠ .ok ∧ w' = w
  | .boot _ a, w, .ok sp, w' => a ≠ 0 ∧ (∀ c ∈ w.pointers, c.address ≠ a) ∧ sp = ⟨w.made, a⟩ ∧
      w' = { w with pointers := sp :: w.pointers, made := w.made + 1 }
  | .registerHandle k sp, w, _, w' => w' = w.register k sp
  | .lookupHandle k, w, r, w' => r = w.registry.find k ∧ w' = w.lookup k
  | .takeHandle k, w, r, w' => r = w.registry.find k ∧ w' = w.take k
  | .use _, w, _, w' => w' = w
  | .shutdown _, w, _, w' => w' = w
  | .drop sp, w, _, w' => w' = { w with pointers := w.pointers.erase sp }
  | .enter k _, w, b, w' => b = decide (k ∈ w.closed) ∧ w' = w
  | .returned shutdownOf code, w, _, w' => w' = w.ended shutdownOf code

end HandleState

/-- What a call has done; `held` are its shared pointers, `fresh` a context it has not registered
yet, `asked` what the registry answered, `tried` the handle it wanted to take, and `closes` that of a
shutdown that has returned. -/
structure Call where
  handle : Option Ptr := none
  dump : Bool := false
  stale : Bool := false
  asked : Option (Option ContextRef) := none
  tried : Option Ptr := none
  took : Option Ptr := none
  fresh : Option ContextRef := none
  held : List ContextRef := []
  dropped : Bool := false
  touched : List ContextRef := []
  ran : Bool := false
  closes : Option Ptr := none
  code : Option Int := none

def Call.after : (c : RegistryCall) → c.Answer → Call → Call
  | .boot _ _, .error _, l => l
  | .boot _ _, .ok sp, l => { l with fresh := some sp, held := sp :: l.held }
  | .registerHandle _ _, _, l => { l with fresh := none }
  | .lookupHandle _, r, l => { l with asked := some r, held := r.toList ++ l.held }
  | .takeHandle k, r, l =>
    { l with asked := some r, tried := some k, took := r.map fun _ => k, held := r.toList ++ l.held }
  | .use sp, _, l => { l with touched := sp :: l.touched }
  | .shutdown sp, _, l => { l with touched := sp :: l.touched, ran := true }
  | .drop sp, _, l => { l with held := l.held.erase sp, dropped := true }
  | .enter k dump, stale, l => { l with handle := some k, dump, stale }
  | .returned shutdownOf code, _, l => { l with closes := shutdownOf, code := some code }

def abiClients (inits : Prop) : System RegistryCall RegistryCall.Answer HandleState Call where
  serves c w r w' := HandleState.Serves c w r w'
  client := AbiClient inits
  initial := {}
  after := Call.after

abbrev AbiThread := Thread RegistryCall RegistryCall.Answer Call

abbrev AbiPool := Pool RegistryCall RegistryCall.Answer HandleState Call

end NexusRT.Firmware

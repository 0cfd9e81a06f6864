import Mathlib.Tactic.Common

namespace NexusRT

abbrev Ptr := UInt64

inductive Status
  | ok | invalidArgument | outOfMemory | outOfHbm | deviceNotFound | driverError | notImplemented
  | faultBufferOverflow | contractViolation | timeout | ioError | aborted
  deriving DecidableEq, Repr

def Status.code : Status → Int
  | .ok => 0
  | .invalidArgument => -1
  | .outOfMemory => -2
  | .outOfHbm => -3
  | .deviceNotFound => -4
  | .driverError => -5
  | .notImplemented => -6
  | .faultBufferOverflow => -7
  | .contractViolation => -8
  | .timeout => -9
  | .ioError => -10
  | .aborted => -11

def ok (s : Status) : Bool := decide (0 ≤ s.code)

@[simp] theorem ok_iff (s : Status) : ok s = true ↔ s = .ok := by
  cases s <;> decide

@[simp] theorem ok_eq_false_iff (s : Status) : ok s = false ↔ s ≠ .ok := by
  cases s <;> decide

inductive Vendor
  | unknown | nvidia | apple
  deriving DecidableEq, Repr

inductive Arch
  | unknown | ampere | hopper | appleSilicon | pascal | turing
  deriving DecidableEq, Repr

structure FeatureFlags where
  ilc : Bool := false
  gds : Bool := false
  grdma : Bool := false

structure DeviceDesc where
  vendor : Vendor := .unknown
  arch : Arch := .unknown
  hbmCapacityBytes : UInt64 := 0
  smemPerSmBytes : UInt32 := 0
  features : FeatureFlags := {}

/-- `undeclared` is a value that a cast from an integer can produce and no enumerator names. -/
inductive StreamClass
  | compute | dma | fence | control
  | undeclared (value : UInt8)
  deriving DecidableEq, Repr

/-- `static_cast<StreamClass>` of an `int32_t`: the underlying type is `uint8_t`. -/
def StreamClass.ofInt32 (n : Int32) : StreamClass :=
  match n.toUInt32.toUInt8 with
  | 0 => .compute
  | 1 => .dma
  | 2 => .fence
  | 3 => .control
  | v => .undeclared v

structure AllocHints where
  ilc : Bool := false
  readMostly : Bool := false
  pinnedHost : Bool := false
  gdsReadable : Bool := false
  grdmaVisible : Bool := false
  preferredLocation : String := "device"
  deriving DecidableEq, Repr

structure Dim3 where
  x : UInt32 := 1
  y : UInt32 := 1
  z : UInt32 := 1
  deriving DecidableEq, Repr

end NexusRT

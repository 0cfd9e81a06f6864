import NexusRT.Firmware.Driver

namespace NexusRT.Firmware

inductive TmaSwizzle
  | none | b32 | b64 | b128
  deriving DecidableEq

structure TmaDescriptor where
  id : UInt64 := 0
  raw : Ptr := 0
  hostPtr : Ptr := 0
  hostSize : UInt64 := 0
  shape : Vector UInt64 5 := .replicate 5 0
  stride : Vector UInt64 5 := .replicate 5 0
  swizzle : TmaSwizzle := .b128
  elemSize : UInt32 := 2
  multicast : Bool := false
  clusterSize : UInt32 := 1
  deriving DecidableEq

structure TmaEngine where
  cache : Table String TmaDescriptor := .empty
  nextId : UInt64 := 1

/-- `tmaEncode` answers with its status and the raw descriptor that it stores. -/
inductive TmaCall
  | tmaEncode (d : TmaDescriptor)
  | tmaRelease (raw : Ptr)

abbrev TmaCall.Answer : TmaCall → Type
  | .tmaEncode _ => Status × Ptr
  | .tmaRelease _ => Status

abbrev TmaProg := Prog TmaCall TmaCall.Answer

namespace Tma

def tmaEncode (d : TmaDescriptor) : TmaProg (Status × Ptr) := .op (TmaCall.tmaEncode d)

def tmaRelease (raw : Ptr) : TmaProg Status := .op (TmaCall.tmaRelease raw)

end Tma

namespace TmaEngine

def encode (e : TmaEngine) (key : String) (hostTensorBase : Ptr) (elemSize : UInt32)
    (shape stride : Vector UInt64 5) (swizzle : TmaSwizzle) (multicast : Bool)
    (clusterSize : UInt32) : TmaProg ((Status × Option TmaDescriptor) × TmaEngine) :=
  match e.cache.find key with
  | some d => return ((.ok, some d), e)
  | none => do
    let d : TmaDescriptor :=
      { id := e.nextId, hostPtr := hostTensorBase, shape, stride, swizzle, elemSize, multicast,
        clusterSize }
    let e := { e with nextId := e.nextId + 1 }
    let (s, raw) ← Tma.tmaEncode d
    if !ok s then return ((s, none), e) else
    let d := { d with raw }
    return ((.ok, some d), { e with cache := e.cache.insert key d })

def lookup (e : TmaEngine) (key : String) : Option TmaDescriptor := e.cache.find key

def invalidate (e : TmaEngine) (key : String) : TmaProg TmaEngine :=
  match e.cache.find key with
  | none => return e
  | some d => do
    if d.raw ≠ 0 then
      let _ ← Tma.tmaRelease d.raw
    return { e with cache := e.cache.erase key }

def destructor (e : TmaEngine) : TmaProg Unit :=
  e.cache.entries.forM fun (_, d) => do
    if d.raw ≠ 0 then
      let _ ← Tma.tmaRelease d.raw
    return ()

end TmaEngine

inductive TensorMapDataType
  | bfloat16 | float32 | uint16
  deriving DecidableEq

structure EncodeTiled where
  dataType : TensorMapDataType
  rank : UInt32
  globalAddress : Ptr
  globalDim : Vector UInt64 5
  globalStrides : Vector UInt64 5
  boxDim : List UInt32
  elementStrides : List UInt32
  swizzle : TmaSwizzle

structure TensorMap where
  call : EncodeTiled
  result : CuResult

inductive TensorMapCall
  | encodeTiled (args : EncodeTiled)
  | new (m : TensorMap)
  | delete (p : Ptr)

abbrev TensorMapCall.Answer : TensorMapCall → Type
  | .encodeTiled _ => CuResult
  | .new _ => Ptr
  | .delete _ => Unit

abbrev TensorMapProg := Prog TensorMapCall TensorMapCall.Answer

namespace TensorMap

def encodeTiled (args : EncodeTiled) : TensorMapProg CuResult :=
  .op (TensorMapCall.encodeTiled args)

def new (m : TensorMap) : TensorMapProg Ptr := .op (TensorMapCall.new m)

def delete (p : Ptr) : TensorMapProg Unit := .op (TensorMapCall.delete p)

/-- The maps on the heap, while the driver answers `verdict`. -/
def Serves (verdict : CuResult) :
    (c : TensorMapCall) → (Ptr → Option TensorMap) → c.Answer → (Ptr → Option TensorMap) → Prop
  | .encodeTiled _, maps, r, maps' => r = verdict ∧ maps' = maps
  | .new m, maps, p, maps' =>
    p ≠ 0 ∧ maps p = none ∧ maps' = fun q => if q = p then some m else maps q
  | .delete p, maps, _, maps' => maps' = fun q => if q = p then none else maps q

end TensorMap

namespace CudaPlatform

def encodeArgs (d : TmaDescriptor) : EncodeTiled where
  dataType := if d.elemSize = 2 then .bfloat16 else if d.elemSize = 4 then .float32 else .uint16
  rank := 2
  globalAddress := d.hostPtr
  globalDim := d.shape
  globalStrides := d.stride
  boxDim := [128, 128]
  elementStrides := [1, 1]
  swizzle := d.swizzle

/-- `hopper` is whether the backend was built for it. -/
def tmaEncode (hopper : Bool) (d : TmaDescriptor) : TensorMapProg (Status × Ptr) :=
  if hopper then do
    let r ← TensorMap.encodeTiled (encodeArgs d)
    -- the result is not looked at: the map is copied as the call left it
    let raw ← TensorMap.new ⟨encodeArgs d, r⟩
    return (.ok, raw)
  else return (.notImplemented, 0)

def tmaRelease (raw : Ptr) : TensorMapProg Status :=
  if raw = 0 then return .ok
  else do
    TensorMap.delete raw
    return .ok

def tma (hopper : Bool) : (c : TmaCall) → TensorMapProg c.Answer
  | .tmaEncode d => tmaEncode hopper d
  | .tmaRelease raw => tmaRelease raw

end CudaPlatform

end NexusRT.Firmware

import NexusRT.Firmware.Context

/-!
The driver below the backends, as far as their copies and modules use it.
-/

namespace NexusRT.Firmware

inductive CuResult
  | success | outOfMemory | invalidValue | notFound | notSupported
  | other (code : UInt32)
  deriving DecidableEq

inductive Space
  | host | device
  deriving DecidableEq

abbrev Memory := Space → Ptr → UInt8

structure Copy where
  stream : Ptr
  dstSpace : Space
  dst : Ptr
  srcSpace : Space
  src : Ptr
  bytes : UInt64

def Copy.land (c : Copy) (m : Memory) : Memory := fun s p =>
  if s = c.dstSpace ∧ p - c.dst < c.bytes then m c.srcSpace (c.src + (p - c.dst)) else m s p

/-- A copy is complete only after its stream was synchronised. -/
structure Driver where
  memory : Memory
  pending : List Copy := []

namespace Driver

def enqueue (d : Driver) (c : Copy) : Driver := { d with pending := d.pending ++ [c] }

def synchronize (d : Driver) (stream : Ptr) : Driver where
  memory := (d.pending.filter (·.stream = stream)).foldl (fun m c => c.land m) d.memory
  pending := d.pending.filter (·.stream ≠ stream)

def bytesAt (d : Driver) (s : Space) (p : Ptr) (bytes : UInt64) : List UInt8 :=
  (List.range bytes.toNat).map fun i => d.memory s (p + UInt64.ofNat i)

end Driver

/-- `retainContext` stands for `cuDeviceGet`, `cuDevicePrimaryCtxRetain` and `cuCtxSetCurrent`, and
the two `gds` calls for the reads and writes of a file through a bounce buffer. -/
inductive DriverCall
  | retainContext
  | memcpyHtoDAsync (dst src : Ptr) (bytes : UInt64) (stream : Ptr)
  | memcpyDtoHAsync (dst src : Ptr) (bytes : UInt64) (stream : Ptr)
  | memcpyDtoDAsync (dst src : Ptr) (bytes : UInt64) (stream : Ptr)
  | streamSynchronize (stream : Ptr)
  | moduleLoad (path : String)
  | moduleLoadData (image : String)
  | gdsReadFallback (path : String) (off : UInt64) (dst : Ptr) (bytes : UInt64)
  | gdsWriteFallback (path : String) (off : UInt64) (src : Ptr) (bytes : UInt64)
  | createSystemDefaultDevice
  | newCommandQueue (device : Ptr)
  | commandBuffer (queue : Ptr)
  | waitUntilCompleted (buffer : Ptr)
  | newLibraryWithSource (code : String)

/-- A library comes with whether there was an error. -/
abbrev DriverCall.Answer : DriverCall → Type
  | .retainContext => CuResult × Ptr
  | .memcpyHtoDAsync _ _ _ _ => CuResult
  | .memcpyDtoHAsync _ _ _ _ => CuResult
  | .memcpyDtoDAsync _ _ _ _ => CuResult
  | .streamSynchronize _ => CuResult
  | .moduleLoad _ => CuResult × Ptr
  | .moduleLoadData _ => CuResult × Ptr
  | .gdsReadFallback _ _ _ _ => Status
  | .gdsWriteFallback _ _ _ _ => Status
  | .createSystemDefaultDevice => Ptr
  | .newCommandQueue _ => Ptr
  | .commandBuffer _ => Ptr
  | .waitUntilCompleted _ => Unit
  | .newLibraryWithSource _ => Bool × Ptr

abbrev DriverProg := Prog DriverCall DriverCall.Answer

namespace Driver

def copyCalled (d : Driver) (c : Copy) (r : CuResult) : Driver :=
  if r = .success then d.enqueue c else d

/-- A call may fail at any time. A new command buffer is empty. -/
def Serves : (c : DriverCall) → Driver → c.Answer → Driver → Prop
  | .memcpyHtoDAsync dst src bytes stream, d, r, d' =>
    d' = d.copyCalled ⟨stream, .device, dst, .host, src, bytes⟩ r
  | .memcpyDtoHAsync dst src bytes stream, d, r, d' =>
    d' = d.copyCalled ⟨stream, .host, dst, .device, src, bytes⟩ r
  | .memcpyDtoDAsync dst src bytes stream, d, r, d' =>
    d' = d.copyCalled ⟨stream, .device, dst, .device, src, bytes⟩ r
  | .streamSynchronize stream, d, r, d' => d' = if r = .success then d.synchronize stream else d
  | .gdsReadFallback _ _ _ _, d, _, d' => d'.pending = d.pending
  | .gdsWriteFallback _ _ _ _, d, _, d' => d'.pending = d.pending
  | .commandBuffer _, d, buffer, d' => (∀ c ∈ d.pending, c.stream ≠ buffer) ∧ d' = d
  | .waitUntilCompleted buffer, d, _, d' => d' = d.synchronize buffer
  | _, d, _, d' => d' = d

def retainContext : DriverProg (CuResult × Ptr) := .op DriverCall.retainContext

def memcpyHtoDAsync (dst src : Ptr) (bytes : UInt64) (stream : Ptr) : DriverProg CuResult :=
  .op (DriverCall.memcpyHtoDAsync dst src bytes stream)

def memcpyDtoHAsync (dst src : Ptr) (bytes : UInt64) (stream : Ptr) : DriverProg CuResult :=
  .op (DriverCall.memcpyDtoHAsync dst src bytes stream)

def memcpyDtoDAsync (dst src : Ptr) (bytes : UInt64) (stream : Ptr) : DriverProg CuResult :=
  .op (DriverCall.memcpyDtoDAsync dst src bytes stream)

def streamSynchronize (stream : Ptr) : DriverProg CuResult :=
  .op (DriverCall.streamSynchronize stream)

def moduleLoad (path : String) : DriverProg (CuResult × Ptr) := .op (DriverCall.moduleLoad path)

def moduleLoadData (image : String) : DriverProg (CuResult × Ptr) :=
  .op (DriverCall.moduleLoadData image)

def gdsReadFallback (path : String) (off : UInt64) (dst : Ptr) (bytes : UInt64) :
    DriverProg Status := .op (DriverCall.gdsReadFallback path off dst bytes)

def gdsWriteFallback (path : String) (off : UInt64) (src : Ptr) (bytes : UInt64) :
    DriverProg Status := .op (DriverCall.gdsWriteFallback path off src bytes)

def createSystemDefaultDevice : DriverProg Ptr := .op DriverCall.createSystemDefaultDevice

def newCommandQueue (device : Ptr) : DriverProg Ptr := .op (DriverCall.newCommandQueue device)

def commandBuffer (queue : Ptr) : DriverProg Ptr := .op (DriverCall.commandBuffer queue)

def waitUntilCompleted (buffer : Ptr) : DriverProg Unit :=
  .op (DriverCall.waitUntilCompleted buffer)

def newLibraryWithSource (code : String) : DriverProg (Bool × Ptr) :=
  .op (DriverCall.newLibraryWithSource code)

theorem synchronize_memory {d : Driver} {stream : Ptr} (h : ∀ c ∈ d.pending, c.stream ≠ stream) :
    (d.synchronize stream).memory = d.memory := by
  have hnone : d.pending.filter (·.stream = stream) = [] := by
    rw [List.filter_eq_nil_iff]
    exact fun c hc => by simpa using h c hc
  rw [synchronize, hnone]
  rfl

theorem copyCalled_memory (d : Driver) (c : Copy) (r : CuResult) :
    (d.copyCalled c r).memory = d.memory := by
  rw [copyCalled]
  split
  · rfl
  · rfl

theorem bytesAt_eq {d d' : Driver} (h : d'.memory = d.memory) (s : Space) (p : Ptr)
    (bytes : UInt64) : d'.bytesAt s p bytes = d.bytesAt s p bytes := by
  rw [bytesAt, bytesAt, h]

end Driver

end NexusRT.Firmware

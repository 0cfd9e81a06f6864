import NexusRT.Firmware.IlcManager
import NexusRT.Memory.PageTable

namespace NexusRT.Memory

open Firmware

structure Allocation where
  vaddr : UInt64 := 0
  bytes : UInt64 := 0
  hints : AllocHints := {}
  hbmPtr : Ptr := 0
  hostPtr : Ptr := 0
  ilcTagged : Bool := false
  deriving DecidableEq, Repr

/-- `ilc` is the compression manager of the context, if there is one. -/
structure MemoryManager where
  pageTable : PageTableManager := {}
  ilc : Option IlcManager := none
  live : Table Ptr Allocation := .empty
  bytesAllocated : UInt64 := 0

namespace MemoryManager

def adviseReadMostly (m : MemoryManager) (hbmPtr : Ptr) (bytes : UInt64) (now : UInt64 → UInt64) :
    Status × MemoryManager :=
  let (s, pageTable) := m.pageTable.mapRange hbmPtr bytes .hbm hbmPtr now
  (s, { m with pageTable })

def tagIlc (m : MemoryManager) (out : Allocation) : PlatformProg (Allocation × MemoryManager) :=
  match m.ilc with
  | none => return (out, m)
  | some ilc =>
    if out.hints.ilc && ilc.enabled then do
      let (s, ilc) ← ilc.tag out.hbmPtr out.bytes
      return ({ out with ilcTagged := ok s }, { m with ilc := some ilc })
    else return (out, m)

/-- `now` and `later` are the clock readings of the two times a page may be mapped. -/
def alloc (m : MemoryManager) (bytes : UInt64) (hints : AllocHints) (out : Allocation)
    (now later : UInt64 → UInt64) : PlatformProg (Status × Allocation × MemoryManager) := do
  if bytes = 0 then return (.invalidArgument, out, m) else
  let (s, hbm) ← Platform.allocHbm bytes
  if !ok s then return (s, out, m) else
  let (out, m) ← m.tagIlc { out with vaddr := hbm, bytes, hints, hbmPtr := hbm }
  let m := { m with pageTable := (m.pageTable.mapRange out.vaddr bytes .hbm hbm now).2 }
  let m := if hints.readMostly then (m.adviseReadMostly hbm bytes later).2 else m
  return (.ok, out, { m with
    live := m.live.insert hbm out
    bytesAllocated := m.bytesAllocated + bytes })

def untagIlc (m : MemoryManager) (a : Allocation) : PlatformProg MemoryManager :=
  match m.ilc with
  | none => return m
  | some ilc =>
    if a.ilcTagged then do
      let (_, ilc) ← ilc.untag a.hbmPtr
      return { m with ilc := some ilc }
    else return m

def free (m : MemoryManager) (a : Allocation) : PlatformProg (Status × MemoryManager) :=
  match m.live.find a.hbmPtr with
  | none => return (.invalidArgument, m)
  | some _ => do
    let m ← m.untagIlc a
    let m := { m with pageTable := (m.pageTable.unmapRange a.vaddr a.bytes).2 }
    let s ← Platform.freeHbm a.hbmPtr
    if !ok s then return (s, m) else
    return (.ok, { m with
      bytesAllocated := m.bytesAllocated - a.bytes
      live := m.live.erase a.hbmPtr })

def releaseMemory (a : Allocation) : PlatformProg Unit :=
  if a.hbmPtr ≠ 0 then do
    let _ ← Platform.freeHbm a.hbmPtr
    return ()
  else return ()

def releaseEach : List Allocation → MemoryManager → PlatformProg MemoryManager
  | [], m => return m
  | a :: as, m => do
    releaseMemory a
    let m ← m.untagIlc a
    releaseEach as m

def destructor (m : MemoryManager) : PlatformProg MemoryManager := do
  let m ← releaseEach (m.live.entries.map Prod.snd) m
  return { m with live := .empty }

end MemoryManager

/-- `ctx` is whether `lookup_handle` finds the context; the answer holds what is stored in
`*out_ptr`. -/
def nexusrtMemAlloc (ctx : Bool) (m : MemoryManager) (bytes : UInt64) (flags : UInt32)
    (now later : UInt64 → UInt64) : PlatformProg ((Int × Option Ptr) × MemoryManager) := do
  if !ctx then return ((Status.invalidArgument.code, none), m) else
  let h : AllocHints := {
    ilc := flags &&& 0x01 ≠ 0
    readMostly := flags &&& 0x02 ≠ 0
    pinnedHost := flags &&& 0x04 ≠ 0
    gdsReadable := flags &&& 0x08 ≠ 0
    grdmaVisible := flags &&& 0x10 ≠ 0 }
  let (s, a, m) ← m.alloc bytes h {} now later
  if !ok s then return ((s.code, none), m) else
  return ((0, some a.hbmPtr), m)

def nexusrtMemFree (ctx : Bool) (m : MemoryManager) (ptr : Ptr) :
    PlatformProg (Int × MemoryManager) := do
  if !ctx then return (Status.invalidArgument.code, m) else
  let (s, m) ← m.free { hbmPtr := ptr }
  return (s.code, m)

end NexusRT.Memory

import NexusRT.Platform

namespace NexusRT.Firmware

structure IlcManager where
  enabled : Bool := false
  totalBytes : UInt64 := 0
  totalAllocs : UInt64 := 0
  tagged : Table Ptr Unit := .empty

namespace IlcManager

def enable (i : IlcManager) (d : DeviceDesc) : Status × IlcManager :=
  if !d.features.ilc then (.notImplemented, i) else (.ok, { i with enabled := true })

def disable (i : IlcManager) : PlatformProg (Status × IlcManager) := do
  if !i.enabled then return (.ok, i) else
  i.tagged.keys.forM fun h => do
    let _ ← Platform.ilcUntag h
    return ()
  return (.ok, { i with tagged := .empty, enabled := false })

def tag (i : IlcManager) (allocHandle : Ptr) (bytes : UInt64) :
    PlatformProg (Status × IlcManager) := do
  if !i.enabled then return (.notImplemented, i) else
  let s ← Platform.ilcTag allocHandle
  if !ok s then return (s, i) else
  return (.ok, { i with
    tagged := i.tagged.insert allocHandle ()
    totalBytes := i.totalBytes + bytes
    totalAllocs := i.totalAllocs + 1 })

def untag (i : IlcManager) (allocHandle : Ptr) : PlatformProg (Status × IlcManager) := do
  if !i.enabled then return (.ok, i)
  else if !i.tagged.contains allocHandle then return (.invalidArgument, i) else
  let s ← Platform.ilcUntag allocHandle
  return (s, { i with tagged := i.tagged.erase allocHandle })

end IlcManager

end NexusRT.Firmware

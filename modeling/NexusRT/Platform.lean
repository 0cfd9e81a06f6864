import NexusRT.Library.Prog
import NexusRT.Library.Table
import NexusRT.Types

namespace NexusRT

inductive PlatformCall
  | allocHbm (bytes : UInt64)
  | freeHbm (p : Ptr)
  | createStream (klass : StreamClass) (priority : Int32)
  | syncStream (stream : Ptr)
  | loadModule (name source : String)
  | launchKernel (fn : Ptr) (grid block : Dim3) (smem : UInt32) (stream : Ptr) (args : List Ptr)
  | ilcTag (alloc : Ptr)
  | ilcUntag (alloc : Ptr)
  | probe
  | describeDevice (profile : String)
  | lockClocks (d : DeviceDesc)
  | reserveVaddress (bytes : UInt64)
  | mapHbmPool
  | releaseVaddress
  | destroyStream (stream : Ptr)
  | gdsInit
  | gdsFini
  | grdmaInit
  | grdmaFini
  | installFaultBuffer (buf : Ptr) (slots : UInt32)
  | uninstallFaultBuffer (buf : Ptr)

/-- What a call returns: its status, and what it stores in its out-parameters. -/
abbrev PlatformCall.Answer : PlatformCall → Type
  | .allocHbm _ => Status × Ptr
  | .freeHbm _ => Status
  | .createStream _ _ => Status × Ptr
  | .syncStream _ => Status
  | .loadModule _ _ => Status × Ptr × Table String Ptr
  | .launchKernel _ _ _ _ _ _ => Status
  | .ilcTag _ => Status
  | .ilcUntag _ => Status
  | .probe => Bool
  | .describeDevice _ => DeviceDesc
  | .lockClocks _ => Status
  | .reserveVaddress _ => Status
  | .mapHbmPool => Status
  | .releaseVaddress => Status
  | .destroyStream _ => Status
  | .gdsInit => Status
  | .gdsFini => Status
  | .grdmaInit => Status
  | .grdmaFini => Status
  | .installFaultBuffer _ _ => Status
  | .uninstallFaultBuffer _ => Status

abbrev PlatformProg := Prog PlatformCall PlatformCall.Answer

def anyBackend (c : PlatformCall) (_ : c.Answer) : Prop := True

namespace Platform

def allocHbm (bytes : UInt64) : PlatformProg (Status × Ptr) := .op (PlatformCall.allocHbm bytes)

def freeHbm (p : Ptr) : PlatformProg Status := .op (PlatformCall.freeHbm p)

def createStream (klass : StreamClass) (priority : Int32) : PlatformProg (Status × Ptr) :=
  .op (PlatformCall.createStream klass priority)

def syncStream (stream : Ptr) : PlatformProg Status := .op (PlatformCall.syncStream stream)

def loadModule (name source : String) : PlatformProg (Status × Ptr × Table String Ptr) :=
  .op (PlatformCall.loadModule name source)

def launchKernel (fn : Ptr) (grid block : Dim3) (smem : UInt32) (stream : Ptr) (args : List Ptr) :
    PlatformProg Status := .op (PlatformCall.launchKernel fn grid block smem stream args)

def ilcTag (alloc : Ptr) : PlatformProg Status := .op (PlatformCall.ilcTag alloc)

def ilcUntag (alloc : Ptr) : PlatformProg Status := .op (PlatformCall.ilcUntag alloc)

def probe : PlatformProg Bool := .op PlatformCall.probe

def describeDevice (profile : String) : PlatformProg DeviceDesc :=
  .op (PlatformCall.describeDevice profile)

def lockClocks (d : DeviceDesc) : PlatformProg Status := .op (PlatformCall.lockClocks d)

def reserveVaddress (bytes : UInt64) : PlatformProg Status :=
  .op (PlatformCall.reserveVaddress bytes)

def mapHbmPool : PlatformProg Status := .op PlatformCall.mapHbmPool

def releaseVaddress : PlatformProg Status := .op PlatformCall.releaseVaddress

def destroyStream (stream : Ptr) : PlatformProg Status := .op (PlatformCall.destroyStream stream)

def gdsInit : PlatformProg Status := .op PlatformCall.gdsInit

def gdsFini : PlatformProg Status := .op PlatformCall.gdsFini

def grdmaInit : PlatformProg Status := .op PlatformCall.grdmaInit

def grdmaFini : PlatformProg Status := .op PlatformCall.grdmaFini

def installFaultBuffer (buf : Ptr) (slots : UInt32) : PlatformProg Status :=
  .op (PlatformCall.installFaultBuffer buf slots)

def uninstallFaultBuffer (buf : Ptr) : PlatformProg Status :=
  .op (PlatformCall.uninstallFaultBuffer buf)

end Platform

end NexusRT

import NexusRT.Library.Prog
import NexusRT.Types

namespace NexusRT.Firmware

inductive FetchCall
  | prefetchRange (vaddr bytes : UInt64)

def FetchCall.range : FetchCall → UInt64 × UInt64
  | .prefetchRange vaddr bytes => (vaddr, bytes)

abbrev FetchCall.Answer : FetchCall → Type
  | .prefetchRange _ _ => Status

abbrev FetchProg := Prog FetchCall FetchCall.Answer

def Fetches : (c : FetchCall) → c.Answer → Prop
  | .prefetchRange _ _, s => s = .ok

def succeedingFetch : (c : FetchCall) → c.Answer
  | .prefetchRange _ _ => .ok

namespace Fetch

def prefetchRange (vaddr bytes : UInt64) : FetchProg Status :=
  .op (FetchCall.prefetchRange vaddr bytes)

end Fetch

namespace FaultHandler

def injectFetchHint (vaddr bytes : UInt64) : FetchProg Status := Fetch.prefetchRange vaddr bytes

end FaultHandler

end NexusRT.Firmware

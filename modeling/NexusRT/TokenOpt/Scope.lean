import NexusRT.Firmware.FetchHints
import NexusRT.Types

namespace NexusRT.TokenOpt

open Firmware

inductive IcmLayer
  | l0System | l1Persona | l2Instructions | l3Reference | l4Working
  deriving DecidableEq

def IcmLayer.index : IcmLayer → Fin 5
  | .l0System => 0
  | .l1Persona => 1
  | .l2Instructions => 2
  | .l3Reference => 3
  | .l4Working => 4

structure LayerSpec where
  maxTokens : UInt32 := 0
  residency : String := ""
  hbmBase : UInt64 := 0
  bytesUsed : UInt64 := 0

def defaultLayers : Vector LayerSpec 5 :=
  #v[⟨256, "pinned", 0, 0⟩, ⟨512, "pinned", 0, 0⟩, ⟨1024, "hbm", 0, 0⟩, ⟨8192, "hbm_paged", 0, 0⟩,
    ⟨4096, "hbm_working", 0, 0⟩]

structure ContextScope where
  layers : Vector LayerSpec 5 := defaultLayers
  kvHbm : Ptr := 0
  kvBytes : UInt64 := 0
  maxResident : UInt32 := 0
  currentResident : UInt32 := 0

/-- `topk i` reads entry `i` of the array that the caller passes. -/
inductive ScopeCall
  | topk (i : ℕ)
  | fetch (c : FetchCall)

abbrev ScopeCall.Answer : ScopeCall → Type
  | .topk _ => UInt32
  | .fetch c => c.Answer

abbrev ScopeProg := Prog ScopeCall ScopeCall.Answer

namespace Scope

def topk (i : ℕ) : ScopeProg UInt32 := .op (ScopeCall.topk i)

def injectFetchHint (vaddr bytes : UInt64) : ScopeProg Status :=
  (FaultHandler.injectFetchHint vaddr bytes).translate ScopeCall.fetch (fun _ r => r)

end Scope

namespace ContextScope

def layer (s : ContextScope) (l : IcmLayer) : LayerSpec := s.layers[l.index]

def setLayer (s : ContextScope) (l : IcmLayer) (spec : LayerSpec) : ContextScope :=
  { s with layers := s.layers.set l.index spec }

def step (s : ContextScope) (_generatedSoFar : UInt32) : Status × ContextScope :=
  let layers := s.layers.set 4 { s.layers[4] with bytesUsed := s.layers[4].bytesUsed + 4 }
  let layers :=
    if layers[4].bytesUsed > layers[4].maxTokens.toUInt64 * 4 then
      let spill := layers[4].bytesUsed - layers[4].maxTokens.toUInt64 * 4
      let layers := layers.set 3 { layers[3] with bytesUsed := layers[3].bytesUsed + spill }
      layers.set 4 { layers[4] with bytesUsed := layers[4].bytesUsed - spill }
    else layers
  -- a layer 3 above its budget is only tested for: the branch is empty
  (.ok, { s with layers })

def bindKvCache (s : ContextScope) (kv : Ptr) (bytes : UInt64) (maxRes : UInt32) : ContextScope :=
  { s with kvHbm := kv, kvBytes := bytes, maxResident := maxRes, currentResident := 0 }

def prefetchSlot (s : ContextScope) (i : ℕ) : ScopeProg Unit := do
  let slot ← Scope.topk i
  let off := slot.toUInt64 * 4096
  if s.kvBytes ≤ off then return ()
  else do
    let _ ← Scope.injectFetchHint (s.kvHbm + off) 4096
    return ()

def prefetchAttention (s : ContextScope) (k : UInt32) : ScopeProg Status :=
  if s.kvHbm = 0 then return .invalidArgument
  else do
    (List.range k.toNat).forM s.prefetchSlot
    return .ok

def totalBytesUsed (s : ContextScope) : UInt64 :=
  s.layers.foldl (fun t l => t + l.bytesUsed) 0

end ContextScope

def nexusrtPrefetchAttention (found : Bool) (kvCache : Ptr) (nSlots : UInt64) : ScopeProg Status :=
  if !found then return .invalidArgument
  else
    let scope := ({} : ContextScope).bindKvCache kvCache (nSlots * 4096) nSlots.toUInt32
    scope.prefetchAttention (min nSlots 32).toUInt32

end NexusRT.TokenOpt

import NexusRT.Firmware.Degradation
import NexusRT.Firmware.Storage

namespace NexusRT.Firmware

open Prog

variable {s : CudaState} {path : String} {off : UInt64} {p : Ptr} {bytes : UInt64}

def cudaDriver (s : CudaState) : (c : DriverCall) → StorageProg c.Answer
  | .gdsReadFallback path off dst bytes => do
    let (st, _) ← CudaPlatform.gdsReadFallback (some s) path off dst bytes
    return st
  | .gdsWriteFallback path off src bytes => CudaPlatform.gdsWriteFallback path off src bytes
  | c => op (StorageCall.driver c)

def cudaTransfer (s : CudaState) : (c : TransferCall) → StorageProg c.Answer
  | .platform c => op (StorageCall.platform c)
  | .dmaSubmit r => do
    let (out, _) ← (CudaPlatform.dmaSubmit (some s) r).interp (cudaDriver s)
    return out
  | .dmaWait event timeoutMs => (CudaPlatform.dmaWait event timeoutMs).interp (cudaDriver s)
  | .gdsReadFallback path off dst bytes => do
    let (st, _) ← CudaPlatform.gdsReadFallback (some s) path off dst bytes
    return st
  | .gdsWriteFallback path off src bytes => CudaPlatform.gdsWriteFallback path off src bytes

theorem submitAndWait_interp {r : DmaRequest} {q : StorageProg Status}
    (hsubmit : cudaTransfer s (.dmaSubmit r) = q >>= fun st => pure (st, none)) :
    (Transfer.submitAndWait r).interp (cudaTransfer s) = q := by
  change (cudaTransfer s (.dmaSubmit r) >>= fun _ => _) = q
  rw [hsubmit, bind_bind]
  refine Eq.trans ?_ (bind_ret q)
  congr 1
  funext st
  cases st <;> rfl

theorem gdsRead_interp (e : DmaEngine) :
    (e.gdsRead path off p bytes).interp (cudaTransfer s) =
      cudaTransfer s (.gdsReadFallback path off p bytes) := by
  rw [DmaEngine.gdsRead]
  split
  · exact bind_ret _
  · apply submitAndWait_interp
    change (cudaDriver s (.gdsReadFallback path off p bytes) >>= fun st =>
      .ret ((st, none), some s)) >>= (fun r => .ret r.1) = _
    rw [bind_bind]
    rfl

theorem gdsWrite_interp (e : DmaEngine) :
    (e.gdsWrite path off p bytes).interp (cudaTransfer s) =
      cudaTransfer s (.gdsWriteFallback path off p bytes) := by
  rw [DmaEngine.gdsWrite]
  split
  · exact bind_ret _
  · apply submitAndWait_interp
    change (cudaDriver s (.gdsWriteFallback path off p bytes) >>= fun st =>
      .ret ((st, none), some s)) >>= (fun r => .ret r.1) = _
    rw [bind_bind]
    rfl

theorem gds_paths_agree (s : CudaState) (e : DmaEngine) (path : String) (off : UInt64) (p : Ptr)
    (bytes : UInt64) (w w' : Storage) (st : Status) :
    (Exec Storage.Serves
        (({ e with gdsEnabled := true }.gdsRead path off p bytes).interp (cudaTransfer s)) w st w' ↔
      Exec Storage.Serves
        (({ e with gdsEnabled := false }.gdsRead path off p bytes).interp (cudaTransfer s)) w st w') ∧
    (Exec Storage.Serves
        (({ e with gdsEnabled := true }.gdsWrite path off p bytes).interp (cudaTransfer s)) w st w' ↔
      Exec Storage.Serves
        (({ e with gdsEnabled := false }.gdsWrite path off p bytes).interp (cudaTransfer s)) w st w') := by
  constructor
  · rw [gdsRead_interp, gdsRead_interp]
  · rw [gdsWrite_interp, gdsWrite_interp]

end NexusRT.Firmware

import NexusRT.Firmware.Shims

namespace NexusRT.Firmware

open Prog

inductive CuMemCall
  | driver (c : DriverCall)
  | memAlloc (bytes : UInt64)
  | memFree (p : Ptr)

abbrev CuMemCall.Answer : CuMemCall → Type
  | .driver c => c.Answer
  | .memAlloc _ => CuResult × Ptr
  | .memFree _ => CuResult

abbrev CuMemProg := Prog CuMemCall CuMemCall.Answer

namespace CuMem

def memAlloc (bytes : UInt64) : CuMemProg (CuResult × Ptr) := .op (CuMemCall.memAlloc bytes)

def memFree (p : Ptr) : CuMemProg CuResult := .op (CuMemCall.memFree p)

/-- An address that `cuMemAlloc` gives is not one that the driver has given out and not got back;
`A` is what `cuMemFree` may answer, and a call that fails frees nothing. -/
def Serves (A : CuResult → Prop) : (c : CuMemCall) → List Ptr → c.Answer → List Ptr → Prop
  | .driver _, w, _, w' => w' = w
  | .memAlloc _, w, r, w' => (r.1 = .success ∧ r.2 ≠ 0 ∧ r.2 ∉ w ∧ w' = r.2 :: w) ∨
      (r.1 ≠ .success ∧ w' = w)
  | .memFree p, w, r, w' => A r ∧ ((r = .success ∧ p ∈ w ∧ w' = w.erase p) ∨
      (r ≠ .success ∧ w' = w))

end CuMem

namespace CudaPlatform

/-- A refused call stores nothing; the address is 0 then. -/
def allocHbm (p : Option CudaState) (bytes : UInt64) :
    CuMemProg ((Status × Ptr) × Option CudaState) := do
  let p ← (state p).translate CuMemCall.driver fun _ r => r
  if p.isNone then return ((.invalidArgument, 0), p) else
  let (r, ptr) ← CuMem.memAlloc bytes
  if r ≠ .success then return ((cuToStatus r, 0), p) else
  return ((.ok, ptr), p)

/-- The result of `cuMemFree` is dropped. -/
def freeHbm (ptr : Ptr) : CuMemProg Status :=
  if ptr = 0 then return .ok else do
    let _ ← CuMem.memFree ptr
    return .ok

end CudaPlatform

structure CudaDriver where
  entry : Option CudaState := none
  allocated : List Ptr := []

def CudaDriver.Serves (A : CuResult → Prop) :
    (c : PlatformCall) → CudaDriver → c.Answer → CudaDriver → Prop
  | .allocHbm bytes, d, r, d' =>
    Exec (CuMem.Serves A) (CudaPlatform.allocHbm d.entry bytes) d.allocated (r, d'.entry)
      d'.allocated
  | .freeHbm p, d, s, d' => d'.entry = d.entry ∧
    Exec (CuMem.Serves A) (CudaPlatform.freeHbm p) d.allocated s d'.allocated
  | .ilcTag _, d, s, d' => s = .ok ∧ d' = d
  | .ilcUntag _, d, s, d' => s = .ok ∧ d' = d
  | _, d, _, d' => d'.allocated = d.allocated

namespace CudaPlatform

variable {A : CuResult → Prop}

theorem state_over (p : Option CudaState) (w : List Ptr) :
    Always (CuMem.Serves A) ((state p).translate CuMemCall.driver fun _ r => r) w
      (fun _ w' => w' = w) := by
  rw [always_translate]
  cases p with
  | some s => rfl
  | none =>
    rintro ⟨r, primary⟩ w' ⟨_, hretain, _⟩
    obtain rfl : w' = w := hretain
    dsimp only [Prog.bind]
    split <;> rfl

theorem allocHbm_spec (p : Option CudaState) (bytes : UInt64) (w : List Ptr) :
    Always (CuMem.Serves A) (allocHbm p bytes) w (fun r w' =>
      (r.1.1 ≠ .ok ∧ w' = w) ∨ (r.1.1 = .ok ∧ r.1.2 ∉ w ∧ r.1.2 ≠ 0 ∧ w' = r.1.2 :: w)) := by
  rw [allocHbm, always_bind]
  apply always_mono (state_over p w)
  rintro p w₁ rfl
  split
  · exact .inl ⟨by simp, rfl⟩
  · rintro ⟨r, ptr⟩ w₂ (⟨hr, hptr, hnew, rfl⟩ | ⟨hr, rfl⟩)
    · obtain rfl : r = .success := hr
      exact .inr ⟨rfl, hnew, hptr, rfl⟩
    · have hr : r ≠ .success := hr
      dsimp only [Prog.bind]
      rw [if_pos hr]
      exact .inl ⟨fun hok => hr (cuToStatus_eq_ok.mp hok), rfl⟩

theorem freeHbm_spec {p : Ptr} (hp : p ≠ 0) (w : List Ptr) :
    Always (CuMem.Serves A) (freeHbm p) w (fun s w' => s = .ok ∧
      ((∃ r, A r ∧ r ≠ .success ∧ w' = w) ∨ (p ∈ w ∧ w' = w.erase p))) := by
  rw [freeHbm, if_neg hp]
  rintro r w' ⟨hA, ⟨_, hmem, rfl⟩ | ⟨hr, rfl⟩⟩
  · exact ⟨rfl, .inr ⟨hmem, rfl⟩⟩
  · exact ⟨rfl, .inl ⟨r, hA, hr, rfl⟩⟩

end CudaPlatform

end NexusRT.Firmware

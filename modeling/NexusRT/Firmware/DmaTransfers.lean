import NexusRT.Firmware.Shims

namespace NexusRT.Firmware

open Prog

inductive Backend
  | cuda | metal
  deriving DecidableEq

def Backend.shim : Backend → Shim
  | .cuda => .cuda none
  | .metal => .metal none

inductive ShimCall
  | submit (r : DmaRequest)
  | wait (event : Ptr) (timeoutMs : UInt32)
  | loadModule (name src : String)

namespace Shim

def apply (shim : Shim) : ShimCall → DriverProg Shim
  | .submit r => do
    let (_, shim) ← DmaEngine.submit shim r
    return shim
  | .wait event timeoutMs => do
    let _ ← DmaEngine.wait shim event timeoutMs
    return shim
  | .loadModule name src => do
    let (_, shim) ← shim.loadModule name src
    return shim

def history : List ShimCall → Shim → DriverProg Shim
  | [], shim => return shim
  | c :: cs, shim => do
    let shim ← shim.apply c
    history cs shim

/-- No code sets the stream for copies. -/
def Rootless : Shim → Prop
  | .cuda p => ∀ s, p = some s → s.dmaRoot = 0
  | .metal _ => True

def Transferred (shim : Shim) (r : DmaRequest) (d d' : Driver) : Prop :=
  d'.bytesAt (shim.dstSpace r) r.dst r.bytes = d.bytesAt (shim.srcSpace r) r.src r.bytes

instance (shim : Shim) (r : DmaRequest) (d d' : Driver) : Decidable (shim.Transferred r d d') :=
  inferInstanceAs (Decidable (_ = _))

end Shim

def IsCopy (r : DmaRequest) : Prop := r.kind = .h2d ∨ r.kind = .d2h ∨ r.kind = .d2d

section Cuda

theorem cudaState_spec (p : Option CudaState) (d : Driver) :
    Always Driver.Serves (CudaPlatform.state p) d
      (fun q d' => d' = d ∧ (Shim.Rootless (.cuda p) → Shim.Rootless (.cuda q))) := by
  cases p with
  | some s => exact ⟨rfl, id⟩
  | none =>
    rintro ⟨r, primary⟩ d' rfl
    change Always Driver.Serves (if r ≠ .success then return none
      else return (some { primary } : Option CudaState)) d' _
    split
    · exact ⟨rfl, fun _ => nofun⟩
    · refine ⟨rfl, fun _ s hs => ?_⟩
      rw [← Option.some.inj hs]

theorem cudaSubmit_spec (p : Option CudaState) (r : DmaRequest) (d : Driver)
    (hp : Shim.Rootless (.cuda p)) : Always Driver.Serves (CudaPlatform.dmaSubmit p r) d
      (fun out d' => Shim.Rootless (.cuda out.2) ∧ (IsCopy r → d'.memory = d.memory ∧
        (out.1.1 = .ok → out.1.2 = some 0))) := by
  rw [CudaPlatform.dmaSubmit, always_bind]
  apply always_mono (cudaState_spec p d)
  rintro q d' ⟨rfl, hq⟩
  have hroot := hq hp
  cases q with
  | none => exact ⟨hroot, fun _ => ⟨rfl, nofun⟩⟩
  | some s =>
    have hzero : s.dmaRoot = 0 := hroot s rfl
    cases hkind : r.kind with
    | h2d | d2h | d2d =>
      rintro cr d₁ rfl
      exact ⟨hroot, fun _ => ⟨d'.copyCalled_memory _ cr, fun _ => congrArg some hzero⟩⟩
    | gdsRead | gdsWrite =>
      intro st d₁ _
      exact ⟨hroot, fun hcopy => by simp [IsCopy, hkind] at hcopy⟩
    | grdmaSend | grdmaRecv => exact ⟨hroot, fun hcopy => by simp [IsCopy, hkind] at hcopy⟩

theorem cudaLoadModule_spec (p : Option CudaState) (name src : String) (d : Driver) :
    Always Driver.Serves (CudaPlatform.loadModule p name src) d (fun out _ =>
      out.1.2.2 = .empty ∧ (Shim.Rootless (.cuda p) → Shim.Rootless (.cuda out.2))) := by
  rw [CudaPlatform.loadModule, always_bind]
  apply always_mono (cudaState_spec p d)
  rintro q d' ⟨rfl, hq⟩
  split
  · exact ⟨rfl, hq⟩
  · rw [always_bind]
    apply always_mono (always_true _ _)
    rintro ⟨cr, mod⟩ _ _
    dsimp only
    split
    · exact ⟨rfl, hq⟩
    · exact ⟨rfl, hq⟩

theorem cudaWait_null (ms : UInt32) : CudaPlatform.dmaWait 0 ms = .ret .ok := rfl

end Cuda

section Metal

theorem metalState_spec (p : Option MetalState) (d : Driver) :
    Always Driver.Serves (MetalPlatform.state p) d (fun _ d' => d' = d) := by
  cases p with
  | some s => exact rfl
  | none =>
    rintro device d' rfl
    change Always Driver.Serves (if device = 0 then return none else
      Driver.newCommandQueue device >>= fun queue =>
        return (some { device, queue } : Option MetalState)) d' _
    split
    · exact rfl
    · rintro queue d₁ rfl
      exact rfl

theorem metalSubmit_spec (p : Option MetalState) (r : DmaRequest) (d : Driver) :
    Always Driver.Serves (MetalPlatform.dmaSubmit p r) d
      (fun out d' => d' = d ∧ (out.1.1 = .ok →
        ∃ cb, out.1.2 = some cb ∧ ∀ c ∈ d.pending, c.stream ≠ cb)) := by
  rw [MetalPlatform.dmaSubmit, always_bind]
  apply always_mono (metalState_spec p d)
  rintro q d' rfl
  cases q with
  | none => exact ⟨rfl, nofun⟩
  | some s =>
    rintro cb d₁ ⟨hempty, rfl⟩
    exact ⟨rfl, fun _ => ⟨cb, rfl, hempty⟩⟩

theorem metalWait_memory {ev : Ptr} {d : Driver} (hempty : ∀ c ∈ d.pending, c.stream ≠ ev)
    (ms : UInt32) : Always Driver.Serves (MetalPlatform.dmaWait ev ms) d
      (fun _ d' => d'.memory = d.memory) := by
  rw [MetalPlatform.dmaWait]
  split
  · exact rfl
  · rintro _ d' rfl
    exact Driver.synchronize_memory hempty

end Metal

namespace Shim

theorem submit_rootless (shim : Shim) (r : DmaRequest) (d : Driver) (h : shim.Rootless) :
    Always Driver.Serves (DmaEngine.submit shim r) d (fun out _ => out.2.Rootless) := by
  cases shim with
  | cuda p =>
    rw [DmaEngine.submit, dmaSubmit, always_bind]
    exact always_mono (cudaSubmit_spec p r d h) fun out _ hout => hout.1
  | metal p =>
    rw [DmaEngine.submit, dmaSubmit, always_bind]
    exact always_mono (always_true _ _) fun _ _ _ => trivial

theorem apply_rootless (shim : Shim) (c : ShimCall) (d : Driver) (h : shim.Rootless) :
    Always Driver.Serves (shim.apply c) d (fun shim' _ => shim'.Rootless) := by
  cases c with
  | submit r =>
    rw [apply, always_bind]
    exact always_mono (submit_rootless shim r d h) fun _ _ hout => hout
  | wait event timeoutMs =>
    rw [apply, always_bind]
    exact always_mono (always_true _ _) fun _ _ _ => h
  | loadModule name src =>
    rw [apply, always_bind]
    cases shim with
    | cuda p =>
      rw [Shim.loadModule, always_bind]
      exact always_mono (cudaLoadModule_spec p name src d) fun _ _ hout => hout.2 h
    | metal p =>
      rw [Shim.loadModule, always_bind]
      exact always_mono (always_true _ _) fun _ _ _ => trivial

theorem history_rootless (cs : List ShimCall) (shim : Shim) (d : Driver) (h : shim.Rootless) :
    Always Driver.Serves (history cs shim) d (fun shim' _ => shim'.Rootless) := by
  induction cs generalizing shim d with
  | nil => exact h
  | cons c cs ih =>
    rw [history, always_bind]
    exact always_mono (apply_rootless shim c d h) fun shim' d' h' => ih shim' d' h'

theorem transfer_memory {shim shim' : Shim} {r : DmaRequest} {d d₁ d₂ : Driver} {out : Option Ptr}
    {event : Ptr} {ms : UInt32} {s : Status} (h : shim.Rootless) (hcopy : IsCopy r)
    (hsubmit : Exec Driver.Serves (DmaEngine.submit shim r) d ((.ok, out), shim') d₁)
    (hwait : Exec Driver.Serves (DmaEngine.wait shim' (out.getD event) ms) d₁ s d₂) :
    d₂.memory = d.memory := by
  cases shim with
  | cuda p =>
    obtain ⟨⟨_, q⟩, _, hcuda, hout, rfl⟩ := (exec_bind ..).mp hsubmit
    obtain ⟨rfl, rfl⟩ := Prod.mk.inj hout
    obtain ⟨_, hspec⟩ := (always_iff ..).mp (cudaSubmit_spec p r d h) _ _ hcuda
    obtain ⟨hmemory, hevent⟩ := hspec hcopy
    obtain rfl : out = some 0 := hevent rfl
    rw [DmaEngine.wait, dmaWait, Option.getD_some, cudaWait_null] at hwait
    obtain ⟨_, rfl⟩ := hwait
    exact hmemory
  | metal p =>
    obtain ⟨⟨_, q⟩, _, hmetal, hout, rfl⟩ := (exec_bind ..).mp hsubmit
    obtain ⟨rfl, rfl⟩ := Prod.mk.inj hout
    obtain ⟨rfl, hevent⟩ := (always_iff ..).mp (metalSubmit_spec p r d) _ _ hmetal
    obtain ⟨cb, hcb, hempty⟩ := hevent rfl
    obtain rfl : out = some cb := hcb
    exact (always_iff ..).mp (metalWait_memory hempty ms) _ _ hwait

end Shim

theorem dma_transferred_iff (backend : Backend) (cs : List ShimCall) (shim shim' : Shim)
    (d₀ d d₁ d₂ : Driver) (r : DmaRequest) (out : Option Ptr) (event : Ptr) (ms : UInt32)
    (hhistory : Exec Driver.Serves (Shim.history cs backend.shim) d₀ shim d) (hcopy : IsCopy r)
    (hsubmit : Exec Driver.Serves (DmaEngine.submit shim r) d ((.ok, out), shim') d₁)
    (hwait : Exec Driver.Serves (DmaEngine.wait shim' (out.getD event) ms) d₁ .ok d₂) :
    shim.Transferred r d d₂ ↔ shim.Transferred r d d := by
  have hstart : backend.shim.Rootless := by
    cases backend with
    | cuda => exact nofun
    | metal => trivial
  have hrootless := (always_iff ..).mp (Shim.history_rootless cs backend.shim d₀ hstart) _ _ hhistory
  have hmemory := Shim.transfer_memory hrootless hcopy hsubmit hwait
  rw [Shim.Transferred, Shim.Transferred, Driver.bytesAt_eq hmemory]

def upload : DmaRequest := { kind := .h2d, dst := 0x2000, src := 0x1000, bytes := 1 }

def oneByte : Driver := { memory := fun s p => if s = .host ∧ p = 0x1000 then 5 else 0 }

def enqueued : Driver := oneByte.enqueue ⟨0, .device, 0x2000, .host, 0x1000, 1⟩

theorem cuda_upload : Exec Driver.Serves (DmaEngine.submit (.cuda none) upload) oneByte
    ((.ok, some 0), .cuda (some { primary := 1 })) enqueued :=
  ⟨(.success, 1), oneByte, rfl, .success, enqueued, rfl, rfl, rfl⟩

theorem metal_upload : Exec Driver.Serves (DmaEngine.submit (.metal none) upload) oneByte
    ((.ok, some 3), .metal (some ⟨1, 2⟩)) oneByte :=
  ⟨(1 : Ptr), oneByte, rfl, (2 : Ptr), oneByte, rfl, (3 : Ptr), oneByte, ⟨nofun, rfl⟩, rfl, rfl⟩

theorem metal_uploadWait (ms : UInt32) : Exec Driver.Serves
    (DmaEngine.wait (.metal (some ⟨1, 2⟩)) 3 ms) oneByte .ok (oneByte.synchronize 3) :=
  ⟨(), oneByte.synchronize 3, rfl, rfl, rfl⟩

theorem dma_transferred_iff_upload :
    ¬ (Shim.cuda none).Transferred upload oneByte enqueued := by
  rw [dma_transferred_iff .cuda [] (.cuda none) _ oneByte oneByte enqueued enqueued upload (some 0) 0 0
    ⟨rfl, rfl⟩ (.inl rfl) cuda_upload ⟨rfl, rfl⟩]
  decide

def Backend.Completes (backend : Backend) : Prop :=
  ∀ (cs : List ShimCall) (shim shim' : Shim) (d₀ d d₁ d₂ : Driver) (r : DmaRequest)
    (out : Option Ptr) (event : Ptr) (ms : UInt32),
    Exec Driver.Serves (Shim.history cs backend.shim) d₀ shim d → IsCopy r →
    Exec Driver.Serves (DmaEngine.submit shim r) d ((.ok, out), shim') d₁ →
    Exec Driver.Serves (DmaEngine.wait shim' (out.getD event) ms) d₁ .ok d₂ →
    shim.Transferred r d d₂

theorem dma_incomplete : ¬ Backend.Completes .cuda ∧ ¬ Backend.Completes .metal := by
  constructor
  · intro hcompletes
    have htransferred := hcompletes [] (.cuda none) _ oneByte oneByte enqueued enqueued upload (some 0)
      0 0 ⟨rfl, rfl⟩ (.inl rfl) cuda_upload ⟨rfl, rfl⟩
    exact absurd htransferred (by decide)
  · intro hcompletes
    have htransferred := hcompletes [] (.metal none) _ oneByte oneByte oneByte
      (oneByte.synchronize 3) upload (some 3) 0 0 ⟨rfl, rfl⟩ (.inl rfl) metal_upload
      (metal_uploadWait 0)
    exact absurd htransferred (by decide)

end NexusRT.Firmware

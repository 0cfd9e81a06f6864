import NexusRT.Firmware.BootRelease
import NexusRT.Memory.Mapping

namespace NexusRT.Firmware

open Prog MicroKernel Memory

inductive ContextOp
  | memAlloc (bytes : UInt64) (hints : AllocHints) (out : Allocation) (now later : UInt64 → UInt64)
  | memFree (a : Allocation)
  | ilcTag (allocHandle : Ptr) (bytes : UInt64)
  | ilcUntag (allocHandle : Ptr)
  | loadModule (name source : String)
  | acquireStream (klass : StreamClass) (priority : Int32)
  | releaseStream (h : StreamHandle)
  | launch (moduleName functionName : String) (grid block : Dim3) (sharedMemBytes : UInt32)
      (stream : StreamHandle) (kernelArgs : List Ptr)
  | syncStream (h : StreamHandle)

namespace FirmwareContext

def withIlc (ctx : FirmwareContext) (use : IlcManager → PlatformProg IlcManager) :
    PlatformProg FirmwareContext :=
  match ctx.ilc with
  | none => return ctx
  | some i => do
    let i ← use i
    return { ctx with ilc := some i }

def withMicrokernel (ctx : FirmwareContext) (use : MicroKernel → PlatformProg MicroKernel) :
    PlatformProg FirmwareContext :=
  match ctx.microkernel with
  | none => return ctx
  | some m => do
    let m ← use m
    return { ctx with microkernel := some m }

def apply (ctx : FirmwareContext) : ContextOp → PlatformProg FirmwareContext
  | .memAlloc bytes hints out now later => do
    let (_, _, m) ← ctx.memory.alloc bytes hints out now later
    return ctx.withMemory m
  | .memFree a => do
    let (_, m) ← ctx.memory.free a
    return ctx.withMemory m
  | .ilcTag allocHandle bytes => ctx.withIlc fun i => do
    let (_, i) ← i.tag allocHandle bytes
    return i
  | .ilcUntag allocHandle => ctx.withIlc fun i => do
    let (_, i) ← i.untag allocHandle
    return i
  | .loadModule name source => ctx.withMicrokernel fun m => do
    let (_, m) ← m.loadModule name source
    return m
  | .acquireStream klass priority => ctx.withMicrokernel fun m =>
    return (m.acquireStream klass priority).2
  | .releaseStream h => ctx.withMicrokernel fun m => return m.releaseStream h
  | .launch moduleName functionName grid block sharedMemBytes stream kernelArgs =>
    ctx.withMicrokernel fun m => do
      let _ ← m.launch moduleName functionName grid block sharedMemBytes stream kernelArgs
      return m
  | .syncStream h => ctx.withMicrokernel fun m => do
    let _ ← MicroKernel.syncStream h
    return m

def history : List ContextOp → FirmwareContext → PlatformProg FirmwareContext
  | [], ctx => return ctx
  | op :: ops, ctx => do
    let ctx ← ctx.apply op
    history ops ctx

def shutdowns : ℕ → FirmwareContext → PlatformProg FirmwareContext
  | 0, ctx => return ctx
  | n + 1, ctx => do
    let (_, ctx) ← shutdown ctx
    shutdowns n ctx

def shutdownAndDrop (n : ℕ) (ctx : FirmwareContext) : PlatformProg Unit := do
  let ctx ← shutdowns n ctx
  ctx.destructor

def pool (ctx : FirmwareContext) : List StreamHandle := ctx.microkernel.elim [] MicroKernel.all

def live (ctx : FirmwareContext) (p : Ptr) : Bool := ctx.memory.live.contains p

def tagged (ctx : FirmwareContext) (p : Ptr) : Bool := ctx.ilc.any fun i => i.tagged.contains p

def faultBufferAt (ctx : FirmwareContext) (p : Ptr) : Bool :=
  ctx.faults.any fun f => f.hbmFaultBuffer = p

end FirmwareContext

def ClientCall : PlatformCall → Prop
  | .allocHbm _ | .freeHbm _ | .ilcTag _ | .ilcUntag _ | .loadModule _ _
  | .launchKernel _ _ _ _ _ _ | .syncStream _ => True
  | _ => False

def Enabled (ilc : Option IlcManager) : Prop := ∀ i, ilc = some i → i.enabled = true

def Keyed (live : Table Ptr Allocation) : Prop := ∀ p a, live.find p = some a → a.hbmPtr = p

section Uses

variable {A : (c : PlatformCall) → c.Answer → Prop}

theorem tag_spec (i : IlcManager) (h : Ptr) (bytes : UInt64) : Only ClientCall (i.tag h bytes) ∧
    Always (allow A) (i.tag h bytes) () (fun r _ => r.2.enabled = i.enabled) := by
  rw [IlcManager.tag]
  split
  · exact ⟨trivial, rfl⟩
  · refine ⟨⟨trivial, fun s => ?_⟩, fun s _ _ => ?_⟩ <;>
      · cases s <;> trivial

theorem untag_spec (i : IlcManager) (h : Ptr) : Only ClientCall (i.untag h) ∧
    Always (allow A) (i.untag h) () (fun r _ => r.2.enabled = i.enabled) := by
  rw [IlcManager.untag]
  split
  · exact ⟨trivial, rfl⟩
  · split
    · exact ⟨trivial, rfl⟩
    · exact ⟨⟨trivial, fun s => trivial⟩, fun s _ _ => rfl⟩

theorem tagIlc_uses (m : MemoryManager) (out : Allocation) : Only ClientCall (m.tagIlc out) ∧
    Always (allow A) (m.tagIlc out) () (fun r _ => Enabled m.ilc → Enabled r.2.ilc) := by
  rcases m.tagIlc_cases out with heq | ⟨i, hi, heq⟩
  · rw [heq]
    exact ⟨trivial, id⟩
  · rw [heq]
    refine ⟨(tag_spec (A := A) i _ _).1.bind fun _ => trivial, ?_⟩
    rw [always_bind]
    apply always_mono (tag_spec i _ _).2
    rintro ⟨s, i'⟩ _ hsame henabled j ⟨⟩
    exact hsame.trans (henabled i hi)

theorem untagIlc_uses (m : MemoryManager) (a : Allocation) : Only ClientCall (m.untagIlc a) ∧
    Always (allow A) (m.untagIlc a) () (fun r _ => Enabled m.ilc → Enabled r.ilc) := by
  rcases m.untagIlc_cases a with ⟨heq, _⟩ | ⟨i, hi, _, heq⟩
  · rw [heq]
    exact ⟨trivial, id⟩
  · rw [heq]
    refine ⟨(untag_spec (A := A) i _).1.bind fun _ => trivial, ?_⟩
    rw [always_bind]
    apply always_mono (untag_spec i _).2
    rintro ⟨s, i'⟩ _ hsame henabled j ⟨⟩
    exact hsame.trans (henabled i hi)

theorem alloc_uses (m : MemoryManager) (bytes : UInt64) (hints : AllocHints) (out : Allocation)
    (now later : UInt64 → UInt64) : Only ClientCall (m.alloc bytes hints out now later) ∧
    Always (allow A) (m.alloc bytes hints out now later) ()
      (fun r _ => Enabled m.ilc → Enabled r.2.2.ilc) := by
  rw [MemoryManager.alloc]
  split
  · exact ⟨trivial, id⟩
  · constructor
    · apply Only.op_bind trivial
      rintro ⟨s, hbm⟩
      dsimp only
      split
      · trivial
      · exact (tagIlc_uses (A := A) m _).1.bind fun _ => trivial
    · simp only [Platform.allocHbm, op, call_bind, ret_bind, always_call]
      rintro ⟨s, hbm⟩ _ _
      split
      · exact id
      · rw [always_bind]
        apply always_mono (tagIlc_uses m _).2
        rintro ⟨out', m'⟩ _ henabled
        split <;> exact henabled

theorem free_uses (m : MemoryManager) (a : Allocation) : Only ClientCall (m.free a) ∧
    Always (allow A) (m.free a) () (fun r _ => (Enabled m.ilc → Enabled r.2.ilc) ∧
      (r.2.live = m.live ∨ r.2.live = m.live.erase a.hbmPtr)) := by
  rw [MemoryManager.free]
  split
  · exact ⟨trivial, id, .inl rfl⟩
  · constructor
    · refine (untagIlc_uses (A := A) m a).1.bind fun m' => Only.op_bind trivial fun s => ?_
      split <;> trivial
    · rw [always_bind]
      have huses := always_iff .. |>.mp (untagIlc_uses (A := A) m a).2
      have hspec := always_iff .. |>.mp (m.untagIlc_spec (A := A) a)
      rw [always_iff]
      intro m' _ hexec
      have henabled := huses _ _ hexec
      obtain ⟨_, hlive, _⟩ := hspec _ _ hexec
      simp only [Platform.freeHbm, op, call_bind, ret_bind, always_call]
      intro s _ _
      split
      · exact ⟨henabled, .inl hlive⟩
      · exact ⟨henabled, .inr (by rw [hlive])⟩

theorem loadModule_only (m : MicroKernel) (name source : String) :
    Only ClientCall (m.loadModule name source) := by
  rw [MicroKernel.loadModule]
  split
  · trivial
  · apply Only.op_bind trivial
    rintro ⟨s, raw, functions⟩
    dsimp only
    split <;> trivial

theorem launch_only (m : MicroKernel) (moduleName functionName : String) (grid block : Dim3)
    (sharedMemBytes : UInt32) (stream : StreamHandle) (kernelArgs : List Ptr) : Only ClientCall
      (m.launch moduleName functionName grid block sharedMemBytes stream kernelArgs) := by
  rw [MicroKernel.launch]
  split
  · trivial
  · split
    · trivial
    · exact ⟨trivial, fun _ => trivial⟩

structure Kept (ctx ctx' : FirmwareContext) : Prop where
  dma : ctx'.dma = ctx.dma
  faults : ctx'.faults = ctx.faults
  keyed : Keyed ctx.memory.live → Keyed ctx'.memory.live
  enabled : Enabled ctx.ilc → Enabled ctx'.ilc

theorem Kept.refl (ctx : FirmwareContext) : Kept ctx ctx := ⟨rfl, rfl, id, id⟩

theorem Kept.trans {ctx ctx₁ ctx₂ : FirmwareContext} (h₁ : Kept ctx ctx₁) (h₂ : Kept ctx₁ ctx₂) :
    Kept ctx ctx₂ :=
  ⟨h₂.dma.trans h₁.dma, h₂.faults.trans h₁.faults, h₂.keyed ∘ h₁.keyed, h₂.enabled ∘ h₁.enabled⟩

theorem withIlc_kept (ctx : FirmwareContext) {use : IlcManager → PlatformProg IlcManager}
    (huse : ∀ i, Only ClientCall (use i) ∧
      Always (allow A) (use i) () (fun i' _ => i'.enabled = i.enabled)) :
    Only ClientCall (ctx.withIlc use) ∧
      Always (allow A) (ctx.withIlc use) () (fun ctx' _ => Kept ctx ctx') := by
  rw [FirmwareContext.withIlc]
  cases hi : ctx.ilc with
  | none => exact ⟨trivial, .refl ctx⟩
  | some i =>
    refine ⟨(huse i).1.bind fun _ => trivial, ?_⟩
    rw [always_bind]
    apply always_mono (huse i).2
    rintro i' _ hsame
    refine ⟨rfl, rfl, id, ?_⟩
    rintro henabled j ⟨⟩
    exact hsame.trans (henabled i hi)

theorem withMicrokernel_kept (ctx : FirmwareContext)
    {use : MicroKernel → PlatformProg MicroKernel} (huse : ∀ m, Only ClientCall (use m)) :
    Only ClientCall (ctx.withMicrokernel use) ∧
      Always (allow A) (ctx.withMicrokernel use) () (fun ctx' _ => Kept ctx ctx') := by
  rw [FirmwareContext.withMicrokernel]
  cases ctx.microkernel with
  | none => exact ⟨trivial, .refl ctx⟩
  | some m =>
    refine ⟨(huse m).bind fun _ => trivial, ?_⟩
    rw [always_bind]
    exact always_mono (always_true _ _) fun _ _ _ => ⟨rfl, rfl, id, id⟩

theorem Keyed.insert {live : Table Ptr Allocation} (h : Keyed live) {p : Ptr} {a : Allocation}
    (ha : a.hbmPtr = p) : Keyed (live.insert p a) := by
  intro q b hb
  rw [Table.find_insert] at hb
  split at hb
  · next hq =>
    cases hb
    exact ha.trans hq.symm
  · exact h q b hb

theorem Keyed.erase {live : Table Ptr Allocation} (h : Keyed live) (p : Ptr) :
    Keyed (live.erase p) := by
  intro q b hb
  exact h q b (Table.find_of_find_erase hb)

theorem memAlloc_kept (ctx : FirmwareContext) (bytes : UInt64) (hints : AllocHints)
    (out : Allocation) (now later : UInt64 → UInt64) :
    Only ClientCall (ctx.apply (.memAlloc bytes hints out now later)) ∧
      Always (allow A) (ctx.apply (.memAlloc bytes hints out now later)) ()
        (fun ctx' _ => Kept ctx ctx') := by
  have huses := alloc_uses (A := A) ctx.memory bytes hints out now later
  refine ⟨huses.1.bind fun _ => trivial, ?_⟩
  rw [FirmwareContext.apply, always_bind, always_iff]
  intro r _ hexec
  have henabled := (always_iff ..).mp huses.2 _ _ hexec
  refine ⟨rfl, rfl, fun hkeyed => ?_, henabled⟩
  rcases (always_iff ..).mp (ctx.memory.alloc_spec bytes hints out now later) _ _ hexec with
    ⟨_, hsame, _⟩ | ⟨_, _, hbm, _, halloc⟩
  · exact hsame ▸ hkeyed
  · change Keyed r.2.2.live
    rw [halloc.live]
    exact hkeyed.insert halloc.key

theorem memFree_kept (ctx : FirmwareContext) (a : Allocation) :
    Only ClientCall (ctx.apply (.memFree a)) ∧
      Always (allow A) (ctx.apply (.memFree a)) () (fun ctx' _ => Kept ctx ctx') := by
  have huses := free_uses (A := A) ctx.memory a
  refine ⟨huses.1.bind fun _ => trivial, ?_⟩
  rw [FirmwareContext.apply, always_bind]
  apply always_mono huses.2
  rintro r _ ⟨henabled, hlive⟩
  refine ⟨rfl, rfl, fun hkeyed => ?_, henabled⟩
  change Keyed r.2.live
  rcases hlive with hlive | hlive
  · exact hlive ▸ hkeyed
  · exact hlive ▸ hkeyed.erase _

theorem apply_kept (ctx : FirmwareContext) (op : ContextOp) : Only ClientCall (ctx.apply op) ∧
    Always (allow A) (ctx.apply op) () (fun ctx' _ => Kept ctx ctx') := by
  cases op with
  | memAlloc bytes hints out now later => exact memAlloc_kept ctx bytes hints out now later
  | memFree a => exact memFree_kept ctx a
  | ilcTag h bytes =>
    refine withIlc_kept ctx fun i => ⟨(tag_spec (A := A) i h bytes).1.bind fun _ => trivial, ?_⟩
    rw [always_bind]
    exact always_mono (tag_spec i h bytes).2 fun _ _ hsame => hsame
  | ilcUntag h =>
    refine withIlc_kept ctx fun i => ⟨(untag_spec (A := A) i h).1.bind fun _ => trivial, ?_⟩
    rw [always_bind]
    exact always_mono (untag_spec i h).2 fun _ _ hsame => hsame
  | loadModule name source =>
    exact withMicrokernel_kept ctx fun m => (loadModule_only m name source).bind fun _ => trivial
  | acquireStream klass priority => exact withMicrokernel_kept ctx fun m => trivial
  | releaseStream h => exact withMicrokernel_kept ctx fun m => trivial
  | launch moduleName functionName grid block sharedMemBytes stream kernelArgs =>
    exact withMicrokernel_kept ctx fun m => (launch_only m moduleName functionName grid block
      sharedMemBytes stream kernelArgs).bind fun _ => trivial
  | syncStream h => exact withMicrokernel_kept ctx fun m => ⟨trivial, fun _ => trivial⟩

theorem history_kept (ops : List ContextOp) (ctx : FirmwareContext) :
    Only ClientCall (FirmwareContext.history ops ctx) ∧
      Always (allow A) (FirmwareContext.history ops ctx) () (fun ctx' _ => Kept ctx ctx') := by
  induction ops generalizing ctx with
  | nil => exact ⟨trivial, .refl ctx⟩
  | cons op ops ih =>
    have happly := apply_kept (A := A) ctx op
    refine ⟨happly.1.bind fun ctx' => (ih ctx').1, ?_⟩
    rw [FirmwareContext.history, always_bind]
    apply always_mono happly.2
    rintro ctx' _ hkept
    exact always_mono (ih ctx').2 fun _ _ hrest => hkept.trans hrest

end Uses

section Down

variable {A : (c : PlatformCall) → c.Answer → Prop} {t : List PlatformEvent}

theorem IlcManager.disabled_disabled (i : IlcManager) : i.disabled.disabled = i.disabled := by
  rw [IlcManager.disabled, IlcManager.disabled_enabled]
  rfl

theorem shutDown_shutDown (ctx : FirmwareContext) : ctx.shutDown.shutDown = ctx.shutDown := by
  obtain ⟨device, options, pool, mk, dma, faults, ilc, mem⟩ := ctx
  have hilc : (ilc.map IlcManager.disabled).map IlcManager.disabled =
      ilc.map IlcManager.disabled := by
    cases ilc with
    | none => rfl
    | some i => exact congrArg some i.disabled_disabled
  simp only [FirmwareContext.shutDown, hilc, Option.map_map]
  rfl

theorem shutdown_again {ctx ctx' : FirmwareContext} {s : Status}
    (h : Traces A (shutdown ctx.shutDown) t (s, ctx')) :
    t = [⟨.releaseVaddress, s⟩] ∧ ctx' = ctx.shutDown := by
  obtain ⟨u, rfl, hcalls, rfl⟩ := FirmwareContext.shutdown_traces h
  rw [FirmwareContext.releaseCalls_shutDown, calls, List.map_eq_nil_iff] at hcalls
  rw [hcalls]
  exact ⟨rfl, shutDown_shutDown ctx⟩

theorem shutdowns_again {n : ℕ} {ctx ctx' : FirmwareContext}
    (h : Traces A (FirmwareContext.shutdowns n ctx.shutDown) t ctx') :
    calls t = List.replicate n .releaseVaddress ∧ ctx' = ctx.shutDown := by
  induction n generalizing t with
  | zero =>
    obtain ⟨rfl, rfl⟩ := h
    exact ⟨rfl, rfl⟩
  | succ n ih =>
    rw [FirmwareContext.shutdowns, traces_bind] at h
    obtain ⟨t₁, t₂, ⟨s, ctx₁⟩, rfl, hdown, hrest⟩ := h
    obtain ⟨rfl, rfl⟩ := shutdown_again hdown
    obtain ⟨hcalls, rfl⟩ := ih hrest
    exact ⟨by rw [calls_append, hcalls]; rfl, rfl⟩

theorem shutdowns_calls {n : ℕ} {ctx ctx' : FirmwareContext} (hn : 1 ≤ n)
    (h : Traces A (FirmwareContext.shutdowns n ctx) t ctx') :
    calls t = ctx.releaseCalls ++ List.replicate n .releaseVaddress ∧ ctx' = ctx.shutDown := by
  obtain ⟨n, rfl⟩ := Nat.exists_eq_add_of_le' hn
  rw [FirmwareContext.shutdowns, traces_bind] at h
  obtain ⟨t₁, t₂, ⟨s, ctx₁⟩, rfl, hdown, hrest⟩ := h
  obtain ⟨u, rfl, hcalls, rfl⟩ := FirmwareContext.shutdown_traces hdown
  obtain ⟨hagain, rfl⟩ := shutdowns_again hrest
  refine ⟨?_, rfl⟩
  rw [calls_append, calls_append, hcalls, hagain, List.append_assoc]
  rfl

theorem untagIlc_quiet {m : MemoryManager} (hquiet : ∀ i, m.ilc = some i → i.enabled = false)
    (a : Allocation) : m.untagIlc a = .ret m := by
  rw [MemoryManager.untagIlc]
  cases hi : m.ilc with
  | none => rfl
  | some i =>
    simp only [IlcManager.untag, hquiet i hi]
    split
    · simp only [Bool.not_false, ↓reduceIte, pure_eq, ret_bind, ← hi]
    · rfl

theorem releaseEach_calls {as : List Allocation} {m m' : MemoryManager}
    (hquiet : ∀ i, m.ilc = some i → i.enabled = false)
    (h : Traces A (MemoryManager.releaseEach as m) t m') :
    calls t = (as.filter (fun a => a.hbmPtr ≠ 0)).map (fun a => .freeHbm a.hbmPtr) ∧ m' = m := by
  induction as generalizing t with
  | nil =>
    obtain ⟨rfl, rfl⟩ := h
    exact ⟨rfl, rfl⟩
  | cons a as ih =>
    rw [MemoryManager.releaseEach, traces_bind] at h
    obtain ⟨t₁, t₂, _, rfl, hfree, h⟩ := h
    rw [untagIlc_quiet hquiet] at h
    obtain ⟨hcalls, rfl⟩ := ih h
    refine ⟨?_, rfl⟩
    rw [calls_append, hcalls, MemoryManager.releaseMemory] at *
    by_cases hzero : a.hbmPtr = 0
    · rw [if_neg (by simp [hzero])] at hfree
      obtain ⟨rfl, _⟩ := hfree
      simp [hzero]
    · rw [if_pos hzero] at hfree
      obtain ⟨s, _, _, rfl, rfl, _⟩ := hfree
      simp [hzero]

def FirmwareContext.livePointers (ctx : FirmwareContext) : List Ptr :=
  ctx.memory.live.keys.filter (· ≠ 0)

theorem livePointers_eq {live : Table Ptr Allocation} (hkeyed : Keyed live) :
    ((live.entries.map Prod.snd).filter (fun a => a.hbmPtr ≠ 0)).map Allocation.hbmPtr =
      live.keys.filter (· ≠ 0) := by
  have hkeys : (live.entries.map Prod.snd).map Allocation.hbmPtr = live.keys := by
    rw [← live.map_fst_entries, List.map_map]
    apply List.map_congr_left
    rintro ⟨p, a⟩ hmem
    exact hkeyed p a ((live.mem_entries p a).mp hmem)
  rw [← hkeys]
  generalize live.entries.map Prod.snd = as
  rw [List.filter_map]
  rfl

theorem destroyMemory_calls {ctx ctx' : FirmwareContext}
    (hquiet : ∀ i, ctx.ilc = some i → i.enabled = false) (hkeyed : Keyed ctx.memory.live)
    (h : Traces A ctx.destroyMemory t ctx') :
    calls t = ctx.livePointers.map .freeHbm ∧ ctx' = { ctx with mem := none } := by
  rw [FirmwareContext.destroyMemory] at h
  cases hmem : ctx.mem with
  | none =>
    rw [hmem] at h
    obtain ⟨rfl, rfl⟩ := h
    refine ⟨?_, by rw [← hmem]⟩
    simp [FirmwareContext.livePointers, FirmwareContext.memory, hmem, Table.empty]
  | some m =>
    simp only [hmem, MemoryManager.destructor, traces_bind] at h
    obtain ⟨_, _, m', rfl, ⟨t, _, m₁, rfl, heach, rfl, rfl⟩, rfl, rfl⟩ := h
    obtain ⟨hcalls, rfl⟩ := releaseEach_calls (by exact hquiet) heach
    refine ⟨?_, rfl⟩
    have hlive : ctx.memory.live = m.live := by rw [FirmwareContext.memory, hmem]; rfl
    rw [hlive] at hkeyed
    rw [FirmwareContext.livePointers, hlive, ← livePointers_eq hkeyed, List.append_nil,
      List.append_nil, hcalls, List.map_map]
    rfl

theorem teardown_calls {n : ℕ} {ctx : FirmwareContext} (hn : 1 ≤ n) (hkeyed : Keyed ctx.memory.live)
    (h : Traces A (ctx.shutdownAndDrop n) t ()) : calls t = ctx.releaseCalls ++
      List.replicate n .releaseVaddress ++ ctx.livePointers.map .freeHbm := by
  rw [FirmwareContext.shutdownAndDrop, traces_bind] at h
  obtain ⟨t₁, t₂, ctx₁, rfl, hdown, hdrop⟩ := h
  obtain ⟨hcalls₁, rfl⟩ := shutdowns_calls hn hdown
  rw [FirmwareContext.destructor, traces_bind] at hdrop
  obtain ⟨t₂, t₃, ctx₂, rfl, hmem, hrest⟩ := hdrop
  have hquiet : ∀ i, ctx.shutDown.ilc = some i → i.enabled = false := by
    intro i hi
    obtain ⟨j, _, rfl⟩ := Option.map_eq_some_iff.mp hi
    exact j.disabled_enabled
  obtain ⟨hcalls₂, rfl⟩ := destroyMemory_calls hquiet hkeyed hmem
  have hdestructor : Traces A ({ ctx.shutDown with mem := none } : FirmwareContext).destructor t₃ () := by
    rw [FirmwareContext.destructor]
    exact hrest
  have hcalls₃ : calls t₃ = [] := by
    have hperm := destructor_calls rfl hdestructor
    have hnone : ({ ctx.shutDown with mem := none } : FirmwareContext).releaseCalls = [] :=
      ctx.releaseCalls_shutDown
    rw [hnone] at hperm
    exact hperm.eq_nil
  rw [calls_append, calls_append, hcalls₁, hcalls₂, hcalls₃, List.append_nil]
  rfl

theorem teardown_released {n : ℕ} {ctx : FirmwareContext} (hn : 1 ≤ n)
    (hkeyed : Keyed ctx.memory.live) (h : Traces A (ctx.shutdownAndDrop n) t ()) :
    acquired t = [] ∧ released t =
      ctx.resources ++ List.replicate n .vaddress ++ ctx.livePointers.map .hbm := by
  have hcalls := teardown_calls hn hkeyed h
  constructor
  · apply acquired_of_releases
    intro c hc
    rw [hcalls, List.mem_append, List.mem_append] at hc
    rcases hc with (hc | hc) | hc
    · obtain ⟨r, hr, _⟩ := mem_releaseCalls hc
      simp [hr]
    · rw [List.eq_of_mem_replicate hc]
      rfl
    · obtain ⟨p, _, rfl⟩ := List.mem_map.mp hc
      rfl
  · rw [released, hcalls, List.filterMap_append, List.filterMap_append, List.filterMap_map,
      List.filterMap_replicate]
    congr 1
    exact congrFun List.filterMap_eq_map _

end Down

section Counts

variable {ctx ctx' : FirmwareContext}

def ofSubsystem : Resource → Bool
  | .stream _ | .gds | .grdma => true
  | .faultBuffer buf => buf ≠ 0
  | _ => false

@[simp] theorem ofSubsystem_hbm (p : Ptr) : ofSubsystem (.hbm p) = false := rfl

@[simp] theorem ofSubsystem_tag (p : Ptr) : ofSubsystem (.tag p) = false := rfl

@[simp] theorem ofSubsystem_vaddress : ofSubsystem .vaddress = false := rfl

@[simp] theorem ofSubsystem_faultBuffer (buf : Ptr) :
    ofSubsystem (.faultBuffer buf) = decide (buf ≠ 0) :=
  rfl

theorem ilcResources_eq (i : IlcManager) (henabled : i.enabled = true) :
    i.releaseCalls.filterMap releases = i.tagged.keys.map .tag := by
  rw [IlcManager.releaseCalls, if_pos henabled, List.filterMap_map]
  exact congrFun List.filterMap_eq_map _

theorem count_stream (m : MicroKernel) {r : Resource} (hr : ∀ raw, r ≠ .stream raw) :
    m.resources.count r = 0 := by
  rw [List.count_eq_zero, MicroKernel.resources_eq, List.mem_map]
  rintro ⟨h, _, rfl⟩
  exact hr _ rfl

theorem count_dma (e : DmaEngine) {r : Resource} (hgds : r ≠ .gds) (hgrdma : r ≠ .grdma) :
    e.resources.count r = 0 := by
  rw [List.count_eq_zero, DmaEngine.resources_eq]
  cases e.grdmaEnabled <;> cases e.gdsEnabled <;> simp [hgds, hgrdma]

theorem count_faults (f : FaultHandler) {r : Resource} (hbuf : ∀ p, r ≠ .faultBuffer p)
    (hhbm : ∀ p, r ≠ .hbm p) : (f.releaseCalls.filterMap releases).count r = 0 := by
  rw [List.count_eq_zero, faultHandler_released]
  split
  · simp
  · simp [hbuf, hhbm]

theorem count_ilc (i : IlcManager) {r : Resource} (hr : ∀ p, r ≠ .tag p) :
    (i.releaseCalls.filterMap releases).count r = 0 := by
  rw [List.count_eq_zero, IlcManager.releaseCalls]
  split
  · rw [List.filterMap_map, List.mem_filterMap]
    rintro ⟨p, _, h⟩
    exact hr p (Option.some.inj h).symm
  · simp

theorem count_elim_eq_zero {α : Type} {o : Option α} {f : α → List Resource} {r : Resource}
    (h : ∀ a, (f a).count r = 0) : (o.elim [] f).count r = 0 := by
  cases o with
  | none => rfl
  | some a => exact h a

theorem count_tag (henabled : Enabled ctx.ilc) (p : Ptr) :
    ctx.resources.count (.tag p) = if ctx.tagged p then 1 else 0 := by
  rw [FirmwareContext.resources_eq, List.count_append, List.count_append, List.count_append,
    count_elim_eq_zero fun f => count_faults f (by simp) (by simp),
    count_elim_eq_zero fun m => count_stream m (by simp),
    count_elim_eq_zero fun e => count_dma e (by simp) (by simp), FirmwareContext.tagged]
  cases hi : ctx.ilc with
  | none => rfl
  | some i =>
    rw [Option.elim_some, ilcResources_eq i (henabled i hi),
      List.count_map_of_injective _ _ (fun _ _ h => Resource.tag.inj h), i.tagged.nodup.count]
    simp only [Option.any_some, Table.contains, i.tagged.mem_keys, Nat.zero_add]
    congr

theorem count_hbm {p : Ptr} (hp : p ≠ 0) :
    ctx.resources.count (.hbm p) = if ctx.faultBufferAt p then 1 else 0 := by
  rw [FirmwareContext.resources_eq, List.count_append, List.count_append, List.count_append,
    count_elim_eq_zero fun m => count_stream m (by simp),
    count_elim_eq_zero fun e => count_dma e (by simp) (by simp),
    count_elim_eq_zero fun i => count_ilc i (by simp), FirmwareContext.faultBufferAt]
  cases ctx.faults with
  | none => rfl
  | some f =>
    rw [Option.elim_some, faultHandler_released]
    by_cases hbuf : f.hbmFaultBuffer = p
    · simp [hbuf, hp]
    · by_cases hzero : f.hbmFaultBuffer = 0 <;> simp [hbuf, hzero, hp.symm]

theorem streams_eq (ctx : FirmwareContext) : ctx.microkernel.elim [] MicroKernel.resources =
    ctx.pool.map fun h => .stream h.raw := by
  rw [FirmwareContext.pool]
  cases ctx.microkernel with
  | none => rfl
  | some m => exact m.resources_eq

theorem count_kept (hdma : ctx'.dma = ctx.dma) (hfaults : ctx'.faults = ctx.faults)
    (hpool : ctx'.pool.Perm ctx.pool) {r : Resource} (hr : ofSubsystem r = true) :
    ctx'.resources.count r = ctx.resources.count r := by
  have hilc : ∀ i : IlcManager, (i.releaseCalls.filterMap releases).count r = 0 :=
    fun i => count_ilc i (by rintro p rfl; simp at hr)
  rw [FirmwareContext.resources_eq, FirmwareContext.resources_eq, streams_eq, streams_eq, hdma,
    hfaults]
  simp only [List.count_append, count_elim_eq_zero hilc, (hpool.map _).count_eq]

theorem clientCall_acquires {e : PlatformEvent} (hc : ClientCall e.1) {r : Resource}
    (h : acquires e = some r) : ofSubsystem r = false := by
  obtain ⟨c, a⟩ := e
  cases c <;> simp only [ClientCall] at hc <;> simp only [acquires, reduceCtorEq] at h
  all_goals
    split at h
    · cases h
      rfl
    · simp at h

theorem clientCall_releases {c : PlatformCall} (hc : ClientCall c) {r : Resource}
    (h : releases c = some r) : ofSubsystem r = false := by
  cases c <;> simp only [ClientCall] at hc <;> simp only [releases, reduceCtorEq] at h
  all_goals
    cases h
    rfl

theorem clientCall_resources {t : List PlatformEvent} (ht : ∀ c ∈ calls t, ClientCall c)
    {r : Resource} (hr : ofSubsystem r = true) :
    (acquired t).count r = 0 ∧ (released t).count r = 0 := by
  constructor
  · rw [List.count_eq_zero]
    intro hmem
    obtain ⟨e, he, hacq⟩ := List.mem_filterMap.mp hmem
    have hnot := clientCall_acquires (ht e.1 (List.mem_map_of_mem he)) hacq
    simp [hnot] at hr
  · rw [List.count_eq_zero]
    intro hmem
    obtain ⟨c, hc, hrel⟩ := List.mem_filterMap.mp hmem
    have hnot := clientCall_releases (ht c hc) hrel
    simp [hnot] at hr

theorem count_livePointers (ctx : FirmwareContext) {p : Ptr} (hp : p ≠ 0) :
    (ctx.livePointers.map .hbm).count (Resource.hbm p) = if ctx.live p then 1 else 0 := by
  have hmem : p ∈ ctx.livePointers ↔ ctx.live p = true := by
    simp [FirmwareContext.livePointers, hp, ctx.memory.live.mem_keys, FirmwareContext.live,
      Table.contains]
  have hnodup : ctx.livePointers.Nodup := ctx.memory.live.nodup.filter _
  rw [List.count_map_of_injective _ _ (fun _ _ h => Resource.hbm.inj h), hnodup.count]
  simp only [hmem]

section Released

variable {t t₁ t₂ t₃ : List PlatformEvent} {n : ℕ}

theorem released_subsystem {r : Resource} (hsub : ofSubsystem r = true) (hr : r ∈ acquired t₁)
    (hbooted : Booted t₁ ctx) (hclient : ∀ c ∈ calls t₂, ClientCall c) (hkept : Kept ctx ctx')
    (hpool : ctx'.pool.Perm ctx.pool) (hacq : acquired t₃ = []) (hrel : released t₃ =
      ctx'.resources ++ List.replicate n .vaddress ++ ctx'.livePointers.map .hbm) :
    (released (t₁ ++ t₂ ++ t₃)).count r = (acquired (t₁ ++ t₂ ++ t₃)).count r := by
  have hbetween := clientCall_resources hclient hsub
  have hcount := hbooted.count r hr (by cases r <;> simp_all [Releasable])
  have hkeep := count_kept hkept.dma hkept.faults hpool hsub
  have hvaddress : (List.replicate n Resource.vaddress).count r = 0 := by
    rw [List.count_eq_zero]
    intro hmem
    simp [List.eq_of_mem_replicate hmem] at hsub
  have hmemory : (ctx'.livePointers.map Resource.hbm).count r = 0 := by
    rw [List.count_eq_zero, List.mem_map]
    rintro ⟨p, _, rfl⟩
    simp at hsub
  simp only [acquired_append, released_append, hacq, hrel, hbooted.released, List.count_append,
    hbetween.1, hbetween.2, hvaddress, hmemory, hkeep, hcount, List.count_nil, Nat.zero_add,
    Nat.add_zero]

theorem released_hbm {p : Ptr} (hp : p ≠ 0) (hrel : released t =
      ctx.resources ++ List.replicate n .vaddress ++ ctx.livePointers.map .hbm) :
    (released t).count (.hbm p) =
      (if ctx.live p then 1 else 0) + if ctx.faultBufferAt p then 1 else 0 := by
  have hvaddress : (List.replicate n Resource.vaddress).count (.hbm p) = 0 := by
    simp [List.count_replicate]
  rw [hrel, List.count_append, List.count_append, count_hbm hp, hvaddress,
    count_livePointers ctx hp, Nat.add_zero, Nat.add_comm]

theorem released_tag (henabled : Enabled ctx.ilc) (p : Ptr) (hrel : released t =
      ctx.resources ++ List.replicate n .vaddress ++ ctx.livePointers.map .hbm) :
    (released t).count (.tag p) = if ctx.tagged p then 1 else 0 := by
  have hvaddress : (List.replicate n Resource.vaddress).count (.tag p) = 0 := by
    simp [List.count_replicate]
  have hmemory : (ctx.livePointers.map Resource.hbm).count (.tag p) = 0 := by
    simp [List.count_eq_zero]
  rw [hrel, List.count_append, List.count_append, count_tag henabled, hvaddress, hmemory,
    Nat.add_zero]

end Released

end Counts

theorem shutdown_releases_once (opts : BootOptions) (t₁ t₂ t₃ : List PlatformEvent) (r : BootResult)
    (ev : List BootEvent) (ctx ctx₁ : FirmwareContext) (ops : List ContextOp) (n : ℕ) (hn : 1 ≤ n)
    (hboot : Traces anyBackend (boot opts) t₁ (r, ev)) (hctx : r.ctx = some ctx)
    (huse : Traces anyBackend (FirmwareContext.history ops ctx) t₂ ctx₁)
    (hreturned : ctx₁.pool.Perm ctx.pool) (hdown : Traces anyBackend (ctx₁.shutdownAndDrop n) t₃ ()) :
    (∀ r ∈ acquired t₁, ofSubsystem r = true →
        (released (t₁ ++ t₂ ++ t₃)).count r = (acquired (t₁ ++ t₂ ++ t₃)).count r) ∧
      (∀ p, p ≠ 0 → (released t₃).count (.hbm p) =
        (if ctx₁.live p then 1 else 0) + if ctx₁.faultBufferAt p then 1 else 0) ∧
      (∀ p, (released t₃).count (.tag p) = if ctx₁.tagged p then 1 else 0) ∧
      ∀ k, 1 ≤ k → ∀ u ctx₂, Traces anyBackend (FirmwareContext.shutdowns k ctx₁) u ctx₂ →
        ∀ v s ctx₃, Traces anyBackend (shutdown ctx₂) v (s, ctx₃) →
          ctx₃ = ctx₂ ∧ v = [⟨.releaseVaddress, s⟩] := by
  rcases boot_booted hboot with ⟨hnone, _⟩ | ⟨ctx', hctx', hbooted⟩
  · simp [hnone] at hctx
  obtain rfl : ctx' = ctx := Option.some.inj (hctx'.symm.trans hctx)
  have hhistory := history_kept (A := anyBackend) ops ctx'
  have hkept := (always_iff ..).mp hhistory.2 _ _ huse.exec
  have hclient := hhistory.1.calls huse
  have hempty : Keyed ctx'.memory.live := by
    intro p a ha
    simp [FirmwareContext.memory, hbooted.memory] at ha
  obtain ⟨hacq₃, hrel₃⟩ := teardown_released hn (hkept.keyed hempty) hdown
  refine ⟨fun r hr hsub => ?_, fun p hp => ?_, fun p => ?_, fun k hk u ctx₂ hu v s ctx₃ hv => ?_⟩
  · exact released_subsystem hsub hr hbooted hclient hkept hreturned hacq₃ hrel₃
  · exact released_hbm hp hrel₃
  · exact released_tag (hkept.enabled hbooted.enabled) p hrel₃
  · obtain ⟨_, rfl⟩ := shutdowns_calls hk hu
    obtain ⟨hcalls, rfl⟩ := shutdown_again hv
    exact ⟨rfl, hcalls⟩

def separateBackend : (c : PlatformCall) → c.Answer
  | .allocHbm 4096 => (.ok, 0x20000)
  | .describeDevice _ => { apple with features := ⟨true, true, true⟩ }
  | c => succeedingBackend apple c

def appleBoot : List PlatformEvent × BootResult × List BootEvent :=
  traceWith separateBackend (boot {})

def appleContext : FirmwareContext := appleBoot.2.1.ctx.getD { device := apple, options := {} }

def appleUse : List PlatformEvent × FirmwareContext :=
  traceWith separateBackend (FirmwareContext.history
    [.memAlloc 4096 {} {} id id, .ilcTag 0x20000 4096, .acquireStream .compute 0,
      .releaseStream ⟨8, 7, .compute, 0⟩] appleContext)

def appleDown : List PlatformEvent × Unit :=
  traceWith separateBackend (appleUse.2.shutdownAndDrop 2)

theorem shutdown_releases_once_apple :
    (released (appleBoot.1 ++ appleUse.1 ++ appleDown.1)).count (.stream 7) = 12 ∧
      (released appleDown.1).count (.hbm 0x20000) = 1 ∧
      (released appleDown.1).count (.hbm 0x10000) = 1 ∧
      (released appleDown.1).count (.tag 0x20000) = 1 := by
  have hbackend : ∀ c, anyBackend c (separateBackend c) := fun _ => trivial
  have hpool : appleUse.2.pool.Perm appleContext.pool := by decide
  obtain ⟨hsub, hhbm, htag, _⟩ := shutdown_releases_once {} appleBoot.1 appleUse.1 appleDown.1
    appleBoot.2.1 appleBoot.2.2 appleContext appleUse.2 _ 2 (by decide)
    (traces_traceWith hbackend _) rfl (traces_traceWith hbackend _) hpool
    (traces_traceWith hbackend _)
  refine ⟨?_, ?_, ?_, ?_⟩
  · rw [hsub (.stream 7) (by decide) (by decide)]
    decide
  · rw [hhbm 0x20000 (by decide)]
    decide
  · rw [hhbm 0x10000 (by decide)]
    decide
  · rw [htag]
    decide

end NexusRT.Firmware

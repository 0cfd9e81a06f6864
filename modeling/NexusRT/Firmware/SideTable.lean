import Mathlib.Logic.Relation
import NexusRT.Firmware.Driver
import NexusRT.Firmware.Teardown

/-!
The side table of the CUDA backend. `gds_init`, `gds_fini`, `grdma_init` and `grdma_fini` use the
entry of their context without a check; all other functions check it.
-/

namespace NexusRT.Firmware

open Prog

structure CudaEntry where
  primary : Ptr := 0
  gdsInited : Bool := false
  grdmaInited : Bool := false

/-- `nullDeref` is a ghost: whether a function has gone through a null pointer. `retained` are the
successful calls of `cuDevicePrimaryCtxRetain`. -/
structure SideTable where
  states : Table Ptr CudaEntry := .empty
  retained : ℕ := 0
  nullDeref : Bool := false

namespace SideTable

/-- `state(ctx)`; `retain` is what `cuDevicePrimaryCtxRetain` answers if it is called. -/
def state (t : SideTable) (ctx : Ptr) (retain : CuResult × Ptr) : Option CudaEntry × SideTable :=
  match t.states.find ctx with
  | some e => (some e, t)
  | none =>
    if retain.1 ≠ .success then (none, t) else
    let e : CudaEntry := { primary := retain.2 }
    (some e, { t with states := t.states.insert ctx e, retained := t.retained + 1 })

def Checked (ctx : Ptr) (t : SideTable) (s : Status) (t' : SideTable) : Prop :=
  ∃ retain, t' = (t.state ctx retain).2 ∧
    ((t.state ctx retain).1 = none → s = .invalidArgument)

def Unchecked (write : CudaEntry → CudaEntry) (ctx : Ptr) (t : SideTable) (s : Status)
    (t' : SideTable) : Prop :=
  ∃ retain, match t.state ctx retain with
    | (none, u) => t' = { u with nullDeref := true }
    | (some _, u) => s = .ok ∧ t' = { u with states := u.states.modify ctx write }

def Serves (ctx : Ptr) : (c : PlatformCall) → SideTable → c.Answer → SideTable → Prop
  | .lockClocks _, t, s, t' => Checked ctx t s t'
  | .reserveVaddress _, t, s, t' => Checked ctx t s t'
  | .mapHbmPool, t, s, t' => Checked ctx t s t'
  | .createStream _ _, t, r, t' => Checked ctx t r.1 t'
  | .loadModule _ _, t, r, t' => Checked ctx t r.1 t'
  | .launchKernel _ _ _ _ _ _, t, s, t' => Checked ctx t s t'
  | .allocHbm _, t, r, t' => Checked ctx t r.1 t'
  | .gdsInit, t, s, t' => Unchecked ({ · with gdsInited := true }) ctx t s t'
  | .gdsFini, t, s, t' => Unchecked ({ · with gdsInited := false }) ctx t s t'
  | .grdmaInit, t, s, t' => Unchecked ({ · with grdmaInited := true }) ctx t s t'
  | .grdmaFini, t, s, t' => Unchecked ({ · with grdmaInited := false }) ctx t s t'
  | _, t, _, t' => t' = t

structure Grows (t t' : SideTable) : Prop where
  kept : ∀ p, t.states.contains p = true → t'.states.contains p = true
  retained : t.retained = t.states.size → t'.retained = t'.states.size
  nullDeref : t'.nullDeref = t.nullDeref

variable {ctx : Ptr} {t t' u : SideTable} {s : Status}

theorem Grows.refl (t : SideTable) : Grows t t := ⟨fun _ h => h, id, rfl⟩

theorem Grows.trans (h : Grows t t') (h' : Grows t' u) : Grows t u :=
  ⟨fun p hp => h'.kept p (h.kept p hp), fun hr => h'.retained (h.retained hr),
    h'.nullDeref.trans h.nullDeref⟩

theorem state_grows (t : SideTable) (ctx : Ptr) (retain : CuResult × Ptr) :
    Grows t (t.state ctx retain).2 ∧
      ((t.state ctx retain).1 ≠ none → (t.state ctx retain).2.states.contains ctx = true) := by
  rw [state]
  cases hfind : t.states.find ctx with
  | some e => exact ⟨.refl t, fun _ => by simp [Table.contains, hfind]⟩
  | none =>
    by_cases hr : retain.1 = .success
    · simp only [hr, ne_eq, not_true_eq_false, ↓reduceIte]
      refine ⟨⟨fun p hp => ?_, fun hsize => ?_, rfl⟩, fun _ => by simp [Table.contains]⟩
      · simp only [Table.contains, Table.find_insert] at hp ⊢
        split
        · rfl
        · exact hp
      · rw [hsize]
        exact (Table.size_insert_fresh hfind _).symm
    · simp only [hr, ne_eq, not_false_eq_true, ↓reduceIte]
      exact ⟨.refl t, fun h => absurd trivial h⟩

theorem Checked.grows (h : Checked ctx t s t') : Grows t t' := by
  obtain ⟨retain, rfl, _⟩ := h
  exact (t.state_grows ctx retain).1

theorem Checked.contains (h : Checked ctx t s t') (hs : s = .ok) :
    t'.states.contains ctx = true := by
  obtain ⟨retain, rfl, hnone⟩ := h
  refine (t.state_grows ctx retain).2 fun hstate => ?_
  rw [hnone hstate] at hs
  cases hs

theorem Unchecked.grows {write : CudaEntry → CudaEntry} (h : Unchecked write ctx t s t')
    (hctx : t.states.contains ctx = true) : Grows t t' := by
  obtain ⟨retain, h⟩ := h
  obtain ⟨e, he⟩ := Option.isSome_iff_exists.mp hctx
  simp only [state, he] at h
  obtain ⟨_, rfl⟩ := h
  refine ⟨fun p hp => ?_, id, rfl⟩
  simp only [Table.contains, Table.find_modify] at hp ⊢
  split
  · rw [he]
    rfl
  · exact hp

def Checks : PlatformCall → Prop
  | .gdsInit | .gdsFini | .grdmaInit | .grdmaFini => False
  | _ => True

theorem clientCall_checks {c : PlatformCall} (h : ClientCall c) : Checks c := by
  cases c <;> first | exact trivial | exact h.elim

theorem serves_grows {c : PlatformCall} {r : c.Answer} (h : Serves ctx c t r t')
    (hctx : Checks c ∨ t.states.contains ctx = true) : Grows t t' := by
  cases c with
  | lockClocks d => exact Checked.grows h
  | reserveVaddress bytes => exact Checked.grows h
  | mapHbmPool => exact Checked.grows h
  | createStream klass priority => exact Checked.grows h
  | loadModule name source => exact Checked.grows h
  | launchKernel fn grid block smem stream args => exact Checked.grows h
  | allocHbm bytes => exact Checked.grows h
  | gdsInit => exact Unchecked.grows h (hctx.resolve_left id)
  | gdsFini => exact Unchecked.grows h (hctx.resolve_left id)
  | grdmaInit => exact Unchecked.grows h (hctx.resolve_left id)
  | grdmaFini => exact Unchecked.grows h (hctx.resolve_left id)
  | _ =>
    obtain rfl : t' = t := h
    exact .refl t'

variable {α : Type} {p : PlatformProg α} {a : α}

theorem exec_grows_of_entry (h : Exec (Serves ctx) p t a t') (hctx : t.states.contains ctx = true) :
    Grows t t' := by
  refine (exec_invariant (I := fun v => Grows t v) ?_ h (.refl t))
  intro c v r v' hserves hv
  exact hv.trans (serves_grows hserves (.inr (hv.kept ctx hctx)))

theorem exec_grows_of_checks (h : Exec (Serves ctx) p t a t') (hp : Only Checks p) : Grows t t' := by
  refine hp.exec_invariant (I := fun v => Grows t v) ?_ h (.refl t)
  intro c v r v' hc hserves hv
  exact hv.trans (serves_grows hserves (.inl hc))

end SideTable

open SideTable

section Idle

variable {α β : Type} {get : α → FirmwareContext} {get' : β → FirmwareContext}
  {ctx : FirmwareContext}

def Idle (get : α → FirmwareContext) (p : PlatformProg α) : Prop :=
  Only Checks p ∧ Always (allow fun _ _ => True) p () fun a _ => (get a).dma = none

theorem Idle.bind {p : PlatformProg α} {f : α → PlatformProg β} (hp : Idle get p)
    (hf : ∀ a, (get a).dma = none → Idle get' (f a)) : Idle get' (p >>= f) := by
  constructor
  · apply hp.1.bind_of_always
    exact always_mono hp.2 fun a _ hnone => (hf a hnone).1
  · rw [always_bind]
    exact always_mono hp.2 fun a _ hnone => (hf a hnone).2

theorem idle_ret {a : α} (hdma : (get a).dma = none) : Idle get (.ret a) := ⟨trivial, hdma⟩

theorem idle_with {p : PlatformProg β} {f : β → α} (hp : Only Checks p)
    (hf : ∀ b, (get (f b)).dma = none) : Idle get (p >>= fun b => .ret (f b)) := by
  constructor
  · exact hp.bind fun _ => trivial
  · rw [always_bind]
    exact always_mono (always_true p ()) fun b _ _ => hf b

theorem uninstallFaults_idle (hdma : ctx.dma = none) : Idle Prod.snd ctx.uninstallFaults := by
  rw [FirmwareContext.uninstallFaults]
  cases ctx.faults with
  | none => exact idle_ret hdma
  | some f =>
    have hf : Only Checks f.uninstall :=
      .ite trivial (.op_bind trivial fun _ => .op_bind trivial fun _ => trivial)
    exact idle_with hf fun _ => hdma

theorem drainStreams_idle (hdma : ctx.dma = none) : Idle id ctx.drainStreams := by
  rw [FirmwareContext.drainStreams]
  cases ctx.microkernel with
  | none => exact idle_ret hdma
  | some m =>
    have hall (v : List StreamHandle) : Only Checks (MicroKernel.destroyStreams v) := by
      apply Only.forM
      exact fun _ => ⟨trivial, fun _ => trivial⟩
    have hm : Only Checks m.drainStreams :=
      (hall _).bind fun _ => (hall _).bind fun _ => (hall _).bind fun _ => trivial
    exact idle_with hm fun _ => hdma

theorem shutdownDma_idle (hdma : ctx.dma = none) : Idle id ctx.shutdownDma := by
  rw [FirmwareContext.shutdownDma, hdma]
  exact idle_ret hdma

theorem disableIlc_idle (hdma : ctx.dma = none) : Idle id ctx.disableIlc := by
  rw [FirmwareContext.disableIlc]
  cases ctx.ilc with
  | none => exact idle_ret hdma
  | some i =>
    have hi : Only Checks i.disable := by
      refine Only.ite trivial (Only.bind (Only.forM ?_ _) fun _ => trivial)
      exact fun _ => ⟨trivial, fun _ => trivial⟩
    exact idle_with hi fun _ => hdma

theorem destroyMemory_idle (hdma : ctx.dma = none) : Idle id ctx.destroyMemory := by
  rw [FirmwareContext.destroyMemory]
  cases ctx.mem with
  | none => exact idle_ret hdma
  | some m =>
    have hrelease (a : Memory.Allocation) : Only Checks (Memory.MemoryManager.releaseMemory a) :=
      .ite (.op_bind trivial fun _ => trivial) trivial
    have huntag (m : Memory.MemoryManager) (a : Memory.Allocation) : Only Checks (m.untagIlc a) :=
      (untagIlc_uses (A := anyBackend) m a).1.mono fun _ => clientCall_checks
    have heach (as : List Memory.Allocation) (m : Memory.MemoryManager) :
        Only Checks (Memory.MemoryManager.releaseEach as m) := by
      induction as generalizing m with
      | nil => exact trivial
      | cons a as ih => exact (hrelease a).bind fun _ => (huntag m a).bind fun m => ih m
    exact idle_with ((heach _ _).bind fun _ => trivial) fun _ => hdma

theorem shutdown_idle (hdma : ctx.dma = none) : Idle Prod.snd (shutdown ctx) := by
  rw [shutdown]
  apply (uninstallFaults_idle hdma).bind
  rintro ⟨last, ctx⟩ hdma
  apply (drainStreams_idle hdma).bind
  intro ctx hdma
  apply (shutdownDma_idle hdma).bind
  intro ctx hdma
  apply (disableIlc_idle hdma).bind
  intro ctx hdma
  exact ⟨⟨trivial, fun _ => trivial⟩, fun _ _ _ => hdma⟩

theorem destructor_only (hdma : ctx.dma = none) : Only Checks ctx.destructor := by
  rw [FirmwareContext.destructor]
  apply (destroyMemory_idle hdma).1.bind_of_always
  apply always_mono (destroyMemory_idle hdma).2
  intro ctx _ hdma
  apply (disableIlc_idle hdma).1.bind_of_always
  apply always_mono (disableIlc_idle hdma).2
  intro ctx _ hdma
  apply (uninstallFaults_idle hdma).1.bind_of_always
  apply always_mono (uninstallFaults_idle hdma).2
  rintro ⟨_, ctx⟩ _ hdma
  apply (shutdownDma_idle hdma).1.bind_of_always
  apply always_mono (shutdownDma_idle hdma).2
  intro ctx _ hdma
  exact (drainStreams_idle hdma).1.bind fun _ => trivial

end Idle

structure CudaProcess where
  table : SideTable := {}
  live : Table Ptr FirmwareContext := .empty

/-- A context is booted where no other one is alive. `look` is for `prefetch_range`, `resolve_fault`
and `dma_submit`, which check the entry, and `gds_read_fallback`, which makes no use of it. -/
inductive CudaStep (s : CudaProcess) : CudaProcess → Prop
  | boot (here : Ptr) (hfree : s.live.find here = none) (opts : BootOptions) (r : BootResult)
      (ev : List BootEvent) (table : SideTable)
      (h : Exec (Serves here) (boot opts) s.table (r, ev) table) :
      CudaStep s ⟨table, match r.ctx with
        | some ctx => s.live.insert here ctx
        | none => s.live⟩
  | use (here : Ptr) (ctx ctx' : FirmwareContext) (hlive : s.live.find here = some ctx)
      (ops : List ContextOp) (table : SideTable)
      (h : Exec (Serves here) (FirmwareContext.history ops ctx) s.table ctx' table) :
      CudaStep s ⟨table, s.live.insert here ctx'⟩
  | enable (here : Ptr) (ctx : FirmwareContext) (e : DmaEngine)
      (hlive : s.live.find here = some ctx) (hdma : ctx.dma = some e) (gds : Bool)
      (r : Status × DmaEngine) (table : SideTable)
      (h : Exec (Serves here) (if gds then e.enableGds else e.enableGrdma) s.table r table) :
      CudaStep s ⟨table, s.live.insert here { ctx with dma := some r.2 }⟩
  | look (here : Ptr) (ctx : FirmwareContext) (hlive : s.live.find here = some ctx)
      (retain : CuResult × Ptr) : CudaStep s ⟨(s.table.state here retain).2, s.live⟩
  | shutdown (here : Ptr) (ctx : FirmwareContext) (hlive : s.live.find here = some ctx)
      (r : Status × FirmwareContext) (table : SideTable)
      (h : Exec (Serves here) (shutdown ctx) s.table r table) :
      CudaStep s ⟨table, s.live.insert here r.2⟩
  | drop (here : Ptr) (ctx : FirmwareContext) (hlive : s.live.find here = some ctx)
      (table : SideTable) (h : Exec (Serves here) ctx.destructor s.table () table) :
      CudaStep s ⟨table, s.live.erase here⟩

def Entered (table : SideTable) (here : Ptr) (ctx : FirmwareContext) : Prop :=
  ctx.dma ≠ none → table.states.contains here = true

structure CudaInv (s : CudaProcess) : Prop where
  entered : ∀ here ctx, s.live.find here = some ctx → Entered s.table here ctx
  retained : s.table.retained = s.table.states.size
  nullDeref : s.table.nullDeref = false

section Steps

variable {t t' : SideTable} {here : Ptr} {s s' : CudaProcess}

theorem exec_unless_ok {σ α : Type} {H : (c : PlatformCall) → σ → c.Answer → σ → Prop} {w w' : σ}
    {st : Status} {a b : α} {p : PlatformProg α}
    (h : Exec H (if !ok st then pure a else p) w b w') :
    (st ≠ .ok ∧ b = a ∧ w' = w) ∨ (st = .ok ∧ Exec H p w b w') := by
  by_cases hst : st = .ok
  · subst hst
    exact .inr ⟨rfl, h⟩
  · have hok : ok st = false := by simpa using hst
    simp only [hok, Bool.not_false, ↓reduceIte] at h
    exact .inl ⟨hst, h.1, h.2⟩

theorem probeDriver_grows {opts : BootOptions} {r : Status × DeviceDesc}
    (h : Exec (Serves here) (probeDriver opts) t r t') : Grows t t' := by
  apply exec_grows_of_checks h
  exact Only.op_bind trivial fun _ => .ite trivial (.op_bind trivial fun _ => .ite trivial trivial)

theorem initHbm_entered {d : DeviceDesc} {ctx : FirmwareContext} {r : Status × FirmwareContext}
    (h : Exec (Serves here) (initHbm d ctx) t r t') :
    Grows t t' ∧ r.2.dma = ctx.dma ∧ (r.1 = .ok → t'.states.contains here = true) := by
  rw [initHbm, Platform.reserveVaddress, exec_op_bind] at h
  obtain ⟨st, u, hreserve, h⟩ := h
  have hgrows : Grows t u := Checked.grows hreserve
  rcases exec_unless_ok h with ⟨hst, hr, ht⟩ | ⟨hst, h⟩
  · subst hr ht
    exact ⟨hgrows, rfl, fun hok => absurd hok hst⟩
  · rw [Platform.mapHbmPool, exec_op_bind] at h
    obtain ⟨st', v, hmap, hr, ht⟩ := h
    subst hr ht
    have hmapped : Grows u t' := Checked.grows hmap
    exact ⟨hgrows.trans hmapped, rfl, fun _ => hmapped.kept here (Checked.contains hreserve hst)⟩

theorem boot_entered {opts : BootOptions} {r : BootResult × List BootEvent}
    (h : Exec (Serves here) (boot opts) t r t') :
    Grows t t' ∧ ∀ ctx, r.1.ctx = some ctx → Entered t' here ctx := by
  rw [boot, exec_bind] at h
  obtain ⟨⟨st, d⟩, t₁, hprobe, h⟩ := h
  have hgrows := probeDriver_grows hprobe
  rcases exec_unless_ok h with ⟨_, rfl, rfl⟩ | ⟨_, h⟩
  · refine ⟨hgrows, fun c hc => ?_⟩
    simp only [reduceCtorEq] at hc
  · rw [Platform.lockClocks, exec_op_bind] at h
    obtain ⟨_, t₂, hlock, h⟩ := h
    have hgrows := hgrows.trans (Checked.grows hlock)
    rw [exec_bind] at h
    obtain ⟨⟨st', ctx⟩, t₃, hinit, h⟩ := h
    obtain ⟨hinit, hdma, hentry⟩ := initHbm_entered hinit
    have hgrows := hgrows.trans hinit
    rcases exec_unless_ok h with ⟨_, rfl, rfl⟩ | ⟨hok, h⟩
    · refine ⟨hgrows, fun c hc => ?_⟩
      obtain rfl := Option.some.inj hc
      exact fun hup => absurd hdma hup
    · have hrest := exec_grows_of_entry h (hentry hok)
      exact ⟨hgrows.trans hrest, fun c _ _ => hrest.kept here (hentry hok)⟩

theorem use_entered {ops : List ContextOp} {ctx ctx' : FirmwareContext}
    (h : Exec (Serves here) (FirmwareContext.history ops ctx) t ctx' t')
    (hentered : Entered t here ctx) : Grows t t' ∧ Entered t' here ctx' := by
  obtain ⟨hcalls, hkept⟩ := history_kept (A := anyBackend) ops ctx
  have hgrows : Grows t t' := exec_grows_of_checks h (hcalls.mono fun _ => clientCall_checks)
  have hdma : ctx'.dma = ctx.dma := (exec_of_always hkept h).dma
  exact ⟨hgrows, fun hup => hgrows.kept here (hentered (hdma ▸ hup))⟩

theorem enable_entered {gds : Bool} {e : DmaEngine} {ctx : FirmwareContext} {r : Status × DmaEngine}
    (h : Exec (Serves here) (if gds then e.enableGds else e.enableGrdma) t r t')
    (hdma : ctx.dma = some e) (hentered : Entered t here ctx) :
    Grows t t' ∧ t'.states.contains here = true := by
  have hentry : t.states.contains here = true := hentered (by rw [hdma]; exact nofun)
  have hgrows := exec_grows_of_entry h hentry
  exact ⟨hgrows, hgrows.kept here hentry⟩

theorem down_entered {α : Type} {get : α → FirmwareContext} {p : PlatformProg α} {a : α}
    {ctx : FirmwareContext} (h : Exec (Serves here) p t a t') (hentered : Entered t here ctx)
    (hidle : ctx.dma = none → Idle get p) : Grows t t' ∧ Entered t' here (get a) := by
  by_cases hdma : ctx.dma = none
  · obtain ⟨honly, halways⟩ := hidle hdma
    exact ⟨exec_grows_of_checks h honly, fun hup => absurd (exec_of_always halways h) hup⟩
  · have hgrows := exec_grows_of_entry h (hentered hdma)
    exact ⟨hgrows, fun _ => hgrows.kept here (hentered hdma)⟩

theorem drop_grows {ctx : FirmwareContext} (h : Exec (Serves here) ctx.destructor t () t')
    (hentered : Entered t here ctx) : Grows t t' := by
  by_cases hdma : ctx.dma = none
  · exact exec_grows_of_checks h (destructor_only hdma)
  · exact exec_grows_of_entry h (hentered hdma)

theorem CudaInv.after {live : Table Ptr FirmwareContext} (hi : CudaInv s) (hgrows : Grows s.table t)
    (hlive : ∀ p ctx, live.find p = some ctx → s.live.find p = some ctx ∨ Entered t p ctx) :
    CudaInv ⟨t, live⟩ := by
  refine ⟨fun p ctx hctx => ?_, hgrows.retained hi.retained, hgrows.nullDeref.trans hi.nullDeref⟩
  rcases hlive p ctx hctx with hold | hnew
  · exact fun hup => hgrows.kept p (hi.entered p ctx hold hup)
  · exact hnew

theorem CudaInv.insert {ctx : FirmwareContext} (hi : CudaInv s) (hgrows : Grows s.table t)
    (hentered : Entered t here ctx) : CudaInv ⟨t, s.live.insert here ctx⟩ := by
  apply hi.after hgrows
  intro p c hc
  rw [Table.find_insert] at hc
  split at hc
  · next heq =>
    obtain rfl := Option.some.inj hc
    exact .inr (heq ▸ hentered)
  · exact .inl hc

theorem step_inv (hi : CudaInv s) (h : CudaStep s s') : Grows s.table s'.table ∧ CudaInv s' := by
  cases h with
  | boot here hfree opts r ev table h =>
    obtain ⟨hgrows, hentered⟩ := boot_entered h
    refine ⟨hgrows, ?_⟩
    cases hctx : r.ctx with
    | none => exact hi.after hgrows fun p c hc => .inl hc
    | some ctx => exact hi.insert hgrows (hentered ctx hctx)
  | use here ctx ctx' hlive ops table h =>
    obtain ⟨hgrows, hentered⟩ := use_entered h (hi.entered here ctx hlive)
    exact ⟨hgrows, hi.insert hgrows hentered⟩
  | enable here ctx e hlive hdma gds r table h =>
    obtain ⟨hgrows, hentry⟩ := enable_entered h hdma (hi.entered here ctx hlive)
    exact ⟨hgrows, hi.insert hgrows fun _ => hentry⟩
  | look here ctx hlive retain =>
    have hgrows := (s.table.state_grows here retain).1
    exact ⟨hgrows, hi.after hgrows fun p c hc => .inl hc⟩
  | shutdown here ctx hlive r table h =>
    obtain ⟨hgrows, hentered⟩ := down_entered h (hi.entered here ctx hlive) shutdown_idle
    exact ⟨hgrows, hi.insert hgrows hentered⟩
  | drop here ctx hlive table h =>
    have hgrows := drop_grows h (hi.entered here ctx hlive)
    refine ⟨hgrows, hi.after hgrows fun p c hc => ?_⟩
    rw [Table.find_erase] at hc
    split at hc
    · cases hc
    · exact .inl hc

theorem run_inv (hi : CudaInv s) (h : Relation.ReflTransGen CudaStep s s') :
    Grows s.table s'.table ∧ CudaInv s' := by
  induction h with
  | refl => exact ⟨.refl s.table, hi⟩
  | tail _ hstep ih =>
    obtain ⟨hgrows, hinv⟩ := step_inv ih.2 hstep
    exact ⟨ih.1.trans hgrows, hinv⟩

theorem entry_never_null (s : CudaProcess) (h : Relation.ReflTransGen CudaStep {} s) :
    s.table.nullDeref = false ∧ s.table.retained = s.table.states.size ∧
      (∀ here ctx, s.live.find here = some ctx → ctx.dma ≠ none →
        s.table.states.contains here = true) ∧
      ∀ s', Relation.ReflTransGen CudaStep s s' →
        ∀ p, s.table.states.contains p = true → s'.table.states.contains p = true := by
  have hi : CudaInv s := (run_inv ⟨by simp, rfl, rfl⟩ h).2
  exact ⟨hi.nullDeref, hi.retained, hi.entered, fun s' h' => (run_inv hi h').1.kept⟩

end Steps

def cudaBackend (ctx : Ptr) : (c : PlatformCall) → SideTable → c.Answer × SideTable
  | .lockClocks _, t => (.ok, (t.state ctx (.success, 5)).2)
  | .reserveVaddress _, t => (.ok, (t.state ctx (.success, 5)).2)
  | .mapHbmPool, t => (.ok, (t.state ctx (.success, 5)).2)
  | .createStream _ _, t => ((.ok, 7), (t.state ctx (.success, 5)).2)
  | .loadModule _ _, t => ((.ok, 9, .empty), (t.state ctx (.success, 5)).2)
  | .launchKernel _ _ _ _ _ _, t => (.ok, (t.state ctx (.success, 5)).2)
  | .allocHbm _, t => ((.ok, 0x10000), (t.state ctx (.success, 5)).2)
  | .gdsInit, t => (.ok, unchecked t fun e => { e with gdsInited := true })
  | .gdsFini, t => (.ok, unchecked t fun e => { e with gdsInited := false })
  | .grdmaInit, t => (.ok, unchecked t fun e => { e with grdmaInited := true })
  | .grdmaFini, t => (.ok, unchecked t fun e => { e with grdmaInited := false })
  | .describeDevice _, t => ({ vendor := .nvidia, features := ⟨true, true, true⟩ }, t)
  | c, t => (succeedingBackend apple c, t)
where unchecked (t : SideTable) (write : CudaEntry → CudaEntry) : SideTable :=
  let (e, u) := t.state ctx (.success, 5)
  match e with
  | none => { u with nullDeref := true }
  | some _ => { u with states := u.states.modify ctx write }

theorem serves_cudaBackend (ctx : Ptr) (c : PlatformCall) (t : SideTable) :
    Serves ctx c t (cudaBackend ctx c t).1 (cudaBackend ctx c t).2 := by
  have hsome : (t.state ctx (.success, 5)).1 ≠ none := by
    rw [state]
    split <;> simp
  have hchecked {s : Status} : Checked ctx t s (t.state ctx (.success, 5)).2 :=
    ⟨_, rfl, fun hnone => absurd hnone hsome⟩
  have hunchecked (write : CudaEntry → CudaEntry) :
      Unchecked write ctx t .ok (cudaBackend.unchecked ctx t write) := by
    refine ⟨(.success, 5), ?_⟩
    rw [cudaBackend.unchecked]
    generalize t.state ctx (.success, 5) = r
    obtain ⟨_ | e, u⟩ := r
    · exact rfl
    · exact ⟨rfl, rfl⟩
  cases c <;> first | exact hchecked | exact hunchecked _ | exact rfl

def cudaBooted : (BootResult × List BootEvent) × SideTable := eval (cudaBackend 16) (boot {}) {}

def cudaContext : FirmwareContext := cudaBooted.1.1.ctx.getD { device := {} }

def cudaDown : (Status × FirmwareContext) × SideTable :=
  eval (cudaBackend 16) (shutdown cudaContext) cudaBooted.2

theorem entry_never_null_shutdown : cudaDown.2.nullDeref = false ∧ cudaDown.2.retained = 1 := by
  have hup : cudaBooted.1.1.ctx = some cudaContext := by rfl
  have hboot : Exec (Serves 16) (boot {}) {} (cudaBooted.1.1, cudaBooted.1.2) cudaBooted.2 :=
    exec_eval (serves_cudaBackend 16) (boot {}) {}
  have hdown : Exec (Serves 16) (shutdown cudaContext) cudaBooted.2 cudaDown.1 cudaDown.2 :=
    exec_eval (serves_cudaBackend 16) (shutdown cudaContext) cudaBooted.2
  have hbooted : CudaStep {} ⟨cudaBooted.2, Table.empty.insert 16 cudaContext⟩ := by
    have h := CudaStep.boot (s := {}) 16 rfl {} cudaBooted.1.1 cudaBooted.1.2 cudaBooted.2 hboot
    rw [hup] at h
    exact h
  have hgone := CudaStep.shutdown (s := ⟨cudaBooted.2, Table.empty.insert 16 cudaContext⟩) 16
    cudaContext (by rw [Table.find_insert, if_pos rfl]) cudaDown.1 cudaDown.2 hdown
  obtain ⟨hnull, hretained, _⟩ := entry_never_null _ (.tail (.single hbooted) hgone)
  refine ⟨hnull, hretained.trans ?_⟩
  decide

end NexusRT.Firmware

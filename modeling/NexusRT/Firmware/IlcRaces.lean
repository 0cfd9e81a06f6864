import Mathlib.Data.Set.Insert
import NexusRT.Firmware.IlcManager
import NexusRT.Library.Interleave

/-!
Calls of `IlcManager` that interleave at its atomics, at `ilc_tag` and at the sections under its
mutex. A client that makes several calls is several threads, one after the other.
-/

namespace NexusRT.Firmware

open Interleave Prog

namespace IlcManager

def untagAll (i : IlcManager) : PlatformProg IlcManager := do
  i.tagged.keys.forM fun h => do
    let _ ← Platform.ilcUntag h
    return ()
  return { i with tagged := .empty, enabled := false }

def untagOne (i : IlcManager) (h : Ptr) : PlatformProg (Status × IlcManager) := do
  if !i.tagged.contains h then return (.invalidArgument, i) else
  let s ← Platform.ilcUntag h
  return (s, { i with tagged := i.tagged.erase h })

theorem disable_eq (i : IlcManager) : i.disable =
    if !i.enabled then pure (.ok, i) else i.untagAll >>= fun i => pure (.ok, i) := by
  rw [disable, untagAll, bind_bind]
  rfl

theorem untag_eq (i : IlcManager) (h : Ptr) :
    i.untag h = if !i.enabled then pure (.ok, i) else i.untagOne h := rfl

end IlcManager

inductive IlcReader
  | disable | tag | untag
  deriving DecidableEq

inductive IlcCall
  | storeEnabled
  | loadEnabled (reader : IlcReader)
  | ilcTag (h : Ptr)
  | insertTagged (h : Ptr)
  | addBytes (bytes : UInt64)
  | addAlloc
  | untagAll
  | untagOne (h : Ptr)

abbrev IlcCall.Answer : IlcCall → Type
  | .storeEnabled => Unit
  | .loadEnabled _ => Bool
  | .ilcTag _ => Status
  | .insertTagged _ => Unit
  | .addBytes _ => Unit
  | .addAlloc => Unit
  | .untagAll => Unit
  | .untagOne _ => Status

abbrev IlcProg := Prog IlcCall IlcCall.Answer

namespace IlcProg

def storeEnabled : IlcProg Unit := .op IlcCall.storeEnabled

def loadEnabled (reader : IlcReader) : IlcProg Bool := .op (IlcCall.loadEnabled reader)

def ilcTag (h : Ptr) : IlcProg Status := .op (IlcCall.ilcTag h)

def insertTagged (h : Ptr) : IlcProg Unit := .op (IlcCall.insertTagged h)

def addBytes (bytes : UInt64) : IlcProg Unit := .op (IlcCall.addBytes bytes)

def addAlloc : IlcProg Unit := .op IlcCall.addAlloc

def untagAll : IlcProg Unit := .op IlcCall.untagAll

def untagOne (h : Ptr) : IlcProg Status := .op (IlcCall.untagOne h)

def enable (d : DeviceDesc) : IlcProg Status :=
  if !d.features.ilc then return .notImplemented else do
  storeEnabled
  return .ok

def disable : IlcProg Status := do
  if !(← loadEnabled .disable) then return .ok else
  untagAll
  return .ok

def tag (allocHandle : Ptr) (bytes : UInt64) : IlcProg Status := do
  if !(← loadEnabled .tag) then return .notImplemented else
  let s ← ilcTag allocHandle
  if !ok s then return s else
  insertTagged allocHandle
  addBytes bytes
  addAlloc
  return .ok

def untag (allocHandle : Ptr) : IlcProg Status := do
  if !(← loadEnabled .untag) then return .ok else
  untagOne allocHandle

end IlcProg

/-- A backend whose calls succeed, as the set of the handles that are tagged in it. -/
def TagBackend : (c : PlatformCall) → Set Ptr → c.Answer → Set Ptr → Prop
  | .ilcTag h, b, s, b' => s = .ok ∧ b' = insert h b
  | .ilcUntag h, b, s, b' => s = .ok ∧ b' = b \ {h}
  | _, b, _, b' => b' = b

/-- `disabled` is a ghost: a `disable` has returned and `enabled_` was not set since. -/
structure IlcWorld where
  ilc : IlcManager := {}
  backend : Set Ptr := ∅
  disabled : Bool := false

def IlcWorld.Serves : (c : IlcCall) → IlcWorld → c.Answer → IlcWorld → Prop
  | .storeEnabled, w, _, w' =>
    w' = { w with ilc := { w.ilc with enabled := true }, disabled := false }
  | .loadEnabled reader, w, seen, w' => seen = w.ilc.enabled ∧
    -- a `disable` that reads false returns at once
    w' = { w with disabled := w.disabled || (reader = .disable && !seen) }
  | .ilcTag h, w, s, w' =>
    ∃ b', TagBackend (.ilcTag h) w.backend s b' ∧ w' = { w with backend := b' }
  | .insertTagged h, w, _, w' =>
    w' = { w with ilc := { w.ilc with tagged := w.ilc.tagged.insert h () } }
  | .addBytes bytes, w, _, w' =>
    w' = { w with ilc := { w.ilc with totalBytes := w.ilc.totalBytes + bytes } }
  | .addAlloc, w, _, w' =>
    w' = { w with ilc := { w.ilc with totalAllocs := w.ilc.totalAllocs + 1 } }
  | .untagAll, w, _, w' =>
    ∃ i' b', Exec TagBackend w.ilc.untagAll w.backend i' b' ∧ w' = ⟨i', b', true⟩
  | .untagOne h, w, s, w' => ∃ i' b', Exec TagBackend (w.ilc.untagOne h) w.backend (s, i') b' ∧
    w' = { w with ilc := i', backend := b' }

/-- Where a call of `tag` stands: `checked` after it has read that compression is enabled, and
`pending` while its handle is tagged in the backend only. -/
inductive TagPhase
  | outside
  | checked
  | pending (h : Ptr)

def TagPhase.after : (c : IlcCall) → c.Answer → TagPhase → TagPhase
  | .loadEnabled .tag, seen, l => if seen then .checked else l
  | .ilcTag h, s, _ => if ok s then .pending h else .outside
  | .insertTagged _, _, _ => .outside
  | _, _, l => l

def TagPhase.allowed : IlcCall → TagPhase → Prop
  | .ilcTag _, l => l = .checked
  | .insertTagged h, l => l = .pending h
  | _, l => l = .outside

inductive IsIlcCall (d : DeviceDesc) : IlcProg Status → Prop
  | enable : IsIlcCall d (IlcProg.enable d)
  | disable : IsIlcCall d IlcProg.disable
  | tag (h : Ptr) (bytes : UInt64) : IsIlcCall d (IlcProg.tag h bytes)
  | untag (h : Ptr) : IsIlcCall d (IlcProg.untag h)

def ilcClients (d : DeviceDesc) : System IlcCall IlcCall.Answer IlcWorld TagPhase where
  serves := IlcWorld.Serves
  client p := ∃ q, IsIlcCall d q ∧ p = q >>= fun _ => pure ()
  initial := .outside
  after := TagPhase.after

def NoTagInFlight (p : Pool IlcCall IlcCall.Answer IlcWorld TagPhase) : Action IlcCall → Prop
  | .call .untagAll => ∀ t ∈ p.threads, t.ghost = .outside
  | _ => True

structure Covered (w : IlcWorld) (phases : List TagPhase) : Prop where
  tagged : ∀ h ∈ w.backend, w.ilc.tagged.contains h = true ∨ .pending h ∈ phases
  off : w.ilc.enabled = false →
    (∀ h, w.ilc.tagged.contains h = false) ∧ ∀ l ∈ phases, l = .outside
  disabled : w.disabled = true → w.ilc.enabled = false

theorem isIlcCall_respects {d : DeviceDesc} {q : IlcProg Status} (h : IsIlcCall d q) :
    Respects TagPhase.after TagPhase.allowed q .outside (fun _ l => l = .outside) := by
  cases h with
  | enable =>
    rw [IlcProg.enable]
    split
    · rfl
    · exact ⟨rfl, fun _ => rfl⟩
  | disable =>
    refine ⟨rfl, fun seen => ?_⟩
    cases seen with
    | false => rfl
    | true => exact ⟨rfl, fun _ => rfl⟩
  | tag h bytes =>
    refine ⟨rfl, fun seen => ?_⟩
    cases seen with
    | false => rfl
    | true =>
      refine ⟨rfl, fun s => ?_⟩
      by_cases hs : s = .ok
      · subst hs
        exact ⟨rfl, fun _ => ⟨rfl, fun _ => ⟨rfl, fun _ => rfl⟩⟩⟩
      · have hok : ok s = false := by simpa using hs
        change Respects _ _ (if !ok s then ret s else _)
          (if ok s then TagPhase.pending h else .outside) _
        rw [hok]
        rfl
  | untag h =>
    refine ⟨rfl, fun seen => ?_⟩
    cases seen with
    | false => rfl
    | true => exact ⟨rfl, fun _ => rfl⟩

theorem untagEach_exec {hs : List Ptr} {b b' : Set Ptr} {u : PUnit}
    (h : Exec TagBackend (hs.forM fun h => do
      let _ ← Platform.ilcUntag h
      return ()) b u b') : b' = {h ∈ b | h ∉ hs} := by
  induction hs generalizing b with
  | nil =>
    obtain ⟨_, rfl⟩ := h
    simp
  | cons x hs ih =>
    obtain ⟨_, b₁, ⟨_, rfl⟩, hrest⟩ := h
    rw [ih hrest]
    ext y
    simp [and_assoc]

theorem untagAll_exec {i i' : IlcManager} {b b' : Set Ptr}
    (h : Exec TagBackend i.untagAll b i' b') :
    i' = { i with tagged := .empty, enabled := false } ∧
      b' = {h ∈ b | i.tagged.contains h = false} := by
  rw [IlcManager.untagAll, exec_bind] at h
  obtain ⟨_, b₁, heach, rfl, rfl⟩ := h
  refine ⟨rfl, ?_⟩
  rw [untagEach_exec heach]
  ext h
  simp [Table.contains, Table.not_mem_keys]

theorem untagOne_exec {i i' : IlcManager} {x : Ptr} {s : Status} {b b' : Set Ptr}
    (h : Exec TagBackend (i.untagOne x) b (s, i') b') :
    (i' = i ∧ b' = b) ∨ (i' = { i with tagged := i.tagged.erase x } ∧ b' = b \ {x}) := by
  rw [IlcManager.untagOne] at h
  split at h
  · obtain ⟨hret, rfl⟩ := h
    exact .inl ⟨(Prod.mk.inj hret).2, rfl⟩
  · obtain ⟨s₁, b₁, ⟨_, rfl⟩, hret, rfl⟩ := h
    exact .inr ⟨(Prod.mk.inj hret).2, rfl⟩

section Calls

variable {w w' : IlcWorld} {pre post : List TagPhase} {l : TagPhase}

theorem Covered.loadEnabled {reader : IlcReader} {seen : Bool}
    (hserves : IlcWorld.Serves (.loadEnabled reader) w seen w') (hl : l = .outside)
    (h : Covered w (pre ++ l :: post)) :
    Covered w' (pre ++ l.after (.loadEnabled reader) seen :: post) := by
  obtain ⟨rfl, rfl⟩ := hserves
  cases reader with
  | disable =>
    refine ⟨h.tagged, h.off, fun hdisabled => ?_⟩
    simp only [decide_true, Bool.true_and, Bool.or_eq_true, Bool.not_eq_true'] at hdisabled
    exact hdisabled.elim h.disabled id
  | tag =>
    -- whoever reads true leaves the case in which `enabled_` is off empty
    simp only [reduceCtorEq, decide_false, Bool.false_and, Bool.or_false]
    cases hon : w.ilc.enabled with
    | false => exact h
    | true =>
      refine ⟨fun y hy => ?_, fun hoff => ?_, h.disabled⟩
      · rcases h.tagged y hy with htag | hmem
        · exact .inl htag
        · exact .inr ((mem_threads hmem).resolve_left (by simp [hl]))
      · rw [hon] at hoff
        cases hoff
  | untag => simpa [TagPhase.after] using h

theorem Covered.ilcTag {x : Ptr} {s : Status} (hserves : IlcWorld.Serves (.ilcTag x) w s w')
    (hl : l = .checked) (h : Covered w (pre ++ l :: post)) :
    Covered w' (pre ++ l.after (.ilcTag x) s :: post) := by
  obtain ⟨_, ⟨rfl, rfl⟩, rfl⟩ := hserves
  subst hl
  have hlast : TagPhase.checked.after (.ilcTag x) .ok = .pending x := rfl
  rw [hlast]
  refine ⟨fun y hy => ?_, fun hoff => ?_, h.disabled⟩
  · rcases Set.mem_insert_iff.mp hy with rfl | hy
    · right
      simp
    · rcases h.tagged y hy with htag | hmem
      · exact .inl htag
      · exact .inr ((mem_threads hmem).resolve_left (by simp))
  · have hfalse := (h.off hoff).2 .checked (by simp)
    cases hfalse

theorem Covered.insertTagged {x : Ptr} (hserves : IlcWorld.Serves (.insertTagged x) w () w')
    (hl : l = .pending x) (h : Covered w (pre ++ l :: post)) :
    Covered w' (pre ++ l.after (.insertTagged x) () :: post) := by
  subst hserves hl
  refine ⟨fun y hy => ?_, fun hoff => ?_, h.disabled⟩
  · by_cases hyx : y = x
    · left
      simp [Table.contains, hyx]
    · rcases h.tagged y hy with htag | hmem
      · left
        simpa [Table.contains, hyx] using htag
      · right
        apply (mem_threads hmem).resolve_left
        rintro ⟨⟩
        exact hyx rfl
  · have hfalse := (h.off hoff).2 (.pending x) (by simp)
    cases hfalse

theorem Covered.untagAll (hserves : IlcWorld.Serves .untagAll w () w')
    (hcalm : ∀ m ∈ pre ++ l :: post, m = .outside) (h : Covered w (pre ++ l :: post)) :
    Covered w' (pre ++ l :: post) := by
  obtain ⟨i', b', hexec, rfl⟩ := hserves
  obtain ⟨rfl, rfl⟩ := untagAll_exec hexec
  refine ⟨fun y hy => ?_, fun _ => ⟨fun _ => rfl, hcalm⟩, fun _ => rfl⟩
  obtain ⟨hy, hnot⟩ := hy
  -- what the section does not find in the set is tagged by a call in flight
  rcases h.tagged y hy with htag | hmem
  · rw [hnot] at htag
    cases htag
  · cases hcalm _ hmem

theorem Covered.untagOne {x : Ptr} {s : Status} (hserves : IlcWorld.Serves (.untagOne x) w s w')
    (h : Covered w (pre ++ l :: post)) : Covered w' (pre ++ l :: post) := by
  obtain ⟨i', b', hexec, rfl⟩ := hserves
  rcases untagOne_exec hexec with ⟨rfl, rfl⟩ | ⟨rfl, rfl⟩
  · exact h
  · refine ⟨fun y hy => ?_, fun hoff => ⟨fun y => ?_, (h.off hoff).2⟩, h.disabled⟩
    · obtain ⟨hy, hne⟩ := hy
      rw [Set.mem_singleton_iff] at hne
      exact (h.tagged y hy).imp_left fun htag => by simpa [Table.contains, hne] using htag
    · have hnone := (h.off hoff).1 y
      simp only [Table.contains, Table.find_erase] at hnone ⊢
      split
      · rfl
      · exact hnone

theorem Covered.call {c : IlcCall} {r : c.Answer} (hserves : IlcWorld.Serves c w r w')
    (hallowed : l.allowed c) (hcalm : c = .untagAll → ∀ m ∈ pre ++ l :: post, m = .outside)
    (h : Covered w (pre ++ l :: post)) : Covered w' (pre ++ l.after c r :: post) := by
  cases c with
  | storeEnabled =>
    subst hserves
    exact ⟨h.tagged, nofun, nofun⟩
  | loadEnabled reader => exact h.loadEnabled hserves hallowed
  | ilcTag x => exact h.ilcTag hserves hallowed
  | insertTagged x => exact h.insertTagged hserves hallowed
  | addBytes bytes =>
    subst hserves
    exact ⟨h.tagged, h.off, h.disabled⟩
  | addAlloc =>
    subst hserves
    exact ⟨h.tagged, h.off, h.disabled⟩
  | untagAll => exact h.untagAll hserves (hcalm rfl)
  | untagOne x => exact h.untagOne hserves

end Calls

theorem disabled_untagged (d : DeviceDesc) (p : Pool IlcCall IlcCall.Answer IlcWorld TagPhase)
    (hrun : Run (ilcClients d) NoTagInFlight ⟨{}, []⟩ p) (hdone : Done p)
    (hdisabled : p.state.disabled = true) :
    p.state.backend = ∅ ∧ ∀ h, p.state.ilc.tagged.contains h = false := by
  have hstart : Sound (ilcClients d) (fun c l => TagPhase.allowed c l) (fun l => l = .outside)
      (fun w ts => Covered w (ts.map (·.ghost))) ⟨{}, []⟩ :=
    ⟨by simp, ⟨by simp, by simp [Table.contains], by simp⟩⟩
  have hsound := hrun.sound ?_ ?_ ?_ hstart
  · have hcovered := hsound.state
    obtain ⟨hclear, _⟩ := hcovered.off (hcovered.disabled hdisabled)
    refine ⟨Set.eq_empty_iff_forall_notMem.mpr fun h hh => ?_, hclear⟩
    rcases hcovered.tagged h hh with htag | hmem
    · rw [hclear h] at htag
      cases htag
    · obtain ⟨t, ht, hpending⟩ := List.mem_map.mp hmem
      cases hpending.symm.trans (hsound.final_of_done hdone ht)
  · rintro _ ⟨q, hq, rfl⟩
    exact (respects_bind q _ _ _).mpr (isIlcCall_respects hq)
  · intro pre post l c k w r w' hserves hallowed hcalm hcovered
    simp only [List.map_append, List.map_cons] at hcovered ⊢
    apply hcovered.call hserves hallowed
    rintro rfl m hm
    have hmem : m ∈ (pre ++ ⟨l, .call .untagAll k⟩ :: post).map (·.ghost) := by simpa using hm
    obtain ⟨t, ht, rfl⟩ := List.mem_map.mp hmem
    exact hcalm t ht
  · intro w ts q _ hcovered
    refine ⟨fun y hy => ?_, fun hoff => ?_, hcovered.disabled⟩
    · exact (hcovered.tagged y hy).imp_right (List.mem_cons_of_mem _)
    · exact ⟨(hcovered.off hoff).1, List.forall_mem_cons.mpr ⟨rfl, (hcovered.off hoff).2⟩⟩

def hopper : DeviceDesc where
  vendor := .nvidia
  arch := .hopper
  features := { ilc := true }

def inFlight : IlcWorld where
  ilc := { enabled := true }
  backend := {1}

def placing : IlcProg Unit := do
  IlcProg.insertTagged 1
  IlcProg.addBytes 64
  IlcProg.addAlloc

theorem run_in_flight : Run (ilcClients hopper) NoTagInFlight ⟨{}, []⟩
    ⟨inFlight, [⟨.pending 1, placing⟩, ⟨.outside, .ret ()⟩]⟩ := by
  have hspawn : Run (ilcClients hopper) NoTagInFlight ⟨{}, []⟩ ⟨{}, [⟨.outside, _⟩]⟩ :=
    Run.spawn .refl _ ⟨_, .enable, rfl⟩ trivial
  have henable := hspawn.call [] IlcCall.storeEnabled () rfl trivial
  have htag := henable.spawn _ ⟨_, .tag 1 64, rfl⟩ trivial
  have hload := htag.call [] (IlcCall.loadEnabled .tag) true ⟨rfl, rfl⟩ trivial
  have hbackend : TagBackend (.ilcTag 1) ∅ .ok {1} := ⟨rfl, by simp⟩
  exact hload.call [] (IlcCall.ilcTag 1) .ok ⟨_, hbackend, rfl⟩ trivial

theorem disabled_untagged_enabled : ∃ p : Pool IlcCall IlcCall.Answer IlcWorld TagPhase,
    Run (ilcClients hopper) NoTagInFlight ⟨{}, []⟩ p ∧ p.state.backend = ∅ := by
  have hinsert := run_in_flight.call [] (IlcCall.insertTagged 1) () rfl trivial
  have hbytes := hinsert.call [] (IlcCall.addBytes 64) () rfl trivial
  have hdone := hbytes.call [] IlcCall.addAlloc () rfl trivial
  have hdisable := hdone.spawn _ ⟨_, .disable, rfl⟩ trivial
  have hload := hdisable.call [] (IlcCall.loadEnabled .disable) true ⟨rfl, rfl⟩ trivial
  have hclear := hload.call [] IlcCall.untagAll () ⟨_, _, ⟨.ok, _, ⟨rfl, rfl⟩, rfl, rfl⟩, rfl⟩
    (by simp [NoTagInFlight, ilcClients, TagPhase.after])
  refine ⟨_, hclear, (disabled_untagged hopper _ hclear ?_ rfl).1⟩
  exact List.forall_mem_cons.mpr ⟨rfl, List.forall_mem_cons.mpr ⟨rfl,
    List.forall_mem_singleton.mpr rfl⟩⟩

theorem tagged_after_disable : ¬ ∀ (d : DeviceDesc)
    (p : Pool IlcCall IlcCall.Answer IlcWorld TagPhase),
    Run (ilcClients d) (fun _ _ => True) ⟨{}, []⟩ p → Done p → p.state.disabled = true →
      p.state.backend = ∅ ∧ ∀ h, p.state.ilc.tagged.contains h = false := by
  intro hall
  have hrun : Run (ilcClients hopper) (fun _ _ => True) ⟨{}, []⟩ _ :=
    run_in_flight.weaken fun _ _ _ => trivial
  have hdisable := hrun.spawn _ ⟨_, .disable, rfl⟩ trivial
  have hload := hdisable.call [] (IlcCall.loadEnabled .disable) true ⟨rfl, rfl⟩ trivial
  have hclear := hload.call [] IlcCall.untagAll () ⟨_, _, ⟨rfl, rfl⟩, rfl⟩ trivial
  have hinsert := hclear.call [⟨TagPhase.outside, .ret ()⟩] (IlcCall.insertTagged 1) () rfl trivial
  have hbytes := hinsert.call [⟨TagPhase.outside, .ret ()⟩] (IlcCall.addBytes 64) () rfl trivial
  have hdone := hbytes.call [⟨TagPhase.outside, .ret ()⟩] IlcCall.addAlloc () rfl trivial
  obtain ⟨_, hempty⟩ := hall hopper _ hdone (List.forall_mem_cons.mpr ⟨rfl,
    List.forall_mem_cons.mpr ⟨rfl, List.forall_mem_singleton.mpr rfl⟩⟩) rfl
  exact absurd (hempty 1) (by decide)

end NexusRT.Firmware

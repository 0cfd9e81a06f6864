import NexusRT.Library.Mutex
import NexusRT.Memory.Manager

/-!
Calls of `alloc` and `free` that interleave at the calls of the platform, of the compression manager
and of the page table, and at what is done under `mtx_`.
-/

namespace NexusRT.Memory

open Firmware Interleave Prog

inductive MemCall
  | allocHbm (bytes : UInt64)
  | freeHbm (p : Ptr)
  | hasIlc
  | ilcEnabled
  | ilcTag (p : Ptr) (bytes : UInt64)
  | ilcUntag (p : Ptr)
  | mapRange (vaddr bytes physOrHost : UInt64) (now : UInt64 → UInt64)
  | unmapRange (vaddr bytes : UInt64)
  | lock
  | unlock
  | findLive (p : Ptr)
  | insertLive (p : Ptr) (a : Allocation)
  | eraseLive (a : Allocation)
  | loadBytes
  | storeBytes (n : UInt64)

abbrev MemCall.Answer : MemCall → Type
  | .allocHbm _ => Status × Ptr
  | .freeHbm _ => Status
  | .hasIlc => Bool
  | .ilcEnabled => Bool
  | .ilcTag _ _ => Status
  | .ilcUntag _ => Status
  | .mapRange _ _ _ _ => Status
  | .unmapRange _ _ => Status
  | .findLive _ => Option Allocation
  | .loadBytes => UInt64
  | _ => Unit

abbrev MemProg := Prog MemCall MemCall.Answer

namespace MemProg

def allocHbm (bytes : UInt64) : MemProg (Status × Ptr) := .op (MemCall.allocHbm bytes)

def freeHbm (p : Ptr) : MemProg Status := .op (MemCall.freeHbm p)

def hasIlc : MemProg Bool := .op MemCall.hasIlc

def ilcEnabled : MemProg Bool := .op MemCall.ilcEnabled

def ilcTag (p : Ptr) (bytes : UInt64) : MemProg Status := .op (MemCall.ilcTag p bytes)

def ilcUntag (p : Ptr) : MemProg Status := .op (MemCall.ilcUntag p)

def mapRange (vaddr bytes physOrHost : UInt64) (now : UInt64 → UInt64) : MemProg Status :=
  .op (MemCall.mapRange vaddr bytes physOrHost now)

def unmapRange (vaddr bytes : UInt64) : MemProg Status := .op (MemCall.unmapRange vaddr bytes)

def lock : MemProg Unit := .op MemCall.lock

def unlock : MemProg Unit := .op MemCall.unlock

def findLive (p : Ptr) : MemProg (Option Allocation) := .op (MemCall.findLive p)

def insertLive (p : Ptr) (a : Allocation) : MemProg Unit := .op (MemCall.insertLive p a)

def eraseLive (a : Allocation) : MemProg Unit := .op (MemCall.eraseLive a)

def loadBytes : MemProg UInt64 := .op MemCall.loadBytes

def storeBytes (n : UInt64) : MemProg Unit := .op (MemCall.storeBytes n)

def tagIlc (out : Allocation) : MemProg Allocation := do
  if !out.hints.ilc then return out else
  let enabled ← ilcEnabled
  if !enabled then return out else
  let s ← ilcTag out.hbmPtr out.bytes
  return { out with ilcTagged := ok s }

def advise (hints : AllocHints) (hbm : Ptr) (bytes : UInt64) (later : UInt64 → UInt64) :
    MemProg Unit := do
  if !hints.readMostly then return () else
  let _ ← mapRange hbm bytes hbm later
  return ()

def record (hbm : Ptr) (bytes : UInt64) (out : Allocation) : MemProg Unit := do
  lock
  insertLive hbm out
  let n ← loadBytes
  storeBytes (n + bytes)
  unlock

def alloc (bytes : UInt64) (hints : AllocHints) (out : Allocation) (now later : UInt64 → UInt64) :
    MemProg (Status × Allocation) := do
  if bytes = 0 then return (.invalidArgument, out) else
  let (s, hbm) ← allocHbm bytes
  if !ok s then return (s, out) else
  let out ← tagIlc { out with vaddr := hbm, bytes, hints, hbmPtr := hbm }
  let _ ← mapRange out.vaddr bytes hbm now
  advise hints hbm bytes later
  record hbm bytes out
  return (.ok, out)

def untagIlc (a : Allocation) : MemProg Unit := do
  if !a.ilcTagged then return () else
  let there ← hasIlc
  if !there then return () else
  let _ ← ilcUntag a.hbmPtr
  return ()

def release (a : Allocation) : MemProg Status := do
  untagIlc a
  let _ ← unmapRange a.vaddr a.bytes
  let s ← freeHbm a.hbmPtr
  if !ok s then return s else
  let n ← loadBytes
  storeBytes (n - a.bytes)
  eraseLive a
  return .ok

def free (a : Allocation) : MemProg Status := do
  lock
  let found ← findLive a.hbmPtr
  let s ← match found with
    | none => pure .invalidArgument
    | some _ => release a
  unlock
  return s

end MemProg

def MemCall.perform : (c : MemCall) → MemoryManager → PlatformProg (c.Answer × MemoryManager)
  | .allocHbm bytes, m => do
    let r ← Platform.allocHbm bytes
    return (r, m)
  | .freeHbm p, m => do
    let s ← Platform.freeHbm p
    return (s, m)
  | .hasIlc, m => return (m.ilc.isSome, m)
  | .ilcEnabled, m => return (m.ilc.any (·.enabled), m)
  | .ilcTag p bytes, m => match m.ilc with
    | none => return (.notImplemented, m)
    | some ilc => do
      let (s, ilc) ← ilc.tag p bytes
      return (s, { m with ilc := some ilc })
  | .ilcUntag p, m => match m.ilc with
    | none => return (.ok, m)
    | some ilc => do
      let (s, ilc) ← ilc.untag p
      return (s, { m with ilc := some ilc })
  | .mapRange vaddr bytes physOrHost now, m =>
    let r := m.pageTable.mapRange vaddr bytes .hbm physOrHost now
    return (r.1, { m with pageTable := r.2 })
  | .unmapRange vaddr bytes, m =>
    let r := m.pageTable.unmapRange vaddr bytes
    return (r.1, { m with pageTable := r.2 })
  | .lock, m => return ((), m)
  | .unlock, m => return ((), m)
  | .findLive p, m => return (m.live.find p, m)
  | .insertLive p a, m => return ((), { m with live := m.live.insert p a })
  | .eraseLive a, m => return ((), { m with live := m.live.erase a.hbmPtr })
  | .loadBytes, m => return (m.bytesAllocated, m)
  | .storeBytes n, m => return ((), { m with bytesAllocated := n })

section Sequential

variable (m : MemoryManager) (bytes : UInt64) (hints : AllocHints) (out a : Allocation)
  (now later : UInt64 → UInt64)

theorem tagIlc_interp : (MemProg.tagIlc out).interpWith MemCall.perform m = m.tagIlc out := by
  rw [MemProg.tagIlc, MemoryManager.tagIlc]
  obtain ⟨pageTable, ilc, live, bytesAllocated⟩ := m
  cases hwanted : out.hints.ilc with
  | false => cases ilc <;> simp [Prog.interpWith]
  | true =>
    cases ilc with
    | none => rfl
    | some i =>
      cases henabled : i.enabled with
      | false =>
        simp [MemProg.ilcEnabled, op, Prog.interpWith, MemCall.perform, henabled]
      | true =>
        simp [MemProg.ilcEnabled, MemProg.ilcTag, op, Prog.interpWith, MemCall.perform, henabled, bind_bind]

theorem advise_interp (hbm : Ptr) :
    (MemProg.advise hints hbm bytes later).interpWith MemCall.perform m =
      .ret ((), if hints.readMostly then (m.adviseReadMostly hbm bytes later).2 else m) := by
  rw [MemProg.advise]
  cases hints.readMostly <;> rfl

theorem record_interp (hbm : Ptr) :
    (MemProg.record hbm bytes out).interpWith MemCall.perform m = .ret ((), { m with
      live := m.live.insert hbm out
      bytesAllocated := m.bytesAllocated + bytes }) := rfl

theorem alloc_interp : (MemProg.alloc bytes hints out now later).interpWith MemCall.perform m =
    m.alloc bytes hints out now later >>= fun r => .ret ((r.1, r.2.1), r.2.2) := by
  rw [MemProg.alloc, MemoryManager.alloc]
  by_cases hbytes : bytes = 0
  · rw [if_pos hbytes, if_pos hbytes]
    rfl
  · rw [if_neg hbytes, if_neg hbytes, MemProg.allocHbm, Platform.allocHbm, interpWith_bind,
      interpWith_op, MemCall.perform, bind_bind, bind_bind]
    congr 1
    funext ⟨s, hbm⟩
    simp only [pure_eq, ret_bind]
    split
    · rfl
    · rw [interpWith_bind, tagIlc_interp, bind_bind]
      congr 1
      funext ⟨out, m⟩
      rw [MemProg.mapRange, interpWith_bind, interpWith_op, MemCall.perform, pure_eq, ret_bind,
        interpWith_bind, advise_interp, ret_bind, interpWith_bind, record_interp, ret_bind, ret_bind]
      rfl

theorem untagIlc_interp : (MemProg.untagIlc a).interpWith MemCall.perform m =
    m.untagIlc a >>= fun m => .ret ((), m) := by
  rw [MemProg.untagIlc, MemoryManager.untagIlc]
  obtain ⟨pageTable, ilc, live, bytesAllocated⟩ := m
  cases ilc with
  | none => cases a.ilcTagged <;> rfl
  | some i =>
    cases a.ilcTagged with
    | false => rfl
    | true =>
      simp [MemProg.hasIlc, MemProg.ilcUntag, op, Prog.interpWith, MemCall.perform, bind_bind]

theorem release_interp : (MemProg.release a).interpWith MemCall.perform m =
    m.untagIlc a >>= fun m => do
      let m := { m with pageTable := (m.pageTable.unmapRange a.vaddr a.bytes).2 }
      let s ← Platform.freeHbm a.hbmPtr
      if !ok s then return (s, m) else
      return (.ok, { m with
        bytesAllocated := m.bytesAllocated - a.bytes
        live := m.live.erase a.hbmPtr }) := by
  rw [MemProg.release, interpWith_bind, untagIlc_interp, bind_bind]
  congr 1
  funext m
  rw [ret_bind, MemProg.unmapRange, interpWith_bind, interpWith_op, MemCall.perform, pure_eq,
    ret_bind, MemProg.freeHbm, interpWith_bind, interpWith_op, MemCall.perform, bind_bind]
  congr 1
  funext s
  rw [pure_eq, ret_bind]
  cases ok s <;> rfl

theorem free_interp : (MemProg.free a).interpWith MemCall.perform m = m.free a := by
  rw [MemProg.free, MemoryManager.free, MemProg.lock, interpWith_bind, interpWith_op,
    MemCall.perform, pure_eq, ret_bind, MemProg.findLive, interpWith_bind, interpWith_op,
    MemCall.perform, pure_eq, ret_bind]
  cases m.live.find a.hbmPtr with
  | none => rfl
  | some e =>
    dsimp only
    rw [interpWith_bind, release_interp]
    exact bind_ret _

end Sequential

/-- Ghosts: `owned` are the addresses that the driver has given out and not got back, `inserted` and
`erased` what went into `live_` and what `free` took out of it. -/
structure MemWorld where
  m : MemoryManager := {}
  locked : Bool := false
  owned : List Ptr := []
  inserted : List Allocation := []
  erased : List Allocation := []

namespace MemWorld

/-- The driver gives out no address that it has not got back. The compression manager may answer
anything and change in any way. -/
def Serves : (c : MemCall) → MemWorld → c.Answer → MemWorld → Prop
  | .allocHbm _, w, r, w' =>
    if ok r.1 then r.2 ∉ w.owned ∧ w' = { w with owned := r.2 :: w.owned } else w' = w
  | .freeHbm p, w, s, w' => w' = if ok s then { w with owned := w.owned.erase p } else w
  | .mapRange vaddr bytes physOrHost now, w, s, w' =>
    let r := w.m.pageTable.mapRange vaddr bytes .hbm physOrHost now
    s = r.1 ∧ w' = { w with m := { w.m with pageTable := r.2 } }
  | .unmapRange vaddr bytes, w, s, w' =>
    let r := w.m.pageTable.unmapRange vaddr bytes
    s = r.1 ∧ w' = { w with m := { w.m with pageTable := r.2 } }
  | .lock, w, _, w' => w.locked = false ∧ w' = { w with locked := true }
  | .unlock, w, _, w' => w' = { w with locked := false }
  | .findLive p, w, found, w' => found = w.m.live.find p ∧ w' = w
  | .insertLive p a, w, _, w' => w' = { w with
      m := { w.m with live := w.m.live.insert p a }
      inserted := a :: w.inserted }
  | .eraseLive a, w, _, w' => w' = { w with
      m := { w.m with live := w.m.live.erase a.hbmPtr }
      erased := a :: w.erased }
  | .loadBytes, w, n, w' => n = w.m.bytesAllocated ∧ w' = w
  | .storeBytes n, w, _, w' => w' = { w with m := { w.m with bytesAllocated := n } }
  | _, w, _, w' => ∃ ilc, w' = { w with m := { w.m with ilc } }

end MemWorld

/-- What the thread inside has done there: the entry it has found, the entry whose memory it has
given back, the sum it has read, and what the sum is short of. -/
structure Section where
  found : Option Ptr := none
  gone : Option Ptr := none
  read : Option UInt64 := none
  due : UInt64 := 0

structure MemPhase where
  pending : Option Ptr := none
  inside : Option Section := none

namespace MemPhase

def within (l : MemPhase) (f : Section → Section) : MemPhase := { l with inside := l.inside.map f }

def after : (c : MemCall) → c.Answer → MemPhase → MemPhase
  | .allocHbm _, r, l => if ok r.1 then { l with pending := some r.2 } else l
  | .freeHbm p, st, l => if ok st then l.within ({ · with found := none, gone := some p }) else l
  | .lock, _, l => { l with inside := some {} }
  | .unlock, _, l => { l with inside := none }
  | .findLive p, found, l => l.within ({ · with found := found.map fun _ => p })
  | .insertLive _ a, _, l =>
    { l.within (fun s => { s with due := s.due + a.bytes }) with pending := none }
  | .eraseLive a, _, l => l.within fun s => { s with gone := none, due := s.due - a.bytes }
  | .loadBytes, n, l => l.within ({ · with read := some n })
  | .storeBytes v, _, l => l.within fun s =>
    { s with read := none, due := s.due + s.read.getD 0 - v }
  | _, _, l => l

def allowed : MemCall → MemPhase → Prop
  | .allocHbm _, l => l.pending = none ∧ l.inside = none
  | .freeHbm p, l => ∃ s, l.inside = some s ∧ s.found = some p ∧ s.gone = none
  | .lock, l => l.inside = none
  | .unlock, l => ∃ s, l.inside = some s ∧ s.gone = none ∧ s.due = 0
  | .findLive _, l => ∃ s, l.inside = some s
  | .insertLive p a, l => ∃ s, l = ⟨some p, some s⟩ ∧ s.gone = none ∧ a.hbmPtr = p
  | .eraseLive a, l => ∃ s, l.inside = some s ∧ s.found = none ∧ s.gone = some a.hbmPtr
  | .loadBytes, l => ∃ s, l.inside = some s
  | .storeBytes _, l => ∃ s n, l.inside = some s ∧ s.read = some n
  | _, _ => True

end MemPhase

inductive MemOp
  | alloc (bytes : UInt64) (hints : AllocHints) (out : Allocation) (now later : UInt64 → UInt64)
  | free (a : Allocation)

abbrev MemOp.Answer : MemOp → Type
  | .alloc _ _ _ _ _ => Status × Allocation
  | .free _ => Status

def MemOp.prog : (o : MemOp) → MemProg o.Answer
  | .alloc bytes hints out now later => MemProg.alloc bytes hints out now later
  | .free a => MemProg.free a

def memClients : System MemCall MemCall.Answer MemWorld MemPhase where
  serves := MemWorld.Serves
  client p := ∃ q : Prog MemOp MemOp.Answer Unit, p = q.interp MemOp.prog
  initial := {}
  after := MemPhase.after

section Discipline

open MemPhase

theorem tagIlc_respects (out : Allocation) (l : MemPhase) :
    Respects after allowed (MemProg.tagIlc out) l
      (fun a m => m = l ∧ a.bytes = out.bytes ∧ a.hbmPtr = out.hbmPtr) := by
  rw [MemProg.tagIlc]
  split
  · exact ⟨rfl, rfl, rfl⟩
  · refine ⟨trivial, fun enabled => ?_⟩
    cases enabled with
    | false => exact ⟨rfl, rfl, rfl⟩
    | true => exact ⟨trivial, fun s => ⟨rfl, rfl, rfl⟩⟩

theorem advise_respects (hints : AllocHints) (hbm : Ptr) (bytes : UInt64) (later : UInt64 → UInt64)
    (l : MemPhase) : Respects after allowed (MemProg.advise hints hbm bytes later) l (fun _ m => m = l) := by
  rw [MemProg.advise]
  split
  · exact rfl
  · exact ⟨trivial, fun s => rfl⟩

theorem record_respects {out : Allocation} {hbm : Ptr} {bytes : UInt64} (hbytes : out.bytes = bytes)
    (hptr : out.hbmPtr = hbm) :
    Respects after allowed (MemProg.record hbm bytes out) ⟨some hbm, none⟩ (fun _ m => m = {}) := by
  refine ⟨rfl, fun _ => ⟨⟨_, rfl, rfl, hptr⟩, fun _ => ⟨⟨_, rfl⟩, fun n => ⟨⟨_, n, rfl, rfl⟩, fun _ =>
    ⟨⟨_, rfl, rfl, ?_⟩, fun _ => rfl⟩⟩⟩⟩⟩
  change 0 + out.bytes + n - (n + bytes) = 0
  rw [hbytes]
  grind

theorem alloc_respects (bytes : UInt64) (hints : AllocHints) (out : Allocation)
    (now later : UInt64 → UInt64) :
    Respects after allowed (MemProg.alloc bytes hints out now later) {} (fun _ m => m = {}) := by
  rw [MemProg.alloc]
  split
  · exact rfl
  · refine ⟨⟨rfl, rfl⟩, ?_⟩
    rintro ⟨s, hbm⟩
    change Respects after allowed (if !ok s then .ret (s, out) else _) _ _
    cases hs : ok s with
    | false => simp [MemPhase.after, hs]
    | true =>
      have hafter : MemPhase.after (.allocHbm bytes) (s, hbm) {} = ⟨some hbm, none⟩ := by
        simp [MemPhase.after, hs]
      rw [hafter, if_neg (by simp), respects_bind]
      apply respects_mono (tagIlc_respects _ _)
      rintro out _ ⟨rfl, hbytes, hptr⟩
      refine ⟨trivial, fun _ => ?_⟩
      change Respects after allowed (MemProg.advise hints hbm bytes later >>= fun _ =>
        MemProg.record hbm bytes out >>= fun _ => .ret (Status.ok, out)) _ _
      rw [respects_bind]
      apply respects_mono (advise_respects _ _ _ _ _)
      rintro _ _ rfl
      rw [respects_bind]
      exact record_respects hbytes hptr

theorem untagIlc_respects (a : Allocation) (l : MemPhase) :
    Respects after allowed (MemProg.untagIlc a) l (fun _ m => m = l) := by
  rw [MemProg.untagIlc]
  split
  · exact rfl
  · refine ⟨trivial, fun there => ?_⟩
    cases there with
    | false => exact rfl
    | true => exact ⟨trivial, fun s => rfl⟩

theorem release_respects (a : Allocation) :
    Respects after allowed (MemProg.release a) ⟨none, some { found := some a.hbmPtr }⟩
      (fun _ m => m.pending = none ∧ ∃ s, m.inside = some s ∧ s.gone = none ∧ s.due = 0) := by
  rw [MemProg.release, respects_bind]
  apply respects_mono (untagIlc_respects a _)
  rintro _ _ rfl
  refine ⟨trivial, fun _ => ⟨⟨_, rfl, rfl, rfl⟩, fun s => ?_⟩⟩
  change Respects after allowed (if !ok s then .ret s else _)
    (after (.freeHbm a.hbmPtr) s ⟨none, some { found := some a.hbmPtr }⟩) _
  cases hs : ok s with
  | false => simp [MemPhase.after, hs]
  | true =>
    have hafter : MemPhase.after (.freeHbm a.hbmPtr) s ⟨none, some { found := some a.hbmPtr }⟩ =
        ⟨none, some { gone := some a.hbmPtr }⟩ := by
      simp [MemPhase.after, MemPhase.within, hs]
    rw [hafter, if_neg (by simp)]
    refine ⟨⟨_, rfl⟩, fun n => ⟨⟨_, n, rfl, rfl⟩, fun _ => ⟨⟨_, rfl, rfl, rfl⟩, fun _ => ?_⟩⟩⟩
    refine ⟨rfl, _, rfl, rfl, ?_⟩
    change 0 + n - (n - a.bytes) - a.bytes = 0
    grind

theorem free_respects (a : Allocation) : Respects after allowed (MemProg.free a) {} (fun _ m => m = {}) := by
  refine ⟨rfl, fun _ => ⟨⟨_, rfl⟩, fun found => ?_⟩⟩
  cases found with
  | none =>
    change Respects after allowed (MemProg.unlock >>= fun _ => .ret Status.invalidArgument) _ _
    exact ⟨⟨_, rfl, rfl, rfl⟩, fun _ => rfl⟩
  | some e =>
    change Respects after allowed (MemProg.release a >>= fun s => MemProg.unlock >>= fun _ => .ret s) _ _
    rw [respects_bind]
    apply respects_mono (release_respects a)
    rintro s ⟨_, _⟩ ⟨rfl, sec, rfl, hgone, hdue⟩
    exact ⟨⟨sec, rfl, hgone, hdue⟩, fun _ => rfl⟩

theorem client_respects (q : Prog MemOp MemOp.Answer Unit) :
    Respects after allowed (q.interp MemOp.prog) {} (fun _ m => m = {}) := by
  refine respects_interp (· = ({} : MemPhase)) ?_ q {} rfl
  rintro o _ rfl
  cases o with
  | alloc bytes hints out now later => exact alloc_respects bytes hints out now later
  | free a => exact free_respects a

end Discipline

section Invariant

def bytesOf : List Allocation → UInt64
  | [] => 0
  | a :: as => a.bytes + bytesOf as

structure MemInv (w : MemWorld) (pend : List Ptr) (s : Section) : Prop where
  nodup : w.owned.Nodup
  pending : pend.Nodup
  apart : ∀ p ∈ pend, w.m.live.contains p = true → s.gone = some p
  owned : ∀ p, p ∈ w.owned ↔ p ∈ pend ∨ w.m.live.contains p = true ∧ s.gone ≠ some p
  found : ∀ p, s.found = some p → w.m.live.contains p = true
  gone : ∀ p, s.gone = some p → w.m.live.contains p = true
  read : ∀ n, s.read = some n → n = w.m.bytesAllocated
  bytes : w.m.bytesAllocated + s.due + bytesOf w.erased = bytesOf w.inserted
  counts : ∀ p, (w.inserted.map (·.hbmPtr)).count p =
    (w.erased.map (·.hbmPtr)).count p + if w.m.live.contains p then 1 else 0

variable {w : MemWorld} {pend pend' : List Ptr} {s : Section} {p : Ptr} {a : Allocation}

theorem MemInv.perm (h : MemInv w pend s) (hperm : pend.Perm pend') : MemInv w pend' s where
  nodup := h.nodup
  pending := hperm.nodup_iff.mp h.pending
  apart q hq := h.apart q (hperm.mem_iff.mpr hq)
  owned q := by rw [h.owned q, hperm.mem_iff]
  found := h.found
  gone := h.gone
  read := h.read
  bytes := h.bytes
  counts := h.counts

theorem MemInv.given (h : MemInv w pend s) (hp : p ∉ w.owned) :
    MemInv { w with owned := p :: w.owned } (p :: pend) s := by
  have hnot : ¬(p ∈ pend ∨ w.m.live.contains p = true ∧ s.gone ≠ some p) := by
    rwa [← h.owned p]
  rw [not_or, not_and_not_right] at hnot
  refine { h with nodup := ?_, pending := ?_, apart := ?_, owned := ?_ }
  · exact List.nodup_cons.mpr ⟨hp, h.nodup⟩
  · exact List.nodup_cons.mpr ⟨hnot.1, h.pending⟩
  · intro q hq hlive
    rcases List.mem_cons.mp hq with rfl | hq
    · exact hnot.2 hlive
    · exact h.apart q hq hlive
  · intro q
    simp only [List.mem_cons, h.owned q, or_assoc]

theorem MemInv.back (h : MemInv w pend s) (hfound : s.found = some p) (hgone : s.gone = none) :
    p ∈ w.owned ∧ MemInv { w with owned := w.owned.erase p } pend
      { s with found := none, gone := some p } := by
  have hlive := h.found p hfound
  have hpend : p ∉ pend := fun hp => by
    have hsome := h.apart p hp hlive
    rw [hgone] at hsome
    cases hsome
  refine ⟨(h.owned p).mpr (.inr ⟨hlive, by rw [hgone]; exact nofun⟩),
    { h with nodup := h.nodup.erase p, apart := ?_, owned := ?_, found := nofun, gone := ?_ }⟩
  · intro q hq hq'
    have hsome := h.apart q hq hq'
    rw [hgone] at hsome
    cases hsome
  · intro q
    rw [h.nodup.mem_erase_iff, h.owned q, hgone]
    by_cases hqp : q = p
    · subst hqp
      simp [hpend]
    · have hpq : p ≠ q := fun heq => hqp heq.symm
      simp [hqp, hpq]
  · rintro q hq
    obtain rfl := Option.some.inj hq
    exact hlive

theorem MemInv.inserted (h : MemInv w (p :: pend) s) (hgone : s.gone = none) (ha : a.hbmPtr = p) :
    w.m.live.find p = none ∧ MemInv { w with
      m := { w.m with live := w.m.live.insert p a }
      inserted := a :: w.inserted } pend { s with due := s.due + a.bytes } := by
  obtain ⟨hnot, hpend⟩ := List.nodup_cons.mp h.pending
  have hoff : w.m.live.contains p = false := by
    by_contra hlive
    have hsome := h.apart p List.mem_cons_self (by simpa using hlive)
    rw [hgone] at hsome
    cases hsome
  have hlive (q : Ptr) := w.m.live.contains_insert p q a
  have hkept (q : Ptr) (hq : w.m.live.contains q = true) :
      (w.m.live.insert p a).contains q = true := by
    rw [hlive, hq, Bool.or_true]
  refine ⟨by simpa [Table.contains] using hoff,
    { h with pending := hpend, apart := ?_, owned := ?_, found := ?_, gone := ?_, bytes := ?_, counts := ?_ }⟩
  · intro q hq hq'
    apply h.apart q (List.mem_cons_of_mem p hq)
    have hqp : q ≠ p := fun heq => hnot (heq ▸ hq)
    simpa [hlive, hqp] using hq'
  · intro q
    simp only [h.owned q, hgone, hlive, List.mem_cons]
    by_cases hqp : q = p <;> simp [hqp]
  · exact fun q hq => hkept q (h.found q hq)
  · exact fun q hq => hkept q (h.gone q hq)
  · have hbytes := h.bytes
    simp only [bytesOf]
    grind
  · intro q
    have hcount := h.counts q
    simp only [List.map_cons, hlive, List.count_cons, ha]
    by_cases hqp : q = p
    · subst hqp
      simp [hcount, hoff]
    · have hpq : p ≠ q := fun heq => hqp heq.symm
      simp [hcount, hqp, hpq]

theorem MemInv.erased (h : MemInv w pend s) (hfound : s.found = none)
    (hgone : s.gone = some a.hbmPtr) : MemInv { w with
      m := { w.m with live := w.m.live.erase a.hbmPtr }
      erased := a :: w.erased } pend { s with gone := none, due := s.due - a.bytes } := by
  have hon : w.m.live.contains a.hbmPtr = true := h.gone _ hgone
  have hlive (q : Ptr) := w.m.live.contains_erase a.hbmPtr q
  refine { h with apart := ?_, owned := ?_, found := ?_, gone := nofun, bytes := ?_, counts := ?_ }
  · intro q hq hq'
    simp only [hlive, decide_not, Bool.and_eq_true, Bool.not_eq_true', decide_eq_false_iff_not] at hq'
    have hsome := h.apart q hq hq'.2
    rw [hgone] at hsome
    exact absurd (Option.some.inj hsome).symm hq'.1
  · intro q
    simp only [h.owned q, hgone, hlive]
    grind
  · intro q hq
    simp only [hfound, reduceCtorEq] at hq
  · have hbytes := h.bytes
    simp only [bytesOf]
    grind
  · intro q
    have hcount := h.counts q
    simp only [List.map_cons, hlive, List.count_cons]
    by_cases hq : q = a.hbmPtr
    · subst hq
      simp [hcount, hon]
    · have hne : a.hbmPtr ≠ q := fun heq => hq heq.symm
      simp [hcount, hq, hne]

theorem MemInv.stored {n v : UInt64} (h : MemInv w pend s) (hread : s.read = some n) :
    MemInv { w with m := { w.m with bytesAllocated := v } } pend
      { s with read := none, due := s.due + n - v } := by
  have hbytes := h.bytes
  have hn := h.read n hread
  refine { h with read := nofun, bytes := ?_ }
  grind

theorem MemInv.left (h : MemInv w pend s) (hgone : s.gone = none) (hdue : s.due = 0) :
    MemInv w pend {} := by
  obtain ⟨hnodup, hpending, hapart, howned, _, _, _, hbytes, hcounts⟩ := h
  rw [hgone] at hapart howned
  rw [hdue] at hbytes
  exact ⟨hnodup, hpending, hapart, howned, nofun, nofun, nofun, hbytes, hcounts⟩

structure MemPool (w : MemWorld) (ts : List (Thread MemCall MemCall.Answer MemPhase))
    (sec : Option Section) : Prop where
  holds : Holds MemPhase.inside ts sec
  locked : w.locked = sec.isSome
  inv : MemInv w (ts.filterMap (·.ghost.pending)) (sec.getD {})

theorem pendings_perm (pre post : List (Thread MemCall MemCall.Answer MemPhase)) (l : MemPhase)
    (q : MemProg Unit) : ((pre ++ ⟨l, q⟩ :: post).filterMap (·.ghost.pending)).Perm
      (l.pending.toList ++ (pre ++ post).filterMap (·.ghost.pending)) := by
  have hperm : (pre ++ ⟨l, q⟩ :: post).Perm (⟨l, q⟩ :: (pre ++ post)) := List.perm_middle
  apply (hperm.filterMap _).trans
  rw [List.filterMap_cons]
  cases l.pending <;> exact List.Perm.refl _

variable {pre post : List (Thread MemCall MemCall.Answer MemPhase)} {l l' : MemPhase}
  {q q' : MemProg Unit} {sec : Option Section} {w' : MemWorld}

theorem MemPool.here (h : MemPool w (pre ++ ⟨l, q⟩ :: post) sec) (hl : l.inside = some s) {s' : Section}
    (hl' : l'.inside = some s') (hlocked : w'.locked = w.locked)
    (hinv : MemInv w (l.pending.toList ++ (pre ++ post).filterMap (·.ghost.pending)) s →
      MemInv w' (l'.pending.toList ++ (pre ++ post).filterMap (·.ghost.pending)) s') :
    MemPool w' (pre ++ ⟨l', q'⟩ :: post) (some s') := by
  obtain ⟨rfl, hrest⟩ := h.holds.here hl
  have hnow := hrest l' q'
  rw [hl'] at hnow
  refine ⟨hnow, hlocked.trans h.locked, ?_⟩
  exact (hinv (h.inv.perm (pendings_perm pre post l q))).perm (pendings_perm pre post l' q').symm

theorem MemPool.keep (h : MemPool w (pre ++ ⟨l, q⟩ :: post) sec) (hinside : l'.inside = l.inside)
    (hlocked : w'.locked = w.locked)
    (hinv : ∀ s, MemInv w (l.pending.toList ++ (pre ++ post).filterMap (·.ghost.pending)) s →
      MemInv w' (l'.pending.toList ++ (pre ++ post).filterMap (·.ghost.pending)) s) :
    MemPool w' (pre ++ ⟨l', q'⟩ :: post) sec := by
  have hnow := (hinv _ (h.inv.perm (pendings_perm pre post l q))).perm
    (pendings_perm pre post l' q').symm
  refine ⟨?_, hlocked.trans h.locked, hnow⟩
  cases hl : l.inside with
  | none => exact h.holds.outside hl (hinside.trans hl)
  | some s =>
    obtain ⟨rfl, hrest⟩ := h.holds.here hl
    rw [← hl, ← hinside]
    exact hrest l' q'

theorem MemPool.alloc {bytes : UInt64} {r : Status × Ptr} (h : MemPool w (pre ++ ⟨{}, q⟩ :: post) sec)
    (hserves : MemWorld.Serves (.allocHbm bytes) w r w') :
    MemPool w' (pre ++ ⟨MemPhase.after (.allocHbm bytes) r {}, q'⟩ :: post) sec := by
  -- The memory given out is the thread's own until it is inserted.
  change if ok r.1 then _ else _ at hserves
  split at hserves
  · next hok =>
    obtain ⟨hfresh, rfl⟩ := hserves
    have hafter : MemPhase.after (.allocHbm bytes) r {} = ⟨some r.2, none⟩ := by
      simp [MemPhase.after, hok]
    rw [hafter]
    exact h.keep rfl rfl fun s hinv => hinv.given hfresh
  · next hok =>
    subst hserves
    have hafter : MemPhase.after (.allocHbm bytes) r {} = {} := by
      simp [MemPhase.after, hok]
    rw [hafter]
    exact h.keep rfl rfl fun s hinv => hinv

theorem MemPool.free {pending : Option Ptr} {p : Ptr} {r : Status}
    (h : MemPool w (pre ++ ⟨⟨pending, some s⟩, q⟩ :: post) sec) (hfound : s.found = some p)
    (hgone : s.gone = none) (hserves : MemWorld.Serves (.freeHbm p) w r w') :
    ∃ sec, MemPool w' (pre ++ ⟨MemPhase.after (.freeHbm p) r ⟨pending, some s⟩, q'⟩ :: post) sec := by
  change w' = if ok r then _ else _ at hserves
  split at hserves
  · next hok =>
    subst hserves
    have hafter : MemPhase.after (.freeHbm p) r ⟨pending, some s⟩ =
        ⟨pending, some { s with found := none, gone := some p }⟩ := by
      simp [MemPhase.after, MemPhase.within, hok]
    rw [hafter]
    exact ⟨_, h.here rfl rfl rfl fun hinv => (hinv.back hfound hgone).2⟩
  · next hok =>
    subst hserves
    have hafter : MemPhase.after (.freeHbm p) r ⟨pending, some s⟩ = ⟨pending, some s⟩ := by
      simp [MemPhase.after, hok]
    rw [hafter]
    exact ⟨_, h.here rfl rfl rfl id⟩

theorem MemPool.enter {pending : Option Ptr} (h : MemPool w (pre ++ ⟨⟨pending, none⟩, q⟩ :: post) sec)
    (hfree : w.locked = false) :
    MemPool { w with locked := true } (pre ++ ⟨⟨pending, some {}⟩, q'⟩ :: post) (some {}) := by
  have hnone : sec = none := by
    have hlocked := h.locked
    rw [hfree] at hlocked
    cases sec with
    | none => rfl
    | some s => cases hlocked
  subst hnone
  have hinv := (h.inv.perm (pendings_perm pre post _ q)).perm
    (pendings_perm pre post ⟨pending, some {}⟩ q').symm
  exact ⟨h.holds.enter rfl, rfl, { hinv with }⟩

theorem MemPool.leave {pending : Option Ptr} (h : MemPool w (pre ++ ⟨⟨pending, some s⟩, q⟩ :: post) sec)
    (hgone : s.gone = none) (hdue : s.due = 0) :
    MemPool { w with locked := false } (pre ++ ⟨⟨pending, none⟩, q'⟩ :: post) none := by
  -- Nothing is owed when the mutex is given back.
  obtain ⟨rfl, hrest⟩ := h.holds.here rfl
  have hinv := ((h.inv.left hgone hdue).perm (pendings_perm pre post _ q)).perm
    (pendings_perm pre post ⟨pending, none⟩ q').symm
  exact ⟨hrest _ _, rfl, { hinv with }⟩

theorem MemPool.store {pending : Option Ptr} {n v : UInt64}
    (h : MemPool w (pre ++ ⟨⟨pending, some s⟩, q⟩ :: post) sec) (hread : s.read = some n) :
    ∃ sec, MemPool { w with m := { w.m with bytesAllocated := v } }
      (pre ++ ⟨MemPhase.after (.storeBytes v) () ⟨pending, some s⟩, q'⟩ :: post) sec := by
  have hafter : MemPhase.after (.storeBytes v) () ⟨pending, some s⟩ =
      ⟨pending, some { s with read := none, due := s.due + n - v }⟩ := by
    simp [MemPhase.after, MemPhase.within, hread]
  rw [hafter]
  exact ⟨_, h.here rfl rfl rfl fun hinv => hinv.stored hread⟩

theorem MemPool.call (h : MemPool w (pre ++ ⟨l, q⟩ :: post) sec) {c : MemCall} {r : c.Answer}
    (hserves : MemWorld.Serves c w r w') (hallowed : MemPhase.allowed c l) :
    ∃ sec, MemPool w' (pre ++ ⟨MemPhase.after c r l, q'⟩ :: post) sec := by
  obtain ⟨pending, inside⟩ := l
  cases c with
  | allocHbm bytes =>
    obtain ⟨rfl, rfl⟩ := hallowed
    exact ⟨sec, h.alloc hserves⟩
  | freeHbm p =>
    obtain ⟨s, rfl, hfound, hgone⟩ := hallowed
    exact h.free hfound hgone hserves
  | lock =>
    obtain rfl : inside = none := hallowed
    obtain ⟨hfree, rfl⟩ := hserves
    exact ⟨some {}, h.enter hfree⟩
  | unlock =>
    obtain ⟨s, rfl, hgone, hdue⟩ := hallowed
    obtain rfl := hserves
    exact ⟨none, h.leave hgone hdue⟩
  | findLive p =>
    obtain ⟨s, rfl⟩ := hallowed
    obtain ⟨rfl, rfl⟩ := hserves
    refine ⟨_, h.here rfl rfl rfl fun hinv => { hinv with found := ?_ }⟩
    intro x hx
    obtain ⟨e, he, rfl⟩ := Option.map_eq_some_iff.mp hx
    rw [Table.contains, he]
    rfl
  | insertLive p a =>
    obtain ⟨s, heq, hgone, ha⟩ := hallowed
    obtain ⟨rfl, rfl⟩ := MemPhase.mk.inj heq
    obtain rfl := hserves
    exact ⟨_, h.here rfl rfl rfl fun hinv => (hinv.inserted hgone ha).2⟩
  | eraseLive a =>
    obtain ⟨s, rfl, hfound, hgone⟩ := hallowed
    obtain rfl := hserves
    exact ⟨_, h.here rfl rfl rfl fun hinv => hinv.erased hfound hgone⟩
  | loadBytes =>
    obtain ⟨s, rfl⟩ := hallowed
    obtain ⟨rfl, rfl⟩ := hserves
    refine ⟨_, h.here rfl rfl rfl fun hinv => { hinv with read := ?_ }⟩
    exact fun n hn => (Option.some.inj hn).symm
  | storeBytes v =>
    obtain ⟨s, n, rfl, hread⟩ := hallowed
    obtain rfl := hserves
    exact h.store hread
  | mapRange vaddr bytes physOrHost now =>
    obtain ⟨_, rfl⟩ := hserves
    exact ⟨sec, h.keep rfl rfl fun s hinv => { hinv with }⟩
  | unmapRange vaddr bytes =>
    obtain ⟨_, rfl⟩ := hserves
    exact ⟨sec, h.keep rfl rfl fun s hinv => { hinv with }⟩
  | _ =>
    obtain ⟨ilc, rfl⟩ := hserves
    exact ⟨sec, h.keep rfl rfl fun s hinv => { hinv with }⟩

theorem memClients_sound {b : Pool MemCall MemCall.Answer MemWorld MemPhase}
    (h : Run memClients (fun _ _ => True) ⟨{}, []⟩ b) :
    Sound memClients MemPhase.allowed (· = {}) (fun w ts => ∃ sec, MemPool w ts sec) b := by
  refine h.sound (J := fun w ts => ∃ sec, MemPool w ts sec) ?_ ?_ ?_ ?_
  · rintro _ ⟨q, rfl⟩
    exact client_respects q
  · rintro pre post l o k w r w' hserves hallowed _ ⟨sec, hpool⟩
    exact hpool.call hserves hallowed
  · rintro w ts q _ ⟨sec, hpool⟩
    exact ⟨sec, hpool.holds.spawn rfl, hpool.locked, hpool.inv⟩
  · refine ⟨by simp, none, rfl, rfl, ?_⟩
    exact ⟨List.nodup_nil, List.nodup_nil, by simp, by simp [Table.contains], nofun, nofun, nofun, rfl,
      by simp [Table.contains]⟩

end Invariant

def OnTable (q : MemProg Unit) : Bool :=
  match q with
  | .call (.findLive _) _ | .call (.insertLive _ _) _ | .call (.eraseLive _) _
  | .call .loadBytes _ | .call (.storeBytes _) _ => true
  | _ => false

theorem inside_of_onTable {q : MemProg Unit} {l : MemPhase} {Q : Unit → MemPhase → Prop}
    (h : Respects MemPhase.after MemPhase.allowed q l Q) (hq : OnTable q = true) :
    l.inside.isSome = true := by
  obtain _ | ⟨c, k⟩ := q
  · cases hq
  · have hallowed := h.1
    cases c with
    | findLive p =>
      obtain ⟨s, hs⟩ := hallowed
      rw [hs]
      rfl
    | insertLive p a =>
      obtain ⟨s, rfl, _⟩ := hallowed
      rfl
    | eraseLive a =>
      obtain ⟨s, hs, _⟩ := hallowed
      rw [hs]
      rfl
    | loadBytes =>
      obtain ⟨s, hs⟩ := hallowed
      rw [hs]
      rfl
    | storeBytes v =>
      obtain ⟨s, n, hs, _⟩ := hallowed
      rw [hs]
      rfl
    | _ => cases hq

theorem memory_exclusive (b : Pool MemCall MemCall.Answer MemWorld MemPhase)
    (h : Run memClients (fun _ _ => True) ⟨{}, []⟩ b) :
    b.threads.countP (fun t => OnTable t.prog) ≤ 1 ∧
    (∀ t ∈ b.threads, ∀ p k, t.prog = .call (.freeHbm p) k → p ∈ b.state.owned) ∧
    (∀ t ∈ b.threads, ∀ p a k, t.prog = .call (.insertLive p a) k → b.state.m.live.find p = none) ∧
    (∀ p, (b.state.inserted.map (·.hbmPtr)).count p =
      (b.state.erased.map (·.hbmPtr)).count p + if b.state.m.live.contains p then 1 else 0) ∧
    (Done b → b.state.locked = false ∧
      (∀ p, p ∈ b.state.owned ↔ b.state.m.live.contains p = true) ∧
      b.state.m.bytesAllocated + bytesOf b.state.erased = bytesOf b.state.inserted) := by
  have hsound := memClients_sound h
  obtain ⟨sec, hpool⟩ := hsound.state
  obtain ⟨w, ts⟩ := b
  dsimp only at hpool ⊢
  refine ⟨?_, ?_, ?_, hpool.inv.counts, fun hdone => ?_⟩
  · apply le_trans (List.countP_mono_left fun t ht hon => ?_) hpool.holds.at_most_one
    exact inside_of_onTable (hsound.threads t ht) hon
  · rintro ⟨l, q⟩ ht p k rfl
    obtain ⟨pre, post, rfl⟩ := List.append_of_mem ht
    obtain ⟨s, hs, hfound, hgone⟩ := (hsound.threads _ ht).1
    obtain ⟨rfl, _⟩ := hpool.holds.here hs
    exact (hpool.inv.back hfound hgone).1
  · rintro ⟨l, q⟩ ht p a k rfl
    obtain ⟨pre, post, rfl⟩ := List.append_of_mem ht
    obtain ⟨s, rfl, hgone, ha⟩ := (hsound.threads _ ht).1
    obtain ⟨rfl, _⟩ := hpool.holds.here rfl
    exact ((hpool.inv.perm (pendings_perm pre post _ _)).inserted hgone ha).1
  · have hghost : ∀ t ∈ ts, t.ghost = {} := fun t ht => hsound.final_of_done hdone ht
    obtain rfl : sec = none :=
      hpool.holds.of_outside fun t ht => by rw [hghost t ht]
    have hpend : ts.filterMap (·.ghost.pending) = [] :=
      List.filterMap_eq_nil_iff.mpr fun t ht => by rw [hghost t ht]
    have hinv := hpool.inv
    rw [hpend] at hinv
    refine ⟨hpool.locked, fun p => ?_, ?_⟩
    · simpa using hinv.owned p
    · simpa using hinv.bytes

theorem memory_exclusive_freed : ∃ b : Pool MemCall MemCall.Answer MemWorld MemPhase,
    b.threads.length = 3 ∧ 7 ∈ b.state.owned := by
  have hspawn : Run memClients (fun _ _ => True) ⟨{}, []⟩ ⟨{}, [⟨{}, _⟩]⟩ :=
    Run.spawn .refl _ ⟨.call (.alloc 64 {} {} id id) fun _ => .ret (), rfl⟩ trivial
  have hfresh : memClients.serves (.allocHbm 64) {} (Status.ok, 7) { owned := [7] } :=
    ⟨List.not_mem_nil, rfl⟩
  have hgiven := hspawn.call [] (MemCall.allocHbm 64) (Status.ok, 7) hfresh trivial
  have hmapped := hgiven.call [] (MemCall.mapRange 7 64 7 id) _ ⟨rfl, rfl⟩ trivial
  have hlocked := hmapped.call [] MemCall.lock () ⟨rfl, rfl⟩ trivial
  have hinserted := hlocked.call [] (MemCall.insertLive 7 _) () rfl trivial
  have hloaded := hinserted.call [] MemCall.loadBytes 0 ⟨rfl, rfl⟩ trivial
  have hstored := hloaded.call [] (MemCall.storeBytes 64) () rfl trivial
  have halloc := hstored.call [] MemCall.unlock () rfl trivial
  have hfirst := halloc.spawn _ ⟨.call (.free { hbmPtr := 7, bytes := 64 }) fun _ => .ret (), rfl⟩ trivial
  have hsecond := hfirst.spawn _ ⟨.call (.free { hbmPtr := 7, bytes := 64 }) fun _ => .ret (), rfl⟩ trivial
  have hlocked := hsecond.call [] MemCall.lock () ⟨rfl, rfl⟩ trivial
  have hfound := hlocked.call [] (MemCall.findLive 7) _ ⟨rfl, rfl⟩ trivial
  have hunmapped := hfound.call [] (MemCall.unmapRange 0 64) _ ⟨rfl, rfl⟩ trivial
  obtain ⟨_, howned, _⟩ := memory_exclusive _ hunmapped
  exact ⟨_, rfl, howned _ List.mem_cons_self 7 _ rfl⟩

end NexusRT.Memory

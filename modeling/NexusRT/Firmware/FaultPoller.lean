import NexusRT.Firmware.FaultSlots
import NexusRT.Library.Interleave

namespace NexusRT.Firmware

open Interleave Prog

/-- The calls of the owner. `memset` fills the buffer with 0, `start` assigns a new thread to
`poller_` and `join` waits for it. -/
inductive FaultCall
  | allocHbm (bytes : UInt64)
  | freeHbm (p : Ptr)
  | loadBuffer
  | storeBuffer (p : Ptr)
  | memset (p : Ptr)
  | installFaultBuffer (p : Ptr)
  | uninstallFaultBuffer (p : Ptr)
  | storeStop (b : Bool)
  | start
  | join

abbrev FaultCall.Answer : FaultCall → Type
  | .allocHbm _ => Status × Ptr
  | .freeHbm _ => Status
  | .loadBuffer => Ptr
  | .installFaultBuffer _ => Status
  | .uninstallFaultBuffer _ => Status
  | _ => Unit

abbrev FaultProg := Prog FaultCall FaultCall.Answer

namespace FaultProg

def allocHbm (bytes : UInt64) : FaultProg (Status × Ptr) := .op (FaultCall.allocHbm bytes)

def freeHbm (p : Ptr) : FaultProg Status := .op (FaultCall.freeHbm p)

def loadBuffer : FaultProg Ptr := .op FaultCall.loadBuffer

def storeBuffer (p : Ptr) : FaultProg Unit := .op (FaultCall.storeBuffer p)

def memset (p : Ptr) : FaultProg Unit := .op (FaultCall.memset p)

def installFaultBuffer (p : Ptr) : FaultProg Status := .op (FaultCall.installFaultBuffer p)

def uninstallFaultBuffer (p : Ptr) : FaultProg Status := .op (FaultCall.uninstallFaultBuffer p)

def storeStop (b : Bool) : FaultProg Unit := .op (FaultCall.storeStop b)

def start : FaultProg Unit := .op FaultCall.start

def join : FaultProg Unit := .op FaultCall.join

def install (d : DeviceDesc) (slots : UInt32) : FaultProg Status := do
  if d.vendor = .nvidia then return .ok else
  let (s, faultBuffer) ← allocHbm (slots.toUInt64 * FaultHandler.sizeofFaultRecord)
  if !ok s then return s else
  storeBuffer faultBuffer
  memset faultBuffer
  let _ ← installFaultBuffer faultBuffer
  storeStop false
  start
  return .ok

def uninstall : FaultProg Status := do
  let buffer ← loadBuffer
  if buffer = 0 then return .ok else
  storeStop true
  join
  let _ ← uninstallFaultBuffer buffer
  let _ ← freeHbm buffer
  storeBuffer 0
  return .ok

end FaultProg

def FaultCall.perform : (c : FaultCall) → FaultHandler → PlatformProg (c.Answer × FaultHandler)
  | .allocHbm bytes, f => do
    let r ← Platform.allocHbm bytes
    return (r, f)
  | .freeHbm p, f => do
    let s ← Platform.freeHbm p
    return (s, f)
  | .loadBuffer, f => return (f.hbmFaultBuffer, f)
  | .storeBuffer p, f => return ((), { f with hbmFaultBuffer := p })
  | .memset _, f => return ((), f)
  | .installFaultBuffer p, f => do
    let s ← Platform.installFaultBuffer p f.bufferSlots
    return (s, f)
  | .uninstallFaultBuffer p, f => do
    let s ← Platform.uninstallFaultBuffer p
    return (s, f)
  | .storeStop _, f => return ((), f)
  | .start, f => return ((), f)
  | .join, f => return ((), f)

theorem install_interp (f : FaultHandler) (d : DeviceDesc) :
    (FaultProg.install d f.bufferSlots).interpWith FaultCall.perform f = f.install d := by
  rw [FaultProg.install, FaultHandler.install]
  split
  · rfl
  · rw [FaultProg.allocHbm, Platform.allocHbm, interpWith_bind, interpWith_op, FaultCall.perform,
      bind_bind]
    congr 1
    funext ⟨s, faultBuffer⟩
    rw [pure_eq, ret_bind]
    dsimp only
    cases ok s <;> rfl

theorem uninstall_interp (f : FaultHandler) :
    FaultProg.uninstall.interpWith FaultCall.perform f = f.uninstall := by
  rw [FaultProg.uninstall, FaultHandler.uninstall, FaultProg.loadBuffer, interpWith_bind,
    interpWith_op, FaultCall.perform, pure_eq, ret_bind]
  dsimp only
  split
  · rfl
  · rfl

/-- `buf` is the buffer as the thread has read it, `head` whether it reads `stop_` next. -/
structure PollThread where
  buf : Option Ptr := none
  head : Bool := true
  memory : FaultBuffer

/-- Ghosts: `owned` are the addresses that the driver has given out, and `misused` is whether memory
was used that is not among them. -/
structure FaultLife where
  buffer : Ptr := 0
  stop : Bool := false
  joinable : Bool := false
  thread : Option PollThread := none
  owned : List Ptr := []
  misused : Bool := false

namespace FaultLife

def use (s : FaultLife) (p : Ptr) : FaultLife := { s with misused := s.misused || p ∉ s.owned }

/-- A driver that gives out no address twice. A thread is not assigned to `poller_` while that is
joinable: the process would end. -/
def Serves (slots : UInt32) : (c : FaultCall) → FaultLife → c.Answer → FaultLife → Prop
  | .allocHbm _, s, r, s' =>
    if ok r.1 then r.2 ∉ s.owned ∧ r.2 ≠ 0 ∧ s' = { s with owned := r.2 :: s.owned } else s' = s
  | .freeHbm p, s, r, s' =>
    s' = if ok r then { s.use p with owned := s.owned.erase p } else s.use p
  | .loadBuffer, s, p, s' => p = s.buffer ∧ s' = s
  | .storeBuffer p, s, _, s' => s' = { s with buffer := p }
  | .memset p, s, _, s' => s' = s.use p
  | .installFaultBuffer _, s, _, s' => s' = s
  | .uninstallFaultBuffer _, s, _, s' => s' = s
  | .storeStop b, s, _, s' => s' = { s with stop := b }
  | .start, s, _, s' => s.joinable = false ∧ s' = { s with
      joinable := true
      thread := some { memory := { slots := List.replicate slots.toNat {} } } }
  | .join, s, _, s' => s.thread = none ∧ s' = { s with joinable := false }

/-- The next step of the thread; `answer` is what `resolve_fault` answers. -/
def poll (s : FaultLife) (answer : Status) : Option FaultLife :=
  match s.thread with
  | none => none
  | some t => match t.buf with
    | none => some { s with thread := some { t with buf := some s.buffer } }
    | some p =>
      if t.head then
        if s.stop then some { s with thread := none }
        else some { s with
          thread := some { t with head := false, memory := { t.memory with poller := .scan 0 } } }
      else if t.memory.poller = .scan t.memory.slots.length then
        some { s with thread := some { t with head := true } }
      else (t.memory.poll answer).map fun m =>
        { s.use p with thread := some { t with memory := m } }

def write (s : FaultLife) (slots : List FaultSlot) : FaultLife :=
  { s with thread := s.thread.map fun t => { t with memory := { t.memory with slots } } }

end FaultLife

inductive FaultOp
  | install
  | uninstall

def FaultOp.prog (d : DeviceDesc) (slots : UInt32) : FaultOp → FaultProg Status
  | .install => FaultProg.install d slots
  | .uninstall => FaultProg.uninstall

def owner (d : DeviceDesc) (slots : UInt32) : List FaultOp → FaultProg Unit
  | [] => return ()
  | o :: os => do
    let _ ← o.prog d slots
    owner d slots os

structure FaultSystem where
  owner : FaultProg Unit
  life : FaultLife := {}

inductive FaultStep (slots : UInt32) : FaultSystem → FaultSystem → Prop
  | call (c : FaultCall) (k : c.Answer → FaultProg Unit) (r : c.Answer) (s s' : FaultLife)
      (h : FaultLife.Serves slots c s r s') : FaultStep slots ⟨.call c k, s⟩ ⟨k r, s'⟩
  | poll (p : FaultProg Unit) (answer : Status) (s s' : FaultLife) (h : s.poll answer = some s') :
      FaultStep slots ⟨p, s⟩ ⟨p, s'⟩
  | write (p : FaultProg Unit) (s : FaultLife) (t : PollThread) (ht : s.thread = some t)
      (new : List FaultSlot) (hnew : new.length = t.memory.slots.length) :
      FaultStep slots ⟨p, s⟩ ⟨p, s.write new⟩

inductive OwnerPhase
  | ready
  | given (p : Ptr)
  | stored (p : Ptr)
  | seen (p : Ptr)
  | stopping (p : Ptr)
  | joined (p : Ptr)
  | freed

namespace OwnerPhase

def after : (c : FaultCall) → c.Answer → OwnerPhase → OwnerPhase
  | .allocHbm _, r, l => if ok r.1 then .given r.2 else l
  | .freeHbm _, _, _ => .freed
  | .loadBuffer, p, _ => if p = 0 then .ready else .seen p
  | .storeBuffer _, _, .given p => .stored p
  | .storeBuffer _, _, _ => .ready
  | .storeStop true, _, .seen p => .stopping p
  | .start, _, _ => .ready
  | .join, _, .stopping p => .joined p
  | _, _, l => l

def allowed : FaultCall → OwnerPhase → Prop
  | .allocHbm _, l => l = .ready
  | .freeHbm p, l => l = .joined p
  | .loadBuffer, l => l = .ready
  | .storeBuffer p, l => l = .given p ∨ (l = .freed ∧ p = 0)
  | .memset p, l => l = .stored p
  | .installFaultBuffer p, l => l = .stored p
  | .uninstallFaultBuffer p, l => l = .joined p
  | .storeStop false, l => ∃ p, l = .stored p
  | .storeStop true, l => ∃ p, l = .seen p
  | .start, l => ∃ p, l = .stored p
  | .join, l => ∃ p, l = .stopping p

def Fits (s : FaultLife) : OwnerPhase → Prop
  | .ready => True
  | .given p => p ∈ s.owned ∧ p ≠ 0
  | .stored p => s.buffer = p ∧ p ≠ 0
  | .seen p => s.buffer = p ∧ p ≠ 0
  | .stopping p => s.buffer = p ∧ p ≠ 0 ∧ s.stop = true
  | .joined p => s.buffer = p ∧ p ≠ 0 ∧ s.thread = none
  | .freed => s.thread = none

end OwnerPhase

open OwnerPhase

theorem install_respects (d : DeviceDesc) (slots : UInt32) :
    Respects after allowed (FaultProg.install d slots) .ready (fun _ l => l = .ready) := by
  rw [FaultProg.install]
  split
  · exact rfl
  · refine ⟨rfl, ?_⟩
    rintro ⟨s, p⟩
    change Respects after allowed (if !ok s then .ret s else _) _ _
    cases hs : ok s with
    | false => simp [after, hs]
    | true =>
      have hafter : after (.allocHbm (slots.toUInt64 * FaultHandler.sizeofFaultRecord)) (s, p) .ready =
          .given p := by
        simp [after, hs]
      rw [hafter, if_neg (by simp)]
      exact ⟨.inl rfl, fun _ => ⟨rfl, fun _ => ⟨rfl, fun _ => ⟨⟨p, rfl⟩, fun _ => ⟨⟨p, rfl⟩, fun _ =>
        rfl⟩⟩⟩⟩⟩

theorem uninstall_respects :
    Respects after allowed FaultProg.uninstall .ready (fun _ l => l = .ready) := by
  refine ⟨rfl, fun p => ?_⟩
  change Respects after allowed (if p = 0 then .ret Status.ok else _) _ _
  by_cases hp : p = 0
  · simp [after, hp]
  · have hafter : after .loadBuffer p .ready = .seen p := by simp [after, hp]
    rw [hafter, if_neg hp]
    exact ⟨⟨p, rfl⟩, fun _ => ⟨⟨p, rfl⟩, fun _ => ⟨rfl, fun _ => ⟨rfl, fun _ => ⟨.inr ⟨rfl, rfl⟩, fun _ =>
      rfl⟩⟩⟩⟩⟩

theorem owner_respects (d : DeviceDesc) (slots : UInt32) (os : List FaultOp) :
    Respects after allowed (owner d slots os) .ready (fun _ l => l = .ready) := by
  induction os with
  | nil => exact rfl
  | cons o os ih =>
    rw [owner, respects_bind]
    have ho : Respects after allowed (o.prog d slots) .ready (fun _ l => l = .ready) := by
      cases o with
      | install => exact install_respects d slots
      | uninstall => exact uninstall_respects
    apply respects_mono ho
    rintro _ _ rfl
    exact ih

def Placed (n : ℕ) : Poller → Prop
  | .scan i => i ≤ n
  | .resolve i => i < n
  | .finish i _ => i < n

def sweepLeft (n : ℕ) : Poller → ℕ
  | .scan i => 3 * (n - i) + 2
  | .resolve i => 3 * (n - i) + 1
  | .finish i _ => 3 * (n - i)

theorem sweepLeft_le (n : ℕ) (p : Poller) : sweepLeft n p ≤ 3 * n + 2 := by
  cases p with
  | scan i => exact Nat.add_le_add_right (Nat.mul_le_mul_left 3 (Nat.sub_le n i)) 2
  | resolve i =>
    have := Nat.sub_le n i
    simp only [sweepLeft]
    omega
  | finish i s =>
    have := Nat.sub_le n i
    simp only [sweepLeft]
    omega

theorem poll_next {b : FaultBuffer} (hplaced : Placed b.slots.length b.poller)
    (hend : b.poller ≠ .scan b.slots.length) (answer : Status) :
    ∃ b', b.poll answer = some b' ∧ b'.slots.length = b.slots.length ∧
      Placed b'.slots.length b'.poller ∧
      sweepLeft b'.slots.length b'.poller < sweepLeft b.slots.length b.poller := by
  cases hp : b.poller with
  | scan i =>
    rw [hp] at hplaced hend
    have hi : i < b.slots.length := lt_of_le_of_ne hplaced fun heq => hend (heq ▸ rfl)
    have hx := List.getElem?_eq_getElem hi
    by_cases hstatus : b.slots[i].record.status = 0
    · have hpoll : b.poll answer = some { b with
          poller := .resolve i, totalFaults := b.totalFaults + 1 } := by
        simp [FaultBuffer.poll, hp, hx, hstatus]
      refine ⟨_, hpoll, rfl, hi, ?_⟩
      simp only [sweepLeft]
      omega
    · have hpoll : b.poll answer = some { b with poller := .scan (i + 1) } := by
        simp [FaultBuffer.poll, hp, hx, hstatus]
      refine ⟨_, hpoll, rfl, hi, ?_⟩
      simp only [sweepLeft]
      omega
  | resolve i =>
    rw [hp] at hplaced
    have hi : i < b.slots.length := hplaced
    obtain ⟨b', hpoll, hpoller, hlength⟩ : ∃ b', b.poll answer = some b' ∧
        b'.poller = .finish i answer ∧ b'.slots.length = b.slots.length := by
      simp [FaultBuffer.poll, hp, List.getElem?_eq_getElem hi]
    refine ⟨b', hpoll, hlength, ?_, ?_⟩
    · rw [hpoller, hlength]
      exact hi
    · simp only [sweepLeft, hpoller, hlength]
      omega
  | finish i st =>
    rw [hp] at hplaced
    have hi : i < b.slots.length := hplaced
    obtain ⟨b', hpoll, hpoller, hlength⟩ : ∃ b', b.poll answer = some b' ∧
        b'.poller = .scan (i + 1) ∧ b'.slots.length = b.slots.length := by
      simp only [FaultBuffer.poll, hp, List.getElem?_eq_getElem hi, Option.map_some]
      cases ok st <;> simp
    refine ⟨b', hpoll, hlength, ?_, ?_⟩
    · rw [hpoller, hlength]
      exact hi
    · simp only [sweepLeft, hpoller, hlength]
      omega

structure PollInv (s : FaultLife) (t : PollThread) : Prop where
  joinable : s.joinable = true
  buffer : s.buffer ≠ 0
  buf : ∀ p, t.buf = some p → p ∈ s.owned
  placed : Placed t.memory.slots.length t.memory.poller

structure LifeInv (s : FaultLife) (l : OwnerPhase) : Prop where
  used : s.misused = false
  buffer : l ≠ .freed → s.buffer ≠ 0 → s.buffer ∈ s.owned
  thread : ∀ t, s.thread = some t → PollInv s t
  fits : Fits s l

variable {slots : UInt32} {s s' : FaultLife} {l : OwnerPhase}

theorem FaultLife.use_owned {p : Ptr} (hp : p ∈ s.owned) : s.use p = s := by
  simp [FaultLife.use, hp]

theorem LifeInv.alloc {bytes : UInt64} {r : Status × Ptr} (h : LifeInv s .ready)
    (hserves : FaultLife.Serves slots (.allocHbm bytes) s r s') :
    LifeInv s' (after (.allocHbm bytes) r .ready) := by
  change if ok r.1 then _ else _ at hserves
  cases hr : ok r.1 with
  | false =>
    rw [hr, if_neg (by simp)] at hserves
    subst hserves
    have hafter : after (.allocHbm bytes) r .ready = .ready := by simp [after, hr]
    rw [hafter]
    exact h
  | true =>
    rw [hr, if_pos rfl] at hserves
    obtain ⟨_, hne, rfl⟩ := hserves
    have hafter : after (.allocHbm bytes) r .ready = .given r.2 := by simp [after, hr]
    rw [hafter]
    refine ⟨h.used, fun _ hb => List.mem_cons_of_mem _ (h.buffer nofun hb), fun t ht => ?_,
      List.mem_cons_self, hne⟩
    have hinv := h.thread t ht
    exact { hinv with buf := fun p hp => List.mem_cons_of_mem _ (hinv.buf p hp) }

theorem LifeInv.free {p : Ptr} {r : Status} (h : LifeInv s (.joined p))
    (hserves : FaultLife.Serves slots (.freeHbm p) s r s') : LifeInv s' .freed := by
  -- The thread has ended, so nobody reads the buffer that goes back.
  obtain ⟨rfl, hne, hnone⟩ := h.fits
  change s' = if ok r then _ else _ at hserves
  rw [FaultLife.use_owned (h.buffer nofun hne)] at hserves
  have hfreed : s'.misused = false ∧ s'.thread = none := by
    rw [hserves]
    split
    · exact ⟨h.used, hnone⟩
    · exact ⟨h.used, hnone⟩
  refine ⟨hfreed.1, fun h => absurd rfl h, fun t ht => ?_, hfreed.2⟩
  rw [hfreed.2] at ht
  cases ht

theorem LifeInv.load (h : LifeInv s .ready) : LifeInv s (after .loadBuffer s.buffer .ready) := by
  by_cases hne : s.buffer = 0
  · have hafter : after .loadBuffer s.buffer .ready = .ready := by simp [after, hne]
    rw [hafter]
    exact h
  · have hafter : after .loadBuffer s.buffer .ready = .seen s.buffer := by simp [after, hne]
    rw [hafter]
    exact ⟨h.used, fun _ => h.buffer nofun, h.thread, rfl, hne⟩

theorem LifeInv.store {p : Ptr} (h : LifeInv s l) (hallowed : allowed (.storeBuffer p) l) :
    LifeInv { s with buffer := p } (after (.storeBuffer p) () l) := by
  -- `buffer_` is stored when the memory is new and cleared when the thread has ended.
  rcases hallowed with rfl | ⟨rfl, rfl⟩
  · obtain ⟨howned, hne⟩ := h.fits
    refine ⟨h.used, fun _ _ => howned, fun t ht => ?_, rfl, hne⟩
    exact { h.thread t ht with buffer := hne }
  · refine ⟨h.used, fun _ hb => absurd rfl hb, fun t ht => ?_, trivial⟩
    have hnone : s.thread = none := h.fits
    rw [hnone] at ht
    cases ht

theorem LifeInv.start {p : Ptr} (h : LifeInv s (.stored p)) : LifeInv { s with
    joinable := true
    thread := some { memory := { slots := List.replicate slots.toNat {} } } } .ready := by
  obtain ⟨rfl, hne⟩ := h.fits
  refine ⟨h.used, fun _ => h.buffer nofun, fun t ht => ?_, trivial⟩
  obtain rfl := Option.some.inj ht
  exact ⟨rfl, hne, nofun, Nat.zero_le _⟩

theorem LifeInv.join {p : Ptr} (h : LifeInv s (.stopping p)) (hnone : s.thread = none) :
    LifeInv { s with joinable := false } (.joined p) := by
  obtain ⟨hb, hne, _⟩ := h.fits
  refine ⟨h.used, fun _ => h.buffer nofun, fun t ht => ?_, hb, hne, hnone⟩
  have hthread : s.thread = some t := ht
  rw [hnone] at hthread
  cases hthread

theorem LifeInv.call {c : FaultCall} {r : c.Answer} (h : LifeInv s l)
    (hserves : FaultLife.Serves slots c s r s') (hallowed : allowed c l) : LifeInv s' (after c r l) := by
  cases c with
  | allocHbm bytes =>
    obtain rfl : l = .ready := hallowed
    exact h.alloc hserves
  | freeHbm p =>
    obtain rfl : l = .joined p := hallowed
    exact h.free hserves
  | loadBuffer =>
    obtain rfl : l = .ready := hallowed
    obtain ⟨rfl, rfl⟩ := hserves
    exact h.load
  | storeBuffer p =>
    obtain rfl := hserves
    exact h.store hallowed
  | memset p =>
    obtain rfl : l = .stored p := hallowed
    obtain rfl := hserves
    obtain ⟨rfl, hne⟩ := h.fits
    rw [FaultLife.use_owned (h.buffer nofun hne)]
    exact h
  | installFaultBuffer p =>
    obtain rfl := hserves
    exact h
  | uninstallFaultBuffer p =>
    obtain rfl := hserves
    exact h
  | storeStop b =>
    obtain rfl := hserves
    cases b with
    | false =>
      obtain ⟨p, rfl⟩ := hallowed
      exact ⟨h.used, h.buffer, fun t ht => { h.thread t ht with }, h.fits⟩
    | true =>
      obtain ⟨p, rfl⟩ := hallowed
      obtain ⟨hb, hne⟩ := h.fits
      exact ⟨h.used, fun _ => h.buffer nofun, fun t ht => { h.thread t ht with }, hb, hne, rfl⟩
  | start =>
    obtain ⟨p, rfl⟩ := hallowed
    obtain ⟨_, rfl⟩ := hserves
    exact h.start
  | join =>
    obtain ⟨p, rfl⟩ := hallowed
    obtain ⟨hnone, rfl⟩ := hserves
    exact h.join hnone

def PollThread.left (t : PollThread) : ℕ :=
  (if t.buf = none then 1 else 0) +
    if t.head then 1 else sweepLeft t.memory.slots.length t.memory.poller

theorem Fits.of_eq (h : Fits s l) (hbuffer : s'.buffer = s.buffer) (hstop : s'.stop = s.stop)
    (howned : s'.owned = s.owned) (hthread : s.thread = none → s'.thread = none) : Fits s' l := by
  cases l with
  | ready => exact trivial
  | given p => exact ⟨howned ▸ h.1, h.2⟩
  | stored p => exact ⟨hbuffer.trans h.1, h.2⟩
  | seen p => exact ⟨hbuffer.trans h.1, h.2⟩
  | stopping p => exact ⟨hbuffer.trans h.1, h.2.1, hstop.trans h.2.2⟩
  | joined p => exact ⟨hbuffer.trans h.1, h.2.1, hthread h.2.2⟩
  | freed => exact hthread h

theorem LifeInv.within {t : PollThread} (h : LifeInv s l) (ht : s.thread = some t)
    {o : Option PollThread} (ho : ∀ t', o = some t' → PollInv s t') :
    LifeInv { s with thread := o } l where
  used := h.used
  buffer := h.buffer
  thread t' ht' := { ho t' ht' with }
  fits := Fits.of_eq h.fits rfl rfl rfl fun hnone => by simp [hnone] at ht

theorem LifeInv.poll {t : PollThread} (h : LifeInv s l) (ht : s.thread = some t)
    (answer : Status) : ∃ o, s.poll answer = some { s with thread := o } ∧
      LifeInv { s with thread := o } l ∧
      ∀ t', o = some t' → t'.memory.slots.length = t.memory.slots.length ∧
        (s.stop = true → t'.left < t.left) := by
  have hinv := h.thread t ht
  have hl : l ≠ .freed := by
    rintro rfl
    have hnone : s.thread = none := h.fits
    rw [ht] at hnone
    cases hnone
  cases hbuf : t.buf with
  | none =>
    refine ⟨some { t with buf := some s.buffer }, by simp [FaultLife.poll, ht, hbuf], ?_, ?_⟩
    · apply h.within ht
      rintro _ ⟨⟩
      refine { hinv with buf := fun p hp => ?_ }
      obtain rfl := Option.some.inj hp
      exact h.buffer hl hinv.buffer
    · rintro _ ⟨⟩
      exact ⟨rfl, fun _ => by simp [PollThread.left, hbuf]⟩
  | some p =>
    have huse : s.use p = s := by
      rw [FaultLife.use, decide_eq_false (by simpa using hinv.buf p hbuf), Bool.or_false]
    cases hhead : t.head with
    | true =>
      by_cases hstop : s.stop = true
      · refine ⟨none, by simp [FaultLife.poll, ht, hbuf, hhead, hstop], h.within ht ?_, ?_⟩
        · exact fun t' ht' => absurd ht' (by simp)
        · exact fun t' ht' => absurd ht' (by simp)
      · refine ⟨some { t with head := false, memory := { t.memory with poller := .scan 0 } },
          by simp [FaultLife.poll, ht, hbuf, hhead, hstop], ?_, ?_⟩
        · apply h.within ht
          rintro _ ⟨⟩
          exact { hinv with placed := Nat.zero_le _ }
        · rintro _ ⟨⟩
          exact ⟨rfl, fun hset => absurd hset hstop⟩
    | false =>
      by_cases hend : t.memory.poller = .scan t.memory.slots.length
      · refine ⟨some { t with head := true }, by simp [FaultLife.poll, ht, hbuf, hhead, hend], ?_, ?_⟩
        · apply h.within ht
          rintro _ ⟨⟩
          exact { hinv with }
        · rintro _ ⟨⟩
          exact ⟨rfl, fun _ => by simp [PollThread.left, hbuf, hhead, hend, sweepLeft]⟩
      · obtain ⟨m, hm, hlength, hplaced, hless⟩ := poll_next hinv.placed hend answer
        refine ⟨some { t with memory := m },
          by simp [FaultLife.poll, ht, hbuf, hhead, hend, hm, huse], ?_, ?_⟩
        · apply h.within ht
          rintro _ ⟨⟩
          exact { hinv with placed := hplaced }
        · rintro _ ⟨⟩
          exact ⟨hlength, fun _ => by simpa [PollThread.left, hbuf, hhead] using hless⟩

theorem LifeInv.write {t : PollThread} (h : LifeInv s l) (ht : s.thread = some t)
    {new : List FaultSlot} (hnew : new.length = t.memory.slots.length) :
    LifeInv (s.write new) l ∧ ∃ t', (s.write new).thread = some t' ∧
      t'.memory.slots.length = t.memory.slots.length ∧ t'.left = t.left := by
  have hinv := h.thread t ht
  have hwrite : s.write new =
      { s with thread := some { t with memory := { t.memory with slots := new } } } := by
    rw [FaultLife.write, ht]
    rfl
  rw [hwrite]
  refine ⟨h.within ht ?_, _, rfl, hnew, ?_⟩
  · rintro _ ⟨⟩
    refine { hinv with placed := ?_ }
    rw [hnew]
    exact hinv.placed
  · simp only [PollThread.left, hnew]

structure SystemInv (slots : UInt32) (b : FaultSystem) (l : OwnerPhase) : Prop where
  owner : Respects after allowed b.owner l (fun _ l => l = .ready)
  life : LifeInv b.life l
  length : ∀ t, b.life.thread = some t → t.memory.slots.length = slots.toNat

theorem serves_thread {c : FaultCall} {r : c.Answer} (h : FaultLife.Serves slots c s r s')
    (hc : c ≠ .start) : s'.thread = s.thread := by
  cases c with
  | allocHbm bytes =>
    change if ok r.1 then _ else _ at h
    split at h
    · obtain ⟨_, _, rfl⟩ := h
      rfl
    · rw [h]
  | freeHbm p =>
    change s' = if ok r then _ else _ at h
    rw [h]
    split <;> rfl
  | loadBuffer => rw [h.2]
  | join => rw [h.2]
  | start => exact absurd rfl hc
  | _ =>
    obtain rfl := h
    rfl

theorem serves_length {c : FaultCall} {r : c.Answer} (h : FaultLife.Serves slots c s r s')
    (hs : ∀ t, s.thread = some t → t.memory.slots.length = slots.toNat) (t : PollThread)
    (ht : s'.thread = some t) : t.memory.slots.length = slots.toNat := by
  by_cases hc : c = .start
  · subst hc
    obtain ⟨_, rfl⟩ := h
    obtain rfl := Option.some.inj ht
    exact List.length_replicate
  · exact hs t ((serves_thread h hc).symm.trans ht)

theorem system_inv {d : DeviceDesc} {os : List FaultOp} {b : FaultSystem}
    (h : Relation.ReflTransGen (FaultStep slots) ⟨owner d slots os, {}⟩ b) :
    ∃ l, SystemInv slots b l := by
  induction h with
  | refl =>
    exact ⟨.ready, owner_respects d slots os, ⟨rfl, fun _ hb => absurd rfl hb, nofun, trivial⟩, nofun⟩
  | tail _ hstep ih =>
    obtain ⟨l, howner, hlife, hlength⟩ := ih
    cases hstep with
    | call c k r s s' hserves =>
      exact ⟨_, howner.2 r, hlife.call hserves howner.1, serves_length hserves hlength⟩
    | poll p answer s s' hpoll =>
      cases ht : s.thread with
      | none => simp [FaultLife.poll, ht] at hpoll
      | some t =>
        obtain ⟨o, hsome, hnext, hless⟩ := hlife.poll ht answer
        obtain rfl := Option.some.inj (hsome.symm.trans hpoll)
        exact ⟨l, howner, hnext, fun t' ht' => (hless t' ht').1.trans (hlength t ht)⟩
    | write p s t ht new hnew =>
      obtain ⟨hnext, t', ht', hsame, _⟩ := hlife.write ht hnew
      refine ⟨l, howner, hnext, fun u hu => ?_⟩
      obtain rfl := Option.some.inj (ht'.symm.trans hu)
      exact hsame.trans (hlength t ht)

theorem poller_in_buffer (d : DeviceDesc) (slots : UInt32) (os : List FaultOp) (b : FaultSystem)
    (h : Relation.ReflTransGen (FaultStep slots) ⟨owner d slots os, {}⟩ b) :
    b.life.misused = false ∧
      (∀ t, b.life.thread = some t → b.life.buffer ≠ 0 ∧ ∀ p, t.buf = some p → p ∈ b.life.owned) ∧
      ∀ p k, b.owner = .call (.freeHbm p) k → p ∈ b.life.owned ∧ b.life.thread = none := by
  obtain ⟨l, howner, hlife, _⟩ := system_inv h
  refine ⟨hlife.used, fun t ht => ⟨(hlife.thread t ht).buffer, (hlife.thread t ht).buf⟩, ?_⟩
  intro p k hfree
  rw [hfree] at howner
  obtain rfl : l = .joined p := howner.1
  obtain ⟨rfl, hne, hnone⟩ := hlife.fits
  exact ⟨hlife.buffer nofun hne, hnone⟩

theorem run_call {c : FaultCall} {k : c.Answer → FaultProg Unit} {a : FaultSystem}
    (h : Relation.ReflTransGen (FaultStep slots) a ⟨.call c k, s⟩) (r : c.Answer)
    (hserves : FaultLife.Serves slots c s r s') :
    Relation.ReflTransGen (FaultStep slots) a ⟨k r, s'⟩ := h.tail (.call c k r s s' hserves)

def awaited : FaultSystem where
  owner := .call .join fun _ => do
    let _ ← FaultProg.uninstallFaultBuffer 16
    let _ ← FaultProg.freeHbm 16
    FaultProg.storeBuffer 0
  life :=
    { buffer := 16
      stop := true
      joinable := true
      thread := some { buf := some 16, memory := { slots := [{}] } }
      owned := [16] }

theorem run_awaited : Relation.ReflTransGen (FaultStep 1)
    ⟨owner { vendor := .apple } 1 [.install, .uninstall], {}⟩ awaited := by
  have hfresh : FaultLife.Serves 1 (.allocHbm 40) {} (.ok, 16) { owned := [16] } :=
    ⟨List.not_mem_nil, by decide, rfl⟩
  have hgiven := run_call (c := .allocHbm 40)
    (a := ⟨owner { vendor := .apple } 1 [.install, .uninstall], {}⟩) .refl (.ok, 16) hfresh
  have hstored := run_call hgiven () rfl
  have hcleared := run_call hstored () rfl
  have hinstalled := run_call hcleared Status.ok rfl
  have hgo := run_call hinstalled () rfl
  have hstarted := run_call hgo () ⟨rfl, rfl⟩
  have hread := hstarted.tail (.poll _ .ok _ _ rfl)
  have hseen := run_call hread 16 ⟨rfl, rfl⟩
  exact run_call hseen () rfl

theorem poller_in_buffer_awaited : 16 ∈ awaited.life.owned := by
  obtain ⟨_, hthread, _⟩ := poller_in_buffer _ 1 _ awaited run_awaited
  exact (hthread _ rfl).2 16 rfl

inductive Polling : ℕ → FaultLife → FaultLife → Prop
  | done (s : FaultLife) : Polling 0 s s
  | poll (n : ℕ) (answer : Status) (s s' s'' : FaultLife) (h : s.poll answer = some s')
      (hrest : Polling n s' s'') : Polling (n + 1) s s''
  | write (n : ℕ) (s s' : FaultLife) (t : PollThread) (ht : s.thread = some t)
      (new : List FaultSlot) (hnew : new.length = t.memory.slots.length)
      (hrest : Polling n (s.write new) s') : Polling n s s'

theorem left_le (t : PollThread) : t.left ≤ 3 * t.memory.slots.length + 3 := by
  have hsweep := sweepLeft_le t.memory.slots.length t.memory.poller
  rw [PollThread.left]
  split <;> split <;> omega

theorem polling_ended {n : ℕ} (h : Polling n s s') (hnone : s.thread = none) :
    n = 0 ∧ s'.thread = none := by
  cases h with
  | done => exact ⟨rfl, hnone⟩
  | poll n answer _ s₁ _ hpoll _ => simp [FaultLife.poll, hnone] at hpoll
  | write n _ _ t ht _ _ _ =>
    rw [hnone] at ht
    cases ht

theorem polling_ends {n : ℕ} {t : PollThread} (h : Polling n s s') (hinv : LifeInv s l)
    (ht : s.thread = some t) (hstop : s.stop = true) :
    n ≤ t.left + 1 ∧ (s'.thread = none ∨ ∀ answer, (s'.poll answer).isSome = true) := by
  induction h generalizing t with
  | done s =>
    refine ⟨Nat.zero_le _, .inr fun answer => ?_⟩
    obtain ⟨o, hpoll, _⟩ := hinv.poll ht answer
    rw [hpoll]
    rfl
  | poll n answer s s' s'' hpoll hrest ih =>
    obtain ⟨o, hsome, hnext, hless⟩ := hinv.poll ht answer
    obtain rfl := Option.some.inj (hsome.symm.trans hpoll)
    cases o with
    | none =>
      obtain ⟨rfl, hnone⟩ := polling_ended hrest rfl
      exact ⟨Nat.le_add_left _ _, .inl hnone⟩
    | some t' =>
      obtain ⟨hle, hend⟩ := ih hnext rfl hstop
      have hfewer := (hless t' rfl).2 hstop
      exact ⟨by omega, hend⟩
  | write n s s' t₀ ht₀ new hnew hrest ih =>
    obtain rfl := Option.some.inj (ht.symm.trans ht₀)
    obtain ⟨hnext, t', ht', _, hleft⟩ := hinv.write ht hnew
    rw [← hleft]
    exact ih hnext ht' hstop

theorem join_returns (d : DeviceDesc) (slots : UInt32) (os : List FaultOp) (b : FaultSystem)
    (h : Relation.ReflTransGen (FaultStep slots) ⟨owner d slots os, {}⟩ b)
    (k : Unit → FaultProg Unit) (hjoin : b.owner = .call .join k) (n : ℕ) (s : FaultLife)
    (hpolling : Polling n b.life s) :
    n ≤ 3 * slots.toNat + 4 ∧ (s.thread = none ∨ ∀ answer, (s.poll answer).isSome = true) := by
  obtain ⟨l, howner, hlife, hlength⟩ := system_inv h
  rw [hjoin] at howner
  obtain ⟨p, rfl⟩ := howner.1
  obtain ⟨_, _, hstop⟩ := hlife.fits
  cases ht : b.life.thread with
  | none =>
    obtain ⟨rfl, hnone⟩ := polling_ended hpolling ht
    exact ⟨Nat.zero_le _, .inl hnone⟩
  | some t =>
    obtain ⟨hle, hend⟩ := polling_ends hpolling hlife ht hstop
    have hleft := left_le t
    rw [hlength t ht] at hleft
    exact ⟨by omega, hend⟩

theorem join_returns_awaited : ∃ s, Polling 1 awaited.life s ∧ s.thread = none ∧ 1 ≤ 3 * 1 + 4 := by
  have hpolling : Polling 1 awaited.life { awaited.life with thread := none } :=
    .poll 0 .ok _ _ _ rfl (.done _)
  exact ⟨_, hpolling, rfl, (join_returns _ 1 _ awaited run_awaited _ rfl 1 _ hpolling).1⟩

end NexusRT.Firmware

import Mathlib.Data.List.Perm.Basic
import NexusRT.Firmware.Context
import NexusRT.Library.Guarded

/-!
The slots of the fault buffer between the posters and the poller.
-/

namespace NexusRT.Firmware

/-- 0 is pending, 1 resolved and 2 failed. -/
structure FaultRecord where
  faultingAddr : UInt64 := 0
  status : UInt32 := 0
  deriving DecidableEq

/-- `waiting` is a ghost: the address of a fault that was posted here and not yet passed to
`resolve_fault`. -/
structure FaultSlot where
  record : FaultRecord := {}
  waiting : Option UInt64 := none
  deriving DecidableEq

/-- The next access of `poll_loop`: to read a status word, to read an address and resolve it, or to
write a status word. -/
inductive Poller
  | scan (i : ℕ)
  | resolve (i : ℕ)
  | finish (i : ℕ) (s : Status)
  deriving DecidableEq

/-- `writing` are the posters between their two writes. `posted` and `passed` are ghosts: the
addresses of all faults posted and of all calls of `resolve_fault`. -/
structure FaultBuffer where
  slots : List FaultSlot
  poller : Poller := .scan 0
  totalFaults : UInt64 := 0
  resolvedFaults : UInt64 := 0
  failedFaults : UInt64 := 0
  writing : List (ℕ × UInt64) := []
  posted : List UInt64 := []
  passed : List UInt64 := []
  deriving DecidableEq

inductive FaultAction
  | writeAddr (i : ℕ) (a : UInt64)
  | writeStatus (i : ℕ) (a : UInt64)
  | poll (answer : Status)

namespace FaultBuffer

/-- What `install` leaves behind on a vendor with a fault buffer: memory filled with 0. -/
def installed (f : FaultHandler) : FaultBuffer :=
  { slots := List.replicate f.bufferSlots.toNat {} }

def poll (b : FaultBuffer) (answer : Status) : Option FaultBuffer :=
  match b.poller with
  | .scan i => match b.slots[i]? with
    | none => some { b with poller := .scan 0 }
    | some x =>
      if x.record.status ≠ 0 then some { b with poller := .scan (i + 1) }
      else some { b with poller := .resolve i, totalFaults := b.totalFaults + 1 }
  | .resolve i => b.slots[i]?.map fun x =>
    { b with
      poller := .finish i answer
      slots := b.slots.set i { x with waiting := none }
      passed := x.record.faultingAddr :: b.passed }
  | .finish i s => b.slots[i]?.map fun x =>
    if ok s then
      { b with
        poller := .scan (i + 1)
        slots := b.slots.set i { x with record := { x.record with status := 1 } }
        resolvedFaults := b.resolvedFaults + 1 }
    else
      { b with
        poller := .scan (i + 1)
        slots := b.slots.set i { x with record := { x.record with status := 2 } }
        failedFaults := b.failedFaults + 1 }

def step (b : FaultBuffer) : FaultAction → Option FaultBuffer
  | .writeAddr i a => b.slots[i]?.map fun x =>
    { b with
      slots := b.slots.set i { x with record := { x.record with faultingAddr := a } }
      writing := (i, a) :: b.writing }
  | .writeStatus i a =>
    if (i, a) ∈ b.writing then b.slots[i]?.map fun x =>
      { b with
        slots := b.slots.set i ⟨{ x.record with status := 0 }, some a⟩
        writing := b.writing.erase (i, a)
        posted := a :: b.posted }
    else none
  | .poll answer => b.poll answer

def Step (b : FaultBuffer) (c : FaultAction) (b' : FaultBuffer) : Prop := b.step c = some b'

def inHand (b : FaultBuffer) : ℕ :=
  match b.poller with
  | .resolve _ => 1
  | _ => 0

structure Delivered (b : FaultBuffer) : Prop where
  once : b.posted.Perm (b.passed ++ b.slots.filterMap FaultSlot.waiting)
  intact : ∀ x ∈ b.slots, ∀ a, x.waiting = some a → x.record = ⟨a, 0⟩
  counted : b.totalFaults.toNat = b.passed.length + b.inHand
  taken : ∀ i, b.poller = .resolve i → ∀ x, b.slots[i]? = some x → x.waiting ≠ none

def PollUndisturbed (b : FaultBuffer) : Poller → Prop
  | .scan i => ∀ x ∈ b.slots[i]?, x.record.status = 0 →
    x.waiting ≠ none ∧ b.totalFaults.toNat + 1 < 2 ^ 64
  | .resolve _ => True
  | .finish i _ => ∀ x ∈ b.slots[i]?, x.waiting = none

def Undisturbed (b : FaultBuffer) : FaultAction → Prop
  | .writeAddr i a => ∀ x ∈ b.slots[i]?, ∀ c ∈ x.waiting, a = c
  | .writeStatus i a => ∀ x ∈ b.slots[i]?, x.waiting = none ∧ x.record.faultingAddr = a
  | .poll _ => PollUndisturbed b b.poller

instance (b : FaultBuffer) : ∀ p, Decidable (PollUndisturbed b p)
  | .scan i => inferInstanceAs (Decidable (∀ x ∈ b.slots[i]?, x.record.status = 0 →
      x.waiting ≠ none ∧ b.totalFaults.toNat + 1 < 2 ^ 64))
  | .resolve _ => inferInstanceAs (Decidable True)
  | .finish i _ => inferInstanceAs (Decidable (∀ x ∈ b.slots[i]?, x.waiting = none))

instance (x : FaultSlot) (a : Ptr) : Decidable (∀ c ∈ x.waiting, a = c) :=
  Option.decidableForallMem (p := fun c => a = c) x.waiting

instance (b : FaultBuffer) : ∀ c, Decidable (Undisturbed b c)
  | .writeAddr i a => inferInstanceAs (Decidable (∀ x ∈ b.slots[i]?, ∀ c ∈ x.waiting, a = c))
  | .writeStatus i a =>
    inferInstanceAs (Decidable (∀ x ∈ b.slots[i]?, x.waiting = none ∧ x.record.faultingAddr = a))
  | .poll _ => inferInstanceAs (Decidable (PollUndisturbed b b.poller))

instance (b : FaultBuffer) (c : FaultAction) (b' : FaultBuffer) : Decidable (Step b c b') :=
  inferInstanceAs (Decidable (b.step c = some b'))

theorem waiting_set {l : List FaultSlot} {i : ℕ} {x : FaultSlot} (h : l[i]? = some x)
    (y : FaultSlot) : ∃ rest, (l.filterMap FaultSlot.waiting).Perm (x.waiting.toList ++ rest) ∧
      ((l.set i y).filterMap FaultSlot.waiting).Perm (y.waiting.toList ++ rest) := by
  obtain ⟨hi, rfl⟩ := List.getElem?_eq_some_iff.mp h
  have hcons : ∀ z : FaultSlot, (z :: l.eraseIdx i).filterMap FaultSlot.waiting =
      z.waiting.toList ++ (l.eraseIdx i).filterMap FaultSlot.waiting := by
    intro z
    rw [List.filterMap_cons]
    cases z.waiting <;> rfl
  refine ⟨(l.eraseIdx i).filterMap FaultSlot.waiting, ?_, ?_⟩
  · rw [← hcons]
    exact (List.getElem_cons_eraseIdx_perm hi).symm.filterMap _
  · rw [← hcons]
    exact (List.set_perm_cons_eraseIdx hi y).filterMap _

theorem waiting_set_record {l : List FaultSlot} {i : ℕ} {x : FaultSlot} (h : l[i]? = some x)
    (record : FaultRecord) :
    ((l.set i { x with record }).filterMap FaultSlot.waiting).Perm
      (l.filterMap FaultSlot.waiting) := by
  obtain ⟨rest, hl, hset⟩ := waiting_set h { x with record }
  exact hset.trans hl.symm

theorem set_cases {l : List FaultSlot} {i j : ℕ} {y z : FaultSlot}
    (h : (l.set i y)[j]? = some z) : (i = j ∧ z = y) ∨ l[j]? = some z := by
  rw [List.getElem?_set] at h
  split at h
  · next hij =>
    split at h
    · exact .inl ⟨hij, (Option.some.inj h).symm⟩
    · simp at h
  · exact .inr h

theorem mem_set_self {l : List FaultSlot} {i : ℕ} {x : FaultSlot} (h : l[i]? = some x)
    (y : FaultSlot) : y ∈ l.set i y := by
  obtain ⟨hi, _⟩ := List.getElem?_eq_some_iff.mp h
  exact List.mem_set hi y

section Steps

variable {b b' : FaultBuffer} {i : ℕ} {a : UInt64}

theorem writeAddr_exact (hb : Delivered b) (h : Step b (.writeAddr i a) b') :
    (Undisturbed b (.writeAddr i a) ∧ Delivered b') ∨
      (¬ Undisturbed b (.writeAddr i a) ∧ ¬ Delivered b') := by
  obtain ⟨x, hx, rfl⟩ := Option.map_eq_some_iff.mp h
  by_cases hsame : ∀ c, x.waiting = some c → a = c
  · left
    refine ⟨fun z hz => Option.some.inj (hx.symm.trans hz) ▸ hsame, ?_, fun z hz c hc => ?_,
      hb.counted, fun j hj z hz => ?_⟩
    · exact hb.once.trans ((waiting_set_record hx _).symm.append_left _)
    · rcases List.mem_or_eq_of_mem_set hz with hz | rfl
      · exact hb.intact z hz c hc
      · have hrecord := hb.intact x (List.mem_of_getElem? hx) c hc
        simp only [hrecord, hsame c hc]
    · rcases set_cases hz with ⟨rfl, rfl⟩ | hz
      · exact hb.taken i hj x hx
      · exact hb.taken j hj z hz
  · right
    simp only [not_forall] at hsame
    obtain ⟨c, hc, hne⟩ := hsame
    refine ⟨fun hmeets => hne (hmeets x hx c hc), fun hdelivered => hne ?_⟩
    have hrecord := hdelivered.intact _ (mem_set_self hx _) c hc
    exact congrArg FaultRecord.faultingAddr hrecord

theorem writeStatus_exact (hb : Delivered b) (h : Step b (.writeStatus i a) b') :
    (Undisturbed b (.writeStatus i a) ∧ Delivered b') ∨
      (¬ Undisturbed b (.writeStatus i a) ∧ ¬ Delivered b') := by
  rw [Step, step] at h
  split at h
  swap
  · simp at h
  obtain ⟨x, hx, rfl⟩ := Option.map_eq_some_iff.mp h
  obtain ⟨rest, hold, hnew⟩ := waiting_set hx ⟨{ x.record with status := 0 }, some a⟩
  by_cases hown : x.waiting = none ∧ x.record.faultingAddr = a
  · left
    obtain ⟨hnone, haddr⟩ := hown
    rw [hnone] at hold
    refine ⟨fun z hz => Option.some.inj (hx.symm.trans hz) ▸ ⟨hnone, haddr⟩, ?_,
      fun z hz c hc => ?_, hb.counted, fun j hj z hz => ?_⟩
    · refine (hb.once.cons a).trans ((List.perm_middle.symm).trans ?_)
      exact ((hold.cons a).trans hnew.symm).append_left _
    · rcases List.mem_or_eq_of_mem_set hz with hz | rfl
      · exact hb.intact z hz c hc
      · obtain rfl := Option.some.inj hc
        simp only [haddr]
    · rcases set_cases hz with ⟨rfl, rfl⟩ | hz
      · simp
      · exact hb.taken j hj z hz
  · right
    refine ⟨fun hmeets => hown (hmeets x hx), fun hdelivered => hown ?_⟩
    have hrecord := hdelivered.intact _ (mem_set_self hx _) a rfl
    refine ⟨?_, congrArg FaultRecord.faultingAddr hrecord⟩
    have hlt := hdelivered.once.length_eq
    have hle := hb.once.length_eq
    simp only [List.length_append, List.length_cons, hnew.length_eq, hold.length_eq,
      Option.toList_some, List.length_nil] at hlt hle
    rw [← Option.toList_eq_nil_iff, ← List.length_eq_zero_iff]
    omega

theorem scan_exact {r : Status} (hb : Delivered b) (hp : b.poller = .scan i)
    (h : b.poll r = some b') : (Undisturbed b (.poll r) ∧ Delivered b') ∨
      (¬ Undisturbed b (.poll r) ∧ ¬ Delivered b') := by
  have hcounted : b.totalFaults.toNat = b.passed.length := by
    rw [hb.counted, inHand, hp]
    rfl
  simp only [Undisturbed, PollUndisturbed, hp]
  simp only [poll, hp] at h
  cases hx : b.slots[i]? with
  | none =>
    simp only [hx, Option.some.injEq] at h
    subst h
    exact .inl ⟨nofun, hb.once, hb.intact, hcounted, nofun⟩
  | some x =>
    simp only [hx] at h
    by_cases hstatus : x.record.status = 0
    · simp only [hstatus, ne_eq, not_true_eq_false, ↓reduceIte, Option.some.injEq] at h
      subst h
      by_cases htake : x.waiting ≠ none ∧ b.totalFaults.toNat + 1 < 2 ^ 64
      · left
        refine ⟨fun z hz _ => Option.some.inj hz ▸ htake, hb.once, hb.intact, ?_, ?_⟩
        · rw [UInt64.toNat_add, hcounted]
          exact Nat.mod_eq_of_lt (hcounted ▸ htake.2)
        · rintro j hj z hz
          obtain rfl : i = j := Poller.resolve.inj hj
          exact Option.some.inj (hx.symm.trans hz) ▸ htake.1
      · right
        refine ⟨fun hmeets => htake (hmeets x rfl hstatus), fun hdelivered => htake ?_⟩
        refine ⟨hdelivered.taken i rfl x hx, ?_⟩
        have hcount : (b.totalFaults + 1).toNat = b.passed.length + 1 := hdelivered.counted
        have hlt := (b.totalFaults + 1).toNat_lt
        omega
    · simp only [ne_eq, hstatus, not_false_eq_true, ↓reduceIte, Option.some.injEq] at h
      subst h
      refine .inl ⟨fun z hz hzero => ?_, hb.once, hb.intact, hcounted, nofun⟩
      exact absurd hzero (Option.some.inj hz ▸ hstatus)

theorem resolve_delivered {r : Status} (hb : Delivered b) (hp : b.poller = .resolve i)
    (h : b.poll r = some b') : Delivered b' := by
  simp only [poll, hp] at h
  obtain ⟨x, hx, rfl⟩ := Option.map_eq_some_iff.mp h
  obtain ⟨a, ha⟩ := Option.ne_none_iff_exists'.mp (hb.taken i hp x hx)
  have hrecord := hb.intact x (List.mem_of_getElem? hx) a ha
  obtain ⟨rest, hold, hnew⟩ := waiting_set hx { x with waiting := none }
  refine ⟨?_, fun z hz c hc => ?_, ?_, nofun⟩
  · rw [ha] at hold
    apply hb.once.trans
    refine (hold.append_left _).trans (List.perm_middle.trans ?_)
    have haddr : x.record.faultingAddr = a := by rw [hrecord]
    rw [haddr]
    exact (hnew.symm.append_left _).cons a
  · rcases List.mem_or_eq_of_mem_set hz with hz | rfl
    · exact hb.intact z hz c hc
    · simp at hc
  · rw [hb.counted, inHand, hp]
    rfl

theorem finish_eq {r s : Status} (hp : b.poller = .finish i s) (h : b.poll r = some b') :
    ∃ x v, b.slots[i]? = some x ∧ v ≠ 0 ∧ b'.poller = .scan (i + 1) ∧
      b'.slots = b.slots.set i { x with record := { x.record with status := v } } ∧
      b'.totalFaults = b.totalFaults ∧ b'.posted = b.posted ∧ b'.passed = b.passed := by
  -- Whatever the answer was, the slot now has a status other than 0.
  simp only [poll, hp] at h
  obtain ⟨x, hx, h⟩ := Option.map_eq_some_iff.mp h
  split at h
  · exact ⟨x, 1, hx, by decide, by rw [← h], by rw [← h], by rw [← h], by rw [← h], by rw [← h]⟩
  · exact ⟨x, 2, hx, by decide, by rw [← h], by rw [← h], by rw [← h], by rw [← h], by rw [← h]⟩

theorem finish_exact {r s : Status} (hb : Delivered b) (hp : b.poller = .finish i s)
    (h : b.poll r = some b') : (Undisturbed b (.poll r) ∧ Delivered b') ∨
      (¬ Undisturbed b (.poll r) ∧ ¬ Delivered b') := by
  obtain ⟨x, v, hx, hv, hpoller, hslots, htotal, hposted, hpassed⟩ := finish_eq hp h
  simp only [Undisturbed, PollUndisturbed, hp]
  cases hw : x.waiting with
  | none =>
    left
    refine ⟨fun z hz => Option.some.inj (hx.symm.trans hz) ▸ hw, ?_, fun z hz c hc => ?_, ?_, ?_⟩
    · rw [hposted, hpassed, hslots]
      exact hb.once.trans ((waiting_set_record hx _).symm.append_left _)
    · rw [hslots] at hz
      rcases List.mem_or_eq_of_mem_set hz with hz | rfl
      · exact hb.intact z hz c hc
      · simp [hw] at hc
    · rw [htotal, hpassed, hb.counted, inHand, inHand, hp, hpoller]
    · simp [hpoller]
  | some a =>
    right
    refine ⟨fun hmeets => ?_, fun hdelivered => hv ?_⟩
    · have hnone := hmeets x hx
      simp [hw] at hnone
    · have hintact := hdelivered.intact
      rw [hslots] at hintact
      have hrecord := hintact _ (mem_set_self hx _) a hw
      exact congrArg FaultRecord.status hrecord

theorem poll_exact {r : Status} (hb : Delivered b) (h : b.poll r = some b') :
    (Undisturbed b (.poll r) ∧ Delivered b') ∨ (¬ Undisturbed b (.poll r) ∧ ¬ Delivered b') := by
  cases hp : b.poller with
  | scan i => exact scan_exact hb hp h
  | resolve i => exact .inl ⟨by simp only [Undisturbed, PollUndisturbed, hp], resolve_delivered hb hp h⟩
  | finish i s => exact finish_exact hb hp h

def InRange (b : FaultBuffer) : Prop :=
  match b.poller with
  | .scan _ => True
  | .resolve i | .finish i _ => i < b.slots.length

theorem poll_inRange {r : Status} (h : b.poll r = some b') : InRange b' := by
  rw [poll] at h
  split at h
  · next i _ =>
    split at h
    · simp only [Option.some.injEq] at h
      subst h
      trivial
    · next x hx =>
      obtain ⟨hi, _⟩ := List.getElem?_eq_some_iff.mp hx
      split at h
      · simp only [Option.some.injEq] at h
        subst h
        trivial
      · simp only [Option.some.injEq] at h
        subst h
        exact hi
  · obtain ⟨x, hx, rfl⟩ := Option.map_eq_some_iff.mp h
    obtain ⟨hi, _⟩ := List.getElem?_eq_some_iff.mp hx
    simpa [InRange] using hi
  · obtain ⟨x, _, h⟩ := Option.map_eq_some_iff.mp h
    split at h
    · subst h
      trivial
    · subst h
      trivial

theorem step_inRange {c : FaultAction} (h : Step b c b') (hb : InRange b) : InRange b' := by
  have hset : ∀ i y (b' : FaultBuffer), b'.poller = b.poller → b'.slots = b.slots.set i y →
      InRange b' := by
    intro i y b' hpoller hslots
    rw [InRange, hpoller, hslots, List.length_set]
    exact hb
  cases c with
  | writeAddr i a =>
    obtain ⟨x, _, rfl⟩ := Option.map_eq_some_iff.mp h
    exact hset _ _ _ rfl rfl
  | writeStatus i a =>
    rw [Step, step] at h
    split at h
    · obtain ⟨x, _, rfl⟩ := Option.map_eq_some_iff.mp h
      exact hset _ _ _ rfl rfl
    · simp at h
  | poll r => exact poll_inRange h

theorem undisturbed_exact :
    ExactGuard Step Undisturbed (fun b => Delivered b ∧ InRange b) Delivered where
  good _ hb := hb.1
  step b c b' hb h := by
    have hrange := step_inRange h hb.2
    have hexact : (Undisturbed b c ∧ Delivered b') ∨ (¬ Undisturbed b c ∧ ¬ Delivered b') := by
      cases c with
      | writeAddr i a => exact writeAddr_exact hb.1 h
      | writeStatus i a => exact writeStatus_exact hb.1 h
      | poll r => exact poll_exact hb.1 h
    rcases hexact with ⟨hmeets, hb'⟩ | hnot
    · exact .inl ⟨hmeets, hb', hrange⟩
    · exact .inr hnot

end Steps

abbrev Polls : FaultBuffer → FaultBuffer → Prop :=
  Relation.ReflTransGen fun b b' => ∃ r, b.poll r = some b'

section Progress

variable {b : FaultBuffer} {i j : ℕ}

theorem polls_finish {s : Status} (hp : b.poller = .finish i s) (hi : i < b.slots.length)
    (hij : i ≠ j) : ∃ b', Polls b b' ∧ b'.poller = .scan (i + 1) ∧ b'.slots[j]? = b.slots[j]? ∧
      b'.slots.length = b.slots.length := by
  have hx := List.getElem?_eq_getElem hi
  obtain ⟨b', hstep⟩ : ∃ b', b.poll .ok = some b' := by simp [poll, hp, hx]
  obtain ⟨x, v, _, _, hpoller, hslots, _⟩ := finish_eq hp hstep
  exact ⟨b', .single ⟨.ok, hstep⟩, hpoller, by rw [hslots, List.getElem?_set_ne hij],
    by rw [hslots, List.length_set]⟩

theorem polls_resolve (hp : b.poller = .resolve i) (hi : i < b.slots.length) (hij : i ≠ j) :
    ∃ b', Polls b b' ∧ b'.poller = .scan (i + 1) ∧ b'.slots[j]? = b.slots[j]? ∧
      b'.slots.length = b.slots.length := by
  have hx := List.getElem?_eq_getElem hi
  obtain ⟨b₁, hstep, hpoller₁, y, hslots₁⟩ : ∃ b₁, b.poll .ok = some b₁ ∧
      b₁.poller = .finish i .ok ∧ ∃ y, b₁.slots = b.slots.set i y := by
    simp [poll, hp, hx]
  have hi₁ : i < b₁.slots.length := by rwa [hslots₁, List.length_set]
  obtain ⟨b', hpolls, hpoller, hslots, hlength⟩ := polls_finish hpoller₁ hi₁ hij
  refine ⟨b', .head ⟨.ok, hstep⟩ hpolls, hpoller, ?_, ?_⟩
  · rw [hslots, hslots₁, List.getElem?_set_ne hij]
  · rw [hlength, hslots₁, List.length_set]

theorem polls_scan (hp : b.poller = .scan i) (hi : i < b.slots.length) (hij : i ≠ j) :
    ∃ b', Polls b b' ∧ b'.poller = .scan (i + 1) ∧ b'.slots[j]? = b.slots[j]? ∧
      b'.slots.length = b.slots.length := by
  have hx := List.getElem?_eq_getElem hi
  by_cases hstatus : b.slots[i].record.status = 0
  · have hstep : b.poll .ok =
        some { b with poller := .resolve i, totalFaults := b.totalFaults + 1 } := by
      simp [poll, hp, hx, hstatus]
    obtain ⟨b', hpolls, hrest⟩ := polls_resolve
      (b := { b with poller := .resolve i, totalFaults := b.totalFaults + 1 }) rfl hi hij
    exact ⟨b', .head ⟨.ok, hstep⟩ hpolls, hrest⟩
  · have hstep : b.poll .ok = some { b with poller := .scan (i + 1) } := by
      simp [poll, hp, hx, hstatus]
    exact ⟨_, .single ⟨.ok, hstep⟩, rfl, rfl, rfl⟩

theorem polls_to_slot {x : FaultSlot} (n : ℕ) (hn : i + n = j) (hp : b.poller = .scan i)
    (hx : b.slots[j]? = some x) (hstatus : x.record.status = 0) :
    ∃ b', Polls b b' ∧ b'.poller = .resolve j ∧ b'.slots[j]? = some x := by
  induction n generalizing b i with
  | zero =>
    obtain rfl : i = j := hn
    exact ⟨{ b with poller := .resolve i, totalFaults := b.totalFaults + 1 },
      .single ⟨.ok, by simp [poll, hp, hx, hstatus]⟩, rfl, hx⟩
  | succ n ih =>
    obtain ⟨hj, _⟩ := List.getElem?_eq_some_iff.mp hx
    obtain ⟨b₁, hpolls, hpoller, hslots, _⟩ := polls_scan (j := j) hp (by omega) (by omega)
    obtain ⟨b', hpolls', hb'⟩ := ih (by omega) hpoller (hslots.trans hx)
    exact ⟨b', hpolls.trans hpolls', hb'⟩

theorem polls_to_start (n : ℕ) (hn : b.slots.length ≤ i + n) (hp : b.poller = .scan i)
    (hij : j < i) : ∃ b', Polls b b' ∧ b'.poller = .scan 0 ∧ b'.slots[j]? = b.slots[j]? := by
  induction n generalizing b i with
  | zero =>
    have hx : b.slots[i]? = none := List.getElem?_eq_none hn
    exact ⟨{ b with poller := .scan 0 }, .single ⟨.ok, by simp [poll, hp, hx]⟩, rfl, rfl⟩
  | succ n ih =>
    by_cases hi : i < b.slots.length
    · obtain ⟨b₁, hpolls, hpoller, hslots, hlength⟩ := polls_scan (j := j) hp hi (by omega)
      obtain ⟨b', hpolls', hstart, hslots'⟩ := ih (by omega) hpoller (by omega)
      exact ⟨b', hpolls.trans hpolls', hstart, hslots'.trans hslots⟩
    · have hx : b.slots[i]? = none := List.getElem?_eq_none (not_lt.mp hi)
      exact ⟨{ b with poller := .scan 0 }, .single ⟨.ok, by simp [poll, hp, hx]⟩, rfl, rfl⟩

theorem polls_from_scan {x : FaultSlot} (hp : b.poller = .scan i) (hx : b.slots[j]? = some x)
    (hstatus : x.record.status = 0) :
    ∃ b', Polls b b' ∧ b'.poller = .resolve j ∧ b'.slots[j]? = some x := by
  by_cases hij : i ≤ j
  · exact polls_to_slot (j - i) (by omega) hp hx hstatus
  · obtain ⟨b₁, hpolls, hpoller, hslots⟩ := polls_to_start b.slots.length (by omega) hp
      (not_le.mp hij)
    obtain ⟨b', hpolls', hb'⟩ := polls_to_slot j (by omega) hpoller (hslots.trans hx) hstatus
    exact ⟨b', hpolls.trans hpolls', hb'⟩

theorem polls_to_pending {x : FaultSlot} (hrange : InRange b) (hx : b.slots[j]? = some x)
    (hstatus : x.record.status = 0) (hnot : ∀ s, b.poller ≠ .finish j s) :
    ∃ b', Polls b b' ∧ b'.poller = .resolve j ∧ b'.slots[j]? = some x := by
  have hgo : ∀ i b₁, Polls b b₁ → b₁.poller = .scan (i + 1) → b₁.slots[j]? = b.slots[j]? →
      ∃ b', Polls b b' ∧ b'.poller = .resolve j ∧ b'.slots[j]? = some x := by
    intro i b₁ hpolls hpoller hslots
    obtain ⟨b', hpolls', hb'⟩ := polls_from_scan hpoller (hslots.trans hx) hstatus
    exact ⟨b', hpolls.trans hpolls', hb'⟩
  cases hp : b.poller with
  | scan i => exact polls_from_scan hp hx hstatus
  | resolve i =>
    simp only [InRange, hp] at hrange
    by_cases hij : i = j
    · exact ⟨b, .refl, hij ▸ hp, hx⟩
    · obtain ⟨b₁, hpolls, hpoller, hslots, _⟩ := polls_resolve hp hrange hij
      exact hgo i b₁ hpolls hpoller hslots
  | finish i s =>
    simp only [InRange, hp] at hrange
    have hij : i ≠ j := fun hij => hnot s (hij ▸ hp)
    obtain ⟨b₁, hpolls, hpoller, hslots, _⟩ := polls_finish hp hrange hij
    exact hgo i b₁ hpolls hpoller hslots

end Progress

theorem Delivered.total_eq_zero {b : FaultBuffer} (hb : Delivered b) (hrange : InRange b)
    (hnone : b.posted = []) : b.totalFaults = 0 := by
  have hempty := hb.once
  rw [hnone, List.nil_perm, List.append_eq_nil_iff] at hempty
  obtain ⟨hpassed, hwaiting⟩ := hempty
  have hcounted := hb.counted
  rw [hpassed, inHand] at hcounted
  cases hp : b.poller with
  | resolve i =>
    simp only [InRange, hp] at hrange
    have htaken := hb.taken i hp _ (List.getElem?_eq_getElem hrange)
    exact absurd (List.filterMap_eq_nil_iff.mp hwaiting _ (List.getElem_mem hrange)) htaken
  | scan i =>
    simp only [hp] at hcounted
    exact UInt64.toNat_inj.mp hcounted
  | finish i s =>
    simp only [hp] at hcounted
    exact UInt64.toNat_inj.mp hcounted

theorem installed_delivered (f : FaultHandler) : Delivered (installed f) ∧ InRange (installed f) := by
  have hnone : (List.replicate f.bufferSlots.toNat ({} : FaultSlot)).filterMap
      FaultSlot.waiting = [] := by
    rw [List.filterMap_eq_nil_iff]
    intro x hx
    rw [List.eq_of_mem_replicate hx]
  refine ⟨⟨?_, fun x hx a ha => ?_, rfl, nofun⟩, trivial⟩
  · simp [installed, hnone]
  · rw [List.eq_of_mem_replicate hx] at ha
    simp at ha

theorem faults_delivered (f : FaultHandler) (b : FaultBuffer)
    (hrun : GuardedRun Step Undisturbed (installed f) b) :
    Delivered b ∧ (b.posted = [] → b.totalFaults = 0) ∧
      (∀ c b', Step b c b' → (Delivered b' ↔ Undisturbed b c)) ∧
      ∀ j x a, b.slots[j]? = some x → x.waiting = some a → (∀ s, b.poller ≠ .finish j s) →
        ∃ b', Polls b b' ∧ b'.poller = .resolve j ∧ b'.slots[j]? = some x := by
  obtain ⟨hb, hrange⟩ := hrun.inv undisturbed_exact (installed_delivered f)
  have hexact := (hrun.good_iff undisturbed_exact (installed_delivered f)).2
  refine ⟨hb, fun hnone => ?_, hexact, fun j x a hx ha hnot => ?_⟩
  · exact hb.total_eq_zero hrange hnone
  · have hrecord := hb.intact x (List.mem_of_getElem? hx) a ha
    exact polls_to_pending hrange hx (by rw [hrecord]) hnot

def oneSlot : FaultHandler := { bufferSlots := 1 }

theorem faults_delivered_one : ∃ b, Delivered b ∧ b.posted = [4096] ∧ b.passed = [4096] ∧
    b.totalFaults = 1 := by
  let b₁ : FaultBuffer := { slots := [⟨⟨4096, 0⟩, none⟩], writing := [(0, 4096)] }
  let b₂ : FaultBuffer := { slots := [⟨⟨4096, 0⟩, some 4096⟩], posted := [4096] }
  let b₃ : FaultBuffer := { b₂ with poller := .resolve 0, totalFaults := 1 }
  let b₄ : FaultBuffer :=
    { b₃ with poller := .finish 0 .ok, slots := [⟨⟨4096, 0⟩, none⟩], passed := [4096] }
  have h₁ : GuardedRun Step Undisturbed (installed oneSlot) b₁ :=
    .single ⟨.writeAddr 0 4096, by decide, by decide⟩
  have h₂ : GuardedRun Step Undisturbed (installed oneSlot) b₂ :=
    h₁.tail ⟨.writeStatus 0 4096, by decide, by decide⟩
  have h₃ : GuardedRun Step Undisturbed (installed oneSlot) b₃ :=
    h₂.tail ⟨.poll .ok, by decide, by decide⟩
  have h₄ : GuardedRun Step Undisturbed (installed oneSlot) b₄ :=
    h₃.tail ⟨.poll .ok, by decide, by decide⟩
  exact ⟨b₄, (faults_delivered oneSlot b₄ h₄).1, rfl, rfl, rfl⟩

theorem faults_phantom : ¬ ∀ (f : FaultHandler) (b : FaultBuffer),
    Relation.ReflTransGen (fun b b' => ∃ c, Step b c b') (installed f) b →
      Delivered b ∧ (b.posted = [] → b.totalFaults = 0) := by
  intro hclaim
  let b : FaultBuffer := { slots := [{}], poller := .resolve 0, totalFaults := 1 }
  have hstep : Step (installed oneSlot) (.poll .ok) b := by decide
  have htotal := (hclaim oneSlot b (.single ⟨_, hstep⟩)).2 rfl
  exact absurd htotal (by decide)

end FaultBuffer

end NexusRT.Firmware

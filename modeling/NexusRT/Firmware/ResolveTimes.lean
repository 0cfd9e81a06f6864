import NexusRT.Firmware.FaultSlots
import NexusRT.Library.Mean

namespace NexusRT.Firmware

/-- `total_resolve_ns_` beside the slots and the other counters. `resolved` and `failed` are ghosts:
the durations in nanoseconds of the faults that were resolved and of those that were not. -/
structure FaultTimes where
  buffer : FaultBuffer
  totalResolveNs : UInt64 := 0
  resolved : List UInt64 := []
  failed : List UInt64 := []

namespace FaultTimes

def avgResolveUs (s : FaultTimes) : UInt64 :=
  let r := s.buffer.resolvedFaults
  if r = 0 then 0 else s.totalResolveNs / (r * 1000)

def account (s : FaultTimes) (answer : Status) (ns : UInt64) (buffer : FaultBuffer) : FaultTimes :=
  let s := if ok answer then { s with resolved := ns :: s.resolved }
    else { s with failed := ns :: s.failed }
  { s with buffer, totalResolveNs := s.totalResolveNs + ns }

inductive TimedStep (s : FaultTimes) (c : FaultAction) (ns : UInt64) : FaultTimes → Prop
  | finish (i : ℕ) (answer : Status) (hp : s.buffer.poller = .finish i answer)
      (hc : ∃ r, c = .poll r) (b' : FaultBuffer) (h : s.buffer.Step c b') :
      TimedStep s c ns (s.account answer ns b')
  | other (hnot : ∀ i answer r, s.buffer.poller = .finish i answer → c ≠ .poll r)
      (b' : FaultBuffer) (h : s.buffer.Step c b') : TimedStep s c ns { s with buffer := b' }

def TimedRun (s₀ s : FaultTimes) : Prop :=
  Relation.ReflTransGen (fun s s' => ∃ c ns, TimedStep s c ns s') s₀ s

def nanoseconds (l : List UInt64) : ℕ := (l.map UInt64.toNat).sum

structure InBounds (s : FaultTimes) : Prop where
  total : nanoseconds s.resolved + nanoseconds s.failed < 2 ^ 64
  units : s.resolved.length * 1000 < 2 ^ 64

structure Counted (s : FaultTimes) : Prop where
  resolved : s.buffer.resolvedFaults = UInt64.ofNat s.resolved.length
  total : s.totalResolveNs = UInt64.ofNat (nanoseconds s.resolved + nanoseconds s.failed)

end FaultTimes

namespace FaultBuffer

variable {b b' : FaultBuffer} {c : FaultAction}

theorem finish_resolved {i : ℕ} {answer r : Status} (hp : b.poller = .finish i answer)
    (h : Step b (.poll r) b') :
    b'.resolvedFaults = if ok answer then b.resolvedFaults + 1 else b.resolvedFaults := by
  rw [Step, step, poll] at h
  simp only [hp] at h
  obtain ⟨x, _, h⟩ := Option.map_eq_some_iff.mp h
  split at h
  · next hok =>
    rw [← h, if_pos hok]
  · next hfails =>
    rw [← h, if_neg hfails]

theorem other_resolved (hnot : ∀ i answer r, b.poller = .finish i answer → c ≠ .poll r)
    (h : Step b c b') : b'.resolvedFaults = b.resolvedFaults := by
  cases c with
  | writeAddr i a =>
    obtain ⟨x, _, rfl⟩ := Option.map_eq_some_iff.mp h
    rfl
  | writeStatus i a =>
    rw [Step, step] at h
    split at h
    · obtain ⟨x, _, rfl⟩ := Option.map_eq_some_iff.mp h
      rfl
    · cases h
  | poll r =>
    rw [Step, step, poll] at h
    split at h
    · next i _ =>
      split at h
      · cases h
        rfl
      · split at h
        · cases h
          rfl
        · cases h
          rfl
    · obtain ⟨x, _, rfl⟩ := Option.map_eq_some_iff.mp h
      rfl
    · next i answer hp => exact absurd rfl (hnot i answer r hp)

end FaultBuffer

namespace FaultTimes

variable {s s' : FaultTimes} {c : FaultAction} {ns : UInt64}

@[simp] theorem nanoseconds_cons (ns : UInt64) (l : List UInt64) :
    nanoseconds (ns :: l) = ns.toNat + nanoseconds l := by
  simp [nanoseconds]

theorem TimedStep.counted (h : TimedStep s c ns s') (hs : Counted s) : Counted s' := by
  cases h with
  | finish i answer hp hc b' h =>
    obtain ⟨r, rfl⟩ := hc
    have hresolved := FaultBuffer.finish_resolved hp h
    rw [hs.resolved] at hresolved
    have htotal : s.totalResolveNs + ns =
        UInt64.ofNat (nanoseconds s.resolved + nanoseconds s.failed + ns.toNat) := by
      rw [UInt64.ofNat_add, UInt64.ofNat_toNat, ← hs.total]
    unfold account
    cases hok : ok answer with
    | true =>
      rw [hok, if_pos rfl] at hresolved
      refine ⟨?_, ?_⟩
      · change b'.resolvedFaults = UInt64.ofNat (s.resolved.length + 1)
        rw [hresolved, UInt64.ofNat_add]
        rfl
      · change s.totalResolveNs + ns =
          UInt64.ofNat (nanoseconds (ns :: s.resolved) + nanoseconds s.failed)
        rw [htotal, nanoseconds_cons]
        congr 1
        omega
    | false =>
      rw [hok, if_neg Bool.false_ne_true] at hresolved
      refine ⟨hresolved, ?_⟩
      change s.totalResolveNs + ns =
        UInt64.ofNat (nanoseconds s.resolved + nanoseconds (ns :: s.failed))
      rw [htotal, nanoseconds_cons]
      congr 1
      omega
  | other hnot b' h => exact ⟨(FaultBuffer.other_resolved hnot h).trans hs.resolved, hs.total⟩

theorem TimedRun.counted (f : FaultHandler) (h : TimedRun { buffer := .installed f } s) :
    Counted s := by
  induction h with
  | refl => exact ⟨rfl, rfl⟩
  | tail _ h ih =>
    obtain ⟨c, ns, h⟩ := h
    exact h.counted ih

theorem toNat_avgResolveUs (hs : Counted s) (hb : InBounds s) (hne : s.resolved ≠ []) :
    s.avgResolveUs.toNat =
      (nanoseconds s.resolved + nanoseconds s.failed) / (s.resolved.length * 1000) := by
  have hlength := List.length_pos_of_ne_nil hne
  have hunits := hb.units
  have hlt : s.resolved.length < 2 ^ 64 := by omega
  have hr : s.buffer.resolvedFaults.toNat = s.resolved.length := by
    rw [hs.resolved]
    exact UInt64.toNat_ofNat_of_lt' hlt
  have hzero : s.buffer.resolvedFaults ≠ 0 := by
    intro hzero
    rw [hzero] at hr
    have : (0 : UInt64).toNat = 0 := rfl
    omega
  have hproduct : (s.buffer.resolvedFaults * 1000).toNat = s.resolved.length * 1000 := by
    rw [UInt64.toNat_mul, hr]
    exact Nat.mod_eq_of_lt hunits
  unfold avgResolveUs
  dsimp only
  rw [if_neg hzero, UInt64.toNat_div, hproduct, hs.total]
  rw [UInt64.toNat_ofNat_of_lt' hb.total]

theorem resolved_lt {largest : UInt64} (hlargest : largest ∈ s.resolved)
    (hge : ∀ d ∈ s.resolved, d ≤ largest) : nanoseconds s.resolved <
      (largest.toNat / 1000 + 1) * (s.resolved.length * 1000) := by
  have hmap : s.resolved.map UInt64.toNat ≠ [] := by simpa using List.ne_nil_of_mem hlargest
  have hmax : ∀ d ∈ s.resolved.map UInt64.toNat, d ≤ largest.toNat := by
    intro d hd
    obtain ⟨x, hx, rfl⟩ := List.mem_map.mp hd
    exact UInt64.le_iff_toNat_le.mp (hge x hx)
  have hlt := Mean.sum_lt (by decide : 0 < 1000) hmap hmax
  rwa [List.length_map] at hlt

theorem avgResolveUs_between (f : FaultHandler) (s : FaultTimes)
    (hrun : TimedRun { buffer := .installed f } s) (hb : InBounds s) (largest smallest : UInt64)
    (hlargest : largest ∈ s.resolved ∧ ∀ d ∈ s.resolved, d ≤ largest)
    (hsmallest : smallest ∈ s.resolved ∧ ∀ d ∈ s.resolved, smallest ≤ d) :
    ((s.avgResolveUs.toNat ≤ largest.toNat / 1000 ∧ smallest.toNat / 1000 ≤ s.avgResolveUs.toNat) ↔
      nanoseconds s.resolved + nanoseconds s.failed <
        (largest.toNat / 1000 + 1) * (s.resolved.length * 1000)) ∧
    (s.failed = [] → nanoseconds s.resolved + nanoseconds s.failed <
        (largest.toNat / 1000 + 1) * (s.resolved.length * 1000)) := by
  have hne : s.resolved ≠ [] := List.ne_nil_of_mem hlargest.1
  have hmap : s.resolved.map UInt64.toNat ≠ [] := by simpa using hne
  have hmin : ∀ d ∈ s.resolved.map UInt64.toNat, smallest.toNat ≤ d := by
    intro d hd
    obtain ⟨x, hx, rfl⟩ := List.mem_map.mp hd
    exact UInt64.le_iff_toNat_le.mp (hsmallest.2 x hx)
  have hlower := Mean.div_le (by decide : 0 < 1000) hmap hmin (nanoseconds s.failed)
  have hupper := Mean.le_div_iff (m := largest.toNat) (e := nanoseconds s.failed)
    (by decide : 0 < 1000) hmap
  rw [List.length_map] at hlower hupper
  constructor
  · rw [toNat_avgResolveUs (hrun.counted f) hb hne]
    exact (and_iff_left hlower).trans hupper
  · intro hnone
    rw [hnone]
    exact resolved_lt hlargest.1 hlargest.2

def firstResolved : FaultTimes where
  buffer := {
    slots := [{ record := ⟨0, 1⟩ }, {}]
    poller := .scan 1
    totalFaults := 1
    resolvedFaults := 1
    passed := [0] }
  totalResolveNs := 1000
  resolved := [1000]

def twoSlots : FaultHandler := { bufferSlots := 2 }

theorem run_firstResolved : TimedRun { buffer := .installed twoSlots } firstResolved := by
  let b₁ : FaultBuffer := { slots := [{}, {}], poller := .resolve 0, totalFaults := 1 }
  let b₂ : FaultBuffer := { b₁ with poller := .finish 0 .ok, passed := [0] }
  have h₁ : TimedStep { buffer := .installed twoSlots } (.poll .ok) 0 { buffer := b₁ } :=
    .other (by rintro i answer r ⟨⟩) b₁ (by decide)
  have h₂ : TimedStep { buffer := b₁ } (.poll .ok) 0 { buffer := b₂ } :=
    .other (by rintro i answer r ⟨⟩) b₂ (by decide)
  have h₃ : TimedStep { buffer := b₂ } (.poll .ok) 1000 firstResolved :=
    .finish 0 .ok rfl ⟨.ok, rfl⟩ firstResolved.buffer (by decide)
  exact ((Relation.ReflTransGen.single ⟨_, _, h₁⟩).tail ⟨_, _, h₂⟩).tail ⟨_, _, h₃⟩

theorem avgResolveUs_between_first :
    firstResolved.avgResolveUs.toNat ≤ 1 ∧ 1 ≤ firstResolved.avgResolveUs.toNat :=
  (avgResolveUs_between twoSlots firstResolved run_firstResolved ⟨by decide, by decide⟩ 1000 1000
    (by simp [firstResolved]) (by simp [firstResolved])).1.mpr (by decide)

def secondFailed : FaultTimes where
  buffer := {
    slots := [{ record := ⟨0, 1⟩ }, { record := ⟨0, 2⟩ }]
    poller := .scan 2
    totalFaults := 2
    resolvedFaults := 1
    failedFaults := 1
    passed := [0, 0] }
  totalResolveNs := 1000 + 9000
  resolved := [1000]
  failed := [9000]

theorem avgResolveUs_exceeds : ¬ ∀ (f : FaultHandler) (s : FaultTimes) (largest smallest : UInt64),
    TimedRun { buffer := .installed f } s → InBounds s →
      (largest ∈ s.resolved ∧ ∀ d ∈ s.resolved, d ≤ largest) →
        (smallest ∈ s.resolved ∧ ∀ d ∈ s.resolved, smallest ≤ d) →
          s.avgResolveUs.toNat ≤ largest.toNat / 1000 ∧
            smallest.toNat / 1000 ≤ s.avgResolveUs.toNat := by
  intro hall
  let b₁ : FaultBuffer := { firstResolved.buffer with poller := .resolve 1, totalFaults := 2 }
  let b₂ : FaultBuffer := { b₁ with poller := .finish 1 .ioError, passed := [0, 0] }
  have h₁ : TimedStep firstResolved (.poll .ok) 0 { firstResolved with buffer := b₁ } :=
    .other (by rintro i answer r ⟨⟩) b₁ (by decide)
  have h₂ : TimedStep { firstResolved with buffer := b₁ } (.poll .ioError) 0
      { firstResolved with buffer := b₂ } := .other (by rintro i answer r ⟨⟩) b₂ (by decide)
  have h₃ : TimedStep { firstResolved with buffer := b₂ } (.poll .ok) 9000 secondFailed :=
    .finish 1 .ioError rfl ⟨.ok, rfl⟩ secondFailed.buffer (by decide)
  have hrun : TimedRun { buffer := .installed twoSlots } secondFailed :=
    ((run_firstResolved.tail ⟨_, _, h₁⟩).tail ⟨_, _, h₂⟩).tail ⟨_, _, h₃⟩
  have havg : secondFailed.avgResolveUs = 10 := by decide
  have hbad := (hall twoSlots secondFailed 1000 1000 hrun ⟨by decide, by decide⟩
    (by simp [secondFailed]) (by simp [secondFailed])).1
  rw [havg] at hbad
  exact absurd hbad (by decide)

end FaultTimes

end NexusRT.Firmware

import NexusRT.Firmware.Shims
import NexusRT.Library.Trace

namespace NexusRT.Firmware

open Prog

/-- `priorityRange` answers with the least and the greatest priority. The class of a new stream is a
ghost: `create_stream` does not tell the driver. -/
inductive StreamCall
  | driver (c : DriverCall)
  | priorityRange
  | createWithPriority (klass : StreamClass) (priority : Int32)
  | platform (c : PlatformCall)

abbrev StreamCall.Answer : StreamCall → Type
  | .driver c => c.Answer
  | .priorityRange => Int32 × Int32
  | .createWithPriority _ _ => CuResult × Ptr
  | .platform c => c.Answer

abbrev StreamProg := Prog StreamCall StreamCall.Answer

def priorityRange : StreamProg (Int32 × Int32) := .op StreamCall.priorityRange

def createWithPriority (klass : StreamClass) (priority : Int32) : StreamProg (CuResult × Ptr) :=
  .op (StreamCall.createWithPriority klass priority)

namespace CudaPlatform

/-- The sum wraps around where C++ leaves it undefined. -/
def clampPriority (least greatest priority : Int32) : Int32 :=
  let prio := greatest + priority
  let prio := if prio < greatest then greatest else prio
  if prio > least then least else prio

def createStream (p : Option CudaState) (klass : StreamClass) (priority : Int32) :
    StreamProg ((Status × Ptr) × Option CudaState) := do
  let p ← (state p).translate StreamCall.driver (fun _ r => r)
  if p.isNone then return ((.invalidArgument, 0), p) else
  let (least, greatest) ← priorityRange
  let (r, stream) ← createWithPriority klass (clampPriority least greatest priority)
  if r ≠ .success then return ((cuToStatus r, 0), p) else
  return ((.ok, stream), p)

def serveStream : (c : PlatformCall) → Option CudaState → StreamProg (c.Answer × Option CudaState)
  | .createStream klass priority, p => createStream p klass priority
  | c, p => do
    let r ← .op (StreamCall.platform c)
    return (r, p)

end CudaPlatform

open CudaPlatform

def spawnOnCuda (p : Option CudaState) (m : MicroKernel) (nCompute nDma : UInt32) :
    StreamProg ((Status × MicroKernel) × Option CudaState) :=
  (m.spawnStreamPool nCompute nDma).interpWith serveStream p

/-- A driver whose range stays the same; any other call may fail. -/
def ReportsRange (least greatest : Int32) : (c : StreamCall) → c.Answer → Prop
  | .priorityRange, r => r = (least, greatest)
  | _, _ => True

abbrev StreamTrace := List (Event StreamCall StreamCall.Answer)

def created : Event StreamCall StreamCall.Answer → Option (StreamClass × Int32)
  | ⟨.createWithPriority klass priority, (r, _)⟩ => if r = .success then some (klass, priority) else none
  | _ => none

def streams (t : StreamTrace) : List (StreamClass × Int32) := t.filterMap created

/-- The ordering that the pool is meant to have: a smaller number is a higher priority. -/
structure Ordered (least greatest : Int32) (l : List (StreamClass × Int32)) : Prop where
  dma : greatest.toInt + 1 ≤ least.toInt →
    ∀ d c, (.dma, d) ∈ l → (.compute, c) ∈ l → d < c
  fence : greatest.toInt + 2 ≤ least.toInt →
    ∀ f c, (.fence, f) ∈ l → (.compute, c) ∈ l → c < f

variable {least greatest : Int32} {p p' : Option CudaState} {klass : StreamClass}
  {priority : Int32} {t u : StreamTrace}

@[simp] theorem streams_append : streams (t ++ u) = streams t ++ streams u :=
  List.filterMap_append

theorem clampPriority_zero (h : greatest ≤ least) : clampPriority least greatest 0 = greatest := by
  simp [clampPriority, h]

theorem le_clampPriority (h : greatest ≤ least) (priority : Int32) :
    greatest ≤ clampPriority least greatest priority := by
  have hlower : greatest ≤ if greatest + priority < greatest then greatest else greatest + priority := by
    split
    · exact Int32.le_refl greatest
    · next hle => exact Int32.not_lt.mp hle
  unfold clampPriority
  dsimp only
  generalize (if greatest + priority < greatest then greatest else greatest + priority) = prio at *
  split
  · exact h
  · exact hlower

theorem lt_clampPriority_one (h : greatest.toInt + 2 ≤ least.toInt) :
    greatest < clampPriority least greatest 1 := by
  have hadd : (greatest + 1).toInt = greatest.toInt + 1 := by
    rw [Int32.toInt_add]
    have := least.toInt_lt
    have := greatest.le_toInt
    apply Int.bmod_eq_of_le
    · change -2 ^ 31 ≤ greatest.toInt + 1
      omega
    · change greatest.toInt + 1 < 2 ^ 31
      omega
  have hlt : greatest < greatest + 1 := by
    rw [Int32.lt_iff_toInt_lt, hadd]
    omega
  have hle : ¬ greatest + 1 > least := by
    rw [gt_iff_lt, Int32.lt_iff_toInt_lt, hadd]
    omega
  have hnot : ¬ greatest + 1 < greatest := by
    rw [Int32.lt_iff_toInt_lt, hadd]
    omega
  unfold clampPriority
  dsimp only
  rw [if_neg hnot, if_neg hle]
  exact hlt

theorem state_streams {A : (c : StreamCall) → c.Answer → Prop}
    (h : Traces A ((state p).translate StreamCall.driver (fun _ r => r)) t p') : streams t = [] := by
  cases p with
  | some s =>
    obtain ⟨rfl, _⟩ := h
    rfl
  | none =>
    obtain ⟨⟨r, primary⟩, u, _, rfl, h⟩ := h
    change Traces A (Prog.translate _ _ (if r ≠ .success then pure none else _)) u p' at h
    split at h <;>
      · obtain ⟨rfl, _⟩ := h
        rfl

theorem createStream_streams {out : Status × Ptr}
    (h : Traces (ReportsRange least greatest) (createStream p klass priority) t (out, p')) :
    ∀ x ∈ streams t, x = (klass, clampPriority least greatest priority) := by
  unfold createStream at h
  rw [traces_bind] at h
  obtain ⟨t₁, t₂, p₁, rfl, hstate, h⟩ := h
  rw [streams_append, state_streams hstate, List.nil_append]
  split at h
  · obtain ⟨rfl, _⟩ := h
    simp [streams]
  · obtain ⟨_, u, rfl, rfl, ⟨r, stream⟩, v, _, rfl, h⟩ := h
    change Traces _ (if r ≠ .success then pure _ else pure _) v _ at h
    split at h
    · next hr =>
      obtain ⟨rfl, _⟩ := h
      simp [streams, created, hr]
    · next hr =>
      obtain ⟨rfl, _⟩ := h
      simp [streams, created, not_not.mp hr]

theorem spawnStreams_streams {n : ℕ} {m m' : MicroKernel} {s : Status}
    (h : Traces (ReportsRange least greatest)
      ((MicroKernel.spawnStreams klass priority n m).interpWith serveStream p) t ((s, m'), p')) :
    ∀ x ∈ streams t, x = (klass, clampPriority least greatest priority) ∧ n ≠ 0 := by
  induction n generalizing m p t with
  | zero =>
    obtain ⟨rfl, _⟩ := h
    simp [streams]
  | succ n ih =>
    rw [MicroKernel.spawnStreams, Platform.createStream, interpWith_bind, interpWith_op,
      traces_bind] at h
    obtain ⟨t₁, t₂, ⟨⟨s₁, raw⟩, p₁⟩, rfl, hcreate, h⟩ := h
    have hfirst := createStream_streams hcreate
    rw [streams_append]
    cases hs : ok s₁ with
    | false =>
      simp only [hs, Bool.not_false, ↓reduceIte] at h
      obtain ⟨rfl, _⟩ := h
      intro x hx
      exact ⟨hfirst x (by simpa [streams] using hx), by simp⟩
    | true =>
      simp only [hs, Bool.not_true, Bool.false_eq_true, ↓reduceIte] at h
      intro x hx
      rcases List.mem_append.mp hx with hx | hx
      · exact ⟨hfirst x hx, by simp⟩
      · exact ⟨(ih h x hx).1, by simp⟩

theorem spawnOnCuda_streams {m m' : MicroKernel} {nCompute nDma : UInt32} {s : Status}
    (h : Traces (ReportsRange least greatest) (spawnOnCuda p m nCompute nDma) t ((s, m'), p')) :
    ∀ x ∈ streams t, (x = (.compute, clampPriority least greatest 0) ∧ nCompute.toNat ≠ 0) ∨
      (x = (.dma, clampPriority least greatest (-1)) ∧ nDma.toNat ≠ 0) ∨
        x = (.fence, clampPriority least greatest 1) := by
  rw [spawnOnCuda, MicroKernel.spawnStreamPool, interpWith_bind, traces_bind] at h
  obtain ⟨t₁, t₂, ⟨⟨s₁, m₁⟩, p₁⟩, rfl, hcompute, h⟩ := h
  have hcompute := spawnStreams_streams hcompute
  rw [streams_append]
  intro x hx
  rcases List.mem_append.mp hx with hx | hx
  · exact .inl (hcompute x hx)
  cases hs : ok s₁ with
  | false =>
    simp only [hs, Bool.not_false, ↓reduceIte] at h
    obtain ⟨rfl, _⟩ := h
    simp [streams] at hx
  | true =>
    simp only [hs, Bool.not_true, Bool.false_eq_true, ↓reduceIte, interpWith_bind, traces_bind] at h
    obtain ⟨t₂, t₃, ⟨⟨s₂, m₂⟩, p₂⟩, rfl, hdma, h⟩ := h
    have hdma := spawnStreams_streams hdma
    rw [streams_append] at hx
    rcases List.mem_append.mp hx with hx | hx
    · exact .inr (.inl (hdma x hx))
    cases hs : ok s₂ with
    | false =>
      simp only [hs, Bool.not_false, ↓reduceIte] at h
      obtain ⟨rfl, _⟩ := h
      simp [streams] at hx
    | true =>
      simp only [hs, Bool.not_true, Bool.false_eq_true, ↓reduceIte] at h
      split at h
      · exact .inr (.inr (spawnStreams_streams h x hx).1)
      · obtain ⟨rfl, _⟩ := h
        simp [streams] at hx

section Succeeding

theorem createStream_succeeds (least greatest : Int32) (p : Option CudaState) (klass : StreamClass)
    (priority : Int32) : ∃ t p', Traces (ReportsRange least greatest)
      (createStream p klass priority) t ((.ok, 7), p') ∧
        streams t = [(klass, clampPriority least greatest priority)] := by
  cases p with
  | some s =>
    refine ⟨_, some s, ⟨(least, greatest), _, rfl, rfl, (.success, 7), _, trivial, rfl, rfl, rfl⟩, rfl⟩
  | none =>
    refine ⟨_, some { primary := 5 }, ⟨(.success, 5), _, trivial, rfl, (least, greatest), _, rfl, rfl,
      (.success, 7), _, trivial, rfl, rfl, rfl⟩, rfl⟩

theorem spawnStreams_succeeds (least greatest : Int32) (p : Option CudaState) (klass : StreamClass)
    (priority : Int32) (n : ℕ) (m : MicroKernel) : ∃ t m' p', Traces (ReportsRange least greatest)
      ((MicroKernel.spawnStreams klass priority n m).interpWith serveStream p) t ((.ok, m'), p') ∧
        streams t = List.replicate n (klass, clampPriority least greatest priority) := by
  induction n generalizing m p with
  | zero => exact ⟨[], m, p, ⟨rfl, rfl⟩, rfl⟩
  | succ n ih =>
    obtain ⟨t₁, p₁, hcreate, hfirst⟩ := createStream_succeeds least greatest p klass priority
    obtain ⟨t₂, m', p', hrest, hmore⟩ := ih p₁
      ({ m with nextId := m.nextId + 1 }.pushBack { id := m.nextId, raw := 7, klass })
    refine ⟨t₁ ++ t₂, m', p', ?_, ?_⟩
    · rw [MicroKernel.spawnStreams, Platform.createStream, interpWith_bind, interpWith_op,
        traces_bind]
      exact ⟨t₁, t₂, _, rfl, hcreate, hrest⟩
    · rw [streams_append, hfirst, hmore, List.replicate_succ]
      rfl

theorem spawnOnCuda_succeeds (least greatest : Int32) (p : Option CudaState) (m : MicroKernel)
    (nCompute nDma : UInt32) : ∃ t r, Traces (ReportsRange least greatest)
      (spawnOnCuda p m nCompute nDma) t r ∧
        List.replicate nCompute.toNat (.compute, clampPriority least greatest 0) ++
          List.replicate nDma.toNat (.dma, clampPriority least greatest (-1)) <+: streams t := by
  obtain ⟨t₁, m₁, p₁, hcompute, hstreams₁⟩ :=
    spawnStreams_succeeds least greatest p .compute 0 nCompute.toNat m
  obtain ⟨t₂, m₂, p₂, hdma, hstreams₂⟩ :=
    spawnStreams_succeeds least greatest p₁ .dma (-1) nDma.toNat m₁
  have hrest : ∃ t₃ r, Traces (ReportsRange least greatest)
      ((if m₂.arch = .hopper ∨ m₂.arch = .ampere ∨ m₂.arch = .pascal ∨ m₂.arch = .turing then
        MicroKernel.spawnStreams .fence 1 1 m₂ else .ret (.ok, m₂)).interpWith serveStream p₂) t₃ r := by
    split
    · obtain ⟨t₃, m₃, p₃, hfence, _⟩ := spawnStreams_succeeds least greatest p₂ .fence 1 1 m₂
      exact ⟨t₃, _, hfence⟩
    · exact ⟨[], _, rfl, rfl⟩
  obtain ⟨t₃, r, hrest⟩ := hrest
  refine ⟨t₁ ++ (t₂ ++ t₃), r, ?_, ?_⟩
  · rw [spawnOnCuda, MicroKernel.spawnStreamPool, interpWith_bind, traces_bind]
    refine ⟨t₁, _, _, rfl, hcompute, ?_⟩
    dsimp only
    rw [if_neg (by simp), interpWith_bind, traces_bind]
    exact ⟨t₂, t₃, _, rfl, hdma, hrest⟩
  · rw [streams_append, streams_append, hstreams₁, hstreams₂, ← List.append_assoc]
    exact List.prefix_append _ _

end Succeeding

theorem spawnOnCuda_ordered (least greatest : Int32) (hlevels : greatest.toInt + 1 ≤ least.toInt)
    (p : Option CudaState) (m : MicroKernel) (nCompute nDma : UInt32) :
    (∀ t r, Traces (ReportsRange least greatest) (spawnOnCuda p m nCompute nDma) t r →
        Ordered least greatest (streams t)) ↔
      nCompute = 0 ∨ nDma = 0 := by
  have hrange : greatest ≤ least := by
    rw [Int32.le_iff_toInt_le]
    omega
  constructor
  · intro hall
    by_contra hnone
    rw [not_or] at hnone
    obtain ⟨t, r, htraces, hcreated⟩ := spawnOnCuda_succeeds least greatest p m nCompute nDma
    have hcompute : nCompute.toNat ≠ 0 := fun hzero => hnone.1 (UInt32.toNat_inj.mp hzero)
    have hdma : nDma.toNat ≠ 0 := fun hzero => hnone.2 (UInt32.toNat_inj.mp hzero)
    -- one above the greatest priority is clamped to the greatest, which Compute has already
    have hlt := (hall t r htraces).dma hlevels (clampPriority least greatest (-1))
      (clampPriority least greatest 0)
      (hcreated.subset (by simp [hdma])) (hcreated.subset (by simp [hcompute]))
    rw [clampPriority_zero hrange] at hlt
    exact absurd hlt (Int32.not_lt.mpr (le_clampPriority hrange (-1)))
  · rintro hnone t ⟨⟨s, m'⟩, p'⟩ htraces
    have hstreams := spawnOnCuda_streams htraces
    constructor
    · intro _ d c hd hc
      exfalso
      have hdma : d = clampPriority least greatest (-1) ∧ nDma.toNat ≠ 0 := by
        simpa using hstreams _ hd
      have hcompute : c = clampPriority least greatest 0 ∧ nCompute.toNat ≠ 0 := by
        simpa using hstreams _ hc
      rcases hnone with rfl | rfl
      · exact hcompute.2 rfl
      · exact hdma.2 rfl
    · intro hthree f c hf hc
      have hfence : f = clampPriority least greatest 1 := by simpa using hstreams _ hf
      have hcompute : c = clampPriority least greatest 0 ∧ nCompute.toNat ≠ 0 := by
        simpa using hstreams _ hc
      rw [hfence, hcompute.1, clampPriority_zero hrange]
      exact lt_clampPriority_one hthree

theorem spawnOnCuda_ordered_six : ∃ t r,
    Traces (ReportsRange 0 (-5)) (spawnOnCuda none { arch := .hopper } 8 0) t r ∧
      Ordered 0 (-5) (streams t) := by
  obtain ⟨t, r, ht, _⟩ := spawnOnCuda_succeeds 0 (-5) none { arch := .hopper } 8 0
  exact ⟨t, r, ht,
    (spawnOnCuda_ordered 0 (-5) (by decide) none { arch := .hopper } 8 0).mpr (.inr rfl) t r ht⟩

theorem dma_not_higher : ¬ ∀ (least greatest : Int32) (p : Option CudaState) (m : MicroKernel)
    (nCompute nDma : UInt32) (t : StreamTrace) (r : (Status × MicroKernel) × Option CudaState),
    greatest.toInt + 1 ≤ least.toInt →
      Traces (ReportsRange least greatest) (spawnOnCuda p m nCompute nDma) t r →
        Ordered least greatest (streams t) := by
  intro hall
  obtain ⟨t, r, ht, hcreated⟩ := spawnOnCuda_succeeds 0 (-5) none { arch := .hopper } 8 4
  have hlt := (hall 0 (-5) none { arch := .hopper } 8 4 t r (by decide) ht).dma (by decide) (-5) (-5)
    (hcreated.subset (by decide)) (hcreated.subset (by decide))
  exact Int32.lt_irrefl hlt

end NexusRT.Firmware

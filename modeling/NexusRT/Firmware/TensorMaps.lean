import NexusRT.Firmware.TmaEngine
import NexusRT.Library.Guarded

namespace NexusRT.Firmware

open Prog

structure EncodeArgs where
  hostTensorBase : Ptr
  elemSize : UInt32
  shape : Vector UInt64 5
  stride : Vector UInt64 5
  swizzle : TmaSwizzle
  multicast : Bool
  clusterSize : UInt32
  deriving DecidableEq

def TmaDescriptor.args (d : TmaDescriptor) : EncodeArgs :=
  ⟨d.hostPtr, d.elemSize, d.shape, d.stride, d.swizzle, d.multicast, d.clusterSize⟩

def TmaEngine.encodeWith (e : TmaEngine) (key : String) (a : EncodeArgs) :
    TmaProg ((Status × Option TmaDescriptor) × TmaEngine) :=
  e.encode key a.hostTensorBase a.elemSize a.shape a.stride a.swizzle a.multicast a.clusterSize

/-- `encoded` is a ghost: whether every `encode` so far that returned Ok gave what it was asked
for. -/
structure TmaState where
  engine : TmaEngine
  maps : Ptr → Option TensorMap
  encoded : Prop := True

def MadeFor (d : TmaDescriptor) (m : TensorMap) : Prop :=
  m.call = CudaPlatform.encodeArgs d ∧ m.result = .success

theorem dataType_eq_iff (a b : UInt32) :
    (if a = 2 then TensorMapDataType.bfloat16 else if a = 4 then .float32 else .uint16) =
        (if b = 2 then .bfloat16 else if b = 4 then .float32 else .uint16) ↔
      a = b ∨ (a ≠ 2 ∧ a ≠ 4 ∧ b ≠ 2 ∧ b ≠ 4) := by
  by_cases ha : a = 2
  · subst ha
    by_cases hb : b = 2 <;> by_cases hb' : b = 4 <;> simp [hb, hb', eq_comm]
  · by_cases ha' : a = 4
    · subst ha'
      by_cases hb : b = 2 <;> by_cases hb' : b = 4 <;> simp [hb, hb', eq_comm]
    · by_cases hb : b = 2 <;> by_cases hb' : b = 4 <;> simp [ha, ha', hb, hb']

theorem MadeFor.iff {d : TmaDescriptor} {m : TensorMap} (h : MadeFor d m) (d' : TmaDescriptor) :
    MadeFor d' m ↔ d'.hostPtr = d.hostPtr ∧ d'.shape = d.shape ∧ d'.stride = d.stride ∧
      d'.swizzle = d.swizzle ∧ (d'.elemSize = d.elemSize ∨
        (d'.elemSize ≠ 2 ∧ d'.elemSize ≠ 4 ∧ d.elemSize ≠ 2 ∧ d.elemSize ≠ 4)) := by
  rw [MadeFor, h.1, ← dataType_eq_iff]
  simp only [h.2, and_true, CudaPlatform.encodeArgs, EncodeTiled.mk.injEq, true_and]
  tauto

theorem MadeFor.rank {d : TmaDescriptor} {m : TensorMap} (h : MadeFor d m) : m.call.rank = 2 := by
  rw [h.1]
  rfl

def Encoded (maps : Ptr → Option TensorMap) (a : EncodeArgs) (out : TmaDescriptor) : Prop :=
  out.args = a ∧ ∃ m, maps out.raw = some m ∧ MadeFor out m

/-- `verdict` is what the driver would answer during the call. -/
inductive TmaStepCall
  | encode (key : String) (a : EncodeArgs) (verdict : CuResult)
  | lookup (key : String)
  | invalidate (key : String)

inductive TmaStep (hopper : Bool) (s : TmaState) : TmaStepCall → TmaState → Prop
  | encode (key : String) (a : EncodeArgs) (verdict : CuResult) (status : Status)
      (out : Option TmaDescriptor) (e' : TmaEngine) (maps' : Ptr → Option TensorMap)
      (h : Exec (TensorMap.Serves verdict)
        ((s.engine.encodeWith key a).interp (CudaPlatform.tma hopper)) s.maps
        ((status, out), e') maps') :
      TmaStep hopper s (.encode key a verdict)
        { engine := e'
          maps := maps'
          encoded := s.encoded ∧ (status = .ok → ∃ d, out = some d ∧ Encoded maps' a d) }
  | lookup (key : String) : TmaStep hopper s (.lookup key) s
  | invalidate (key : String) (verdict : CuResult) (e' : TmaEngine)
      (maps' : Ptr → Option TensorMap)
      (h : Exec (TensorMap.Serves verdict)
        ((s.engine.invalidate key).interp (CudaPlatform.tma hopper)) s.maps e' maps') :
      TmaStep hopper s (.invalidate key) { s with engine := e', maps := maps' }

def SameTensor (hopper : Bool) (s : TmaState) : TmaStepCall → Prop
  | .encode key a verdict => match s.engine.cache.find key with
    | some d => d.args = a
    | none => hopper = true → verdict = .success
  | _ => True

structure CacheInv (e : TmaEngine) (maps : Ptr → Option TensorMap) : Prop where
  made : ∀ key d, e.cache.find key = some d → ∃ m, maps d.raw = some m ∧ MadeFor d m
  apart : ∀ key key' d d', e.cache.find key = some d → e.cache.find key' = some d' →
    d.raw = d'.raw → key = key'

def TmaInv (s : TmaState) : Prop := s.encoded ∧ CacheInv s.engine s.maps

section Backend

variable {hopper : Bool} {verdict : CuResult} {maps maps' : Ptr → Option TensorMap}

theorem tmaEncode_exec {d : TmaDescriptor} {s : Status} {raw : Ptr}
    (h : Exec (TensorMap.Serves verdict) (CudaPlatform.tma hopper (.tmaEncode d)) maps (s, raw)
      maps') :
    (hopper = false ∧ s = .notImplemented ∧ maps' = maps) ∨
      (hopper = true ∧ s = .ok ∧ maps raw = none ∧
        maps' = fun q => if q = raw then some ⟨CudaPlatform.encodeArgs d, verdict⟩ else maps q) := by
  cases hopper with
  | false =>
    obtain ⟨hret, rfl⟩ := h
    obtain ⟨rfl, rfl⟩ := Prod.mk.inj hret
    exact .inl ⟨rfl, rfl, rfl⟩
  | true =>
    obtain ⟨_, _, ⟨rfl, rfl⟩, p, _, ⟨_, hfresh, rfl⟩, hret, rfl⟩ := h
    obtain ⟨rfl, rfl⟩ := Prod.mk.inj hret
    exact .inr ⟨rfl, rfl, hfresh, rfl⟩

theorem tmaRelease_exec {p : Ptr} {s : Status} (hp : p ≠ 0)
    (h : Exec (TensorMap.Serves verdict) (CudaPlatform.tma hopper (.tmaRelease p)) maps s maps') :
    maps' = fun q => if q = p then none else maps q := by
  simp only [CudaPlatform.tma, CudaPlatform.tmaRelease, hp, ↓reduceIte] at h
  obtain ⟨_, _, rfl, _, rfl⟩ := h
  rfl

variable {e e' : TmaEngine} {key : String}

theorem encode_exec {a : EncodeArgs} {status : Status} {out : Option TmaDescriptor}
    (h : Exec (TensorMap.Serves verdict)
      ((e.encodeWith key a).interp (CudaPlatform.tma hopper)) maps ((status, out), e') maps') :
    (∃ d, e.cache.find key = some d ∧ status = .ok ∧ out = some d ∧ e' = e ∧ maps' = maps) ∨
      (e.cache.find key = none ∧ hopper = false ∧ status ≠ .ok ∧ e'.cache = e.cache ∧
        maps' = maps) ∨
      ∃ d, e.cache.find key = none ∧ hopper = true ∧ status = .ok ∧ out = some d ∧ d.args = a ∧
        e'.cache = e.cache.insert key d ∧ maps d.raw = none ∧
        maps' = fun q => if q = d.raw then some ⟨CudaPlatform.encodeArgs d, verdict⟩ else maps q := by
  rw [exec_interp, TmaEngine.encodeWith, TmaEngine.encode] at h
  split at h
  · next d hhit =>
    obtain ⟨hret, rfl⟩ := h
    obtain ⟨hout, rfl⟩ := Prod.mk.inj hret
    obtain ⟨rfl, rfl⟩ := Prod.mk.inj hout
    exact .inl ⟨d, hhit, rfl, rfl, rfl, rfl⟩
  · next hmiss =>
    obtain ⟨⟨s, raw⟩, _, hcall, h⟩ := h
    rcases tmaEncode_exec hcall with ⟨hoff, rfl, rfl⟩ | ⟨hon, rfl, hfresh, rfl⟩
    · obtain ⟨hret, rfl⟩ := h
      obtain ⟨hout, rfl⟩ := Prod.mk.inj hret
      obtain ⟨rfl, rfl⟩ := Prod.mk.inj hout
      exact .inr (.inl ⟨hmiss, hoff, by decide, rfl, rfl⟩)
    · obtain ⟨hret, rfl⟩ := h
      obtain ⟨hout, rfl⟩ := Prod.mk.inj hret
      obtain ⟨rfl, rfl⟩ := Prod.mk.inj hout
      exact .inr (.inr ⟨_, hmiss, hon, rfl, rfl, rfl, rfl, hfresh, rfl⟩)

theorem invalidate_exec
    (h : Exec (TensorMap.Serves verdict)
      ((e.invalidate key).interp (CudaPlatform.tma hopper)) maps e' maps') :
    (e.cache.find key = none ∧ e' = e ∧ maps' = maps) ∨
      ∃ d, e.cache.find key = some d ∧ e'.cache = e.cache.erase key ∧
        ∀ q, q ≠ d.raw → maps' q = maps q := by
  rw [exec_interp, TmaEngine.invalidate] at h
  split at h
  · next hmiss =>
    obtain ⟨rfl, rfl⟩ := h
    exact .inl ⟨hmiss, rfl, rfl⟩
  · next d hhit =>
    refine .inr ⟨d, hhit, ?_⟩
    by_cases hraw : d.raw = 0
    · simp only [hraw, ne_eq, not_true_eq_false, ↓reduceIte] at h
      obtain ⟨rfl, rfl⟩ := h
      exact ⟨rfl, fun _ _ => rfl⟩
    · simp only [hraw, ne_eq, not_false_eq_true, ↓reduceIte] at h
      obtain ⟨s, _, hcall, rfl, rfl⟩ := h
      refine ⟨rfl, fun q hq => ?_⟩
      rw [tmaRelease_exec hraw hcall]
      exact if_neg hq

end Backend

section Cache

variable {e e' : TmaEngine} {maps maps' : Ptr → Option TensorMap}

theorem CacheInv.congr (h : CacheInv e maps) (hcache : e'.cache = e.cache) : CacheInv e' maps := by
  constructor
  · rw [hcache]
    exact h.made
  · rw [hcache]
    exact h.apart

theorem CacheInv.insert (h : CacheInv e maps) {key : String} {d : TmaDescriptor} {m : TensorMap}
    (hcache : e'.cache = e.cache.insert key d) (hfresh : maps d.raw = none) (hm : MadeFor d m) :
    CacheInv e' (fun q => if q = d.raw then some m else maps q) := by
  have hother : ∀ key' d', e.cache.find key' = some d' → d'.raw ≠ d.raw := by
    intro key' d' hd' heq
    obtain ⟨m', hm', _⟩ := h.made key' d' hd'
    rw [heq, hfresh] at hm'
    cases hm'
  constructor
  · intro key' d' hd'
    rw [hcache, Table.find_insert] at hd'
    split at hd'
    · obtain rfl := Option.some.inj hd'
      exact ⟨m, if_pos rfl, hm⟩
    · rw [if_neg (hother key' d' hd')]
      exact h.made key' d' hd'
  · intro key₁ key₂ d₁ d₂ hd₁ hd₂ hraw
    rw [hcache, Table.find_insert] at hd₁ hd₂
    split at hd₁
    · split at hd₂
      · simp_all
      · obtain rfl := Option.some.inj hd₁
        exact absurd hraw.symm (hother key₂ d₂ hd₂)
    · split at hd₂
      · obtain rfl := Option.some.inj hd₂
        exact absurd hraw (hother key₁ d₁ hd₁)
      · exact h.apart key₁ key₂ d₁ d₂ hd₁ hd₂ hraw

theorem CacheInv.erase (h : CacheInv e maps) {key : String} {d : TmaDescriptor}
    (hd : e.cache.find key = some d) (hcache : e'.cache = e.cache.erase key)
    (hmaps : ∀ q, q ≠ d.raw → maps' q = maps q) : CacheInv e' maps' := by
  constructor
  · intro key' d' hd'
    rw [hcache] at hd'
    have hd'' := Table.find_of_find_erase hd'
    have hne : d'.raw ≠ d.raw := by
      intro hraw
      obtain rfl := h.apart key' key d' d hd'' hd hraw
      simp at hd'
    rw [hmaps _ hne]
    exact h.made key' d' hd''
  · intro key₁ key₂ d₁ d₂ hd₁ hd₂ hraw
    rw [hcache] at hd₁ hd₂
    exact h.apart key₁ key₂ d₁ d₂ (Table.find_of_find_erase hd₁) (Table.find_of_find_erase hd₂) hraw

end Cache

theorem tmaInv_step {hopper : Bool} {s : TmaState} {c : TmaStepCall} {s' : TmaState} (hi : TmaInv s)
    (h : TmaStep hopper s c s') :
    (s'.encoded ↔ SameTensor hopper s c) ∧ (SameTensor hopper s c → CacheInv s'.engine s'.maps) := by
  obtain ⟨hencoded, hcache⟩ := hi
  cases h with
  | lookup => exact ⟨iff_of_true hencoded trivial, fun _ => hcache⟩
  | invalidate key verdict e' maps' h =>
    refine ⟨iff_of_true hencoded trivial, fun _ => ?_⟩
    rcases invalidate_exec h with ⟨_, rfl, rfl⟩ | ⟨d, hd, hcache', hmaps⟩
    · exact hcache
    · exact hcache.erase hd hcache' hmaps
  | encode key a verdict status out e' maps' h =>
    rcases encode_exec h with ⟨d, hhit, rfl, rfl, rfl, rfl⟩ | ⟨hmiss, hoff, hfails, hcache', rfl⟩ |
      ⟨d, hmiss, hon, rfl, rfl, hargs, hcache', hfresh, rfl⟩
    · have hsame : SameTensor hopper s (.encode key a verdict) ↔ d.args = a := by
        simp only [SameTensor, hhit]
      rw [hsame]
      refine ⟨⟨?_, fun h => ⟨hencoded, fun _ => ⟨d, rfl, h, hcache.made key d hhit⟩⟩⟩, fun _ => hcache⟩
      rintro ⟨_, hgood⟩
      obtain ⟨d', hd', hargs, _⟩ := hgood rfl
      obtain rfl := Option.some.inj hd'
      exact hargs
    · have hsame : SameTensor hopper s (.encode key a verdict) := by
        simp only [SameTensor, hmiss]
        intro hon
        cases hoff.symm.trans hon
      exact ⟨iff_of_true ⟨hencoded, fun hok => absurd hok hfails⟩ hsame, fun _ => hcache.congr hcache'⟩
    · have hsame : SameTensor hopper s (.encode key a verdict) ↔ verdict = .success := by
        simp only [SameTensor, hmiss, hon, forall_const]
      have hmade (h : verdict = .success) : MadeFor d ⟨CudaPlatform.encodeArgs d, verdict⟩ := ⟨rfl, h⟩
      rw [hsame]
      refine ⟨⟨?_, fun h => ⟨hencoded, fun _ => ⟨d, rfl, hargs, _, if_pos rfl, hmade h⟩⟩⟩,
        fun h => hcache.insert hcache' hfresh (hmade h)⟩
      rintro ⟨_, hgood⟩
      obtain ⟨d', hd', _, m, hm, _, hresult⟩ := hgood rfl
      obtain rfl := Option.some.inj hd'
      obtain rfl := Option.some.inj ((if_pos rfl).symm.trans hm)
      exact hresult

theorem sameTensor_exact (hopper : Bool) :
    ExactGuard (TmaStep hopper) (SameTensor hopper) TmaInv TmaState.encoded := by
  apply ExactGuard.of_iff fun _ hi => hi.1
  intro s c s' hi h
  obtain ⟨hiff, hcache⟩ := tmaInv_step hi h
  exact ⟨hiff, fun hmeets => ⟨hiff.mpr hmeets, hcache hmeets⟩⟩

theorem tmaInv_new (maps : Ptr → Option TensorMap) : TmaInv { engine := {}, maps } := by
  refine ⟨trivial, ?_, ?_⟩
  · intro key d hd
    cases hd
  · intro key key' d d' hd
    cases hd

theorem encoded_run (hopper : Bool) (maps : Ptr → Option TensorMap) (s : TmaState)
    (hrun : GuardedRun (TmaStep hopper) (SameTensor hopper) { engine := {}, maps } s) :
    s.encoded ∧ ∀ c s', TmaStep hopper s c s' → (s'.encoded ↔ SameTensor hopper s c) :=
  hrun.good_iff (sameTensor_exact hopper) (tmaInv_new maps)

def weights (base : Ptr) : EncodeArgs where
  hostTensorBase := base
  elemSize := 2
  shape := #v[4096, 4096, 0, 0, 0]
  stride := #v[8192, 0, 0, 0, 0]
  swizzle := .b128
  multicast := false
  clusterSize := 1

def emptyHeap : TmaState where
  engine := {}
  maps _ := none

theorem encode_names : ∃ s, TmaStep true emptyHeap (.encode "w" (weights 0x10000) .success) s ∧
    ∃ d, s.engine.cache.find "w" = some d ∧ d.args = weights 0x10000 := by
  have hexec : ∃ out e' maps', Exec (TensorMap.Serves .success)
      ((emptyHeap.engine.encodeWith "w" (weights 0x10000)).interp (CudaPlatform.tma true))
      emptyHeap.maps ((.ok, out), e') maps' ∧
        ∃ d, e'.cache.find "w" = some d ∧ d.args = weights 0x10000 :=
    ⟨_, _, _, ⟨.success, _, ⟨rfl, rfl⟩, 0x40, _, ⟨by decide, rfl, rfl⟩, rfl, rfl⟩, _, rfl, rfl⟩
  obtain ⟨out, e', maps', hexec, hd⟩ := hexec
  exact ⟨_, .encode _ _ _ _ out e' maps' hexec, hd⟩

theorem encode_hits {hopper : Bool} {s : TmaState} {key : String} {d : TmaDescriptor}
    (hhit : s.engine.cache.find key = some d) (a : EncodeArgs) (verdict : CuResult) :
    ∃ s', TmaStep hopper s (.encode key a verdict) s' := by
  refine ⟨_, .encode key a verdict .ok (some d) s.engine s.maps ?_⟩
  rw [TmaEngine.encodeWith, TmaEngine.encode, hhit]
  exact ⟨rfl, rfl⟩

theorem name_reused : ∃ s s', GuardedRun (TmaStep true) (SameTensor true) emptyHeap s ∧
    TmaStep true s (.encode "w" (weights 0x20000) .success) s' ∧
      ¬ SameTensor true s (.encode "w" (weights 0x20000) .success) := by
  obtain ⟨s, hstep, d, hd, hargs⟩ := encode_names
  obtain ⟨s', hs'⟩ := encode_hits hd (weights 0x20000) .success
  refine ⟨s, s', Relation.ReflTransGen.single ⟨_, hstep, fun _ => rfl⟩, hs', ?_⟩
  simp only [SameTensor, hd, hargs]
  decide

theorem encoded_run_reused : ∃ s s', s.encoded ∧
    TmaStep true s (.encode "w" (weights 0x20000) .success) s' ∧ ¬ s'.encoded := by
  obtain ⟨s, s', hrun, hstep, hnot⟩ := name_reused
  obtain ⟨hencoded, hexact⟩ := encoded_run true _ s hrun
  exact ⟨s, s', hencoded, hstep, fun hgood => hnot ((hexact _ _ hstep).mp hgood)⟩

theorem not_encoded : ¬ ∀ (hopper : Bool) (maps : Ptr → Option TensorMap) (s : TmaState),
    Relation.ReflTransGen (fun s s' => ∃ c, TmaStep hopper s c s') { engine := {}, maps } s →
      s.encoded := by
  intro hall
  obtain ⟨s, s', hrun, hstep, hnot⟩ := name_reused
  obtain ⟨hreach, hbad⟩ := hrun.not_good (sameTensor_exact true) (tmaInv_new _) hstep hnot
  exact hbad (hall true _ s' hreach)

end NexusRT.Firmware

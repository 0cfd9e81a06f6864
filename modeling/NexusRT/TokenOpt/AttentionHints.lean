import Mathlib.Algebra.Ring.Nat
import Mathlib.Data.List.GetD
import NexusRT.Library.Trace
import NexusRT.Library.Words
import NexusRT.TokenOpt.Scope

namespace NexusRT.TokenOpt

open Firmware Prog

abbrev ScopeTrace := List (Event ScopeCall ScopeCall.Answer)

def ScopeCall.hint : ScopeCall → List (UInt64 × UInt64)
  | .topk _ => []
  | .fetch c => [c.range]

def ScopeCall.read : ScopeCall → List ℕ
  | .topk i => [i]
  | .fetch _ => []

def hints (t : ScopeTrace) : List (UInt64 × UInt64) := (calls t).flatMap ScopeCall.hint

def reads (t : ScopeTrace) : List ℕ := (calls t).flatMap ScopeCall.read

/-- The entries of `arr` are read; what a read past its end finds is open, and so are the answers of
the backend. -/
def Holding (arr : List UInt32) : (c : ScopeCall) → c.Answer → Prop
  | .topk i, r => ∀ x, arr[i]? = some x → r = x
  | .fetch _, _ => True

namespace ContextScope

variable (s : ContextScope) (i : UInt32)

def slot : UInt64 × UInt64 := (s.kvHbm + i.toUInt64 * 4096, 4096)

def hintsFor : List (UInt64 × UInt64) := if s.kvBytes ≤ i.toUInt64 * 4096 then [] else [s.slot i]

variable {s} {arr : List UInt32} {t : ScopeTrace}

theorem prefetchSlot_calls {A : (c : ScopeCall) → c.Answer → Prop} {n : ℕ} {u : Unit}
    (h : Traces A (s.prefetchSlot n) t u) :
    ∃ x, A (.topk n) x ∧ reads t = [n] ∧ hints t = s.hintsFor x := by
  rw [prefetchSlot, Scope.topk, traces_op_bind] at h
  obtain ⟨x, _, hx, rfl, h⟩ := h
  refine ⟨x, hx, ?_⟩
  dsimp only at h
  unfold hintsFor
  split at h
  · next hout =>
    obtain ⟨rfl, _⟩ := h
    rw [if_pos hout]
    exact ⟨rfl, rfl⟩
  · next hin =>
    obtain ⟨_, _, _, rfl, rfl, _⟩ := h
    rw [if_neg hin]
    exact ⟨rfl, rfl⟩

theorem prefetchAttention_calls {A : (c : ScopeCall) → c.Answer → Prop} {k : UInt32} {st : Status}
    (h : Traces A (s.prefetchAttention k) t st) :
    (s.kvHbm = 0 ∧ reads t = []) ∨ (s.kvHbm ≠ 0 ∧ reads t = List.range k.toNat) := by
  unfold prefetchAttention at h
  split at h
  · next hnull =>
    obtain ⟨rfl, _⟩ := h
    exact .inl ⟨hnull, rfl⟩
  · next hbound =>
    rw [traces_bind] at h
    obtain ⟨_, _, _, rfl, h, rfl, _⟩ := h
    refine .inr ⟨hbound, ?_⟩
    rw [List.append_nil, reads, traces_forM_flatMap (c := fun n => [n]) _ h, List.flatMap_singleton']
    intro n _ t u hn
    obtain ⟨_, _, hread, _⟩ := prefetchSlot_calls hn
    exact hread

theorem take_eq_map {n : ℕ} (hn : n ≤ arr.length) :
    arr.take n = (List.range n).map (fun i => arr.getD i 0) := by
  apply List.ext_getElem
  · simp [hn]
  · intro i hi _
    rw [List.length_take] at hi
    rw [List.getElem_take, List.getElem_map, List.getElem_range, List.getD_eq_getElem _ _ (by omega)]

theorem prefetchAttention_hints {k : UInt32} {st : Status} (hbound : s.kvHbm ≠ 0)
    (hk : k.toNat ≤ arr.length) (h : Traces (Holding arr) (s.prefetchAttention k) t st) :
    st = .ok ∧ hints t = (arr.take k.toNat).flatMap s.hintsFor := by
  unfold prefetchAttention at h
  rw [if_neg hbound, traces_bind] at h
  obtain ⟨_, _, _, rfl, h, rfl, rfl⟩ := h
  refine ⟨rfl, ?_⟩
  rw [List.append_nil, hints, take_eq_map hk, List.flatMap_map]
  apply traces_forM_flatMap _ h
  intro n hn t u hslot
  obtain ⟨x, hx, _, hhints⟩ := prefetchSlot_calls hslot
  have hlt : n < arr.length := Nat.lt_of_lt_of_le (List.mem_range.mp hn) hk
  rw [List.getD_eq_getElem _ _ hlt, ← hx _ (List.getElem?_eq_getElem hlt)]
  exact hhints

def Straddles (s : ContextScope) (i : UInt32) : Prop :=
  i.toNat * 4096 < s.kvBytes.toNat ∧ s.kvBytes.toNat < i.toNat * 4096 + 4096

structure Inside (s : ContextScope) (l : List UInt32) (hs : List (UInt64 × UInt64)) : Prop where
  contained : ∀ h ∈ hs, s.kvHbm.toNat ≤ h.1.toNat ∧
    h.1.toNat + h.2.toNat ≤ s.kvHbm.toNat + s.kvBytes.toNat
  once : ∀ i ∈ l, i.toNat * 4096 + 4096 ≤ s.kvBytes.toNat → hs.count (s.slot i) = l.count i

theorem toNat_offset (i : UInt32) : (i.toUInt64 * 4096).toNat = i.toNat * 4096 :=
  Words.toNat_widen_mul i (by decide)

theorem hintsFor_cases (s : ContextScope) (i : UInt32) :
    (s.kvBytes.toNat ≤ i.toNat * 4096 ∧ s.hintsFor i = []) ∨
      (i.toNat * 4096 < s.kvBytes.toNat ∧ s.hintsFor i = [s.slot i]) := by
  unfold hintsFor
  rw [← toNat_offset i]
  split
  · next hout => exact .inl ⟨UInt64.le_iff_toNat_le.mp hout, rfl⟩
  · next hin => exact .inr ⟨UInt64.lt_iff_toNat_lt.mp (UInt64.not_le.mp hin), rfl⟩

section Region

variable (hregion : s.kvHbm.toNat + s.kvBytes.toNat ≤ 2 ^ 64)

include hregion

theorem toNat_slot {i : UInt32} (hi : i.toNat * 4096 < s.kvBytes.toNat) :
    (s.slot i).1.toNat = s.kvHbm.toNat + i.toNat * 4096 := by
  rw [slot, UInt64.toNat_add, toNat_offset]
  apply Nat.mod_eq_of_lt
  omega

theorem slot_inj {i j : UInt32} (hi : i.toNat * 4096 < s.kvBytes.toNat)
    (hj : j.toNat * 4096 < s.kvBytes.toNat) (h : s.slot i = s.slot j) : i = j := by
  have hi' := toNat_slot hregion hi
  have hj' := toNat_slot hregion hj
  apply UInt32.toNat_inj.mp
  rw [h] at hi'
  omega

theorem count_hints {i : UInt32} (hi : i.toNat * 4096 < s.kvBytes.toNat) (l : List UInt32) :
    (l.flatMap s.hintsFor).count (s.slot i) = l.count i := by
  induction l with
  | nil => rfl
  | cons j l ih =>
    rw [List.flatMap_cons, List.count_append, ih, List.count_cons, Nat.add_comm]
    congr 1
    rcases s.hintsFor_cases j with ⟨hout, hj⟩ | ⟨hin, hj⟩
    · have hne : j ≠ i := by
        rintro rfl
        omega
      simp [hj, hne]
    · by_cases hji : j = i
      · subst hji
        simp [hj]
      · have hne : s.slot j ≠ s.slot i := fun h => hji (slot_inj hregion hin hi h)
        simp [hj, hji, hne]

theorem inside_iff (l : List UInt32) :
    Inside s l (l.flatMap s.hintsFor) ↔ ∀ i ∈ l, ¬ s.Straddles i := by
  constructor
  · rintro ⟨hcontained, _⟩ i hi ⟨hstart, hend⟩
    rcases s.hintsFor_cases i with ⟨hout, _⟩ | ⟨_, hhint⟩
    · omega
    · have hmem : s.slot i ∈ l.flatMap s.hintsFor := by
        rw [List.mem_flatMap]
        exact ⟨i, hi, by simp [hhint]⟩
      have hslot := toNat_slot hregion hstart
      have hlen : (s.slot i).2.toNat = 4096 := rfl
      have := (hcontained _ hmem).2
      omega
  · intro hwhole
    refine ⟨fun h hh => ?_, fun i _ hi => count_hints hregion (by omega) l⟩
    obtain ⟨i, hi, hh⟩ := List.mem_flatMap.mp hh
    rcases s.hintsFor_cases i with ⟨_, hnone⟩ | ⟨hstart, hhint⟩
    · simp [hnone] at hh
    · rw [hhint, List.mem_singleton] at hh
      subst hh
      have hslot := toNat_slot hregion hstart
      have hlen : (s.slot i).2.toNat = 4096 := rfl
      have hend : ¬ s.kvBytes.toNat < i.toNat * 4096 + 4096 := fun h => hwhole i hi ⟨hstart, h⟩
      omega

end Region

theorem hints_inside_iff (s : ContextScope) (base : Ptr) (bytes : UInt64) (maxRes : UInt32)
    (hbase : base ≠ 0) (hregion : base.toNat + bytes.toNat ≤ 2 ^ 64) (arr : List UInt32)
    (k : UInt32) (hk : k.toNat ≤ arr.length) (t : ScopeTrace) (st : Status)
    (h : Traces (Holding arr) ((s.bindKvCache base bytes maxRes).prefetchAttention k) t st) :
    Inside (s.bindKvCache base bytes maxRes) (arr.take k.toNat) (hints t) ↔
      ∀ i ∈ arr.take k.toNat, ¬ (i.toNat * 4096 < bytes.toNat ∧ bytes.toNat < i.toNat * 4096 + 4096) := by
  obtain ⟨_, hhints⟩ := prefetchAttention_hints (s := s.bindKvCache base bytes maxRes) hbase hk h
  rw [hhints]
  exact inside_iff hregion _

theorem toNat_slotsRead (n : UInt64) : (min n 32).toUInt32.toNat = min n.toNat 32 := by
  rw [UInt64.toNat_toUInt32, Words.toNat_min]
  change min n.toNat 32 % 2 ^ 32 = min n.toNat 32
  omega

theorem nexusrtPrefetchAttention_reads {A : (c : ScopeCall) → c.Answer → Prop} {found : Bool}
    {kv : Ptr} {nSlots : UInt64} {t : ScopeTrace} {st : Status}
    (h : Traces A (nexusrtPrefetchAttention found kv nSlots) t st) :
    reads t = if found = true ∧ kv ≠ 0 then List.range (min nSlots.toNat 32) else [] := by
  cases found with
  | false =>
    obtain ⟨rfl, _⟩ := h
    rfl
  | true =>
    rw [← toNat_slotsRead]
    rcases prefetchAttention_calls h with ⟨hnull, hreads⟩ | ⟨hbound, hreads⟩
    · rw [if_neg (fun hboth => hboth.2 hnull)]
      exact hreads
    · rw [if_pos ⟨rfl, hbound⟩]
      exact hreads

theorem nexusrtPrefetchAttention_inside {kv : Ptr} {nSlots : UInt64} (hkv : kv ≠ 0)
    (hregion : kv.toNat + (nSlots * 4096).toNat ≤ 2 ^ 64) {arr : List UInt32}
    (harr : min nSlots.toNat 32 ≤ arr.length) {t : ScopeTrace} {st : Status}
    (h : Traces (Holding arr) (nexusrtPrefetchAttention true kv nSlots) t st) :
    Inside (({} : ContextScope).bindKvCache kv (nSlots * 4096) nSlots.toUInt32)
      (arr.take (min nSlots.toNat 32)) (hints t) := by
  rw [← toNat_slotsRead] at harr ⊢
  obtain ⟨_, hhints⟩ := prefetchAttention_hints hkv harr h
  rw [hhints]
  apply (inside_iff hregion _).mpr
  rintro i _ ⟨hstart, hend⟩
  have hbytes : (nSlots * 4096).toNat = nSlots.toNat * 4096 % 2 ^ 64 := UInt64.toNat_mul _ _
  change i.toNat * 4096 < (nSlots * 4096).toNat at hstart
  change (nSlots * 4096).toNat < i.toNat * 4096 + 4096 at hend
  omega

def held (arr : List UInt32) : (c : ScopeCall) → c.Answer
  | .topk i => arr.getD i 0
  | .fetch c => succeedingFetch c

theorem holding_held (arr : List UInt32) (c : ScopeCall) : Holding arr c (held arr c) := by
  cases c with
  | fetch c => trivial
  | topk i =>
    intro x hx
    rw [held, List.getD_eq_getElem?_getD, hx]
    rfl

def heldHints (arr : List UInt32) (base : Ptr) (bytes : UInt64) (k : UInt32) : ScopeTrace × Status :=
  traceWith (held arr) ((({} : ContextScope).bindKvCache base bytes 0).prefetchAttention k)

theorem hints_inside_iff_twoSlots : Inside (({} : ContextScope).bindKvCache 0x10000 8192 0) [1, 5, 1]
    (hints (heldHints [1, 5, 1] 0x10000 8192 3).1) := by
  apply (hints_inside_iff {} 0x10000 8192 0 (by decide) (by decide) [1, 5, 1] 3 (by decide) _ _
    (traces_traceWith (holding_held _) _)).mpr
  rintro i _ ⟨hstart, hend⟩
  change i.toNat * 4096 < 8192 at hstart
  change 8192 < i.toNat * 4096 + 4096 at hend
  omega

theorem hints_not_inside : ¬ ∀ (s : ContextScope) (base : Ptr) (bytes : UInt64) (maxRes : UInt32),
    base ≠ 0 → base.toNat + bytes.toNat ≤ 2 ^ 64 → ∀ (arr : List UInt32) (k : UInt32),
      k.toNat ≤ arr.length → ∀ (t : ScopeTrace) (st : Status),
        Traces (Holding arr) ((s.bindKvCache base bytes maxRes).prefetchAttention k) t st →
          Inside (s.bindKvCache base bytes maxRes) (arr.take k.toNat) (hints t) := by
  intro hall
  obtain ⟨hcontained, _⟩ := hall {} 0x10000 100 0 (by decide) (by decide) [0] 1 (by decide) _ _
    (traces_traceWith (holding_held _) _)
  have hinside := hcontained (0x10000, 4096) (by decide)
  exact absurd hinside.2 (by decide)

end ContextScope

end NexusRT.TokenOpt

import Mathlib.Data.Nat.Bitwise
import NexusRT.TokenOpt.Scope

namespace NexusRT.TokenOpt

def layerBit (layerMask : UInt32) (i : ℕ) : Bool := layerMask &&& (1 : UInt32) <<< UInt32.ofNat i ≠ 0

def maskBudget (s : ContextScope) (layerMask : UInt32) : UInt64 :=
  (List.finRange 5).foldl
    (fun budget (i : Fin 5) =>
      if layerBit layerMask i then budget + s.layers[i].maxTokens.toUInt64 else budget) 0

def nexusrtContextScope (found : Bool) (layerMask : UInt32) (outTokenBudget : Bool) :
    Int × Option UInt64 :=
  if !found then (Status.invalidArgument.code, none) else
  let scope : ContextScope := {}
  let budget := maskBudget scope layerMask
  (0, if outTokenBudget then some budget else none)

namespace ContextScope

def totalTokenBudget (s : ContextScope) : UInt64 :=
  s.layers.foldl (fun t l => t + l.maxTokens.toUInt64) 0

def pruneTo (s : ContextScope) (maxRes : UInt32) : Status × ContextScope :=
  if s.currentResident ≤ maxRes then (.ok, s) else
  (.ok, { s with currentResident := maxRes })

def prune (s : ContextScope) (maxRes : UInt32) : Status × ContextScope :=
  if s.kvHbm = 0 then (.invalidArgument, s) else s.pruneTo maxRes

end ContextScope

def nexusrtTokenPrune (found : Bool) (kvCache : Ptr) (maxResident : UInt32) : Int :=
  if !found then Status.invalidArgument.code else
  let scope := ({} : ContextScope).bindKvCache kvCache (maxResident.toUInt64 * 4096) maxResident
  (scope.prune maxResident).1.code

section Masks

theorem layerBit_eq (mask : UInt32) {i : ℕ} (hi : i < 32) : layerBit mask i = mask.toNat.testBit i := by
  have hshift : ((1 : UInt32) <<< UInt32.ofNat i).toNat = 2 ^ i := by
    have hpow : 2 ^ i < 2 ^ 32 := Nat.pow_lt_pow_right (by omega) hi
    rw [UInt32.toNat_shiftLeft, UInt32.toNat_ofNat_of_lt' (Nat.lt_trans hi (by decide)),
      Nat.mod_eq_of_lt hi]
    change 1 <<< i % 2 ^ 32 = 2 ^ i
    rw [Nat.one_shiftLeft, Nat.mod_eq_of_lt hpow]
  rw [layerBit, Bool.eq_iff_iff, decide_eq_true_eq, ne_eq, ← UInt32.toNat_inj, UInt32.toNat_and, hshift,
    Nat.and_two_pow, UInt32.toNat_zero]
  cases mask.toNat.testBit i <;> simp

theorem toNat_foldl_budget {α : Type} (p : α → Bool) (w : α → UInt32) (ls : List α) (b : UInt64)
    (h : b.toNat + 2 ^ 32 * ls.length < 2 ^ 64) :
    (ls.foldl (fun b l => if p l then b + (w l).toUInt64 else b) b).toNat =
      b.toNat + ((ls.filter p).map fun l => (w l).toNat).sum := by
  induction ls generalizing b with
  | nil => simp
  | cons l ls ih =>
    have hw := (w l).toNat_lt
    rw [List.length_cons] at h
    rw [List.foldl_cons, List.filter_cons]
    split
    · have hadd : (b + (w l).toUInt64).toNat = b.toNat + (w l).toNat := by
        rw [UInt64.toNat_add, UInt32.toNat_toUInt64]
        exact Nat.mod_eq_of_lt (by omega)
      rw [ih _ (by omega), hadd, List.map_cons, List.sum_cons, Nat.add_assoc]
    · exact ih _ (by omega)

theorem toNat_maskBudget (s : ContextScope) (mask : UInt32) : (maskBudget s mask).toNat =
    (((List.finRange 5).filter fun i : Fin 5 => mask.toNat.testBit i).map fun i : Fin 5 =>
      s.layers[i].maxTokens.toNat).sum := by
  have hbits : (List.finRange 5).filter (fun i : Fin 5 => layerBit mask i) =
      (List.finRange 5).filter fun i : Fin 5 => mask.toNat.testBit i :=
    List.filter_congr fun i _ => layerBit_eq mask (by omega)
  rw [maskBudget, toNat_foldl_budget (fun i : Fin 5 => layerBit mask i) _ _ _ (by simp), hbits]
  exact Nat.zero_add _

theorem maskBudget_all (s : ContextScope) : maskBudget s 31 = s.totalTokenBudget := by
  have hlayers : s.layers.toList = (List.finRange 5).map fun i : Fin 5 => s.layers[i] := by
    apply List.ext_getElem <;> simp
  rw [ContextScope.totalTokenBudget, ← Vector.foldl_toList, hlayers, List.foldl_map, maskBudget]
  rfl

end Masks

section Pruning

/-- `prefetch_attention` changes nothing of a scope. -/
inductive ScopeOp
  | setLayer (l : IcmLayer) (spec : LayerSpec)
  | step (generatedSoFar : UInt32)
  | bindKvCache (kv : Ptr) (bytes : UInt64) (maxRes : UInt32)
  | prefetchAttention
  | prune (maxRes : UInt32)

def ScopeOp.apply (s : ContextScope) : ScopeOp → ContextScope
  | .setLayer l spec => s.setLayer l spec
  | .step g => (s.step g).2
  | .bindKvCache kv bytes maxRes => s.bindKvCache kv bytes maxRes
  | .prefetchAttention => s
  | .prune maxRes => (s.prune maxRes).2

theorem pruneTo_idle {s : ContextScope} (h : s.currentResident = 0) (maxRes : UInt32) :
    s.pruneTo maxRes = (.ok, s) := by
  rw [ContextScope.pruneTo, if_pos (h ▸ UInt32.zero_le)]

theorem apply_currentResident {s : ContextScope} (h : s.currentResident = 0) (o : ScopeOp) :
    (o.apply s).currentResident = 0 := by
  cases o with
  | setLayer | step | prefetchAttention => exact h
  | bindKvCache => rfl
  | prune maxRes =>
    rw [ScopeOp.apply, ContextScope.prune]
    split
    · exact h
    · rw [pruneTo_idle h]
      exact h

theorem run_currentResident (os : List ScopeOp) {s : ContextScope} (h : s.currentResident = 0) :
    (os.foldl ScopeOp.apply s).currentResident = 0 := by
  induction os generalizing s with
  | nil => exact h
  | cons o os ih => exact ih (apply_currentResident h o)

theorem prune_idle (os : List ScopeOp) (maxRes : UInt32) :
    let s := os.foldl ScopeOp.apply {}
    s.prune maxRes = (if s.kvHbm = 0 then .invalidArgument else .ok, s) := by
  have h := run_currentResident os (s := {}) rfl
  intro s
  rw [ContextScope.prune, pruneTo_idle h]
  split <;> rfl

theorem nexusrtTokenPrune_eq (found : Bool) (kvCache : Ptr) (maxResident : UInt32) :
    nexusrtTokenPrune found kvCache maxResident =
      (if !found || kvCache = 0 then Status.invalidArgument else .ok).code := by
  have hidle := prune_idle [.bindKvCache kvCache (maxResident.toUInt64 * 4096) maxResident] maxResident
  cases found with
  | false => rfl
  | true =>
    refine (congrArg (fun r => r.1.code) hidle).trans ?_
    rw [Bool.not_true, Bool.false_or]
    by_cases hkv : kvCache = 0 <;> simp [ScopeOp.apply, ContextScope.bindKvCache, hkv]

end Pruning

end NexusRT.TokenOpt

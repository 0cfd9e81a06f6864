import Mathlib.Logic.Function.Iterate
import NexusRT.TokenOpt.Budgets

namespace NexusRT

open TokenOpt Function

structure InferStage where
  scope : ContextScope := {}

namespace InferStage

def prefill (s : InferStage) (_prompt : List Int32) : Status × InferStage :=
  (.ok, { scope := (s.scope.step 0).2 })

def decodeToken (r : ContextScope × List Int32) (i : ℕ) : ContextScope × List Int32 :=
  ((r.1.step (UInt32.ofNat (i + 1))).2, r.2 ++ [Int32.ofNat i])

def decode (s : InferStage) (maxNewTokens : UInt32) : (Status × List Int32) × InferStage :=
  let (scope, out) := (List.range maxNewTokens.toNat).foldl decodeToken (s.scope, [])
  ((.ok, out), { scope })

end InferStage

namespace Pipeline

def inferToken (r : ContextScope × List Int32) (_i : ℕ) : ContextScope × List Int32 :=
  ((r.1.step (UInt32.ofNat r.2.length)).2, r.2 ++ [Int32.ofNat r.2.length])

def runInfer (scope : ContextScope) (prompt : List Int32) (maxNewTokens : UInt32) :
    (Status × List Int32) × ContextScope :=
  let (scope, out) := (List.range maxNewTokens.toNat).foldl inferToken (scope, prompt)
  ((.ok, out), scope)

end Pipeline

namespace TokenOpt.ContextScope

variable {s s' : ContextScope}

def advance (s : ContextScope) : ContextScope := (s.step 0).2

theorem foldl_scope {β : Type} {f : ContextScope × β → ℕ → ContextScope × β}
    (hf : ∀ r i, (f r i).1 = r.1.advance) (l : List ℕ) (r : ContextScope × β) :
    (l.foldl f r).1 = advance^[l.length] r.1 := by
  induction l generalizing r with
  | nil => rfl
  | cons i l ih => rw [List.foldl_cons, ih, hf, List.length_cons, iterate_succ_apply]

theorem totalBytesUsed_layers (s : ContextScope) : s.totalBytesUsed =
    (s.layer .l0System).bytesUsed + (s.layer .l1Persona).bytesUsed +
      (s.layer .l2Instructions).bytesUsed + (s.layer .l3Reference).bytesUsed +
        (s.layer .l4Working).bytesUsed := by
  rw [totalBytesUsed, foldl_five, UInt64.zero_add]
  rfl

theorem advance_total (s : ContextScope) : s.advance.totalBytesUsed = s.totalBytesUsed + 4 := by
  have hspill := Words.excess_add_capped s.grown s.limit
  rw [totalBytesUsed_layers, totalBytesUsed_layers, advance, step_kept 0 (by decide) (by decide),
    step_kept 0 (by decide) (by decide), step_kept 0 (by decide) (by decide), step_working,
    step_reference, UInt64.add_assoc, UInt64.add_assoc (s.layer .l3Reference).bytesUsed, hspill, grown]
  simp only [UInt64.add_assoc]

end TokenOpt.ContextScope

open ContextScope

theorem decode_scope (s : InferStage) (n : UInt32) :
    (s.decode n).2.scope = advance^[n.toNat] s.scope := by
  have hfold := foldl_scope (f := InferStage.decodeToken) (fun _ _ => rfl) (List.range n.toNat)
    (s.scope, [])
  rwa [List.length_range] at hfold

theorem runInfer_scope (scope : ContextScope) (prompt : List Int32) (n : UInt32) :
    (Pipeline.runInfer scope prompt n).2 = advance^[n.toNat] scope := by
  have hfold := foldl_scope (f := Pipeline.inferToken) (fun _ _ => rfl) (List.range n.toNat)
    (scope, prompt)
  rwa [List.length_range] at hfold

theorem prefill_decode_ahead (scope : ContextScope) (prompt : List Int32) (n : UInt32) :
    ¬ ∀ l, (((((InferStage.mk scope).prefill prompt).2.decode n).2.scope).layer l).bytesUsed =
      ((Pipeline.runInfer scope prompt n).2.layer l).bytesUsed := by
  intro hall
  have hstage : ((((InferStage.mk scope).prefill prompt).2.decode n).2.scope) =
      (advance^[n.toNat] scope).advance := by
    rw [decode_scope]
    exact (iterate_succ_apply advance n.toNat scope).symm.trans
      (iterate_succ_apply' advance n.toNat scope)
  -- a spill moves bytes between the layers, so the step more shows in their sum
  have htotal : (advance^[n.toNat] scope).advance.totalBytesUsed =
      (advance^[n.toNat] scope).totalBytesUsed := by
    rw [totalBytesUsed_layers, totalBytesUsed_layers, ← hstage, ← runInfer_scope scope prompt n]
    simp only [hall]
  rw [advance_total, UInt64.add_eq_left] at htotal
  exact absurd htotal (by decide)

theorem prefill_counted : ¬ ∀ (scope : ContextScope) (prompt : List Int32) (n : UInt32) (l : IcmLayer),
    (((((InferStage.mk scope).prefill prompt).2.decode n).2.scope).layer l).bytesUsed =
      ((Pipeline.runInfer scope prompt n).2.layer l).bytesUsed := by
  intro hall
  exact absurd (hall {} [1, 2, 3] 1 .l4Working) (by decide)

end NexusRT

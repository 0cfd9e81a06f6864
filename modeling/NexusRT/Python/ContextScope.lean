import Mathlib.Data.List.FinRange
import NexusRT.Python.Firmware
import NexusRT.TokenOpt.LayerMasks

namespace NexusRT.Python

open TokenOpt

def layerMask (layers : List IcmLayer) : ℕ := layers.foldl (fun mask l => mask ||| 1 <<< l.index.val) 0

def contextScope (ctx : Option Ptr) (found : Ptr → Bool) (layers : List IcmLayer) : Except PyError ℕ :=
  match Wrapper.ctx ctx with
  | .error e => .error e
  | .ok h =>
    let (rc, budget) := nexusrtContextScope (found h) (UInt32.ofNat (layerMask layers)) true
    match check rc with
    | .error e => .error e
    | .ok () => .ok (budget.getD 0).toNat

theorem testBit_foldl (layers : List IcmLayer) (mask i : ℕ) :
    (layers.foldl (fun mask l => mask ||| 1 <<< l.index.val) mask).testBit i =
      (mask.testBit i || layers.any fun l => l.index.val = i) := by
  induction layers generalizing mask with
  | nil => simp
  | cons l ls ih =>
    rw [List.foldl_cons, ih, Nat.testBit_or, Nat.one_shiftLeft, Nat.testBit_two_pow, List.any_cons,
      Bool.or_assoc]

theorem testBit_layerMask (layers : List IcmLayer) (i : ℕ) :
    (layerMask layers).testBit i = layers.any fun l => l.index.val = i := by
  rw [layerMask, testBit_foldl, Nat.zero_testBit, Bool.false_or]

theorem layerMask_lt (layers : List IcmLayer) : layerMask layers < 2 ^ 32 := by
  apply Nat.lt_pow_two_of_testBit
  intro i hi
  rw [testBit_layerMask, List.any_eq_false]
  intro l _
  have hl := l.index.isLt
  simp
  omega

def allLayers : List IcmLayer := [.l0System, .l1Persona, .l2Instructions, .l3Reference, .l4Working]

theorem index_inj {k l : IcmLayer} : k.index = l.index ↔ k = l := by
  cases k <;> cases l <;> decide

theorem map_index_allLayers : allLayers.map IcmLayer.index = List.finRange 5 := by decide

theorem context_scope_budget (h : Ptr) (found : Ptr → Bool) (layers : List IcmLayer) :
    contextScope (some h) found layers =
      if found h then
        .ok ((allLayers.filter (· ∈ layers)).map fun l => (({} : ContextScope).layer l).maxTokens.toNat).sum
      else .error (.nexusRTError (-1) "INVALID_ARGUMENT") := by
  unfold contextScope nexusrtContextScope
  simp only [Wrapper.ctx]
  cases hfound : found h with
  | false => rfl
  | true =>
    have hsum := toNat_maskBudget {} (UInt32.ofNat (layerMask layers))
    have hmask : (UInt32.ofNat (layerMask layers)).toNat = layerMask layers :=
      UInt32.toNat_ofNat_of_lt' (layerMask_lt layers)
    rw [hmask, ← map_index_allLayers, List.filter_map, List.map_map] at hsum
    have hfilter : allLayers.filter ((fun i : Fin 5 => (layerMask layers).testBit i) ∘ IcmLayer.index) =
        allLayers.filter (· ∈ layers) := by
      apply List.filter_congr
      intro l _
      rw [Function.comp_apply, testBit_layerMask, Bool.eq_iff_iff, List.any_eq_true, decide_eq_true_eq]
      constructor
      · rintro ⟨k, hk, heq⟩
        exact index_inj.mp (Fin.ext (of_decide_eq_true heq)) ▸ hk
      · exact fun hl => ⟨l, hl, decide_eq_true rfl⟩
    rw [hfilter] at hsum
    exact congrArg Except.ok hsum

end NexusRT.Python

import Mathlib.Algebra.Ring.Nat
import Mathlib.Data.Fin.Basic
import Mathlib.Data.List.Induction
import NexusRT.Library.Words
import NexusRT.TokenOpt.Scope

namespace NexusRT.TokenOpt.ContextScope

variable (s : ContextScope)

def used (l : IcmLayer) : ℕ := (s.layer l).bytesUsed.toNat

def budget (l : IcmLayer) : ℕ := 4 * (s.layer l).maxTokens.toNat

theorem budget_lt (l : IcmLayer) : s.budget l < 2 ^ 34 := by
  have := (s.layer l).maxTokens.toNat_lt
  unfold budget
  omega

def usedInAll : ℕ :=
  s.used .l0System + s.used .l1Persona + s.used .l2Instructions + s.used .l3Reference +
    s.used .l4Working

def steps (gs : List UInt32) : ContextScope := gs.foldl (fun s g => (s.step g).2) s

def StepFits : Prop :=
  s.used .l4Working + 4 < 2 ^ 64 ∧
    s.used .l3Reference + (s.used .l4Working + 4 - s.budget .l4Working) < 2 ^ 64

def StepsFit (s : ContextScope) : List UInt32 → Prop
  | [] => True
  | g :: gs => s.StepFits ∧ StepsFit (s.step g).2 gs

structure Advanced (s s' : ContextScope) (k : ℕ) : Prop where
  working : s'.used .l4Working = min (s.used .l4Working + 4 * k) (s.budget .l4Working)
  reference : s'.used .l3Reference =
    s.used .l3Reference + (s.used .l4Working + 4 * k - s'.used .l4Working)
  kept : ∀ l, l ≠ .l3Reference → l ≠ .l4Working → s'.layer l = s.layer l
  budgets : ∀ l, (s'.layer l).maxTokens = (s.layer l).maxTokens

theorem foldl_five {α β : Type} (f : β → α → β) (b : β) (v : Vector α 5) :
    v.foldl f b = f (f (f (f (f b (v.get 0)) (v.get 1)) (v.get 2)) (v.get 3)) (v.get 4) := by
  rcases v with ⟨⟨l⟩, hl⟩
  match l, hl with
  | [_, _, _, _, _], _ => rfl

theorem totalBytesUsed_eq : s.totalBytesUsed = UInt64.ofNat s.usedInAll := by
  rw [totalBytesUsed, foldl_five, UInt64.zero_add]
  simp only [usedInAll, used, UInt64.ofNat_add, UInt64.ofNat_toNat]
  rfl

variable {s} {s' s'' : ContextScope}

namespace Advanced

variable {j k : ℕ}

theorem budget_eq (h : Advanced s s' k) (l : IcmLayer) : s'.budget l = s.budget l := by
  rw [budget, h.budgets l, budget]

theorem refl (h : s.used .l4Working ≤ s.budget .l4Working) : Advanced s s 0 := by
  refine ⟨by omega, by omega, fun _ _ _ => rfl, fun _ => rfl⟩

theorem trans (h : Advanced s s' j) (h' : Advanced s' s'' k) : Advanced s s'' (j + k) := by
  have hbudget := h.budget_eq .l4Working
  have hw := h.working
  have hr := h.reference
  have hw' := h'.working
  have hr' := h'.reference
  refine ⟨by omega, by omega, fun l h₃ h₄ => ?_, fun l => ?_⟩
  · rw [h'.kept l h₃ h₄, h.kept l h₃ h₄]
  · rw [h'.budgets l, h.budgets l]

theorem usedInAll_eq (h : Advanced s s' k) : s'.usedInAll = s.usedInAll + 4 * k := by
  have hw := h.working
  have hr := h.reference
  have hkept : ∀ l, l ≠ .l3Reference → l ≠ .l4Working → s'.used l = s.used l := by
    intro l h₃ h₄
    rw [used, h.kept l h₃ h₄, used]
  unfold usedInAll
  rw [hkept .l0System (by decide) (by decide), hkept .l1Persona (by decide) (by decide),
    hkept .l2Instructions (by decide) (by decide)]
  omega

theorem totalBytesUsed_eq (h : Advanced s s' k) :
    s'.totalBytesUsed = s.totalBytesUsed + UInt64.ofNat (4 * k) := by
  rw [s'.totalBytesUsed_eq, s.totalBytesUsed_eq, h.usedInAll_eq, UInt64.ofNat_add]

end Advanced

def limit (s : ContextScope) : UInt64 := (s.layer .l4Working).maxTokens.toUInt64 * 4

def grown (s : ContextScope) : UInt64 := (s.layer .l4Working).bytesUsed + 4

theorem step_kept (g : UInt32) {l : IcmLayer} (h₃ : l ≠ .l3Reference) (h₄ : l ≠ .l4Working) :
    (s.step g).2.layer l = s.layer l := by
  cases l with
  | l3Reference => exact absurd rfl h₃
  | l4Working => exact absurd rfl h₄
  | _ => simp only [step, layer, IcmLayer.index]; split <;> simp

theorem step_maxTokens (g : UInt32) (l : IcmLayer) :
    ((s.step g).2.layer l).maxTokens = (s.layer l).maxTokens := by
  cases l <;> simp only [step, layer, IcmLayer.index] <;> split <;> simp

theorem step_working (g : UInt32) :
    ((s.step g).2.layer .l4Working).bytesUsed = Words.capped s.grown s.limit := by
  simp only [step, grown, limit, Words.capped, layer, IcmLayer.index, Fin.getElem_fin,
    Fin.coe_ofNat_eq_mod, Nat.reduceMod, Vector.getElem_set_self, gt_iff_lt]
  split
  · next hover => simp [hover]
  · next hwithin => simp [hwithin]

theorem step_reference (g : UInt32) : ((s.step g).2.layer .l3Reference).bytesUsed =
    (s.layer .l3Reference).bytesUsed + Words.excess s.grown s.limit := by
  simp only [step, grown, limit, Words.excess, layer, IcmLayer.index, Fin.getElem_fin,
    Fin.coe_ofNat_eq_mod, Nat.reduceMod, Vector.getElem_set_self, gt_iff_lt]
  split
  · next hover => simp [hover]
  · next hwithin => simp [hwithin]

theorem step_advanced (h : s.StepFits) (g : UInt32) : Advanced s (s.step g).2 1 := by
  obtain ⟨h₄, h₃⟩ := h
  have hgrown : s.grown.toNat = s.used .l4Working + 4 := by
    rw [grown, UInt64.toNat_add]
    exact Nat.mod_eq_of_lt h₄
  have hlimit : s.limit.toNat = s.budget .l4Working := by
    rw [limit, Words.toNat_widen_mul _ (by decide), budget, Nat.mul_comm]
    rfl
  have hworking : (s.step g).2.used .l4Working = min (s.used .l4Working + 4) (s.budget .l4Working) := by
    rw [used, step_working, Words.toNat_capped, hgrown, hlimit]
  have hreference : (s.step g).2.used .l3Reference =
      s.used .l3Reference + (s.used .l4Working + 4 - s.budget .l4Working) := by
    rw [used, step_reference, UInt64.toNat_add, Words.toNat_excess, hgrown, hlimit]
    exact Nat.mod_eq_of_lt h₃
  refine ⟨by omega, by omega, fun l => step_kept g, step_maxTokens g⟩

theorem steps_concat (gs : List UInt32) (g : UInt32) :
    s.steps (gs ++ [g]) = ((s.steps gs).step g).2 := by
  rw [steps, List.foldl_append]
  rfl

theorem run_advanced {gs : List UInt32} (hgs : 1 ≤ gs.length) (h : s.StepsFit gs) :
    Advanced s (s.steps gs) gs.length := by
  induction gs generalizing s with
  | nil => cases hgs
  | cons g gs ih =>
    obtain ⟨hfits, hrest⟩ := h
    have hstep := step_advanced hfits g
    by_cases hnil : gs = []
    · subst hnil
      exact hstep
    · rw [List.length_cons, Nat.add_comm]
      exact hstep.trans (ih (List.length_pos_iff.mpr hnil) hrest)

theorem steps_advanced {gs : List UInt32} (hgs : 1 ≤ gs.length) (h : s.StepsFit gs) :
    Advanced s (s.steps gs) gs.length ∧
      (s.steps gs).totalBytesUsed = s.totalBytesUsed + UInt64.ofNat (4 * gs.length) ∧
      (s.usedInAll + 4 * gs.length < 2 ^ 64 →
        (s.steps gs).totalBytesUsed.toNat = s.totalBytesUsed.toNat + 4 * gs.length) := by
  have hadvanced := run_advanced hgs h
  refine ⟨hadvanced, hadvanced.totalBytesUsed_eq, fun htotal => ?_⟩
  rw [totalBytesUsed_eq, totalBytesUsed_eq, hadvanced.usedInAll_eq,
    UInt64.toNat_ofNat_of_lt' htotal, UInt64.toNat_ofNat_of_lt']
  exact lt_of_le_of_lt (Nat.le_add_right _ _) htotal

def crowded : ContextScope :=
  ((({} : ContextScope).setLayer .l4Working ⟨2, "hbm_working", 0, 9⟩).setLayer .l3Reference
    ⟨1, "hbm_paged", 0, 2⟩)

theorem steps_advanced_crowded : Advanced crowded (crowded.steps [1, 2, 3]) 3 ∧
    (crowded.steps [1, 2, 3]).totalBytesUsed.toNat = crowded.totalBytesUsed.toNat + 12 := by
  have hfits : crowded.StepsFit [1, 2, 3] := by
    refine ⟨⟨?_, ?_⟩, ⟨?_, ?_⟩, ⟨?_, ?_⟩, trivial⟩ <;> decide
  obtain ⟨hadvanced, _, htotal⟩ := steps_advanced (by decide) hfits
  exact ⟨hadvanced, htotal (by decide)⟩

def WithinBudget (s : ContextScope) : Prop := ∀ l, s.used l ≤ s.budget l

def reached (s : ContextScope) (k : ℕ) : ℕ :=
  s.used .l3Reference + (s.used .l4Working + 4 * k - s.budget .l4Working)

theorem Advanced.reference_eq {k : ℕ} (h : Advanced s s' k) :
    s'.used .l3Reference = s.reached k := by
  have hw := h.working
  have hr := h.reference
  unfold reached
  omega

theorem Advanced.withinBudget_iff {k : ℕ} (h : Advanced s s' k) (hs : s.WithinBudget) :
    s'.WithinBudget ↔ s.reached k ≤ s.budget .l3Reference := by
  rw [← h.reference_eq, ← h.budget_eq]
  constructor
  · exact fun h' => h' .l3Reference
  · intro h₃ l
    by_cases hl₃ : l = .l3Reference
    · rw [hl₃]
      exact h₃
    · by_cases hl₄ : l = .l4Working
      · rw [hl₄, h.working, h.budget_eq]
        omega
      · rw [used, h.kept l hl₃ hl₄, h.budget_eq]
        exact hs l

theorem steps_advanced_of_room (hs : s.WithinBudget) (gs : List UInt32)
    (hroom : s.reached gs.length < 2 ^ 64) : Advanced s (s.steps gs) gs.length := by
  induction gs using List.reverseRecOn with
  | nil => exact Advanced.refl (hs .l4Working)
  | append_singleton gs g ih =>
    rw [List.length_append, List.length_singleton] at hroom ⊢
    have hadvanced : Advanced s (s.steps gs) gs.length := by
      apply ih
      unfold reached at hroom ⊢
      omega
    rw [steps_concat]
    apply hadvanced.trans
    apply step_advanced
    have hw := hadvanced.working
    have hr := hadvanced.reference
    have hbudget := hadvanced.budget_eq .l4Working
    have hlimit := s.budget_lt .l4Working
    unfold reached at hroom
    constructor <;> omega

theorem withinBudget_run_iff (hs : s.WithinBudget) (gs : List UInt32) :
    (∀ pre, pre <+: gs → (s.steps pre).WithinBudget) ↔
      s.used .l3Reference + (s.used .l4Working + 4 * gs.length - s.budget .l4Working) ≤
        s.budget .l3Reference := by
  induction gs using List.reverseRecOn with
  | nil =>
    constructor
    · intro _
      have h₃ := hs .l3Reference
      have h₄ := hs .l4Working
      rw [List.length_nil]
      omega
    · intro _ pre hpre
      rw [List.prefix_nil.mp hpre]
      exact hs
  | append_singleton gs g ih =>
    have hmono : s.reached gs.length ≤ s.reached (gs ++ [g]).length ∧
        s.reached (gs ++ [g]).length ≤ s.reached gs.length + 4 := by
      unfold reached
      rw [List.length_append, List.length_singleton]
      omega
    change _ ↔ s.reached gs.length ≤ s.budget .l3Reference at ih
    change _ ↔ s.reached (gs ++ [g]).length ≤ s.budget .l3Reference
    -- a last step past the budget starts within it, so it does not wrap around
    have hlast : s.reached gs.length ≤ s.budget .l3Reference →
        ((s.steps (gs ++ [g])).WithinBudget ↔
          s.reached (gs ++ [g]).length ≤ s.budget .l3Reference) := by
      intro hroom
      have hlimit := s.budget_lt .l3Reference
      exact (steps_advanced_of_room hs (gs ++ [g]) (by omega)).withinBudget_iff hs
    simp only [List.prefix_concat_iff, forall_eq_or_imp]
    rw [ih]
    constructor
    · rintro ⟨hwithin, hroom⟩
      exact (hlast hroom).mp hwithin
    · intro hroom
      have hroom' := hmono.1.trans hroom
      exact ⟨(hlast hroom').mpr hroom, hroom'⟩

def tight : ContextScope :=
  ((({} : ContextScope).setLayer .l4Working ⟨1, "hbm_working", 0, 0⟩).setLayer .l3Reference
    ⟨1, "hbm_paged", 0, 0⟩)

theorem tight_withinBudget : tight.WithinBudget := by
  intro l
  cases l <;> decide

theorem withinBudget_run_iff_tight :
    (∀ pre, pre <+: [1, 2] → (tight.steps pre).WithinBudget) ∧
      ¬ ∀ pre, pre <+: [1, 2, 3] → (tight.steps pre).WithinBudget := by
  constructor
  · exact (withinBudget_run_iff tight_withinBudget [1, 2]).mpr (by decide)
  · exact fun hall => absurd ((withinBudget_run_iff tight_withinBudget [1, 2, 3]).mp hall) (by decide)

theorem not_withinBudget : ¬ ∀ (s : ContextScope) (gs : List UInt32), s.WithinBudget →
    ∀ pre, pre <+: gs → (s.steps pre).WithinBudget := by
  intro hall
  have hthird := hall tight [1, 2, 3] tight_withinBudget [1, 2, 3] (List.prefix_refl _) .l3Reference
  exact absurd hthird (by decide)

end NexusRT.TokenOpt.ContextScope

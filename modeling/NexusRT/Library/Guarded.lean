import Mathlib.Logic.Relation

variable {σ ι : Type} {Step : σ → ι → σ → Prop} {Meets : σ → ι → Prop} {Inv Good : σ → Prop}

def GuardedRun (Step : σ → ι → σ → Prop) (Meets : σ → ι → Prop) (s₀ s : σ) : Prop :=
  Relation.ReflTransGen (fun s s' => ∃ c, Step s c s' ∧ Meets s c) s₀ s

/-- Where `Inv` holds, a step keeps it if it meets the condition and loses `Good` if it does not. -/
structure ExactGuard (Step : σ → ι → σ → Prop) (Meets : σ → ι → Prop) (Inv Good : σ → Prop) :
    Prop where
  good : ∀ s, Inv s → Good s
  step : ∀ s c s', Inv s → Step s c s' → (Meets s c ∧ Inv s') ∨ (¬ Meets s c ∧ ¬ Good s')

theorem ExactGuard.of_iff (hgood : ∀ s, Inv s → Good s)
    (hstep : ∀ s c s', Inv s → Step s c s' →
      (Good s' ↔ Meets s c) ∧ (Meets s c → Inv s')) : ExactGuard Step Meets Inv Good where
  good := hgood
  step s c s' hi h := by
    obtain ⟨hiff, hkept⟩ := hstep s c s' hi h
    by_cases hmeets : Meets s c
    · exact .inl ⟨hmeets, hkept hmeets⟩
    · exact .inr ⟨hmeets, fun hgood' => hmeets (hiff.mp hgood')⟩

namespace GuardedRun

variable {s₀ s : σ}

theorem inv (hguard : ExactGuard Step Meets Inv Good) (h : GuardedRun Step Meets s₀ s)
    (hi : Inv s₀) : Inv s := by
  induction h with
  | refl => exact hi
  | tail _ h ih =>
    obtain ⟨c, hstep, hmeets⟩ := h
    rcases hguard.step _ _ _ ih hstep with ⟨_, hi'⟩ | ⟨hnot, _⟩
    · exact hi'
    · exact absurd hmeets hnot

theorem good_iff (hguard : ExactGuard Step Meets Inv Good) (h : GuardedRun Step Meets s₀ s)
    (hi : Inv s₀) : Good s ∧ ∀ c s', Step s c s' → (Good s' ↔ Meets s c) := by
  have hs := h.inv hguard hi
  refine ⟨hguard.good s hs, fun c s' hstep => ?_⟩
  rcases hguard.step s c s' hs hstep with ⟨hmeets, hi'⟩ | ⟨hnot, hbad⟩
  · exact iff_of_true (hguard.good s' hi') hmeets
  · exact iff_of_false hbad hnot

theorem not_good (hguard : ExactGuard Step Meets Inv Good) (h : GuardedRun Step Meets s₀ s)
    (hi : Inv s₀) {c : ι} {s' : σ} (hstep : Step s c s') (hnot : ¬ Meets s c) :
    Relation.ReflTransGen (fun s s' => ∃ c, Step s c s') s₀ s' ∧ ¬ Good s' := by
  constructor
  · apply Relation.ReflTransGen.tail _ ⟨c, hstep⟩
    apply Relation.ReflTransGen.mono _ _ _ h
    rintro _ _ ⟨c, hstep, _⟩
    exact ⟨c, hstep⟩
  · exact fun hgood => hnot ((h.good_iff hguard hi).2 c s' hstep |>.mp hgood)

end GuardedRun

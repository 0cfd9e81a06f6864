import Mathlib.Data.List.Pairwise

def Tiles (a : ℕ) : List (ℕ × ℕ) → ℕ → Prop
  | [], b => a = b
  | (x, n) :: l, b => x = a ∧ 0 < n ∧ Tiles (a + n) l b

namespace Tiles

variable {a b : ℕ} {l : List (ℕ × ℕ)}

theorem start_le (h : Tiles a l b) : ∀ i ∈ l, a ≤ i.1 ∧ 0 < i.2 := by
  induction l generalizing a with
  | nil => simp
  | cons i l ih =>
    obtain ⟨hstart, hpos, hl⟩ := h
    rw [List.forall_mem_cons]
    refine ⟨⟨Nat.le_of_eq hstart.symm, hpos⟩, fun j hj => ?_⟩
    have := ih hl j hj
    omega

theorem pairwise (h : Tiles a l b) : l.Pairwise (fun i j => i.1 + i.2 ≤ j.1) := by
  induction l generalizing a with
  | nil => exact List.Pairwise.nil
  | cons i l ih =>
    obtain ⟨hstart, _, hl⟩ := h
    refine List.pairwise_cons.mpr ⟨fun j hj => ?_, ih hl⟩
    have := hl.start_le j hj
    omega

end Tiles

import Mathlib.Data.List.Nodup
import Mathlib.Data.List.TakeDrop

namespace Selection

variable {β κ : Type} (key : β → κ) (l : List β)

def chosen (n : ℕ) : List κ := (l.take n).map key

@[simp] theorem length_chosen (n : ℕ) : (chosen key l n).length = min n l.length := by
  rw [chosen, List.length_map, List.length_take]

theorem chosen_sublist (n : ℕ) : (chosen key l n).Sublist (l.map key) :=
  (List.take_sublist n l).map key

theorem chosen_add (a b : ℕ) :
    chosen key l (a + b) = chosen key l a ++ chosen key (l.drop a) b := by
  rw [chosen, chosen, chosen, List.take_add, List.map_append]

variable {key l}

theorem nodup_chosen (h : (l.map key).Nodup) (n : ℕ) : (chosen key l n).Nodup :=
  (chosen_sublist key l n).nodup h

theorem mem_drop (h : (l.map key).Nodup) {n : ℕ} {x : β} :
    x ∈ l.drop n ↔ x ∈ l ∧ key x ∉ chosen key l n := by
  have hsplit : l.map key = chosen key l n ++ (l.drop n).map key := by
    rw [chosen, ← List.map_append, List.take_append_drop]
  rw [hsplit, List.nodup_append'] at h
  constructor
  · intro hx
    refine ⟨List.mem_of_mem_drop hx, fun hmem => ?_⟩
    exact h.2.2 hmem (List.mem_map_of_mem hx)
  · rintro ⟨hx, hnot⟩
    rw [← List.take_append_drop n l, List.mem_append] at hx
    rcases hx with hx | hx
    · exact absurd (List.mem_map_of_mem hx) hnot
    · exact hx

theorem rel_of_chosen {r : β → β → Prop} (hsorted : l.Pairwise r) (h : (l.map key).Nodup) {n : ℕ}
    {x y : β} (hx : x ∈ l) (hkx : key x ∈ chosen key l n) (hy : y ∈ l)
    (hky : key y ∉ chosen key l n) : r x y := by
  have hdrop : y ∈ l.drop n := (mem_drop h).mpr ⟨hy, hky⟩
  have htake : x ∈ l.take n := by
    rw [← List.take_append_drop n l, List.mem_append] at hx
    rcases hx with hx | hx
    · exact hx
    · exact absurd hkx ((mem_drop h).mp hx).2
  rw [← List.take_append_drop n l, List.pairwise_append] at hsorted
  exact hsorted.2.2 x htake y hdrop

end Selection

import Mathlib.Data.Finite.Defs
import Mathlib.Data.Fintype.Defs
import Mathlib.Data.Set.Finite.Basic
import Mathlib.Logic.Relation
import Mathlib.Order.WellFounded
import Mathlib.Order.RelClasses

namespace Dependencies

variable {α : Type} (nodes : List α) (deps : α → List α)

def Edge (d k : α) : Prop := k ∈ nodes ∧ d ∈ deps k

def HasCycle : Prop := ∃ k, Relation.TransGen (Edge nodes deps) k k

/-- A list with the latest node first, in which every node comes after all it depends on. -/
def TopoOrder : List α → Prop
  | [] => True
  | k :: l => (∀ d ∈ deps k, d ∈ l) ∧ TopoOrder l

variable {nodes deps}

theorem topoOrder_induction {l : List α} (hl : TopoOrder deps l) {P : α → Prop}
    (h : ∀ k ∈ l, (∀ d ∈ deps k, P d) → P k) : ∀ k ∈ l, P k := by
  induction l with
  | nil => simp
  | cons x l ih =>
    have hrest : ∀ k ∈ l, P k := ih hl.2 (fun k hk => h k (List.mem_cons_of_mem x hk))
    intro k hk
    rcases List.mem_cons.mp hk with rfl | hk
    · exact h k (by simp) (fun d hd => hrest d (hl.1 d hd))
    · exact hrest k hk

theorem acc_irrefl {r : α → α → Prop} {a : α} (h : Acc r a) : ¬ r a a := by
  induction h with
  | intro a _ ih => exact fun ha => ih a ha ha

theorem topoOrder_no_cycle {l : List α} (hl : TopoOrder deps l) (hall : ∀ k ∈ nodes, k ∈ l) :
    ¬ HasCycle nodes deps := by
  have hacc : ∀ k ∈ l, Acc (Edge nodes deps) k :=
    topoOrder_induction hl (fun k _ ih => ⟨k, fun d hd => ih d hd.2⟩)
  rintro ⟨k, hk⟩
  obtain ⟨_, _, hlast⟩ := Relation.TransGen.tail'_iff.mp hk
  exact acc_irrefl (hacc k (hall k hlast.1)).transGen hk

theorem exists_source (hc : ¬ HasCycle nodes deps) {U : Set α} (hU : U.Nonempty)
    (hsub : ∀ u ∈ U, u ∈ nodes) : ∃ u ∈ U, ∀ d ∈ deps u, d ∉ U := by
  let r : {k // k ∈ nodes} → {k // k ∈ nodes} → Prop :=
    fun a b => Relation.TransGen (Edge nodes deps) a.1 b.1
  have htrans : IsTrans _ r := ⟨fun _ _ _ hab hbc => hab.trans hbc⟩
  have hirrefl : Std.Irrefl r := ⟨fun a ha => hc ⟨a.1, ha⟩⟩
  have hfin : Finite {k // k ∈ nodes} := List.finite_toSet nodes
  have hwf : WellFounded r := Finite.wellFounded_of_trans_of_irrefl r
  obtain ⟨u, hu⟩ := hU
  obtain ⟨m, hm, hmin⟩ := hwf.has_min {k | k.1 ∈ U} ⟨⟨u, hsub u hu⟩, hu⟩
  refine ⟨m.1, hm, fun d hd hdU => ?_⟩
  exact hmin ⟨d, hsub d hdU⟩ hdU (.single ⟨m.2, hd⟩)

end Dependencies

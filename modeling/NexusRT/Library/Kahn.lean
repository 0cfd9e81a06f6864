import Mathlib.Algebra.Order.Group.Nat
import Mathlib.Data.Int.Basic
import Mathlib.Data.List.Perm.Subperm
import Mathlib.Logic.Function.Basic
import NexusRT.Library.Dependencies
import NexusRT.Library.Loop

/-!
Kahn's pass with counters: a counter starts at the length of the dependency list and falls by one
for every popped node that occurs in the list.
-/

namespace Kahn

open Dependencies

variable {α : Type} [DecidableEq α]

/-- `visited` is the list of popped nodes, the latest first. -/
structure State (α : Type) where
  indeg : α → ℤ
  queue : List α
  visited : List α

def indegrees (nodes : List α) (deps : α → List α) : α → ℤ :=
  nodes.foldl (fun m k => (deps k).foldl (fun m _ => Function.update m k (m k + 1)) m) (fun _ => 0)

def start (nodes : List α) (deps : α → List α) (order : List α) : State α :=
  ⟨indegrees nodes deps, order.filter (fun k => indegrees nodes deps k = 0), []⟩

def relax (deps : α → List α) (k : α) (s : (α → ℤ) × List α) (j : α) : (α → ℤ) × List α :=
  if k ∈ deps j then
    let indeg := Function.update s.1 j (s.1 j - 1)
    (indeg, if indeg j = 0 then s.2 ++ [j] else s.2)
  else s

def step (nodes : List α) (deps : α → List α) (s : State α) : State α ⊕ List α :=
  match s.queue with
  | [] => .inr s.visited
  | k :: q =>
    let r := nodes.foldl (relax deps k) (s.indeg, q)
    .inl ⟨r.1, r.2, k :: s.visited⟩

def run (nodes : List α) (deps : α → List α) (order : List α) (fuel : ℕ) : Option (List α) :=
  loop (step nodes deps) fuel (start nodes deps order)

variable {nodes : List α} {deps : α → List α}

theorem foldl_count (ds : List α) (m : α → ℤ) (k : α) :
    ds.foldl (fun m _ => Function.update m k (m k + 1)) m = Function.update m k (m k + ds.length) := by
  induction ds generalizing m with
  | nil => simp
  | cons d ds ih =>
    rw [List.foldl_cons, ih]
    simp only [Function.update_self, Function.update_idem, List.length_cons]
    congr 1
    push_cast
    omega

theorem foldl_indegrees (l : List α) (m : α → ℤ) (j : α) (hl : l.Nodup) :
    l.foldl (fun m k => (deps k).foldl (fun m _ => Function.update m k (m k + 1)) m) m j =
      m j + if j ∈ l then ((deps j).length : ℤ) else 0 := by
  induction l generalizing m with
  | nil => simp
  | cons k l ih =>
    obtain ⟨hk, hl⟩ := List.nodup_cons.mp hl
    rw [List.foldl_cons, foldl_count, ih _ hl]
    by_cases hj : j = k
    · subst hj
      simp [hk]
    · simp [hj]

theorem indegrees_eq (hn : nodes.Nodup) (k : α) (hk : k ∈ nodes) :
    indegrees nodes deps k = (deps k).length := by
  rw [indegrees, foldl_indegrees nodes _ k hn]
  simp [hk]

theorem foldl_relax (k : α) (l : List α) (hl : l.Nodup) (m : α → ℤ) (q : List α) :
    l.foldl (relax deps k) (m, q) =
      (fun j => if j ∈ l ∧ k ∈ deps j then m j - 1 else m j,
        q ++ l.filter (fun j => k ∈ deps j ∧ m j = 1)) := by
  induction l generalizing m q with
  | nil => simp
  | cons x l ih =>
    obtain ⟨hx, hl⟩ := List.nodup_cons.mp hl
    have hne : ∀ j ∈ l, j ≠ x := fun j hj he => hx (he ▸ hj)
    rw [List.foldl_cons]
    by_cases hk : k ∈ deps x
    · simp only [relax, hk, ↓reduceIte, Function.update_self]
      rw [ih hl]
      have hfilter : l.filter (fun j => k ∈ deps j ∧ Function.update m x (m x - 1) j = 1) =
          l.filter (fun j => k ∈ deps j ∧ m j = 1) := by
        apply List.filter_congr
        intro j hj
        simp [Function.update_of_ne (hne j hj)]
      rw [hfilter]
      refine Prod.ext (funext fun j => ?_) ?_
      · by_cases hj : j = x
        · subst hj
          simp [hx, hk]
        · simp [hj]
      · by_cases hm : m x = 1
        · simp [hk, hm]
        · have hm' : ¬ m x - 1 = 0 := by omega
          simp [hk, hm, hm']
    · simp only [relax, hk, ↓reduceIte]
      rw [ih hl]
      refine Prod.ext (funext fun j => ?_) ?_
      · by_cases hj : j = x
        · subst hj
          simp [hk]
        · simp [hj]
      · simp [hk]

theorem countP_eq_length_iff {visited : List α} (hv : visited.Nodup) (ds : List α) :
    visited.countP (· ∈ ds) = ds.length ↔ ds.Nodup ∧ ∀ d ∈ ds, d ∈ visited := by
  have hcount : visited.countP (· ∈ ds) = (visited.toFinset ∩ ds.toFinset).card := by
    rw [List.countP_eq_length_filter, ← List.toFinset_card_of_nodup (hv.filter _)]
    congr 1
    ext d
    simp
  have hsub : visited.toFinset ∩ ds.toFinset ⊆ ds.toFinset := Finset.inter_subset_right
  have hlen : ds.toFinset.card ≤ ds.length := List.toFinset_card_le ds
  rw [hcount]
  constructor
  · intro h
    have hcard : ds.toFinset.card = ds.length :=
      le_antisymm hlen (h ▸ Finset.card_le_card hsub)
    have hinter : visited.toFinset ∩ ds.toFinset = ds.toFinset :=
      Finset.eq_of_subset_of_card_le hsub (by omega)
    refine ⟨Multiset.coe_nodup.mp (Multiset.toFinset_card_eq_card_iff_nodup.mp hcard), fun d hd => ?_⟩
    have hmem : d ∈ visited.toFinset ∩ ds.toFinset := by rw [hinter]; simpa using hd
    simpa using (Finset.mem_inter.mp hmem).1
  · rintro ⟨hds, hall⟩
    have hinter : visited.toFinset ∩ ds.toFinset = ds.toFinset := by
      apply Finset.inter_eq_right.mpr
      intro d hd
      simpa using hall d (by simpa using hd)
    rw [hinter, List.toFinset_card_of_nodup hds]

structure Inv (nodes : List α) (deps : α → List α) (s : State α) : Prop where
  nodup : (s.visited ++ s.queue).Nodup
  mem : ∀ k, k ∈ s.visited ++ s.queue ↔ k ∈ nodes ∧ s.indeg k = 0
  indeg : ∀ k ∈ nodes, s.indeg k = (deps k).length - s.visited.countP (· ∈ deps k)
  topo : TopoOrder deps s.visited

theorem Inv.indeg_eq_zero {s : State α} (h : Inv nodes deps s) (k : α) (hk : k ∈ nodes) :
    s.indeg k = 0 ↔ (deps k).Nodup ∧ ∀ d ∈ deps k, d ∈ s.visited := by
  rw [← countP_eq_length_iff h.nodup.of_append_left, h.indeg k hk]
  omega

theorem start_inv (hn : nodes.Nodup) {order : List α} (ho : order.Perm nodes) :
    Inv nodes deps (start nodes deps order) where
  nodup := by simpa [start] using (ho.nodup_iff.mpr hn).filter _
  mem k := by simp [start, ho.mem_iff]
  indeg k hk := by simp [start, indegrees_eq hn k hk]
  topo := trivial

section Pop

variable {indeg : α → ℤ} {k : α} {q visited : List α}

theorem Inv.popped (h : Inv nodes deps ⟨indeg, k :: q, visited⟩) :
    k ∈ nodes ∧ indeg k = 0 ∧ k ∉ visited := by
  obtain ⟨hk, hzero⟩ := (h.mem k).mp (by simp)
  refine ⟨hk, hzero, fun hv => ?_⟩
  have hnodup := h.nodup
  simp only [List.nodup_append, List.mem_cons] at hnodup
  exact hnodup.2.2 k hv k (.inl rfl) rfl

theorem Inv.settled (h : Inv nodes deps ⟨indeg, k :: q, visited⟩) {j : α} (hj : j ∈ nodes)
    (hzero : indeg j = 0) : k ∉ deps j := by
  -- A node whose counter is 0 already has all its dependencies popped, so `k` is not among them.
  intro hk
  exact h.popped.2.2 (((h.indeg_eq_zero j hj).mp hzero).2 k hk)

theorem Inv.nodup_pop (h : Inv nodes deps ⟨indeg, k :: q, visited⟩) (hn : nodes.Nodup) :
    (k :: visited ++ (q ++ nodes.filter (fun j => k ∈ deps j ∧ indeg j = 1))).Nodup := by
  have hperm : (k :: visited ++ (q ++ nodes.filter (fun j => k ∈ deps j ∧ indeg j = 1))).Perm
      ((visited ++ k :: q) ++ nodes.filter (fun j => k ∈ deps j ∧ indeg j = 1)) := by
    rw [← List.append_assoc]
    exact (List.perm_middle.symm).append_right _
  rw [hperm.nodup_iff, List.nodup_append]
  refine ⟨h.nodup, hn.filter _, ?_⟩
  rintro j hj i hi rfl
  have h0 := ((h.mem j).mp hj).2
  simp only [List.mem_filter, decide_eq_true_eq] at hi
  simp only at h0
  omega

theorem Inv.mem_pop (h : Inv nodes deps ⟨indeg, k :: q, visited⟩) (j : α) :
    j ∈ k :: visited ++ (q ++ nodes.filter (fun j => k ∈ deps j ∧ indeg j = 1)) ↔
      j ∈ nodes ∧ (if j ∈ nodes ∧ k ∈ deps j then indeg j - 1 else indeg j) = 0 := by
  have hold : j = k ∨ j ∈ visited ∨ j ∈ q ↔ j ∈ nodes ∧ indeg j = 0 := by
    rw [← h.mem j]
    simp only [List.mem_append, List.mem_cons]
    tauto
  simp only [List.cons_append, List.mem_cons, List.mem_append, List.mem_filter, decide_eq_true_eq]
  rw [← or_assoc, ← or_assoc, or_assoc (a := j = k), hold]
  by_cases hj : j ∈ nodes
  · by_cases hk : k ∈ deps j
    · have hne : indeg j ≠ 0 := fun hzero => h.settled hj hzero hk
      simp only [hj, hk, true_and, and_self, ↓reduceIte, hne, false_or]
      omega
    · simp [hj, hk]
  · simp [hj]

theorem Inv.indeg_pop (h : Inv nodes deps ⟨indeg, k :: q, visited⟩) {j : α} (hj : j ∈ nodes) :
    (if j ∈ nodes ∧ k ∈ deps j then indeg j - 1 else indeg j) =
      (deps j).length - (k :: visited).countP (· ∈ deps j) := by
  have hcount := h.indeg j hj
  by_cases hk : k ∈ deps j
  · simp only [hj, hk, and_self, ↓reduceIte, List.countP_cons, decide_true] at hcount ⊢
    omega
  · simp only [hk, and_false, ↓reduceIte, List.countP_cons, decide_false] at hcount ⊢
    simpa using hcount

end Pop

theorem step_inv (hn : nodes.Nodup) {s t : State α} (h : Inv nodes deps s)
    (hs : step nodes deps s = .inl t) : Inv nodes deps t ∧ t.visited.length = s.visited.length + 1 := by
  obtain ⟨indeg, queue, visited⟩ := s
  cases queue with
  | nil => simp [step] at hs
  | cons k q =>
    simp only [step, foldl_relax k nodes hn, Sum.inl.injEq] at hs
    subst hs
    obtain ⟨hk, hzero, _⟩ := h.popped
    have hdeps : ∀ d ∈ deps k, d ∈ visited := ((h.indeg_eq_zero k hk).mp hzero).2
    exact ⟨⟨h.nodup_pop hn, h.mem_pop, fun j hj => h.indeg_pop hj, hdeps, h.topo⟩, rfl⟩

theorem visited_length_le {s : State α} (h : Inv nodes deps s) : s.visited.length ≤ nodes.length :=
  (List.subperm_of_subset h.nodup.of_append_left
    (fun k hk => ((h.mem k).mp (List.mem_append_left _ hk)).1)).length_le

theorem run_spec (deps : α → List α) (fuel : ℕ) (hn : nodes.Nodup) {order : List α}
    (ho : order.Perm nodes) (hf : nodes.length < fuel) :
    ∃ l, run nodes deps order fuel = some l ∧ l.Nodup ∧
      (∀ k, k ∈ l ↔ k ∈ nodes ∧ (deps k).Nodup ∧ ∀ d ∈ deps k, d ∈ l) ∧ TopoOrder deps l := by
  refine loop_total (Inv nodes deps) (fun s => nodes.length - s.visited.length) _ ?_ ?_ fuel _
    (start_inv hn ho) ?_
  · intro s t hs hst
    obtain ⟨ht, hlen⟩ := step_inv hn hs hst
    have := visited_length_le ht
    exact ⟨ht, by omega⟩
  · rintro ⟨indeg, queue, visited⟩ l hs hsl
    cases queue with
    | cons k q => simp [step] at hsl
    | nil =>
      simp only [step, Sum.inr.injEq] at hsl
      subst hsl
      refine ⟨by simpa using hs.nodup, fun k => ?_, hs.topo⟩
      have hmem := hs.mem k
      simp only [List.append_nil] at hmem
      rw [hmem]
      exact and_congr_right fun hk => hs.indeg_eq_zero k hk
  · simp only [start, List.length_nil]
    omega

theorem length_eq_iff (hclosed : ∀ k ∈ nodes, ∀ d ∈ deps k, d ∈ nodes) {l : List α} (hl : l.Nodup)
    (hmem : ∀ k, k ∈ l ↔ k ∈ nodes ∧ (deps k).Nodup ∧ ∀ d ∈ deps k, d ∈ l)
    (htopo : TopoOrder deps l) (hn : nodes.Nodup) :
    l.length = nodes.length ↔ (∀ k ∈ nodes, (deps k).Nodup) ∧ ¬ HasCycle nodes deps := by
  have hsub : l.Subperm nodes := List.subperm_of_subset hl (fun k hk => ((hmem k).mp hk).1)
  constructor
  · intro hlen
    have hall : ∀ k ∈ nodes, k ∈ l := fun k hk =>
      (hsub.perm_of_length_le hlen.ge).mem_iff.mpr hk
    exact ⟨fun k hk => ((hmem k).mp (hall k hk)).2.1, topoOrder_no_cycle htopo hall⟩
  · rintro ⟨hnodup, hcycle⟩
    have hall : ∀ k ∈ nodes, k ∈ l := by
      by_contra hmissing
      push Not at hmissing
      obtain ⟨k, hk, hkl⟩ := hmissing
      obtain ⟨u, ⟨hu, hul⟩, hsource⟩ := exists_source hcycle (U := {j | j ∈ nodes ∧ j ∉ l})
        ⟨k, hk, hkl⟩ (fun j hj => hj.1)
      refine hul ((hmem u).mpr ⟨hu, hnodup u hu, fun d hd => ?_⟩)
      by_contra hdl
      exact hsource d hd ⟨hclosed u hu d hd, hdl⟩
    exact le_antisymm hsub.length_le (List.subperm_of_subset hn hall).length_le

end Kahn

import NexusRT.Library.Dependencies

namespace Dependencies

inductive Outcome
  | waiting | done | failed
  deriving DecidableEq

variable {α : Type} {nodes : List α} {deps : α → List α} {s t : α → Outcome} {k : α}

structure Settled (nodes : List α) (deps : α → List α) (s : α → Outcome) : Prop where
  closed : ∀ k ∈ nodes, ∀ d ∈ deps k, d ∈ nodes
  acyclic : ¬ HasCycle nodes deps
  started : ∀ k ∈ nodes, s k ≠ .waiting ↔ ∀ d ∈ deps k, s d = .done

theorem Settled.source (h : Settled nodes deps s) {P : α → Prop} (hk : k ∈ nodes) (hP : ¬ P k) :
    ∃ u ∈ nodes, ¬ P u ∧ ∀ d ∈ deps u, P d := by
  let U : Set α := {u | u ∈ nodes ∧ ¬ P u}
  have hU : U.Nonempty := ⟨k, hk, hP⟩
  obtain ⟨u, ⟨hu, hPu⟩, hsource⟩ := exists_source h.acyclic hU fun v hv => hv.1
  refine ⟨u, hu, hPu, fun d hd => ?_⟩
  by_contra hPd
  exact hsource d hd ⟨h.closed u hu d hd, hPd⟩

theorem Settled.unique (hs : Settled nodes deps s) (ht : Settled nodes deps t)
    (hagree : ∀ k ∈ nodes, s k ≠ .waiting → t k ≠ .waiting → s k = t k) (hk : k ∈ nodes) :
    s k = t k := by
  by_contra hne
  obtain ⟨u, hu, hneu, hdeps⟩ := hs.source (P := fun j => s j = t j) hk hne
  have hiff : s u ≠ .waiting ↔ t u ≠ .waiting := by
    rw [hs.started u hu, ht.started u hu]
    exact forall₂_congr fun d hd => by rw [hdeps d hd]
  by_cases hwait : s u = .waiting
  · have hwait' : t u = .waiting := by
      by_contra h
      exact hiff.mpr h hwait
    exact hneu (hwait.trans hwait'.symm)
  · exact hneu (hagree u hu hwait (hiff.mp hwait))

theorem Settled.done_of_path (h : Settled nodes deps s) {d : α}
    (hpath : Relation.ReflTransGen (Edge nodes deps) d k) (hk : s k = .done) : s d = .done := by
  induction hpath with
  | refl => exact hk
  | tail _ hedge ih =>
    obtain ⟨hj, hd⟩ := hedge
    exact ih ((h.started _ hj).mp (by rw [hk]; decide) _ hd)

theorem Settled.done_iff (h : Settled nodes deps s) (hk : k ∈ nodes) :
    s k = .done ↔ ∀ d, Relation.ReflTransGen (Edge nodes deps) d k → s d ≠ .failed := by
  constructor
  · intro hdone d hpath
    rw [h.done_of_path hpath hdone]
    decide
  · intro hclean
    by_contra hnot
    obtain ⟨u, hu, hbad, hdeps⟩ := h.source
      (P := fun j => (∀ d, Relation.ReflTransGen (Edge nodes deps) d j → s d ≠ .failed) →
        s j = .done) hk (fun hP => hnot (hP hclean))
    rw [Classical.not_imp] at hbad
    obtain ⟨hcleanu, hu'⟩ := hbad
    have hall : ∀ d ∈ deps u, s d = .done :=
      fun d hd => hdeps d hd fun e he => hcleanu e (he.tail ⟨hu, hd⟩)
    have hstarted := (h.started u hu).mpr hall
    have hself := hcleanu u .refl
    cases hsu : s u with
    | waiting => exact hstarted hsu
    | done => exact hu' hsu
    | failed => exact hself hsu

theorem Settled.waiting_iff (h : Settled nodes deps s) (hk : k ∈ nodes) :
    s k = .waiting ↔ ∃ d, Relation.TransGen (Edge nodes deps) d k ∧ s d = .failed := by
  constructor
  · intro hwait
    have hnot := mt (h.started k hk).mpr (not_not.mpr hwait)
    push Not at hnot
    obtain ⟨d, hd, hundone⟩ := hnot
    have hpath := mt (h.done_iff (h.closed k hk d hd)).mpr hundone
    push Not at hpath
    obtain ⟨e, he, hfailed⟩ := hpath
    exact ⟨e, Relation.TransGen.tail' he ⟨hk, hd⟩, hfailed⟩
  · rintro ⟨e, hpath, hfailed⟩
    by_contra hstarted
    obtain ⟨d, he, _, hd⟩ := Relation.TransGen.tail'_iff.mp hpath
    have hdone := h.done_of_path he ((h.started k hk).mp hstarted d hd)
    rw [hdone] at hfailed
    cases hfailed

end Dependencies

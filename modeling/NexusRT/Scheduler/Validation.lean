import NexusRT.Scheduler.TaskGraph

namespace NexusRT.Scheduler.TaskGraph

open Dependencies

def Missing (g : TaskGraph) : Prop :=
  ∃ k n, g.nodes.find k = some n ∧ ∃ d ∈ n.contract.dependsOn, g.nodes.find d = none

def Cyclic (g : TaskGraph) : Prop := HasCycle g.nodes.keys g.dependsOn

def Repeats (g : TaskGraph) : Prop :=
  ∃ k n, g.nodes.find k = some n ∧ ¬ n.contract.dependsOn.Nodup

theorem dependsOn_of_find {g : TaskGraph} {k : String} {n : StageNode} (h : g.nodes.find k = some n) :
    g.dependsOn k = n.contract.dependsOn := by
  simp [dependsOn, h]

theorem missing_iff (g : TaskGraph) : g.Missing ↔ g.nodes.entries.any
    (fun e => e.2.contract.dependsOn.any (fun d => !g.nodes.contains d)) = true := by
  simp only [Missing, List.any_eq_true, Bool.not_eq_true', Table.contains,
    Option.isSome_eq_false_iff, Option.isNone_iff_eq_none]
  constructor
  · rintro ⟨k, n, hk, hd⟩
    exact ⟨(k, n), (g.nodes.mem_entries k n).mpr hk, hd⟩
  · rintro ⟨⟨k, n⟩, he, hd⟩
    exact ⟨k, n, (g.nodes.mem_entries k n).mp he, hd⟩

theorem closed_of_not_missing {g : TaskGraph} (h : ¬ g.Missing) :
    ∀ k ∈ g.nodes.keys, ∀ d ∈ g.dependsOn k, d ∈ g.nodes.keys := by
  intro k hk d hd
  obtain ⟨n, hn⟩ := (g.nodes.mem_keys_iff k).mp hk
  rw [dependsOn_of_find hn] at hd
  by_contra hmissing
  exact h ⟨k, n, hn, d, hd, Table.not_mem_keys.mp hmissing⟩

theorem visited_eq_size_iff {g : TaskGraph} (h : ¬ g.Missing) :
    g.visited = g.nodes.size ↔ ¬ g.Repeats ∧ ¬ g.Cyclic := by
  obtain ⟨l, hrun, hl, hmem, htopo⟩ := Kahn.run_spec g.dependsOn (g.nodes.size + 1) g.nodes.nodup
    (List.perm_insertionSort (· ≤ ·) g.nodes.keys) (Nat.lt_succ_self _)
  have hvisited : g.visited = l.length := by simp [visited, hrun]
  rw [hvisited, Table.size, Kahn.length_eq_iff (closed_of_not_missing h) hl hmem htopo g.nodes.nodup]
  apply and_congr_left'
  constructor
  · rintro hnodup ⟨k, n, hk, hn⟩
    exact hn (dependsOn_of_find hk ▸ hnodup k (Table.mem_keys_of_find hk))
  · intro hrepeats k hk
    obtain ⟨n, hn⟩ := (g.nodes.mem_keys_iff k).mp hk
    rw [dependsOn_of_find hn]
    by_contra hdup
    exact hrepeats ⟨k, n, hn, hdup⟩

theorem validate_invalid_iff (dev : DeviceDesc) (g : TaskGraph) :
    (g.validate dev).1 = .invalidArgument ↔ g.Missing ∨ g.Repeats ∨ g.Cyclic := by
  rw [validate]
  by_cases hm : g.Missing
  · simp [(missing_iff g).mp hm, hm]
  · have hmissing := (not_congr (missing_iff g)).mp hm
    rw [if_neg hmissing]
    by_cases hv : g.visited = g.nodes.size
    · have hgood := (visited_eq_size_iff hm).mp hv
      rw [if_neg (by simpa using hv)]
      split <;> simp [hm, hgood]
    · rw [if_pos hv]
      have hbad := (not_congr (visited_eq_size_iff hm)).mp hv
      simp only [true_iff]
      tauto

theorem validate_ok {dev : DeviceDesc} {g g' : TaskGraph} (h : (.ok, g') = g.validate dev) :
    g' = { g with validated := true } ∧ ¬ g.Missing ∧ ¬ g.Cyclic := by
  have hvalid : ¬ (g.validate dev).1 = .invalidArgument := by rw [← h]; simp
  rw [validate_invalid_iff] at hvalid
  refine ⟨?_, by tauto, by tauto⟩
  rw [validate] at h
  split at h
  · simp at h
  · split at h
    · simp at h
    · split at h
      · simp at h
      · simpa using h

theorem validate_eq_of_ok {dev : DeviceDesc} {g : TaskGraph} (h : (g.validate dev).1 = .ok) :
    (.ok, { g with validated := true }) = g.validate dev :=
  Prod.ext h.symm (validate_ok (Prod.ext h.symm rfl)).1.symm

theorem validate_not_ok {dev : DeviceDesc} {g g' : TaskGraph} {s : Status}
    (h : (s, g') = g.validate dev) (hs : s ≠ .ok) : g' = g := by
  rw [validate] at h
  split at h
  · simp_all
  · split at h
    · simp_all
    · split at h <;> simp_all

theorem validate_rejects_iff (dev : DeviceDesc) (g : TaskGraph) :
    ((g.validate dev).1 = .invalidArgument ↔ g.Missing ∨ g.Cyclic) ↔
      g.Missing ∨ g.Cyclic ∨ ¬ g.Repeats := by
  rw [validate_invalid_iff]
  tauto

def repeated : TaskGraph :=
  ((TaskGraph.addStage {} { name := "a" }).2.addStage { name := "b", dependsOn := ["a", "a"] }).2

theorem validate_rejects_repeated :
    ¬ ∀ (dev : DeviceDesc) (g : TaskGraph),
      (g.validate dev).1 = .invalidArgument ↔ g.Missing ∨ g.Cyclic := by
  intro h
  have hstatus : (repeated.validate {}).1 = .invalidArgument := by decide
  rcases (h {} repeated).mp hstatus with hmissing | hcyclic
  · rw [missing_iff] at hmissing
    exact absurd hmissing (by decide)
  · refine topoOrder_no_cycle (l := ["b", "a"]) ?_ ?_ hcyclic
    · exact ⟨by decide, by decide, trivial⟩
    · decide

end NexusRT.Scheduler.TaskGraph

import Mathlib.Algebra.Ring.Nat
import Mathlib.Data.Finset.Card
import Mathlib.Data.List.Perm.Basic

/-- A finite map with the order in which its keys are visited. -/
structure Table (κ ν : Type) where
  find : κ → Option ν
  keys : List κ
  nodup : keys.Nodup
  mem_keys : ∀ k, k ∈ keys ↔ (find k).isSome = true

namespace Table

variable {κ ν : Type}

def empty : Table κ ν := ⟨fun _ => none, [], List.nodup_nil, by simp⟩

def size (t : Table κ ν) : ℕ := t.keys.length

def contains (t : Table κ ν) (k : κ) : Bool := (t.find k).isSome

def entries (t : Table κ ν) : List (κ × ν) := t.keys.filterMap (fun k => (t.find k).map (k, ·))

def count (t : Table κ ν) (p : ν → Bool) : ℕ := t.keys.countP (fun k => (t.find k).any p)

def total (t : Table κ ν) (f : ν → ℕ) : ℕ := (t.keys.map (fun k => ((t.find k).map f).getD 0)).sum

@[simp] theorem find_empty (k : κ) : (empty : Table κ ν).find k = none := rfl

theorem mem_keys_iff (t : Table κ ν) (k : κ) : k ∈ t.keys ↔ ∃ v, t.find k = some v := by
  rw [t.mem_keys, Option.isSome_iff_exists]

theorem mem_keys_of_find {t : Table κ ν} {k : κ} {v : ν} (h : t.find k = some v) : k ∈ t.keys :=
  (t.mem_keys_iff k).mpr ⟨v, h⟩

theorem not_mem_keys {t : Table κ ν} {k : κ} : k ∉ t.keys ↔ t.find k = none := by
  rw [t.mem_keys, Option.not_isSome_iff_eq_none]

@[simp] theorem mem_entries (t : Table κ ν) (k : κ) (v : ν) :
    (k, v) ∈ t.entries ↔ t.find k = some v := by
  simp only [entries, List.mem_filterMap, Option.map_eq_some_iff, Prod.mk.injEq]
  constructor
  · rintro ⟨j, _, w, hw, rfl, rfl⟩
    exact hw
  · intro h
    exact ⟨k, mem_keys_of_find h, v, h, rfl, rfl⟩

theorem map_fst_entries (t : Table κ ν) : t.entries.map Prod.fst = t.keys := by
  rw [entries, List.map_filterMap]
  have hself : t.keys.filterMap (fun k => ((t.find k).map (k, ·)).map Prod.fst) = t.keys.map id := by
    rw [List.filterMap_eq_map_iff_forall_eq_some]
    intro k hk
    obtain ⟨v, hv⟩ := (t.mem_keys_iff k).mp hk
    simp [hv]
  rw [hself, List.map_id]

theorem keys_perm {t u : Table κ ν} (h : t.find = u.find) : t.keys.Perm u.keys := by
  rw [List.perm_ext_iff_of_nodup t.nodup u.nodup]
  intro k
  rw [t.mem_keys, u.mem_keys, h]

def modify [DecidableEq κ] (t : Table κ ν) (k : κ) (f : ν → ν) : Table κ ν where
  find j := if j = k then (t.find k).map f else t.find j
  keys := t.keys
  nodup := t.nodup
  mem_keys j := by
    rw [t.mem_keys]
    by_cases hj : j = k
    · simp [hj]
    · simp [hj]

def reorder (t : Table κ ν) (order : List κ) (h : order.Perm t.keys) : Table κ ν where
  find := t.find
  keys := order
  nodup := h.nodup_iff.mpr t.nodup
  mem_keys k := by rw [h.mem_iff, t.mem_keys]

section Update

variable [DecidableEq κ]

def insert (t : Table κ ν) (k : κ) (v : ν) : Table κ ν where
  find j := if j = k then some v else t.find j
  keys := if k ∈ t.keys then t.keys else k :: t.keys
  nodup := by
    split
    · exact t.nodup
    · next h => exact List.nodup_cons.mpr ⟨h, t.nodup⟩
  mem_keys j := by
    by_cases hk : k ∈ t.keys <;> by_cases hj : j = k <;> simp [hk, hj, t.mem_keys]

def erase (t : Table κ ν) (k : κ) : Table κ ν where
  find j := if j = k then none else t.find j
  keys := t.keys.erase k
  nodup := t.nodup.erase k
  mem_keys j := by
    rw [t.nodup.mem_erase_iff, t.mem_keys]
    by_cases hj : j = k <;> simp [hj]

@[simp] theorem find_insert (t : Table κ ν) (k j : κ) (v : ν) :
    (t.insert k v).find j = if j = k then some v else t.find j := rfl

@[simp] theorem find_erase (t : Table κ ν) (k j : κ) :
    (t.erase k).find j = if j = k then none else t.find j := rfl

theorem contains_insert (t : Table κ ν) (k j : κ) (v : ν) :
    (t.insert k v).contains j = (j = k || t.contains j) := by
  rw [contains, find_insert]
  split <;> simp_all [contains]

theorem contains_erase (t : Table κ ν) (k j : κ) :
    (t.erase k).contains j = (j ≠ k && t.contains j) := by
  rw [contains, find_erase]
  split <;> simp_all [contains]

theorem find_of_find_erase {t : Table κ ν} {k j : κ} {v : ν} (h : (t.erase k).find j = some v) :
    t.find j = some v := by
  rw [find_erase] at h
  split at h
  · exact absurd h (by simp)
  · exact h

@[simp] theorem find_modify (t : Table κ ν) (k j : κ) (f : ν → ν) :
    (t.modify k f).find j = if j = k then (t.find k).map f else t.find j := rfl

end Update

theorem entries_reorder (t : Table κ ν) (order : List κ) (h : order.Perm t.keys) :
    (t.reorder order h).entries.Perm t.entries :=
  h.filterMap _

theorem size_insert_fresh [DecidableEq κ] {t : Table κ ν} {k : κ} (h : t.find k = none) (v : ν) :
    (t.insert k v).size = t.size + 1 := by
  have hkeys : (t.insert k v).keys = k :: t.keys := if_neg (not_mem_keys.mpr h)
  rw [size, hkeys, List.length_cons, size]

theorem entries_insert_fresh [DecidableEq κ] {t : Table κ ν} {k : κ} (h : t.find k = none) (v : ν) :
    (t.insert k v).entries = (k, v) :: t.entries := by
  have hk : k ∉ t.keys := not_mem_keys.mpr h
  have hkeys : (t.insert k v).keys = k :: t.keys := if_neg hk
  have hrest : t.keys.filterMap (fun j => ((t.insert k v).find j).map (j, ·)) = t.entries := by
    apply List.filterMap_congr
    intro j hj
    have hjk : j ≠ k := fun heq => hk (heq ▸ hj)
    rw [find_insert, if_neg hjk]
  rw [entries, hkeys, List.filterMap_cons, hrest, find_insert, if_pos rfl]
  rfl

theorem entries_erase_found [DecidableEq κ] {t : Table κ ν} {k : κ} {v : ν} (h : t.find k = some v) :
    t.entries.Perm ((k, v) :: (t.erase k).entries) := by
  have hrest : (t.erase k).entries = (t.keys.erase k).filterMap fun j => (t.find j).map (j, ·) := by
    apply List.filterMap_congr
    intro j hj
    rw [find_erase, if_neg (t.nodup.mem_erase_iff.mp hj).1]
  have hperm := (List.perm_cons_erase (mem_keys_of_find h)).filterMap fun j => (t.find j).map (j, ·)
  rw [List.filterMap_cons, h] at hperm
  rw [hrest]
  exact hperm

def holding (t : Table κ ν) (p : ν → Bool) : List κ := t.keys.filter (fun k => (t.find k).any p)

theorem mem_holding (t : Table κ ν) (p : ν → Bool) (k : κ) :
    k ∈ t.holding p ↔ ∃ v, t.find k = some v ∧ p v = true := by
  rw [holding, List.mem_filter, mem_keys]
  cases t.find k <;> simp

theorem nodup_holding (t : Table κ ν) (p : ν → Bool) : (t.holding p).Nodup := t.nodup.filter _

theorem length_holding (t : Table κ ν) (p : ν → Bool) : (t.holding p).length = t.count p :=
  List.countP_eq_length_filter.symm

theorem count_eq_zero (t : Table κ ν) (p : ν → Bool) :
    t.count p = 0 ↔ ∀ k v, t.find k = some v → p v = false := by
  rw [← length_holding, List.length_eq_zero_iff, List.eq_nil_iff_forall_not_mem]
  simp only [mem_holding, not_exists, not_and, Bool.not_eq_true]

theorem count_mono (t : Table κ ν) {p q : ν → Bool} (h : ∀ v, p v = true → q v = true) :
    t.count p ≤ t.count q := by
  apply List.countP_mono_left
  intro k _ hk
  obtain ⟨v, hv, hp⟩ := (Option.any_eq_true _ _).mp hk
  exact (Option.any_eq_true _ _).mpr ⟨v, hv, h v hp⟩

theorem map_filterMap_entries (t : Table κ ν) {β : Type} {f : κ × ν → Option β} {g : β → κ}
    {p : ν → Bool} (hf : ∀ k v, (f (k, v)).map g = if p v = true then some k else none) :
    (t.entries.filterMap f).map g = t.holding p := by
  rw [entries, holding, ← List.filterMap_eq_filter, List.filterMap_filterMap, List.map_filterMap]
  apply List.filterMap_congr
  intro k _
  cases hfind : t.find k with
  | none => simp [Option.guard, hfind]
  | some v => simp [Option.guard, hfind, hf]

theorem count_of_removed {t u : Table κ ν} {p : ν → Bool} {ks : List κ} (hks : ks.Nodup)
    (hin : ∀ k ∈ ks, k ∈ t.holding p) (hu : ∀ k, k ∈ u.holding p ↔ k ∈ t.holding p ∧ k ∉ ks) :
    u.count p + ks.length = t.count p := by
  have hperm : (u.holding p ++ ks).Perm (t.holding p) := by
    rw [List.perm_ext_iff_of_nodup _ (t.nodup_holding p)]
    · intro k
      rw [List.mem_append, hu]
      constructor
      · rintro (⟨hk, _⟩ | hk)
        · exact hk
        · exact hin k hk
      · intro hk
        by_cases hin : k ∈ ks
        · exact .inr hin
        · exact .inl ⟨hk, hin⟩
    · apply List.nodup_append'.mpr
      exact ⟨u.nodup_holding p, hks, fun k hk hks => ((hu k).mp hk).2 hks⟩
  rw [← length_holding, ← length_holding, ← List.length_append, hperm.length_eq]

theorem total_eq_of_find {t u : Table κ ν} (h : t.find = u.find) (f : ν → ℕ) :
    t.total f = u.total f := by
  rw [total, total, h]
  exact ((keys_perm h).map _).sum_nat

theorem count_eq_total (t : Table κ ν) (p : ν → Bool) : t.count p = t.total (fun v => (p v).toNat) := by
  rw [count, total]
  induction t.keys with
  | nil => rfl
  | cons k l ih =>
    rw [List.countP_cons, List.map_cons, List.sum_cons, ih, Nat.add_comm]
    congr 1
    cases t.find k with
    | none => rfl
    | some v => cases hp : p v <;> simp [hp]

section ModifyAll

variable [DecidableEq κ]

def modifyAll (t : Table κ ν) (ks : List κ) (f : ν → ν) : Table κ ν :=
  ks.foldl (fun t k => t.modify k f) t

theorem find_modifyAll (t : Table κ ν) {ks : List κ} (hks : ks.Nodup) (f : ν → ν) (k : κ) :
    (t.modifyAll ks f).find k = if k ∈ ks then (t.find k).map f else t.find k := by
  induction ks generalizing t with
  | nil => rfl
  | cons j ks ih =>
    obtain ⟨hj, hks⟩ := List.nodup_cons.mp hks
    rw [modifyAll, List.foldl_cons, ← modifyAll, ih _ hks, find_modify]
    by_cases hkj : k = j
    · subst hkj
      simp [hj]
    · simp [hkj]

theorem count_modifyAll (t : Table κ ν) {ks : List κ} (hks : ks.Nodup) {f : ν → ν} {p : ν → Bool}
    (hin : ∀ k ∈ ks, k ∈ t.holding p) (hf : ∀ v, p (f v) = false) :
    (t.modifyAll ks f).count p + ks.length = t.count p := by
  apply count_of_removed hks hin
  intro k
  rw [mem_holding, mem_holding, find_modifyAll t hks]
  by_cases hk : k ∈ ks
  · simp [hk, hf]
  · simp [hk]

end ModifyAll

section Total

variable [DecidableEq κ]

theorem total_erase (t : Table κ ν) (k : κ) (f : ν → ℕ) :
    t.total f = (t.erase k).total f + ((t.find k).map f).getD 0 := by
  have hrest : (t.erase k).total f =
      ((t.keys.erase k).map (fun j => ((t.find j).map f).getD 0)).sum := by
    rw [total]
    congr 1
    apply List.map_congr_left
    intro j hj
    rw [find_erase, if_neg (t.nodup.mem_erase_iff.mp hj).1]
  rw [hrest, total]
  by_cases hk : k ∈ t.keys
  · rw [((List.perm_cons_erase hk).map _).sum_nat, List.map_cons, List.sum_cons, Nat.add_comm]
  · rw [List.erase_of_not_mem hk, not_mem_keys.mp hk]
    rfl

theorem total_of_find_off {t u : Table κ ν} (k : κ) (h : ∀ j, j ≠ k → u.find j = t.find j)
    (f : ν → ℕ) : u.total f + ((t.find k).map f).getD 0 = t.total f + ((u.find k).map f).getD 0 := by
  have hoff : (u.erase k).find = (t.erase k).find := by
    funext j
    by_cases hj : j = k
    · simp [hj]
    · simp [hj, h j hj]
  rw [total_erase u k f, total_erase t k f, total_eq_of_find hoff f]
  omega

theorem count_of_find_off {t u : Table κ ν} (k : κ) (h : ∀ j, j ≠ k → u.find j = t.find j)
    (p : ν → Bool) :
    u.count p + ((t.find k).any p).toNat = t.count p + ((u.find k).any p).toNat := by
  have hshare (o : Option ν) : (o.any p).toNat = (o.map (fun v => (p v).toNat)).getD 0 := by
    cases o <;> rfl
  rw [count_eq_total, count_eq_total, hshare, hshare]
  exact total_of_find_off k h _

theorem count_insert_fresh {t : Table κ ν} {k : κ} (h : t.find k = none) (v : ν) (p : ν → Bool) :
    (t.insert k v).count p = t.count p + (p v).toNat := by
  have hoff := count_of_find_off (t := t) (u := t.insert k v) k (fun j hj => by simp [hj]) p
  simpa [h] using hoff

theorem count_erase_found {t : Table κ ν} {k : κ} {v : ν} (h : t.find k = some v) (p : ν → Bool) :
    t.count p = (t.erase k).count p + (p v).toNat := by
  have hoff := count_of_find_off (t := t) (u := t.erase k) k (fun j hj => by simp [hj]) p
  simpa [h] using hoff.symm

theorem total_insert_fresh {t : Table κ ν} {k : κ} (h : t.find k = none) (v : ν) (f : ν → ℕ) :
    (t.insert k v).total f = t.total f + f v := by
  have hoff := total_of_find_off (t := t) (u := t.insert k v) k (fun j hj => by simp [hj]) f
  simpa [h] using hoff

theorem total_erase_found {t : Table κ ν} {k : κ} {v : ν} (h : t.find k = some v) (f : ν → ℕ) :
    t.total f = (t.erase k).total f + f v := by
  simpa [h] using t.total_erase k f

theorem count_insert_getD (t : Table κ ν) (k : κ) (v : ν) {f : ν → ν} {p : ν → Bool}
    (hf : ∀ w, p (f w) = p w) (hv : p v = false) :
    (t.insert k (f ((t.find k).getD v))).count p = t.count p := by
  have hoff := count_of_find_off (t := t) (u := t.insert k (f ((t.find k).getD v))) k
    (fun j hj => by simp [hj]) p
  simp only [find_insert, ↓reduceIte, Option.any_some, hf] at hoff
  cases hfind : t.find k with
  | none => simpa [hfind, hv] using hoff
  | some w => simpa [hfind] using hoff

theorem count_modify (t : Table κ ν) (k : κ) {f : ν → ν} {p : ν → Bool} (hf : ∀ w, p (f w) = p w) :
    (t.modify k f).count p = t.count p := by
  have hoff := count_of_find_off (t := t) (u := t.modify k f) k (fun j hj => by simp [hj]) p
  cases hfind : t.find k with
  | none => simpa [hfind] using hoff
  | some w => simpa [hfind, hf] using hoff

end Total

end Table

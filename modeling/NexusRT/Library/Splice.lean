import Mathlib.Data.List.Basic

variable {α : Type} {z : α} {l l' data : List α} {pos : ℕ}

def slice (l : List α) (pos n : ℕ) : List α := (l.drop pos).take n

/-- A gap in front of the position is filled with `z`; writing nothing makes no gap. -/
def splice (z : α) (l : List α) (pos : ℕ) (data : List α) : List α :=
  if data.isEmpty then l else (l.rightpad pos z).take pos ++ data ++ l.drop (pos + data.length)

structure Written (z : α) (l : List α) (pos : ℕ) (data l' : List α) : Prop where
  region : ∀ i < data.length, l'[pos + i]? = data[i]?
  rest : ∀ i < l.length, i < pos ∨ pos + data.length ≤ i → l'[i]? = l[i]?
  gap : ∀ i < l'.length, l.length ≤ i → i < pos → l'[i]? = some z
  size : l'.length = if data.isEmpty then l.length else max l.length (pos + data.length)

structure Coincides (l data : List α) (pos : ℕ) : Prop where
  inside : pos + data.length ≤ l.length
  before : ∀ i < min pos data.length, data[i]? = l[i]?
  region : slice (data ++ l.drop data.length) pos data.length = data

theorem length_rightpad_take (z : α) (l : List α) (pos : ℕ) :
    ((l.rightpad pos z).take pos).length = pos := by
  rw [List.length_take, List.length_rightpad]
  omega

theorem getElem?_rightpad_take {i : ℕ} (hi : i < pos) :
    ((l.rightpad pos z).take pos)[i]? = if i < l.length then l[i]? else some z := by
  rw [List.getElem?_take_of_lt hi, List.rightpad, List.getElem?_append]
  split
  · rfl
  · rw [List.getElem?_replicate_of_lt]
    omega

theorem splice_of_ne_nil (hne : data ≠ []) : splice z l pos data =
    (l.rightpad pos z).take pos ++ data ++ l.drop (pos + data.length) := by
  rw [splice, if_neg (by simpa using hne)]

theorem written_splice (z : α) (l : List α) (pos : ℕ) (data : List α) :
    Written z l pos data (splice z l pos data) := by
  by_cases hne : data = []
  · subst hne
    exact ⟨nofun, fun _ _ _ => rfl, fun i hi hle => absurd hi (Nat.not_lt.mpr hle), rfl⟩
  have hpre := length_rightpad_take z l pos
  rw [splice_of_ne_nil hne]
  refine ⟨fun i hi => ?_, fun i hi hout => ?_, fun i _ hle hlt => ?_, ?_⟩
  · rw [List.append_assoc, List.getElem?_append_right (by omega), List.getElem?_append_left (by omega)]
    congr 1
    omega
  · rcases hout with hlt | hge
    · rw [List.append_assoc, List.getElem?_append_left (by omega), getElem?_rightpad_take hlt, if_pos hi]
    · rw [List.getElem?_append_right (by rw [List.length_append]; omega), List.getElem?_drop]
      congr 1
      rw [List.length_append]
      omega
  · rw [List.append_assoc, List.getElem?_append_left (by omega), getElem?_rightpad_take hlt,
      if_neg (by omega)]
  · rw [if_neg (by simpa using hne), List.length_append, List.length_append, hpre, List.length_drop]
    omega

theorem Written.slice_eq (h : Written z l pos data l') : slice l' pos data.length = data := by
  apply List.ext_getElem?
  intro i
  rw [slice, List.getElem?_take]
  split
  · next hi => rw [List.getElem?_drop, h.region i hi]
  · next hi => rw [List.getElem?_eq_none (Nat.not_lt.mp hi)]

theorem Written.le (h : Written z l pos data l') (hne : data ≠ []) : pos + data.length ≤ l'.length := by
  rw [h.size, if_neg (by simpa using hne)]
  exact Nat.le_max_right _ _

theorem splice_start (hne : data ≠ []) : splice z l 0 data = data ++ l.drop data.length := by
  rw [splice_of_ne_nil hne, List.take_zero, List.nil_append, Nat.zero_add]

theorem Coincides.written (h : Coincides l data pos) : Written z l pos data (data ++ l.drop data.length) := by
  have hinside := h.inside
  have hlength : (data ++ l.drop data.length).length = l.length := by
    rw [List.length_append, List.length_drop]
    omega
  have hsame {i : ℕ} (hi : data.length ≤ i) : (data ++ l.drop data.length)[i]? = l[i]? := by
    rw [List.getElem?_append_right hi, List.getElem?_drop]
    congr 1
    omega
  refine ⟨fun i hi => ?_, fun i hi hout => ?_, fun i hi hle hlt => ?_, ?_⟩
  · have hat := congrArg (·[i]?) h.region
    dsimp only [slice] at hat
    rwa [List.getElem?_take_of_lt hi, List.getElem?_drop] at hat
  · by_cases hlt : i < data.length
    · rw [List.getElem?_append_left hlt]
      exact h.before i (by omega)
    · exact hsame (Nat.not_lt.mp hlt)
  · omega
  · rw [hlength]
    split <;> omega

theorem written_start_iff (hne : data ≠ []) (hpos : pos ≠ 0) :
    Written z l pos data (splice z l 0 data) ↔ Coincides l data pos := by
  rw [splice_start hne]
  refine ⟨fun h => ⟨?_, fun i hi => ?_, h.slice_eq⟩, Coincides.written⟩
  · have hsize := h.size
    have hdata := List.length_pos_iff.mpr hne
    rw [if_neg (by simpa using hne), List.length_append, List.length_drop] at hsize
    omega
  · have hsize := h.size
    rw [if_neg (by simpa using hne), List.length_append, List.length_drop] at hsize
    have hrest := h.rest i (by omega) (.inl (by omega))
    rwa [List.getElem?_append_left (by omega)] at hrest

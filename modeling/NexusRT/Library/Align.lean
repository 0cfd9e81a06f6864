import Mathlib.Data.Nat.Bitwise
import Mathlib.Tactic.Common
import NexusRT.Library.Loop

namespace Align

theorem toNat_pos {n : UInt64} (hn : n ≠ 0) : 0 < n.toNat := by
  apply Nat.pos_of_ne_zero
  intro hzero
  exact hn (UInt64.toNat_inj.mp hzero)

theorem toNat_clear {w : ℕ} (x m : BitVec w) :
    (x &&& ~~~m).toNat = x.toNat - (x.toNat &&& m.toNat) := by
  have hapart : (x &&& ~~~m) &&& (x &&& m) = 0#w := by
    ext i hi
    cases h : m[i] <;> simp [h]
  have hjoin : (x &&& ~~~m) ||| (x &&& m) = x := by
    ext i hi
    cases h : m[i] <;> simp [h]
  have hsum := BitVec.toNat_add_of_and_eq_zero hapart
  rw [BitVec.add_eq_or_of_and_eq_zero _ _ hapart, hjoin, BitVec.toNat_and x m] at hsum
  omega

theorem toNat_alignDownBits {w : ℕ} (x p : BitVec w) {k : ℕ} (hp : p.toNat = 2 ^ k) :
    (x &&& ~~~(p - 1)).toNat = x.toNat / 2 ^ k * 2 ^ k := by
  have hpos : 0 < 2 ^ k := Nat.two_pow_pos k
  have hlt : 1 < 2 ^ w := lt_of_le_of_lt hpos (hp ▸ p.isLt)
  have hone : (1 : BitVec w).toNat = 1 := Nat.mod_eq_of_lt hlt
  have hmask : (p - 1).toNat = 2 ^ k - 1 := by
    rw [BitVec.toNat_sub_of_le, hp, hone]
    rw [BitVec.le_def, hp, hone]
    exact hpos
  have hdiv := Nat.div_add_mod x.toNat (2 ^ k)
  rw [toNat_clear, hmask, Nat.and_two_pow_sub_one_eq_mod, Nat.mul_comm]
  omega

theorem toNat_alignDown (x : UInt64) {p : UInt64} {k : ℕ} (hp : p.toNat = 2 ^ k) :
    (x &&& ~~~(p - 1)).toNat = x.toNat / 2 ^ k * 2 ^ k :=
  toNat_alignDownBits x.toBitVec p.toBitVec hp

theorem dvd_alignDown (x : UInt64) {p : UInt64} {k : ℕ} (hp : p.toNat = 2 ^ k) :
    2 ^ k ∣ (x &&& ~~~(p - 1)).toNat := by
  rw [toNat_alignDown x hp]
  exact Nat.dvd_mul_left _ _

theorem alignDown_le (x : UInt64) {p : UInt64} {k : ℕ} (hp : p.toNat = 2 ^ k) :
    (x &&& ~~~(p - 1)).toNat ≤ x.toNat ∧ x.toNat < (x &&& ~~~(p - 1)).toNat + 2 ^ k := by
  rw [toNat_alignDown x hp]
  have hdiv := Nat.div_add_mod x.toNat (2 ^ k)
  have hmod := Nat.mod_lt x.toNat (Nat.two_pow_pos k)
  rw [Nat.mul_comm] at hdiv
  omega

theorem isPowerOfTwo_of_clear {w : ℕ} {p : BitVec w} (hp : p.toNat ≠ 0)
    (h : (p &&& ~~~(p - 1)).toNat = p.toNat) : p.toNat.isPowerOfTwo := by
  -- Only a mask of the form `2 ^ k - 1` leaves `p` itself in place.
  have hlt : 1 < 2 ^ w := by
    have := p.isLt
    omega
  have hone : (1 : BitVec w).toNat = 1 := Nat.mod_eq_of_lt hlt
  have hmask : (p - 1).toNat = p.toNat - 1 := by
    rw [BitVec.toNat_sub_of_le, hone]
    rw [BitVec.le_def, hone]
    omega
  rw [toNat_clear, hmask] at h
  have hle : p.toNat &&& (p.toNat - 1) ≤ p.toNat := Nat.and_le_left
  apply (Nat.and_sub_one_eq_zero_iff_isPowerOfTwo hp).mp
  omega

def visit (p stop : UInt64) : ℕ → UInt64 → List UInt64
  | 0, _ => []
  | n + 1, a => if a < stop then a :: visit p stop n (a + p) else []

theorem visit_eq_nil {p stop a : UInt64} (h : ¬ a < stop) (n : ℕ) : visit p stop n a = [] := by
  cases n with
  | zero => rfl
  | succ n => rw [visit, if_neg h]

section Visit

variable {p stop a : UInt64} {n : ℕ}

theorem visit_next (hstop : p.toNat ∣ stop.toNat) (ha : p.toNat ∣ a.toNat) (hlt : a < stop)
    (hn : stop.toNat - a.toNat ≤ (n + 1) * p.toNat) : (a + p).toNat = a.toNat + p.toNat ∧
      p.toNat ∣ (a + p).toNat ∧ stop.toNat - (a + p).toNat ≤ n * p.toNat := by
  -- The step of the loop does not wrap around, and one turn of the fuel pays for it.
  have hltn : a.toNat < stop.toNat := hlt
  have hstep : p.toNat ≤ stop.toNat - a.toNat :=
    Nat.le_of_dvd (by omega) (Nat.dvd_sub hstop ha)
  have hadd : (a + p).toNat = a.toNat + p.toNat := by
    rw [UInt64.toNat_add]
    apply Nat.mod_eq_of_lt
    have := stop.toNat_lt
    omega
  refine ⟨hadd, hadd ▸ Nat.dvd_add ha (Nat.dvd_refl _), ?_⟩
  rw [Nat.succ_mul] at hn
  omega

theorem mem_visit (p stop : UInt64) (hp : 0 < p.toNat) (hstop : p.toNat ∣ stop.toNat) (n : ℕ)
    (a x : UInt64) (ha : p.toNat ∣ a.toNat) (hn : stop.toNat - a.toNat ≤ n * p.toNat) :
    x ∈ visit p stop n a ↔ p.toNat ∣ x.toNat ∧ a.toNat ≤ x.toNat ∧ x.toNat < stop.toNat := by
  induction n generalizing a with
  | zero =>
    simp only [visit, List.not_mem_nil, false_iff]
    omega
  | succ n ih =>
    rw [visit]
    by_cases hlt : a < stop
    · have hltn : a.toNat < stop.toNat := hlt
      obtain ⟨hadd, hnext, hfuel⟩ := visit_next hstop ha hlt hn
      rw [if_pos hlt, List.mem_cons, ih (a + p) hnext hfuel, hadd]
      constructor
      · rintro (rfl | ⟨hx, hle, hlt⟩)
        · exact ⟨ha, le_rfl, hltn⟩
        · exact ⟨hx, by omega, hlt⟩
      · rintro ⟨hx, hle, hxlt⟩
        by_cases hxa : x = a
        · exact .inl hxa
        · have hne : x.toNat ≠ a.toNat := fun h => hxa (UInt64.toNat_inj.mp h)
          have hgap : p.toNat ≤ x.toNat - a.toNat :=
            Nat.le_of_dvd (by omega) (Nat.dvd_sub hx ha)
          exact .inr ⟨hx, by omega, hxlt⟩
    · have hge : ¬ a.toNat < stop.toNat := hlt
      rw [if_neg hlt]
      simp only [List.not_mem_nil, false_iff]
      omega

theorem visit_sorted (hp : 0 < p.toNat) (hstop : p.toNat ∣ stop.toNat) (ha : p.toNat ∣ a.toNat)
    (hn : stop.toNat - a.toNat ≤ n * p.toNat) : (visit p stop n a).Pairwise (· < ·) := by
  induction n generalizing a with
  | zero => exact List.Pairwise.nil
  | succ n ih =>
    by_cases hlt : a < stop
    · obtain ⟨hadd, hnext, hfuel⟩ := visit_next hstop ha hlt hn
      rw [visit, if_pos hlt, List.pairwise_cons]
      refine ⟨fun x hx => ?_, ih hnext hfuel⟩
      rw [mem_visit p stop hp hstop n _ x hnext hfuel, hadd] at hx
      apply UInt64.lt_iff_toNat_lt.mpr
      omega
    · rw [visit_eq_nil hlt]
      exact List.Pairwise.nil

variable {β γ : Type} {body : UInt64 → β → β ⊕ γ} {done : β → γ}

def turn (p stop : UInt64) (body : UInt64 → β → β ⊕ γ) (done : β → γ) (s : UInt64 × β) :
    (UInt64 × β) ⊕ γ :=
  if s.1 < stop then
    match body s.1 s.2 with
    | .inl b => .inl (s.1 + p, b)
    | .inr c => .inr c
  else .inr (done s.2)

def walk (body : UInt64 → β → β ⊕ γ) (done : β → γ) : List UInt64 → β → γ
  | [], b => done b
  | a :: as, b => match body a b with
    | .inl b => walk body done as b
    | .inr c => c

theorem loop_turn (hstop : p.toNat ∣ stop.toNat) (ha : p.toNat ∣ a.toNat)
    (hn : stop.toNat - a.toNat ≤ n * p.toNat) (b : β) {fuel : ℕ} (hfuel : n < fuel) :
    loop (turn p stop body done) fuel (a, b) = some (walk body done (visit p stop n a) b) := by
  induction n generalizing a b fuel with
  | zero =>
    obtain ⟨fuel, rfl⟩ := Nat.exists_eq_add_one_of_ne_zero (Nat.ne_zero_of_lt hfuel)
    have hend : ¬ a < stop := by
      rw [UInt64.lt_iff_toNat_lt]
      omega
    rw [loop, turn, if_neg hend]
    rfl
  | succ n ih =>
    obtain ⟨fuel, rfl⟩ := Nat.exists_eq_add_one_of_ne_zero (Nat.ne_zero_of_lt hfuel)
    by_cases hlt : a < stop
    · obtain ⟨_, hnext, hrest⟩ := visit_next hstop ha hlt hn
      rw [loop, turn, if_pos hlt, visit, if_pos hlt, walk]
      cases body a b with
      | inl b' => exact ih hnext hrest b' (by omega)
      | inr c => rfl
    · rw [loop, turn, if_neg hlt, visit_eq_nil hlt]
      rfl

end Visit

def blocks (p v n : UInt64) : List UInt64 :=
  visit p ((v + n + p - 1) &&& ~~~(p - 1)) (2 ^ 64) (v &&& ~~~(p - 1))

theorem toNat_rangeEnd {p v n : UInt64} {k : ℕ} (hp : p.toNat = 2 ^ k) :
    (v + n + p - 1).toNat = (v.toNat + n.toNat + 2 ^ k - 1) % 2 ^ 64 := by
  have hpos : 0 < 2 ^ k := Nat.two_pow_pos k
  have hone : (1 : UInt64).toNat = 1 := rfl
  rw [UInt64.toNat_sub, UInt64.toNat_add, UInt64.toNat_add, hp, hone]
  omega

section Blocks

variable {p v n : UInt64} {k : ℕ}

theorem blocks_bounds (v n : UInt64) (hp : p.toNat = 2 ^ k) :
    p.toNat ∣ ((v + n + p - 1) &&& ~~~(p - 1)).toNat ∧ p.toNat ∣ (v &&& ~~~(p - 1)).toNat ∧
      ((v + n + p - 1) &&& ~~~(p - 1)).toNat - (v &&& ~~~(p - 1)).toNat ≤ 2 ^ 64 * p.toNat := by
  have hpos : 0 < 2 ^ k := Nat.two_pow_pos k
  refine ⟨hp ▸ dvd_alignDown _ hp, hp ▸ dvd_alignDown _ hp, ?_⟩
  · have hlt := ((v + n + p - 1) &&& ~~~(p - 1)).toNat_lt
    have hmul : 2 ^ 64 * 1 ≤ 2 ^ 64 * p.toNat := Nat.mul_le_mul_left _ (by omega)
    omega

theorem blocks_sorted (v n : UInt64) (hp : p.toNat = 2 ^ k) : (blocks p v n).Pairwise (· < ·) := by
  obtain ⟨hstop, hstart, hfuel⟩ := blocks_bounds v n hp
  exact visit_sorted (hp ▸ Nat.two_pow_pos k) hstop hstart hfuel

theorem loop_blocks {β γ : Type} {body : UInt64 → β → β ⊕ γ} {done : β → γ} (v n : UInt64)
    (hp : p.toNat = 2 ^ k) (b : β) {fuel : ℕ} (hfuel : 2 ^ 64 < fuel) :
    loop (turn p ((v + n + p - 1) &&& ~~~(p - 1)) body done) fuel (v &&& ~~~(p - 1), b) =
      some (walk body done (blocks p v n) b) := by
  obtain ⟨hstop, hstart, hturns⟩ := blocks_bounds v n hp
  exact loop_turn hstop hstart hturns b hfuel

theorem mem_blocks {x : UInt64} (hp : p.toNat = 2 ^ k)
    (h : v.toNat + n.toNat + 2 ^ k ≤ 2 ^ 64) : x ∈ blocks p v n ↔
      2 ^ k ∣ x.toNat ∧ v.toNat < x.toNat + 2 ^ k ∧ x.toNat < v.toNat + n.toNat := by
  have hpos : 0 < 2 ^ k := Nat.two_pow_pos k
  have hstart := toNat_alignDown v hp
  have hstop := toNat_alignDown (v + n + p - 1) hp
  rw [toNat_rangeEnd hp, Nat.mod_eq_of_lt (by omega)] at hstop
  obtain ⟨hdvd, hdvd', hfuel⟩ := blocks_bounds v n hp
  rw [blocks, mem_visit p _ (by omega) hdvd (2 ^ 64) _ _ hdvd' hfuel, hstart, hstop, hp]
  refine and_congr_right fun ⟨m, hm⟩ => ?_
  have hlow : v.toNat / 2 ^ k * 2 ^ k ≤ x.toNat ↔ v.toNat < x.toNat + 2 ^ k := by
    rw [hm, Nat.mul_comm (2 ^ k) m, Nat.mul_le_mul_right_iff hpos, ← Nat.lt_succ_iff,
      Nat.div_lt_iff_lt_mul hpos, Nat.succ_mul]
  have hhigh : x.toNat < (v.toNat + n.toNat + 2 ^ k - 1) / 2 ^ k * 2 ^ k ↔
      x.toNat < v.toNat + n.toNat := by
    rw [hm, Nat.mul_comm (2 ^ k) m, Nat.mul_lt_mul_right hpos, ← Nat.succ_le_iff,
      Nat.le_div_iff_mul_le hpos, Nat.succ_mul]
    omega
  rw [hlow, hhigh]

theorem blocks_eq_nil (hk : k < 64) (hp : p.toNat = 2 ^ k)
    (h : 2 ^ 64 < v.toNat + n.toNat + 2 ^ k) (hle : v.toNat + n.toNat ≤ 2 ^ 64) :
    blocks p v n = [] := by
  have hstop := toNat_alignDown (v + n + p - 1) hp
  have hmod : (v.toNat + n.toNat + 2 ^ k - 1) % 2 ^ 64 < 2 ^ k := by
    rw [Nat.mod_eq_sub_mod (by omega), Nat.mod_eq_of_lt] <;>
      have := Nat.pow_lt_pow_right (a := 2) (by omega) hk <;> omega
  rw [toNat_rangeEnd hp, Nat.div_eq_of_lt hmod, Nat.zero_mul] at hstop
  apply visit_eq_nil
  rw [UInt64.lt_iff_toNat_lt, hstop]
  omega

def Meets (p v n a : ℕ) : Prop := ∃ x, v ≤ x ∧ x < v + n ∧ a ≤ x ∧ x < a + p

theorem meets_iff {p v n a : ℕ} (hp : 0 < p) (hn : 0 < n) : Meets p v n a ↔ v < a + p ∧ a < v + n := by
  constructor
  · rintro ⟨x, hv, hn, ha, hp⟩
    omega
  · intro h
    refine ⟨max v a, ?_⟩
    omega

theorem not_meets_zero (p v a : ℕ) : ¬ Meets p v 0 a := by
  rintro ⟨x, hv, hn, _⟩
  omega

theorem blocks_empty_iff (hp : p.toNat = 2 ^ k)
    (h : v.toNat + (0 : UInt64).toNat + 2 ^ k ≤ 2 ^ 64) :
    (∀ a, a ∉ blocks p v 0) ↔ 2 ^ k ∣ v.toNat := by
  have hzero : (0 : UInt64).toNat = 0 := rfl
  obtain ⟨hlow, hhigh⟩ := alignDown_le v hp
  constructor
  · intro hnone
    have hnot := hnone (v &&& ~~~(p - 1))
    rw [mem_blocks hp h, hzero] at hnot
    have hself : (v &&& ~~~(p - 1)).toNat = v.toNat := by
      by_contra hne
      exact hnot ⟨dvd_alignDown v hp, hhigh, by omega⟩
    rw [← hself]
    exact dvd_alignDown v hp
  · intro hdvd a ha
    rw [mem_blocks hp h, hzero] at ha
    obtain ⟨hdvda, hlt, hle⟩ := ha
    have hgap := Nat.le_of_dvd (by omega) (Nat.dvd_sub hdvd hdvda)
    omega

theorem blocks_exact_iff (hk : k < 64) (hp : p.toNat = 2 ^ k) (hle : v.toNat + n.toNat ≤ 2 ^ 64) :
    (∀ a, a ∈ blocks p v n ↔ p.toNat ∣ a.toNat ∧ Meets p.toNat v.toNat n.toNat a.toNat) ↔
      (n ≠ 0 ∧ v.toNat + n.toNat + p.toNat ≤ 2 ^ 64) ∨
        (n = 0 ∧ (p.toNat ∣ v.toNat ∨ 2 ^ 64 < v.toNat + p.toNat)) := by
  rw [hp]
  have hpos : 0 < 2 ^ k := Nat.two_pow_pos k
  by_cases hbelow : v.toNat + n.toNat + 2 ^ k ≤ 2 ^ 64
  · by_cases hn : n = 0
    · subst hn
      rw [← blocks_empty_iff hp hbelow]
      have hzero : (0 : UInt64).toNat = 0 := rfl
      rw [hzero] at hbelow
      have hroom : ¬ 2 ^ 64 < v.toNat + 2 ^ k := by omega
      simp only [hzero, not_meets_zero, hroom, and_false, iff_false, ne_eq, not_true_eq_false,
        false_and, true_and, or_false, false_or]
    · have hpos' := toNat_pos hn
      refine iff_of_true (fun a => ?_) (.inl ⟨hn, hbelow⟩)
      rw [mem_blocks hp hbelow, meets_iff hpos hpos']
  · rw [blocks_eq_nil hk hp (Nat.lt_of_not_le hbelow) hle]
    by_cases hn : n = 0
    · subst hn
      have hzero : (0 : UInt64).toNat = 0 := rfl
      rw [hzero] at hbelow ⊢
      refine iff_of_true (fun a => ?_) (.inr ⟨rfl, .inr (by omega)⟩)
      simp [not_meets_zero]
    · -- the block of the last address of the range is missing
      have hpos' := toNat_pos hn
      let last : UInt64 := UInt64.ofNat (v.toNat + n.toNat - 1)
      have hlast : last.toNat = v.toNat + n.toNat - 1 := by
        apply UInt64.toNat_ofNat_of_lt'
        simp only [UInt64.size]
        omega
      obtain ⟨hlow, hhigh⟩ := alignDown_le last hp
      refine iff_of_false (fun hall => ?_) ?_
      · have hin := (hall (last &&& ~~~(p - 1))).mpr ⟨dvd_alignDown last hp, last.toNat, by omega⟩
        simp at hin
      · rintro (⟨_, hle⟩ | ⟨hzero, _⟩)
        · exact hbelow hle
        · exact hn hzero

end Blocks

end Align

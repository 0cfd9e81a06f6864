import Mathlib.Algebra.Group.Nat.Defs
import Mathlib.Data.List.GetD
import Mathlib.Data.List.TakeWhile
import Mathlib.Tactic.Common

namespace Bytes

abbrev Memory := ℕ → UInt8

def load (m : Memory) (p n : ℕ) : List UInt8 := (List.range n).map fun i => m (p + i)

def store (m : Memory) (p : ℕ) (bs : List UInt8) : Memory := fun a =>
  if p ≤ a then bs.getD (a - p) (m a) else m a

variable {m : Memory} {p q n a : ℕ} {bs cs : List UInt8}

@[simp] theorem length_load (m : Memory) (p n : ℕ) : (load m p n).length = n := by simp [load]

theorem store_outside (h : a < p ∨ p + bs.length ≤ a) : store m p bs a = m a := by
  rw [store]
  split
  · next hle => exact List.getD_eq_default _ _ (by omega)
  · rfl

@[simp] theorem store_nil (m : Memory) (p : ℕ) : store m p [] = m := by
  funext a
  rw [store, List.getD_nil, ite_self]

theorem store_inside {i : ℕ} (hi : i < bs.length) : store m p bs (p + i) = bs[i] := by
  rw [store, if_pos (Nat.le_add_right p i), Nat.add_sub_cancel_left, List.getD_eq_getElem _ _ hi]

theorem load_store (m : Memory) (p : ℕ) (bs : List UInt8) : load (store m p bs) p bs.length = bs := by
  apply List.ext_getElem (length_load _ _ _)
  intro i hi hi'
  simp only [load, List.getElem_map, List.getElem_range, store_inside hi']

theorem store_append (m : Memory) (p : ℕ) (bs cs : List UInt8) :
    store (store m p bs) (p + bs.length) cs = store m p (bs ++ cs) := by
  funext a
  rcases Nat.lt_or_ge a p with hlt | hge
  · rw [store_outside (Or.inl (by omega)), store_outside (Or.inl hlt), store_outside (Or.inl hlt)]
  obtain ⟨i, rfl⟩ := Nat.exists_eq_add_of_le hge
  rcases Nat.lt_or_ge i bs.length with hi | hi
  · rw [store_outside (Or.inl (by omega)), store_inside hi, store_inside (by simp; omega),
      List.getElem_append_left hi]
  obtain ⟨j, rfl⟩ := Nat.exists_eq_add_of_le hi
  rcases Nat.lt_or_ge j cs.length with hj | hj
  · rw [← Nat.add_assoc, store_inside hj, Nat.add_assoc, store_inside (by simp; omega)]
    simp
  · rw [store_outside (Or.inr (by omega)), store_outside (Or.inr (by omega)),
      store_outside (Or.inr (by simp; omega))]

section Writes

structure Region where
  start : ℕ
  size : ℕ

def Region.Covers (r : Region) (a : ℕ) : Prop := r.start ≤ a ∧ a < r.start + r.size

def Region.Apart (r s : Region) : Prop := r.start + r.size ≤ s.start ∨ s.start + s.size ≤ r.start

structure Write where
  address : ℕ
  bytes : List UInt8

def Write.region (w : Write) : Region := ⟨w.address, w.bytes.length⟩

def storeAll (m : Memory) (ws : List Write) : Memory :=
  ws.foldl (fun m w => store m w.address w.bytes) m

@[simp] theorem storeAll_nil (m : Memory) : storeAll m [] = m := rfl

@[simp] theorem storeAll_cons (m : Memory) (w : Write) (ws : List Write) :
    storeAll m (w :: ws) = storeAll (store m w.address w.bytes) ws := rfl

theorem storeAll_append (m : Memory) (vs ws : List Write) :
    storeAll m (vs ++ ws) = storeAll (storeAll m vs) ws := List.foldl_append

theorem storeAll_outside {ws : List Write} (h : ∀ r ∈ ws.map Write.region, ¬ r.Covers a) :
    storeAll m ws a = m a := by
  induction ws generalizing m with
  | nil => rfl
  | cons w ws ih =>
    rw [List.map_cons, List.forall_mem_cons] at h
    have hw := h.1
    simp only [Region.Covers, Write.region] at hw
    rw [storeAll_cons, ih h.2, store_outside (by omega)]

theorem load_storeAll {ws : List Write} (hws : (ws.map Write.region).Pairwise Region.Apart) {w : Write}
    (hw : w ∈ ws) : load (storeAll m ws) w.address w.bytes.length = w.bytes := by
  induction ws generalizing m with
  | nil => cases hw
  | cons v ws ih =>
    obtain ⟨hv, hrest⟩ := List.pairwise_cons.mp hws
    rw [storeAll_cons]
    rcases List.mem_cons.mp hw with rfl | hw
    · conv_rhs => rw [← load_store m w.address w.bytes]
      apply List.map_congr_left
      intro i hi
      apply storeAll_outside
      intro r hr hcov
      have hapart := hv r hr
      have hi := List.mem_range.mp hi
      simp only [Region.Apart, Region.Covers, Write.region] at hapart hcov
      omega
    · exact ih hrest hw

end Writes

section Words

def encode : ℕ → ℕ → List UInt8
  | 0, _ => []
  | n + 1, v => UInt8.ofNat v :: encode n (v / 256)

def decode : List UInt8 → ℕ
  | [] => 0
  | b :: bs => b.toNat + 256 * decode bs

@[simp] theorem length_encode (n v : ℕ) : (encode n v).length = n := by
  induction n generalizing v with
  | zero => rfl
  | succ n ih => rw [encode, List.length_cons, ih]

theorem decode_encode (n v : ℕ) (h : v < 256 ^ n) : decode (encode n v) = v := by
  induction n generalizing v with
  | zero => exact (Nat.lt_one_iff.mp h).symm
  | succ n ih =>
    have hdiv : v / 256 < 256 ^ n := Nat.div_lt_of_lt_mul (by rwa [Nat.pow_succ'] at h)
    rw [encode, decode, ih _ hdiv, UInt8.toNat_ofNat']
    exact Nat.mod_add_div v 256

end Words

section Strings

def cString (bs : List UInt8) : List UInt8 := bs.takeWhile (· ≠ 0)

def strncpy (s : List UInt8) (n : ℕ) : List UInt8 :=
  (cString s).take n ++ List.replicate (n - (cString s).length) 0

@[simp] theorem length_strncpy (s : List UInt8) (n : ℕ) : (strncpy s n).length = n := by
  rw [strncpy, List.length_append, List.length_take, List.length_replicate]
  omega

theorem ne_zero_of_mem_cString {s : List UInt8} {b : UInt8} (h : b ∈ cString s) : b ≠ 0 := by
  simpa using List.mem_takeWhile_imp h

theorem cString_append_zero (h : ∀ b ∈ bs, b ≠ 0) (cs : List UInt8) : cString (bs ++ 0 :: cs) = bs := by
  rw [cString, List.takeWhile_append_of_pos (by simpa using h)]
  simp

theorem cString_of_ne_zero (h : ∀ b ∈ bs, b ≠ 0) : cString bs = bs :=
  List.takeWhile_eq_self_iff.mpr (by simpa using h)

theorem strncpy_append_zero (s : List UInt8) (n : ℕ) :
    strncpy s n ++ [0] = ((cString s).take n).rightpad (n + 1) 0 := by
  rw [strncpy, List.append_assoc, ← List.replicate_succ', List.rightpad, List.length_take]
  congr 2
  omega

theorem cString_rightpad (h : ∀ b ∈ bs, b ≠ 0) (hn : bs.length < n) : cString (bs.rightpad n 0) = bs := by
  obtain ⟨k, hk⟩ := Nat.exists_eq_add_of_lt hn
  rw [List.rightpad, show n - bs.length = k + 1 by omega, List.replicate_succ]
  exact cString_append_zero h _

end Strings

end Bytes

import Mathlib.Data.List.Basic
import Mathlib.Tactic.Common

/-!
Text from bytes that need not be correct UTF-8: each longest sequence that begins a character and
does not end it, and every other incorrect byte, is read as one replacement character.
-/

namespace Utf8

def encode (cs : List Char) : List UInt8 := cs.flatMap String.utf8EncodeChar

def secondFits (b₀ b₁ : UInt8) : Bool :=
  let x := b₀.toNat
  let y := b₁.toNat
  if x = 0xE0 then 0xA0 ≤ y ∧ y ≤ 0xBF
  else if x = 0xED then 0x80 ≤ y ∧ y ≤ 0x9F
  else if x = 0xF0 then 0x90 ≤ y ∧ y ≤ 0xBF
  else if x = 0xF4 then 0x80 ≤ y ∧ y ≤ 0x8F
  else (0xE0 ≤ x ∧ x ≤ 0xF4) ∧ 0x80 ≤ y ∧ y ≤ 0xBF

def badLength : List UInt8 → ℕ
  | [] => 0
  | [_] => 1
  | [b₀, b₁] => if secondFits b₀ b₁ then 2 else 1
  | b₀ :: b₁ :: b₂ :: _ =>
    if !secondFits b₀ b₁ then 1
    else if 0xF0 ≤ b₀.toNat ∧ 0x80 ≤ b₂.toNat ∧ b₂.toNat ≤ 0xBF then 3 else 2

def replacement : Char := '\uFFFD'

/-- The characters of the bytes, as many as the first argument at most. -/
def decodeUpTo : ℕ → List UInt8 → List Char
  | 0, _ => []
  | _, [] => []
  | n + 1, bs => match bs.toByteArray.utf8DecodeChar? 0 with
    | some c => c :: decodeUpTo n (bs.drop c.utf8Size)
    | none => replacement :: decodeUpTo n (bs.drop (badLength bs))

def decodeReplace (bs : List UInt8) : List Char := decodeUpTo bs.length bs

def truncate : ℕ → List Char → List Char
  | _, [] => []
  | 0, _ => []
  | n, c :: cs => if c.utf8Size ≤ n then c :: truncate (n - c.utf8Size) cs else [replacement]

theorem encode_cons (c : Char) (cs : List Char) : encode (c :: cs) = String.utf8EncodeChar c ++ encode cs :=
  List.flatMap_cons

@[simp] theorem decodeUpTo_nil (n : ℕ) : decodeUpTo n [] = [] := by cases n <;> rfl

theorem decode_char (c : Char) (bs : List UInt8) :
    (String.utf8EncodeChar c ++ bs).toByteArray.utf8DecodeChar? 0 = some c := by
  rw [List.toByteArray_append]
  exact ByteArray.utf8DecodeChar?_utf8EncodeChar_append

theorem decodeUpTo_char (n : ℕ) (c : Char) (bs : List UInt8) :
    decodeUpTo (n + 1) (String.utf8EncodeChar c ++ bs) = c :: decodeUpTo n bs := by
  have hne : String.utf8EncodeChar c ++ bs ≠ [] := by
    intro h
    have hlen := congrArg List.length h
    have hpos := c.utf8Size_pos
    simp at hlen
    omega
  rw [decodeUpTo, decode_char]
  · simp only [List.drop_left' (String.length_utf8EncodeChar c)]
  · exact hne

theorem decode_part {c : Char} {n : ℕ} (hn : n < c.utf8Size) :
    ((String.utf8EncodeChar c).take n).toByteArray.utf8DecodeChar? 0 = none := by
  rw [Option.eq_none_iff_forall_ne_some]
  intro d hd
  have hlt := ByteArray.le_size_of_utf8DecodeChar?_eq_some hd
  have hext := ByteArray.utf8DecodeChar?_append_eq_some hd ((String.utf8EncodeChar c).drop n).toByteArray
  rw [← List.toByteArray_append, List.take_append_drop, ← List.append_nil (String.utf8EncodeChar c),
    decode_char, Option.some.injEq] at hext
  subst hext
  simp at hlt
  omega

theorem toNat_ofNat_of_lt {v : ℕ} (h : v < 256) : (UInt8.ofNat v).toNat = v := by
  rw [UInt8.toNat_ofNat']
  exact Nat.mod_eq_of_lt h

theorem badLength_part {c : Char} {n : ℕ} (hpos : 0 < n) (hn : n < c.utf8Size) :
    badLength ((String.utf8EncodeChar c).take n) = n := by
  have hvalid : c.val.toNat < 0xd800 ∨ 0xdfff < c.val.toNat ∧ c.val.toNat < 0x110000 := c.valid
  rw [← String.length_utf8EncodeChar] at hn
  revert hn
  fun_cases String.utf8EncodeChar with
  | case1 => intro hn; simp at hn; omega
  | case2 =>
    intro hn
    obtain rfl : n = 1 := by simp at hn; omega
    rfl
  | case3 v _ hgt hle =>
    intro hn
    have hv : v = c.val.toNat := rfl
    have hfits : secondFits (UInt8.ofNat (v / 4096 % 0x10 + 0xe0)) (UInt8.ofNat (v / 64 % 0x40 + 0x80)) := by
      simp only [secondFits]
      rw [toNat_ofNat_of_lt (by omega), toNat_ofNat_of_lt (by omega)]
      grind
    obtain rfl | rfl : n = 1 ∨ n = 2 := by simp at hn; omega
    · rfl
    · simp only [List.take_succ_cons, List.take_zero, badLength, hfits, if_true]
  | case4 v _ _ hgt =>
    intro hn
    have hv : v = c.val.toNat := rfl
    have hfits : secondFits (UInt8.ofNat (v / 262144 % 0x08 + 0xf0))
        (UInt8.ofNat (v / 4096 % 0x40 + 0x80)) := by
      simp only [secondFits]
      rw [toNat_ofNat_of_lt (by omega), toNat_ofNat_of_lt (by omega)]
      grind
    obtain rfl | rfl | rfl : n = 1 ∨ n = 2 ∨ n = 3 := by simp at hn; omega
    · rfl
    · simp only [List.take_succ_cons, List.take_zero, badLength, hfits, if_true]
    · simp only [List.take_succ_cons, List.take_zero, badLength, hfits]
      rw [toNat_ofNat_of_lt (by omega), toNat_ofNat_of_lt (by omega)]
      simp
      omega

theorem decodeUpTo_part (n : ℕ) {c : Char} {k : ℕ} (hpos : 0 < k) (hk : k < c.utf8Size) :
    decodeUpTo (n + 1) ((String.utf8EncodeChar c).take k) = [replacement] := by
  have hlen : ((String.utf8EncodeChar c).take k).length = k := by
    rw [List.length_take, String.length_utf8EncodeChar]
    omega
  rw [decodeUpTo, decode_part hk]
  · simp only [badLength_part hpos hk]
    rw [List.drop_of_length_le (Nat.le_of_eq hlen), decodeUpTo_nil]
  · intro h
    rw [h] at hlen
    exact absurd hlen (by simp; omega)

theorem decodeUpTo_take (cs : List Char) (n fuel : ℕ) (hfuel : ((encode cs).take n).length ≤ fuel) :
    decodeUpTo fuel ((encode cs).take n) = truncate n cs := by
  -- The induction is on the text; the fuel lasts for every byte that is left.
  induction cs generalizing n fuel with
  | nil => simp [encode, truncate]
  | cons c cs ih =>
    have hpos := c.utf8Size_pos
    have hlen := String.length_utf8EncodeChar c
    rw [encode_cons] at hfuel ⊢
    cases n with
    | zero => simp [truncate]
    | succ n =>
      cases fuel with
      | zero =>
        simp at hfuel
        omega
      | succ fuel =>
        rw [truncate]
        · split
          · next hle =>
            rw [List.take_append, List.take_of_length_le (by omega), hlen] at hfuel ⊢
            rw [decodeUpTo_char, ih]
            rw [List.length_append] at hfuel
            omega
          · next hgt =>
            rw [List.take_append_of_le_length (by omega)]
            exact decodeUpTo_part _ (Nat.succ_pos n) (by omega)
        · simp

theorem decodeReplace_take (cs : List Char) (n : ℕ) :
    decodeReplace ((encode cs).take n) = truncate n cs :=
  decodeUpTo_take cs n _ (Nat.le_refl _)

theorem zero_mem_char {c : Char} (h : 0 ∈ String.utf8EncodeChar c) : c = '\x00' := by
  revert h
  fun_cases String.utf8EncodeChar with
  | case1 v hle =>
    intro h
    have h0 : UInt8.ofNat v = 0 := (List.mem_singleton.mp h).symm
    have hv : v = 0 := by
      have hn := congrArg UInt8.toNat h0
      rwa [toNat_ofNat_of_lt (by omega)] at hn
    exact Char.ext (UInt32.toNat_inj.mp hv)
  | case2 | case3 | case4 =>
    intro h
    simp only [List.mem_cons, List.not_mem_nil, or_false] at h
    exfalso
    repeat' rcases h with h | h
    all_goals
      have hn := congrArg UInt8.toNat h
      rw [toNat_ofNat_of_lt (by omega)] at hn
      simp at hn

theorem zero_notMem_encode {cs : List Char} (h : '\x00' ∉ cs) : 0 ∉ encode cs := by
  intro hmem
  obtain ⟨c, hc, h0⟩ := List.mem_flatMap.mp hmem
  exact h (zero_mem_char h0 ▸ hc)

end Utf8

import Mathlib.Data.List.Basic
import Mathlib.Data.List.TakeWhile
import Mathlib.Tactic.Common

/-!
JSON without blanks: the text of a value and a reader of texts. Numbers are whole, and strings are
those that need no escapes.
-/

inductive Json
  | number (n : ℤ)
  | string (s : String)
  | array (items : List Json)
  | object (members : List (String × Json))

namespace Json

section Texts

def quoted (s : String) : List Char := '"' :: s.toList ++ ['"']

def separated (texts : List (List Char)) : List Char := [','].intercalate texts

def text : Json → List Char
  | number n => (toString n).toList
  | string s => quoted s
  | array items => '[' :: separated (items.map text) ++ [']']
  | object members => '\x7b' :: separated (members.map fun m => quoted m.1 ++ ':' :: text m.2) ++ ['\x7d']
termination_by v => sizeOf v
decreasing_by
  · have hlt := List.sizeOf_lt_of_mem ‹_›
    simp only [array.sizeOf_spec]
    omega
  · have hlt := List.sizeOf_lt_of_mem ‹_›
    rw [Prod.mk.sizeOf_spec] at hlt
    simp only [object.sizeOf_spec]
    omega

def unescaped (c : Char) : Bool := 0x20 ≤ c.toNat ∧ c ≠ '"' ∧ c ≠ '\\'

def PlainText (s : String) : Prop := ∀ c ∈ s.toList, unescaped c = true

theorem plainText_of_all {ss : List String} (h : ss.all (fun s => s.toList.all unescaped) = true) :
    ∀ s ∈ ss, PlainText s :=
  fun s hs => List.all_eq_true.mp (List.all_eq_true.mp h s hs)

inductive Plain : Json → Prop
  | number (n : ℤ) : Plain (.number n)
  | string (s : String) (h : PlainText s) : Plain (.string s)
  | array (items : List Json) (h : ∀ v ∈ items, Plain v) : Plain (.array items)
  | object (members : List (String × Json)) (hnames : ∀ m ∈ members, PlainText m.1)
    (h : ∀ m ∈ members, Plain m.2) : Plain (.object members)

end Texts

section Reader

abbrev Reader (α : Type) := List Char → Option (α × List Char)

def readChar (c : Char) : List Char → Option (List Char)
  | [] => none
  | d :: t => if d = c then some t else none

def readNat (t : List Char) : Option (ℕ × List Char) :=
  let digits := t.takeWhile Char.isDigit
  if digits = [] then none else some (Nat.ofDigitChars 10 digits 0, t.dropWhile Char.isDigit)

def readNumber (t : List Char) : Option (ℤ × List Char) :=
  match readChar '-' t with
  | some t => (readNat t).map fun r => (-(r.1 : ℤ), r.2)
  | none => (readNat t).map fun r => ((r.1 : ℤ), r.2)

def readString (t : List Char) : Option (String × List Char) := do
  let t ← readChar '"' t
  let rest ← readChar '"' (t.dropWhile unescaped)
  return (String.ofList (t.takeWhile unescaped), rest)

def readMember (value : Reader Json) : Reader (String × Json) := fun t => do
  let (name, t) ← readString t
  let t ← readChar ':' t
  let (v, t) ← value t
  return ((name, v), t)

def readItems {α : Type} (item : Reader α) (closing : Char) : ℕ → Reader (List α)
  | 0, _ => none
  | n + 1, t => do
    let (a, t) ← item t
    match readChar closing t with
    | some t => return ([a], t)
    | none =>
      let t ← readChar ',' t
      let (as, t) ← readItems item closing n t
      return (a :: as, t)

def readList {α : Type} (item : Reader α) (opening closing : Char) (n : ℕ) :
    Reader (List α) := fun t => do
  let t ← readChar opening t
  match readChar closing t with
  | some t => return ([], t)
  | none => readItems item closing n t

/-- The fuel is the length of the text. -/
def read : ℕ → Reader Json
  | 0, _ => none
  | n + 1, t => match t.head? with
    | some '[' => (readList (read n) '[' ']' n t).map fun r => (.array r.1, r.2)
    | some '\x7b' => (readList (readMember (read n)) '\x7b' '\x7d' n t).map fun r => (.object r.1, r.2)
    | some '"' => (readString t).map fun r => (.string r.1, r.2)
    | _ => (readNumber t).map fun r => (.number r.1, r.2)

def parse (s : String) : Option Json :=
  match read s.toList.length s.toList with
  | some (v, []) => some v
  | _ => none

end Reader

section RoundTrip

@[simp] theorem readChar_self (c : Char) (t : List Char) : readChar c (c :: t) = some t := if_pos rfl

theorem readChar_of_ne {c d : Char} (h : d ≠ c) (t : List Char) : readChar c (d :: t) = none := if_neg h

def NoDigit (rest : List Char) : Prop := ∀ c, rest.head? = some c → c.isDigit = false

theorem readNat_toDigits (n : ℕ) {rest : List Char} (h : NoDigit rest) :
    readNat (Nat.toDigits 10 n ++ rest) = some (n, rest) := by
  have hdigits : ∀ c ∈ Nat.toDigits 10 n, c.isDigit = true := fun c hc =>
    Nat.isDigit_of_mem_toDigits (by decide) (by decide) hc
  have htake : rest.takeWhile Char.isDigit = [] := by
    cases rest with
    | nil => rfl
    | cons c rest => rw [List.takeWhile_cons_of_neg (by simp [h c rfl])]
  have hdrop : rest.dropWhile Char.isDigit = rest := by
    cases rest with
    | nil => rfl
    | cons c rest => rw [List.dropWhile_cons_of_neg (by simp [h c rfl])]
  rw [readNat, List.takeWhile_append_of_pos hdigits, List.dropWhile_append_of_pos hdigits, htake, hdrop,
    List.append_nil]
  simp only [Nat.toDigits_ne_nil, ↓reduceIte, Nat.ofDigitChars_ten_toDigits]

theorem head_number (n : ℤ) : ∃ c t, (toString n).toList = c :: t ∧ (c = '-' ∨ c.isDigit = true) := by
  have hnat (k : ℕ) : ∃ c t, k.repr.toList = c :: t ∧ c.isDigit = true := by
    rw [Nat.toList_repr]
    obtain ⟨c, t, h⟩ := List.exists_cons_of_ne_nil (Nat.toDigits_ne_nil (n := k) (b := 10))
    refine ⟨c, t, h, Nat.isDigit_of_mem_toDigits (b := 10) (n := k) (by decide) (by decide) ?_⟩
    rw [h]
    exact List.mem_cons_self
  cases n with
  | ofNat k =>
    obtain ⟨c, t, h, hc⟩ := hnat k
    exact ⟨c, t, h, .inr hc⟩
  | negSucc k => exact ⟨'-', (k + 1).repr.toList, by simp [Int.repr], .inl rfl⟩

theorem readNumber_text (n : ℤ) {rest : List Char} (h : NoDigit rest) :
    readNumber ((toString n).toList ++ rest) = some (n, rest) := by
  cases n with
  | ofNat k =>
    have htext : (toString (Int.ofNat k)).toList = Nat.toDigits 10 k := Nat.toList_repr
    have hminus : readChar '-' (Nat.toDigits 10 k ++ rest) = none := by
      obtain ⟨c, t, hc⟩ := List.exists_cons_of_ne_nil (Nat.toDigits_ne_nil (n := k) (b := 10))
      have hmem : c ∈ Nat.toDigits 10 k := by
        rw [hc]
        exact List.mem_cons_self
      have hdigit : c.isDigit = true := Nat.isDigit_of_mem_toDigits (by decide) (by decide) hmem
      rw [hc]
      apply readChar_of_ne
      rintro rfl
      cases hdigit
    rw [htext, readNumber, hminus, readNat_toDigits k h]
    rfl
  | negSucc k =>
    have htext : (toString (Int.negSucc k)).toList = '-' :: Nat.toDigits 10 (k + 1) := by
      simp [Int.repr, Nat.toList_repr]
    rw [htext, List.cons_append, readNumber, readChar_self]
    dsimp only
    rw [readNat_toDigits _ h]
    rfl

theorem readString_quoted {s : String} (hs : PlainText s) (rest : List Char) :
    readString (quoted s ++ rest) = some (s, rest) := by
  have htake : (s.toList ++ '"' :: rest).takeWhile unescaped = s.toList := by
    rw [List.takeWhile_append_of_pos hs, List.takeWhile_cons_of_neg (by decide), List.append_nil]
  have hdrop : (s.toList ++ '"' :: rest).dropWhile unescaped = '"' :: rest := by
    rw [List.dropWhile_append_of_pos hs, List.dropWhile_cons_of_neg (by decide)]
  rw [readString, quoted, List.append_assoc, List.cons_append, readChar_self, List.cons_append,
    List.nil_append]
  simp only [Option.bind_eq_bind, Option.bind_some, hdrop, readChar_self, htake, String.ofList_toList]
  rfl

@[simp] theorem separated_nil : separated [] = [] := rfl

@[simp] theorem separated_singleton (s : List Char) : separated [s] = s := by simp [separated]

theorem separated_cons_cons (s t : List Char) (ts : List (List Char)) :
    separated (s :: t :: ts) = s ++ ',' :: separated (t :: ts) := by
  rw [separated, List.intercalate, List.intersperse_cons_cons, List.flatten_cons, List.flatten_cons]
  rfl

theorem readItems_separated {α : Type} {item : Reader α} {f : α → List Char} {closing : Char}
    (hclosing : closing ≠ ',') (a : α) (as : List α) {n : ℕ} (hn : as.length < n)
    (hitem : ∀ b ∈ a :: as, ∀ c t, c = closing ∨ c = ',' → item (f b ++ c :: t) = some (b, c :: t))
    (rest : List Char) :
    readItems item closing n (separated ((a :: as).map f) ++ closing :: rest) = some (a :: as, rest) := by
  induction as generalizing a n with
  | nil =>
    obtain ⟨n, rfl⟩ := Nat.exists_eq_succ_of_ne_zero (Nat.ne_zero_of_lt hn)
    have hread := hitem a List.mem_cons_self closing rest (.inl rfl)
    simp [readItems, hread]
  | cons b bs ih =>
    obtain ⟨n, rfl⟩ := Nat.exists_eq_succ_of_ne_zero (Nat.ne_zero_of_lt hn)
    have hread := hitem a List.mem_cons_self ','
      (separated ((b :: bs).map f) ++ closing :: rest) (.inr rfl)
    have hrest := ih b (Nat.lt_of_succ_lt_succ hn) fun c hc => hitem c (List.mem_cons_of_mem a hc)
    rw [List.map_cons, List.map_cons, separated_cons_cons, ← List.map_cons (f := f), List.append_assoc,
      List.cons_append, readItems, hread]
    simp only [Option.bind_eq_bind, Option.bind_some, readChar_of_ne hclosing.symm, readChar_self, hrest]
    rfl

theorem separated_cons (t : List Char) (ts : List (List Char)) :
    separated (t :: ts) = t ++ (ts.map fun u => ',' :: u).flatten := by
  induction ts generalizing t with
  | nil => simp
  | cons u us ih => rw [separated_cons_cons, ih, List.map_cons, List.flatten_cons, List.cons_append]

theorem le_length_separated {t : List Char} {ts : List (List Char)} (h : t ∈ ts) :
    t.length ≤ (separated ts).length := by
  induction ts with
  | nil => cases h
  | cons s ts ih =>
    cases ts with
    | nil =>
      obtain rfl := List.mem_singleton.mp h
      rw [separated_singleton]
    | cons u us =>
      rw [separated_cons_cons, List.length_append, List.length_cons]
      rcases List.mem_cons.mp h with rfl | h
      · omega
      · have := ih h
        omega

theorem length_le_separated {ts : List (List Char)} (h : ∀ t ∈ ts, t ≠ []) :
    ts.length ≤ (separated ts).length := by
  induction ts with
  | nil => simp
  | cons s ts ih =>
    have hs := List.length_pos_iff.mpr (h s List.mem_cons_self)
    have hts := ih fun t ht => h t (List.mem_cons_of_mem s ht)
    cases ts with
    | nil =>
      rw [separated_singleton]
      exact hs
    | cons u us =>
      rw [separated_cons_cons]
      simp only [List.length_append, List.length_cons] at hts ⊢
      omega

theorem readList_text {α : Type} {item : Reader α} {f : α → List Char} (opening : Char) {closing : Char}
    (hclosing : closing ≠ ',') {as : List α} {n : ℕ} (hn : (separated (as.map f)).length < n)
    (hhead : ∀ a ∈ as, ∃ c t, f a = c :: t ∧ c ≠ closing)
    (hitem : ∀ a ∈ as, ∀ c t, c = closing ∨ c = ',' → item (f a ++ c :: t) = some (a, c :: t))
    (rest : List Char) :
    readList item opening closing n (opening :: separated (as.map f) ++ [closing] ++ rest) =
      some (as, rest) := by
  have hlen : as.length ≤ (separated (as.map f)).length := by
    refine (List.length_map f).ge.trans (length_le_separated fun t ht => ?_)
    obtain ⟨a, ha, rfl⟩ := List.mem_map.mp ht
    obtain ⟨c, t, heq, _⟩ := hhead a ha
    rw [heq]
    exact List.cons_ne_nil c t
  rw [readList, List.append_assoc, List.cons_append, readChar_self, List.cons_append, List.nil_append]
  simp only [Option.bind_eq_bind, Option.bind_some]
  cases as with
  | nil => simp
  | cons a as =>
    have hlt : as.length < n := by
      rw [List.length_cons] at hlen
      omega
    have hread := readItems_separated hclosing a as hlt hitem rest
    have hopen : readChar closing (separated ((a :: as).map f) ++ closing :: rest) = none := by
      obtain ⟨c, t, heq, hc⟩ := hhead a List.mem_cons_self
      cases as with
      | nil =>
        rw [List.map_singleton, separated_singleton, heq]
        exact readChar_of_ne hc _
      | cons b bs =>
        rw [List.map_cons, List.map_cons, separated_cons_cons, heq]
        exact readChar_of_ne hc _
    rw [hopen]
    exact hread

theorem head_text (v : Json) : ∃ c t, text v = c :: t ∧ c ≠ ']' := by
  cases v with
  | number n =>
    obtain ⟨c, t, heq, hc⟩ := head_number n
    refine ⟨c, t, by rw [text, heq], ?_⟩
    rintro rfl
    rcases hc with hc | hc <;> cases hc
  | string s => exact ⟨'"', s.toList ++ ['"'], by rw [text]; rfl, by decide⟩
  | array items => exact ⟨'[', _, by rw [text]; rfl, by decide⟩
  | object members => exact ⟨'\x7b', _, by rw [text]; rfl, by decide⟩

theorem noDigit_cons {c : Char} (h : c.isDigit = false) (t : List Char) : NoDigit (c :: t) := by
  intro d hd
  obtain rfl := Option.some.inj hd
  exact h

theorem read_text (n : ℕ) {v : Json} (hv : Plain v) (hn : (text v).length ≤ n) {rest : List Char}
    (hrest : NoDigit rest) : read n (text v ++ rest) = some (v, rest) := by
  induction n generalizing v rest with
  | zero =>
    obtain ⟨c, t, heq, _⟩ := head_text v
    rw [heq] at hn
    cases hn
  | succ n ih =>
    cases hv with
    | number k =>
      have hread := readNumber_text k hrest
      obtain ⟨c, t, heq, hc⟩ := head_number k
      have hother : c ≠ '[' ∧ c ≠ '\x7b' ∧ c ≠ '"' := by
        refine ⟨?_, ?_, ?_⟩
        all_goals
          rintro rfl
          rcases hc with hc | hc <;> cases hc
      rw [heq, List.cons_append] at hread
      rw [text, heq, List.cons_append, read, List.head?_cons]
      split
      · next h => exact absurd (Option.some.inj h) hother.1
      · next h => exact absurd (Option.some.inj h) hother.2.1
      · next h => exact absurd (Option.some.inj h) hother.2.2
      · rw [hread]
        rfl
    | string s hs =>
      have hread := readString_quoted hs rest
      rw [quoted, List.cons_append, List.cons_append] at hread
      rw [text, quoted, List.cons_append, List.cons_append]
      simp only [read, List.head?_cons, hread, Option.map_some]
    | array items hitems =>
      rw [text] at hn ⊢
      have hlen : (separated (items.map text)).length < n := by
        simp only [List.length_cons, List.length_append, List.length_nil] at hn
        omega
      have hitem : ∀ u ∈ items, ∀ c t, c = ']' ∨ c = ',' →
          read n (text u ++ c :: t) = some (u, c :: t) := by
        intro u hu c t hc
        have hle := le_length_separated (List.mem_map_of_mem (f := text) hu)
        refine ih (hitems u hu) (by omega) (noDigit_cons ?_ t)
        rcases hc with rfl | rfl <;> rfl
      have hread := readList_text '[' (by decide) hlen (fun u _ => head_text u) hitem rest
      rw [List.cons_append, List.cons_append] at hread ⊢
      simp only [read, List.head?_cons, hread, Option.map_some]
    | object members hnames hmembers =>
      rw [text] at hn ⊢
      have hlen : (separated (members.map fun m => quoted m.1 ++ ':' :: text m.2)).length < n := by
        simp only [List.length_cons, List.length_append, List.length_nil] at hn
        omega
      have hitem : ∀ m ∈ members, ∀ c t, c = '\x7d' ∨ c = ',' →
          readMember (read n) (quoted m.1 ++ ':' :: text m.2 ++ c :: t) = some (m, c :: t) := by
        intro m hm c t hc
        have hle := le_length_separated
          (List.mem_map_of_mem (f := fun m : String × Json => quoted m.1 ++ ':' :: text m.2) hm)
        simp only [List.length_append, List.length_cons] at hle
        have hvalue : read n (text m.2 ++ c :: t) = some (m.2, c :: t) := by
          refine ih (hmembers m hm) (by omega) (noDigit_cons ?_ t)
          rcases hc with rfl | rfl <;> rfl
        rw [readMember, List.append_assoc, readString_quoted (hnames m hm)]
        simp only [Option.bind_eq_bind, Option.bind_some, List.cons_append, readChar_self, hvalue]
        rfl
      have hread := readList_text '\x7b' (by decide) hlen
        (fun m _ => ⟨'"', _, rfl, by decide⟩) hitem rest
      rw [List.cons_append, List.cons_append] at hread ⊢
      simp only [read, List.head?_cons, hread, Option.map_some]

theorem parse_text {v : Json} (hv : Plain v) : parse (String.ofList (text v)) = some v := by
  have hend : NoDigit [] := nofun
  have hread := read_text _ hv le_rfl hend
  rw [parse, String.toList_ofList]
  rw [List.append_nil] at hread
  rw [hread]

end RoundTrip

end Json

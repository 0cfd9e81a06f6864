import Mathlib.Algebra.Group.Nat.Defs
import NexusRT.Library.Grid
import NexusRT.Library.Utf8
import NexusRT.Types

/-!
The kernels of the pipeline, whose threads run in any order, and the loops over the same data on the
host.
-/

namespace NexusRT.Pipeline

open Prog Grid Interleave

def threadsOf {Cell : Type} {Val : Cell → Type} (grid block : UInt32)
    (kernel : UInt32 → UInt32 → UInt32 → Kernel Cell Val Unit) : List (Kernel Cell Val Unit) :=
  (List.range grid.toNat).flatMap fun b =>
    (List.range block.toNat).map fun t => kernel (UInt32.ofNat b) block (UInt32.ofNat t)

/-- The index that most kernels compute; it does not wrap. -/
def globalIndex (blockIdx blockDim threadIdx : UInt32) : UInt64 :=
  blockIdx.toUInt64 * blockDim.toUInt64 + threadIdx.toUInt64

theorem mem_threadsOf {Cell : Type} {Val : Cell → Type} {grid block : UInt32}
    {kernel : UInt32 → UInt32 → UInt32 → Kernel Cell Val Unit} {p : Kernel Cell Val Unit} :
    p ∈ threadsOf grid block kernel ↔ ∃ b < grid.toNat, ∃ t < block.toNat,
      kernel (UInt32.ofNat b) block (UInt32.ofNat t) = p := by
  simp [threadsOf]

theorem toNat_globalIndex (b d t : UInt32) :
    (globalIndex b d t).toNat = b.toNat * d.toNat + t.toNat := by
  have hb := b.toNat_lt
  have hd := d.toNat_lt
  have ht := t.toNat_lt
  have hmul : b.toNat * d.toNat ≤ (2 ^ 32 - 1) * (2 ^ 32 - 1) :=
    Nat.mul_le_mul (by omega) (by omega)
  rw [globalIndex, UInt64.toNat_add, UInt64.toNat_mul]
  simp only [UInt32.toNat_toUInt64]
  rw [Nat.mod_eq_of_lt (a := b.toNat * d.toNat) (by omega), Nat.mod_eq_of_lt (by omega)]

theorem exists_index {grid block : UInt32} {i : ℕ} : i < grid.toNat * block.toNat ↔
    ∃ b < grid.toNat, ∃ t < block.toNat, b * block.toNat + t = i := by
  constructor
  · intro hi
    have hblock : 0 < block.toNat := Nat.pos_of_ne_zero fun h0 => by rw [h0] at hi; simp at hi
    exact ⟨i / block.toNat, Nat.div_lt_of_lt_mul (by rwa [Nat.mul_comm]), i % block.toNat,
      Nat.mod_lt _ hblock, Nat.div_add_mod' i block.toNat⟩
  · rintro ⟨b, hb, t, ht, rfl⟩
    calc b * block.toNat + t < b * block.toNat + block.toNat := Nat.add_lt_add_left ht _
      _ = (b + 1) * block.toNat := (Nat.succ_mul b block.toNat).symm
      _ ≤ grid.toNat * block.toNat := Nat.mul_le_mul_right _ hb

theorem toNat_ofNat_lt {n : ℕ} {x : UInt32} (h : n < x.toNat) : (UInt32.ofNat n).toNat = n :=
  UInt32.toNat_ofNat_of_lt' (Nat.lt_trans h x.toNat_lt)

section Elementwise

variable {Cell : Type} {Val : Cell → Type}

def elementwise (n : UInt64) (src dst : ℕ → Cell) (f : (i : ℕ) → Val (src i) → Val (dst i))
    (blockIdx blockDim threadIdx : UInt32) : Kernel Cell Val Unit :=
  let i := globalIndex blockIdx blockDim threadIdx
  if i ≥ n then return () else do
    let v ← load (src i.toNat)
    store (dst i.toNat) (f i.toNat v)

variable {n : UInt64} {src dst : ℕ → Cell} {f : (i : ℕ) → Val (src i) → Val (dst i)}
  {grid block : UInt32} {m : Grid.Memory Cell Val}

theorem stores_elementwise (b d t : UInt32) : stores m (elementwise n src dst f b d t) =
    if b.toNat * d.toNat + t.toNat < n.toNat then
      [⟨dst (b.toNat * d.toNat + t.toNat), f _ (m (src (b.toNat * d.toNat + t.toNat)))⟩]
    else [] := by
  unfold elementwise
  simp only [ge_iff_le, UInt64.le_iff_toNat_le, toNat_globalIndex]
  split
  · next h => rw [if_neg (Nat.not_lt.mpr h)]; rfl
  · next h =>
    rw [if_pos (Nat.not_le.mp h), ← toNat_globalIndex]
    rfl

theorem mem_elementwise {w : Stored Cell Val} :
    w ∈ allStores m (threadsOf grid block (elementwise n src dst f)) ↔
      ∃ i, i < n.toNat ∧ i < grid.toNat * block.toNat ∧ w = ⟨dst i, f i (m (src i))⟩ := by
  simp only [allStores, List.mem_flatMap, mem_threadsOf, exists_index]
  constructor
  · rintro ⟨_, ⟨b, hb, t, ht, rfl⟩, hw⟩
    rw [stores_elementwise, toNat_ofNat_lt hb, toNat_ofNat_lt ht] at hw
    split at hw
    · next hlt => exact ⟨_, hlt, ⟨b, hb, t, ht, rfl⟩, List.mem_singleton.mp hw⟩
    · cases hw
  · rintro ⟨_, hlt, ⟨b, hb, t, ht, rfl⟩, rfl⟩
    refine ⟨_, ⟨b, hb, t, ht, rfl⟩, ?_⟩
    rw [stores_elementwise, toNat_ofNat_lt hb, toNat_ofNat_lt ht, if_pos hlt]
    exact List.mem_singleton_self _

theorem launch_elementwise (hdst : ∀ i j, dst i = dst j → i = j) (hne : ∀ i j, src i ≠ dst j) :
    Launch (fun c => ∃ i, src i = c) m (threadsOf grid block (elementwise n src dst f)) where
  loads p hp := by
    obtain ⟨b, _, t, _, rfl⟩ := mem_threadsOf.mp hp
    unfold elementwise
    dsimp only
    split
    · trivial
    · exact ⟨⟨_, rfl⟩, fun _ => ⟨trivial, fun _ => trivial⟩⟩
  outputs w hw := by
    obtain ⟨i, _, _, rfl⟩ := mem_elementwise.mp hw
    rintro ⟨j, hj⟩
    exact hne j i hj
  agree v hv w hw hvw := by
    obtain ⟨i, _, _, rfl⟩ := mem_elementwise.mp hv
    obtain ⟨j, _, _, rfl⟩ := mem_elementwise.mp hw
    rw [hdst i j hvw]

theorem within_elementwise {p : Kernel Cell Val Unit}
    (hp : p ∈ threadsOf grid block (elementwise n src dst f)) :
    Only (Within (fun c => ∃ i < n.toNat, c = src i) (fun c => ∃ i < n.toNat, c = dst i)) p := by
  obtain ⟨b, _, t, _, rfl⟩ := mem_threadsOf.mp hp
  unfold elementwise
  dsimp only
  split
  · trivial
  · next h =>
    have hi := UInt64.lt_iff_toNat_lt.mp (UInt64.not_le.mp h)
    exact ⟨⟨_, hi, rfl⟩, fun _ => ⟨⟨_, hi, rfl⟩, fun _ => trivial⟩⟩

end Elementwise

inductive TextCell
  | byte (i : ℕ)
  | token (i : ℕ)
  deriving DecidableEq

abbrev TextCell.Val : TextCell → Type
  | .byte _ => UInt8
  | .token _ => Int32

abbrev TextMemory := Grid.Memory TextCell TextCell.Val

/-- The operands of `%` are converted to `uint32_t`. -/
def tokenOf (vocabSize : UInt32) (b : UInt8) : Int32 := (b.toUInt32 % vocabSize).toInt32

def tokenizeBpeU8 (nBytes : UInt64) (vocabSize : UInt32) :
    UInt32 → UInt32 → UInt32 → Kernel TextCell TextCell.Val Unit :=
  elementwise nBytes .byte .token fun _ b => tokenOf vocabSize b

def byteOf (t : Int32) : UInt8 := if t ≥ 32 ∧ t < 127 then t.toUInt32.toUInt8 else 32

def detokenizeFormat (nTokens : UInt64) :
    UInt32 → UInt32 → UInt32 → Kernel TextCell TextCell.Val Unit :=
  elementwise nTokens .token .byte fun _ t => byteOf t

/-- The loop of `PostprocessStage::run`, which is also that of `Pipeline::run_postprocess`. -/
def runPostprocess (tokens : List Int32) : List UInt8 :=
  tokens.foldl (fun os t => if t ≥ 32 ∧ t < 127 then os ++ [t.toUInt32.toUInt8] else os ++ [32]) []

def pythonPostprocess (tokens : List Int) : String :=
  String.ofList (tokens.map fun t => if 32 ≤ t ∧ t < 127 then Char.ofNat t.toNat else ' ')

section Text

variable {n : UInt64} {vocab grid block : UInt32} {m : TextMemory} {p : GridPool TextCell TextCell.Val}

theorem tokenize_result (hrun : GridRun (start m (threadsOf grid block (tokenizeBpeU8 n vocab))) p)
    (hdone : Done p) : (∀ i, p.state (.byte i) = m (.byte i)) ∧
      ∀ i, i < n.toNat → i < grid.toNat * block.toNat →
        p.state (.token i) = tokenOf vocab (m (.byte i)) := by
  have hmerged := run_merged (launch_elementwise (by simp) (by simp)) hrun hdone
  refine ⟨fun i => hmerged.rest _ fun w hw => ?_, fun i hn hlaunched => ?_⟩
  · obtain ⟨j, _, _, rfl⟩ := mem_elementwise.mp hw
    nofun
  · exact hmerged.stored _ (mem_elementwise.mpr ⟨i, hn, hlaunched, rfl⟩)

theorem detokenize_result (hrun : GridRun (start m (threadsOf grid block (detokenizeFormat n))) p)
    (hdone : Done p) : (∀ i, i < n.toNat → i < grid.toNat * block.toNat →
        p.state (.byte i) = byteOf (m (.token i))) ∧
      ∀ c, (∀ i, i < n.toNat → i < grid.toNat * block.toNat → c ≠ .byte i) → p.state c = m c := by
  have hmerged := run_merged (launch_elementwise (by simp) (by simp)) hrun hdone
  refine ⟨fun i hn hlaunched => ?_, fun c hc => hmerged.rest _ fun w hw heq => ?_⟩
  · exact hmerged.stored _ (mem_elementwise.mpr ⟨i, hn, hlaunched, rfl⟩)
  · obtain ⟨i, hn, hlaunched, rfl⟩ := mem_elementwise.mp hw
    exact hc i hn hlaunched heq.symm

theorem runPostprocess_eq (tokens : List Int32) : runPostprocess tokens = tokens.map byteOf := by
  have hfold : ∀ os : List UInt8, tokens.foldl
      (fun os t => if t ≥ 32 ∧ t < 127 then os ++ [t.toUInt32.toUInt8] else os ++ [32]) os =
        os ++ tokens.map byteOf := by
    induction tokens with
    | nil => simp
    | cons t tokens ih =>
      intro os
      rw [List.foldl_cons, ih, List.map_cons, byteOf]
      split <;> simp
  exact (hfold []).trans (List.nil_append _)

theorem encode_ascii {k : ℕ} (hk : k < 128) : String.utf8EncodeChar (Char.ofNat k) = [UInt8.ofNat k] := by
  have hval : (Char.ofNat k).val.toNat = k := by
    rw [Char.ofNat, dif_pos (Or.inl (by omega))]
    rfl
  unfold String.utf8EncodeChar
  simp only [hval]
  rw [if_pos (by omega)]

theorem toNat_byteOf {t : Int32} (h : t ≥ 32 ∧ t < 127) : t.toUInt32.toNat = t.toInt.toNat :=
  Int32.toNat_toUInt32_of_le (Int32.le_trans (by decide) h.1)

theorem encode_charOf (t : Int32) : String.utf8EncodeChar
    (if 32 ≤ t.toInt ∧ t.toInt < 127 then Char.ofNat t.toInt.toNat else ' ') = [byteOf t] := by
  by_cases h : 32 ≤ t.toInt ∧ t.toInt < 127
  · have hbyte : t ≥ 32 ∧ t < 127 := ⟨Int32.le_iff_toInt_le.mpr h.1, Int32.lt_iff_toInt_lt.mpr h.2⟩
    have hnat := toNat_byteOf hbyte
    rw [if_pos h, byteOf, if_pos hbyte, encode_ascii (by omega), ← hnat]
    rfl
  · have hbyte : ¬ (t ≥ 32 ∧ t < 127) := fun hb =>
      h ⟨Int32.le_iff_toInt_le.mp hb.1, Int32.lt_iff_toInt_lt.mp hb.2⟩
    rw [if_neg h, byteOf, if_neg hbyte]
    rfl

theorem pythonPostprocess_eq (tokens : List Int32) :
    Utf8.encode (pythonPostprocess (tokens.map Int32.toInt)).toList = tokens.map byteOf := by
  rw [pythonPostprocess, String.toList_ofList, Utf8.encode, List.map_map, List.flatMap_map]
  simp only [Function.comp_apply, encode_charOf]
  exact List.flatMap_pure_eq_map byteOf tokens

theorem detokenize_as_host (n : UInt64) (grid block : UInt32) (m : TextMemory)
    (p : GridPool TextCell TextCell.Val)
    (hrun : GridRun (start m (threadsOf grid block (detokenizeFormat n))) p) (hdone : Done p) :
    let covered := min n.toNat (grid.toNat * block.toNat)
    let tokens := (List.range covered).map fun i => m (.token i)
    (List.range covered).map (fun i => p.state (.byte i)) = runPostprocess tokens ∧
      Utf8.encode (pythonPostprocess (tokens.map Int32.toInt)).toList = runPostprocess tokens ∧
      (∀ c, (∀ i < covered, c ≠ .byte i) → p.state c = m c) ∧
      ∀ q ∈ threadsOf grid block (detokenizeFormat n),
        Only (Within (fun c => ∃ i < n.toNat, c = .token i) (fun c => ∃ i < n.toNat, c = .byte i)) q := by
  intro covered tokens
  obtain ⟨hbytes, hrest⟩ := detokenize_result hrun hdone
  refine ⟨?_, ?_, fun c hc => hrest c fun i hn hlaunched => hc i (Nat.lt_min.mpr ⟨hn, hlaunched⟩),
    fun q hq => within_elementwise hq⟩
  · rw [runPostprocess_eq, List.map_map]
    apply List.map_congr_left
    intro i hi
    obtain ⟨hn, hlaunched⟩ := Nat.lt_min.mp (List.mem_range.mp hi)
    exact hbytes i hn hlaunched
  · rw [pythonPostprocess_eq, runPostprocess_eq]

def hi : TextMemory
  | .byte i => if i = 0 then 72 else 105
  | .token i => if i = 0 then 72 else 105

theorem detokenize_as_host_hi : ∃ p : GridPool TextCell TextCell.Val,
    GridRun (start hi (threadsOf 1 2 (detokenizeFormat 2))) p ∧ Done p ∧
      [p.state (.byte 0), p.state (.byte 1)] = runPostprocess [72, 105] := by
  obtain ⟨p, hrun, hdone⟩ := run_completes (start hi (threadsOf 1 2 (detokenizeFormat 2)))
  exact ⟨p, hrun, hdone, (detokenize_as_host 2 1 2 hi p hrun hdone).1⟩

def printable (b : UInt8) : Bool := 32 ≤ b ∧ b < 127

theorem byteOf_token (b : UInt8) :
    byteOf b.toUInt32.toInt32 = if printable b then b else 32 := by
  have hall : ∀ k < 256, byteOf (UInt8.ofNat k).toUInt32.toInt32 =
      if printable (UInt8.ofNat k) then UInt8.ofNat k else 32 := by decide +kernel
  have h := hall b.toNat b.toNat_lt
  rwa [UInt8.ofNat_toNat] at h

theorem printable_byteOf (t : Int32) : printable (byteOf t) := by
  unfold byteOf
  split
  · next h =>
    have hlow := Int32.le_iff_toInt_le.mp h.1
    have hhigh := Int32.lt_iff_toInt_lt.mp h.2
    have hnat := toNat_byteOf h
    simp only [Int32.reduceToInt] at hlow hhigh
    simp only [printable, decide_eq_true_eq, UInt8.le_iff_toNat_le, UInt8.lt_iff_toNat_lt,
      UInt32.toNat_toUInt8, hnat, UInt8.reduceToNat]
    omega
  · decide

theorem tokenOf_of_lt {b : UInt8} (h : b.toNat < vocab.toNat) : tokenOf vocab b = b.toUInt32.toInt32 := by
  have hmod : b.toUInt32 % vocab = b.toUInt32 := by
    apply UInt32.toNat_inj.mp
    rw [UInt32.toNat_mod, UInt8.toNat_toUInt32]
    exact Nat.mod_eq_of_lt h
  rw [tokenOf, hmod]

theorem text_survives (n : UInt64) (vocab grid block grid' block' : UInt32) (m : TextMemory)
    (p q : GridPool TextCell TextCell.Val) (hvocab : 127 ≤ vocab)
    (hlaunched : n.toNat ≤ grid.toNat * block.toNat) (hlaunched' : n.toNat ≤ grid'.toNat * block'.toNat)
    (hp : GridRun (start m (threadsOf grid block (tokenizeBpeU8 n vocab))) p) (hpdone : Done p)
    (hq : GridRun (start p.state (threadsOf grid' block' (detokenizeFormat n))) q) (hqdone : Done q) :
    (∀ i, i < n.toNat → printable (q.state (.byte i)) ∧
      (printable (m (.byte i)) → q.state (.byte i) = m (.byte i)) ∧
      (256 ≤ vocab → ¬ printable (m (.byte i)) → q.state (.byte i) = 32)) ∧
    ∀ i, n.toNat ≤ i → q.state (.byte i) = m (.byte i) := by
  obtain ⟨hbytes, htokens⟩ := tokenize_result hp hpdone
  obtain ⟨htext, hrest⟩ := detokenize_result hq hqdone
  have hbeyond : ∀ i, n.toNat ≤ i → q.state (.byte i) = m (.byte i) := by
    intro i hi
    refine (hrest (.byte i) fun j hj _ heq => ?_).trans (hbytes i)
    obtain rfl := TextCell.byte.inj heq
    omega
  refine ⟨fun i hi => ?_, hbeyond⟩
  have hbyte := htext i hi (by omega)
  rw [htokens i hi (by omega)] at hbyte
  have hvocab := UInt32.le_iff_toNat_le.mp hvocab
  rw [hbyte]
  refine ⟨printable_byteOf _, fun hprint => ?_, fun hlarge hprint => ?_⟩
  · have hlt : (m (.byte i)).toNat < 127 := by
      have h := (of_decide_eq_true hprint).2
      exact UInt8.lt_iff_toNat_lt.mp h
    rw [tokenOf_of_lt (Nat.lt_of_lt_of_le hlt hvocab), byteOf_token, if_pos hprint]
  · have hlarge := UInt32.le_iff_toNat_le.mp hlarge
    have hlt := (m (.byte i)).toNat_lt
    rw [tokenOf_of_lt (Nat.lt_of_lt_of_le hlt hlarge), byteOf_token, if_neg hprint]

theorem text_survives_hi : ∃ p q : GridPool TextCell TextCell.Val,
    GridRun (start hi (threadsOf 1 2 (tokenizeBpeU8 2 50257))) p ∧ Done p ∧
      GridRun (start p.state (threadsOf 2 1 (detokenizeFormat 2))) q ∧ Done q ∧
      q.state (.byte 0) = 72 ∧ q.state (.byte 1) = 105 := by
  obtain ⟨p, hp, hpdone⟩ := run_completes (start hi (threadsOf 1 2 (tokenizeBpeU8 2 50257)))
  obtain ⟨q, hq, hqdone⟩ := run_completes (start p.state (threadsOf 2 1 (detokenizeFormat 2)))
  have htext := (text_survives 2 50257 1 2 2 1 hi p q (by decide) (by decide) (by decide) hp hpdone hq
    hqdone).1
  exact ⟨p, q, hp, hpdone, hq, hqdone, (htext 0 (by decide)).2.1 (by decide),
    (htext 1 (by decide)).2.1 (by decide)⟩

end Text

section Decode

/-- The arrays of the decode step; the numbers of half precision are their bits. -/
inductive LogitCell
  | weight (i : ℕ)
  | lastToken
  | logit (i : ℕ)
  deriving DecidableEq

abbrev LogitCell.Val : LogitCell → Type
  | .weight _ => UInt16
  | .lastToken => Int32
  | .logit _ => UInt16

/-- Here the index of the thread wraps, and so does that of the weight. -/
def decodeStep (d vocab : UInt32) (blockIdx blockDim threadIdx : UInt32) :
    Kernel LogitCell LogitCell.Val Unit :=
  let tid := blockIdx * blockDim + threadIdx
  if tid ≥ vocab then return () else do
    let last ← (load LogitCell.lastToken : Kernel LogitCell LogitCell.Val Int32)
    let row := last.toUInt32 % d
    let w ← load (.weight (row * vocab + tid).toNat)
    store (.logit tid.toNat) w

variable {d vocab grid block : UInt32} {m : Grid.Memory LogitCell LogitCell.Val}

def weightOf (d vocab : UInt32) (m : Grid.Memory LogitCell LogitCell.Val) (tid : UInt32) : UInt16 :=
  m (.weight ((m .lastToken).toUInt32 % d * vocab + tid).toNat)

theorem stores_decodeStep (b dim t : UInt32) : stores m (decodeStep d vocab b dim t) =
    if b * dim + t < vocab then [⟨.logit (b * dim + t).toNat, weightOf d vocab m (b * dim + t)⟩]
    else [] := by
  unfold decodeStep
  simp only [ge_iff_le]
  split
  · next h => rw [if_neg (UInt32.not_lt.mpr h)]; rfl
  · next h => rw [if_pos (UInt32.not_le.mp h)]; rfl

theorem mem_decodeStep {w : Stored LogitCell LogitCell.Val} :
    w ∈ allStores m (threadsOf grid block (decodeStep d vocab)) ↔
      ∃ tid : UInt32, tid < vocab ∧ tid.toNat < grid.toNat * block.toNat ∧
        w = ⟨.logit tid.toNat, weightOf d vocab m tid⟩ := by
  simp only [allStores, List.mem_flatMap, mem_threadsOf]
  constructor
  · rintro ⟨_, ⟨b, hb, t, ht, rfl⟩, hw⟩
    rw [stores_decodeStep] at hw
    split at hw
    · next hlt =>
      refine ⟨_, hlt, ?_, List.mem_singleton.mp hw⟩
      have hindex := exists_index.mpr ⟨b, hb, t, ht, rfl⟩
      rw [UInt32.toNat_add, UInt32.toNat_mul, toNat_ofNat_lt hb, toNat_ofNat_lt ht]
      refine Nat.lt_of_le_of_lt (Nat.mod_le _ _) (Nat.lt_of_le_of_lt ?_ hindex)
      exact Nat.add_le_add_right (Nat.mod_le _ _) _
    · cases hw
  · rintro ⟨tid, hlt, hindex, rfl⟩
    obtain ⟨b, hb, t, ht, htid⟩ := exists_index.mp hindex
    have hsame : UInt32.ofNat b * block + UInt32.ofNat t = tid := by
      have hbound := tid.toNat_lt
      apply UInt32.toNat_inj.mp
      rw [UInt32.toNat_add, UInt32.toNat_mul, toNat_ofNat_lt hb, toNat_ofNat_lt ht,
        Nat.mod_eq_of_lt (a := b * block.toNat) (by omega), htid, Nat.mod_eq_of_lt hbound]
    refine ⟨_, ⟨b, hb, t, ht, rfl⟩, ?_⟩
    rw [stores_decodeStep, hsame, if_pos hlt]
    exact List.mem_singleton_self _

theorem launch_decodeStep : Launch (fun c => ∀ i, c ≠ .logit i) m
    (threadsOf grid block (decodeStep d vocab)) where
  loads p hp := by
    obtain ⟨b, _, t, _, rfl⟩ := mem_threadsOf.mp hp
    unfold decodeStep
    dsimp only
    split
    · trivial
    · exact ⟨nofun, fun _ => ⟨nofun, fun _ => ⟨trivial, fun _ => trivial⟩⟩⟩
  outputs w hw := by
    obtain ⟨tid, _, _, rfl⟩ := mem_decodeStep.mp hw
    exact fun h => h _ rfl
  agree v hv w hw hvw := by
    obtain ⟨i, _, _, rfl⟩ := mem_decodeStep.mp hv
    obtain ⟨j, _, _, rfl⟩ := mem_decodeStep.mp hw
    obtain rfl := UInt32.toNat_inj.mp (LogitCell.logit.inj hvw)
    rfl

theorem row_index (hd : 0 < d) (last : Int32) {tid : UInt32} (htid : tid < vocab) :
    (last.toUInt32 % d * vocab + tid).toNat =
      (last.toUInt32.toNat % d.toNat * vocab.toNat + tid.toNat) % 2 ^ 32 ∧
      last.toUInt32.toNat % d.toNat * vocab.toNat + tid.toNat < d.toNat * vocab.toNat := by
  -- The index of a weight wraps, but never past the `d * vocab` weights.
  have htid := UInt32.lt_iff_toNat_lt.mp htid
  have hrow : last.toUInt32.toNat % d.toNat < d.toNat := Nat.mod_lt _ (UInt32.lt_iff_toNat_lt.mp hd)
  refine ⟨?_, ?_⟩
  · rw [UInt32.toNat_add, UInt32.toNat_mul, UInt32.toNat_mod, Nat.mod_add_mod]
  · calc _ < last.toUInt32.toNat % d.toNat * vocab.toNat + vocab.toNat := Nat.add_lt_add_left htid _
      _ = (last.toUInt32.toNat % d.toNat + 1) * vocab.toNat := (Nat.succ_mul _ _).symm
      _ ≤ d.toNat * vocab.toNat := Nat.mul_le_mul_right _ hrow

def InBounds (n : ℕ) (c : LogitCell) : Prop := c = .lastToken ∨ ∃ i < n, c = .weight i

theorem decodeStep_reads {n : ℕ} (hd : 0 < d) (hn : d.toNat * vocab.toNat ≤ n)
    {q : Kernel LogitCell LogitCell.Val Unit} (hq : q ∈ threadsOf grid block (decodeStep d vocab)) :
    Only (LoadsFrom (InBounds n)) q := by
  obtain ⟨b, _, t, _, rfl⟩ := mem_threadsOf.mp hq
  unfold decodeStep
  dsimp only
  split
  · trivial
  · next h =>
    refine ⟨Or.inl rfl, fun last => ⟨Or.inr ⟨_, ?_, rfl⟩, fun _ => ⟨trivial, fun _ => trivial⟩⟩⟩
    obtain ⟨hindex, hbound⟩ := row_index hd last (UInt32.not_le.mp h)
    rw [hindex]
    exact Nat.lt_of_le_of_lt (Nat.mod_le _ _) (Nat.lt_of_lt_of_le hbound hn)

/-- The decode step in any order of its threads, also where their indices wrap. The matrix has `d`
rows of `vocab` weights, which lie inside the declared `d * d` where `vocab ≤ d`. -/
theorem decode_step_exact (d vocab grid block : UInt32) (m : Grid.Memory LogitCell LogitCell.Val)
    (p : GridPool LogitCell LogitCell.Val) (hd : 0 < d)
    (hrun : GridRun (start m (threadsOf grid block (decodeStep d vocab))) p) (hdone : Done p) :
    (∀ t, p.state (.logit t) = if t < vocab.toNat ∧ t < grid.toNat * block.toNat then
        m (.weight (((m .lastToken).toUInt32.toNat % d.toNat * vocab.toNat + t) % 2 ^ 32))
      else m (.logit t)) ∧
    (∀ c, (∀ t, c ≠ .logit t) → p.state c = m c) ∧
    ∀ q ∈ threadsOf grid block (decodeStep d vocab),
      Only (LoadsFrom (InBounds (d.toNat * vocab.toNat))) q ∧
        (vocab ≤ d → Only (LoadsFrom (InBounds (d.toNat * d.toNat))) q) := by
  have hmerged := run_merged launch_decodeStep hrun hdone
  refine ⟨fun t => ?_, fun c hc => hmerged.rest c fun w hw heq => ?_, fun q hq => ⟨?_, fun hle => ?_⟩⟩
  · split
    · next h =>
      obtain ⟨hvocab, hindex⟩ := h
      have hnat : (UInt32.ofNat t).toNat = t := toNat_ofNat_lt hvocab
      have hlt : UInt32.ofNat t < vocab := UInt32.lt_iff_toNat_lt.mpr (by rwa [hnat])
      have hstored := hmerged.stored _ (mem_decodeStep.mpr ⟨UInt32.ofNat t, hlt, by rwa [hnat], rfl⟩)
      have hindex := (row_index hd (m .lastToken) hlt).1
      rw [hnat] at hindex
      calc p.state (.logit t) = p.state (.logit (UInt32.ofNat t).toNat) :=
            (congrArg (fun i => (p.state (.logit i) : UInt16)) hnat).symm
        _ = weightOf d vocab m (UInt32.ofNat t) := hstored
        _ = _ := congrArg (fun i => (m (.weight i) : UInt16)) hindex
    · next h =>
      refine hmerged.rest _ fun w hw heq => h ?_
      obtain ⟨tid, hlt, hindex, rfl⟩ := mem_decodeStep.mp hw
      obtain rfl : tid.toNat = t := LogitCell.logit.inj heq
      exact ⟨UInt32.lt_iff_toNat_lt.mp hlt, hindex⟩
  · obtain ⟨tid, _, _, rfl⟩ := mem_decodeStep.mp hw
    exact hc _ heq.symm
  · exact decodeStep_reads hd (Nat.le_refl _) hq
  · exact decodeStep_reads hd (Nat.mul_le_mul_left _ (UInt32.le_iff_toNat_le.mp hle)) hq

def weights : Grid.Memory LogitCell LogitCell.Val
  | .weight i => UInt16.ofNat i
  | .lastToken => -1
  | .logit _ => 0

theorem decode_step_exact_negative : ∃ p : GridPool LogitCell LogitCell.Val,
    GridRun (start weights (threadsOf 1 4 (decodeStep 2 3))) p ∧ Done p ∧
      p.state (.logit 2) = (5 : UInt16) := by
  obtain ⟨p, hrun, hdone⟩ := run_completes (start weights (threadsOf 1 4 (decodeStep 2 3)))
  have hlogits := (decode_step_exact 2 3 1 4 weights p (by decide) hrun hdone).1
  exact ⟨p, hrun, hdone, (hlogits 2).trans (by decide)⟩

end Decode

end NexusRT.Pipeline

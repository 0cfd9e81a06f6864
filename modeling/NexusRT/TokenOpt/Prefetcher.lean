import Mathlib.Algebra.BigOperators.Group.List.Basic
import Mathlib.Algebra.Order.Ring.Int
import Mathlib.Data.List.Induction
import Mathlib.Data.List.Nodup
import Mathlib.Data.List.Sort
import Mathlib.Order.Defs.LinearOrder
import NexusRT.TokenOpt.AttentionHints

namespace NexusRT.TokenOpt

open Firmware Prog

/-- `std::partial_sort`, the first `m` places of a list that has as many. -/
structure StdPartialSort (β : Type) (lt : β → β → Bool) where
  sort : List β → ℕ → List β
  perm : ∀ l m, m ≤ l.length → (sort l m).Perm l
  sorted : ∀ l m, m ≤ l.length → ((sort l m).take m).Pairwise (fun a b => lt b a = false)
  least : ∀ l m, m ≤ l.length → ∀ a ∈ (sort l m).take m, ∀ b ∈ (sort l m).drop m, lt b a = false

structure AttentionPrefetcher (α : Type) where
  history : List (List α) := []
  historyWindow : UInt32 := 16

def fromIdx (idx : List UInt32) : (c : ScopeCall) → FetchProg c.Answer
  | .topk i => return idx.getD i 0
  | .fetch c => .op c

def popToWindow {β : Type} (w : ℕ) : List β → List β
  | [] => []
  | r :: history => if w < (r :: history).length then popToWindow w history else r :: history

namespace AttentionPrefetcher

variable {α : Type}

def observe (p : AttentionPrefetcher α) (row : List α) : AttentionPrefetcher α :=
  { p with history := popToWindow p.historyWindow.toNat (p.history ++ [row]) }

variable [AddMonoid α]

def addRow (score r : List α) : List α :=
  score.mapIdx fun i x => match r[i]? with
    | some y => x + y
    | none => x

variable [LinearOrder α]

def prefetchNext
    (std : (score : UInt32 → α) → StdPartialSort UInt32 (fun a b => score b < score a))
    (p : AttentionPrefetcher α) (scope : ContextScope) (k : UInt32) : FetchProg Status :=
  match p.history.getLast? with
  | none => return .ok
  | some row =>
    let nSlots := row.length
    let score := p.history.foldl addRow (List.replicate nSlots 0)
    let idx := (List.range nSlots).map UInt32.ofNat
    let idx := (std (fun a => score.getD a.toNat 0)).sort idx (min k.toNat nSlots)
    let idx := idx.take (min k.toNat nSlots)
    (scope.prefetchAttention (.ofNat idx.length)).interp (fromIdx idx)

end AttentionPrefetcher

section Window

variable {β : Type}

theorem popToWindow_eq (w : ℕ) (l : List β) : popToWindow w l = l.drop (l.length - w) := by
  induction l with
  | nil => rw [popToWindow, List.drop_nil]
  | cons r l ih =>
    unfold popToWindow
    split
    · next hover =>
      rw [ih, List.length_cons, Nat.succ_sub (Nat.le_of_lt_succ hover), List.drop_succ_cons]
    · next hwithin =>
      rw [Nat.sub_eq_zero_of_le (Nat.le_of_not_lt hwithin), List.drop_zero]

theorem popToWindow_concat {w : ℕ} (hw : 1 ≤ w) (l : List β) (r : β) :
    popToWindow w (popToWindow w l ++ [r]) = popToWindow w (l ++ [r]) := by
  simp only [popToWindow_eq, List.length_append, List.length_drop, List.length_singleton]
  rw [List.drop_append_of_le_length (by rw [List.length_drop]; omega),
    List.drop_append_of_le_length (by omega), List.drop_drop]
  congr 2
  omega

end Window

def fetched (t : List (Event FetchCall FetchCall.Answer)) : List (UInt64 × UInt64) :=
  (calls t).map FetchCall.range

theorem interp_hints {A : (c : FetchCall) → c.Answer → Prop} {idx : List UInt32}
    {p : ScopeProg Status} {t : List (Event FetchCall FetchCall.Answer)} {st : Status}
    (h : Traces A (p.interp (fromIdx idx)) t st) :
    ∃ u, Traces (Holding idx) p u st ∧ fetched t = hints u := by
  let fetches : Event ScopeCall ScopeCall.Answer → List (Event FetchCall FetchCall.Answer)
    | ⟨.topk _, _⟩ => []
    | ⟨.fetch c, r⟩ => [⟨c, r⟩]
  obtain ⟨u, hu, rfl⟩ := h.of_interp (A := Holding idx) (g := fetches) (by
    intro o t r ho
    cases o with
    | topk i =>
      obtain ⟨rfl, rfl⟩ := ho
      refine ⟨fun x hx => ?_, rfl⟩
      rw [List.getD_eq_getElem?_getD, hx, Option.getD_some]
    | fetch c =>
      obtain ⟨r', _, _, rfl, rfl, rfl⟩ := ho
      exact ⟨trivial, rfl⟩)
  refine ⟨u, hu, ?_⟩
  clear hu h
  induction u with
  | nil => rfl
  | cons e u ih =>
    obtain ⟨o, r⟩ := e
    cases o with
    | topk i => exact ih
    | fetch c => exact congrArg (c.range :: ·) ih

section Top

variable {α : Type} [LinearOrder α]

structure TopSlots (scope : ContextScope) (n : ℕ) (weight : ℕ → α) (k : ℕ)
    (hints : List (UInt64 × UInt64)) (slots : List UInt32) : Prop where
  hints : hints = slots.map scope.slot
  length : slots.length = min k n
  nodup : slots.Nodup
  inRow : ∀ i ∈ slots, i.toNat < n
  top : ∀ i ∈ slots, ∀ j : UInt32, j.toNat < n → j ∉ slots → weight j.toNat ≤ weight i.toNat

section Indices

variable {n : ℕ} (hn : n < 2 ^ 32)

include hn

theorem nodup_indices : ((List.range n).map UInt32.ofNat).Nodup := by
  apply List.Nodup.map_on _ List.nodup_range
  intro i hi j hj hij
  rw [List.mem_range] at hi hj
  have htoNat := congrArg UInt32.toNat hij
  rwa [UInt32.toNat_ofNat_of_lt' (Nat.lt_trans hi hn), UInt32.toNat_ofNat_of_lt' (Nat.lt_trans hj hn)] at htoNat

theorem mem_indices {i : UInt32} : i ∈ (List.range n).map UInt32.ofNat ↔ i.toNat < n := by
  rw [List.mem_map]
  constructor
  · rintro ⟨j, hj, rfl⟩
    rw [List.mem_range] at hj
    rwa [UInt32.toNat_ofNat_of_lt' (Nat.lt_trans hj hn)]
  · intro hi
    exact ⟨i.toNat, List.mem_range.mpr hi, UInt32.ofNat_toNat⟩

end Indices

theorem topSlots_sorted (weight : ℕ → α) {score : UInt32 → α} {scope : ContextScope} {n k : ℕ}
    (std : StdPartialSort UInt32 (fun a b => score b < score a)) (hn : n < 2 ^ 32)
    (hscore : ∀ i : UInt32, i.toNat < n → score i = weight i.toNat)
    (hcovers : n * 4096 ≤ scope.kvBytes.toNat) {idx : List UInt32}
    (hidx : idx = (std.sort ((List.range n).map UInt32.ofNat) (min k n)).take (min k n)) :
    TopSlots scope n weight k (idx.flatMap scope.hintsFor) idx := by
  have hlen : min k n ≤ ((List.range n).map UInt32.ofNat).length := by
    rw [List.length_map, List.length_range]
    exact Nat.min_le_right k n
  have hperm := std.perm _ _ hlen
  have hmem : ∀ i ∈ idx, i.toNat < n := by
    intro i hi
    rw [hidx] at hi
    exact (mem_indices hn).mp (hperm.mem_iff.mp (List.mem_of_mem_take hi))
  refine ⟨?_, ?_, ?_, hmem, fun i hi j hj hout => ?_⟩
  · rw [List.map_eq_flatMap]
    apply List.flatMap_congr
    intro i hi
    have hin := hmem i hi
    rcases scope.hintsFor_cases i with ⟨hout, _⟩ | ⟨_, hhint⟩
    · omega
    · exact hhint
  · rw [hidx, List.length_take, hperm.length_eq]
    exact Nat.min_eq_left hlen
  · rw [hidx]
    exact (hperm.nodup_iff.mpr (nodup_indices hn)).sublist (List.take_sublist _ _)
  · have hdrop : j ∈ (std.sort ((List.range n).map UInt32.ofNat) (min k n)).drop (min k n) := by
      have hall := hperm.mem_iff.mpr ((mem_indices hn).mpr hj)
      rw [← List.take_append_drop (min k n) (std.sort _ _), List.mem_append, ← hidx] at hall
      exact hall.resolve_left hout
    have hleast := std.least _ _ hlen i (hidx ▸ hi) j hdrop
    rw [decide_eq_false_iff_not, not_lt] at hleast
    rw [← hscore i (hmem i hi), ← hscore j hj]
    exact hleast

end Top

namespace AttentionPrefetcher

variable {α : Type}

def observeAll (p : AttentionPrefetcher α) (rows : List (List α)) : AttentionPrefetcher α :=
  rows.foldl observe p

def recent (w : ℕ) (rows : List (List α)) : List (List α) := rows.drop (rows.length - w)

theorem observeAll_eq {w : UInt32} (hw : 1 ≤ w.toNat) (rows : List (List α)) :
    ({ historyWindow := w } : AttentionPrefetcher α).observeAll rows =
      { history := recent w.toNat rows, historyWindow := w } := by
  induction rows using List.reverseRecOn with
  | nil => simp [observeAll, recent]
  | append_singleton rows row ih =>
    unfold observeAll at ih ⊢
    rw [List.foldl_append, ih, List.foldl_cons, List.foldl_nil, observe]
    unfold recent
    rw [← popToWindow_eq, ← popToWindow_eq, popToWindow_concat hw]

variable [AddMonoid α]

def weight (rows : List (List α)) (i : ℕ) : α := (rows.filterMap (·[i]?)).sum

theorem length_addRow (score r : List α) : (addRow score r).length = score.length :=
  List.length_mapIdx

theorem getD_addRow (score r : List α) {i : ℕ} (hi : i < score.length) :
    (addRow score r).getD i 0 = score.getD i 0 + weight [r] i := by
  rw [List.getD_eq_getElem?_getD, List.getD_eq_getElem?_getD, addRow, List.getElem?_mapIdx,
    List.getElem?_eq_getElem hi, weight]
  cases hr : r[i]? with
  | none => simp [hr]
  | some y => simp [hr]

theorem getD_foldl_addRow (rows : List (List α)) (score : List α) {i : ℕ} (hi : i < score.length) :
    (rows.foldl addRow score).getD i 0 = score.getD i 0 + weight rows i := by
  induction rows generalizing score with
  | nil => simp [weight]
  | cons r rows ih =>
    have hsum : weight (r :: rows) i = weight [r] i + weight rows i := by
      unfold weight
      rw [← List.sum_append, ← List.filterMap_append]
      rfl
    rw [List.foldl_cons, ih, getD_addRow score r hi, hsum, add_assoc]
    rw [length_addRow]
    exact hi

theorem getD_scores (rows : List (List α)) {n i : ℕ} (hi : i < n) :
    (rows.foldl addRow (List.replicate n 0)).getD i 0 = weight rows i := by
  rw [getD_foldl_addRow rows _ (by rw [List.length_replicate]; exact hi), List.getD_replicate _ hi,
    zero_add]

variable [LinearOrder α]

theorem prefetchNext_top
    (std : (score : UInt32 → α) → StdPartialSort UInt32 (fun a b => score b < score a))
    (w : UInt32) (hw : 1 ≤ w.toNat) (rows : List (List α)) (hrows : rows ≠ [])
    (hlen : (rows.getLast hrows).length < 2 ^ 32) (scope : ContextScope) (hbound : scope.kvHbm ≠ 0)
    (hcovers : (rows.getLast hrows).length * 4096 ≤ scope.kvBytes.toNat) (k : UInt32)
    (t : List (Event FetchCall FetchCall.Answer)) (st : Status)
    (h : Traces (fun _ _ => True)
      ((({ historyWindow := w } : AttentionPrefetcher α).observeAll rows).prefetchNext std scope k)
      t st) :
    st = .ok ∧ ∃ slots, TopSlots scope (rows.getLast hrows).length
      (weight (recent w.toNat rows)) k.toNat (fetched t) slots := by
  have hlast : (recent w.toNat rows).getLast? = some (rows.getLast hrows) := by
    have hpos := List.length_pos_iff.mpr hrows
    rw [recent, List.getLast?_drop, if_neg (by omega), List.getLast?_eq_some_getLast hrows]
  rw [observeAll_eq hw, prefetchNext] at h
  simp only [hlast] at h
  obtain ⟨u, hu, hfetched⟩ := interp_hints h
  rw [hfetched]
  generalize hidx : List.take _ (StdPartialSort.sort _ _ _) = idx at hu
  have htop := topSlots_sorted (weight (recent w.toNat rows)) _ hlen
    (fun i hi => getD_scores _ hi) hcovers hidx.symm
  have hsize : (UInt32.ofNat idx.length).toNat = idx.length := by
    apply UInt32.toNat_ofNat_of_lt'
    rw [htop.length]
    exact Nat.lt_of_le_of_lt (Nat.min_le_right _ _) hlen
  obtain ⟨hok, hhints⟩ := ContextScope.prefetchAttention_hints hbound (Nat.le_of_eq hsize) hu
  rw [hsize, List.take_length] at hhints
  rw [hhints]
  exact ⟨hok, idx, htop⟩

def heaviestFirst (score : UInt32 → ℤ) : StdPartialSort UInt32 (fun a b => score b < score a) :=
  have : Std.Total (fun a b => score b ≤ score a) := ⟨fun a b => le_total (score b) (score a)⟩
  have : IsTrans UInt32 (fun a b => score b ≤ score a) := ⟨fun _ _ _ hab hbc => hbc.trans hab⟩
  have hsorted (l : List UInt32) :
      (l.insertionSort (fun a b => score b ≤ score a)).Pairwise (fun a b => score b ≤ score a) :=
    List.pairwise_insertionSort _ l
  { sort := fun l _ => l.insertionSort (fun a b => score b ≤ score a)
    perm := fun l _ _ => List.perm_insertionSort _ l
    sorted := fun l m _ => by
      apply ((hsorted l).sublist (List.take_sublist m _)).imp
      intro a b h
      simpa using h
    least := fun l m _ a ha b hb => by
      have h := hsorted l
      rw [← List.take_append_drop m (l.insertionSort _), List.pairwise_append] at h
      simpa using h.2.2 a ha b hb }

def boundScope : ContextScope := ({} : ContextScope).bindKvCache 0x1000 (4096 * 32) 32

def threeRows : List (List ℤ) := [[9], [1, 5, 2], [0, 1, 4, 4]]

theorem prefetchNext_top_threeRows : ∃ t slots, TopSlots boundScope 4
    (weight (recent 2 threeRows)) 2 (fetched t) slots := by
  obtain ⟨t, st, htraces⟩ : ∃ t st, Traces (fun _ _ => True)
      ((({ historyWindow := 2 } : AttentionPrefetcher ℤ).observeAll threeRows).prefetchNext
        heaviestFirst boundScope 2) t st :=
    ⟨_, _, traces_traceWith (f := succeedingFetch) (fun _ => trivial) _⟩
  have htop := prefetchNext_top heaviestFirst 2 (by decide) threeRows (by decide) (by decide)
    boundScope (by decide) (by decide) 2 t st htraces
  exact ⟨t, htop.2⟩

end AttentionPrefetcher

end NexusRT.TokenOpt

import NexusRT.Library.Selection
import NexusRT.TokenOpt.KvBounds

namespace NexusRT.TokenOpt

section Order

variable {α : Type} [LinearOrder α]

instance : Std.Total (pairLe : α × UInt32 → α × UInt32 → Prop) where
  total x y := by
    rcases lt_trichotomy x.1 y.1 with h | h | h
    · exact .inl (.inl h)
    · rcases UInt32.le_total x.2 y.2 with h' | h'
      · exact .inl (.inr ⟨h, h'⟩)
      · exact .inr (.inr ⟨h.symm, h'⟩)
    · exact .inr (.inl h)

instance : IsTrans (α × UInt32) pairLe where
  trans x y z := by
    rintro (h | ⟨h, h₂⟩) (h' | ⟨h', h₂'⟩)
    · exact .inl (h.trans h')
    · exact .inl (h' ▸ h)
    · exact .inl (h ▸ h')
    · exact .inr ⟨h.trans h', UInt32.le_trans h₂ h₂'⟩

instance : Std.Antisymm (pairLe : α × UInt32 → α × UInt32 → Prop) where
  antisymm x y := by
    rintro (h | ⟨h, h₂⟩) (h' | ⟨h', h₂'⟩)
    · exact absurd h' (lt_asymm h)
    · exact absurd h (h' ▸ lt_irrefl _)
    · exact absurd h' (h ▸ lt_irrefl _)
    · exact Prod.ext h (UInt32.le_antisymm h₂ h₂')

end Order

namespace KvCache

variable {α : Type}

section Loop

variable [Zero α]

def evictAll (c : KvCache α) (l : List (α × UInt32)) : KvCache α :=
  l.foldl (fun c x => c.evictPage x.2) c

theorem evictAll_append (c : KvCache α) (l m : List (α × UInt32)) :
    c.evictAll (l ++ m) = (c.evictAll l).evictAll m := List.foldl_append

theorem evictLoop_eq (l : List (α × UInt32)) (e : UInt32) (c : KvCache α) :
    evictLoop l e c = (e + UInt32.ofNat l.length, c.evictAll l) := by
  apply Prod.ext (evictLoop_evicted l e c).1
  induction l generalizing e c with
  | nil => rfl
  | cons x xs ih => exact ih (e + 1) (c.evictPage x.2)

end Loop

variable [LinearOrder α]

def sorted (c : KvCache α) : List (α × UInt32) := c.cands.insertionSort pairLe

theorem sorted_pairwise (c : KvCache α) : c.sorted.Pairwise pairLe := List.pairwise_insertionSort _ _

theorem sorted_snd (c : KvCache α) :
    (c.sorted.map Prod.snd).Perm (c.pages.holding KvPage.evictable) := by
  rw [← cands_snd]
  exact (List.perm_insertionSort _ _).map _

theorem sorted_nodup (c : KvCache α) : (c.sorted.map Prod.snd).Nodup :=
  c.sorted_snd.nodup_iff.mpr (c.pages.nodup_holding _)

theorem length_sorted (c : KvCache α) : c.sorted.length = c.unpinned := by
  rw [← List.length_map (f := Prod.snd), c.sorted_snd.length_eq, Table.length_holding]
  rfl

theorem mem_sorted {c : KvCache α} {x : α × UInt32} :
    x ∈ c.sorted ↔ ∃ p, c.pages.find x.2 = some p ∧ p.evictable = true ∧ p.lastAttention = x.1 := by
  rw [sorted, List.mem_insertionSort, cands, List.mem_filterMap]
  constructor
  · rintro ⟨⟨idx, p⟩, hmem, hcand⟩
    rw [Table.mem_entries] at hmem
    by_cases hp : p.resident = true ∧ p.refcount = 0
    · simp only [hp, and_self, ↓reduceIte, Option.some.injEq] at hcand
      subst hcand
      exact ⟨p, hmem, evictable_iff.mpr hp, rfl⟩
    · simp [hp] at hcand
  · rintro ⟨p, hp, hevictable, hlast⟩
    refine ⟨(x.2, p), (Table.mem_entries _ _ _).mpr hp, ?_⟩
    simp only [evictable_iff.mp hevictable, and_self, ↓reduceIte, hlast, Prod.mk.eta]

def victims (c : KvCache α) (n : ℕ) : List UInt32 := Selection.chosen Prod.snd c.sorted n

theorem nodup_victims (c : KvCache α) (n : ℕ) : (c.victims n).Nodup :=
  Selection.nodup_chosen c.sorted_nodup n

theorem length_victims (c : KvCache α) (n : ℕ) : (c.victims n).length = min n c.unpinned := by
  rw [victims, Selection.length_chosen, length_sorted]

theorem victims_holding (c : KvCache α) (n : ℕ) :
    ∀ a ∈ c.victims n, a ∈ c.pages.holding KvPage.evictable := by
  intro a ha
  exact c.sorted_snd.mem_iff.mp ((Selection.chosen_sublist _ _ n).subset ha)

def Before (c : KvCache α) (a b : UInt32) : Prop :=
  ∀ p q, c.pages.find a = some p → c.pages.find b = some q →
    p.lastAttention < q.lastAttention ∨ (p.lastAttention = q.lastAttention ∧ a < b)

theorem victims_before (c : KvCache α) (n : ℕ) {a b : UInt32} (ha : a ∈ c.victims n)
    (hb : b ∉ c.victims n) (hevictable : b ∈ c.pages.holding KvPage.evictable) : c.Before a b := by
  intro p q hp hq
  obtain ⟨p', hp', hpe⟩ := (Table.mem_holding _ _ _).mp (c.victims_holding n a ha)
  obtain rfl := Option.some.inj (hp.symm.trans hp')
  obtain ⟨q', hq', hqe⟩ := (Table.mem_holding _ _ _).mp hevictable
  obtain rfl := Option.some.inj (hq.symm.trans hq')
  have hx : (p.lastAttention, a) ∈ c.sorted := mem_sorted.mpr ⟨p, hp, hpe, rfl⟩
  have hy : (q.lastAttention, b) ∈ c.sorted := mem_sorted.mpr ⟨q, hq, hqe, rfl⟩
  have hne : a ≠ b := fun heq => hb (heq ▸ ha)
  rcases Selection.rel_of_chosen c.sorted_pairwise c.sorted_nodup hx ha hy hb with hlt | ⟨heq, hle⟩
  · exact .inl hlt
  · exact .inr ⟨heq, UInt32.lt_of_le_of_ne hle hne⟩

variable [Zero α]

theorem evict_eq (kind : MutexKind) {held : Bool} (hlock : lockGuard kind held = some true)
    (c : KvCache α) (n : UInt32) : c.evict kind held n =
      some (UInt32.ofNat (c.victims n.toNat).length, c.evictAll (c.sorted.take n.toNat)) := by
  have hsorted : c.cands.insertionSort pairLe = c.sorted := rfl
  simp only [evict, hlock, Option.bind_eq_bind, Option.bind_some, hsorted, evictLoop_eq,
    UInt32.zero_add, victims, Selection.chosen, List.length_map]
  rfl

theorem evictAll_evicted (c : KvCache α) (n : ℕ) :
    Evicted c (c.victims n) (c.evictAll (c.sorted.take n)) := by
  have h := (evictLoop_evicted (c.sorted.take n) 0 c).2
  rwa [evictLoop_eq] at h

theorem sorted_evictAll (c : KvCache α) (n : ℕ) :
    (c.evictAll (c.sorted.take n)).sorted = c.sorted.drop n := by
  have hev := c.evictAll_evicted n
  have hnodup (d : KvCache α) : d.sorted.Nodup := d.sorted_nodup.of_map
  apply List.Perm.eq_of_pairwise' (sorted_pairwise _) (c.sorted_pairwise.drop)
  rw [List.perm_ext_iff_of_nodup (hnodup _) ((hnodup c).drop)]
  intro x
  rw [Selection.mem_drop c.sorted_nodup, mem_sorted, mem_sorted, hev.find]
  by_cases hx : x.2 ∈ c.victims n
  · have hx' : x.2 ∈ Selection.chosen Prod.snd c.sorted n := hx
    have hgone (p : KvPage α) :
        ({ p with resident := false, lastAttention := 0 } : KvPage α).evictable = false := rfl
    simp [hx, hx', hgone]
  · have hx' : x.2 ∉ Selection.chosen Prod.snd c.sorted n := hx
    simp only [hx, ↓reduceIte, hx', not_false_eq_true, and_true]

structure Evicts (kind : MutexKind) (c : KvCache α) (n : UInt32) (victims : List UInt32)
    (c' : KvCache α) : Prop where
  result : c.evict kind false n = some (UInt32.ofNat victims.length, c')
  evicted : Evicted c victims c'
  count : victims.length = min n.toNat c.unpinned
  nodup : victims.Nodup
  unpinned : ∀ a ∈ victims, a ∈ c.pages.holding KvPage.evictable
  first : ∀ a ∈ victims, ∀ b ∈ c.pages.holding KvPage.evictable, b ∉ victims → c.Before a b

theorem evicts (kind : MutexKind) (c : KvCache α) (n : UInt32) :
    Evicts kind c n (c.victims n.toNat) (c.evictAll (c.sorted.take n.toNat)) where
  result := c.evict_eq kind (by cases kind <;> rfl) n
  evicted := c.evictAll_evicted n.toNat
  count := c.length_victims n.toNat
  nodup := c.nodup_victims n.toNat
  unpinned := c.victims_holding n.toNat
  first _ ha _ hb hnot := c.victims_before n.toNat ha hnot hb

theorem evict_composes (kind : MutexKind) (c : KvCache α) :
    (∀ n, ∃ victims c', Evicts kind c n victims c') ∧
      ∀ a b : UInt32, a.toNat + b.toNat < 2 ^ 32 → ∃ first second c₁ c₂,
        Evicts kind c a first c₁ ∧ Evicts kind c₁ b second c₂ ∧
          Evicts kind c (a + b) (first ++ second) c₂ := by
  refine ⟨fun n => ⟨_, _, c.evicts kind n⟩, fun a b hab => ?_⟩
  let c₁ := c.evictAll (c.sorted.take a.toNat)
  have hsorted : c₁.sorted = c.sorted.drop a.toNat := c.sorted_evictAll a.toNat
  have hsum : (a + b).toNat = a.toNat + b.toNat := by
    rw [UInt32.toNat_add]
    exact Nat.mod_eq_of_lt hab
  have hvictims : c.victims a.toNat ++ c₁.victims b.toNat = c.victims (a + b).toNat := by
    rw [victims, victims, victims, hsorted, hsum, Selection.chosen_add]
  have hstate : c₁.evictAll (c₁.sorted.take b.toNat) = c.evictAll (c.sorted.take (a + b).toNat) := by
    rw [hsorted, hsum, List.take_add, evictAll_append]
  refine ⟨_, _, c₁, _, c.evicts kind a, c₁.evicts kind b, ?_⟩
  rw [hvictims, hstate]
  exact c.evicts kind (a + b)

theorem evict_composes_overLimit : ∃ first second c₁ c₂, Evicts .nonRecursive overLimit 1 first c₁ ∧
    Evicts .nonRecursive c₁ 1 second c₂ ∧ Evicts .nonRecursive overLimit 2 (first ++ second) c₂ :=
  (evict_composes .nonRecursive overLimit).2 1 1 (by decide)

end KvCache

end NexusRT.TokenOpt

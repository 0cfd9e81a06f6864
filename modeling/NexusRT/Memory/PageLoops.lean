import NexusRT.Memory.Mapping

namespace NexusRT.Memory.PageTableManager

/-- What a loop leaves with. The list is a ghost: the addresses that it has visited. -/
abbrev PageWalk := Status × PageTableManager × List UInt64

def pageLoop (t : PageTableManager) (vaddr bytes : UInt64)
    (body : UInt64 → PageTableManager × List UInt64 → (PageTableManager × List UInt64) ⊕ PageWalk)
    (fuel : ℕ) : Option PageWalk :=
  let start := t.pageBase vaddr
  let stop := (vaddr + bytes + t.pageBytes - 1) &&& ~~~(t.pageBytes - 1)
  loop (Align.turn t.pageBytes stop body fun s => (.ok, s)) fuel (start, t, [])

def mapPage (entry : UInt64 → PageEntry) (a : UInt64) :
    PageTableManager × List UInt64 → (PageTableManager × List UInt64) ⊕ PageWalk
  | (u, visited) => .inl ({ u with table := u.table.insert a (entry a) }, visited ++ [a])

def mapRangeLoop (t : PageTableManager) (vaddr bytes : UInt64) (res : PageResidency)
    (physOrHost : UInt64) (now : UInt64 → UInt64) : ℕ → Option PageWalk :=
  t.pageLoop vaddr bytes (mapPage (t.mapEntry vaddr res physOrHost now))

def unmapPage (a : UInt64) :
    PageTableManager × List UInt64 → (PageTableManager × List UInt64) ⊕ PageWalk
  | (u, visited) => match u.table.find a with
    | none => .inl (u, visited ++ [a])
    | some e =>
      if 0 < e.refcount then .inr (.contractViolation, u, visited ++ [a])
      else .inl ({ u with table := u.table.erase a }, visited ++ [a])

def unmapRangeLoop (t : PageTableManager) (vaddr bytes : UInt64) : ℕ → Option PageWalk :=
  t.pageLoop vaddr bytes unmapPage

def OfRange (t : PageTableManager) (v n a : UInt64) : Prop :=
  t.pageBytes.toNat ∣ a.toNat ∧ Align.Meets t.pageBytes.toNat v.toNat n.toNat a.toNat

def RoundsExactly (t : PageTableManager) (v n : UInt64) : Prop :=
  if n = 0 then t.pageBase v = v ∨ ¬ t.BelowLast v n else t.BelowLast v n

def PinnedAtEnd (t : PageTableManager) (v n : UInt64) : Prop :=
  ∀ a b, t.OfRange v n a → Pinned t a → t.OfRange v n b → b ≤ a

section Loops

variable {t : PageTableManager} {v n : UInt64}

theorem pages_exact_iff (hle : v.toNat + n.toNat ≤ 2 ^ 64) :
    (∀ a, a ∈ t.pages v n ↔ t.OfRange v n a) ↔ t.RoundsExactly v n := by
  have hbase : t.pageBase v = v ↔ t.pageBytes.toNat ∣ v.toNat := by
    rw [← UInt64.toNat_inj, pageBase_toNat, pageBytes_toNat]
    exact ⟨fun h => ⟨_, by rw [Nat.mul_comm]; exact h.symm⟩, Nat.div_mul_cancel⟩
  rw [RoundsExactly]
  refine (Align.blocks_exact_iff t.shift_lt t.pageBytes_toNat hle).trans ?_
  by_cases hn : n = 0
  · subst hn
    have hzero : (0 : UInt64).toNat = 0 := rfl
    simp only [ne_eq, not_true_eq_false, false_and, true_and, false_or, ↓reduceIte, hbase,
      BelowLast, hzero, Nat.add_zero, Nat.not_le, pageBytes_toNat]
  · simp only [ne_eq, hn, not_false_eq_true, true_and, false_and, or_false, ↓reduceIte, BelowLast,
      pageBytes_toNat]

theorem walk_mapPage (entry : UInt64 → PageEntry) (as : List UInt64) (u : PageTableManager)
    (visited : List UInt64) : Align.walk (mapPage entry) (fun s => (.ok, s)) as (u, visited) =
      ((.ok, { u with table := as.foldl (fun tab a => tab.insert a (entry a)) u.table },
        visited ++ as) : PageWalk) := by
  induction as generalizing u visited with
  | nil => rw [List.append_nil]; rfl
  | cons a as ih =>
    rw [List.append_cons]
    exact ih _ _

theorem mapRangeLoop_eq (res : PageResidency) (physOrHost : UInt64) (now : UInt64 → UInt64)
    {fuel : ℕ} (hfuel : 2 ^ 64 < fuel) : t.mapRangeLoop v n res physOrHost now fuel =
      some ((t.mapRange v n res physOrHost now).1, (t.mapRange v n res physOrHost now).2,
        t.pages v n) := by
  rw [mapRangeLoop, pageLoop]
  refine (Align.loop_blocks v n t.pageBytes_toNat _ hfuel).trans ?_
  rw [walk_mapPage]
  rfl

inductive UpToPinned (t : PageTableManager) (as : List UInt64) : List UInt64 → Prop
  | all (h : ∀ a ∈ as, ¬ Pinned t a) : UpToPinned t as as
  | stop (before : List UInt64) (a : UInt64) (after : List UInt64) (h : as = before ++ a :: after)
      (hpin : Pinned t a) (hfree : ∀ b ∈ before, ¬ Pinned t b) : UpToPinned t as (before ++ [a])

theorem UpToPinned.cons {u : PageTableManager} {a : UInt64} {as l : List UInt64}
    (h : UpToPinned u as l) (ha : ¬ Pinned t a) (hu : ∀ b, Pinned u b ↔ Pinned t b) :
    UpToPinned t (a :: as) (a :: l) := by
  cases h with
  | all h =>
    apply UpToPinned.all
    rw [List.forall_mem_cons]
    exact ⟨ha, fun b hb => mt (hu b).mpr (h b hb)⟩
  | stop before b after h hpin hfree =>
    apply UpToPinned.stop (a :: before) b after
    · rw [h, List.cons_append]
    · exact (hu b).mp hpin
    · rw [List.forall_mem_cons]
      exact ⟨ha, fun c hc => mt (hu c).mpr (hfree c hc)⟩

theorem walk_unmapPage (as : List UInt64) (u : PageTableManager) (visited : List UInt64) :
    ∃ l, UpToPinned u as l ∧ Align.walk unmapPage (fun s => (.ok, s)) as (u, visited) =
      (((unmapPages as u).1, (unmapPages as u).2, visited ++ l) : PageWalk) := by
  induction as generalizing u visited with
  | nil => exact ⟨[], .all (by simp), by rw [List.append_nil]; rfl⟩
  | cons a as ih =>
    rw [Align.walk, unmapPage, unmapPages]
    cases ha : u.table.find a with
    | none =>
      obtain ⟨l, hl, hwalk⟩ := ih u (visited ++ [a])
      rw [← List.append_cons] at hwalk
      exact ⟨a :: l, hl.cons (not_pinned_of_none ha) fun _ => Iff.rfl, hwalk⟩
    | some e =>
      by_cases hpin : 0 < e.refcount
      · refine ⟨[a], .stop [] a as rfl ⟨e, ha, hpin⟩ (by simp), ?_⟩
        simp only [hpin, ↓reduceIte]
      · simp only [hpin, ↓reduceIte]
        have hnot : ¬ Pinned u a := mt (pinned_iff ha).mp hpin
        obtain ⟨l, hl, hwalk⟩ := ih { u with table := u.table.erase a } (visited ++ [a])
        rw [← List.append_cons] at hwalk
        exact ⟨a :: l, hl.cons hnot (pinned_erase hnot), hwalk⟩

theorem unmapRangeLoop_eq {fuel : ℕ} (hfuel : 2 ^ 64 < fuel) :
    ∃ l, UpToPinned t (t.pages v n) l ∧ t.unmapRangeLoop v n fuel =
      some ((t.unmapRange v n).1, (t.unmapRange v n).2, l) := by
  obtain ⟨l, hl, hwalk⟩ := walk_unmapPage (t.pages v n) t []
  refine ⟨l, hl, ?_⟩
  rw [unmapRangeLoop, pageLoop]
  refine (Align.loop_blocks v n t.pageBytes_toNat _ hfuel).trans ?_
  exact congrArg some hwalk

theorem ne_zero_of_ofRange {a : UInt64} (h : t.OfRange v n a) : n ≠ 0 := by
  rintro rfl
  exact Align.not_meets_zero _ _ _ h.2

theorem visited_exact_iff (hle : v.toNat + n.toNat ≤ 2 ^ 64) {l : List UInt64}
    (h : UpToPinned t (t.pages v n) l) :
    (∀ a, a ∈ l ↔ t.OfRange v n a) ↔ t.RoundsExactly v n ∧ t.PinnedAtEnd v n := by
  rw [← pages_exact_iff hle]
  have hsorted := Align.blocks_sorted v n t.pageBytes_toNat
  change (t.pages v n).Pairwise (· < ·) at hsorted
  cases h with
  | all hfree =>
    refine (and_iff_left_of_imp fun hpages a b ha hpin _ => ?_).symm
    exact absurd hpin (hfree a ((hpages a).mpr ha))
  | stop before a after hsplit hpin hfree =>
    have ha : a ∈ t.pages v n := by
      rw [hsplit]
      exact List.mem_append_right _ List.mem_cons_self
    rw [hsplit, List.pairwise_append, List.pairwise_cons] at hsorted
    obtain ⟨_, ⟨hafter, _⟩, hbefore⟩ := hsorted
    constructor
    · intro hexact
      have hn : n ≠ 0 := ne_zero_of_ofRange ((hexact a).mp (by simp))
      have hrounds : t.RoundsExactly v n := by
        rw [RoundsExactly, if_neg hn]
        by_contra hlast
        rw [t.pages_eq_nil hlast hle] at ha
        simp at ha
      refine ⟨(pages_exact_iff hle).mpr hrounds, fun c b hc hpinc hb => ?_⟩
      have hca : c = a := by
        by_contra hne
        have hin := (hexact c).mpr hc
        rw [List.mem_append, List.mem_singleton] at hin
        exact hfree c (hin.resolve_right hne) hpinc
      have hin := (hexact b).mpr hb
      rw [List.mem_append, List.mem_singleton] at hin
      rw [hca]
      rcases hin with hin | rfl
      · exact UInt64.le_of_lt (hbefore b hin a List.mem_cons_self)
      · exact UInt64.le_refl _
    · rintro ⟨hpages, hend⟩
      have hnil : after = [] := by
        apply List.eq_nil_iff_forall_not_mem.mpr
        intro b hb
        have hin : b ∈ t.pages v n := by
          rw [hsplit]
          exact List.mem_append_right _ (List.mem_cons_of_mem a hb)
        have hle := hend a b ((hpages a).mp ha) hpin ((hpages b).mp hin)
        exact UInt64.not_lt.mpr hle (hafter b hb)
      rw [hsplit, hnil] at hpages
      exact hpages

end Loops

theorem rangeLoops_visit_iff (t : PageTableManager) (v n : UInt64)
    (hle : v.toNat + n.toNat ≤ 2 ^ 64) (res : PageResidency) (physOrHost : UInt64)
    (now : UInt64 → UInt64) (fuel : ℕ) (hfuel : 2 ^ 64 < fuel) :
    (∃ visited, t.mapRangeLoop v n res physOrHost now fuel =
        some ((t.mapRange v n res physOrHost now).1, (t.mapRange v n res physOrHost now).2, visited) ∧
      ((∀ a, a ∈ visited ↔ t.OfRange v n a) ↔ t.RoundsExactly v n)) ∧
    ∃ visited, t.unmapRangeLoop v n fuel =
        some ((t.unmapRange v n).1, (t.unmapRange v n).2, visited) ∧
      ((∀ a, a ∈ visited ↔ t.OfRange v n a) ↔ t.RoundsExactly v n ∧ t.PinnedAtEnd v n) := by
  obtain ⟨visited, hvisited, hunmap⟩ := unmapRangeLoop_eq (t := t) (v := v) (n := n) hfuel
  constructor
  · exact ⟨_, mapRangeLoop_eq res physOrHost now hfuel, pages_exact_iff hle⟩
  · exact ⟨visited, hunmap, visited_exact_iff hle hvisited⟩

theorem rangeLoops_visit_iff_two : ∃ visited,
    ({} : PageTableManager).mapRangeLoop 0x8000 0x10000 .hbm 0 id (2 ^ 64 + 1) =
      some ((mapRange {} 0x8000 0x10000 .hbm 0 id).1, (mapRange {} 0x8000 0x10000 .hbm 0 id).2,
        visited) ∧
      ∀ a, a ∈ visited ↔ ({} : PageTableManager).OfRange 0x8000 0x10000 a := by
  obtain ⟨⟨visited, hloop, hexact⟩, _⟩ :=
    rangeLoops_visit_iff {} 0x8000 0x10000 (by decide) .hbm 0 id (2 ^ 64 + 1) (by decide)
  refine ⟨visited, hloop, hexact.mpr ?_⟩
  rw [RoundsExactly, if_neg (by decide), BelowLast]
  decide

theorem rangeLoops_miss_last : ¬ ∀ (t : PageTableManager) (v n : UInt64),
    v.toNat + n.toNat ≤ 2 ^ 64 → ∀ (res : PageResidency) (physOrHost : UInt64)
      (now : UInt64 → UInt64) (fuel : ℕ) (s : Status) (u : PageTableManager) (visited : List UInt64),
      t.mapRangeLoop v n res physOrHost now fuel = some (s, u, visited) →
        ∀ a, a ∈ visited ↔ t.OfRange v n a := by
  intro hall
  have hin := (hall {} 0xFFFFFFFFFFFF0000 1 (by decide) .hbm 0 id 1 .ok {} [] rfl
    0xFFFFFFFFFFFF0000).mpr ⟨by decide, 0xFFFFFFFFFFFF0000, by decide⟩
  simp at hin

end NexusRT.Memory.PageTableManager

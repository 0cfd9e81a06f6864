import NexusRT.Memory.Mapping

namespace NexusRT.Memory.PageTableManager

def InRange (v n x : UInt64) : Prop := v.toNat ≤ x.toNat ∧ x.toNat < v.toNat + n.toNat

def MeetsPage (t : PageTableManager) (v n a : UInt64) : Prop :=
  ∃ x, InRange v n x ∧ a.toNat ≤ x.toNat ∧ x.toNat < a.toNat + t.pageBytes.toNat

structure Translates (t : PageTableManager) (v n p : UInt64) (res : PageResidency)
    (t' : PageTableManager) : Prop where
  inside : ∀ x, InRange v n x → ∃ e, t'.lookup x = some e ∧ e.residency = res ∧
    e.physOrHost + (x - e.vaddr) = p + (x - v)
  outside : ∀ a, ¬ t.MeetsPage v n a → t'.table.find a = t.table.find a

theorem meetsPage_of_mem {t : PageTableManager} {v n a : UInt64} (h : t.BelowLast v n)
    (hn : n ≠ 0) (ha : a ∈ t.pages v n) : t.MeetsPage v n a := by
  obtain ⟨x, hlow, hhigh, rfl⟩ := (t.mem_pages h hn).mp ha
  obtain ⟨hle, hlt⟩ := t.pageBase_le x
  rw [← pageBytes_toNat] at hlt
  exact ⟨x, ⟨hlow, hhigh⟩, hle, hlt⟩

theorem lookup_mapRange {t : PageTableManager} {v n x : UInt64} (h : t.BelowLast v n) (hn : n ≠ 0)
    (hx : InRange v n x) (res : PageResidency) (p : UInt64) (now : UInt64 → UInt64) :
    ∃ e, (t.mapRange v n res p now).2.lookup x = some e ∧ e.residency = res ∧
      e.physOrHost + (x - e.vaddr) = p + (x - t.pageBase v) := by
  have hmem : t.pageBase x ∈ t.pages v n := (t.mem_pages h hn).mpr ⟨x, hx.1, hx.2, rfl⟩
  have hbase : (t.mapRange v n res p now).2.pageBase x = t.pageBase x := rfl
  rw [lookup, hbase]
  rw [find_mapRange, if_pos hmem]
  refine ⟨_, rfl, rfl, ?_⟩
  simp only [mapEntry]
  grind

theorem mapRange_outside {t : PageTableManager} {v n a : UInt64} (h : t.BelowLast v n) (hn : n ≠ 0)
    (ha : ¬ t.MeetsPage v n a) (res : PageResidency) (p : UInt64) (now : UInt64 → UInt64) :
    (t.mapRange v n res p now).2.table.find a = t.table.find a := by
  have hmem : a ∉ t.pages v n := fun hmem => ha (meetsPage_of_mem h hn hmem)
  rw [find_mapRange, if_neg hmem]

theorem aligned_of_translates {t t' : PageTableManager} {v n p : UInt64} {res : PageResidency}
    {now : UInt64 → UInt64} (h : t.BelowLast v n) (hn : n ≠ 0) (heq : t.mapRange v n res p now = (.ok, t'))
    (ht : Translates t v n p res t') : t.pageBase v = v := by
  have hv : InRange v n v := ⟨le_rfl, by have := Align.toNat_pos hn; omega⟩
  obtain ⟨e, he, _, hplace⟩ := ht.inside v hv
  obtain ⟨e', he', _, hplace'⟩ := lookup_mapRange h hn hv res p now
  rw [heq] at he'
  obtain rfl := Option.some.inj (he.symm.trans he')
  grind

theorem mapRange_translates_iff (t : PageTableManager) (v n p : UInt64) (res : PageResidency)
    (now : UInt64 → UInt64) (hn : 1 ≤ n)
    (h : v.toNat + n.toNat + t.pageBytes.toNat ≤ 2 ^ 64) :
    (∃ t', t.mapRange v n res p now = (.ok, t') ∧ Translates t v n p res t') ↔
      t.pageBase v = v := by
  rw [pageBytes_toNat] at h
  have hne : n ≠ 0 := by
    rintro rfl
    exact absurd hn (by decide)
  constructor
  · rintro ⟨t', heq, htranslates⟩
    exact aligned_of_translates h hne heq htranslates
  · intro haligned
    refine ⟨_, rfl, fun x hx => ?_, fun a ha => mapRange_outside h hne ha res p now⟩
    obtain ⟨e, he, hres, hplace⟩ := lookup_mapRange h hne hx res p now
    exact ⟨e, he, hres, by rw [hplace, haligned]⟩

theorem mapRange_translates_iff_aligned :
    ∃ t', ({} : PageTableManager).mapRange 0x10000 1 .hbm 0x10000 id = (.ok, t') ∧
      Translates {} 0x10000 1 0x10000 .hbm t' :=
  (mapRange_translates_iff {} 0x10000 1 0x10000 .hbm id (by decide) (by decide)).mpr (by decide)

theorem mapRange_translates_fails : ¬ ∀ (t : PageTableManager) (v n p : UInt64) (res : PageResidency)
    (now : UInt64 → UInt64), 1 ≤ n → v.toNat + n.toNat + t.pageBytes.toNat ≤ 2 ^ 64 →
    ∃ t', t.mapRange v n res p now = (.ok, t') ∧ Translates t v n p res t' := by
  intro h
  obtain ⟨t', heq, ht⟩ := h {} 256 1 256 .hbm id (by decide) (by decide)
  have hbelow : ({} : PageTableManager).BelowLast 256 1 := by
    rw [BelowLast]
    decide
  exact absurd (aligned_of_translates hbelow (by decide) heq ht) (by decide)

structure Atomic (t : PageTableManager) (v n : UInt64) : Prop where
  refused : (t.unmapRange v n).1 = .contractViolation →
    ∀ a, (t.unmapRange v n).2.table.find a = t.table.find a
  done : (t.unmapRange v n).1 = .ok → Unmapped t (t.pages v n) (t.unmapRange v n).2

def found (t : PageTableManager) (v n : UInt64) : List PageEntry :=
  (t.pages v n).filterMap t.table.find

theorem mem_found {t : PageTableManager} {v n : UInt64} (h : ∀ a ∈ t.pages v n, ¬ Pinned t a) :
    ∀ e ∈ t.found v n, e.refcount = 0 := by
  intro e he
  obtain ⟨a, ha, hfind⟩ := List.mem_filterMap.mp he
  by_contra hne
  exact h a ha ⟨e, hfind, UInt16.pos_iff_ne_zero.mpr hne⟩

theorem found_pinned {t : PageTableManager} {v n a : UInt64} {before after : List UInt64} {e : PageEntry}
    (hpages : t.pages v n = before ++ a :: after) (ha : t.table.find a = some e) :
    t.found v n = before.filterMap t.table.find ++ e :: after.filterMap t.table.find := by
  simp [found, hpages, ha]

theorem unmapRange_same_iff (t : PageTableManager) (v n : UInt64) :
    (∀ b, (t.unmapRange v n).2.table.find b = t.table.find b) ↔
      ∀ e, (t.found v n).head? = some e → 0 < e.refcount := by
  rcases unmapPages_cases (t.pages v n) t with ⟨hfree, t', heq, ht'⟩ |
    ⟨before, a, after, t', hpages, ⟨e, ha, hpin⟩, hfree, heq, ht'⟩
  · rw [unmapRange, heq]
    have hzero := mem_found hfree
    constructor
    · intro hsame e he
      obtain ⟨a, ha, hfind⟩ := List.mem_filterMap.mp (List.mem_of_head? he)
      have hgone := ht'.gone a ha
      rw [hsame a, hfind] at hgone
      cases hgone
    · intro hhead b
      have hnil : t.found v n = [] := by
        by_contra hne
        obtain ⟨e, es, hcons⟩ := List.exists_cons_of_ne_nil hne
        have hpin := hhead e (by rw [hcons, List.head?_cons])
        rw [hzero e (hcons ▸ List.mem_cons_self)] at hpin
        exact absurd hpin (by decide)
      by_cases hb : b ∈ t.pages v n
      · rw [ht'.gone b hb]
        exact (List.filterMap_eq_nil_iff.mp hnil b hb).symm
      · exact ht'.other b hb
  · rw [unmapRange, heq, found_pinned hpages ha]
    constructor
    · intro hsame e' he'
      have hnone : before.filterMap t.table.find = [] := by
        apply List.filterMap_eq_nil_iff.mpr
        intro b hb
        rw [← hsame b]
        exact ht'.gone b hb
      rw [hnone, List.nil_append, List.head?_cons] at he'
      exact Option.some.inj he' ▸ hpin
    · intro hhead b
      have hnone : before.filterMap t.table.find = [] := by
        by_contra hne
        obtain ⟨e₁, es, hcons⟩ := List.exists_cons_of_ne_nil hne
        obtain ⟨c, hc, hfind⟩ := List.mem_filterMap.mp (hcons ▸ List.mem_cons_self : e₁ ∈ _)
        exact hfree c hc ⟨e₁, hfind, hhead e₁ (by rw [hcons]; rfl)⟩
      by_cases hb : b ∈ before
      · rw [ht'.gone b hb]
        exact (List.filterMap_eq_nil_iff.mp hnone b hb).symm
      · exact ht'.other b hb

theorem unmapRange_atomic_iff (t : PageTableManager) (v n : UInt64) :
    Atomic t v n ↔ (∀ e ∈ t.found v n, e.refcount = 0) ∨
      ∃ e, (t.found v n).head? = some e ∧ 0 < e.refcount := by
  rcases unmapPages_cases (t.pages v n) t with ⟨hfree, t', heq, ht'⟩ |
    ⟨before, a, after, t', hpages, ⟨e, ha, hpin⟩, _, heq, _⟩
  · refine iff_of_true ⟨fun hrefused => ?_, fun _ => ?_⟩ (.inl (mem_found hfree))
    · simp [unmapRange, heq] at hrefused
    · rw [unmapRange, heq]
      exact ht'
  · have hmem : e ∈ t.found v n := by simp [found_pinned hpages ha]
    have hpinned : ¬ ∀ e ∈ t.found v n, e.refcount = 0 := by
      intro hall
      rw [hall e hmem] at hpin
      exact absurd hpin (by decide)
    have hatomic : Atomic t v n ↔ ∀ b, (t.unmapRange v n).2.table.find b = t.table.find b := by
      constructor
      · intro h
        exact h.refused (by rw [unmapRange, heq])
      · refine fun hsame => ⟨fun _ => hsame, fun hok => ?_⟩
        simp [unmapRange, heq] at hok
    rw [hatomic, unmapRange_same_iff, or_iff_right hpinned]
    constructor
    · intro hhead
      obtain ⟨e₁, es, hcons⟩ := List.exists_cons_of_ne_nil (List.ne_nil_of_mem hmem)
      exact ⟨e₁, by rw [hcons]; rfl, hhead e₁ (by rw [hcons]; rfl)⟩
    · rintro ⟨e₁, hhead, hpin₁⟩ e₂ he₂
      exact Option.some.inj (hhead.symm.trans he₂) ▸ hpin₁

def secondPinned : PageTableManager :=
  ((mapRange {} 0 0x20000 .hbm 0 id).2.incref 0x10000 0).2

theorem unmapRange_atomic_fails : ¬ ∀ (t : PageTableManager) (v n : UInt64), Atomic t v n := by
  intro h
  have hrefused := (h secondPinned 0 0x20000).refused (by decide) 0
  exact absurd hrefused (by decide)

end NexusRT.Memory.PageTableManager

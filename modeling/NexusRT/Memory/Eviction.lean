import NexusRT.Library.Selection
import NexusRT.Memory.Mapping
import NexusRT.Memory.Pins

namespace NexusRT.Memory

def PageEntry.inHbm (e : PageEntry) : Bool := e.residency = .hbm

def PageEntry.spillable (e : PageEntry) : Bool := e.inHbm && e.refcount == 0

def PageEntry.spill (e : PageEntry) : PageEntry :=
  { e with residency := .spilled, fetchCount := e.fetchCount + 1 }

theorem spillable_inHbm {e : PageEntry} (h : e.spillable = true) : e.inHbm = true := by
  rw [PageEntry.spillable, Bool.and_eq_true] at h
  exact h.1

namespace PageTableManager

def hbmPages (t : PageTableManager) : ℕ := t.table.count PageEntry.inHbm

def unpinnedPages (t : PageTableManager) : ℕ := t.table.count PageEntry.spillable

def watermark (t : PageTableManager) (pct : UInt32) : ℕ :=
  t.hbmPoolBytes.toNat / t.pageBytes.toNat * pct.toNat / 100

def spillAll (t : PageTableManager) (victims : List UInt64) : PageTableManager :=
  { t with table := t.table.modifyAll victims PageEntry.spill }

theorem evictCands_eq (low : UInt64) (cs : List Cand) (resident : UInt64) (evicted : UInt32)
    (t : PageTableManager) (hcs : ∀ c ∈ cs, (t.table.find c.vaddr).isSome = true) :
    let k := min cs.length (resident.toNat - low.toNat)
    evictCands low cs resident evicted t =
      (evicted + UInt32.ofNat k, t.spillAll ((cs.take k).map Cand.vaddr)) := by
  induction cs generalizing resident evicted t with
  | nil => simp [evictCands, spillAll, Table.modifyAll]
  | cons c cs ih =>
    rw [evictCands]
    by_cases hlow : resident ≤ low
    · have hzero : resident.toNat - low.toNat = 0 := by
        have := UInt64.le_iff_toNat_le.mp hlow
        omega
      simp [hlow, hzero, spillAll, Table.modifyAll]
    · have hlt : low.toNat < resident.toNat := by
        rw [UInt64.le_iff_toNat_le] at hlow
        omega
      have hpred : (resident - 1).toNat = resident.toNat - 1 :=
        UInt64.toNat_sub_of_le _ _ (UInt64.le_iff_toNat_le.mpr (Nat.one_le_of_lt hlt))
      obtain ⟨e, he⟩ := Option.isSome_iff_exists.mp (hcs c List.mem_cons_self)
      have hk : min (c :: cs).length (resident.toNat - low.toNat) =
          min cs.length (resident.toNat - 1 - low.toNat) + 1 := by
        rw [List.length_cons]
        omega
      simp only [hlow, ↓reduceIte, he]
      rw [ih, hpred, hk]
      · refine Prod.ext ?_ rfl
        rw [UInt32.ofNat_add]
        grind
      · intro d hd
        rw [find_update]
        split
        · simp [he]
        · exact hcs d (List.mem_cons_of_mem c hd)

def cand (a : UInt64) (e : PageEntry) : Option Cand :=
  if e.spillable = true then some ⟨a, e.lastAccessNs, e.refcount⟩ else none

theorem cands_eq (t : PageTableManager) : t.cands = t.table.entries.filterMap (fun (a, e) => cand a e) := by
  rw [cands]
  congr 1
  funext (a, e)
  by_cases hres : e.residency = .hbm
  · by_cases hpin : 0 < e.refcount
    · simp [cand, PageEntry.spillable, PageEntry.inHbm, hres, hpin, UInt16.pos_iff_ne_zero.mp hpin]
    · have hzero : e.refcount = 0 := by simpa using hpin
      simp [cand, PageEntry.spillable, PageEntry.inHbm, hres, hzero]
  · simp [cand, PageEntry.spillable, PageEntry.inHbm, hres]

theorem cands_vaddr (t : PageTableManager) :
    t.cands.map Cand.vaddr = t.table.holding PageEntry.spillable := by
  rw [cands_eq]
  apply Table.map_filterMap_entries
  intro a e
  by_cases he : e.spillable = true <;> simp [cand, he]

theorem mem_cands {t : PageTableManager} {c : Cand} (hc : c ∈ t.cands) :
    ∃ e, t.table.find c.vaddr = some e ∧ e.spillable = true ∧ e.lastAccessNs = c.lastAccess := by
  rw [cands_eq] at hc
  obtain ⟨⟨a, e⟩, hmem, hcand⟩ := List.mem_filterMap.mp hc
  rw [Table.mem_entries] at hmem
  by_cases he : e.spillable = true
  · simp only [cand, he, ↓reduceIte, Option.some.injEq] at hcand
    subst hcand
    exact ⟨e, hmem, he, rfl⟩
  · simp [cand, he] at hcand

def order (std : StdSort Cand (fun x y => x.lastAccess < y.lastAccess)) (t : PageTableManager)
    (pol : EvictionPolicy) : List Cand :=
  if pol = .lru ∨ pol = .lruRefcount then std.sort t.cands else t.cands

section Order

variable (std : StdSort Cand (fun x y => x.lastAccess < y.lastAccess)) (t : PageTableManager)
  (pol : EvictionPolicy)

theorem order_perm : (t.order std pol).Perm t.cands := by
  rw [order]
  split
  · exact std.perm t.cands
  · exact .refl _

theorem order_vaddr : ((t.order std pol).map Cand.vaddr).Perm (t.table.holding PageEntry.spillable) := by
  rw [← cands_vaddr]
  exact (order_perm std t pol).map _

theorem length_order : (t.order std pol).length = t.unpinnedPages := by
  rw [(order_perm std t pol).length_eq, ← List.length_map (f := Cand.vaddr), cands_vaddr,
    Table.length_holding]
  rfl

theorem order_nodup : ((t.order std pol).map Cand.vaddr).Nodup :=
  (order_vaddr std t pol).nodup_iff.mpr (t.table.nodup_holding _)

variable {t}

theorem mem_order {c : Cand} (hc : c ∈ t.order std pol) :
    ∃ e, t.table.find c.vaddr = some e ∧ e.spillable = true ∧ e.lastAccessNs = c.lastAccess :=
  mem_cands ((order_perm std t pol).mem_iff.mp hc)

theorem order_of_spillable {a : UInt64} {e : PageEntry} (he : t.table.find a = some e)
    (hspill : e.spillable = true) :
    ∃ c ∈ t.order std pol, c.vaddr = a ∧ e.lastAccessNs = c.lastAccess := by
  have hmem : a ∈ (t.order std pol).map Cand.vaddr :=
    (order_vaddr std t pol).mem_iff.mpr ((Table.mem_holding _ _ _).mpr ⟨e, he, hspill⟩)
  obtain ⟨c, hc, rfl⟩ := List.mem_map.mp hmem
  obtain ⟨e', he', _, hlast⟩ := mem_order std pol hc
  obtain rfl := Option.some.inj (he.symm.trans he')
  exact ⟨c, hc, rfl, hlast⟩

variable {pol}

theorem order_sorted (hpol : pol = .lru ∨ pol = .lruRefcount) :
    (t.order std pol).Pairwise (fun x y => x.lastAccess ≤ y.lastAccess) := by
  rw [order, if_pos hpol]
  exact (std.sorted t.cands).imp fun h => by simpa using h

end Order

structure Spilled (t : PageTableManager) (pol : EvictionPolicy) (victims : List UInt64)
    (t' : PageTableManager) : Prop where
  nodup : victims.Nodup
  moved : ∀ a ∈ victims, ∃ e, t.table.find a = some e ∧ e.residency = .hbm ∧ e.refcount = 0 ∧
    t'.table.find a = some e.spill
  kept : ∀ a, a ∉ victims → t'.table.find a = t.table.find a
  oldest : pol = .lru ∨ pol = .lruRefcount → ∀ a ∈ victims, ∀ e, t.table.find a = some e →
    ∀ b, b ∉ victims → ∀ e', t.table.find b = some e' → e'.residency = .hbm → e'.refcount = 0 →
      e.lastAccessNs ≤ e'.lastAccessNs

theorem spillable_iff {e : PageEntry} :
    e.spillable = true ↔ e.residency = .hbm ∧ e.refcount = 0 := by
  simp [PageEntry.spillable, PageEntry.inHbm]

section Victims

variable (std : StdSort Cand (fun x y => x.lastAccess < y.lastAccess)) (t : PageTableManager)
  (pol : EvictionPolicy) (k : ℕ)

def victims : List UInt64 := Selection.chosen Cand.vaddr (t.order std pol) k

theorem nodup_victims : (t.victims std pol k).Nodup :=
  Selection.nodup_chosen (order_nodup std t pol) k

theorem victims_holding : ∀ a ∈ t.victims std pol k, a ∈ t.table.holding PageEntry.spillable := by
  intro a ha
  exact (order_vaddr std t pol).mem_iff.mp ((Selection.chosen_sublist _ _ k).subset ha)

theorem spillAll_spilled : Spilled t pol (t.victims std pol k) (t.spillAll (t.victims std pol k)) := by
  have hnodup := nodup_victims std t pol k
  refine ⟨hnodup, fun a ha => ?_, fun a ha => ?_, fun hpol a ha e he b hb e' he' hhbm hpin => ?_⟩
  · obtain ⟨e, he, hspill⟩ := (Table.mem_holding _ _ _).mp (victims_holding std t pol k a ha)
    obtain ⟨hhbm, hpin⟩ := spillable_iff.mp hspill
    refine ⟨e, he, hhbm, hpin, ?_⟩
    rw [spillAll, Table.find_modifyAll _ hnodup, if_pos ha, he]
    rfl
  · rw [spillAll, Table.find_modifyAll _ hnodup, if_neg ha]
  · obtain ⟨e₁, he₁, hspill₁⟩ := (Table.mem_holding _ _ _).mp (victims_holding std t pol k a ha)
    obtain rfl := Option.some.inj (he.symm.trans he₁)
    obtain ⟨c, hc, rfl, hc'⟩ := order_of_spillable std pol he hspill₁
    obtain ⟨d, hd, rfl, hd'⟩ := order_of_spillable std pol he'
      (spillable_iff.mpr ⟨hhbm, hpin⟩)
    rw [hc', hd']
    exact Selection.rel_of_chosen (order_sorted std hpol) (order_nodup std t pol) hc ha hd hb

theorem unpinnedPages_spillAll : (t.spillAll (t.victims std pol k)).unpinnedPages +
    (t.victims std pol k).length = t.unpinnedPages := by
  apply Table.count_modifyAll _ (nodup_victims std t pol k) (victims_holding std t pol k)
  intro e
  simp [PageEntry.spillable, PageEntry.inHbm, PageEntry.spill]

theorem hbmPages_spillAll : (t.spillAll (t.victims std pol k)).hbmPages +
    (t.victims std pol k).length = t.hbmPages := by
  apply Table.count_modifyAll _ (nodup_victims std t pol k)
  · intro a ha
    obtain ⟨e, he, hspill⟩ := (Table.mem_holding _ _ _).mp (victims_holding std t pol k a ha)
    exact (Table.mem_holding _ _ _).mpr ⟨e, he, spillable_inHbm hspill⟩
  · intro e
    simp [PageEntry.inHbm, PageEntry.spill]

end Victims

theorem watermark_toNat (t : PageTableManager) {pct : UInt32} (h : pct ≤ 100) :
    (t.hbmPoolBytes / t.pageBytes * pct.toUInt64 / 100).toNat = t.watermark pct := by
  have hpct : pct.toNat ≤ 100 := UInt32.le_iff_toNat_le.mp h
  have hpages : t.hbmPoolBytes.toNat / t.pageBytes.toNat * pct.toNat < 2 ^ 64 := by
    have hpool := t.hbmPoolBytes.toNat_lt
    have hpage : 2 ^ 16 ≤ t.pageBytes.toNat := by
      rw [pageBytes_toNat]
      exact Nat.pow_le_pow_right (by omega) (by rcases t.shift_eq with h | h <;> omega)
    have hdiv : t.hbmPoolBytes.toNat / t.pageBytes.toNat ≤ t.hbmPoolBytes.toNat / 2 ^ 16 :=
      Nat.div_le_div_left hpage (by omega)
    have hmul := Nat.mul_le_mul hdiv hpct
    omega
  rw [UInt64.toNat_div, UInt64.toNat_mul, UInt64.toNat_div, UInt32.toNat_toUInt64,
    Nat.mod_eq_of_lt hpages]
  rfl

def excess (t : PageTableManager) (highPct lowPct : UInt32) : ℕ :=
  let mark (pct : UInt32) := t.hbmPoolBytes / t.pageBytes * pct.toUInt64 / 100
  if t.residentHbmPages ≤ mark highPct then 0
  else t.residentHbmPages.toNat - (mark lowPct).toNat

theorem victims_min (std : StdSort Cand (fun x y => x.lastAccess < y.lastAccess))
    (t : PageTableManager) (pol : EvictionPolicy) (k : ℕ) :
    t.victims std pol (min t.unpinnedPages k) = t.victims std pol k := by
  rw [victims, victims, Selection.chosen, Selection.chosen, ← length_order std t pol, Nat.min_comm,
    ← List.take_eq_take_min]

theorem evictUntil_spills (std : StdSort Cand (fun x y => x.lastAccess < y.lastAccess))
    (t : PageTableManager) (highPct lowPct : UInt32) (pol : EvictionPolicy) :
    t.evictUntil std highPct lowPct pol =
      (UInt32.ofNat (min t.unpinnedPages (t.excess highPct lowPct)),
        t.spillAll (t.victims std pol (t.excess highPct lowPct))) := by
  rw [evictUntil, excess]
  by_cases hle : t.residentHbmPages ≤ t.hbmPoolBytes / t.pageBytes * highPct.toUInt64 / 100
  · simp only [hle, ↓reduceIte, Nat.min_zero]
    rfl
  · simp only [hle, ↓reduceIte]
    change evictCands _ (t.order std pol) _ 0 t = _
    rw [evictCands_eq, length_order, UInt32.zero_add, ← victims_min]
    · rfl
    · intro c hc
      obtain ⟨e, he, _⟩ := mem_order std pol hc
      rw [he]
      rfl

section Entries

variable {t t' : PageTableManager} {a b : UInt64} {e' : PageEntry}

theorem Unmapped.entry {as : List UInt64} (h : Unmapped t as t')
    (he' : t'.table.find a = some e') : t.table.find a = some e' := by
  by_cases ha : a ∈ as
  · cases (h.gone a ha).symm.trans he'
  · rw [← h.other a ha]
    exact he'

theorem update_entry {f : PageEntry → PageEntry}
    (he' : (t.update b f).table.find a = some e')
    (hf : ∀ e, (f e).residency = e.residency ∧ (f e).fetchCount = e.fetchCount) :
    ∃ e, t.table.find a = some e ∧ e'.residency = e.residency ∧ e'.fetchCount = e.fetchCount := by
  rw [find_update] at he'
  split at he'
  · next hab =>
    obtain ⟨e, he, rfl⟩ := Option.map_eq_some_iff.mp he'
    exact ⟨e, hab ▸ he, hf e⟩
  · exact ⟨e', he', rfl, rfl⟩

theorem after_entry (c : PageCall) (he' : (t.after c).table.find a = some e') :
    (∃ e, t.table.find a = some e ∧ e'.residency = e.residency ∧ e'.fetchCount = e.fetchCount) ∨
      ∃ e, t.table.find a = some e ∧ e' = e.spill ∧ ∃ std highPct lowPct pol,
        c = .evictUntil std highPct lowPct pol ∧ a ∈ t.victims std pol (t.excess highPct lowPct) := by
  cases c with
  | incref vaddr now =>
    left
    rcases incref_cases t vaddr now with hfail | ⟨_, _, _, hok⟩
    · rw [after, hfail] at he'
      exact ⟨e', he', rfl, rfl⟩
    · rw [after, hok] at he'
      apply update_entry he'
      exact fun _ => ⟨rfl, rfl⟩
  | decref vaddr now =>
    left
    rcases decref_cases t vaddr now with hfail | ⟨_, _, _, hok⟩
    · rw [after, hfail] at he'
      exact ⟨e', he', rfl, rfl⟩
    · rw [after, hok] at he'
      apply update_entry he'
      exact fun _ => ⟨rfl, rfl⟩
  | lookup vaddr => exact .inl ⟨e', he', rfl, rfl⟩
  | evictUntil std highPct lowPct pol =>
    have hspilled := spillAll_spilled std t pol (t.excess highPct lowPct)
    rw [after, evictUntil_spills] at he'
    by_cases ha : a ∈ t.victims std pol (t.excess highPct lowPct)
    · obtain ⟨e, he, _, _, hmoved⟩ := hspilled.moved a ha
      obtain rfl := Option.some.inj (hmoved.symm.trans he')
      exact .inr ⟨e, he, rfl, std, highPct, lowPct, pol, rfl, ha⟩
    · rw [hspilled.kept a ha] at he'
      exact .inl ⟨e', he', rfl, rfl⟩
  | unmapRange vaddr bytes =>
    left
    rw [after, unmapRange] at he'
    rcases unmapPages_cases (t.pages vaddr bytes) t with ⟨_, u, heq, hu⟩ |
      ⟨before, _, _, u, _, _, _, heq, hu⟩
    · rw [heq] at he'
      exact ⟨e', hu.entry he', rfl, rfl⟩
    · rw [heq] at he'
      exact ⟨e', hu.entry he', rfl, rfl⟩

end Entries

theorem hbmPages_lt {t : PageTableManager} (h : t.table.size < 2 ^ 32) :
    t.hbmPages < 2 ^ 32 ∧ t.unpinnedPages ≤ t.hbmPages := by
  refine ⟨lt_of_le_of_lt List.countP_le_length h, ?_⟩
  exact t.table.count_mono fun _ => spillable_inHbm

section Evict

variable {t : PageTableManager} {highPct lowPct : UInt32}

theorem excess_eq (hhbm : t.hbmPages < 2 ^ 32) (hhigh : highPct ≤ 100) (hlow : lowPct ≤ 100) :
    t.excess highPct lowPct =
      if t.hbmPages ≤ t.watermark highPct then 0 else t.hbmPages - t.watermark lowPct := by
  have hresident : t.residentHbmPages.toNat = t.hbmPages :=
    UInt64.toNat_ofNat_of_lt' (hhbm.trans (by decide))
  have hbelow : t.residentHbmPages ≤ t.hbmPoolBytes / t.pageBytes * highPct.toUInt64 / 100 ↔
      t.hbmPages ≤ t.watermark highPct := by
    rw [UInt64.le_iff_toNat_le, hresident, watermark_toNat t hhigh]
  simp only [excess, hbelow, hresident, watermark_toNat t hlow]

theorem evictUntil_eq (std : StdSort Cand (fun x y => x.lastAccess < y.lastAccess))
    (hhbm : t.hbmPages < 2 ^ 32) (hhigh : highPct ≤ 100) (hlow : lowPct ≤ 100)
    (pol : EvictionPolicy) : t.evictUntil std highPct lowPct pol =
      if t.hbmPages ≤ t.watermark highPct then (0, t) else
        let k := min t.unpinnedPages (t.hbmPages - t.watermark lowPct)
        (UInt32.ofNat k, t.spillAll (t.victims std pol k)) := by
  rw [evictUntil_spills, excess_eq hhbm hhigh hlow]
  by_cases hle : t.hbmPages ≤ t.watermark highPct
  · simp only [hle, ↓reduceIte, Nat.min_zero]
    rfl
  · simp only [hle, ↓reduceIte, victims_min]

theorem evictUntil_again (std : StdSort Cand (fun x y => x.lastAccess < y.lastAccess))
    {u : PageTableManager} (hhbm : u.hbmPages < 2 ^ 32) (hhigh : highPct ≤ 100)
    (hlow : lowPct ≤ 100) (pol : EvictionPolicy)
    (h : u.unpinnedPages = 0 ∨ u.hbmPages ≤ u.watermark lowPct) :
    (u.evictUntil std highPct lowPct pol).1 = 0 := by
  rw [evictUntil_eq std hhbm hhigh hlow]
  split
  · rfl
  · have hzero : min u.unpinnedPages (u.hbmPages - u.watermark lowPct) = 0 := by omega
    simp [hzero]

theorem evictUntil_exact (t : PageTableManager) (hsize : t.table.size < 2 ^ 32)
    (highPct lowPct : UInt32) (hhigh : highPct ≤ 100) (hlow : lowPct ≤ 100) (pol : EvictionPolicy)
    (std std' : StdSort Cand (fun x y => x.lastAccess < y.lastAccess)) :
    ∃ evicted t', t.evictUntil std highPct lowPct pol = (evicted, t') ∧
      (t.hbmPages ≤ t.watermark highPct → evicted = 0 ∧ t' = t) ∧
      (t.watermark highPct < t.hbmPages →
        evicted.toNat = min t.unpinnedPages (t.hbmPages - t.watermark lowPct) ∧
          ∃ victims, victims.length = evicted.toNat ∧ Spilled t pol victims t') ∧
      (t'.evictUntil std' highPct lowPct pol).1 = 0 := by
  obtain ⟨hhbm, hunpinned⟩ := hbmPages_lt hsize
  rw [evictUntil_eq std hhbm hhigh hlow]
  by_cases hle : t.hbmPages ≤ t.watermark highPct
  · rw [if_pos hle]
    refine ⟨0, t, rfl, fun _ => ⟨rfl, rfl⟩, fun hlt => absurd hle (Nat.not_le.mpr hlt), ?_⟩
    rw [evictUntil_eq std' hhbm hhigh hlow, if_pos hle]
  · rw [if_neg hle]
    let k := min t.unpinnedPages (t.hbmPages - t.watermark lowPct)
    have hlength : (t.victims std pol k).length = k := by
      rw [victims, Selection.length_chosen, length_order]
      omega
    have hk : k ≤ t.unpinnedPages := Nat.min_le_left _ _
    have hfits : k < 2 ^ 32 := by omega
    have hcount : (UInt32.ofNat k).toNat = k := UInt32.toNat_ofNat_of_lt' hfits
    refine ⟨UInt32.ofNat k, t.spillAll (t.victims std pol k), rfl, fun h => absurd h hle, fun _ =>
      ⟨hcount, _, hlength.trans hcount.symm, spillAll_spilled std t pol k⟩, ?_⟩
    have hleft := unpinnedPages_spillAll std t pol k
    have hstay := hbmPages_spillAll std t pol k
    have hmark : (t.spillAll (t.victims std pol k)).watermark lowPct = t.watermark lowPct := rfl
    apply evictUntil_again std' (by omega) hhigh hlow
    omega

def threePages : PageTableManager :=
  (mapRange { hbmPoolBytes := 0x40000 } 0 0x30000 .hbm 0 id).2.run [.incref 5 0]

theorem evictUntil_exact_threePages : ∃ t' victims,
    threePages.evictUntil stableSort 74 50 .lru = (1, t') ∧
      victims.length = 1 ∧ Spilled threePages .lru victims t' ∧
      (t'.table.find 0).map PageEntry.residency = some .hbm ∧
      (t'.table.find 0x10000).map PageEntry.residency = some .spilled ∧
      (t'.table.find 0x20000).map PageEntry.residency = some .hbm := by
  obtain ⟨evicted, t', heq, _, hmore, _⟩ := evictUntil_exact threePages (by decide) 74 50 (by decide)
    (by decide) .lru stableSort stableSort
  obtain ⟨hcount, victims, hlength, hspilled⟩ := hmore (by decide)
  have hone : evicted.toNat = 1 := hcount.trans (by decide)
  obtain rfl : evicted = 1 := UInt32.toNat_inj.mp hone
  obtain rfl : (threePages.evictUntil stableSort 74 50 .lru).2 = t' := congrArg Prod.snd heq
  exact ⟨_, victims, heq, hlength, hspilled, by decide, by decide, by decide⟩

end Evict

end PageTableManager

end NexusRT.Memory

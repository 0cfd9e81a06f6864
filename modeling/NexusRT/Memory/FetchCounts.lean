import NexusRT.Memory.Coverage
import NexusRT.Memory.ReadMostly

namespace NexusRT.Memory

open Firmware MemoryManager PageTableManager

structure FetchLog where
  m : MemoryManager
  entered : UInt64 → ℕ := fun _ => 0

inductive FetchLogCall
  | mapRange (v n : UInt64) (res : PageResidency) (physOrHost : UInt64) (now : UInt64 → UInt64)
  | adviseReadMostly (p : Ptr) (n : UInt64) (now : UInt64 → UInt64)
  | page (c : PageCall)

namespace FetchLog

def next (s : FetchLog) : FetchLogCall → MemoryManager
  | .mapRange v n res physOrHost now =>
    { s.m with pageTable := (s.m.pageTable.mapRange v n res physOrHost now).2 }
  | .adviseReadMostly p n now => (s.m.adviseReadMostly p n now).2
  | .page c => { s.m with pageTable := s.m.pageTable.after c }

def after (s : FetchLog) (c : FetchLogCall) : FetchLog where
  m := s.next c
  entered a := match (s.next c).pageTable.residencyOf a with
    | none => 0
    | some res => s.entered a +
      if res = .hbm ∧ s.m.pageTable.residencyOf a ≠ some .hbm then 1 else 0

def Counted (s : FetchLog) : Prop :=
  ∀ a e, s.m.pageTable.table.find a = some e → s.entered a ≠ 0 → e.fetchCount.toNat = s.entered a

def NoReturn (s : FetchLog) (v n : UInt64) : Prop :=
  ∀ a ∈ s.m.pageTable.pages v n, s.entered a ≠ 0 → s.m.pageTable.residencyOf a = some .hbm

def PagedInOnce (s : FetchLog) : FetchLogCall → Prop
  | .mapRange v n res _ _ => res = .hbm → s.NoReturn v n
  | .adviseReadMostly p n _ => s.NoReturn p n
  | .page (.evictUntil _ highPct lowPct _) =>
    s.m.pageTable.unpinnedPages = 0 ∨ s.m.pageTable.excess highPct lowPct = 0
  | .page _ => True

structure Inv (s : FetchLog) : Prop where
  absent : ∀ a, s.m.pageTable.table.find a = none → s.entered a = 0
  once : ∀ a e, s.m.pageTable.table.find a = some e → e.fetchCount = 1 ∧ s.entered a ≤ 1
  resident : ∀ a e, s.m.pageTable.table.find a = some e → e.residency = .hbm → s.entered a = 1

theorem Inv.counted {s : FetchLog} (h : s.Inv) : s.Counted := by
  intro a e he hentered
  obtain ⟨hcount, hle⟩ := h.once a e he
  have hone : (1 : UInt64).toNat = 1 := rfl
  rw [hcount, hone]
  omega

section After

variable {s : FetchLog} {c : FetchLogCall} {a : UInt64} {e e' : PageEntry}

theorem entered_absent (ha : (s.next c).pageTable.table.find a = none) :
    (s.after c).entered a = 0 := by
  rw [after]
  simp only [residencyOf_none ha]

theorem entered_found (he' : (s.next c).pageTable.table.find a = some e') :
    (s.after c).entered a = s.entered a +
      if e'.residency = .hbm ∧ s.m.pageTable.residencyOf a ≠ some .hbm then 1 else 0 := by
  rw [after]
  simp only [residencyOf_some he']

theorem entered_kept (he : s.m.pageTable.table.find a = some e)
    (he' : (s.next c).pageTable.table.find a = some e') (hres : e'.residency = e.residency) :
    (s.after c).entered a = s.entered a := by
  have hnot : ¬ (e.residency = .hbm ∧ some e.residency ≠ some .hbm) := by
    rintro ⟨hhbm, hne⟩
    exact hne (congrArg some hhbm)
  rw [entered_found he', residencyOf_some he, hres, if_neg hnot, Nat.add_zero]

theorem Inv.entered_le (h : s.Inv) (a : UInt64) : s.entered a ≤ 1 := by
  cases ha : s.m.pageTable.table.find a with
  | none =>
    rw [h.absent a ha]
    exact Nat.zero_le 1
  | some e => exact (h.once a e ha).2

theorem Inv.entered_resident (h : s.Inv) (ha : s.m.pageTable.residencyOf a = some .hbm) :
    s.entered a = 1 := by
  obtain ⟨e, he, hhbm⟩ := Option.map_eq_some_iff.mp ha
  exact h.resident a e he hhbm

theorem Inv.after (h : s.Inv)
    (hentry : ∀ a e', (s.next c).pageTable.table.find a = some e' →
      (∃ e, s.m.pageTable.table.find a = some e ∧ e'.residency = e.residency ∧
        e'.fetchCount = e.fetchCount) ∨
      (e'.fetchCount = 1 ∧ (e'.residency = .hbm → s.entered a ≠ 0 →
        s.m.pageTable.residencyOf a = some .hbm))) : (s.after c).Inv := by
  have hstep (a : UInt64) (e' : PageEntry) (he' : (s.next c).pageTable.table.find a = some e') :
      e'.fetchCount = 1 ∧ (s.after c).entered a ≤ 1 ∧
        (e'.residency = .hbm → (s.after c).entered a = 1) := by
    rcases hentry a e' he' with ⟨e, he, hres, hcount⟩ | ⟨hcount, hback⟩
    · obtain ⟨hone, hle⟩ := h.once a e he
      rw [entered_kept he he' hres, hcount, hres]
      exact ⟨hone, hle, h.resident a e he⟩
    · rw [entered_found he']
      by_cases hhbm : e'.residency = .hbm
      · by_cases hold : s.m.pageTable.residencyOf a = some .hbm
        · simp [hold, hcount, h.entered_resident hold]
        · have hzero : s.entered a = 0 := by
            by_contra hne
            exact hold (hback hhbm hne)
          simp [hhbm, hold, hcount, hzero]
      · simpa [hhbm, hcount] using h.entered_le a
  exact ⟨fun a ha => entered_absent ha, fun a e he => ⟨(hstep a e he).1, (hstep a e he).2.1⟩,
    fun a e he => (hstep a e he).2.2⟩

theorem inv_mapRange {v n : UInt64} {res : PageResidency} {physOrHost : UInt64}
    {now : UInt64 → UInt64} (h : s.Inv) (hback : res = .hbm → s.NoReturn v n)
    (hnext : (s.next c).pageTable = (s.m.pageTable.mapRange v n res physOrHost now).2) :
    (s.after c).Inv := by
  apply h.after
  intro a e' he'
  rw [hnext, find_mapRange] at he'
  by_cases ha : a ∈ s.m.pageTable.pages v n
  · rw [if_pos ha] at he'
    obtain rfl := Option.some.inj he'
    exact .inr ⟨rfl, fun hhbm => hback hhbm a ha⟩
  · rw [if_neg ha] at he'
    exact .inl ⟨e', he', rfl, rfl⟩

theorem not_counted_mapRange {v n physOrHost : UInt64} {now : UInt64 → UInt64} (hback : ¬ s.NoReturn v n)
    (hnext : (s.next c).pageTable = (s.m.pageTable.mapRange v n .hbm physOrHost now).2) :
    ¬ (s.after c).Counted := by
  intro hcounted
  rw [NoReturn] at hback
  push Not at hback
  obtain ⟨a, ha, hentered, hold⟩ := hback
  obtain ⟨e', he', hhbm, hcount⟩ : ∃ e', (s.next c).pageTable.table.find a = some e' ∧
      e'.residency = .hbm ∧ e'.fetchCount = 1 := by
    rw [hnext, find_mapRange, if_pos ha]
    exact ⟨_, rfl, rfl, rfl⟩
  have hagain : (s.after c).entered a = s.entered a + 1 := by
    rw [entered_found he', if_pos ⟨hhbm, hold⟩]
  have htwo := hcounted a e' he' (by omega)
  rw [hcount, hagain] at htwo
  have hone : (1 : UInt64).toNat = 1 := rfl
  omega

theorem victims_eq_nil (std : StdSort Cand (fun x y => x.lastAccess < y.lastAccess))
    (t : PageTableManager) (pol : EvictionPolicy) (k : ℕ) :
    t.victims std pol k = [] ↔ t.unpinnedPages = 0 ∨ k = 0 := by
  rw [← List.length_eq_zero_iff, victims, Selection.length_chosen, length_order]
  omega

theorem inv_page {c : PageCall} (h : s.Inv) (honce : s.PagedInOnce (.page c)) :
    (s.after (.page c)).Inv := by
  apply h.after
  intro a e' he'
  left
  rcases after_entry c he' with hkept | ⟨_, _, _, std, highPct, lowPct, pol, rfl, ha⟩
  · exact hkept
  · rw [(victims_eq_nil std _ pol _).mpr honce] at ha
    cases ha

theorem not_counted_evict (h : s.Inv) {highPct lowPct : UInt32}
    (std : StdSort Cand (fun x y => x.lastAccess < y.lastAccess)) (pol : EvictionPolicy)
    (hnot : ¬ s.PagedInOnce (.page (.evictUntil std highPct lowPct pol))) :
    ¬ (s.after (.page (.evictUntil std highPct lowPct pol))).Counted := by
  intro hcounted
  have hsome := mt (victims_eq_nil std s.m.pageTable pol _).mp hnot
  obtain ⟨a, ha⟩ := List.exists_mem_of_ne_nil _ hsome
  obtain ⟨e, he, hhbm, _, hmoved⟩ := (spillAll_spilled std s.m.pageTable pol _).moved a ha
  have he' : (s.next (.page (.evictUntil std highPct lowPct pol))).pageTable.table.find a =
      some e.spill := by
    rw [next]
    simp only [PageTableManager.after, evictUntil_spills]
    exact hmoved
  have hsame : (s.after (.page (.evictUntil std highPct lowPct pol))).entered a = 1 := by
    rw [entered_found he', if_neg (by simp [PageEntry.spill]), h.resident a e he hhbm]
  have htwo := hcounted a e.spill he' (by omega)
  have hcount : e.spill.fetchCount = 2 := by
    rw [PageEntry.spill, (h.once a e he).1]
    rfl
  rw [hsame, hcount] at htwo
  cases htwo

theorem pagedInOnce_iff (h : s.Inv) (c : FetchLogCall) :
    ((s.after c).Counted ↔ s.PagedInOnce c) ∧ (s.PagedInOnce c → (s.after c).Inv) := by
  have hiff (hinv : s.PagedInOnce c → (s.after c).Inv)
      (hbad : ¬ s.PagedInOnce c → ¬ (s.after c).Counted) :
      ((s.after c).Counted ↔ s.PagedInOnce c) ∧ (s.PagedInOnce c → (s.after c).Inv) :=
    ⟨⟨not_imp_not.mp hbad, fun honce => (hinv honce).counted⟩, hinv⟩
  cases c with
  | mapRange v n res physOrHost now =>
    apply hiff
    · exact fun honce => inv_mapRange h honce rfl
    · intro hnot
      rw [PagedInOnce, Classical.not_imp] at hnot
      obtain ⟨rfl, hback⟩ := hnot
      exact not_counted_mapRange hback rfl
  | adviseReadMostly p n now =>
    apply hiff
    · exact fun honce => inv_mapRange h (fun _ => honce) rfl
    · exact fun hback => not_counted_mapRange hback rfl
  | page c =>
    apply hiff
    · exact inv_page h
    · intro hnot
      cases c with
      | evictUntil std highPct lowPct pol => exact not_counted_evict h std pol hnot
      | _ => exact absurd trivial hnot

end After

def Step (s : FetchLog) (c : FetchLogCall) (s' : FetchLog) : Prop := s' = s.after c

theorem pagedInOnce_exact : ExactGuard Step PagedInOnce Inv Counted := by
  apply ExactGuard.of_iff fun _ h => h.counted
  rintro s c _ h rfl
  exact pagedInOnce_iff h c

theorem inv_fresh (arch : Arch) (hbmPoolBytes : UInt64) (ilc : Option IlcManager) :
    Inv { m := fresh arch hbmPoolBytes ilc } where
  absent _ _ := rfl
  once a e he := by cases he
  resident a e he := by cases he

end FetchLog

open FetchLog

theorem fetchCount_run (arch : Arch) (hbmPoolBytes : UInt64) (ilc : Option IlcManager) (s : FetchLog)
    (hrun : GuardedRun Step PagedInOnce { m := fresh arch hbmPoolBytes ilc } s) :
    s.Counted ∧ ∀ c s', Step s c s' → (s'.Counted ↔ s.PagedInOnce c) :=
  hrun.good_iff pagedInOnce_exact (inv_fresh arch hbmPoolBytes ilc)

def mappedOnce : FetchLog :=
  FetchLog.after { m := fresh .ampere 0 none } (.mapRange 0x10000 1 .hbm 0 id)

def evicting : FetchLogCall := .page (.evictUntil stableSort 0 0 .lru)

theorem run_mappedOnce : GuardedRun Step PagedInOnce { m := fresh .ampere 0 none } mappedOnce :=
  .single ⟨.mapRange 0x10000 1 .hbm 0 id, rfl, fun _ _ _ hentered => absurd rfl hentered⟩

theorem not_pagedInOnce : ¬ mappedOnce.PagedInOnce evicting := by
  rw [evicting, PagedInOnce, not_or]
  decide

theorem fetchCount_run_evicted : mappedOnce.Counted ∧ ¬ (mappedOnce.after evicting).Counted := by
  obtain ⟨hcounted, hstep⟩ := fetchCount_run .ampere 0 none mappedOnce run_mappedOnce
  exact ⟨hcounted, fun hgood => not_pagedInOnce ((hstep evicting _ rfl).mp hgood)⟩

theorem fetchCount_not_counted : ¬ ∀ (arch : Arch) (hbmPoolBytes : UInt64)
    (ilc : Option IlcManager) (s : FetchLog),
    Relation.ReflTransGen (fun s s' => ∃ c, Step s c s') { m := fresh arch hbmPoolBytes ilc } s →
      s.Counted := by
  intro hall
  obtain ⟨hreach, hbad⟩ :=
    run_mappedOnce.not_good pagedInOnce_exact (inv_fresh _ _ _) (c := evicting) rfl not_pagedInOnce
  exact hbad (hall _ _ _ _ hreach)

end NexusRT.Memory

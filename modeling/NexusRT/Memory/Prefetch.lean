import NexusRT.Firmware.BootRelease
import NexusRT.Firmware.FetchHints
import NexusRT.Memory.Coverage
import NexusRT.Memory.Eviction
import NexusRT.Memory.Ranges

namespace NexusRT.Memory

open Firmware MemoryManager PageTableManager

def PageEntry.inStorage (e : PageEntry) : Bool := e.residency = .spilled

def PageTableManager.spilledPages (t : PageTableManager) : UInt64 :=
  UInt64.ofNat (t.table.count PageEntry.inStorage)

namespace MemoryManager

def prefetch (m : MemoryManager) (hbmPtr : Ptr) (bytes : UInt64) :
    FetchProg (Status × MemoryManager) := do
  let s ← Fetch.prefetchRange hbmPtr bytes
  return (s, m)

def bytesResidentHbm (m : MemoryManager) : UInt64 :=
  m.pageTable.residentHbmPages * (if m.pageTable.arch = .hopper then 128 else 64) * 1024

def bytesSpilled (m : MemoryManager) : UInt64 :=
  m.pageTable.spilledPages * (if m.pageTable.arch = .hopper then 128 else 64) * 1024

def InLive (m : MemoryManager) (p : Ptr) (n : UInt64) : Prop :=
  ∃ q a, m.live.find q = some a ∧ a.vaddr.toNat ≤ p.toNat ∧
    p.toNat + n.toNat ≤ a.vaddr.toNat + a.bytes.toNat

end MemoryManager

namespace PageTableManager

theorem meetsPage_iff (t : PageTableManager) (v n a : UInt64) : t.MeetsPage v n a ↔
    max v.toNat a.toNat < min (v.toNat + n.toNat) (a.toNat + t.pageBytes.toNat) := by
  constructor
  · rintro ⟨x, ⟨hlow, hhigh⟩, hle, hlt⟩
    omega
  · intro h
    rcases Nat.le_total v.toNat a.toNat with hle | hle
    · refine ⟨a, ⟨hle, ?_⟩, le_rfl, ?_⟩ <;> omega
    · refine ⟨v, ⟨le_rfl, ?_⟩, hle, ?_⟩ <;> omega

instance (t : PageTableManager) (v n a : UInt64) : Decidable (t.MeetsPage v n a) :=
  decidable_of_iff _ (t.meetsPage_iff v n a).symm

def broughtBack (t : PageTableManager) (v n : UInt64) : List UInt64 :=
  (t.table.holding PageEntry.inStorage).filter (fun a => t.MeetsPage v n a)

theorem broughtBack_eq_nil {t : PageTableManager} {v n : UInt64} : t.broughtBack v n = [] ↔
    ∀ a e, t.table.find a = some e → t.MeetsPage v n a → e.residency ≠ .spilled := by
  rw [broughtBack, List.filter_eq_nil_iff]
  constructor
  · intro h a e he hmeets hspilled
    have hin : a ∈ t.table.holding PageEntry.inStorage :=
      (Table.mem_holding _ _ _).mpr ⟨e, he, by simp [PageEntry.inStorage, hspilled]⟩
    exact h a hin (by simpa using hmeets)
  · intro h a hin hmeets
    obtain ⟨e, he, hstorage⟩ := (Table.mem_holding _ _ _).mp hin
    exact h a e he (by simpa using hmeets) (by simpa [PageEntry.inStorage] using hstorage)

def TwoPlaces (t : PageTableManager) : Prop :=
  ∀ a e, t.table.find a = some e → e.residency = .hbm ∨ e.residency = .spilled

theorem TwoPlaces.of_entries {t t' : PageTableManager} (h : t.TwoPlaces)
    (hkeep : ∀ a e', t'.table.find a = some e' → e'.residency = .hbm ∨ e'.residency = .spilled ∨
      ∃ e, t.table.find a = some e ∧ e'.residency = e.residency) : t'.TwoPlaces := by
  intro a e' he'
  rcases hkeep a e' he' with hhbm | hspilled | ⟨e, he, hsame⟩
  · exact .inl hhbm
  · exact .inr hspilled
  · rw [hsame]
    exact h a e he

theorem find_after {t : PageTableManager} (c : PageCall) {a : UInt64} {e' : PageEntry}
    (he' : (t.after c).table.find a = some e') : e'.residency = .spilled ∨
      ∃ e, t.table.find a = some e ∧ e'.residency = e.residency := by
  rcases after_entry c he' with ⟨e, he, hres, _⟩ | ⟨e, _, rfl, _⟩
  · exact .inr ⟨e, he, hres⟩
  · exact .inl rfl

theorem TwoPlaces.after {t : PageTableManager} (h : t.TwoPlaces) (c : PageCall) :
    (t.after c).TwoPlaces :=
  h.of_entries fun _ _ he' => .inr (find_after c he')

theorem TwoPlaces.mapped {t t' : PageTableManager} {as : List UInt64} (h : t.TwoPlaces)
    (hmapped : Mapped t t' as) : t'.TwoPlaces := by
  apply h.of_entries
  intro a e' he'
  by_cases ha : a ∈ as
  · obtain ⟨e, he, hhbm, _⟩ := hmapped.mapped a ha
    obtain rfl := Option.some.inj (he.symm.trans he')
    exact .inl hhbm
  · rw [hmapped.other a ha] at he'
    exact .inr (.inr ⟨e', he', rfl⟩)

end PageTableManager

structure Refreshed (m : MemoryManager) (p : Ptr) (n : UInt64) (m' : MemoryManager) : Prop where
  resident : ∀ a e, m'.pageTable.table.find a = some e → m'.pageTable.MeetsPage p n a →
    e.residency = .hbm
  inHbm : m'.bytesResidentHbm =
    m.bytesResidentHbm + UInt64.ofNat (m.pageTable.broughtBack p n).length * m.pageTable.pageBytes
  inStorage : m'.bytesSpilled =
    m.bytesSpilled - UInt64.ofNat (m.pageTable.broughtBack p n).length * m.pageTable.pageBytes

theorem refreshed_iff {m : MemoryManager} (h : m.pageTable.TwoPlaces) (p : Ptr) (n : UInt64) :
    Refreshed m p n m ↔ m.pageTable.broughtBack p n = [] := by
  constructor
  · intro hrefreshed
    apply broughtBack_eq_nil.mpr
    intro a e he hmeets hspilled
    rw [hrefreshed.resident a e he hmeets] at hspilled
    cases hspilled
  · intro hnil
    refine ⟨fun a e he hmeets => ?_, ?_, ?_⟩
    · exact (h a e he).resolve_right (broughtBack_eq_nil.mp hnil a e he hmeets)
    · simp [hnil]
    · simp [hnil]

/-- `refreshed` is a ghost: whether every prefetch so far has brought its pages back. -/
structure FetchState where
  m : MemoryManager
  refreshed : Prop := True

inductive FetchStepCall
  | alloc (bytes : UInt64) (hints : AllocHints) (out : Allocation) (now later : UInt64 → UInt64)
  | page (c : PageCall)
  | prefetch (p : Ptr) (n : UInt64)
  | injectFetchHint (vaddr bytes : UInt64)

inductive FetchStep (s : FetchState) : FetchStepCall → FetchState → Prop
  | alloc (bytes : UInt64) (hints : AllocHints) (out a : Allocation) (now later : UInt64 → UInt64)
      (status : Status) (m' : MemoryManager)
      (h : Prog.Exec (Prog.allow anyBackend) (s.m.alloc bytes hints out now later) ()
        (status, a, m') ()) :
      FetchStep s (.alloc bytes hints out now later) { s with m := m' }
  | page (c : PageCall) :
      FetchStep s (.page c) { s with m := { s.m with pageTable := s.m.pageTable.after c } }
  | prefetch (p : Ptr) (n : UInt64) (status : Status) (m' : MemoryManager)
      (h : Prog.Exec (Prog.allow Fetches) (s.m.prefetch p n) () (status, m') ()) :
      FetchStep s (.prefetch p n)
        { m := m'
          refreshed := s.refreshed ∧
            (status = .ok → 1 ≤ n → s.m.InLive p n → Refreshed s.m p n m') }
  | injectFetchHint (vaddr bytes : UInt64) (status : Status)
      (h : Prog.Exec (Prog.allow Fetches) (FaultHandler.injectFetchHint vaddr bytes) () status ()) :
      FetchStep s (.injectFetchHint vaddr bytes) s

def NothingSpilled (s : FetchState) : FetchStepCall → Prop
  | .prefetch p n => 1 ≤ n → s.m.InLive p n →
    ∀ a e, s.m.pageTable.table.find a = some e → s.m.pageTable.MeetsPage p n a →
      e.residency ≠ .spilled
  | _ => True

def FetchInv (s : FetchState) : Prop := s.refreshed ∧ s.m.pageTable.TwoPlaces

theorem fetchInv_step {s : FetchState} {c : FetchStepCall} {s' : FetchState} (hi : FetchInv s)
    (h : FetchStep s c s') :
    (s'.refreshed ↔ NothingSpilled s c) ∧ s'.m.pageTable.TwoPlaces := by
  obtain ⟨hrefreshed, hplaces⟩ := hi
  cases h with
  | alloc bytes hints out a now later status m' h =>
    refine ⟨iff_of_true hrefreshed trivial, ?_⟩
    rcases (Prog.always_iff _ _ _).mp (alloc_spec s.m bytes hints out now later) _ _ h with
      ⟨_, hsame, _⟩ | ⟨_, _, hbm, _, hallocated⟩
    · obtain rfl : m' = s.m := hsame
      exact hplaces
    · exact hplaces.mapped hallocated.mapped
  | page c => exact ⟨iff_of_true hrefreshed trivial, hplaces.after c⟩
  | injectFetchHint => exact ⟨iff_of_true hrefreshed trivial, hplaces⟩
  | prefetch p n status m' h =>
    obtain ⟨status', _, hanswer, hret, _⟩ := h
    obtain ⟨rfl, rfl⟩ := Prod.mk.inj hret
    have hok : status = .ok := hanswer
    have hiff := refreshed_iff hplaces p n
    rw [broughtBack_eq_nil] at hiff
    refine ⟨⟨fun hgood hn hlive => ?_, fun hmeets => ⟨hrefreshed, fun _ hn hlive => ?_⟩⟩, hplaces⟩
    · exact hiff.mp (hgood.2 hok hn hlive)
    · exact hiff.mpr (hmeets hn hlive)

theorem nothingSpilled_exact :
    ExactGuard FetchStep NothingSpilled FetchInv FetchState.refreshed := by
  apply ExactGuard.of_iff fun _ hi => hi.1
  intro s c s' hi h
  obtain ⟨hiff, hplaces⟩ := fetchInv_step hi h
  exact ⟨hiff, fun hmeets => ⟨hiff.mpr hmeets, hplaces⟩⟩

theorem fetchInv_fresh (arch : Arch) (hbmPoolBytes : UInt64) (ilc : Option IlcManager) :
    FetchInv { m := fresh arch hbmPoolBytes ilc } := by
  refine ⟨trivial, fun a e he => ?_⟩
  cases he

theorem refreshed_run (arch : Arch) (hbmPoolBytes : UInt64) (ilc : Option IlcManager)
    (s : FetchState)
    (hrun : GuardedRun FetchStep NothingSpilled { m := fresh arch hbmPoolBytes ilc } s) :
    s.refreshed ∧ ∀ c s', FetchStep s c s' → (s'.refreshed ↔ NothingSpilled s c) :=
  hrun.good_iff nothingSpilled_exact (fetchInv_fresh arch hbmPoolBytes ilc)

def allocated : (Status × Allocation × MemoryManager) × Unit :=
  Prog.eval (fun c _ => (succeedingBackend {} c, ()))
    ((fresh .ampere 0 none).alloc 0x10000 {} {} id id) ()

def spilledState : FetchState where
  m := { allocated.1.2.2 with
    pageTable := allocated.1.2.2.pageTable.after (.evictUntil stableSort 0 0 .lru) }

theorem run_spilled :
    GuardedRun FetchStep NothingSpilled { m := fresh .ampere 0 none } spilledState := by
  apply Relation.ReflTransGen.tail (b := { m := allocated.1.2.2 })
  · apply Relation.ReflTransGen.single
    have hexec := Prog.exec_eval (H := Prog.allow anyBackend)
      (f := fun c _ => (succeedingBackend {} c, ())) (fun _ _ => trivial)
      ((fresh .ampere 0 none).alloc 0x10000 {} {} id id) ()
    exact ⟨_, .alloc 0x10000 {} {} allocated.1.2.1 id id allocated.1.1 _ hexec, trivial⟩
  · exact ⟨_, .page (.evictUntil stableSort 0 0 .lru), trivial⟩

theorem prefetch_spilled : ∃ s', FetchStep spilledState (.prefetch 0x10000 1) s' :=
  ⟨_, .prefetch _ _ _ _ ⟨.ok, (), rfl, rfl, rfl⟩⟩

theorem not_nothingSpilled : ¬ NothingSpilled spilledState (.prefetch 0x10000 1) := by
  intro hmeets
  have hlive : spilledState.m.InLive 0x10000 1 := ⟨0x10000, _, rfl, by decide, by decide⟩
  exact hmeets (by decide) hlive 0x10000 _ rfl (by decide) rfl

theorem refreshed_run_spilled : spilledState.refreshed ∧
    ∃ s', FetchStep spilledState (.prefetch 0x10000 1) s' ∧ ¬ s'.refreshed := by
  obtain ⟨hrefreshed, hstep⟩ := refreshed_run .ampere 0 none spilledState run_spilled
  obtain ⟨s', hs'⟩ := prefetch_spilled
  exact ⟨hrefreshed, s', hs', fun hgood => not_nothingSpilled ((hstep _ _ hs').mp hgood)⟩

theorem prefetch_not_refreshed : ¬ ∀ (arch : Arch) (hbmPoolBytes : UInt64)
    (ilc : Option IlcManager) (s : FetchState),
    Relation.ReflTransGen (fun s s' => ∃ c, FetchStep s c s')
      { m := fresh arch hbmPoolBytes ilc } s → s.refreshed := by
  intro hall
  obtain ⟨s', hs'⟩ := prefetch_spilled
  obtain ⟨hreach, hbad⟩ :=
    run_spilled.not_good nothingSpilled_exact (fetchInv_fresh _ _ _) hs' not_nothingSpilled
  exact hbad (hall _ _ _ s' hreach)

end NexusRT.Memory

import NexusRT.Library.Guarded
import NexusRT.Memory.Eviction
import NexusRT.Memory.Ranges

namespace NexusRT.Memory

open Firmware MemoryManager PageTableManager

namespace PageTableManager

def HasPage (t : PageTableManager) (v n a : UInt64) : Prop := ∃ x, InRange v n x ∧ t.pageBase x = a

def residencyOf (t : PageTableManager) (a : UInt64) : Option PageResidency :=
  (t.table.find a).map PageEntry.residency

theorem residencyOf_some {t : PageTableManager} {a : UInt64} {e : PageEntry}
    (he : t.table.find a = some e) :
    t.residencyOf a = some e.residency := by
  rw [residencyOf, he]
  rfl

theorem residencyOf_none {t : PageTableManager} {a : UInt64} (ha : t.table.find a = none) :
    t.residencyOf a = none := by
  rw [residencyOf, ha]
  rfl

def KeepsRefcounts (t t' : PageTableManager) : Prop :=
  ∀ a e, t.table.find a = some e → 0 < e.refcount →
    ∃ e', t'.table.find a = some e' ∧ e.refcount ≤ e'.refcount

theorem residencyOf_spillAll (std : StdSort Cand (fun x y => x.lastAccess < y.lastAccess))
    (t : PageTableManager) (pol : EvictionPolicy) (k : ℕ) (a : UInt64) :
    (t.spillAll (t.victims std pol k)).residencyOf a = t.residencyOf a ↔
      a ∉ t.victims std pol k := by
  have hspilled := spillAll_spilled std t pol k
  rw [residencyOf, residencyOf]
  constructor
  · intro hsame ha
    obtain ⟨e, he, hhbm, _, he'⟩ := hspilled.moved a ha
    rw [he, he', Option.map_some, Option.map_some, hhbm] at hsame
    cases hsame
  · intro ha
    rw [hspilled.kept a ha]

theorem mapRange_keepsRefcounts (t : PageTableManager) (v n p : UInt64) (now : UInt64 → UInt64) :
    KeepsRefcounts t (t.mapRange v n .hbm p now).2 ↔ ∀ a ∈ t.pages v n, ¬ Pinned t a := by
  have hmapped := t.mapRange_mapped v n p now
  constructor
  · rintro hkeeps a ha ⟨e, he, hpin⟩
    obtain ⟨e', he', hle⟩ := hkeeps a e he hpin
    obtain ⟨e₁, he₁, _, hzero⟩ := hmapped.mapped a ha
    obtain rfl := Option.some.inj (he'.symm.trans he₁)
    rw [hzero, UInt16.le_iff_toNat_le] at hle
    rw [UInt16.lt_iff_toNat_lt] at hpin
    omega
  · intro hfree a e he hpin
    have ha : a ∉ t.pages v n := fun ha => hfree a ha ⟨e, he, hpin⟩
    exact ⟨e, by rw [hmapped.other a ha, he], UInt16.le_refl _⟩

end PageTableManager

/-- `advised` and `kept` are ghosts: the pages that an advice holds for, and whether every advice so
far was kept. -/
structure AdviceState where
  m : MemoryManager
  advised : UInt64 → Prop := fun _ => False
  kept : Prop := True

inductive AdviceCall
  | alloc (bytes : UInt64) (hints : AllocHints) (out : Allocation) (now later : UInt64 → UInt64)
  | free (a : Allocation)
  | adviseReadMostly (p : Ptr) (n : UInt64) (now : UInt64 → UInt64)
  | mapRange (v n : UInt64) (res : PageResidency) (physOrHost : UInt64) (now : UInt64 → UInt64)
  | page (c : PageCall)

def AdviceState.unmapped (s : AdviceState) (v n : UInt64) (t' : PageTableManager) (a : UInt64) : Prop :=
  s.m.pageTable.HasPage v n a ∧ t'.table.find a = none

def AdviceState.afterPage (s : AdviceState) (c : PageCall) : AdviceState :=
  let t' := s.m.pageTable.after c
  { m := { s.m with pageTable := t' }
    advised := fun a => s.advised a ∧ match c with
      | .unmapRange v n => ¬ s.unmapped v n t' a
      | _ => True
    kept := s.kept ∧ match c with
      | .evictUntil _ _ _ _ => ∀ a, s.advised a → t'.residencyOf a = s.m.pageTable.residencyOf a
      | _ => True }

inductive AdviceStep (s : AdviceState) : AdviceCall → AdviceState → Prop
  | alloc (bytes : UInt64) (hints : AllocHints) (out a : Allocation) (now later : UInt64 → UInt64)
      (status : Status) (m' : MemoryManager)
      (h : Prog.Exec (Prog.allow anyBackend) (s.m.alloc bytes hints out now later) ()
        (status, a, m') ()) :
      AdviceStep s (.alloc bytes hints out now later) { s with
        m := m'
        advised := fun pg => s.advised pg ∨
          (status = .ok ∧ hints.readMostly = true ∧ s.m.pageTable.HasPage a.vaddr a.bytes pg) }
  | free (a : Allocation) (status : Status) (m' : MemoryManager)
      (h : Prog.Exec (Prog.allow anyBackend) (s.m.free a) () (status, m') ()) :
      AdviceStep s (.free a) { s with
        m := m'
        advised := fun pg => s.advised pg ∧
          ¬ (s.m.live.contains a.hbmPtr = true ∧ s.unmapped a.vaddr a.bytes m'.pageTable pg) }
  | adviseReadMostly (p : Ptr) (n : UInt64) (now : UInt64 → UInt64) (m' : MemoryManager)
      (h : s.m.adviseReadMostly p n now = (.ok, m')) :
      AdviceStep s (.adviseReadMostly p n now)
        { m := m'
          advised := fun pg => s.advised pg ∨ s.m.pageTable.HasPage p n pg
          kept := s.kept ∧ KeepsRefcounts s.m.pageTable m'.pageTable }
  | mapRange (v n : UInt64) (res : PageResidency) (physOrHost : UInt64) (now : UInt64 → UInt64) :
      AdviceStep s (.mapRange v n res physOrHost now) { s with
        m := { s.m with pageTable := (s.m.pageTable.mapRange v n res physOrHost now).2 } }
  | page (c : PageCall) : AdviceStep s (.page c) (s.afterPage c)

def Spares (s : AdviceState) : AdviceCall → Prop
  | .adviseReadMostly p n _ => ∀ a ∈ s.m.pageTable.pages p n, ¬ Pinned s.m.pageTable a
  | .page (.evictUntil std highPct lowPct pol) =>
    ∀ a ∈ s.m.pageTable.victims std pol (s.m.pageTable.excess highPct lowPct), ¬ s.advised a
  | _ => True

theorem afterPage_kept (s : AdviceState) (c : PageCall) :
    (s.afterPage c).kept ↔ s.kept ∧ Spares s (.page c) := by
  cases c with
  | evictUntil std highPct lowPct pol =>
    simp only [AdviceState.afterPage, Spares, after, evictUntil_spills, residencyOf_spillAll]
    apply and_congr_right
    exact fun _ => ⟨fun h a ha hadvised => h a hadvised ha, fun h a hadvised ha => h a ha hadvised⟩
  | _ => exact Iff.rfl

theorem adviceStep_kept {s s' : AdviceState} {c : AdviceCall} (h : AdviceStep s c s') :
    s'.kept ↔ s.kept ∧ Spares s c := by
  cases h with
  | alloc => exact (and_iff_left trivial).symm
  | free => exact (and_iff_left trivial).symm
  | mapRange => exact (and_iff_left trivial).symm
  | page c => exact afterPage_kept s c
  | adviseReadMostly p n now m' h =>
    obtain ⟨_, rfl⟩ := Prod.mk.inj h
    exact and_congr_right fun _ => mapRange_keepsRefcounts _ _ _ _ _

theorem spares_exact : ExactGuard AdviceStep Spares AdviceState.kept AdviceState.kept := by
  apply ExactGuard.of_iff fun _ h => h
  intro s c s' h hstep
  have hiff : s'.kept ↔ Spares s c := (adviceStep_kept hstep).trans (and_iff_right h)
  exact ⟨hiff, hiff.mpr⟩

theorem advice_kept_run (m : MemoryManager) (s : AdviceState)
    (hrun : GuardedRun AdviceStep Spares { m } s) :
    s.kept ∧ ∀ c s', AdviceStep s c s' → (s'.kept ↔ Spares s c) :=
  hrun.good_iff spares_exact trivial

def advisedState : AdviceState where
  m := ((({} : MemoryManager).adviseReadMostly 0x10000 1 id).2)
  advised pg := False ∨ ({} : PageTableManager).HasPage 0x10000 1 pg
  kept := True ∧ KeepsRefcounts {} (({} : MemoryManager).adviseReadMostly 0x10000 1 id).2.pageTable

theorem run_advised : GuardedRun AdviceStep Spares { m := {} } advisedState := by
  apply Relation.ReflTransGen.single
  refine ⟨.adviseReadMostly 0x10000 1 id, .adviseReadMostly _ _ _ _ rfl, ?_⟩
  rintro a _ ⟨e, he, _⟩
  cases he

def evictAll : AdviceCall := .page (.evictUntil stableSort 0 0 .lru)

theorem evictAll_not_spared : ¬ Spares advisedState evictAll := by
  intro hspares
  have hin : (0x10000 : UInt64) ∈ advisedState.m.pageTable.victims stableSort .lru
      (advisedState.m.pageTable.excess 0 0) := by decide
  exact hspares _ hin (.inr ⟨0x10000, ⟨by decide, by decide⟩, by decide⟩)

theorem advice_kept_run_advised : advisedState.kept ∧ ∃ s', AdviceStep advisedState evictAll s' ∧
    ¬ s'.kept := by
  obtain ⟨hkept, hstep⟩ := advice_kept_run {} advisedState run_advised
  refine ⟨hkept, _, .page _, fun hgood => ?_⟩
  exact evictAll_not_spared ((hstep _ _ (.page _)).mp hgood)

theorem advice_not_kept : ¬ ∀ (m : MemoryManager) (s : AdviceState),
    Relation.ReflTransGen (fun s s' => ∃ c, AdviceStep s c s') { m } s → s.kept := by
  intro hall
  obtain ⟨hreach, hbad⟩ :=
    run_advised.not_good spares_exact trivial (.page _) evictAll_not_spared
  exact hbad (hall {} _ hreach)

end NexusRT.Memory

import NexusRT.Memory.Coverage
import NexusRT.Memory.IlcTags
import NexusRT.Memory.Ranges

namespace NexusRT.Memory

open Firmware MemoryManager PageTableManager

def MemoryManager.HasPinned (m : MemoryManager) (a : Allocation) : Prop :=
  ∃ x e, a.Contains x ∧ m.pageTable.lookup x = some e ∧ 0 < e.refcount

def MemoryManager.Untags (m : MemoryManager) (a : Allocation) : Prop :=
  a.ilcTagged = true ∧ ∃ i, m.ilc = some i ∧ i.enabled = true ∧ i.tagged.contains a.hbmPtr = true

structure SameMemory (m : MemoryManager) (b : Hbm) (m' : MemoryManager) (b' : Hbm) : Prop where
  live : m'.live = m.live
  total : m'.bytesAllocated = m.bytesAllocated
  pages : ∀ pg, m'.pageTable.table.find pg = m.pageTable.table.find pg
  tags : ∀ p, m'.IsTagged p ↔ m.IsTagged p
  memory : b'.memory = b.memory

structure FreesWhole (m : MemoryManager) (b : Hbm) (a : Allocation) (freed : Status) (s : Status)
    (m' : MemoryManager) (b' : Hbm) : Prop where
  refused : m.HasPinned a ∨ freed ≠ .ok → s ≠ .ok ∧ SameMemory m b m' b'
  done : s = .ok → b'.memory a.hbmPtr = .released ∧ m'.bytesAllocated = m.bytesAllocated - a.bytes

def FreesCleanly (m : MemoryManager) (a : Allocation) (freed : Status) : Prop :=
  (freed = .ok ∧ ¬ m.HasPinned a) ∨
    (freed ≠ .ok ∧ ¬ m.Untags a ∧
      ∀ e, (m.pageTable.found a.vaddr a.bytes).head? = some e → 0 < e.refcount)

section Specs

variable {freed : Ptr → Status} {m : MemoryManager} {a : Allocation} {b : Hbm}

theorem untagIlc_untags (m : MemoryManager) (a : Allocation) (b : Hbm) :
    Prog.Always (Hbm.Serves freed) (m.untagIlc a) b (fun m' b' =>
      b'.memory = b.memory ∧ m'.pageTable = m.pageTable ∧ m'.live = m.live ∧
        m'.bytesAllocated = m.bytesAllocated ∧
        ∀ p, m'.IsTagged p ↔ m.IsTagged p ∧ ¬ (m.Untags a ∧ p = a.hbmPtr)) := by
  have hkept {n : MemoryManager} (hilc : n.ilc = m.ilc) (hnot : ¬ m.Untags a) (p : Ptr) :
      n.IsTagged p ↔ m.IsTagged p ∧ ¬ (m.Untags a ∧ p = a.hbmPtr) := by
    rw [IsTagged, IsTagged, hilc]
    simp [hnot]
  rcases m.untagIlc_cases a with ⟨heq, hquiet⟩ | ⟨i, hi, ha, heq⟩
  · have hnot : ¬ m.Untags a := by
      rintro ⟨htag, i, hi, _⟩
      rcases hquiet with hnone | hfalse
      · rw [hnone] at hi
        cases hi
      · rw [hfalse] at htag
        cases htag
    rw [heq]
    exact ⟨rfl, rfl, rfl, rfl, hkept rfl hnot⟩
  · rw [heq, IlcManager.untag]
    cases hon : i.enabled with
    | false =>
      have hnot : ¬ m.Untags a := by
        rintro ⟨_, j, hj, hjon, _⟩
        obtain rfl := Option.some.inj (hi.symm.trans hj)
        rw [hon] at hjon
        cases hjon
      exact ⟨rfl, rfl, rfl, rfl, hkept hi.symm hnot⟩
    | true =>
      cases htag : i.tagged.contains a.hbmPtr with
      | false =>
        have hnot : ¬ m.Untags a := by
          rintro ⟨_, j, hj, _, hjtag⟩
          obtain rfl := Option.some.inj (hi.symm.trans hj)
          rw [htag] at hjtag
          cases hjtag
        exact ⟨rfl, rfl, rfl, rfl, hkept hi.symm hnot⟩
      | true =>
        have huntags : m.Untags a := ⟨ha, i, hi, hon, htag⟩
        intro s b' hserves
        have hb : b' = b.untag a.hbmPtr := hserves
        refine ⟨by rw [hb, Hbm.memory_untag], rfl, rfl, rfl, fun p => ?_⟩
        rw [isTagged_iff hi, isTagged_iff rfl]
        by_cases hp : p = a.hbmPtr
        · simp [Table.contains, hp, huntags]
        · simp [Table.contains, hp]

structure Freeing (m : MemoryManager) (b : Hbm) (a : Allocation) (freed : Status)
    (m' : MemoryManager) (b' : Hbm) : Prop where
  memory : b'.memory = (b.release a.hbmPtr freed).memory
  pages : m'.pageTable = (m.pageTable.unmapRange a.vaddr a.bytes).2
  tags : ∀ p, m'.IsTagged p ↔ m.IsTagged p ∧ ¬ (m.Untags a ∧ p = a.hbmPtr)
  live : m'.live = if freed = .ok then m.live.erase a.hbmPtr else m.live
  total : m'.bytesAllocated = if freed = .ok then m.bytesAllocated - a.bytes else m.bytesAllocated

theorem free_does (hlive : m.live.find a.hbmPtr ≠ none) :
    Prog.Always (Hbm.Serves freed) (m.free a) b (fun r b' =>
      r.1 = freed a.hbmPtr ∧ Freeing m b a (freed a.hbmPtr) r.2 b') := by
  obtain ⟨c, hc⟩ := Option.ne_none_iff_exists'.mp hlive
  rw [free, hc]
  dsimp only
  rw [Prog.always_bind]
  apply Prog.always_mono (untagIlc_untags m a b)
  rintro m₁ b₁ ⟨hmemory, hpages, hrecord, htotal, htags⟩
  simp only [Platform.freeHbm, Prog.op, Prog.call_bind, Prog.ret_bind, Prog.always_call]
  rintro s b' ⟨rfl, rfl⟩
  have hreleased : (b₁.release a.hbmPtr (freed a.hbmPtr)).memory =
      (b.release a.hbmPtr (freed a.hbmPtr)).memory := by
    rw [Hbm.release, Hbm.release]
    split
    · rw [hmemory]
    · exact hmemory
  by_cases hs : freed a.hbmPtr = .ok
  · simp only [hs, (ok_iff .ok).mpr rfl, Bool.not_true, Bool.false_eq_true, ↓reduceIte]
    rw [hs] at hreleased
    refine ⟨rfl, hreleased, by rw [hpages], htags, ?_, ?_⟩
    · rw [if_pos rfl, hrecord]
    · rw [if_pos rfl, htotal]
  · simp only [(ok_eq_false_iff _).mpr hs, Bool.not_false, ↓reduceIte]
    refine ⟨rfl, hreleased, by rw [hpages], htags, ?_, ?_⟩
    · rw [if_neg hs, hrecord]
    · rw [if_neg hs, htotal]

end Specs

section Freeing

variable {m m' : MemoryManager} {a : Allocation} {b b' : Hbm} {freed : Status}

theorem Untags.isTagged (h : m.Untags a) : m.IsTagged a.hbmPtr := by
  obtain ⟨_, i, hi, _, htag⟩ := h
  exact ⟨i, hi, htag⟩

theorem Freeing.same_iff (h : Freeing m b a freed m' b') (hs : freed ≠ .ok) :
    SameMemory m b m' b' ↔ ¬ m.Untags a ∧
      ∀ e, (m.pageTable.found a.vaddr a.bytes).head? = some e → 0 < e.refcount := by
  rw [← unmapRange_same_iff]
  constructor
  · intro hsame
    refine ⟨fun huntags => ?_, fun pg => ?_⟩
    · have htagged := (hsame.tags a.hbmPtr).mpr (Untags.isTagged huntags)
      exact ((h.tags _).mp htagged).2 ⟨huntags, rfl⟩
    · rw [← h.pages]
      exact hsame.pages pg
  · rintro ⟨hnot, hpages⟩
    refine ⟨?_, ?_, fun pg => ?_, fun p => ?_, ?_⟩
    · rw [h.live, if_neg hs]
    · rw [h.total, if_neg hs]
    · rw [h.pages]
      exact hpages pg
    · rw [h.tags, and_iff_left]
      exact fun huntags => hnot huntags.1
    · rw [h.memory, Hbm.release, if_neg hs]

theorem Freeing.done (h : Freeing m b a .ok m' b') : b'.memory a.hbmPtr = .released ∧
    m'.bytesAllocated = m.bytesAllocated - a.bytes := by
  refine ⟨?_, h.total⟩
  rw [h.memory, Hbm.release, if_pos rfl]
  exact Function.update_self _ _ _

theorem Freeing.whole_iff (h : Freeing m b a freed m' b') :
    FreesWhole m b a freed freed m' b' ↔ FreesCleanly m a freed := by
  by_cases hs : freed = .ok
  · subst hs
    constructor
    · intro hwhole
      exact .inl ⟨rfl, fun hpinned => (hwhole.refused (.inl hpinned)).1 rfl⟩
    · rintro (⟨_, hfree⟩ | ⟨hne, _⟩)
      · refine ⟨fun hrefused => ?_, fun _ => h.done⟩
        rcases hrefused with hpinned | hne
        · exact absurd hpinned hfree
        · exact absurd rfl hne
      · exact absurd rfl hne
  · constructor
    · intro hwhole
      exact .inr ⟨hs, (h.same_iff hs).mp (hwhole.refused (.inr hs)).2⟩
    · rintro (⟨hok, _⟩ | ⟨_, hclean⟩)
      · exact absurd hok hs
      · exact ⟨fun _ => ⟨hs, (h.same_iff hs).mpr hclean⟩, fun hok => absurd hok hs⟩

end Freeing

theorem free_whole_iff {m m' : MemoryManager} {a : Allocation} {b b' : Hbm} {freed : Ptr → Status}
    {s : Status} (ha : m.live.find a.hbmPtr = some a)
    (h : Prog.Exec (Hbm.Serves freed) (m.free a) b (s, m') b') :
    FreesWhole m b a (freed a.hbmPtr) s m' b' ↔ FreesCleanly m a (freed a.hbmPtr) := by
  have hlive : m.live.find a.hbmPtr ≠ none := by simp [ha]
  obtain ⟨rfl, hfreeing⟩ := (Prog.always_iff _ _ _).mp (free_does hlive) _ _ h
  exact hfreeing.whole_iff

def plainAlloc : PlatformProg (Status × Allocation × MemoryManager) :=
  (newTags {} fun _ => .unused).m.alloc 0x10000 {} {} id id

def plainAllocation : Allocation := { vaddr := 0x10000, bytes := 0x10000, hbmPtr := 0x10000 }

def plainState : TagState :=
  let (_, _, m) := (Prog.eval oneAddress plainAlloc { memory := fun _ => .unused }).1
  ⟨m, (Prog.eval oneAddress plainAlloc { memory := fun _ => .unused }).2⟩

def pinnedManager : MemoryManager :=
  { plainState.m with pageTable := (plainState.m.pageTable.incref 0x10000 0).2 }

theorem free_whole_iff_plain : ∃ s m' b',
    Prog.Exec (Hbm.Serves fun _ => .ok) (plainState.m.free plainAllocation) plainState.hbm (s, m') b' ∧
      FreesWhole plainState.m plainState.hbm plainAllocation .ok s m' b' := by
  have hexec := Prog.exec_eval serves_oneAddress (plainState.m.free plainAllocation) plainState.hbm
  refine ⟨_, _, _, hexec, (free_whole_iff (by decide) hexec).mpr (.inl ⟨rfl, ?_⟩)⟩
  rintro ⟨x, e, _, he, hpin⟩
  have hmapped := mapRange_mapped {} 0x10000 0x10000 0x10000 id
  by_cases hin : plainState.m.pageTable.pageBase x ∈ ({} : PageTableManager).pages 0x10000 0x10000
  · obtain ⟨e', he', _, hzero⟩ := hmapped.mapped _ hin
    obtain rfl := Option.some.inj (he'.symm.trans he)
    rw [hzero] at hpin
    exact absurd hpin (by decide)
  · cases (hmapped.other _ hin).symm.trans he

theorem free_not_whole : ¬ ∀ (m m' : MemoryManager) (a : Allocation) (b b' : Hbm)
    (freed : Ptr → Status) (s : Status), m.live.find a.hbmPtr = some a →
    Prog.Exec (Hbm.Serves freed) (m.free a) b (s, m') b' →
    FreesWhole m b a (freed a.hbmPtr) s m' b' := by
  intro hall
  have hexec := Prog.exec_eval serves_oneAddress (pinnedManager.free plainAllocation) plainState.hbm
  have hwhole := hall _ _ plainAllocation _ _ _ _ (by decide) hexec
  have hpinned : pinnedManager.HasPinned plainAllocation :=
    ⟨0x10000, _, ⟨by decide, by decide⟩, rfl, by decide⟩
  exact (hwhole.refused (.inl hpinned)).1 rfl

end NexusRT.Memory

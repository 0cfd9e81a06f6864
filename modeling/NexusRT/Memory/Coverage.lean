import NexusRT.Library.Guarded
import NexusRT.Memory.Mapping

namespace NexusRT.Memory

open Firmware PageTableManager MemoryManager

def Allocation.Contains (a : Allocation) (x : UInt64) : Prop :=
  a.vaddr.toNat ≤ x.toNat ∧ x.toNat < a.vaddr.toNat + a.bytes.toNat

structure Covers (m : MemoryManager) : Prop where
  mapped : ∀ p a, m.live.find p = some a → ∀ x, a.Contains x →
    ∃ e, m.pageTable.lookup x = some e ∧ e.residency = .hbm
  used : ∀ pg e, m.pageTable.table.find pg = some e →
    ∃ p a x, m.live.find p = some a ∧ a.Contains x ∧ m.pageTable.pageBase x = pg

/-- `answer` is what the backend answers if it is asked for memory. -/
inductive MemoryCall
  | alloc (bytes : UInt64) (hints : AllocHints) (out : Allocation) (now later : UInt64 → UInt64)
      (answer : Status × Ptr)
  | free (a : Allocation)

def Apart (m : MemoryManager) (p n : UInt64) : Prop :=
  p.toNat + n.toNat ≤ 2 ^ 64 ∧ ∀ q a, m.live.find q = some a →
    p.toNat + n.toNat ≤ a.vaddr.toNat ∨ a.vaddr.toNat + a.bytes.toNat ≤ p.toNat

def Backend (m : MemoryManager) (answer : Status × Ptr) : (c : PlatformCall) → c.Answer → Prop
  | .allocHbm n, r => r = answer ∧ (r.1 = .ok → Apart m r.2 n)
  | .freeHbm _, s => s = .ok
  | _, _ => True

structure CoverInv (m : MemoryManager) : Prop where
  covers : Covers m
  unpinned : m.pageTable.Unpinned
  live : ∀ p a, m.live.find p = some a →
    a.hbmPtr = p ∧ a.vaddr = p ∧ a.bytes ≠ 0 ∧ m.pageTable.BelowLast a.vaddr a.bytes

section Alloc

variable {m m' : MemoryManager} {bytes : UInt64} {hbm : Ptr} {out : Allocation}

theorem Apart.not_live (h : Apart m hbm bytes) (hn : bytes ≠ 0) (hi : CoverInv m) :
    m.live.find hbm = none := by
  cases hlive : m.live.find hbm with
  | none => rfl
  | some a =>
    obtain ⟨_, hbase, hsize, _⟩ := hi.live hbm a hlive
    have hpos := Align.toNat_pos hn
    have hpos' := Align.toNat_pos hsize
    have hapart := h.2 hbm a hlive
    rw [hbase] at hapart
    omega

theorem MemoryManager.Allocated.contains_iff (h : Allocated m bytes hbm out m') (x : UInt64) :
    out.Contains x ↔ hbm.toNat ≤ x.toNat ∧ x.toNat < hbm.toNat + bytes.toNat := by
  rw [Allocation.Contains, h.base, h.size]

theorem MemoryManager.Allocated.find_live (h : Allocated m bytes hbm out m') (q : Ptr) :
    m'.live.find q = if q = hbm then some out else m.live.find q := by
  rw [h.live, Table.find_insert]

theorem MemoryManager.Allocated.covers (h : Allocated m bytes hbm out m') (hi : CoverInv m)
    (hn : bytes ≠ 0) (hapart : Apart m hbm bytes) (hbelow : m.pageTable.BelowLast hbm bytes) :
    Covers m' := by
  have hbase := (pages_congr h.mapped.arch hbm bytes).2.1
  have hpages := fun a => m.pageTable.mem_pages (a := a) hbelow hn
  constructor
  · intro q b hq x hx
    rw [lookup, hbase]
    by_cases hin : m.pageTable.pageBase x ∈ m.pageTable.pages hbm bytes
    · obtain ⟨e, he, hres, _⟩ := h.mapped.mapped _ hin
      exact ⟨e, he, hres⟩
    · have hne : q ≠ hbm := by
        rintro rfl
        rw [h.find_live, if_pos rfl] at hq
        obtain rfl := Option.some.inj hq
        obtain ⟨hlow, hhigh⟩ := (h.contains_iff x).mp hx
        exact hin ((hpages _).mpr ⟨x, hlow, hhigh, rfl⟩)
      rw [h.find_live, if_neg hne] at hq
      rw [h.mapped.other _ hin]
      exact hi.covers.mapped q b hq x hx
  · intro pg e he
    by_cases hin : pg ∈ m.pageTable.pages hbm bytes
    · obtain ⟨x, hlow, hhigh, hpg⟩ := (hpages pg).mp hin
      refine ⟨hbm, out, x, ?_, (h.contains_iff x).mpr ⟨hlow, hhigh⟩, ?_⟩
      · rw [h.find_live, if_pos rfl]
      · rw [hbase, hpg]
    · rw [h.mapped.other _ hin] at he
      obtain ⟨q, b, x, hq, hx, hpg⟩ := hi.covers.used pg e he
      have hne : q ≠ hbm := by
        rintro rfl
        simp [hapart.not_live hn hi] at hq
      refine ⟨q, b, x, ?_, hx, ?_⟩
      · rw [h.find_live, if_neg hne, hq]
      · rw [hbase, hpg]

end Alloc

section Free

variable {m m' : MemoryManager} {a : Allocation}

end Free

def fresh (arch : Arch) (hbmPoolBytes : UInt64) (ilc : Option IlcManager) : MemoryManager :=
  { pageTable := { arch, hbmPoolBytes }, ilc }

end NexusRT.Memory

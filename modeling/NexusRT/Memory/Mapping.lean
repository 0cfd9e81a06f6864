import NexusRT.Memory.Manager
import NexusRT.Memory.Pins

namespace NexusRT.Memory

open Firmware

namespace PageTableManager

def shift (t : PageTableManager) : ℕ := if t.arch = .hopper then 17 else 16

theorem shift_eq (t : PageTableManager) : t.shift = 16 ∨ t.shift = 17 := by
  rw [shift]
  split <;> simp

theorem shift_lt (t : PageTableManager) : t.shift < 64 := by
  rcases t.shift_eq with h | h <;> omega

theorem pageBytes_toNat (t : PageTableManager) : t.pageBytes.toNat = 2 ^ t.shift := by
  rw [pageBytes, defaultPageKb, shift]
  split <;> rfl

theorem pageBase_toNat (t : PageTableManager) (x : UInt64) :
    (t.pageBase x).toNat = x.toNat / 2 ^ t.shift * 2 ^ t.shift :=
  Align.toNat_alignDown x t.pageBytes_toNat

theorem pageBase_le (t : PageTableManager) (x : UInt64) :
    (t.pageBase x).toNat ≤ x.toNat ∧ x.toNat < (t.pageBase x).toNat + 2 ^ t.shift := by
  rw [pageBase]
  exact Align.alignDown_le x t.pageBytes_toNat

theorem pageBase_eq (t : PageTableManager) {x a : UInt64} (ha : 2 ^ t.shift ∣ a.toNat)
    (hle : a.toNat ≤ x.toNat) (hlt : x.toNat < a.toNat + 2 ^ t.shift) : t.pageBase x = a := by
  obtain ⟨m, hm⟩ := ha
  apply UInt64.toNat_inj.mp
  rw [pageBase_toNat, hm, Nat.mul_comm]
  congr 1
  rw [hm] at hle hlt
  apply Nat.div_eq_of_lt_le
  · rw [Nat.mul_comm]
    exact hle
  · rw [Nat.succ_mul, Nat.mul_comm]
    exact hlt

def BelowLast (t : PageTableManager) (v n : UInt64) : Prop :=
  v.toNat + n.toNat + 2 ^ t.shift ≤ 2 ^ 64

theorem mem_pages (t : PageTableManager) {v n a : UInt64} (h : t.BelowLast v n) (hn : n ≠ 0) :
    a ∈ t.pages v n ↔
      ∃ x : UInt64, v.toNat ≤ x.toNat ∧ x.toNat < v.toNat + n.toNat ∧ t.pageBase x = a := by
  rw [pages, Align.mem_blocks t.pageBytes_toNat h]
  constructor
  · rintro ⟨hdvd, hlow, hhigh⟩
    have hpos := Align.toNat_pos hn
    by_cases hle : v.toNat ≤ a.toNat
    · exact ⟨a, hle, hhigh, t.pageBase_eq hdvd le_rfl (by have := Nat.two_pow_pos t.shift; omega)⟩
    · exact ⟨v, le_rfl, by omega, t.pageBase_eq hdvd (by omega) hlow⟩
  · rintro ⟨x, hlow, hhigh, rfl⟩
    obtain ⟨hle, hlt⟩ := t.pageBase_le x
    refine ⟨?_, by omega, by omega⟩
    rw [pageBase_toNat]
    exact Nat.dvd_mul_left _ _

theorem pages_eq_nil (t : PageTableManager) {v n : UInt64} (h : ¬ t.BelowLast v n)
    (hle : v.toNat + n.toNat ≤ 2 ^ 64) : t.pages v n = [] :=
  Align.blocks_eq_nil t.shift_lt t.pageBytes_toNat (Nat.lt_of_not_le h) hle

theorem pages_zero (t : PageTableManager) : t.pages 0 0 = [] := by
  apply List.eq_nil_iff_forall_not_mem.mpr
  intro a
  have hpow := Nat.pow_le_pow_right (n := 2) (by omega) t.shift_lt.le
  rw [pages, Align.mem_blocks t.pageBytes_toNat (by simpa using hpow)]
  simp

theorem pages_congr {t t' : PageTableManager} (h : t'.arch = t.arch) (v n : UInt64) :
    t'.pages v n = t.pages v n ∧ t'.pageBase = t.pageBase ∧ t'.shift = t.shift := by
  have hbytes : t'.pageBytes = t.pageBytes := by
    rw [pageBytes, pageBytes, defaultPageKb, defaultPageKb, h]
  refine ⟨by rw [pages, pages, hbytes], funext fun x => by rw [pageBase, pageBase, hbytes], ?_⟩
  rw [shift, shift, h]

structure Mapped (t t' : PageTableManager) (as : List UInt64) : Prop where
  arch : t'.arch = t.arch
  mapped : ∀ a ∈ as, ∃ e, t'.table.find a = some e ∧ e.residency = .hbm ∧ e.refcount = 0
  other : ∀ a, a ∉ as → t'.table.find a = t.table.find a

theorem foldl_insert_find (f : UInt64 → PageEntry) (as : List UInt64) (tab : Table UInt64 PageEntry)
    (a : UInt64) : (as.foldl (fun tab a => tab.insert a (f a)) tab).find a =
      if a ∈ as then some (f a) else tab.find a := by
  induction as generalizing tab with
  | nil => simp
  | cons b bs ih =>
    rw [List.foldl_cons, ih]
    by_cases hbs : a ∈ bs
    · simp [hbs]
    · by_cases hab : a = b
      · simp [hab]
      · simp [hbs, hab]

def mapEntry (t : PageTableManager) (vaddr : UInt64) (res : PageResidency) (physOrHost : UInt64)
    (now : UInt64 → UInt64) (a : UInt64) : PageEntry :=
  { vaddr := a, physOrHost := physOrHost + (a - t.pageBase vaddr), pageSizeKb := t.defaultPageKb,
    refcount := 0, residency := res, lastAccessNs := now a, fetchCount := 1 }

theorem find_mapRange (t : PageTableManager) (v n : UInt64) (res : PageResidency) (p : UInt64)
    (now : UInt64 → UInt64) (a : UInt64) : (t.mapRange v n res p now).2.table.find a =
      if a ∈ t.pages v n then some (t.mapEntry v res p now a) else t.table.find a :=
  foldl_insert_find _ _ _ a

theorem mapRange_mapped (t : PageTableManager) (v n p : UInt64) (now : UInt64 → UInt64) :
    Mapped t (t.mapRange v n .hbm p now).2 (t.pages v n) := by
  refine ⟨rfl, fun a ha => ?_, fun a ha => ?_⟩
  · rw [find_mapRange, if_pos ha]
    exact ⟨_, rfl, rfl, rfl⟩
  · rw [find_mapRange, if_neg ha]

theorem Mapped.again {t t' : PageTableManager} {v n : UInt64} (h : Mapped t t' (t.pages v n))
    (p : UInt64) (now : UInt64 → UInt64) :
    Mapped t (t'.mapRange v n .hbm p now).2 (t.pages v n) := by
  have h' := mapRange_mapped t' v n p now
  rw [(pages_congr h.arch v n).1] at h'
  exact ⟨h'.arch.trans h.arch, h'.mapped, fun a ha => (h'.other a ha).trans (h.other a ha)⟩

def Unpinned (t : PageTableManager) : Prop := ∀ a e, t.table.find a = some e → e.refcount = 0

end PageTableManager

namespace MemoryManager

variable {A : (c : PlatformCall) → c.Answer → Prop}

theorem tagIlc_cases (m : MemoryManager) (out : Allocation) :
    m.tagIlc out = .ret (out, m) ∨ ∃ i, m.ilc = some i ∧
      m.tagIlc out = i.tag out.hbmPtr out.bytes >>= fun r =>
        .ret ({ out with ilcTagged := ok r.1 }, { m with ilc := some r.2 }) := by
  rw [tagIlc]
  cases hi : m.ilc with
  | none => exact .inl rfl
  | some i =>
    cases htag : out.hints.ilc && i.enabled with
    | false => exact .inl (by simp [htag])
    | true => exact .inr ⟨i, rfl, by simp [htag]⟩

theorem untagIlc_cases (m : MemoryManager) (a : Allocation) :
    (m.untagIlc a = .ret m ∧ (m.ilc = none ∨ a.ilcTagged = false)) ∨
      ∃ i, m.ilc = some i ∧ a.ilcTagged = true ∧
        m.untagIlc a = i.untag a.hbmPtr >>= fun r => .ret { m with ilc := some r.2 } := by
  rw [untagIlc]
  cases hi : m.ilc with
  | none => exact .inl ⟨rfl, .inl rfl⟩
  | some i =>
    cases htag : a.ilcTagged with
    | false => exact .inl ⟨by simp, .inr rfl⟩
    | true => exact .inr ⟨i, rfl, rfl, by simp⟩

theorem tagIlc_spec (m : MemoryManager) (out : Allocation) :
    Prog.Always (Prog.allow A) (m.tagIlc out) () (fun r _ =>
      (r.1.vaddr = out.vaddr ∧ r.1.bytes = out.bytes ∧ r.1.hbmPtr = out.hbmPtr) ∧
        r.2.pageTable = m.pageTable ∧ r.2.live = m.live ∧ r.2.bytesAllocated = m.bytesAllocated) := by
  rcases m.tagIlc_cases out with heq | ⟨i, _, heq⟩
  · rw [heq]
    exact ⟨⟨rfl, rfl, rfl⟩, rfl, rfl, rfl⟩
  · rw [heq, Prog.always_bind]
    apply Prog.always_mono (Prog.always_true _ _)
    exact fun r _ _ => ⟨⟨rfl, rfl, rfl⟩, rfl, rfl, rfl⟩

theorem untagIlc_spec (m : MemoryManager) (a : Allocation) :
    Prog.Always (Prog.allow A) (m.untagIlc a) () (fun r _ =>
      r.pageTable = m.pageTable ∧ r.live = m.live ∧ r.bytesAllocated = m.bytesAllocated) := by
  rcases m.untagIlc_cases a with ⟨heq, _⟩ | ⟨i, _, _, heq⟩
  · rw [heq]
    exact ⟨rfl, rfl, rfl⟩
  · rw [heq, Prog.always_bind]
    apply Prog.always_mono (Prog.always_true _ _)
    exact fun r _ _ => ⟨rfl, rfl, rfl⟩

structure Allocated (m : MemoryManager) (bytes : UInt64) (hbm : Ptr) (out : Allocation)
    (m' : MemoryManager) : Prop where
  base : out.vaddr = hbm
  size : out.bytes = bytes
  key : out.hbmPtr = hbm
  live : m'.live = m.live.insert hbm out
  total : m'.bytesAllocated = m.bytesAllocated + bytes
  mapped : m.pageTable.Mapped m'.pageTable (m.pageTable.pages hbm bytes)

theorem alloc_spec (m : MemoryManager) (bytes : UInt64) (hints : AllocHints) (out : Allocation)
    (now later : UInt64 → UInt64) :
    Prog.Always (Prog.allow A) (m.alloc bytes hints out now later) () (fun r _ =>
      (r.1 ≠ .ok ∧ r.2.2 = m ∧ (bytes = 0 ∨ ∃ s hbm, A (.allocHbm bytes) (s, hbm) ∧ s ≠ .ok)) ∨
        (r.1 = .ok ∧ bytes ≠ 0 ∧ ∃ hbm, A (.allocHbm bytes) (.ok, hbm) ∧
          Allocated m bytes hbm r.2.1 r.2.2)) := by
  rw [alloc]
  by_cases hzero : bytes = 0
  · simp [hzero]
  · simp only [hzero, ↓reduceIte, Platform.allocHbm, Prog.op, Prog.call_bind, Prog.ret_bind,
      Prog.always_call]
    rintro ⟨s, hbm⟩ ⟨⟩ hA
    by_cases hs : s = .ok
    · subst hs
      simp only [(ok_iff .ok).mpr rfl, Bool.not_true, Bool.false_eq_true, ↓reduceIte,
        Prog.always_bind]
      apply Prog.always_mono (tagIlc_spec m _)
      rintro ⟨out', m'⟩ ⟨⟩ ⟨⟨hvaddr, hbytes, hptr⟩, htable, hlive, htotal⟩
      simp only at hvaddr hbytes hptr htable hlive htotal
      refine .inr ⟨rfl, hzero, hbm, hA, hvaddr, hbytes, hptr, ?_, ?_, ?_⟩
      · split <;> simp [adviseReadMostly, hlive]
      · split <;> simp [adviseReadMostly, htotal]
      · have hmapped := m.pageTable.mapRange_mapped hbm bytes hbm now
        split
        · simp only [adviseReadMostly, hvaddr, htable]
          exact hmapped.again hbm later
        · simp only [hvaddr, htable]
          exact hmapped
    · simp only [(ok_eq_false_iff s).mpr hs, Bool.not_false, ↓reduceIte]
      exact .inl ⟨hs, rfl, .inr ⟨s, hbm, hA, hs⟩⟩

theorem free_spec (m : MemoryManager) (a : Allocation) :
    Prog.Always (Prog.allow A) (m.free a) () (fun r _ =>
      (m.live.find a.hbmPtr = none ∧ r = (.invalidArgument, m)) ∨
        (m.live.find a.hbmPtr ≠ none ∧ A (.freeHbm a.hbmPtr) r.1 ∧ (r.1 = .ok →
          r.2.pageTable = (m.pageTable.unmapRange a.vaddr a.bytes).2 ∧
            r.2.live = m.live.erase a.hbmPtr ∧
            r.2.bytesAllocated = m.bytesAllocated - a.bytes))) := by
  rw [free]
  cases hlive : m.live.find a.hbmPtr with
  | none => exact .inl ⟨rfl, rfl⟩
  | some b =>
    rw [Prog.always_bind]
    apply Prog.always_mono (untagIlc_spec m a)
    rintro m' ⟨⟩ ⟨htable, hm', htotal⟩
    simp only [Platform.freeHbm, Prog.op, Prog.call_bind, Prog.ret_bind, Prog.always_call]
    rintro s ⟨⟩ hA
    by_cases hs : s = .ok
    · subst hs
      simp only [(ok_iff .ok).mpr rfl, Bool.not_true, Bool.false_eq_true, ↓reduceIte]
      exact .inr ⟨by simp, hA, fun _ => ⟨by rw [htable], by rw [hm'], by rw [htotal]⟩⟩
    · simp only [(ok_eq_false_iff s).mpr hs, Bool.not_false, ↓reduceIte]
      exact .inr ⟨by simp, hA, fun h => absurd h hs⟩

theorem alloc_exec {m : MemoryManager} {bytes p : UInt64} (hilc : m.ilc = none) (hn : bytes ≠ 0)
    (hA : A (.allocHbm bytes) (.ok, p)) : ∃ out m', m'.ilc = none ∧ Allocated m bytes p out m' ∧
      Prog.Exec (Prog.allow A) (m.alloc bytes {} {} id id) () (.ok, out, m') () := by
  let out : Allocation := { vaddr := p, bytes, hbmPtr := p }
  let m' : MemoryManager := { m with
    pageTable := (m.pageTable.mapRange p bytes .hbm p id).2
    live := m.live.insert p out
    bytesAllocated := m.bytesAllocated + bytes }
  refine ⟨out, m', hilc, ⟨rfl, rfl, rfl, rfl, rfl, m.pageTable.mapRange_mapped p bytes p id⟩, ?_⟩
  simp only [alloc, hn, ↓reduceIte, Platform.allocHbm, Prog.op, Prog.call_bind, Prog.ret_bind,
    Prog.exec_call]
  refine ⟨(.ok, p), (), hA, ?_⟩
  simp only [(ok_iff .ok).mpr rfl, Bool.not_true, Bool.false_eq_true, ↓reduceIte, tagIlc, hilc]
  exact ⟨rfl, rfl⟩

theorem free_exec {m : MemoryManager} {a : Allocation} (hilc : m.ilc = none)
    (ha : m.live.find a.hbmPtr ≠ none) (hA : A (.freeHbm a.hbmPtr) .ok) :
    ∃ m', Prog.Exec (Prog.allow A) (m.free a) () (.ok, m') () := by
  obtain ⟨b, hb⟩ := Option.ne_none_iff_exists'.mp ha
  let m' : MemoryManager := {
    pageTable := (m.pageTable.unmapRange a.vaddr a.bytes).2
    bytesAllocated := m.bytesAllocated - a.bytes
    live := m.live.erase a.hbmPtr }
  refine ⟨m', ?_⟩
  simp only [free, hb, untagIlc, hilc, Platform.freeHbm, Prog.op, Prog.call_bind, Prog.pure_eq,
    Prog.ret_bind, Prog.exec_call]
  exact ⟨.ok, (), hA, rfl, rfl⟩

section Over

variable {σ : Type} {H : (c : PlatformCall) → σ → c.Answer → σ → Prop}

def TagsOnly (H : (c : PlatformCall) → σ → c.Answer → σ → Prop) : Prop :=
  ∀ p s r t, H (.ilcTag p) s r t → t = s

theorem ilcTag_over (htags : TagsOnly H) (i : IlcManager) (p : Ptr) (bytes : UInt64) (s : σ) :
    Prog.Always H (i.tag p bytes) s (fun _ t => t = s) := by
  rw [IlcManager.tag]
  split
  · rfl
  · rw [Platform.ilcTag, Prog.op, Prog.call_bind, Prog.always_call]
    intro r t hr
    obtain rfl := htags p s r t hr
    rw [Prog.ret_bind]
    split <;> rfl

theorem tagIlc_over (htags : TagsOnly H) (m : MemoryManager) (out : Allocation) (s : σ) :
    Prog.Always H (m.tagIlc out) s (fun r t => t = s ∧ r.1.hbmPtr = out.hbmPtr ∧
      r.1.bytes = out.bytes ∧ r.1.hints = out.hints ∧ r.2.live = m.live) := by
  rcases m.tagIlc_cases out with heq | ⟨i, _, heq⟩
  · rw [heq]
    exact ⟨rfl, rfl, rfl, rfl, rfl⟩
  · rw [heq, Prog.always_bind]
    apply Prog.always_mono (ilcTag_over htags i _ _ s)
    exact fun _ _ ht => ⟨ht, rfl, rfl, rfl, rfl⟩

theorem alloc_over (htags : TagsOnly H) (m : MemoryManager) (bytes : UInt64) (hints : AllocHints)
    (out : Allocation) (now later : UInt64 → UInt64) (s : σ) :
    Prog.Always H (m.alloc bytes hints out now later) s (fun r t =>
      (r.1 ≠ .ok ∧ r.2.2 = m ∧ (t = s ∨ ∃ e p, e ≠ .ok ∧ H (.allocHbm bytes) s (e, p) t)) ∨
        (r.1 = .ok ∧ H (.allocHbm bytes) s (.ok, r.2.1.hbmPtr) t ∧ r.2.1.bytes = bytes ∧
          r.2.1.hints = hints ∧ r.2.2.live = m.live.insert r.2.1.hbmPtr r.2.1)) := by
  rw [alloc]
  split
  · exact .inl ⟨by simp, rfl, .inl rfl⟩
  · rw [Platform.allocHbm, Prog.op, Prog.call_bind, Prog.always_call]
    rintro ⟨e, p⟩ t hanswer
    rw [Prog.ret_bind]
    by_cases he : e = .ok
    · subst he
      simp only [(ok_iff .ok).mpr rfl, Bool.not_true, Bool.false_eq_true, ↓reduceIte]
      rw [Prog.always_bind]
      apply Prog.always_mono (tagIlc_over htags m _ t)
      rintro ⟨out, m'⟩ t' ⟨rfl, hptr, hbytes, hhints, hlive⟩
      simp only at hptr hbytes hhints hlive
      refine .inr ⟨rfl, hptr.symm ▸ hanswer, hbytes, hhints, ?_⟩
      dsimp only
      rw [hptr, ← hlive]
      split <;> rfl
    · simp only [(ok_eq_false_iff e).mpr he, Bool.not_false, ↓reduceIte]
      exact .inl ⟨he, rfl, .inr ⟨e, p, he, hanswer⟩⟩

theorem untagIlc_bare (m : MemoryManager) (ptr : Ptr) :
    m.untagIlc { hbmPtr := ptr } = .ret m := by
  rcases m.untagIlc_cases { hbmPtr := ptr } with ⟨heq, _⟩ | ⟨_, _, htagged, _⟩
  · exact heq
  · cases htagged

theorem free_over (m : MemoryManager) (ptr : Ptr) (s : σ) :
    Prog.Always H (m.free { hbmPtr := ptr }) s (fun r t =>
      (m.live.find ptr = none ∧ r = (.invalidArgument, m) ∧ t = s) ∨
        (m.live.find ptr ≠ none ∧ H (.freeHbm ptr) s r.1 t ∧
          r.2.live = if r.1 = .ok then m.live.erase ptr else m.live)) := by
  rw [free]
  cases hlive : m.live.find ptr with
  | none => exact .inl ⟨rfl, rfl, rfl⟩
  | some b =>
    simp only [untagIlc_bare, Prog.ret_bind, Platform.freeHbm, Prog.op, Prog.call_bind,
      Prog.always_call]
    intro e t hanswer
    by_cases he : e = .ok
    · subst he
      simp only [(ok_iff .ok).mpr rfl, Bool.not_true, Bool.false_eq_true, ↓reduceIte]
      exact .inr ⟨Option.some_ne_none b, hanswer, by rw [if_pos rfl]⟩
    · simp only [(ok_eq_false_iff e).mpr he, Bool.not_false, ↓reduceIte]
      exact .inr ⟨Option.some_ne_none b, hanswer, by rw [if_neg he]⟩

theorem free_exec_over {m : MemoryManager} {ptr : Ptr} {s t : σ} (hlive : m.live.find ptr ≠ none)
    (hH : H (.freeHbm ptr) s .ok t) :
    ∃ m', Prog.Exec H (m.free { hbmPtr := ptr }) s (.ok, m') t := by
  obtain ⟨b, hb⟩ := Option.ne_none_iff_exists'.mp hlive
  rw [free]
  simp only [hb, untagIlc_bare, Prog.ret_bind]
  exact ⟨_, .ok, t, hH, rfl, rfl⟩

end Over

end MemoryManager

end NexusRT.Memory

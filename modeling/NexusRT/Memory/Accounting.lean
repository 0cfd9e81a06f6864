import NexusRT.Library.Guarded
import NexusRT.Memory.Mapping

namespace NexusRT.Memory

open Firmware PageTableManager MemoryManager

section Abi

variable {A : (c : PlatformCall) → c.Answer → Prop}

theorem nexusrtMemAlloc_spec (m : MemoryManager) (bytes : UInt64) (flags : UInt32)
    (now later : UInt64 → UInt64) :
    Prog.Always (Prog.allow A) (nexusrtMemAlloc true m bytes flags now later) () (fun r _ =>
      (r.1.2 = none ∧ r.2 = m ∧ (bytes = 0 ∨ ∃ s hbm, A (.allocHbm bytes) (s, hbm) ∧ s ≠ .ok)) ∨
        (bytes ≠ 0 ∧ ∃ hbm out, r.1 = (0, some hbm) ∧ A (.allocHbm bytes) (.ok, hbm) ∧
          Allocated m bytes hbm out r.2)) := by
  simp only [nexusrtMemAlloc, Bool.not_true, Bool.false_eq_true, ↓reduceIte, Prog.always_bind]
  apply Prog.always_mono (alloc_spec m bytes _ {} now later)
  rintro ⟨s, out, m'⟩ ⟨⟩ (⟨hs, hsame, hrefused⟩ | ⟨rfl, hn, hbm, hanswer, hallocated⟩)
  · simp only [(ok_eq_false_iff s).mpr hs, Bool.not_false, ↓reduceIte]
    exact .inl ⟨rfl, hsame, hrefused⟩
  · simp only [(ok_iff .ok).mpr rfl, Bool.not_true, Bool.false_eq_true, ↓reduceIte]
    refine .inr ⟨hn, hbm, out, ?_, hanswer, hallocated⟩
    rw [← hallocated.key]

theorem nexusrtMemFree_spec (m : MemoryManager) (ptr : Ptr) :
    Prog.Always (Prog.allow A) (nexusrtMemFree true m ptr) () (fun r _ =>
      (m.live.find ptr = none ∧ r.1 ≠ 0 ∧ r.2 = m) ∨
        (m.live.find ptr ≠ none ∧ ∃ s, A (.freeHbm ptr) s ∧ r.1 = s.code ∧ (s = .ok →
          r.2.pageTable = m.pageTable ∧ r.2.live = m.live.erase ptr ∧
            r.2.bytesAllocated = m.bytesAllocated))) := by
  simp only [nexusrtMemFree, Bool.not_true, Bool.false_eq_true, ↓reduceIte, Prog.always_bind]
  apply Prog.always_mono (free_spec m { hbmPtr := ptr })
  rintro ⟨s, m'⟩ ⟨⟩ (⟨hnone, hsame⟩ | ⟨hsome, hanswer, hfreed⟩)
  · obtain ⟨rfl, rfl⟩ := Prod.mk.inj hsame
    exact .inl ⟨hnone, by simp [Status.code], rfl⟩
  · refine .inr ⟨hsome, s, hanswer, rfl, fun hs => ?_⟩
    obtain ⟨htable, hlive, htotal⟩ := hfreed hs
    refine ⟨?_, hlive, by simpa using htotal⟩
    rw [htable, unmapRange, pages_zero]
    rfl

end Abi

/-- `owed` is a ghost: the sizes of the pointers that were handed out and not yet freed. -/
structure Account where
  m : MemoryManager
  owed : Table Ptr UInt64

inductive AbiCall
  | alloc (bytes : UInt64) (flags : UInt32) (now later : UInt64 → UInt64) (answer : Status × Ptr)
  | free (ptr : Ptr)

def FreshBackend (s : Account) (answer : Status × Ptr) : (c : PlatformCall) → c.Answer → Prop
  | .allocHbm _, r => r = answer ∧ (r.1 = .ok → s.owed.find r.2 = none)
  | .freeHbm _, r => r = .ok
  | _, _ => True

inductive AccountStep (s : Account) : AbiCall → Account → Prop
  | alloc (bytes : UInt64) (flags : UInt32) (now later : UInt64 → UInt64) (answer : Status × Ptr)
      (code : Int) (out : Option Ptr) (m' : MemoryManager)
      (h : Prog.Exec (Prog.allow (FreshBackend s answer))
        (nexusrtMemAlloc true s.m bytes flags now later) () ((code, out), m') ()) :
      AccountStep s (.alloc bytes flags now later answer)
        { m := m', owed := out.elim s.owed (fun p => s.owed.insert p bytes) }
  | free (ptr : Ptr) (code : Int) (m' : MemoryManager)
      (h : Prog.Exec (Prog.allow (FreshBackend s (.ok, 0))) (nexusrtMemFree true s.m ptr) ()
        (code, m') ()) :
      AccountStep s (.free ptr) { m := m', owed := if code = 0 then s.owed.erase ptr else s.owed }

structure Balanced (s : Account) : Prop where
  total : s.m.bytesAllocated.toNat = s.owed.total UInt64.toNat
  drained : (∀ p, s.owed.find p = none) →
    s.m.bytesAllocated = 0 ∧ s.m.pageTable.totalPages = 0

def OnlyAllocates (s : Account) : AbiCall → Prop
  | .alloc bytes _ _ _ answer =>
    bytes ≠ 0 → answer.1 = .ok → s.owed.total UInt64.toNat + bytes.toNat < 2 ^ 64
  | .free ptr => s.owed.find ptr = none

structure AccountInv (s : Account) : Prop where
  balanced : Balanced s
  agree : ∀ p, s.m.live.find p = none ↔ s.owed.find p = none
  sized : ∀ p n, s.owed.find p = some n → n ≠ 0

section Step

variable {s : Account} {m' : MemoryManager}

theorem alloc_balanced {bytes : UInt64} {hbm : Ptr} {out : Allocation} (hi : AccountInv s)
    (hn : bytes ≠ 0) (hfresh : s.owed.find hbm = none) (h : Allocated s.m bytes hbm out m') :
    (s.owed.total UInt64.toNat + bytes.toNat < 2 ^ 64 ∧
      AccountInv ⟨m', s.owed.insert hbm bytes⟩) ∨
    (2 ^ 64 ≤ s.owed.total UInt64.toNat + bytes.toNat ∧
      ¬ Balanced ⟨m', s.owed.insert hbm bytes⟩) := by
  have htotal := Table.total_insert_fresh hfresh bytes UInt64.toNat
  by_cases hfit : s.owed.total UInt64.toNat + bytes.toNat < 2 ^ 64
  · refine .inl ⟨hfit, ⟨?_, fun hnone => ?_⟩, fun p => ?_, fun p n hp => ?_⟩
    · rw [htotal, h.total, UInt64.toNat_add, hi.balanced.total, Nat.mod_eq_of_lt hfit]
    · simpa using hnone hbm
    · rw [h.live, Table.find_insert, Table.find_insert]
      by_cases hp : p = hbm
      · simp [hp]
      · simpa [hp] using hi.agree p
    · rw [Table.find_insert] at hp
      split at hp
      · exact Option.some.inj hp ▸ hn
      · exact hi.sized p n hp
  · refine .inr ⟨Nat.le_of_not_lt hfit, fun hbalanced => ?_⟩
    have hsum : m'.bytesAllocated.toNat = _ := hbalanced.total
    have hlt := m'.bytesAllocated.toNat_lt
    rw [hsum, htotal] at hlt
    omega

theorem free_unbalanced {ptr : Ptr} (hi : AccountInv s) (hlive : s.owed.find ptr ≠ none)
    (htotal : m'.bytesAllocated = s.m.bytesAllocated) : ¬ Balanced ⟨m', s.owed.erase ptr⟩ := by
  intro hbalanced
  obtain ⟨n, hn⟩ := Option.ne_none_iff_exists'.mp hlive
  have hpos := Align.toNat_pos (hi.sized ptr n hn)
  have hsum : m'.bytesAllocated.toNat = (s.owed.erase ptr).total UInt64.toNat := hbalanced.total
  rw [htotal, hi.balanced.total, Table.total_erase_found hn UInt64.toNat] at hsum
  omega

theorem accountInv_step (s : Account) (c : AbiCall) (s' : Account) (hi : AccountInv s)
    (h : AccountStep s c s') :
    (OnlyAllocates s c ∧ AccountInv s') ∨ (¬ OnlyAllocates s c ∧ ¬ Balanced s') := by
  cases h with
  | alloc bytes flags now later answer code out m' h =>
    rcases (Prog.always_iff _ _ _).mp (nexusrtMemAlloc_spec s.m bytes flags now later) _ _ h with
      ⟨hnone, hsame, hrefused⟩ | ⟨hn, hbm, out, hout, ⟨hanswer, hfresh⟩, hallocated⟩
    · simp only at hnone hsame
      subst hnone hsame
      refine .inl ⟨fun hn hok => ?_, hi⟩
      rcases hrefused with hzero | ⟨r, hbm, ⟨hanswer, _⟩, hr⟩
      · exact absurd hzero hn
      · rw [← hanswer] at hok
        exact absurd hok hr
    · obtain ⟨_, rfl⟩ := Prod.mk.inj hout
      subst hanswer
      rcases alloc_balanced hi hn (hfresh rfl) hallocated with ⟨hfit, hi'⟩ | ⟨hover, hnot⟩
      · exact .inl ⟨fun _ _ => hfit, hi'⟩
      · exact .inr ⟨fun hmeets => absurd (hmeets hn rfl) (by omega), hnot⟩
  | free ptr code m' h =>
    rcases (Prog.always_iff _ _ _).mp (nexusrtMemFree_spec s.m ptr) _ _ h with
      ⟨hnone, hcode, hsame⟩ | ⟨hsome, r, hr, hcode, hfreed⟩
    · simp only at hcode hsame
      subst hsame
      rw [if_neg hcode]
      exact .inl ⟨(hi.agree ptr).mp hnone, hi⟩
    · have hok : r = .ok := hr
      subst hok
      simp only at hcode
      obtain ⟨_, _, htotal⟩ := hfreed rfl
      rw [hcode, if_pos (show Status.code .ok = 0 from rfl)]
      have hlive := fun hnone => hsome ((hi.agree ptr).mpr hnone)
      exact .inr ⟨hlive, free_unbalanced hi hlive htotal⟩

end Step

def newAccount (arch : Arch) (hbmPoolBytes : UInt64) (ilc : Option IlcManager) : Account :=
  { m := { pageTable := { arch, hbmPoolBytes }, ilc }, owed := .empty }

theorem accountInv_new (arch : Arch) (hbmPoolBytes : UInt64) (ilc : Option IlcManager) :
    AccountInv (newAccount arch hbmPoolBytes ilc) where
  balanced := ⟨rfl, fun _ => ⟨rfl, rfl⟩⟩
  agree p := by simp [newAccount]
  sized p n h := by simp [newAccount] at h

def AccountRun (s₀ s : Account) : Prop :=
  GuardedRun AccountStep OnlyAllocates s₀ s

theorem onlyAllocates_exact : ExactGuard AccountStep OnlyAllocates AccountInv Balanced where
  good _ hi := hi.balanced
  step := accountInv_step

theorem balanced_run (arch : Arch) (hbmPoolBytes : UInt64) (ilc : Option IlcManager) (s : Account)
    (hrun : AccountRun (newAccount arch hbmPoolBytes ilc) s) :
    Balanced s ∧ ∀ c s', AccountStep s c s' → (Balanced s' ↔ OnlyAllocates s c) :=
  hrun.good_iff onlyAllocates_exact (accountInv_new arch hbmPoolBytes ilc)

def Holding (s : Account) : Prop :=
  AccountRun (newAccount .ampere 0 none) s ∧ s.m.ilc = none ∧ AccountInv s ∧
    s.owed.find 0x10000 = some 0x10000

theorem holding : ∃ s, Holding s := by
  have hfresh : FreshBackend (newAccount .ampere 0 none) (.ok, 0x10000) (.allocHbm 0x10000)
      (.ok, 0x10000) := ⟨rfl, fun _ => rfl⟩
  obtain ⟨out, m', hilc, hallocated, hexec⟩ := alloc_exec (m := (newAccount .ampere 0 none).m) rfl
    (by decide) hfresh
  have hcall : Prog.Exec (Prog.allow (FreshBackend (newAccount .ampere 0 none) (.ok, 0x10000)))
      (nexusrtMemAlloc true (newAccount .ampere 0 none).m 0x10000 0 id id) ()
      ((0, some out.hbmPtr), m') () := by
    rw [nexusrtMemAlloc]
    exact (Prog.exec_bind _ _ _ _ _).mpr ⟨(.ok, out, m'), (), hexec, rfl, rfl⟩
  have hrun : AccountRun (newAccount .ampere 0 none) _ :=
    .single ⟨_, .alloc 0x10000 0 id id (.ok, 0x10000) 0 (some out.hbmPtr) m' hcall,
      fun _ _ => by decide⟩
  refine ⟨_, hrun, hilc, hrun.inv onlyAllocates_exact (accountInv_new _ _ _), ?_⟩
  rw [hallocated.key]
  rfl

theorem free_holding {s : Account} (h : Holding s) : ∃ s', AccountStep s (.free 0x10000) s' := by
  obtain ⟨_, hilc, hi, hlive⟩ := h
  have hsome : s.m.live.find 0x10000 ≠ none := fun hnone => by
    simp [(hi.agree _).mp hnone] at hlive
  obtain ⟨m', hexec⟩ := free_exec (A := FreshBackend s (.ok, 0)) (a := { hbmPtr := 0x10000 }) hilc
    hsome rfl
  refine ⟨_, .free 0x10000 0 m' ?_⟩
  rw [nexusrtMemFree]
  exact (Prog.exec_bind _ _ _ _ _).mpr ⟨(.ok, m'), (), hexec, rfl, rfl⟩

theorem balanced_run_holding : ∃ s s', Holding s ∧ Balanced s ∧
    AccountStep s (.free 0x10000) s' ∧ ¬ Balanced s' := by
  obtain ⟨s, hs⟩ := holding
  obtain ⟨s', hstep⟩ := free_holding hs
  have hrun := balanced_run .ampere 0 none s hs.1
  refine ⟨s, s', hs, hrun.1, hstep, fun hbalanced => ?_⟩
  have hmeets : s.owed.find 0x10000 = none := (hrun.2 _ _ hstep).mp hbalanced
  rw [hs.2.2.2] at hmeets
  simp at hmeets

theorem balanced_run_fails : ¬ ∀ (arch : Arch) (hbmPoolBytes : UInt64) (ilc : Option IlcManager)
    (s : Account), Relation.ReflTransGen (fun s s' => ∃ c, AccountStep s c s')
      (newAccount arch hbmPoolBytes ilc) s → Balanced s := by
  intro hall
  obtain ⟨s, hs⟩ := holding
  obtain ⟨s', hstep⟩ := free_holding hs
  have hnot : ¬ OnlyAllocates s (.free 0x10000) := by simp [OnlyAllocates, hs.2.2.2]
  obtain ⟨hreach, hbad⟩ := hs.1.not_good onlyAllocates_exact (accountInv_new _ _ _) hstep hnot
  exact hbad (hall .ampere 0 none s' hreach)

end NexusRT.Memory

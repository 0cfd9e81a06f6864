import Mathlib.Logic.Function.Basic
import NexusRT.Firmware.BootRelease
import NexusRT.Library.Guarded
import NexusRT.Memory.Mapping

namespace NexusRT.Memory

open Firmware MemoryManager

inductive HbmState
  | unused | held | released
  deriving DecidableEq

/-- The memory of the backend. `late` is a ghost: the addresses for which `ilc_untag` came after
`free_hbm`. -/
structure Hbm where
  memory : Ptr → HbmState
  late : List Ptr := []

namespace Hbm

def allocate (b : Hbm) (p : Ptr) : Hbm := { b with memory := Function.update b.memory p .held }

def release (b : Hbm) (p : Ptr) (s : Status) : Hbm :=
  if s = .ok then { b with memory := Function.update b.memory p .released } else b

def untag (b : Hbm) (p : Ptr) : Hbm :=
  if b.memory p = .released then { b with late := p :: b.late } else b

/-- An address may be handed out again, but not while it is held. `freed` are the answers of
`free_hbm`. -/
def Serves (freed : Ptr → Status) : (c : PlatformCall) → Hbm → c.Answer → Hbm → Prop
  | .allocHbm _, b, r, b' =>
    (r.1 ≠ .ok ∧ b' = b) ∨ (r.1 = .ok ∧ b.memory r.2 ≠ .held ∧ b' = b.allocate r.2)
  | .freeHbm p, b, s, b' => s = freed p ∧ b' = b.release p s
  | .ilcUntag p, b, _, b' => b' = b.untag p
  | _, b, _, b' => b' = b

variable {freed : Ptr → Status}

@[simp] theorem late_release (b : Hbm) (p : Ptr) (s : Status) : (b.release p s).late = b.late := by
  rw [release]
  split <;> rfl

@[simp] theorem memory_untag (b : Hbm) (p : Ptr) : (b.untag p).memory = b.memory := by
  rw [untag]
  split <;> rfl

theorem memory_release_of_ne (b : Hbm) {p q : Ptr} (h : q ≠ p) (s : Status) :
    (b.release p s).memory q = b.memory q := by
  rw [release]
  split
  · exact Function.update_of_ne h _ _
  · rfl

theorem memory_release_eq {b : Hbm} {p : Ptr} (h : b.memory p = .held) (s : Status) :
    (b.release p s).memory p = .released ↔ s = .ok := by
  rw [release]
  split
  · next hs => simp [hs]
  · next hs => simp [hs, h]

theorem late_untag (b : Hbm) (p : Ptr) :
    (b.untag p).late = [] ↔ b.late = [] ∧ b.memory p ≠ .released := by
  rw [untag]
  split
  · next h => simp [h]
  · next h => simp [h]

end Hbm

structure Untagged (a : Allocation) (i : IlcManager) (b : Hbm) (i' : IlcManager) (b' : Hbm) :
    Prop where
  enabled : i'.enabled = true
  tagged : ∀ p, i'.tagged.contains p = true ↔
    i.tagged.contains p = true ∧ (a.hbmPtr = p → a.ilcTagged = false)
  hbm : b' = if a.ilcTagged = true ∧ i.tagged.contains a.hbmPtr = true then b.untag a.hbmPtr else b

section Specs

variable {freed : Ptr → Status} {m : MemoryManager} {i : IlcManager}

theorem ilcUntag_tags (hon : i.enabled = true) (p : Ptr) (b : Hbm) :
    Prog.Always (Hbm.Serves freed) (i.untag p) b (fun r b' => r.2.enabled = true ∧
      (∀ q, r.2.tagged.contains q = true ↔ i.tagged.contains q = true ∧ p ≠ q) ∧
        b' = if i.tagged.contains p = true then b.untag p else b) := by
  rw [IlcManager.untag]
  simp only [hon, Bool.not_true, Bool.false_eq_true, ↓reduceIte]
  cases hp : i.tagged.contains p with
  | false =>
    refine ⟨hon, fun q => ?_, by simp⟩
    constructor
    · intro hq
      refine ⟨hq, ?_⟩
      rintro rfl
      simp [hp] at hq
    · exact fun h => h.1
  | true =>
    intro s b' hserves
    have hb : b' = b.untag p := hserves
    refine ⟨rfl, fun q => ?_, hb⟩
    by_cases hq : q = p
    · simp [Table.contains, hq]
    · simp [Table.contains, hq, Ne.symm hq]

theorem untagIlc_tags (hilc : m.ilc = some i) (hon : i.enabled = true) (a : Allocation) (b : Hbm) :
    Prog.Always (Hbm.Serves freed) (m.untagIlc a) b (fun m' b' =>
      ∃ i', m' = { m with ilc := some i' } ∧ Untagged a i b i' b') := by
  rcases m.untagIlc_cases a with ⟨heq, hquiet⟩ | ⟨j, hj, ha, heq⟩
  · have ha : a.ilcTagged = false := hquiet.resolve_left (by simp [hilc])
    rw [heq]
    refine ⟨i, by rw [← hilc], hon, fun p => by simp [ha], by simp [ha]⟩
  · obtain rfl := Option.some.inj (hilc.symm.trans hj)
    rw [heq, Prog.always_bind]
    apply Prog.always_mono (ilcUntag_tags hon a.hbmPtr b)
    rintro ⟨s, i'⟩ b' ⟨hon', htagged, hb⟩
    refine ⟨i', rfl, hon', fun p => ?_, by simpa [ha] using hb⟩
    rw [htagged, ha]
    simp

theorem ilcTag_tags (hon : i.enabled = true) (p : Ptr) (bytes : UInt64) (b : Hbm) :
    Prog.Always (Hbm.Serves freed) (i.tag p bytes) b (fun r b' => b' = b ∧ r.2.enabled = true ∧
      ∀ q, r.2.tagged.contains q = true →
        (q = p ∧ ok r.1 = true) ∨ i.tagged.contains q = true) := by
  rw [IlcManager.tag]
  simp only [hon, Bool.not_true, Bool.false_eq_true, ↓reduceIte, Platform.ilcTag, Prog.op,
    Prog.call_bind, Prog.ret_bind, Prog.always_call]
  intro s b' hserves
  have hb : b' = b := hserves
  cases hs : ok s with
  | false => exact ⟨hb, hon, fun q hq => .inr hq⟩
  | true =>
    refine ⟨hb, rfl, fun q hq => ?_⟩
    by_cases hqp : q = p
    · exact .inl ⟨hqp, rfl⟩
    · right
      simpa [Table.contains, hqp] using hq

theorem tagIlc_tags (hilc : m.ilc = some i) (hon : i.enabled = true) (out : Allocation) (b : Hbm) :
    Prog.Always (Hbm.Serves freed) (m.tagIlc out) b (fun r b' => b' = b ∧
      r.1.hbmPtr = out.hbmPtr ∧ ∃ i', r.2 = { m with ilc := some i' } ∧ i'.enabled = true ∧
        ∀ p, i'.tagged.contains p = true →
          (p = out.hbmPtr ∧ r.1.ilcTagged = true) ∨ i.tagged.contains p = true) := by
  rcases m.tagIlc_cases out with heq | ⟨j, hj, heq⟩
  · rw [heq]
    exact ⟨rfl, rfl, i, by rw [← hilc], hon, fun p hp => .inr hp⟩
  · obtain rfl := Option.some.inj (hilc.symm.trans hj)
    rw [heq, Prog.always_bind]
    apply Prog.always_mono (ilcTag_tags hon out.hbmPtr out.bytes b)
    rintro ⟨s, i'⟩ b' ⟨hb, hon', htagged⟩
    exact ⟨hb, rfl, i', rfl, hon', htagged⟩

structure Placed (p : Ptr) (m : MemoryManager) (i : IlcManager) (b : Hbm) (a : Allocation)
    (m' : MemoryManager) (i' : IlcManager) (b' : Hbm) : Prop where
  fresh : b.memory p ≠ .held
  hbm : b' = b.allocate p
  key : a.hbmPtr = p
  live : m'.live = m.live.insert p a
  ilc : m'.ilc = some i'
  enabled : i'.enabled = true
  tagged : ∀ q, i'.tagged.contains q = true →
    (q = p ∧ a.ilcTagged = true) ∨ i.tagged.contains q = true

theorem alloc_tags (hilc : m.ilc = some i) (hon : i.enabled = true) (bytes : UInt64)
    (hints : AllocHints) (out : Allocation) (now later : UInt64 → UInt64) (b : Hbm) :
    Prog.Always (Hbm.Serves freed) (m.alloc bytes hints out now later) b (fun r b' =>
      (r.2.2 = m ∧ b' = b) ∨ ∃ p i', Placed p m i b r.2.1 r.2.2 i' b') := by
  rw [alloc]
  split
  · exact .inl ⟨rfl, rfl⟩
  · simp only [Platform.allocHbm, Prog.op, Prog.call_bind, Prog.ret_bind, Prog.always_call]
    rintro ⟨s, p⟩ b' hserves
    rcases hserves with ⟨hs, rfl⟩ | ⟨hs, hfresh, rfl⟩
    · simp only [(ok_eq_false_iff s).mpr hs, Bool.not_false, ↓reduceIte]
      exact .inl ⟨rfl, rfl⟩
    · simp only at hs
      subst hs
      simp only [(ok_iff .ok).mpr rfl, Bool.not_true, Bool.false_eq_true, ↓reduceIte,
        Prog.always_bind]
      apply Prog.always_mono (tagIlc_tags hilc hon _ _)
      rintro ⟨a, m'⟩ b' ⟨rfl, hkey, i', rfl, hon', htagged⟩
      refine .inr ⟨p, i', hfresh, rfl, hkey, ?_, ?_, hon', htagged⟩
      · split <;> rfl
      · split <;> rfl

theorem free_tags (hilc : m.ilc = some i) (hon : i.enabled = true) (a : Allocation) (b : Hbm) :
    Prog.Always (Hbm.Serves freed) (m.free a) b (fun r b' =>
      (m.live.find a.hbmPtr = none ∧ r.2 = m ∧ b' = b) ∨
        (m.live.find a.hbmPtr ≠ none ∧ ∃ i' b₁, Untagged a i b i' b₁ ∧ r.2.ilc = some i' ∧
          b' = b₁.release a.hbmPtr (freed a.hbmPtr) ∧
          r.2.live = if freed a.hbmPtr = .ok then m.live.erase a.hbmPtr else m.live)) := by
  rw [free]
  cases hlive : m.live.find a.hbmPtr with
  | none => exact .inl ⟨rfl, rfl, rfl⟩
  | some c =>
    rw [Prog.always_bind]
    apply Prog.always_mono (untagIlc_tags hilc hon a b)
    rintro _ b₁ ⟨i', rfl, huntagged⟩
    simp only [Platform.freeHbm, Prog.op, Prog.call_bind, Prog.ret_bind, Prog.always_call]
    rintro s b' ⟨rfl, rfl⟩
    by_cases hs : freed a.hbmPtr = .ok
    · simp only [hs, (ok_iff .ok).mpr rfl, Bool.not_true, Bool.false_eq_true, ↓reduceIte]
      exact .inr ⟨by simp, i', b₁, huntagged, rfl, rfl, rfl⟩
    · simp only [hs, (ok_eq_false_iff _).mpr hs, Bool.not_false, ↓reduceIte]
      exact .inr ⟨by simp, i', b₁, huntagged, rfl, rfl, rfl⟩

theorem releaseMemory_tags (a : Allocation) (b : Hbm) :
    Prog.Always (Hbm.Serves freed) (releaseMemory a) b (fun _ b' =>
      b' = if a.hbmPtr = 0 then b else b.release a.hbmPtr (freed a.hbmPtr)) := by
  rw [releaseMemory]
  split
  · next hne =>
    rintro s b' ⟨rfl, rfl⟩
    exact rfl
  · next hnull =>
    rw [ne_eq, Decidable.not_not] at hnull
    rw [if_pos hnull]
    rfl

theorem releaseEach_tags {as : List Allocation} {m : MemoryManager} {i : IlcManager} {b : Hbm}
    (hilc : m.ilc = some i) (hon : i.enabled = true) (hnodup : (as.map (·.hbmPtr)).Nodup)
    (hheld : ∀ a ∈ as, b.memory a.hbmPtr = .held) :
    Prog.Always (Hbm.Serves freed) (releaseEach as m) b (fun m' b' =>
      ∃ i', m'.ilc = some i' ∧ i'.enabled = true ∧
        (∀ p, i'.tagged.contains p = true ↔
          i.tagged.contains p = true ∧ ∀ a ∈ as, a.hbmPtr = p → a.ilcTagged = false) ∧
        (b'.late = [] ↔ b.late = [] ∧ ∀ a ∈ as, a.ilcTagged = true →
          i.tagged.contains a.hbmPtr = true → a.hbmPtr ≠ 0 → freed a.hbmPtr ≠ .ok)) := by
  -- The memory of `a` is released before its tag is looked up.
  induction as generalizing m i b with
  | nil => exact ⟨i, hilc, hon, fun p => by simp, by simp⟩
  | cons a as ih =>
    rw [List.map_cons, List.nodup_cons] at hnodup
    obtain ⟨hnot, hnodup⟩ := hnodup
    have hother : ∀ c ∈ as, c.hbmPtr ≠ a.hbmPtr := by
      intro c hc heq
      exact hnot (List.mem_map.mpr ⟨c, hc, heq⟩)
    rw [releaseEach, Prog.always_bind]
    apply Prog.always_mono (releaseMemory_tags a b)
    rintro _ b₁ hb₁
    rw [Prog.always_bind]
    apply Prog.always_mono (untagIlc_tags hilc hon a b₁)
    rintro _ b₂ ⟨i', rfl, huntagged⟩
    -- the pointers differ, so the later entries find their memory held and their tags in place
    have hmem : ∀ c ∈ as, b₂.memory c.hbmPtr = .held := by
      intro c hc
      rw [← hheld c (List.mem_cons_of_mem a hc), huntagged.hbm, hb₁]
      split <;> split <;> simp [Hbm.memory_release_of_ne _ (hother c hc)]
    have hlate : b₂.late = [] ↔ b.late = [] ∧ (a.ilcTagged = true →
        i.tagged.contains a.hbmPtr = true → a.hbmPtr ≠ 0 → freed a.hbmPtr ≠ .ok) := by
      have hsame : b₁.late = b.late := by
        rw [hb₁]
        split <;> simp
      have hreleased : b₁.memory a.hbmPtr ≠ .released ↔ (a.hbmPtr ≠ 0 → freed a.hbmPtr ≠ .ok) := by
        have hown := hheld a List.mem_cons_self
        rw [hb₁]
        split
        · next hnull => simp [hnull ▸ hown, hnull]
        · next hne => simp [Hbm.memory_release_eq hown, hne]
      rw [huntagged.hbm]
      split
      · next hboth =>
        rw [Hbm.late_untag, hsame, hreleased]
        simp [hboth]
      · next hnot =>
        rw [hsame, iff_self_and]
        exact fun _ htag hmem => absurd ⟨htag, hmem⟩ hnot
    have hrest : ∀ c ∈ as, (i'.tagged.contains c.hbmPtr = true ↔
        i.tagged.contains c.hbmPtr = true) := by
      intro c hc
      rw [huntagged.tagged, and_iff_left]
      exact fun heq => absurd heq.symm (hother c hc)
    apply Prog.always_mono (ih rfl huntagged.enabled hnodup hmem)
    rintro m' b' ⟨i'', hilc', hon', htagged, hb'⟩
    refine ⟨i'', hilc', hon', fun p => ?_, ?_⟩
    · rw [htagged, huntagged.tagged, List.forall_mem_cons, and_assoc]
    · rw [hb', hlate, List.forall_mem_cons, and_assoc]
      refine and_congr_right fun _ => and_congr_right fun _ => forall₂_congr fun c hc => ?_
      rw [hrest c hc]

end Specs

def MemoryManager.IsTagged (m : MemoryManager) (p : Ptr) : Prop :=
  ∃ i, m.ilc = some i ∧ i.tagged.contains p = true

structure TagState where
  m : MemoryManager
  hbm : Hbm

/-- `freed` are the answers of `free_hbm` during the call. -/
inductive TagCall
  | alloc (bytes : UInt64) (hints : AllocHints) (out : Allocation) (now later : UInt64 → UInt64)
  | free (a : Allocation) (freed : Ptr → Status)
  | memFree (ptr : Ptr) (freed : Ptr → Status)
  | destroy (freed : Ptr → Status)

def MemoryManager.renewed (m : MemoryManager) : MemoryManager where
  pageTable := { arch := m.pageTable.arch, hbmPoolBytes := m.pageTable.hbmPoolBytes }
  ilc := m.ilc

inductive TagStep (s : TagState) : TagCall → TagState → Prop
  | alloc (bytes : UInt64) (hints : AllocHints) (out a : Allocation) (now later : UInt64 → UInt64)
      (status : Status) (m' : MemoryManager) (b' : Hbm)
      (h : Prog.Exec (Hbm.Serves fun _ => .ok) (s.m.alloc bytes hints out now later) s.hbm
        (status, a, m') b') :
      TagStep s (.alloc bytes hints out now later) ⟨m', b'⟩
  | free (a : Allocation) (freed : Ptr → Status) (status : Status) (m' : MemoryManager) (b' : Hbm)
      (h : Prog.Exec (Hbm.Serves freed) (s.m.free a) s.hbm (status, m') b') :
      TagStep s (.free a freed) ⟨m', b'⟩
  | memFree (ptr : Ptr) (freed : Ptr → Status) (code : Int) (m' : MemoryManager) (b' : Hbm)
      (h : Prog.Exec (Hbm.Serves freed) (nexusrtMemFree true s.m ptr) s.hbm (code, m') b') :
      TagStep s (.memFree ptr freed) ⟨m', b'⟩
  | destroy (freed : Ptr → Status) (m' : MemoryManager) (b' : Hbm)
      (h : Prog.Exec (Hbm.Serves freed) s.m.destructor s.hbm m' b') :
      TagStep s (.destroy freed) ⟨m'.renewed, b'⟩

structure TagsLive (s : TagState) : Prop where
  owned : ∀ p, s.m.IsTagged p → ∃ a, s.m.live.find p = some a ∧ a.ilcTagged = true
  early : s.hbm.late = []

def KeepsTags (s : TagState) : TagCall → Prop
  | .alloc _ _ _ _ _ => True
  | .free a freed => s.m.IsTagged a.hbmPtr → freed a.hbmPtr = .ok → a.ilcTagged = true
  | .memFree ptr freed => s.m.IsTagged ptr → freed ptr ≠ .ok
  | .destroy freed => ∀ p, s.m.IsTagged p → p ≠ 0 → freed p ≠ .ok

structure TagInv (s : TagState) (i : IlcManager) : Prop where
  live : TagsLive s
  ilc : s.m.ilc = some i
  enabled : i.enabled = true
  key : ∀ p a, s.m.live.find p = some a → a.hbmPtr = p
  held : ∀ p a, s.m.live.find p = some a → s.hbm.memory p = .held

theorem isTagged_iff {m : MemoryManager} {i : IlcManager} (hilc : m.ilc = some i) (p : Ptr) :
    m.IsTagged p ↔ i.tagged.contains p = true := by
  simp [MemoryManager.IsTagged, hilc]

section Step

variable {s : TagState} {i : IlcManager}

theorem TagInv.alloc {p : Ptr} {a : Allocation} {m' : MemoryManager} {i' : IlcManager} {b' : Hbm}
    (h : TagInv s i) (hplaced : Placed p s.m i s.hbm a m' i' b') : TagInv ⟨m', b'⟩ i' := by
  have hold : ∀ q c, s.m.live.find q = some c → q ≠ p := by
    rintro q c hq rfl
    exact hplaced.fresh (h.held q c hq)
  refine ⟨⟨fun q hq => ?_, ?_⟩, hplaced.ilc, hplaced.enabled, fun q c hq => ?_, fun q c hq => ?_⟩
  · rw [isTagged_iff hplaced.ilc] at hq
    simp only [hplaced.live, Table.find_insert]
    rcases hplaced.tagged q hq with ⟨rfl, htag⟩ | hq
    · exact ⟨a, by simp, htag⟩
    · obtain ⟨c, hc, htag⟩ := h.live.owned q ((isTagged_iff h.ilc q).mpr hq)
      exact ⟨c, by simp [hold q c hc, hc], htag⟩
  · rw [hplaced.hbm]
    exact h.live.early
  · simp only [hplaced.live, Table.find_insert] at hq
    split at hq
    · next heq =>
      cases hq
      exact hplaced.key.trans heq.symm
    · exact h.key q c hq
  · simp only [hplaced.live, Table.find_insert] at hq
    rw [hplaced.hbm]
    split at hq
    · next heq => simp [Hbm.allocate, heq]
    · next hne => simpa [Hbm.allocate, hne] using h.held q c hq

theorem TagInv.untagged {a : Allocation} {i' : IlcManager} {b₁ : Hbm} (h : TagInv s i)
    (hlive : s.m.live.find a.hbmPtr ≠ none) (huntagged : Untagged a i s.hbm i' b₁) :
    b₁.memory = s.hbm.memory ∧ b₁.late = [] := by
  obtain ⟨c, hc⟩ := Option.ne_none_iff_exists'.mp hlive
  rw [huntagged.hbm]
  split
  · refine ⟨Hbm.memory_untag _ _, (Hbm.late_untag _ _).mpr ⟨h.live.early, ?_⟩⟩
    simp [h.held _ c hc]
  · exact ⟨rfl, h.live.early⟩

theorem TagInv.free {a : Allocation} {freed : Ptr → Status} {m' : MemoryManager} {i' : IlcManager}
    {b₁ b' : Hbm} (h : TagInv s i) (hlive : s.m.live.find a.hbmPtr ≠ none)
    (huntagged : Untagged a i s.hbm i' b₁) (hilc : m'.ilc = some i')
    (hb' : b' = b₁.release a.hbmPtr (freed a.hbmPtr))
    (hm' : m'.live = if freed a.hbmPtr = .ok then s.m.live.erase a.hbmPtr else s.m.live) :
    (KeepsTags s (.free a freed) ∧ TagInv ⟨m', b'⟩ i') ∨
      (¬ KeepsTags s (.free a freed) ∧ ¬ TagsLive ⟨m', b'⟩) := by
  obtain ⟨hmemory, hearly⟩ := h.untagged hlive huntagged
  have hlate : b'.late = [] := by rw [hb', Hbm.late_release, hearly]
  by_cases hs : freed a.hbmPtr = .ok
  · rw [if_pos hs] at hm'
    by_cases hkeeps : KeepsTags s (.free a freed)
    · refine .inl ⟨hkeeps, ⟨⟨fun q hq => ?_, hlate⟩, hilc, huntagged.enabled, ?_, ?_⟩⟩
      · rw [isTagged_iff hilc, huntagged.tagged] at hq
        obtain ⟨hq, hother⟩ := hq
        obtain ⟨c, hc, htag⟩ := h.live.owned q ((isTagged_iff h.ilc q).mpr hq)
        have hne : q ≠ a.hbmPtr := by
          rintro rfl
          have hsaid := hkeeps ((isTagged_iff h.ilc _).mpr hq) hs
          rw [hother rfl] at hsaid
          cases hsaid
        exact ⟨c, by simp [hm', hne, hc], htag⟩
      · intro q c hq
        rw [hm'] at hq
        exact h.key q c (Table.find_of_find_erase hq)
      · intro q c hq
        simp only [hm', Table.find_erase] at hq
        split at hq
        · cases hq
        · next hne =>
          rw [hb', Hbm.memory_release_of_ne _ hne, hmemory]
          exact h.held q c hq
    · refine .inr ⟨hkeeps, fun hgood => ?_⟩
      simp only [KeepsTags, hs, forall_const, Classical.not_imp, Bool.not_eq_true] at hkeeps
      obtain ⟨htagged, hsilent⟩ := hkeeps
      have hstale : m'.IsTagged a.hbmPtr := by
        rw [isTagged_iff hilc, huntagged.tagged]
        exact ⟨(isTagged_iff h.ilc _).mp htagged, fun _ => hsilent⟩
      obtain ⟨c, hc, _⟩ := hgood.owned _ hstale
      simp [hm'] at hc
  · rw [if_neg hs] at hm'
    have hsame : b'.memory = s.hbm.memory := by rw [hb', Hbm.release, if_neg hs, hmemory]
    have hkeeps : KeepsTags s (.free a freed) := fun _ hok => absurd hok hs
    refine .inl ⟨hkeeps, ⟨⟨fun q hq => ?_, hlate⟩, hilc, huntagged.enabled, ?_, ?_⟩⟩
    · rw [isTagged_iff hilc, huntagged.tagged] at hq
      rw [hm']
      exact h.live.owned q ((isTagged_iff h.ilc q).mpr hq.1)
    · rw [hm']
      exact h.key
    · rw [hm', hsame]
      exact h.held

theorem TagInv.free_exec {a : Allocation} {freed : Ptr → Status} {status : Status}
    {m' : MemoryManager} {b' : Hbm} (h : TagInv s i)
    (hexec : Prog.Exec (Hbm.Serves freed) (s.m.free a) s.hbm (status, m') b') :
    (KeepsTags s (.free a freed) ∧ ∃ i', TagInv ⟨m', b'⟩ i') ∨
      (¬ KeepsTags s (.free a freed) ∧ ¬ TagsLive ⟨m', b'⟩) := by
  rcases (Prog.always_iff _ _ _).mp (free_tags h.ilc h.enabled a _) _ _ hexec with
    ⟨hnone, hm, rfl⟩ | ⟨hlive, i', b₁, huntagged, hilc, hb', hm'⟩
  · simp only at hm
    subst hm
    refine .inl ⟨fun htagged => ?_, i, h⟩
    obtain ⟨c, hc, _⟩ := h.live.owned _ htagged
    simp [hnone] at hc
  · rcases h.free hlive huntagged hilc hb' hm' with ⟨hkeeps, h'⟩ | hbad
    · exact .inl ⟨hkeeps, i', h'⟩
    · exact .inr hbad

theorem keepsTags_memFree (s : TagState) (ptr : Ptr) (freed : Ptr → Status) :
    KeepsTags s (.memFree ptr freed) ↔ KeepsTags s (.free { hbmPtr := ptr } freed) := by
  simp [KeepsTags]

theorem TagInv.destroy {freed : Ptr → Status} {m' : MemoryManager} {b' : Hbm} (h : TagInv s i)
    (hexec : Prog.Exec (Hbm.Serves freed) s.m.destructor s.hbm m' b') :
    (KeepsTags s (.destroy freed) ∧ ∃ i', TagInv ⟨m'.renewed, b'⟩ i') ∨
      (¬ KeepsTags s (.destroy freed) ∧ ¬ TagsLive ⟨m'.renewed, b'⟩) := by
  have hentry : ∀ a ∈ s.m.live.entries.map Prod.snd, s.m.live.find a.hbmPtr = some a := by
    intro a ha
    obtain ⟨⟨p, c⟩, hp, rfl⟩ := List.mem_map.mp ha
    rw [Table.mem_entries] at hp
    rw [h.key p c hp]
    exact hp
  have hkeys : (s.m.live.entries.map Prod.snd).map (·.hbmPtr) = s.m.live.keys := by
    rw [List.map_map, ← Table.map_fst_entries]
    apply List.map_congr_left
    rintro ⟨p, c⟩ hp
    exact h.key p c ((Table.mem_entries _ _ _).mp hp)
  have hnodup : ((s.m.live.entries.map Prod.snd).map (·.hbmPtr)).Nodup := by
    rw [hkeys]
    exact s.m.live.nodup
  rw [destructor, Prog.exec_bind] at hexec
  obtain ⟨m₁, b₁, hrelease, rfl, rfl⟩ := hexec
  obtain ⟨i', hilc, hon, htagged, hlate⟩ := (Prog.always_iff _ _ _).mp
    (releaseEach_tags h.ilc h.enabled hnodup (fun a ha => h.held _ a (hentry a ha))) _ _ hrelease
  -- every tag belongs to an entry that says so, and the loop visits all entries
  have hclear : ∀ p, i'.tagged.contains p ≠ true := by
    intro p hp
    obtain ⟨hp, hnone⟩ := (htagged p).mp hp
    obtain ⟨a, ha, htag⟩ := h.live.owned p ((isTagged_iff h.ilc p).mpr hp)
    have hmem : a ∈ s.m.live.entries.map Prod.snd :=
      List.mem_map.mpr ⟨(p, a), (Table.mem_entries _ _ _).mpr ha, rfl⟩
    rw [hnone a hmem (h.key p a ha)] at htag
    cases htag
  have hkeeps : b'.late = [] ↔ KeepsTags s (.destroy freed) := by
    rw [hlate, and_iff_right h.live.early]
    constructor
    · intro hall p hp hne
      obtain ⟨a, ha, htag⟩ := h.live.owned p hp
      obtain rfl := h.key p a ha
      exact hall a (List.mem_map.mpr ⟨(_, a), (Table.mem_entries _ _ _).mpr ha, rfl⟩) htag
        ((isTagged_iff h.ilc _).mp hp) hne
    · exact fun hall a _ _ hp => hall _ ((isTagged_iff h.ilc _).mpr hp)
  by_cases hmeets : KeepsTags s (.destroy freed)
  · refine .inl ⟨hmeets, i', ⟨fun p hp => ?_, hkeeps.mpr hmeets⟩, hilc, hon, ?_, ?_⟩
    · exact absurd ((isTagged_iff hilc p).mp hp) (hclear p)
    · intro p a hp
      simp [MemoryManager.renewed] at hp
    · intro p a hp
      simp [MemoryManager.renewed] at hp
  · exact .inr ⟨hmeets, fun hgood => hmeets (hkeeps.mp hgood.early)⟩

theorem tagInv_step (s : TagState) (c : TagCall) (s' : TagState) (hi : ∃ i, TagInv s i)
    (h : TagStep s c s') :
    (KeepsTags s c ∧ ∃ i, TagInv s' i) ∨ (¬ KeepsTags s c ∧ ¬ TagsLive s') := by
  obtain ⟨i, hi⟩ := hi
  cases h with
  | alloc bytes hints out a now later status m' b' h =>
    rcases (Prog.always_iff _ _ _).mp (alloc_tags hi.ilc hi.enabled bytes hints out now later _)
      _ _ h with ⟨hm, rfl⟩ | ⟨p, i', hplaced⟩
    · simp only at hm
      subst hm
      exact .inl ⟨trivial, i, hi⟩
    · exact .inl ⟨trivial, i', hi.alloc hplaced⟩
  | free a freed status m' b' h => exact hi.free_exec h
  | memFree ptr freed code m' b' h =>
    simp only [nexusrtMemFree, Bool.not_true, Bool.false_eq_true, ↓reduceIte, Prog.exec_bind] at h
    obtain ⟨⟨status, m₁⟩, b₁, hfree, hret, rfl⟩ := h
    obtain ⟨_, rfl⟩ := Prod.mk.inj hret
    rw [keepsTags_memFree]
    exact hi.free_exec hfree
  | destroy freed m' b' h => exact hi.destroy h

end Step

theorem keepsTags_exact : ExactGuard TagStep KeepsTags (fun s => ∃ i, TagInv s i) TagsLive where
  good := fun _ ⟨_, hi⟩ => hi.live
  step := tagInv_step

def newTags (pageTable : PageTableManager) (memory : Ptr → HbmState) : TagState where
  m := { pageTable, ilc := some { enabled := true } }
  hbm := { memory }

theorem tagInv_new (pageTable : PageTableManager) (memory : Ptr → HbmState) :
    ∃ i, TagInv (newTags pageTable memory) i := by
  refine ⟨{ enabled := true }, ⟨⟨fun p hp => ?_, rfl⟩, rfl, rfl, ?_, ?_⟩⟩
  · rw [isTagged_iff rfl] at hp
    cases hp
  · intro p a hp
    cases hp
  · intro p a hp
    cases hp

def TagRun (s₀ s : TagState) : Prop := GuardedRun TagStep KeepsTags s₀ s

theorem tags_live_run (pageTable : PageTableManager) (memory : Ptr → HbmState) (s : TagState)
    (hrun : TagRun (newTags pageTable memory) s) :
    TagsLive s ∧ ∀ c s', TagStep s c s' → (TagsLive s' ↔ KeepsTags s c) :=
  hrun.good_iff keepsTags_exact (tagInv_new pageTable memory)

def oneAddress (c : PlatformCall) (b : Hbm) : c.Answer × Hbm :=
  match c with
  | .allocHbm _ =>
    if b.memory 0x10000 = .held then ((.outOfHbm, 0), b)
    else ((.ok, 0x10000), b.allocate 0x10000)
  | .freeHbm p => (.ok, b.release p .ok)
  | .ilcUntag p => (.ok, b.untag p)
  | c => (succeedingBackend {} c, b)

theorem serves_oneAddress (c : PlatformCall) (b : Hbm) :
    Hbm.Serves (fun _ => .ok) c b (oneAddress c b).1 (oneAddress c b).2 := by
  cases c with
  | allocHbm bytes =>
    rw [oneAddress]
    split
    · exact .inl ⟨by simp, rfl⟩
    · next hfree => exact .inr ⟨rfl, hfree, rfl⟩
  | freeHbm p => exact ⟨rfl, rfl⟩
  | _ => exact rfl

def tagging : PlatformProg (Status × Allocation × MemoryManager) :=
  (newTags {} fun _ => .unused).m.alloc 0x10000 { ilc := true } {} id id

def afterTagging : TagState :=
  let (_, _, m) := (Prog.eval oneAddress tagging { memory := fun _ => .unused }).1
  ⟨m, (Prog.eval oneAddress tagging { memory := fun _ => .unused }).2⟩

theorem run_tagging : TagRun (newTags {} fun _ => .unused) afterTagging :=
  .single ⟨.alloc 0x10000 { ilc := true } {} id id,
    .alloc _ _ _ _ _ _ _ _ _ (Prog.exec_eval serves_oneAddress tagging _), trivial⟩

theorem isTagged_tagging : afterTagging.m.IsTagged 0x10000 := ⟨_, rfl, by decide⟩

theorem memFree_tagging : ∃ s', TagStep afterTagging (.memFree 0x10000 fun _ => .ok) s' :=
  ⟨_, .memFree _ _ _ _ _ (Prog.exec_eval serves_oneAddress _ _)⟩

theorem tags_live_run_tagging : TagsLive afterTagging ∧
    ∃ s', TagStep afterTagging (.memFree 0x10000 fun _ => .ok) s' ∧ ¬ TagsLive s' := by
  obtain ⟨hlive, hstep⟩ := tags_live_run {} (fun _ => .unused) afterTagging run_tagging
  obtain ⟨s', hs'⟩ := memFree_tagging
  refine ⟨hlive, s', hs', fun hgood => ?_⟩
  exact (hstep _ _ hs').mp hgood isTagged_tagging rfl

theorem tags_outlive_memory : ¬ ∀ (pageTable : PageTableManager) (memory : Ptr → HbmState)
    (s : TagState), Relation.ReflTransGen (fun s s' => ∃ c, TagStep s c s')
      (newTags pageTable memory) s → TagsLive s := by
  intro hall
  obtain ⟨s', hs'⟩ := memFree_tagging
  have hnot : ¬ KeepsTags afterTagging (.memFree 0x10000 fun _ => .ok) :=
    fun hkeeps => hkeeps isTagged_tagging rfl
  obtain ⟨hreach, hbad⟩ := run_tagging.not_good keepsTags_exact (tagInv_new _ _) hs' hnot
  exact hbad (hall _ _ s' hreach)

end NexusRT.Memory

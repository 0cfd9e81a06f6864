import NexusRT.Firmware.Degradation
import NexusRT.Memory.Mapping
import Mathlib.Data.Set.Insert

namespace NexusRT

open Firmware Memory Prog

/-- The tokens are not computed here: the source leaves the kernel to a task graph. -/
def PreprocessStage.run (dma : DmaEngine) (memory : MemoryManager) (corpusPath : String)
    (bytesToRead : UInt64) (now later : UInt64 → UInt64) : TransferProg (Status × MemoryManager) := do
  let (s, raw, memory) ← Transfer.platform (memory.alloc bytesToRead {} {} now later)
  if !ok s then return (s, memory) else
  let s ← dma.gdsRead corpusPath 0 raw.hbmPtr bytesToRead
  if !ok s then do
    let (_, memory) ← Transfer.platform (memory.free raw)
    return (s, memory)
  else do
    let (_, memory) ← Transfer.platform (memory.free raw)
    return (.ok, memory)

def Pipeline.runPreprocess (dma : DmaEngine) (memory : MemoryManager) (corpusPath : String)
    (now later : UInt64 → UInt64) : TransferProg (Status × MemoryManager) := do
  let (s, buf, memory) ← Transfer.platform (memory.alloc ((1 : UInt64) <<< 20) {} {} now later)
  if !ok s then return (s, memory) else
  let s ← dma.gdsRead corpusPath 0 buf.hbmPtr ((1 : UInt64) <<< 20)
  let (_, memory) ← Transfer.platform (memory.free buf)
  return (s, memory)

namespace Pipeline

theorem runPreprocess_eq (dma : DmaEngine) (memory : MemoryManager) (corpusPath : String)
    (now later : UInt64 → UInt64) : runPreprocess dma memory corpusPath now later =
      PreprocessStage.run dma memory corpusPath ((1 : UInt64) <<< 20) now later := by
  unfold runPreprocess PreprocessStage.run
  congr 1
  funext ⟨s, raw, memory⟩
  dsimp only
  congr 1
  congr 1
  funext s
  cases hs : ok s with
  | false => rfl
  | true =>
    obtain rfl := (ok_iff s).mp hs
    rfl

/-- `held` are the addresses that the driver has handed out, and `refused` those of `free_hbm` calls
that failed, the latest first. -/
structure StagingDevice where
  held : Set Ptr
  refused : List Ptr := []

def StagingDevice.Serves :
    (c : TransferCall) → StagingDevice → c.Answer → StagingDevice → Prop
  | .platform (.allocHbm _), d, r, d' =>
    (r.1 ≠ .ok ∧ d' = d) ∨ (r.1 = .ok ∧ r.2 ∉ d.held ∧ d' = { d with held := insert r.2 d.held })
  | .platform (.freeHbm p), d, s, d' =>
    (s = .ok ∧ d' = { d with held := d.held \ {p} }) ∨
      (s ≠ .ok ∧ d' = { d with refused := p :: d.refused })
  | _, d, _, d' => d' = d

structure StagingState where
  memory : MemoryManager
  device : StagingDevice

structure Leaves (s : StagingState) (kept : List Allocation) (s' : StagingState) : Prop where
  refused : s'.device.refused = kept.map Allocation.hbmPtr ++ s.device.refused
  held : ∀ p, p ∈ s'.device.held ↔ p ∈ s.device.held ∨ p ∈ kept.map Allocation.hbmPtr
  fresh : (kept.map Allocation.hbmPtr).Nodup ∧ ∀ a ∈ kept, a.hbmPtr ∉ s.device.held
  live : ∀ p a, s'.memory.live.find p = some a ↔
    s.memory.live.find p = some a ∨ a ∈ kept ∧ a.hbmPtr = p
  total : s'.memory.bytesAllocated =
    kept.foldr (fun a total => total + a.bytes) s.memory.bytesAllocated
  pages : ∀ pg e, s'.memory.pageTable.table.find pg = some e →
    s.memory.pageTable.table.find pg = some e

variable {s s' u : StagingState} {kept more : List Allocation}

theorem Leaves.refl (s : StagingState) : Leaves s [] s :=
  ⟨rfl, by simp, by simp, by simp, rfl, fun _ _ h => h⟩

theorem Leaves.trans (h : Leaves s kept u) (h' : Leaves u more s') :
    Leaves s (more ++ kept) s' := by
  refine ⟨?_, fun p => ?_, ⟨?_, ?_⟩, fun p a => ?_, ?_, fun pg e he => h.pages pg e (h'.pages pg e he)⟩
  · rw [h'.refused, h.refused, List.map_append, List.append_assoc]
  · rw [h'.held, h.held, List.map_append, List.mem_append, or_assoc, or_comm (a := p ∈ more.map _)]
  · rw [List.map_append, List.nodup_append']
    refine ⟨h'.fresh.1, h.fresh.1, fun p hp hkept => ?_⟩
    obtain ⟨a, ha, rfl⟩ := List.mem_map.mp hp
    exact h'.fresh.2 a ha ((h.held _).mpr (.inr hkept))
  · intro a ha
    rcases List.mem_append.mp ha with hmore | hkept
    · exact fun hheld => h'.fresh.2 a hmore ((h.held _).mpr (.inl hheld))
    · exact h.fresh.2 a hkept
  · rw [h'.live, h.live, List.mem_append, or_and_right, or_assoc, or_comm (a := a ∈ more ∧ _)]
  · rw [h'.total, h.total, List.foldr_append]

def staging (p : Ptr) (bytes : UInt64) : Allocation := { vaddr := p, bytes, hbmPtr := p }

def staged (memory : MemoryManager) (p : Ptr) (bytes : UInt64) (now : UInt64 → UInt64) :
    MemoryManager :=
  { memory with
    pageTable := (memory.pageTable.mapRange p bytes .hbm p now).2
    live := memory.live.insert p (staging p bytes)
    bytesAllocated := memory.bytesAllocated + bytes }

section Buffers

variable {memory : MemoryManager} {d : StagingDevice} {bytes : UInt64}

theorem alloc_staging (bytes : UInt64) (now later : UInt64 → UInt64) :
    Always StagingDevice.Serves (Transfer.platform (memory.alloc bytes {} {} now later)) d
      (fun r d' => (r.1 ≠ .ok ∧ r.2.2 = memory ∧ d' = d) ∨
        ∃ p, p ∉ d.held ∧ r = (.ok, staging p bytes, staged memory p bytes now) ∧
          d' = { d with held := insert p d.held }) := by
  rw [Transfer.platform, always_translate, MemoryManager.alloc]
  split
  · exact .inl ⟨by simp, rfl, rfl⟩
  · rw [Platform.allocHbm, op, call_bind, always_call]
    rintro ⟨r, p⟩ d' ⟨_, hserves, rfl⟩
    rw [ret_bind]
    dsimp only
    rcases hserves with ⟨hr, hd'⟩ | ⟨hr, hfresh, hd'⟩
    · have hok : ok r = false := (ok_eq_false_iff r).mpr hr
      rw [hok]
      exact .inl ⟨hr, rfl, hd'⟩
    · have htag (m : MemoryManager) (a : Allocation) (ha : a.hints.ilc = false) :
          m.tagIlc a = .ret (a, m) := by
        rw [MemoryManager.tagIlc]
        cases m.ilc <;> simp [ha]
      have hok : ok r = true := (ok_iff r).mpr hr
      rw [hok, htag _ _ rfl]
      exact .inr ⟨p, hfresh, rfl, hd'⟩

theorem free_staging {p : Ptr} (hlive : memory.live.find p ≠ none) :
    Always StagingDevice.Serves (Transfer.platform (memory.free (staging p bytes))) d
      (fun r d' => r.2.pageTable = (memory.pageTable.unmapRange p bytes).2 ∧
        ((r.2.live = memory.live.erase p ∧ r.2.bytesAllocated = memory.bytesAllocated - bytes ∧
            d' = { d with held := d.held \ {p} }) ∨
          (r.2.live = memory.live ∧ r.2.bytesAllocated = memory.bytesAllocated ∧
            d' = { d with refused := p :: d.refused }))) := by
  obtain ⟨a, ha⟩ := Option.ne_none_iff_exists'.mp hlive
  have huntag : memory.untagIlc (staging p bytes) = .ret memory := by
    rw [MemoryManager.untagIlc]
    cases memory.ilc <;> rfl
  rw [Transfer.platform, always_translate, MemoryManager.free,
    show memory.live.find (staging p bytes).hbmPtr = some a from ha]
  dsimp only
  rw [huntag, ret_bind, Platform.freeHbm, op, call_bind, always_call]
  rintro _ d' ⟨s, hserves, rfl⟩
  rw [ret_bind]
  rcases hserves with ⟨hs, hd'⟩ | ⟨hs, hd'⟩
  · have hok : ok s = true := (ok_iff s).mpr hs
    rw [hok]
    exact ⟨rfl, .inl ⟨rfl, rfl, hd'⟩⟩
  · have hok : ok s = false := (ok_eq_false_iff s).mpr hs
    rw [hok]
    exact ⟨rfl, .inr ⟨rfl, rfl, hd'⟩⟩

open PageTableManager in
theorem find_staged (t : PageTableManager) (p n q : UInt64) (now : UInt64 → UInt64) (pg : UInt64) :
    ((t.mapRange p n .hbm q now).2.unmapRange p n).2.table.find pg =
      if pg ∈ t.pages p n then none else t.table.find pg := by
  have hmapped := mapRange_mapped t p n q now
  rw [unmapRange, (pages_congr hmapped.arch p n).1]
  rcases unmapPages_cases (t.pages p n) (t.mapRange p n .hbm q now).2 with
    ⟨_, t', heq, ht'⟩ | ⟨before, a, after, _, hpages, ⟨e, he, hpin⟩, _⟩
  · rw [heq]
    split
    · next hpg => exact ht'.gone pg hpg
    · next hpg => exact (ht'.other pg hpg).trans (hmapped.other pg hpg)
  · have ha : a ∈ t.pages p n := by simp [hpages]
    obtain ⟨e', he', _, hzero⟩ := hmapped.mapped a ha
    obtain rfl := Option.some.inj (he'.symm.trans he)
    rw [hzero] at hpin
    exact absurd hpin (by decide)

theorem gdsRead_keeps (dma : DmaEngine) (path : String) (off : UInt64) (p : Ptr) (d : StagingDevice) :
    Always StagingDevice.Serves (dma.gdsRead path off p bytes) d (fun _ d' => d' = d) := by
  rw [DmaEngine.gdsRead]
  split
  · rintro s d' rfl
    rfl
  · rw [Transfer.submitAndWait, Transfer.dmaSubmit, op, call_bind, always_call]
    rintro ⟨s, ev⟩ d' rfl
    rw [ret_bind]
    dsimp only
    split
    · rfl
    · rintro t d' rfl
      rfl

end Buffers

section Stages

variable {p : Ptr}

theorem free_leaves (bytes : UInt64) (hp : p ∉ s.device.held) (hlive : s.memory.live.find p = none)
    (now : UInt64 → UInt64) :
    Always StagingDevice.Serves
      (Transfer.platform ((staged s.memory p bytes now).free (staging p bytes)))
      { s.device with held := insert p s.device.held }
      (fun r d => ∃ kept, Leaves s kept ⟨r.2, d⟩) := by
  have hfound : (staged s.memory p bytes now).live.find p ≠ none := by simp [staged]
  apply always_mono (free_staging hfound)
  rintro ⟨r, m⟩ d' ⟨hpages, hgiven⟩
  have hfewer (pg : UInt64) (e : PageEntry) (he : m.pageTable.table.find pg = some e) :
      s.memory.pageTable.table.find pg = some e := by
    rw [hpages, staged, find_staged] at he
    split at he
    · cases he
    · exact he
  rcases hgiven with ⟨hrecord, htotal, rfl⟩ | ⟨hrecord, htotal, rfl⟩
  · refine ⟨[], rfl, fun q => ?_, by simp, fun q a => ?_, ?_, hfewer⟩
    · by_cases hq : q = p
      · subst hq
        simp [hp]
      · simp [hq]
    · rw [hrecord, staged]
      by_cases hq : q = p
      · subst hq
        simp [hlive]
      · simp [hq]
    · exact htotal.trans (UInt64.add_sub_cancel _ _)
  · refine ⟨[staging p bytes], rfl, fun q => ?_, ⟨by simp, by simp [staging, hp]⟩, fun q a => ?_,
      htotal, hfewer⟩
    · simp [staging, or_comm]
    · rw [hrecord, staged, Table.find_insert, List.mem_singleton]
      by_cases hq : q = p
      · subst hq
        rw [if_pos rfl, hlive]
        constructor
        · intro h
          obtain rfl := Option.some.inj h
          exact .inr ⟨rfl, rfl⟩
        · rintro (h | ⟨rfl, _⟩)
          · cases h
          · rfl
      · rw [if_neg hq]
        refine ⟨.inl, fun h => h.resolve_right ?_⟩
        rintro ⟨rfl, rfl⟩
        exact hq rfl

theorem run_leaves (hheld : ∀ p, s.memory.live.find p ≠ none → p ∈ s.device.held)
    (dma : DmaEngine) (corpusPath : String) (bytes : UInt64) (now later : UInt64 → UInt64) :
    Always StagingDevice.Serves (PreprocessStage.run dma s.memory corpusPath bytes now later) s.device
      (fun r d => ∃ kept, Leaves s kept ⟨r.2, d⟩) := by
  rw [PreprocessStage.run, always_bind]
  apply always_mono (alloc_staging bytes now later)
  rintro ⟨r, raw, m⟩ d' (⟨hr, hm, rfl⟩ | ⟨p, hfresh, hr, rfl⟩)
  · have hok : ok r = false := (ok_eq_false_iff r).mpr hr
    dsimp only at hm ⊢
    rw [hok, hm]
    exact ⟨[], .refl s⟩
  · obtain ⟨rfl, rfl, rfl⟩ := hr
    have hlive : s.memory.live.find p = none := by
      by_contra h
      exact hfresh (hheld p h)
    have hfree := free_leaves bytes hfresh hlive now
    change Always _ (dma.gdsRead corpusPath 0 p bytes >>= _) _ _
    rw [always_bind]
    refine always_mono (gdsRead_keeps dma corpusPath 0 p _) ?_
    rintro t d' rfl
    dsimp only
    split
    all_goals
      rw [always_bind]
      exact always_mono hfree fun _ _ h => h

end Stages

inductive PreprocessCall
  | stage (corpusPath : String) (bytesToRead : UInt64)
  | header (corpusPath : String)

def PreprocessCall.prog (dma : DmaEngine) (memory : MemoryManager) (now later : UInt64 → UInt64) :
    PreprocessCall → TransferProg (Status × MemoryManager)
  | .stage corpusPath bytesToRead => PreprocessStage.run dma memory corpusPath bytesToRead now later
  | .header corpusPath => runPreprocess dma memory corpusPath now later

def Preprocesses (s s' : StagingState) : Prop :=
  ∃ (c : PreprocessCall) (dma : DmaEngine) (now later : UInt64 → UInt64) (status : Status),
    Exec StagingDevice.Serves (c.prog dma s.memory now later) s.device (status, s'.memory) s'.device

theorem Preprocesses.leaves (h : Preprocesses s s')
    (hheld : ∀ p, s.memory.live.find p ≠ none → p ∈ s.device.held) : ∃ kept, Leaves s kept s' := by
  obtain ⟨c, dma, now, later, status, h⟩ := h
  cases c with
  | stage corpusPath bytes =>
    exact (always_iff _ _ _).mp (run_leaves hheld dma corpusPath bytes now later) _ _ h
  | header corpusPath =>
    rw [PreprocessCall.prog, runPreprocess_eq] at h
    exact (always_iff _ _ _).mp (run_leaves hheld dma corpusPath _ now later) _ _ h

theorem Leaves.live_held (h : Leaves s kept s')
    (hheld : ∀ p, s.memory.live.find p ≠ none → p ∈ s.device.held) (p : Ptr)
    (hp : s'.memory.live.find p ≠ none) : p ∈ s'.device.held := by
  obtain ⟨a, ha⟩ := Option.ne_none_iff_exists'.mp hp
  rw [h.held]
  rcases (h.live p a).mp ha with hlive | ⟨hkept, rfl⟩
  · exact .inl (hheld p (by simp [hlive]))
  · exact .inr (List.mem_map_of_mem hkept)

theorem preprocess_leaves (hheld : ∀ p, s.memory.live.find p ≠ none → p ∈ s.device.held)
    (h : Relation.ReflTransGen Preprocesses s s') : ∃ kept, Leaves s kept s' := by
  have hboth : (∃ kept, Leaves s kept s') ∧
      ∀ p, s'.memory.live.find p ≠ none → p ∈ s'.device.held := by
    induction h with
    | refl => exact ⟨⟨[], .refl s⟩, hheld⟩
    | tail _ hstep ih =>
      obtain ⟨⟨kept, hkept⟩, hinv⟩ := ih
      obtain ⟨more, hmore⟩ := hstep.leaves hinv
      exact ⟨⟨more ++ kept, hkept.trans hmore⟩, hmore.live_held hinv⟩
  exact hboth.1

def emptyState : StagingState := ⟨{}, { held := ∅ }⟩

theorem preprocess_leaves_refused : ∃ s' kept, Relation.ReflTransGen Preprocesses emptyState s' ∧
    Leaves emptyState kept s' ∧ kept.map Allocation.hbmPtr = [0x10000] := by
  obtain ⟨m, hexec⟩ : ∃ m, Exec StagingDevice.Serves
      ((PreprocessCall.stage "corpus" 0x10000).prog { device := {} } {} id id)
        { held := ∅ } (.ioError, m)
        { held := {0x10000}, refused := [0x10000] } := by
    exact ⟨_, (.ok, 0x10000), { held := {0x10000} }, .inr ⟨rfl, by simp, by simp⟩, .ioError, _, rfl,
      .driverError, _, .inr ⟨nofun, rfl⟩, rfl, rfl⟩
  have hrun : Relation.ReflTransGen Preprocesses emptyState
      ⟨m, { held := {0x10000}, refused := [0x10000] }⟩ :=
    .single ⟨_, _, _, _, _, hexec⟩
  obtain ⟨kept, hkept⟩ := preprocess_leaves (by simp [emptyState]) hrun
  refine ⟨_, kept, hrun, hkept, ?_⟩
  simpa [emptyState] using hkept.refused.symm

end Pipeline

end NexusRT

import NexusRT.Firmware.MetalMemory
import NexusRT.Python.BackendMemory

namespace NexusRT.Python

open Prog Firmware Memory

/-- The live entries are the buffers of the backend but for `other`, which the manager does not
know: boot puts the fault buffer there. -/
structure Backed (other : List MetalBuffer) (live : Table Ptr Memory.Allocation)
    (d : MetalDriver) : Prop extends WellKept d where
  stays : ∀ b ∈ other, b ∈ buffersOf d.entry
  live : ∀ p, live.find p ≠ none ↔ ∃ b ∈ buffersOf d.entry, b ∉ other ∧ b.contents = p

section Steps

variable {other : List MetalBuffer} {live : Table Ptr Memory.Allocation} {d d' : MetalDriver}
  {p : Ptr} {bytes : UInt64}

theorem Backed.refused (h : Backed other live d) (hbuffers : buffersOf d'.entry = buffersOf d.entry)
    (hrefs : d'.references = d.references) : Backed other live d' := by
  obtain ⟨hkept, hstays, hlive⟩ := h
  rw [← hbuffers] at hstays hlive
  exact ⟨hkept.same hbuffers hrefs, hstays, hlive⟩

theorem Backed.fresh (h : Backed other live d) {b : MetalBuffer} (hfresh : d.references.Fresh b) :
    live.find b.contents = none := by
  by_contra hlive
  obtain ⟨c, hc, _, heq⟩ := (h.live _).mp hlive
  exact h.apart hfresh c hc heq

theorem Backed.allocated (h : Backed other live d) {b : MetalBuffer}
    (hfresh : d.references.Fresh b) (hbuffers : buffersOf d'.entry = buffersOf d.entry ++ [b])
    (hrefs : d'.references = Function.update d.references b 2) (a : Memory.Allocation) :
    Backed other (live.insert b.contents a) d' := by
  have hnew : b ∉ other := fun hb => h.apart hfresh b (h.stays b hb) rfl
  refine ⟨h.toWellKept.allocated hfresh hbuffers hrefs, fun c hc => ?_, fun q => ?_⟩
  · rw [hbuffers]
    exact List.mem_append_left _ (h.stays c hc)
  · rw [hbuffers, Table.find_insert]
    by_cases hq : q = b.contents
    · subst hq
      rw [if_pos rfl]
      exact ⟨fun _ => ⟨b, by simp, hnew, rfl⟩, fun _ => Option.some_ne_none a⟩
    · have hbq : b.contents ≠ q := fun heq => hq heq.symm
      rw [if_neg hq, h.live]
      simp [or_and_right, exists_or, hbq]

theorem Backed.freed_buffer (h : Backed other live d) (hlive : live.find p ≠ none) {e : Status}
    (hserves : MetalDriver.Serves (.freeHbm p) d e d') :
    e = .ok ∧ buffersOf d'.entry = (buffersOf d.entry).eraseP (fun b => b.contents = p) ∧
      ∃ b, b.contents = p ∧ d'.references = Function.update d.references b 1 := by
  -- Metal never refuses the address of a live entry, and one reference to its buffer is left.
  obtain ⟨c, hc, _, hcp⟩ := (h.live p).mp hlive
  exact h.toWellKept.freed_buffer ⟨c, hc, hcp⟩ hserves

theorem Backed.freed (h : Backed other live d) (hlive : live.find p ≠ none) {b : MetalBuffer}
    (hbp : b.contents = p)
    (hbuffers : buffersOf d'.entry = (buffersOf d.entry).eraseP (fun b => b.contents = p))
    (hrefs : d'.references = Function.update d.references b 1) :
    Backed other (live.erase p) d' := by
  refine ⟨h.toWellKept.freed hbp hbuffers hrefs, fun c hc => ?_, fun q => ?_⟩
  · rw [hbuffers, mem_eraseP_contents h.once]
    refine ⟨h.stays c hc, fun hcp => ?_⟩
    obtain ⟨x, hx, hnot, hxp⟩ := (h.live p).mp hlive
    obtain rfl := List.inj_on_of_nodup_map h.once hx (h.stays c hc) (hxp.trans hcp.symm)
    exact hnot hc
  · rw [hbuffers, Table.find_erase]
    by_cases hq : q = p
    · subst hq
      rw [if_pos rfl]
      refine ⟨fun hnone => absurd rfl hnone, ?_⟩
      rintro ⟨c, hc, _, hcq⟩
      exact absurd hcq ((mem_eraseP_contents h.once).mp hc).2
    · rw [if_neg hq, h.live]
      constructor
      · rintro ⟨c, hc, hnot, rfl⟩
        exact ⟨c, (mem_eraseP_contents h.once).mpr ⟨hc, hq⟩, hnot, rfl⟩
      · rintro ⟨c, hc, hnot, rfl⟩
        exact ⟨c, ((mem_eraseP_contents h.once).mp hc).1, hnot, rfl⟩

theorem update_pos {w : References} {b c : MetalBuffer} {n : ℕ} (hn : 0 < n) (hc : 0 < w c) :
    0 < Function.update w b n c := by
  by_cases hcb : c = b
  · rwa [hcb, Function.update_self]
  · rwa [Function.update_of_ne hcb]

def BackedWith (other old : List MetalBuffer) (live : Table Ptr Memory.Allocation)
    (d : MetalDriver) : Prop := Backed other live d ∧ ∀ b ∈ old, 0 < d.references b

theorem metal_ties (other old : List MetalBuffer) :
    Ties MetalDriver.Serves (BackedWith other old) where
  tags _ _ _ _ h := h.2
  refused := by
    rintro live d d' bytes e p ⟨h, hold⟩ he hserves
    obtain ⟨hbuffers, hrefs⟩ := refused_buffers he hserves
    exact ⟨h.refused hbuffers hrefs, fun b hb => hrefs ▸ hold b hb⟩
  handed := by
    rintro live d d' bytes p ⟨h, hold⟩ hserves
    obtain ⟨b, hfresh, rfl, hbuffers, hrefs⟩ := allocated_buffer hserves
    refine ⟨h.fresh hfresh, fun a => ⟨h.allocated hfresh hbuffers hrefs a, fun c hc => ?_⟩⟩
    rw [hrefs]
    exact update_pos Nat.two_pos (hold c hc)
  kept := by
    rintro live d d' p e ⟨h, _⟩ hlive he hserves
    exact absurd (h.freed_buffer hlive hserves).1 he
  freed := by
    rintro live d d' p ⟨h, hold⟩ hlive hserves
    obtain ⟨_, hbuffers, b, hbp, hrefs⟩ := h.freed_buffer hlive hserves
    refine ⟨h.freed hlive hbp hbuffers hrefs, fun c hc => ?_⟩
    rw [hrefs]
    exact update_pos Nat.one_pos (hold c hc)

end Steps

theorem unified_memory_exact {α : Type} (before : PlatformProg α) (a₀ : α) (d₀ : MetalDriver)
    (hbefore : Exec MetalDriver.Serves before {} a₀ d₀) (m₀ : MemoryManager)
    (hempty : ∀ p, m₀.live.find p = none) (s : OverBackend MetalDriver)
    (h : Relation.ReflTransGen (BackendStep MetalDriver.Serves)
      { client := { m := m₀ }, backend := d₀ } s) :
    HandedOut s.client ∧
    (∀ b ∈ buffersOf d₀.entry, b ∈ buffersOf s.backend.entry) ∧
    (s.client.handed.map fun e => e.1.ptr).Perm
      ((((buffersOf s.backend.entry).filter fun b => b ∉ buffersOf d₀.entry).map
        MetalBuffer.contents).map fun p => (p.toNat : ℤ)) ∧
    (∀ (ctx : Option Ptr) (found : Ptr → Bool) (a : Allocation) (r : Except PyError Unit)
      (m' : MemoryManager) (d' : MetalDriver), HasContext ctx found →
        Exec MetalDriver.Serves (free ctx found s.client.m a) s.backend (r, m') d' →
          (r = .ok () ↔ ∃ e ∈ s.client.handed, e.1.ptr = (UInt64.ofInt a.ptr).toNat)) ∧
    ∀ s', Relation.ReflTransGen (BackendStep MetalDriver.Serves) s s' →
      ∀ b ∈ buffersOf s.backend.entry, 0 < s'.backend.references b := by
  have hstart : Backed (buffersOf d₀.entry) m₀.live d₀ := by
    refine ⟨wellKept_exec hbefore, fun _ hb => hb, fun p => ?_⟩
    exact ⟨fun hlive => absurd (hempty p) hlive, fun ⟨b, hb, hnot, _⟩ => absurd hb hnot⟩
  obtain ⟨hout, hback, _⟩ := (metal_ties _ []).run ⟨.start hempty, hstart, by simp⟩ h
  refine ⟨hout, hback.stays, hout.perm ?_ ?_, fun ctx found a r m' d' hctx hexec => ?_, ?_⟩
  · exact hback.once.sublist (List.filter_sublist.map _)
  · intro p
    rw [hback.live, List.mem_map]
    simp [and_assoc]
  · exact hout.free_iff (fun e hsome hserves => (hback.freed_buffer hsome hserves).1) hctx hexec
  · intro s' hrun
    have hheld : ∀ b ∈ buffersOf s.backend.entry, 0 < s.backend.references b := by
      intro b hb
      rw [(hback.held b hb).1]
      exact Nat.two_pos
    exact ((metal_ties _ (buffersOf s.backend.entry)).run ⟨hout, hback, hheld⟩ hrun).backend.2

def faultBuffer : MetalBuffer := ⟨3, 0x8000⟩

def onlyBuffer : MetalBuffer := ⟨4, 0x10000⟩

def oneAllocation : Allocation := { ptr := 0x10000, bytes := 0x10000, hints := 2 }

def appleBackend : MetalDriver where
  entry := some { device := 1, queue := 2, buffers := [faultBuffer] }
  references := Function.update (Function.update (fun _ => 0) faultBuffer 1) faultBuffer 2

theorem appleBackend_exec : Exec MetalDriver.Serves (Platform.allocHbm 0x4000) {} (.ok, 0x8000)
    appleBackend := by
  refine ⟨(.ok, 0x8000), appleBackend, ?_, rfl, rfl⟩
  exact ⟨1, _, rfl, 2, _, rfl, some faultBuffer, _, ⟨⟨by decide, by simp⟩, rfl⟩, (), _,
    by simp [References.Serves, appleBackend], rfl, rfl⟩

theorem unified_memory_exact_freed : ∃ s s',
    Relation.ReflTransGen (BackendStep MetalDriver.Serves)
      { client := {}, backend := appleBackend } s ∧
    Relation.ReflTransGen (BackendStep MetalDriver.Serves) s s' ∧
      buffersOf s.backend.entry = [faultBuffer, onlyBuffer] ∧
        buffersOf s'.backend.entry = [faultBuffer] ∧ 0 < s'.backend.references onlyBuffer := by
  let references := Function.update (Function.update appleBackend.references onlyBuffer 1)
    onlyBuffer 2
  let d : MetalDriver := {
    entry := some { device := 1, queue := 2, buffers := [faultBuffer, onlyBuffer] }
    references }
  let d' : MetalDriver := {
    entry := some { device := 1, queue := 2, buffers := [faultBuffer] }
    references := Function.update references onlyBuffer (references onlyBuffer - 1) }
  have hfresh : appleBackend.references.Fresh onlyBuffer := by
    refine ⟨by decide, fun c hc => ?_⟩
    by_cases hcf : c = faultBuffer
    · subst hcf
      decide
    · simp [appleBackend, hcf] at hc
  have hserves : MetalDriver.Serves (.allocHbm 0x10000) appleBackend (.ok, 0x10000) d :=
    ⟨some onlyBuffer, _, ⟨hfresh, rfl⟩, (), _, by simp [References.Serves, d, references], rfl, rfl⟩
  have hserves' : MetalDriver.Serves (.freeHbm 0x10000) d .ok d' := ⟨(), _, rfl, rfl, rfl⟩
  obtain ⟨m, hlive, hexec⟩ : ∃ m, m.live.find 0x10000 ≠ none ∧ Exec MetalDriver.Serves
      (alloc (some 1) (fun _ => true) {} 0x10000 { readMostly := true } id id) appleBackend
        (.ok oneAllocation, m) d := by
    refine ⟨_, ?_, (.ok, 0x10000), d, hserves, rfl, rfl⟩
    exact Option.some_ne_none _
  have hrun : Relation.ReflTransGen (BackendStep MetalDriver.Serves)
      { client := {}, backend := appleBackend }
      { client := { m, handed := [(oneAllocation, { readMostly := true })] }, backend := d } :=
    .single (.alloc (s := { client := {}, backend := appleBackend }) (some 1) (fun _ => true)
      0x10000 { readMostly := true } id id _ m d hexec)
  obtain ⟨m', hfree⟩ := free_exec (fun _ => true) 1 oneAllocation rfl hlive hserves'
  have hrun' := Relation.ReflTransGen.single (BackendStep.free
    (s := ⟨⟨m, [(oneAllocation, { readMostly := true })]⟩, d⟩) _ _ _ _ m' d' hfree)
  have hleft := (unified_memory_exact _ _ _ appleBackend_exec {} (fun _ => rfl) _ hrun).2.2.2.2
  exact ⟨_, _, hrun, hrun', rfl, rfl, hleft _ hrun' onlyBuffer (by simp [buffersOf, d])⟩

end NexusRT.Python

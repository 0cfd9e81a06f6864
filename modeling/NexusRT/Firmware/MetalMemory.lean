import Mathlib.Logic.Function.Basic
import NexusRT.Firmware.Shims

namespace NexusRT.Firmware

open Prog

structure MetalBuffer where
  object : Ptr
  contents : Ptr
  deriving DecidableEq, Repr

inductive BufferCall
  | driver (c : DriverCall)
  | newBuffer (device : Ptr) (bytes : UInt64)
  | retain (b : MetalBuffer)
  | release (b : MetalBuffer)

abbrev BufferCall.Answer : BufferCall → Type
  | .driver c => c.Answer
  | .newBuffer _ _ => Option MetalBuffer
  | .retain _ => Unit
  | .release _ => Unit

abbrev BufferProg := Prog BufferCall BufferCall.Answer

namespace Buffers

def newBuffer (device : Ptr) (bytes : UInt64) : BufferProg (Option MetalBuffer) :=
  .op (BufferCall.newBuffer device bytes)

def retain (b : MetalBuffer) : BufferProg Unit := .op (BufferCall.retain b)

def release (b : MetalBuffer) : BufferProg Unit := .op (BufferCall.release b)

end Buffers

structure MetalEntry extends MetalState where
  buffers : List MetalBuffer := []

def buffersOf (p : Option MetalEntry) : List MetalBuffer := p.elim [] MetalEntry.buffers

namespace MetalPlatform

def entry : Option MetalEntry → BufferProg (Option MetalEntry)
  | some s => return some s
  | none => do
    let s ← (state none).translate BufferCall.driver fun _ r => r
    return s.map fun s => { s with }

def allocHbm (p : Option MetalEntry) (bytes : UInt64) :
    BufferProg ((Status × Ptr) × Option MetalEntry) := do
  let p ← entry p
  match p with
  | none => return ((.invalidArgument, 0), none)
  | some s => do
    let buf ← Buffers.newBuffer s.device bytes
    match buf with
    | none => return ((.outOfMemory, 0), some s)
    | some buf => do
      Buffers.retain buf
      return ((.ok, buf.contents), some { s with buffers := s.buffers ++ [buf] })

def freeHbm (p : Option MetalEntry) (ptr : Ptr) : BufferProg (Status × Option MetalEntry) := do
  let p ← entry p
  match p with
  | none => return (.ok, none)
  | some s =>
    if ptr = 0 then return (.ok, some s) else
    match s.buffers.find? fun b => b.contents = ptr with
    | none => return (.invalidArgument, some s)
    | some b => do
      Buffers.release b
      return (.ok, some { s with buffers := s.buffers.eraseP fun b => b.contents = ptr })

end MetalPlatform

/-- How many references there are to each buffer. Metal keeps a buffer as long as there is one. -/
abbrev References := MetalBuffer → ℕ

namespace References

/-- A new buffer comes with one reference, and its contents are not those of a buffer that Metal
keeps. -/
def Fresh (w : References) (b : MetalBuffer) : Prop :=
  b.contents ≠ 0 ∧ ∀ c, 0 < w c → c.contents ≠ b.contents

def Serves : (c : BufferCall) → References → c.Answer → References → Prop
  | .driver _, w, _, w' => w' = w
  | .newBuffer _ _, w, r, w' => match r with
    | none => w' = w
    | some b => w.Fresh b ∧ w' = Function.update w b 1
  | .retain b, w, _, w' => w' = Function.update w b (w b + 1)
  | .release b, w, _, w' => w' = Function.update w b (w b - 1)

end References

structure MetalDriver where
  entry : Option MetalEntry := none
  references : References := fun _ => 0

namespace MetalDriver

def Serves : (c : PlatformCall) → MetalDriver → c.Answer → MetalDriver → Prop
  | .allocHbm bytes, d, r, d' =>
    Exec References.Serves (MetalPlatform.allocHbm d.entry bytes) d.references (r, d'.entry)
      d'.references
  | .freeHbm p, d, s, d' =>
    Exec References.Serves (MetalPlatform.freeHbm d.entry p) d.references (s, d'.entry)
      d'.references
  | .ilcTag _, d, s, d' => s = .notImplemented ∧ d' = d
  | .ilcUntag _, d, s, d' => s = .ok ∧ d' = d
  | _, d, _, d' => buffersOf d'.entry = buffersOf d.entry ∧ d'.references = d.references

end MetalDriver

section Specs

variable {w : References} {e : Option MetalEntry}

theorem entry_spec (e : Option MetalEntry) (w : References) :
    Always References.Serves (MetalPlatform.entry e) w
      (fun r w' => w' = w ∧ buffersOf r = buffersOf e) := by
  cases e with
  | some s => exact ⟨rfl, rfl⟩
  | none =>
    rw [MetalPlatform.entry, always_bind, always_translate]
    rintro device w' ⟨_, hdevice, rfl⟩
    obtain rfl : w' = w := hdevice
    dsimp only [Prog.bind]
    split
    · exact ⟨rfl, rfl⟩
    · rintro queue w'' ⟨_, hqueue, rfl⟩
      obtain rfl : w'' = w' := hqueue
      exact ⟨rfl, rfl⟩

theorem allocHbm_spec (e : Option MetalEntry) (bytes : UInt64) (w : References) :
    Always References.Serves (MetalPlatform.allocHbm e bytes) w (fun r w' =>
      (r.1.1 ≠ .ok ∧ buffersOf r.2 = buffersOf e ∧ w' = w) ∨
        (r.1.1 = .ok ∧ ∃ b, w.Fresh b ∧ r.1.2 = b.contents ∧
          buffersOf r.2 = buffersOf e ++ [b] ∧ w' = Function.update w b 2)) := by
  rw [MetalPlatform.allocHbm, always_bind]
  apply always_mono (entry_spec e w)
  rintro r w₁ ⟨rfl, hbuffers⟩
  cases r with
  | none => exact .inl ⟨by simp, hbuffers, rfl⟩
  | some s =>
    rintro buf w₂ hnew
    cases buf with
    | none => exact .inl ⟨by simp, hbuffers, hnew⟩
    | some b =>
      obtain ⟨hfresh, rfl⟩ := hnew
      rintro ⟨⟩ w₃ rfl
      refine .inr ⟨rfl, b, hfresh, rfl, congrArg (· ++ [b]) hbuffers, ?_⟩
      rw [Function.update_idem, Function.update_self]

theorem freeHbm_spec {p : Ptr} (hp : p ≠ 0) (hheld : ∃ b ∈ buffersOf e, b.contents = p) :
    Always References.Serves (MetalPlatform.freeHbm e p) w (fun r w' =>
      r.1 = .ok ∧ buffersOf r.2 = (buffersOf e).eraseP (fun b => b.contents = p) ∧
        ∃ b ∈ buffersOf e, b.contents = p ∧ w' = Function.update w b (w b - 1)) := by
  rw [MetalPlatform.freeHbm, always_bind]
  apply always_mono (entry_spec e w)
  rintro r w₁ ⟨rfl, hbuffers⟩
  rw [← hbuffers] at hheld ⊢
  cases r with
  | none =>
    obtain ⟨b, hb, _⟩ := hheld
    cases hb
  | some s =>
    simp only [hp, ↓reduceIte]
    have hfound : (s.buffers.find? fun b => b.contents = p) ≠ none := by
      obtain ⟨b, hb, hcontents⟩ := hheld
      intro hnone
      exact absurd (decide_eq_true hcontents) (List.find?_eq_none.mp hnone b hb)
    obtain ⟨b, hb⟩ := Option.ne_none_iff_exists'.mp hfound
    rw [hb]
    rintro ⟨⟩ w₂ rfl
    have hcontents : b.contents = p := by simpa using List.find?_some hb
    exact ⟨rfl, rfl, b, List.mem_of_find?_eq_some hb, hcontents, rfl⟩

theorem freeHbm_unknown {p : Ptr} (hnone : ∀ b ∈ buffersOf e, b.contents ≠ p) :
    Always References.Serves (MetalPlatform.freeHbm e p) w (fun r w' =>
      buffersOf r.2 = buffersOf e ∧ w' = w) := by
  rw [MetalPlatform.freeHbm, always_bind]
  apply always_mono (entry_spec e w)
  rintro r w₁ ⟨rfl, hbuffers⟩
  rw [← hbuffers] at hnone ⊢
  cases r with
  | none => exact ⟨rfl, rfl⟩
  | some s =>
    have hfind : (s.buffers.find? fun b => b.contents = p) = none := by
      rw [List.find?_eq_none]
      intro b hb
      simpa using hnone b hb
    simp only [hfind]
    split <;> exact ⟨rfl, rfl⟩

theorem mem_eraseP_contents {v : List MetalBuffer} (hv : (v.map MetalBuffer.contents).Nodup)
    {p : Ptr} {b : MetalBuffer} :
    b ∈ v.eraseP (fun b => b.contents = p) ↔ b ∈ v ∧ b.contents ≠ p := by
  induction v with
  | nil => simp
  | cons c v ih =>
    obtain ⟨hc, hv⟩ := List.nodup_cons.mp hv
    by_cases hcp : c.contents = p
    · rw [List.eraseP_cons_of_pos (by simpa using hcp)]
      constructor
      · intro hb
        refine ⟨List.mem_cons_of_mem _ hb, fun hbp => hc ?_⟩
        exact List.mem_map.mpr ⟨b, hb, hbp.trans hcp.symm⟩
      · rintro ⟨hb, hbp⟩
        rcases List.mem_cons.mp hb with rfl | hb
        · exact absurd hcp hbp
        · exact hb
    · rw [List.eraseP_cons_of_neg (by simpa using hcp), List.mem_cons, List.mem_cons, ih hv]
      constructor
      · rintro (rfl | ⟨hb, hbp⟩)
        · exact ⟨.inl rfl, hcp⟩
        · exact ⟨.inr hb, hbp⟩
      · rintro ⟨rfl | hb, hbp⟩
        · exact .inl rfl
        · exact .inr ⟨hb, hbp⟩

end Specs

structure WellKept (d : MetalDriver) : Prop where
  once : ((buffersOf d.entry).map MetalBuffer.contents).Nodup
  held : ∀ b ∈ buffersOf d.entry, d.references b = 2 ∧ b.contents ≠ 0

section WellKept

variable {d d' : MetalDriver} {p : Ptr} {bytes : UInt64}

theorem refused_buffers {e : Status} (he : e ≠ .ok)
    (h : MetalDriver.Serves (.allocHbm bytes) d (e, p) d') :
    buffersOf d'.entry = buffersOf d.entry ∧ d'.references = d.references := by
  rcases (always_iff _ _ _).mp (allocHbm_spec d.entry bytes d.references) _ _ h with
    ⟨_, hbuffers, hrefs⟩ | ⟨hok, _⟩
  · exact ⟨hbuffers, hrefs⟩
  · exact absurd hok he

theorem allocated_buffer (h : MetalDriver.Serves (.allocHbm bytes) d (.ok, p) d') :
    ∃ b, d.references.Fresh b ∧ p = b.contents ∧ buffersOf d'.entry = buffersOf d.entry ++ [b] ∧
      d'.references = Function.update d.references b 2 := by
  rcases (always_iff _ _ _).mp (allocHbm_spec d.entry bytes d.references) _ _ h with
    ⟨hne, _⟩ | ⟨_, b, hfresh, hp, hbuffers, hrefs⟩
  · exact absurd rfl hne
  · exact ⟨b, hfresh, hp, hbuffers, hrefs⟩

theorem unknown_buffer (hnone : ∀ b ∈ buffersOf d.entry, b.contents ≠ p) {e : Status}
    (h : MetalDriver.Serves (.freeHbm p) d e d') :
    buffersOf d'.entry = buffersOf d.entry ∧ d'.references = d.references :=
  (always_iff _ _ _).mp (freeHbm_unknown hnone) _ _ h

theorem WellKept.same (h : WellKept d) (hbuffers : buffersOf d'.entry = buffersOf d.entry)
    (hrefs : d'.references = d.references) : WellKept d' := by
  obtain ⟨honce, hheld⟩ := h
  rw [← hbuffers] at honce hheld
  rw [← hrefs] at hheld
  exact ⟨honce, hheld⟩

theorem WellKept.apart (h : WellKept d) {b : MetalBuffer} (hfresh : d.references.Fresh b) :
    ∀ c ∈ buffersOf d.entry, c.contents ≠ b.contents := by
  -- Two references keep a buffer from being placed where another one is.
  intro c hc
  apply hfresh.2
  rw [(h.held c hc).1]
  exact Nat.two_pos

theorem WellKept.allocated (h : WellKept d) {b : MetalBuffer} (hfresh : d.references.Fresh b)
    (hbuffers : buffersOf d'.entry = buffersOf d.entry ++ [b])
    (hrefs : d'.references = Function.update d.references b 2) : WellKept d' := by
  have hapart := h.apart hfresh
  refine ⟨?_, fun c hc => ?_⟩
  · rw [hbuffers, List.map_append, List.nodup_append]
    refine ⟨h.once, List.nodup_singleton _, ?_⟩
    rintro q hq _ hb rfl
    obtain ⟨c, hc, rfl⟩ := List.mem_map.mp hq
    obtain heq := List.mem_singleton.mp hb
    exact hapart c hc heq
  · rw [hbuffers] at hc
    rw [hrefs]
    rcases List.mem_append.mp hc with hc | hc
    · have hcb : c ≠ b := fun heq => hapart c hc (congrArg _ heq)
      rw [Function.update_of_ne hcb]
      exact h.held c hc
    · obtain rfl := List.mem_singleton.mp hc
      exact ⟨Function.update_self .., hfresh.1⟩

theorem WellKept.freed_buffer (h : WellKept d) (hheld : ∃ b ∈ buffersOf d.entry, b.contents = p)
    {e : Status} (hserves : MetalDriver.Serves (.freeHbm p) d e d') :
    e = .ok ∧ buffersOf d'.entry = (buffersOf d.entry).eraseP (fun b => b.contents = p) ∧
      ∃ b, b.contents = p ∧ d'.references = Function.update d.references b 1 := by
  obtain ⟨c, hc, hcp⟩ := hheld
  have hp : p ≠ 0 := hcp ▸ (h.held c hc).2
  obtain ⟨hok, hbuffers, b, hb, hbp, hrefs⟩ :=
    (always_iff _ _ _).mp (freeHbm_spec hp ⟨c, hc, hcp⟩) _ _ hserves
  rw [(h.held b hb).1] at hrefs
  exact ⟨hok, hbuffers, b, hbp, hrefs⟩

theorem WellKept.freed (h : WellKept d) {b : MetalBuffer} (hbp : b.contents = p)
    (hbuffers : buffersOf d'.entry = (buffersOf d.entry).eraseP (fun b => b.contents = p))
    (hrefs : d'.references = Function.update d.references b 1) : WellKept d' := by
  refine ⟨?_, fun c hc => ?_⟩
  · rw [hbuffers]
    exact h.once.sublist (List.eraseP_sublist.map _)
  · rw [hbuffers] at hc
    obtain ⟨hc, hcp⟩ := (mem_eraseP_contents h.once).mp hc
    have hcb : c ≠ b := fun heq => hcp (heq ▸ hbp)
    rw [hrefs, Function.update_of_ne hcb]
    exact h.held c hc

theorem WellKept.step (c : PlatformCall) (r : c.Answer) (hserves : MetalDriver.Serves c d r d')
    (h : WellKept d) : WellKept d' := by
  cases c with
  | allocHbm bytes =>
    obtain ⟨e, p⟩ := r
    by_cases he : e = .ok
    · subst he
      obtain ⟨b, hfresh, _, hbuffers, hrefs⟩ := allocated_buffer hserves
      exact h.allocated hfresh hbuffers hrefs
    · obtain ⟨hbuffers, hrefs⟩ := refused_buffers he hserves
      exact h.same hbuffers hrefs
  | freeHbm p =>
    by_cases hheld : ∃ b ∈ buffersOf d.entry, b.contents = p
    · obtain ⟨_, hbuffers, b, hbp, hrefs⟩ := h.freed_buffer hheld hserves
      exact h.freed hbp hbuffers hrefs
    · have hnone : ∀ b ∈ buffersOf d.entry, b.contents ≠ p := fun b hb hbp => hheld ⟨b, hb, hbp⟩
      obtain ⟨hbuffers, hrefs⟩ := unknown_buffer hnone hserves
      exact h.same hbuffers hrefs
  | ilcTag => exact hserves.2 ▸ h
  | ilcUntag => exact hserves.2 ▸ h
  | _ => exact h.same hserves.1 hserves.2

theorem wellKept_exec {α : Type} {q : PlatformProg α} {a : α} {d : MetalDriver}
    (h : Exec MetalDriver.Serves q {} a d) : WellKept d :=
  exec_invariant (fun c _ r _ hserves hd => hd.step c r hserves) h
    ⟨List.nodup_nil, by simp [buffersOf]⟩

end WellKept

end NexusRT.Firmware

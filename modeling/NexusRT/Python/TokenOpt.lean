import NexusRT.Python.Firmware
import NexusRT.TokenOpt.AttentionHints

namespace NexusRT.Python

open Prog TokenOpt

def cArray (topkIndices : List Int) : List UInt32 := topkIndices.map UInt32.ofInt

/-- The array itself arrives in C as a pointer, whose entries the operations `topk` read. `found`
tells the handles that the registry has. -/
def prefetchAttention (ctx : Option Ptr) (found : Ptr → Bool) (kvCache nSlots : Int) :
    ScopeProg (Except PyError Unit) :=
  match Wrapper.ctx ctx with
  | .error e => return .error e
  | .ok h => do
    let s ← nexusrtPrefetchAttention (found h) (.ofInt kvCache) (.ofInt nSlots)
    return check s.code

def ReachesIndices (ctx : Option Ptr) (found : Ptr → Bool) (kvCache : Int) : Prop :=
  ∃ h, ctx = some h ∧ found h = true ∧ UInt64.ofInt kvCache ≠ 0

theorem prefetchAttention_reads {A : (c : ScopeCall) → c.Answer → Prop} {ctx : Option Ptr}
    {found : Ptr → Bool} {kvCache nSlots : Int} {t : ScopeTrace} {r : Except PyError Unit}
    (h : Traces A (prefetchAttention ctx found kvCache nSlots) t r) :
    (¬ ReachesIndices ctx found kvCache ∧ reads t = []) ∨
      (ReachesIndices ctx found kvCache ∧
        reads t = List.range (min (UInt64.ofInt nSlots).toNat 32)) := by
  cases ctx with
  | none =>
    obtain ⟨rfl, _⟩ := h
    refine .inl ⟨?_, rfl⟩
    rintro ⟨_, hnone, _⟩
    cases hnone
  | some c =>
    change Traces A (nexusrtPrefetchAttention _ _ _ >>= _) t r at h
    rw [traces_bind] at h
    obtain ⟨t, _, _, rfl, hcall, rfl, _⟩ := h
    have hreads := ContextScope.nexusrtPrefetchAttention_reads hcall
    rw [List.append_nil]
    split at hreads
    · next hboth => exact .inr ⟨⟨c, rfl, hboth⟩, hreads⟩
    · next hnot =>
      refine .inl ⟨?_, hreads⟩
      rintro ⟨_, hc, hboth⟩
      obtain rfl := Option.some.inj hc
      exact hnot hboth

theorem reads_within_iff (ctx : Option Ptr) (found : Ptr → Bool) (kvCache nSlots : Int)
    (topkIndices : List Int) (t : ScopeTrace) (r : Except PyError Unit)
    (h : Traces (Holding (cArray topkIndices)) (prefetchAttention ctx found kvCache nSlots) t r) :
    (∀ i ∈ reads t, i < topkIndices.length) ↔
      (ReachesIndices ctx found kvCache →
        min (UInt64.ofInt nSlots).toNat 32 ≤ topkIndices.length) := by
  rcases prefetchAttention_reads h with ⟨hnot, hreads⟩ | ⟨hreaches, hreads⟩
  · rw [hreads]
    constructor
    · exact fun _ hreaches => absurd hreaches hnot
    · intro _ i hi
      cases hi
  · rw [hreads]
    constructor
    · intro hwithin _
      by_contra hshort
      have hlast := hwithin topkIndices.length (List.mem_range.mpr (Nat.lt_of_not_le hshort))
      exact Nat.lt_irrefl _ hlast
    · intro henough i hi
      exact Nat.lt_of_lt_of_le (List.mem_range.mp hi) (henough hreaches)

def exampleCall (nSlots : Int) (topkIndices : List Int) : ScopeTrace × Except PyError Unit :=
  traceWith (ContextScope.held (cArray topkIndices))
    (prefetchAttention (some 0x40) (fun _ => true) 0x10000 nSlots)

theorem traces_exampleCall (nSlots : Int) (topkIndices : List Int) :
    Traces (Holding (cArray topkIndices))
      (prefetchAttention (some 0x40) (fun _ => true) 0x10000 nSlots)
      (exampleCall nSlots topkIndices).1 (exampleCall nSlots topkIndices).2 :=
  traces_traceWith (ContextScope.holding_held _) _

theorem reads_within_iff_threeIndices : (∀ i ∈ reads (exampleCall 3 [42, 100, 7]).1, i < 3) ∧
    ¬ ∀ i ∈ reads (exampleCall 4 [42, 100, 7]).1, i < 3 := by
  have hiff (nSlots : Int) := reads_within_iff _ _ _ _ _ _ _ (traces_exampleCall nSlots [42, 100, 7])
  constructor
  · exact (hiff 3).mpr fun _ => by decide
  · intro hwithin
    exact absurd ((hiff 4).mp hwithin ⟨0x40, rfl, rfl, by decide⟩) (by decide)

theorem reads_past_end : ¬ ∀ (ctx : Option Ptr) (found : Ptr → Bool) (kvCache nSlots : Int)
    (topkIndices : List Int) (t : ScopeTrace) (r : Except PyError Unit),
      Traces (Holding (cArray topkIndices)) (prefetchAttention ctx found kvCache nSlots) t r →
        ∀ i ∈ reads t, i < topkIndices.length := by
  intro hall
  have hread := hall _ _ _ _ _ _ _ (traces_exampleCall 8192 [42, 100, 7, 999]) 4 (by decide)
  exact Nat.lt_irrefl 4 hread

end NexusRT.Python

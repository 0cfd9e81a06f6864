import NexusRT.Memory.Accounting
import NexusRT.Python.Firmware

namespace NexusRT.Python

open Prog Firmware Memory

structure AllocKeywords where
  ilc : Bool := false
  readMostly : Bool := false
  pinnedHost : Bool := false
  gdsReadable : Bool := false
  grdmaVisible : Bool := false
  deriving DecidableEq, Repr

namespace AllocKeywords

def flags (k : AllocKeywords) : ℕ :=
  let flags := 0
  let flags := if k.ilc then flags ||| 0x01 else flags
  let flags := if k.readMostly then flags ||| 0x02 else flags
  let flags := if k.pinnedHost then flags ||| 0x04 else flags
  let flags := if k.gdsReadable then flags ||| 0x08 else flags
  if k.grdmaVisible then flags ||| 0x10 else flags

def hints (k : AllocKeywords) : AllocHints where
  ilc := k.ilc
  readMostly := k.readMostly
  pinnedHost := k.pinnedHost
  gdsReadable := k.gdsReadable
  grdmaVisible := k.grdmaVisible

end AllocKeywords

structure Allocation where
  ptr : ℤ
  bytes : ℤ
  hints : ℕ
  deriving DecidableEq, Repr

/-- `ctx` is what `_ctx()` finds, and `found` what `lookup_handle` does. `bytes` is converted to
`uint64_t`, the flags to `uint32_t`. -/
def alloc (ctx : Option Ptr) (found : Ptr → Bool) (m : MemoryManager) (bytes : ℤ)
    (k : AllocKeywords) (now later : UInt64 → UInt64) :
    PlatformProg (Except PyError Allocation × MemoryManager) :=
  match Wrapper.ctx ctx with
  | .error e => return (.error e, m)
  | .ok h => do
    let ((rc, ptr), m) ←
      nexusrtMemAlloc (found h) m (UInt64.ofInt bytes) (UInt32.ofNat k.flags) now later
    match check rc with
    | .error e => return (.error e, m)
    | .ok () => return (.ok { ptr := (ptr.getD 0).toNat, bytes, hints := k.flags }, m)

def free (ctx : Option Ptr) (found : Ptr → Bool) (m : MemoryManager) (a : Allocation) :
    PlatformProg (Except PyError Unit × MemoryManager) :=
  match Wrapper.ctx ctx with
  | .error e => return (.error e, m)
  | .ok h => do
    let (rc, m) ← nexusrtMemFree (found h) m (UInt64.ofInt a.ptr)
    return (check rc, m)

def nexusrtMemAdviseReadMostly (ctx : Bool) (m : MemoryManager) (ptr : Ptr) (bytes : UInt64)
    (now : UInt64 → UInt64) : Int × MemoryManager :=
  if !ctx then (Status.invalidArgument.code, m) else
  let (s, m) := m.adviseReadMostly ptr bytes now
  (s.code, m)

def adviseReadMostly (ctx : Option Ptr) (found : Ptr → Bool) (m : MemoryManager) (ptr bytes : ℤ)
    (now : UInt64 → UInt64) : Except PyError Unit × MemoryManager :=
  match Wrapper.ctx ctx with
  | .error e => (.error e, m)
  | .ok h =>
    let (rc, m) :=
      nexusrtMemAdviseReadMostly (found h) m (UInt64.ofInt ptr) (UInt64.ofInt bytes) now
    (check rc, m)

def hintsOf (flags : UInt32) : AllocHints where
  ilc := flags &&& 0x01 ≠ 0
  readMostly := flags &&& 0x02 ≠ 0
  pinnedHost := flags &&& 0x04 ≠ 0
  gdsReadable := flags &&& 0x08 ≠ 0
  grdmaVisible := flags &&& 0x10 ≠ 0

theorem hintsOf_flags (k : AllocKeywords) : hintsOf (UInt32.ofNat k.flags) = k.hints := by
  obtain ⟨ilc, readMostly, pinnedHost, gdsReadable, grdmaVisible⟩ := k
  cases ilc <;> cases readMostly <;> cases pinnedHost <;> cases gdsReadable <;>
    cases grdmaVisible <;> decide

section Outcomes

variable {σ : Type} {H : (c : PlatformCall) → σ → c.Answer → σ → Prop} {s t : σ}
  {m m' : MemoryManager} {ctx : Option Ptr} {found : Ptr → Bool}

theorem nexusrtMemAlloc_over (htags : MemoryManager.TagsOnly H) (m : MemoryManager)
    (bytes : UInt64) (flags : UInt32) (now later : UInt64 → UInt64) (s : σ) :
    Always H (nexusrtMemAlloc true m bytes flags now later) s (fun r t =>
      (∃ e : Status, e ≠ .ok ∧ r = ((e.code, none), m) ∧
        (t = s ∨ ∃ e p, e ≠ .ok ∧ H (.allocHbm bytes) s (e, p) t)) ∨
      ∃ p a, r.1 = (0, some p) ∧ H (.allocHbm bytes) s (.ok, p) t ∧ r.2.live = m.live.insert p a ∧
        a.bytes = bytes ∧ a.hints = hintsOf flags) := by
  simp only [nexusrtMemAlloc, Bool.not_true, Bool.false_eq_true, ↓reduceIte, always_bind]
  apply always_mono (m.alloc_over htags bytes _ {} now later s)
  rintro ⟨e, out, m'⟩ t (⟨he, hsame, ht⟩ | ⟨rfl, hanswer, hbytes, hhints, hlive⟩)
  · simp only [(ok_eq_false_iff e).mpr he, Bool.not_false, ↓reduceIte]
    have hsame : m' = m := hsame
    exact .inl ⟨e, he, by rw [hsame], ht⟩
  · simp only [(ok_iff .ok).mpr rfl, Bool.not_true, Bool.false_eq_true, ↓reduceIte]
    exact .inr ⟨out.hbmPtr, out, rfl, hanswer, hlive, hbytes, hhints⟩

theorem alloc_outcome {bytes : ℤ} {k : AllocKeywords} {now later : UInt64 → UInt64}
    {r : Except PyError Allocation} (htags : MemoryManager.TagsOnly H)
    (h : Exec H (alloc ctx found m bytes k now later) s (r, m') t) :
    (∃ e, r = .error e ∧ m' = m ∧
        (t = s ∨ ∃ e p, e ≠ .ok ∧ H (.allocHbm (UInt64.ofInt bytes)) s (e, p) t)) ∨
      ∃ (p : Ptr) (a : Memory.Allocation), r = .ok { ptr := p.toNat, bytes, hints := k.flags } ∧
        H (.allocHbm (UInt64.ofInt bytes)) s (.ok, p) t ∧ m'.live = m.live.insert p a ∧
          a.bytes = UInt64.ofInt bytes ∧ a.hints = k.hints := by
  rw [alloc] at h
  cases ctx with
  | none =>
    obtain ⟨hr, ht⟩ := h
    obtain ⟨rfl, rfl⟩ := Prod.mk.inj hr
    exact .inl ⟨_, rfl, rfl, .inl ht⟩
  | some c =>
    rw [Wrapper.ctx, exec_bind] at h
    obtain ⟨⟨⟨rc, ptr⟩, m₁⟩, u, halloc, h⟩ := h
    dsimp only at h
    cases hc : found c with
    | false =>
      rw [hc] at halloc
      obtain ⟨heq, rfl⟩ := halloc
      obtain ⟨hcode, rfl⟩ := Prod.mk.inj heq
      obtain ⟨rfl, rfl⟩ := Prod.mk.inj hcode
      obtain ⟨hr, ht⟩ := h
      obtain ⟨rfl, rfl⟩ := Prod.mk.inj hr
      exact .inl ⟨_, rfl, rfl, .inl ht⟩
    | true =>
      rw [hc] at halloc
      rcases (always_iff _ _ _).mp (nexusrtMemAlloc_over htags m _ _ now later s) _ _ halloc with
        ⟨e, he, heq, hu⟩ | ⟨p, a, heq, hanswer, hlive, hbytes, hhints⟩
      · obtain ⟨hcode, rfl⟩ := Prod.mk.inj heq
        obtain ⟨rfl, rfl⟩ := Prod.mk.inj hcode
        rw [check_status, if_neg he] at h
        obtain ⟨hr, rfl⟩ := h
        obtain ⟨rfl, rfl⟩ := Prod.mk.inj hr
        exact .inl ⟨_, rfl, rfl, hu⟩
      · obtain ⟨rfl, rfl⟩ := Prod.mk.inj heq
        obtain ⟨hr, rfl⟩ := h
        obtain ⟨rfl, rfl⟩ := Prod.mk.inj hr
        exact .inr ⟨p, a, rfl, hanswer, hlive, hbytes, hhints.trans (hintsOf_flags k)⟩

def HasContext (ctx : Option Ptr) (found : Ptr → Bool) : Prop := ∃ c, ctx = some c ∧ found c = true

theorem free_outcome {a : Allocation} {r : Except PyError Unit}
    (h : Exec H (free ctx found m a) s (r, m') t) :
    (∃ e, r = .error e ∧ m' = m ∧ t = s ∧
        (HasContext ctx found → m.live.find (UInt64.ofInt a.ptr) = none)) ∨
      (m.live.find (UInt64.ofInt a.ptr) ≠ none ∧
        ((∃ e e', r = .error e ∧ e' ≠ .ok ∧ H (.freeHbm (UInt64.ofInt a.ptr)) s e' t ∧
            m'.live = m.live) ∨
          (r = .ok () ∧ H (.freeHbm (UInt64.ofInt a.ptr)) s .ok t ∧
            m'.live = m.live.erase (UInt64.ofInt a.ptr)))) := by
  rw [free] at h
  cases ctx with
  | none =>
    obtain ⟨hr, ht⟩ := h
    obtain ⟨rfl, rfl⟩ := Prod.mk.inj hr
    exact .inl ⟨_, rfl, rfl, ht, fun ⟨_, hc, _⟩ => absurd hc.symm (Option.some_ne_none _)⟩
  | some c =>
    rw [Wrapper.ctx, exec_bind] at h
    obtain ⟨⟨rc, m₁⟩, u, hfree, hr, rfl⟩ := h
    obtain ⟨rfl, rfl⟩ := Prod.mk.inj hr
    cases hc : found c with
    | false =>
      rw [hc] at hfree
      obtain ⟨heq, ht⟩ := hfree
      obtain ⟨rfl, rfl⟩ := Prod.mk.inj heq
      refine .inl ⟨_, rfl, rfl, ht, fun ⟨d, hd, hfound⟩ => ?_⟩
      obtain rfl := Option.some.inj hd
      rw [hc] at hfound
      cases hfound
    | true =>
      rw [hc] at hfree
      simp only [nexusrtMemFree, Bool.not_true, Bool.false_eq_true, ↓reduceIte, exec_bind] at hfree
      obtain ⟨⟨e, m₂⟩, v, hfree, heq, rfl⟩ := hfree
      obtain ⟨rfl, rfl⟩ := Prod.mk.inj heq
      rw [check_status]
      rcases (always_iff _ _ _).mp (m.free_over _ s) _ _ hfree with
        ⟨hnone, hsame, ht⟩ | ⟨hsome, hanswer, hlive⟩
      · obtain ⟨rfl, rfl⟩ := Prod.mk.inj hsame
        exact .inl ⟨_, rfl, rfl, ht, fun _ => hnone⟩
      · refine .inr ⟨hsome, ?_⟩
        by_cases he : e = .ok
        · subst he
          rw [if_pos rfl] at hlive ⊢
          exact .inr ⟨rfl, hanswer, hlive⟩
        · rw [if_neg he] at hlive ⊢
          exact .inl ⟨_, e, rfl, he, hanswer, hlive⟩

theorem free_exec (found : Ptr → Bool) (c : Ptr) (a : Allocation) (hc : found c = true)
    (hlive : m.live.find (UInt64.ofInt a.ptr) ≠ none)
    (hH : H (.freeHbm (UInt64.ofInt a.ptr)) s .ok t) :
    ∃ m', Exec H (free (some c) found m a) s (.ok (), m') t := by
  obtain ⟨m', hm'⟩ := MemoryManager.free_exec_over hlive hH
  refine ⟨m', ?_⟩
  rw [free, Wrapper.ctx, exec_bind]
  refine ⟨(Status.ok.code, m'), t, ?_, rfl, rfl⟩
  rw [hc]
  simp only [nexusrtMemFree, Bool.not_true, Bool.false_eq_true, ↓reduceIte, exec_bind]
  exact ⟨(.ok, m'), t, hm', rfl, rfl⟩

theorem adviseReadMostly_live (ctx : Option Ptr) (found : Ptr → Bool) (m : MemoryManager)
    (ptr bytes : ℤ) (now : UInt64 → UInt64) :
    (adviseReadMostly ctx found m ptr bytes now).2.live = m.live := by
  rw [adviseReadMostly]
  cases ctx with
  | none => rfl
  | some c =>
    simp only [Wrapper.ctx, nexusrtMemAdviseReadMostly]
    cases found c <;> rfl

end Outcomes

/-- An address that the driver hands out is not live. -/
def FreshDriver (m : MemoryManager) : (c : PlatformCall) → c.Answer → Prop
  | .allocHbm _, r => r.1 = .ok → m.live.find r.2 = none
  | _, _ => True

/-- `handed` is ghost state: the allocations that the client has and did not free, with the keywords
that it asked for them with, the latest first. -/
structure MemoryClient where
  m : MemoryManager := {}
  handed : List (Allocation × AllocKeywords) := []

namespace MemoryClient

def handedAfterAlloc (s : MemoryClient) (k : AllocKeywords) :
    Except PyError Allocation → List (Allocation × AllocKeywords)
  | .ok a => (a, k) :: s.handed
  | .error _ => s.handed

def handedAfterFree (s : MemoryClient) (a : Allocation) :
    Except PyError Unit → List (Allocation × AllocKeywords)
  | .ok () => s.handed.filter fun e => UInt64.ofInt e.1.ptr ≠ UInt64.ofInt a.ptr
  | .error _ => s.handed

end MemoryClient

inductive ClientStep (s : MemoryClient) : MemoryClient → Prop
  | alloc (ctx : Option Ptr) (found : Ptr → Bool) (bytes : ℤ) (k : AllocKeywords)
      (now later : UInt64 → UInt64) (r : Except PyError Allocation) (m' : MemoryManager)
      (h : Exec (allow (FreshDriver s.m)) (alloc ctx found s.m bytes k now later) () (r, m') ()) :
      ClientStep s { m := m', handed := s.handedAfterAlloc k r }
  | free (ctx : Option Ptr) (found : Ptr → Bool) (a : Allocation) (r : Except PyError Unit)
      (m' : MemoryManager)
      (h : Exec (allow (FreshDriver s.m)) (free ctx found s.m a) () (r, m') ()) :
      ClientStep s { m := m', handed := s.handedAfterFree a r }
  | advise (ctx : Option Ptr) (found : Ptr → Bool) (ptr bytes : ℤ) (now : UInt64 → UInt64) :
      ClientStep s { s with m := (adviseReadMostly ctx found s.m ptr bytes now).2 }

structure HandedOut (s : MemoryClient) : Prop where
  live : ∀ p, s.m.live.find p ≠ none ↔ ∃ e ∈ s.handed, e.1.ptr = p.toNat
  once : (s.handed.map fun e => e.1.ptr).Nodup
  asked : ∀ e ∈ s.handed, e.1.hints = e.2.flags ∧ ∃ (p : Ptr) (a : Memory.Allocation),
    e.1.ptr = p.toNat ∧ s.m.live.find p = some a ∧ a.bytes = UInt64.ofInt e.1.bytes ∧
      a.hints = e.2.hints

section Runs

variable {s s' : MemoryClient}

theorem ofInt_toNat (p : Ptr) : UInt64.ofInt p.toNat = p := by
  have hlt := p.toNat_lt
  apply UInt64.toNat_inj.mp
  rw [UInt64.ofInt, UInt64.toNat_ofNat']
  omega

theorem toNat_inj {p q : Ptr} : (p.toNat : ℤ) = q.toNat ↔ p = q := by
  rw [Int.ofNat_inj, UInt64.toNat_inj]

theorem HandedOut.same_live {m' : MemoryManager} (h : HandedOut s) (hlive : m'.live = s.m.live) :
    HandedOut { s with m := m' } := by
  refine ⟨fun p => ?_, h.once, fun e he => ?_⟩
  · rw [hlive]
    exact h.live p
  · rw [hlive]
    exact h.asked e he

theorem HandedOut.handed {m' : MemoryManager} {p : Ptr} {a : Memory.Allocation} {bytes : ℤ}
    {k : AllocKeywords} (h : HandedOut s) (hfresh : s.m.live.find p = none)
    (hlive : m'.live = s.m.live.insert p a) (hbytes : a.bytes = UInt64.ofInt bytes)
    (hhints : a.hints = k.hints) :
    HandedOut
      { m := m', handed := ({ ptr := p.toNat, bytes, hints := k.flags }, k) :: s.handed } := by
  have hnew : ∀ e ∈ s.handed, e.1.ptr ≠ p.toNat :=
    fun e he heq => (h.live p).mpr ⟨e, he, heq⟩ hfresh
  refine ⟨fun q => ?_, ?_, fun e he => ?_⟩
  · rw [hlive, Table.find_insert]
    by_cases hq : q = p
    · subst hq
      simp
    · have hqp : (p.toNat : ℤ) ≠ q.toNat := fun heq => hq (toNat_inj.mp heq).symm
      rw [if_neg hq, h.live]
      simp [hqp]
  · rw [List.map_cons, List.nodup_cons]
    refine ⟨fun hmem => ?_, h.once⟩
    obtain ⟨e, he, heq⟩ := List.mem_map.mp hmem
    exact hnew e he heq
  · rcases List.mem_cons.mp he with rfl | he
    · exact ⟨rfl, p, a, rfl, by simp [hlive], hbytes, hhints⟩
    · obtain ⟨hflags, q, b, hptr, hfind, hb⟩ := h.asked e he
      have hq : q ≠ p := fun heq => hnew e he (heq ▸ hptr)
      refine ⟨hflags, q, b, hptr, ?_, hb⟩
      rw [hlive, Table.find_insert, if_neg hq]
      exact hfind

theorem HandedOut.freed {m' : MemoryManager} {x : Ptr} (h : HandedOut s)
    (hlive : m'.live = s.m.live.erase x) :
    HandedOut { m := m', handed := s.handed.filter fun e => UInt64.ofInt e.1.ptr ≠ x } := by
  refine ⟨fun q => ?_, ?_, fun e he => ?_⟩
  · rw [hlive, Table.find_erase]
    by_cases hq : q = x
    · subst hq
      rw [if_pos rfl]
      refine ⟨fun hnone => absurd rfl hnone, ?_⟩
      rintro ⟨e, he, heq⟩
      have hne := of_decide_eq_true (List.mem_filter.mp he).2
      rw [heq, ofInt_toNat] at hne
      exact absurd rfl hne
    · rw [if_neg hq, h.live]
      constructor
      · rintro ⟨e, he, heq⟩
        refine ⟨e, List.mem_filter.mpr ⟨he, decide_eq_true ?_⟩, heq⟩
        rwa [heq, ofInt_toNat]
      · rintro ⟨e, he, heq⟩
        exact ⟨e, (List.mem_filter.mp he).1, heq⟩
  · exact h.once.sublist (List.filter_sublist.map _)
  · obtain ⟨he, hne⟩ := List.mem_filter.mp he
    obtain ⟨hflags, q, b, hptr, hfind, hb⟩ := h.asked e he
    have hq := of_decide_eq_true hne
    rw [hptr, ofInt_toNat] at hq
    refine ⟨hflags, q, b, hptr, ?_, hb⟩
    rw [hlive, Table.find_erase, if_neg hq]
    exact hfind

theorem HandedOut.step (h : HandedOut s) (hstep : ClientStep s s') : HandedOut s' := by
  cases hstep with
  | alloc ctx found bytes k now later r m' hexec =>
    rcases alloc_outcome (fun _ _ _ _ _ => rfl) hexec with
      ⟨e, rfl, rfl, _⟩ | ⟨p, a, rfl, hanswer, hlive, hbytes, hhints⟩
    · exact h
    · exact h.handed (hanswer rfl) hlive hbytes hhints
  | free ctx found a r m' hexec =>
    rcases free_outcome hexec with
      ⟨e, rfl, rfl, _⟩ | ⟨_, ⟨e, _, rfl, _, _, hlive⟩ | ⟨rfl, _, hlive⟩⟩
    · exact h
    · exact h.same_live hlive
    · exact h.freed hlive
  | advise ctx found ptr bytes now =>
    exact h.same_live (adviseReadMostly_live ctx found s.m ptr bytes now)

end Runs

theorem allocations_live (m₀ : MemoryManager) (hempty : ∀ p, m₀.live.find p = none)
    (s : MemoryClient) (h : Relation.ReflTransGen ClientStep { m := m₀ } s) :
    HandedOut s ∧ ∀ (ctx : Option Ptr) (found : Ptr → Bool) (a : Allocation)
      (r : Except PyError Unit) (m' : MemoryManager),
        Exec (allow (FreshDriver s.m)) (free ctx found s.m a) () (r, m') () →
          (∀ e ∈ s.handed, e.1.ptr ≠ (UInt64.ofInt a.ptr).toNat) →
            (∃ e, r = .error e) ∧ m' = s.m := by
  have hout : HandedOut s := by
    induction h with
    | refl => exact ⟨by simp [hempty], List.nodup_nil, by simp⟩
    | tail _ hstep ih => exact ih.step hstep
  refine ⟨hout, fun ctx found a r m' hexec hnot => ?_⟩
  have hnone : s.m.live.find (UInt64.ofInt a.ptr) = none := by
    by_contra hlive
    obtain ⟨e, he, heq⟩ := (hout.live _).mp hlive
    exact hnot e he heq
  rcases free_outcome hexec with ⟨e, hr, hsame, _⟩ | ⟨hsome, _⟩
  · exact ⟨⟨e, hr⟩, hsame⟩
  · exact absurd hnone hsome

def foreign : Allocation := { ptr := 0x20000, bytes := 1, hints := 0 }

theorem allocations_live_foreign : ∃ s, Relation.ReflTransGen ClientStep {} s ∧
    s.handed.length = 1 ∧ ∀ r m',
      Exec (allow (FreshDriver s.m)) (free (some 1) (fun _ => true) s.m foreign) () (r, m') () →
        (∃ e, r = .error e) ∧ m' = s.m := by
  obtain ⟨m, hexec⟩ : ∃ m, Exec (allow (FreshDriver {}))
      (alloc (some 1) (fun _ => true) {} 0x10000 { readMostly := true } id id) ()
        (.ok { ptr := 0x10000, bytes := 0x10000, hints := 2 }, m) () :=
    ⟨_, (.ok, 0x10000), (), fun _ => rfl, rfl, rfl⟩
  have hrun : Relation.ReflTransGen ClientStep {}
      { m, handed :=
        [({ ptr := 0x10000, bytes := 0x10000, hints := 2 }, { readMostly := true })] } :=
    .single (.alloc (s := {}) (some 1) (fun _ => true) 0x10000 { readMostly := true } id id _ m
      hexec)
  have hother : (0x10000 : ℤ) ≠ (UInt64.ofInt foreign.ptr).toNat := by decide
  refine ⟨_, hrun, rfl, fun r m' hfree => ?_⟩
  refine (allocations_live {} (fun _ => rfl) _ hrun).2 _ _ foreign r m' hfree fun e he => ?_
  obtain rfl := List.mem_singleton.mp he
  exact hother

end NexusRT.Python

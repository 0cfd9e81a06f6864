import NexusRT.Firmware.TensorMaps
import NexusRT.Library.Ledger
import NexusRT.Library.Trace

namespace NexusRT.Firmware

open LedgerEntry Prog

abbrev TmaEvent := Event TmaCall TmaCall.Answer

def ledgerEntry : TmaEvent → Option (LedgerEntry Ptr)
  | ⟨.tmaEncode _, (s, raw)⟩ => if s = .ok then some (.acquire raw) else none
  | ⟨.tmaRelease raw, _⟩ => some (.release raw)

def ledger (heard : List TmaEvent) : List (LedgerEntry Ptr) := heard.filterMap ledgerEntry

theorem ledger_concat (heard : List TmaEvent) (e : TmaEvent) :
    ledger (heard ++ [e]) = ledger heard ++ (ledgerEntry e).toList := by
  rw [ledger, List.filterMap_append, ledger]
  cases h : ledgerEntry e with
  | none => simp [h]
  | some x => simp [h]

/-- A raw descriptor is not null, and whatever was at its address before has been released. -/
def Fresh (heard : List TmaEvent) : (c : TmaCall) → c.Answer → Prop
  | .tmaEncode _, (s, raw) => s = .ok →
    raw ≠ 0 ∧ (ledger heard).count (.acquire raw) = (ledger heard).count (.release raw)
  | .tmaRelease _, _ => True

def Hears (c : TmaCall) (heard : List TmaEvent) (r : c.Answer) (heard' : List TmaEvent) : Prop :=
  Fresh heard c r ∧ heard' = heard ++ [⟨c, r⟩]

/-- `heard` are the calls of the backend so far, with its answers. -/
structure TmaHistory where
  engine : TmaEngine := {}
  heard : List TmaEvent := []

inductive TmaHistory.Step (s : TmaHistory) : TmaHistory → Prop
  | encode (key : String) (a : EncodeArgs) (r : Status × Option TmaDescriptor) (e' : TmaEngine)
      (heard' : List TmaEvent) (h : Exec Hears (s.engine.encodeWith key a) s.heard (r, e') heard') :
      Step s ⟨e', heard'⟩
  | lookup (key : String) : Step s s
  | invalidate (key : String) (e' : TmaEngine) (heard' : List TmaEvent)
      (h : Exec Hears (s.engine.invalidate key) s.heard e' heard') : Step s ⟨e', heard'⟩

namespace TmaEngine

def raws (e : TmaEngine) : List Ptr := e.cache.entries.map fun p => p.2.raw

structure Holds (e : TmaEngine) (heard : List TmaEvent) (held : List Ptr) : Prop where
  settled : settle (ledger heard) = some held
  cached : held.Perm e.raws
  nonnull : ∀ p ∈ held, p ≠ 0

variable {e e' : TmaEngine} {heard heard' : List TmaEvent} {held : List Ptr} {key : String}

theorem raws_congr (h : e'.cache = e.cache) : e'.raws = e.raws := by
  rw [raws, raws, h]

theorem mem_raws {d : TmaDescriptor} (h : e.cache.find key = some d) : d.raw ∈ e.raws := by
  rw [raws, List.mem_map]
  exact ⟨(key, d), (e.cache.mem_entries key d).mpr h, rfl⟩

theorem raws_insert {d : TmaDescriptor} (hmiss : e.cache.find key = none)
    (h : e'.cache = e.cache.insert key d) : e'.raws = d.raw :: e.raws := by
  rw [raws, h, Table.entries_insert_fresh hmiss]
  rfl

theorem raws_erase {d : TmaDescriptor} (hhit : e.cache.find key = some d)
    (h : e'.cache = e.cache.erase key) : e.raws.Perm (d.raw :: e'.raws) := by
  rw [raws, raws, h]
  exact (Table.entries_erase_found hhit).map _

theorem encode_hears {a : EncodeArgs} {r : Status × Option TmaDescriptor}
    (h : Exec Hears (e.encodeWith key a) heard (r, e') heard') :
    (r.1 = .ok ∧ e' = e ∧ heard' = heard) ∨
      (r.1 ≠ .ok ∧ e'.cache = e.cache ∧ ledger heard' = ledger heard) ∨
      ∃ d, r.1 = .ok ∧ e.cache.find key = none ∧ e'.cache = e.cache.insert key d ∧ d.raw ≠ 0 ∧
        (ledger heard).count (.acquire d.raw) = (ledger heard).count (.release d.raw) ∧
        ledger heard' = ledger heard ++ [.acquire d.raw] := by
  rw [encodeWith, encode] at h
  cases hfind : e.cache.find key with
  | some d =>
    simp only [hfind] at h
    obtain ⟨hret, rfl⟩ := h
    obtain ⟨rfl, rfl⟩ := Prod.mk.inj hret
    exact .inl ⟨rfl, rfl, rfl⟩
  | none =>
    simp only [hfind] at h
    obtain ⟨⟨s, raw⟩, u, ⟨hfresh, rfl⟩, h⟩ := h
    by_cases hs : s = .ok
    · subst hs
      obtain ⟨hraw, hcount⟩ := hfresh rfl
      obtain ⟨hret, rfl⟩ := h
      obtain ⟨rfl, rfl⟩ := Prod.mk.inj hret
      exact .inr (.inr ⟨_, rfl, rfl, rfl, hraw, hcount, ledger_concat _ _⟩)
    · change Exec Hears (if !ok s then pure ((s, none), _) else _) _ _ _ at h
      rw [if_pos (by simpa using hs)] at h
      obtain ⟨hret, rfl⟩ := h
      obtain ⟨rfl, rfl⟩ := Prod.mk.inj hret
      refine .inr (.inl ⟨hs, rfl, ?_⟩)
      rw [ledger_concat, ledgerEntry, if_neg hs]
      exact List.append_nil _

theorem invalidate_hears (hnull : ∀ p ∈ e.raws, p ≠ 0)
    (h : Exec Hears (e.invalidate key) heard e' heard') :
    (e' = e ∧ heard' = heard) ∨ ∃ d, e.cache.find key = some d ∧ e'.cache = e.cache.erase key ∧
      ledger heard' = ledger heard ++ [.release d.raw] := by
  rw [invalidate] at h
  cases hfind : e.cache.find key with
  | none =>
    simp only [hfind] at h
    obtain ⟨rfl, rfl⟩ := h
    exact .inl ⟨rfl, rfl⟩
  | some d =>
    simp only [hfind] at h
    rw [if_pos (hnull _ (mem_raws hfind))] at h
    obtain ⟨_, _, ⟨_, rfl⟩, rfl, rfl⟩ := h
    exact .inr ⟨d, rfl, rfl, ledger_concat _ _⟩

theorem destructor_hears {u : Unit} (hnull : ∀ p ∈ e.raws, p ≠ 0)
    (h : Exec Hears e.destructor heard u heard') :
    ledger heard' = ledger heard ++ e.raws.map .release := by
  rw [destructor] at h
  rw [raws] at hnull ⊢
  generalize e.cache.entries = l at h hnull ⊢
  induction l generalizing heard with
  | nil =>
    obtain ⟨_, rfl⟩ := h
    exact (List.append_nil _).symm
  | cons p l ih =>
    change Exec Hears (_ >>= fun _ => l.forM _) _ _ _ at h
    rw [exec_bind] at h
    obtain ⟨_, heard₁, hrelease, hrest⟩ := h
    dsimp only at hrelease
    rw [if_pos (hnull _ (by simp))] at hrelease
    obtain ⟨_, _, ⟨_, rfl⟩, _, rfl⟩ := hrelease
    rw [ih hrest fun q hq => hnull q (List.mem_cons_of_mem _ hq), ledger_concat]
    simp [ledgerEntry]

theorem Holds.nonnull_raws (h : Holds e heard held) : ∀ p ∈ e.raws, p ≠ 0 :=
  fun p hp => h.nonnull p (h.cached.mem_iff.mpr hp)

theorem Holds.encode {a : EncodeArgs} {r : Status × Option TmaDescriptor}
    (h : Holds e heard held) (hexec : Exec Hears (e.encodeWith key a) heard (r, e') heard') :
    ∃ held', Holds e' heard' held' := by
  rcases encode_hears hexec with ⟨_, rfl, rfl⟩ | ⟨_, hcache, hledger⟩ |
    ⟨d, _, hmiss, hcache, hraw, hcount, hledger⟩
  · exact ⟨held, h⟩
  · refine ⟨held, ?_, ?_, h.nonnull⟩
    · rw [hledger]
      exact h.settled
    · rw [raws_congr hcache]
      exact h.cached
  · have hout : d.raw ∉ held := by
      have hheld := count_settle h.settled d.raw
      apply List.count_eq_zero.mp
      omega
    refine ⟨d.raw :: held, ?_, ?_, ?_⟩
    · rw [hledger]
      exact settle_acquire h.settled hout
    · rw [raws_insert hmiss hcache]
      exact h.cached.cons _
    · exact List.forall_mem_cons.mpr ⟨hraw, h.nonnull⟩

theorem Holds.invalidate (h : Holds e heard held)
    (hexec : Exec Hears (e.invalidate key) heard e' heard') : ∃ held', Holds e' heard' held' := by
  rcases invalidate_hears h.nonnull_raws hexec with ⟨rfl, rfl⟩ | ⟨d, hhit, hcache, hledger⟩
  · exact ⟨held, h⟩
  · have hperm : held.Perm (d.raw :: e'.raws) := h.cached.trans (raws_erase hhit hcache)
    have hin : d.raw ∈ held := hperm.mem_iff.mpr List.mem_cons_self
    refine ⟨held.erase d.raw, ?_, ?_, ?_⟩
    · rw [hledger]
      exact settle_release h.settled hin
    · have herased := hperm.erase d.raw
      rwa [List.erase_cons_head] at herased
    · exact fun p hp => h.nonnull p (List.mem_of_mem_erase hp)

end TmaEngine

open TmaEngine

theorem TmaHistory.Step.holds {s s' : TmaHistory} {held : List Ptr} (h : Step s s')
    (hheld : s.engine.Holds s.heard held) : ∃ held', s'.engine.Holds s'.heard held' := by
  cases h with
  | encode key a r e' heard' h => exact hheld.encode h
  | lookup key => exact ⟨held, hheld⟩
  | invalidate key e' heard' h => exact hheld.invalidate h

theorem TmaHistory.holds_run {s : TmaHistory} (hrun : Relation.ReflTransGen Step {} s) :
    ∃ held, s.engine.Holds s.heard held := by
  induction hrun with
  | refl => exact ⟨[], rfl, .nil, by simp⟩
  | tail _ hstep ih =>
    obtain ⟨held, hheld⟩ := ih
    exact hstep.holds hheld

theorem TmaHistory.raws_nodup {s : TmaHistory} (hrun : Relation.ReflTransGen Step {} s) :
    s.engine.raws.Nodup := by
  obtain ⟨held, hheld⟩ := holds_run hrun
  exact hheld.cached.nodup (nodup_settle hheld.settled)

theorem tmaHistory_settled (s : TmaHistory) (hrun : Relation.ReflTransGen TmaHistory.Step {} s) :
    (∃ held, settle (ledger s.heard) = some held ∧
      ∀ key d, s.engine.lookup key = some d → d.raw ∈ held) ∧
    (∀ key a status out e' heard',
      Exec Hears (s.engine.encodeWith key a) s.heard ((status, out), e') heard' →
        status ≠ .ok → e'.cache = s.engine.cache) ∧
    ∀ order (horder : order.Perm s.engine.cache.keys) u heard',
      Exec Hears { s.engine with cache := s.engine.cache.reorder order horder }.destructor s.heard u
        heard' →
      settle (ledger heard') = some [] ∧
        ∀ raw, (ledger heard').count (.release raw) = (ledger heard').count (.acquire raw) := by
  obtain ⟨held, hheld⟩ := TmaHistory.holds_run hrun
  refine ⟨⟨held, hheld.settled, ?_⟩, ?_, ?_⟩
  · intro key d hd
    apply hheld.cached.mem_iff.mpr
    exact mem_raws hd
  · intro key a status out e' heard' hexec hfails
    rcases encode_hears hexec with ⟨hok, _⟩ | ⟨_, hcache, _⟩ | ⟨_, hok, _⟩
    · exact absurd hok hfails
    · exact hcache
    · exact absurd hok hfails
  · intro order horder u heard' hexec
    have hperm : ({ s.engine with cache := s.engine.cache.reorder order horder } : TmaEngine).raws.Perm
        s.engine.raws := (Table.entries_reorder _ order horder).map _
    have hledger := destructor_hears
      (fun p hp => hheld.nonnull_raws p (hperm.mem_iff.mp hp)) hexec
    have hsettled : settle (ledger heard') = some [] := by
      rw [hledger]
      exact settle_releases hheld.settled (hperm.trans hheld.cached.symm)
    refine ⟨hsettled, fun raw => ?_⟩
    have hcount := count_settle hsettled raw
    rw [List.count_nil] at hcount
    omega

section Succeeding

variable {e : TmaEngine} {key : String}

theorem encode_makes (hmiss : e.cache.find key = none) (a : EncodeArgs) (heard : List TmaEvent)
    {raw : Ptr} (hraw : raw ≠ 0)
    (hcount : (ledger heard).count (.acquire raw) = (ledger heard).count (.release raw)) :
    ∃ r e' heard', Exec Hears (e.encodeWith key a) heard (r, e') heard' ∧
      ledger heard' = ledger heard ++ [.acquire raw] ∧
      ∃ d, e'.cache.find key = some d ∧ d.raw = raw := by
  rw [encodeWith, encode]
  simp only [hmiss]
  refine ⟨_, _, _, ⟨(.ok, raw), _, ⟨fun _ => ⟨hraw, hcount⟩, rfl⟩, rfl, rfl⟩, ledger_concat _ _, ?_⟩
  exact ⟨_, if_pos rfl, rfl⟩

theorem invalidate_releases {d : TmaDescriptor} (hhit : e.cache.find key = some d) (hraw : d.raw ≠ 0)
    (heard : List TmaEvent) : ∃ e' heard', Exec Hears (e.invalidate key) heard e' heard' ∧
      ledger heard' = ledger heard ++ [.release d.raw] ∧ e'.cache.find key = none := by
  rw [invalidate]
  simp only [hhit]
  rw [if_pos hraw]
  refine ⟨_, _, ⟨.ok, _, ⟨trivial, rfl⟩, rfl, rfl⟩, ledger_concat _ _, ?_⟩
  exact if_pos rfl

theorem destructor_ends (e : TmaEngine) (heard : List TmaEvent) :
    ∃ heard', Exec Hears e.destructor heard () heard' := by
  rw [destructor]
  induction e.cache.entries generalizing heard with
  | nil => exact ⟨heard, rfl, rfl⟩
  | cons p l ih =>
    by_cases hraw : p.2.raw = 0
    · obtain ⟨heard', h⟩ := ih heard
      refine ⟨heard', ?_⟩
      change Exec Hears (_ >>= fun _ => l.forM _) _ _ _
      rw [exec_bind]
      refine ⟨(), heard, ?_, h⟩
      simp [hraw]
    · obtain ⟨heard', h⟩ := ih (heard ++ [⟨.tmaRelease p.2.raw, .ok⟩])
      refine ⟨heard', ?_⟩
      change Exec Hears (_ >>= fun _ => l.forM _) _ _ _
      rw [exec_bind]
      refine ⟨(), _, ?_, h⟩
      dsimp only
      rw [if_pos hraw]
      exact ⟨.ok, _, ⟨trivial, rfl⟩, rfl, rfl⟩

end Succeeding

theorem tmaHistory_settled_again : ∃ s heard', Relation.ReflTransGen TmaHistory.Step {} s ∧
    ledger s.heard = [.acquire 0x40, .release 0x40, .acquire 0x40] ∧
    Exec Hears s.engine.destructor s.heard () heard' ∧ settle (ledger heard') = some [] := by
  have hnew : ({} : TmaEngine).cache.find "w" = none := rfl
  have hraw : (0x40 : Ptr) ≠ 0 := by decide
  obtain ⟨r, e₁, heard₁, hfirst, hledger₁, d, hd, hd'⟩ :=
    encode_makes hnew (weights 0x10000) [] hraw rfl
  obtain ⟨e₂, heard₂, hgone, hledger₂, hmiss⟩ := invalidate_releases hd (hd' ▸ hraw) heard₁
  rw [hledger₁, hd'] at hledger₂
  obtain ⟨r', e₃, heard₃, hsecond, hledger₃, _⟩ :=
    encode_makes hmiss (weights 0x20000) heard₂ hraw (by rw [hledger₂]; decide)
  rw [hledger₂] at hledger₃
  obtain ⟨heard', hend⟩ := destructor_ends e₃ heard₃
  have hrun : Relation.ReflTransGen TmaHistory.Step {} ⟨e₃, heard₃⟩ :=
    .tail (.tail (.single (.encode _ _ _ _ _ hfirst)) (.invalidate _ _ _ hgone))
      (.encode _ _ _ _ _ hsecond)
  obtain ⟨_, _, hsettled⟩ := tmaHistory_settled ⟨e₃, heard₃⟩ hrun
  exact ⟨_, heard', hrun, hledger₃, hend, (hsettled e₃.cache.keys (.refl _) () heard' hend).1⟩

end NexusRT.Firmware

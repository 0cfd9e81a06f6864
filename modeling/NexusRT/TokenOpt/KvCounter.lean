import NexusRT.TokenOpt.KvEviction

namespace NexusRT.TokenOpt.KvCache

variable {α : Type}

def lost (c c' : KvCache α) : List UInt32 :=
  (c.pages.holding KvPage.resident).filter (fun a => ¬ c'.IsResident a)

theorem residentCount_lt_of_size {c : KvCache α} (h : c.pages.size < 2 ^ 32) :
    c.residentCount < 2 ^ 32 := lt_of_le_of_lt List.countP_le_length h

theorem Counted.toNat_eq {c : KvCache α} (h : Counted c) (hsize : c.pages.size < 2 ^ 32) :
    c.resident.toNat = c.residentCount := by
  rw [h, UInt32.toNat_ofNat_of_lt' (residentCount_lt_of_size hsize)]

def KeepsPinned (c c' : KvCache α) : Prop :=
  ∀ a p, c.pages.find a = some p → p.resident = true → 0 < p.refcount → c'.IsResident a

theorem KeepsPinned.of_eq {c c' : KvCache α}
    (h : ∀ a p, c.pages.find a = some p → ∃ p', c'.pages.find a = some p' ∧ p'.resident = p.resident) :
    KeepsPinned c c' := by
  intro a p hp hresident _
  obtain ⟨p', hp', heq⟩ := h a p hp
  exact ⟨p', hp', heq.trans hresident⟩

section Evicted

variable [Zero α] {c c' : KvCache α} {victims : List UInt32}

theorem Evicted.isResident_iff (h : Evicted c victims c') (a : UInt32) :
    c'.IsResident a ↔ c.IsResident a ∧ a ∉ victims := by
  rw [IsResident, IsResident, h.find]
  by_cases ha : a ∈ victims
  · simp [ha]
  · simp [ha]

theorem Evicted.lost_perm (h : Evicted c victims c') (hnodup : victims.Nodup)
    (hvictims : ∀ a ∈ victims, a ∈ c.pages.holding KvPage.evictable) :
    (c.lost c').Perm victims := by
  have hlost : (c.lost c').Nodup := (c.pages.nodup_holding _).filter _
  rw [List.perm_ext_iff_of_nodup hlost hnodup]
  intro a
  rw [lost, List.mem_filter, mem_holding_resident, decide_eq_true_iff, h.isResident_iff]
  constructor
  · rintro ⟨hresident, hgone⟩
    by_contra hnot
    exact hgone ⟨hresident, hnot⟩
  · intro ha
    obtain ⟨p, hp, hevictable⟩ := (Table.mem_holding _ _ _).mp (hvictims a ha)
    exact ⟨⟨p, hp, evictable_resident hevictable⟩, fun hstay => hstay.2 ha⟩

theorem Evicted.keepsPinned (h : Evicted c victims c')
    (hvictims : ∀ a ∈ victims, a ∈ c.pages.holding KvPage.evictable) : KeepsPinned c c' := by
  intro a p hp hresident hpin
  rw [h.isResident_iff]
  refine ⟨⟨p, hp, hresident⟩, fun ha => ?_⟩
  obtain ⟨p', hp', hevictable⟩ := (Table.mem_holding _ _ _).mp (hvictims a ha)
  obtain rfl := Option.some.inj (hp.symm.trans hp')
  rw [(evictable_iff.mp hevictable).2] at hpin
  exact absurd hpin (by decide)

end Evicted

variable [LinearOrder α] [Zero α]

def EvictsExactly (held : Bool) (c : KvCache α) (n : UInt32) : Prop :=
  ∃ evicted c', c.evict .reentrant held n = some (evicted, c') ∧
    evicted.toNat = (c.lost c').length ∧ evicted.toNat ≤ c.resident.toNat ∧
      c'.resident.toNat = c.resident.toNat - evicted.toNat

theorem evictsExactly (held : Bool) {c : KvCache α} (hc : Counted c) (hsize : c.pages.size < 2 ^ 32)
    (n : UInt32) : EvictsExactly held c n := by
  have hev := c.evictAll_evicted n.toNat
  have hlost := (hev.lost_perm (c.nodup_victims _) (c.victims_holding _)).length_eq
  have hcount := hc.toNat_eq hsize
  have hlt := residentCount_lt_of_size hsize
  have hle : (c.victims n.toNat).length ≤ c.residentCount := by
    rw [length_victims]
    have hmono : c.unpinned ≤ c.residentCount := c.pages.count_mono fun _ => evictable_resident
    omega
  have hevicted : (UInt32.ofNat (c.victims n.toNat).length).toNat = (c.victims n.toNat).length := by
    rw [UInt32.toNat_ofNat']
    exact Nat.mod_eq_of_lt (by omega)
  refine ⟨_, _, c.evict_eq .reentrant (by cases held <;> rfl) n, ?_, ?_, ?_⟩
  · rw [hevicted, hlost]
  · rw [hevicted, hcount]
    exact hle
  · rw [hev.resident, UInt32.toNat_sub_of_le]
    rw [UInt32.le_iff_toNat_le, hevicted, hcount]
    exact hle

theorem seen_counted {c : KvCache α} (h : Counted c) (t : UInt32) (w : Option α) :
    Counted (c.seen t w) := by
  rw [Counted, seen_residentCount]
  exact h

theorem seen_keeps (c : KvCache α) (t : UInt32) (w : Option α) (a : UInt32) (p : KvPage α)
    (hp : c.pages.find a = some p) :
    ∃ p', (c.seen t w).pages.find a = some p' ∧ p'.resident = p.resident ∧ p'.refcount = p.refcount := by
  rw [seen, Table.find_insert]
  by_cases ha : a = c.page t
  · subst ha
    simp [hp]
  · simp [ha, hp]

theorem touch_keepsPinned {c c' : KvCache α} {t : UInt32} {w : Option α}
    (h : c.touch .reentrant false t w = some c') : KeepsPinned c c' := by
  intro a p hp hresident hpin
  obtain ⟨q, hq, hqresident, hqpin⟩ := c.seen_keeps t w a p hp
  by_cases hin : c.IsResident (c.page t)
  · rw [touch_hit _ w hin] at h
    obtain rfl := Option.some.inj h
    exact ⟨q, hq, hqresident.trans hresident⟩
  · rw [touch_miss _ w hin] at h
    have hbring (d : KvCache α) (hd : d.IsResident a) : (d.bringIn (c.page t)).IsResident a := by
      obtain ⟨r, hr, hrresident⟩ := hd
      by_cases ha : a = c.page t
      · exact ⟨{ r with resident := true }, by simp [bringIn, ← ha, hr], rfl⟩
      · exact ⟨r, by simp [bringIn, ha, hr], hrresident⟩
    have hseen : (c.seen t w).IsResident a := ⟨q, hq, hqresident.trans hresident⟩
    by_cases hfull : c.maxResident ≤ c.resident
    · rw [if_pos hfull, evict_eq .reentrant (by rfl)] at h
      obtain rfl := Option.some.inj h
      apply hbring
      have hev := (c.seen t w).evictAll_evicted c.evictionBand.toNat
      exact hev.keepsPinned ((c.seen t w).victims_holding _) a q hq (hqresident.trans hresident)
        (hqpin ▸ hpin)
    · rw [if_neg hfull] at h
      obtain rfl := Option.some.inj h
      exact hbring _ hseen

theorem call_keepsPinned {c c' : KvCache α} {x : KvCall α} (h : c.call .reentrant x = some c') :
    KeepsPinned c c' := by
  cases x with
  | touch t w => exact touch_keepsPinned h
  | evict n =>
    rw [call, evict_eq .reentrant (by rfl)] at h
    obtain rfl := Option.some.inj h
    exact (c.evictAll_evicted n.toNat).keepsPinned (c.victims_holding _)
  | pin t =>
    obtain rfl := Option.some.inj h
    apply KeepsPinned.of_eq
    intro a p hp
    by_cases ha : a = c.page t
    · subst ha
      exact ⟨{ p with refcount := p.refcount + 1 }, by simp [hp], rfl⟩
    · exact ⟨p, by simp [ha, hp], rfl⟩
  | unpin t =>
    simp only [call, unpin, lockGuard, Bool.false_eq_true, false_and, ↓reduceIte,
      Option.bind_eq_bind, Option.bind_some] at h
    split at h
    · obtain rfl := Option.some.inj h
      exact .of_eq fun a p hp => ⟨p, hp, rfl⟩
    · split at h
      · obtain rfl := Option.some.inj h
        apply KeepsPinned.of_eq
        intro a p hp
        by_cases ha : a = c.page t
        · subst ha
          exact ⟨{ p with refcount := p.refcount - 1 }, by simp [hp], rfl⟩
        · exact ⟨p, by simp [ha, hp], rfl⟩
      · obtain rfl := Option.some.inj h
        exact .of_eq fun a p hp => ⟨p, hp, rfl⟩

theorem counter_exact (maxResident pageSizeTokens evictionBand : UInt32) (calls : List (KvCall α)) :
    ∃ c : KvCache α, (new maxResident pageSizeTokens evictionBand).run .reentrant calls = some c ∧
      (c.pages.size < 2 ^ 32 → c.resident.toNat = c.residentCount ∧
        (∀ n, EvictsExactly false c n) ∧
        ∀ t w, (c.seen t w).pages.size < 2 ^ 32 →
          EvictsExactly true (c.seen t w) c.evictionBand) ∧
      ∀ x c', c.call .reentrant x = some c' → KeepsPinned c c' := by
  have hnew : Counted (new maxResident pageSizeTokens evictionBand : KvCache α) := rfl
  obtain ⟨c, hrun, _, hc⟩ := run_reentrant calls hnew
  refine ⟨c, hrun, fun hsize => ⟨hc.toNat_eq hsize, evictsExactly false hc hsize, ?_⟩,
    fun x c' h => call_keepsPinned h⟩
  exact fun t w hsize' => evictsExactly true (seen_counted hc t w) hsize' _

theorem counter_exact_overLimit : overLimit.resident.toNat = overLimit.residentCount ∧
    EvictsExactly false overLimit 2 ∧ EvictsExactly true (overLimit.seen 32 (some 1)) 1 ∧
    ∃ c', overLimit.call .reentrant (.evict 1) = some c' ∧ KeepsPinned overLimit c' := by
  obtain ⟨c, hrun, hexact, hkeeps⟩ := counter_exact 1 16 1 pinTouchUnpin
  obtain rfl := Option.some.inj (hrun.symm.trans run_overLimit)
  obtain ⟨hcount, hevict, hnested⟩ := hexact (by decide)
  obtain ⟨c', hcall⟩ := Option.isSome_iff_exists.mp
    (by decide : (overLimit.call .reentrant (.evict 1)).isSome = true)
  exact ⟨hcount, hevict 2, hnested 32 (some 1) (by decide), c', hcall, hkeeps _ c' hcall⟩

end NexusRT.TokenOpt.KvCache

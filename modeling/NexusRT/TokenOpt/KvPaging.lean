import NexusRT.Library.Align
import NexusRT.Library.Guarded
import NexusRT.TokenOpt.KvEviction

namespace NexusRT.TokenOpt.KvCache

variable {α : Type}

def Labelled (c : KvCache α) : Prop := ∀ k p, c.pages.find k = some p → p.firstTokenIndex = k

structure Paged (c : KvCache α) : Prop where
  aligned : ∀ t, c.pageSizeTokens.toNat ∣ (c.page t).toNat
  covers : ∀ t, (c.page t).toNat ≤ t.toNat ∧ t.toNat < (c.page t).toNat + c.pageSizeTokens.toNat
  shared : ∀ s t, c.page s = c.page t ↔
    s.toNat / c.pageSizeTokens.toNat = t.toNat / c.pageSizeTokens.toNat
  labelled : Labelled c

section Page

variable {c : KvCache α}

theorem page_toNat (h : c.pageSizeTokens.toNat.isPowerOfTwo) (t : UInt32) :
    (c.page t).toNat = t.toNat / c.pageSizeTokens.toNat * c.pageSizeTokens.toNat := by
  obtain ⟨k, hk⟩ := h
  rw [hk]
  exact Align.toNat_alignDownBits t.toBitVec c.pageSizeTokens.toBitVec hk

theorem page_size (hsize : 1 ≤ c.pageSizeTokens.toNat)
    (haligned : ∀ t, c.pageSizeTokens.toNat ∣ (c.page t).toNat)
    (hcovers : ∀ t, (c.page t).toNat ≤ t.toNat ∧
      t.toNat < (c.page t).toNat + c.pageSizeTokens.toNat) :
    c.pageSizeTokens.toNat.isPowerOfTwo := by
  -- the token with the index `pageSizeTokens` starts a page
  obtain ⟨m, hm⟩ := haligned c.pageSizeTokens
  obtain ⟨hle, hlt⟩ := hcovers c.pageSizeTokens
  have hone : m = 1 := by
    rw [hm] at hle hlt
    have hlow : 0 < m := by
      apply Nat.pos_of_ne_zero
      rintro rfl
      omega
    have hhigh : m ≤ 1 := Nat.le_of_mul_le_mul_left (by omega) hsize
    omega
  rw [hone, Nat.mul_one] at hm
  exact Align.isPowerOfTwo_of_clear (p := c.pageSizeTokens.toBitVec) (Nat.ne_of_gt hsize) hm

theorem paged_iff (hsize : 1 ≤ c.pageSizeTokens.toNat) :
    Paged c ↔ c.pageSizeTokens.toNat.isPowerOfTwo ∧ Labelled c := by
  constructor
  · exact fun h => ⟨page_size hsize h.aligned h.covers, h.labelled⟩
  · rintro ⟨hpow, hlabelled⟩
    have hpage := page_toNat hpow
    refine ⟨fun t => ?_, fun t => ?_, fun s t => ?_, hlabelled⟩
    · rw [hpage]
      exact Nat.dvd_mul_left _ _
    · have hdiv := Nat.div_add_mod t.toNat c.pageSizeTokens.toNat
      have hmod := Nat.mod_lt t.toNat hsize
      rw [Nat.mul_comm] at hdiv
      rw [hpage]
      omega
    · rw [← UInt32.toNat_inj, hpage, hpage]
      exact Nat.mul_left_inj (Nat.ne_of_gt hsize)

end Page

def owner (p : KvPage α) : UInt32 × UInt32 := (p.firstTokenIndex, p.refcount)

def SameOwners (c c' : KvCache α) (k : UInt32) : Prop :=
  (c'.pages.find k).map owner = (c.pages.find k).map owner

def tokenOf : KvCall α → Option UInt32
  | .touch t _ => some t
  | .evict _ => none
  | .pin t => some t
  | .unpin t => some t

def Labels (c : KvCache α) : KvCall α → Prop
  | .pin t => c.pages.find (c.page t) ≠ none ∨ c.page t = 0
  | _ => True

def LabelInv (pageSizeTokens : UInt32) (c : KvCache α) : Prop :=
  Labelled c ∧ c.pageSizeTokens = pageSizeTokens

theorem labelInv_new (maxResident pageSizeTokens evictionBand : UInt32) :
    LabelInv pageSizeTokens (new maxResident pageSizeTokens evictionBand : KvCache α) := by
  refine ⟨fun k p hp => ?_, rfl⟩
  cases hp

section Owners

variable {c c' : KvCache α}

theorem labelled_of_owners (hc : Labelled c) {k : UInt32} (h : SameOwners c c' k) {p : KvPage α}
    (hp : c'.pages.find k = some p) : p.firstTokenIndex = k := by
  rw [SameOwners, hp, Option.map_some] at h
  obtain ⟨q, hq, howner⟩ := Option.map_eq_some_iff.mp h.symm
  have hfirst : q.firstTokenIndex = p.firstTokenIndex := congrArg Prod.fst howner
  rw [← hfirst]
  exact hc k q hq

end Owners

section Updates

variable [Zero α] {c c' : KvCache α} {kind : MutexKind}

def Acts (k : UInt32) : KvCall α → Option (KvPage α) → Option (KvPage α) → Prop
  | .touch _ _, o, o' => ∃ p, o' = some p ∧ p.firstTokenIndex = k ∧ p.resident = true ∧
    p.refcount = (o.getD .init).refcount
  | .evict _, _, _ => True
  | .pin _, o, o' => o' = some { o.getD .init with refcount := (o.getD .init).refcount + 1 }
  | .unpin _, o, o' =>
    o' = o.map fun p => if 0 < p.refcount then { p with refcount := p.refcount - 1 } else p

structure ActsOn (c : KvCache α) (x : KvCall α) (t : UInt32) (c' : KvCache α) : Prop where
  size : c'.pageSizeTokens = c.pageSizeTokens
  acts : Acts (c.page t) x (c.pages.find (c.page t)) (c'.pages.find (c.page t))
  others : ∀ k, k ≠ c.page t → SameOwners c c' k

theorem ActsOn.labelled_iff {x : KvCall α} {t : UInt32} (h : ActsOn c x t c') (hc : Labelled c) :
    Labelled c' ↔ ∀ p, c'.pages.find (c.page t) = some p → p.firstTokenIndex = c.page t := by
  constructor
  · exact fun hc' p hp => hc' _ p hp
  · intro hat k p hp
    by_cases hk : k = c.page t
    · subst hk
      exact hat p hp
    · exact labelled_of_owners hc (h.others k hk) hp

theorem Evicted.sameOwners {victims : List UInt32} (h : Evicted c victims c') (k : UInt32) :
    SameOwners c c' k := by
  rw [SameOwners, h.find]
  split
  · rw [Option.map_map]
    rfl
  · rfl

theorem pin_acts {t : UInt32} (h : c.pin kind false t = some c') : ActsOn c (.pin t) t c' := by
  simp only [pin, lockGuard, Bool.false_eq_true, false_and, ↓reduceIte, Option.bind_eq_bind,
    Option.bind_some] at h
  obtain rfl := Option.some.inj h
  refine ⟨rfl, by simp [Acts], fun k hk => ?_⟩
  simp [SameOwners, hk]

theorem unpin_acts {t : UInt32} (h : c.unpin kind false t = some c') : ActsOn c (.unpin t) t c' := by
  simp only [unpin, lockGuard, Bool.false_eq_true, false_and, ↓reduceIte, Option.bind_eq_bind,
    Option.bind_some] at h
  cases hfind : c.pages.find (c.page t) with
  | none =>
    rw [hfind] at h
    obtain rfl := Option.some.inj h
    exact ⟨rfl, by simp [Acts, hfind], fun _ _ => rfl⟩
  | some p =>
    simp only [hfind] at h
    by_cases hpin : 0 < p.refcount
    · rw [if_pos hpin] at h
      obtain rfl := Option.some.inj h
      refine ⟨rfl, by simp [Acts, hfind, hpin], fun k hk => ?_⟩
      simp [SameOwners, hk]
    · rw [if_neg hpin] at h
      obtain rfl := Option.some.inj h
      exact ⟨rfl, by simp [Acts, hfind, hpin], fun _ _ => rfl⟩

end Updates

variable [LinearOrder α] [Zero α]

section Calls

variable {c c' : KvCache α} {kind : MutexKind}

theorem evict_evicted {held : Bool} {n e : UInt32} (h : c.evict kind held n = some (e, c')) :
    Evicted c (c.victims n.toNat) c' := by
  by_cases hlock : lockGuard kind held = some true
  · rw [evict_eq kind hlock] at h
    obtain ⟨_, rfl⟩ := Prod.mk.inj (Option.some.inj h)
    exact c.evictAll_evicted n.toNat
  · have hnone : lockGuard kind held = none := by
      simp only [lockGuard] at hlock ⊢
      split
      · rfl
      · next hfree => exact absurd (if_neg hfree) hlock
    simp [evict, hnone] at h

theorem touch_acts {t : UInt32} {w : Option α} (h : c.touch kind false t w = some c') :
    ActsOn c (.touch t w) t c' := by
  have hoff : ∀ k, k ≠ c.page t → (c.seen t w).pages.find k = c.pages.find k := by
    intro k hk
    rw [seen, Table.find_insert, if_neg hk]
  have hseen : ∃ p, (c.seen t w).pages.find (c.page t) = some p ∧ p.firstTokenIndex = c.page t ∧
      p.refcount = ((c.pages.find (c.page t)).getD .init).refcount ∧
      p.resident = ((c.pages.find (c.page t)).getD .init).resident := by
    refine ⟨_, by rw [seen, Table.find_insert, if_pos rfl], ?_, ?_, ?_⟩ <;> rfl
  obtain ⟨p, hp, hfirst, hrefcount, hresident⟩ := hseen
  by_cases hin : c.IsResident (c.page t)
  · rw [touch_hit _ w hin] at h
    obtain rfl := Option.some.inj h
    obtain ⟨q, hq, hqresident⟩ := hin
    rw [hq, Option.getD_some, hqresident] at hresident
    exact ⟨rfl, ⟨p, hp, hfirst, hresident, hrefcount⟩, fun k hk => congrArg _ (hoff k hk)⟩
  · rw [touch_miss _ w hin] at h
    have hbring {d : KvCache α} (hsize : d.pageSizeTokens = c.pageSizeTokens)
        (hd : d.pages.find (c.page t) = some p) (hothers : ∀ k, SameOwners (c.seen t w) d k) :
        ActsOn c (.touch t w) t (d.bringIn (c.page t)) := by
      refine ⟨hsize, ⟨{ p with resident := true }, by simp [bringIn, hd], hfirst, rfl, hrefcount⟩, ?_⟩
      intro k hk
      have hsame := hothers k
      rw [SameOwners, hoff k hk] at hsame
      simpa [SameOwners, bringIn, hk] using hsame
    by_cases hfull : c.maxResident ≤ c.resident
    · rw [if_pos hfull, Option.map_map, Option.map_eq_some_iff] at h
      obtain ⟨⟨e, d⟩, heq, rfl⟩ := h
      have hev := evict_evicted heq
      apply hbring hev.limits.pageSizeTokens ?_ hev.sameOwners
      rw [hev.find, if_neg, hp]
      intro hmem
      obtain ⟨q, hq, hevictable⟩ := (Table.mem_holding _ _ _).mp (victims_holding _ _ _ hmem)
      obtain ⟨r, hr, hnot⟩ := seen_not_resident w hin
      obtain rfl := Option.some.inj (hq.symm.trans hr)
      rw [evictable_resident hevictable] at hnot
      cases hnot
    · rw [if_neg hfull] at h
      obtain rfl := Option.some.inj h
      exact hbring rfl hp fun k => rfl

theorem call_acts {x : KvCall α} {t : UInt32} (hx : tokenOf x = some t)
    (h : c.call kind x = some c') : ActsOn c x t c' := by
  cases x with
  | touch t' w =>
    obtain rfl := Option.some.inj hx
    exact touch_acts h
  | evict n => cases hx
  | pin t' =>
    obtain rfl := Option.some.inj hx
    exact pin_acts h
  | unpin t' =>
    obtain rfl := Option.some.inj hx
    exact unpin_acts h

theorem call_labelled_iff {x : KvCall α} (hc : Labelled c) (h : c.call kind x = some c') :
    Labelled c' ↔ Labels c x := by
  cases x with
  | touch t w =>
    have hacts := touch_acts h
    obtain ⟨p, hp, hfirst, _⟩ := hacts.acts
    rw [hacts.labelled_iff hc, hp]
    refine iff_of_true ?_ trivial
    rintro _ ⟨⟩
    exact hfirst
  | evict n =>
    rw [call, Option.map_eq_some_iff] at h
    obtain ⟨⟨e, d⟩, heq, rfl⟩ := h
    refine iff_of_true (fun k p hp => ?_) trivial
    exact labelled_of_owners hc ((evict_evicted heq).sameOwners k) hp
  | pin t =>
    have hacts := pin_acts h
    have hpin : c'.pages.find (c.page t) = _ := hacts.acts
    rw [hacts.labelled_iff hc, hpin]
    cases hfind : c.pages.find (c.page t) with
    | none => simp [Labels, hfind, KvPage.init, eq_comm]
    | some q => simp [Labels, hfind, hc _ q hfind]
  | unpin t =>
    have hacts := unpin_acts h
    have hunpin : c'.pages.find (c.page t) = _ := hacts.acts
    rw [hacts.labelled_iff hc, hunpin]
    refine iff_of_true (fun p hp => ?_) trivial
    obtain ⟨q, hq, rfl⟩ := Option.map_eq_some_iff.mp hp
    have hfirst := hc _ q hq
    split
    · exact hfirst
    · exact hfirst

theorem call_size {x : KvCall α} (h : c.call kind x = some c') :
    c'.pageSizeTokens = c.pageSizeTokens := by
  cases x with
  | touch t w => exact (touch_acts h).size
  | evict n =>
    rw [call, Option.map_eq_some_iff] at h
    obtain ⟨⟨e, d⟩, heq, rfl⟩ := h
    exact (evict_evicted heq).limits.pageSizeTokens
  | pin t => exact (pin_acts h).size
  | unpin t => exact (unpin_acts h).size

end Calls

def CallStep (kind : MutexKind) (c : KvCache α) (x : KvCall α) (c' : KvCache α) : Prop :=
  c.call kind x = some c'

theorem labels_exact (kind : MutexKind) (pageSizeTokens : UInt32) :
    ExactGuard (CallStep kind) Labels (LabelInv (α := α) pageSizeTokens)
      (LabelInv pageSizeTokens) := by
  apply ExactGuard.of_iff fun _ h => h
  intro c x c' h hstep
  have hiff := call_labelled_iff h.1 hstep
  have hsize := (call_size hstep).trans h.2
  exact ⟨⟨fun hgood => hiff.mp hgood.1, fun hlabels => ⟨hiff.mpr hlabels, hsize⟩⟩,
    fun hlabels => ⟨hiff.mpr hlabels, hsize⟩⟩

theorem paged_run (kind : MutexKind) (maxResident pageSizeTokens evictionBand : UInt32)
    (hsize : 1 ≤ pageSizeTokens) (c : KvCache α)
    (hrun : GuardedRun (CallStep kind) Labels (new maxResident pageSizeTokens evictionBand) c) :
    (Paged c ↔ pageSizeTokens.toNat.isPowerOfTwo) ∧ ∀ x c', c.call kind x = some c' →
      (Paged c' ↔ pageSizeTokens.toNat.isPowerOfTwo ∧ Labels c x) ∧
        ∀ t, tokenOf x = some t → ActsOn c x t c' := by
  have hinv := hrun.inv (labels_exact kind pageSizeTokens) (labelInv_new _ _ _)
  have hpos : 1 ≤ pageSizeTokens.toNat := UInt32.le_iff_toNat_le.mp hsize
  refine ⟨?_, fun x c' hcall => ⟨?_, fun t ht => call_acts ht hcall⟩⟩
  · rw [paged_iff (hinv.2 ▸ hpos), hinv.2, and_iff_left hinv.1]
  · have hsize' := (call_size hcall).trans hinv.2
    rw [paged_iff (hsize' ▸ hpos), hsize', call_labelled_iff hinv.1 hcall]

def pinned : KvCache ℤ := ((new 4 16 1).run .nonRecursive [.pin 16]).get (by decide)

theorem pin_not_labels : ¬ Labels (new 4 16 1 : KvCache ℤ) (.pin 16) := by
  rintro (hfound | hzero)
  · exact hfound rfl
  · exact absurd hzero (by decide)

theorem paged_run_pinned : Paged (new 4 16 1 : KvCache ℤ) ∧ ¬ Paged pinned := by
  obtain ⟨hnew, hstep⟩ := paged_run (α := ℤ) .nonRecursive 4 16 1 (by decide) _ .refl
  have hpow : (16 : UInt32).toNat.isPowerOfTwo := ⟨4, rfl⟩
  have hcall : (new 4 16 1 : KvCache ℤ).call .nonRecursive (.pin 16) = some pinned := rfl
  exact ⟨hnew.mpr hpow, fun hpaged => pin_not_labels ((hstep _ _ hcall).1.mp hpaged).2⟩

theorem not_paged : ¬ ∀ (kind : MutexKind) (maxResident pageSizeTokens evictionBand : UInt32)
    (calls : List (KvCall ℤ)) (c : KvCache ℤ), 1 ≤ pageSizeTokens →
    (new maxResident pageSizeTokens evictionBand).run kind calls = some c → Paged c := by
  intro hall
  have hpaged := hall .nonRecursive 4 16 1 [.pin 16] pinned (by decide) rfl
  have hlabel := hpaged.labelled 16 { KvPage.init with refcount := 1 } rfl
  exact absurd hlabel (by decide)

end NexusRT.TokenOpt.KvCache

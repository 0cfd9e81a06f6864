import Mathlib.Data.UInt
import Mathlib.Data.Fintype.Card
import NexusRT.TokenOpt.KvCache

namespace NexusRT.TokenOpt

variable {α : Type}

def KvPage.evictable (p : KvPage α) : Bool := p.resident && p.refcount == 0

namespace KvCache

def residentCount (c : KvCache α) : ℕ := c.pages.count KvPage.resident

def unpinned (c : KvCache α) : ℕ := c.pages.count KvPage.evictable

def Counted (c : KvCache α) : Prop := c.resident = UInt32.ofNat c.residentCount

def IsResident (c : KvCache α) (a : UInt32) : Prop :=
  ∃ p, c.pages.find a = some p ∧ p.resident = true

theorem isResident_iff (c : KvCache α) (a : UInt32) :
    c.IsResident a ↔ (c.pages.find a).any KvPage.resident = true := by
  rw [IsResident, Option.any_eq_true]

instance (c : KvCache α) (a : UInt32) : Decidable (c.IsResident a) :=
  decidable_of_iff _ (c.isResident_iff a).symm

theorem mem_holding_resident (c : KvCache α) (a : UInt32) :
    a ∈ c.pages.holding KvPage.resident ↔ c.IsResident a := c.pages.mem_holding _ a

theorem evictable_resident {p : KvPage α} (h : p.evictable = true) : p.resident = true := by
  rw [KvPage.evictable, Bool.and_eq_true] at h
  exact h.1

theorem evictable_eq_false {p : KvPage α} :
    p.evictable = false ↔ (p.resident = true → 0 < p.refcount) := by
  rw [KvPage.evictable]
  cases p.resident with
  | false => simp
  | true => simp [UInt32.pos_iff_ne_zero]

theorem residentCount_lt {c : KvCache α} {a : UInt32} (h : ¬ c.IsResident a) :
    c.residentCount < 2 ^ 32 := by
  have hnodup : (a :: c.pages.holding KvPage.resident).Nodup := by
    apply List.nodup_cons.mpr
    exact ⟨fun hmem => h ((c.mem_holding_resident a).mp hmem), c.pages.nodup_holding _⟩
  have hmap := hnodup.map (f := UInt32.toFin) fun x y hxy => UInt32.toFin_inj.mp hxy
  have hcard := hmap.length_le_card
  rw [List.length_map, List.length_cons, Table.length_holding, Fintype.card_fin] at hcard
  exact hcard

theorem Counted.toNat {c : KvCache α} {a : UInt32} (h : Counted c) (ha : ¬ c.IsResident a) :
    c.resident.toNat = c.residentCount := by
  rw [h, UInt32.toNat_ofNat_of_lt' (residentCount_lt ha)]

theorem evictable_iff {p : KvPage α} : p.evictable = true ↔ p.resident = true ∧ p.refcount = 0 := by
  simp [KvPage.evictable]

theorem cands_snd (c : KvCache α) : c.cands.map Prod.snd = c.pages.holding KvPage.evictable := by
  rw [cands]
  apply Table.map_filterMap_entries
  intro a p
  simp only [evictable_iff]
  split <;> rfl

theorem Counted.of_le {c c' : KvCache α} {e k : ℕ} (h : Counted c)
    (hresident : c'.resident = c.resident - UInt32.ofNat e + UInt32.ofNat k)
    (hcount : c'.residentCount + e = c.residentCount + k) : Counted c' := by
  have hsum := congrArg UInt32.ofNat hcount
  rw [UInt32.ofNat_add, UInt32.ofNat_add, ← h] at hsum
  rw [Counted, hresident]
  grind

def bringIn (c : KvCache α) (a : UInt32) : KvCache α :=
  { c with
    pages := c.pages.modify a (fun p => { p with resident := true })
    resident := c.resident + 1 }

def OthersPinned (c : KvCache α) (a : UInt32) : Prop :=
  ∀ b p, b ≠ a → c.pages.find b = some p → p.resident = true → 0 < p.refcount

theorem othersPinned_bringIn {c : KvCache α} {a : UInt32} {p : KvPage α}
    (hp : c.pages.find a = some p) (hresident : p.resident = false) :
    OthersPinned (c.bringIn a) a ↔ c.unpinned = 0 := by
  rw [unpinned, Table.count_eq_zero]
  constructor
  · intro h b p' hb
    by_cases hba : b = a
    · subst hba
      obtain rfl := Option.some.inj (hp.symm.trans hb)
      simp [KvPage.evictable, hresident]
    · exact evictable_eq_false.mpr (h b p' hba (by simpa [bringIn, hba] using hb))
  · intro h b p' hba hb
    exact evictable_eq_false.mp (h b p' (by simpa [bringIn, hba] using hb))

theorem residentCount_bringIn {c : KvCache α} {a : UInt32} {p : KvPage α}
    (hp : c.pages.find a = some p) (hresident : p.resident = false) :
    (c.bringIn a).residentCount = c.residentCount + 1 := by
  have hoff := Table.count_of_find_off (t := c.pages) (u := (c.bringIn a).pages) a
    (fun b hb => by simp [bringIn, hb]) KvPage.resident
  simpa [bringIn, hp, hresident, residentCount] using hoff

structure SameLimits (c c' : KvCache α) : Prop where
  maxResident : c'.maxResident = c.maxResident
  pageSizeTokens : c'.pageSizeTokens = c.pageSizeTokens
  evictionBand : c'.evictionBand = c.evictionBand

structure BroughtIn (c : KvCache α) (a : UInt32) (e : ℕ) (c' : KvCache α) : Prop where
  limits : SameLimits c c'
  resident : c'.resident = c.resident - UInt32.ofNat e + 1
  count : c'.residentCount + e = c.residentCount + 1
  others : OthersPinned c' a ↔ c.unpinned = e

def room (c : KvCache α) : ℕ :=
  if c.maxResident ≤ c.resident then min c.evictionBand.toNat c.unpinned else 0

theorem BroughtIn.bound_iff {c c' : KvCache α} {a : UInt32} (h : BroughtIn c a c.room c')
    (hc : Counted c) (ha : ¬ c.IsResident a) (hband : 1 ≤ c.evictionBand.toNat) :
    (c'.resident ≤ c'.maxResident ∨ OthersPinned c' a) ↔
      c.resident.toNat < c.maxResident.toNat + c.evictionBand.toNat ∨
        c.unpinned ≤ c.evictionBand.toNat := by
  have hcount := hc.toNat ha
  have hlt := residentCount_lt ha
  have hmax := c.maxResident.toNat_lt
  have hsum := h.count
  have hresident : c'.resident.toNat = c'.residentCount % 2 ^ 32 := by
    have hcounted : Counted c' := hc.of_le (k := 1) h.resident h.count
    rw [hcounted, UInt32.toNat_ofNat']
  have hle : c.unpinned ≤ c.residentCount := c.pages.count_mono fun _ => evictable_resident
  rw [UInt32.le_iff_toNat_le, hresident, h.limits.maxResident, h.others]
  by_cases hfull : c.maxResident.toNat ≤ c.resident.toNat
  · have hroom : c.room = min c.evictionBand.toNat c.unpinned := if_pos hfull
    rw [hroom] at hsum ⊢
    rcases Nat.lt_or_ge c'.residentCount (2 ^ 32) with hfits | hwrap
    · rw [Nat.mod_eq_of_lt hfits]
      omega
    · -- Every page number is resident, so nothing was evicted and nothing is unpinned.
      omega
  · have hroom : c.room = 0 := if_neg hfull
    rw [hroom] at hsum ⊢
    rw [Nat.mod_eq_of_lt (by omega)]
    omega

variable [Zero α]

structure Evicted (c : KvCache α) (victims : List UInt32) (c' : KvCache α) : Prop where
  limits : SameLimits c c'
  resident : c'.resident = c.resident - UInt32.ofNat victims.length
  find : ∀ a, c'.pages.find a = if a ∈ victims
    then (c.pages.find a).map (fun p => { p with resident := false, lastAttention := 0 })
    else c.pages.find a

theorem Evicted.count {c c' : KvCache α} {victims : List UInt32} (h : Evicted c victims c')
    (hnodup : victims.Nodup) (hvictims : ∀ a ∈ victims, a ∈ c.pages.holding KvPage.evictable)
    {q : KvPage α → Bool} (hon : ∀ p, p.evictable = true → q p = true)
    (hoff : ∀ p, q p = true → p.resident = true) :
    c'.pages.count q + victims.length = c.pages.count q := by
  apply Table.count_of_removed hnodup
  · intro a ha
    obtain ⟨p, hp, hevictable⟩ := (Table.mem_holding _ _ _).mp (hvictims a ha)
    exact (Table.mem_holding _ _ _).mpr ⟨p, hp, hon p hevictable⟩
  · intro a
    rw [Table.mem_holding, Table.mem_holding, h.find]
    by_cases ha : a ∈ victims
    · have hnot (p : KvPage α) : q { p with resident := false, lastAttention := 0 } = false := by
        apply Bool.eq_false_iff.mpr
        intro hq
        simpa using hoff _ hq
      simp [ha, hnot]
    · simp [ha]

theorem evictLoop_evicted (l : List (α × UInt32)) (e : UInt32) (c : KvCache α) :
    (evictLoop l e c).1 = e + UInt32.ofNat l.length ∧
      Evicted c (l.map Prod.snd) (evictLoop l e c).2 := by
  induction l generalizing e c with
  | nil => exact ⟨by simp [evictLoop], ⟨rfl, rfl, rfl⟩, by simp [evictLoop], by simp [evictLoop]⟩
  | cons x xs ih =>
    obtain ⟨hcount, ⟨hmax, hsize, hband⟩, hresident, hfind⟩ := ih (e + 1) (c.evictPage x.2)
    rw [evictLoop]
    refine ⟨?_, ⟨hmax, hsize, hband⟩, ?_, fun a => ?_⟩
    · rw [hcount, List.length_cons, UInt32.ofNat_add, UInt32.add_assoc, UInt32.add_comm 1]
      rfl
    · rw [hresident, evictPage, List.map_cons, List.length_cons, UInt32.ofNat_add]
      grind
    · rw [hfind, evictPage]
      by_cases hx : a = x.2
      · subst hx
        split <;> simp [Function.comp_def]
      · simp only [Table.find_modify, hx, ↓reduceIte, List.map_cons, List.mem_cons, false_or]

variable [LinearOrder α]

theorem evict_spec (kind : MutexKind) (held : Bool) (c : KvCache α) (n : UInt32)
    (hlock : lockGuard kind held = some true) :
    ∃ victims c', c.evict kind held n = some (UInt32.ofNat victims.length, c') ∧
      Evicted c victims c' ∧ victims.Nodup ∧
      (∀ a ∈ victims, a ∈ c.pages.holding KvPage.evictable) ∧
      victims.length = min n.toNat c.unpinned := by
  let sorted := c.cands.insertionSort pairLe
  have hperm : (sorted.map Prod.snd).Perm (c.pages.holding KvPage.evictable) := by
    rw [← cands_snd]
    exact (List.perm_insertionSort _ _).map _
  obtain ⟨hcount, hevicted⟩ := evictLoop_evicted (sorted.take n.toNat) 0 c
  have hsub : ((sorted.take n.toNat).map Prod.snd).Sublist (sorted.map Prod.snd) :=
    (List.take_sublist _ _).map _
  refine ⟨(sorted.take n.toNat).map Prod.snd, (evictLoop (sorted.take n.toNat) 0 c).2, ?_, hevicted,
    ?_, fun a ha => hperm.mem_iff.mp (hsub.subset ha), ?_⟩
  · rw [List.length_map, ← UInt32.zero_add (UInt32.ofNat _), ← hcount]
    simp only [evict, hlock]
    rfl
  · exact hsub.nodup (hperm.nodup_iff.mpr (c.pages.nodup_holding _))
  · have hlength := hperm.length_eq
    rw [List.length_map, Table.length_holding] at hlength
    rw [List.length_map, List.length_take, hlength]
    rfl

def seen (c : KvCache α) (t : UInt32) (w : Option α) : KvCache α :=
  let p := (c.pages.find (c.page t)).getD .init
  { c with pages := c.pages.insert (c.page t) { p with
      firstTokenIndex := c.page t
      lastAttention := stdMax p.lastAttention w } }

theorem touch_hit (kind : MutexKind) {c : KvCache α} {t : UInt32} (w : Option α)
    (h : c.IsResident (c.page t)) : c.touch kind false t w = some (c.seen t w) := by
  obtain ⟨p, hp, hresident⟩ := h
  simp [touch, lockGuard, seen, hp, hresident]

theorem touch_miss (kind : MutexKind) {c : KvCache α} {t : UInt32} (w : Option α)
    (h : ¬ c.IsResident (c.page t)) : c.touch kind false t w =
      (if c.maxResident ≤ c.resident then ((c.seen t w).evict kind true c.evictionBand).map Prod.snd
        else some (c.seen t w)).map (fun c' => c'.bringIn (c.page t)) := by
  have hp : ((c.pages.find (c.page t)).getD .init).resident = false := by
    cases hfind : c.pages.find (c.page t) with
    | none => rfl
    | some p => exact Bool.eq_false_iff.mpr fun hresident => h ⟨p, hfind, hresident⟩
  simp only [touch, lockGuard, Bool.false_eq_true, false_and, ↓reduceIte, hp, seen,
    Option.bind_eq_bind, Option.bind_some]
  split
  · exact Option.map_eq_bind.symm
  · rfl

theorem seen_count (c : KvCache α) (t : UInt32) (w : Option α) {q : KvPage α → Bool}
    (hq : ∀ p : KvPage α, q { p with
      firstTokenIndex := c.page t
      lastAttention := stdMax p.lastAttention w } = q p) (hinit : q .init = false) :
    (c.seen t w).pages.count q = c.pages.count q := by
  exact c.pages.count_insert_getD _ _ hq hinit

theorem seen_residentCount (c : KvCache α) (t : UInt32) (w : Option α) :
    (c.seen t w).residentCount = c.residentCount := c.seen_count t w (fun _ => rfl) rfl

theorem seen_unpinned (c : KvCache α) (t : UInt32) (w : Option α) :
    (c.seen t w).unpinned = c.unpinned := c.seen_count t w (fun _ => rfl) rfl

theorem seen_not_resident {c : KvCache α} {t : UInt32} (w : Option α)
    (h : ¬ c.IsResident (c.page t)) :
    ∃ p, (c.seen t w).pages.find (c.page t) = some p ∧ p.resident = false := by
  refine ⟨_, by rw [seen, Table.find_insert, if_pos rfl], ?_⟩
  cases hfind : c.pages.find (c.page t) with
  | none => rfl
  | some p => exact Bool.eq_false_iff.mpr fun hresident => h ⟨p, hfind, hresident⟩

theorem broughtIn_of_evicted {c c' : KvCache α} {t : UInt32} (w : Option α)
    (h : ¬ c.IsResident (c.page t)) {victims : List UInt32} (hev : Evicted (c.seen t w) victims c')
    (hnodup : victims.Nodup)
    (hvictims : ∀ a ∈ victims, a ∈ (c.seen t w).pages.holding KvPage.evictable) :
    BroughtIn c (c.page t) victims.length (c'.bringIn (c.page t)) := by
  obtain ⟨p, hp, hresident⟩ := seen_not_resident w h
  have hstay : c'.pages.find (c.page t) = some p := by
    rw [hev.find, if_neg, hp]
    intro hmem
    obtain ⟨p', hp', hevictable⟩ := (Table.mem_holding _ _ _).mp (hvictims _ hmem)
    obtain rfl := Option.some.inj (hp.symm.trans hp')
    simp [evictable_resident hevictable] at hresident
  have hcount : c'.residentCount + victims.length = _ :=
    hev.count hnodup hvictims (fun _ => evictable_resident) (fun _ hq => hq)
  have hunpinned : c'.unpinned + victims.length = _ :=
    hev.count hnodup hvictims (fun _ hq => hq) (fun _ => evictable_resident)
  rw [← residentCount, seen_residentCount] at hcount
  rw [← unpinned, seen_unpinned] at hunpinned
  refine ⟨⟨hev.limits.maxResident, hev.limits.pageSizeTokens, hev.limits.evictionBand⟩, ?_, ?_, ?_⟩
  · rw [bringIn, hev.resident, seen]
  · rw [residentCount_bringIn hstay hresident]
    omega
  · rw [othersPinned_bringIn hstay hresident]
    omega

theorem touch_reentrant {c : KvCache α} {t : UInt32} (w : Option α)
    (h : ¬ c.IsResident (c.page t)) :
    ∃ c', c.touch .reentrant false t w = some c' ∧ BroughtIn c (c.page t) c.room c' := by
  rw [touch_miss _ w h, room]
  by_cases hfull : c.maxResident ≤ c.resident
  · obtain ⟨victims, c', heq, hev, hnodup, hvictims, hlength⟩ :=
      evict_spec .reentrant true (c.seen t w) c.evictionBand rfl
    rw [seen_unpinned] at hlength
    simp only [hfull, ↓reduceIte, heq, ← hlength]
    exact ⟨_, rfl, broughtIn_of_evicted w h hev hnodup hvictims⟩
  · have hev : Evicted (c.seen t w) [] (c.seen t w) := ⟨⟨rfl, rfl, rfl⟩, by simp, by simp⟩
    simp only [hfull, ↓reduceIte]
    exact ⟨_, rfl, broughtIn_of_evicted w h hev List.nodup_nil (by simp)⟩

theorem call_reentrant {c : KvCache α} (x : KvCall α) (h : Counted c) :
    ∃ c', c.call .reentrant x = some c' ∧ SameLimits c c' ∧ Counted c' := by
  cases x with
  | touch t w =>
    by_cases hresident : c.IsResident (c.page t)
    · refine ⟨_, touch_hit _ w hresident, ⟨rfl, rfl, rfl⟩, ?_⟩
      rw [Counted, seen_residentCount]
      exact h
    · obtain ⟨c', heq, hin⟩ := touch_reentrant w hresident
      exact ⟨c', heq, hin.limits, h.of_le (k := 1) hin.resident hin.count⟩
  | evict n =>
    obtain ⟨victims, c', heq, hev, hnodup, hvictims, _⟩ := evict_spec .reentrant false c n rfl
    refine ⟨c', by rw [call, heq]; rfl, hev.limits, h.of_le (e := victims.length) (k := 0) ?_ ?_⟩
    · simp [hev.resident]
    · exact hev.count hnodup hvictims (fun _ => evictable_resident) (fun _ hq => hq)
  | pin t =>
    refine ⟨_, rfl, ⟨rfl, rfl, rfl⟩, ?_⟩
    have hcount := c.pages.count_insert_getD (c.page t) KvPage.init
      (f := fun p => { p with refcount := p.refcount + 1 }) (p := KvPage.resident) (fun _ => rfl) rfl
    exact h.trans (congrArg UInt32.ofNat hcount.symm)
  | unpin t =>
    simp only [call, unpin, lockGuard, Bool.false_eq_true, false_and, ↓reduceIte,
      Option.bind_eq_bind, Option.bind_some]
    split
    · exact ⟨c, rfl, ⟨rfl, rfl, rfl⟩, h⟩
    · split
      · refine ⟨_, rfl, ⟨rfl, rfl, rfl⟩, ?_⟩
        have hcount := c.pages.count_modify (c.page t)
          (f := fun p => { p with refcount := p.refcount - 1 }) (p := KvPage.resident) (fun _ => rfl)
        exact h.trans (congrArg UInt32.ofNat hcount.symm)
      · exact ⟨c, rfl, ⟨rfl, rfl, rfl⟩, h⟩

theorem run_reentrant {c : KvCache α} (calls : List (KvCall α)) (h : Counted c) :
    ∃ c', c.run .reentrant calls = some c' ∧ SameLimits c c' ∧ Counted c' := by
  induction calls generalizing c with
  | nil => exact ⟨c, rfl, ⟨rfl, rfl, rfl⟩, h⟩
  | cons x xs ih =>
    obtain ⟨c₁, hcall, hlimits, h₁⟩ := call_reentrant x h
    obtain ⟨c', hrun, hlimits', h'⟩ := ih h₁
    refine ⟨c', ?_, ⟨hlimits'.maxResident.trans hlimits.maxResident,
      hlimits'.pageSizeTokens.trans hlimits.pageSizeTokens,
      hlimits'.evictionBand.trans hlimits.evictionBand⟩, h'⟩
    rw [run, List.foldlM_cons, hcall]
    exact hrun

def new (maxResident pageSizeTokens evictionBand : UInt32) : KvCache α :=
  { maxResident, pageSizeTokens, evictionBand }

theorem touch_bound_iff (maxResident pageSizeTokens evictionBand : UInt32)
    (hband : 1 ≤ evictionBand) (calls : List (KvCall α)) (t : UInt32) (w : Option α) :
    ∃ c c' : KvCache α, (new maxResident pageSizeTokens evictionBand).run .reentrant calls = some c ∧
      c.touch .reentrant false t w = some c' ∧ (¬ c.IsResident (c.page t) →
        ((c'.resident ≤ c'.maxResident ∨ OthersPinned c' (c.page t)) ↔
          (c.resident.toNat < c.maxResident.toNat + c.evictionBand.toNat ∨
            c.unpinned ≤ c.evictionBand.toNat))) := by
  have hnew : Counted (new maxResident pageSizeTokens evictionBand : KvCache α) := rfl
  obtain ⟨c, hrun, hlimits, hc⟩ := run_reentrant calls hnew
  by_cases ha : c.IsResident (c.page t)
  · exact ⟨c, _, hrun, touch_hit _ w ha, fun hnot => absurd ha hnot⟩
  · obtain ⟨c', htouch, hin⟩ := touch_reentrant w ha
    refine ⟨c, c', hrun, htouch, fun _ => hin.bound_iff hc ha ?_⟩
    rw [hlimits.evictionBand]
    exact UInt32.le_iff_toNat_le.mp hband

def pinTouchUnpin : List (KvCall ℤ) := [.touch 0 (some 1), .pin 0, .touch 16 (some 1), .unpin 0]

def overLimit : KvCache ℤ := ((new 1 16 1).run .reentrant pinTouchUnpin).get (by decide)

theorem run_overLimit : (new 1 16 1).run .reentrant pinTouchUnpin = some overLimit :=
  (Option.some_get _).symm

theorem touch_bound_iff_overLimit : ∃ c', overLimit.touch .reentrant false 32 (some 1) = some c' ∧
    ¬ (c'.resident ≤ c'.maxResident ∨ OthersPinned c' 32) := by
  obtain ⟨c, c', hrun, htouch, hiff⟩ :=
    touch_bound_iff 1 16 1 (by decide) pinTouchUnpin 32 (some 1)
  obtain rfl := Option.some.inj (hrun.symm.trans run_overLimit)
  refine ⟨c', htouch, fun hbound => ?_⟩
  exact absurd ((hiff (by decide)).mp hbound) (by decide)

theorem touch_bound_fails : ¬ ∀ (maxResident pageSizeTokens evictionBand : UInt32)
    (calls : List (KvCall ℤ)) (t : UInt32) (w : Option ℤ) (c c' : KvCache ℤ),
    1 ≤ maxResident → 1 ≤ evictionBand →
    (new maxResident pageSizeTokens evictionBand).run .reentrant calls = some c →
    c.touch .reentrant false t w = some c' → ¬ c.IsResident (c.page t) →
    c'.resident ≤ c'.maxResident ∨ OthersPinned c' (c.page t) := by
  intro h
  have ha : ¬ overLimit.IsResident (overLimit.page 32) := by decide
  obtain ⟨c', htouch, hin⟩ := touch_reentrant (some 1) ha
  have hbound := h 1 16 1 pinTouchUnpin 32 (some 1) overLimit c' (by decide) (by decide)
    run_overLimit htouch ha
  have hc : Counted overLimit := by
    rw [Counted]
    decide
  rw [hin.bound_iff hc ha (by decide)] at hbound
  exact absurd hbound (by decide)

end KvCache

end NexusRT.TokenOpt

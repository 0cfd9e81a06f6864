import NexusRT.Memory.PageTable

namespace NexusRT.Memory.PageTableManager

inductive PageCall
  | incref (vaddr now : UInt64)
  | decref (vaddr now : UInt64)
  | lookup (vaddr : UInt64)
  | evictUntil (std : StdSort Cand (fun x y => x.lastAccess < y.lastAccess))
      (highPct lowPct : UInt32) (pol : EvictionPolicy)
  | unmapRange (vaddr bytes : UInt64)

def after (t : PageTableManager) : PageCall → PageTableManager
  | .incref vaddr now => (t.incref vaddr now).2
  | .decref vaddr now => (t.decref vaddr now).2
  | .lookup _ => t
  | .evictUntil std highPct lowPct pol => (t.evictUntil std highPct lowPct pol).2
  | .unmapRange vaddr bytes => (t.unmapRange vaddr bytes).2

def run (t : PageTableManager) (calls : List PageCall) : PageTableManager := calls.foldl after t

def increfs (t : PageTableManager) (a : UInt64) : PageCall → Bool
  | .incref vaddr now => t.pageBase vaddr = a && ok (t.incref vaddr now).1
  | _ => false

def decrefs (t : PageTableManager) (a : UInt64) : PageCall → Bool
  | .decref vaddr now => t.pageBase vaddr = a && ok (t.decref vaddr now).1
  | _ => false

def countCalls (p : PageTableManager → PageCall → Bool) : PageTableManager → List PageCall → ℕ
  | _, [] => 0
  | t, c :: cs => (p t c).toNat + countCalls p (t.after c) cs

@[simp] theorem find_update (t : PageTableManager) (a j : UInt64) (f : PageEntry → PageEntry) :
    (t.update a f).table.find j = if j = a then (t.table.find a).map f else t.table.find j := rfl

def KeepsPins (t t' : PageTableManager) : Prop :=
  ∀ a, t'.table.find a = t.table.find a ∨ ∃ e, t.table.find a = some e ∧ e.refcount = 0 ∧
    ∀ e', t'.table.find a = some e' → e'.refcount = 0

theorem KeepsPins.refl (t : PageTableManager) : KeepsPins t t := fun _ => .inl rfl

theorem KeepsPins.trans {t u v : PageTableManager} (h : KeepsPins t u) (h' : KeepsPins u v) :
    KeepsPins t v := by
  intro a
  rcases h a with hsame | ⟨e, he, hzero, hu⟩
  · rcases h' a with hsame' | ⟨e, he, hzero, hv⟩
    · exact .inl (hsame'.trans hsame)
    · exact .inr ⟨e, hsame ▸ he, hzero, hv⟩
  · refine .inr ⟨e, he, hzero, ?_⟩
    rcases h' a with hsame' | ⟨_, _, _, hv⟩
    · intro e' he'
      exact hu e' (hsame' ▸ he')
    · exact hv

theorem KeepsPins.pinned {t t' : PageTableManager} (h : KeepsPins t t') {a : UInt64} {e : PageEntry}
    (he : t.table.find a = some e) (hpin : 0 < e.refcount) : t'.table.find a = some e := by
  rcases h a with hsame | ⟨e₁, he₁, hzero, _⟩
  · rw [hsame, he]
  · rw [he] at he₁
    obtain rfl := Option.some.inj he₁
    simp [hzero] at hpin

def Pinned (t : PageTableManager) (a : UInt64) : Prop := ∃ e, t.table.find a = some e ∧ 0 < e.refcount

theorem not_pinned_of_none {t : PageTableManager} {a : UInt64} (ha : t.table.find a = none) :
    ¬ Pinned t a := by
  rintro ⟨e, he, _⟩
  cases ha.symm.trans he

theorem pinned_iff {t : PageTableManager} {a : UInt64} {e : PageEntry}
    (ha : t.table.find a = some e) : Pinned t a ↔ 0 < e.refcount := by
  constructor
  · rintro ⟨e', he', hpin⟩
    obtain rfl := Option.some.inj (ha.symm.trans he')
    exact hpin
  · exact fun hpin => ⟨e, ha, hpin⟩

theorem pinned_erase {t : PageTableManager} {a : UInt64} (ha : ¬ Pinned t a) (b : UInt64) :
    Pinned { t with table := t.table.erase a } b ↔ Pinned t b := by
  by_cases hba : b = a
  · subst hba
    apply iff_of_false _ ha
    apply not_pinned_of_none
    simp
  · simp [Pinned, hba]

structure Unmapped (t : PageTableManager) (as : List UInt64) (t' : PageTableManager) : Prop where
  arch : t'.arch = t.arch
  gone : ∀ a ∈ as, t'.table.find a = none
  other : ∀ a, a ∉ as → t'.table.find a = t.table.find a

theorem Unmapped.nil (t : PageTableManager) : Unmapped t [] t := ⟨rfl, by simp, fun _ _ => rfl⟩

theorem Unmapped.cons {t u t' : PageTableManager} {a : UInt64} {as : List UInt64}
    (harch : u.arch = t.arch) (ha : u.table.find a = none)
    (hu : ∀ b, b ≠ a → u.table.find b = t.table.find b) (h : Unmapped u as t') :
    Unmapped t (a :: as) t' := by
  refine ⟨h.arch.trans harch, fun b hb => ?_, fun b hb => ?_⟩
  · by_cases hbs : b ∈ as
    · exact h.gone b hbs
    · have hba : b = a := by simpa [hbs] using hb
      rw [h.other b hbs, hba, ha]
  · rw [List.mem_cons, not_or] at hb
    rw [h.other b hb.2, hu b hb.1]

theorem unmapPages_cases (as : List UInt64) (t : PageTableManager) :
    ((∀ a ∈ as, ¬ Pinned t a) ∧ ∃ t', unmapPages as t = (.ok, t') ∧ Unmapped t as t') ∨
      ∃ before a after t', as = before ++ a :: after ∧ Pinned t a ∧ (∀ b ∈ before, ¬ Pinned t b) ∧
        unmapPages as t = (.contractViolation, t') ∧ Unmapped t before t' := by
  induction as generalizing t with
  | nil => exact .inl ⟨by simp, t, rfl, .nil t⟩
  | cons a as ih =>
    rw [unmapPages]
    cases ha : t.table.find a with
    | none =>
      have hnot : ¬ Pinned t a := not_pinned_of_none ha
      rcases ih t with ⟨hfree, t', heq, ht'⟩ | ⟨before, b, after, t', rfl, hb, hfree, heq, ht'⟩
      · refine .inl ⟨?_, t', heq, .cons rfl ha (fun _ _ => rfl) ht'⟩
        simpa using ⟨hnot, hfree⟩
      · refine .inr ⟨a :: before, b, after, t', rfl, hb, ?_, heq, .cons rfl ha (fun _ _ => rfl) ht'⟩
        simpa using ⟨hnot, hfree⟩
    | some e =>
      by_cases hpin : 0 < e.refcount
      · refine .inr ⟨[], a, as, t, rfl, ⟨e, ha, hpin⟩, by simp, ?_, .nil t⟩
        simp only [hpin, ↓reduceIte]
      · simp only [hpin, ↓reduceIte]
        have hnot : ¬ Pinned t a := mt (pinned_iff ha).mp hpin
        let u : PageTableManager := { t with table := t.table.erase a }
        have hua : u.table.find a = none := by simp [u]
        have hoff : ∀ b, b ≠ a → u.table.find b = t.table.find b := fun b hb => by simp [u, hb]
        have hu (b : UInt64) : Pinned u b ↔ Pinned t b := pinned_erase hnot b
        rcases ih u with ⟨hfree, t', heq, ht'⟩ | ⟨before, b, after, t', rfl, hb, hfree, heq, ht'⟩
        · refine .inl ⟨?_, t', heq, .cons (u := u) rfl hua hoff ht'⟩
          simpa using ⟨hnot, fun c hc => mt (hu c).mpr (hfree c hc)⟩
        · refine .inr ⟨a :: before, b, after, t', rfl, (hu b).mp hb, ?_, heq,
            .cons (u := u) rfl hua hoff ht'⟩
          simpa using ⟨hnot, fun c hc => mt (hu c).mpr (hfree c hc)⟩

theorem Unmapped.keepsPins {t t' : PageTableManager} {as : List UInt64} (h : Unmapped t as t')
    (hfree : ∀ a ∈ as, ¬ Pinned t a) : KeepsPins t t' := by
  intro a
  by_cases ha : a ∈ as
  · cases he : t.table.find a with
    | none => exact .inl (h.gone a ha)
    | some e =>
      have hpin : ¬ 0 < e.refcount := fun hpin => hfree a ha ⟨e, he, hpin⟩
      exact .inr ⟨e, rfl, by simpa using hpin, by simp [h.gone a ha]⟩
  · exact .inl (h.other a ha)

theorem unmapPages_keepsPins (as : List UInt64) (t : PageTableManager) :
    KeepsPins t (unmapPages as t).2 := by
  rcases unmapPages_cases as t with ⟨hfree, t', heq, ht'⟩ | ⟨_, _, _, t', _, _, hfree, heq, ht'⟩
  · rw [heq]
    exact ht'.keepsPins hfree
  · rw [heq]
    exact ht'.keepsPins hfree

theorem evictCands_keepsPins (low : UInt64) (cs : List Cand) (resident : UInt64) (evicted : UInt32)
    (t : PageTableManager)
    (hcs : ∀ c ∈ cs, ∀ e, t.table.find c.vaddr = some e → e.refcount = 0) :
    KeepsPins t (evictCands low cs resident evicted t).2 := by
  induction cs generalizing resident evicted t with
  | nil => exact .refl t
  | cons c cs ih =>
    rw [evictCands]
    by_cases hlow : resident ≤ low
    · simpa only [hlow, ↓reduceIte] using KeepsPins.refl t
    · simp only [hlow, ↓reduceIte]
      cases hc : t.table.find c.vaddr with
      | none => exact ih resident evicted t (fun d hd => hcs d (List.mem_cons_of_mem c hd))
      | some e =>
        have hzero : e.refcount = 0 := hcs c (by simp) e hc
        refine KeepsPins.trans (fun j => ?_) (ih _ _ _ fun d hd e' he' => ?_)
        · by_cases hj : j = c.vaddr
          · subst hj
            exact .inr ⟨e, hc, hzero, by simp [hc, hzero]⟩
          · simp [hj]
        · have hd' := hcs d (List.mem_cons_of_mem c hd)
          by_cases hdc : d.vaddr = c.vaddr
          · simp only [find_update, hdc, ↓reduceIte, hc, Option.map_some, Option.some.injEq] at he'
            rw [← he']
            exact hzero
          · exact hd' e' (by simpa [hdc] using he')

theorem cands_unpinned (t : PageTableManager) {c : Cand} (hc : c ∈ t.cands) {e : PageEntry}
    (he : t.table.find c.vaddr = some e) : e.refcount = 0 := by
  obtain ⟨⟨a, e₁⟩, hmem, hcand⟩ := List.mem_filterMap.mp hc
  rw [Table.mem_entries] at hmem
  have hzero : e₁.refcount = 0 ∧ c.vaddr = a := by
    simp only at hcand
    split at hcand
    · simp at hcand
    · split at hcand
      · simp at hcand
      · next hpin =>
        obtain rfl := Option.some.inj hcand
        exact ⟨by simpa using hpin, rfl⟩
  rw [hzero.2, hmem] at he
  obtain rfl := Option.some.inj he
  exact hzero.1

theorem evictUntil_keepsPins (std : StdSort Cand (fun x y => x.lastAccess < y.lastAccess))
    (t : PageTableManager) (highPct lowPct : UInt32) (pol : EvictionPolicy) :
    KeepsPins t (t.evictUntil std highPct lowPct pol).2 := by
  simp only [evictUntil]
  split
  · exact .refl t
  · apply evictCands_keepsPins
    intro c hc e he
    apply cands_unpinned t ?_ he
    split at hc
    · exact (std.perm t.cands).mem_iff.mp hc
    · exact hc

theorem incref_cases (t : PageTableManager) (vaddr now : UInt64) :
    t.incref vaddr now = (.invalidArgument, t) ∨
      ∃ e, t.table.find (t.pageBase vaddr) = some e ∧ e.refcount ≠ 0xFFFF ∧
        t.incref vaddr now = (.ok, t.update (t.pageBase vaddr)
          (fun e => { e with refcount := e.refcount + 1, lastAccessNs := now })) := by
  simp only [incref]
  cases h : t.table.find (t.pageBase vaddr) with
  | none => exact .inl rfl
  | some e =>
    by_cases hmax : e.refcount = 0xFFFF
    · simp [hmax]
    · exact .inr ⟨e, rfl, hmax, by simp [hmax]⟩

theorem decref_cases (t : PageTableManager) (vaddr now : UInt64) :
    t.decref vaddr now = (.invalidArgument, t) ∨
      ∃ e, t.table.find (t.pageBase vaddr) = some e ∧ e.refcount ≠ 0 ∧
        t.decref vaddr now = (.ok, t.update (t.pageBase vaddr)
          (fun e => { e with refcount := e.refcount - 1, lastAccessNs := now })) := by
  simp only [decref]
  cases h : t.table.find (t.pageBase vaddr) with
  | none => exact .inl rfl
  | some e =>
    by_cases hzero : e.refcount = 0
    · simp [hzero]
    · exact .inr ⟨e, rfl, hzero, by simp [hzero]⟩

theorem toNat_succ {n : UInt16} (h : n ≠ 0xFFFF) : (n + 1).toNat = n.toNat + 1 := by
  have hne : n.toNat ≠ 65535 := fun heq => h (UInt16.toNat_inj.mp heq)
  have hlt := n.toNat_lt
  rw [UInt16.toNat_add]
  exact Nat.mod_eq_of_lt (by simp; omega)

theorem toNat_pred {n : UInt16} (h : n ≠ 0) : (n - 1).toNat + 1 = n.toNat := by
  have hne : n.toNat ≠ 0 := fun heq => h (UInt16.toNat_inj.mp heq)
  have hle : (1 : UInt16) ≤ n := by
    rw [UInt16.le_iff_toNat_le]
    exact Nat.one_le_iff_ne_zero.mpr hne
  rw [UInt16.toNat_sub_of_le _ _ hle]
  have hone : (1 : UInt16).toNat = 1 := rfl
  omega

section Step

variable {t : PageTableManager} {c : PageCall} {a : UInt64} {e e' : PageEntry}

theorem KeepsPins.step {t' : PageTableManager} (h : KeepsPins t t')
    (he : t.table.find a = some e) (he' : t'.table.find a = some e') :
    e'.refcount.toNat = e.refcount.toNat := by
  rcases h a with hsame | ⟨e₁, he₁, hzero, hafter⟩
  · rw [hsame, he] at he'
    rw [Option.some.inj he']
  · rw [he] at he₁
    rw [hafter e' he', Option.some.inj he₁, hzero]

theorem incref_step (vaddr now : UInt64) (he : t.table.find a = some e) :
    ∃ e', (t.incref vaddr now).2.table.find a = some e' ∧ e'.residency = e.residency ∧
      e'.refcount.toNat = e.refcount.toNat + (t.increfs a (.incref vaddr now)).toNat := by
  rcases incref_cases t vaddr now with hfail | ⟨e₁, he₁, hmax, hok⟩
  · refine ⟨e, by rw [hfail]; exact he, rfl, ?_⟩
    have hnot : ok Status.invalidArgument = false := rfl
    simp [increfs, hfail, hnot]
  · have hgood : ok Status.ok = true := rfl
    by_cases ha : a = t.pageBase vaddr
    · subst ha
      rw [he] at he₁
      obtain rfl := Option.some.inj he₁
      rw [hok]
      refine ⟨{ e with refcount := e.refcount + 1, lastAccessNs := now },
        by simp only [find_update, ↓reduceIte, he, Option.map_some], rfl, ?_⟩
      simp only [increfs, hok, hgood, toNat_succ hmax, decide_true, Bool.and_self, Bool.toNat_true]
    · rw [hok]
      refine ⟨e, by simp only [find_update, ha, ↓reduceIte, he], rfl, ?_⟩
      simp [increfs, Ne.symm ha]

theorem decref_step (vaddr now : UInt64) (he : t.table.find a = some e) :
    ∃ e', (t.decref vaddr now).2.table.find a = some e' ∧ e'.residency = e.residency ∧
      e'.refcount.toNat + (t.decrefs a (.decref vaddr now)).toNat = e.refcount.toNat := by
  rcases decref_cases t vaddr now with hfail | ⟨e₁, he₁, hzero, hok⟩
  · refine ⟨e, by rw [hfail]; exact he, rfl, ?_⟩
    have hnot : ok Status.invalidArgument = false := rfl
    simp [decrefs, hfail, hnot]
  · have hgood : ok Status.ok = true := rfl
    by_cases ha : a = t.pageBase vaddr
    · subst ha
      rw [he] at he₁
      obtain rfl := Option.some.inj he₁
      rw [hok]
      refine ⟨{ e with refcount := e.refcount - 1, lastAccessNs := now },
        by simp only [find_update, ↓reduceIte, he, Option.map_some], rfl, ?_⟩
      simp only [decrefs, hok, hgood, toNat_pred hzero, decide_true, Bool.and_self, Bool.toNat_true]
    · rw [hok]
      refine ⟨e, by simp only [find_update, ha, ↓reduceIte, he], rfl, ?_⟩
      simp [decrefs, Ne.symm ha]

theorem after_refcount (he : t.table.find a = some e) (he' : (t.after c).table.find a = some e') :
    e'.refcount.toNat + (t.decrefs a c).toNat = e.refcount.toNat + (t.increfs a c).toNat := by
  cases c with
  | incref vaddr now =>
    obtain ⟨e₁, he₁, _, hcount⟩ := incref_step vaddr now he
    obtain rfl := Option.some.inj (he₁.symm.trans he')
    simpa [decrefs] using hcount
  | decref vaddr now =>
    obtain ⟨e₁, he₁, _, hcount⟩ := decref_step vaddr now he
    obtain rfl := Option.some.inj (he₁.symm.trans he')
    simpa [increfs] using hcount
  | lookup vaddr => simpa [increfs, decrefs] using (KeepsPins.refl t).step he he'
  | evictUntil std highPct lowPct pol =>
    simpa [increfs, decrefs] using (evictUntil_keepsPins std t highPct lowPct pol).step he he'
  | unmapRange vaddr bytes =>
    simpa [increfs, decrefs] using (unmapPages_keepsPins _ t).step he he'

theorem after_unmapped (h : t.table.find a = none) : (t.after c).table.find a = none := by
  have hkeep {t' : PageTableManager} (hk : KeepsPins t t') : t'.table.find a = none := by
    rcases hk a with hsame | ⟨e, he, _, _⟩
    · rw [hsame, h]
    · rw [h] at he
      simp at he
  cases c with
  | incref vaddr now =>
    rcases incref_cases t vaddr now with hfail | ⟨e, he, _, hok⟩
    · simpa [after, hfail] using h
    · have ha : a ≠ t.pageBase vaddr := by
        rintro rfl
        simp [h] at he
      simpa [after, hok, ha] using h
  | decref vaddr now =>
    rcases decref_cases t vaddr now with hfail | ⟨e, he, _, hok⟩
    · simpa [after, hfail] using h
    · have ha : a ≠ t.pageBase vaddr := by
        rintro rfl
        simp [h] at he
      simpa [after, hok, ha] using h
  | lookup vaddr => exact h
  | evictUntil std highPct lowPct pol => exact hkeep (evictUntil_keepsPins std t highPct lowPct pol)
  | unmapRange vaddr bytes => exact hkeep (unmapPages_keepsPins _ t)

theorem after_pinned (he : t.table.find a = some e) (hpin : 0 < e.refcount) :
    ∃ e', (t.after c).table.find a = some e' ∧ e'.residency = e.residency := by
  cases c with
  | incref vaddr now =>
    obtain ⟨e', he', hres, _⟩ := incref_step vaddr now he
    exact ⟨e', he', hres⟩
  | decref vaddr now =>
    obtain ⟨e', he', hres, _⟩ := decref_step vaddr now he
    exact ⟨e', he', hres⟩
  | lookup vaddr => exact ⟨e, he, rfl⟩
  | evictUntil std highPct lowPct pol =>
    exact ⟨e, (evictUntil_keepsPins std t highPct lowPct pol).pinned he hpin, rfl⟩
  | unmapRange vaddr bytes => exact ⟨e, (unmapPages_keepsPins _ t).pinned he hpin, rfl⟩

end Step

theorem run_unmapped (t : PageTableManager) (calls : List PageCall) {a : UInt64}
    (h : t.table.find a = none) : (t.run calls).table.find a = none := by
  induction calls generalizing t with
  | nil => exact h
  | cons c cs ih => exact ih (t.after c) (after_unmapped h)

theorem run_refcount (t : PageTableManager) (calls : List PageCall) {a : UInt64} {e e' : PageEntry}
    (he : t.table.find a = some e) (he' : (t.run calls).table.find a = some e') :
    e'.refcount.toNat + countCalls (fun t c => t.decrefs a c) t calls =
      e.refcount.toNat + countCalls (fun t c => t.increfs a c) t calls := by
  induction calls generalizing t e with
  | nil =>
    obtain rfl := Option.some.inj (he.symm.trans he')
    rfl
  | cons c cs ih =>
    cases hc : (t.after c).table.find a with
    | none =>
      have hnone := run_unmapped (t.after c) cs hc
      exact absurd (hnone.symm.trans he') (by simp)
    | some e₁ =>
      have hstep := after_refcount he hc
      have hrest := ih (t.after c) hc he'
      simp only [countCalls]
      omega

theorem pins_hold (t : PageTableManager) (calls : List PageCall) (a : UInt64) :
    (∀ e e', t.table.find a = some e → (t.run calls).table.find a = some e' →
      e'.refcount.toNat ≤ 65535 ∧
      e'.refcount.toNat + countCalls (fun t c => t.decrefs a c) t calls =
        e.refcount.toNat + countCalls (fun t c => t.increfs a c) t calls) ∧
    ∀ c e, (t.run calls).table.find a = some e → 0 < e.refcount →
      ∃ e', ((t.run calls).after c).table.find a = some e' ∧ e'.residency = e.residency := by
  refine ⟨fun e e' he he' => ⟨?_, run_refcount t calls he he'⟩, fun c e he hpin => ?_⟩
  · have := e'.refcount.toNat_lt
    omega
  · exact after_pinned he hpin

def stableSort : StdSort Cand (fun x y => x.lastAccess < y.lastAccess) where
  sort := List.insertionSort (fun x y => x.lastAccess ≤ y.lastAccess)
  perm l := List.perm_insertionSort _ l
  sorted l := by
    have : Std.Total (fun x y : Cand => x.lastAccess ≤ y.lastAccess) :=
      ⟨fun x y => UInt64.le_total x.lastAccess y.lastAccess⟩
    have : IsTrans Cand (fun x y => x.lastAccess ≤ y.lastAccess) := ⟨fun _ _ _ => UInt64.le_trans⟩
    refine (List.pairwise_insertionSort _ l).imp fun h => ?_
    simpa using h

def onePage : PageTableManager := (mapRange {} 0 1 .hbm 0 id).2

def pinEvictUnmap : List PageCall :=
  [.incref 5 0, .evictUntil stableSort 0 0 .lru, .unmapRange 0 1, .incref 7 0, .decref 0 0]

theorem pins_hold_onePage : ∃ e, (onePage.run pinEvictUnmap).table.find 0 = some e ∧
    e.refcount = 1 ∧ e.refcount.toNat + 1 = 2 ∧
    ∃ e', ((onePage.run pinEvictUnmap).after (.unmapRange 0 1)).table.find 0 = some e' ∧
      e'.residency = .hbm := by
  let e₀ : PageEntry := { fetchCount := 1, residency := .hbm }
  let e : PageEntry := { e₀ with refcount := 1 }
  have h₀ : onePage.table.find 0 = some e₀ := by decide
  have h : (onePage.run pinEvictUnmap).table.find 0 = some e := by decide
  have hpins := pins_hold onePage pinEvictUnmap 0
  exact ⟨e, h, rfl, (hpins.1 e₀ e h₀ h).2, hpins.2 (.unmapRange 0 1) e h (by decide)⟩

end NexusRT.Memory.PageTableManager

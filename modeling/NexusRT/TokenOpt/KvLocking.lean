import NexusRT.TokenOpt.KvBounds

namespace NexusRT.TokenOpt.KvCache

variable {α : Type} [LinearOrder α] [Zero α]

def Blocks (c : KvCache α) : KvCall α → Prop
  | .touch t _ => ¬ c.IsResident (c.page t) ∧ c.maxResident ≤ c.resident
  | _ => False

theorem evict_held (c : KvCache α) (n : UInt32) : c.evict .nonRecursive true n = none := rfl

theorem call_completes (c : KvCache α) (x : KvCall α) :
    (c.call .nonRecursive x).isSome = true ↔ ¬ Blocks c x := by
  cases x with
  | touch t w =>
    rw [call, Blocks]
    by_cases hresident : c.IsResident (c.page t)
    · simp [touch_hit _ w hresident, hresident]
    · rw [touch_miss _ w hresident]
      by_cases hfull : c.maxResident ≤ c.resident
      · simp [hfull, hresident, evict_held]
      · simp [hfull]
  | evict n =>
    obtain ⟨victims, c', heq, _⟩ := evict_spec .nonRecursive false c n rfl
    simp [call, heq, Blocks]
  | pin t => simp [call, pin, lockGuard, Blocks]
  | unpin t =>
    simp only [call, unpin, lockGuard, Bool.false_eq_true, false_and, ↓reduceIte,
      Option.bind_eq_bind, Option.bind_some, Blocks, not_false_eq_true, iff_true]
    split
    · rfl
    · split <;> rfl

theorem run_completes_iff (c : KvCache α) (calls : List (KvCall α)) :
    (c.run .nonRecursive calls).isSome = true ↔ ∀ before x after c',
      calls = before ++ x :: after → c.run .nonRecursive before = some c' → ¬ Blocks c' x := by
  induction calls generalizing c with
  | nil => simp [run]
  | cons y ys ih =>
    rw [run, List.foldlM_cons]
    cases hcall : c.call .nonRecursive y with
    | none =>
      have hblocks : Blocks c y := by
        by_contra hnot
        simpa [hcall] using (call_completes c y).mpr hnot
      simp only [Option.bind_eq_bind, Option.bind_none, Option.isSome_none, Bool.false_eq_true,
        false_iff]
      exact fun hall => hall [] y ys c rfl rfl hblocks
    | some c₁ =>
      have hcompletes := (call_completes c y).mp (by rw [hcall]; rfl)
      rw [Option.bind_eq_bind, Option.bind_some]
      refine (ih c₁).trans ⟨fun hall before x after c' heq hrun => ?_,
        fun hall before x after c' heq hrun => ?_⟩
      · cases before with
        | nil =>
          obtain ⟨rfl, rfl⟩ := List.cons.inj heq
          obtain rfl := Option.some.inj hrun
          exact hcompletes
        | cons b bs =>
          obtain ⟨rfl, rfl⟩ := List.cons.inj heq
          rw [run, List.foldlM_cons, hcall] at hrun
          exact hall bs x after c' rfl hrun
      · apply hall (y :: before) x after c' (by rw [heq]; rfl)
        rw [run, List.foldlM_cons, hcall]
        exact hrun

theorem run_blocks : ¬ ∀ (maxResident pageSizeTokens evictionBand : UInt32)
    (calls : List (KvCall ℤ)) (x : KvCall ℤ) (c : KvCache ℤ),
    (new maxResident pageSizeTokens evictionBand).run .nonRecursive calls = some c →
    (c.call .nonRecursive x).isSome = true := by
  intro h
  let calls : List (KvCall ℤ) := [.touch 0 (some 1), .touch 16 (some 1), .touch 32 (some 1),
    .touch 48 (some 1)]
  let c : KvCache ℤ := ((new 4 16 1).run .nonRecursive calls).get (by decide)
  exact absurd (h 4 16 1 calls (.touch 64 (some 1)) c (Option.some_get _).symm) (by decide)

end NexusRT.TokenOpt.KvCache

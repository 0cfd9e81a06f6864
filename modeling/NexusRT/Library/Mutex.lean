import NexusRT.Library.Interleave

/-!
A mutex among interleaving threads: the ghost of the thread that is inside holds its section.
-/

namespace Interleave

variable {Op : Type} {Ans : Op → Type} {L Sec α β : Type}

def Holds (inside : L → Option Sec) (ts : List (Thread Op Ans L)) (sec : Option Sec) : Prop :=
  ts.filterMap (fun t => inside t.ghost) = sec.toList

variable {inside : L → Option Sec} {pre post ts : List (Thread Op Ans L)} {l l' : L}
  {p q : Prog Op Ans Unit} {sec : Option Sec} {s : Sec}

theorem holds_iff : Holds inside (pre ++ ⟨l, p⟩ :: post) sec ↔
    pre.filterMap (fun t => inside t.ghost) ++ ((inside l).toList ++
      post.filterMap (fun t => inside t.ghost)) = sec.toList := by
  rw [Holds, List.filterMap_append, List.filterMap_cons]
  cases inside l <;> rfl

theorem Holds.here (h : Holds inside (pre ++ ⟨l, p⟩ :: post) sec) (hl : inside l = some s) :
    sec = some s ∧ ∀ l' q, Holds inside (pre ++ ⟨l', q⟩ :: post) (inside l') := by
  simp only [holds_iff] at h ⊢
  rw [hl] at h
  cases sec with
  | none => simp at h
  | some s' =>
    obtain ⟨hpre, hrest⟩ : pre.filterMap (fun t => inside t.ghost) = [] ∧
        s :: post.filterMap (fun t => inside t.ghost) = [s'] := by
      have hlength := congrArg List.length h
      simp only [List.length_append, Option.toList_some, List.length_cons, List.length_nil] at hlength
      have hpre : pre.filterMap (fun t => inside t.ghost) = [] :=
        List.eq_nil_of_length_eq_zero (by omega)
      rw [hpre] at h
      exact ⟨hpre, h⟩
    obtain ⟨rfl, hpost⟩ := List.cons.inj hrest
    refine ⟨rfl, fun l' _ => ?_⟩
    rw [hpre, hpost, List.nil_append, List.append_nil]

theorem Holds.outside (h : Holds inside (pre ++ ⟨l, p⟩ :: post) sec) (hl : inside l = none)
    (hl' : inside l' = none) : Holds inside (pre ++ ⟨l', q⟩ :: post) sec := by
  rw [holds_iff, hl] at h
  rw [holds_iff, hl']
  exact h

theorem Holds.enter (h : Holds inside (pre ++ ⟨l, p⟩ :: post) none) (hl : inside l = none) :
    Holds inside (pre ++ ⟨l', q⟩ :: post) (inside l') := by
  rw [holds_iff, hl] at h
  rw [holds_iff]
  obtain ⟨hpre, hpost⟩ := List.append_eq_nil_iff.mp h
  rw [Option.toList_none, List.nil_append] at hpost
  rw [hpre, hpost, List.nil_append, List.append_nil]

theorem Holds.spawn (h : Holds inside ts sec) (hl : inside l = none) :
    Holds inside (⟨l, p⟩ :: ts) sec := by
  rw [Holds, List.filterMap_cons, hl]
  exact h

theorem Holds.at_most_one (h : Holds inside ts sec) :
    ts.countP (fun t => (inside t.ghost).isSome) ≤ 1 := by
  have hcount : ts.countP (fun t => (inside t.ghost).isSome) =
      (ts.filterMap (fun t => inside t.ghost)).length := by
    rw [List.length_filterMap_eq_countP]
  rw [hcount, h]
  cases sec <;> simp

theorem Holds.of_outside (hts : ∀ t ∈ ts, inside t.ghost = none) (h : Holds inside ts sec) :
    sec = none := by
  have hnil : ts.filterMap (fun t => inside t.ghost) = [] := List.filterMap_eq_nil_iff.mpr hts
  rw [Holds, hnil] at h
  cases sec with
  | none => rfl
  | some s => cases h

theorem respects_interp {Op' : Type} {Ans' : Op' → Type} {after : (o : Op) → Ans o → L → L}
    {allowed : Op → L → Prop} {f : (o : Op') → Prog Op Ans (Ans' o)} (I : L → Prop)
    (hf : ∀ o l, I l → Respects after allowed (f o) l (fun _ m => I m)) (p : Prog Op' Ans' α) (l : L)
    (hl : I l) : Respects after allowed (p.interp f) l (fun _ m => I m) := by
  induction p generalizing l with
  | ret a => exact hl
  | call o k ih =>
    rw [Prog.interp, respects_bind]
    exact respects_mono (hf o l hl) fun r m hm => ih r m hm

end Interleave

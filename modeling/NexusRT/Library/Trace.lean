import NexusRT.Library.Prog

namespace Prog

variable {Op : Type} {Ans : Op → Type} {α β γ : Type}

abbrev Event (Op : Type) (Ans : Op → Type) := (o : Op) × Ans o

/-- `Traces A p t b`: with answers that `A` allows the program may make the calls `t` and end in
`b`. -/
def Traces (A : (o : Op) → Ans o → Prop) : Prog Op Ans α → List (Event Op Ans) → α → Prop
  | .ret a, t, b => t = [] ∧ b = a
  | .call o k, t, b => ∃ r u, A o r ∧ t = ⟨o, r⟩ :: u ∧ Traces A (k r) u b

def calls (t : List (Event Op Ans)) : List Op := t.map Sigma.fst

@[simp] theorem calls_nil : calls ([] : List (Event Op Ans)) = [] := rfl

@[simp] theorem calls_cons (e : Event Op Ans) (t : List (Event Op Ans)) :
    calls (e :: t) = e.1 :: calls t := rfl

@[simp] theorem calls_append (t u : List (Event Op Ans)) : calls (t ++ u) = calls t ++ calls u :=
  List.map_append

variable {A : (o : Op) → Ans o → Prop}

@[simp] theorem traces_ret (a b : α) (t : List (Event Op Ans)) :
    Traces A (.ret a) t b ↔ t = [] ∧ b = a := Iff.rfl

@[simp] theorem traces_call (o : Op) (k : Ans o → Prog Op Ans α) (t : List (Event Op Ans)) (b : α) :
    Traces A (.call o k) t b ↔ ∃ r u, A o r ∧ t = ⟨o, r⟩ :: u ∧ Traces A (k r) u b := Iff.rfl

theorem traces_op_bind (o : Op) (f : Ans o → Prog Op Ans α) (t : List (Event Op Ans)) (b : α) :
    Traces A (op o >>= f) t b ↔ ∃ r u, A o r ∧ t = ⟨o, r⟩ :: u ∧ Traces A (f r) u b := Iff.rfl

theorem traces_bind (p : Prog Op Ans α) (f : α → Prog Op Ans β) (t : List (Event Op Ans)) (b : β) :
    Traces A (p >>= f) t b ↔ ∃ u v a, t = u ++ v ∧ Traces A p u a ∧ Traces A (f a) v b := by
  induction p generalizing t with
  | ret a => simp
  | call o k ih =>
    simp only [call_bind, traces_call, ih]
    constructor
    · rintro ⟨r, _, hr, rfl, u, v, a, rfl, hk, hf⟩
      exact ⟨⟨o, r⟩ :: u, v, a, rfl, ⟨r, u, hr, rfl, hk⟩, hf⟩
    · rintro ⟨_, v, a, rfl, ⟨r, u, hr, rfl, hk⟩, hf⟩
      exact ⟨r, u ++ v, hr, rfl, u, v, a, rfl, hk, hf⟩

theorem traces_guarded_op {c : Bool} {o : Op} {off : α} {k : Ans o → α} {t : List (Event Op Ans)}
    {b : α} :
    Traces A (if !c then .ret off else op o >>= fun r => .ret (k r)) t b ↔
      (c = false ∧ t = [] ∧ b = off) ∨ (c = true ∧ ∃ r, A o r ∧ t = [⟨o, r⟩] ∧ b = k r) := by
  cases c with
  | false => simp
  | true =>
    simp only [Bool.not_true, Bool.false_eq_true, ↓reduceIte, traces_op_bind, traces_ret,
      Bool.true_eq_false, false_and, true_and, false_or]
    constructor
    · rintro ⟨r, _, hA, rfl, rfl, hb⟩
      exact ⟨r, hA, rfl, hb⟩
    · rintro ⟨r, hA, rfl, hb⟩
      exact ⟨r, [], hA, rfl, rfl, hb⟩

theorem traces_forM_flatMap {f : β → Prog Op Ans PUnit} {g : Op → List γ} {c : β → List γ}
    {l : List β} (hf : ∀ x ∈ l, ∀ t u, Traces A (f x) t u → (calls t).flatMap g = c x)
    {t : List (Event Op Ans)} {u : PUnit} (h : Traces A (l.forM f) t u) :
    (calls t).flatMap g = l.flatMap c := by
  induction l generalizing t with
  | nil =>
    obtain ⟨rfl, _⟩ := h
    rfl
  | cons x l ih =>
    change Traces A (f x >>= fun _ => l.forM f) t u at h
    rw [traces_bind] at h
    obtain ⟨t₁, t₂, _, rfl, hx, hl⟩ := h
    rw [calls_append, List.flatMap_append, hf x List.mem_cons_self _ _ hx,
      ih (fun y hy => hf y (List.mem_cons_of_mem x hy)) hl, List.flatMap_cons]

theorem traces_forM {f : β → Prog Op Ans PUnit} {c : β → Op}
    (hf : ∀ x t u, Traces A (f x) t u → calls t = [c x]) {l : List β}
    {t : List (Event Op Ans)} {u : PUnit} (h : Traces A (l.forM f) t u) :
    calls t = l.map c := by
  rw [← List.flatMap_singleton' (calls t), List.map_eq_flatMap]
  apply traces_forM_flatMap _ h
  intro x _ t u hx
  rw [hf x t u hx, List.flatMap_singleton']

theorem Traces.exec {p : Prog Op Ans α} {t : List (Event Op Ans)} {b : α} (h : Traces A p t b) :
    Exec (allow A) p () b () := by
  induction p generalizing t with
  | ret a => exact ⟨h.2, rfl⟩
  | call o k ih =>
    obtain ⟨r, u, hr, _, h⟩ := h
    exact ⟨r, (), hr, ih r h⟩

theorem Traces.of_translate {Op' : Type} {Ans' : Op' → Type} {f : Op → Op'}
    {back : (o : Op) → Ans' (f o) → Ans o} {B : (o : Op') → Ans' o → Prop}
    (hB : ∀ o r, B (f o) r → A o (back o r)) {p : Prog Op Ans α} {t : List (Event Op' Ans')} {b : α}
    (h : Traces B (p.translate f back) t b) : ∃ u, Traces A p u b := by
  induction p generalizing t with
  | ret a => exact ⟨[], rfl, h.2⟩
  | call o k ih =>
    obtain ⟨r, _, hr, _, h⟩ := h
    obtain ⟨u, hu⟩ := ih _ h
    exact ⟨⟨o, back o r⟩ :: u, back o r, u, hB o r hr, rfl, hu⟩

theorem Traces.of_interp {Op' : Type} {Ans' : Op' → Type} {f : (o : Op) → Prog Op' Ans' (Ans o)}
    {B : (o : Op') → Ans' o → Prop} {g : Event Op Ans → List (Event Op' Ans')}
    (hf : ∀ o t r, Traces B (f o) t r → A o r ∧ t = g ⟨o, r⟩) {p : Prog Op Ans α}
    {t : List (Event Op' Ans')} {b : α} (h : Traces B (p.interp f) t b) :
    ∃ u, Traces A p u b ∧ t = u.flatMap g := by
  induction p generalizing t with
  | ret a =>
    obtain ⟨rfl, rfl⟩ := h
    exact ⟨[], ⟨rfl, rfl⟩, rfl⟩
  | call o k ih =>
    rw [interp, traces_bind] at h
    obtain ⟨t₁, t₂, r, rfl, ho, hk⟩ := h
    obtain ⟨hr, rfl⟩ := hf o t₁ r ho
    obtain ⟨u, hu, rfl⟩ := ih r hk
    exact ⟨⟨o, r⟩ :: u, ⟨r, u, hr, rfl, hu⟩, rfl⟩

def Only (P : Op → Prop) : Prog Op Ans α → Prop
  | .ret _ => True
  | .call o k => P o ∧ ∀ r, Only P (k r)

theorem Only.bind {P : Op → Prop} {p : Prog Op Ans α} {f : α → Prog Op Ans β} (hp : Only P p)
    (hf : ∀ a, Only P (f a)) : Only P (p >>= f) := by
  induction p with
  | ret a => exact hf a
  | call o k ih => exact ⟨hp.1, fun r => ih r (hp.2 r)⟩

theorem Only.bind_of_always {P : Op → Prop} {p : Prog Op Ans α} {f : α → Prog Op Ans β}
    (hp : Only P p) (hf : Always (allow fun _ _ => True) p () fun a _ => Only P (f a)) :
    Only P (p >>= f) := by
  induction p with
  | ret a => exact hf
  | call o k ih => exact ⟨hp.1, fun r => ih r (hp.2 r) (hf r () trivial)⟩

theorem Only.op_bind {P : Op → Prop} {o : Op} {f : Ans o → Prog Op Ans α} (ho : P o)
    (hf : ∀ r, Only P (f r)) : Only P (op o >>= f) := ⟨ho, hf⟩

theorem Only.ite {P : Op → Prop} {c : Prop} [Decidable c] {p q : Prog Op Ans α} (hp : Only P p)
    (hq : Only P q) : Only P (if c then p else q) := by
  split
  · exact hp
  · exact hq

theorem Only.mono {P Q : Op → Prop} {p : Prog Op Ans α} (hp : Only P p) (hPQ : ∀ o, P o → Q o) :
    Only Q p := by
  induction p with
  | ret a => exact trivial
  | call o k ih => exact ⟨hPQ o hp.1, fun r => ih r (hp.2 r)⟩

theorem Only.forM {P : Op → Prop} {f : β → Prog Op Ans PUnit} (hf : ∀ x, Only P (f x)) (l : List β) :
    Only P (l.forM f) := by
  induction l with
  | nil => exact trivial
  | cons x l ih => exact (hf x).bind fun _ => ih

theorem Only.calls {P : Op → Prop} {p : Prog Op Ans α} {t : List (Event Op Ans)} {b : α}
    (hp : Only P p) (h : Traces A p t b) : ∀ o ∈ calls t, P o := by
  induction p generalizing t with
  | ret a =>
    obtain ⟨rfl, _⟩ := h
    simp
  | call o k ih =>
    obtain ⟨r, u, _, rfl, h⟩ := h
    rw [calls_cons, List.forall_mem_cons]
    exact ⟨hp.1, ih r (hp.2 r) h⟩

theorem Only.exec_invariant {σ : Type} {P : Op → Prop} {H : (o : Op) → σ → Ans o → σ → Prop}
    {I : σ → Prop} (hI : ∀ o s r t, P o → H o s r t → I s → I t) {p : Prog Op Ans α} {s t : σ} {b : α}
    (hp : Only P p) (h : Exec H p s b t) (hs : I s) : I t := by
  induction p generalizing s with
  | ret a =>
    obtain ⟨_, rfl⟩ := h
    exact hs
  | call o k ih =>
    obtain ⟨r, u, hH, h⟩ := h
    exact ih r (hp.2 r) h (hI o s r u hp.1 hH hs)

theorem Only.exists_exec {σ : Type} {P : Op → Prop} {H : (o : Op) → σ → Ans o → σ → Prop}
    (hH : ∀ o s, P o → ∃ r t, H o s r t) {p : Prog Op Ans α} (hp : Only P p) (s : σ) :
    ∃ b t, Exec H p s b t := by
  induction p generalizing s with
  | ret a => exact ⟨a, s, rfl, rfl⟩
  | call o k ih =>
    obtain ⟨r, u, hr⟩ := hH o s hp.1
    obtain ⟨b, t, h⟩ := ih r (hp.2 r) u
    exact ⟨b, t, r, u, hr, h⟩

def traceWith (f : (o : Op) → Ans o) : Prog Op Ans α → List (Event Op Ans) × α
  | .ret a => ([], a)
  | .call o k => (⟨o, f o⟩ :: (traceWith f (k (f o))).1, (traceWith f (k (f o))).2)

@[simp] theorem traceWith_ret (f : (o : Op) → Ans o) (a : α) :
    traceWith f (.ret a : Prog Op Ans α) = ([], a) := rfl

@[simp] theorem traceWith_call (f : (o : Op) → Ans o) (o : Op) (k : Ans o → Prog Op Ans α) :
    traceWith f (.call o k) =
      (⟨o, f o⟩ :: (traceWith f (k (f o))).1, (traceWith f (k (f o))).2) := rfl

theorem traceWith_bind (f : (o : Op) → Ans o) (p : Prog Op Ans α) (q : α → Prog Op Ans β) :
    traceWith f (p >>= q) = ((traceWith f p).1 ++ (traceWith f (q (traceWith f p).2)).1,
      (traceWith f (q (traceWith f p).2)).2) := by
  induction p with
  | ret a => rfl
  | call o k ih => simp only [call_bind, traceWith_call, ih, List.cons_append]

theorem traces_traceWith {f : (o : Op) → Ans o} (hf : ∀ o, A o (f o)) (p : Prog Op Ans α) :
    Traces A p (traceWith f p).1 (traceWith f p).2 := by
  induction p with
  | ret a => exact ⟨rfl, rfl⟩
  | call o k ih => exact ⟨f o, _, hf o, rfl, ih (f o)⟩

end Prog

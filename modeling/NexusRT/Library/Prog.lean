import Mathlib.Logic.Basic
import Mathlib.Tactic.Common

/-- A program over the operations `Op`: it stops with a value or calls one operation and goes on
with the answer. -/
inductive Prog (Op : Type) (Ans : Op → Type) (α : Type) : Type
  | ret (a : α)
  | call (o : Op) (k : Ans o → Prog Op Ans α)

namespace Prog

variable {Op : Type} {Ans : Op → Type} {α β γ σ : Type}

protected def bind : Prog Op Ans α → (α → Prog Op Ans β) → Prog Op Ans β
  | .ret a, f => f a
  | .call o k, f => .call o (fun r => (k r).bind f)

instance : Monad (Prog Op Ans) where
  pure := .ret
  bind := Prog.bind

def op (o : Op) : Prog Op Ans (Ans o) := .call o .ret

@[simp] theorem pure_eq (a : α) : (pure a : Prog Op Ans α) = .ret a := rfl

@[simp] theorem ret_bind (a : α) (f : α → Prog Op Ans β) : (.ret a : Prog Op Ans α) >>= f = f a := rfl

@[simp] theorem call_bind (o : Op) (k : Ans o → Prog Op Ans α) (f : α → Prog Op Ans β) :
    Prog.call o k >>= f = .call o (fun r => k r >>= f) := rfl

theorem bind_bind (p : Prog Op Ans α) (f : α → Prog Op Ans β) (g : β → Prog Op Ans γ) :
    p >>= f >>= g = p >>= fun a => f a >>= g := by
  induction p with
  | ret a => rfl
  | call o k ih => simp only [call_bind, ih]

theorem bind_ret (p : Prog Op Ans α) : p >>= (fun a => .ret a) = p := by
  induction p with
  | ret a => rfl
  | call o k ih => simp only [call_bind, ih]

/-- One sequential execution: `H o s r t` says that operation `o` may take the state `s` to `t`
and answer `r`. -/
def Exec (H : (o : Op) → σ → Ans o → σ → Prop) : Prog Op Ans α → σ → α → σ → Prop
  | .ret a, s, b, t => b = a ∧ t = s
  | .call o k, s, b, t => ∃ r u, H o s r u ∧ Exec H (k r) u b t

def Always (H : (o : Op) → σ → Ans o → σ → Prop) : Prog Op Ans α → σ → (α → σ → Prop) → Prop
  | .ret a, s, Q => Q a s
  | .call o k, s, Q => ∀ r u, H o s r u → Always H (k r) u Q

variable {H : (o : Op) → σ → Ans o → σ → Prop}

@[simp] theorem exec_ret (a b : α) (s t : σ) :
    Exec H (.ret a : Prog Op Ans α) s b t ↔ b = a ∧ t = s := Iff.rfl

@[simp] theorem exec_call (o : Op) (k : Ans o → Prog Op Ans α) (s t : σ) (b : α) :
    Exec H (.call o k) s b t ↔ ∃ r u, H o s r u ∧ Exec H (k r) u b t := Iff.rfl

theorem exec_op_bind (o : Op) (f : Ans o → Prog Op Ans α) (s t : σ) (b : α) :
    Exec H (op o >>= f) s b t ↔ ∃ r u, H o s r u ∧ Exec H (f r) u b t := Iff.rfl

@[simp] theorem always_ret (a : α) (s : σ) (Q : α → σ → Prop) :
    Always H (.ret a : Prog Op Ans α) s Q ↔ Q a s := Iff.rfl

@[simp] theorem always_call (o : Op) (k : Ans o → Prog Op Ans α) (s : σ) (Q : α → σ → Prop) :
    Always H (.call o k) s Q ↔ ∀ r u, H o s r u → Always H (k r) u Q := Iff.rfl

theorem always_iff (p : Prog Op Ans α) (s : σ) (Q : α → σ → Prop) :
    Always H p s Q ↔ ∀ b t, Exec H p s b t → Q b t := by
  induction p generalizing s with
  | ret a =>
    constructor
    · rintro h b t ⟨rfl, rfl⟩
      exact h
    · intro h
      exact h a s ⟨rfl, rfl⟩
  | call o k ih =>
    simp only [always_call, exec_call, ih]
    constructor
    · rintro h b t ⟨r, u, hH, he⟩
      exact h r u hH b t he
    · intro h r u hH b t he
      exact h b t ⟨r, u, hH, he⟩

theorem exec_bind (p : Prog Op Ans α) (f : α → Prog Op Ans β) (s t : σ) (b : β) :
    Exec H (p >>= f) s b t ↔ ∃ a u, Exec H p s a u ∧ Exec H (f a) u b t := by
  induction p generalizing s with
  | ret a => simp
  | call o k ih =>
    simp only [call_bind, exec_call, ih]
    constructor
    · rintro ⟨r, u, hH, a, v, hk, hf⟩
      exact ⟨a, v, ⟨r, u, hH, hk⟩, hf⟩
    · rintro ⟨a, v, ⟨r, u, hH, hk⟩, hf⟩
      exact ⟨r, u, hH, a, v, hk, hf⟩

theorem always_bind (p : Prog Op Ans α) (f : α → Prog Op Ans β) (s : σ) (Q : β → σ → Prop) :
    Always H (p >>= f) s Q ↔ Always H p s (fun a t => Always H (f a) t Q) := by
  induction p generalizing s with
  | ret a => rfl
  | call o k ih => simp only [call_bind, always_call, ih]

theorem always_true (p : Prog Op Ans α) (s : σ) : Always H p s (fun _ _ => True) := by
  rw [always_iff]
  exact fun _ _ _ => trivial

theorem always_mono {p : Prog Op Ans α} {s : σ} {Q R : α → σ → Prop} (h : Always H p s Q)
    (hQR : ∀ a t, Q a t → R a t) : Always H p s R := by
  rw [always_iff] at h ⊢
  exact fun b t he => hQR b t (h b t he)

theorem always_and {p : Prog Op Ans α} {s : σ} {Q R : α → σ → Prop} (hQ : Always H p s Q)
    (hR : Always H p s R) : Always H p s (fun a t => Q a t ∧ R a t) := by
  rw [always_iff] at hQ hR ⊢
  exact fun b t he => ⟨hQ b t he, hR b t he⟩

theorem exec_invariant {I : σ → Prop} (hI : ∀ o s r t, H o s r t → I s → I t) {p : Prog Op Ans α}
    {s t : σ} {b : α} (h : Exec H p s b t) (hs : I s) : I t := by
  induction p generalizing s with
  | ret a =>
    obtain ⟨_, rfl⟩ := h
    exact hs
  | call o k ih =>
    obtain ⟨r, u, hH, h⟩ := h
    exact ih r h (hI o s r u hH hs)

theorem exec_coarsen {τ : Type} {K : (o : Op) → τ → Ans o → τ → Prop} (f : σ → τ)
    (hf : ∀ o s r t, H o s r t → K o (f s) r (f t)) {p : Prog Op Ans α} {s t : σ} {b : α}
    (h : Exec H p s b t) : Exec K p (f s) b (f t) := by
  induction p generalizing s with
  | ret a =>
    obtain ⟨hb, rfl⟩ := h
    exact ⟨hb, rfl⟩
  | call o k ih =>
    obtain ⟨r, u, hH, h⟩ := h
    exact ⟨r, f u, hf o s r u hH, ih r h⟩

def allow (A : (o : Op) → Ans o → Prop) : (o : Op) → Unit → Ans o → Unit → Prop :=
  fun o _ r _ => A o r

theorem exec_of_always {Q : α → Prop} {p : Prog Op Ans α} {s t : σ} {b : α}
    (hp : Always (allow fun _ _ => True) p () (fun a _ => Q a)) (h : Exec H p s b t) : Q b := by
  induction p generalizing s with
  | ret a =>
    obtain ⟨rfl, _⟩ := h
    exact hp
  | call o k ih =>
    obtain ⟨r, u, _, h⟩ := h
    exact ih r (hp r () trivial) h

theorem bind_congr_of_always {p : Prog Op Ans α} {f g : α → Prog Op Ans β}
    (h : Always (allow fun _ _ => True) p () (fun a _ => f a = g a)) : p >>= f = p >>= g := by
  induction p with
  | ret a => exact h
  | call o k ih =>
    rw [call_bind, call_bind]
    congr 1
    funext r
    exact ih r (h r () trivial)

def eval (f : (o : Op) → σ → Ans o × σ) : Prog Op Ans α → σ → α × σ
  | .ret a, s => (a, s)
  | .call o k, s => eval f (k (f o s).1) (f o s).2

theorem exec_eval {f : (o : Op) → σ → Ans o × σ} (hf : ∀ o s, H o s (f o s).1 (f o s).2)
    (p : Prog Op Ans α) (s : σ) : Exec H p s (eval f p s).1 (eval f p s).2 := by
  induction p generalizing s with
  | ret a => exact ⟨rfl, rfl⟩
  | call o k ih => exact ⟨_, _, hf o s, ih _ _⟩

def translate {Op' : Type} {Ans' : Op' → Type} (f : Op → Op') (back : (o : Op) → Ans' (f o) → Ans o) :
    Prog Op Ans α → Prog Op' Ans' α
  | .ret a => .ret a
  | .call o k => .call (f o) (fun r => (k (back o r)).translate f back)

theorem always_translate {Op' : Type} {Ans' : Op' → Type} {K : (o : Op') → σ → Ans' o → σ → Prop}
    {f : Op → Op'} {back : (o : Op) → Ans' (f o) → Ans o} (p : Prog Op Ans α) (s : σ)
    (Q : α → σ → Prop) : Always K (p.translate f back) s Q ↔
      Always (fun o s r t => ∃ r', K (f o) s r' t ∧ back o r' = r) p s Q := by
  induction p generalizing s with
  | ret a => rfl
  | call o k ih =>
    simp only [translate, always_call, ih]
    constructor
    · rintro h _ u ⟨r', hK, rfl⟩
      exact h r' u hK
    · exact fun h r' u hK => h _ u ⟨r', hK, rfl⟩

def interp {Op' : Type} {Ans' : Op' → Type} (f : (o : Op) → Prog Op' Ans' (Ans o)) :
    Prog Op Ans α → Prog Op' Ans' α
  | .ret a => .ret a
  | .call o k => f o >>= fun r => (k r).interp f

theorem exec_interp {Op' : Type} {Ans' : Op' → Type} {K : (o : Op') → σ → Ans' o → σ → Prop}
    (f : (o : Op) → Prog Op' Ans' (Ans o)) (p : Prog Op Ans α) (s t : σ) (b : α) :
    Exec K (p.interp f) s b t ↔ Exec (fun o => Exec K (f o)) p s b t := by
  induction p generalizing s with
  | ret a => rfl
  | call o k ih => simp only [interp, exec_bind, exec_call, ih]

def interpWith {Op' : Type} {Ans' : Op' → Type} (f : (o : Op) → σ → Prog Op' Ans' (Ans o × σ)) :
    Prog Op Ans α → σ → Prog Op' Ans' (α × σ)
  | .ret a, s => .ret (a, s)
  | .call o k, s => f o s >>= fun r => (k r.1).interpWith f r.2

@[simp] theorem interpWith_op {Op' : Type} {Ans' : Op' → Type}
    (f : (o : Op) → σ → Prog Op' Ans' (Ans o × σ)) (o : Op) (s : σ) :
    (op o).interpWith f s = f o s := bind_ret (f o s)

theorem interpWith_bind {Op' : Type} {Ans' : Op' → Type}
    (f : (o : Op) → σ → Prog Op' Ans' (Ans o × σ)) (p : Prog Op Ans α) (q : α → Prog Op Ans β)
    (s : σ) :
    (p >>= q).interpWith f s = p.interpWith f s >>= fun r => (q r.1).interpWith f r.2 := by
  induction p generalizing s with
  | ret a => rfl
  | call o k ih => simp only [call_bind, interpWith, bind_bind, ih]

end Prog

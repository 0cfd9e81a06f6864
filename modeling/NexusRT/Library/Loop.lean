import NexusRT.Library.Prog

/-!
`while` loops with fuel. A body answers `.inl b` to go round again and `.inr c` to leave; `none`
says that the fuel ran out before the loop left.
-/

variable {β γ : Type}

def loop (body : β → β ⊕ γ) : ℕ → β → Option γ
  | 0, _ => none
  | n + 1, b => match body b with
    | .inl b' => loop body n b'
    | .inr c => some c

theorem loop_total {body : β → β ⊕ γ} (I : β → Prop) (m : β → ℕ) (Q : γ → Prop)
    (hinl : ∀ b b', I b → body b = .inl b' → I b' ∧ m b' < m b)
    (hinr : ∀ b c, I b → body b = .inr c → Q c) (n : ℕ) (b : β) (hb : I b) (hn : m b < n) :
    ∃ c, loop body n b = some c ∧ Q c := by
  induction n generalizing b with
  | zero => omega
  | succ n ih =>
    simp only [loop]
    cases hbody : body b with
    | inl b' =>
      obtain ⟨hI, hm⟩ := hinl b b' hb hbody
      exact ih b' hI (by omega)
    | inr c => exact ⟨c, rfl, hinr b c hb hbody⟩

namespace Prog

variable {Op : Type} {Ans : Op → Type} {σ : Type}

def iterate (body : β → Prog Op Ans (β ⊕ γ)) : ℕ → β → Prog Op Ans (Option γ)
  | 0, _ => .ret none
  | n + 1, b => body b >>= fun
    | .inl b' => iterate body n b'
    | .inr c => .ret (some c)

variable {H : (o : Op) → σ → Ans o → σ → Prop}

theorem always_iterate {body : β → Prog Op Ans (β ⊕ γ)} (I : β → σ → Prop) (Q : γ → σ → Prop)
    (hbody : ∀ b s, I b s → Always H (body b) s (fun r t => r.elim (I · t) (Q · t)))
    (n : ℕ) (b : β) (s : σ) (hb : I b s) :
    Always H (iterate body n b) s (fun o t => ∀ c, o = some c → Q c t) := by
  induction n generalizing b s with
  | zero => simp [iterate]
  | succ n ih =>
    rw [iterate, always_bind]
    apply always_mono (hbody b s hb)
    intro r t hr
    cases r with
    | inl b' => exact ih b' t hr
    | inr c => rintro c' ⟨⟩; exact hr

theorem always_iterate_leaves {body : β → Prog Op Ans (β ⊕ γ)} (I : β → σ → Prop) (m : β → ℕ)
    (hbody : ∀ b s, I b s →
      Always H (body b) s (fun r t => ∀ b', r = .inl b' → I b' t ∧ m b' < m b))
    (n : ℕ) (b : β) (s : σ) (hb : I b s) (hn : m b < n) :
    Always H (iterate body n b) s (fun o _ => o ≠ none) := by
  induction n generalizing b s with
  | zero => omega
  | succ n ih =>
    rw [iterate, always_bind]
    apply always_mono (hbody b s hb)
    intro r t hr
    cases r with
    | inl b' =>
      obtain ⟨hI, hm⟩ := hr b' rfl
      exact ih b' t hI (by omega)
    | inr c => simp

end Prog

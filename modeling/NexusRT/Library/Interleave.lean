import Mathlib.Logic.Relation
import NexusRT.Library.Loop

/-!
Threads that interleave at the calls of their programs. Every thread carries a ghost value that
only its own calls change.
-/

namespace Interleave

variable {Op : Type} {Ans : Op → Type} {σ L α β γ : Type}

structure Thread (Op : Type) (Ans : Op → Type) (L : Type) where
  ghost : L
  prog : Prog Op Ans Unit

structure Pool (Op : Type) (Ans : Op → Type) (σ L : Type) where
  state : σ
  threads : List (Thread Op Ans L)

/-- A shared state with its operations, the programs that a new thread may have, and the ghost
values. -/
structure System (Op : Type) (Ans : Op → Type) (σ L : Type) where
  serves : (o : Op) → σ → Ans o → σ → Prop
  client : Prog Op Ans Unit → Prop
  initial : L
  after : (o : Op) → Ans o → L → L

inductive Action (Op : Type)
  | call (o : Op)
  | spawn

inductive Step (S : System Op Ans σ L) : Pool Op Ans σ L → Action Op → Pool Op Ans σ L → Prop
  | call (pre post : List (Thread Op Ans L)) (l : L) (o : Op) (k : Ans o → Prog Op Ans Unit)
      (s : σ) (r : Ans o) (t : σ) (h : S.serves o s r t) :
      Step S ⟨s, pre ++ ⟨l, .call o k⟩ :: post⟩ (.call o) ⟨t, pre ++ ⟨S.after o r l, k r⟩ :: post⟩
  | spawn (s : σ) (ts : List (Thread Op Ans L)) (p : Prog Op Ans Unit) (hp : S.client p) :
      Step S ⟨s, ts⟩ .spawn ⟨s, ⟨S.initial, p⟩ :: ts⟩

def Run (S : System Op Ans σ L) (G : Pool Op Ans σ L → Action Op → Prop) :
    Pool Op Ans σ L → Pool Op Ans σ L → Prop :=
  Relation.ReflTransGen (fun p q => ∃ a, Step S p a q ∧ G p a)

def Done (p : Pool Op Ans σ L) : Prop := ∀ t ∈ p.threads, t.prog = .ret ()

theorem mem_threads {pre post : List α} {u v t : α} (h : t ∈ pre ++ v :: post) :
    t = v ∨ t ∈ pre ++ u :: post := by
  simp only [List.mem_append, List.mem_cons] at h ⊢
  tauto

theorem Run.weaken {S : System Op Ans σ L} {G H : Pool Op Ans σ L → Action Op → Prop}
    {p q : Pool Op Ans σ L} (h : Run S G p q) (hGH : ∀ p a, G p a → H p a) : Run S H p q :=
  h.lift id (fun _ _ ⟨a, hstep, hG⟩ => ⟨a, hstep, hGH _ a hG⟩)

theorem Run.spawn {S : System Op Ans σ L} {G : Pool Op Ans σ L → Action Op → Prop}
    {p : Pool Op Ans σ L} {s : σ} {ts : List (Thread Op Ans L)} (h : Run S G p ⟨s, ts⟩)
    (q : Prog Op Ans Unit) (hq : S.client q) (hG : G ⟨s, ts⟩ .spawn) :
    Run S G p ⟨s, ⟨S.initial, q⟩ :: ts⟩ :=
  h.tail ⟨.spawn, .spawn s ts q hq, hG⟩

theorem Run.call {S : System Op Ans σ L} {G : Pool Op Ans σ L → Action Op → Prop}
    {p : Pool Op Ans σ L} {s t : σ} {l : L} (pre : List (Thread Op Ans L))
    {post : List (Thread Op Ans L)} (o : Op) (r : Ans o) {k : Ans o → Prog Op Ans Unit}
    (h : Run S G p ⟨s, pre ++ ⟨l, .call o k⟩ :: post⟩) (hr : S.serves o s r t)
    (hG : G ⟨s, pre ++ ⟨l, .call o k⟩ :: post⟩ (.call o)) :
    Run S G p ⟨t, pre ++ ⟨S.after o r l, k r⟩ :: post⟩ :=
  h.tail ⟨.call o, .call pre post l o k s r t hr, hG⟩

/-- A program calls only what `allowed` allows for its ghost value, and ends in `Q`. -/
def Respects (after : (o : Op) → Ans o → L → L) (allowed : Op → L → Prop) :
    Prog Op Ans α → L → (α → L → Prop) → Prop
  | .ret a, l, Q => Q a l
  | .call o k, l, Q => allowed o l ∧ ∀ r, Respects after allowed (k r) (after o r l) Q

section Respects

variable {after : (o : Op) → Ans o → L → L} {allowed : Op → L → Prop}

@[simp] theorem respects_ret (a : α) (l : L) (Q : α → L → Prop) :
    Respects after allowed (.ret a : Prog Op Ans α) l Q ↔ Q a l := Iff.rfl

@[simp] theorem respects_call (o : Op) (k : Ans o → Prog Op Ans α) (l : L) (Q : α → L → Prop) :
    Respects after allowed (.call o k) l Q ↔
      allowed o l ∧ ∀ r, Respects after allowed (k r) (after o r l) Q := Iff.rfl

theorem respects_bind (p : Prog Op Ans α) (f : α → Prog Op Ans β) (l : L) (Q : β → L → Prop) :
    Respects after allowed (p >>= f) l Q ↔
      Respects after allowed p l (fun a m => Respects after allowed (f a) m Q) := by
  induction p generalizing l with
  | ret a => rfl
  | call o k ih => simp only [Prog.call_bind, respects_call, ih]

theorem respects_mono {p : Prog Op Ans α} {l : L} {Q R : α → L → Prop}
    (h : Respects after allowed p l Q) (hQR : ∀ a m, Q a m → R a m) :
    Respects after allowed p l R := by
  induction p generalizing l with
  | ret a => exact hQR a l h
  | call o k ih => exact ⟨h.1, fun r => ih r (h.2 r)⟩

theorem respects_iterate {body : β → Prog Op Ans (β ⊕ γ)} (I : L → Prop)
    (hbody : ∀ b l, I l → Respects after allowed (body b) l (fun _ m => I m)) (n : ℕ) (b : β)
    (l : L) (hl : I l) : Respects after allowed (Prog.iterate body n b) l (fun _ m => I m) := by
  induction n generalizing b l with
  | zero => exact hl
  | succ n ih =>
    rw [Prog.iterate, respects_bind]
    apply respects_mono (hbody b l hl)
    intro r m hm
    cases r with
    | inl b' => exact ih b' m hm
    | inr c => exact hm

theorem respects_translate {Op' : Type} {Ans' : Op' → Type} {f : Op' → Op}
    {back : (o : Op') → Ans (f o) → Ans' o} (I : L → Prop)
    (hallowed : ∀ o l, I l → allowed (f o) l) (hafter : ∀ o r l, I l → I (after (f o) r l))
    (p : Prog Op' Ans' α) (l : L) (hl : I l) :
    Respects after allowed (p.translate f back) l (fun _ m => I m) := by
  induction p generalizing l with
  | ret a => exact hl
  | call o k ih => exact ⟨hallowed o l hl, fun r => ih _ _ (hafter o r l hl)⟩

end Respects

structure Sound (S : System Op Ans σ L) (allowed : Op → L → Prop) (final : L → Prop)
    (J : σ → List (Thread Op Ans L) → Prop) (p : Pool Op Ans σ L) : Prop where
  threads : ∀ t ∈ p.threads, Respects S.after allowed t.prog t.ghost (fun _ l => final l)
  state : J p.state p.threads

theorem Run.sound {S : System Op Ans σ L} {G : Pool Op Ans σ L → Action Op → Prop}
    {allowed : Op → L → Prop} {final : L → Prop} {J : σ → List (Thread Op Ans L) → Prop}
    (hclient : ∀ p, S.client p → Respects S.after allowed p S.initial (fun _ l => final l))
    (hcall : ∀ pre post l o k s r t, S.serves o s r t → allowed o l →
      G ⟨s, pre ++ ⟨l, .call o k⟩ :: post⟩ (.call o) → J s (pre ++ ⟨l, .call o k⟩ :: post) →
      J t (pre ++ ⟨S.after o r l, k r⟩ :: post))
    (hspawn : ∀ s ts p, S.client p → J s ts → J s (⟨S.initial, p⟩ :: ts))
    {p q : Pool Op Ans σ L} (h : Run S G p q) (hp : Sound S allowed final J p) :
    Sound S allowed final J q := by
  induction h with
  | refl => exact hp
  | tail _ h ih =>
    obtain ⟨a, hstep, hG⟩ := h
    cases hstep with
    | call pre post l o k s r t hserves =>
      obtain ⟨hallowed, hrest⟩ := ih.threads ⟨l, .call o k⟩ (by simp)
      refine ⟨fun u hu => ?_, hcall pre post l o k s r t hserves hallowed hG ih.state⟩
      rcases List.mem_append.mp hu with hu | hu
      · exact ih.threads u (List.mem_append_left _ hu)
      · rcases List.mem_cons.mp hu with rfl | hu
        · exact hrest r
        · exact ih.threads u (List.mem_append_right _ (List.mem_cons_of_mem _ hu))
    | spawn s ts c hc =>
      refine ⟨fun u hu => ?_, hspawn s ts c hc ih.state⟩
      rcases List.mem_cons.mp hu with rfl | hu
      · exact hclient c hc
      · exact ih.threads u hu

theorem Sound.final_of_done {S : System Op Ans σ L} {allowed : Op → L → Prop} {final : L → Prop}
    {J : σ → List (Thread Op Ans L) → Prop} {p : Pool Op Ans σ L} (h : Sound S allowed final J p)
    (hdone : Done p) {t : Thread Op Ans L} (ht : t ∈ p.threads) : final t.ghost := by
  have hrespects := h.threads t ht
  rw [hdone t ht] at hrespects
  exact hrespects

end Interleave

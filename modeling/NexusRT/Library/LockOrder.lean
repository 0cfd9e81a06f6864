import Mathlib.Data.List.Count
import Mathlib.Logic.Function.Basic
import NexusRT.Library.Mutex

/-!
Threads that take mutexes in the order of their ranks, and that change what a mutex guards only
while they hold it. A thread that others join is born with a mutex and keeps it until its end: to
join it is to lock that mutex.
-/

namespace Interleave

open Prog Relation

variable {M : Type} {State : M → Type} {Op : Type} {Ans : Op → Type} {α β : Type}

inductive MutexOp (State : M → Type) (Op : Type)
  | lock (m : M)
  | unlock (m : M)
  | load (m : M)
  | store (m : M) (s : State m)
  | fork (m : M)
  | op (o : Op)

abbrev MutexOp.Answer (Ans : Op → Type) : MutexOp State Op → Type
  | .lock _ => Unit
  | .unlock _ => Unit
  | .load m => State m
  | .store _ _ => Unit
  | .fork _ => Unit
  | .op o => Ans o

abbrev MutexProg (State : M → Type) (Ans : Op → Type) :=
  Prog (MutexOp State Op) (MutexOp.Answer Ans)

def locked (m : M) (p : MutexProg State Ans α) : MutexProg State Ans α := do
  op (MutexOp.lock m)
  let a ← p
  op (MutexOp.unlock m)
  return a

def underThen (m : M) (f : State m → MutexProg State Ans (α × State m))
    (g : α → MutexProg State Ans β) : MutexProg State Ans β :=
  locked m do
    let s ← op (MutexOp.load m)
    let (a, s) ← f s
    op (MutexOp.store m s)
    g a

def under (m : M) (f : State m → MutexProg State Ans (α × State m)) : MutexProg State Ans α :=
  underThen m f pure

def reading (m : M) (f : State m → MutexProg State Ans α) : MutexProg State Ans α :=
  locked m do
    let s ← op (MutexOp.load m)
    f s

/-- To wait for the end of the thread that was born with `m`. -/
def join (m : M) : MutexProg State Ans Unit := locked m (return ())

structure Shared (State : M → Type) where
  taken : M → Bool
  values : (m : M) → State m

structure Grip (State : M → Type) where
  held : List M := []
  view : (m : M) → Option (State m) := fun _ => none

variable [DecidableEq M]

/-- The answers of the operations that have nothing to do with mutexes are arbitrary. A thread cannot
be started while another holds its mutex. -/
def MutexOp.Serves : (o : MutexOp State Op) → Shared State → o.Answer Ans → Shared State → Prop
  | .lock m, s, _, t => s.taken m = false ∧ t = { s with taken := Function.update s.taken m true }
  | .unlock m, s, _, t => t = { s with taken := Function.update s.taken m false }
  | .load m, s, r, t => r = s.values m ∧ t = s
  | .store m v, s, _, t => t = { s with values := Function.update s.values m v }
  | .fork m, s, _, t => s.taken m = false ∧ t = { s with taken := Function.update s.taken m true }
  | .op _, s, _, t => t = s

def Grip.see (l : Grip State) (m : M) (v : Option (State m)) : Grip State :=
  { l with view := Function.update l.view m v }

@[simp] theorem Grip.see_held (l : Grip State) (m : M) (v : Option (State m)) :
    (l.see m v).held = l.held := rfl

@[simp] theorem Grip.see_self (l : Grip State) (m : M) (v : Option (State m)) :
    (l.see m v).view m = v := Function.update_self ..

theorem Grip.see_of_ne (l : Grip State) {m x : M} (h : x ≠ m) (v : Option (State m)) :
    (l.see m v).view x = l.view x := Function.update_of_ne h ..

def MutexOp.after : (o : MutexOp State Op) → o.Answer Ans → Grip State → Grip State
  | .lock m, _, l => { l with held := m :: l.held }
  | .unlock m, _, l => { l with held := l.held.erase m }.see m none
  | .load m, s, l => if m ∈ l.held then l.see m (some s) else l
  | .store m s, _, l => l.see m (some s)
  | .fork _, _, l => l
  | .op _, _, l => l

variable (rank : M → ℕ) (Step : (m : M) → State m → State m → Prop)

/-- A mutex is taken only by who holds none of its rank or above, and a store is a step from what
was read. -/
def MutexOp.Orderly : MutexOp State Op → Grip State → Prop
  | .lock m, l => ∀ x ∈ l.held, rank x < rank m
  | .unlock m, l => m ∈ l.held
  | .load _, _ => True
  | .store m s, l => m ∈ l.held ∧ ∃ s₀, l.view m = some s₀ ∧ Step m s₀ s
  | .fork m, l => ∀ x ∈ l.held, rank x < rank m
  | .op _, _ => True

def TakesFrom (r : ℕ) (p : MutexProg State Ans α) : Prop :=
  ∀ l : Grip State, (∀ x ∈ l.held, rank x < r) →
    Respects MutexOp.after (MutexOp.Orderly rank Step) p l
      (fun _ l' => l'.held = l.held ∧ ∀ m ∈ l.held, l'.view m = l.view m)

/-- What can be the result of a program, whatever its operations answer. -/
def Yields (p : Prog Op Ans α) (a : α) : Prop := Exec (allow fun _ _ => True) p () a ()

section Programs

theorem respects_yields {L : Type} {after : (o : Op) → Ans o → L → L} {allowed : Op → L → Prop}
    {p : Prog Op Ans α} {l : L} {Q : α → L → Prop} (h : Respects after allowed p l Q) :
    Respects after allowed p l (fun a m => Q a m ∧ Yields p a) := by
  induction p generalizing l with
  | ret a => exact ⟨h, rfl, rfl⟩
  | call o k ih =>
    refine ⟨h.1, fun r => respects_mono (ih r (h.2 r)) fun a m ha => ⟨ha.1, r, (), trivial, ha.2⟩⟩

theorem respects_op_bind {L : Type} {after : (o : Op) → Ans o → L → L} {allowed : Op → L → Prop}
    (o : Op) (f : Ans o → Prog Op Ans α) (l : L) (Q : α → L → Prop) :
    Respects after allowed (op o >>= f) l Q ↔
      allowed o l ∧ ∀ r, Respects after allowed (f r) (after o r l) Q := Iff.rfl

theorem Yields.of_interp {Op' : Type} {Ans' : Op' → Type} {f : (o : Op) → Prog Op' Ans' (Ans o)}
    {p : Prog Op Ans α} {a : α} (h : Yields (p.interp f) a) : Yields p a := by
  induction p with
  | ret b => exact h
  | call o k ih =>
    rw [Yields, interp, exec_bind] at h
    obtain ⟨r, _, _, h⟩ := h
    exact ⟨r, (), trivial, ih r h⟩

theorem Yields.bind {p : Prog Op Ans α} {f : α → Prog Op Ans β} {a : α} {b : β} (hp : Yields p a)
    (hf : Yields (f a) b) : Yields (p >>= f) b :=
  (exec_bind p f () () b).mpr ⟨a, (), hp, hf⟩

theorem Yields.op_bind {o : Op} {f : Ans o → Prog Op Ans β} {b : β} (r : Ans o)
    (h : Yields (f r) b) : Yields (op o >>= f) b := ⟨r, (), trivial, h⟩

theorem exists_yields (hans : ∀ o, Nonempty (Ans o)) (p : Prog Op Ans α) : ∃ a, Yields p a := by
  induction p with
  | ret a => exact ⟨a, rfl, rfl⟩
  | call o k ih =>
    obtain ⟨a, ha⟩ := ih (hans o).some
    exact ⟨a, _, (), trivial, ha⟩

theorem Yields.of_bind {p : Prog Op Ans α} {f : α → Prog Op Ans β} {b : β}
    (h : Yields (p >>= f) b) : ∃ a, Yields p a ∧ Yields (f a) b := by
  obtain ⟨a, _, hp, hf⟩ := (exec_bind p f () () b).mp h
  exact ⟨a, hp, hf⟩

variable {rank Step} {r r' : ℕ} {m : M}

theorem TakesFrom.ret (a : α) : TakesFrom rank Step r (.ret a : MutexProg State Ans α) :=
  fun _ _ => ⟨rfl, fun _ _ => rfl⟩

theorem TakesFrom.call (o : Op) :
    TakesFrom rank Step r (op (MutexOp.op o) : MutexProg State Ans (Ans o)) :=
  fun _ _ => ⟨trivial, fun _ => ⟨rfl, fun _ _ => rfl⟩⟩

theorem TakesFrom.bind_yields {p : MutexProg State Ans α} {f : α → MutexProg State Ans β}
    (hp : TakesFrom rank Step r p) (hf : ∀ a, Yields p a → TakesFrom rank Step r (f a)) :
    TakesFrom rank Step r (p >>= f) := by
  intro l hl
  rw [respects_bind]
  refine respects_mono (respects_yields (hp l hl)) fun a l' ⟨⟨hheld, hview⟩, ha⟩ => ?_
  refine respects_mono (hf a ha l' (hheld ▸ hl)) fun b l'' ⟨hheld', hview'⟩ => ?_
  exact ⟨hheld'.trans hheld, fun m hm => (hview' m (hheld ▸ hm)).trans (hview m hm)⟩

theorem TakesFrom.bind {p : MutexProg State Ans α} {f : α → MutexProg State Ans β}
    (hp : TakesFrom rank Step r p) (hf : ∀ a, TakesFrom rank Step r (f a)) :
    TakesFrom rank Step r (p >>= f) :=
  hp.bind_yields fun a _ => hf a

theorem TakesFrom.mono {p : MutexProg State Ans α} (h : TakesFrom rank Step r' p) (hr : r ≤ r') :
    TakesFrom rank Step r p :=
  fun l hl => h l fun x hx => Nat.lt_of_lt_of_le (hl x hx) hr

theorem TakesFrom.interp {Op' : Type} {Ans' : Op' → Type}
    {f : (o : Op') → MutexProg State Ans (Ans' o)} (hf : ∀ o, TakesFrom rank Step r (f o))
    (p : Prog Op' Ans' α) : TakesFrom rank Step r (p.interp f) := by
  induction p with
  | ret a => exact .ret a
  | call o k ih => exact (hf o).bind ih

theorem TakesFrom.fork (hm : r ≤ rank m) :
    TakesFrom rank Step r (Prog.op (MutexOp.fork m) : MutexProg State Ans Unit) :=
  fun _ hl => ⟨fun x hx => Nat.lt_of_lt_of_le (hl x hx) hm, fun _ => ⟨rfl, fun _ _ => rfl⟩⟩

theorem TakesFrom.load (hm : r ≤ rank m) :
    TakesFrom rank Step r (Prog.op (MutexOp.load m) : MutexProg State Ans (State m)) := by
  refine fun l hl => ⟨trivial, fun s => ?_⟩
  have hfree : m ∉ l.held := fun hmem => absurd (hl m hmem) (by omega)
  rw [respects_ret, MutexOp.after, if_neg hfree]
  exact ⟨rfl, fun _ _ => rfl⟩

theorem TakesFrom.locked {p : MutexProg State Ans α} (hm : r ≤ rank m)
    (hp : ∀ l : Grip State, (∀ x ∈ l.held, rank x < rank m + 1) → m ∈ l.held →
      Respects MutexOp.after (MutexOp.Orderly rank Step) p l
        (fun _ l' => l'.held = l.held ∧ ∀ x ∈ l.held, x ≠ m → l'.view x = l.view x)) :
    TakesFrom rank Step r (locked m p) := by
  intro l hl
  have hbelow : ∀ x ∈ l.held, rank x < rank m := fun x hx => Nat.lt_of_lt_of_le (hl x hx) hm
  have hinside : ∀ x ∈ m :: l.held, rank x < rank m + 1 := by
    intro x hx
    rcases List.mem_cons.mp hx with rfl | hx
    · omega
    · exact Nat.lt_succ_of_lt (hbelow x hx)
  rw [Interleave.locked, respects_op_bind]
  refine ⟨hbelow, fun _ => ?_⟩
  rw [respects_bind]
  refine respects_mono (hp { l with held := m :: l.held } hinside (by simp)) ?_
  rintro a l' ⟨hheld, hview⟩
  refine ⟨by simp [MutexOp.Orderly, hheld], fun _ => ⟨?_, fun x hx => ?_⟩⟩
  · simp [MutexOp.after, hheld]
  · have hne : x ≠ m := fun h => absurd (hbelow x hx) (by rw [h]; omega)
    rw [MutexOp.after, Grip.see_of_ne _ hne]
    exact hview x (List.mem_cons_of_mem _ hx) hne

theorem TakesFrom.within {p : MutexProg State Ans α} (hm : r ≤ rank m)
    (hp : TakesFrom rank Step (rank m + 1) p) : TakesFrom rank Step r (Interleave.locked m p) :=
  .locked hm fun l hl _ => respects_mono (hp l hl) fun _ _ ⟨hheld, hview⟩ =>
    ⟨hheld, fun x hx _ => hview x hx⟩

theorem TakesFrom.join (hm : r ≤ rank m) :
    TakesFrom rank Step r (join m : MutexProg State Ans Unit) :=
  .within hm (.ret ())

theorem TakesFrom.worker {p : MutexProg State Ans Unit} (hp : TakesFrom rank Step (rank m + 1) p) :
    Respects MutexOp.after (MutexOp.Orderly rank Step) (p >>= fun _ => Prog.op (MutexOp.unlock m))
      ({ held := [m] } : Grip State) (fun _ l => l.held = []) := by
  have hborn : ∀ x ∈ ({ held := [m] } : Grip State).held, rank x < rank m + 1 := by
    intro x hx
    obtain rfl := List.mem_singleton.mp hx
    exact Nat.lt_succ_self _
  rw [respects_bind]
  refine respects_mono (hp _ hborn) ?_
  rintro _ l ⟨hheld, _⟩
  refine ⟨?_, fun _ => ?_⟩
  · rw [MutexOp.Orderly, hheld]
    exact List.mem_singleton_self m
  · rw [respects_ret, MutexOp.after, Grip.see_held, hheld, List.erase_cons_head]

theorem TakesFrom.reading {f : State m → MutexProg State Ans α} (hm : r ≤ rank m)
    (hf : ∀ s, TakesFrom rank Step (rank m + 1) (f s)) :
    TakesFrom rank Step r (reading m f) := by
  refine .locked hm fun l hl hmem => ?_
  rw [respects_op_bind]
  refine ⟨trivial, fun s => ?_⟩
  rw [MutexOp.after, if_pos hmem]
  refine respects_mono (hf s _ hl) ?_
  rintro a l' ⟨hheld, hview⟩
  refine ⟨hheld, fun x hx hne => ?_⟩
  rw [hview x hx, Grip.see_of_ne _ hne]

theorem TakesFrom.underThen {f : State m → MutexProg State Ans (α × State m)}
    {g : α → MutexProg State Ans β} (hm : r ≤ rank m)
    (hf : ∀ s, TakesFrom rank Step (rank m + 1) (f s))
    (hg : ∀ a, TakesFrom rank Step (rank m + 1) (g a))
    (hstep : ∀ s a s', Yields (f s) (a, s') → Step m s s') :
    TakesFrom rank Step r (underThen m f g) := by
  refine .locked hm fun l hl hmem => ?_
  rw [respects_op_bind]
  refine ⟨trivial, fun s => ?_⟩
  rw [MutexOp.after, if_pos hmem, respects_bind]
  refine respects_mono (respects_yields (hf s _ hl)) ?_
  rintro ⟨a, s'⟩ l' ⟨⟨hheld, hview⟩, hyields⟩
  rw [respects_op_bind]
  have hm' : m ∈ l'.held := hheld ▸ hmem
  refine ⟨⟨hm', s, ?_, hstep s a s' hyields⟩, fun _ => ?_⟩
  · rw [hview m hmem, Grip.see_self]
  · refine respects_mono (hg a _ (hheld ▸ hl)) ?_
    rintro b l'' ⟨hheld', hview'⟩
    refine ⟨hheld'.trans hheld, fun x hx hne => ?_⟩
    have hx' : x ∈ l'.held := hheld ▸ hx
    rw [hview' x hx', MutexOp.after, Grip.see_of_ne _ hne, hview x hx, Grip.see_of_ne _ hne]

theorem TakesFrom.under {f : State m → MutexProg State Ans (α × State m)} (hm : r ≤ rank m)
    (hf : ∀ s, TakesFrom rank Step (rank m + 1) (f s))
    (hstep : ∀ s a s', Yields (f s) (a, s') → Step m s s') :
    TakesFrom rank Step r (under m f) :=
  .underThen hm hf (fun a => .ret a) hstep

end Programs

section Runs

abbrev MutexThread (State : M → Type) (Ans : Op → Type) :=
  Thread (MutexOp State Op) (MutexOp.Answer Ans) (Grip State)

abbrev MutexPool (State : M → Type) (Ans : Op → Type) :=
  Pool (MutexOp State Op) (MutexOp.Answer Ans) (Shared State) (Grip State)

variable (client : MutexProg State Ans Unit → Prop) (work : M → MutexProg State Ans Unit)

def MutexOp.forked : MutexOp State Op → List (MutexThread State Ans)
  | .fork m => [⟨{ held := [m] }, work m⟩]
  | _ => []

inductive MutexStep : MutexPool State Ans → MutexPool State Ans → Prop
  | call (pre post : List (MutexThread State Ans)) (l : Grip State) (o : MutexOp State Op)
      (k : o.Answer Ans → MutexProg State Ans Unit) (s : Shared State) (r : o.Answer Ans)
      (t : Shared State) (h : o.Serves s r t) :
      MutexStep ⟨s, pre ++ ⟨l, .call o k⟩ :: post⟩
        ⟨t, o.forked work ++ (pre ++ ⟨o.after r l, k r⟩ :: post)⟩
  | spawn (s : Shared State) (ts : List (MutexThread State Ans)) (p : MutexProg State Ans Unit)
      (hp : client p) : MutexStep ⟨s, ts⟩ ⟨s, ⟨{}, p⟩ :: ts⟩

abbrev MutexRun : MutexPool State Ans → MutexPool State Ans → Prop :=
  ReflTransGen (MutexStep client work)

variable {client work}

structure Guarded (init : (m : M) → State m) (s : Shared State)
    (ts : List (MutexThread State Ans)) : Prop where
  held : ∀ m, (ts.flatMap (·.ghost.held)).count m = (s.taken m).toNat
  view : ∀ t ∈ ts, ∀ m v, t.ghost.view m = some v → m ∈ t.ghost.held ∧ s.values m = v
  steps : ∀ m, ReflTransGen (Step m) (init m) (s.values m)

variable {Step} {rank} {init : (m : M) → State m} {s t : Shared State} {l l' : Grip State}
  {pre post ts : List (MutexThread State Ans)} {p q : MutexProg State Ans Unit} {m : M}

theorem Guarded.fork (h : Guarded Step init s ts) (hfree : s.taken m = false) :
    Guarded Step init { s with taken := Function.update s.taken m true }
      (⟨{ held := [m] }, p⟩ :: ts) where
  held x := by
    have hcount := h.held x
    rw [List.flatMap_cons, List.count_append]
    by_cases hx : x = m
    · subst hx
      rw [hfree, Bool.toNat_false] at hcount
      simp [hcount]
    · simp [hcount, Function.update_of_ne hx, Ne.symm hx]
  view t ht x v hv := by
    rcases List.mem_cons.mp ht with rfl | ht
    · exact absurd hv (by simp)
    · exact h.view t ht x v hv
  steps := h.steps

omit [DecidableEq M] in
theorem mem_others {u v : MutexThread State Ans} :
    u ∈ pre ++ v :: post ↔ u = v ∨ u ∈ pre ++ post := by
  simp only [List.mem_append, List.mem_cons]
  tauto

theorem count_held (m : M) : ((pre ++ ⟨l, p⟩ :: post).flatMap (·.ghost.held)).count m =
    ((pre ++ post).flatMap (·.ghost.held)).count m + l.held.count m := by
  simp only [List.flatMap_append, List.flatMap_cons, List.count_append]
  omega

theorem Guarded.taken (h : Guarded Step init s ts) {u : MutexThread State Ans} (hu : u ∈ ts)
    (hm : m ∈ u.ghost.held) : s.taken m = true := by
  have hcount := h.held m
  have hpos : 0 < (ts.flatMap (·.ghost.held)).count m :=
    List.count_pos_iff.mpr (List.mem_flatMap.mpr ⟨u, hu, hm⟩)
  cases hs : s.taken m with
  | true => rfl
  | false =>
    rw [hs, Bool.toNat_false] at hcount
    omega

theorem Guarded.holder (h : Guarded Step init s ts) (hm : s.taken m = true) :
    ∃ u ∈ ts, m ∈ u.ghost.held := by
  have hcount := h.held m
  rw [hm, Bool.toNat_true] at hcount
  have hpos : 0 < (ts.flatMap (·.ghost.held)).count m := by omega
  exact List.mem_flatMap.mp (List.count_pos_iff.mp hpos)

theorem Guarded.alone (h : Guarded Step init s (pre ++ ⟨l, p⟩ :: post)) (hm : m ∈ l.held)
    {u : MutexThread State Ans} (hu : u ∈ pre ++ post) : m ∉ u.ghost.held := by
  intro hmem
  have hcount := h.held m
  rw [count_held] at hcount
  have hl : 0 < l.held.count m := List.count_pos_iff.mpr hm
  have hu : 0 < ((pre ++ post).flatMap (·.ghost.held)).count m :=
    List.count_pos_iff.mpr (List.mem_flatMap.mpr ⟨u, hu, hmem⟩)
  have hle := Bool.toNat_le (s.taken m)
  omega

theorem countP_holders (m : M) (ts : List (MutexThread State Ans)) :
    ts.countP (fun t => decide (m ∈ t.ghost.held)) ≤ (ts.flatMap (·.ghost.held)).count m := by
  induction ts with
  | nil => simp
  | cons u ts ih =>
    rw [List.countP_cons, List.flatMap_cons, List.count_append]
    by_cases hm : m ∈ u.ghost.held
    · have hpos : 0 < u.ghost.held.count m := List.count_pos_iff.mpr hm
      simp only [hm, decide_true, ↓reduceIte]
      omega
    · simp only [hm, decide_false, Bool.false_eq_true, ↓reduceIte]
      omega

theorem Guarded.at_most_one (h : Guarded Step init s ts) (m : M) :
    ts.countP (fun t => decide (m ∈ t.ghost.held)) ≤ 1 := by
  have hcount := countP_holders m ts
  rw [h.held m] at hcount
  exact Nat.le_trans hcount (Bool.toNat_le _)

theorem Guarded.own (h : Guarded Step init s (pre ++ ⟨l, p⟩ :: post)) {v : State m}
    (hv : l.view m = some v) : m ∈ l.held ∧ s.values m = v := h.view ⟨l, p⟩ (by simp) m v hv

theorem Guarded.next (h : Guarded Step init s (pre ++ ⟨l, p⟩ :: post))
    (hheld : ∀ m, l'.held.count m + (s.taken m).toNat = l.held.count m + (t.taken m).toNat)
    (hview : ∀ m v, l'.view m = some v → m ∈ l'.held ∧ t.values m = v)
    (hothers : ∀ u ∈ pre ++ post, ∀ m ∈ u.ghost.held, t.values m = s.values m)
    (hsteps : ∀ m, t.values m = s.values m ∨ Step m (s.values m) (t.values m)) :
    Guarded Step init t (pre ++ ⟨l', q⟩ :: post) where
  held m := by
    have hcount := h.held m
    have hheld := hheld m
    rw [count_held] at hcount ⊢
    omega
  view u hu m v hv := by
    rcases mem_others.mp hu with rfl | hu
    · exact hview m v hv
    · obtain ⟨hm, hvalue⟩ := h.view u (mem_others.mpr (.inr hu)) m v hv
      exact ⟨hm, (hothers u hu m hm).trans hvalue⟩
  steps m := by
    rcases hsteps m with heq | hstep
    · rw [heq]
      exact h.steps m
    · exact (h.steps m).tail hstep

theorem Guarded.call {o : MutexOp State Op} {k : o.Answer Ans → MutexProg State Ans Unit}
    {r : o.Answer Ans} (hserves : o.Serves s r t) (hallowed : o.Orderly rank Step l)
    (h : Guarded Step init s (pre ++ ⟨l, .call o k⟩ :: post)) :
    Guarded Step init t (o.forked work ++ (pre ++ ⟨o.after r l, k r⟩ :: post)) := by
  cases o with
  | lock m =>
    obtain ⟨hfree, rfl⟩ := hserves
    refine h.next (fun x => ?_) (fun x v hv => ?_) (fun _ _ _ _ => rfl) (fun _ => .inl rfl)
    · by_cases hx : x = m
      · subst hx
        simp [MutexOp.after, hfree]
      · simp [MutexOp.after, Function.update_of_ne hx, Ne.symm hx]
    · exact ⟨List.mem_cons_of_mem _ (h.own hv).1, (h.own hv).2⟩
  | unlock m =>
    obtain rfl := hserves
    have htaken : s.taken m = true := h.taken (u := ⟨l, .call (.unlock m) k⟩) (by simp) hallowed
    refine h.next (fun x => ?_) (fun x v hv => ?_) (fun _ _ _ _ => rfl) (fun _ => .inl rfl)
    · by_cases hx : x = m
      · subst hx
        have hpos : 0 < l.held.count x := List.count_pos_iff.mpr hallowed
        simp [MutexOp.after, htaken]
        omega
      · simp [MutexOp.after, hx, List.count_erase_of_ne hx]
    · by_cases hx : x = m
      · subst hx
        simp [MutexOp.after] at hv
      · rw [MutexOp.after, Grip.see_of_ne _ hx] at hv
        exact ⟨(List.mem_erase_of_ne hx).mpr (h.own hv).1, (h.own hv).2⟩
  | load m =>
    obtain ⟨rfl, rfl⟩ := hserves
    rw [MutexOp.after]
    split
    · next hm =>
      refine h.next (fun _ => rfl) (fun x v hv => ?_) (fun _ _ _ _ => rfl) (fun _ => .inl rfl)
      by_cases hx : x = m
      · subst hx
        rw [Grip.see_self] at hv
        exact ⟨hm, Option.some.inj hv⟩
      · rw [Grip.see_of_ne _ hx] at hv
        exact h.own hv
    · exact h.next (fun _ => rfl) (fun x v hv => h.own hv) (fun _ _ _ _ => rfl) (fun _ => .inl rfl)
  | store m v =>
    obtain rfl := hserves
    obtain ⟨hm, s₀, hview, hstep⟩ := hallowed
    refine h.next (fun _ => rfl) (fun x w hw => ?_) (fun u hu x hx => ?_) (fun x => ?_)
    · by_cases hx : x = m
      · subst hx
        rw [MutexOp.after, Grip.see_self] at hw
        exact ⟨hm, (Function.update_self ..).trans (Option.some.inj hw)⟩
      · rw [MutexOp.after, Grip.see_of_ne _ hx] at hw
        exact ⟨(h.own hw).1, (Function.update_of_ne hx ..).trans (h.own hw).2⟩
    · have hne : x ≠ m := by
        rintro rfl
        exact h.alone hm hu hx
      exact Function.update_of_ne hne ..
    · by_cases hx : x = m
      · subst hx
        right
        rw [(h.own hview).2]
        simpa using hstep
      · exact .inl (Function.update_of_ne hx ..)
  | fork m =>
    obtain ⟨hfree, rfl⟩ := hserves
    refine Guarded.fork ?_ hfree
    exact h.next (fun _ => rfl) (fun x v hv => h.own hv) (fun _ _ _ _ => rfl) (fun _ => .inl rfl)
  | op o =>
    obtain rfl := hserves
    exact h.next (fun _ => rfl) (fun x v hv => h.own hv) (fun _ _ _ _ => rfl) (fun _ => .inl rfl)

theorem guarded_empty (init : (m : M) → State m) :
    Guarded Step init ⟨fun _ => false, init⟩ ([] : List (MutexThread State Ans)) where
  held _ := rfl
  view t ht := absurd ht (by simp)
  steps _ := .refl

theorem Guarded.spawn (h : Guarded Step init s ts) : Guarded Step init s (⟨{}, p⟩ :: ts) where
  held := h.held
  view t ht m v hv := by
    rcases List.mem_cons.mp ht with rfl | ht
    · exact absurd hv (by simp)
    · exact h.view t ht m v hv
  steps := h.steps

variable {P Q : MutexPool State Ans}

variable (rank Step init) in
structure InOrder (P : MutexPool State Ans) : Prop where
  threads : ∀ t ∈ P.threads, Respects MutexOp.after (MutexOp.Orderly rank Step) t.prog t.ghost
    (fun _ l => l.held = [])
  state : Guarded Step init P.state P.threads

theorem inOrder_empty (init : (m : M) → State m) :
    InOrder rank Step init (⟨⟨fun _ => false, init⟩, []⟩ : MutexPool State Ans) :=
  ⟨fun t ht => absurd ht (by simp), guarded_empty init⟩

theorem InOrder.step (hclient : ∀ p, client p → TakesFrom rank Step 0 p)
    (hwork : ∀ m, Respects MutexOp.after (MutexOp.Orderly rank Step) (work m)
      ({ held := [m] } : Grip State) (fun _ l => l.held = []))
    (h : MutexStep client work P Q) (hP : InOrder rank Step init P) : InOrder rank Step init Q := by
  cases h with
  | call pre post l o k s r t hserves =>
    obtain ⟨hallowed, hrest⟩ := hP.threads ⟨l, .call o k⟩ (by simp)
    refine ⟨fun u hu => ?_, hP.state.call hserves hallowed⟩
    rcases List.mem_append.mp hu with hforked | hu
    · cases o with
      | fork m =>
        obtain rfl := List.mem_singleton.mp hforked
        exact hwork m
      | _ => exact absurd hforked List.not_mem_nil
    · rcases mem_others.mp hu with rfl | hu
      · exact hrest r
      · exact hP.threads u (mem_others.mpr (.inr hu))
  | spawn s ts p hp =>
    refine ⟨fun u hu => ?_, hP.state.spawn⟩
    rcases List.mem_cons.mp hu with rfl | hu
    · have hstart : ∀ x ∈ ({} : Grip State).held, rank x < 0 := fun x hx => absurd hx (by simp)
      exact respects_mono (hclient p hp {} hstart) fun _ _ hm => hm.1
    · exact hP.threads u hu

theorem MutexRun.inOrder (hclient : ∀ p, client p → TakesFrom rank Step 0 p)
    (hwork : ∀ m, Respects MutexOp.after (MutexOp.Orderly rank Step) (work m)
      ({ held := [m] } : Grip State) (fun _ l => l.held = []))
    (h : MutexRun client work P Q) (hP : InOrder rank Step init P) : InOrder rank Step init Q := by
  induction h with
  | refl => exact hP
  | tail _ hstep ih => exact ih.step hclient hwork hstep

theorem InOrder.restart (h : InOrder rank Step init P) : InOrder rank Step P.state.values P :=
  ⟨h.threads, h.state.held, h.state.view, fun _ => .refl⟩

def MutexOp.wants : MutexOp State Op → Option M
  | .lock m => some m
  | .fork m => some m
  | _ => none

def Waits (ts : List (MutexThread State Ans)) (i j : ℕ) : Prop :=
  ∃ (m : M) (l : Grip State) (o : MutexOp State Op) (k : o.Answer Ans → MutexProg State Ans Unit)
    (u : MutexThread State Ans), ts[i]? = some ⟨l, .call o k⟩ ∧ o.wants = some m ∧
      ts[j]? = some u ∧ m ∈ u.ghost.held

def CanStep (P : MutexPool State Ans) (i : ℕ) : Prop :=
  ∃ (l : Grip State) (o : MutexOp State Op) (k : o.Answer Ans → MutexProg State Ans Unit)
    (r : o.Answer Ans) (t : Shared State),
    P.threads[i]? = some ⟨l, .call o k⟩ ∧ o.Serves P.state r t

def Unfinished (ts : List (MutexThread State Ans)) (i : ℕ) : Prop :=
  ∃ t, ts[i]? = some t ∧ t.prog ≠ .ret ()

theorem canStep_or_blocked (hans : ∀ o, Nonempty (Ans o)) {i : ℕ} {o : MutexOp State Op}
    {k : o.Answer Ans → MutexProg State Ans Unit} (hi : P.threads[i]? = some ⟨l, .call o k⟩) :
    CanStep P i ∨ ∃ m, o.wants = some m ∧ P.state.taken m = true := by
  cases o with
  | lock m =>
    cases htaken : P.state.taken m with
    | true => exact .inr ⟨m, rfl, htaken⟩
    | false => exact .inl ⟨l, _, k, (), _, hi, htaken, rfl⟩
  | fork m =>
    cases htaken : P.state.taken m with
    | true => exact .inr ⟨m, rfl, htaken⟩
    | false => exact .inl ⟨l, _, k, (), _, hi, htaken, rfl⟩
  | unlock m => exact .inl ⟨l, _, k, (), _, hi, rfl⟩
  | load m => exact .inl ⟨l, _, k, _, _, hi, rfl, rfl⟩
  | store m v => exact .inl ⟨l, _, k, (), _, hi, rfl⟩
  | op o => exact .inl ⟨l, _, k, (hans o).some, _, hi, rfl⟩

theorem InOrder.holder (h : InOrder rank Step init P) {u : MutexThread State Ans}
    (hu : u ∈ P.threads) (hm : m ∈ u.ghost.held) : ∃ (o : MutexOp State Op)
      (k : o.Answer Ans → MutexProg State Ans Unit), u.prog = .call o k ∧
        ∀ x, o.wants = some x → rank m < rank x := by
  have hrespects := h.threads u hu
  obtain ⟨l, p⟩ := u
  cases p with
  | ret a =>
    have hnone : l.held = [] := hrespects
    exact absurd (hnone ▸ hm) (by simp)
  | call o k =>
    refine ⟨o, k, rfl, fun x hx => ?_⟩
    cases o with
    | lock y =>
      obtain rfl := Option.some.inj hx
      exact hrespects.1 m hm
    | fork y =>
      obtain rfl := Option.some.inj hx
      exact hrespects.1 m hm
    | _ => cases hx

omit [DecidableEq M] in
theorem exists_bound (rank : M → ℕ) (ts : List (MutexThread State Ans)) : ∃ B, ∀ t ∈ ts,
    ∀ m (o : MutexOp State Op) (k : o.Answer Ans → MutexProg State Ans Unit),
      t.prog = .call o k → o.wants = some m →
      rank m ≤ B := by
  induction ts with
  | nil => exact ⟨0, fun t ht => absurd ht (by simp)⟩
  | cons u ts ih =>
    obtain ⟨B, hB⟩ := ih
    obtain ⟨C, hC⟩ : ∃ C, ∀ (m : M) (o : MutexOp State Op) (k : o.Answer Ans → MutexProg State Ans Unit),
        u.prog = .call o k → o.wants = some m → rank m ≤ C := by
      obtain ⟨l, p⟩ := u
      cases p with
      | ret a => exact ⟨0, fun m o k h => absurd h (by simp)⟩
      | call o k =>
        refine ⟨(o.wants.map rank).getD 0, fun m o' k' h hm => ?_⟩
        obtain ⟨rfl, _⟩ := Prog.call.inj h
        rw [hm]
        exact Nat.le_refl _
    refine ⟨max B C, fun t ht m o k hk hm => ?_⟩
    rcases List.mem_cons.mp ht with rfl | ht
    · exact Nat.le_trans (hC m o k hk hm) (Nat.le_max_right ..)
    · exact Nat.le_trans (hB t ht m o k hk hm) (Nat.le_max_left ..)

theorem InOrder.progress (h : InOrder rank Step init P) (hans : ∀ o, Nonempty (Ans o))
    {i : ℕ} (hi : Unfinished P.threads i) : ∃ j, ReflTransGen (Waits P.threads) i j ∧ CanStep P j := by
  obtain ⟨B, hB⟩ := exists_bound rank P.threads
  -- the mutexes along a chain of waiting threads rise in rank
  have hchain : ∀ n i l m o (k : o.Answer Ans → MutexProg State Ans Unit), B - rank m = n →
      P.threads[i]? = some ⟨l, .call o k⟩ → o.wants = some m →
      ∃ j, ReflTransGen (Waits P.threads) i j ∧ CanStep P j := by
    intro n
    induction n using Nat.strongRecOn with
    | ind n ih =>
      intro i l m o k hn hi ho
      rcases canStep_or_blocked hans hi with hstep | ⟨x, hx, htaken⟩
      · exact ⟨i, .refl, hstep⟩
      · obtain rfl := Option.some.inj (ho.symm.trans hx)
        obtain ⟨u, hu, hm⟩ := h.state.holder htaken
        obtain ⟨j, hj⟩ := List.getElem?_of_mem hu
        have hwaits : Waits P.threads i j := ⟨m, l, o, k, u, hi, ho, hj, hm⟩
        obtain ⟨o', k', hprog, hrank⟩ := h.holder hu hm
        obtain ⟨l', p⟩ := u
        obtain rfl := hprog
        rcases canStep_or_blocked hans hj with hstep | ⟨x, hx', _⟩
        · exact ⟨j, .single hwaits, hstep⟩
        · have hbound := hB _ hu x o' k' rfl hx'
          have hlt := hrank x hx'
          obtain ⟨j', hj', hstep⟩ := ih (B - rank x) (by omega) j l' x o' k' rfl hj hx'
          exact ⟨j', .head hwaits hj', hstep⟩
  obtain ⟨⟨l, p⟩, hi, hp⟩ := hi
  cases p with
  | ret a => exact absurd rfl hp
  | call o k =>
    rcases canStep_or_blocked hans hi with hstep | ⟨m, hm, _⟩
    · exact ⟨i, .refl, hstep⟩
    · exact hchain _ i l m o k rfl hi hm

theorem InOrder.waits_rank (h : InOrder rank Step init P) {i j : ℕ}
    (hwaits : TransGen (Waits P.threads) i j) : ∃ m l o k x u, P.threads[i]? = some ⟨l, .call o k⟩ ∧
      o.wants = some m ∧ P.threads[j]? = some u ∧ x ∈ u.ghost.held ∧ rank m ≤ rank x := by
  induction hwaits with
  | single hwaits =>
    obtain ⟨m, l, o, k, u, hi, ho, hj, hm⟩ := hwaits
    exact ⟨m, l, o, k, m, u, hi, ho, hj, hm, Nat.le_refl _⟩
  | tail _ hwaits ih =>
    obtain ⟨m, l, o, k, x, u, hi, ho, hj, hx, hrank⟩ := ih
    obtain ⟨y, l', o', k', v, hj', hy', hv, hy⟩ := hwaits
    obtain rfl := Option.some.inj (hj.symm.trans hj')
    obtain ⟨o'', k'', hprog, hlt⟩ := h.holder (List.mem_of_getElem? hj) hx
    obtain ⟨rfl, _⟩ := Prog.call.inj hprog
    exact ⟨m, l, o, k, y, v, hi, ho, hv, hy, Nat.le_trans hrank (Nat.le_of_lt (hlt y hy'))⟩

theorem InOrder.no_circle (h : InOrder rank Step init P) (i : ℕ) :
    ¬ TransGen (Waits P.threads) i i := by
  intro hwaits
  obtain ⟨m, l, o, k, x, u, hi, ho, hi', hx, hrank⟩ := h.waits_rank hwaits
  obtain rfl := Option.some.inj (hi.symm.trans hi')
  obtain ⟨o', k', hprog, hlt⟩ := h.holder (List.mem_of_getElem? hi) hx
  obtain ⟨rfl, _⟩ := Prog.call.inj hprog
  exact absurd (hlt m ho) (Nat.not_lt.mpr hrank)

end Runs

section Alone

def MutexOp.perform (answer : (o : Op) → Ans o) :
    (o : MutexOp State Op) → Shared State → Option (o.Answer Ans × Shared State)
  | .lock m, s =>
    if s.taken m then none else some ((), { s with taken := Function.update s.taken m true })
  | .unlock m, s => some ((), { s with taken := Function.update s.taken m false })
  | .load m, s => some (s.values m, s)
  | .store m v, s => some ((), { s with values := Function.update s.values m v })
  | .fork m, s =>
    if s.taken m then none else some ((), { s with taken := Function.update s.taken m true })
  | .op o, s => some (answer o, s)

theorem MutexOp.perform_serves {answer : (o : Op) → Ans o} {o : MutexOp State Op} {s t : Shared State}
    {r : o.Answer Ans} (h : o.perform answer s = some (r, t)) : o.Serves s r t := by
  cases o with
  | lock m =>
    rw [perform] at h
    split at h
    · cases h
    · next hfree =>
      obtain ⟨_, rfl⟩ := Prod.mk.inj (Option.some.inj h)
      exact ⟨by simpa using hfree, rfl⟩
  | fork m =>
    rw [perform] at h
    split at h
    · cases h
    · next hfree =>
      obtain ⟨_, rfl⟩ := Prod.mk.inj (Option.some.inj h)
      exact ⟨by simpa using hfree, rfl⟩
  | load m =>
    obtain ⟨rfl, rfl⟩ := Prod.mk.inj (Option.some.inj h)
    exact ⟨rfl, rfl⟩
  | _ =>
    obtain ⟨_, rfl⟩ := Prod.mk.inj (Option.some.inj h)
    rfl

variable (work : M → MutexProg State Ans Unit) (answer : (o : Op) → Ans o)
  (stop : MutexOp State Op → Bool)

def goOn : MutexProg State Ans Unit → Grip State → Shared State → List (MutexThread State Ans) →
    Shared State × List (MutexThread State Ans) × MutexThread State Ans
  | .ret a, l, s, pre => (s, pre, ⟨l, .ret a⟩)
  | .call o k, l, s, pre =>
    if stop o then (s, pre, ⟨l, .call o k⟩) else
    match o.perform answer s with
    | none => (s, pre, ⟨l, .call o k⟩)
    | some (r, t) => goOn (k r) (o.after r l) t (o.forked work ++ pre)

def goNew (p : MutexProg State Ans Unit) (P : MutexPool State Ans) : MutexPool State Ans :=
  let r := goOn work answer stop p {} P.state []
  ⟨r.1, r.2.1 ++ r.2.2 :: P.threads⟩

def Thread.wanted (t : MutexThread State Ans) : Option M :=
  match t.prog with
  | .ret _ => none
  | .call o _ => o.wants

variable {work answer stop} {client : MutexProg State Ans Unit → Prop} {P Q : MutexPool State Ans}

theorem MutexRun.goOn {p : MutexProg State Ans Unit} {l : Grip State} {s : Shared State}
    {pre post : List (MutexThread State Ans)}
    (h : MutexRun client work P ⟨s, pre ++ ⟨l, p⟩ :: post⟩) :
    MutexRun client work P ⟨(goOn work answer stop p l s pre).1,
      (goOn work answer stop p l s pre).2.1 ++ (goOn work answer stop p l s pre).2.2 :: post⟩ := by
  induction p generalizing l s pre with
  | ret a => exact h
  | call o k ih =>
    rw [Interleave.goOn]
    split
    · exact h
    · cases hperform : o.perform answer s with
      | none => exact h
      | some rt =>
        obtain ⟨r, t⟩ := rt
        refine ih r ?_
        rw [List.append_assoc]
        exact h.tail (.call pre post l o k s r t (MutexOp.perform_serves hperform))

theorem MutexRun.goNew (h : MutexRun client work P Q) {p : MutexProg State Ans Unit} (hp : client p) :
    MutexRun client work P (goNew work answer stop p Q) :=
  MutexRun.goOn (h.tail (.spawn Q.state Q.threads p hp))

section Waiting

omit [DecidableEq M]

variable {ts : List (MutexThread State Ans)} {i j : ℕ} {m : M}

theorem Waits.of_wanted {held : List M} (hi : ts[i]?.bind Thread.wanted = some m)
    (hj : ts[j]?.map (·.ghost.held) = some held) (hm : m ∈ held) : Waits ts i j := by
  obtain ⟨⟨l, p⟩, ht, hwants⟩ := Option.bind_eq_some_iff.mp hi
  obtain ⟨u, hu, rfl⟩ := Option.map_eq_some_iff.mp hj
  cases p with
  | ret a => cases hwants
  | call o k => exact ⟨m, l, o, k, u, ht, hwants, hu, hm⟩

theorem Unfinished.of_wanted (hi : ts[i]?.bind Thread.wanted = some m) : Unfinished ts i := by
  obtain ⟨t, ht, hwants⟩ := Option.bind_eq_some_iff.mp hi
  refine ⟨t, ht, fun hret => ?_⟩
  rw [Thread.wanted, hret] at hwants
  cases hwants

end Waiting

end Alone

end Interleave

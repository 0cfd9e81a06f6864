import Mathlib.Logic.Function.Basic
import NexusRT.Library.Interleave
import NexusRT.Library.Trace

/-!
Many threads over one memory, in any order of their loads and stores. Where they load only cells that
none of them stores to, and no two of them store different values to one cell, every order ends in the
same memory.
-/

namespace Grid

open Prog Interleave

variable {Cell : Type} {Val : Cell → Type} {α : Type}

inductive Access (Cell : Type) (Val : Cell → Type)
  | load (c : Cell)
  | store (c : Cell) (v : Val c)

abbrev Access.Answer : Access Cell Val → Type
  | .load c => Val c
  | .store _ _ => Unit

abbrev Kernel (Cell : Type) (Val : Cell → Type) := Prog (Access Cell Val) Access.Answer

abbrev Memory (Cell : Type) (Val : Cell → Type) := (c : Cell) → Val c

abbrev Stored (Cell : Type) (Val : Cell → Type) := (c : Cell) × Val c

def load (c : Cell) : Kernel Cell Val (Val c) := op (Access.load c)

def store (c : Cell) (v : Val c) : Kernel Cell Val Unit := op (Access.store c v)

def Serves [DecidableEq Cell] : (a : Access Cell Val) → Memory Cell Val → a.Answer → Memory Cell Val → Prop
  | .load c, m, v, m' => v = m c ∧ m' = m
  | .store c v, m, _, m' => m' = Function.update m c v

def grid [DecidableEq Cell] : System (Access Cell Val) Access.Answer (Memory Cell Val) Unit where
  serves := Serves
  client := fun _ => False
  initial := ()
  after := fun _ _ l => l

abbrev GridPool (Cell : Type) (Val : Cell → Type) :=
  Pool (Access Cell Val) Access.Answer (Memory Cell Val) Unit

def start (m : Memory Cell Val) (ps : List (Kernel Cell Val Unit)) : GridPool Cell Val :=
  ⟨m, ps.map fun p => ⟨(), p⟩⟩

def GridRun [DecidableEq Cell] : GridPool Cell Val → GridPool Cell Val → Prop :=
  Run grid fun _ _ => True

def stores (m : Memory Cell Val) : Kernel Cell Val α → List (Stored Cell Val)
  | .ret _ => []
  | .call (.load c) k => stores m (k (m c))
  | .call (.store c v) k => ⟨c, v⟩ :: stores m (k ())

def LoadsFrom (inputs : Cell → Prop) : Access Cell Val → Prop
  | .load c => inputs c
  | .store _ _ => True

def Within (inputs outputs : Cell → Prop) : Access Cell Val → Prop
  | .load c => inputs c
  | .store c _ => outputs c

def allStores (m : Memory Cell Val) (ps : List (Kernel Cell Val Unit)) : List (Stored Cell Val) :=
  ps.flatMap (stores m)

structure Launch (inputs : Cell → Prop) (m : Memory Cell Val) (ps : List (Kernel Cell Val Unit)) :
    Prop where
  loads : ∀ p ∈ ps, Only (LoadsFrom inputs) p
  outputs : ∀ w ∈ allStores m ps, ¬ inputs w.1
  agree : ∀ v ∈ allStores m ps, ∀ w ∈ allStores m ps, v.1 = w.1 → v = w

variable {inputs : Cell → Prop} {m : Memory Cell Val} {ps : List (Kernel Cell Val Unit)}

structure Inv (inputs : Cell → Prop) (m : Memory Cell Val) (ws : List (Stored Cell Val))
    (p : GridPool Cell Val) : Prop where
  kept : ∀ c, inputs c → p.state c = m c
  loads : ∀ t ∈ p.threads, Only (LoadsFrom inputs) t.prog
  coming : ∀ t ∈ p.threads, ∀ w ∈ stores m t.prog, w ∈ ws
  seen : ∀ w ∈ ws, p.state w.1 = w.2 ∨ ∃ t ∈ p.threads, w ∈ stores m t.prog
  rest : ∀ c, (∀ w ∈ ws, w.1 ≠ c) → p.state c = m c

theorem inv_start (h : Launch inputs m ps) : Inv inputs m (allStores m ps) (start m ps) where
  kept _ _ := rfl
  loads := by simpa [start] using h.loads
  coming := by
    simp only [start, List.forall_mem_map]
    exact fun p hp w hw => List.mem_flatMap.mpr ⟨p, hp, hw⟩
  seen w hw := by
    obtain ⟨p, hp, hw⟩ := List.mem_flatMap.mp hw
    exact Or.inr ⟨⟨(), p⟩, List.mem_map.mpr ⟨p, hp, rfl⟩, hw⟩
  rest _ _ := rfl

section Step

variable {pre post : List (Thread (Access Cell Val) Access.Answer Unit)} {s : Memory Cell Val}
  {ws : List (Stored Cell Val)}

theorem Inv.load {c : Cell} {k : Val c → Kernel Cell Val Unit}
    (h : Inv inputs m ws ⟨s, pre ++ ⟨(), .call (.load c) k⟩ :: post⟩) :
    Inv inputs m ws ⟨s, pre ++ ⟨(), k (s c)⟩ :: post⟩ := by
  have hthread := h.loads ⟨(), .call (.load c) k⟩ (by simp)
  have hstores : stores m (.call (.load c) k) = stores m (k (s c)) := by
    rw [stores, ← h.kept c hthread.1]
  refine ⟨h.kept, fun t ht => ?_, fun t ht w hw => ?_, fun w hw => ?_, h.rest⟩
  · rcases mem_threads ht with rfl | ht
    · exact hthread.2 _
    · exact h.loads t ht
  · rcases mem_threads ht with rfl | ht
    · exact h.coming ⟨(), .call (.load c) k⟩ (by simp) w (hstores ▸ hw)
    · exact h.coming t ht w hw
  · refine (h.seen w hw).imp_right fun ⟨t, ht, hmem⟩ => ?_
    rcases mem_threads (u := ⟨(), k (s c)⟩) ht with rfl | ht
    · exact ⟨⟨(), k (s c)⟩, by simp, hstores ▸ hmem⟩
    · exact ⟨t, ht, hmem⟩

variable [DecidableEq Cell]

theorem Inv.store {c : Cell} {v : Val c} {k : Unit → Kernel Cell Val Unit}
    (hout : ∀ w ∈ ws, ¬ inputs w.1) (hagree : ∀ v ∈ ws, ∀ w ∈ ws, v.1 = w.1 → v = w)
    (h : Inv inputs m ws ⟨s, pre ++ ⟨(), .call (.store c v) k⟩ :: post⟩) :
    Inv inputs m ws ⟨Function.update s c v, pre ++ ⟨(), k ()⟩ :: post⟩ := by
  have hthread := h.loads ⟨(), .call (.store c v) k⟩ (by simp)
  have hcoming := h.coming ⟨(), .call (.store c v) k⟩ (by simp)
  have hmem : (⟨c, v⟩ : Stored Cell Val) ∈ ws := hcoming _ List.mem_cons_self
  refine ⟨fun d hd => ?_, fun t ht => ?_, fun t ht w hw => ?_, fun w hw => ?_, fun d hd => ?_⟩
  · have hne : d ≠ c := fun heq => hout _ hmem (heq ▸ hd)
    rw [← h.kept d hd]
    exact Function.update_of_ne hne _ _
  · rcases mem_threads ht with rfl | ht
    · exact hthread.2 _
    · exact h.loads t ht
  · rcases mem_threads ht with rfl | ht
    · exact hcoming w (List.mem_cons_of_mem _ hw)
    · exact h.coming t ht w hw
  · by_cases hc : w.1 = c
    · obtain rfl := hagree w hw _ hmem hc
      exact Or.inl (Function.update_self _ _ _)
    rcases h.seen w hw with hs | ⟨t, ht, hpending⟩
    · exact Or.inl ((Function.update_of_ne hc _ _).trans hs)
    · rcases mem_threads (u := ⟨(), k ()⟩) ht with rfl | ht
      · rcases List.mem_cons.mp hpending with rfl | hpending
        · exact absurd rfl hc
        · exact Or.inr ⟨⟨(), k ()⟩, by simp, hpending⟩
      · exact Or.inr ⟨t, ht, hpending⟩
  · rw [← h.rest d hd]
    exact Function.update_of_ne (fun heq => hd _ hmem heq.symm) _ _

theorem Inv.step {p q : GridPool Cell Val} {a : Action (Access Cell Val)}
    (hout : ∀ w ∈ ws, ¬ inputs w.1) (hagree : ∀ v ∈ ws, ∀ w ∈ ws, v.1 = w.1 → v = w)
    (hstep : Step grid p a q) (h : Inv inputs m ws p) : Inv inputs m ws q := by
  cases hstep with
  | call pre post l o k s r t hserves =>
    cases o with
    | load c =>
      obtain ⟨rfl, rfl⟩ := hserves
      exact h.load
    | store c v =>
      obtain rfl : t = Function.update s c v := hserves
      exact h.store hout hagree
  | spawn _ _ _ hp => exact hp.elim

end Step

variable [DecidableEq Cell]

structure Merged (m : Memory Cell Val) (ws : List (Stored Cell Val)) (m' : Memory Cell Val) : Prop where
  stored : ∀ w ∈ ws, m' w.1 = w.2
  rest : ∀ c, (∀ w ∈ ws, w.1 ≠ c) → m' c = m c

theorem run_inv (h : Launch inputs m ps) {p : GridPool Cell Val} (hrun : GridRun (start m ps) p) :
    Inv inputs m (allStores m ps) p := by
  induction hrun with
  | refl => exact inv_start h
  | tail _ hstep ih =>
    obtain ⟨a, hstep, _⟩ := hstep
    exact ih.step h.outputs h.agree hstep

theorem run_merged (h : Launch inputs m ps) {p : GridPool Cell Val} (hrun : GridRun (start m ps) p)
    (hdone : Done p) : Merged m (allStores m ps) p.state := by
  have hinv := run_inv h hrun
  refine ⟨fun w hw => (hinv.seen w hw).resolve_right ?_, hinv.rest⟩
  rintro ⟨t, ht, hmem⟩
  rw [hdone t ht] at hmem
  exact absurd hmem List.not_mem_nil

section Completes

theorem thread_ends (pre post : List (Thread (Access Cell Val) Access.Answer Unit))
    (p : Kernel Cell Val Unit) (s : Memory Cell Val) :
    ∃ s', GridRun ⟨s, pre ++ ⟨(), p⟩ :: post⟩ ⟨s', pre ++ ⟨(), .ret ()⟩ :: post⟩ := by
  induction p generalizing s with
  | ret _ => exact ⟨s, .refl⟩
  | call o k ih =>
    cases o with
    | load c =>
      obtain ⟨s', hrun⟩ := ih (s c) s
      exact ⟨s', .head ⟨_, .call pre post () _ k s (s c) s ⟨rfl, rfl⟩, trivial⟩ hrun⟩
    | store c v =>
      obtain ⟨s', hrun⟩ := ih () (Function.update s c v)
      exact ⟨s', .head ⟨_, .call pre post () _ k s () _ rfl, trivial⟩ hrun⟩

theorem threads_end (pre post : List (Thread (Access Cell Val) Access.Answer Unit))
    (hpre : ∀ t ∈ pre, t.prog = .ret ()) (s : Memory Cell Val) :
    ∃ q, GridRun ⟨s, pre ++ post⟩ q ∧ Done q := by
  -- The induction is on the threads that may still run.
  induction post generalizing pre s with
  | nil => exact ⟨_, .refl, by simpa [Done] using hpre⟩
  | cons t post ih =>
    obtain ⟨s', hrun⟩ := thread_ends pre post t.prog s
    have hends : ∀ t ∈ pre ++ [⟨(), .ret ()⟩], t.prog = .ret () := by
      rw [List.forall_mem_append, List.forall_mem_singleton]
      exact ⟨hpre, rfl⟩
    obtain ⟨q, hrest, hdone⟩ := ih _ hends s'
    rw [List.append_assoc] at hrest
    exact ⟨q, hrun.trans hrest, hdone⟩

theorem run_completes (p : GridPool Cell Val) : ∃ q, GridRun p q ∧ Done q :=
  threads_end [] p.threads (by simp) p.state

end Completes

end Grid

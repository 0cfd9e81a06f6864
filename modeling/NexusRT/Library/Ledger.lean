import Mathlib.Data.List.Induction
import Mathlib.Data.List.Nodup
import Mathlib.Data.List.Perm.Basic

/-!
Histories of acquiring and releasing: nothing is acquired while it is held, and nothing is released
that is not held.
-/

inductive LedgerEntry (α : Type)
  | acquire (a : α)
  | release (a : α)
  deriving DecidableEq

namespace LedgerEntry

variable {α : Type} [DecidableEq α]

def post (held : List α) : LedgerEntry α → Option (List α)
  | .acquire a => if a ∈ held then none else some (a :: held)
  | .release a => if a ∈ held then some (held.erase a) else none

def settle (l : List (LedgerEntry α)) : Option (List α) := l.foldlM post []

variable {l : List (LedgerEntry α)} {held : List α} {a : α}

theorem settle_concat (l : List (LedgerEntry α)) (e : LedgerEntry α) :
    settle (l ++ [e]) = (settle l).bind (post · e) := by
  rw [settle, List.foldlM_append]
  simp [settle, bind]

theorem settle_acquire (h : settle l = some held) (ha : a ∉ held) :
    settle (l ++ [.acquire a]) = some (a :: held) := by
  rw [settle_concat, h]
  exact if_neg ha

theorem settle_release (h : settle l = some held) (ha : a ∈ held) :
    settle (l ++ [.release a]) = some (held.erase a) := by
  rw [settle_concat, h]
  exact if_pos ha

theorem settle_releases {rs : List α} (h : settle l = some held) (hrs : rs.Perm held) :
    settle (l ++ rs.map .release) = some [] := by
  induction rs generalizing l held with
  | nil =>
    rw [List.map_nil, List.append_nil, h, List.nil_perm.mp hrs]
  | cons r rs ih =>
    have hr : r ∈ held := hrs.subset List.mem_cons_self
    have hrest : rs.Perm (held.erase r) := by
      have herased := hrs.erase r
      rwa [List.erase_cons_head] at herased
    rw [List.map_cons, List.append_cons]
    exact ih (settle_release h hr) hrest

theorem post_count {e : LedgerEntry α} {held' : List α} (h : post held e = some held') (a : α) :
    held'.count a + [e].count (.release a) = held.count a + [e].count (.acquire a) := by
  cases e with
  | acquire b =>
    obtain ⟨_, hpost⟩ := Option.ite_none_left_eq_some.mp h
    obtain rfl := Option.some.inj hpost
    by_cases hab : b = a
    · simp [hab]
    · simp [hab]
  | release b =>
    obtain ⟨hb, hpost⟩ := Option.ite_none_right_eq_some.mp h
    obtain rfl := Option.some.inj hpost
    by_cases hab : b = a
    · subst hab
      have hpos := List.count_pos_iff.mpr hb
      simp [List.count_erase_self]
      omega
    · simp [hab, List.count_erase_of_ne (Ne.symm hab)]

theorem count_settle (h : settle l = some held) (a : α) :
    l.count (.acquire a) = l.count (.release a) + held.count a := by
  induction l using List.reverseRecOn generalizing held with
  | nil =>
    obtain rfl := Option.some.inj h
    rfl
  | append_singleton l e ih =>
    rw [settle_concat] at h
    obtain ⟨before, hbefore, hpost⟩ := Option.bind_eq_some_iff.mp h
    have hl := ih hbefore
    have he := post_count hpost a
    rw [List.count_append, List.count_append]
    omega

theorem nodup_settle (h : settle l = some held) : held.Nodup := by
  induction l using List.reverseRecOn generalizing held with
  | nil =>
    obtain rfl := Option.some.inj h
    exact List.nodup_nil
  | append_singleton l e ih =>
    rw [settle_concat] at h
    obtain ⟨before, hbefore, hpost⟩ := Option.bind_eq_some_iff.mp h
    have hnodup := ih hbefore
    cases e with
    | acquire b =>
      obtain ⟨hb, heq⟩ := Option.ite_none_left_eq_some.mp hpost
      obtain rfl := Option.some.inj heq
      exact List.nodup_cons.mpr ⟨hb, hnodup⟩
    | release b =>
      obtain ⟨_, heq⟩ := Option.ite_none_right_eq_some.mp hpost
      obtain rfl := Option.some.inj heq
      exact hnodup.erase b

end LedgerEntry

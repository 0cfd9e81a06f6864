import Mathlib.Algebra.Ring.Nat
import NexusRT.Library.Loop
import NexusRT.Library.Tiling
import NexusRT.Library.Trace
import NexusRT.Library.Words
import NexusRT.Types

namespace NexusRT.Memory

open Prog

inductive GdsCall
  | gdsRead (path : String) (off : UInt64) (dst : Ptr) (bytes : UInt64)

abbrev GdsCall.Answer : GdsCall → Type
  | .gdsRead _ _ _ _ => Status

abbrev GdsProg := Prog GdsCall GdsCall.Answer

def gdsRead (path : String) (off : UInt64) (dst : Ptr) (bytes : UInt64) : GdsProg Status :=
  .op (GdsCall.gdsRead path off dst bytes)

def streamChunk (path : String) (offset : UInt64) (dstHbm : Ptr) (bytes chunkBytes off : UInt64) :
    GdsProg (UInt64 ⊕ Status) :=
  if off < bytes then do
    let n := min chunkBytes (bytes - off)
    let s ← gdsRead path (offset + off) (dstHbm + off) n
    if !ok s then return .inr s else
    return .inl (off + chunkBytes)
  else return .inr .ok

def gdsStream (fuel : ℕ) (path : String) (offset : UInt64) (dstHbm : Ptr)
    (bytes chunkBytes : UInt64) : GdsProg (Option Status) :=
  let chunkBytes := if chunkBytes = 0 then 16 * 1024 * 1024 else chunkBytes
  iterate (streamChunk path offset dstHbm bytes chunkBytes) fuel 0

abbrev GdsTrace := List (Event GdsCall GdsCall.Answer)

def statusOf : Event GdsCall GdsCall.Answer → Status
  | ⟨.gdsRead _ _ _ _, s⟩ => s

def readAt (path : String) (offset : UInt64) (dstHbm : Ptr) (i : ℕ × ℕ) : GdsCall :=
  .gdsRead path (offset + UInt64.ofNat i.1) (dstHbm + UInt64.ofNat i.1) (UInt64.ofNat i.2)

structure Streamed (path : String) (offset : UInt64) (dstHbm : Ptr) (bytes : UInt64) (a : ℕ)
    (t : GdsTrace) (s : Status) (l : List (ℕ × ℕ)) : Prop where
  reads : calls t = l.map (readAt path offset dstHbm)
  tiles : ∃ b, Tiles a l b ∧ b ≤ bytes.toNat ∧ (s = .ok → b = bytes.toNat)
  statuses : ∃ k, t.map statusOf = List.replicate k .ok ++ (if s = .ok then [] else [s])

section Loop

variable {path : String} {offset : UInt64} {dstHbm : Ptr} {bytes chunkBytes off : UInt64}

theorem toNat_next (hbytes : bytes.toNat ≤ 2 ^ 63) (hoff : off = 0 ∨ chunkBytes ≤ off)
    (hlt : off < bytes) : (off + chunkBytes).toNat = off.toNat + chunkBytes.toNat := by
  -- The sum may only overflow in the first turn, where it is the size of a chunk.
  rw [UInt64.toNat_add]
  apply Nat.mod_eq_of_lt
  have hlt' := UInt64.lt_iff_toNat_lt.mp hlt
  rcases hoff with rfl | hle
  · have := chunkBytes.toNat_lt
    have : (0 : UInt64).toNat = 0 := rfl
    omega
  · have := UInt64.le_iff_toNat_le.mp hle
    omega

theorem Streamed.cons {n : UInt64} {t : GdsTrace} {s : Status} {l : List (ℕ × ℕ)}
    (hn : 0 < n.toNat) (h : Streamed path offset dstHbm bytes (off.toNat + n.toNat) t s l) :
    Streamed path offset dstHbm bytes off.toNat
      (⟨.gdsRead path (offset + off) (dstHbm + off) n, .ok⟩ :: t) s ((off.toNat, n.toNat) :: l) := by
  obtain ⟨b, htiles, hb⟩ := h.tiles
  obtain ⟨k, hk⟩ := h.statuses
  refine ⟨?_, ⟨b, ⟨rfl, hn, htiles⟩, hb⟩, k + 1, ?_⟩
  · rw [calls_cons, h.reads, List.map_cons, readAt, UInt64.ofNat_toNat, UInt64.ofNat_toNat]
  · rw [List.map_cons, hk, List.replicate_succ, List.cons_append]
    rfl

theorem streamChunk_traces {A : (c : GdsCall) → c.Answer → Prop} {t : GdsTrace}
    {r : UInt64 ⊕ Status} (h : Traces A (streamChunk path offset dstHbm bytes chunkBytes off) t r) :
    (bytes ≤ off ∧ t = [] ∧ r = .inr .ok) ∨ (off < bytes ∧ ∃ s,
      t = [⟨.gdsRead path (offset + off) (dstHbm + off) (min chunkBytes (bytes - off)), s⟩] ∧
        r = if s = .ok then .inl (off + chunkBytes) else .inr s) := by
  unfold streamChunk at h
  split at h
  · next hlt =>
    unfold gdsRead at h
    rw [traces_op_bind] at h
    obtain ⟨s, u, _, rfl, h⟩ := h
    refine .inr ⟨hlt, s, ?_⟩
    by_cases hs : s = .ok
    · rw [if_neg (by simp [hs])] at h
      obtain ⟨rfl, rfl⟩ := h
      exact ⟨rfl, (if_pos hs).symm⟩
    · rw [if_pos (by simpa using hs)] at h
      obtain ⟨rfl, rfl⟩ := h
      exact ⟨rfl, (if_neg hs).symm⟩
  · next hend =>
    obtain ⟨rfl, rfl⟩ := h
    exact .inl ⟨UInt64.not_lt.mp hend, rfl, rfl⟩

theorem stream_streamed {A : (c : GdsCall) → c.Answer → Prop} (hbytes : bytes.toNat ≤ 2 ^ 63)
    (hchunk : chunkBytes ≠ 0) (fuel : ℕ) (hoff : off = 0 ∨ chunkBytes ≤ off)
    (hfuel : bytes.toNat - off.toNat < fuel) {t : GdsTrace} {r : Option Status}
    (h : Traces A (iterate (streamChunk path offset dstHbm bytes chunkBytes) fuel off) t r) :
    ∃ s l, r = some s ∧ Streamed path offset dstHbm bytes (min off.toNat bytes.toNat) t s l := by
  induction fuel generalizing off t with
  | zero => omega
  | succ fuel ih =>
    rw [iterate, traces_bind] at h
    obtain ⟨t₁, t₂, turn, rfl, hturn, h⟩ := h
    rcases streamChunk_traces hturn with ⟨hend, rfl, rfl⟩ | ⟨hlt, s, rfl, rfl⟩
    · obtain ⟨rfl, rfl⟩ := h
      rw [Nat.min_eq_right (UInt64.le_iff_toNat_le.mp hend)]
      exact ⟨.ok, [], rfl, rfl, ⟨_, rfl, le_rfl, fun _ => rfl⟩, 0, rfl⟩
    · have hlt' := UInt64.lt_iff_toNat_lt.mp hlt
      have hpos : 0 < chunkBytes.toNat := by
        apply Nat.pos_of_ne_zero
        exact fun hzero => hchunk (UInt64.toNat_inj.mp hzero)
      have hn : (min chunkBytes (bytes - off)).toNat =
          min chunkBytes.toNat (bytes.toNat - off.toNat) := by
        rw [Words.toNat_min, UInt64.toNat_sub_of_le _ _ (UInt64.le_of_lt hlt)]
      rw [Nat.min_eq_left (Nat.le_of_lt hlt')]
      by_cases hs : s = .ok
      · subst hs
        rw [if_pos rfl] at h
        have hnext := toNat_next hbytes hoff hlt
        have hlater : chunkBytes ≤ off + chunkBytes := by
          rw [UInt64.le_iff_toNat_le]
          omega
        have hmin : min (off + chunkBytes).toNat bytes.toNat =
            off.toNat + (min chunkBytes (bytes - off)).toNat := by
          omega
        obtain ⟨s, l, rfl, hrest⟩ := ih (.inr hlater) (by omega) h
        rw [hmin] at hrest
        exact ⟨s, _, rfl, hrest.cons (by omega)⟩
      · rw [if_neg hs] at h
        obtain ⟨rfl, rfl⟩ := h
        refine ⟨s, [(off.toNat, (min chunkBytes (bytes - off)).toNat)], rfl, ?_,
          ⟨_, ⟨rfl, by omega, rfl⟩, by omega, fun hok => absurd hok hs⟩, 0, ?_⟩
        · simp [readAt]
        · simp [statusOf, hs]

end Loop

theorem gdsStream_streamed (path : String) (offset : UInt64) (dstHbm : Ptr)
    (bytes chunkBytes : UInt64) (hbytes : bytes.toNat ≤ 2 ^ 63) (fuel : ℕ)
    (hfuel : bytes.toNat < fuel) (t : GdsTrace) (r : Option Status)
    (h : Traces (fun _ _ => True) (gdsStream fuel path offset dstHbm bytes chunkBytes) t r) :
    ∃ s l, r = some s ∧ Streamed path offset dstHbm bytes 0 t s l ∧
      l.Pairwise (fun i j => i.1 + i.2 ≤ j.1) := by
  have hchunk : (if chunkBytes = 0 then 16 * 1024 * 1024 else chunkBytes) ≠ 0 := by
    split
    · decide
    · assumption
  obtain ⟨s, l, hr, hstreamed⟩ :=
    stream_streamed hbytes hchunk fuel (.inl rfl) (Nat.lt_of_le_of_lt (Nat.sub_le _ _) hfuel) h
  rw [show (0 : UInt64).toNat = 0 from rfl, Nat.zero_min] at hstreamed
  obtain ⟨b, htiles, _⟩ := hstreamed.tiles
  exact ⟨s, l, hr, hstreamed, htiles.pairwise⟩

def failsAtSix : (c : GdsCall) → c.Answer
  | .gdsRead _ off _ _ => if off = 6 then .ioError else .ok

theorem gdsStream_streamed_failing : ∃ t l,
    Streamed "weights.bin" 2 0x10000 9 0 t .ioError l ∧ l.Pairwise (fun i j => i.1 + i.2 ≤ j.1) := by
  have htraces := traces_traceWith (f := failsAtSix) (A := fun _ _ => True) (fun _ => trivial)
    (gdsStream 10 "weights.bin" 2 0x10000 9 2)
  obtain ⟨s, l, hs, hstreamed⟩ :=
    gdsStream_streamed "weights.bin" 2 0x10000 9 2 (by decide) 10 (by decide) _ _ htraces
  obtain rfl : .ioError = s := Option.some.inj hs
  exact ⟨_, l, hstreamed⟩

end NexusRT.Memory

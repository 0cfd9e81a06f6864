import NexusRT.Firmware.StreamPool
import NexusRT.Scheduler.StreamClients

namespace NexusRT.Scheduler

open Firmware Interleave MicroKernel

abbrev StreamThread := Thread MicroKernelCall MicroKernelCall.Answer (List StreamHandle)

abbrev StreamPool := Pool MicroKernelCall MicroKernelCall.Answer MicroKernel (List StreamHandle)

def heldBy (ts : List StreamThread) : List StreamHandle := (ts.map Thread.ghost).flatten

def Conserved (m₀ m : MicroKernel) (ts : List StreamThread) : Prop :=
  ∀ c, (m.free c ++ (heldBy ts).filter (fun h => h.klass = c)).Perm (m₀.free c)

theorem conserved_iff {m₀ m : MicroKernel} {ts : List StreamThread} : Conserved m₀ m ts ↔
    ∀ c h, (m.free c).count h + (if h.klass = c then (heldBy ts).count h else 0) =
      (m₀.free c).count h := by
  apply forall_congr'
  intro c
  rw [List.perm_iff_count]
  apply forall_congr'
  intro h
  rw [List.count_append]
  by_cases hc : h.klass = c
  · rw [if_pos hc, List.count_filter (by simpa using hc)]
  · have hnot : h ∉ (heldBy ts).filter (fun h => h.klass = c) := by simp [hc]
    rw [if_neg hc, List.count_eq_zero.mpr hnot]

theorem heldBy_split (pre post : List StreamThread) (t : StreamThread) :
    (heldBy (pre ++ t :: post)).Perm (t.ghost ++ heldBy (pre ++ post)) := by
  simp only [heldBy, List.map_append, List.map_cons, List.flatten_append, List.flatten_cons]
  rw [← List.append_assoc, ← List.append_assoc]
  exact List.perm_append_comm.append_right _

theorem count_heldBy (pre post : List StreamThread) (t : StreamThread) (h : StreamHandle) :
    (heldBy (pre ++ t :: post)).count h = t.ghost.count h + (heldBy (pre ++ post)).count h := by
  rw [(heldBy_split pre post t).count_eq, List.count_append]

section Calls

variable {m₀ m m' : MicroKernel} {pre post : List StreamThread} {l : List StreamHandle}
  {p q : MicroKernelProg Unit}

theorem conserved_same (hfree : m'.free = m.free) (hc : Conserved m₀ m (pre ++ ⟨l, p⟩ :: post)) :
    Conserved m₀ m' (pre ++ ⟨l, q⟩ :: post) := by
  intro c
  simpa [hfree, heldBy] using hc c

theorem conserved_acquire {klass : StreamClass} {h : StreamHandle} (hs : Spawned m₀)
    (hfree : m.free klass = m'.free klass ++ [h]) (hother : ∀ c ≠ klass, m'.free c = m.free c)
    (hc : Conserved m₀ m (pre ++ ⟨l, p⟩ :: post)) :
    h.id ≠ 0 ∧ Conserved m₀ m' (pre ++ ⟨h :: l, q⟩ :: post) := by
  have hmem : h ∈ m₀.free klass := (hc klass).subset (by simp [hfree])
  refine ⟨hs.valid h ((free_sublist_all m₀ klass).subset hmem), ?_⟩
  have hklass : h.klass = klass := hs.klass klass h hmem
  rw [conserved_iff] at hc ⊢
  intro c x
  have hcx := hc c x
  rw [count_heldBy] at hcx ⊢
  rw [List.count_cons]
  by_cases hck : c = klass
  · subst hck
    rw [hfree, List.count_append, List.count_singleton] at hcx
    by_cases hx : x = h
    · subst hx
      simp only [hklass, ↓reduceIte, beq_self_eq_true] at hcx ⊢
      omega
    · have hx' : (h == x) = false := by simpa using Ne.symm hx
      simpa only [hx', Bool.false_eq_true, ↓reduceIte, Nat.add_zero] using hcx
  · rw [hother c hck]
    by_cases hx : x = h
    · subst hx
      have hne : ¬ x.klass = c := fun h => hck (h.symm.trans hklass)
      simpa only [hne, ↓reduceIte] using hcx
    · have hx' : (h == x) = false := by simpa using Ne.symm hx
      simpa only [hx', Bool.false_eq_true, ↓reduceIte, Nat.add_zero] using hcx

theorem conserved_release {h : StreamHandle} (hid : h.id ≠ 0) (hl : h ∈ l)
    (hc : Conserved m₀ m (pre ++ ⟨l, p⟩ :: post)) :
    Conserved m₀ (m.releaseStream h) (pre ++ ⟨l.erase h, q⟩ :: post) := by
  have hheld : h ∈ heldBy (pre ++ ⟨l, p⟩ :: post) := by simp [heldBy, hl]
  have hmem : h ∈ m₀.free h.klass := (hc h.klass).subset (by simp [hheld])
  have hfree := releaseStream_cases m hid (pooled_of_mem_free hmem)
  rw [conserved_iff] at hc ⊢
  intro c x
  have hcx := hc c x
  rw [count_heldBy] at hcx ⊢
  simp only [hfree c] at hcx ⊢
  have hcount : l.count x = (l.erase h).count x + if h == x then 1 else 0 := by
    rw [(List.perm_cons_erase hl).count_eq, List.count_cons]
  by_cases hx : x = h
  · subst hx
    rw [if_pos (beq_self_eq_true x)] at hcount
    by_cases hck : x.klass = c
    · rw [if_pos hck.symm, List.count_append, List.count_singleton_self]
      rw [if_pos hck] at hcx ⊢
      omega
    · rw [if_neg (fun h => hck h.symm)]
      rw [if_neg hck] at hcx ⊢
      exact hcx
  · have hx' : (h == x) = false := by simpa using Ne.symm hx
    rw [hx', if_neg (by simp), Nat.add_zero] at hcount
    rw [← hcount]
    split
    · rw [List.count_append, List.count_singleton, hx', if_neg (by simp), Nat.add_zero]
      exact hcx
    · exact hcx

end Calls

theorem serves_free {c : MicroKernelCall} {r : c.Answer} {m m' : MicroKernel}
    (h : MicroKernel.Serves c m r m') (ha : ∀ klass prio, c ≠ .acquireStream klass prio)
    (hr : ∀ x, c ≠ .releaseStream x) : m'.free = m.free := by
  cases c with
  | loadModule name source => exact (Prog.always_iff _ _ _).mp (loadModule_free m name source) _ _ h
  | acquireStream klass prio => exact absurd rfl (ha klass prio)
  | releaseStream x => exact absurd rfl (hr x)
  | launch => rw [h.1]
  | syncStream => rw [h.1]

theorem conserved_call (m₀ : MicroKernel) (hs : Spawned m₀) (pre post : List StreamThread)
    (l : List StreamHandle) (o : MicroKernelCall) (k : o.Answer → MicroKernelProg Unit)
    (m : MicroKernel) (r : o.Answer) (m' : MicroKernel) (hserves : MicroKernel.Serves o m r m')
    (hallowed : releaseAllowed o l) (hc : Conserved m₀ m (pre ++ ⟨l, .call o k⟩ :: post)) :
    Conserved m₀ m' (pre ++ ⟨held o r l, k r⟩ :: post) := by
  cases o with
  | loadModule => exact conserved_same (serves_free hserves nofun nofun) hc
  | launch => exact conserved_same (serves_free hserves nofun nofun) hc
  | syncStream => exact conserved_same (serves_free hserves nofun nofun) hc
  | acquireStream klass prio =>
    rcases acquireStream_cases hserves with ⟨hid, rfl⟩ | ⟨hfree, hother⟩
    · simpa only [held, hid, ↓reduceIte] using conserved_same rfl hc
    · obtain ⟨hid, hc'⟩ := conserved_acquire hs hfree hother hc
      simpa only [held, hid, ↓reduceIte] using hc'
  | releaseStream h =>
    obtain rfl : m' = m.releaseStream h := hserves
    by_cases hid : h.id = 0
    · have hsame : m.releaseStream h = m := by simp [MicroKernel.releaseStream, hid]
      rw [hsame]
      simpa only [held, hid, ↓reduceIte] using conserved_same rfl hc
    · simpa only [held, hid, ↓reduceIte] using conserved_release hid (hallowed.resolve_left hid) hc

theorem all_perm {m₀ m : MicroKernel} {ts : List StreamThread} (hc : Conserved m₀ m ts) :
    (m.all ++ heldBy ts).Perm m₀.all := by
  rw [conserved_iff] at hc
  rw [List.perm_iff_count]
  intro x
  rw [List.count_append, count_all, count_all, ← hc .compute x, ← hc .dma x, ← hc .fence x]
  have hx := hc x.klass x
  cases hk : x.klass <;> simp_all [MicroKernel.free] <;> omega

theorem pairwise_of_nodup {ts : List StreamThread} (h : ((heldBy ts).map StreamHandle.id).Nodup) :
    ts.Pairwise (fun t u => ∀ h ∈ t.ghost, ∀ h' ∈ u.ghost, h.id ≠ h'.id) := by
  rw [heldBy, List.map_flatten, List.nodup_flatten, List.pairwise_map, List.pairwise_map] at h
  refine h.2.imp fun hdisjoint x hx y hy hid => ?_
  exact hdisjoint (List.mem_map.mpr ⟨x, hx, rfl⟩) (List.mem_map.mpr ⟨y, hy, hid.symm⟩)

theorem heldBy_eq_nil {ts : List StreamThread} (h : ∀ t ∈ ts, t.ghost = []) : heldBy ts = [] := by
  simpa [heldBy] using h

theorem streams_conserved (arch : Arch) (nCompute nDma : UInt32) (s : Status) (m₀ : MicroKernel)
    (hspawn : Prog.Exec (Prog.allow anyBackend) (spawnStreamPool { arch } nCompute nDma) ()
      (s, m₀) ())
    (p : StreamPool) (hrun : Run streamClients (fun _ _ => True) ⟨m₀, []⟩ p) :
    (∀ c, (p.state.free c ++ (heldBy p.threads).filter (fun h => h.klass = c)).Perm (m₀.free c)) ∧
      (∀ c, ((p.state.free c ++ (heldBy p.threads).filter (fun h => h.klass = c)).map
        StreamHandle.id).Nodup) ∧
      p.threads.Pairwise (fun t u => ∀ h ∈ t.ghost, ∀ h' ∈ u.ghost, h.id ≠ h'.id) ∧
      (Done p → ∀ c, (p.state.free c).Perm (m₀.free c)) := by
  have hs : Spawned m₀ :=
    (Prog.always_iff _ _ _).mp (spawnStreamPool_spawned arch nCompute nDma) _ _ hspawn
  have hinit : Sound streamClients releaseAllowed (· = []) (Conserved m₀) ⟨m₀, []⟩ :=
    ⟨by simp, fun c => by simp [heldBy]⟩
  have hsound : Sound streamClients releaseAllowed (· = []) (Conserved m₀) p := by
    refine hrun.sound (fun _ hp => client_givesBack hp) ?_ ?_ hinit
    · intro pre post l o k m r m' hserves hallowed _ hc
      exact conserved_call m₀ hs pre post l o k m r m' hserves hallowed hc
    · intro m ts q _ hc c
      simpa [heldBy, streamClients] using hc c
  have hc := hsound.state
  refine ⟨hc, fun c => ?_, ?_, fun hdone c => ?_⟩
  · rw [((hc c).map StreamHandle.id).nodup_iff]
    exact hs.nodup.sublist ((free_sublist_all m₀ c).map _)
  · have hnodup := ((all_perm hc).map StreamHandle.id).nodup_iff.mpr hs.nodup
    rw [List.map_append] at hnodup
    exact pairwise_of_nodup (List.Nodup.of_append_right hnodup)
  · have hheld := heldBy_eq_nil (fun t ht => hsound.final_of_done hdone ht)
    simpa [hheld] using hc c

theorem streams_conserved_scope : ∃ p : StreamPool,
    heldBy p.threads = [{ id := 1, raw := 7 }] ∧ p.state.free .compute = [] ∧
      (p.state.free .compute ++ (heldBy p.threads).filter (fun h => h.klass = .compute)).Perm
        [{ id := 1, raw := 7 }] := by
  let m₀ : MicroKernel :=
    { arch := .appleSilicon, freeCompute := [{ id := 1, raw := 7 }], nextId := 2 }
  have hspawn : Prog.Exec (Prog.allow anyBackend)
      (spawnStreamPool { arch := .appleSilicon } 1 0) () (.ok, m₀) () :=
    ⟨(.ok, 7), (), trivial, rfl, rfl⟩
  have hclient : Run streamClients (fun _ _ => True) ⟨m₀, []⟩
      ⟨m₀, [⟨[], scope [.construct .compute 0] []⟩]⟩ :=
    Run.spawn .refl _ (.scope _) trivial
  have hacquire := Run.call (S := streamClients) (t := m₀.popBack .compute) []
    (MicroKernelCall.acquireStream .compute 0) ({ id := 1, raw := 7 } : StreamHandle) hclient rfl trivial
  exact ⟨_, rfl, rfl, (streams_conserved .appleSilicon 1 0 .ok m₀ hspawn _ hacquire).1 .compute⟩

end NexusRT.Scheduler

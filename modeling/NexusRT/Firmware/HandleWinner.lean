import NexusRT.Firmware.HandleRuns

namespace NexusRT.Firmware

open Prog Interleave Registry

structure Winner (ctx : ContextRef) (w : HandleState) (cs : List Call) : Prop where
  only : ∀ k c, w.registry.find k = some c → k = ctx.address ∧ c = ctx
  idle : ∀ l ∈ cs, l.fresh = none
  asked : ∀ l ∈ cs, ∀ c, l.asked = some (some c) → c = ctx
  took : ∀ l ∈ cs, ∀ k, l.took = some k → k = ctx.address
  taken : cs.countP (fun l => l.took.isSome) =
    if (w.registry.find ctx.address).isSome then 0 else 1
  tried : ∀ l ∈ cs, l.tried = some ctx.address → w.registry.find ctx.address = none
  closes : ∀ l ∈ cs, l.closes = some ctx.address → w.registry.find ctx.address = none
  others : ∀ l ∈ cs, ∀ k, l.closes = some k → l.took = none →
    l.code = some Status.invalidArgument.code

section Winner

variable {ctx : ContextRef} {w w' : HandleState} {cs cs' : List Call} {l l' : Call}

theorem Winner.perm (h : Winner ctx w cs) (hperm : cs.Perm cs') : Winner ctx w cs' := by
  have hmem : ∀ l, l ∈ cs' → l ∈ cs := fun l hl => hperm.mem_iff.mpr hl
  refine ⟨h.only, fun l hl => h.idle l (hmem l hl), fun l hl => h.asked l (hmem l hl),
    fun l hl => h.took l (hmem l hl), ?_, fun l hl => h.tried l (hmem l hl),
    fun l hl => h.closes l (hmem l hl), fun l hl => h.others l (hmem l hl)⟩
  rw [← hperm.countP_eq, h.taken]

theorem Winner.spawn (h : Winner ctx w cs) : Winner ctx w ({} :: cs) :=
  ⟨h.only, List.forall_mem_cons.mpr ⟨rfl, h.idle⟩, List.forall_mem_cons.mpr ⟨nofun, h.asked⟩,
    List.forall_mem_cons.mpr ⟨nofun, h.took⟩, h.taken, List.forall_mem_cons.mpr ⟨nofun, h.tried⟩,
    List.forall_mem_cons.mpr ⟨nofun, h.closes⟩, List.forall_mem_cons.mpr ⟨nofun, h.others⟩⟩

theorem Winner.relabel (h : Winner ctx w (l :: cs)) (hregistry : w'.registry = w.registry)
    (hfresh : l'.fresh = l.fresh) (hasked : ∀ c, l'.asked = some (some c) → c = ctx)
    (htook : l'.took = l.took)
    (htried : l'.tried = some ctx.address → w.registry.find ctx.address = none)
    (hcloses : l'.closes = some ctx.address → w.registry.find ctx.address = none)
    (hothers : ∀ k, l'.closes = some k → l'.took = none →
      l'.code = some Status.invalidArgument.code) : Winner ctx w' (l' :: cs) := by
  rcases h with ⟨honly, hidle, haskedOld, htookOld, htaken, htriedOld, hclosesOld, hothersOld⟩
  rw [← hregistry] at honly htaken htriedOld hclosesOld htried hcloses
  refine ⟨honly, forall_step hidle fun hl => hfresh.trans hl, forall_step haskedOld fun _ => hasked,
    forall_step htookOld ?_, ?_, forall_step htriedOld fun _ => htried,
    forall_step hclosesOld fun _ => hcloses, forall_step hothersOld fun _ => hothers⟩
  · rw [htook]
    exact id
  · rw [List.countP_cons] at htaken ⊢
    rwa [htook]

theorem Winner.taken_step {k : Ptr} {sp : ContextRef} (h : Winner ctx w (l :: cs))
    (hfind : w.registry.find k = some sp) :
    Winner ctx (w.take k) (Call.after (.takeHandle k) (some sp) l :: cs) := by
  obtain ⟨rfl, rfl⟩ := h.only k sp hfind
  have hregistry := (take_found hfind).1
  have hgone : (w.take sp.address).registry.find sp.address = none := by
    rw [hregistry, Table.find_erase, if_pos rfl]
  refine ⟨fun k c hk => ?_, forall_step h.idle id, forall_step h.asked fun _ c hc => ?_,
    forall_step h.took fun _ k hk => ?_, ?_, fun _ _ _ => hgone, fun _ _ _ => hgone,
    forall_step h.others fun _ _ _ => nofun⟩
  · rw [hregistry] at hk
    exact h.only k c (Table.find_of_find_erase hk)
  · exact (Option.some.inj (Option.some.inj hc)).symm
  · exact (Option.some.inj hk).symm
  · have htaken := h.taken
    rw [hfind, Option.isSome_some, if_pos rfl, List.countP_cons] at htaken
    rw [hgone, Option.isSome_none, if_neg Bool.false_ne_true, List.countP_cons]
    simp only [Call.after, Option.map_some, Option.isSome_some, ↓reduceIte]
    omega

theorem Winner.missed_step {k : Ptr} (h : Winner ctx w (l :: cs)) (hfind : w.registry.find k = none)
    (htook : l.took = none) : Winner ctx (w.take k) (Call.after (.takeHandle k) none l :: cs) := by
  refine h.relabel (take_missed hfind) rfl nofun htook.symm (fun hk => ?_) (h.closes l List.mem_cons_self)
    fun k hk _ => h.others l List.mem_cons_self k hk htook
  rw [← Option.some.inj hk]
  exact hfind

theorem Winner.step {c : RegistryCall} {r : c.Answer} (h : Winner ctx w (l :: cs))
    (hctx : ctx.address ≠ 0) (hserves : HandleState.Serves c w r w')
    (hallowed : Call.Allowed False c l) : Winner ctx w' (Call.after c r l :: cs) := by
  have hl : l ∈ l :: cs := List.mem_cons_self
  cases c with
  | boot profile a => exact hallowed.1.elim
  | registerHandle k sp => exact absurd hallowed.1 (by simp [h.idle l hl])
  | lookupHandle k =>
    obtain ⟨rfl, rfl⟩ := hserves
    refine h.relabel (lookup_registry w k).1 rfl (fun c hc => ?_) rfl (h.tried l hl) (h.closes l hl)
      (h.others l hl)
    exact (h.only k c (Option.some.inj hc)).2
  | takeHandle k =>
    obtain ⟨rfl, rfl⟩ := hserves
    cases hfind : w.registry.find k with
    | none => exact h.missed_step hfind hallowed.2.2.1
    | some sp => exact h.taken_step hfind
  | use sp =>
    obtain rfl := hserves
    exact h.relabel rfl rfl (h.asked l hl) rfl (h.tried l hl) (h.closes l hl) (h.others l hl)
  | shutdown sp =>
    obtain rfl := hserves
    exact h.relabel rfl rfl (h.asked l hl) rfl (h.tried l hl) (h.closes l hl) (h.others l hl)
  | drop sp =>
    obtain rfl := hserves
    exact h.relabel rfl rfl (h.asked l hl) rfl (h.tried l hl) (h.closes l hl) (h.others l hl)
  | enter k dump =>
    obtain ⟨_, rfl⟩ := hserves
    exact h.relabel rfl rfl (h.asked l hl) rfl (h.tried l hl) (h.closes l hl) (h.others l hl)
  | returned shutdownOf code =>
    obtain rfl := hserves
    have hregistry : (w.ended shutdownOf code).registry = w.registry := by
      unfold HandleState.ended
      split
      · rfl
      · split
        · rfl
        · rfl
    refine h.relabel hregistry rfl (h.asked l hl) rfl (h.tried l hl) (fun hk => ?_) fun k hk htook => ?_
    · exact h.tried l hl ((hallowed.2.2 _ hk).2.1 hctx)
    · exact congrArg some ((hallowed.2.2 k hk).2.2 htook)

end Winner

def HandleState.issued (ctx : ContextRef) : HandleState where
  registry := Table.empty.insert ctx.address ctx
  pointers := [ctx]
  made := ctx.number + 1

section Issued

variable {ctx : ContextRef}

theorem issued_find {k : Ptr} {c : ContextRef} (h : (HandleState.issued ctx).registry.find k = some c) :
    k = ctx.address ∧ c = ctx := by
  rw [HandleState.issued, Table.find_insert, Table.find_empty] at h
  split at h
  · next hk => exact ⟨hk, (Option.some.inj h).symm⟩
  · exact absurd h (by simp)

theorem issued_inv (ctx : ContextRef) : HandleInv (.issued ctx) [] := by
  refine ⟨⟨fun c => ?_, fun k c hk => ?_, ?_, ?_⟩, ⟨by simp, by simp, List.nodup_nil⟩,
    ⟨by simp [HandleState.issued], by simp, by simp [HandleState.issued],
      by simp [HandleState.issued], by simp, by simp⟩, by simp⟩
  · have hempty : (Table.empty : Table Ptr ContextRef).count (fun d => d = c) = 0 := by
      rw [Table.count_eq_zero]
      simp
    have hinsert := count_registered (t := Table.empty) (k := ctx.address) rfl ctx c
    rw [HandleState.issued, hinsert, hempty]
    simp [pointersOf]
  · obtain ⟨rfl, rfl⟩ := issued_find hk
    rfl
  · simp [HandleState.issued]
  · simp [HandleState.issued]

theorem issued_winner (ctx : ContextRef) : Winner ctx (.issued ctx) [] where
  only _ _ hk := issued_find hk
  idle := by simp
  asked := by simp
  took := by simp
  taken := by simp [HandleState.issued]
  tried := by simp
  closes := by simp
  others := by simp

end Issued

abbrev Issued (ctx : ContextRef) (q : AbiPool) : Prop :=
  Run (abiClients False) (fun _ _ => True) ⟨.issued ctx, []⟩ q

structure Orderly (ctx : ContextRef) (q : AbiPool) : Prop where
  taken : q.threads.countP (fun t => t.ghost.took.isSome) =
    if (q.state.registry.find ctx.address).isSome then 0 else 1
  closes : ∀ t ∈ q.threads, t.ghost.closes = some ctx.address →
    q.state.registry.find ctx.address = none
  ran : ∀ t ∈ q.threads, t.ghost.ran = true → t.ghost.took = some ctx.address
  runs : ∀ t ∈ q.threads, t.ghost.took ≠ none → t.ghost.code ≠ none → t.ghost.ran = true
  others : ∀ t ∈ q.threads, ∀ k, t.ghost.closes = some k → t.ghost.took = none →
    t.ghost.code = some Status.invalidArgument.code
  refused : ∀ t ∈ q.threads, t.ghost.dump = false → (∀ c, t.ghost.asked ≠ some (some c)) →
    t.ghost.touched = [] ∧ ∀ code, t.ghost.code = some code → code = Status.invalidArgument.code
  touched : ∀ t ∈ q.threads, ∀ c ∈ t.ghost.touched, c = ctx ∧ t.ghost.asked = some (some c)
  alive : ∀ t ∈ q.threads, ∀ c, t.ghost.asked = some (some c) → t.ghost.dropped = false →
    c ∈ q.state.pointers
  uses : ∀ t ∈ q.threads, ∀ o k c, t.prog = .call o k → o = .use c ∨ o = .shutdown c →
    c ∈ q.state.pointers
  late : ∀ r ∈ q.state.late, r = none

theorem winner_sound {ctx : ContextRef} (hctx : ctx.address ≠ 0) {q : AbiPool} (h : Issued ctx q) :
    Winner ctx q.state (ghosts q.threads) := by
  have hsound := Run.sound (S := abiClients False) (p := ⟨.issued ctx, []⟩)
    (J := fun w ts => Winner ctx w (ghosts ts)) (fun p hp => abiClient_obeys hp) ?_ ?_ h
    ⟨by simp, issued_winner ctx⟩
  · exact hsound.state
  · intro pre post l c k w r w' hserves hallowed _ hwinner
    have hfront := hwinner.perm (ghosts_middle pre post ⟨l, .call c k⟩)
    exact (hfront.step hctx hserves hallowed).perm
      (ghosts_middle pre post ⟨Call.after c r l, k r⟩).symm
  · intro w ts p _ hwinner
    exact hwinner.spawn

theorem calls_orderly {ctx : ContextRef} (hctx : ctx.address ≠ 0) {q : AbiPool} (h : Issued ctx q) :
    Orderly ctx q := by
  have hsound := handles_sound (fun _ _ _ _ hallowed _ => hallowed.1.elim) h
    ⟨by simp, issued_inv ctx⟩
  have hwinner := winner_sound hctx h
  have hghosts : ∀ t ∈ q.threads, t.ghost ∈ ghosts q.threads := fun t ht => List.mem_map_of_mem ht
  have hcall : ∀ t ∈ q.threads, t.ghost.Consistent := fun t ht =>
    hsound.state.consistent t.ghost (hghosts t ht)
  have halive : ∀ t ∈ q.threads, ∀ c ∈ t.ghost.held, c ∈ q.state.pointers := fun t ht _ hc =>
    hsound.state.owned.alive (hghosts t ht) hc
  refine ⟨?_, fun t ht => hwinner.closes _ (hghosts t ht), fun t ht hran => ?_,
    fun t ht => (hcall t ht).done, fun t ht => hwinner.others _ (hghosts t ht),
    fun t ht hdump hnone => ⟨?_, (hcall t ht).refused hdump hnone⟩, fun t ht c hc => ?_,
    fun t ht c hc hdropped => halive t ht c ((hcall t ht).kept c hc hdropped),
    fun t ht o k c hprog ho => ?_, hsound.state.retired.late⟩
  · have htaken := hwinner.taken
    rwa [ghosts, List.countP_map] at htaken
  · obtain ⟨k, hk⟩ := Option.ne_none_iff_exists'.mp ((hcall t ht).ran hran)
    rw [hk, hwinner.took _ (hghosts t ht) k hk]
  · exact List.eq_nil_iff_forall_not_mem.mpr fun c hc => hnone c ((hcall t ht).touched c hc)
  · have hasked := (hcall t ht).touched c hc
    exact ⟨hwinner.asked _ (hghosts t ht) c hasked, hasked⟩
  · have hobeys := hsound.threads t ht
    rw [hprog] at hobeys
    rcases ho with rfl | rfl
    · exact halive t ht c hobeys.1.1
    · exact halive t ht c hobeys.1.1

theorem issued_shutdown (ctx : ContextRef) (hctx : ctx.address ≠ 0) : ∃ l w, Issued ctx ⟨w, [l]⟩ ∧
    w.registry.find ctx.address = none ∧ w.closed = [ctx.address] := by
  have hstart : Issued ctx ⟨.issued ctx, []⟩ := .refl
  obtain ⟨l, _, hrun⟩ := shutdown_run ctx.address ctx (fun _ _ _ => trivial) hstart hctx
    (by simp [HandleState.issued]) (by simp [HandleState.issued])
  exact ⟨_, _, hrun, by simp, rfl⟩

theorem calls_orderly_shutdown : ∃ q, Issued ⟨0, 16⟩ q ∧
    q.threads.countP (fun t => t.ghost.took.isSome) = 1 := by
  obtain ⟨l, w, hrun, hgone, _⟩ := issued_shutdown ⟨0, 16⟩ (by decide)
  refine ⟨_, hrun, ?_⟩
  rw [(calls_orderly (by decide) hrun).taken, hgone]
  rfl

theorem dump_served : ¬ ∀ (ctx : ContextRef) (q : AbiPool), ctx.address ≠ 0 → Issued ctx q →
    ∀ t ∈ q.threads, (∀ c, t.ghost.asked ≠ some (some c)) →
      ∀ code, t.ghost.code = some code → code = Status.invalidArgument.code := by
  intro hclaim
  obtain ⟨l, w, hrun, _, hclosed⟩ := issued_shutdown ⟨0, 16⟩ (by decide)
  have hspawn := Run.spawn hrun _ (.metricsDump 16 true 64) trivial
  have henter := Run.call (S := abiClients False) [] (.enter 16 true) true hspawn
    ⟨by simp [hclosed], rfl⟩ trivial
  have hreturned := Run.call (S := abiClients False) [] (.returned none 0) () henter rfl trivial
  have hcode := hclaim ⟨0, 16⟩ _ (by decide) hreturned _ List.mem_cons_self nofun 0 rfl
  exact absurd hcode (by decide)

end NexusRT.Firmware

import NexusRT.Firmware.Handles

namespace NexusRT.Firmware

open Prog Interleave Registry

section Run

variable {inits : Prop} {w w' : HandleState} {cs : List Call} {l : Call}

theorem step_lookup {k : Ptr} {r : Option ContextRef} (hr : r = w.registry.find k)
    (hhandle : l.handle = some k) (hasked : l.asked = none) (htook : l.took = none)
    (hcode : l.code = none) (h : HandleInv w (l :: cs)) :
    HandleInv (w.lookup k) (Call.after (.lookupHandle k) r l :: cs) := by
  subst hr
  have hinv := asked_inv k h
  obtain ⟨late, hlate⟩ := asked_eq w k
  unfold HandleState.lookup
  rw [hlate] at hinv ⊢
  cases hfind : w.registry.find k with
  | none => exact step_missed l.tried hasked htook hcode htook hinv
  | some sp => exact step_found (w := { w with late }) hfind hhandle hasked htook hcode hinv

theorem step_take {k : Ptr} {r : Option ContextRef} (hr : r = w.registry.find k)
    (hhandle : l.handle = some k) (hasked : l.asked = none) (htook : l.took = none)
    (hcode : l.code = none) (h : HandleInv w (l :: cs)) :
    HandleInv (w.take k) (Call.after (.takeHandle k) r l :: cs) := by
  subst hr
  have hinv := asked_inv k h
  obtain ⟨late, hlate⟩ := asked_eq w k
  unfold HandleState.take
  rw [hlate] at hinv ⊢
  cases hfind : w.registry.find k with
  | none => exact step_missed (some k) hasked htook hcode rfl hinv
  | some sp => exact step_taken (w := { w with late }) hfind hhandle hasked htook hcode hinv

theorem step_call {c : RegistryCall} {r : c.Answer} (hserves : HandleState.Serves c w r w')
    (hallowed : Call.Allowed inits c l) (hplace : ∀ profile a, c = .boot profile a → a ∉ w.retired)
    (h : HandleInv w (l :: cs)) : HandleInv w' (Call.after c r l :: cs) := by
  cases c with
  | boot profile a => exact step_boot hserves hallowed.2 (hplace profile a rfl) h
  | registerHandle k sp =>
    obtain rfl := hserves
    exact step_register hallowed.1 hallowed.2.1 hallowed.2.2 h
  | lookupHandle k =>
    obtain ⟨hr, rfl⟩ := hserves
    obtain ⟨hhandle, hasked, htook, hcode⟩ := hallowed
    exact step_lookup hr hhandle hasked htook hcode h
  | takeHandle k =>
    obtain ⟨hr, rfl⟩ := hserves
    obtain ⟨hhandle, hasked, htook, hcode⟩ := hallowed
    exact step_take hr hhandle hasked htook hcode h
  | use sp =>
    obtain rfl := hserves
    exact step_touched hallowed.2 (h.consistent l List.mem_cons_self).ran id h
  | shutdown sp =>
    obtain rfl := hserves
    exact step_touched hallowed.2.1 (fun _ => hallowed.2.2) (fun _ => rfl) h
  | drop sp =>
    obtain rfl := hserves
    exact step_drop hallowed.1 hallowed.2 h
  | enter k dump =>
    obtain ⟨rfl, rfl⟩ := hserves
    exact step_enter hallowed.2.1 hallowed.2.2.2 h
  | returned shutdownOf code =>
    obtain rfl := hserves
    exact step_returned hallowed.1 (fun k hk => (hallowed.2.2 k hk).1) hallowed.2.1 h

theorem HandleInv.spawn (h : HandleInv w cs) : HandleInv w ({} :: cs) := by
  refine ⟨⟨h.owned.counted, h.owned.keyed, h.owned.numbered, h.owned.apart⟩,
    ⟨List.forall_mem_cons.mpr ⟨nofun, h.unregistered.held⟩,
      List.forall_mem_cons.mpr ⟨nofun, h.unregistered.absent⟩, h.unregistered.nodup⟩,
    ⟨h.retired.gone, List.forall_mem_cons.mpr ⟨nofun, h.retired.fresh⟩, h.retired.late,
      h.retired.closed, List.forall_mem_cons.mpr ⟨nofun, h.retired.took⟩,
      List.forall_mem_cons.mpr ⟨nofun, h.retired.stale⟩⟩,
    List.forall_mem_cons.mpr ⟨⟨nofun, nofun, fun _ _ => nofun, fun h => absurd rfl h, nofun,
      fun h => absurd rfl h⟩, h.consistent⟩⟩

end Run

def ghosts (ts : List AbiThread) : List Call := ts.map Thread.ghost

theorem ghosts_middle (pre post : List AbiThread) (t : AbiThread) :
    (ghosts (pre ++ t :: post)).Perm (t.ghost :: ghosts (pre ++ post)) :=
  List.perm_middle.map Thread.ghost

theorem handles_sound {inits : Prop} {G : AbiPool → Action RegistryCall → Prop}
    (hplace : ∀ (p : AbiPool) l profile a, Call.Allowed inits (.boot profile a) l →
      G p (.call (.boot profile a)) → a ∉ p.state.retired)
    {p q : AbiPool} (h : Run (abiClients inits) G p q)
    (hp : Sound (abiClients inits) (Call.Allowed inits) (fun _ => True)
      (fun w ts => HandleInv w (ghosts ts)) p) :
    Sound (abiClients inits) (Call.Allowed inits) (fun _ => True)
      (fun w ts => HandleInv w (ghosts ts)) q := by
  refine h.sound (fun p hp => abiClient_obeys hp) ?_ (fun _ _ _ _ h => h.spawn) hp
  intro pre post l c k w r w' hserves hallowed hG hinv
  have hfront := hinv.perm (ghosts_middle pre post ⟨l, .call c k⟩)
  refine HandleInv.perm ?_ (ghosts_middle pre post ⟨Call.after c r l, k r⟩).symm
  refine step_call hserves hallowed (fun profile a hboot => ?_) hfront
  subst hboot
  exact hplace _ l profile a hallowed hG

theorem empty_sound (inits : Prop) : Sound (abiClients inits) (Call.Allowed inits) (fun _ => True)
    (fun w ts => HandleInv w (ghosts ts)) ⟨{}, []⟩ where
  threads := by simp
  state := ⟨⟨fun _ => rfl, nofun, by simp, by simp⟩, ⟨by simp [ghosts], by simp [ghosts], List.nodup_nil⟩,
    ⟨by simp, by simp [ghosts], by simp, by simp, by simp [ghosts], by simp [ghosts]⟩, by simp [ghosts]⟩

def PlacesApart (p : AbiPool) (a : Action RegistryCall) : Prop :=
  ∀ profile address, a = .call (.boot profile address) → address ∉ p.state.retired

theorem placesApart_spawn (p : AbiPool) : PlacesApart p .spawn := by
  intro profile address h
  cases h

theorem placesApart_call (p : AbiPool) {c : RegistryCall}
    (hc : ∀ profile address, c ≠ .boot profile address) : PlacesApart p (.call c) := by
  intro profile address h
  cases h
  exact absurd rfl (hc profile address)

theorem stale_handle_refused {q : AbiPool} (h : Run (abiClients True) PlacesApart ⟨{}, []⟩ q) :
    ∀ t ∈ q.threads, t.ghost.stale = true → t.ghost.dump = false → t.ghost.touched = [] ∧
      ∀ code, t.ghost.code = some code → code = Status.invalidArgument.code := by
  intro t ht hstale hdump
  have hsound := handles_sound (fun _ _ profile a _ hG => hG profile a rfl) h (empty_sound True)
  have hmem : t.ghost ∈ ghosts q.threads := List.mem_map_of_mem ht
  obtain ⟨_, hnone⟩ := hsound.state.retired.stale t.ghost hmem hstale
  have hcall := hsound.state.consistent t.ghost hmem
  refine ⟨List.eq_nil_iff_forall_not_mem.mpr fun c hc => ?_, hcall.refused hdump hnone⟩
  exact hnone c (hcall.touched c hc)

section Sequential

variable {inits : Prop} {G : AbiPool → Action RegistryCall → Prop} {p : AbiPool} {w : HandleState}
  {ts : List AbiThread} (a : Ptr) (sp : ContextRef)

theorem init_run (hG : ∀ p c, PlacesApart p c → G p c) (hinits : inits)
    (h : Run (abiClients inits) G p ⟨w, ts⟩) (ha : a ≠ 0) (hfree : ∀ c ∈ w.pointers, c.address ≠ a)
    (hnone : w.registry.find a = none) (hboot : ∀ q, q.state = w → G q (.call (.boot "auto" a))) :
    ∃ l, Run (abiClients inits) G p ⟨{ w with
      registry := w.registry.insert a ⟨w.made, a⟩
      pointers := ⟨w.made, a⟩ :: w.pointers
      made := w.made + 1 }, ⟨l, .ret ()⟩ :: ts⟩ := by
  have hspawn := Run.spawn h _ (.init hinits none true a) (hG _ _ (placesApart_spawn _))
  have hbooted := Run.call (S := abiClients inits) [] (.boot "auto" a) (.ok ⟨w.made, a⟩) hspawn
    ⟨ha, hfree, rfl, rfl⟩ (hboot _ rfl)
  have hregistered := Run.call (S := abiClients inits) [] (.registerHandle a ⟨w.made, a⟩) () hbooted
    rfl (hG _ _ (placesApart_call _ (by simp)))
  have hdropped := Run.call (S := abiClients inits) [] (.drop ⟨w.made, a⟩) () hregistered
    rfl (hG _ _ (placesApart_call _ (by simp)))
  simp only [HandleState.register, hnone, Option.elim_none, List.erase_cons_head] at hdropped
  exact ⟨_, hdropped⟩

theorem shutdown_run (hG : ∀ p c, PlacesApart p c → G p c) (h : Run (abiClients inits) G p ⟨w, ts⟩)
    (ha : a ≠ 0) (hfind : w.registry.find a = some sp) (hretired : a ∉ w.retired) :
    ∃ l : Call, l.code = some 0 ∧ Run (abiClients inits) G p ⟨{ w with
      registry := w.registry.erase a
      pointers := w.pointers.erase sp
      retired := a :: w.retired
      closed := a :: w.closed }, ⟨l, .ret ()⟩ :: ts⟩ := by
  have hspawn := Run.spawn h _ (.shutdown a) (hG _ _ (placesApart_spawn _))
  have henter := Run.call (S := abiClients inits) [] (.enter a false) (decide (a ∈ w.closed)) hspawn
    ⟨rfl, rfl⟩ (hG _ _ (placesApart_call _ (by simp)))
  rw [nexusrtFirmwareShutdown, if_neg ha] at henter
  have htaken := Run.call (S := abiClients inits) [] (.takeHandle a) (some sp) henter
    ⟨hfind.symm, rfl⟩ (hG _ _ (placesApart_call _ (by simp)))
  have hshutdown := Run.call (S := abiClients inits) [] (.shutdown sp) Status.ok htaken
    rfl (hG _ _ (placesApart_call _ (by simp)))
  have hdropped := Run.call (S := abiClients inits) [] (.drop sp) () hshutdown
    rfl (hG _ _ (placesApart_call _ (by simp)))
  have hreturned := Run.call (S := abiClients inits) [] (.returned (some a) 0) () hdropped
    rfl (hG _ _ (placesApart_call _ (by simp)))
  simp only [HandleState.take, hfind, HandleState.asked, hretired, ↓reduceIte,
    HandleState.ended] at hreturned
  exact ⟨_, rfl, hreturned⟩

theorem entry_run (hG : ∀ p c, PlacesApart p c → G p c) (h : Run (abiClients inits) G p ⟨w, ts⟩)
    (hfind : w.registry.find a = some sp) :
    ∃ l : Call, l.stale = decide (a ∈ w.closed) ∧ l.dump = false ∧ l.code = some 0 ∧
      ∃ v, Run (abiClients inits) G p ⟨v, ⟨l, .ret ()⟩ :: ts⟩ := by
  let body : ContextRef → RegistryProg Int := fun sp => .op (RegistryCall.use sp)
  have hspawn := Run.spawn h _ (.entry a body fun _ => ⟨rfl, fun _ => trivial⟩)
    (hG _ _ (placesApart_spawn _))
  have henter := Run.call (S := abiClients inits) [] (.enter a false) (decide (a ∈ w.closed)) hspawn
    ⟨rfl, rfl⟩ (hG _ _ (placesApart_call _ (by simp)))
  have hfound := Run.call (S := abiClients inits) [] (.lookupHandle a) (some sp) henter
    ⟨hfind.symm, rfl⟩ (hG _ _ (placesApart_call _ (by simp)))
  have hused := Run.call (S := abiClients inits) [] (.use sp) (0 : Int) hfound
    rfl (hG _ _ (placesApart_call _ (by simp)))
  have hdropped := Run.call (S := abiClients inits) [] (.drop sp) () hused
    rfl (hG _ _ (placesApart_call _ (by simp)))
  have hreturned := Run.call (S := abiClients inits) [] (.returned none 0) () hdropped
    rfl (hG _ _ (placesApart_call _ (by simp)))
  exact ⟨_, rfl, rfl, rfl, _, hreturned⟩

end Sequential

theorem stale_handle_refused_twice : ∃ q, Run (abiClients True) PlacesApart ⟨{}, []⟩ q ∧
    ∃ t ∈ q.threads, t.ghost.closes = some 16 ∧ t.ghost.stale = true ∧
      ∀ code, t.ghost.code = some code → code = Status.invalidArgument.code := by
  obtain ⟨_, hinit⟩ := init_run 16 (p := ⟨{}, []⟩) (fun _ _ hG => hG) trivial .refl (by decide)
    (by simp) rfl (fun q hq profile address _ => by simp [hq])
  obtain ⟨_, _, hshutdown⟩ := shutdown_run 16 ⟨0, 16⟩ (fun _ _ hG => hG) hinit
    (by decide) rfl (by simp)
  have hspawn := Run.spawn hshutdown _ (.shutdown 16) (placesApart_spawn _)
  have henter := Run.call (S := abiClients True) [] (.enter 16 false) true hspawn
    ⟨by simp, rfl⟩ (placesApart_call _ (by simp))
  rw [nexusrtFirmwareShutdown, if_neg (by decide)] at henter
  have htaken := Run.call (S := abiClients True) [] (.takeHandle 16) none henter ⟨rfl, rfl⟩
    (placesApart_call _ (by simp))
  have hreturned := Run.call (S := abiClients True) [] (.returned (some 16) (-1)) () htaken rfl
    (placesApart_call _ (by simp))
  refine ⟨_, hreturned, _, List.mem_cons_self, rfl, rfl, ?_⟩
  exact (stale_handle_refused hreturned _ List.mem_cons_self rfl rfl).2

theorem stale_handle_served : ¬ ∀ q : AbiPool, Run (abiClients True) (fun _ _ => True) ⟨{}, []⟩ q →
    ∀ t ∈ q.threads, t.ghost.stale = true → t.ghost.dump = false →
      ∀ code, t.ghost.code = some code → code = Status.invalidArgument.code := by
  intro hclaim
  obtain ⟨_, hinit⟩ := init_run 16 (G := fun _ _ => True) (p := ⟨{}, []⟩) (fun _ _ _ => trivial)
    trivial .refl (by decide) (by simp) rfl (fun _ _ => trivial)
  obtain ⟨_, _, hshutdown⟩ := shutdown_run 16 ⟨0, 16⟩ (fun _ _ _ => trivial) hinit
    (by decide) rfl (by simp)
  obtain ⟨_, hagain⟩ := init_run 16 (fun _ _ _ => trivial) trivial hshutdown
    (by decide) (by simp) rfl (fun _ _ => trivial)
  obtain ⟨l, hstale, hdump, hcode, v, hentry⟩ := entry_run 16 ⟨1, 16⟩
    (fun _ _ _ => trivial) hagain rfl
  have hrefused := hclaim _ hentry ⟨l, .ret ()⟩ List.mem_cons_self (by simp [hstale]) hdump 0 hcode
  exact absurd hrefused (by decide)

end NexusRT.Firmware

import NexusRT.Firmware.Registry

namespace NexusRT.Firmware

open Prog Interleave Registry

def Call.Allowed (inits : Prop) : RegistryCall → Call → Prop
  | .boot _ _, l => inits ∧ l.fresh = none
  | .registerHandle k sp, l => l.fresh = some sp ∧ sp ∈ l.held ∧ k = sp.address
  | .lookupHandle k, l => l.handle = some k ∧ l.asked = none ∧ l.took = none ∧ l.code = none
  | .takeHandle k, l => l.handle = some k ∧ l.asked = none ∧ l.took = none ∧ l.code = none
  | .use sp, l => sp ∈ l.held ∧ l.asked = some (some sp)
  | .shutdown sp, l => sp ∈ l.held ∧ l.asked = some (some sp) ∧ l.took ≠ none
  | .drop sp, l => sp ∈ l.held ∧ l.fresh = none
  | .enter _ _, l => l.handle = none ∧ l.asked = none ∧ l.took = none ∧ l.code = none
  | .returned shutdownOf code, l =>
    (l.dump = false → (∀ sp, l.asked ≠ some (some sp)) → code = Status.invalidArgument.code) ∧
      (l.took ≠ none → l.ran = true) ∧
      ∀ k, shutdownOf = some k → (code = 0 → l.took = some k) ∧ (k ≠ 0 → l.tried = some k) ∧
        (l.took = none → code = Status.invalidArgument.code)

section Discipline

variable {inits : Prop}

abbrev Obeys {α : Type} (inits : Prop) (p : RegistryProg α) (l : Call) (Q : α → Call → Prop) : Prop :=
  Respects Call.after (Call.Allowed inits) p l Q

theorem body_obeys {sp : ContextRef} {p : RegistryProg Int} (hp : Only (· = .use sp) p) (l : Call)
    (hheld : sp ∈ l.held) (hasked : l.asked = some (some sp)) :
    Obeys inits p l (fun _ m => ∃ touched, m = { l with touched }) := by
  induction p generalizing l with
  | ret a => exact ⟨l.touched, rfl⟩
  | call o k ih =>
    obtain ⟨rfl, hk⟩ := hp
    refine ⟨⟨hheld, hasked⟩, fun r => ?_⟩
    exact respects_mono (ih r (hk r) _ hheld hasked) fun _ m hm => hm

theorem withHandle_obeys {ctx : Ptr} {body : ContextRef → RegistryProg Int}
    (hbody : ∀ sp, Only (· = .use sp) (body sp)) {l : Call} (hhandle : l.handle = some ctx)
    (hasked : l.asked = none) (htook : l.took = none) (hcode : l.code = none)
    (hfresh : l.fresh = none) :
    Obeys inits (withHandle ctx body) l (fun code m => m.took = none ∧
      ((∀ sp, m.asked ≠ some (some sp)) → code = Status.invalidArgument.code)) := by
  refine ⟨⟨hhandle, hasked, htook, hcode⟩, fun r => ?_⟩
  cases r with
  | none => exact ⟨htook, fun _ => rfl⟩
  | some sp =>
    change Obeys inits (body sp >>= fun code => drop sp >>= fun _ => return code) _ _
    rw [Obeys, respects_bind]
    apply respects_mono (body_obeys (hbody sp) _ (by simp [Call.after]) rfl)
    rintro code _ ⟨touched, rfl⟩
    refine ⟨⟨by simp [Call.after], hfresh⟩, fun _ => ⟨htook, fun hnot => ?_⟩⟩
    exact absurd rfl (hnot sp)

theorem shutdown_obeys {ctx : Ptr} {l : Call} (hhandle : l.handle = some ctx)
    (hasked : l.asked = none) (htook : l.took = none) (hcode : l.code = none)
    (hfresh : l.fresh = none) :
    Obeys inits (nexusrtFirmwareShutdown ctx) l (fun code m =>
      ((∀ sp, m.asked ≠ some (some sp)) → code = Status.invalidArgument.code) ∧
      (m.took ≠ none → m.ran = true) ∧ (code = 0 → m.took = some ctx) ∧
      (ctx ≠ 0 → m.tried = some ctx) ∧ (m.took = none → code = Status.invalidArgument.code)) := by
  rw [nexusrtFirmwareShutdown]
  split
  · next hzero =>
    exact ⟨fun _ => rfl, fun h => absurd htook h, fun h => absurd h (by decide),
      fun h => absurd hzero h, fun _ => rfl⟩
  · refine ⟨⟨hhandle, hasked, htook, hcode⟩, fun r => ?_⟩
    cases r with
    | none =>
      exact ⟨fun _ => rfl, fun h => absurd rfl h, fun h => absurd h (by decide), fun _ => rfl,
        fun _ => rfl⟩
    | some sp =>
      refine ⟨by simp [Call.Allowed, Call.after],
        fun s => ⟨⟨by simp [Call.after], hfresh⟩, fun _ => ?_⟩⟩
      exact ⟨fun hnot => absurd rfl (hnot sp), fun _ => rfl, fun _ => rfl, fun _ => rfl, nofun⟩

theorem init_obeys (h : inits) (profile : Option String) (outCtx : Bool) (address : Ptr) :
    Obeys inits (nexusrtFirmwareInit profile outCtx address) {} (fun _ _ => True) := by
  rw [nexusrtFirmwareInit]
  split
  · trivial
  · refine ⟨⟨h, rfl⟩, fun r => ?_⟩
    cases r with
    | error s => trivial
    | ok sp => exact ⟨⟨rfl, by simp [Call.after], rfl⟩, fun _ => ⟨by simp [Call.Allowed, Call.after],
        fun _ => trivial⟩⟩

theorem abiClient_obeys {p : RegistryProg Unit} (hp : AbiClient inits p) :
    Obeys inits p {} (fun _ _ => True) := by
  cases hp with
  | init h profile outCtx address =>
    rw [Obeys, respects_bind]
    exact respects_mono (init_obeys h profile outCtx address) fun _ _ _ => trivial
  | shutdown ctx =>
    refine ⟨⟨rfl, rfl, rfl, rfl⟩, fun stale => ?_⟩
    change Obeys inits (nexusrtFirmwareShutdown ctx >>= fun code => returned (some ctx) code) _ _
    rw [Obeys, respects_bind]
    apply respects_mono (shutdown_obeys rfl rfl rfl rfl rfl)
    rintro code m ⟨hrefused, hran, hshutdown⟩
    refine ⟨⟨fun _ => hrefused, hran, fun k hk => ?_⟩, fun _ => trivial⟩
    obtain rfl := Option.some.inj hk
    exact hshutdown
  | entry ctx body hbody =>
    refine ⟨⟨rfl, rfl, rfl, rfl⟩, fun stale => ?_⟩
    change Obeys inits (withHandle ctx body >>= fun code => returned none code) _ _
    rw [Obeys, respects_bind]
    apply respects_mono (withHandle_obeys hbody rfl rfl rfl rfl rfl)
    rintro code m ⟨htook, hrefused⟩
    exact ⟨⟨fun _ => hrefused, fun h => absurd htook h, nofun⟩, fun _ => trivial⟩
  | metricsDump ctx outJson cap =>
    exact ⟨⟨rfl, rfl, rfl, rfl⟩, fun stale => ⟨⟨nofun, fun h => absurd rfl h, nofun⟩,
      fun _ => trivial⟩⟩

end Discipline

theorem asked_eq (w : HandleState) (k : Ptr) : ∃ late, w.asked k = { w with late } := by
  unfold HandleState.asked
  split
  · exact ⟨_, rfl⟩
  · exact ⟨w.late, rfl⟩

theorem lookup_registry (w : HandleState) (k : Ptr) :
    (w.lookup k).registry = w.registry ∧ (w.lookup k).made = w.made := by
  obtain ⟨late, hlate⟩ := asked_eq w k
  unfold HandleState.lookup
  rw [hlate]
  split
  · exact ⟨rfl, rfl⟩
  · exact ⟨rfl, rfl⟩

theorem take_found {w : HandleState} {k : Ptr} {sp : ContextRef}
    (hfind : w.registry.find k = some sp) :
    (w.take k).registry = w.registry.erase k ∧ (w.take k).made = w.made := by
  obtain ⟨late, hlate⟩ := asked_eq w k
  unfold HandleState.take
  rw [hfind, hlate]
  exact ⟨rfl, rfl⟩

theorem take_missed {w : HandleState} {k : Ptr} (hfind : w.registry.find k = none) :
    (w.take k).registry = w.registry := by
  obtain ⟨late, hlate⟩ := asked_eq w k
  unfold HandleState.take
  rw [hfind, hlate]

def pointersOf (cs : List Call) : List ContextRef := (cs.map Call.held).flatten

structure Owned (w : HandleState) (cs : List Call) : Prop where
  counted : ∀ c, w.pointers.count c =
    w.registry.count (fun d => d = c) + (pointersOf cs).count c
  keyed : ∀ k c, w.registry.find k = some c → c.address = k
  numbered : ∀ c ∈ w.pointers, c.number < w.made
  apart : ∀ c ∈ w.pointers, ∀ d ∈ w.pointers, c.address = d.address → c = d

structure Unregistered (w : HandleState) (cs : List Call) : Prop where
  held : ∀ l ∈ cs, ∀ c, l.fresh = some c → c ∈ l.held
  absent : ∀ l ∈ cs, ∀ c, l.fresh = some c → ∀ k, w.registry.find k ≠ some c
  nodup : (cs.filterMap Call.fresh).Nodup

structure Retired (w : HandleState) (cs : List Call) : Prop where
  gone : ∀ k ∈ w.retired, w.registry.find k = none
  fresh : ∀ l ∈ cs, ∀ c, l.fresh = some c → c.address ∉ w.retired
  late : ∀ r ∈ w.late, r = none
  closed : ∀ k ∈ w.closed, k ∈ w.retired
  took : ∀ l ∈ cs, ∀ k, l.took = some k → k ∈ w.retired
  stale : ∀ l ∈ cs, l.stale = true →
    (∃ k, l.handle = some k ∧ k ∈ w.closed) ∧ ∀ c, l.asked ≠ some (some c)

structure Call.Consistent (l : Call) : Prop where
  kept : ∀ c, l.asked = some (some c) → l.dropped = false → c ∈ l.held
  touched : ∀ c ∈ l.touched, l.asked = some (some c)
  refused : l.dump = false → (∀ c, l.asked ≠ some (some c)) →
    ∀ code, l.code = some code → code = Status.invalidArgument.code
  took : l.took ≠ none → ∃ c, l.asked = some (some c)
  ran : l.ran = true → l.took ≠ none
  done : l.took ≠ none → l.code ≠ none → l.ran = true

structure HandleInv (w : HandleState) (cs : List Call) : Prop where
  owned : Owned w cs
  unregistered : Unregistered w cs
  retired : Retired w cs
  consistent : ∀ l ∈ cs, l.Consistent

theorem HandleInv.perm {w : HandleState} {cs cs' : List Call} (h : HandleInv w cs)
    (hperm : cs.Perm cs') : HandleInv w cs' := by
  have hmem : ∀ l, l ∈ cs' → l ∈ cs := fun l hl => hperm.mem_iff.mpr hl
  refine ⟨⟨fun c => ?_, h.owned.keyed, h.owned.numbered, h.owned.apart⟩,
    ⟨fun l hl => h.unregistered.held l (hmem l hl), fun l hl => h.unregistered.absent l (hmem l hl),
      ((hperm.filterMap Call.fresh).nodup_iff).mp h.unregistered.nodup⟩,
    ⟨h.retired.gone, fun l hl => h.retired.fresh l (hmem l hl), h.retired.late, h.retired.closed,
      fun l hl => h.retired.took l (hmem l hl), fun l hl => h.retired.stale l (hmem l hl)⟩,
    fun l hl => h.consistent l (hmem l hl)⟩
  rw [h.owned.counted c, pointersOf, pointersOf, ((hperm.map Call.held).flatten).count_eq]

theorem count_registered {t : Table Ptr ContextRef} {k : Ptr} (hnone : t.find k = none)
    (sp c : ContextRef) :
    (t.insert k sp).count (fun d => d = c) = t.count (fun d => d = c) + [sp].count c := by
  rw [Table.count_insert_fresh hnone, List.count_singleton]
  by_cases hc : sp = c <;> simp [hc]

theorem count_taken {t : Table Ptr ContextRef} {k : Ptr} {sp : ContextRef}
    (hfind : t.find k = some sp) (c : ContextRef) :
    t.count (fun d => d = c) = (t.erase k).count (fun d => d = c) + [sp].count c := by
  rw [Table.count_erase_found hfind, List.count_singleton]
  by_cases hc : sp = c <;> simp [hc]

section Owned

variable {w : HandleState} {cs : List Call} {l : Call}

theorem pointersOf_cons (l : Call) (cs : List Call) (c : ContextRef) :
    (pointersOf (l :: cs)).count c = l.held.count c + (pointersOf cs).count c := by
  rw [pointersOf, List.map_cons, List.flatten_cons, List.count_append, pointersOf]

theorem Owned.registered (h : Owned w cs) {k : Ptr} {c : ContextRef}
    (hc : w.registry.find k = some c) : c ∈ w.pointers := by
  rw [← List.count_pos_iff, h.counted c]
  have hpos : w.registry.count (fun d => d = c) ≠ 0 := by
    rw [ne_eq, Table.count_eq_zero]
    intro hzero
    simpa using hzero k c hc
  omega

theorem Owned.alive (h : Owned w cs) (hl : l ∈ cs) {c : ContextRef} (hc : c ∈ l.held) :
    c ∈ w.pointers := by
  rw [← List.count_pos_iff, h.counted c]
  have hpos : 0 < (pointersOf cs).count c := by
    rw [List.count_pos_iff, pointersOf, List.mem_flatten]
    exact ⟨l.held, List.mem_map_of_mem hl, hc⟩
  omega

end Owned

section Steps

variable {w w' : HandleState} {cs : List Call} {l l' : Call} {inits : Prop}

theorem forall_step {P : Call → Prop} (h : ∀ m ∈ l :: cs, P m) (hl : P l → P l') :
    ∀ m ∈ l' :: cs, P m := by
  rw [List.forall_mem_cons] at h ⊢
  exact ⟨hl h.1, h.2⟩

theorem Owned.boot {a : Ptr} (hapart : ∀ c ∈ w.pointers, c.address ≠ a) (h : Owned w (l :: cs)) :
    Owned { w with pointers := ⟨w.made, a⟩ :: w.pointers, made := w.made + 1 }
      ({ l with fresh := some ⟨w.made, a⟩, held := ⟨w.made, a⟩ :: l.held } :: cs) where
  counted c := by
    have hcounted := h.counted c
    rw [pointersOf_cons] at hcounted ⊢
    simp only [List.count_cons]
    omega
  keyed := h.keyed
  numbered c hc := by
    rcases List.mem_cons.mp hc with rfl | hc
    · exact Nat.lt_succ_self _
    · exact Nat.lt_succ_of_lt (h.numbered c hc)
  apart c hc d hd hcd := by
    rcases List.mem_cons.mp hc with rfl | hc
    · rcases List.mem_cons.mp hd with rfl | hd
      · rfl
      · exact absurd hcd.symm (hapart d hd)
    · rcases List.mem_cons.mp hd with rfl | hd
      · exact absurd hcd (hapart c hc)
      · exact h.apart c hc d hd hcd

theorem Unregistered.boot {c : ContextRef} {made : ℕ} (howned : Owned w (l :: cs))
    (hnew : c ∉ w.pointers) (hfresh : l.fresh = none) (h : Unregistered w (l :: cs)) :
    Unregistered { w with pointers := c :: w.pointers, made }
      ({ l with fresh := some c, held := c :: l.held } :: cs) where
  held := by
    apply forall_step h.held
    intro _ d hd
    rw [← Option.some.inj hd]
    exact List.mem_cons_self
  absent := by
    apply forall_step h.absent
    intro _ d hd k hk
    rw [← Option.some.inj hd] at hk
    exact hnew (howned.registered hk)
  nodup := by
    have hnodup := h.nodup
    rw [List.filterMap_cons, hfresh] at hnodup
    refine List.nodup_cons.mpr ⟨fun hmem => ?_, hnodup⟩
    obtain ⟨m, hm, hmfresh⟩ := List.mem_filterMap.mp hmem
    have hheld := h.held m (List.mem_cons_of_mem _ hm) _ hmfresh
    exact hnew (howned.alive (List.mem_cons_of_mem _ hm) hheld)

theorem Retired.boot {c : ContextRef} {made : ℕ} (hplace : c.address ∉ w.retired)
    (h : Retired w (l :: cs)) : Retired { w with pointers := c :: w.pointers, made }
      ({ l with fresh := some c, held := c :: l.held } :: cs) where
  gone := h.gone
  fresh := by
    apply forall_step h.fresh
    intro _ d hd
    rw [← Option.some.inj hd]
    exact hplace
  late := h.late
  closed := h.closed
  took := forall_step h.took fun htook => htook
  stale := forall_step h.stale fun hstale => hstale

theorem step_boot {profile : String} {a : Ptr} {r : Except Status ContextRef}
    (hserves : HandleState.Serves (.boot profile a) w r w') (hallowed : l.fresh = none)
    (hplace : a ∉ w.retired) (h : HandleInv w (l :: cs)) :
    HandleInv w' (Call.after (.boot profile a) r l :: cs) := by
  cases r with
  | error s =>
    obtain ⟨_, rfl⟩ := hserves
    exact h
  | ok sp =>
    obtain ⟨_, hapart, rfl, rfl⟩ := hserves
    have hnew : (⟨w.made, a⟩ : ContextRef) ∉ w.pointers := fun hc => hapart _ hc rfl
    refine ⟨h.owned.boot hapart, h.unregistered.boot h.owned hnew hallowed,
      h.retired.boot hplace, forall_step h.consistent fun hl => ?_⟩
    refine ⟨fun c hc hdropped => ?_, hl.touched, hl.refused, hl.took, hl.ran, hl.done⟩
    exact List.mem_cons_of_mem _ (hl.kept c hc hdropped)

theorem HandleInv.unknown {sp : ContextRef} (hfresh : l.fresh = some sp) (hheld : sp ∈ l.held)
    (h : HandleInv w (l :: cs)) : w.registry.find sp.address = none := by
  cases hfind : w.registry.find sp.address with
  | none => rfl
  | some c =>
    have halive : sp ∈ w.pointers := h.owned.alive List.mem_cons_self hheld
    have hsame : c = sp := h.owned.apart c (h.owned.registered hfind) sp halive
      (h.owned.keyed sp.address c hfind)
    rw [hsame] at hfind
    exact absurd hfind (h.unregistered.absent l List.mem_cons_self sp hfresh sp.address)

theorem Owned.register {sp : ContextRef} (hnone : w.registry.find sp.address = none)
    (hheld : sp ∈ l.held) (h : Owned w (l :: cs)) :
    Owned (w.register sp.address sp) ({ l with fresh := none } :: cs) := by
  have hpointers : (w.register sp.address sp).pointers = sp :: w.pointers := by
    rw [HandleState.register, hnone]
    rfl
  have hmem : ∀ c, c ∈ sp :: w.pointers ↔ c ∈ w.pointers := by
    intro c
    rw [List.mem_cons, or_iff_right_of_imp]
    rintro rfl
    exact h.alive List.mem_cons_self hheld
  refine ⟨fun c => ?_, fun j c hj => ?_, fun c hc => ?_, fun c hc d hd hcd => ?_⟩
  · have hcounted := h.counted c
    rw [pointersOf_cons] at hcounted ⊢
    rw [hpointers, List.count_cons, hcounted, HandleState.register, count_registered hnone]
    simp only [List.count_singleton]
    omega
  · rw [HandleState.register, Table.find_insert] at hj
    split at hj
    · next hj' => rw [← Option.some.inj hj, hj']
    · exact h.keyed j c hj
  · rw [hpointers, hmem] at hc
    exact h.numbered c hc
  · rw [hpointers, hmem] at hc hd
    exact h.apart c hc d hd hcd

theorem Unregistered.register {k : Ptr} {sp : ContextRef} (hfresh : l.fresh = some sp)
    (h : Unregistered w (l :: cs)) :
    Unregistered (w.register k sp) ({ l with fresh := none } :: cs) := by
  have hnodup := h.nodup
  rw [List.filterMap_cons, hfresh] at hnodup
  refine ⟨forall_step h.held fun _ => nofun, List.forall_mem_cons.mpr ⟨nofun, ?_⟩,
    (List.nodup_cons.mp hnodup).2⟩
  intro m hm c hc j hj
  rw [HandleState.register, Table.find_insert] at hj
  split at hj
  · rw [← Option.some.inj hj] at hc
    exact (List.nodup_cons.mp hnodup).1 (List.mem_filterMap.mpr ⟨m, hm, hc⟩)
  · exact h.absent m (List.mem_cons_of_mem _ hm) c hc j hj

theorem Retired.register {k : Ptr} {sp : ContextRef} (hk : k ∉ w.retired)
    (h : Retired w (l :: cs)) : Retired (w.register k sp) ({ l with fresh := none } :: cs) where
  gone j hj := by
    have hjk : j ≠ k := by
      rintro rfl
      exact hk hj
    rw [HandleState.register, Table.find_insert, if_neg hjk]
    exact h.gone j hj
  fresh := forall_step h.fresh fun _ => nofun
  late := h.late
  closed := h.closed
  took := forall_step h.took fun htook => htook
  stale := forall_step h.stale fun hstale => hstale

theorem step_register {k : Ptr} {sp : ContextRef} (hfresh : l.fresh = some sp)
    (hheld : sp ∈ l.held) (hk : k = sp.address) (h : HandleInv w (l :: cs)) :
    HandleInv (w.register k sp) (Call.after (.registerHandle k sp) () l :: cs) := by
  subst hk
  have hretired := h.retired.fresh l List.mem_cons_self sp hfresh
  refine ⟨h.owned.register (h.unknown hfresh hheld) hheld, h.unregistered.register hfresh,
    h.retired.register hretired, forall_step h.consistent fun hl => ?_⟩
  exact ⟨hl.kept, hl.touched, hl.refused, hl.took, hl.ran, hl.done⟩

theorem HandleInv.relabel (h : HandleInv w (l :: cs)) (hheld : l'.held = l.held)
    (hfresh : l'.fresh = l.fresh) (htook : ∀ k, l'.took = some k → k ∈ w.retired)
    (hstale : l'.stale = true →
      (∃ k, l'.handle = some k ∧ k ∈ w.closed) ∧ ∀ c, l'.asked ≠ some (some c))
    (hl : l'.Consistent) : HandleInv w (l' :: cs) := by
  have hpointers : ∀ c, (pointersOf (l' :: cs)).count c = (pointersOf (l :: cs)).count c := by
    intro c
    rw [pointersOf_cons, pointersOf_cons, hheld]
  refine ⟨⟨fun c => ?_, h.owned.keyed, h.owned.numbered, h.owned.apart⟩,
    ⟨forall_step h.unregistered.held ?_, forall_step h.unregistered.absent ?_, ?_⟩,
    ⟨h.retired.gone, forall_step h.retired.fresh ?_, h.retired.late, h.retired.closed,
      forall_step h.retired.took fun _ => htook, forall_step h.retired.stale fun _ => hstale⟩,
    forall_step h.consistent fun _ => hl⟩
  · rw [hpointers, h.owned.counted]
  · rw [hheld, hfresh]
    exact id
  · rw [hfresh]
    exact id
  · have hnodup := h.unregistered.nodup
    rw [List.filterMap_cons] at hnodup ⊢
    rwa [hfresh]
  · rw [hfresh]
    exact id

theorem asked_inv (k : Ptr) (h : HandleInv w cs) : HandleInv (w.asked k) cs := by
  unfold HandleState.asked
  split
  · next hk =>
    refine ⟨⟨h.owned.counted, h.owned.keyed, h.owned.numbered, h.owned.apart⟩,
      ⟨h.unregistered.held, h.unregistered.absent, h.unregistered.nodup⟩,
      ⟨h.retired.gone, h.retired.fresh, ?_, h.retired.closed, h.retired.took, h.retired.stale⟩,
      h.consistent⟩
    exact List.forall_mem_cons.mpr ⟨h.retired.gone k hk, h.retired.late⟩
  · exact h

theorem step_missed (tried : Option Ptr) {took : Option Ptr} (hasked : l.asked = none)
    (htook : l.took = none) (hcode : l.code = none) (hmissed : took = none)
    (h : HandleInv w (l :: cs)) :
    HandleInv w ({ l with asked := some none, tried, took } :: cs) := by
  subst hmissed
  have hl := h.consistent l List.mem_cons_self
  refine h.relabel rfl rfl (fun _ => nofun) (fun hstale => ?_)
    ⟨nofun, fun c hc => ?_, fun _ _ => ?_, nofun, fun hran => ?_, nofun⟩
  · exact ⟨(h.retired.stale l List.mem_cons_self hstale).1, nofun⟩
  · exact absurd (hl.touched c hc) (by simp [hasked])
  · simp [hcode]
  · exact absurd htook (hl.ran hran)

theorem HandleInv.not_stale (h : HandleInv w (l :: cs)) {k : Ptr} {sp : ContextRef}
    (hfind : w.registry.find k = some sp) (hhandle : l.handle = some k) : l.stale ≠ true := by
  intro hstale
  obtain ⟨j, hj, hclosed⟩ := (h.retired.stale l List.mem_cons_self hstale).1
  rw [hhandle] at hj
  obtain rfl := Option.some.inj hj
  have hgone := h.retired.gone k (h.retired.closed k hclosed)
  rw [hfind] at hgone
  exact absurd hgone (by simp)

theorem answered_consistent {sp : ContextRef} {tried took : Option Ptr} (hl : l.Consistent)
    (hasked : l.asked = none) (htook : l.took = none) (hcode : l.code = none) :
    Call.Consistent { l with asked := some (some sp), tried, took, held := sp :: l.held } where
  kept c hc _ := List.mem_cons.mpr (.inl (Option.some.inj (Option.some.inj hc)).symm)
  touched c hc := absurd (hl.touched c hc) (by simp [hasked])
  refused _ hnot := absurd rfl (hnot sp)
  took _ := ⟨sp, rfl⟩
  ran hran := absurd htook (hl.ran hran)
  done _ hdone := absurd hcode hdone

theorem step_found {k : Ptr} {sp : ContextRef} (hfind : w.registry.find k = some sp)
    (hhandle : l.handle = some k) (hasked : l.asked = none) (htook : l.took = none)
    (hcode : l.code = none) (h : HandleInv w (l :: cs)) :
    HandleInv { w with pointers := sp :: w.pointers }
      ({ l with asked := some (some sp), held := sp :: l.held } :: cs) := by
  have halive := h.owned.registered hfind
  have hmem : ∀ c ∈ sp :: w.pointers, c ∈ w.pointers := fun c hc =>
    (List.mem_cons.mp hc).elim (fun hsame => hsame ▸ halive) id
  refine ⟨⟨fun c => ?_, h.owned.keyed, fun c hc => h.owned.numbered c (hmem c hc),
      fun c hc d hd => h.owned.apart c (hmem c hc) d (hmem d hd)⟩,
    ⟨?_, forall_step h.unregistered.absent fun habsent => habsent, h.unregistered.nodup⟩,
    ⟨h.retired.gone, forall_step h.retired.fresh fun hfresh => hfresh, h.retired.late,
      h.retired.closed, forall_step h.retired.took fun hk => hk, ?_⟩, ?_⟩
  · have hcounted := h.owned.counted c
    rw [pointersOf_cons] at hcounted ⊢
    simp only [List.count_cons]
    omega
  · apply forall_step h.unregistered.held
    intro hheld c hc
    exact List.mem_cons_of_mem _ (hheld c hc)
  · exact List.forall_mem_cons.mpr ⟨fun hstale => absurd hstale (h.not_stale hfind hhandle),
      fun m hm => h.retired.stale m (List.mem_cons_of_mem _ hm)⟩
  · exact forall_step h.consistent fun hl => answered_consistent hl hasked htook hcode

theorem Owned.take {k : Ptr} {sp : ContextRef} (hfind : w.registry.find k = some sp)
    (hheld : l'.held = sp :: l.held) (h : Owned w (l :: cs)) :
    Owned { w with registry := w.registry.erase k, retired := k :: w.retired } (l' :: cs) where
  counted c := by
    have hcounted := h.counted c
    rw [pointersOf_cons, count_taken hfind, List.count_singleton] at hcounted
    rw [hcounted, pointersOf_cons, hheld, List.count_cons]
    dsimp only
    omega
  keyed j c hj := h.keyed j c (Table.find_of_find_erase hj)
  numbered := h.numbered
  apart := h.apart

theorem Unregistered.take {k : Ptr} {sp : ContextRef} (hheld : l'.held = sp :: l.held)
    (hfresh : l'.fresh = l.fresh) (h : Unregistered w (l :: cs)) :
    Unregistered { w with registry := w.registry.erase k, retired := k :: w.retired }
      (l' :: cs) := by
  have habsent : ∀ m ∈ l :: cs, ∀ c, m.fresh = some c → ∀ j, (w.registry.erase k).find j ≠ some c :=
    fun m hm c hc j hj => h.absent m hm c hc j (Table.find_of_find_erase hj)
  refine ⟨forall_step h.held fun hl c hc => ?_, forall_step habsent fun hl => ?_, ?_⟩
  · rw [hheld]
    exact List.mem_cons_of_mem _ (hl c (hfresh ▸ hc))
  · rw [hfresh]
    exact hl
  · have hnodup := h.nodup
    rw [List.filterMap_cons] at hnodup ⊢
    rwa [hfresh]

theorem HandleInv.fresh_apart {k : Ptr} {sp : ContextRef} (hfind : w.registry.find k = some sp)
    (h : HandleInv w cs) : ∀ m ∈ cs, ∀ c, m.fresh = some c → c.address ≠ k := by
  intro m hm c hc haddress
  have halive := h.owned.alive hm (h.unregistered.held m hm c hc)
  have hsame : sp = c := h.owned.apart sp (h.owned.registered hfind) c halive
    ((h.owned.keyed k sp hfind).trans haddress.symm)
  rw [hsame] at hfind
  exact h.unregistered.absent m hm c hc k hfind

theorem Retired.take {k : Ptr} (hapart : ∀ m ∈ l :: cs, ∀ c, m.fresh = some c → c.address ≠ k)
    (hfresh : l'.fresh = l.fresh) (htook : l'.took = some k) (hstale : l'.stale ≠ true)
    (h : Retired w (l :: cs)) :
    Retired { w with registry := w.registry.erase k, retired := k :: w.retired } (l' :: cs) where
  gone j hj := by
    rw [Table.find_erase]
    split
    · rfl
    · next hjk => exact h.gone j ((List.mem_cons.mp hj).resolve_left hjk)
  fresh := by
    have hcons : ∀ m ∈ l :: cs, ∀ c, m.fresh = some c → c.address ∉ k :: w.retired := by
      intro m hm c hc hretired
      rcases List.mem_cons.mp hretired with haddress | hretired
      · exact hapart m hm c hc haddress
      · exact h.fresh m hm c hc hretired
    apply forall_step hcons
    intro hl
    rw [hfresh]
    exact hl
  late := h.late
  closed j hj := List.mem_cons_of_mem _ (h.closed j hj)
  took := by
    refine List.forall_mem_cons.mpr ⟨fun j hj => ?_, fun m hm j hj => ?_⟩
    · rw [htook] at hj
      exact List.mem_cons.mpr (.inl (Option.some.inj hj).symm)
    · exact List.mem_cons_of_mem _ (h.took m (List.mem_cons_of_mem _ hm) j hj)
  stale := List.forall_mem_cons.mpr ⟨fun h' => absurd h' hstale,
    fun m hm => h.stale m (List.mem_cons_of_mem _ hm)⟩

theorem step_taken {k : Ptr} {sp : ContextRef} (hfind : w.registry.find k = some sp)
    (hhandle : l.handle = some k) (hasked : l.asked = none) (htook : l.took = none)
    (hcode : l.code = none) (h : HandleInv w (l :: cs)) :
    HandleInv { w with registry := w.registry.erase k, retired := k :: w.retired }
      ({ l with asked := some (some sp), tried := some k, took := some k, held := sp :: l.held } ::
        cs) := by
  refine ⟨h.owned.take hfind rfl, h.unregistered.take rfl rfl,
    h.retired.take (h.fresh_apart hfind) rfl rfl (h.not_stale hfind hhandle),
    forall_step h.consistent fun hl => ?_⟩
  exact answered_consistent hl hasked htook hcode

theorem step_touched {sp : ContextRef} {ran : Bool} (hasked : l.asked = some (some sp))
    (hran : ran = true → l.took ≠ none) (hdone : l.ran = true → ran = true)
    (h : HandleInv w (l :: cs)) :
    HandleInv w ({ l with touched := sp :: l.touched, ran } :: cs) := by
  have hl := h.consistent l List.mem_cons_self
  refine h.relabel rfl rfl (h.retired.took l List.mem_cons_self)
    (h.retired.stale l List.mem_cons_self) ⟨hl.kept, fun c hc => ?_, hl.refused, hl.took, hran, ?_⟩
  · rcases List.mem_cons.mp hc with rfl | hc
    · exact hasked
    · exact hl.touched c hc
  · exact fun htook hcode => hdone (hl.done htook hcode)

theorem step_drop {sp : ContextRef} (hheld : sp ∈ l.held) (hfresh : l.fresh = none)
    (h : HandleInv w (l :: cs)) :
    HandleInv { w with pointers := w.pointers.erase sp }
      ({ l with held := l.held.erase sp, dropped := true } :: cs) := by
  refine ⟨⟨fun c => ?_, h.owned.keyed, fun c hc => h.owned.numbered c (List.mem_of_mem_erase hc),
      fun c hc d hd => h.owned.apart c (List.mem_of_mem_erase hc) d (List.mem_of_mem_erase hd)⟩,
    ⟨?_, forall_step h.unregistered.absent fun habsent => habsent, h.unregistered.nodup⟩,
    ⟨h.retired.gone, forall_step h.retired.fresh fun hfresh => hfresh, h.retired.late,
      h.retired.closed, forall_step h.retired.took fun hk => hk,
      forall_step h.retired.stale fun hstale => hstale⟩,
    forall_step h.consistent fun hl => ?_⟩
  · have hcounted := h.owned.counted c
    have hpos : 0 < l.held.count sp := List.count_pos_iff.mpr hheld
    rw [pointersOf_cons] at hcounted ⊢
    rw [List.count_erase, List.count_erase]
    by_cases hc : sp = c
    · subst hc
      simp only [beq_self_eq_true, ↓reduceIte]
      omega
    · simp only [beq_iff_eq, hc, ↓reduceIte]
      omega
  · apply forall_step h.unregistered.held
    intro _ c hc
    exact absurd hc (by simp [hfresh])
  · exact ⟨nofun, hl.touched, hl.refused, hl.took, hl.ran, hl.done⟩

theorem step_enter {k : Ptr} {dump : Bool} (hasked : l.asked = none) (hcode : l.code = none)
    (h : HandleInv w (l :: cs)) :
    HandleInv w ({ l with handle := some k, dump, stale := decide (k ∈ w.closed) } :: cs) := by
  have hl := h.consistent l List.mem_cons_self
  refine h.relabel rfl rfl (h.retired.took l List.mem_cons_self)
    (fun hstale => ⟨⟨k, rfl, of_decide_eq_true hstale⟩, ?_⟩)
    ⟨hl.kept, hl.touched, fun _ _ => ?_, hl.took, hl.ran, hl.done⟩
  · simp [hasked]
  · simp [hcode]

theorem HandleInv.close (h : HandleInv w cs) {k : Ptr} (hk : k ∈ w.retired) :
    HandleInv { w with closed := k :: w.closed } cs := by
  refine ⟨⟨h.owned.counted, h.owned.keyed, h.owned.numbered, h.owned.apart⟩,
    ⟨h.unregistered.held, h.unregistered.absent, h.unregistered.nodup⟩,
    ⟨h.retired.gone, h.retired.fresh, h.retired.late,
      List.forall_mem_cons.mpr ⟨hk, h.retired.closed⟩, h.retired.took, fun m hm hstale => ?_⟩,
    h.consistent⟩
  obtain ⟨⟨j, hj, hclosed⟩, hnone⟩ := h.retired.stale m hm hstale
  exact ⟨⟨j, hj, List.mem_cons_of_mem _ hclosed⟩, hnone⟩

theorem step_returned {shutdownOf : Option Ptr} {code : Int}
    (hrefused : l.dump = false → (∀ sp, l.asked ≠ some (some sp)) →
      code = Status.invalidArgument.code)
    (hclosed : ∀ k, shutdownOf = some k → code = 0 → l.took = some k)
    (hran : l.took ≠ none → l.ran = true) (h : HandleInv w (l :: cs)) :
    HandleInv (w.ended shutdownOf code)
      ({ l with closes := shutdownOf, code := some code } :: cs) := by
  have hl := h.consistent l List.mem_cons_self
  have hended : HandleInv (w.ended shutdownOf code) (l :: cs) := by
    unfold HandleState.ended
    split
    · exact h
    · next k =>
      split
      · next hcode => exact h.close (h.retired.took l List.mem_cons_self k (hclosed k rfl hcode))
      · exact h
  refine hended.relabel rfl rfl (hended.retired.took l List.mem_cons_self)
    (hended.retired.stale l List.mem_cons_self)
    ⟨hl.kept, hl.touched, fun hdump hnot c hc => ?_, hl.took, hl.ran, fun htook _ => hran htook⟩
  rw [← Option.some.inj hc]
  exact hrefused hdump hnot

end Steps

end NexusRT.Firmware

import NexusRT.Scheduler.StreamOwnership

namespace NexusRT.Scheduler

open Firmware Interleave

/-- `enter`, `returned` and the number of `lock` are ghosts: a barrier call begins, it has returned
Ok, and how many kernels were launched when it began. -/
inductive BarrierCall
  | kernel (c : MicroKernelCall)
  | enter
  | lock (began : ℕ)
  | unlock
  | returned (began : ℕ)

/-- `lock` answers with the micro-kernel, which nobody else changes before `unlock`. -/
abbrev BarrierCall.Answer : BarrierCall → Type
  | .kernel c => c.Answer
  | .enter => ℕ
  | .lock _ => MicroKernel
  | .unlock => Unit
  | .returned _ => Unit

abbrev BarrierProg := Prog BarrierCall BarrierCall.Answer

def onKernel {α : Type} (p : MicroKernelProg α) : BarrierProg α :=
  p.translate BarrierCall.kernel (fun _ r => r)

def enter : BarrierProg ℕ := .op BarrierCall.enter

def lock (began : ℕ) : BarrierProg MicroKernel := .op (BarrierCall.lock began)

def unlock : BarrierProg Unit := .op BarrierCall.unlock

def returned (began : ℕ) : BarrierProg Unit := .op (BarrierCall.returned began)

def syncEach : List StreamHandle → BarrierProg Status
  | [] => return .ok
  | h :: v => do
    let s ← onKernel (syncStream h)
    if !ok s then return s else syncEach v

def syncLists (m : MicroKernel) : BarrierProg Status := do
  let a ← syncEach m.freeCompute
  if !ok a then return a else
  let b ← syncEach m.freeDma
  if !ok b then return b else
  let c ← syncEach m.freeFence
  if !ok c then return c else
  return .ok

def syncAll (began : ℕ) : BarrierProg Status := do
  let m ← lock began
  let s ← syncLists m
  unlock
  return s

def nexusrtWaitBarrier (began : ℕ) (ctx : Bool) (_stageName : String) (_timeoutMs : UInt32) :
    BarrierProg Int := do
  if !ctx then return Status.invalidArgument.code else
  let s ← syncAll began
  return s.code

def waiting (began : ℕ) (ctx : Bool) (stageName : String) (timeoutMs : UInt32) :
    BarrierProg Unit := do
  let s ← nexusrtWaitBarrier began ctx stageName timeoutMs
  if s = Status.ok.code then returned began else return ()

def barrier (ctx : Bool) (stageName : String) (timeoutMs : UInt32) : BarrierProg Unit := do
  let began ← enter
  waiting began ctx stageName timeoutMs

/-- The kernels are numbered in the order of their `launch_kernel` calls that returned Ok;
`running` has those that are not complete, with their streams. -/
structure KernelState where
  kernel : MicroKernel
  locked : Bool := false
  launched : ℕ := 0
  running : List (ℕ × Ptr) := []
  passed : List ℕ := []

namespace KernelState

def next (w : KernelState) : (c : MicroKernelCall) → c.Answer → MicroKernel → KernelState
  | .launch _ _ _ _ _ stream _, s, m =>
    if s = .ok then { w with
      kernel := m
      launched := w.launched + 1
      running := (w.launched, stream.raw) :: w.running }
    else { w with kernel := m }
  | .syncStream h, s, m =>
    if s = .ok then { w with kernel := m, running := w.running.filter (fun e => e.2 ≠ h.raw) }
    else { w with kernel := m }
  | _, _, m => { w with kernel := m }

/-- The calls that wait for the mutex. `launch` may have looked its module up before the mutex was
taken, and its kernel starts without it. -/
def TakesMutex : MicroKernelCall → Prop
  | .loadModule _ _ | .acquireStream _ _ | .releaseStream _ => True
  | .launch _ _ _ _ _ _ _ | .syncStream _ => False

def Serves : (c : BarrierCall) → KernelState → c.Answer → KernelState → Prop
  | .kernel c, w, r, w' => (TakesMutex c → w.locked = false) ∧
      ∃ m, MicroKernel.Serves c w.kernel r m ∧ w' = w.next c r m
  | .enter, w, n, w' => n = w.launched ∧ w' = w
  | .lock _, w, m, w' => w.locked = false ∧ m = w.kernel ∧ w' = { w with locked := true }
  | .unlock, w, _, w' => w' = { w with locked := false }
  | .returned began, w, _, w' => w' = { w with passed := began :: w.passed }

def Complete (w : KernelState) : Prop := ∀ n ∈ w.passed, ∀ e ∈ w.running, n ≤ e.1

end KernelState

inductive BarrierClient : BarrierProg Unit → Prop
  | submitter (p : MicroKernelProg Unit) (hp : StreamClient p) : BarrierClient (onKernel p)
  | barrier (ctx : Bool) (stageName : String) (timeoutMs : UInt32) :
      BarrierClient (barrier ctx stageName timeoutMs)

/-- Where a barrier call stands; `left` are the streams it has still to synchronise. -/
inductive Phase
  | outside
  | entered (began : ℕ)
  | syncing (began : ℕ) (left : List StreamHandle)

def phaseAfter : (c : BarrierCall) → c.Answer → Phase → Phase
  | .enter, n, _ => .entered n
  | .lock n, m, _ => .syncing n m.all
  | .kernel (.syncStream h), s, .syncing n left =>
    if s = .ok then .syncing n (left.erase h) else .syncing n left
  | _, _, l => l

def phaseAllowed : BarrierCall → Phase → Prop
  | .lock n, l => l = .entered n
  | .returned n, l => l = .syncing n []
  | _, _ => True

def barrierClients : System BarrierCall BarrierCall.Answer KernelState Phase where
  serves c w r w' := KernelState.Serves c w r w'
  client := BarrierClient
  initial := .outside
  after := phaseAfter

abbrev BarrierPool := Pool BarrierCall BarrierCall.Answer KernelState Phase

def Quiescent (p : BarrierPool) : Action BarrierCall → Prop
  | .call (.lock n) =>
    ∀ e ∈ p.state.running, e.1 < n → ∃ h ∈ p.state.kernel.all, h.raw = e.2
  | _ => True

section Discipline

theorem onKernel_respects (p : MicroKernelProg Unit) :
    Respects phaseAfter phaseAllowed (onKernel p) .outside (fun _ l => l = .outside) := by
  refine respects_translate (fun l => l = Phase.outside) (fun c l _ => trivial) ?_ p _ rfl
  rintro c r l rfl
  cases c <;> rfl

theorem respects_unless {s : Status} {p : BarrierProg Status} {l : Phase}
    {Q : Status → Phase → Prop} (hfail : s ≠ .ok → Q s l)
    (hok : s = .ok → Respects phaseAfter phaseAllowed p l Q) :
    Respects phaseAfter phaseAllowed (if !ok s then return s else p) l Q := by
  by_cases hs : s = .ok
  · rw [if_neg (by simp [hs])]
    exact hok hs
  · rw [if_pos (by simp [hs])]
    exact hfail hs

theorem syncEach_respects (v rest : List StreamHandle) (n : ℕ) :
    Respects phaseAfter phaseAllowed (syncEach v) (.syncing n (v ++ rest))
      (fun s l => s = .ok → l = .syncing n rest) := by
  induction v with
  | nil => exact fun _ => rfl
  | cons h v ih =>
    refine ⟨trivial, fun s => ?_⟩
    apply respects_unless
    · intro hne hok
      exact absurd hok hne
    · intro hok
      simp only [hok, phaseAfter, List.cons_append, List.erase_cons_head, ↓reduceIte]
      exact ih

theorem syncLists_respects (m : MicroKernel) (n : ℕ) :
    Respects phaseAfter phaseAllowed (syncLists m) (.syncing n m.all)
      (fun s l => s = .ok → l = .syncing n []) := by
  have hall : m.all = m.freeCompute ++ (m.freeDma ++ (m.freeFence ++ [])) := by
    rw [MicroKernel.all, List.append_nil, List.append_assoc]
  rw [syncLists, respects_bind, hall]
  apply respects_mono (syncEach_respects _ _ n)
  intro a l ha
  apply respects_unless (fun hne h => absurd h hne)
  intro hok
  rw [respects_bind, ha hok]
  apply respects_mono (syncEach_respects _ _ n)
  intro b l hb
  apply respects_unless (fun hne h => absurd h hne)
  intro hok
  rw [respects_bind, hb hok]
  apply respects_mono (syncEach_respects _ _ n)
  intro c l hc
  apply respects_unless (fun hne h => absurd h hne)
  intro hok
  exact fun _ => hc hok

theorem code_eq_ok {s : Status} (h : s.code = Status.ok.code) : s = .ok := by
  cases s <;> simp [Status.code] at h ⊢

theorem waiting_respects (n : ℕ) (ctx : Bool) (stageName : String) (timeoutMs : UInt32) :
    Respects phaseAfter phaseAllowed (waiting n ctx stageName timeoutMs) (.entered n)
      (fun _ _ => True) := by
  cases ctx with
  | false => trivial
  | true =>
    refine ⟨rfl, fun m => ?_⟩
    change Respects phaseAfter phaseAllowed (((syncLists m >>= fun s => unlock >>= fun _ => pure s)
      >>= fun s => pure s.code) >>= _) (.syncing n m.all) _
    simp only [respects_bind]
    refine respects_mono (syncLists_respects m n) fun s l hs => ⟨trivial, fun _ => ?_⟩
    change Respects phaseAfter phaseAllowed (if s.code = Status.ok.code then returned n else return ())
      l _
    by_cases hcode : s.code = Status.ok.code
    · rw [if_pos hcode, hs (code_eq_ok hcode)]
      exact ⟨rfl, fun _ => trivial⟩
    · rw [if_neg hcode]
      trivial

theorem client_respects {p : BarrierProg Unit} (h : BarrierClient p) :
    Respects phaseAfter phaseAllowed p .outside (fun _ _ => True) := by
  cases h with
  | submitter p hp => exact respects_mono (onKernel_respects p) fun _ _ _ => trivial
  | barrier ctx stageName timeoutMs =>
    exact ⟨trivial, fun n => waiting_respects n ctx stageName timeoutMs⟩

end Discipline

structure Advances (w w' : KernelState) : Prop where
  launched : w.launched ≤ w'.launched
  running : ∀ e ∈ w'.running, e ∈ w.running ∨ (w.launched ≤ e.1 ∧ e.1 < w'.launched)

def Known (w : KernelState) : Phase → Prop
  | .outside => True
  | .entered n => n ≤ w.launched
  | .syncing n left => n ≤ w.launched ∧ ∀ e ∈ w.running, e.1 < n → ∃ h ∈ left, h.raw = e.2

structure Kept (w : KernelState) (ts : List (Thread BarrierCall BarrierCall.Answer Phase)) :
    Prop where
  numbered : ∀ e ∈ w.running, e.1 < w.launched
  threads : ∀ t ∈ ts, Known w t.ghost
  passed : ∀ n ∈ w.passed, n ≤ w.launched
  complete : w.Complete

theorem Advances.of_eq {w w' : KernelState} (hlaunched : w'.launched = w.launched)
    (hrunning : w'.running = w.running) : Advances w w' :=
  ⟨hlaunched.ge, fun _ he => .inl (hrunning ▸ he)⟩

theorem Advances.known {w w' : KernelState} (h : Advances w w') {l : Phase} (hl : Known w l) :
    Known w' l := by
  cases l with
  | outside => trivial
  | entered n => exact le_trans hl h.launched
  | syncing n left =>
    refine ⟨le_trans hl.1 h.launched, fun e he hlt => ?_⟩
    rcases h.running e he with he | ⟨hle, _⟩
    · exact hl.2 e he hlt
    · exact absurd (lt_of_lt_of_le hlt hl.1) (not_lt.mpr hle)

theorem next_advances (w : KernelState) (c : MicroKernelCall) (r : c.Answer) (m : MicroKernel) :
    Advances w (w.next c r m) ∧ (w.next c r m).passed = w.passed := by
  cases c with
  | launch moduleName functionName grid block sharedMemBytes stream kernelArgs =>
    rw [KernelState.next]
    split
    · refine ⟨⟨Nat.le_succ _, fun e he => ?_⟩, rfl⟩
      rcases List.mem_cons.mp he with rfl | he
      · exact .inr ⟨le_rfl, Nat.lt_succ_self _⟩
      · exact .inl he
    · exact ⟨.of_eq rfl rfl, rfl⟩
  | syncStream h =>
    rw [KernelState.next]
    split
    · exact ⟨⟨le_rfl, fun e he => .inl (List.mem_of_mem_filter he)⟩, rfl⟩
    · exact ⟨.of_eq rfl rfl, rfl⟩
  | loadModule name source => exact ⟨.of_eq rfl rfl, rfl⟩
  | acquireStream klass priority => exact ⟨.of_eq rfl rfl, rfl⟩
  | releaseStream h => exact ⟨.of_eq rfl rfl, rfl⟩

section Steps

variable {w w' : KernelState} {pre post : List (Thread BarrierCall BarrierCall.Answer Phase)}
  {l l' : Phase} {q q' : BarrierProg Unit}

theorem Kept.advance (h : Kept w (pre ++ ⟨l, q⟩ :: post)) (hadvances : Advances w w')
    (hpassed : w'.passed = w.passed) (hl : Known w' l') : Kept w' (pre ++ ⟨l', q'⟩ :: post) := by
  refine ⟨fun e he => ?_, fun t ht => ?_, fun n hn => ?_, fun n hn e he => ?_⟩
  · rcases hadvances.running e he with he | ⟨_, hlt⟩
    · exact lt_of_lt_of_le (h.numbered e he) hadvances.launched
    · exact hlt
  · rcases List.mem_append.mp ht with ht | ht
    · exact hadvances.known (h.threads t (List.mem_append_left _ ht))
    · rcases List.mem_cons.mp ht with rfl | ht
      · exact hl
      · exact hadvances.known (h.threads t (List.mem_append_right _ (List.mem_cons_of_mem _ ht)))
  · rw [hpassed] at hn
    exact le_trans (h.passed n hn) hadvances.launched
  · rw [hpassed] at hn
    rcases hadvances.running e he with he | ⟨hle, _⟩
    · exact h.complete n hn e he
    · exact le_trans (h.passed n hn) hle

theorem Kept.known (h : Kept w (pre ++ ⟨l, q⟩ :: post)) : Known w l := h.threads ⟨l, q⟩ (by simp)

theorem known_kernel {c : MicroKernelCall} {r : c.Answer} {m : MicroKernel} (hl : Known w l) :
    Known (w.next c r m) (phaseAfter (.kernel c) r l) := by
  have hnext := (next_advances w c r m).1.known hl
  cases c with
  | syncStream h =>
    cases l with
    | outside => exact hnext
    | entered n => exact hnext
    | syncing n left =>
      by_cases hr : r = .ok
      · simp only [phaseAfter, KernelState.next, hr, ↓reduceIte]
        refine ⟨hl.1, fun e he hlt => ?_⟩
        obtain ⟨hmem, hne⟩ := List.mem_filter.mp he
        obtain ⟨x, hx, hraw⟩ := hl.2 e hmem hlt
        refine ⟨x, (List.mem_erase_of_ne ?_).mpr hx, hraw⟩
        rintro rfl
        simp [hraw] at hne
      · simp only [phaseAfter, hr, ↓reduceIte]
        exact hnext
  | _ => exact hnext

end Steps

theorem kept_call (pre post : List (Thread BarrierCall BarrierCall.Answer Phase)) (l : Phase)
    (o : BarrierCall) (k : o.Answer → BarrierProg Unit) (w : KernelState) (r : o.Answer)
    (w' : KernelState) (hserves : KernelState.Serves o w r w') (hallowed : phaseAllowed o l)
    (hquiescent : Quiescent ⟨w, pre ++ ⟨l, .call o k⟩ :: post⟩ (.call o))
    (h : Kept w (pre ++ ⟨l, .call o k⟩ :: post)) :
    Kept w' (pre ++ ⟨phaseAfter o r l, k r⟩ :: post) := by
  cases o with
  | kernel c =>
    obtain ⟨_, m, _, rfl⟩ := hserves
    obtain ⟨hadvances, hpassed⟩ := next_advances w c r m
    exact h.advance hadvances hpassed (known_kernel h.known)
  | enter =>
    obtain ⟨rfl, rfl⟩ := hserves
    exact h.advance (.of_eq rfl rfl) rfl le_rfl
  | lock n =>
    obtain ⟨_, rfl, rfl⟩ := hserves
    obtain rfl : l = .entered n := hallowed
    exact h.advance (.of_eq rfl rfl) rfl ⟨h.known, hquiescent⟩
  | unlock =>
    obtain rfl := hserves
    have hl : phaseAfter .unlock r l = l := by cases l <;> rfl
    exact h.advance (.of_eq rfl rfl) rfl (hl ▸ (Advances.of_eq rfl rfl).known h.known)
  | returned n =>
    obtain rfl := hserves
    obtain rfl : l = .syncing n [] := hallowed
    obtain ⟨hle, hnone⟩ := h.known
    have hmoved : Kept w (pre ++ ⟨.syncing n [], k r⟩ :: post) :=
      h.advance (.of_eq rfl rfl) rfl h.known
    refine ⟨h.numbered, hmoved.threads, fun j hj => ?_, fun j hj e he => ?_⟩
    · rcases List.mem_cons.mp hj with rfl | hj
      · exact hle
      · exact h.passed j hj
    · rcases List.mem_cons.mp hj with rfl | hj
      · by_contra hlt
        obtain ⟨x, hx, _⟩ := hnone e he (not_le.mp hlt)
        simp at hx
      · exact h.complete j hj e he

abbrev AnyRun : BarrierPool → BarrierPool → Prop := Run barrierClients fun _ _ => True

section Missed

variable {p : BarrierPool} {w : KernelState} {l : Phase} {e : ℕ × Ptr}
  {pre post : List (Thread BarrierCall BarrierCall.Answer Phase)}

theorem syncEach_misses {k : Status → BarrierProg Unit} {v : List StreamHandle}
    (hnot : ∀ h ∈ v, h.raw ≠ e.2) (he : e ∈ w.running)
    (h : AnyRun p ⟨w, pre ++ ⟨l, syncEach v >>= k⟩ :: post⟩) :
    ∃ w' l', AnyRun p ⟨w', pre ++ ⟨l', k .ok⟩ :: post⟩ ∧ e ∈ w'.running := by
  induction v generalizing w l with
  | nil => exact ⟨w, l, h, he⟩
  | cons x v ih =>
    have hcall := Run.call (S := barrierClients) pre (.kernel (.syncStream x)) Status.ok h
      ⟨nofun, w.kernel, ⟨rfl, .ok, (), trivial, rfl, rfl⟩, rfl⟩ trivial
    refine ih (fun h hh => hnot h (List.mem_cons_of_mem _ hh)) ?_ hcall
    have hne := hnot x List.mem_cons_self
    simp [KernelState.next, he, hne.symm]

theorem syncLists_misses {k : Status → BarrierProg Unit} {m : MicroKernel}
    (hnot : ∀ h ∈ m.all, h.raw ≠ e.2) (he : e ∈ w.running)
    (h : AnyRun p ⟨w, pre ++ ⟨l, syncLists m >>= k⟩ :: post⟩) :
    ∃ w' l', AnyRun p ⟨w', pre ++ ⟨l', k .ok⟩ :: post⟩ ∧ e ∈ w'.running := by
  simp only [MicroKernel.all, List.mem_append, or_imp, forall_and] at hnot
  obtain ⟨⟨hcompute, hdma⟩, hfence⟩ := hnot
  rw [syncLists, Prog.bind_bind] at h
  obtain ⟨w₁, l₁, h₁, he₁⟩ := syncEach_misses hcompute he h
  change AnyRun _ ⟨w₁, pre ++ ⟨l₁, _ >>= _ >>= k⟩ :: post⟩ at h₁
  rw [Prog.bind_bind] at h₁
  obtain ⟨w₂, l₂, h₂, he₂⟩ := syncEach_misses hdma he₁ h₁
  change AnyRun _ ⟨w₂, pre ++ ⟨l₂, _ >>= _ >>= k⟩ :: post⟩ at h₂
  rw [Prog.bind_bind] at h₂
  obtain ⟨w₃, l₃, h₃, he₃⟩ := syncEach_misses hfence he₂ h₂
  exact ⟨w₃, l₃, h₃, he₃⟩

theorem barrier_misses {n : ℕ} {stageName : String} {timeoutMs : UInt32} (hfree : w.locked = false)
    (he : e ∈ w.running) (hlt : e.1 < n) (hnot : ∀ h ∈ w.kernel.all, h.raw ≠ e.2)
    (h : AnyRun p ⟨w, pre ++ ⟨l, waiting n true stageName timeoutMs⟩ :: post⟩) :
    ∃ q, AnyRun p q ∧ ¬ q.state.Complete := by
  have hlock := Run.call (S := barrierClients) pre (.lock n) w.kernel h ⟨hfree, rfl, rfl⟩ trivial
  change AnyRun _ ⟨{ w with locked := true }, pre ++ ⟨_, ((syncLists w.kernel >>=
    fun s => unlock >>= fun _ => pure s) >>= fun s => pure s.code) >>= _⟩ :: post⟩ at hlock
  rw [Prog.bind_bind, Prog.bind_bind] at hlock
  have hlocked : e ∈ ({ w with locked := true } : KernelState).running := he
  obtain ⟨w₁, l₁, h₁, he₁⟩ := syncLists_misses hnot hlocked hlock
  have hunlock := Run.call (S := barrierClients) pre .unlock () h₁ rfl trivial
  have hreturned := Run.call (S := barrierClients) pre (.returned n) () hunlock rfl trivial
  refine ⟨_, hreturned, fun hcomplete => ?_⟩
  exact absurd (hcomplete n List.mem_cons_self e he₁) (not_le.mpr hlt)

end Missed

theorem barrier_waits (m : MicroKernel) (p : BarrierPool)
    (hrun : Run barrierClients Quiescent ⟨{ kernel := m }, []⟩ p) :
    p.state.Complete ∧
      ∀ pre post l n stageName timeoutMs,
        p.threads = pre ++ ⟨l, waiting n true stageName timeoutMs⟩ :: post →
        p.state.locked = false → ¬ Quiescent p (.call (.lock n)) →
        ∃ q, AnyRun p q ∧ ¬ q.state.Complete := by
  constructor
  · have hinit : Sound barrierClients phaseAllowed (fun _ => True) Kept ⟨{ kernel := m }, []⟩ :=
      ⟨by simp, ⟨by simp, by simp, by simp, by simp [KernelState.Complete]⟩⟩
    refine (hrun.sound (fun _ => client_respects) kept_call ?_ hinit).state.complete
    rintro w ts q _ h
    refine ⟨h.numbered, fun t ht => ?_, h.passed, h.complete⟩
    rcases List.mem_cons.mp ht with rfl | ht
    · trivial
    · exact h.threads t ht
  · obtain ⟨w, ts⟩ := p
    rintro pre post l n stageName timeoutMs rfl hfree hnot
    simp only [Quiescent, not_forall, not_exists, not_and] at hnot
    obtain ⟨e, he, hlt, hmissed⟩ := hnot
    exact barrier_misses hfree he hlt hmissed .refl

def oneStream : StreamHandle := ⟨1, 7, .compute, 0⟩

def loaded : MicroKernel where
  arch := .appleSilicon
  freeCompute := [oneStream]
  modules := Table.empty.insert "m" ⟨2, "m", 9, Table.empty.insert "f" 11⟩
  nextId := 3

def submitter : BarrierProg Unit :=
  onKernel (nexusrtFirmwareTaskSubmit true "m" "f" {} {} 0 [] 0 0 >>= fun _ => return ())

def submitterLaunched : BarrierProg Unit := onKernel do
  let _ ← syncStream oneStream
  releaseStream oneStream

def launchedState : KernelState where
  kernel := loaded.popBack .compute
  launched := 1
  running := [(0, 7)]

theorem run_to_launched : Run barrierClients Quiescent ⟨{ kernel := loaded }, []⟩
    ⟨launchedState, [⟨.outside, submitterLaunched⟩]⟩ := by
  have hspawn : Run barrierClients Quiescent ⟨{ kernel := loaded }, []⟩
      ⟨{ kernel := loaded }, [⟨.outside, submitter⟩]⟩ :=
    Run.spawn .refl submitter (.submitter _ (.submit ..)) trivial
  have hacquire : Run barrierClients Quiescent ⟨{ kernel := loaded }, []⟩
      ⟨{ kernel := loaded.popBack .compute }, [⟨.outside, _⟩]⟩ :=
    Run.call (S := barrierClients) [] (.kernel (.acquireStream .compute 0)) oneStream hspawn
      ⟨fun _ => rfl, loaded.popBack .compute, rfl, rfl⟩ trivial
  exact Run.call (S := barrierClients) [] (.kernel (.launch "m" "f" {} {} 0 oneStream [])) Status.ok
    hacquire ⟨nofun, loaded.popBack .compute, ⟨rfl, .ok, (), trivial, rfl, rfl⟩, rfl⟩ trivial

theorem barrier_waits_released : ∃ p : BarrierPool,
    p.state.launched = 1 ∧ p.state.passed = [1] ∧ p.state.Complete := by
  have hsync := Run.call (S := barrierClients) [] (.kernel (.syncStream oneStream))
    Status.driverError run_to_launched
    ⟨nofun, loaded.popBack .compute, ⟨rfl, .driverError, (), trivial, rfl, rfl⟩, rfl⟩ trivial
  have hrelease := Run.call (S := barrierClients) [] (.kernel (.releaseStream oneStream)) ()
    hsync ⟨fun _ => rfl, loaded, rfl, rfl⟩ trivial
  have hspawn := Run.spawn hrelease (barrier true "" 0) (.barrier ..) trivial
  have henter := Run.call (S := barrierClients) [] .enter (1 : ℕ) hspawn ⟨rfl, rfl⟩ trivial
  have hlock := Run.call (S := barrierClients) [] (.lock 1) loaded henter ⟨rfl, rfl, rfl⟩
    (by simp [Quiescent, KernelState.next, launchedState, loaded, MicroKernel.all, oneStream])
  have hwait := Run.call (S := barrierClients) [] (.kernel (.syncStream oneStream)) Status.ok
    hlock ⟨nofun, loaded, ⟨rfl, .ok, (), trivial, rfl, rfl⟩, rfl⟩ trivial
  have hunlock := Run.call (S := barrierClients) [] .unlock () hwait rfl trivial
  have hreturned := Run.call (S := barrierClients) [] (.returned 1) () hunlock rfl trivial
  exact ⟨_, rfl, rfl, (barrier_waits loaded _ hreturned).1⟩

theorem barrier_misses_held : ¬ ∀ (m : MicroKernel) (p : BarrierPool),
    AnyRun ⟨{ kernel := m }, []⟩ p → p.state.Complete := by
  intro hclaim
  have hspawn := Run.spawn (run_to_launched.weaken (H := fun _ _ => True) fun _ _ _ => trivial)
    (barrier true "" 0) (.barrier ..) trivial
  have henter := Run.call (S := barrierClients) [] .enter (1 : ℕ) hspawn ⟨rfl, rfl⟩ trivial
  have hnone : ∀ h ∈ launchedState.kernel.all, h.raw ≠ 7 := by decide
  obtain ⟨q, hq, hmissed⟩ := barrier_misses (e := (0, 7)) rfl List.mem_cons_self Nat.zero_lt_one hnone
    henter
  exact hmissed (hclaim loaded q hq)

end NexusRT.Scheduler

import NexusRT.Firmware.DmaTransfers
import NexusRT.Library.Trace

namespace NexusRT.Firmware

open Prog

def Shim.Answers (shim : Shim) (d : Driver) : (c : PlatformCall) → c.Answer → Prop
  | .loadModule name src, a =>
    ∃ shim' d', Exec Driver.Serves (shim.loadModule name src) d (a, shim') d'
  | _, _ => True

section Functions

variable {d : Driver}

theorem metalLoadModule_functions (p : Option MetalState) (name src : String) :
    Always Driver.Serves (MetalPlatform.loadModule p name src) d
      (fun out _ => out.1.2.2 = .empty) := by
  rw [MetalPlatform.loadModule, always_bind]
  apply always_mono (always_true _ _)
  intro q d' _
  split
  · rfl
  · rw [always_bind]
    apply always_mono (always_true _ _)
    rintro ⟨err, lib⟩ _ _
    dsimp only
    split
    · rfl
    · rfl

theorem Shim.loadModule_functions (shim : Shim) (name src : String) :
    Always Driver.Serves (shim.loadModule name src) d (fun out _ => out.1.2.2 = .empty) := by
  cases shim with
  | cuda p =>
    rw [Shim.loadModule, always_bind]
    exact always_mono (cudaLoadModule_spec p name src d) fun _ _ hout => hout.1
  | metal p =>
    rw [Shim.loadModule, always_bind]
    exact always_mono (metalLoadModule_functions p name src) fun _ _ hout => hout

end Functions

section Load

variable {shim : Shim} {d : Driver} {m m' : MicroKernel} {mod : KernelModule}
  {name source : String}

theorem loadModule_fresh (hfresh : m.findModule name = none)
    (hload : Exec (allow (shim.Answers d)) (m.loadModule name source) () ((.ok, some mod), m') ()) :
    m'.findModule name = some mod ∧ mod.functions = .empty := by
  rw [MicroKernel.findModule] at hfresh
  simp only [MicroKernel.loadModule, hfresh] at hload
  obtain ⟨⟨s, raw, functions⟩, _, ⟨shim', d', hanswer⟩, hload⟩ := hload
  have hempty : functions = .empty :=
    (always_iff ..).mp (shim.loadModule_functions name source) _ _ hanswer
  change Exec (allow (shim.Answers d)) (if !ok s then _ else _) () _ () at hload
  split at hload
  · obtain ⟨hout, _⟩ := hload
    simp at hout
  · obtain ⟨hout, _⟩ := hload
    obtain ⟨hmod, rfl⟩ := Prod.mk.inj hout
    obtain rfl := Option.some.inj (Prod.mk.inj hmod).2
    refine ⟨?_, hempty⟩
    rw [MicroKernel.findModule, Table.find_insert, if_pos rfl]

theorem launch_unknown (hmod : m'.findModule name = some mod) (hempty : mod.functions = .empty)
    (f : String) (grid block : Dim3) (sharedMemBytes : UInt32) (h : StreamHandle)
    (kernelArgs : List Ptr) :
    m'.launch name f grid block sharedMemBytes h kernelArgs = .ret .invalidArgument := by
  simp [MicroKernel.launch, hmod, hempty]

end Load

def LaunchesEntries (A : (c : PlatformCall) → c.Answer → Prop) (m : MicroKernel) (name : String)
    (entries : Table String Ptr) : Prop :=
  ∀ f fn, entries.find f = some fn →
    ∀ (grid block : Dim3) (sharedMemBytes : UInt32) (h : StreamHandle) (kernelArgs : List Ptr),
      h.id ≠ 0 → ∀ t s, Traces A (m.launch name f grid block sharedMemBytes h kernelArgs) t s →
        calls t = [.launchKernel fn grid block sharedMemBytes h.raw kernelArgs]

/-- `entries` gives the entry points that a source defines, with their handles. -/
theorem launches_entries_iff (entries : String → Table String Ptr) (shim : Shim) (d : Driver)
    (m m' : MicroKernel) (mod : KernelModule) (name source : String)
    (hfresh : m.findModule name = none)
    (hload : Exec (allow (shim.Answers d)) (m.loadModule name source) () ((.ok, some mod), m') ()) :
    LaunchesEntries (shim.Answers d) m' name (entries source) ↔
      ∀ f, (entries source).find f = none := by
  obtain ⟨hmod, hempty⟩ := loadModule_fresh hfresh hload
  constructor
  · intro hlaunches f
    by_contra hentry
    obtain ⟨fn, hfn⟩ := Option.ne_none_iff_exists'.mp hentry
    have hcalls := hlaunches f fn hfn {} {} 0 { id := 1 } [] (by decide) [] .invalidArgument
      (by rw [launch_unknown hmod hempty]; exact ⟨rfl, rfl⟩)
    simp at hcalls
  · intro hnone f fn hfn
    simp [hnone f] at hfn

def oneEntry : String → Table String Ptr := fun _ => Table.empty.insert "f" 11

def emptyKernel : MicroKernel := { arch := .hopper }

def ptxModule : KernelModule := { id := 1, name := "m", rawModule := 9 }

theorem ptx_loaded : Exec (allow ((Shim.cuda none).Answers oneByte))
    (emptyKernel.loadModule "m" ".entry f") () ((.ok, some ptxModule),
      { emptyKernel with nextId := 2, modules := Table.empty.insert "m" ptxModule }) () := by
  have hanswer : (Shim.cuda none).Answers oneByte (.loadModule "m" ".entry f") (.ok, 9, .empty) :=
    ⟨.cuda (some { primary := 1 }), oneByte, (.success, 1), oneByte, rfl, (.success, 9), oneByte, rfl,
      rfl, rfl⟩
  exact ⟨(.ok, 9, .empty), (), hanswer, rfl, rfl⟩

theorem launches_entries_iff_ptx : ¬ LaunchesEntries ((Shim.cuda none).Answers oneByte)
    { emptyKernel with nextId := 2, modules := Table.empty.insert "m" ptxModule } "m"
    (oneEntry ".entry f") := by
  rw [launches_entries_iff oneEntry (.cuda none) oneByte emptyKernel _ ptxModule "m" ".entry f" rfl
    ptx_loaded]
  exact fun hnone => absurd (hnone "f") (by decide)

theorem launches_no_entry : ¬ ∀ (entries : String → Table String Ptr) (shim : Shim) (d : Driver)
    (m m' : MicroKernel) (mod : KernelModule) (name source : String), m.findModule name = none →
    Exec (allow (shim.Answers d)) (m.loadModule name source) () ((.ok, some mod), m') () →
    LaunchesEntries (shim.Answers d) m' name (entries source) := by
  intro hclaim
  have hlaunches := hclaim oneEntry (.cuda none) oneByte emptyKernel _ ptxModule "m" ".entry f" rfl
    ptx_loaded
  have hcalls := hlaunches "f" 11 rfl {} {} 0 { id := 1 } [] (by decide) [] .invalidArgument
    ⟨rfl, rfl⟩
  simp at hcalls

end NexusRT.Firmware

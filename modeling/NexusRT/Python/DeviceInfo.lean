import NexusRT.Firmware.DeviceDescription
import NexusRT.Library.Utf8
import NexusRT.Python.Lifecycle

namespace NexusRT.Python

open Prog Firmware Bytes

section DeviceDesc

structure CtypesObjects where
  vendor : Ptr
  arch : Ptr
  name : Ptr
  hbm : Ptr
  sms : Ptr
  bits : Ptr
  nonnull : vendor ≠ 0 ∧ arch ≠ 0 ∧ name ≠ 0 ∧ hbm ≠ 0 ∧ sms ≠ 0 ∧ bits ≠ 0
  apart : (OutPointers.mk vendor arch name 256 hbm sms bits).regions.Pairwise Region.Apart

namespace CtypesObjects

def pointers (o : CtypesObjects) : OutPointers where
  outVendor := o.vendor
  outArch := o.arch
  outName := o.name
  nameCap := 256
  outHbmBytes := o.hbm
  outSmCount := o.sms
  outFeaturesBits := o.bits

def created (o : CtypesObjects) (m : Bytes.Memory) : Bytes.Memory :=
  storeAll m (o.pointers.regions.map fun r => ⟨r.start, List.replicate r.size 0⟩)

def buffers (o : CtypesObjects) (m : Bytes.Memory) : DescBuffers where
  vendor := (word32 m o.vendor).toInt32
  arch := (word32 m o.arch).toInt32
  name := String.ofList (Utf8.decodeReplace (cString (load m o.name.toNat 256)))
  hbm := word64 m o.hbm
  sms := word32 m o.sms
  bits := word32 m o.bits

end CtypesObjects

def describe (device : ContextRef → DeviceDescription) (w : HandleState) (o : CtypesObjects) (ctx : Ptr)
    (m : Bytes.Memory) : (Int × DescBuffers) × Bytes.Memory :=
  let m := o.created m
  let (rc, m) := nexusrtFirmwareDeviceDesc device w ctx o.pointers m
  ((rc, o.buffers m), m)

def vendorText : Vendor → String
  | .unknown => "unknown"
  | .nvidia => "nvidia"
  | .apple => "apple"

def archText : Arch → String
  | .unknown => "unknown"
  | .ampere => "ampere"
  | .hopper => "hopper"
  | .appleSilicon => "apple_silicon"
  | .pascal => "pascal"
  | .turing => "turing"

def infoOf (d : DeviceDescription) : DeviceInfo where
  vendor := vendorText d.vendor
  arch := archText d.arch
  name := String.ofList (Utf8.decodeReplace ((cString d.name).take 255))
  hbmBytes := d.hbmCapacityBytes.toNat
  smCount := d.smCount.toNat
  features := [("tma", d.features.tma), ("ilc", d.features.ilc), ("dsm", d.features.dsm),
    ("gds", d.features.gds), ("grdma", d.features.grdma), ("clusters", d.features.clusters),
    ("unified_native", d.features.unifiedNative)]

def infoFrom (d : DescBuffers) : DeviceInfo where
  vendor := vendorNames d.vendor
  arch := archNames d.arch
  name := d.name
  hbmBytes := d.hbm.toNat
  smCount := d.sms.toNat
  features := featureBits.mapIdx fun i bit => (bit, d.bits.toNat.testBit i)

theorem vendorNames_code (v : Vendor) : vendorNames (vendorCode v).toInt32 = vendorText v := by
  cases v <;> decide

theorem archNames_code (a : Arch) : archNames (archCode a).toInt32 = archText a := by
  cases a <;> decide

theorem features_bits (f : DeviceFeatures) :
    featureBits.mapIdx (fun i bit => (bit, (featuresBits f).toNat.testBit i)) =
      featureBits.zip f.flags := by
  rw [← testBit_featuresBits]
  rfl

theorem infoFrom_copied {d : DeviceDescription} {o : CtypesObjects} {m : Bytes.Memory}
    (h : CopiedOut d o.pointers m) : infoFrom (o.buffers m) = infoOf d := by
  obtain ⟨hv, ha, hn, hh, hs, hb⟩ := o.nonnull
  have hvendor := h.vendor hv
  have harch := h.arch ha
  have hname := h.cString_name hn (show (256 : UInt64) ≠ 0 by decide)
  have hhbm := h.hbmBytes hh
  have hsms := h.smCount hs
  have hbits := h.featuresBits hb
  simp only [CtypesObjects.pointers] at hvendor harch hname hhbm hsms hbits
  simp only [infoFrom, CtypesObjects.buffers, infoOf, hvendor, harch, hhbm, hsms, hbits,
    vendorNames_code, archNames_code, features_bits]
  rw [show (256 : UInt64).toNat = 256 from rfl] at hname
  rw [hname]
  rfl

end DeviceDesc

section Calls

variable {device : ContextRef → DeviceDescription} {o : CtypesObjects} {e : AbiOutcome}

theorem created_outside (m : Bytes.Memory) {a : ℕ} (ha : ∀ r ∈ o.pointers.regions, ¬ r.Covers a) :
    o.created m a = m a := by
  apply storeAll_outside
  simpa [Write.region, Function.comp_def] using ha

theorem load_created (m : Bytes.Memory) {p : Ptr} {n : ℕ} (h : (⟨p.toNat, n⟩ : Region) ∈ o.pointers.regions) :
    load (o.created m) p.toNat n = List.replicate n 0 := by
  have hws : ((o.pointers.regions.map fun r => (⟨r.start, List.replicate r.size 0⟩ : Write)).map
      Write.region) = o.pointers.regions := by
    simp [Write.region, Function.comp_def]
  have hload := load_storeAll (m := m) (hws.symm ▸ o.apart) (List.mem_map_of_mem h)
  rw [List.length_replicate] at hload
  exact hload

theorem region_mem {p : Ptr} {n : ℕ} (hp : p ≠ 0) (hn : n ≠ 0)
    (h : (p, n) ∈ [(o.vendor, 4), (o.arch, 4), (o.name, 256), (o.hbm, 8), (o.sms, 4), (o.bits, 4)]) :
    (⟨p.toNat, n⟩ : Region) ∈ o.pointers.regions := by
  refine List.mem_flatMap.mpr ⟨(p, n), h, ?_⟩
  rw [regionAt, if_pos ⟨hp, hn⟩]
  exact List.mem_singleton_self _

theorem word32_created (m : Bytes.Memory) {p : Ptr} (h : (⟨p.toNat, 4⟩ : Region) ∈ o.pointers.regions) :
    word32 (o.created m) p = 0 := by
  rw [word32, load_created m h]
  rfl

theorem buffers_created (m : Bytes.Memory) : o.buffers (o.created m) = {} := by
  obtain ⟨hv, ha, hn, hh, hs, hb⟩ := o.nonnull
  have hname := load_created m (region_mem (o := o) hn (show 256 ≠ 0 by decide) (by simp))
  have hhbm := load_created m (region_mem (o := o) hh (show 8 ≠ 0 by decide) (by simp))
  have hvendor := word32_created m (region_mem (o := o) hv (show 4 ≠ 0 by decide) (by simp))
  have harch := word32_created m (region_mem (o := o) ha (show 4 ≠ 0 by decide) (by simp))
  have hsms := word32_created m (region_mem (o := o) hs (show 4 ≠ 0 by decide) (by simp))
  have hbits := word32_created m (region_mem (o := o) hb (show 4 ≠ 0 by decide) (by simp))
  simp only [CtypesObjects.buffers, hvendor, harch, hsms, hbits, word64, hname, hhbm]
  rw [List.replicate_succ]
  rfl

def Describes (device : ContextRef → DeviceDescription) (o : CtypesObjects) (e : AbiOutcome) :
    (c : WrapperCall) → WrapperState × Bytes.Memory → c.Answer → WrapperState × Bytes.Memory → Prop
  | .firmwareDeviceDesc k, s, r, t =>
    (r, t.2) = describe device s.1.abi o k s.2 ∧
      AbiOutcome.Serves { e with described := 0 } (.firmwareDeviceDesc k) s.1 r t.1
  | c, s, r, t => AbiOutcome.Serves { e with described := 0 } c s.1 r t.1 ∧ t.2 = s.2

theorem Describes.serves {c : WrapperCall} {s t : WrapperState × Bytes.Memory} {r : c.Answer}
    (h : Describes device o e c s r t) :
    AbiOutcome.Serves { e with described := 0 } c s.1 r t.1 := by
  cases c with
  | firmwareDeviceDesc k => exact h.2
  | setCtx _ | getCtx | firmwareInit _ | firmwareShutdown _ => exact h.1

theorem describe_serves (device : ContextRef → DeviceDescription) (o : CtypesObjects) (e : AbiOutcome)
    (s : WrapperState) (k : Ptr) (m : Bytes.Memory) :
    ∃ s', AbiOutcome.Serves { e with described := 0 } (.firmwareDeviceDesc k) s
      (describe device s.abi o k m).1 s' := by
  unfold describe nexusrtFirmwareDeviceDesc
  cases hfind : s.abi.registry.find k with
  | none =>
    refine ⟨_, s.abi.lookup k, ⟨none, _, ⟨trivial, hfind.symm, rfl⟩, rfl, rfl⟩, fun _ => ?_, rfl⟩
    exact buffers_created m
  | some sp =>
    refine ⟨_, _, ⟨some sp, _, ⟨trivial, hfind.symm, rfl⟩, (0 : Int), _, ⟨rfl, rfl⟩, (), _, ⟨trivial, rfl⟩,
      rfl, rfl⟩, nofun, rfl⟩

theorem describe_outside (w : HandleState) (k : Ptr) (m : Bytes.Memory) {a : ℕ}
    (ha : ∀ r ∈ o.pointers.regions, ¬ r.Covers a) : (describe device w o k m).2 a = m a := by
  unfold describe nexusrtFirmwareDeviceDesc
  cases w.registry.find k with
  | none => exact created_outside m ha
  | some sp => exact (copyOut_outside ha).trans (created_outside m ha)

theorem describe_missing {w : HandleState} {k : Ptr} (hfind : w.registry.find k = none)
    (m : Bytes.Memory) : (describe device w o k m).1.1 = -1 := by
  unfold describe nexusrtFirmwareDeviceDesc
  rw [hfind]
  rfl

theorem describe_found {w : HandleState} {k : Ptr} {sp : ContextRef} (hfind : w.registry.find k = some sp)
    (m : Bytes.Memory) : (describe device w o k m).1.1 = 0 ∧
      infoFrom (describe device w o k m).1.2 = infoOf (device sp) := by
  unfold describe nexusrtFirmwareDeviceDesc
  rw [hfind]
  exact ⟨rfl, infoFrom_copied (copyOut_copied o.apart)⟩

def answer (device : ContextRef → DeviceDescription) (s : WrapperState) : Except PyError DeviceInfo :=
  match s.ctx with
  | none => .error (.runtimeError "firmware not initialized — call init() first")
  | some k => match s.abi.registry.find k with
    | none => .error (.nexusRTError (-1) "INVALID_ARGUMENT")
    | some sp => .ok (infoOf (device sp))

theorem answer_congr {s s' : WrapperState} (hctx : s'.ctx = s.ctx)
    (hregistry : s'.abi.registry = s.abi.registry) : answer device s' = answer device s := by
  rw [answer, answer, hctx, hregistry]

variable {s t : WrapperState × Bytes.Memory}

def finish (r : Int × DescBuffers) : Except PyError DeviceInfo := (check r.1).map fun _ => infoFrom r.2

theorem exec_deviceInfo {r : Except PyError DeviceInfo}
    (h : Exec (Describes device o e) Wrapper.deviceInfo s r t) :
    (s.1.ctx = none ∧ r = answer device s.1 ∧ t.2 = s.2) ∨
    ∃ k, s.1.ctx = some k ∧ r = finish (describe device s.1.abi o k s.2).1 ∧
      t.2 = (describe device s.1.abi o k s.2).2 := by
  obtain ⟨c, u, ⟨⟨rfl, hu⟩, hmem⟩, h⟩ := h
  cases hctx : s.1.ctx with
  | none =>
    rw [hctx] at h
    obtain ⟨rfl, rfl⟩ := h
    exact .inl ⟨rfl, by rw [answer, hctx], hmem⟩
  | some k =>
    rw [hctx] at h
    obtain ⟨out, v, ⟨hdescribe, _⟩, h⟩ := h
    rw [hu, hmem] at hdescribe
    have hout : out = (describe device s.1.abi o k s.2).1 := congrArg Prod.fst hdescribe
    have hafter : v.2 = (describe device s.1.abi o k s.2).2 := congrArg Prod.snd hdescribe
    refine .inr ⟨k, rfl, ?_⟩
    rw [← hout, ← hafter]
    dsimp only [Prog.bind] at h
    unfold finish
    cases hcheck : check out.1 with
    | error err =>
      rw [hcheck] at h
      obtain ⟨rfl, rfl⟩ := h
      exact ⟨rfl, rfl⟩
    | ok _ =>
      rw [hcheck] at h
      obtain ⟨rfl, rfl⟩ := h
      exact ⟨rfl, rfl⟩

theorem finish_describe (s : WrapperState) {k : Ptr} (hctx : s.ctx = some k) (m : Bytes.Memory) :
    finish (describe device s.abi o k m).1 = answer device s := by
  rw [answer, hctx, finish]
  cases hfind : s.abi.registry.find k with
  | none =>
    rw [describe_missing hfind]
    simp only [hfind]
    rfl
  | some sp =>
    obtain ⟨hrc, hinfo⟩ := describe_found (o := o) hfind m
    rw [hrc, hinfo]
    simp only [hfind]
    rfl

theorem deviceInfo_answer {r : Except PyError DeviceInfo}
    (h : Exec (Describes device o e) Wrapper.deviceInfo s r t) :
    r = answer device s.1 ∧ ∀ a, (∀ r ∈ o.pointers.regions, ¬ r.Covers a) → t.2 a = s.2 a := by
  rcases exec_deviceInfo h with ⟨_, hr, hmem⟩ | ⟨k, hctx, hr, hmem⟩
  · exact ⟨hr, fun a _ => by rw [hmem]⟩
  · refine ⟨hr.trans (finish_describe s.1 hctx s.2), fun a ha => ?_⟩
    rw [hmem]
    exact describe_outside _ _ _ ha

theorem init_answer {profile : String} {info : DeviceInfo}
    (h : Exec (Describes device o e) (Wrapper.init profile) s (.ok info) t) :
    ∃ sp, t.1.ctx = some sp.address ∧ t.1.abi.registry.find sp.address = some sp ∧
      sp ∈ t.1.created ∧ info = infoOf (device sp) := by
  obtain ⟨_, u, ⟨_, _⟩, rc, v, ⟨⟨out, w, hinit, hv⟩, _⟩, h⟩ := h
  rcases init_spec hinit with ⟨hbooted, rfl, rfl, rfl⟩ | ⟨_, rfl, rfl, _, hregistry, _⟩
  · dsimp only [Prog.bind] at h
    rw [check_status, if_neg hbooted] at h
    exact absurd h.1 nofun
  · obtain ⟨hinfo, _⟩ := deviceInfo_answer h
    obtain ⟨abi, ht, hsame, _⟩ := deviceInfo_spec
      (exec_coarsen Prod.fst (fun _ _ _ _ hd => Describes.serves hd) h)
    have hfind : w.registry.find e.address = some ⟨u.1.abi.made, e.address⟩ := by
      rw [hregistry, Table.find_insert, if_pos rfl]
    refine ⟨⟨u.1.abi.made, e.address⟩, ?_, ?_, ?_, ?_⟩
    · rw [ht, hv]
      rfl
    · rw [ht, hsame, hv]
      exact hfind
    · rw [ht, hv]
      simp [hfind]
    · rw [hv, answer] at hinfo
      change _ = (match w.registry.find e.address with
        | none => _
        | some sp => _) at hinfo
      rw [hfind] at hinfo
      exact Except.ok.inj hinfo

theorem only_deviceInfo : Only (fun c => c = .getCtx ∨ ∃ k, c = .firmwareDeviceDesc k)
    Wrapper.deviceInfo := by
  refine .op_bind (.inl rfl) fun c => ?_
  cases c with
  | none => exact trivial
  | some k =>
    refine .op_bind (.inr ⟨k, rfl⟩) fun (rc, d) => ?_
    dsimp only
    cases check rc <;> exact trivial

theorem exists_deviceInfo (device : ContextRef → DeviceDescription) (o : CtypesObjects)
    (e : AbiOutcome) (s : WrapperState × Bytes.Memory) :
    ∃ t, Exec (Describes device o e) Wrapper.deviceInfo s (answer device s.1) t ∧
      answer device t.1 = answer device s.1 := by
  obtain ⟨r, t, h⟩ := only_deviceInfo.exists_exec (H := Describes device o e) (fun c s hc => by
    rcases hc with rfl | ⟨k, rfl⟩
    · exact ⟨s.1.ctx, s, ⟨rfl, rfl⟩, rfl⟩
    · obtain ⟨s', hserves⟩ := describe_serves device o e s.1 k s.2
      exact ⟨_, (s', _), rfl, hserves⟩) s
  obtain ⟨abi, ht, hregistry, _⟩ := deviceInfo_spec
    (exec_coarsen Prod.fst (fun _ _ _ _ hd => Describes.serves hd) h)
  refine ⟨t, (deviceInfo_answer h).1 ▸ h, ?_⟩
  rw [ht]
  exact answer_congr rfl hregistry

theorem exists_init (device : ContextRef → DeviceDescription) (o : CtypesObjects) {e : AbiOutcome}
    (profile : String) (s : WrapperState × Bytes.Memory) (hbooted : e.booted = .ok)
    (ha : e.address ≠ 0) (hfree : ∀ c ∈ s.1.abi.pointers, c.address ≠ e.address) :
    ∃ info t, Exec (Describes device o e) (Wrapper.init profile) s (.ok info) t := by
  let sp : ContextRef := ⟨s.1.abi.made, e.address⟩
  have hinit : ∃ w, Exec (AbiOutcome.Registers { e with described := 0 })
      (Registry.nexusrtFirmwareInit (some profile) true e.address) s.1.abi (0, some e.address) w :=
    ⟨_, .ok sp, _, ⟨hbooted, ha, hfree, rfl, rfl⟩, (), _, ⟨trivial, rfl⟩, (), _, ⟨trivial, rfl⟩,
      rfl, rfl⟩
  obtain ⟨w, hinit⟩ := hinit
  have hfind : w.registry.find e.address = some sp := by
    rcases init_spec hinit with ⟨hfailed, _⟩ | ⟨_, _, _, _, hregistry, _⟩
    · exact absurd hbooted hfailed
    · rw [hregistry, Table.find_insert, if_pos rfl]
  let opened : WrapperState := { s.1 with ctx := some e.address, abi := w, created := sp :: s.1.created }
  obtain ⟨t, hinfo, _⟩ := exists_deviceInfo device o e (opened, s.2)
  have hanswer : answer device opened = .ok (infoOf (device sp)) := by
    simp only [answer, opened, hfind]
  rw [hanswer] at hinfo
  refine ⟨_, t, (), ({ s.1 with ctx := some 0 }, s.2), ⟨rfl, rfl⟩, (0 : Int), (opened, s.2),
    ⟨⟨some e.address, w, hinit, ?_⟩, rfl⟩, hinfo⟩
  simp [opened, hfind]

theorem name_infoOf {d : DeviceDescription} {cs : List Char} (hname : d.name = Utf8.encode cs)
    (hzero : '\x00' ∉ cs) : (infoOf d).name = String.ofList (Utf8.truncate 255 cs) := by
  have hne : ∀ b ∈ Utf8.encode cs, b ≠ 0 := fun b hb h0 => Utf8.zero_notMem_encode hzero (h0 ▸ hb)
  change String.ofList (Utf8.decodeReplace ((cString d.name).take 255)) = _
  rw [hname, cString_of_ne_zero hne, Utf8.decodeReplace_take]

end Calls

theorem device_info_exact (device : ContextRef → DeviceDescription) (o : CtypesObjects) (e : AbiOutcome)
    (s : WrapperState) (m : Bytes.Memory) :
    Always (Describes device o e) Wrapper.deviceInfo (s, m) fun r t =>
      r = answer device s ∧ (∀ a, (∀ r ∈ o.pointers.regions, ¬ r.Covers a) → t.2 a = m a) ∧
      ∀ k sp cs, s.ctx = some k → s.abi.registry.find k = some sp → (device sp).name = Utf8.encode cs →
        '\x00' ∉ cs → ∃ info, r = .ok info ∧ info.name = String.ofList (Utf8.truncate 255 cs) := by
  rw [always_iff]
  intro r t h
  obtain ⟨hr, houtside⟩ := deviceInfo_answer h
  refine ⟨hr, houtside, fun k sp cs hctx hfind hname hzero => ⟨infoOf (device sp), ?_, ?_⟩⟩
  · rw [hr, answer]
    simp only [hctx, hfind]
  · exact name_infoOf hname hzero

structure Sensible (info : DeviceInfo) : Prop where
  vendor : info.vendor = "nvidia" ∨ info.vendor = "apple"
  apple : info.vendor = "apple" ↔ info.arch = "apple_silicon"
  names : info.features.map Prod.fst = featureBits
  hopper : ∀ f ∈ ["tma", "ilc", "dsm", "clusters"], (f, true) ∈ info.features ↔ info.arch = "hopper"
  storage : ∀ f ∈ ["gds", "grdma"], (f, true) ∈ info.features → info.vendor = "nvidia"
  unified : ("unified_native", true) ∈ info.features → info.vendor = "apple"

theorem vendorText_inj {v w : Vendor} : vendorText v = vendorText w ↔ v = w := by
  cases v <;> cases w <;> decide

theorem archText_inj {a b : Arch} : archText a = archText b ↔ a = b := by
  cases a <;> cases b <;> decide

theorem described_sensible {d : DeviceDescription} (h : Described d) : Sensible (infoOf d) where
  vendor := h.vendor.imp (congrArg vendorText) (congrArg vendorText)
  apple := by
    change vendorText d.vendor = vendorText .apple ↔ archText d.arch = archText .appleSilicon
    rw [vendorText_inj, archText_inj, h.apple]
  names := rfl
  hopper := by
    change ∀ f ∈ _, (f, true) ∈ (infoOf d).features ↔ archText d.arch = archText .hopper
    have hflags := h.hopper
    rw [archText_inj]
    simp only [List.forall_mem_cons] at hflags ⊢
    simpa [infoOf] using hflags
  storage := by
    change ∀ f ∈ _, (f, true) ∈ (infoOf d).features → vendorText d.vendor = vendorText .nvidia
    have hflags := h.storage
    rw [vendorText_inj]
    simp only [List.forall_mem_cons] at hflags ⊢
    simpa [infoOf] using hflags
  unified := by
    change ("unified_native", true) ∈ (infoOf d).features → vendorText d.vendor = vendorText .apple
    rw [vendorText_inj]
    simpa [infoOf] using h.unified

theorem init_sensible (device : ContextRef → FoundDevice) (o : CtypesObjects) (e : AbiOutcome)
    (profile : String) (s : WrapperState) (m : Bytes.Memory) :
    Always (Describes (fun sp => (device sp).description) o e) (Wrapper.init profile) (s, m) fun r t =>
      ∀ info, r = .ok info → Sensible info ∧
        ∃ sp, t.1.ctx = some sp.address ∧ t.1.abi.registry.find sp.address = some sp ∧
          sp ∈ t.1.created ∧ info = infoOf (device sp).description := by
  rw [always_iff]
  rintro r t h info rfl
  obtain ⟨sp, hctx, hfind, hcreated, rfl⟩ := init_answer h
  exact ⟨described_sensible (device sp).described, sp, hctx, hfind, hcreated, rfl⟩

section Hopper

def hopperDriver : (c : DeviceCall) → Unit → c.Answer × Unit
  | .cuInit, _ => (true, ())
  | .cuDeviceGetCount, _ => ((true, 1), ())
  | .cuDeviceGet _, _ => ((true, 0), ())
  | .cuDeviceGetName _, _ => (Utf8.encode "NVIDIA H100".toList, ())
  | .cuDeviceGetAttribute .computeCapabilityMajor _, _ => (9, ())
  | .cuDeviceGetAttribute .multiprocessorCount _, _ => (132, ())
  | .cuDeviceGetAttribute _ _, _ => (0, ())
  | .cuDeviceTotalMem _, _ => (80 * 1024 * 1024 * 1024, ())
  | .createSystemDefaultDevice, _ => (false, ())
  | .name, _ => ([], ())
  | .recommendedMaxWorkingSetSize, _ => (0, ())

def hopper : FoundDevice where
  description := ((probeDriverWith (some .cuda)).eval hopperDriver ()).1.2
  backend := some .cuda
  found := exec_eval (f := hopperDriver) (fun _ _ => trivial) (probeDriverWith (some .cuda)) ()

example : (infoOf hopper.description).arch = "hopper" := by rfl

end Hopper

end NexusRT.Python

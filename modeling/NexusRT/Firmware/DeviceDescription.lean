import NexusRT.Firmware.DmaTransfers
import NexusRT.Firmware.Registry
import NexusRT.Library.Bytes
import NexusRT.PlatformDispatch

namespace NexusRT.Firmware

open Prog Bytes

structure DeviceFeatures where
  tma : Bool := false
  ilc : Bool := false
  dsm : Bool := false
  gds : Bool := false
  grdma : Bool := false
  clusters : Bool := false
  unifiedNative : Bool := false
  deriving DecidableEq

/-- All fields of the descriptor; the name is its bytes. -/
structure DeviceDescription where
  vendor : Vendor := .unknown
  arch : Arch := .unknown
  name : List UInt8 := []
  computeCapabilityMajor : Int32 := 0
  computeCapabilityMinor : Int32 := 0
  hbmCapacityBytes : UInt64 := 0
  hbmBandwidthBps : UInt64 := 0
  smCount : UInt32 := 0
  smemPerSmBytes : UInt32 := 0
  nvlinkBandwidthGbs : UInt32 := 0
  features : DeviceFeatures := {}
  deriving DecidableEq

def DeviceDescription.desc (d : DeviceDescription) : DeviceDesc where
  vendor := d.vendor
  arch := d.arch
  hbmCapacityBytes := d.hbmCapacityBytes
  smemPerSmBytes := d.smemPerSmBytes
  features := { ilc := d.features.ilc, gds := d.features.gds, grdma := d.features.grdma }

inductive DeviceAttribute
  | computeCapabilityMajor | computeCapabilityMinor | multiprocessorCount
  | maxSharedMemoryPerMultiprocessor | gpuDirectRdmaSupported

inductive DeviceCall
  | cuInit
  | cuDeviceGetCount
  | cuDeviceGet (ordinal : Int32)
  | cuDeviceGetName (dev : Int32)
  | cuDeviceGetAttribute (wanted : DeviceAttribute) (dev : Int32)
  | cuDeviceTotalMem (dev : Int32)
  | createSystemDefaultDevice
  | name
  | recommendedMaxWorkingSetSize

/-- Where the status is used it is a part of the answer; a variable that a call leaves alone keeps
its 0. -/
abbrev DeviceCall.Answer : DeviceCall → Type
  | .cuInit => Bool
  | .cuDeviceGetCount => Bool × Int32
  | .cuDeviceGet _ => Bool × Int32
  | .cuDeviceGetName _ => List UInt8
  | .cuDeviceGetAttribute _ _ => Int32
  | .cuDeviceTotalMem _ => UInt64
  | .createSystemDefaultDevice => Bool
  | .name => List UInt8
  | .recommendedMaxWorkingSetSize => UInt64

abbrev DeviceProg := Prog DeviceCall DeviceCall.Answer

namespace CudaPlatform

def probe : DeviceProg Bool := do
  let up ← op DeviceCall.cuInit
  if !up then return false else
  let (counted, n) ← op DeviceCall.cuDeviceGetCount
  return counted && decide (0 < n)

def archOf (major : Int32) : Arch :=
  if major = 6 then .pascal
  else if major = 7 then .turing
  else if major = 8 then .ampere
  else if major = 9 then .hopper
  else .unknown

/-- The bandwidth of the link is asked for only where a macro names the attribute, which is an
enumerator. -/
def describeDevice : DeviceProg DeviceDescription := do
  let d : DeviceDescription := { vendor := .nvidia }
  let (counted, dev) ← op DeviceCall.cuDeviceGetCount
  if !counted || dev = 0 then return d else
  let (got, dev) ← op (DeviceCall.cuDeviceGet 0)
  if !got then return d else
  let name ← op (DeviceCall.cuDeviceGetName dev)
  let major ← op (DeviceCall.cuDeviceGetAttribute .computeCapabilityMajor dev)
  let minor ← op (DeviceCall.cuDeviceGetAttribute .computeCapabilityMinor dev)
  let arch := archOf major
  let total ← op (DeviceCall.cuDeviceTotalMem dev)
  let sms ← op (DeviceCall.cuDeviceGetAttribute .multiprocessorCount dev)
  let smem ← op (DeviceCall.cuDeviceGetAttribute .maxSharedMemoryPerMultiprocessor dev)
  let val ← op (DeviceCall.cuDeviceGetAttribute .gpuDirectRdmaSupported dev)
  let hopper := decide (arch = .hopper)
  return { d with
    -- the driver ends what it puts into the 256 bytes with a zero byte
    name := (cString name).take 255
    arch
    computeCapabilityMajor := major
    computeCapabilityMinor := minor
    hbmCapacityBytes := total
    smCount := sms.toUInt32
    smemPerSmBytes := smem.toUInt32
    features :=
      { tma := hopper, ilc := hopper, dsm := hopper, clusters := hopper, gds := true, grdma := val ≠ 0 }
    nvlinkBandwidthGbs := 0
    hbmBandwidthBps := if hopper then 3352 * 1024 * 1024 * 1024 else 2039 * 1024 * 1024 * 1024 }

end CudaPlatform

namespace MetalPlatform

def probe : DeviceProg Bool := op DeviceCall.createSystemDefaultDevice

def describeDevice : DeviceProg DeviceDescription := do
  let d : DeviceDescription := { vendor := .apple, arch := .appleSilicon }
  let dev ← op DeviceCall.createSystemDefaultDevice
  if !dev then return d else
  let name ← op DeviceCall.name
  let size ← op DeviceCall.recommendedMaxWorkingSetSize
  return { d with
    name := cString name
    hbmCapacityBytes := size
    hbmBandwidthBps := 200 * 1024 * 1024 * 1024
    smCount := 16
    smemPerSmBytes := 32 * 1024
    features := { unifiedNative := true } }

end MetalPlatform

/-- `none` is the null platform. -/
def probeDevice : Option Backend → DeviceProg Bool
  | some .cuda => CudaPlatform.probe
  | some .metal => MetalPlatform.probe
  | none => return false

def describeDevice : Option Backend → DeviceProg DeviceDescription
  | some .cuda => CudaPlatform.describeDevice
  | some .metal => MetalPlatform.describeDevice
  | none => return {}

def probeDriverWith (b : Option Backend) : DeviceProg (Status × DeviceDescription) := do
  let found ← probeDevice b
  if !found then return (.deviceNotFound, {}) else
  let out ← describeDevice b
  if out.vendor = .unknown then return (.deviceNotFound, out) else
  return (.ok, out)

section Described

def answerOf (b : Option Backend) : (c : PlatformCall) → DeviceProg c.Answer
  | .probe => probeDevice b
  | .describeDevice _ => do
    let d ← describeDevice b
    return d.desc
  | c => return PlatformDispatch.nullPlatform c

theorem probeDriver_interp (b : Option Backend) (opts : BootOptions) :
    (probeDriver opts).interp (answerOf b) = probeDriverWith b >>= fun r => return (r.1, r.2.desc) := by
  have hprobe : (probeDriver opts).interp (answerOf b) = probeDevice b >>= fun found =>
      if !found then return (.deviceNotFound, {}) else do
        let d ← describeDevice b
        if d.vendor = .unknown then return (.deviceNotFound, d.desc) else return (.ok, d.desc) := by
    unfold probeDriver Platform.probe Platform.describeDevice
    change (probeDevice b >>= fun found => Prog.interp (answerOf b) _) = _
    congr 1
    funext found
    cases found with
    | false => rfl
    | true =>
      change ((describeDevice b >>= fun d => return d.desc) >>= fun d => Prog.interp (answerOf b) _) = _
      rw [bind_bind]
      change (describeDevice b >>= fun d => _) = (describeDevice b >>= fun d => _)
      congr 1
      funext d
      rw [pure_eq, ret_bind]
      change Prog.interp _ (if d.vendor = .unknown then _ else _) = _
      split <;> rfl
  rw [hprobe, probeDriverWith, bind_bind]
  congr 1
  funext found
  cases found with
  | false => rfl
  | true =>
    change (describeDevice b >>= fun d => _) = (describeDevice b >>= fun d => _) >>= _
    rw [bind_bind]
    congr 1
    funext d
    by_cases hd : d.vendor = .unknown
    · rw [if_pos hd, if_pos hd]
      rfl
    · rw [if_neg hd, if_neg hd]
      rfl

structure Described (d : DeviceDescription) : Prop where
  vendor : d.vendor = .nvidia ∨ d.vendor = .apple
  apple : d.vendor = .apple ↔ d.arch = .appleSilicon
  hopper : ∀ f ∈ [d.features.tma, d.features.ilc, d.features.dsm, d.features.clusters],
    f = true ↔ d.arch = .hopper
  storage : ∀ f ∈ [d.features.gds, d.features.grdma], f = true → d.vendor = .nvidia
  unified : d.features.unifiedNative = true → d.vendor = .apple

theorem archOf_ne (major : Int32) : CudaPlatform.archOf major ≠ .appleSilicon := by
  unfold CudaPlatform.archOf
  repeat' split
  all_goals nofun

theorem cuda_described :
    Always (allow fun _ _ => True) CudaPlatform.describeDevice () (fun d _ => Described d) := by
  have hbare : Described { vendor := .nvidia } := by
    constructor <;> simp
  unfold CudaPlatform.describeDevice
  rintro ⟨counted, dev⟩ _ _
  dsimp only [Prog.bind]
  split
  · exact hbare
  rintro ⟨got, dev⟩ _ _
  dsimp only [Prog.bind]
  split
  · exact hbare
  intro name _ _ major _ _ minor _ _ total _ _ sms _ _ smem _ _ val _ _
  have harch := archOf_ne major
  constructor <;> simp [harch]

theorem metal_described :
    Always (allow fun _ _ => True) MetalPlatform.describeDevice () (fun d _ => Described d) := by
  intro dev _ _
  cases dev with
  | false => constructor <;> simp
  | true =>
    intro name _ _ size _ _
    constructor <;> simp

theorem describeDevice_described (b : Option Backend) : Always (allow fun _ _ => True) (describeDevice b) ()
    (fun d _ => d.vendor ≠ .unknown → Described d) := by
  cases b with
  | none => exact fun h => absurd rfl h
  | some b =>
    cases b with
    | cuda => exact always_mono cuda_described fun _ _ h _ => h
    | metal => exact always_mono metal_described fun _ _ h _ => h

theorem probeDriver_described (b : Option Backend) : Always (allow fun _ _ => True) (probeDriverWith b) ()
    (fun r _ => r.1 = .ok → Described r.2) := by
  unfold probeDriverWith
  rw [always_bind]
  apply always_mono (always_true _ _)
  rintro found ⟨⟩ _
  cases found with
  | false => nofun
  | true =>
    refine (always_bind _ _ _ _).mpr (always_mono (describeDevice_described b) ?_)
    rintro d ⟨⟩ hd
    by_cases hv : d.vendor = .unknown
    · simp [hv]
    · simpa [hv] using hd hv

structure FoundDevice where
  description : DeviceDescription
  backend : Option Backend
  found : Exec (allow fun _ _ => True) (probeDriverWith backend) () (.ok, description) ()

theorem FoundDevice.described (d : FoundDevice) : Described d.description :=
  (always_iff _ _ _).mp (probeDriver_described d.backend) _ _ d.found rfl

end Described

def vendorCode : Vendor → UInt32
  | .unknown => 0
  | .nvidia => 1
  | .apple => 2

def archCode : Arch → UInt32
  | .unknown => 0
  | .ampere => 1
  | .hopper => 2
  | .appleSilicon => 3
  | .pascal => 4
  | .turing => 5

def featuresBits (f : DeviceFeatures) : UInt32 :=
  let b : UInt32 := 0
  let b := if f.tma then b ||| (1 : UInt32) <<< 0 else b
  let b := if f.ilc then b ||| (1 : UInt32) <<< 1 else b
  let b := if f.dsm then b ||| (1 : UInt32) <<< 2 else b
  let b := if f.gds then b ||| (1 : UInt32) <<< 3 else b
  let b := if f.grdma then b ||| (1 : UInt32) <<< 4 else b
  let b := if f.clusters then b ||| (1 : UInt32) <<< 5 else b
  if f.unifiedNative then b ||| (1 : UInt32) <<< 6 else b

def DeviceFeatures.flags (f : DeviceFeatures) : List Bool :=
  [f.tma, f.ilc, f.dsm, f.gds, f.grdma, f.clusters, f.unifiedNative]

theorem testBit_featuresBits (f : DeviceFeatures) :
    (List.range 7).map (featuresBits f).toNat.testBit = f.flags := by
  obtain ⟨tma, ilc, dsm, gds, grdma, clusters, unifiedNative⟩ := f
  revert tma ilc dsm gds grdma clusters unifiedNative
  decide

structure OutPointers where
  outVendor : Ptr := 0
  outArch : Ptr := 0
  outName : Ptr := 0
  nameCap : UInt64 := 0
  outHbmBytes : Ptr := 0
  outSmCount : Ptr := 0
  outFeaturesBits : Ptr := 0

def storeWord (m : Bytes.Memory) (p : Ptr) (size v : ℕ) : Bytes.Memory :=
  if p ≠ 0 then store m p.toNat (encode size v) else m

def storeName (m : Bytes.Memory) (outName : Ptr) (nameCap : UInt64) (name : List UInt8) : Bytes.Memory :=
  if outName ≠ 0 ∧ nameCap ≠ 0 then
    let m := store m outName.toNat (strncpy name (nameCap.toNat - 1))
    store m (outName.toNat + (nameCap.toNat - 1)) [0]
  else m

def copyOut (d : DeviceDescription) (out : OutPointers) (m : Bytes.Memory) : Bytes.Memory :=
  let m := storeWord m out.outVendor 4 (vendorCode d.vendor).toNat
  let m := storeWord m out.outArch 4 (archCode d.arch).toNat
  let m := storeName m out.outName out.nameCap d.name
  let m := storeWord m out.outHbmBytes 8 d.hbmCapacityBytes.toNat
  let m := storeWord m out.outSmCount 4 d.smCount.toNat
  storeWord m out.outFeaturesBits 4 (featuresBits d.features).toNat

def nexusrtFirmwareDeviceDesc (device : ContextRef → DeviceDescription) (w : HandleState) (ctx : Ptr)
    (out : OutPointers) (m : Bytes.Memory) : Int × Bytes.Memory :=
  match w.registry.find ctx with
  | none => (Status.invalidArgument.code, m)
  | some sp => (0, copyOut (device sp) out m)

section Regions

def regionAt (p : Ptr) (size : ℕ) : List Region :=
  if p ≠ 0 ∧ size ≠ 0 then [⟨p.toNat, size⟩] else []

def writeAt (p : Ptr) (bs : List UInt8) : List Write :=
  if p ≠ 0 ∧ bs.length ≠ 0 then [⟨p.toNat, bs⟩] else []

theorem region_writeAt (p : Ptr) (bs : List UInt8) :
    (writeAt p bs).map Write.region = regionAt p bs.length := by
  unfold writeAt regionAt
  split <;> rfl

namespace OutPointers

def regions (out : OutPointers) : List Region :=
  [(out.outVendor, 4), (out.outArch, 4), (out.outName, out.nameCap.toNat), (out.outHbmBytes, 8),
    (out.outSmCount, 4), (out.outFeaturesBits, 4)].flatMap fun f => regionAt f.1 f.2

def nameBytes (nameCap : UInt64) (name : List UInt8) : List UInt8 :=
  if nameCap = 0 then [] else strncpy name (nameCap.toNat - 1) ++ [0]

def fields (out : OutPointers) (d : DeviceDescription) : List (Ptr × List UInt8) :=
  [(out.outVendor, encode 4 (vendorCode d.vendor).toNat),
    (out.outArch, encode 4 (archCode d.arch).toNat),
    (out.outName, nameBytes out.nameCap d.name),
    (out.outHbmBytes, encode 8 d.hbmCapacityBytes.toNat),
    (out.outSmCount, encode 4 d.smCount.toNat),
    (out.outFeaturesBits, encode 4 (featuresBits d.features).toNat)]

def writes (out : OutPointers) (d : DeviceDescription) : List Write :=
  (out.fields d).flatMap fun f => writeAt f.1 f.2

theorem length_nameBytes (nameCap : UInt64) (name : List UInt8) :
    (nameBytes nameCap name).length = nameCap.toNat := by
  unfold nameBytes
  split
  · next h => rw [h]; rfl
  · next h =>
    have hpos : nameCap.toNat ≠ 0 := fun h0 => h (UInt64.toNat_inj.mp h0)
    simp
    omega

theorem region_writes (out : OutPointers) (d : DeviceDescription) :
    (out.writes d).map Write.region = out.regions := by
  simp only [writes, fields, regions, List.flatMap_cons, List.flatMap_nil, List.map_append,
    List.map_nil, region_writeAt, length_encode, length_nameBytes]

end OutPointers

theorem storeWord_eq (m : Bytes.Memory) (p : Ptr) (size v : ℕ) :
    storeWord m p size v = storeAll m (writeAt p (encode size v)) := by
  unfold storeWord writeAt
  by_cases hp : p = 0
  · simp [hp]
  cases size with
  | zero => simp [hp, encode]
  | succ size => simp [hp]

theorem storeName_eq (m : Bytes.Memory) (p : Ptr) (cap : UInt64) (name : List UInt8) :
    storeName m p cap name = storeAll m (writeAt p (OutPointers.nameBytes cap name)) := by
  unfold storeName writeAt OutPointers.nameBytes
  by_cases hp : p = 0
  · simp [hp]
  by_cases hcap : cap = 0
  · simp [hcap]
  have happend := store_append m p.toNat (strncpy name (cap.toNat - 1)) [0]
  rw [length_strncpy] at happend
  simp [hp, hcap, happend]

theorem copyOut_eq (d : DeviceDescription) (out : OutPointers) (m : Bytes.Memory) :
    copyOut d out m = storeAll m (out.writes d) := by
  simp only [copyOut, OutPointers.writes, OutPointers.fields, List.flatMap_cons, List.flatMap_nil,
    storeWord_eq, storeName_eq, storeAll_append, storeAll_nil]

end Regions

section Copied

def word32 (m : Bytes.Memory) (p : Ptr) : UInt32 := UInt32.ofNat (decode (load m p.toNat 4))

def word64 (m : Bytes.Memory) (p : Ptr) : UInt64 := UInt64.ofNat (decode (load m p.toNat 8))

structure CopiedOut (d : DeviceDescription) (out : OutPointers) (m : Bytes.Memory) : Prop where
  vendor : out.outVendor ≠ 0 → word32 m out.outVendor = vendorCode d.vendor
  arch : out.outArch ≠ 0 → word32 m out.outArch = archCode d.arch
  name : out.outName ≠ 0 → out.nameCap ≠ 0 → load m out.outName.toNat out.nameCap.toNat =
    ((cString d.name).take (out.nameCap.toNat - 1)).rightpad out.nameCap.toNat 0
  hbmBytes : out.outHbmBytes ≠ 0 → word64 m out.outHbmBytes = d.hbmCapacityBytes
  smCount : out.outSmCount ≠ 0 → word32 m out.outSmCount = d.smCount
  featuresBits : out.outFeaturesBits ≠ 0 → word32 m out.outFeaturesBits = featuresBits d.features

variable {d : DeviceDescription} {out : OutPointers} {m : Bytes.Memory}

theorem load_copyOut (hout : out.regions.Pairwise Region.Apart) {p : Ptr} {bs : List UInt8}
    (h : (p, bs) ∈ out.fields d) (hp : p ≠ 0) : load (copyOut d out m) p.toNat bs.length = bs := by
  by_cases hbs : bs.length = 0
  · rw [hbs, List.eq_nil_of_length_eq_zero hbs]
    rfl
  have hmem : (⟨p.toNat, bs⟩ : Write) ∈ out.writes d := by
    refine List.mem_flatMap.mpr ⟨(p, bs), h, ?_⟩
    rw [writeAt, if_pos ⟨hp, hbs⟩]
    exact List.mem_singleton_self _
  rw [copyOut_eq]
  rw [← out.region_writes d] at hout
  exact load_storeAll hout hmem

theorem word32_copyOut (hout : out.regions.Pairwise Region.Apart) {p : Ptr} {v : UInt32}
    (h : (p, encode 4 v.toNat) ∈ out.fields d) (hp : p ≠ 0) : word32 (copyOut d out m) p = v := by
  have hload := load_copyOut (m := m) hout h hp
  rw [length_encode] at hload
  rw [word32, hload, decode_encode 4 v.toNat v.toNat_lt, UInt32.ofNat_toNat]

theorem word64_copyOut (hout : out.regions.Pairwise Region.Apart) {p : Ptr} {v : UInt64}
    (h : (p, encode 8 v.toNat) ∈ out.fields d) (hp : p ≠ 0) : word64 (copyOut d out m) p = v := by
  have hload := load_copyOut (m := m) hout h hp
  rw [length_encode] at hload
  rw [word64, hload, decode_encode 8 v.toNat v.toNat_lt, UInt64.ofNat_toNat]

theorem name_copyOut (hout : out.regions.Pairwise Region.Apart) (hname : out.outName ≠ 0)
    (hcap : out.nameCap ≠ 0) : load (copyOut d out m) out.outName.toNat out.nameCap.toNat =
      ((cString d.name).take (out.nameCap.toNat - 1)).rightpad out.nameCap.toNat 0 := by
  have hmem : (out.outName, OutPointers.nameBytes out.nameCap d.name) ∈ out.fields d := by
    simp [OutPointers.fields]
  have hload := load_copyOut (m := m) hout hmem hname
  have hpos : out.nameCap.toNat - 1 + 1 = out.nameCap.toNat :=
    Nat.sub_add_cancel (Nat.pos_of_ne_zero fun hzero => hcap (UInt64.toNat_inj.mp hzero))
  rw [OutPointers.length_nameBytes] at hload
  rw [hload, OutPointers.nameBytes, if_neg hcap, strncpy_append_zero, hpos]

theorem CopiedOut.cString_name (h : CopiedOut d out m) (hname : out.outName ≠ 0)
    (hcap : out.nameCap ≠ 0) : cString (load m out.outName.toNat out.nameCap.toNat) =
      (cString d.name).take (out.nameCap.toNat - 1) := by
  have hpos : out.nameCap.toNat ≠ 0 := fun hzero => hcap (UInt64.toNat_inj.mp hzero)
  rw [h.name hname hcap, cString_rightpad]
  · exact fun b hb => ne_zero_of_mem_cString (List.mem_of_mem_take hb)
  · rw [List.length_take]
    omega

theorem copyOut_copied (hout : out.regions.Pairwise Region.Apart) : CopiedOut d out (copyOut d out m) where
  vendor := word32_copyOut hout (by simp [OutPointers.fields])
  arch := word32_copyOut hout (by simp [OutPointers.fields])
  name := name_copyOut hout
  hbmBytes := word64_copyOut hout (by simp [OutPointers.fields])
  smCount := word32_copyOut hout (by simp [OutPointers.fields])
  featuresBits := word32_copyOut hout (by simp [OutPointers.fields])

theorem copyOut_outside {a : ℕ} (ha : ∀ r ∈ out.regions, ¬ r.Covers a) : copyOut d out m a = m a := by
  rw [copyOut_eq]
  rw [← out.region_writes d] at ha
  exact storeAll_outside ha

end Copied

theorem device_desc_exact (device : ContextRef → DeviceDescription) (w : HandleState) (ctx : Ptr)
    (out : OutPointers) (m : Bytes.Memory) :
    (w.registry.find ctx = none →
      nexusrtFirmwareDeviceDesc device w ctx out m = (Status.invalidArgument.code, m)) ∧
    ∀ sp, w.registry.find ctx = some sp →
      ∃ m', nexusrtFirmwareDeviceDesc device w ctx out m = (0, m') ∧
        (∀ a, (∀ r ∈ out.regions, ¬ r.Covers a) → m' a = m a) ∧
        (out.regions.Pairwise Region.Apart → CopiedOut (device sp) out m') := by
  unfold nexusrtFirmwareDeviceDesc
  refine ⟨fun h => by rw [h], fun sp h => ⟨copyOut (device sp) out m, by rw [h], ?_, ?_⟩⟩
  · exact fun a ha => copyOut_outside ha
  · exact fun hout => copyOut_copied hout

end NexusRT.Firmware

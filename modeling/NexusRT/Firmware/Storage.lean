import Mathlib.Logic.Function.Basic
import NexusRT.Firmware.Shims
import NexusRT.Library.Splice

namespace NexusRT.Firmware

open Prog Function

inductive StorageCall
  | platform (c : PlatformCall)
  | driver (c : DriverCall)
  | memAllocHost (bytes : UInt64)
  | memFreeHost (p : Ptr)
  | memcpyHtoD (dst src : Ptr) (bytes : UInt64)
  | memcpyDtoH (dst src : Ptr) (bytes : UInt64)
  | fopen (path mode : String)
  | fseek (f : Ptr) (off : Int64)
  | fread (dst : Ptr) (bytes : UInt64) (f : Ptr)
  | fwrite (src : Ptr) (bytes : UInt64) (f : Ptr)
  | fclose (f : Ptr)

/-- A null pointer is no file. The answers to `fseek` and `fclose` are whether they succeeded. -/
abbrev StorageCall.Answer : StorageCall → Type
  | .platform c => c.Answer
  | .driver c => c.Answer
  | .memAllocHost _ => CuResult × Ptr
  | .memFreeHost _ => Unit
  | .memcpyHtoD _ _ _ => CuResult
  | .memcpyDtoH _ _ _ => CuResult
  | .fopen _ _ => Ptr
  | .fseek _ _ => Bool
  | .fread _ _ _ => UInt64
  | .fwrite _ _ _ => UInt64
  | .fclose _ => Bool

abbrev StorageProg := Prog StorageCall StorageCall.Answer

open StorageCall

def seekRead (f : Ptr) (off : UInt64) (dst : Ptr) (bytes : UInt64) : StorageProg UInt64 := do
  let _ ← op (fseek f off.toInt64)
  let got ← op (fread dst bytes f)
  let _ ← op (fclose f)
  return got

def seekWrite (f : Ptr) (off : UInt64) (src : Ptr) (bytes : UInt64) : StorageProg UInt64 := do
  let _ ← op (fseek f off.toInt64)
  let put ← op (fwrite src bytes f)
  let _ ← op (fclose f)
  return put

namespace CudaPlatform

def gdsReadFallback (p : Option CudaState) (path : String) (off : UInt64) (dst : Ptr)
    (bytes : UInt64) : StorageProg (Status × Option CudaState) := do
  let (r, hostBuf) ← op (memAllocHost bytes)
  if r ≠ .success then return (cuToStatus r, p) else
  let f ← op (fopen path "rb")
  if f = 0 then do
    op (memFreeHost hostBuf)
    return (.ioError, p)
  else
  let got ← seekRead f off hostBuf bytes
  if got ≠ bytes then do
    op (memFreeHost hostBuf)
    return (.ioError, p)
  else
  let p ← (state p).translate driver fun _ r => r
  let cr ← op (memcpyHtoD dst hostBuf bytes)
  op (memFreeHost hostBuf)
  return (cuToStatus cr, p)

def gdsWriteFallback (path : String) (off : UInt64) (src : Ptr) (bytes : UInt64) :
    StorageProg Status := do
  let (r, hostBuf) ← op (memAllocHost bytes)
  if r ≠ .success then return cuToStatus r else
  let cr ← op (memcpyDtoH hostBuf src bytes)
  if cr ≠ .success then do
    op (memFreeHost hostBuf)
    return cuToStatus cr
  else
  let f ← op (fopen path "r+b")
  if f = 0 then do
    op (memFreeHost hostBuf)
    return .ioError
  else
  let put ← seekWrite f off hostBuf bytes
  op (memFreeHost hostBuf)
  return if put = bytes then .ok else .ioError

end CudaPlatform

namespace MetalPlatform

def gdsReadFallback (path : String) (off : UInt64) (dst : Ptr) (bytes : UInt64) :
    StorageProg Status := do
  let f ← op (fopen path "rb")
  if f = 0 then return .ioError else
  let got ← seekRead f off dst bytes
  return if got = bytes then .ok else .ioError

def gdsWriteFallback (path : String) (off : UInt64) (src : Ptr) (bytes : UInt64) :
    StorageProg Status := do
  let f ← op (fopen path "r+b")
  if f = 0 then return .ioError else
  let put ← seekWrite f off src bytes
  return if put = bytes then .ok else .ioError

end MetalPlatform

namespace Shim

def gdsReadFallback (path : String) (off : UInt64) (dst : Ptr) (bytes : UInt64) :
    Shim → StorageProg (Status × Shim)
  | .cuda p => do
    let (s, p) ← CudaPlatform.gdsReadFallback p path off dst bytes
    return (s, .cuda p)
  | .metal p => do
    let s ← MetalPlatform.gdsReadFallback path off dst bytes
    return (s, .metal p)

def gdsWriteFallback (path : String) (off : UInt64) (src : Ptr) (bytes : UInt64) :
    Shim → StorageProg (Status × Shim)
  | .cuda p => do
    let s ← CudaPlatform.gdsWriteFallback path off src bytes
    return (s, .cuda p)
  | .metal p => do
    let s ← MetalPlatform.gdsWriteFallback path off src bytes
    return (s, .metal p)

end Shim

def loadBytes (m : Memory) (s : Space) (p : Ptr) (n : ℕ) : List UInt8 :=
  (List.range n).map fun i => m s (p + UInt64.ofNat i)

def storeBytes (m : Memory) (s : Space) (p : Ptr) (data : List UInt8) : Memory := fun s' q =>
  if s' = s then data[(q - p).toNat]?.getD (m s' q) else m s' q

/-- Positions in a file are non-negative numbers of the type `long`. -/
structure FileBytes where
  bytes : List UInt8
  bounded : bytes.length < 2 ^ 63

structure FileStream where
  path : String
  mode : String
  pos : ℕ := 0

/-- To which positions a stream can be moved is up to the file system. The ghost state `lost` is
whether a written file was closed with an error. -/
structure Storage where
  memory : Memory
  files : String → Option FileBytes
  seeks : FileStream → ℕ → Bool
  streams : Ptr → Option FileStream := fun _ => none
  lost : Bool := false

namespace Storage

def seek (w : Storage) (f : Ptr) (s : FileStream) (pos : ℕ) : Storage :=
  { w with streams := update w.streams f (some { s with pos }) }

def copied (w : Storage) (c : Copy) (r : CuResult) : Storage :=
  if r = .success then { w with memory := c.land w.memory } else w

/-- Every call may fail, and reads and writes may stop early. A seek that fails leaves the position
unchanged. A file that was written and closed with an error may hold anything. Calls that have no
place in the fallbacks are left open. -/
def Serves : (c : StorageCall) → Storage → c.Answer → Storage → Prop
  | .platform _, _, _, _ => True
  | .driver c, w, _, w' => c = .retainContext → w' = w
  | .memAllocHost _, w, _, w' => w' = w
  | .memFreeHost _, w, _, w' => w' = w
  | .memcpyHtoD dst src bytes, w, r, w' => w' = w.copied ⟨0, .device, dst, .host, src, bytes⟩ r
  | .memcpyDtoH dst src bytes, w, r, w' => w' = w.copied ⟨0, .host, dst, .device, src, bytes⟩ r
  | .fopen path mode, w, f, w' => (f = 0 ∧ w' = w) ∨
    (f ≠ 0 ∧ w.streams f = none ∧ w.files path ≠ none ∧ w' = w.seek f { path, mode } 0)
  | .fseek f off, w, moved, w' => ∀ s, w.streams f = some s →
    moved = (decide (0 ≤ off.toInt) && w.seeks s off.toInt.toNat) ∧
      w' = if moved then w.seek f s off.toInt.toNat else w
  | .fread dst bytes f, w, got, w' => ∀ s c, w.streams f = some s → w.files s.path = some c →
    got ≤ bytes ∧ (slice c.bytes s.pos got.toNat).length = got.toNat ∧
      w' = { w.seek f s (s.pos + got.toNat) with
        memory := storeBytes w.memory .host dst (slice c.bytes s.pos got.toNat) }
  | .fwrite src bytes f, w, put, w' => ∀ s c, w.streams f = some s → w.files s.path = some c →
    put ≤ bytes ∧ ∃ c' : FileBytes,
      c'.bytes = splice 0 c.bytes s.pos (loadBytes w.memory .host src put.toNat) ∧
      w' = { w.seek f s (s.pos + put.toNat) with files := update w.files s.path (some c') }
  | .fclose f, w, closed, w' => ∀ s, w.streams f = some s →
    if closed = true ∨ s.mode = "rb" then w' = { w with streams := update w.streams f none } else
      ∃ c' : FileBytes, w' = { w with
        streams := update w.streams f none
        files := update w.files s.path (some c')
        lost := true }

def seekTo (w : Storage) (path mode : String) (off : UInt64) : ℕ :=
  if off.toNat < 2 ^ 63 ∧ w.seeks { path, mode } off.toNat = true then off.toNat else 0

/-- A file that was just opened is at its start already. -/
def Reaches (w : Storage) (path mode : String) (off : UInt64) : Prop :=
  off = 0 ∨ off.toNat < 2 ^ 63 ∧ w.seeks { path, mode } off.toNat = true

instance (w : Storage) (path mode : String) (off : UInt64) : Decidable (w.Reaches path mode off) :=
  inferInstanceAs (Decidable (_ ∨ _ ∧ _))

theorem seekTo_eq (w : Storage) (path mode : String) (off : UInt64) :
    w.seekTo path mode off = if w.Reaches path mode off then off.toNat else 0 := by
  by_cases hzero : off = 0
  · subst hzero
    rw [seekTo, UInt64.toNat_zero]
    split <;> split <;> rfl
  · simp only [seekTo, Reaches, hzero, false_or]

end Storage

theorem toInt_long (off : UInt64) :
    off.toInt64.toInt = if off.toNat < 2 ^ 63 then (off.toNat : ℤ) else off.toNat - 2 ^ 64 := by
  have h := BitVec.toInt_eq_toNat_cond off.toBitVec
  change off.toInt64.toInt = if 2 * off.toNat < 2 ^ 64 then (off.toNat : ℤ) else _ at h
  rw [h]
  split
  · rw [if_pos (by omega)]
  · rw [if_neg (by omega)]
    rfl

section Bytes

variable {m : Memory} {s s' : Space} {p q : Ptr}

@[simp] theorem length_loadBytes (m : Memory) (s : Space) (p : Ptr) (n : ℕ) : (loadBytes m s p n).length = n := by
  simp [loadBytes]

theorem toNat_offset (p : Ptr) {i : ℕ} (hi : i < 2 ^ 64) : (p + UInt64.ofNat i - p).toNat = i := by
  rw [UInt64.add_comm, UInt64.add_sub_cancel]
  exact UInt64.toNat_ofNat_of_lt' hi

theorem loadBytes_storeBytes (m : Memory) (s : Space) (p : Ptr) {data : List UInt8}
    (hdata : data.length ≤ 2 ^ 64) : loadBytes (storeBytes m s p data) s p data.length = data := by
  apply List.ext_getElem
  · simp
  · intro i _ hi
    simp only [loadBytes, List.getElem_map, List.getElem_range, storeBytes, ↓reduceIte]
    rw [toNat_offset p (by omega), List.getElem?_eq_getElem hi, Option.getD_some]

theorem storeBytes_frame {data : List UInt8} (h : s' = s → data.length ≤ (q - p).toNat) :
    storeBytes m s p data s' q = m s' q := by
  rw [storeBytes]
  split
  · next hs => rw [List.getElem?_eq_none (h hs), Option.getD_none]
  · rfl

theorem loadBytes_land (m : Memory) (c : Copy) :
    loadBytes (c.land m) c.dstSpace c.dst c.bytes.toNat = loadBytes m c.srcSpace c.src c.bytes.toNat := by
  apply List.map_congr_left
  intro i hi
  have hlt := List.mem_range.mp hi
  have hoff := toNat_offset c.dst (Nat.lt_trans hlt c.bytes.toNat_lt)
  rw [Copy.land, if_pos ⟨rfl, UInt64.lt_iff_toNat_lt.mpr (by rw [hoff]; exact hlt)⟩]
  rw [UInt64.add_comm c.dst, UInt64.add_sub_cancel]

theorem land_frame {c : Copy} (h : s = c.dstSpace → c.bytes ≤ q - c.dst) :
    c.land m s q = m s q := by
  rw [Copy.land, if_neg]
  rintro ⟨hs, hlt⟩
  exact absurd hlt (UInt64.not_lt.mpr (h hs))

end Bytes

structure ReadFrom (w w' : Storage) (path : String) (c : FileBytes) (pos : ℕ) (space : Space)
    (dst : Ptr) (bytes : UInt64) : Prop where
  found : w.files path = some c
  files : w'.files = w.files
  data : loadBytes w'.memory space dst bytes.toNat = slice c.bytes pos bytes.toNat
  frame : ∀ q, bytes ≤ q - dst → w'.memory space q = w.memory space q

structure WrittenTo (w w' : Storage) (path : String) (c c' : FileBytes) (pos : ℕ) (space : Space)
    (src : Ptr) (bytes : UInt64) : Prop where
  found : w.files path = some c
  files : w'.files = update w.files path (some c')
  data : c'.bytes = splice 0 c.bytes pos (loadBytes w.memory space src bytes.toNat)

section Streams

variable {w w' : Storage} {f : Ptr} {off : UInt64} {path mode : String} {c : FileBytes}

@[simp] theorem Storage.seek_streams (w : Storage) (f : Ptr) (s : FileStream) (pos : ℕ) :
    (w.seek f s pos).streams f = some { s with pos } := update_self ..

@[simp] theorem Storage.seek_files (w : Storage) (f : Ptr) (s : FileStream) (pos : ℕ) :
    (w.seek f s pos).files = w.files := rfl

@[simp] theorem Storage.seek_memory (w : Storage) (f : Ptr) (s : FileStream) (pos : ℕ) :
    (w.seek f s pos).memory = w.memory := rfl

theorem fopen_spec {path mode : String} (hf : f ≠ 0) (h : Storage.Serves (.fopen path mode) w f w') :
    ∃ c, w.files path = some c ∧ w' = w.seek f { path, mode } 0 := by
  rcases h with ⟨hnull, _⟩ | ⟨_, _, hfound, hw⟩
  · exact absurd hnull hf
  · obtain ⟨c, hc⟩ := Option.ne_none_iff_exists'.mp hfound
    exact ⟨c, hc, hw⟩

theorem seek_long (hs : w.streams f = some { path, mode }) :
    (if (decide (0 ≤ off.toInt64.toInt) && w.seeks { path, mode } off.toInt64.toInt.toNat) = true then
        w.seek f { path, mode } off.toInt64.toInt.toNat
      else w) = w.seek f { path, mode } (w.seekTo path mode off) := by
  have hstay : w = w.seek f { path, mode } 0 := by rw [Storage.seek, ← hs, update_eq_self]
  rw [toInt_long, Storage.seekTo]
  by_cases hsmall : off.toNat < 2 ^ 63
  · simp only [hsmall, ↓reduceIte, Int.natCast_nonneg, decide_true, Bool.true_and, Int.toNat_natCast,
      true_and]
    split
    · rfl
    · exact hstay
  · have hneg : ¬ (0 : ℤ) ≤ off.toNat - 2 ^ 64 := by
      have := off.toNat_lt
      omega
    simp only [hsmall, ↓reduceIte, hneg, decide_false, Bool.false_and, Bool.false_eq_true, false_and]
    exact hstay

theorem fseek_spec {moved : Bool} (hs : w.streams f = some { path, mode })
    (h : Storage.Serves (.fseek f off.toInt64) w moved w') :
    w' = w.seek f { path, mode } (w.seekTo path mode off) := by
  obtain ⟨rfl, rfl⟩ := h _ hs
  exact seek_long hs

theorem fseek_serves (hs : w.streams f = some { path, mode }) : Storage.Serves (.fseek f off.toInt64) w
    (decide (0 ≤ off.toInt64.toInt) && w.seeks { path, mode } off.toInt64.toInt.toNat)
    (w.seek f { path, mode } (w.seekTo path mode off)) := by
  intro s hs'
  rw [hs] at hs'
  cases hs'
  exact ⟨rfl, (seek_long hs).symm⟩

theorem seekRead_spec {dst : Ptr} {bytes got : UInt64} (hs : w.streams f = some { path, mode := "rb" })
    (hc : w.files path = some c) (h : Exec Storage.Serves (seekRead f off dst bytes) w got w') :
    ReadFrom w w' path c (w.seekTo path "rb" off) .host dst got ∧
      w'.memory .device = w.memory .device := by
  rw [seekRead, exec_op_bind] at h
  obtain ⟨moved, _, hseek, h⟩ := h
  obtain rfl := fseek_spec hs hseek
  rw [exec_op_bind] at h
  obtain ⟨got', w₁, hread, closed, w₂, hclose, rfl, rfl⟩ := h
  obtain ⟨_, hlength, rfl⟩ := hread _ c (Storage.seek_streams ..) hc
  have hclosed := hclose _ (Storage.seek_streams ..)
  rw [if_pos (.inr rfl)] at hclosed
  subst hclosed
  refine ⟨⟨hc, rfl, ?_, fun q hq => ?_⟩, rfl⟩
  · have hstored := loadBytes_storeBytes w.memory .host dst (hlength.trans_le (Nat.le_of_lt got.toNat_lt))
    rwa [hlength] at hstored
  · have hout := hlength.trans_le (UInt64.le_iff_toNat_le.mp hq)
    have hkept : storeBytes w.memory .host dst
        (slice c.bytes (w.seekTo path "rb" off) got.toNat) .host q = w.memory .host q :=
      storeBytes_frame fun _ => hout
    exact hkept

theorem seekWrite_spec {src : Ptr} {bytes put : UInt64} (hs : w.streams f = some { path, mode })
    (hc : w.files path = some c) (h : Exec Storage.Serves (seekWrite f off src bytes) w put w')
    (hlost : w'.lost = false) :
    ∃ c', WrittenTo w w' path c c' (w.seekTo path mode off) .host src put := by
  rw [seekWrite, exec_op_bind] at h
  obtain ⟨moved, _, hseek, h⟩ := h
  obtain rfl := fseek_spec hs hseek
  rw [exec_op_bind] at h
  obtain ⟨put', w₁, hwrite, closed, w₂, hclose, rfl, rfl⟩ := h
  obtain ⟨_, c', hc', rfl⟩ := hwrite _ c (Storage.seek_streams ..) hc
  have hclosed := hclose _ (Storage.seek_streams ..)
  split at hclosed
  · subst hclosed
    exact ⟨c', hc, rfl, hc'⟩
  · obtain ⟨_, rfl⟩ := hclosed
    cases hlost

end Streams

section Fallbacks

variable {w w' : Storage} {path : String} {off : UInt64} {p : Ptr} {bytes : UInt64}

theorem cudaState_kept {s s' : Option CudaState}
    (h : Exec Storage.Serves ((CudaPlatform.state s).translate driver fun _ r => r) w s' w') :
    w' = w := by
  cases s with
  | some s => exact h.2
  | none =>
    obtain ⟨⟨r, primary⟩, _, hretain, h⟩ := h
    obtain rfl := hretain rfl
    by_cases hr : r = .success
    · subst hr
      exact h.2
    · dsimp only [Prog.bind] at h
      rw [if_pos hr] at h
      exact h.2

theorem cudaRead_spec {s s' : Option CudaState}
    (h : Exec Storage.Serves (CudaPlatform.gdsReadFallback s path off p bytes) w (.ok, s') w') :
    ∃ c, ReadFrom w w' path c (w.seekTo path "rb" off) .device p bytes := by
  rw [CudaPlatform.gdsReadFallback, exec_op_bind] at h
  obtain ⟨⟨r, hostBuf⟩, w, rfl, h⟩ := h
  dsimp only at h
  by_cases hr : r = .success
  · subst hr
    rw [if_neg (not_not.mpr rfl), exec_op_bind] at h
    obtain ⟨f, w₁, hopen, h⟩ := h
    by_cases hf : f = 0
    · rw [if_pos hf] at h
      obtain ⟨_, _, _, hs, _⟩ := h
      cases hs
    · rw [if_neg hf, exec_bind] at h
      obtain ⟨got, w₂, hread, h⟩ := h
      obtain ⟨c, hc, rfl⟩ := fopen_spec hf hopen
      have hopened := w.seek_streams f { path, mode := "rb" } 0
      obtain ⟨hbuffer, hdevice⟩ := seekRead_spec hopened hc hread
      by_cases hgot : got = bytes
      · subst hgot
        rw [if_neg (not_not.mpr rfl), exec_bind] at h
        obtain ⟨s₁, _, hstate, cr, w₃, hcopy, _, _, rfl, hs, rfl⟩ := h
        obtain rfl := cudaState_kept hstate
        have hcr := CudaPlatform.cuToStatus_eq_ok.mp (Prod.mk.inj hs).1.symm
        subst hcr
        obtain rfl := hcopy
        refine ⟨c, hc, hbuffer.files, ?_, fun q hq => ?_⟩
        · exact (loadBytes_land _ ⟨0, .device, p, .host, hostBuf, got⟩).trans hbuffer.data
        · refine (land_frame fun _ => hq).trans ?_
          exact congrFun hdevice q
      · rw [if_pos hgot] at h
        obtain ⟨_, _, _, hs, _⟩ := h
        cases hs
  · rw [if_pos hr] at h
    exact absurd (CudaPlatform.cuToStatus_eq_ok.mp (Prod.mk.inj h.1).1.symm) hr

theorem metalRead_spec
    (h : Exec Storage.Serves (MetalPlatform.gdsReadFallback path off p bytes) w .ok w') :
    ∃ c, ReadFrom w w' path c (w.seekTo path "rb" off) .host p bytes := by
  rw [MetalPlatform.gdsReadFallback, exec_op_bind] at h
  obtain ⟨f, w₁, hopen, h⟩ := h
  by_cases hf : f = 0
  · rw [if_pos hf] at h
    cases h.1
  · rw [if_neg hf, exec_bind] at h
    obtain ⟨got, w₂, hread, hs, rfl⟩ := h
    obtain ⟨c, hc, rfl⟩ := fopen_spec hf hopen
    obtain ⟨hbuffer, _⟩ := seekRead_spec (w.seek_streams f { path, mode := "rb" } 0) hc hread
    split at hs
    · next hgot =>
      subst hgot
      exact ⟨c, hc, hbuffer.files, hbuffer.data, hbuffer.frame⟩
    · cases hs

theorem cudaWrite_spec
    (h : Exec Storage.Serves (CudaPlatform.gdsWriteFallback path off p bytes) w .ok w')
    (hlost : w'.lost = false) :
    ∃ c c', WrittenTo w w' path c c' (w.seekTo path "r+b" off) .device p bytes := by
  rw [CudaPlatform.gdsWriteFallback, exec_op_bind] at h
  obtain ⟨⟨r, hostBuf⟩, w, rfl, h⟩ := h
  dsimp only at h
  by_cases hr : r = .success
  · subst hr
    rw [if_neg (not_not.mpr rfl), exec_op_bind] at h
    obtain ⟨cr, w₁, hcopy, h⟩ := h
    by_cases hcr : cr = .success
    · subst hcr
      rw [if_neg (not_not.mpr rfl), exec_op_bind] at h
      obtain ⟨f, w₂, hopen, h⟩ := h
      by_cases hf : f = 0
      · rw [if_pos hf] at h
        obtain ⟨_, _, _, hs, _⟩ := h
        cases hs
      · rw [if_neg hf, exec_bind] at h
        obtain ⟨put, w₃, hwrite, _, _, rfl, hs, rfl⟩ := h
        obtain ⟨c, hc, rfl⟩ := fopen_spec hf hopen
        have hopened := w₁.seek_streams f { path, mode := "r+b" } 0
        obtain ⟨c', hwritten⟩ := seekWrite_spec hopened hc hwrite hlost
        split at hs
        · next hput =>
          subst hput
          subst hcopy
          refine ⟨c, c', hc, hwritten.files, hwritten.data.trans ?_⟩
          exact congrArg _ (loadBytes_land w.memory ⟨0, .host, hostBuf, .device, p, put⟩)
        · cases hs
    · rw [if_pos hcr] at h
      obtain ⟨_, _, _, hs, _⟩ := h
      exact absurd (CudaPlatform.cuToStatus_eq_ok.mp hs.symm) hcr
  · rw [if_pos hr] at h
    exact absurd (CudaPlatform.cuToStatus_eq_ok.mp h.1.symm) hr

theorem metalWrite_spec
    (h : Exec Storage.Serves (MetalPlatform.gdsWriteFallback path off p bytes) w .ok w')
    (hlost : w'.lost = false) :
    ∃ c c', WrittenTo w w' path c c' (w.seekTo path "r+b" off) .host p bytes := by
  rw [MetalPlatform.gdsWriteFallback, exec_op_bind] at h
  obtain ⟨f, w₁, hopen, h⟩ := h
  by_cases hf : f = 0
  · rw [if_pos hf] at h
    cases h.1
  · rw [if_neg hf, exec_bind] at h
    obtain ⟨put, w₂, hwrite, hs, rfl⟩ := h
    obtain ⟨c, hc, rfl⟩ := fopen_spec hf hopen
    obtain ⟨c', hwritten⟩ := seekWrite_spec (w.seek_streams f { path, mode := "r+b" } 0) hc hwrite hlost
    split at hs
    · next hput =>
      subst hput
      exact ⟨c, c', hc, hwritten.files, hwritten.data⟩
    · cases hs

theorem read_spec {shim shim' : Shim}
    (h : Exec Storage.Serves (shim.gdsReadFallback path off p bytes) w (.ok, shim') w') :
    ∃ c, ReadFrom w w' path c (w.seekTo path "rb" off) (shim.locate .device) p bytes := by
  cases shim with
  | cuda s =>
    rw [Shim.gdsReadFallback, exec_bind] at h
    obtain ⟨⟨st, s'⟩, _, h, hs, rfl⟩ := h
    obtain ⟨rfl, _⟩ := Prod.mk.inj hs
    exact cudaRead_spec h
  | metal s =>
    rw [Shim.gdsReadFallback, exec_bind] at h
    obtain ⟨st, _, h, hs, rfl⟩ := h
    obtain ⟨rfl, _⟩ := Prod.mk.inj hs
    exact metalRead_spec h

theorem write_spec {shim shim' : Shim}
    (h : Exec Storage.Serves (shim.gdsWriteFallback path off p bytes) w (.ok, shim') w')
    (hlost : w'.lost = false) :
    ∃ c c', WrittenTo w w' path c c' (w.seekTo path "r+b" off) (shim.locate .device) p bytes := by
  cases shim with
  | cuda s =>
    rw [Shim.gdsWriteFallback, exec_bind] at h
    obtain ⟨st, _, h, hs, rfl⟩ := h
    obtain ⟨rfl, _⟩ := Prod.mk.inj hs
    exact cudaWrite_spec h hlost
  | metal s =>
    rw [Shim.gdsWriteFallback, exec_bind] at h
    obtain ⟨st, _, h, hs, rfl⟩ := h
    obtain ⟨rfl, _⟩ := Prod.mk.inj hs
    exact metalWrite_spec h hlost

end Fallbacks

section Region

variable {w w' : Storage} {path : String} {c c' : FileBytes} {off : UInt64} {space : Space} {p : Ptr}
  {bytes : UInt64}

theorem toNat_ne_zero {x : UInt64} (h : x ≠ 0) : x.toNat ≠ 0 := fun hzero =>
  h (UInt64.toNat_inj.mp hzero)

theorem WrittenTo.region_iff {mode : String}
    (h : WrittenTo w w' path c c' (w.seekTo path mode off) space p bytes) :
    Written 0 c.bytes off.toNat (loadBytes w.memory space p bytes.toNat) c'.bytes ↔
      bytes = 0 ∨ w.Reaches path mode off ∨
        Coincides c.bytes (loadBytes w.memory space p bytes.toNat) off.toNat := by
  rw [h.data, Storage.seekTo_eq]
  by_cases hpos : bytes = 0
  · subst hpos
    exact iff_of_true (written_splice 0 c.bytes off.toNat []) (.inl rfl)
  · by_cases hreach : w.Reaches path mode off
    · rw [if_pos hreach]
      exact iff_of_true (written_splice 0 c.bytes off.toNat _) (.inr (.inl hreach))
    · have hne : loadBytes w.memory space p bytes.toNat ≠ [] := by
        rw [ne_eq, ← List.length_eq_zero_iff, length_loadBytes]
        exact toNat_ne_zero hpos
      have hoff : off.toNat ≠ 0 := toNat_ne_zero fun hzero => hreach (.inl hzero)
      rw [if_neg hreach, written_start_iff hne hoff]
      simp only [hpos, hreach, false_or]

theorem ReadFrom.region_iff {mode : String}
    (h : ReadFrom w w' path c (w.seekTo path mode off) space p bytes) :
    loadBytes w'.memory space p bytes.toNat = slice c.bytes off.toNat bytes.toNat ↔
      bytes = 0 ∨ w.Reaches path mode off ∨
        slice c.bytes 0 bytes.toNat = slice c.bytes off.toNat bytes.toNat := by
  rw [h.data, Storage.seekTo_eq]
  by_cases hpos : bytes = 0
  · subst hpos
    exact iff_of_true rfl (.inl rfl)
  · by_cases hreach : w.Reaches path mode off
    · rw [if_pos hreach]
      exact iff_of_true rfl (.inr (.inl hreach))
    · rw [if_neg hreach]
      simp only [hpos, hreach, false_or]

theorem WrittenTo.read_back {w₁ w₂ : Storage} {c₁ : FileBytes} {space' : Space} {dst : Ptr}
    {mode mode' : String} (h : WrittenTo w w' path c c' (w.seekTo path mode off) space p bytes)
    (hsame : w₁.files path = w'.files path) (hreach : w₁.Reaches path mode' off ↔ w.Reaches path mode off)
    (hread : ReadFrom w₁ w₂ path c₁ (w₁.seekTo path mode' off) space' dst bytes) :
    loadBytes w₂.memory space' dst bytes.toNat = loadBytes w.memory space p bytes.toNat := by
  have hc₁ : some c₁ = some c' := by rw [← hread.found, hsame, h.files, update_self]
  obtain rfl := Option.some_inj.mp hc₁
  have hpos : w₁.seekTo path mode' off = w.seekTo path mode off := by
    simp only [Storage.seekTo_eq, hreach]
  have hback := (written_splice 0 c.bytes (w.seekTo path mode off)
    (loadBytes w.memory space p bytes.toNat)).slice_eq
  rw [hread.data, h.data, hpos]
  rwa [length_loadBytes] at hback

end Region

theorem gdsFallback_region (shim shim' : Shim) (path : String) (off : UInt64) (p : Ptr) (bytes : UInt64)
    (w w' : Storage) :
    (Exec Storage.Serves (shim.gdsWriteFallback path off p bytes) w (.ok, shim') w' →
      w'.lost = false → ∃ c c', w.files path = some c ∧ w'.files = update w.files path (some c') ∧
        (Written 0 c.bytes off.toNat (loadBytes w.memory (shim.locate .device) p bytes.toNat) c'.bytes ↔
          bytes = 0 ∨ w.Reaches path "r+b" off ∨ Coincides c.bytes
            (loadBytes w.memory (shim.locate .device) p bytes.toNat) off.toNat) ∧
        ∀ (shim₁ shim₂ : Shim) (dst : Ptr) (w₁ w₂ : Storage), w₁.files path = w'.files path →
          (w₁.Reaches path "rb" off ↔ w.Reaches path "r+b" off) →
          Exec Storage.Serves (shim₁.gdsReadFallback path off dst bytes) w₁ (.ok, shim₂) w₂ →
          loadBytes w₂.memory (shim₁.locate .device) dst bytes.toNat =
            loadBytes w.memory (shim.locate .device) p bytes.toNat) ∧
    (Exec Storage.Serves (shim.gdsReadFallback path off p bytes) w (.ok, shim') w' →
      ∃ c, w.files path = some c ∧ w'.files = w.files ∧
        (∀ q, bytes ≤ q - p →
          w'.memory (shim.locate .device) q = w.memory (shim.locate .device) q) ∧
        (loadBytes w'.memory (shim.locate .device) p bytes.toNat = slice c.bytes off.toNat bytes.toNat ↔
          bytes = 0 ∨ w.Reaches path "rb" off ∨
            slice c.bytes 0 bytes.toNat = slice c.bytes off.toNat bytes.toNat)) := by
  constructor
  · intro hwrite hlost
    obtain ⟨c, c', hwritten⟩ := write_spec hwrite hlost
    refine ⟨c, c', hwritten.found, hwritten.files, hwritten.region_iff, ?_⟩
    intro shim₁ shim₂ dst w₁ w₂ hsame hreach hread
    obtain ⟨c₁, hback⟩ := read_spec hread
    exact hwritten.read_back hsame hreach hback
  · intro hread
    obtain ⟨c, hback⟩ := read_spec hread
    exact ⟨c, hback.found, hback.files, hback.frame, hback.region_iff⟩

theorem metalWrite_succeeds (m : Option MetalState) (w : Storage) (path : String) (off : UInt64)
    (p : Ptr) (bytes : UInt64) {c c' : FileBytes} (hc : w.files path = some c) (hfree : w.streams 1 = none)
    (hc' : c'.bytes =
      splice 0 c.bytes (w.seekTo path "r+b" off) (loadBytes w.memory .host p bytes.toNat)) :
    ∃ w' : Storage, w'.lost = w.lost ∧ Exec Storage.Serves
      ((Shim.metal m).gdsWriteFallback path off p bytes) w (.ok, .metal m) w' := by
  let opened := w.seek 1 { path, mode := "r+b" } 0
  let pos := w.seekTo path "r+b" off
  let moved := opened.seek 1 { path, mode := "r+b" } pos
  let written : Storage :=
    { moved.seek 1 { path, mode := "r+b", pos } (pos + bytes.toNat) with
      files := update w.files path (some c') }
  let closed : Storage := { written with streams := update written.streams 1 none }
  refine ⟨closed, rfl, ?_⟩
  rw [Shim.gdsWriteFallback, exec_bind]
  refine ⟨.ok, closed, ?_, rfl, rfl⟩
  rw [MetalPlatform.gdsWriteFallback, exec_op_bind]
  have hnull : (1 : Ptr) ≠ 0 := by decide
  refine ⟨1, opened, .inr ⟨hnull, hfree, by simp [hc], rfl⟩, ?_⟩
  rw [if_neg hnull, exec_bind]
  refine ⟨bytes, closed, ?_, (if_pos rfl).symm, rfl⟩
  rw [seekWrite, exec_op_bind]
  refine ⟨_, moved, fseek_serves (Storage.seek_streams ..), bytes, written, ?_, true, closed, ?_,
    rfl, rfl⟩
  · intro s c₁ hs hc₁
    obtain rfl := Option.some_inj.mp ((Storage.seek_streams ..).symm.trans hs)
    obtain rfl := Option.some_inj.mp (hc.symm.trans hc₁)
    exact ⟨UInt64.le_refl _, c', hc', rfl⟩
  · intro s _
    rw [if_pos (Or.inl rfl)]

def threeBytes : FileBytes where
  bytes := [1, 2, 3]
  bounded := by decide

def threeByteFile : Storage where
  memory := fun _ _ => 5
  files := fun _ => some threeBytes
  seeks := fun _ pos => pos < 2 ^ 44

theorem gdsFallback_region_threeBytes : ∃ w' c',
    Exec Storage.Serves ((Shim.metal none).gdsWriteFallback "data" 1 0x2000 2) threeByteFile
      (.ok, .metal none) w' ∧
    w'.files "data" = some c' ∧ Written 0 threeBytes.bytes 1 [5, 5] c'.bytes := by
  have hresult : (⟨[1, 5, 5], by decide⟩ : FileBytes).bytes = splice 0 threeBytes.bytes
      (threeByteFile.seekTo "data" "r+b" 1) (loadBytes threeByteFile.memory .host 0x2000 2) := by decide
  obtain ⟨w', hlost, hexec⟩ := metalWrite_succeeds none threeByteFile "data" 1 0x2000 2 rfl rfl hresult
  obtain ⟨c, c', hc, hfiles, hiff, _⟩ := (gdsFallback_region _ _ _ _ _ _ _ _).1 hexec hlost
  obtain rfl := Option.some_inj.mp (show some threeBytes = some c from hc)
  exact ⟨w', c', hexec, by rw [hfiles, update_self], hiff.mpr (.inr (.inl (by decide)))⟩

theorem gdsWrite_misplaced : ¬ ∀ (shim shim' : Shim) (path : String) (off : UInt64) (p : Ptr)
    (bytes : UInt64) (w w' : Storage),
    Exec Storage.Serves (shim.gdsWriteFallback path off p bytes) w (.ok, shim') w' →
      w'.lost = false → ∃ c c', w.files path = some c ∧ w'.files = update w.files path (some c') ∧
        Written 0 c.bytes off.toNat (loadBytes w.memory (shim.locate .device) p bytes.toNat) c'.bytes := by
  intro hall
  let file : Storage := { threeByteFile with seeks := fun _ _ => true }
  have hresult : (⟨[5, 2, 3], by decide⟩ : FileBytes).bytes = splice 0 threeBytes.bytes
      (file.seekTo "data" "r+b" 0x8000000000000000) (loadBytes file.memory .host 0x2000 1) := by decide
  obtain ⟨w', hlost, hexec⟩ :=
    metalWrite_succeeds none file "data" 0x8000000000000000 0x2000 1 rfl rfl hresult
  obtain ⟨c, c', _, _, hwritten⟩ := hall _ _ _ _ _ _ _ _ hexec hlost
  have hend := hwritten.le (by decide)
  have hbound := c'.bounded
  rw [length_loadBytes] at hend
  have hoff : (0x8000000000000000 : UInt64).toNat = 2 ^ 63 := by decide
  omega

end NexusRT.Firmware

import Mathlib.Data.List.Sort
import NexusRT.Library.Align
import NexusRT.Library.Table
import NexusRT.Types

namespace NexusRT.Memory

inductive PageResidency
  | unmapped | hbm | hostPinned | hostPageable | remoteGpu | spilled
  deriving DecidableEq, Repr

inductive EvictionPolicy
  | lru | lruRefcount | arc
  deriving DecidableEq, Repr

structure PageEntry where
  vaddr : UInt64 := 0
  physOrHost : UInt64 := 0
  pageSizeKb : UInt32 := 64
  refcount : UInt16 := 0
  residency : PageResidency := .unmapped
  lastAccessNs : UInt64 := 0
  fetchCount : UInt64 := 0
  deriving DecidableEq, Repr

/-- `arch` and `hbmPoolBytes` are read from the context. -/
structure PageTableManager where
  arch : Arch := .unknown
  hbmPoolBytes : UInt64 := 0
  table : Table UInt64 PageEntry := .empty

structure Cand where
  vaddr : UInt64
  lastAccess : UInt64
  refcount : UInt16

/-- `std::sort`: it need not be stable. -/
structure StdSort (α : Type) (lt : α → α → Bool) where
  sort : List α → List α
  perm : ∀ l, (sort l).Perm l
  sorted : ∀ l, (sort l).Pairwise (fun a b => lt b a = false)

namespace PageTableManager

def defaultPageKb (t : PageTableManager) : UInt32 := if t.arch = .hopper then 128 else 64

def pageBytes (t : PageTableManager) : UInt64 := (t.defaultPageKb * 1024).toUInt64

def pageBase (t : PageTableManager) (vaddr : UInt64) : UInt64 := vaddr &&& ~~~(t.pageBytes - 1)

def pages (t : PageTableManager) (vaddr bytes : UInt64) : List UInt64 :=
  Align.blocks t.pageBytes vaddr bytes

/-- `now a` is the time at which the entry of the page `a` is made. -/
def mapRange (t : PageTableManager) (vaddr bytes : UInt64) (res : PageResidency)
    (physOrHost : UInt64) (now : UInt64 → UInt64) : Status × PageTableManager :=
  let entry (a : UInt64) : PageEntry :=
    { vaddr := a, physOrHost := physOrHost + (a - t.pageBase vaddr), pageSizeKb := t.defaultPageKb,
      refcount := 0, residency := res, lastAccessNs := now a, fetchCount := 1 }
  (.ok, { t with table := (t.pages vaddr bytes).foldl (fun tab a => tab.insert a (entry a)) t.table })

def update (t : PageTableManager) (a : UInt64) (f : PageEntry → PageEntry) : PageTableManager :=
  { t with table := t.table.modify a f }

def unmapPages : List UInt64 → PageTableManager → Status × PageTableManager
  | [], t => (.ok, t)
  | a :: as, t => match t.table.find a with
    | none => unmapPages as t
    | some e =>
      if 0 < e.refcount then (.contractViolation, t)
      else unmapPages as { t with table := t.table.erase a }

def unmapRange (t : PageTableManager) (vaddr bytes : UInt64) : Status × PageTableManager :=
  unmapPages (t.pages vaddr bytes) t

def incref (t : PageTableManager) (vaddr now : UInt64) : Status × PageTableManager :=
  let a := t.pageBase vaddr
  match t.table.find a with
  | none => (.invalidArgument, t)
  | some e =>
    if e.refcount = 0xFFFF then (.invalidArgument, t)
    else (.ok, t.update a (fun e => { e with refcount := e.refcount + 1, lastAccessNs := now }))

def decref (t : PageTableManager) (vaddr now : UInt64) : Status × PageTableManager :=
  let a := t.pageBase vaddr
  match t.table.find a with
  | none => (.invalidArgument, t)
  | some e =>
    if e.refcount = 0 then (.invalidArgument, t)
    else (.ok, t.update a (fun e => { e with refcount := e.refcount - 1, lastAccessNs := now }))

def lookup (t : PageTableManager) (vaddr : UInt64) : Option PageEntry :=
  t.table.find (t.pageBase vaddr)

def totalPages (t : PageTableManager) : UInt64 := UInt64.ofNat t.table.size

def residentHbmPages (t : PageTableManager) : UInt64 :=
  UInt64.ofNat (t.table.count (fun e => e.residency = .hbm))

def cands (t : PageTableManager) : List Cand :=
  t.table.entries.filterMap (fun (a, e) =>
    if e.residency ≠ .hbm then none
    else if 0 < e.refcount then none
    else some ⟨a, e.lastAccessNs, e.refcount⟩)

def evictCands (low : UInt64) : List Cand → UInt64 → UInt32 → PageTableManager →
    UInt32 × PageTableManager
  | [], _, evicted, t => (evicted, t)
  | c :: cs, resident, evicted, t =>
    if resident ≤ low then (evicted, t) else
    match t.table.find c.vaddr with
    | none => evictCands low cs resident evicted t
    | some _ => evictCands low cs (resident - 1) (evicted + 1)
      (t.update c.vaddr (fun e => { e with residency := .spilled, fetchCount := e.fetchCount + 1 }))

def evictUntil (std : StdSort Cand (fun x y => x.lastAccess < y.lastAccess)) (t : PageTableManager)
    (highPct lowPct : UInt32) (pol : EvictionPolicy) : UInt32 × PageTableManager :=
  let totalHbmPages := t.hbmPoolBytes / t.pageBytes
  let resident := t.residentHbmPages
  let high := totalHbmPages * highPct.toUInt64 / 100
  let low := totalHbmPages * lowPct.toUInt64 / 100
  if resident ≤ high then (0, t) else
  let cands := if pol = .lru ∨ pol = .lruRefcount then std.sort t.cands else t.cands
  evictCands low cands resident 0 t

end PageTableManager

end NexusRT.Memory

import Mathlib.Data.List.Sort
import Mathlib.Order.Defs.LinearOrder
import NexusRT.Library.Table

namespace NexusRT.TokenOpt

inductive MutexKind
  | nonRecursive | reentrant
  deriving DecidableEq

/-- `held` is whether the call already holds the mutex. A call without a result waits for itself. -/
def lockGuard (kind : MutexKind) (held : Bool) : Option Bool :=
  if held = true ∧ kind = .nonRecursive then none else some true

structure KvPage (α : Type) where
  firstTokenIndex : UInt32
  refcount : UInt32
  lastAttention : α
  resident : Bool
  deriving DecidableEq

structure KvCache (α : Type) where
  maxResident : UInt32
  pageSizeTokens : UInt32
  evictionBand : UInt32
  resident : UInt32 := 0
  pages : Table UInt32 (KvPage α) := .empty

variable {α : Type} [LinearOrder α] [Zero α]

def KvPage.init : KvPage α := ⟨0, 0, 0, false⟩

/-- `none` is a NaN: the comparison with it fails, and the first argument stays. -/
def stdMax (a : α) : Option α → α
  | none => a
  | some b => if a < b then b else a

def pairLe (x y : α × UInt32) : Prop := x.1 < y.1 ∨ (x.1 = y.1 ∧ x.2 ≤ y.2)

instance : DecidableRel (pairLe : α × UInt32 → α × UInt32 → Prop) :=
  fun x y => inferInstanceAs (Decidable (x.1 < y.1 ∨ (x.1 = y.1 ∧ x.2 ≤ y.2)))

namespace KvCache

def page (c : KvCache α) (tokenIndex : UInt32) : UInt32 :=
  tokenIndex &&& ~~~(c.pageSizeTokens - 1)

def cands (c : KvCache α) : List (α × UInt32) :=
  c.pages.entries.filterMap (fun (idx, p) =>
    if p.resident = true ∧ p.refcount = 0 then some (p.lastAttention, idx) else none)

def evictPage (c : KvCache α) (idx : UInt32) : KvCache α :=
  { c with
    pages := c.pages.modify idx (fun p => { p with resident := false, lastAttention := 0 })
    resident := c.resident - 1 }

def evictLoop : List (α × UInt32) → UInt32 → KvCache α → UInt32 × KvCache α
  | [], evicted, c => (evicted, c)
  | x :: xs, evicted, c => evictLoop xs (evicted + 1) (c.evictPage x.2)

def evict (kind : MutexKind) (held : Bool) (c : KvCache α) (n : UInt32) :
    Option (UInt32 × KvCache α) := do
  let _ ← lockGuard kind held
  -- No two candidates are equal, so there is one way to sort them.
  let cands := c.cands.insertionSort pairLe
  return evictLoop (cands.take n.toNat) 0 c

def touch (kind : MutexKind) (held : Bool) (c : KvCache α) (tokenIndex : UInt32)
    (attentionWeight : Option α) : Option (KvCache α) := do
  let held ← lockGuard kind held
  let page := c.page tokenIndex
  let p := (c.pages.find page).getD .init
  let p := { p with
    firstTokenIndex := page
    lastAttention := stdMax p.lastAttention attentionWeight }
  let c := { c with pages := c.pages.insert page p }
  if p.resident then return c else
  let c ← if c.maxResident ≤ c.resident then (c.evict kind held c.evictionBand).map Prod.snd
    else some c
  return { c with
    pages := c.pages.modify page (fun p => { p with resident := true })
    resident := c.resident + 1 }

def pin (kind : MutexKind) (held : Bool) (c : KvCache α) (tokenIndex : UInt32) :
    Option (KvCache α) := do
  let _ ← lockGuard kind held
  let page := c.page tokenIndex
  let p := (c.pages.find page).getD .init
  return { c with pages := c.pages.insert page { p with refcount := p.refcount + 1 } }

def unpin (kind : MutexKind) (held : Bool) (c : KvCache α) (tokenIndex : UInt32) :
    Option (KvCache α) := do
  let _ ← lockGuard kind held
  let page := c.page tokenIndex
  match c.pages.find page with
  | none => return c
  | some p =>
    if 0 < p.refcount then
      return { c with pages := c.pages.modify page (fun p => { p with refcount := p.refcount - 1 }) }
    else return c

end KvCache

inductive KvCall (α : Type)
  | touch (tokenIndex : UInt32) (attentionWeight : Option α)
  | evict (n : UInt32)
  | pin (tokenIndex : UInt32)
  | unpin (tokenIndex : UInt32)

namespace KvCache

def call (kind : MutexKind) (c : KvCache α) : KvCall α → Option (KvCache α)
  | .touch tokenIndex attentionWeight => c.touch kind false tokenIndex attentionWeight
  | .evict n => (c.evict kind false n).map Prod.snd
  | .pin tokenIndex => c.pin kind false tokenIndex
  | .unpin tokenIndex => c.unpin kind false tokenIndex

def run (kind : MutexKind) (c : KvCache α) (calls : List (KvCall α)) : Option (KvCache α) :=
  calls.foldlM (call kind) c

end KvCache

end NexusRT.TokenOpt

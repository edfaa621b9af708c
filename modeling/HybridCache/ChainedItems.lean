import Mathlib

/-!
# Chained items

An item can have chained items. The key of a chained item is the pointer to its parent; a hash
table maps this key to the first chained item, and each chained item points to the next one. The
parent holds one reference to each of them.

A call runs in one piece, under the lock for chained items. Handles that a call takes and gives
back itself do not show, since the parent's reference remains meanwhile. The containers that hold
regular items are not modelled; they set the two flags of an item at will. A call returns `none`
where it would use a null pointer, free an item twice, or run around a chain forever.
-/
namespace HybridCache.ChainedItems

open Function

/-- A chained item has a parent, a regular item has none. -/
structure CacheItem (ι : Type) where
  parent : Option ι
  next : Option ι
  refs : ℕ
  accessible : Bool
  inMM : Bool
  hasChained : Bool
  deriving DecidableEq

namespace CacheItem
variable {ι : Type} (it : CacheItem ι)

def isChainedItem : Bool := it.parent.isSome

def isDrained : Bool := decide (it.refs = 0) && !it.accessible && !it.inMM

end CacheItem

inductive Exception
  | invalidArgument
  | runtimeError
  | logicError
  | chainedItemInvalid
  deriving DecidableEq

inductive ReleaseRes
  | released
  | notRecycled
  | recycled
  deriving DecidableEq

inductive Outcome (ι : Type)
  | returned
  | handle (it : ι)
  | release (res : ReleaseRes)
  | throws (e : Exception)
  deriving DecidableEq

/-- Items are named by their addresses. The callers hold `handles it` handles to an item, `heads`
is the hash table, and `freed` lists what was given back to the memory allocator. -/
structure Allocator (ι : Type) where
  items : ι → CacheItem ι
  live : ι → Bool
  heads : ι → Option ι
  handles : ι → ℕ
  numChainedParentItems : ℤ
  numChainedChildItems : ℤ
  freed : List ι

namespace Allocator
variable {ι : Type} [DecidableEq ι] (s : Allocator ι)

def modify (it : ι) (f : CacheItem ι → CacheItem ι) : Allocator ι :=
  { s with items := update s.items it (f (s.items it)) }

def incRef (it : ι) : Allocator ι := s.modify it fun i => { i with refs := i.refs + 1 }

def decRef (it : ι) : Allocator ι := s.modify it fun i => { i with refs := i.refs - 1 }

def setNext (it : ι) (next : Option ι) : Allocator ι := s.modify it fun i => { i with next := next }

def markAccessible (it : ι) (b : Bool) : Allocator ι :=
  s.modify it fun i => { i with accessible := b }

def markInMM (it : ι) (b : Bool) : Allocator ι := s.modify it fun i => { i with inMM := b }

def markHasChainedItem (it : ι) (b : Bool) : Allocator ι :=
  s.modify it fun i => { i with hasChained := b }

def acquire (it : ι) : Allocator ι :=
  { s.incRef it with handles := update s.handles it (s.handles it + 1) }

def countParent (n : ℤ) : Allocator ι :=
  { s with numChainedParentItems := s.numChainedParentItems + n }

def countChild (n : ℤ) : Allocator ι :=
  { s with numChainedChildItems := s.numChainedChildItems + n }

/-! ## The hash table -/

/-- The first component is the node that was there before. -/
def insertOrReplace (node : ι) : Option ι × Allocator ι :=
  match (s.items node).accessible, (s.items node).parent with
  | false, some key =>
    let t := { s with heads := update s.heads key (some node) }.markAccessible node true
    match s.heads key with
    | none => (none, t)
    | some oldNode => (some oldNode, t.markAccessible oldNode false)
  | _, _ => (none, s)

def remove (node : ι) : Bool × Allocator ι :=
  match (s.items node).accessible, (s.items node).parent with
  | true, some key =>
    (true, { s with heads := update s.heads key none }.markAccessible node false)
  | _, _ => (false, s)

def findChainedItem (parent : ι) : Option ι := s.heads parent

/-! ## Release -/

def free (it : ι) : Option (Allocator ι) :=
  if s.live it = true then
    some { s with live := update s.live it false, freed := s.freed ++ [it] }
  else none

/-- The item is no more, but its memory goes to the caller. -/
def recycle (it : ι) : Allocator ι := { s with live := update s.live it false }

/-- The loop over the chain, with what is left of the rounds after which it would run in a
circle. -/
def freeChain (toRecycle : Option ι) :
    ℕ → Option ι → Allocator ι → ReleaseRes → Option (Allocator ι × ReleaseRes)
  | _, none, s, res => some (s, res)
  | 0, some _, _, _ => none
  | n + 1, some head, s, res =>
    let next := (s.items head).next
    let s := (s.markInMM head false).decRef head
    if toRecycle = some head then
      freeChain toRecycle n next ((s.recycle head).countChild (-1)) .recycled
    else
      (s.free head).bind fun s => freeChain toRecycle n next (s.countChild (-1)) res

/-- The end of a release, after the chain. -/
def freeParent (it : ι) (toRecycle : Option ι) (res : ReleaseRes) :
    Option (Allocator ι × Outcome ι) :=
  if toRecycle = some it then some (s.recycle it, .release .recycled)
  else (s.free it).map fun s => (s, .release res)

variable [Fintype ι]

def releaseBackToAllocator (it : ι) (toRecycle : Option ι) : Option (Allocator ι × Outcome ι) :=
  if (s.items it).isDrained = false then some (s, .throws .runtimeError)
  else if (s.items it).isChainedItem = true then
    if toRecycle.isSome = true then some (s, .throws .runtimeError)
    else (s.free it).map fun s => (s, .release .released)
  else
    let res := if toRecycle = none then ReleaseRes.released else .notRecycled
    if (s.items it).hasChained = true then
      match s.findChainedItem it with
      | none => none
      | some head =>
        if (s.items head).parent ≠ some it then some (s, .throws .chainedItemInvalid)
        else
          match s.remove head with
          | (false, s) => some (s, .throws .chainedItemInvalid)
          | (true, s) =>
            (freeChain toRecycle (Fintype.card ι) (some head) s res).bind fun (s, res) =>
              (s.countParent (-1)).freeParent it toRecycle res
    else s.freeParent it toRecycle res

/-- The destructor of a handle. An exception cannot leave it. -/
def dropHandle (it : ι) : Option (Allocator ι) :=
  let s := { s.decRef it with handles := update s.handles it (s.handles it - 1) }
  if (s.items it).isDrained = true then
    match s.releaseBackToAllocator it none with
    | some (s, .release _) => some s
    | _ => none
  else some s

/-- An exception drops the handle that the call was given. -/
def throwing (handle : Option ι) (e : Exception) : Option (Allocator ι × Outcome ι) :=
  match handle with
  | none => some (s, .throws e)
  | some it => (s.dropHandle it).map fun s => (s, .throws e)

/-! ## The operations on chains -/

def addChainedItem (parent child : Option ι) : Option (Allocator ι × Outcome ι) :=
  match parent, child with
  | some parent, some child =>
    if (s.items child).isChainedItem = false then s.throwing (some child) .invalidArgument
    else
      let (oldHead, s) := s.insertOrReplace child
      if oldHead.isSome = true ∧ (s.items child).next.isSome = true then
        s.throwing (some child) .invalidArgument
      else
        let s := if oldHead.isSome = true then s.setNext child oldHead else s
        let s := if (s.items parent).hasChained = true then s else s.countParent 1
        let s := ((s.markHasChainedItem parent true).countChild 1).incRef child
        if (s.items child).inMM = true then s.throwing (some child) .runtimeError
        else ((s.markInMM child true).dropHandle child).map fun s => (s, .returned)
  | _, child => s.throwing child .invalidArgument

def popChainedItem (parent : Option ι) : Option (Allocator ι × Outcome ι) :=
  match parent with
  | none => some (s, .throws .invalidArgument)
  | some parent =>
    if (s.items parent).hasChained = false then some (s, .throws .invalidArgument)
    else
      (s.findChainedItem parent).map fun head =>
        let s := s.acquire head
        let s :=
          match (s.items head).next with
          | some next => (s.insertOrReplace next).2
          | none => ((s.remove head).2.markHasChainedItem parent false).countParent (-1)
        ((((s.setNext head none).markInMM head false).decRef head).countChild (-1), .handle head)

/-- The item before `oldItem` in the chain, or the last one. -/
def findPrev (oldItem : ι) : ℕ → ι → Option ι → Option ι
  | _, prev, none => some prev
  | 0, _, some _ => none
  | n + 1, prev, some curr =>
    if curr = oldItem then some prev else findPrev oldItem n curr (s.items curr).next

def replaceInChainLocked (oldItem newItem parent : ι) : Option (Allocator ι) :=
  (s.findChainedItem parent).bind fun head =>
    let t :=
      if head = oldItem then some (s.insertOrReplace newItem).2
      else (s.findPrev oldItem (Fintype.card ι) head (s.items head).next).map fun prev =>
        s.setNext prev (some newItem)
    t.map fun s =>
      (((s.setNext newItem (s.items oldItem).next).setNext oldItem none).decRef oldItem).incRef
        newItem

def replaceChainedItem (oldItem : ι) (newItem : Option ι) (parent : ι) :
    Option (Allocator ι × Outcome ι) :=
  match newItem with
  | none => some (s, .throws .invalidArgument)
  | some newItem =>
    if (s.items oldItem).isChainedItem = false ∨ (s.items newItem).isChainedItem = false ∨
        (s.items oldItem).parent ≠ (s.items newItem).parent ∨
        (s.items oldItem).parent ≠ some parent ∨ (s.items newItem).inMM = true ∨
        (s.items oldItem).inMM = false then
      s.throwing (some newItem) .invalidArgument
    else
      let s := ((s.acquire oldItem).markInMM oldItem false).markInMM newItem true
      (s.replaceInChainLocked oldItem newItem parent).bind fun s =>
        (s.dropHandle newItem).map fun s => (s, .handle oldItem)

/-- The loop that changes the keys of a chain. The second component is false if there was an
exception. -/
def changeKeys (newParent : ι) : ℕ → Option ι → Allocator ι → Option (Allocator ι × Bool)
  | _, none, s => some (s, true)
  | 0, some _, _ => none
  | n + 1, some curr, s =>
    if (s.items curr).accessible = true ∨ (s.items curr).isChainedItem = false then some (s, false)
    else
      let next := (s.items curr).next
      changeKeys newParent n next (s.modify curr fun i => { i with parent := some newParent })

def transferChainLocked (parent newParent : ι) : Option (Allocator ι × Outcome ι) :=
  if (s.items newParent).hasChained = true then some (s, .throws .invalidArgument)
  else
    (s.findChainedItem parent).bind fun head =>
      (changeKeys newParent (Fintype.card ι) (some head) (s.remove head).2).map fun (s, ok) =>
        if ok = false then (s, .throws .invalidArgument)
        else
          let (oldHead, s) := (s.markHasChainedItem newParent true).insertOrReplace head
          if oldHead.isSome = true then (s, .throws .logicError)
          else (s.markHasChainedItem parent false, .returned)

def transferChainAndReplace (parent newParent : Option ι) : Option (Allocator ι × Outcome ι) :=
  match parent, newParent with
  | some parent, some newParent => s.transferChainLocked parent newParent
  | _, _ => some (s, .throws .invalidArgument)

end Allocator

/-! ## Calls -/

inductive Call (ι : Type)
  | allocate (it : ι)
  | allocateChainedItem (parent it : ι)
  | find (it : ι)
  | setContainers (it : ι) (accessible inMM : Bool)
  | dropHandle (it : ι)
  | addChainedItem (parent child : Option ι)
  | popChainedItem (parent : Option ι)
  | replaceChainedItem (oldItem : ι) (newItem : Option ι) (parent : ι)
  | transferChainAndReplace (parent newParent : Option ι)
  | releaseBackToAllocator (it : ι) (toRecycle : Option ι)
  deriving DecidableEq

namespace Allocator
variable {ι : Type} [DecidableEq ι]

def init : Allocator ι where
  items _ := ⟨none, none, 0, false, false, false⟩
  live _ := false
  heads _ := none
  handles _ := 0
  numChainedParentItems := 0
  numChainedChildItems := 0
  freed := []

variable (s : Allocator ι)

def construct (it : ι) (parent : Option ι) : Allocator ι :=
  { s with
    items := update s.items it ⟨parent, none, 1, false, false, false⟩
    live := update s.live it true
    handles := update s.handles it 1 }

variable [Fintype ι]

def call : Call ι → Option (Allocator ι × Outcome ι)
  | .allocate it => some (s.construct it none, .handle it)
  | .allocateChainedItem parent it => some (s.construct it (some parent), .handle it)
  | .find it => some (s.acquire it, .handle it)
  | .setContainers it accessible inMM =>
    some ((s.markAccessible it accessible).markInMM it inMM, .returned)
  | .dropHandle it => (s.dropHandle it).map fun s => (s, .returned)
  | .addChainedItem parent child => s.addChainedItem parent child
  | .popChainedItem parent => s.popChainedItem parent
  | .replaceChainedItem oldItem newItem parent => s.replaceChainedItem oldItem newItem parent
  | .transferChainAndReplace parent newParent => s.transferChainAndReplace parent newParent
  | .releaseBackToAllocator it toRecycle => s.releaseBackToAllocator it toRecycle

/-- The callers hold the handles that they pass, and new items get memory that is not in use. -/
def possible : Call ι → Bool
  | .allocate it => !s.live it
  | .allocateChainedItem parent it => decide (0 < s.handles parent) && !s.live it
  | .find it => s.live it && !(s.items it).isChainedItem
  | .setContainers it _ _ => s.live it && !(s.items it).isChainedItem
  | .dropHandle it => decide (0 < s.handles it)
  | .addChainedItem parent child => (parent.all held) && child.all held
  | .popChainedItem parent => parent.all held
  | .replaceChainedItem oldItem newItem parent =>
    s.live oldItem && s.live parent && newItem.all held
  | .transferChainAndReplace parent newParent => parent.all held && newParent.all held
  | .releaseBackToAllocator it _ => s.live it
where
  held (it : ι) : Bool := decide (0 < s.handles it)

end Allocator

end HybridCache.ChainedItems

import HybridCache.DList
import HybridCache.Transition

/-!
# The LRU container with an insertion point

New nodes enter the list in front of `insertionPoint`; the nodes from there to the end
of the list carry the tail flag and `tailSize` counts them. The flags, the update time
and the hooks live in the nodes. A function that would dereference a null pointer
returns `none`.
-/
namespace HybridCache.MMLru

open Function

inductive AccessMode
  | kRead
  | kWrite
  deriving DecidableEq, Repr

/-- `scaleAge` is the product of an age with `lruRefreshRatio`, truncated to an integer. -/
structure Config where
  defaultLruRefreshTime : ℕ := 60
  lruRefreshTime : ℕ := 60
  scaleAge : ℕ → ℕ := fun _ => 0
  updateOnWrite : Bool := false
  updateOnRead : Bool := true
  tryLockUpdate : Bool := false
  lruInsertionPointSpec : ℕ := 0
  mmReconfigureIntervalSecs : ℕ := 0

structure Container (ν : Type*) where
  lru : DList ν
  insertionPoint : Option ν
  tailSize : ℕ
  nextReconfigureTime : ℕ
  lruRefreshTime : ℕ
  config : Config
  isTail : ν → Bool
  isAccessed : ν → Bool
  isInMMContainer : ν → Bool
  updateTime : ν → ℕ

/-- Times are 32-bit numbers. -/
def time32 (t : ℕ) : ℕ := t % 2 ^ 32

def kLruRefreshTimeCap : ℕ := 900

def nextReconfigure (config : Config) (now : ℕ) : ℕ :=
  if config.mmReconfigureIntervalSecs = 0 then 2 ^ 32 - 1
  else time32 (time32 now + config.mmReconfigureIntervalSecs)

variable {ν : Type*}

/-- A new container over nodes none of which is managed or flagged. -/
def Container.init (config : Config) (now : ℕ) : Container ν where
  lru := DList.empty
  insertionPoint := none
  tailSize := 0
  nextReconfigureTime := nextReconfigure config now
  lruRefreshTime := config.lruRefreshTime
  config := config
  isTail := fun _ => false
  isAccessed := fun _ => false
  isInMMContainer := fun _ => false
  updateTime := fun _ => 0

namespace Container
variable [DecidableEq ν]

def markTail (s : Container ν) (node : ν) : Container ν :=
  { s with isTail := update s.isTail node true }

def unmarkTail (s : Container ν) (node : ν) : Container ν :=
  { s with isTail := update s.isTail node false }

def markAccessed (s : Container ν) (node : ν) : Container ν :=
  { s with isAccessed := update s.isAccessed node true }

def unmarkAccessed (s : Container ν) (node : ν) : Container ν :=
  { s with isAccessed := update s.isAccessed node false }

def markInMMContainer (s : Container ν) (node : ν) : Container ν :=
  { s with isInMMContainer := update s.isInMMContainer node true }

def unmarkInMMContainer (s : Container ν) (node : ν) : Container ν :=
  { s with isInMMContainer := update s.isInMMContainer node false }

def setUpdateTime (s : Container ν) (node : ν) (time : ℕ) : Container ν :=
  { s with updateTime := update s.updateTime node (time32 time) }

omit [DecidableEq ν] in
/-- The age of the node at the tail, by a clock reading of its own. -/
def oldestElementAge (s : Container ν) (now : ℕ) : ℕ :=
  match s.lru.tail with
  | some node => time32 (time32 now + (2 ^ 32 - s.updateTime node))
  | none => 0

omit [DecidableEq ν] in
def reconfigureLocked (s : Container ν) (currTime now : ℕ) : Container ν :=
  if currTime < s.nextReconfigureTime then s
  else
    { s with
      nextReconfigureTime := time32 (currTime + s.config.mmReconfigureIntervalSecs)
      lruRefreshTime := min (max s.config.defaultLruRefreshTime
        (time32 (s.config.scaleAge (s.oldestElementAge now)))) kLruRefreshTimeCap }

/-- The first loop of `updateLruInsertionPoint`: `missing` is `expectedSize - tailSize_`. -/
def growTail (s : Container ν) (curr : Option ν) : ℕ → Option (Container ν × Option ν)
  | 0 => some (s, curr)
  | missing + 1 =>
    if curr = s.lru.head then some (s, curr)
    else curr.bind fun c => (s.lru.prev c).bind fun p =>
      growTail { s.markTail p with tailSize := s.tailSize + 1 } (some p) missing

/-- The second loop of `updateLruInsertionPoint`: `excess` is `tailSize_ - expectedSize`. -/
def shrinkTail (s : Container ν) (curr : Option ν) : ℕ → Option (Container ν × Option ν)
  | 0 => some (s, curr)
  | excess + 1 =>
    if curr = s.lru.tail then some (s, curr)
    else curr.bind fun c =>
      shrinkTail { s.unmarkTail c with tailSize := s.tailSize - 1 } (s.lru.next c) excess

/-- A missing insertion point is set to the tail. -/
def startTail (s : Container ν) : Container ν :=
  match s.insertionPoint with
  | some _ => s
  | none =>
    match s.lru.tail with
    | some node => { s.markTail node with insertionPoint := some node, tailSize := 1 }
    | none => { s with insertionPoint := none, tailSize := 0 }

def updateLruInsertionPoint (s : Container ν) : Option (Container ν) :=
  if s.config.lruInsertionPointSpec = 0 then some s
  else
    let s := s.startTail
    if s.lru.size ≤ 1 then some s
    else
      let expectedSize := s.lru.size >>> s.config.lruInsertionPointSpec
      (s.growTail s.insertionPoint (expectedSize - s.tailSize)).bind fun (s, curr) =>
        (s.shrinkTail curr (s.tailSize - expectedSize)).map fun (s, curr) =>
          { s with insertionPoint := curr }

def ensureNotInsertionPoint (s : Container ν) (node : ν) : Container ν :=
  if s.insertionPoint = some node then
    match s.lru.prev node with
    | some p => { s.markTail p with insertionPoint := some p, tailSize := s.tailSize + 1 }
    | none => { s with insertionPoint := none }
  else s

/-- `if (isTail(node)) { unmarkTail(node); tailSize_--; }` -/
def leaveTail (s : Container ν) (node : ν) : Container ν :=
  if s.isTail node = true then { s.unmarkTail node with tailSize := s.tailSize - 1 } else s

/-- The critical section of `recordAccess`. -/
def promote (s : Container ν) (node : ν) (curr now : ℕ) : Option (Container ν) :=
  let s := (s.reconfigureLocked (time32 curr) now).ensureNotInsertionPoint node
  let s := if s.isInMMContainer node = true then
      { s with lru := s.lru.moveToHead node }.setUpdateTime node curr
    else s
  if s.isTail node = true then (s.leaveTail node).updateLruInsertionPoint else some s

/-- What `recordAccess` does before it takes the lock: whether the critical section is due. -/
def checkAccess (s : Container ν) (node : ν) (mode : AccessMode) (curr : ℕ) :
    Bool × Container ν :=
  if (mode = .kWrite ∧ s.config.updateOnWrite = false) ∨
      (mode = .kRead ∧ s.config.updateOnRead = false) then (false, s)
  else if s.isInMMContainer node = true ∧
      (time32 (s.updateTime node + s.lruRefreshTime) ≤ time32 curr ∨
        s.isAccessed node = false) then
    (true, if s.isAccessed node = false then s.markAccessed node else s)
  else (false, s)

/-- `lock` is the outcome of `try_to_lock`, which is asked only with `tryLockUpdate`. -/
def recordAccess (s : Container ν) (node : ν) (mode : AccessMode) (curr now : ℕ) (lock : Bool) :
    Option (Bool × Container ν) :=
  match s.checkAccess node mode curr with
  | (false, s) => some (false, s)
  | (true, s) =>
    if s.config.tryLockUpdate = true ∧ lock = false then some (false, s)
    else (s.promote node curr now).map fun s => (true, s)

/-- The loop of `setConfig`, which runs `tailSize_` times. -/
def clearTail (s : Container ν) (curr : Option ν) : ℕ → Option (Container ν)
  | 0 => some s
  | k + 1 => curr.bind fun c =>
    clearTail { s.unmarkTail c with tailSize := k } (s.lru.next c) k

def setConfig (s : Container ν) (newConfig : Config) (now : ℕ) : Option (Container ν) :=
  let s := { s with config := newConfig }
  let cleared := if newConfig.lruInsertionPointSpec = 0 ∧ s.insertionPoint ≠ none then
      (s.clearTail s.insertionPoint s.tailSize).map fun s => { s with insertionPoint := none }
    else some s
  cleared.map fun s =>
    { s with
      lruRefreshTime := newConfig.lruRefreshTime
      nextReconfigureTime := nextReconfigure newConfig now }

/-- Where `add` links the node: in front of the insertion point, or at the head. -/
def linkNew (s : Container ν) (node : ν) : DList ν :=
  match s.insertionPoint with
  | some point =>
    if s.config.lruInsertionPointSpec = 0 then s.lru.linkAtHead node
    else s.lru.insertBefore point node
  | none => s.lru.linkAtHead node

def add (s : Container ν) (node : ν) (currTime : ℕ) : Option (Bool × Container ν) :=
  if s.isInMMContainer node = true then some (false, s)
  else
    let s := { s with lru := s.linkNew node }.markInMMContainer node
    let s := (s.setUpdateTime node currTime).unmarkAccessed node
    s.updateLruInsertionPoint.map fun s => (true, s)

def removeLocked (s : Container ν) (node : ν) : Option (Container ν) :=
  let s := s.ensureNotInsertionPoint node
  let s := { s with lru := s.lru.remove node }.unmarkAccessed node
  ((s.leaveTail node).unmarkInMMContainer node).updateLruInsertionPoint

def remove (s : Container ν) (node : ν) : Option (Bool × Container ν) :=
  if s.isInMMContainer node = false then some (false, s)
  else (s.removeLocked node).map fun s => (true, s)

/-- Remove the node of an eviction iterator that made `k` steps from the tail.
An iterator at the end is not dereferenced. -/
def removeIterator (s : Container ν) (k : ℕ) : Option (Container ν) :=
  match s.lru.fromTail k with
  | some node => s.removeLocked node
  | none => some s

def copyAccessed (s : Container ν) (oldNode newNode : ν) : Container ν :=
  if s.isAccessed oldNode = true then s.markAccessed newNode else s.unmarkAccessed newNode

def moveTail (s : Container ν) (oldNode newNode : ν) : Container ν :=
  if s.isTail oldNode = true then (s.markTail newNode).unmarkTail oldNode
  else s.unmarkTail newNode

def movePoint (s : Container ν) (oldNode newNode : ν) : Container ν :=
  if s.insertionPoint = some oldNode then { s with insertionPoint := some newNode } else s

def replace (s : Container ν) (oldNode newNode : ν) : Bool × Container ν :=
  if s.isInMMContainer oldNode = false ∨ s.isInMMContainer newNode = true then (false, s)
  else
    let time := s.updateTime oldNode
    let s := { s with lru := s.lru.replace oldNode newNode }
    let s := (s.unmarkInMMContainer oldNode).markInMMContainer newNode
    let s := s.setUpdateTime newNode time
    (true, ((s.copyAccessed oldNode newNode).moveTail oldNode newNode).movePoint oldNode newNode)

end Container

/-- A `recordAccess` that waits for the lock is a `checkAccess` and a later `promote`, with calls of
other threads in between. -/
inductive Action (ν : Type*)
  | add (node : ν) (now : ℕ)
  | remove (node : ν)
  | removeIterator (k : ℕ)
  | recordAccess (node : ν) (mode : AccessMode) (curr now : ℕ) (lock : Bool)
  | checkAccess (node : ν) (mode : AccessMode) (curr : ℕ)
  | promote (node : ν) (curr now : ℕ)
  | replace (oldNode newNode : ν)
  | setConfig (newConfig : Config) (now : ℕ)

def step [DecidableEq ν] (s : Container ν) : Action ν → Option (Container ν)
  | .add node now => (s.add node now).map Prod.snd
  | .remove node => (s.remove node).map Prod.snd
  | .removeIterator k => s.removeIterator k
  | .recordAccess node mode curr now lock => (s.recordAccess node mode curr now lock).map Prod.snd
  | .checkAccess node mode curr => some (s.checkAccess node mode curr).2
  | .promote node curr now => s.promote node curr now
  | .replace oldNode newNode => some (s.replace oldNode newNode).2
  | .setConfig newConfig now => s.setConfig newConfig now

end HybridCache.MMLru

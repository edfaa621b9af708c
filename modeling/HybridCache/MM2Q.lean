import HybridCache.MultiDList
import HybridCache.Transition

/-!
# The 2Q container

Five lists run through the hooks of the nodes. Which list holds a node is recorded in
three flag bits of the node only: `getLruType` reads them, and `remove` and `replace`
trust its answer. A function returns `none` where it would dereference a null pointer
or where a loop would not end within the number of nodes.
-/
namespace HybridCache.MM2Q

inductive LruType
  | Warm
  | WarmTail
  | Hot
  | Cold
  | ColdTail
  deriving DecidableEq, Repr

instance : Fintype LruType :=
  ⟨{.Warm, .WarmTail, .Hot, .Cold, .ColdTail}, by intro t; cases t <;> decide⟩

inductive AccessMode
  | kRead
  | kWrite
  deriving DecidableEq, Repr

/-- `scaleAge` is the product of an age with `lruRefreshRatio`, truncated to an integer. -/
structure Config where
  defaultLruRefreshTime : ℕ := 60
  lruRefreshTime : ℕ := 60
  scaleAge : ℕ → ℕ := fun _ => 0
  updateOnWrite : Bool := false
  updateOnRead : Bool := true
  tryLockUpdate : Bool := false
  rebalanceOnRecordAccess : Bool := true
  hotSizePercent : ℕ := 30
  coldSizePercent : ℕ := 30
  mmReconfigureIntervalSecs : ℕ := 0
  tailSize : ℕ := 0

/-- The subtraction is one of 64-bit numbers. -/
def Config.getWarmSizePercent (c : Config) : ℕ :=
  ((100 - c.hotSizePercent - c.coldSizePercent : ℤ) % 2 ^ 64).toNat

/-- The flag bits of a node that belong to its container. -/
structure Flags where
  mmFlag0 : Bool := false
  mmFlag1 : Bool := false
  mmFlag2 : Bool := false
  deriving DecidableEq, Repr

structure Container (ν : Type*) where
  lru : MultiDList LruType ν
  flags : ν → Flags
  isInMMContainer : ν → Bool
  updateTime : ν → ℕ
  tailTrackingEnabled : Bool
  nextReconfigureTime : ℕ
  lruRefreshTime : ℕ
  config : Config

/-- Times are 32-bit numbers. -/
def time32 (t : ℕ) : ℕ := t % 2 ^ 32

def kLruRefreshTimeCap : ℕ := 900

def nextReconfigure (config : Config) (now : ℕ) : ℕ :=
  if config.mmReconfigureIntervalSecs = 0 then 2 ^ 32 - 1
  else time32 (time32 now + config.mmReconfigureIntervalSecs)

variable {ν : Type*}

/-- A new container over nodes that no container has used yet. -/
def Container.init (config : Config) (now : ℕ) : Container ν where
  lru := .empty
  flags := fun _ => {}
  isInMMContainer := fun _ => false
  updateTime := fun _ => 0
  tailTrackingEnabled := decide (0 < config.tailSize)
  nextReconfigureTime := nextReconfigure config now
  lruRefreshTime := config.lruRefreshTime
  config := config

namespace Container

def isHot (s : Container ν) (node : ν) : Bool := (s.flags node).mmFlag0

def isCold (s : Container ν) (node : ν) : Bool := (s.flags node).mmFlag2

def inTail (s : Container ν) (node : ν) : Bool :=
  decide (s.config.tailSize ≠ 0) && (s.flags node).mmFlag1

def getLruType (s : Container ν) (node : ν) : LruType :=
  if s.isHot node = true then .Hot
  else if s.isCold node = true then (if s.inTail node = true then .ColdTail else .Cold)
  else if s.inTail node = true then .WarmTail else .Warm

/-- `getOldestAgeLocked(WarmTail)`: the iterator falls back to `Warm` if `WarmTail` is empty. -/
def oldestWarmAge (s : Container ν) (now : ℕ) : ℕ :=
  let oldest := if s.lru.size .WarmTail = 0 then s.lru.tail .Warm else s.lru.tail .WarmTail
  match oldest with
  | some node => time32 (time32 now + (2 ^ 32 - s.updateTime node))
  | none => 0

def reconfigureLocked (s : Container ν) (currTime now : ℕ) : Container ν :=
  if currTime < s.nextReconfigureTime then s
  else
    { s with
      nextReconfigureTime := time32 (currTime + s.config.mmReconfigureIntervalSecs)
      lruRefreshTime := min (max s.config.defaultLruRefreshTime
        (time32 (s.config.scaleAge (s.oldestWarmAge now)))) kLruRefreshTimeCap }

variable [DecidableEq ν]

def setFlags (s : Container ν) (node : ν) (f : Flags → Flags) : Container ν :=
  { s with flags := Function.update s.flags node (f (s.flags node)) }

def markHot (s : Container ν) (node : ν) : Container ν :=
  s.setFlags node fun f => { f with mmFlag0 := true }

def unmarkHot (s : Container ν) (node : ν) : Container ν :=
  s.setFlags node fun f => { f with mmFlag0 := false }

def markCold (s : Container ν) (node : ν) : Container ν :=
  s.setFlags node fun f => { f with mmFlag2 := true }

def unmarkCold (s : Container ν) (node : ν) : Container ν :=
  s.setFlags node fun f => { f with mmFlag2 := false }

def markTail (s : Container ν) (node : ν) : Container ν :=
  s.setFlags node fun f => { f with mmFlag1 := true }

def unmarkTail (s : Container ν) (node : ν) : Container ν :=
  s.setFlags node fun f => { f with mmFlag1 := false }

def setUpdateTime (s : Container ν) (node : ν) (time : ℕ) : Container ν :=
  { s with updateTime := Function.update s.updateTime node (time32 time) }

def setInMMContainer (s : Container ν) (node : ν) (b : Bool) : Container ν :=
  { s with isInMMContainer := Function.update s.isInMMContainer node b }

/-- Remove the node from list `source` and link it at the head of list `target`. -/
def transfer (s : Container ν) (node : ν) (source target : LruType) : Container ν :=
  { s with lru := s.lru.transfer node source target }

/-- One round of the first loop of `rebalance`. -/
def popWarm (s : Container ν) : Option (Container ν) :=
  if 0 < s.lru.size .WarmTail then
    (s.lru.tail .WarmTail).map fun node =>
      ((s.transfer node .WarmTail .Cold).unmarkTail node).markCold node
  else
    (s.lru.tail .Warm).map fun node => (s.transfer node .Warm .Cold).markCold node

def shrinkWarm (s : Container ν) (expectedSize : ℕ) : ℕ → Option (Container ν)
  | 0 => none
  | fuel + 1 =>
    if expectedSize < s.lru.size .Warm + s.lru.size .WarmTail then
      s.popWarm.bind fun s => s.shrinkWarm expectedSize fuel
    else some s

/-- One round of the second loop of `rebalance`. -/
def popHot (s : Container ν) : Option (Container ν) :=
  (s.lru.tail .Hot).map fun node =>
    ((s.transfer node .Hot .Cold).unmarkHot node).markCold node

def shrinkHot (s : Container ν) (expectedSize : ℕ) : ℕ → Option (Container ν)
  | 0 => none
  | fuel + 1 =>
    if expectedSize < s.lru.size .Hot then s.popHot.bind fun s => s.shrinkHot expectedSize fuel
    else some s

/-- The loop of `adjustTail`; `tailList` is the tail list of `list`. -/
def adjustTail (s : Container ν) (list tailList : LruType) : ℕ → Option (Container ν)
  | 0 => none
  | fuel + 1 =>
    match s.lru.tail list with
    | none => some s
    | some ptr =>
      if s.lru.size tailList + 1 ≤ s.config.tailSize then
        ((s.markTail ptr).transfer ptr list tailList).adjustTail list tailList fuel
      else some s

/-- The product and the quotient are of 64-bit numbers. -/
def expectedSize (s : Container ν) (percent : ℕ) : ℕ :=
  percent * s.lru.totalSize % 2 ^ 64 / 100

def rebalance (s : Container ν) : Option (Container ν) :=
  let warm := s.expectedSize s.config.getWarmSizePercent
  (s.shrinkWarm warm (s.lru.totalSize + 1)).bind fun s =>
    let hot := s.expectedSize s.config.hotSizePercent
    (s.shrinkHot hot (s.lru.totalSize + 1)).bind fun s =>
      (s.adjustTail .Cold .ColdTail (s.lru.totalSize + 1)).bind fun s =>
        s.adjustTail .Warm .WarmTail (s.lru.totalSize + 1)

def add (s : Container ν) (node : ν) (currTime : ℕ) : Option (Bool × Container ν) :=
  if s.isInMMContainer node = true then some (false, s)
  else
    let s := ((s.markHot node).unmarkCold node).unmarkTail node
    let s := { s with lru := s.lru.edit .Hot (·.linkAtHead node) }
    s.rebalance.map fun s => (true, (s.setInMMContainer node true).setUpdateTime node currTime)

def removeLocked (s : Container ν) (node : ν) (doRebalance : Bool) : Option (Container ν) :=
  let type := s.getLruType node
  let s := { s with lru := s.lru.edit type (·.remove node) }
  let balanced := if doRebalance = true then s.rebalance else some s
  balanced.map fun s => s.setInMMContainer node false

def remove (s : Container ν) (node : ν) : Option (Bool × Container ν) :=
  if s.isInMMContainer node = false then some (false, s)
  else (s.removeLocked node true).map fun s => (true, s)

/-- Remove the node of an eviction iterator that stands `k` steps from the tail of a list.
An iterator at the end is not dereferenced. -/
def removeIterator (s : Container ν) (type : LruType) (k : ℕ) : Option (Container ν) :=
  match (s.lru.getList type).fromTail k with
  | some node => s.removeLocked node false
  | none => some s

/-- The flags that `replace` sets in the new node. -/
def markLike (s : Container ν) (node : ν) : LruType → Container ν
  | .Hot => s.markHot node
  | .ColdTail => (s.markTail node).markCold node
  | .Cold => s.markCold node
  | .WarmTail => s.markTail node
  | .Warm => s

def replace (s : Container ν) (oldNode newNode : ν) : Bool × Container ν :=
  if s.isInMMContainer oldNode = false ∨ s.isInMMContainer newNode = true then (false, s)
  else
    let time := s.updateTime oldNode
    let type := s.getLruType oldNode
    let s := { s with lru := s.lru.edit type (·.replace oldNode newNode) }
    let s := s.markLike newNode type
    let s := (s.setInMMContainer oldNode false).setInMMContainer newNode true
    (true, s.setUpdateTime newNode time)

/-- How the critical section of `recordAccess` moves the node. -/
def promoteNode (s : Container ν) (node : ν) : Option (Container ν) :=
  if s.isHot node = true then some { s with lru := s.lru.edit .Hot (·.moveToHead node) }
  else if s.isCold node = true then
    let moved := if s.inTail node = true then (s.unmarkTail node).transfer node .ColdTail .Warm
      else s.transfer node .Cold .Warm
    let moved := moved.unmarkCold node
    if moved.config.rebalanceOnRecordAccess = true then moved.rebalance else some moved
  else if s.inTail node = true then some ((s.unmarkTail node).transfer node .WarmTail .Warm)
  else some { s with lru := s.lru.edit .Warm (·.moveToHead node) }

/-- The critical section of `recordAccess`. -/
def promote (s : Container ν) (node : ν) (curr now : ℕ) : Option (Bool × Container ν) :=
  let s := s.reconfigureLocked (time32 curr) now
  if s.isInMMContainer node = false then some (false, s)
  else (s.promoteNode node).map fun s => (true, s.setUpdateTime node curr)

omit [DecidableEq ν] in
/-- What `recordAccess` checks before it takes the lock. -/
def accessDue (s : Container ν) (node : ν) (mode : AccessMode) (curr : ℕ) : Bool :=
  !((mode == .kWrite && !s.config.updateOnWrite) || (mode == .kRead && !s.config.updateOnRead)) &&
    (s.isInMMContainer node && decide (time32 (s.updateTime node + s.lruRefreshTime) ≤ time32 curr))

/-- `lock` is the outcome of `try_to_lock`, which is asked only with `tryLockUpdate`. -/
def recordAccess (s : Container ν) (node : ν) (mode : AccessMode) (curr now : ℕ) (lock : Bool) :
    Option (Bool × Container ν) :=
  if s.accessDue node mode curr = false then some (false, s)
  else if s.config.tryLockUpdate = true ∧ lock = false then some (false, s)
  else s.promote node curr now

omit [DecidableEq ν] in
def setConfig (s : Container ν) (newConfig : Config) (now : ℕ) : Except String (Container ν) :=
  if s.tailTrackingEnabled = false ∧ 0 < newConfig.tailSize then
    .error "Cannot turn on tailHitsTracking (cache drop needed)"
  else if s.tailTrackingEnabled = true ∧ newConfig.tailSize = 0 then
    .error "Cannot turn off tailHitsTracking (cache drop needed)"
  else
    .ok { s with
      config := newConfig
      lruRefreshTime := newConfig.lruRefreshTime
      nextReconfigureTime := nextReconfigure newConfig now }

end Container

/-- A `recordAccess` that waits for the lock is a `promote` of its own, with calls of other threads
before it. A `setConfig` that throws changes nothing. -/
inductive Action (ν : Type*)
  | add (node : ν) (now : ℕ)
  | remove (node : ν)
  | removeIterator (type : LruType) (k : ℕ)
  | recordAccess (node : ν) (mode : AccessMode) (curr now : ℕ) (lock : Bool)
  | promote (node : ν) (curr now : ℕ)
  | replace (oldNode newNode : ν)
  | setConfig (newConfig : Config) (now : ℕ)

def step [DecidableEq ν] (s : Container ν) : Action ν → Option (Container ν)
  | .add node now => (s.add node now).map Prod.snd
  | .remove node => (s.remove node).map Prod.snd
  | .removeIterator type k => s.removeIterator type k
  | .recordAccess node mode curr now lock => (s.recordAccess node mode curr now lock).map Prod.snd
  | .promote node curr now => (s.promote node curr now).map Prod.snd
  | .replace oldNode newNode => some (s.replace oldNode newNode).2
  | .setConfig newConfig now =>
    match s.setConfig newConfig now with
    | .ok t => some t
    | .error _ => some s

end HybridCache.MM2Q

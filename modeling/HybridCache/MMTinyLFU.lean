import HybridCache.MMLru
import HybridCache.MultiDList

/-!
# The TinyLFU container

New nodes enter a small list `Tiny`; a node reaches `Main` when `Tiny` is full, or when its
estimated frequency is at least that of the tail of `Main`. The tiny flag of a node says which of
the two lists holds it. The eviction iterator walks both lists from the tail and decides before
each step which of them is next.

Frequencies are estimates of a sketch that forgets and is resized, so every call comes with the
estimates that it finds. They change only under the lock, which an iterator holds. A function
returns `none` where it would dereference a null pointer.
-/
namespace HybridCache.MMTinyLFU

open MMLru (AccessMode time32 kLruRefreshTimeCap)

inductive LruType
  | Main
  | Tiny
  deriving DecidableEq, Repr

instance : Fintype LruType := ⟨{.Main, .Tiny}, by intro t; cases t <;> decide⟩

/-- `scaleAge` is the product of an age with `lruRefreshRatio`, truncated to an integer. -/
structure Config where
  defaultLruRefreshTime : ℕ := 60
  lruRefreshTime : ℕ := 60
  scaleAge : ℕ → ℕ := fun _ => 0
  updateOnWrite : Bool := false
  updateOnRead : Bool := true
  tryLockUpdate : Bool := false
  tinySizePercent : ℕ := 1
  mmReconfigureIntervalSecs : ℕ := 0

structure Container (ν : Type*) where
  lru : MultiDList LruType ν
  isTiny : ν → Bool
  isAccessed : ν → Bool
  isInMMContainer : ν → Bool
  updateTime : ν → ℕ
  nextReconfigureTime : ℕ
  lruRefreshTime : ℕ
  config : Config

def nextReconfigure (config : Config) (now : ℕ) : ℕ :=
  if config.mmReconfigureIntervalSecs = 0 then 2 ^ 32 - 1
  else time32 (time32 now + config.mmReconfigureIntervalSecs)

variable {ν : Type*}

/-- A new container over nodes none of which is managed or flagged. -/
def Container.init (config : Config) (now : ℕ) : Container ν where
  lru := .empty
  isTiny := fun _ => false
  isAccessed := fun _ => false
  isInMMContainer := fun _ => false
  updateTime := fun _ => 0
  nextReconfigureTime := nextReconfigure config now
  lruRefreshTime := config.lruRefreshTime
  config := config

def admitToMain (freq : ν → ℕ) (tinyNode mainNode : ν) : Bool :=
  decide (freq mainNode ≤ freq tinyNode)

namespace Container

def getLruType (s : Container ν) (node : ν) : LruType :=
  if s.isTiny node = true then .Tiny else .Main

/-- The age of the node at the tail of `Main`, by a clock reading of its own. -/
def oldestElementAge (s : Container ν) (now : ℕ) : ℕ :=
  match s.lru.tail .Main with
  | some node => time32 (time32 now + (2 ^ 32 - s.updateTime node))
  | none => 0

def reconfigureLocked (s : Container ν) (currTime now : ℕ) : Container ν :=
  if currTime < s.nextReconfigureTime then s
  else
    { s with
      nextReconfigureTime := time32 (currTime + s.config.mmReconfigureIntervalSecs)
      lruRefreshTime := min (max s.config.defaultLruRefreshTime
        (time32 (s.config.scaleAge (s.oldestElementAge now)))) kLruRefreshTimeCap }

variable [DecidableEq ν]

def markTiny (s : Container ν) (node : ν) : Container ν :=
  { s with isTiny := Function.update s.isTiny node true }

def unmarkTiny (s : Container ν) (node : ν) : Container ν :=
  { s with isTiny := Function.update s.isTiny node false }

def setAccessed (s : Container ν) (node : ν) (b : Bool) : Container ν :=
  { s with isAccessed := Function.update s.isAccessed node b }

def setInMMContainer (s : Container ν) (node : ν) (b : Bool) : Container ν :=
  { s with isInMMContainer := Function.update s.isInMMContainer node b }

def setUpdateTime (s : Container ν) (node : ν) (time : ℕ) : Container ν :=
  { s with updateTime := Function.update s.updateTime node (time32 time) }

/-- Take a node of `Tiny` to the head of `Main`. -/
def promoteTiny (s : Container ν) (tinyNode : ν) : Container ν :=
  { s with lru := s.lru.transfer tinyNode .Tiny .Main }.unmarkTiny tinyNode

/-- Take a node of `Main` to the tail of `Tiny`. -/
def demoteMain (s : Container ν) (mainNode : ν) : Container ν :=
  { s with lru := s.lru.transferToTail mainNode .Main .Tiny }.markTiny mainNode

def maybePromoteTailLocked (s : Container ν) (freq : ν → ℕ) : Container ν :=
  match s.lru.tail .Main, s.lru.tail .Tiny with
  | some mainNode, some tinyNode =>
    if admitToMain freq tinyNode mainNode = true then
      (s.promoteTiny tinyNode).demoteMain mainNode
    else { s with lru := s.lru.edit .Main (·.moveToHead mainNode) }
  | _, _ => s

/-- The product and the quotient are of 64-bit numbers. -/
def expectedSize (s : Container ν) : ℕ :=
  s.config.tinySizePercent * s.lru.totalSize % 2 ^ 64 / 100

def add (s : Container ν) (node : ν) (currTime : ℕ) (freq : ν → ℕ) :
    Option (Bool × Container ν) :=
  if s.isInMMContainer node = true then some (false, s)
  else
    let s := { s with lru := s.lru.edit .Tiny (·.linkAtHead node) }.markTiny node
    let moved := if s.expectedSize < s.lru.size .Tiny then (s.lru.tail .Tiny).map s.promoteTiny
      else some (s.maybePromoteTailLocked freq)
    moved.map fun s =>
      (true, ((s.setInMMContainer node true).setUpdateTime node currTime).setAccessed node false)

def removeLocked (s : Container ν) (node : ν) : Container ν :=
  let s := if s.isTiny node = true then
      { s with lru := s.lru.edit .Tiny (·.remove node) }.unmarkTiny node
    else { s with lru := s.lru.edit .Main (·.remove node) }
  (s.setAccessed node false).setInMMContainer node false

def remove (s : Container ν) (node : ν) : Bool × Container ν :=
  if s.isInMMContainer node = false then (false, s) else (true, s.removeLocked node)

def replace (s : Container ν) (oldNode newNode : ν) : Bool × Container ν :=
  if s.isInMMContainer oldNode = false ∨ s.isInMMContainer newNode = true then (false, s)
  else
    let time := s.updateTime oldNode
    let s := if s.isTiny oldNode = true then
        ({ s with lru := s.lru.edit .Tiny (·.replace oldNode newNode) }.unmarkTiny
          oldNode).markTiny newNode
      else { s with lru := s.lru.edit .Main (·.replace oldNode newNode) }
    let s := (s.setInMMContainer oldNode false).setInMMContainer newNode true
    let s := s.setUpdateTime newNode time
    (true, s.setAccessed newNode (s.isAccessed oldNode))

/-- The critical section of `recordAccess`. -/
def promote (s : Container ν) (node : ν) (curr now : ℕ) : Bool × Container ν :=
  let s := s.reconfigureLocked (time32 curr) now
  if s.isInMMContainer node = false then (false, s)
  else
    (true, { s with lru := s.lru.edit (s.getLruType node) (·.moveToHead node) }.setUpdateTime
      node curr)

/-- What `recordAccess` does before it takes the lock: whether the critical section is due. -/
def checkAccess (s : Container ν) (node : ν) (mode : AccessMode) (curr : ℕ) :
    Bool × Container ν :=
  if (mode = .kWrite ∧ s.config.updateOnWrite = false) ∨
      (mode = .kRead ∧ s.config.updateOnRead = false) then (false, s)
  else if s.isInMMContainer node = true ∧
      (time32 (s.updateTime node + s.lruRefreshTime) ≤ time32 curr ∨
        s.isAccessed node = false) then
    (true, if s.isAccessed node = false then s.setAccessed node true else s)
  else (false, s)

/-- `lock` is the outcome of `try_lock`, which is asked only with `tryLockUpdate`. -/
def recordAccess (s : Container ν) (node : ν) (mode : AccessMode) (curr now : ℕ) (lock : Bool) :
    Bool × Container ν :=
  match s.checkAccess node mode curr with
  | (false, s) => (false, s)
  | (true, s) =>
    if s.config.tryLockUpdate = true ∧ lock = false then (false, s) else s.promote node curr now

omit [DecidableEq ν] in
def setConfig (s : Container ν) (newConfig : Config) (now : ℕ) : Container ν :=
  { s with
    config := newConfig
    lruRefreshTime := newConfig.lruRefreshTime
    nextReconfigureTime := nextReconfigure newConfig now }

end Container

/-! ## The eviction iterator -/

structure LockedIterator (ν : Type*) where
  tIter : Option ν
  mIter : Option ν
  deriving DecidableEq, Repr

namespace LockedIterator

/-- `operator bool` -/
def isValid (it : LockedIterator ν) : Bool := it.tIter.isSome || it.mIter.isSome

def evictTiny (it : LockedIterator ν) (freq : ν → ℕ) : Bool :=
  match it.mIter, it.tIter with
  | none, _ => true
  | some _, none => false
  | some mainNode, some tinyNode => !admitToMain freq tinyNode mainNode

def get (it : LockedIterator ν) (freq : ν → ℕ) : Option ν :=
  if it.evictTiny freq = true then it.tIter else it.mIter

/-- `operator++` -/
def next (it : LockedIterator ν) (freq : ν → ℕ) (lru : MultiDList LruType ν) :
    LockedIterator ν :=
  if it.evictTiny freq = true then { it with tIter := it.tIter.bind lru.prev }
  else { it with mIter := it.mIter.bind lru.prev }

end LockedIterator

namespace Container

def getEvictionIterator (s : Container ν) : LockedIterator ν := ⟨s.lru.tail .Tiny, s.lru.tail .Main⟩

variable [DecidableEq ν]

/-- The iterator moves on before the node is removed. -/
def removeIterator (s : Container ν) (it : LockedIterator ν) (freq : ν → ℕ) :
    Option (Container ν × LockedIterator ν) :=
  (it.get freq).map fun node => (s.removeLocked node, it.next freq s.lru)

/-- Use an iterator as long as it is valid: `true` removes the node, `false` goes on to the next.
The nodes that it visits, and what is left. -/
def useIterator (s : Container ν) (it : LockedIterator ν) (freq : ν → ℕ) :
    List Bool → Option (List ν × Container ν × LockedIterator ν)
  | [] => some ([], s, it)
  | removes :: rest =>
    if it.isValid = true then
      (it.get freq).bind fun node =>
        (if removes = true then s.removeIterator it freq
          else some (s, it.next freq s.lru)).bind fun (s, it) =>
            (useIterator s it freq rest).map fun (visited, left) => (node :: visited, left)
    else some ([], s, it)

end Container

/-- One call, or the use of an iterator under the lock. A `recordAccess` that waits is a
`checkAccess` and a later `promote`. -/
inductive Action (ν : Type*)
  | add (node : ν) (now : ℕ) (freq : ν → ℕ)
  | remove (node : ν)
  | useIterator (freq : ν → ℕ) (removes : List Bool)
  | recordAccess (node : ν) (mode : AccessMode) (curr now : ℕ) (lock : Bool)
  | checkAccess (node : ν) (mode : AccessMode) (curr : ℕ)
  | promote (node : ν) (curr now : ℕ)
  | replace (oldNode newNode : ν)
  | setConfig (newConfig : Config) (now : ℕ)

def step [DecidableEq ν] (s : Container ν) : Action ν → Option (Container ν)
  | .add node now freq => (s.add node now freq).map Prod.snd
  | .remove node => some (s.remove node).2
  | .useIterator freq removes =>
    (s.useIterator s.getEvictionIterator freq removes).map fun r => r.2.1
  | .recordAccess node mode curr now lock => some (s.recordAccess node mode curr now lock).2
  | .checkAccess node mode curr => some (s.checkAccess node mode curr).2
  | .promote node curr now => some (s.promote node curr now).2
  | .replace oldNode newNode => some (s.replace oldNode newNode).2
  | .setConfig newConfig now => some (s.setConfig newConfig now)

end HybridCache.MMTinyLFU

import HybridCache.Transition

/-!
# Removing a key from the hybrid cache

One key is followed through removals, lookups with asynchronous fills, evictions from
DRAM that write to flash, and evictions inside the flash cache. An action is one critical
section, so a list of actions is one interleaving of any number of threads. The flash
cache executes the queued operations of the key in order, and an operation is over when
its callback has returned. It is never disabled.

Whether an evicted item is written depends on its flags and on the admission policy; here
the action says so. An insert is one action and overlaps no removal.

Three components are not part of the program. `removed` says that a removal has returned
and no insert has started since, `late` marks the lookups that started then, and
`resurrected` says that one of those was a hit.
-/
namespace HybridCache.HybridRemove

/-! ## State -/

/-- Whether an item is marked for eviction, and whether it will be written to flash. -/
inductive Mark
  | unmarked
  | dropped
  | written
  deriving DecidableEq, Repr

structure Item where
  nvmClean : Bool
  mark : Mark
  deriving DecidableEq, Repr

inductive NavyOp
  | lookup
  | insert
  | remove
  deriving DecidableEq, Repr

/-- How far the first operation of the queue has come. A lookup has read the value, holds
the fill lock, or has released it with or without a handle; if it fails, then it removes the
key. An insert or a removal has to call `evictCB`, or has only its context left to destroy. -/
inductive Job
  | waiting
  | read (found : Bool)
  | failing
  | failInvalidated
  | failNoPuts
  | failEnqueueing
  | filling
  | handled (hit : Bool)
  | stored
  | putFailed
  | erased
  | completed
  deriving DecidableEq, Repr

/-- The job holds the guard of a tombstone. -/
def Job.hasGuard : Job → Bool
  | .failing => true
  | .failInvalidated => true
  | .failNoPuts => true
  | .failEnqueueing => true
  | _ => false

/-- What a job meets: nothing unusual, a value that has expired, a failure, or a false
positive of `hasContexts` or `couldExist`. -/
inductive Outcome
  | ordinary
  | expired
  | failed
  | falsePositive
  deriving DecidableEq, Repr

/-- An eviction that holds a put token, up to `executeIfValid`. -/
inductive Evictor
  | idle
  | acquired
  | marked
  | unlinked
  | checked
  | created
  deriving DecidableEq, Repr

/-- Where the operation of a thread is: lookups first, then removals. -/
inductive Op
  | idle
  | missed
  | findInvalidated
  | creating
  | waiting
  | started
  | locked
  | found (nvmClean : Bool)
  | unlinked
  | removeInvalidated
  | noPuts
  | enqueueing
  deriving DecidableEq, Repr

/-- The operation holds the guard of a tombstone. -/
def Op.hasGuard : Op → Bool
  | .started => true
  | .locked => true
  | .found _ => true
  | .unlinked => true
  | .removeInvalidated => true
  | .noPuts => true
  | .enqueueing => true
  | _ => false

/-- The operation has a handle of the item. -/
def Op.hasHandle : Op → Bool
  | .found _ => true
  | _ => false

structure State (T : Type) where
  item : Option Item
  /-- The flash cache has a value that lookups find. -/
  nvm : Bool
  queue : List NavyOp
  job : Job
  /-- The fill context of the key, and whether it is valid. -/
  fill : Option Bool
  /-- Evictions inside the flash cache that have yet to call `evictCB`. -/
  evictions : ℕ
  evictor : Evictor
  tokenValid : Bool
  ops : T → Op
  removed : Bool
  late : T → Bool
  resurrected : Bool

def init (T : Type) : State T where
  item := none
  nvm := false
  queue := []
  job := .waiting
  fill := none
  evictions := 0
  evictor := .idle
  tokenValid := false
  ops _ := .idle
  removed := false
  late _ := false
  resurrected := false

/-- The flags: `other` is a false positive of `hasContexts` or `couldExist`, `abort` a put that
is given up. -/
inductive Action (T : Type)
  | insertOrReplace (other : Bool)
  | startRemove (t : T)
  | continueRemove (t : T) (other : Bool)
  | startFind (t : T)
  | continueFind (t : T) (other : Bool)
  | acquireToken
  | markForEviction (write : Bool)
  | unlinkItem
  | continuePut (abort : Bool)
  | runJob (outcome : Outcome)
  | recycle
  | evictCB

/-! ## Tombstones, contexts and the access container -/

section Steps
variable {T : Type} [Fintype T] [DecidableEq T]

/-- A tombstone is present while one of its guards is. -/
def hasTombStone (s : State T) : Bool :=
  decide (NavyOp.remove ∈ s.queue) || decide (∃ t, (s.ops t).hasGuard = true) || s.job.hasGuard

/-- A put has a context from `createContext` until its callback has returned. -/
def hasPutContexts (s : State T) : Bool :=
  decide (s.evictor = .created) || decide (NavyOp.insert ∈ s.queue)

/-- `findInternal` gets no handle of an item that is marked for eviction. -/
def findInternal (s : State T) : Option Item := s.item.filter fun it => it.mark = .unmarked

def setOp (s : State T) (t : T) (op : Op) : State T := { s with ops := Function.update s.ops t op }

/-! ## Removal -/

/-- `NvmCache::remove`. -/
def nvmRemove (s : State T) (other : Bool) : State T :=
  if hasPutContexts s || s.nvm || other then
    { s with tokenValid := false, queue := s.queue ++ [.remove] }
  else { s with tokenValid := false }

/-- The handle of a replaced item is null if the item is marked for eviction. -/
def insertOrReplace (s : State T) (other : Bool) : State T :=
  let inserted : State T :=
    { s with item := some ⟨false, .unmarked⟩, removed := false, late := fun _ => false }
  match findInternal s with
  | none => nvmRemove inserted other
  | some replaced => if replaced.nvmClean then nvmRemove inserted other else inserted

def returnRemove (s : State T) (t : T) : State T := { setOp s t .idle with removed := true }

/-- The next critical section of a removal: the fill lock, `findInternal`, the access
container, the put token, the put contexts, `couldExist` and the queue. -/
def removeStep (s : State T) (t : T) (other : Bool) : Op → Option (State T)
  | .started => if s.job = .filling then none else some (setOp s t .locked)
  | .locked =>
    match findInternal s with
    | none => some (setOp s t .unlinked)
    | some it => some (setOp s t (.found it.nvmClean))
  | .found nvmClean =>
    if nvmClean then some (setOp { s with item := none } t .unlinked)
    else some (returnRemove { s with item := none } t)
  | .unlinked => some (setOp { s with tokenValid := false } t .removeInvalidated)
  | .removeInvalidated =>
    some (setOp s t (if hasPutContexts s || other then .enqueueing else .noPuts))
  | .noPuts => if s.nvm || other then some (setOp s t .enqueueing) else some (returnRemove s t)
  | .enqueueing => some (returnRemove { s with queue := s.queue ++ [.remove] } t)
  | _ => none

/-! ## Lookup -/

def findInDram (s : State T) (t : T) (next : State T) : State T :=
  match findInternal s with
  | none => next
  | some _ => { setOp s t .idle with resurrected := s.resurrected || s.late t }

def startFind (s : State T) (t : T) : State T :=
  let begun : State T := { s with late := Function.update s.late t s.removed }
  findInDram begun t (setOp begun t .missed)

/-- The critical section of `NvmCache::find` under the fill lock. -/
def findLocked (s : State T) (t : T) (other : Bool) : State T :=
  match s.fill with
  | some _ => setOp s t .waiting
  | none =>
    if hasPutContexts s || s.nvm || other then setOp { s with fill := some true } t .creating
    else setOp s t .idle

/-- The next critical section of a lookup: the put token, the fill lock, the queue. -/
def findStep (s : State T) (t : T) (other : Bool) : Op → Option (State T)
  | .missed => some (setOp { s with tokenValid := false } t .findInvalidated)
  | .findInvalidated =>
    if s.job = .filling then none else some (findInDram s t (findLocked s t other))
  | .creating => some (setOp { s with queue := s.queue ++ [.lookup] } t .waiting)
  | _ => none

/-! ## Eviction from DRAM -/

/-- Only an item without handles can be marked. -/
def markForEviction (s : State T) (write : Bool) : Option (State T) :=
  match s.item with
  | some ⟨nvmClean, .unmarked⟩ =>
    if ∃ t, (s.ops t).hasHandle = true then none
    else if write then
      if s.evictor = .acquired then
        some { s with item := some ⟨nvmClean, .written⟩, evictor := .marked }
      else none
    else some { s with item := some ⟨nvmClean, .dropped⟩ }
  | _ => none

def unlinkItem (s : State T) : Option (State T) :=
  match s.item with
  | some ⟨_, .dropped⟩ => some { s with item := none }
  | _ => none

/-- The next critical section of an eviction to flash: it gives up without a mark, unlinks
the item unless that was replaced, checks for a tombstone, creates the context, and
queues the put if the token is still valid. -/
def putStep (s : State T) (abort : Bool) : Evictor → Option (State T)
  | .idle => none
  | .acquired => some { s with evictor := .idle }
  | .marked =>
    some { s with
      item := s.item.filter fun it => it.mark ≠ .written
      evictor := .unlinked }
  | .unlinked =>
    some { s with evictor := if hasTombStone s || abort then .idle else .checked }
  | .checked => some { s with evictor := .created }
  | .created =>
    if s.tokenValid && !abort then
      some { s with evictor := .idle, queue := s.queue ++ [.insert] }
    else some { s with evictor := .idle }

/-! ## Flash cache -/

def invalidateFill (s : State T) : State T := { s with fill := s.fill.map fun _ => false }

/-- `removeFromFillMap`: the waiters get the handle of the context. -/
def removeFromFillMap (s : State T) (hit : Bool) : State T :=
  { s with
    fill := none
    ops := fun t => if s.ops t = .waiting then .idle else s.ops t
    resurrected := s.resurrected ||
      (hit && decide (∃ t, s.ops t = .waiting ∧ s.late t = true)) }

/-- The item is inserted unless the access container has one of the key. -/
def insertFromNvm (s : State T) : State T :=
  match s.item with
  | none => { s with item := some ⟨true, .unmarked⟩, job := .handled true }
  | some _ => { s with job := .handled false }

/-- The next part of an operation of the flash cache. A lookup that cannot be read, or an item
that cannot be created, is removed by `NvmCache::remove`. -/
def runJob (s : State T) (outcome : Outcome) : NavyOp → List NavyOp → Job → Option (State T)
  | .lookup, _, .waiting => some { s with job := .read s.nvm }
  | .lookup, _, .read found =>
    if outcome = .failed then some { s with job := .failing }
    else if !found || decide (outcome = .expired) || hasTombStone s || decide (s.fill ≠ some true)
    then some { s with job := .handled false }
    else some { s with job := .filling }
  | .lookup, _, .failing => some { s with tokenValid := false, job := .failInvalidated }
  | .lookup, _, .failInvalidated =>
    if hasPutContexts s || decide (outcome = .falsePositive) then
      some { s with job := .failEnqueueing }
    else some { s with job := .failNoPuts }
  | .lookup, _, .failNoPuts =>
    if s.nvm || decide (outcome = .falsePositive) then some { s with job := .failEnqueueing }
    else some { s with job := .handled false }
  | .lookup, _, .failEnqueueing =>
    some { s with queue := s.queue ++ [.remove], job := .handled false }
  | .lookup, _, .filling => some (insertFromNvm s)
  | .lookup, queue, .handled hit =>
    some { removeFromFillMap s hit with queue := queue, job := .waiting }
  | .insert, _, .waiting =>
    if outcome = .failed then some { s with job := .putFailed }
    else some { s with nvm := true, job := .stored }
  | .insert, _, .putFailed => some { invalidateFill s with job := .stored }
  | .insert, queue, .stored => some { s with queue := queue, job := .waiting }
  | .remove, _, .waiting =>
    if s.nvm then some { s with nvm := false, job := .erased } else some { s with job := .completed }
  | .remove, _, .erased => some { invalidateFill s with job := .completed }
  | .remove, queue, .completed => some { s with queue := queue, job := .waiting }
  | _, _, _ => none

def step (s : State T) : Action T → Option (State T)
  | .insertOrReplace other =>
    if s.job = .filling ∨ ∃ t, (s.ops t).hasGuard = true then none
    else some (insertOrReplace s other)
  | .startRemove t => if s.ops t = .idle then some (setOp s t .started) else none
  | .continueRemove t other => removeStep s t other (s.ops t)
  | .startFind t => if s.ops t = .idle then some (startFind s t) else none
  | .continueFind t other => findStep s t other (s.ops t)
  | .acquireToken =>
    if s.evictor = .idle ∧ s.item ≠ none then
      some { s with evictor := .acquired, tokenValid := true }
    else none
  | .markForEviction write => markForEviction s write
  | .unlinkItem => unlinkItem s
  | .continuePut abort => putStep s abort s.evictor
  | .runJob outcome =>
    match s.queue with
    | [] => none
    | op :: queue => runJob s outcome op queue s.job
  | .recycle => if s.nvm then some { s with nvm := false, evictions := s.evictions + 1 } else none
  | .evictCB =>
    if 0 < s.evictions ∧ s.job ≠ .filling then
      some { invalidateFill s with evictions := s.evictions - 1 }
    else none

end Steps

end HybridCache.HybridRemove

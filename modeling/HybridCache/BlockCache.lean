import HybridCache.RegionAccounting

/-!
# The large-item engine

Entries are written into the slots of regions, and an index maps the hash of a key to
the end of its slot. Several keys may have the same hash. An insert, a lookup, a
removal, a flush and a reclaim are sequences of critical sections; an action is one of
them, so a list of actions is one interleaving. The device never fails here, and a flush
that is given up has no further step.

A region's bytes are modelled by the entries that end at an offset. Where nothing was
written the bytes are unknown, and reading there yields whatever the action says.

Three components are not part of the program. `slots` says what each slot of a region
was allocated for and whether it was written since, `history` lists the updates of the
index by inserts and removals, and `returned` lists the lookups that returned a value,
each with the history at the time of its index read.
-/
namespace HybridCache.BlockCache
open RegionManager Function

abbrev Key := List UInt8
abbrev Value := List UInt8

structure Entry where
  key : Key
  value : Value
  deriving DecidableEq, Repr

/-- The index uses only some bits of the hash, so that keys may collide. -/
structure Config extends RegionManager.Config where
  allocAlignSize : ℕ
  keyHash : Key → ℕ
  allocAlignSize_pos : 0 < allocAlignSize

instance : Coe Config RegionManager.Config := ⟨Config.toConfig⟩

def entryDescSize : ℕ := 24

def kMaxItemSize : ℕ := 512 * (2 ^ 16 - 1)

/-- The alignment is a power of two in the source. -/
def powTwoAlign (size boundary : ℕ) : ℕ := (size + (boundary - 1)) / boundary * boundary

def serializedSize (cfg : Config) (e : Entry) : ℕ :=
  powTwoAlign (entryDescSize + e.key.length + e.value.length) cfg.allocAlignSize

/-! ## State -/

/-- An update of the index by an insert or a removal. -/
inductive Update
  | insert (e : Entry)
  | remove (key : Key)
  deriving DecidableEq, Repr

def Update.key : Update → Key
  | .insert e => e.key
  | .remove key => key

structure Slot where
  entry : Entry
  written : Bool
  deriving DecidableEq, Repr

section Cache
variable (cfg : Config) (T : Type)

/-- A region and the offset at which an entry ends. -/
abbrev Address := RegionId cfg × ℕ

/-- The holders of descriptors: the threads, and the reclaim job of each region. -/
abbrev Holder := T ⊕ RegionId cfg

/-- Where the operation of a thread is. The first three are inserts, the others
lookups. -/
inductive Op
  | idle
  | allocated (e : Entry) (addr : Address cfg)
  | wrote (e : Entry) (addr : Address cfg)
  | indexed (e : Entry)
  | started (key : Key) (seqNumber : ℕ)
  | found (key : Key) (seqNumber : ℕ) (addrEnd : Address cfg) (seen : List Update)
  | opened (key : Key) (seqNumber : ℕ) (addrEnd : Address cfg) (seen : List Update)
  | ready (key : Key) (addrEnd : Address cfg) (seen : List Update)
  | finished (key : Key) (value : Option Value) (seen : List Update)

/-- Where the reclaim of a region is in its walk over the entries, from the last one
back to the first. -/
inductive Walk
  | idle
  | visiting (offset : ℕ)
  | peeked (offset : ℕ) (e : Entry)
  | allocated (offset : ℕ) (e : Entry) (addr : Address cfg)
  | wrote (offset : ℕ) (e : Entry) (addr : Address cfg)
  | unreplaced (offset : ℕ) (e : Entry)
  | finishing (offset : ℕ) (e : Entry)

structure State where
  manager : RegionManager.State cfg (Holder cfg T)
  index : ℕ → Option (Address cfg)
  buffer : RegionId cfg → ℕ → Option Entry
  device : RegionId cfg → ℕ → Option Entry
  /-- The copy of a region that its reclaim reads before the walk. -/
  image : RegionId cfg → ℕ → Option Entry
  ops : T → Op cfg
  walks : RegionId cfg → Walk cfg
  slots : Address cfg → Option Slot
  history : List Update
  returned : List (Key × Value × List Update)

def init : State cfg T where
  manager := RegionManager.init cfg (Holder cfg T)
  index _ := none
  buffer _ _ := none
  device _ _ := none
  image _ _ := none
  ops _ := .idle
  walks _ := .idle
  slots _ := none
  history := []
  returned := []

inductive Action
  | releaseRegion (priority : Priority cfg)
  | getCleanRegion (priority : Priority cfg)
  | assignBuffer (priority : Priority cfg)
  | flushBuffer (rid : RegionId cfg)
  | detachBuffer (rid : RegionId cfg)
  | track (rid : RegionId cfg)
  | evict (rid : RegionId cfg)
  | block (rid : RegionId cfg)
  | startWalk (rid : RegionId cfg)
  | endWalk (rid : RegionId cfg)
  | bumpSeqNumber (rid : RegionId cfg)
  | reset (rid : RegionId cfg)
  | returnRegion (rid : RegionId cfg)
  | insertAllocate (t : T) (e : Entry) (priority : Priority cfg)
  | continueInsert (t : T)
  | loadSeqNumber (t : T) (key : Key)
  | continueLookup (t : T) (unknown : Option Entry)
  | remove (key : Key)
  | continueWalk (rid : RegionId cfg)
  | evictItem (rid : RegionId cfg)
  | reinsertAllocate (rid : RegionId cfg) (priority : Priority cfg)

variable {cfg T}

/-! ## Index and slots -/

def removeIfMatch (index : ℕ → Option (Address cfg)) (hash : ℕ) (addr : Address cfg) :
    ℕ → Option (Address cfg) :=
  if index hash = some addr then update index hash none else index

def writeToBuffer (buffer : RegionId cfg → ℕ → Option Entry) (addr : Address cfg)
    (e : Entry) : RegionId cfg → ℕ → Option Entry :=
  update buffer addr.1 (update (buffer addr.1) addr.2 (some e))

def nextEnd (s : State cfg T) (rid : RegionId cfg) (size : ℕ) : Address cfg :=
  (rid, (s.manager.regions rid).lastEntryEndOffset + size)

def allocated (s : State cfg T) (m : RegionManager.State cfg (Holder cfg T))
    (e : Entry) (addr : Address cfg) : State cfg T :=
  { s with manager := m, slots := update s.slots addr (some ⟨e, false⟩) }

/-- `writeEntry` into the buffer of the slot's region. -/
def writeEntry (s : State cfg T) (e : Entry) (addr : Address cfg) : State cfg T :=
  { s with
    buffer := writeToBuffer s.buffer addr e
    slots := update s.slots addr (some ⟨e, true⟩) }

def clearSlots (slots : Address cfg → Option Slot) (rid : RegionId cfg) :
    Address cfg → Option Slot :=
  fun addr => if addr.1 = rid then none else slots addr

variable [DecidableEq T]

def setOp (s : State cfg T) (t : T) (op : Op cfg) : State cfg T :=
  { s with ops := update s.ops t op }

omit [DecidableEq T] in
def setWalk (s : State cfg T) (rid : RegionId cfg) (w : Walk cfg) : State cfg T :=
  { s with walks := update s.walks rid w }

/-- A step of the region manager that nothing else takes part in. -/
def manage (s : State cfg T) (a : RegionManager.Action cfg (Holder cfg T)) :
    Option (State cfg T) :=
  (RegionManager.step s.manager a).map fun m => { s with manager := m }

/-! ## Steps of regions -/

/-- A buffer is attached, with unknown contents, unless the pool is empty. -/
def assignBuffer (s : State cfg T) (p : Priority cfg) (rid : RegionId cfg) :
    Option (State cfg T) :=
  (RegionManager.step s.manager (.assignBuffer p)).map fun m =>
    { s with
      manager := m
      buffer := if s.manager.buffers = 0 then s.buffer
        else update s.buffer rid fun _ => none }

/-- The whole buffer is written to the device, unless writers are active or it was written
before. -/
def flushBuffer (s : State cfg T) (rid : RegionId cfg) : Option (State cfg T) :=
  (RegionManager.step s.manager (.runJob rid (.flushing 0) true)).map fun m =>
    { s with
      manager := m
      device := if (m.regions rid).flushed && !(s.manager.regions rid).flushed then
        update s.device rid (s.buffer rid)
      else s.device }

/-- Nobody has the region open any more, and its bytes are read for the walk. -/
def startWalk (s : State cfg T) (rid : RegionId cfg) : Option (State cfg T) :=
  (RegionManager.step s.manager (.runJob rid .blocked true)).map fun m =>
    setWalk { s with manager := m, image := update s.image rid (s.device rid) } rid
      (.visiting (s.manager.regions rid).lastEntryEndOffset)

def reset (s : State cfg T) (rid : RegionId cfg) : Option (State cfg T) :=
  (RegionManager.step s.manager (.runJob rid (.resetting true) true)).map fun m =>
    { s with manager := m, slots := clearSlots s.slots rid }

/-! ## Operations -/

def allocateSlot (s : State cfg T) (x : Holder cfg T) (e : Entry) (p : Priority cfg) :
    Option (State cfg T × Address cfg) :=
  match s.manager.allocators p with
  | .current rid =>
    (RegionManager.step s.manager (.allocate x p (serializedSize cfg e))).map fun m =>
      (allocated s m e (nextEnd s rid (serializedSize cfg e)),
        nextEnd s rid (serializedSize cfg e))
  | _ => none

/-- The bytes of an opened entry: of the buffer or of the device. -/
def readBytes (s : State cfg T) (mode : Mode) (addr : Address cfg) : Option Entry :=
  if mode = .InMemRead then s.buffer addr.1 addr.2 else s.device addr.1 addr.2

/-- `readEntry` compares the stored key with the expected one. -/
def checkKey (key : Key) (e : Option Entry) : Option Value :=
  e.bind fun e => if e.key = key then some e.value else none

/-- The next critical section of an insert: `writeEntry`, `index_.insert`, `close`. -/
def insertStep (s : State cfg T) (t : T) : Op cfg → Option (State cfg T)
  | .allocated e addr => some (setOp (writeEntry s e addr) t (.wrote e addr))
  | .wrote e addr =>
    some (setOp { s with
      index := update s.index (cfg.keyHash e.key) (some addr)
      history := s.history ++ [.insert e] } t (.indexed e))
  | .indexed _ => (manage s (.close (.inl t))).map fun s' => setOp s' t .idle
  | _ => none

/-- The next critical section of a lookup: the index read, `Region::openForRead`, the
check of the sequence number, `readEntry`, `close`. -/
def lookupStep (s : State cfg T) (t : T) (unknown : Option Entry) : Op cfg → Option (State cfg T)
  | .started key n =>
    match s.index (cfg.keyHash key) with
    | none => some (setOp s t .idle)
    | some addrEnd => some (setOp s t (.found key n addrEnd s.history))
  | .found key n addrEnd seen =>
    (manage s (.openForRead (.inl t) addrEnd.1 n)).map fun s' =>
      setOp s' t (if (s.manager.regions addrEnd.1).blockAccess then .idle
        else .opened key n addrEnd seen)
  | .opened key n addrEnd seen =>
    (manage s (.checkSeqNumber (.inl t))).map fun s' =>
      setOp s' t (if s.manager.seqNumber = n then .ready key addrEnd seen else .idle)
  | .ready key addrEnd seen =>
    match s.manager.descriptors (.inl t) with
    | none => none
    | some d =>
      some (setOp s t (.finished key
        (checkKey key ((readBytes s d.mode addrEnd).or unknown)) seen))
  | .finished key value seen =>
    (manage s (.close (.inl t))).map fun s' =>
      setOp { s' with
        returned := match value with
          | none => s.returned
          | some v => (key, v, seen) :: s.returned } t .idle
  | _ => none

/-- The next critical section of a walk: `index_.peek` for the next entry, or the rest of a
reinsertion, which is `writeEntry`, `index_.replaceIfMatch`, `index_.removeIfMatch` if
that failed, and `close`. -/
def walkStep (s : State cfg T) (rid : RegionId cfg) : Walk cfg → Option (State cfg T)
  | .visiting offset =>
    if offset = 0 then none
    else
      match s.image rid offset with
      -- the header checksum does not match: the walk is given up
      | none => some (setWalk s rid (.visiting 0))
      | some e =>
        if s.index (cfg.keyHash e.key) = some (rid, offset) then
          some (setWalk s rid (.peeked offset e))
        else some (setWalk s rid (.visiting (offset - serializedSize cfg e)))
  | .allocated offset e addr => some (setWalk (writeEntry s e addr) rid (.wrote offset e addr))
  | .wrote offset e addr =>
    if s.index (cfg.keyHash e.key) = some (rid, offset) then
      some (setWalk { s with index := update s.index (cfg.keyHash e.key) (some addr) } rid
        (.finishing offset e))
    else some (setWalk s rid (.unreplaced offset e))
  | .unreplaced offset e =>
    some (setWalk { s with index := removeIfMatch s.index (cfg.keyHash e.key) (rid, offset) } rid
      (.finishing offset e))
  | .finishing offset e =>
    (manage s (.close (.inr rid))).map fun s' =>
      setWalk s' rid (.visiting (offset - serializedSize cfg e))
  | _ => none

/-- A peeked entry that has expired, or that the policy does not reinsert, or for which
there is no slot. -/
def evictItem (s : State cfg T) (rid : RegionId cfg) : Walk cfg → Option (State cfg T)
  | .peeked offset e =>
    some (setWalk { s with index := removeIfMatch s.index (cfg.keyHash e.key) (rid, offset) } rid
      (.visiting (offset - serializedSize cfg e)))
  | _ => none

def step (s : State cfg T) : Action cfg T → Option (State cfg T)
  | .releaseRegion p => manage s (.releaseRegion p)
  | .getCleanRegion p => manage s (.getCleanRegion p)
  | .assignBuffer p =>
    match s.manager.allocators p with
    | .taking rid => assignBuffer s p rid
    | _ => none
  | .flushBuffer rid => flushBuffer s rid
  | .detachBuffer rid => manage s (.runJob rid .flushed true)
  | .track rid => manage s (.runJob rid .detached true)
  | .evict rid => manage s (.evict rid)
  | .block rid => manage s (.runJob rid .evicted true)
  | .startWalk rid => startWalk s rid
  | .endWalk rid =>
    match s.walks rid with
    | .visiting 0 => (manage s (.runJob rid .drained true)).map fun s' => setWalk s' rid .idle
    | _ => none
  | .bumpSeqNumber rid => manage s (.runJob rid (.releasing true) true)
  | .reset rid => reset s rid
  | .returnRegion rid => manage s (.runJob rid (.returning true) true)
  | .insertAllocate t e p =>
    match s.ops t with
    | .idle =>
      if serializedSize cfg e ≤ kMaxItemSize then
        (allocateSlot s (.inl t) e p).map fun r => setOp r.1 t (.allocated e r.2)
      else none
    | _ => none
  | .continueInsert t => insertStep s t (s.ops t)
  | .loadSeqNumber t key =>
    match s.ops t with
    | .idle => some (setOp s t (.started key s.manager.seqNumber))
    | _ => none
  | .continueLookup t unknown => lookupStep s t unknown (s.ops t)
  | .remove key =>
    some { s with
      index := update s.index (cfg.keyHash key) none
      history := s.history ++ [.remove key] }
  | .continueWalk rid => walkStep s rid (s.walks rid)
  | .evictItem rid => evictItem s rid (s.walks rid)
  | .reinsertAllocate rid p =>
    match s.walks rid with
    | .peeked offset e =>
      (allocateSlot s (.inr rid) e p).map fun r => setWalk r.1 rid (.allocated offset e r.2)
    | _ => none

end Cache

end HybridCache.BlockCache

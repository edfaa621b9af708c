import HybridCache.Transition

/-!
# Regions of the large-item engine

A region is filled through an in-memory buffer, flushed to the device, tracked by
the eviction policy, reclaimed and reused. Readers and writers hold descriptors,
and a region counts them by mode. Every action is one critical section, so a list
of actions is one interleaving of any number of operations and background jobs.

The holders of descriptors are the elements of a finite type. The eviction policy
is any policy: an action names the victim. `Region::reset` and `Region::close` leave
two marks that no code reads: whether every reset so far found a region that nobody
had opened, and whether every close so far found a positive counter.
-/
namespace HybridCache.RegionManager
open Function

/-- A configuration that `BlockCache::Config::validate` accepts. -/
structure Config where
  cacheSize : ℕ
  regionSize : ℕ
  cleanRegionsPool : ℕ
  numInMemBuffers : ℕ
  numPriorities : ℕ
  inMemBufFlushRetryLimit : ℕ
  regionSize_pos : 0 < regionSize
  regionSize_le : regionSize ≤ 256 * 2 ^ 20
  cacheSize_pos : 0 < cacheSize
  cacheSize_mod : cacheSize % regionSize = 0
  cleanRegionsPool_le : cleanRegionsPool ≤ cacheSize / regionSize
  numInMemBuffers_ne : numInMemBuffers ≠ 0
  numPriorities_ne : numPriorities ≠ 0

def Config.numRegions (cfg : Config) : ℕ := cfg.cacheSize / cfg.regionSize

inductive Mode
  | Write
  | PhysRead
  | InMemRead
  deriving DecidableEq, Repr

/-- The flags, the counters `activeWriters_`, `activePhysReaders_` and
`activeInMemReaders_` by mode, and the allocation state of a region. -/
@[ext]
structure Region where
  blockAccess : Bool
  flushPending : Bool
  flushed : Bool
  cleanedup : Bool
  active : Mode → ℕ
  lastEntryEndOffset : ℕ
  numItems : ℕ
  priority : ℕ
  hasBuffer : Bool

def Region.fresh : Region := ⟨false, false, false, false, fun _ => 0, 0, 0, 0, false⟩

/-! ## One region -/

def Region.activeOpen (g : Region) : ℕ := g.active .PhysRead + g.active .InMemRead + g.active .Write

def Region.canAllocate (cfg : Config) (g : Region) (size : ℕ) : Bool :=
  decide (g.lastEntryEndOffset + size ≤ cfg.regionSize)

def Region.addActive (g : Region) (m : Mode) : Region :=
  { g with active := update g.active m (g.active m + 1) }

/-- The counters are unsigned 32-bit integers. -/
def decrement (n : ℕ) : ℕ := if n = 0 then 2 ^ 32 - 1 else n - 1

def Region.close (g : Region) (m : Mode) : Region :=
  { g with active := update g.active m (decrement (g.active m)) }

/-- The mode in which a region that is not blocked is opened for reading. -/
def Region.readMode (g : Region) : Mode :=
  if g.flushed || !g.hasBuffer then .PhysRead else .InMemRead

/-- The region with a slot of this size behind its last entry, opened for writing. -/
def Region.openAndAllocate (g : Region) (size : ℕ) : Region :=
  { g.addActive .Write with
    lastEntryEndOffset := g.lastEntryEndOffset + size, numItems := g.numItems + 1 }

/-- Everything but the buffer is reset. -/
def Region.reset (g : Region) : Region := { Region.fresh with hasBuffer := g.hasBuffer }

@[simp] lemma Region.active_addActive (g : Region) (m : Mode) :
    (g.addActive m).active = update g.active m (g.active m + 1) := rfl

@[simp] lemma Region.active_close (g : Region) (m : Mode) :
    (g.close m).active = update g.active m (decrement (g.active m)) := rfl

@[simp] lemma Region.active_reset (g : Region) (m : Mode) : g.reset.active m = 0 := rfl

lemma Region.readMode_ne_write (g : Region) : g.readMode ≠ .Write := by
  unfold Region.readMode
  split_ifs <;> decide

/-! ## Jobs and allocators -/

/-- The next thing a flush or reclaim job does. The flag of the last three phases
tells whether the job is a reclaim. -/
inductive Phase
  | flushing (retryAttempts : ℕ)
  | flushed
  | detached
  | failing
  | cleanedup
  | evicted
  | blocked
  | drained
  | releasing (reclaim : Bool)
  | resetting (reclaim : Bool)
  | returning (reclaim : Bool)
  deriving DecidableEq, Repr

def Phase.isReclaim : Phase → Bool
  | .evicted => true
  | .blocked => true
  | .drained => true
  | .releasing reclaim => reclaim
  | .resetting reclaim => reclaim
  | .returning reclaim => reclaim
  | _ => false

section Manager
variable (cfg : Config) (ι : Type)

abbrev RegionId := Fin cfg.numRegions

instance : LawfulBEq (RegionId cfg × Phase) := inferInstance

abbrev Priority := Fin cfg.numPriorities

/-- A descriptor, with the sequence number to compare while that check is due. -/
structure Descriptor where
  id : RegionId cfg
  mode : Mode
  expected : Option ℕ
  deriving DecidableEq

/-- A region allocator has no region, has a current one, or holds its lock in
`getCleanRegion` with a region that has no buffer yet. -/
inductive RegionAllocator
  | idle
  | taking (rid : RegionId cfg)
  | current (rid : RegionId cfg)
  deriving DecidableEq

structure State where
  regions : RegionId cfg → Region
  seqNumber : ℕ
  descriptors : ι → Option (Descriptor cfg)
  policy : List (RegionId cfg)
  cleanRegions : List (RegionId cfg)
  reclaimsOutstanding : ℕ
  /-- Reclaim jobs in the queues of the workers. -/
  scheduled : ℕ
  allocators : Priority cfg → RegionAllocator cfg
  /-- The number of buffers in the pool. -/
  buffers : ℕ
  jobs : List (RegionId cfg × Phase)
  resetsUnused : Bool
  closesCounted : Bool

/-- All regions are tracked and all buffers are in the pool. -/
def init : State cfg ι where
  regions _ := Region.fresh
  seqNumber := 0
  descriptors _ := none
  policy := List.finRange cfg.numRegions
  cleanRegions := []
  reclaimsOutstanding := 0
  scheduled := 0
  allocators _ := .idle
  buffers := cfg.numInMemBuffers
  jobs := []
  resetsUnused := true
  closesCounted := true

inductive Action
  | openForRead (i : ι) (rid : RegionId cfg) (seqNumber : ℕ)
  | checkSeqNumber (i : ι)
  | close (i : ι)
  | allocate (i : ι) (priority : Priority cfg) (size : ℕ)
  | releaseRegion (priority : Priority cfg)
  | getCleanRegion (priority : Priority cfg)
  | assignBuffer (priority : Priority cfg)
  | evict (rid : RegionId cfg)
  | runJob (rid : RegionId cfg) (phase : Phase) (written : Bool)

variable {cfg ι}

def setRegion (s : State cfg ι) (rid : RegionId cfg) (g : Region) : State cfg ι :=
  { s with regions := update s.regions rid g }

def moveJob (s : State cfg ι) (rid : RegionId cfg) (old new : Phase) : State cfg ι :=
  { s with jobs := (rid, new) :: s.jobs.erase (rid, old) }

def endJob (s : State cfg ι) (rid : RegionId cfg) (old : Phase) : State cfg ι :=
  { s with jobs := s.jobs.erase (rid, old) }

variable [DecidableEq ι]

def setDescriptor (s : State cfg ι) (i : ι) (d : Option (Descriptor cfg)) : State cfg ι :=
  { s with descriptors := update s.descriptors i d }

/-- `Region::close` for the descriptor of a holder. -/
def closeRegion (s : State cfg ι) (i : ι) (d : Descriptor cfg) : State cfg ι :=
  { setRegion (setDescriptor s i none) d.id ((s.regions d.id).close d.mode) with
    closesCounted := s.closesCounted && decide ((s.regions d.id).active d.mode ≠ 0) }

def openRegion (s : State cfg ι) (i : ι) (rid : RegionId cfg) (seqNumber : ℕ) : State cfg ι :=
  setRegion (setDescriptor s i (some ⟨rid, (s.regions rid).readMode, some seqNumber⟩)) rid
    ((s.regions rid).addActive (s.regions rid).readMode)

/-! ## Steps -/

/-- The number of reclaims that `getCleanRegion` schedules when `clean` regions are
left in the list. -/
def newScheduled (cfg : Config) (clean outstanding : ℕ) : ℕ :=
  if clean + outstanding < cfg.cleanRegionsPool then
    cfg.cleanRegionsPool - (clean + outstanding)
  else 0

def schedule (s : State cfg ι) : State cfg ι :=
  { s with
    reclaimsOutstanding := s.reclaimsOutstanding +
      newScheduled cfg s.cleanRegions.length s.reclaimsOutstanding
    scheduled := s.scheduled + newScheduled cfg s.cleanRegions.length s.reclaimsOutstanding }

/-- The critical section of `getCleanRegion`: take the last clean region, if any, and
schedule reclaims. -/
def popCleanRegion (s : State cfg ι) (p : Priority cfg) : State cfg ι :=
  match s.cleanRegions.getLast? with
  | none => schedule s
  | some rid =>
    schedule { s with
      cleanRegions := s.cleanRegions.dropLast
      allocators := update s.allocators p (.taking rid) }

/-- The rest of `getCleanRegion` and `allocateWith`: a buffer is attached and the
region becomes the current one, or the region goes back to the clean list. -/
def assignBufferToRegion (s : State cfg ι) (p : Priority cfg) (rid : RegionId cfg) :
    State cfg ι :=
  if s.buffers = 0 then
    { s with
      cleanRegions := s.cleanRegions ++ [rid]
      allocators := update s.allocators p .idle }
  else
    { setRegion s rid { s.regions rid with hasBuffer := true, priority := p } with
      buffers := s.buffers - 1
      allocators := update s.allocators p (.current rid) }

def detachBuffer (s : State cfg ι) (rid : RegionId cfg) : State cfg ι :=
  { setRegion s rid { s.regions rid with hasBuffer := false } with buffers := s.buffers + 1 }

def resetRegion (s : State cfg ι) (rid : RegionId cfg) : State cfg ι :=
  { setRegion s rid (s.regions rid).reset with
    resetsUnused := s.resetsUnused && decide ((s.regions rid).activeOpen = 0) }

/-- The next step of a flush or reclaim job, with the outcome of the device write of
a flush. A job that waits on a condition variable has no step. -/
def runJob (s : State cfg ι) (rid : RegionId cfg) (written : Bool) : Phase → Option (State cfg ι)
  | .flushing n =>
    if n < cfg.inMemBufFlushRetryLimit then
      if (s.regions rid).active .Write ≠ 0 then some s
      else if (s.regions rid).flushed then some (moveJob s rid (.flushing n) .flushed)
      else if written then
        some (moveJob (setRegion s rid { s.regions rid with flushed := true }) rid (.flushing n)
          .flushed)
      else some (moveJob s rid (.flushing n) (.flushing (n + 1)))
    else some (moveJob s rid (.flushing n) .failing)
  | .flushed =>
    if (s.regions rid).active .InMemRead ≠ 0 then none
    else some (moveJob (detachBuffer s rid) rid .flushed .detached)
  | .detached => some { endJob s rid .detached with policy := s.policy ++ [rid] }
  | .failing =>
    if (s.regions rid).active .Write ≠ 0 then none
    else
      some (moveJob (setRegion s rid { s.regions rid with cleanedup := true }) rid .failing
        .cleanedup)
  | .cleanedup =>
    if (s.regions rid).active .InMemRead ≠ 0 then none
    else some (moveJob (detachBuffer s rid) rid .cleanedup (.releasing false))
  | .evicted =>
    some (moveJob (setRegion s rid { s.regions rid with blockAccess := true }) rid .evicted
      .blocked)
  | .blocked =>
    if (s.regions rid).activeOpen ≠ 0 then none else some (moveJob s rid .blocked .drained)
  | .drained => some (moveJob s rid .drained (.releasing true))
  | .releasing reclaim =>
    some { moveJob s rid (.releasing reclaim) (.resetting reclaim) with
      seqNumber := s.seqNumber + 1 }
  | .resetting reclaim =>
    some (moveJob (resetRegion s rid) rid (.resetting reclaim) (.returning reclaim))
  | .returning reclaim =>
    some { endJob s rid (.returning reclaim) with
      cleanRegions := s.cleanRegions ++ [rid]
      reclaimsOutstanding := if reclaim then s.reclaimsOutstanding - 1 else s.reclaimsOutstanding }

def step (s : State cfg ι) : Action cfg ι → Option (State cfg ι)
  | .openForRead i rid seqNumber =>
    if s.descriptors i ≠ none then none
    else if (s.regions rid).blockAccess then some s
    else some (openRegion s i rid seqNumber)
  | .checkSeqNumber i =>
    match s.descriptors i with
    | some ⟨rid, mode, some seqNumber⟩ =>
      if s.seqNumber = seqNumber then some (setDescriptor s i (some ⟨rid, mode, none⟩))
      else some (closeRegion s i ⟨rid, mode, some seqNumber⟩)
    | _ => none
  | .close i =>
    match s.descriptors i with
    | some ⟨rid, mode, none⟩ => some (closeRegion s i ⟨rid, mode, none⟩)
    | _ => none
  | .allocate i p size =>
    match s.allocators p with
    | .current rid =>
      if s.descriptors i ≠ none ∨ size = 0 then none
      else if (s.regions rid).canAllocate cfg size then
        some (setRegion (setDescriptor s i (some ⟨rid, .Write, none⟩)) rid
          ((s.regions rid).openAndAllocate size))
      else none
    | _ => none
  | .releaseRegion p =>
    match s.allocators p with
    | .current rid =>
      some { setRegion s rid { s.regions rid with flushPending := true } with
        allocators := update s.allocators p .idle
        jobs := (rid, .flushing 0) :: s.jobs }
    | _ => none
  | .getCleanRegion p =>
    match s.allocators p with
    | .idle => some (popCleanRegion s p)
    | _ => none
  | .assignBuffer p =>
    match s.allocators p with
    | .taking rid => some (assignBufferToRegion s p rid)
    | _ => none
  | .evict rid =>
    if 0 < s.scheduled ∧ rid ∈ s.policy then
      some { s with
        policy := s.policy.erase rid
        scheduled := s.scheduled - 1
        jobs := (rid, .evicted) :: s.jobs }
    else none
  | .runJob rid phase written =>
    if (rid, phase) ∈ s.jobs then runJob s rid written phase else none

end Manager

end HybridCache.RegionManager

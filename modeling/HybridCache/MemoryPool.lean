import HybridCache.AllocationLoad
import HybridCache.SlabAllocator

/-!
# A memory pool

A pool takes slabs from the slab allocator, gives them to its allocation classes and keeps some
of its own. `currSlabAllocSize_` counts the bytes of the slabs of its classes, `currAllocSize_`
the bytes handed out, `curSlabsAdvised_` the slabs advised away. The counters are atomics that a
call changes before or after it moves the slab or the memory, so a call is a sequence of steps,
and calls of several threads interleave. The pools share the slab allocator.
-/
namespace HybridCache.MemoryPool
open Transition Function
open AllocationClass (kSize Mem)
open SlabAllocator (Slab)

/-- `acSizes_`: the allocation sizes of the classes, in increasing order. -/
structure Config (ι : Type*) where
  slabs : SlabAllocator.Config
  id : ι
  numClasses : ℕ
  classes : Fin numClasses → AllocationClass.Config
  sorted : StrictMono fun c => (classes c).allocationSize

abbrev ClassId {ι : Type*} (cfg : Config ι) := Fin cfg.numClasses

inductive SlabReleaseMode
  | resize
  | rebalance
  | advise
  deriving DecidableEq, Repr

/-- What a `SlabReleaseContext` asks for; `none` is `kInvalidClassId`. -/
structure Request {ι : Type*} (cfg : Config ι) where
  mode : SlabReleaseMode
  receiver : Option (ClassId cfg)
  deriving DecidableEq

/-- A call that has not returned, by what it does next. -/
inductive Call {ι : Type*} (cfg : Config ι)
  /-- `allocate`: the class had no memory. -/
  | slowPath (c : ClassId cfg)
  /-- `allocate`: under the lock, tries the class again. -/
  | locked (c : ClassId cfg)
  /-- `getSlabLocked`: tests the limit. -/
  | wantsSlab (c : ClassId cfg)
  /-- `getSlabLocked`: the size is counted, the pool has no free slab. -/
  | counted (c : ClassId cfg)
  /-- `getSlabLocked`: the slab allocator had none. -/
  | refused
  /-- `allocate`: adds the slab to the class. -/
  | hasSlab (c : ClassId cfg) (slab : Slab cfg.slabs)
  /-- `allocate`: counts the memory and returns it. -/
  | allocated (c : ClassId cfg) (m : Mem (Slab cfg.slabs))
  /-- `free`: the class has the memory. -/
  | freed (c : ClassId cfg)
  /-- `releaseSlab`: the slab has left its class. -/
  | releasing (slab : Slab cfg.slabs) (request : Request cfg)
  /-- `releaseSlab`: the slab has been advised away. -/
  | advised
  /-- `releaseSlab`: the slab has been passed on. -/
  | released
  /-- `reclaimSlabsAndGrow`: rounds of the loop that are left. -/
  | growing (rounds : ℕ)
  /-- `reclaimSlabsAndGrow`: a slab has been reclaimed. -/
  | reclaimed (slab : Slab cfg.slabs) (rounds : ℕ)
  deriving DecidableEq

/-- The counters have their exact values, as integers; the code sees them through `sizeT`. -/
structure State {ι : Type*} (cfg : Config ι) where
  slabAllocator : SlabAllocator.State cfg.slabs ι
  classes : ClassId cfg → AllocationClass.State (Slab cfg.slabs)
  freeSlabs : List (Slab cfg.slabs)
  maxSize : ℕ
  currSlabAllocSize : ℤ
  currAllocSize : ℤ
  curSlabsAdvised : ℤ
  /-- The request of a slab under release. -/
  request : Slab cfg.slabs → Request cfg
  calls : List (Call cfg)
  /-- The memory that callers hold, with the class it came from. -/
  returned : List (ClassId cfg × Mem (Slab cfg.slabs))

variable {ι : Type*} [DecidableEq ι] {cfg : Config ι}

def initial (cfg : Config ι) (maxSize : ℕ) : State cfg where
  slabAllocator := SlabAllocator.initial cfg.slabs ι
  classes := fun _ => AllocationClass.initial _
  freeSlabs := []
  maxSize := maxSize
  currSlabAllocSize := 0
  currAllocSize := 0
  curSlabsAdvised := 0
  request := fun _ => ⟨.resize, none⟩
  calls := []
  returned := []

/-- The value of a counter of type `size_t` or `uint64_t`. -/
def sizeT (x : ℤ) : ℕ := (x % 2 ^ 64).toNat

def allocSize (c : ClassId cfg) : ℕ := (cfg.classes c).allocationSize

/-- `getAllocationClassId(size)`: the first class that is large enough. -/
def allocationClassId (cfg : Config ι) (size : ℕ) : Option (ClassId cfg) :=
  if size = 0 then none
  else (List.finRange cfg.numClasses).find? fun c => decide (size ≤ allocSize c)

/-- `getAllocationClassId(memory)`: by the header of its slab. -/
def classOfMemory (s : State cfg) (m : Mem (Slab cfg.slabs)) : Option (ClassId cfg) :=
  if SlabAllocator.isValidSlab s.slabAllocator m.1 = true ∧
      (s.slabAllocator.header m.1).poolId = some cfg.id then
    (List.finRange cfg.numClasses).find? fun c => (s.classes c).owned m.1
  else none

def allSlabsAllocated (s : State cfg) : Bool :=
  decide (s.maxSize <
    (sizeT s.currSlabAllocSize + sizeT s.curSlabsAdvised * kSize + kSize) % 2 ^ 64)

def setClass (s : State cfg) (c : ClassId cfg) (u : AllocationClass.State (Slab cfg.slabs)) :
    State cfg :=
  { s with classes := update s.classes c u }

def goOn (s : State cfg) (call : Call cfg) : State cfg := { s with calls := call :: s.calls }

/-- `ac.allocate()`. `early` is the return without the lock, when the flag of the class is
cleared. -/
def tryAllocate (s : State cfg) (c : ClassId cfg) (early : Bool) (next : Call cfg) :
    Option (State cfg) :=
  if early then if (s.classes c).canAllocate then none else some (goOn s next)
  else
    let r := AllocationClass.allocate (cfg.classes c) (s.classes c)
    let s := setClass s c r.2
    match r.1 with
    | some m => some (goOn s (.allocated c m))
    | none => some (goOn s next)

/-- `getSlabLocked` up to the call of the slab allocator. -/
def getSlabLocked (s : State cfg) (c : ClassId cfg) : State cfg :=
  if allSlabsAllocated s then s
  else
    let s := { s with currSlabAllocSize := s.currSlabAllocSize + kSize }
    match s.freeSlabs.getLast? with
    | some slab => goOn { s with freeSlabs := s.freeSlabs.dropLast } (.hasSlab c slab)
    | none => goOn s (.counted c)

/-- `ac.addSlabAndAllocate(slab)`. -/
def addSlabAndAllocate (s : State cfg) (c : ClassId cfg) (slab : Slab cfg.slabs) :
    Option (State cfg) :=
  (AllocationClass.step (cfg.classes c) (s.classes c) (.addSlabAndAllocate slab)).map fun u =>
    let s' := setClass s c u
    match (AllocationClass.allocate (cfg.classes c)
      (AllocationClass.addSlabLocked (s.classes c) slab)).1 with
    | some m => goOn s' (.allocated c m)
    | none => { s' with currAllocSize := s'.currAllocSize + allocSize c }

/-- `releaseSlab`, up to the change of the size. `madvised` is the outcome of `madvise`. -/
def releaseSlab (s : State cfg) (slab : Slab cfg.slabs) (request : Request cfg) (madvised : Bool) :
    Option (State cfg) :=
  match request.mode with
  | .resize =>
    match SlabAllocator.freeSlab s.slabAllocator slab with
    | some a => some (goOn { s with slabAllocator := a } .released)
    | none => some s
  | .advise =>
    match SlabAllocator.adviseSlab s.slabAllocator slab madvised with
    | some a =>
      let s := { s with slabAllocator := a }
      if madvised then some (goOn s .advised)
      else some (goOn { s with freeSlabs := s.freeSlabs ++ [slab] } .released)
    | none => some s
  | .rebalance =>
    match request.receiver with
    | some c =>
      (AllocationClass.step (cfg.classes c) (s.classes c) (.addSlab slab)).map fun u =>
        setClass s c u
    | none => some (goOn { s with freeSlabs := s.freeSlabs ++ [slab] } .released)

/-- The next step of a call. `choice` says whether `ac.allocate` returns early and whether
`madvise` succeeds. -/
def proceed (s : State cfg) (choice : Bool) : Call cfg → Option (State cfg)
  | .slowPath c => if allSlabsAllocated s then some s else some (goOn s (.locked c))
  | .locked c => tryAllocate s c choice (.wantsSlab c)
  | .wantsSlab c => some (getSlabLocked s c)
  | .counted c =>
    let r := SlabAllocator.makeNewSlab s.slabAllocator cfg.id
    let s := { s with slabAllocator := r.2 }
    match r.1 with
    | some slab => some (goOn s (.hasSlab c slab))
    | none => some (goOn s .refused)
  | .refused => some { s with currSlabAllocSize := s.currSlabAllocSize - kSize }
  | .hasSlab c slab => addSlabAndAllocate s c slab
  | .allocated c m =>
    some { s with currAllocSize := s.currAllocSize + allocSize c, returned := (c, m) :: s.returned }
  | .freed c => some { s with currAllocSize := s.currAllocSize - allocSize c }
  | .releasing slab request => releaseSlab s slab request choice
  | .advised => some (goOn { s with curSlabsAdvised := s.curSlabsAdvised + 1 } .released)
  | .released => some { s with currSlabAllocSize := s.currSlabAllocSize - kSize }
  | .growing 0 => some s
  | .growing (rounds + 1) =>
    let r := SlabAllocator.reclaimSlab s.slabAllocator cfg.id
    let s := { s with slabAllocator := r.2 }
    match r.1 with
    | some slab => some (goOn s (.reclaimed slab rounds))
    | none => some s
  | .reclaimed slab rounds =>
    some (goOn { s with
      freeSlabs := s.freeSlabs ++ [slab]
      curSlabsAdvised := s.curSlabsAdvised - 1 } (.growing rounds))

/-- The lock sections of a release that concern its class only. -/
inductive Section (σ : Type*)
  | takeOffline
  | pruneLoop (shouldAbort : Bool)
  | collect
  | undoPrune
  | throwAborted
  | waitUntilAllFreed (slab : σ)

def Section.action {σ : Type*} : Section σ → AllocationClass.Action σ
  | .takeOffline => .takeOffline
  | .pruneLoop shouldAbort => .pruneLoop shouldAbort
  | .collect => .collect
  | .undoPrune => .undoPrune
  | .throwAborted => .throwAborted
  | .waitUntilAllFreed slab => .waitUntilAllFreed slab

inductive Action (cfg : Config ι)
  | allocate (size : ℕ) (early : Bool)
  | free (c : ClassId cfg) (m : Mem (Slab cfg.slabs))
  | startSlabRelease (victim receiver : Option (ClassId cfg)) (mode : SlabReleaseMode)
      (slab : Slab cfg.slabs)
  | releaseSection (c : ClassId cfg) (a : Section (Slab cfg.slabs))
  /-- The last lock section of `startSlabRelease` in the class. -/
  | buildContext (c : ClassId cfg)
  | abortSlabRelease (c : ClassId cfg) (slab : Slab cfg.slabs)
  | completeSlabRelease (c : ClassId cfg) (slab : Slab cfg.slabs)
  | reclaimSlabsAndGrow (numSlabs : ℕ)
  | resize (size : ℕ)
  /-- The next step of a call in progress. -/
  | proceed (call : ℕ) (choice : Bool)
  /-- Another pool uses the slab allocator. -/
  | otherPool (a : SlabAllocator.Action cfg.slabs ι)

/-- `releaseFromFreeSlabs`; an empty list makes it throw. -/
def releaseFromFreeSlabs (s : State cfg) (receiver : Option (ClassId cfg)) : State cfg :=
  match s.freeSlabs.getLast? with
  | some slab =>
    goOn { s with freeSlabs := s.freeSlabs.dropLast } (.releasing slab ⟨.resize, receiver⟩)
  | none => s

/-- `startSlabRelease`, up to the end of the first lock section of the victim class. A free slab
of the class is released at once. -/
def startSlabRelease (s : State cfg) (victim receiver : Option (ClassId cfg))
    (mode : SlabReleaseMode) (slab : Slab cfg.slabs) : Option (State cfg) :=
  if receiver.isSome = true ∧ mode ≠ .rebalance then some s
  else
    match victim with
    | none => if mode ≠ .resize then some s else some (releaseFromFreeSlabs s receiver)
    | some c =>
      (AllocationClass.step (cfg.classes c) (s.classes c) (.startSlabRelease slab)).map fun u =>
        if slab ∈ (s.classes c).freeSlabs then
          goOn (setClass s c u) (.releasing slab ⟨mode, receiver⟩)
        else { setClass s c u with request := update s.request slab ⟨mode, receiver⟩ }

/-- Another pool's actions concern other pool ids and slabs that this pool does not hold. -/
def isForeign (s : State cfg) : SlabAllocator.Action cfg.slabs ι → Bool
  | .makeNewSlab id | .reclaimSlab id => decide (id ≠ cfg.id)
  | .freeSlab slab | .adviseSlab slab _ => decide (s.slabAllocator.held slab ≠ some cfg.id)

def step (s : State cfg) : Action cfg → Option (State cfg)
  | .allocate size early =>
    match allocationClassId cfg size with
    | none => some s
    | some c => tryAllocate s c early (.slowPath c)
  | .free c m =>
    if (c, m) ∈ s.returned then
      match classOfMemory s m with
      | none => some s
      | some c' =>
        match AllocationClass.step (cfg.classes c') (s.classes c') (.free m) with
        | none => some s
        | some u =>
          some (goOn { setClass s c' u with returned := s.returned.erase (c, m) } (.freed c'))
    else none
  | .startSlabRelease victim receiver mode slab => startSlabRelease s victim receiver mode slab
  | .releaseSection c a =>
    (AllocationClass.step (cfg.classes c) (s.classes c) a.action).map fun u => setClass s c u
  | .buildContext c =>
    match (s.classes c).release with
    | some (slab, .collected active) =>
      (AllocationClass.step (cfg.classes c) (s.classes c) .buildContext).map fun u =>
        if active.isEmpty then goOn (setClass s c u) (.releasing slab (s.request slab))
        else setClass s c u
    | _ => none
  | .abortSlabRelease c slab =>
    (AllocationClass.step (cfg.classes c) (s.classes c) (.abortSlabRelease slab)).map fun u =>
      setClass s c u
  | .completeSlabRelease c slab =>
    (AllocationClass.step (cfg.classes c) (s.classes c) (.completeSlabRelease slab)).map fun u =>
      goOn (setClass s c u) (.releasing slab (s.request slab))
  | .reclaimSlabsAndGrow numSlabs => some (goOn s (.growing numSlabs))
  | .resize size => some { s with maxSize := size }
  | .proceed call choice =>
    match s.calls[call]? with
    | some c => proceed { s with calls := s.calls.eraseIdx call } choice c
    | none => none
  | .otherPool a =>
    if isForeign s a then
      (SlabAllocator.step s.slabAllocator a).map fun t => { s with slabAllocator := t }
    else none

end HybridCache.MemoryPool

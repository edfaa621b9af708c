import HybridCache.Transition

/-!
# An allocation class and its slab releases

A class owns slabs and cuts them into chunks of one size. A chunk is free on the
free list, not yet carved, marked free in the bitmap of a slab that is being
released, or handed out. A step is what one thread does while it holds the lock
of the class; `startSlabRelease` takes the lock several times, and between two
of its steps other threads allocate and free. `startSlabReleaseLock_` admits one
release at a time up to the point where its context is returned.

Slabs are addresses of an arbitrary type and memory is a slab with a byte
offset. The list `handedOut` is not part of the class: it records which
allocations callers hold.
-/
namespace HybridCache.AllocationClass
open Transition Function List

def kSize : ℕ := 2 ^ 22

def kFreeAllocsPruneLimit : ℕ := 4 * 1024

/-- The size check of the constructor. -/
structure Config where
  allocationSize : ℕ
  pos : 0 < allocationSize
  le : allocationSize ≤ kSize

def getAllocsPerSlab (cfg : Config) : ℕ := kSize / cfg.allocationSize

abbrev Mem (σ : Type*) := σ × ℕ

/-- Where `startSlabRelease` stands, with the lists that `pruneFreeAllocs` keeps outside the class.
-/
inductive Phase (σ : Type*) where
  /-- the slab is marked, `pruneFreeAllocs` has not run yet -/
  | marked
  /-- one batch has been partitioned, its results are not yet put back -/
  | batch (freeAllocs inSlab notInSlab : List (Mem σ))
  /-- the free list is clean, the active allocations are not yet collected -/
  | pruned
  /-- the active allocations are collected, the context is not yet built -/
  | collected (activeAllocations : List (Mem σ))
  /-- `shouldAbortFn` returned true, the lists are not yet put back -/
  | aborting (freeAllocs inSlab notInSlab : List (Mem σ))
  /-- the lists are back, the slab is still marked -/
  | aborted

/-- `allFreed` is set once `waitUntilAllFreed` has returned. -/
structure Context (σ : Type*) where
  slab : σ
  activeAllocations : List (Mem σ)
  allFreed : Bool

structure State (σ : Type*) where
  freeSlabs : List σ
  allocatedSlabs : List σ
  currSlab : Option σ
  currOffset : ℕ
  freedAllocations : List (Mem σ)
  slabReleaseAllocMap : σ → Option (List Bool)
  canAllocate : Bool
  activeReleases : ℤ
  /-- slabs whose header has the id of this class -/
  owned : σ → Bool
  /-- slabs whose header is marked for release -/
  markedForRelease : σ → Bool
  release : Option (σ × Phase σ)
  contexts : List (Context σ)
  handedOut : List (Mem σ)

def initial (σ : Type*) : State σ where
  freeSlabs := []
  allocatedSlabs := []
  currSlab := none
  currOffset := 0
  freedAllocations := []
  slabReleaseAllocMap := fun _ => none
  canAllocate := true
  activeReleases := 0
  owned := fun _ => false
  markedForRelease := fun _ => false
  release := none
  contexts := []
  handedOut := []

section Model
variable {σ : Type*} [DecidableEq σ] (cfg : Config)

def addSlabLocked (s : State σ) (slab : σ) : State σ :=
  { s with
    canAllocate := true
    owned := update s.owned slab true
    freeSlabs := s.freeSlabs ++ [slab] }

def canAllocateFromCurrentSlabLocked (s : State σ) : Bool :=
  s.currSlab.isSome && decide (s.currOffset + cfg.allocationSize ≤ kSize)

def allocateFromCurrentSlabLocked (s : State σ) : Option (Mem σ) × State σ :=
  (s.currSlab.map fun slab => (slab, s.currOffset),
    { s with currOffset := s.currOffset + cfg.allocationSize })

def setupCurrentSlabLocked (s : State σ) : State σ :=
  match s.freeSlabs.getLast? with
  | none => s
  | some slab =>
    { s with
      freeSlabs := s.freeSlabs.dropLast
      currSlab := some slab
      currOffset := 0
      allocatedSlabs := s.allocatedSlabs ++ [slab] }

def allocateLocked (s : State σ) : Option (Mem σ) × State σ :=
  match s.freedAllocations with
  | ret :: rest => (some ret, { s with freedAllocations := rest })
  | [] =>
    if canAllocateFromCurrentSlabLocked cfg s then allocateFromCurrentSlabLocked cfg s
    else if s.freeSlabs.isEmpty then (none, { s with canAllocate := false })
    else allocateFromCurrentSlabLocked cfg (setupCurrentSlabLocked s)

/-- `allocate` behind its unlocked test of `canAllocate_`, with the caller's record. -/
def allocate (s : State σ) : Option (Mem σ) × State σ :=
  let r := allocateLocked cfg s
  (r.1, { r.2 with handedOut := r.1.toList ++ r.2.handedOut })

/-- The element is overwritten by the last one, which is then dropped. -/
def swapRemove {α : Type*} [DecidableEq α] (a : α) (l : List α) : List α :=
  match l.getLast? with
  | none => l
  | some b => (l.set (l.idxOf a) b).dropLast

def getAllocIdx (m : Mem σ) : ℕ := m.2 / cfg.allocationSize

/-- The bits from the first chunk that was not carved. -/
def markTail (start : ℕ) (allocState : List Bool) : List Bool :=
  allocState.mapIdx fun i freed => freed || decide (start ≤ i)

/-- The first lock section, after the header check. A slab that is neither free nor allocated makes
it throw. -/
def startSlabRelease (s : State σ) (slab : σ) : State σ :=
  if slab ∈ s.freeSlabs then
    { s with
      freeSlabs := swapRemove slab s.freeSlabs
      owned := update s.owned slab false }
  else
    let allocState := List.replicate (getAllocsPerSlab cfg) false
    let s := { s with
      markedForRelease := update s.markedForRelease slab true
      slabReleaseAllocMap := update s.slabReleaseAllocMap slab (some allocState) }
    if slab ∈ s.allocatedSlabs then
      let s := { s with
        allocatedSlabs := swapRemove slab s.allocatedSlabs
        release := some (slab, .marked) }
      if s.currSlab = some slab then
        { s with
          slabReleaseAllocMap := update s.slabReleaseAllocMap slab
            (some (markTail (s.currOffset / cfg.allocationSize) allocState))
          currSlab := none
          currOffset := 0 }
      else s
    else s

/-- At most `limit` heads of `freeAllocs` go to one of the other two lists. -/
def partitionFreeAllocs (slab : σ) :
    ℕ → List (Mem σ) → List (Mem σ) → List (Mem σ) → List (Mem σ) × List (Mem σ) × List (Mem σ)
  | 0, freeAllocs, inSlab, notInSlab => (freeAllocs, inSlab, notInSlab)
  | _ + 1, [], inSlab, notInSlab => ([], inSlab, notInSlab)
  | limit + 1, alloc :: freeAllocs, inSlab, notInSlab =>
    if alloc.1 = slab then partitionFreeAllocs slab limit freeAllocs (alloc :: inSlab) notInSlab
    else partitionFreeAllocs slab limit freeAllocs inSlab (alloc :: notInSlab)

def Phase.ofPartition (p : List (Mem σ) × List (Mem σ) × List (Mem σ)) : Phase σ :=
  .batch p.1 p.2.1 p.2.2

/-- The first lock section of `pruneFreeAllocs`. -/
def takeOffline (s : State σ) (slab : σ) : State σ :=
  { s with
    freedAllocations := []
    release := some (slab, .ofPartition
      (partitionFreeAllocs slab kFreeAllocsPruneLimit s.freedAllocations [] [])) }

def markFreed (inSlab : List (Mem σ)) (allocState : List Bool) : List Bool :=
  inSlab.foldl (fun allocState alloc => allocState.set (getAllocIdx cfg alloc) true) allocState

/-- The lock section of the loop, and the next batch, which is partitioned
outside the lock. -/
def putBack (s : State σ) (slab : σ) (freeAllocs inSlab notInSlab : List (Mem σ)) : State σ :=
  { s with
    freedAllocations := notInSlab ++ s.freedAllocations
    canAllocate := if notInSlab.isEmpty then s.canAllocate else true
    slabReleaseAllocMap := update s.slabReleaseAllocMap slab
      ((s.slabReleaseAllocMap slab).map (markFreed cfg inSlab))
    release := some (slab,
      if freeAllocs.isEmpty then .pruned
      else .ofPartition (partitionFreeAllocs slab kFreeAllocsPruneLimit freeAllocs [] [])) }

/-- Allocations of the bitmap whose bit has the given value, in index order. -/
def allocsWith (value : Bool) (slab : σ) (allocState : List Bool) : List (Mem σ) :=
  ((List.range allocState.length).filter fun i => allocState.getD i false == value).map
    fun i => (slab, i * cfg.allocationSize)

/-- The last lock section of `pruneFreeAllocs`. -/
def collect (s : State σ) (slab : σ) : State σ :=
  { s with
    release := some (slab,
      .collected (allocsWith cfg false slab ((s.slabReleaseAllocMap slab).getD []))) }

/-- The last lock section of `startSlabRelease`, which returns the context. -/
def buildContext (s : State σ) (slab : σ) (activeAllocations : List (Mem σ)) : State σ :=
  if activeAllocations.isEmpty then
    { s with
      owned := update s.owned slab false
      markedForRelease := update s.markedForRelease slab false
      slabReleaseAllocMap := update s.slabReleaseAllocMap slab none
      release := none }
  else
    { s with
      activeReleases := s.activeReleases + 1
      contexts := ⟨slab, activeAllocations, false⟩ :: s.contexts
      release := none }

/-- The undoing lock section of `pruneFreeAllocs` after an abort. -/
def undoPrune (s : State σ) (slab : σ) (freeAllocs inSlab notInSlab : List (Mem σ)) : State σ :=
  { s with
    freedAllocations := (inSlab ++ (notInSlab ++ freeAllocs)) ++ s.freedAllocations
    release := some (slab, .aborted) }

/-- The lock section of `startSlabRelease` before it throws `SlabReleaseAborted`. -/
def throwAborted (s : State σ) (slab : σ) : State σ :=
  { s with
    markedForRelease := update s.markedForRelease slab false
    slabReleaseAllocMap := update s.slabReleaseAllocMap slab none
    release := none }

def abortSlabRelease (s : State σ) (slab : σ) : State σ :=
  let freed := allocsWith cfg true slab ((s.slabReleaseAllocMap slab).getD [])
  { s with
    freedAllocations := freed.reverse ++ s.freedAllocations
    canAllocate := if freed.isEmpty then s.canAllocate else true
    slabReleaseAllocMap := update s.slabReleaseAllocMap slab none
    allocatedSlabs := s.allocatedSlabs ++ [slab]
    owned := update s.owned slab true
    markedForRelease := update s.markedForRelease slab false
    activeReleases := s.activeReleases - 1 }

def allFreed (s : State σ) (slab : σ) : Bool :=
  ((s.slabReleaseAllocMap slab).map fun allocState => allocState.all id).getD false

def completeSlabRelease (s : State σ) (slab : σ) : State σ :=
  { s with
    slabReleaseAllocMap := update s.slabReleaseAllocMap slab none
    owned := update s.owned slab false
    markedForRelease := update s.markedForRelease slab false
    activeReleases := s.activeReleases - 1 }

/-- Its lock section; `none` when it throws. -/
def free (s : State σ) (m : Mem σ) : Option (State σ) :=
  if s.markedForRelease m.1 then
    match s.slabReleaseAllocMap m.1 with
    | none => none
    | some allocState =>
      if allocState.getD (getAllocIdx cfg m) false then none
      else some { s with
        slabReleaseAllocMap := update s.slabReleaseAllocMap m.1
          (some (allocState.set (getAllocIdx cfg m) true)) }
  else some { s with freedAllocations := m :: s.freedAllocations, canAllocate := true }

end Model

/-- One lock section of one thread. Callers add slabs that no class owns, free
what they were handed, and complete or abort a context they were given. -/
inductive Action (σ : Type*) where
  | addSlab (slab : σ)
  | addSlabAndAllocate (slab : σ)
  | allocate
  | free (m : Mem σ)
  | startSlabRelease (slab : σ)
  | takeOffline
  | pruneLoop (shouldAbort : Bool)
  | collect
  | buildContext
  | undoPrune
  | throwAborted
  | abortSlabRelease (slab : σ)
  | waitUntilAllFreed (slab : σ)
  | completeSlabRelease (slab : σ)

section Step
variable {σ : Type*} [DecidableEq σ] (cfg : Config)

def holdsContext (s : State σ) (slab : σ) (freed : Bool) : Bool :=
  s.contexts.any fun c => decide (c.slab = slab ∧ c.allFreed = freed)

def dropContext (s : State σ) (slab : σ) : State σ :=
  { s with contexts := s.contexts.filter fun c => decide (c.slab ≠ slab) }

def step (s : State σ) : Action σ → Option (State σ)
  | .addSlab slab => if s.owned slab then none else some (addSlabLocked s slab)
  | .addSlabAndAllocate slab =>
    if s.owned slab then none else some (allocate cfg (addSlabLocked s slab)).2
  | .allocate => some (allocate cfg s).2
  | .free m =>
    if m ∈ s.handedOut then
      (free cfg s m).map fun t => { t with handedOut := t.handedOut.erase m }
    else none
  | .startSlabRelease slab =>
    if s.release.isNone && s.owned slab && !s.markedForRelease slab then
      some (startSlabRelease cfg s slab)
    else none
  | .takeOffline =>
    match s.release with
    | some (slab, .marked) => some (takeOffline s slab)
    | _ => none
  | .pruneLoop shouldAbort =>
    match s.release with
    | some (slab, .batch f i n) =>
      if shouldAbort then some { s with release := some (slab, .aborting f i n) }
      else some (putBack cfg s slab f i n)
    | _ => none
  | .collect =>
    match s.release with
    | some (slab, .pruned) => some (collect cfg s slab)
    | _ => none
  | .buildContext =>
    match s.release with
    | some (slab, .collected active) => some (buildContext s slab active)
    | _ => none
  | .undoPrune =>
    match s.release with
    | some (slab, .aborting f i n) => some (undoPrune s slab f i n)
    | _ => none
  | .throwAborted =>
    match s.release with
    | some (slab, .aborted) => some (throwAborted s slab)
    | _ => none
  | .abortSlabRelease slab =>
    if holdsContext s slab false then some (dropContext (abortSlabRelease cfg s slab) slab)
    else none
  | .waitUntilAllFreed slab =>
    if holdsContext s slab false && allFreed s slab then
      some { s with
        contexts := s.contexts.map fun c => if c.slab = slab then { c with allFreed := true } else c }
    else none
  | .completeSlabRelease slab =>
    if holdsContext s slab true then some (dropContext (completeSlabRelease s slab) slab)
    else none

end Step

/-! ## Lists and bitmaps -/

section Lists
variable {α : Type*} [DecidableEq α]

lemma count_swapRemove {a : α} {l : List α} (ha : a ∈ l) (x : α) :
    (swapRemove a l).count x + (if x = a then 1 else 0) = l.count x := by
  rcases eq_nil_or_concat l with rfl | ⟨l, b, rfl⟩
  · simp at ha
  rw [concat_eq_append] at ha ⊢
  simp only [swapRemove, getLast?_concat]
  by_cases hl : a ∈ l
  · have hlt : l.idxOf a < l.length := idxOf_lt_length_of_mem hl
    rw [idxOf_append_of_mem hl, set_append_left _ _ hlt, dropLast_concat,
      count_set hlt, getElem_idxOf, count_append, count_singleton]
    have hpos : 0 < l.count a := count_pos_iff.2 hl
    by_cases hxa : x = a
    · subst hxa
      simp only [beq_self_eq_true, if_true]
      split_ifs <;> omega
    · have hax : (a == x) = false := by simpa using Ne.symm hxa
      simp only [hax, hxa, Bool.false_eq_true, if_false]
      omega
  · have hab : a = b := by simpa [hl] using ha
    subst hab
    rw [idxOf_append_of_notMem hl]
    simp only [idxOf_cons_self, Nat.add_zero, set_append_right _ _ le_rfl, Nat.sub_self,
      set_cons_zero, dropLast_concat, count_append, count_singleton,
      beq_iff_eq, eq_comm (a := x)]

end Lists

lemma bit_set (l : List Bool) (i j : ℕ) (hi : i < l.length) :
    (l.set i true).getD j false = (decide (j = i) || l.getD j false) := by
  by_cases hij : i = j
  · simp [hij, hij ▸ hi]
  · simp [hij, Ne.symm hij]

lemma bit_markTail (start : ℕ) (l : List Bool) (i : ℕ) (hi : i < l.length) :
    (markTail start l).getD i false = (l.getD i false || decide (start ≤ i)) := by
  simp [markTail, getD_eq_getElem?_getD, hi]

section Chunks
variable {σ : Type*} (cfg : Config)

def chunk (slab : σ) (i : ℕ) : Mem σ := (slab, i * cfg.allocationSize)

lemma getAllocIdx_chunk (slab : σ) (i : ℕ) : getAllocIdx cfg (chunk cfg slab i) = i :=
  Nat.mul_div_cancel i cfg.pos

lemma chunk_inj {slab slab' : σ} {i j : ℕ} :
    chunk cfg slab i = chunk cfg slab' j ↔ slab = slab' ∧ i = j := by
  simp [chunk, Nat.mul_right_cancel_iff cfg.pos]

lemma allocsPerSlab_pos : 0 < getAllocsPerSlab cfg := Nat.div_pos cfg.le cfg.pos

def IsChunk (m : Mem σ) : Prop := ∃ i < getAllocsPerSlab cfg, m = chunk cfg m.1 i

lemma isChunk_chunk {slab : σ} {i : ℕ} (hi : i < getAllocsPerSlab cfg) :
    IsChunk cfg (chunk cfg slab i) := ⟨i, hi, rfl⟩

lemma mem_allocsWith (value : Bool) (slab : σ) (l : List Bool) (m : Mem σ) :
    m ∈ allocsWith cfg value slab l ↔
      ∃ i < l.length, l.getD i false = value ∧ m = chunk cfg slab i := by
  simp only [allocsWith, mem_map, mem_filter, mem_range, beq_iff_eq, chunk]
  constructor
  · rintro ⟨i, ⟨hi, hb⟩, rfl⟩
    exact ⟨i, hi, hb, rfl⟩
  · rintro ⟨i, hi, hb, rfl⟩
    exact ⟨i, ⟨hi, hb⟩, rfl⟩

variable [DecidableEq σ]

lemma markFreed_spec (slab : σ) (inSlab : List (Mem σ)) (l : List Bool)
    (hin : ∀ m ∈ inSlab, m.1 = slab ∧ ∃ k < l.length, m = chunk cfg m.1 k) :
    (markFreed cfg inSlab l).length = l.length ∧ ∀ i, (markFreed cfg inSlab l).getD i false =
        (decide (chunk cfg slab i ∈ inSlab) || l.getD i false) := by
  induction inSlab generalizing l with
  | nil => simp [markFreed]
  | cons m inSlab ih =>
    obtain ⟨hslab, k, hk, hm⟩ := hin m (by simp)
    rw [hslab] at hm
    have hset : markFreed cfg (m :: inSlab) l = markFreed cfg inSlab (l.set k true) := by
      simp only [markFreed, foldl_cons]
      rw [hm, getAllocIdx_chunk]
    obtain ⟨hlen, hbit⟩ := ih (l.set k true) (by
      intro m' hm'
      rw [length_set]
      exact hin m' (by simp [hm']))
    rw [hset, hlen, length_set]
    refine ⟨rfl, fun i => ?_⟩
    rw [hbit, bit_set l k i hk, hm]
    simp only [mem_cons, chunk_inj, true_and]
    by_cases hik : i = k <;> by_cases hmem : chunk cfg slab i ∈ inSlab <;> simp [hik, hmem]

lemma count_allocsWith (value : Bool) (slab : σ) (l : List Bool) (m : Mem σ) :
    (allocsWith cfg value slab l).count m = if m ∈ allocsWith cfg value slab l then 1 else 0 := by
  have hnd : (allocsWith cfg value slab l).Nodup := by
    refine List.Nodup.map ?_ (nodup_range.filter _)
    intro i j hij
    exact ((chunk_inj cfg).1 hij).2
  rw [hnd.count]

/-- A partition moves allocations and loses none. -/
lemma partitionFreeAllocs_spec (slab : σ) (limit : ℕ) (f i n : List (Mem σ))
    (hi : ∀ m ∈ i, m.1 = slab) (hn : ∀ m ∈ n, m.1 ≠ slab) :
    let p := partitionFreeAllocs slab limit f i n
    (∀ m, p.1.count m + p.2.1.count m + p.2.2.count m = f.count m + i.count m + n.count m) ∧
      (∀ m ∈ p.2.1, m.1 = slab) ∧ ∀ m ∈ p.2.2, m.1 ≠ slab := by
  induction limit generalizing f i n with
  | zero => exact ⟨fun _ => rfl, hi, hn⟩
  | succ limit ih =>
    cases f with
    | nil => exact ⟨fun _ => rfl, hi, hn⟩
    | cons a f =>
      simp only [partitionFreeAllocs]
      split_ifs with ha
      · obtain ⟨hc, hi', hn'⟩ := ih f (a :: i) n (by simpa [ha] using hi) hn
        refine ⟨fun m => ?_, hi', hn'⟩
        rw [hc, count_cons, count_cons]
        omega
      · obtain ⟨hc, hi', hn'⟩ := ih f i (a :: n) hi (by simpa [ha] using hn)
        refine ⟨fun m => ?_, hi', hn'⟩
        rw [hc, count_cons, count_cons]
        omega

end Chunks

end HybridCache.AllocationClass

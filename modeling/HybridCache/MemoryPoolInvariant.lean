import HybridCache.MemoryPool

/-!
# The books of a memory pool

What a call has moved and not yet counted, or counted and not yet moved, is read off the step it
is at. With that, the counters are exact in every state and not only when no call is in progress.
-/
set_option linter.unusedSectionVars false

namespace HybridCache.MemoryPool
open Transition Function List
open AllocationClass (kSize Mem Fits)
open SlabAllocator (Slab Placed)

variable {ι : Type*} [DecidableEq ι] {cfg : Config ι}

/-! ## What calls carry -/

def Call.slabs : Call cfg → List (Slab cfg.slabs)
  | .hasSlab _ slab | .releasing slab _ | .reclaimed slab _ => [slab]
  | _ => []

def Call.slabSize : Call cfg → ℕ
  | .counted _ | .refused | .hasSlab _ _ | .releasing _ _ | .advised | .released => 1
  | _ => 0

def Call.freedSize : Call cfg → ℕ
  | .freed c => allocSize c
  | _ => 0

def Call.memory : Call cfg → List (ClassId cfg × Mem (Slab cfg.slabs))
  | .allocated c m => [(c, m)]
  | _ => []

def inFlight (calls : List (Call cfg)) : List (Slab cfg.slabs) := calls.flatMap Call.slabs

def pendingSlabs (calls : List (Call cfg)) : ℕ := (calls.map Call.slabSize).sum

def pendingFrees (calls : List (Call cfg)) : ℕ := (calls.map Call.freedSize).sum

/-- All memory that is handed out, with its class. -/
def memory (returned : List (ClassId cfg × Mem (Slab cfg.slabs))) (calls : List (Call cfg)) :
    List (ClassId cfg × Mem (Slab cfg.slabs)) :=
  returned ++ calls.flatMap Call.memory

def memoryOf (c : ClassId cfg) (l : List (ClassId cfg × Mem (Slab cfg.slabs))) :
    List (Mem (Slab cfg.slabs)) :=
  (l.filter fun p => decide (p.1 = c)).map Prod.snd

abbrev Classes (cfg : Config ι) := ClassId cfg → AllocationClass.State (Slab cfg.slabs)

def ownedBy (classes : Classes cfg) (slab : Slab cfg.slabs) : ℕ :=
  ∑ c, ((classes c).owned slab).toNat

def ownedCount (classes : Classes cfg) : ℕ := ∑ slab, ownedBy classes slab

def isHeld (held : Slab cfg.slabs → Option ι) (slab : Slab cfg.slabs) : ℕ :=
  if held slab = some cfg.id then 1 else 0

structure Inv (s : State cfg) : Prop where
  fits : ∀ c, Fits (cfg.classes c) (s.classes c)
  placed : Placed s.slabAllocator
  slabs : ∀ slab, s.freeSlabs.count slab + ownedBy s.classes slab + (inFlight s.calls).count slab =
    isHeld s.slabAllocator.held slab
  slabSize : s.currSlabAllocSize = (kSize * (ownedCount s.classes + pendingSlabs s.calls) : ℕ)
  handed : ∀ c, ((s.classes c).handedOut).Perm (memoryOf c (memory s.returned s.calls))
  allocSize : s.currAllocSize =
    ((s.returned.map fun p => allocSize p.1).sum + pendingFrees s.calls : ℕ)
  advised : 0 ≤ s.curSlabsAdvised

section
variable (call : Call cfg) (calls : List (Call cfg))

@[simp] lemma inFlight_cons : inFlight (call :: calls) = call.slabs ++ inFlight calls := rfl

@[simp] lemma pendingSlabs_cons :
    pendingSlabs (call :: calls) = call.slabSize + pendingSlabs calls := by
  simp [pendingSlabs]

@[simp] lemma pendingFrees_cons :
    pendingFrees (call :: calls) = call.freedSize + pendingFrees calls := by
  simp [pendingFrees]

end

lemma memoryOf_perm {l l' : List (ClassId cfg × Mem (Slab cfg.slabs))} (h : l.Perm l')
    (c : ClassId cfg) : (memoryOf c l).Perm (memoryOf c l') := (h.filter _).map _

variable {s t : State cfg} {c : ClassId cfg} {call next : Call cfg}
  {a : SlabAllocator.State cfg.slabs ι} {slab : Slab cfg.slabs}

/-- The order of the calls is of no importance. -/
lemma Inv.perm (hs : Inv s) {calls : List (Call cfg)} (hperm : s.calls.Perm calls) :
    Inv { s with calls := calls } := by
  refine ⟨hs.fits, hs.placed, ?_, ?_, ?_, ?_, hs.advised⟩
  · intro slab
    have hcount := (hperm.flatMap_right Call.slabs).count_eq slab
    have hslabs := hs.slabs slab
    simp only [inFlight] at hslabs ⊢
    rw [← hcount]
    exact hslabs
  · have hsum : pendingSlabs calls = pendingSlabs s.calls := ((hperm.map _).sum_eq).symm
    simp only [hsum]
    exact hs.slabSize
  · intro c
    exact (hs.handed c).trans
      (memoryOf_perm ((hperm.flatMap_right Call.memory).append_left s.returned) c)
  · have hsum : pendingFrees calls = pendingFrees s.calls := ((hperm.map _).sum_eq).symm
    simp only [hsum]
    exact hs.allocSize

/-! ## Changes of one class -/

section Classes
variable (classes : Classes cfg) (c : ClassId cfg) (u : AllocationClass.State (Slab cfg.slabs))
  {slab : Slab cfg.slabs}

lemma ownedBy_update (slab : Slab cfg.slabs) :
    ownedBy (update classes c u) slab + ((classes c).owned slab).toNat =
      ownedBy classes slab + (u.owned slab).toNat :=
  sum_update classes (fun v => (v.owned slab).toNat) c u

lemma owned_same (h : u.owned = (classes c).owned) :
    (∀ x, ownedBy (update classes c u) x = ownedBy classes x) ∧
      ownedCount (update classes c u) = ownedCount classes := by
  have hby : ∀ x, ownedBy (update classes c u) x = ownedBy classes x := by
    intro x
    have hsum := ownedBy_update classes c u x
    rw [h] at hsum
    omega
  exact ⟨hby, Finset.sum_congr rfl fun x _ => hby x⟩

lemma owned_add (hold : (classes c).owned slab = false)
    (h : u.owned = update (classes c).owned slab true) :
    (∀ x, ownedBy (update classes c u) x = ownedBy classes x + if x = slab then 1 else 0) ∧
      ownedCount (update classes c u) = ownedCount classes + 1 := by
  have hby : ∀ x, ownedBy (update classes c u) x =
      ownedBy classes x + if x = slab then 1 else 0 := by
    intro x
    have hsum := ownedBy_update classes c u x
    rw [h, update_apply] at hsum
    by_cases hx : x = slab
    · subst hx
      simp only [hold, if_true, Bool.toNat_false, Bool.toNat_true] at hsum ⊢
      omega
    · simp only [hx, if_false] at hsum ⊢
      omega
  refine ⟨hby, ?_⟩
  have hsum : ownedCount (update classes c u) =
      ∑ x, (ownedBy classes x + if x = slab then 1 else 0) :=
    Finset.sum_congr rfl fun x _ => hby x
  rw [hsum, Finset.sum_add_distrib, Finset.sum_ite_eq' Finset.univ slab]
  simp [ownedCount]

lemma owned_remove (hold : (classes c).owned slab = true)
    (h : u.owned = update (classes c).owned slab false) :
    (∀ x, ownedBy (update classes c u) x + (if x = slab then 1 else 0) = ownedBy classes x) ∧
      ownedCount (update classes c u) + 1 = ownedCount classes := by
  -- Putting the old class back adds the slab again.
  have hback : (classes c).owned = update (update classes c u c).owned slab true := by
    rw [update_self, h, update_idem, ← hold, update_eq_self]
  obtain ⟨hby, hcount⟩ := owned_add (update classes c u) c (classes c) (by simp [h]) hback
  rw [update_idem, update_eq_self] at hcount
  refine ⟨fun x => ?_, hcount.symm⟩
  rw [← hby x, update_idem, update_eq_self]

lemma handed_update {l l' : List (ClassId cfg × Mem (Slab cfg.slabs))}
    (hs : ∀ c, ((classes c).handedOut).Perm (memoryOf c l))
    (hother : ∀ c', c' ≠ c → (memoryOf c' l).Perm (memoryOf c' l'))
    (hu : u.handedOut.Perm (memoryOf c l')) (c' : ClassId cfg) :
    ((update classes c u) c').handedOut.Perm (memoryOf c' l') := by
  by_cases h : c' = c
  · subst h
    simpa using hu
  · rw [update_of_ne h]
    exact (hs c').trans (hother c' h)

end Classes

lemma memoryOf_cons_self (c : ClassId cfg) (m : Mem (Slab cfg.slabs))
    (l : List (ClassId cfg × Mem (Slab cfg.slabs))) :
    memoryOf c ((c, m) :: l) = m :: memoryOf c l := by
  simp [memoryOf]

lemma memoryOf_cons_of_ne {c' : ClassId cfg} (h : c' ≠ c) (m : Mem (Slab cfg.slabs))
    (l : List (ClassId cfg × Mem (Slab cfg.slabs))) :
    memoryOf c' ((c, m) :: l) = memoryOf c' l := by
  simp [memoryOf, Ne.symm h]

/-! ## Steps of a call -/

structure Call.Idle (call : Call cfg) : Prop where
  slabs : call.slabs = []
  slabSize : call.slabSize = 0
  freedSize : call.freedSize = 0
  memory : call.memory = []

lemma inv_goOn_iff (h : call.Idle) : Inv (goOn s call) ↔ Inv s := by
  constructor
  · intro hs
    refine ⟨hs.fits, hs.placed, ?_, ?_, ?_, ?_, hs.advised⟩
    · simpa [goOn, h.slabs] using hs.slabs
    · simpa [goOn, h.slabSize] using hs.slabSize
    · simpa [goOn, MemoryPool.memory, h.memory] using hs.handed
    · simpa [goOn, h.freedSize] using hs.allocSize
  · intro hs
    refine ⟨hs.fits, hs.placed, ?_, ?_, ?_, ?_, hs.advised⟩
    · simpa [goOn, h.slabs] using hs.slabs
    · simpa [goOn, h.slabSize] using hs.slabSize
    · simpa [goOn, MemoryPool.memory, h.memory] using hs.handed
    · simpa [goOn, h.freedSize] using hs.allocSize

lemma Inv.tryAllocate (hs : Inv s) {early : Bool} (next : Call cfg) (hnext : next.Idle)
    (hfits : ∀ c, Fits (cfg.classes c) (t.classes c)) (h : tryAllocate s c early next = some t) :
    Inv t := by
  unfold MemoryPool.tryAllocate at h
  split at h
  · split at h <;> cases h
    exact (inv_goOn_iff hnext).2 hs
  · obtain ⟨howned, hhanded⟩ := AllocationClass.allocate_books (cfg.classes c) (s.classes c)
    obtain ⟨hby, hcount⟩ := owned_same _ _ _ howned
    dsimp only at h
    split at h
    case h_1 m hm =>
      cases h
      rw [hm] at hhanded
      refine ⟨hfits, hs.placed, ?_, ?_, ?_, ?_, hs.advised⟩
      · intro slab
        simpa [goOn, setClass, Call.slabs, hby] using hs.slabs slab
      · simpa [goOn, setClass, Call.slabSize, hcount] using hs.slabSize
      · have hperm : (memory s.returned (.allocated c m :: s.calls)).Perm
            ((c, m) :: memory s.returned s.calls) := by
          simp [memory, Call.memory]
        refine handed_update _ _ _ hs.handed ?_ ?_
        · intro c' hne
          refine List.Perm.trans ?_ (memoryOf_perm hperm c').symm
          rw [memoryOf_cons_of_ne hne]
        · refine List.Perm.trans ?_ (memoryOf_perm hperm c).symm
          rw [hhanded, memoryOf_cons_self]
          exact (hs.handed c).cons m
      · simpa [goOn, setClass, Call.freedSize] using hs.allocSize
    case h_2 hm =>
      cases h
      rw [hm] at hhanded
      refine (inv_goOn_iff hnext).2 ⟨hfits, hs.placed, ?_, ?_, ?_, hs.allocSize, hs.advised⟩
      · intro slab
        simpa [setClass, hby] using hs.slabs slab
      · simpa [setClass, hcount] using hs.slabSize
      · refine handed_update _ _ _ hs.handed (fun _ _ => .refl _) ?_
        rw [hhanded]
        exact hs.handed c

lemma Inv.getSlabLocked (hs : Inv s) (c : ClassId cfg) : Inv (getSlabLocked s c) := by
  unfold MemoryPool.getSlabLocked
  split
  · exact hs
  have hsize := hs.slabSize
  dsimp only
  cases hlast : s.freeSlabs.getLast? with
  | some slab =>
    have happ := dropLast_append_getLast? slab hlast
    refine ⟨hs.fits, hs.placed, ?_, ?_, ?_, ?_, hs.advised⟩
    · intro x
      have hx := hs.slabs x
      rw [← happ, count_append] at hx
      simp only [goOn, inFlight_cons, Call.slabs, count_append]
      omega
    · simp only [goOn, pendingSlabs_cons, Call.slabSize, hsize]
      push_cast
      ring
    · simpa [goOn, memory, Call.memory] using hs.handed
    · simpa [goOn, Call.freedSize] using hs.allocSize
  | none =>
    refine ⟨hs.fits, hs.placed, ?_, ?_, ?_, ?_, hs.advised⟩
    · simpa [goOn, Call.slabs] using hs.slabs
    · simp only [goOn, pendingSlabs_cons, Call.slabSize, hsize]
      push_cast
      ring
    · simpa [goOn, memory, Call.memory] using hs.handed
    · simpa [goOn, Call.freedSize] using hs.allocSize

lemma isHeld_update (held : Slab cfg.slabs → Option ι) (slab x : Slab cfg.slabs)
    (holder : Option ι) :
    isHeld (update held slab holder) x =
      if x = slab then (if holder = some cfg.id then 1 else 0) else isHeld held x := by
  unfold isHeld
  rw [update_apply]
  split_ifs <;> rfl

/-- The call goes on, and the slabs are all accounted for after it. -/
lemma Inv.goesOn {freeSlabs : List (Slab cfg.slabs)} (hs : Inv (goOn s call)) (ha : Placed a)
    (hslabs : ∀ x, freeSlabs.count x + ownedBy s.classes x +
      (next.slabs ++ inFlight s.calls).count x = isHeld a.held x)
    (hsize : next.slabSize = call.slabSize) (hfreed : next.freedSize = call.freedSize)
    (hmemory : next.memory = call.memory) :
    Inv (goOn { s with slabAllocator := a, freeSlabs := freeSlabs } next) := by
  refine ⟨hs.fits, ha, hslabs, ?_, ?_, ?_, hs.advised⟩
  · simpa [goOn, hsize] using hs.slabSize
  · simpa [goOn, memory, hmemory] using hs.handed
  · simpa [goOn, hfreed] using hs.allocSize

lemma Inv.takeSlab (hs : Inv (goOn s call)) (ha : Placed a)
    (hnone : s.slabAllocator.held slab = none)
    (hheld : a.held = update s.slabAllocator.held slab (some cfg.id))
    (hcall : call.slabs = []) (hnext : next.slabs = [slab])
    (hsize : next.slabSize = call.slabSize) (hfreed : next.freedSize = call.freedSize)
    (hmemory : next.memory = call.memory) :
    Inv (goOn { s with slabAllocator := a } next) := by
  refine hs.goesOn ha ?_ hsize hfreed hmemory
  intro x
  have hx := hs.slabs x
  simp only [goOn, inFlight_cons, hcall, nil_append] at hx
  simp only [hnext, count_append, count_singleton', hheld, isHeld_update, @eq_comm _ slab x]
  by_cases h : x = slab
  · subst h
    simp only [isHeld, hnone, reduceCtorEq, if_false] at hx
    simp only [if_true]
    omega
  · simp only [h, if_false]
    omega

lemma Inv.setAllocator (hs : Inv s)
    (ha : Placed a) (hheld : ∀ x, isHeld a.held x = isHeld s.slabAllocator.held x) :
    Inv { s with slabAllocator := a } := by
  refine ⟨hs.fits, ha, ?_, hs.slabSize, hs.handed, hs.allocSize, hs.advised⟩
  intro x
  simp only [hheld]
  exact hs.slabs x

lemma Inv.replace (hs : Inv (goOn s call))
    (hslabs : next.slabs = call.slabs) (hsize : next.slabSize = call.slabSize)
    (hfreed : next.freedSize = call.freedSize) (hmemory : next.memory = call.memory) :
    Inv (goOn s next) := by
  refine hs.goesOn hs.placed ?_ hsize hfreed hmemory
  simpa [goOn, hslabs] using hs.slabs

lemma Inv.counted {choice : Bool}
    (hs : Inv (goOn s (.counted c))) (h : proceed s choice (.counted c) = some t) : Inv t := by
  have hplaced : Placed (SlabAllocator.makeNewSlab s.slabAllocator cfg.id).2 :=
    (SlabAllocator.keeps_makeNewSlab hs.placed cfg.id).1
  simp only [proceed] at h
  obtain ⟨hnone, hheld⟩ | ⟨slab, hsome, hfree, hheld⟩ :=
    SlabAllocator.makeNewSlab_held (s := s.slabAllocator) hs.placed cfg.id
  · rw [hnone] at h
    cases h
    have hset : Inv (goOn { s with
        slabAllocator := (SlabAllocator.makeNewSlab s.slabAllocator cfg.id).2 } (.counted c)) :=
      hs.setAllocator hplaced (fun x => by rw [hheld]; rfl)
    exact hset.replace rfl rfl rfl rfl
  · rw [hsome] at h
    cases h
    exact hs.takeSlab hplaced hfree hheld rfl rfl rfl rfl rfl

lemma Inv.subtract (hs : Inv (goOn s call))
    (hslabs : call.slabs = []) (hsize : call.slabSize = 1) (hfreed : call.freedSize = 0)
    (hmemory : call.memory = []) :
    Inv { s with currSlabAllocSize := s.currSlabAllocSize - kSize } := by
  refine ⟨hs.fits, hs.placed, ?_, ?_, ?_, ?_, hs.advised⟩
  · simpa [goOn, hslabs] using hs.slabs
  · have hold := hs.slabSize
    simp only [goOn, pendingSlabs_cons, hsize] at hold
    simp only [hold]
    push_cast
    ring
  · simpa [goOn, memory, hmemory] using hs.handed
  · simpa [goOn, hfreed] using hs.allocSize

lemma Inv.hasSlab {slab : Slab cfg.slabs} (hs : Inv (goOn s (.hasSlab c slab)))
    (hfits : ∀ c, Fits (cfg.classes c) (t.classes c)) (h : addSlabAndAllocate s c slab = some t) :
    Inv t := by
  obtain ⟨u, hu, rfl⟩ := Option.map_eq_some_iff.1 h
  simp only [AllocationClass.step] at hu
  split_ifs at hu with howned
  cases hu
  have hfree : (s.classes c).owned slab = false := by simpa using howned
  have hne : (AllocationClass.addSlabLocked (s.classes c) slab).freeSlabs ≠ [] := by
    simp [AllocationClass.addSlabLocked]
  obtain ⟨m, hm⟩ := AllocationClass.allocate_isSome (cfg.classes c) hne
  obtain ⟨hown, hhanded⟩ := AllocationClass.allocate_books (cfg.classes c)
    (AllocationClass.addSlabLocked (s.classes c) slab)
  obtain ⟨hby, hcount⟩ := owned_add _ _ _ hfree hown
  rw [hm] at hhanded hfits
  rw [hm]
  refine ⟨hfits, hs.placed, ?_, ?_, ?_, ?_, hs.advised⟩
  · intro x
    have hx := hs.slabs x
    simp only [goOn, inFlight_cons, Call.slabs, count_append, count_singleton'] at hx
    simp only [goOn, setClass, inFlight_cons, Call.slabs, nil_append, hby]
    simp only [@eq_comm _ slab x] at hx
    omega
  · have hold := hs.slabSize
    simp only [goOn, pendingSlabs_cons, Call.slabSize] at hold
    simp only [goOn, setClass, pendingSlabs_cons, Call.slabSize, hcount, hold]
    ring_nf
  · have hold : ∀ c, ((s.classes c).handedOut).Perm (memoryOf c (memory s.returned s.calls)) := by
      simpa [goOn, memory, Call.memory] using hs.handed
    have hperm : (memory s.returned (.allocated c m :: s.calls)).Perm
        ((c, m) :: memory s.returned s.calls) := by
      simp [memory, Call.memory]
    refine handed_update _ _ _ hold ?_ ?_
    · intro c' hne
      refine List.Perm.trans ?_ (memoryOf_perm hperm c').symm
      rw [memoryOf_cons_of_ne hne]
    · refine List.Perm.trans ?_ (memoryOf_perm hperm c).symm
      rw [hhanded, memoryOf_cons_self]
      exact (hold c).cons m
  · simpa [goOn, setClass, Call.freedSize] using hs.allocSize

lemma Inv.allocated {m : Mem (Slab cfg.slabs)} (hs : Inv (goOn s (.allocated c m))) : Inv { s with
      currAllocSize := s.currAllocSize + MemoryPool.allocSize c
      returned := (c, m) :: s.returned } := by
  refine ⟨hs.fits, hs.placed, ?_, ?_, ?_, ?_, hs.advised⟩
  · simpa [goOn, Call.slabs] using hs.slabs
  · simpa [goOn, Call.slabSize] using hs.slabSize
  · intro c'
    refine (hs.handed c').trans (memoryOf_perm ?_ c')
    simp [goOn, memory, Call.memory]
  · have hold := hs.allocSize
    simp only [goOn, pendingFrees_cons, Call.freedSize, zero_add] at hold
    simp only [map_cons, sum_cons, hold]
    push_cast
    ring

lemma Inv.freed (hs : Inv (goOn s (.freed c))) :
    Inv { s with currAllocSize := s.currAllocSize - MemoryPool.allocSize c } := by
  refine ⟨hs.fits, hs.placed, ?_, ?_, ?_, ?_, hs.advised⟩
  · simpa [goOn, Call.slabs] using hs.slabs
  · simpa [goOn, Call.slabSize] using hs.slabSize
  · simpa [goOn, memory, Call.memory] using hs.handed
  · have hold := hs.allocSize
    simp only [goOn, pendingFrees_cons, Call.freedSize] at hold
    simp only [hold]
    push_cast
    ring

lemma Inv.held_of_call (hs : Inv (goOn s call)) (hcall : call.slabs = [slab]) :
    s.slabAllocator.held slab = some cfg.id := by
  have hx := hs.slabs slab
  simp only [goOn, inFlight_cons, hcall, count_append, count_singleton_self] at hx
  by_contra hne
  simp only [isHeld, hne, if_false] at hx
  omega

lemma Inv.giveSlab (hs : Inv (goOn s call)) (ha : Placed a)
    (hheld : a.held = update s.slabAllocator.held slab none)
    (hcall : call.slabs = [slab]) (hnext : next.slabs = [])
    (hsize : next.slabSize = call.slabSize) (hfreed : next.freedSize = call.freedSize)
    (hmemory : next.memory = call.memory) :
    Inv (goOn { s with slabAllocator := a } next) := by
  have hold := hs.held_of_call hcall
  refine hs.goesOn ha ?_ hsize hfreed hmemory
  intro x
  have hx := hs.slabs x
  simp only [goOn, inFlight_cons, hcall, count_append, count_singleton', @eq_comm _ slab x] at hx
  simp only [hnext, nil_append, hheld, isHeld_update, reduceCtorEq, if_false]
  by_cases h : x = slab
  · subst h
    simp only [isHeld, hold, if_true] at hx ⊢
    omega
  · simp only [h, if_false] at hx ⊢
    omega

lemma Inv.pushSlab (hs : Inv (goOn s call)) (hcall : call.slabs = [slab]) (hnext : next.slabs = [])
    (hsize : next.slabSize = call.slabSize) (hfreed : next.freedSize = call.freedSize)
    (hmemory : next.memory = call.memory) :
    Inv (goOn { s with freeSlabs := s.freeSlabs ++ [slab] } next) := by
  refine hs.goesOn hs.placed ?_ hsize hfreed hmemory
  intro x
  have hx := hs.slabs x
  simp only [goOn, inFlight_cons, hcall, count_append] at hx
  simp only [hnext, nil_append, count_append]
  omega

end HybridCache.MemoryPool

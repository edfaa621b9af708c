import Mathlib
import HybridCache.MemoryPoolInvariant

/-!
# Size accounting of a memory pool

Every step keeps the books of the pool, except two. A release that takes its slab from the free
slabs of the pool subtracts a slab that no class had. A pool that reclaims more slabs than it has
advised away counts below zero.
-/
namespace HybridCache.MemoryPool
open Transition Function List
open AllocationClass (kSize Mem Fits)
open SlabAllocator (Slab Placed)

variable {ι : Type*} [DecidableEq ι] {cfg : Config ι} {s t : State cfg}

/-! ## The end of a release -/

variable {slab : Slab cfg.slabs} {c : ClassId cfg} {u : AllocationClass.State (Slab cfg.slabs)}

lemma Inv.releaseSlab {request : Request cfg} {madvised : Bool}
    (hs : Inv (goOn s (.releasing slab request))) (hfits : ∀ c, Fits (cfg.classes c) (t.classes c))
    (h : releaseSlab s slab request madvised = some t) : Inv t := by
  have hplaced : Placed s.slabAllocator := hs.placed
  have hheld : s.slabAllocator.held slab = some cfg.id := hs.held_of_call rfl
  have hvalid := SlabAllocator.isValidSlab_of_held hplaced hheld
  unfold MemoryPool.releaseSlab at h
  split at h
  · simp only [SlabAllocator.freeSlab, hvalid, if_true] at h
    cases h
    exact hs.giveSlab (SlabAllocator.keeps_takeBack hplaced hheld).1 rfl rfl rfl rfl rfl rfl
  · cases madvised with
    | true =>
      simp only [SlabAllocator.adviseSlab, hvalid, if_true] at h
      cases h
      exact hs.giveSlab (SlabAllocator.placed_adviseAway hplaced hheld) rfl rfl rfl rfl rfl rfl
    | false =>
      have hstep : SlabAllocator.step s.slabAllocator (.adviseSlab slab false) =
          some ((SlabAllocator.adviseSlab s.slabAllocator slab false).getD s.slabAllocator) := by
        simp [SlabAllocator.step, SlabAllocator.mayGiveBack, hheld]
      have hkeep := (SlabAllocator.step_keeps hplaced hstep).1
      simp only [SlabAllocator.adviseSlab, hvalid, if_true, Bool.false_eq_true, if_false,
        Option.getD_some] at h hkeep
      cases h
      have hset : Inv (goOn { s with slabAllocator := { s.slabAllocator with
          header := update s.slabAllocator.header slab
            { s.slabAllocator.header slab with advised := false } } } (.releasing slab request)) :=
        hs.setAllocator hkeep (fun _ => rfl)
      exact hset.pushSlab rfl rfl rfl rfl rfl
  · split at h
    case h_1 c hc =>
      obtain ⟨u, hu, rfl⟩ := Option.map_eq_some_iff.1 h
      simp only [AllocationClass.step] at hu
      split_ifs at hu with howned
      cases hu
      obtain ⟨hby, hcount⟩ := owned_add s.classes c
        (AllocationClass.addSlabLocked (s.classes c) slab) (by simpa using howned) rfl
      refine ⟨hfits, hplaced, ?_, ?_, ?_, ?_, hs.advised⟩
      · intro x
        have hx := hs.slabs x
        simp only [goOn, inFlight_cons, Call.slabs, count_append, count_singleton',
          @eq_comm _ slab x] at hx
        simp only [setClass, hby]
        omega
      · have hold := hs.slabSize
        simp only [goOn, pendingSlabs_cons, Call.slabSize] at hold
        simp only [setClass, hcount, hold]
        push_cast
        ring
      · have hold : ∀ c, ((s.classes c).handedOut).Perm (memoryOf c (memory s.returned s.calls)) := by
          simpa [goOn, memory, Call.memory] using hs.handed
        exact handed_update _ _ _ hold (fun _ _ => .refl _) (hold c)
      · simpa [goOn, setClass, Call.freedSize] using hs.allocSize
    case h_2 =>
      cases h
      exact hs.pushSlab rfl rfl rfl rfl rfl

lemma Inv.proceed {call : Call cfg} {choice : Bool} (hs : Inv (goOn s call))
    (hreclaim : ∀ slab rounds, call = .reclaimed slab rounds → 0 < s.curSlabsAdvised)
    (hfits : ∀ c, Fits (cfg.classes c) (t.classes c))
    (h : proceed s choice call = some t) : Inv t := by
  cases call with
  | slowPath c =>
    have hs' := (inv_goOn_iff ⟨rfl, rfl, rfl, rfl⟩).1 hs
    simp only [MemoryPool.proceed] at h
    split at h <;> cases h
    · exact hs'
    · exact (inv_goOn_iff ⟨rfl, rfl, rfl, rfl⟩).2 hs'
  | locked c =>
    have hs' := (inv_goOn_iff ⟨rfl, rfl, rfl, rfl⟩).1 hs
    exact hs'.tryAllocate (.wantsSlab c) ⟨rfl, rfl, rfl, rfl⟩ hfits h
  | wantsSlab c =>
    simp only [MemoryPool.proceed, Option.some.injEq] at h
    subst h
    exact ((inv_goOn_iff ⟨rfl, rfl, rfl, rfl⟩).1 hs).getSlabLocked c
  | counted c => exact hs.counted h
  | refused | released =>
    cases h
    exact hs.subtract rfl rfl rfl rfl
  | hasSlab c slab => exact hs.hasSlab hfits h
  | allocated c m =>
    cases h
    exact hs.allocated
  | freed c =>
    cases h
    exact hs.freed
  | releasing slab request => exact hs.releaseSlab hfits h
  | advised =>
    cases h
    have hcount : Inv (goOn { s with curSlabsAdvised := s.curSlabsAdvised + 1 } .advised) := by
      have hadv : 0 ≤ s.curSlabsAdvised := hs.advised
      exact ⟨hs.fits, hs.placed, hs.slabs, hs.slabSize, hs.handed, hs.allocSize,
        by simp only [goOn]; omega⟩
    exact hcount.replace rfl rfl rfl rfl
  | growing rounds =>
    have hs' := (inv_goOn_iff ⟨rfl, rfl, rfl, rfl⟩).1 hs
    cases rounds with
    | zero =>
      cases h
      exact hs'
    | succ rounds =>
      have hplaced : Placed (SlabAllocator.reclaimSlab s.slabAllocator cfg.id).2 :=
        (SlabAllocator.keeps_reclaimSlab hs.placed cfg.id).1
      simp only [MemoryPool.proceed] at h
      obtain ⟨hnone, hheld⟩ | ⟨slab, hsome, hfree, hheld⟩ :=
        SlabAllocator.reclaimSlab_held (s := s.slabAllocator) hs.placed cfg.id
      · rw [hnone] at h
        cases h
        exact hs'.setAllocator hplaced (fun x => by rw [hheld])
      · rw [hsome] at h
        cases h
        exact hs.takeSlab hplaced hfree hheld rfl rfl rfl rfl rfl
  | reclaimed slab rounds =>
    cases h
    have hpos := hreclaim slab rounds rfl
    have hpush : Inv (goOn { s with freeSlabs := s.freeSlabs ++ [slab] } (.growing rounds)) :=
      hs.pushSlab rfl rfl rfl rfl rfl
    exact ⟨hpush.fits, hpush.placed, hpush.slabs, hpush.slabSize, hpush.handed, hpush.allocSize,
      by simp only [goOn]; omega⟩

/-! ## Steps of one class -/

section
variable (hs : Inv s) {u : AllocationClass.State (Slab cfg.slabs)}
  (hfits : ∀ c', Fits (cfg.classes c') (update s.classes c u c'))
include hs hfits

lemma Inv.sameBooks (hbooks : AllocationClass.SameBooks (s.classes c) u) :
    Inv (setClass s c u) := by
  obtain ⟨hby, hcount⟩ := owned_same s.classes c u hbooks.1
  refine ⟨hfits, hs.placed, ?_, ?_, ?_, hs.allocSize, hs.advised⟩
  · simpa [setClass, hby] using hs.slabs
  · simpa [setClass, hcount] using hs.slabSize
  · refine handed_update _ _ _ hs.handed (fun _ _ => .refl _) ?_
    rw [hbooks.2]
    exact hs.handed c

lemma Inv.removeSlab (hold : (s.classes c).owned slab = true)
    (howned : u.owned = update (s.classes c).owned slab false)
    (hhanded : u.handedOut = (s.classes c).handedOut) (request : Request cfg) :
    Inv (goOn (setClass s c u) (.releasing slab request)) := by
  obtain ⟨hby, hcount⟩ := owned_remove s.classes c u hold howned
  refine ⟨hfits, hs.placed, ?_, ?_, ?_, ?_, hs.advised⟩
  · intro x
    have hx := hs.slabs x
    have hx' := hby x
    simp only [goOn, setClass, inFlight_cons, Call.slabs, count_append, count_singleton',
      @eq_comm _ slab x]
    omega
  · have hsize := hs.slabSize
    rw [← hcount] at hsize
    simp only [goOn, setClass, pendingSlabs_cons, Call.slabSize, hsize]
    ring_nf
  · have hsame : ∀ c', ((update s.classes c u) c').handedOut.Perm
        (memoryOf c' (memory s.returned s.calls)) := by
      refine handed_update _ _ _ hs.handed (fun _ _ => .refl _) ?_
      rw [hhanded]
      exact hs.handed c
    simpa [goOn, setClass, memory, Call.memory] using hsame
  · simpa [goOn, setClass, Call.freedSize] using hs.allocSize

end

lemma Inv.owner_unique (hs : Inv s) {c' : ClassId cfg}
    (hc : (s.classes c).owned slab = true) (hc' : (s.classes c').owned slab = true) : c = c' := by
  by_contra hne
  have hslabs := hs.slabs slab
  have hle : isHeld s.slabAllocator.held slab ≤ 1 := by
    unfold isHeld
    split <;> simp
  have hpair : ∑ d ∈ {c, c'}, ((s.classes d).owned slab).toNat ≤ ownedBy s.classes slab :=
    Finset.sum_le_sum_of_subset (Finset.subset_univ _)
  rw [Finset.sum_pair hne, hc, hc', Bool.toNat_true] at hpair
  omega

lemma Inv.classOfMemory (hs : Inv s) {c' : ClassId cfg} {m : Mem (Slab cfg.slabs)}
    (hm : (c, m) ∈ s.returned) (h : classOfMemory s m = some c') : c' = c := by
  have hmem : m ∈ (s.classes c).handedOut := by
    rw [(hs.handed c).mem_iff]
    simp only [memoryOf, memory, mem_map, mem_filter, mem_append, decide_eq_true_eq]
    exact ⟨(c, m), ⟨.inl hm, rfl⟩, rfl⟩
  unfold MemoryPool.classOfMemory at h
  split at h
  · have howned := find?_some h
    exact hs.owner_unique howned ((hs.fits c).owned_of_handedOut hmem)
  · cases h

lemma Inv.free (hs : Inv s) {m : Mem (Slab cfg.slabs)} (hm : (c, m) ∈ s.returned)
    (hfits : ∀ c', Fits (cfg.classes c') (update s.classes c u c'))
    (h : AllocationClass.step (cfg.classes c) (s.classes c) (.free m) = some u) :
    Inv (goOn { setClass s c u with returned := s.returned.erase (c, m) } (.freed c)) := by
  simp only [AllocationClass.step] at h
  split_ifs at h with hmem
  obtain ⟨v, hv, rfl⟩ := Option.map_eq_some_iff.1 h
  obtain ⟨hown, hhanded⟩ := AllocationClass.free_books hv
  obtain ⟨hby, hcount⟩ := owned_same s.classes c { v with handedOut := v.handedOut.erase m } hown
  have hperm : (memory s.returned s.calls).Perm
      ((c, m) :: memory (s.returned.erase (c, m)) s.calls) :=
    (perm_cons_erase hm).append_right _
  refine ⟨hfits, hs.placed, ?_, ?_, ?_, ?_, hs.advised⟩
  · simpa [goOn, setClass, Call.slabs, hby] using hs.slabs
  · simpa [goOn, setClass, Call.slabSize, hcount] using hs.slabSize
  · have hnew : ∀ c', ((update s.classes c { v with handedOut := v.handedOut.erase m }) c').handedOut.Perm
        (memoryOf c' (memory (s.returned.erase (c, m)) s.calls)) := by
      refine handed_update _ _ _ hs.handed ?_ ?_
      · intro c' hne
        have hother := memoryOf_perm hperm c'
        rwa [memoryOf_cons_of_ne hne] at hother
      · have hall := (hs.handed c).trans (memoryOf_perm hperm c)
        rw [memoryOf_cons_self] at hall
        have herase := hall.erase m
        simpa [hhanded] using herase
    simpa [goOn, setClass, memory, Call.memory] using hnew
  · have hsum := ((perm_cons_erase hm).map fun p => MemoryPool.allocSize p.1).sum_eq
    have hsize := hs.allocSize
    simp only [map_cons, sum_cons] at hsum
    simp only [goOn, setClass, pendingFrees_cons, Call.freedSize, hsize, hsum]
    ring_nf

omit [DecidableEq ι] in
lemma section_books {u : AllocationClass.State (Slab cfg.slabs)} {a : Section (Slab cfg.slabs)}
    (h : AllocationClass.step (cfg.classes c) (s.classes c) a.action = some u) :
    AllocationClass.SameBooks (s.classes c) u := by
  cases a with
  | takeOffline | collect | undoPrune | throwAborted =>
    simp only [Section.action, AllocationClass.step] at h
    split at h <;> cases h
    exact ⟨rfl, rfl⟩
  | pruneLoop shouldAbort =>
    simp only [Section.action, AllocationClass.step] at h
    split at h
    · split_ifs at h <;> cases h <;> exact ⟨rfl, rfl⟩
    · cases h
  | waitUntilAllFreed slab =>
    simp only [Section.action, AllocationClass.step] at h
    split_ifs at h
    cases h
    exact ⟨rfl, rfl⟩

lemma owned_of_releasing (hs : Inv s) {slab : Slab cfg.slabs}
    (hmem : slab ∈ AllocationClass.releasing (s.classes c)) : (s.classes c).owned slab = true := by
  have howned := ((hs.fits c).count_releasing hmem).1
  grind

/-! ## The steps that do not balance -/

/-- No slab is released from the free slabs of the pool, and a slab is reclaimed only while the
pool has advised slabs. -/
def stepMatched (s : State cfg) : Action cfg → Bool
  | .startSlabRelease none none .resize _ => s.freeSlabs.isEmpty
  | .proceed call _ =>
    match s.calls[call]? with
    | some (.reclaimed _ _) => decide (0 < s.curSlabsAdvised)
    | _ => true
  | _ => true

lemma Inv.startSlabRelease (hs : Inv s) {victim receiver : Option (ClassId cfg)}
    {mode : SlabReleaseMode}
    (hok : stepMatched s (.startSlabRelease victim receiver mode slab) = true)
    (hfits : ∀ c, Fits (cfg.classes c) (t.classes c))
    (h : startSlabRelease s victim receiver mode slab = some t) : Inv t := by
  unfold MemoryPool.startSlabRelease at h
  by_cases hthrow : receiver.isSome = true ∧ mode ≠ .rebalance
  · rw [if_pos hthrow] at h
    cases h
    exact hs
  rw [if_neg hthrow] at h
  cases victim with
  | none =>
    by_cases hmode : mode = .resize
    · subst hmode
      have hnone : receiver = none := by
        simpa using hthrow
      subst hnone
      have hempty : s.freeSlabs = [] := isEmpty_iff.1 hok
      simp only [ne_eq, not_true_eq_false, if_false, releaseFromFreeSlabs, hempty,
        getLast?_nil] at h
      cases h
      exact hs
    · simp only [ne_eq, hmode, not_false_eq_true, if_true] at h
      cases h
      exact hs
  | some c =>
    obtain ⟨u, hu, rfl⟩ := Option.map_eq_some_iff.1 h
    simp only [AllocationClass.step] at hu
    split_ifs at hu with hguard
    cases hu
    obtain ⟨hhanded, howned⟩ :=
      AllocationClass.startSlabRelease_books (cfg.classes c) (s.classes c) slab
    simp only [Bool.and_eq_true] at hguard
    split_ifs at hfits ⊢ with hfree
    · rw [if_pos hfree] at howned
      exact hs.removeSlab hfits hguard.1.2 howned hhanded _
    · rw [if_neg hfree] at howned
      have hset := hs.sameBooks hfits ⟨howned, hhanded⟩
      exact ⟨hset.fits, hset.placed, hset.slabs, hset.slabSize, hset.handed, hset.allocSize,
        hset.advised⟩

/-- Other pools do not change what this pool holds. -/
lemma isHeld_foreign (hs : Placed s.slabAllocator) {a : SlabAllocator.Action cfg.slabs ι}
    {b : SlabAllocator.State cfg.slabs ι} (hforeign : isForeign s a = true)
    (h : SlabAllocator.step s.slabAllocator a = some b) (x : Slab cfg.slabs) :
    isHeld b.held x = isHeld s.slabAllocator.held x := by
  have hgive : ∀ slab id, id ≠ cfg.id → s.slabAllocator.held slab = none →
      b.held = update s.slabAllocator.held slab (some id) →
      isHeld b.held x = isHeld s.slabAllocator.held x := by
    intro slab id hid hnone hheld
    rw [hheld, isHeld_update]
    grind [isHeld]
  have htake : ∀ slab, s.slabAllocator.held slab ≠ some cfg.id →
      b.held = update s.slabAllocator.held slab none →
      isHeld b.held x = isHeld s.slabAllocator.held x := by
    intro slab hne hheld
    rw [hheld, isHeld_update]
    grind [isHeld]
  cases a with
  | makeNewSlab id =>
    have hid : id ≠ cfg.id := by simpa [isForeign] using hforeign
    cases h
    obtain ⟨-, hheld⟩ | ⟨slab, -, hnone, hheld⟩ := SlabAllocator.makeNewSlab_held hs id
    · rw [hheld]
    · exact hgive slab id hid hnone hheld
  | reclaimSlab id =>
    have hid : id ≠ cfg.id := by simpa [isForeign] using hforeign
    cases h
    obtain ⟨-, hheld⟩ | ⟨slab, -, hnone, hheld⟩ := SlabAllocator.reclaimSlab_held hs id
    · rw [hheld]
    · exact hgive slab id hid hnone hheld
  | freeSlab slab =>
    have hne : s.slabAllocator.held slab ≠ some cfg.id := by simpa [isForeign] using hforeign
    simp only [SlabAllocator.step, SlabAllocator.freeSlab] at h
    split_ifs at h <;> cases h
    · exact htake slab hne rfl
    · rfl
  | adviseSlab slab madvised =>
    have hne : s.slabAllocator.held slab ≠ some cfg.id := by simpa [isForeign] using hforeign
    simp only [SlabAllocator.step, SlabAllocator.adviseSlab] at h
    split_ifs at h <;> cases h
    · exact htake slab hne rfl
    · rfl
    · rfl

lemma Inv.proceedCall (hs : Inv s) {call : ℕ} {choice : Bool}
    (hok : stepMatched s (.proceed call choice) = true)
    (hfits : ∀ c, Fits (cfg.classes c) (t.classes c))
    (h : step s (.proceed call choice) = some t) : Inv t := by
  simp only [step] at h
  split at h
  case h_1 c hc =>
    have hperm : s.calls.Perm (c :: s.calls.eraseIdx call) := by
      obtain ⟨hlt, hget⟩ := List.getElem?_eq_some_iff.1 hc
      rw [← hget]
      exact (List.getElem_cons_eraseIdx_perm hlt).symm
    have hfront : Inv (goOn { s with calls := s.calls.eraseIdx call } c) := hs.perm hperm
    refine hfront.proceed ?_ hfits h
    intro slab rounds hreclaimed
    rw [hreclaimed] at hc
    simpa [stepMatched, hc] using hok
  case h_2 => cases h

lemma inv_step {a : Action cfg} (hok : stepMatched s a = true) (hs : Inv s)
    (hfits : ∀ c, Fits (cfg.classes c) (t.classes c))
    (h : step s a = some t) : Inv t := by
  cases a with
  | allocate size early =>
    simp only [step] at h
    split at h
    · cases h
      exact hs
    case h_2 c _ => exact hs.tryAllocate (.slowPath c) ⟨rfl, rfl, rfl, rfl⟩ hfits h
  | free c m =>
    simp only [step] at h
    split_ifs at h with hm
    split at h
    · cases h
      exact hs
    case h_2 c' hc' =>
      obtain rfl := hs.classOfMemory hm hc'
      split at h
      · cases h
        exact hs
      case h_2 u hu =>
        cases h
        exact hs.free hm hfits hu
  | startSlabRelease victim receiver mode slab => exact hs.startSlabRelease hok hfits h
  | releaseSection c a =>
    obtain ⟨u, hu, rfl⟩ := Option.map_eq_some_iff.1 h
    exact hs.sameBooks hfits (section_books hu)
  | buildContext c =>
    simp only [step] at h
    split at h
    case h_1 slab active hrel =>
      obtain ⟨u, hu, rfl⟩ := Option.map_eq_some_iff.1 h
      have hmem : slab ∈ AllocationClass.releasing (s.classes c) := by
        simp [AllocationClass.releasing, hrel]
      simp only [AllocationClass.step, hrel] at hu
      cases hu
      cases active with
      | nil => exact hs.removeSlab hfits (owned_of_releasing hs hmem) rfl rfl _
      | cons m active => exact hs.sameBooks hfits ⟨rfl, rfl⟩
    case h_2 => cases h
  | abortSlabRelease c slab =>
    obtain ⟨u, hu, rfl⟩ := Option.map_eq_some_iff.1 h
    simp only [AllocationClass.step] at hu
    split_ifs at hu with hc
    cases hu
    exact hs.sameBooks hfits (AllocationClass.abortSlabRelease_books (hs.fits c) hc)
  | completeSlabRelease c slab =>
    obtain ⟨u, hu, rfl⟩ := Option.map_eq_some_iff.1 h
    simp only [AllocationClass.step] at hu
    split_ifs at hu with hc
    cases hu
    obtain ⟨-, hmem, -⟩ := (hs.fits c).of_holdsContext hc
    exact hs.removeSlab hfits (owned_of_releasing hs hmem) rfl rfl _
  | reclaimSlabsAndGrow numSlabs =>
    cases h
    exact (inv_goOn_iff ⟨rfl, rfl, rfl, rfl⟩).2 hs
  | resize size =>
    cases h
    exact ⟨hs.fits, hs.placed, hs.slabs, hs.slabSize, hs.handed, hs.allocSize, hs.advised⟩
  | proceed call choice => exact hs.proceedCall hok hfits h
  | otherPool a =>
    simp only [step] at h
    split_ifs at h with hforeign
    obtain ⟨b, hb, rfl⟩ := Option.map_eq_some_iff.1 h
    exact hs.setAllocator (SlabAllocator.step_keeps hs.placed hb).1
      (isHeld_foreign hs.placed hforeign hb)

/-! ## The classes in a step -/

/-- A class takes at most one lock section. -/
def ClassesStep (s t : State cfg) : Prop :=
  ∀ c, t.classes c = s.classes c ∨
    ∃ b, AllocationClass.step (cfg.classes c) (s.classes c) b = some (t.classes c)

omit [DecidableEq ι] in
lemma ClassesStep.same (h : t.classes = s.classes) : ClassesStep s t := fun c => .inl (by rw [h])

omit [DecidableEq ι] in
lemma ClassesStep.set {b : AllocationClass.Action (Slab cfg.slabs)}
    (h : AllocationClass.step (cfg.classes c) (s.classes c) b = some u)
    (ht : t.classes = update s.classes c u) : ClassesStep s t := by
  intro c'
  rw [ht]
  by_cases hc : c' = c
  · subst hc
    exact .inr ⟨b, by rw [h, update_self]⟩
  · exact .inl (update_of_ne hc u s.classes)

omit [DecidableEq ι] in
lemma tryAllocate_classes {early : Bool} {next : Call cfg}
    (h : tryAllocate s c early next = some t) : ClassesStep s t := by
  unfold tryAllocate at h
  split at h
  · split at h <;> cases h
    exact .same rfl
  · dsimp only at h
    split at h <;> cases h <;> exact .set (b := .allocate) rfl rfl

lemma proceed_classes {call : Call cfg} {choice : Bool} (h : proceed s choice call = some t) :
    ClassesStep s t := by
  cases call with
  | locked c => exact tryAllocate_classes h
  | hasSlab c slab =>
    obtain ⟨u, hu, rfl⟩ := Option.map_eq_some_iff.1 h
    refine .set hu ?_
    split <;> rfl
  | releasing slab request =>
    simp only [proceed, releaseSlab] at h
    split at h
    case h_3 =>
      split at h
      · obtain ⟨u, hu, rfl⟩ := Option.map_eq_some_iff.1 h
        exact .set hu rfl
      · cases h
        exact .same rfl
    all_goals
      refine .same ?_
      split at h <;> (try split_ifs at h) <;> cases h <;> rfl
  | slowPath c | counted c =>
    simp only [proceed] at h
    split at h <;> cases h <;> exact .same rfl
  | wantsSlab c =>
    simp only [proceed, getSlabLocked, Option.some.injEq] at h
    subst h
    refine .same ?_
    split_ifs
    · rfl
    · split <;> rfl
  | growing rounds =>
    cases rounds with
    | zero =>
      cases h
      exact .same rfl
    | succ rounds =>
      simp only [proceed] at h
      split at h <;> cases h <;> exact .same rfl
  | _ =>
    cases h
    exact .same rfl

lemma classes_step {a : Action cfg} (h : step s a = some t) : ClassesStep s t := by
  cases a with
  | allocate size early =>
    simp only [step] at h
    split at h
    · cases h
      exact .same rfl
    · exact tryAllocate_classes h
  | free c m =>
    simp only [step] at h
    split_ifs at h
    split at h
    · cases h
      exact .same rfl
    · split at h <;> cases h
      · exact .same rfl
      case h_2 u hu => exact .set hu rfl
  | startSlabRelease victim receiver mode slab =>
    simp only [step, startSlabRelease] at h
    split at h
    · cases h
      exact .same rfl
    · cases victim with
      | none =>
        refine .same ?_
        dsimp only at h
        split_ifs at h <;> cases h
        · rfl
        · unfold releaseFromFreeSlabs
          split <;> rfl
      | some c =>
        obtain ⟨u, hu, rfl⟩ := Option.map_eq_some_iff.1 h
        refine .set hu ?_
        split_ifs <;> rfl
  | releaseSection c a | abortSlabRelease c slab | completeSlabRelease c slab =>
    obtain ⟨u, hu, rfl⟩ := Option.map_eq_some_iff.1 h
    exact .set hu rfl
  | buildContext c =>
    simp only [step] at h
    split at h
    · obtain ⟨u, hu, rfl⟩ := Option.map_eq_some_iff.1 h
      refine .set hu ?_
      split_ifs <;> rfl
    · cases h
  | reclaimSlabsAndGrow | resize =>
    cases h
    exact .same rfl
  | proceed call choice =>
    simp only [step] at h
    split at h
    · intro c
      exact proceed_classes h c
    · cases h
  | otherPool a =>
    simp only [step] at h
    split_ifs at h
    obtain ⟨b, hb, rfl⟩ := Option.map_eq_some_iff.1 h
    exact .same rfl

/-- The books, with the invariant of every class. -/
def Booked (s : State cfg) : Prop :=
  (∀ c, AllocationClass.Sound (cfg.classes c) False (s.classes c)) ∧ Inv s

lemma booked_step {a : Action cfg} (hok : stepMatched s a = true) (hs : Booked s)
    (h : step s a = some t) : Booked t := by
  have hsound : ∀ c, AllocationClass.Sound (cfg.classes c) False (t.classes c) := by
    intro c
    obtain hsame | ⟨b, hb⟩ := classes_step h c
    · rw [hsame]
      exact hs.1 c
    · exact AllocationClass.step_sound _ _ _ False.elim (hs.1 c) hb
  exact ⟨hsound, inv_step hok hs.2 (fun c => (hsound c).fits) h⟩

/-! ## Exact counters -/

/-- Between calls the counters are exact, memory handed out fits into the slabs of the classes,
and no counter ever goes below zero. -/
structure Accounted (s : State cfg) : Prop where
  quiet : s.calls = [] → (∀ c, (s.classes c).release = none) →
    sizeT s.currSlabAllocSize = kSize * ownedCount s.classes ∧
    sizeT s.currAllocSize = ∑ c, allocSize c * (s.classes c).handedOut.length ∧
    sizeT s.currAllocSize ≤ sizeT s.currSlabAllocSize
  slabAllocSize : 0 ≤ s.currSlabAllocSize
  currAllocSize : 0 ≤ s.currAllocSize
  slabsAdvised : 0 ≤ s.curSlabsAdvised

omit [DecidableEq ι] in
lemma sizeT_natCast {n : ℕ} (h : n < 2 ^ 64) : sizeT (n : ℤ) = n := by
  unfold sizeT
  omega

/-- The pool's slabs are slabs of the allocator. -/
lemma Inv.ownedCount_le (hs : Inv s) : ownedCount s.classes ≤ cfg.slabs.numSlabs := by
  have hle : ownedCount s.classes ≤ ∑ _ : Slab cfg.slabs, 1 := by
    apply Finset.sum_le_sum
    intro slab _
    have hslabs := hs.slabs slab
    have hheld : isHeld s.slabAllocator.held slab ≤ 1 := by
      unfold isHeld
      split <;> simp
    omega
  simpa using hle

lemma sum_returned (l : List (ClassId cfg × Mem (Slab cfg.slabs))) :
    (l.map fun p => allocSize p.1).sum = ∑ c, allocSize c * (memoryOf c l).length := by
  induction l with
  | nil => simp [memoryOf]
  | cons p l ih =>
    obtain ⟨c, m⟩ := p
    have hcons : ∀ c', (memoryOf c' ((c, m) :: l)).length =
        (memoryOf c' l).length + if c' = c then 1 else 0 := by
      intro c'
      by_cases h : c' = c
      · subst h
        simp [memoryOf_cons_self]
      · simp [memoryOf_cons_of_ne h, h]
    simp only [map_cons, sum_cons, ih, hcons, Nat.mul_add, Finset.sum_add_distrib,
      mul_ite, mul_one, mul_zero, Finset.sum_ite_eq', Finset.mem_univ, if_true]
    omega

lemma Inv.handedOut_le (hs : Inv s) : ∑ c, MemoryPool.allocSize c * (s.classes c).handedOut.length ≤
      kSize * ownedCount s.classes := by
  have hswap : ownedCount s.classes = ∑ c, ∑ slab, ((s.classes c).owned slab).toNat :=
    Finset.sum_comm
  rw [hswap, Finset.mul_sum]
  apply Finset.sum_le_sum
  intro c _
  have hfits := (hs.fits c).handedOut_le
  have hper : MemoryPool.allocSize c * AllocationClass.getAllocsPerSlab (cfg.classes c) ≤ kSize :=
    Nat.mul_div_le _ _
  calc MemoryPool.allocSize c * (s.classes c).handedOut.length
      ≤ MemoryPool.allocSize c * (AllocationClass.getAllocsPerSlab (cfg.classes c) *
        ∑ slab, ((s.classes c).owned slab).toNat) := Nat.mul_le_mul_left _ hfits
    _ = MemoryPool.allocSize c * AllocationClass.getAllocsPerSlab (cfg.classes c) *
        ∑ slab, ((s.classes c).owned slab).toNat := (Nat.mul_assoc _ _ _).symm
    _ ≤ kSize * ∑ slab, ((s.classes c).owned slab).toNat := Nat.mul_le_mul_right _ hper

lemma Inv.accounted (hs : Inv s) : Accounted s := by
  refine ⟨?_, ?_, ?_, hs.advised⟩
  · intro hcalls _
    have hslab := hs.slabSize
    have halloc := hs.allocSize
    have hcount := hs.ownedCount_le
    have hlt := cfg.slabs.numSlabs_lt
    have hfit := hs.handedOut_le
    simp only [hcalls, pendingSlabs, pendingFrees, map_nil, sum_nil, add_zero] at hslab halloc
    have hsum : (s.returned.map fun p => MemoryPool.allocSize p.1).sum =
        ∑ c, MemoryPool.allocSize c * (s.classes c).handedOut.length := by
      rw [sum_returned]
      apply Finset.sum_congr rfl
      intro c _
      have hperm := (hs.handed c).length_eq
      simp only [memory, hcalls, flatMap_nil, append_nil] at hperm
      rw [hperm]
    rw [hsum] at halloc
    have hbound : kSize * ownedCount s.classes < 2 ^ 64 := by
      unfold kSize
      omega
    rw [hslab, halloc, sizeT_natCast hbound, sizeT_natCast (by omega)]
    exact ⟨rfl, rfl, hfit⟩
  · rw [hs.slabSize]
    exact Int.natCast_nonneg _
  · rw [hs.allocSize]
    exact Int.natCast_nonneg _

lemma inv_initial (cfg : Config ι) (maxSize : ℕ) : Inv (initial cfg maxSize) := by
  refine ⟨fun c => (AllocationClass.initial_sound _).fits, SlabAllocator.conserved_initial.1, ?_,
    ?_, ?_, ?_, le_rfl⟩
  · intro slab
    simp [initial, ownedBy, inFlight, isHeld, AllocationClass.initial, SlabAllocator.initial]
  · simp [initial, ownedCount, ownedBy, AllocationClass.initial, pendingSlabs]
  · intro c
    simp [initial, memoryOf, memory, AllocationClass.initial]
  · simp [initial, pendingFrees]

/-- Two slabs of memory, one class with two chunks a slab. -/
def oneClass : Config (Fin 2) where
  slabs := SlabAllocator.twoSlabs
  id := 0
  numClasses := 1
  classes := fun _ => AllocationClass.halfSlab
  sorted := Subsingleton.strictMono _

/-- An allocation takes a slab from the slab allocator. -/
def firstAllocation : List (Action oneClass) :=
  .allocate 1000000 false :: List.replicate 6 (.proceed 0 false)

/-- The memory is freed and the slab is released to the pool's own list. -/
def slabToPool : List (Action oneClass) :=
  [.free ⟨0, by decide⟩ (⟨0, by decide⟩, 0), .proceed 0 false,
    .startSlabRelease (some ⟨0, by decide⟩) none .rebalance ⟨0, by decide⟩,
    .releaseSection ⟨0, by decide⟩ .takeOffline, .releaseSection ⟨0, by decide⟩ (.pruneLoop false),
    .releaseSection ⟨0, by decide⟩ .collect, .buildContext ⟨0, by decide⟩, .proceed 0 false,
    .proceed 0 false]

end HybridCache.MemoryPool

import HybridCache.AllocationPartition

/-!
# The lock-free flag of an allocation class

`allocate` returns early, without the lock, when `canAllocate_` is false. A failing allocation
clears the flag; whatever gives memory back has to set it. While a release has the free list
offline the class looks empty to other threads, and one of them may clear the flag. The batches
set it again when they return allocations. The path that undoes an aborted release does not.
-/
namespace HybridCache.AllocationClass
open Transition Function

variable {σ : Type*} [DecidableEq σ] {cfg : Config} {s t : State σ}

/-- A release has taken the free list and has not returned it. -/
def listTaken (s : State σ) : Bool :=
  match s.release with
  | some (_, .batch _ _ _) | some (_, .aborting _ _ _) => true
  | _ => false

/-- An allocation fails. -/
def Exhausted (cfg : Config) (s : State σ) : Prop :=
  s.freedAllocations = [] ∧ s.freeSlabs = [] ∧ canAllocateFromCurrentSlabLocked cfg s = false

def FlagTold (cfg : Config) (s : State σ) : Prop := s.canAllocate = false → Exhausted cfg s

/-- The early return is not taken while the class has free memory. -/
def NothingHidden (cfg : Config) (s : State σ) : Prop := listTaken s = false → FlagTold cfg s

/-- An aborted release returns its lists to a class whose flag is set, or has nothing to
return. -/
def StepUndoes (s : State σ) : Action σ → Prop
  | .undoPrune =>
    match s.release with
    | some (_, .aborting f i n) => s.canAllocate = true ∨ (f = [] ∧ i = [] ∧ n = [])
    | _ => True
  | _ => True

omit [DecidableEq σ] in
/-- A step that neither clears the flag nor adds memory. -/
lemma FlagTold.keep (hs : FlagTold cfg s) (hflag : t.canAllocate = false → s.canAllocate = false)
    (hfreed : s.freedAllocations = [] → t.freedAllocations = [])
    (hslabs : s.freeSlabs = [] → t.freeSlabs = [])
    (hroom : canAllocateFromCurrentSlabLocked cfg s = false →
      canAllocateFromCurrentSlabLocked cfg t = false) : FlagTold cfg t := by
  intro ht
  obtain ⟨h1, h2, h3⟩ := hs (hflag ht)
  exact ⟨hfreed h1, hslabs h2, hroom h3⟩

omit [DecidableEq σ] in
lemma FlagTold.of_set (h : t.canAllocate = true) : FlagTold cfg t := by
  intro hfalse
  rw [h] at hfalse
  cases hfalse

omit [DecidableEq σ] in
/-- An allocation that succeeds finds the flag set, and one that fails finds nothing. -/
lemma FlagTold.allocate (hs : FlagTold cfg s) : FlagTold cfg (allocate cfg s).2 := by
  obtain ⟨m, rest, hl, heq⟩ | ⟨slab, hc, hroom, heq⟩ | ⟨init, slab, hf, hfull, heq⟩ |
      ⟨hfreed, hslabs, hroom, heq⟩ := allocate_cases cfg s <;> rw [heq] <;> intro hfalse
  · simpa [hl] using (hs hfalse).1
  · have hfull := (hs hfalse).2.2
    simp [canAllocateFromCurrentSlabLocked, hc, hroom] at hfull
  · have hsetup : (setupCurrentSlabLocked s).canAllocate = s.canAllocate := by
      simp [setupCurrentSlabLocked, hf]
    simpa [hf] using (hs (hsetup.symm.trans hfalse)).2.1
  · exact ⟨hfreed, hslabs, hroom⟩

lemma FlagTold.free (hs : FlagTold cfg s) {m : Mem σ} (h : free cfg s m = some t) :
    FlagTold cfg t := by
  unfold AllocationClass.free at h
  grind [FlagTold, Exhausted, canAllocateFromCurrentSlabLocked]

section
variable (hs : FlagTold cfg s) (slab : σ)
include hs

lemma FlagTold.startSlabRelease : FlagTold cfg (startSlabRelease cfg s slab) := by
  unfold AllocationClass.startSlabRelease
  split
  · refine hs.keep id id ?_ id
    intro h
    simp [h, swapRemove]
  · dsimp only
    split_ifs
    · exact hs.keep id id id (fun _ => by simp [canAllocateFromCurrentSlabLocked])
    · exact hs
    · exact hs

lemma FlagTold.putBack (f i n : List (Mem σ)) : FlagTold cfg (putBack cfg s slab f i n) := by
  cases n with
  | nil => exact hs.keep id (by simp [AllocationClass.putBack]) id id
  | cons m n => exact .of_set rfl

lemma FlagTold.abortSlabRelease :
    FlagTold cfg (dropContext (abortSlabRelease cfg s slab) slab) := by
  cases hfreed : allocsWith cfg true slab ((s.slabReleaseAllocMap slab).getD []) with
  | nil =>
    refine hs.keep ?_ ?_ id id
    · simp [dropContext, AllocationClass.abortSlabRelease, hfreed]
    · simp [dropContext, AllocationClass.abortSlabRelease, hfreed]
  | cons m rest =>
    exact .of_set (by simp [dropContext, AllocationClass.abortSlabRelease, hfreed])

end

omit [DecidableEq σ] in
lemma flagTold_undoPrune (cfg : Config) (hs : FlagTold cfg s) (slab : σ) (f i n : List (Mem σ)) :
    FlagTold cfg (undoPrune s slab f i n) ↔ s.canAllocate = true ∨ (f = [] ∧ i = [] ∧ n = []) := by
  constructor
  · intro ht
    cases hflag : s.canAllocate with
    | true => exact .inl rfl
    | false =>
      have hfreed := (ht hflag).1
      simp only [undoPrune, List.append_eq_nil_iff] at hfreed
      exact .inr ⟨hfreed.1.2.2, hfreed.1.1, hfreed.1.2.1⟩
  · rintro (hflag | ⟨rfl, rfl, rfl⟩)
    · exact .of_set hflag
    · exact hs.keep id id id id

lemma flagTold_step {a : Action σ} (hs : FlagTold cfg s) (ha : a ≠ .undoPrune)
    (h : step cfg s a = some t) : FlagTold cfg t := by
  cases a with
  | undoPrune => exact absurd rfl ha
  | addSlab slab | startSlabRelease slab | abortSlabRelease slab | waitUntilAllFreed slab
  | completeSlabRelease slab =>
    simp only [step] at h
    split_ifs at h
    cases h
    first
      | exact .of_set rfl
      | exact hs.startSlabRelease slab
      | exact hs.abortSlabRelease slab
      | exact hs
  | addSlabAndAllocate slab =>
    simp only [step] at h
    split_ifs at h
    cases h
    exact FlagTold.allocate (.of_set rfl)
  | allocate =>
    cases h
    exact hs.allocate
  | free m =>
    simp only [step] at h
    split_ifs at h
    obtain ⟨u, hu, rfl⟩ := Option.map_eq_some_iff.1 h
    exact (hs.free hu).keep id id id id
  | takeOffline | collect | throwAborted =>
    simp only [step] at h
    split at h <;> cases h
    exact hs.keep id (fun h => by first | exact h | rfl) id id
  | pruneLoop shouldAbort =>
    simp only [step] at h
    split at h
    · split_ifs at h <;> cases h
      · exact hs
      · exact hs.putBack _ _ _ _
    · cases h
  | buildContext =>
    simp only [step] at h
    split at h <;> cases h
    unfold AllocationClass.buildContext
    split <;> exact hs

/-- Under the flag's meaning, one step hides no memory exactly when it is not an undoing that
returns memory with the flag cleared. -/
lemma nothingHidden_step {a : Action σ} (hs : FlagTold cfg s) (h : step cfg s a = some t) :
    (listTaken t = true → FlagTold cfg t) ∧ (NothingHidden cfg t ↔ StepUndoes s a) := by
  by_cases ha : a = .undoPrune
  · subst ha
    simp only [step] at h
    split at h
    case h_1 slab f i n hrel =>
      cases h
      refine ⟨nofun, ?_⟩
      simp only [StepUndoes, hrel]
      rw [← flagTold_undoPrune cfg hs slab f i n]
      exact ⟨fun ht => ht rfl, fun ht _ => ht⟩
    case h_2 => cases h
  · have ht := flagTold_step hs ha h
    refine ⟨fun _ => ht, iff_of_true (fun _ => ht) ?_⟩
    cases a with
    | undoPrune => exact absurd rfl ha
    | _ => trivial

/-- In a run from the empty class, no free memory is hidden behind the flag in any state exactly
when every aborted release returns its lists to a class whose flag is set. -/
theorem no_free_memory_hidden_iff (cfg : Config) (as : List (Action σ)) :
    Always (step cfg) (NothingHidden cfg) (initial σ) as ↔
      Meets (step cfg) StepUndoes (initial σ) as := by
  have htold : ∀ s : State σ, (listTaken s = true → FlagTold cfg s) → NothingHidden cfg s →
      FlagTold cfg s := by
    intro s hoff hhidden
    cases h : listTaken s with
    | true => exact hoff h
    | false => exact hhidden h
  refine always_iff_meets (fun s => listTaken s = true → FlagTold cfg s) (fun _ => True) ?_ ?_
    (fun _ _ => trivial) nofun (fun _ => .of_set rfl)
  · intro s a t _ hoff hhidden h
    exact (nothingHidden_step (htold s hoff hhidden) h).1
  · intro s a t _ hoff hhidden h
    exact (nothingHidden_step (htold s hoff hhidden) h).2

/-- Both chunks of slab 0 are free when its release takes the free list. An allocation of
another thread fails, the release is aborted, and the class has two free chunks and a cleared
flag. -/
theorem aborted_release_hides_memory : (run (step ⟨2 ^ 21, by decide, by decide⟩) (initial ℕ)
      [.addSlab 0, .allocate, .allocate, .free (0, 0), .free (0, 2 ^ 21), .startSlabRelease 0,
        .takeOffline, .allocate, .pruneLoop true, .undoPrune, .throwAborted]).map
      (fun s => (s.canAllocate, s.freedAllocations.length, listTaken s)) = some (false, 2, false) := by
  decide

end HybridCache.AllocationClass

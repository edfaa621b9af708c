import Mathlib
import HybridCache.RegionLifecycle

/-!
# Counting the readers and writers of a region

A reclaim blocks a region and waits until nobody has it open. A flush that fails
waits for the writers and then, to detach the buffer, for the readers of the buffer,
but it neither blocks the region nor waits for physical readers. The counters are
exact along a run exactly when every such reset finds no physical reader.
-/
namespace HybridCache.RegionManager
open Function

variable {cfg : Config} {ι : Type}

def isOpen (rid : RegionId cfg) (m : Mode) : Option (Descriptor cfg) → ℕ
  | none => 0
  | some d => if d.id = rid ∧ d.mode = m then 1 else 0

section Accounting
variable [Fintype ι]

def openDescriptors (s : State cfg ι) (rid : RegionId cfg) (m : Mode) : ℕ :=
  ∑ i, isOpen rid m (s.descriptors i)

/-- The counters are exact, every reset found a region that nobody had open, and every
close found a positive counter. -/
structure Accounted (s : State cfg ι) : Prop where
  exact : ∀ rid m, (s.regions rid).active m = openDescriptors s rid m
  resets : s.resetsUnused = true
  closes : s.closesCounted = true

/-- The condition on the reset at the end of a failed flush: no physical reader has
the region open. -/
def StepFindsNoReader (s : State cfg ι) : Action cfg ι → Prop
  | .runJob rid (.resetting false) _ => (rid, .resetting false) ∈ s.jobs →
    openDescriptors s rid .PhysRead = 0
  | _ => True

instance (s : State cfg ι) (a : Action cfg ι) : Decidable (StepFindsNoReader s a) := by
  unfold StepFindsNoReader
  split <;> infer_instance

end Accounting

/-! ## What the phases of a job know about its region -/

def PhaseFact (g : Region) : Owner → Prop
  | .job .cleanedup => g.active .Write = 0
  | .job (.releasing false) => g.active .Write = 0 ∧ g.active .InMemRead = 0 ∧ g.hasBuffer = false
  | .job (.resetting false) => g.active .Write = 0 ∧ g.active .InMemRead = 0 ∧ g.hasBuffer = false
  | .job .blocked => g.blockAccess = true
  | .job .drained => g.blockAccess = true ∧ ∀ m, g.active m = 0
  | .job (.releasing true) => g.blockAccess = true ∧ ∀ m, g.active m = 0
  | .job (.resetting true) => g.blockAccess = true ∧ ∀ m, g.active m = 0
  | _ => True

structure Phased (s : State cfg ι) : Prop where
  owned : Owned s
  fact : Facts PhaseFact s

lemma init_phased : Phased (init cfg ι) := by
  refine ⟨init_owned, ?_⟩
  intro rid o ho
  cases o with
  | job ph => exact absurd ho List.not_mem_nil
  | tracked | clean | taking | current => trivial

/-! ## Frames -/

section Frame
variable [Fintype ι] {s t : State cfg ι}

lemma Accounted.of_frame (h : Accounted s)
    (hactive : ∀ rid, (t.regions rid).active = (s.regions rid).active)
    (hdesc : t.descriptors = s.descriptors) (hresets : t.resetsUnused = s.resetsUnused)
    (hcloses : t.closesCounted = s.closesCounted) : Accounted t := by
  refine ⟨?_, hresets.trans h.resets, hcloses.trans h.closes⟩
  intro rid m
  rw [hactive, openDescriptors, hdesc]
  exact h.exact rid m

end Frame

lemma active_setRegion (s : State cfg ι) {rid : RegionId cfg} {g : Region}
    (hg : g.active = (s.regions rid).active) (r : RegionId cfg) :
    ((setRegion s rid g).regions r).active = (s.regions r).active := by
  change (update s.regions rid g r).active = _
  by_cases hr : r = rid
  · rw [hr, update_self, hg]
  · rw [update_of_ne hr]

/-! ## Opening and closing -/

section Descriptors
variable [Fintype ι] [DecidableEq ι] {s : State cfg ι}

lemma openDescriptors_set (s : State cfg ι) (i : ι) (d : Option (Descriptor cfg))
    (rid : RegionId cfg) (m : Mode) :
    openDescriptors (setDescriptor s i d) rid m + isOpen rid m (s.descriptors i) =
      openDescriptors s rid m + isOpen rid m d :=
  Transition.sum_update s.descriptors (isOpen rid m) i d

lemma isOpen_self (d : Descriptor cfg) : isOpen d.id d.mode (some d) = 1 := if_pos ⟨rfl, rfl⟩

variable {i : ι}

omit [DecidableEq ι] in
/-- An open descriptor is counted. -/
lemma Accounted.active_pos (h : Accounted s) {d : Descriptor cfg}
    (hd : s.descriptors i = some d) : 0 < (s.regions d.id).active d.mode := by
  have hle := Transition.le_sum (fun j => isOpen d.id d.mode (s.descriptors j)) i
  rw [h.exact, openDescriptors]
  rw [hd, isOpen_self] at hle
  omega

lemma Accounted.opened (h : Accounted s) (hi : s.descriptors i = none)
    {rid : RegionId cfg} {m : Mode} {e : Option ℕ} {g : Region}
    (hg : g.active = update (s.regions rid).active m ((s.regions rid).active m + 1)) :
    Accounted (setRegion (setDescriptor s i (some ⟨rid, m, e⟩)) rid g) := by
  refine ⟨?_, h.resets, h.closes⟩
  intro r n
  have hset := openDescriptors_set s i (some ⟨rid, m, e⟩) r n
  have hexact := h.exact r n
  change (update s.regions rid g r).active n =
    openDescriptors (setDescriptor s i (some ⟨rid, m, e⟩)) r n
  rw [hi] at hset
  by_cases hr : r = rid
  · subst hr
    rw [update_self, hg, update_apply]
    by_cases hm : n = m
    · subst hm
      rw [if_pos rfl]
      simp only [isOpen, and_self, if_true] at hset
      omega
    · rw [if_neg hm]
      simp only [isOpen, Ne.symm hm, and_false, if_false] at hset
      omega
  · rw [update_of_ne hr]
    simp only [isOpen, Ne.symm hr, false_and, if_false] at hset
    omega

section
variable (h : Accounted s) {i : ι} {d : Descriptor cfg} (hd : s.descriptors i = some d)
include h hd

lemma Accounted.closed : Accounted (closeRegion s i d) := by
  have hpos := h.active_pos hd
  refine ⟨?_, h.resets, ?_⟩
  · intro r n
    have hset := openDescriptors_set s i none r n
    have hexact := h.exact r n
    change (update s.regions d.id ((s.regions d.id).close d.mode) r).active n =
      openDescriptors (setDescriptor s i none) r n
    rw [hd] at hset
    by_cases hr : r = d.id
    · subst hr
      rw [update_self, Region.active_close, update_apply]
      by_cases hm : n = d.mode
      · subst hm
        rw [if_pos rfl, decrement, if_neg (by omega)]
        simp only [isOpen, and_self, if_true] at hset
        omega
      · rw [if_neg hm]
        simp only [isOpen, Ne.symm hm, and_false, if_false] at hset
        omega
    · rw [update_of_ne hr]
      simp only [isOpen, Ne.symm hr, false_and, if_false] at hset
      omega
  · change (s.closesCounted && decide ((s.regions d.id).active d.mode ≠ 0)) = true
    rw [h.closes, Bool.true_and]
    exact decide_eq_true (by omega)

lemma Accounted.checked : Accounted (setDescriptor s i (some ⟨d.id, d.mode, none⟩)) := by
  refine ⟨?_, h.resets, h.closes⟩
  intro r n
  have hset := openDescriptors_set s i (some ⟨d.id, d.mode, none⟩) r n
  have hexact := h.exact r n
  rw [hd] at hset
  change (s.regions r).active n = _
  simp only [isOpen] at hset
  omega

end

end Descriptors

/-! ## Facts along a step -/

section Steps
variable [Fintype ι] [DecidableEq ι] {s : State cfg ι}

variable {g : Region} {o : Owner} {rid : RegionId cfg}

/-- Opening a region for reading: it is not blocked, and without a buffer the reader
is a physical one. -/
lemma PhaseFact.opened (h : PhaseFact g o)
    (hblock : g.blockAccess = false) : PhaseFact (g.addActive g.readMode) o := by
  have hwrite : (g.addActive g.readMode).active .Write = g.active .Write := by
    rw [Region.active_addActive, update_of_ne g.readMode_ne_write.symm]
  have hmem : g.hasBuffer = false →
      (g.addActive g.readMode).active .InMemRead = g.active .InMemRead := by
    intro hb
    have hmode : g.readMode = .PhysRead := by simp [Region.readMode, hb]
    rw [hmode, Region.active_addActive, update_of_ne (by decide)]
  unfold PhaseFact at *
  split at h
  · exact hwrite.trans h
  · exact ⟨hwrite.trans h.1, (hmem h.2.2).trans h.2.1, h.2.2⟩
  · exact ⟨hwrite.trans h.1, (hmem h.2.2).trans h.2.1, h.2.2⟩
  · exact absurd h (by simp [hblock])
  · exact absurd h.1 (by simp [hblock])
  · exact absurd h.1 (by simp [hblock])
  · exact absurd h.1 (by simp [hblock])
  · trivial

/-- Closing a region: the counter was positive, so no fact says that it is zero. -/
lemma PhaseFact.closed (h : PhaseFact g o) {m : Mode}
    (hpos : 0 < g.active m) : PhaseFact (g.close m) o := by
  have hkeep : ∀ n, g.active n = 0 → (g.close m).active n = 0 := by
    intro n hn
    have hne : n ≠ m := by
      intro heq
      rw [heq] at hn
      omega
    rw [Region.active_close, update_of_ne hne, hn]
  unfold PhaseFact at *
  split at h
  · exact hkeep _ h
  · exact ⟨hkeep _ h.1, hkeep _ h.2.1, h.2.2⟩
  · exact ⟨hkeep _ h.1, hkeep _ h.2.1, h.2.2⟩
  · exact h
  · exact ⟨h.1, fun n => hkeep n (h.2 n)⟩
  · exact ⟨h.1, fun n => hkeep n (h.2 n)⟩
  · exact ⟨h.1, fun n => hkeep n (h.2 n)⟩
  · trivial

lemma Change.phase {g' : Region} {o' : Owner} (h : Change g o g' o') (hg : PhaseFact g o) :
    PhaseFact g' o' := by
  cases h with
  | opened o hblock => exact hg.opened hblock
  | closed o m hpos => exact hg.closed hpos
  | cleaned hwrite => exact hwrite
  | discarded hread => exact ⟨hg, hread, rfl⟩
  | blocked => rfl
  | drained hopen => exact ⟨hg, hopen⟩
  | reclaimed => exact hg
  | bumped reclaim => cases reclaim <;> exact hg
  | allocated | released | popped | pushedBack | assigned | evicted | flushedBefore | written
  | retried | gaveUp | detached | tracked | reset | returned => trivial

lemma step_phased (s : State cfg ι) (a : Action cfg ι) (t : State cfg ι) (h : Phased s)
    (hacc : Accounted s) (ht : step s a = some t) : Phased t := by
  have hown := step_owned s a t h.owned ht
  refine ⟨hown, h.fact.of_changes hown ?_ fun _ _ _ _ hc => hc.phase⟩
  exact step_changes h.owned (fun _ _ hd => hacc.active_pos hd) ht

/-! ## Counters along a step -/

omit [DecidableEq ι] in
lemma resetRegion_accounted_iff (hacc : Accounted s) (rid : RegionId cfg) :
    Accounted (resetRegion s rid) ↔ ∀ m, (s.regions rid).active m = 0 := by
  constructor
  · intro h m
    have hexact := h.exact rid m
    change (update s.regions rid _ rid).active m = openDescriptors s rid m at hexact
    rw [update_self, Region.active_reset] at hexact
    rw [hacc.exact]
    exact hexact.symm
  · intro h
    refine ⟨?_, ?_, hacc.closes⟩
    · intro r m
      have hexact := hacc.exact r m
      change (update s.regions rid _ r).active m = openDescriptors s r m
      by_cases hr : r = rid
      · rw [hr, update_self, Region.active_reset, ← hacc.exact, h]
      · rw [update_of_ne hr]
        exact hexact
    · change (s.resetsUnused && decide ((s.regions rid).activeOpen = 0)) = true
      rw [hacc.resets, Bool.true_and, Region.activeOpen, h, h, h]
      rfl

omit [DecidableEq ι] in
lemma moveJob_accounted_iff (rid : RegionId cfg) (old new : Phase) :
    Accounted (moveJob s rid old new) ↔ Accounted s :=
  ⟨fun h => ⟨h.exact, h.resets, h.closes⟩, fun h => ⟨h.exact, h.resets, h.closes⟩⟩

omit [DecidableEq ι] in
lemma Accounted.setRegion (hacc : Accounted s) {g : Region}
    (hg : g.active = (s.regions rid).active) : Accounted (setRegion s rid g) :=
  hacc.of_frame (active_setRegion s hg) rfl rfl rfl

omit [DecidableEq ι] in
lemma runJob_accounted_iff (h : Phased s) (hacc : Accounted s) {ph : Phase}
    {written : Bool} (hmem : (rid, ph) ∈ s.jobs) {t : State cfg ι}
    (ht : runJob s rid written ph = some t) :
    Accounted t ↔ StepFindsNoReader s (.runJob rid ph written) := by
  have hfact := h.fact rid (.job ph) hmem
  cases ph with
  | flushing n =>
    refine iff_of_true ?_ trivial
    rw [RegionManager.runJob] at ht
    split_ifs at ht <;> cases ht
    · exact hacc
    · exact (moveJob_accounted_iff _ _ _).2 hacc
    · exact (moveJob_accounted_iff _ _ _).2 (hacc.setRegion rfl)
    · exact (moveJob_accounted_iff _ _ _).2 hacc
    · exact (moveJob_accounted_iff _ _ _).2 hacc
  | flushed | cleanedup =>
    refine iff_of_true ?_ trivial
    rw [RegionManager.runJob] at ht
    split_ifs at ht
    rw [← Option.some.inj ht, moveJob_accounted_iff]
    exact hacc.of_frame (active_setRegion s rfl) rfl rfl rfl
  | failing =>
    refine iff_of_true ?_ trivial
    rw [RegionManager.runJob] at ht
    split_ifs at ht
    rw [← Option.some.inj ht, moveJob_accounted_iff]
    exact hacc.setRegion rfl
  | evicted =>
    refine iff_of_true ?_ trivial
    rw [← Option.some.inj ht, moveJob_accounted_iff]
    exact hacc.setRegion rfl
  | blocked =>
    refine iff_of_true ?_ trivial
    rw [RegionManager.runJob] at ht
    split_ifs at ht
    rw [← Option.some.inj ht, moveJob_accounted_iff]
    exact hacc
  | detached | drained | releasing | returning =>
    refine iff_of_true ?_ trivial
    cases ht
    exact ⟨hacc.exact, hacc.resets, hacc.closes⟩
  | resetting reclaim =>
    rw [← Option.some.inj ht, moveJob_accounted_iff, resetRegion_accounted_iff hacc]
    cases reclaim with
    | true => exact iff_of_true hfact.2 trivial
    | false =>
      -- a failed flush has waited for writers and readers of the buffer only
      change (∀ m, (s.regions rid).active m = 0) ↔
        ((rid, Phase.resetting false) ∈ s.jobs → openDescriptors s rid .PhysRead = 0)
      rw [← hacc.exact]
      constructor
      · intro hall _
        exact hall .PhysRead
      · intro hphys m
        cases m with
        | Write => exact hfact.1
        | PhysRead => exact hphys hmem
        | InMemRead => exact hfact.2.1

lemma step_accounted_iff (s : State cfg ι) (a : Action cfg ι) (t : State cfg ι) (h : Phased s)
    (hacc : Accounted s) (ht : step s a = some t) :
    Accounted t ↔ StepFindsNoReader s a := by
  cases a with
  | openForRead i rid seqNumber =>
    refine iff_of_true ?_ trivial
    rw [step] at ht
    split_ifs at ht with hi hb <;> cases ht
    · exact hacc
    · exact hacc.opened (not_ne_iff.1 hi) rfl
  | checkSeqNumber i =>
    refine iff_of_true ?_ trivial
    rw [step] at ht
    split at ht
    · rename_i rid m n hd
      split_ifs at ht <;> cases ht
      · exact hacc.checked hd
      · exact hacc.closed hd
    · cases ht
  | close i =>
    refine iff_of_true ?_ trivial
    rw [step] at ht
    split at ht
    · rename_i rid m hd
      cases ht
      exact hacc.closed hd
    · cases ht
  | allocate i p size =>
    refine iff_of_true ?_ trivial
    rw [step] at ht
    split at ht
    · split_ifs at ht with hi
      cases ht
      exact hacc.opened (not_ne_iff.1 fun hne => hi (Or.inl hne)) rfl
    · cases ht
  | releaseRegion p =>
    refine iff_of_true ?_ trivial
    rw [step] at ht
    split at ht
    · cases ht
      exact hacc.of_frame (active_setRegion s rfl) rfl rfl rfl
    · cases ht
  | getCleanRegion p =>
    refine iff_of_true ?_ trivial
    rw [step] at ht
    split at ht
    · cases ht
      unfold popCleanRegion
      split <;> exact ⟨hacc.exact, hacc.resets, hacc.closes⟩
    · cases ht
  | assignBuffer p =>
    refine iff_of_true ?_ trivial
    rw [step] at ht
    split at ht
    · cases ht
      unfold assignBufferToRegion
      split_ifs
      · exact ⟨hacc.exact, hacc.resets, hacc.closes⟩
      · exact hacc.of_frame (active_setRegion s rfl) rfl rfl rfl
    · cases ht
  | evict rid =>
    refine iff_of_true ?_ trivial
    rw [step] at ht
    split_ifs at ht
    cases ht
    exact ⟨hacc.exact, hacc.resets, hacc.closes⟩
  | runJob rid ph written =>
    rw [step] at ht
    split_ifs at ht with hmem
    exact runJob_accounted_iff h hacc hmem ht

end Steps

lemma init_accounted [Fintype ι] : Accounted (init cfg ι) := by
  refine ⟨?_, rfl, rfl⟩
  simp [init, openDescriptors, isOpen, Region.fresh]

/-- The counters equal the open descriptors, no reset finds the region open and no
close finds a zero counter, in every state of a run, exactly when every reset at the
end of a failed flush finds no physical reader. -/
theorem accounting_iff (cfg : Config) (ι : Type) [Fintype ι] [DecidableEq ι]
    (as : List (Action cfg ι)) :
    Transition.Always step Accounted (init cfg ι) as ↔
      Transition.Meets step StepFindsNoReader (init cfg ι) as := by
  refine Transition.always_iff_meets Phased (fun _ => True) ?_ ?_ (fun _ _ => trivial)
    init_phased init_accounted
  · intro s a t _ h hacc ht
    exact step_phased s a t h hacc ht
  · intro s a t _ h hacc ht
    exact step_accounted_iff s a t h hacc ht

/-- A region is filled, its only flush attempt fails, and a reader that has an old
index entry opens it after the buffer is detached and before the region is reset. -/
def readerDuringFailedFlush (p : Priority cfg) (rid : RegionId cfg) (i : ι) :
    List (Action cfg ι) :=
  twoAllocations p rid ++
    [.assignBuffer p, .allocate i p 16, .close i, .releaseRegion p,
      .runJob rid (.flushing 0) false, .runJob rid (.flushing 1) true, .runJob rid .failing true,
      .runJob rid .cleanedup true, .openForRead i rid 1, .checkSeqNumber i,
      .runJob rid (.releasing false) true, .runJob rid (.resetting false) true, .close i]

theorem failed_flush_resets_open_region : ∃ s : State (smallConfig 1 (by decide)) (Fin 1),
      Transition.run step (init _ _)
        (readerDuringFailedFlush ⟨0, by decide⟩ ⟨0, by decide⟩ 0) = some s ∧
      s.resetsUnused = false ∧ s.closesCounted = false ∧ openDescriptors s ⟨0, by decide⟩ .PhysRead = 0 ∧
      (s.regions ⟨0, by decide⟩).active .PhysRead = 2 ^ 32 - 1 :=
  ⟨_, rfl, by decide +kernel, by decide +kernel, by decide +kernel, by decide +kernel⟩

end HybridCache.RegionManager

import HybridCache.AllocationRelease

/-!
# An aborted slab release loses its slab

`startSlabRelease` takes an allocated slab out of `allocatedSlabs_` before it prunes the free list.
When it is asked to stop, it puts its lists back and restores the header, but nothing puts the slab
back. A call is a run of lock sections that starts with the first one of `startSlabRelease` and
ends with the one that throws or builds the context; sections of other threads come in between.
-/
namespace HybridCache.AllocationClass
open Transition

variable {σ : Type*} [DecidableEq σ]

def OwnedOnce (s : State σ) : Prop :=
  ∀ slab, s.freeSlabs.count slab + s.allocatedSlabs.count slab + (releasing s).count slab ≤
    (s.owned slab).toNat

section Steps
variable {cfg : Config} {s t : State σ} {slab : σ}

lemma Sound.ownedOnce {intact : Prop} (h : Sound cfg intact s) : OwnedOnce s :=
  fun slab => (h.owner slab).1

lemma OwnedOnce.le_one (h : OwnedOnce s) (slab : σ) :
    s.freeSlabs.count slab + s.allocatedSlabs.count slab + (releasing s).count slab ≤ 1 :=
  (h slab).trans (Bool.toNat_le _)

lemma allocate_slabs (cfg : Config) (s : State σ) :
    (∀ x, (allocate cfg s).2.freeSlabs.count x + (allocate cfg s).2.allocatedSlabs.count x =
      s.freeSlabs.count x + s.allocatedSlabs.count x) ∧
      (allocate cfg s).2.owned = s.owned ∧ (allocate cfg s).2.release = s.release ∧
      (allocate cfg s).2.contexts = s.contexts ∧
      (allocate cfg s).2.markedForRelease = s.markedForRelease := by
  obtain ⟨m, rest, -, heq⟩ | ⟨slab, -, -, heq⟩ | ⟨init, slab, hf, -, heq⟩ | ⟨-, -, -, heq⟩ :=
    allocate_cases cfg s
  case inr.inr.inl =>
    simp only [heq, carved, setupCurrentSlabLocked, hf]
    grind
  all_goals exact heq ▸ ⟨fun _ => rfl, rfl, rfl, rfl, rfl⟩

lemma free_slabs {m : Mem σ} (hfree : free cfg s m = some t) :
    t.freeSlabs = s.freeSlabs ∧ t.allocatedSlabs = s.allocatedSlabs ∧ t.owned = s.owned ∧
      t.release = s.release ∧ t.contexts = s.contexts := by
  rw [free] at hfree
  grind

variable {ph : Phase σ} {a : Action σ}

lemma OwnedOnce.context (h : OwnedOnce s) {freed : Bool} (hholds : holdsContext s slab freed = true) :
    0 < (s.contexts.map Context.slab).count slab ∧ ∀ ph, s.release ≠ some (slab, ph) := by
  simp only [holdsContext, List.any_eq_true, decide_eq_true_eq] at hholds
  obtain ⟨c, hc, hslab, -⟩ := hholds
  have hpos : 0 < (s.contexts.map Context.slab).count slab :=
    List.count_pos_iff.2 (List.mem_map.2 ⟨c, hc, hslab⟩)
  refine ⟨hpos, fun ph hph => ?_⟩
  have hone := h.le_one slab
  rw [releasing, hph] at hone
  grind

/-! ## The call -/

def Phase.stops : Phase σ → Bool
  | .aborting .. | .aborted => true
  | _ => false

def Action.onSlab : Action σ → Option σ
  | .addSlab slab | .addSlabAndAllocate slab | .abortSlabRelease slab | .waitUntilAllFreed slab
  | .completeSlabRelease slab => some slab
  | _ => none

/-- A section of the call, or of another thread, while the call is on its way. -/
lemma call_step (h : OwnedOnce s)
    (hrelease : s.release = some (slab, ph)) (hstep : step cfg s a = some t)
    (hthrow : a ≠ .throwAborted) (hbuild : a ≠ .buildContext) :
    (∃ ph', t.release = some (slab, ph') ∧
      (ph'.stops = true ↔ ph.stops = true ∨ a = .pruneLoop true)) ∧ a.onSlab ≠ some slab := by
  have howned : s.owned slab = true := by
    have hle := h slab
    have hpos : 0 < (releasing s).count slab := by simp [releasing, hrelease]
    grind
  have hcontext : ∀ {x : σ} {freed : Bool}, holdsContext s x freed = true → x ≠ slab := by
    rintro x freed hholds rfl
    exact (h.context hholds).2 ph hrelease
  cases a with
  | addSlab x =>
    simp only [step] at hstep
    split_ifs at hstep with hx
    cases hstep
    refine ⟨⟨ph, hrelease, by simp⟩, ?_⟩
    rintro ⟨⟩
    exact hx howned
  | addSlabAndAllocate x =>
    simp only [step] at hstep
    split_ifs at hstep with hx
    cases hstep
    refine ⟨⟨ph, ?_, by simp⟩, ?_⟩
    · rw [(allocate_slabs cfg (addSlabLocked s x)).2.2.1]
      exact hrelease
    · rintro ⟨⟩
      exact hx howned
  | allocate =>
    cases hstep
    refine ⟨⟨ph, ?_, by simp⟩, by simp [Action.onSlab]⟩
    rw [(allocate_slabs cfg s).2.2.1]
    exact hrelease
  | free m =>
    simp only [step] at hstep
    split_ifs at hstep
    obtain ⟨u, hu, rfl⟩ := Option.map_eq_some_iff.1 hstep
    exact ⟨⟨ph, (free_slabs hu).2.2.2.1.trans hrelease, by simp⟩, by simp [Action.onSlab]⟩
  | startSlabRelease x =>
    simp only [step, hrelease, Option.isNone_some, Bool.false_and, Bool.false_eq_true,
      if_false] at hstep
    cases hstep
  | takeOffline | collect | undoPrune =>
    simp only [step, hrelease] at hstep
    cases ph <;> cases hstep
    exact ⟨⟨_, rfl, by simp [Phase.stops, Phase.ofPartition]⟩, by simp [Action.onSlab]⟩
  | pruneLoop shouldAbort =>
    simp only [step, hrelease] at hstep
    refine ⟨?_, by simp [Action.onSlab]⟩
    cases ph <;> cases shouldAbort <;> cases hstep
    · refine ⟨_, rfl, ?_⟩
      split_ifs <;> simp [Phase.stops, Phase.ofPartition]
    · exact ⟨_, rfl, by simp [Phase.stops]⟩
  | buildContext => exact absurd rfl hbuild
  | throwAborted => exact absurd rfl hthrow
  | abortSlabRelease x | waitUntilAllFreed x | completeSlabRelease x =>
    simp only [step, Option.ite_none_right_eq_some, Option.some.injEq, Bool.and_eq_true] at hstep
    obtain ⟨hholds, rfl⟩ := hstep
    exact ⟨⟨ph, hrelease, by simp⟩, fun he => hcontext (by first | exact hholds | exact hholds.1)
      (Option.some.inj he)⟩

lemma call_run {acts : List (Action σ)} (h : Sound cfg False s)
    (hrelease : s.release = some (slab, ph)) (hrun : run (step cfg) s acts = some t)
    (hacts : ∀ a ∈ acts, a ≠ .throwAborted ∧ a ≠ .buildContext) :
    Sound cfg False t ∧ (∃ ph', t.release = some (slab, ph') ∧
      (ph'.stops = true ↔ ph.stops = true ∨ .pruneLoop true ∈ acts)) ∧
      ∀ a ∈ acts, a.onSlab ≠ some slab := by
  induction acts generalizing s ph with
  | nil =>
    cases hrun
    exact ⟨h, ⟨ph, hrelease, by simp⟩, by simp⟩
  | cons a acts ih =>
    obtain ⟨u, hstep, hrest⟩ := run_cons.1 hrun
    obtain ⟨hthrow, hbuild⟩ := hacts a (by simp)
    obtain ⟨⟨ph₁, hrelease₁, hstops₁⟩, hslab⟩ :=
      call_step h.ownedOnce hrelease hstep hthrow hbuild
    obtain ⟨hfinal, ⟨ph₂, hrelease₂, hstops₂⟩, hslabs⟩ :=
      ih (step_sound _ _ _ False.elim h hstep) hrelease₁ hrest fun a ha => hacts a (by simp [ha])
    refine ⟨hfinal, ⟨ph₂, hrelease₂, ?_⟩, ?_⟩
    · rw [hstops₂, hstops₁, List.mem_cons, or_assoc, @eq_comm _ (.pruneLoop true) a]
    · intro b hb
      rcases List.mem_cons.1 hb with rfl | hb
      · exact hslab
      · exact hslabs b hb

lemma call_last {last : Action σ} (h : OwnedOnce s)
    (hrelease : s.release = some (slab, ph)) (hstep : step cfg s last = some t)
    (hlast : last = .throwAborted ∨ last = .buildContext) :
    (last = .throwAborted ↔ ph.stops = true) ∧
      (last = .throwAborted → slab ∉ t.allocatedSlabs ∧ slab ∉ t.freeSlabs) := by
  rcases hlast with rfl | rfl
  · simp only [step, hrelease] at hstep
    cases ph with
    | aborted =>
      cases hstep
      refine ⟨by simp [Phase.stops], fun _ => ?_⟩
      have hone := h.le_one slab
      have hpos : 0 < (releasing s).count slab := by simp [releasing, hrelease]
      constructor <;> exact List.count_eq_zero.1 (by simp only [AllocationClass.throwAborted]; omega)
    | _ => cases hstep
  · simp only [step, hrelease] at hstep
    cases ph with
    | collected active => exact ⟨by simp [Phase.stops], by simp⟩
    | _ => cases hstep

end Steps

/-- Not yet carved, or on the free list. -/
def allocatable (cfg : Config) (s : State σ) (slab : σ) (i : ℕ) : ℕ :=
  uncarved cfg s slab i + s.freedAllocations.count (chunk cfg slab i)

/-- From `s` to `t`, a call on `slab` has left the class unchanged: its slabs, apart from those
that other threads have added or whose contexts they have used, the chunks that can be allocated,
apart from those handed out and freed, and the header of the slab. -/
structure Unchanged (cfg : Config) (s t : State σ) (slab : σ) (acts : List (Action σ)) : Prop where
  slabs : ∀ x, (∀ a ∈ acts, a.onSlab ≠ some x) →
    (x ∈ t.allocatedSlabs ∨ x ∈ t.freeSlabs ↔ x ∈ s.allocatedSlabs ∨ x ∈ s.freeSlabs)
  chunks : ∀ x, (∀ a ∈ acts, a.onSlab ≠ some x) → s.markedForRelease x = false →
    ∀ i < getAllocsPerSlab cfg, allocatable cfg t x i + handed cfg t x i =
      allocatable cfg s x i + handed cfg s x i
  header : t.owned slab = s.owned slab ∧ t.markedForRelease slab = s.markedForRelease slab

/-- A call on an allocated slab leaves the class unchanged when it throws, exactly if
`shouldAbortFn` does not return true in it: a call that throws has lost the slab. -/
theorem aborted_release_unchanged_iff (cfg : Config) {before acts : List (Action σ)}
    {last : Action σ} {s t : State σ} {slab : σ}
    (hbefore : run (step cfg) (initial σ) before = some s) (hslab : slab ∈ s.allocatedSlabs)
    (hcall : run (step cfg) s (.startSlabRelease slab :: (acts ++ [last])) = some t)
    (hacts : ∀ a ∈ acts, a ≠ .throwAborted ∧ a ≠ .buildContext)
    (hlast : last = .throwAborted ∨ last = .buildContext) :
    (last = .throwAborted → Unchanged cfg s t slab acts) ↔ .pruneLoop true ∉ acts := by
  have hs : Sound cfg False s :=
    run_invariant (fun s a t => step_sound s a t False.elim) (initial_sound cfg) hbefore
  obtain ⟨u, hstart, hrest⟩ := run_cons.1 hcall
  have hu := step_sound _ _ _ False.elim hs hstart
  have hfree : slab ∉ s.freeSlabs := by
    have hone := hs.ownedOnce.le_one slab
    have hpos := List.count_pos_iff.2 hslab
    exact List.count_eq_zero.1 (by omega)
  have hrelease : u.release = some (slab, .marked) := by
    simp only [step, Option.ite_none_right_eq_some, Option.some.injEq] at hstart
    obtain ⟨-, rfl⟩ := hstart
    rw [startSlabRelease_marked hfree hslab]
    rfl
  obtain ⟨v, hv, hfinish⟩ := exists_of_run_append hrest
  obtain ⟨w, hend, hw⟩ := run_cons.1 hfinish
  cases hw
  obtain ⟨hown, ⟨ph, hph, hstops⟩, hslabs⟩ := call_run hu hrelease hv hacts
  obtain ⟨hthrows, hlost⟩ := call_last hown.ownedOnce hph hend hlast
  rw [hstops] at hthrows
  constructor
  · intro hunchanged hmem
    have hthrow := hthrows.2 (.inr hmem)
    have hback := ((hunchanged hthrow).slabs slab hslabs).2 (.inl hslab)
    exact hback.elim (hlost hthrow).1 (hlost hthrow).2
  · intro hmem hthrow
    rcases hthrows.1 hthrow with hmarked | hpoll
    · cases hmarked
    · exact absurd hpoll hmem

/-- One chunk of the current slab is handed out, the other is not carved yet. The call is asked to
stop at its first poll: the class has no slab and nothing to allocate afterwards. -/
theorem aborted_release_loses_slab :
    ∃ s t : State ℕ, run (step halfSlab) (initial ℕ) [.addSlab 0, .allocate] = some s ∧
      run (step halfSlab) s [.startSlabRelease 0, .takeOffline, .pruneLoop true, .undoPrune,
        .throwAborted] = some t ∧
      s.allocatedSlabs = [0] ∧ s.currSlab = some 0 ∧ allocatable halfSlab s 0 1 = 1 ∧
      t.allocatedSlabs = [] ∧ t.freeSlabs = [] ∧ allocatable halfSlab t 0 1 = 0 ∧
      handed halfSlab t 0 1 = 0 ∧ t.owned 0 = true ∧ t.markedForRelease 0 = false ∧
      ¬ Unchanged halfSlab s t 0 [.takeOffline, .pruneLoop true, .undoPrune] := by
  refine ⟨_, _, rfl, rfl, rfl, rfl, by decide, rfl, rfl, by decide, by decide, rfl, rfl, ?_⟩
  intro hunchanged
  have hback := (hunchanged.slabs 0 (by simp [Action.onSlab])).2 (.inl (by decide))
  revert hback
  decide

/-- Another thread frees the chunk during a call that is not asked to stop. -/
theorem release_not_aborted :
    ∃ s t : State ℕ, run (step halfSlab) (initial ℕ) [.addSlab 0, .allocate] = some s ∧
      run (step halfSlab) s (.startSlabRelease 0 ::
        ([.takeOffline, .free (0, 0), .pruneLoop false, .collect] ++ [.buildContext])) = some t ∧
      ((.buildContext = (.throwAborted : Action ℕ) →
        Unchanged halfSlab s t 0 [.takeOffline, .free (0, 0), .pruneLoop false, .collect]) ↔
      .pruneLoop true ∉ [.takeOffline, .free (0, 0), .pruneLoop false, (.collect : Action ℕ)]) := by
  have hbefore : ∃ s : State ℕ, run (step halfSlab) (initial ℕ) [.addSlab 0, .allocate] = some s ∧
      0 ∈ s.allocatedSlabs ∧ ∃ t, run (step halfSlab) s (.startSlabRelease 0 ::
        ([.takeOffline, .free (0, 0), .pruneLoop false, .collect] ++ [.buildContext])) = some t :=
    ⟨_, rfl, by decide, _, rfl⟩
  obtain ⟨s, hs, hslab, t, ht⟩ := hbefore
  exact ⟨s, t, hs, ht, aborted_release_unchanged_iff halfSlab hs hslab ht (by simp) (.inr rfl)⟩

end HybridCache.AllocationClass

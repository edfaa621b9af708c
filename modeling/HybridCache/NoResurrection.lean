import Mathlib
import HybridCache.RemovalInvariant

/-!
# No hit after a removal

The steps of the flash cache and of inserts complete the invariant. Two things can break
it. A removal may skip the queue, and so drop its tombstone, while a fill has already
read a value that was evicted since; and a lookup may join a fill whose handle is already
set, after the item was removed again. In runs without these two, no lookup that starts
after a removal is a hit.
-/
namespace HybridCache.HybridRemove

/-! ## Flash cache -/

section Flash
variable {T : Type} {s t : State T} {queue : List NavyOp} {outcome : Outcome}

lemma Stable.of_flash {nvm : Bool} {job : Job} {fill : Option Bool}
    {evictions : ℕ} (hfinal : finalValue s.nvm s.queue = false → finalValue nvm queue = false)
    (hread : Clear s → job = .read true → fill = some true → NavyOp.remove ∈ queue)
    (hfilling : Clear s → job ≠ .filling)
    (hinsert : NavyOp.insert ∈ queue → NavyOp.insert ∈ s.queue) :
    Stable s { s with
      nvm := nvm, queue := queue, job := job, fill := fill, evictions := evictions } where
  item _ hit := hit
  clear h := ⟨hfinal h.final, hread h, h.evictor, hfilling h⟩
  evictor := id
  no_insert _ hins hmem := hins (hinsert hmem)

lemma invalidateFill_isSome (s : State T) : (invalidateFill s).fill.isSome = s.fill.isSome := by
  simp [invalidateFill]

lemma invalidateFill_ne (s : State T) : (invalidateFill s).fill ≠ some true := by
  cases hfill : s.fill <;> simp [invalidateFill, hfill]

lemma not_pastLock (h : ¬∃ u, (s.ops u).hasGuard = true) (u : T) : (s.ops u).pastLock = false := by
  rw [← Bool.not_eq_true]
  intro hu
  refine h ⟨u, ?_⟩
  cases hop : s.ops u <;> first | rfl | (rw [hop] at hu; cases hu)

variable [Fintype T]

section
variable (h : Inv s)
include h

lemma insertFromNvm_inv (hjob : s.job = .filling) (hmem : NavyOp.lookup ∈ s.queue) :
    Inv (insertFromNvm s) := by
  have hremoved : s.removed ≠ true := fun hrem => (h.removed hrem).1.not_filling hjob
  have hops : ∀ {t : State T} (u : T), RemoveFact t (s.ops u) :=
    fun u => .of_not_pastLock (h.filling hjob u)
  unfold insertFromNvm
  split
  · exact
      { erased := by simp
        hasRead := fun _ => hmem
        lookups := h.lookups
        filling := by simp
        unclean := by
          intro it hit hclean
          cases hit
          cases hclean
        ops := hops
        removed := fun hrem => absurd hrem hremoved
        late := h.late
        waiting := fun u _ hlate => absurd (h.late u hlate) hremoved
        resurrected := h.resurrected }
  · refine h.background (.of_flash id ?_ ?_ id) ?_ (fun _ => hmem) ?_ rfl rfl ?_ <;> simp

lemma removeFromFillMap_inv {hit : Bool}
    (hqueue : s.queue = .lookup :: queue) (hjob : s.job = .handled hit) :
    Inv { removeFromFillMap s hit with queue := queue, job := .waiting } := by
  have hfinal : finalValue s.nvm s.queue = finalValue s.nvm queue := by
    rw [hqueue]
    rfl
  have hst : Stable s { removeFromFillMap s hit with queue := queue, job := .waiting } :=
    { item := fun _ h' => h'
      clear := fun hclear => ⟨hfinal.symm.trans hclear.final, fun hread => (by cases hread),
        hclear.evictor, by simp⟩
      evictor := id
      no_insert := fun _ hins hmem => hins (hqueue ▸ List.mem_cons_of_mem _ hmem) }
  have hcreating : ∀ u, (if s.ops u = .waiting then Op.idle else s.ops u).isCreating =
      (s.ops u).isCreating := by
    intro u
    split_ifs with hu
    · rw [hu]
      rfl
    · rfl
  refine h.stable hst (by simp) (by simp [Job.hasRead]) ?_ (by simp) ?_ Or.inl h.late (by simp) ?_
  · have hlookups := h.lookups
    rw [hqueue, List.count_cons_self] at hlookups
    change queue.count .lookup +
      ∑ u, (if s.ops u = .waiting then Op.idle else s.ops u).isCreating = 0
    rw [Finset.sum_congr rfl fun u _ => hcreating u]
    split_ifs at hlookups <;> omega
  · intro u
    change (if s.ops u = .waiting then Op.idle else s.ops u) = s.ops u ∨
      RemoveFact _ (if s.ops u = .waiting then Op.idle else s.ops u)
    split_ifs
    · exact Or.inr trivial
    · exact Or.inl rfl
  · change (s.resurrected || (hit && decide (∃ u, s.ops u = .waiting ∧ s.late u = true))) = false
    rw [h.resurrected, Bool.false_or, Bool.and_eq_false_iff, decide_eq_false_iff_not]
    cases hit with
    | false => exact Or.inl rfl
    | true =>
      refine Or.inr ?_
      rintro ⟨u, hu, hlate⟩
      exact h.waiting u hu hlate hjob

lemma lookupJob_inv (hqueue : s.queue = .lookup :: queue) (ht : runJob s outcome .lookup queue s.job = some t) :
    Inv t := by
  have hmem : NavyOp.lookup ∈ s.queue := by
    rw [hqueue]
    exact List.mem_cons_self
  -- phases that only decide how the lookup goes on
  have hnext : ∀ {job : Job}, job ≠ .handled true → job ≠ .filling → job ≠ .read true →
      (job ≠ .erased ∧ job ≠ .completed) → Inv { s with job := job } := by
    intro job hhandled hfilling hread herased
    exact h.background (.of_flash id (fun _ hjob => absurd hjob hread) (fun _ => hfilling) id)
      (fun hjob => hjob.elim (absurd · herased.1) (absurd · herased.2)) (fun _ => hmem)
      (absurd · hhandled) rfl rfl (absurd · hfilling)
  cases hjob : s.job with
  | waiting =>
    rw [hjob] at ht
    cases ht
    refine h.background (.of_flash id ?_ (by simp) id) (by simp) (fun _ => hmem) (by simp)
      rfl rfl (by simp)
    intro hclear hread _
    have hnvm : s.nvm = true := by simpa using hread
    exact mem_remove_of_finalValue (hnvm ▸ hclear.final)
  | read found =>
    rw [hjob, runJob] at ht
    split_ifs at ht with hfailed hskip
    · cases ht
      exact hnext (by simp) (by simp) (by simp) (by simp)
    · cases ht
      exact hnext (by simp) (by simp) (by simp) (by simp)
    · cases ht
      -- neither a queued removal nor a guard is left when the fill starts
      simp only [Bool.or_eq_true, Bool.not_eq_true', decide_eq_true_eq, not_or,
        Bool.not_eq_false, hasTombStone, not_not] at hskip
      obtain ⟨⟨⟨hfound, -⟩, ⟨hremove, hguard⟩, -⟩, hfill⟩ := hskip
      rw [hfound] at hjob
      refine h.background (.of_flash id (by simp) ?_ id) (by simp) (fun _ => hmem)
        (by simp) rfl rfl ?_
      · exact fun hclear => absurd (hclear.read hjob hfill) hremove
      · exact fun _ => not_pastLock hguard
  | failing =>
    rw [hjob] at ht
    cases ht
    have hinvalid : Inv { s with tokenValid := false } :=
      h.background .invalidateToken h.erased h.hasRead id rfl rfl h.filling
    exact hinvalid.background (.of_flash id (by simp) (by simp) id) (by simp) (fun _ => hmem)
      (by simp) rfl rfl (by simp)
  | failInvalidated | failNoPuts =>
    rw [hjob, runJob] at ht
    split_ifs at ht <;> cases ht
    · exact hnext (by simp) (by simp) (by simp) (by simp)
    · exact hnext (by simp) (by simp) (by simp) (by simp)
  | failEnqueueing =>
    rw [hjob] at ht
    cases ht
    have hqueued : Inv { s with queue := s.queue ++ [.remove] } :=
      h.background .append_remove h.erased (fun _ => List.mem_append_left _ hmem) id (by simp) rfl
        h.filling
    exact hqueued.background (.of_flash id (by simp) (by simp) id) (by simp)
      (fun _ => List.mem_append_left _ hmem) (by simp) rfl rfl (by simp)
  | filling =>
    rw [hjob] at ht
    cases ht
    exact insertFromNvm_inv h hjob hmem
  | handled hit =>
    rw [hjob] at ht
    cases ht
    exact removeFromFillMap_inv h hqueue hjob
  | stored | putFailed | erased | completed =>
    rw [hjob] at ht
    cases ht

lemma Inv.writeJob {nvm : Bool} {job : Job} {fill : Option Bool}
    (hread : job.hasRead = false) (herased : job = .erased ∨ job = .completed → nvm = false)
    (hfinal : finalValue s.nvm s.queue = false → finalValue nvm queue = false)
    (hinsert : NavyOp.insert ∈ queue → NavyOp.insert ∈ s.queue)
    (hqueue : queue.count .lookup = s.queue.count .lookup)
    (hfill : fill.isSome = s.fill.isSome) :
    Inv { s with nvm := nvm, queue := queue, job := job, fill := fill } := by
  have hne : ∀ {job' : Job}, job'.hasRead = true → job ≠ job' := by
    rintro job' hjob rfl
    rw [hread] at hjob
    cases hjob
  refine h.background (.of_flash hfinal ?_ ?_ hinsert) herased ?_ ?_ hqueue hfill ?_
  · exact fun _ hjob => absurd hjob (hne rfl)
  · exact fun _ => hne rfl
  · exact fun hjob => absurd rfl (hne hjob)
  · exact fun hjob => absurd hjob (hne rfl)
  · exact fun hjob => absurd hjob (hne rfl)

lemma insertJob_inv (hqueue : s.queue = .insert :: queue) (ht : runJob s outcome .insert queue s.job = some t) :
    Inv t := by
  cases hjob : s.job with
  | waiting =>
    rw [hjob, runJob] at ht
    split_ifs at ht
    · cases ht
      exact h.writeJob rfl (by simp) id id rfl rfl
    · cases ht
      refine h.writeJob rfl (by simp) ?_ id rfl rfl
      rw [hqueue]
      exact id
  | putFailed =>
    rw [hjob] at ht
    cases ht
    exact h.writeJob rfl (by simp) id id rfl (invalidateFill_isSome s)
  | stored =>
    rw [hjob] at ht
    cases ht
    refine h.writeJob rfl (by simp) ?_ ?_ ?_ rfl
    · rw [hqueue]
      exact fun hfinal => finalValue_mono hfinal _
    · rw [hqueue]
      exact List.mem_cons_of_mem _
    · rw [hqueue]
      rfl
  | read | failing | failInvalidated | failNoPuts | failEnqueueing | filling | handled | erased
    | completed =>
    rw [hjob] at ht
    cases ht

lemma removeJob_inv (hqueue : s.queue = .remove :: queue) (ht : runJob s outcome .remove queue s.job = some t) :
    Inv t := by
  cases hjob : s.job with
  | waiting =>
    rw [hjob, runJob] at ht
    split_ifs at ht with hnvm
    · cases ht
      refine h.writeJob rfl (fun _ => rfl) ?_ id rfl rfl
      rw [hqueue]
      exact id
    · cases ht
      exact h.writeJob rfl (fun _ => Bool.eq_false_iff.2 hnvm) id id rfl rfl
  | erased =>
    rw [hjob] at ht
    cases ht
    exact h.writeJob rfl (fun _ => h.erased (Or.inl hjob)) id id rfl (invalidateFill_isSome s)
  | completed =>
    rw [hjob] at ht
    cases ht
    have hnvm := h.erased (Or.inr hjob)
    refine h.writeJob rfl (by simp) ?_ ?_ ?_ rfl
    · rw [hqueue, hnvm]
      exact id
    · rw [hqueue]
      exact List.mem_cons_of_mem _
    · rw [hqueue]
      rfl
  | read | failing | failInvalidated | failNoPuts | failEnqueueing | filling | handled | stored
    | putFailed =>
    rw [hjob] at ht
    cases ht

end

lemma runJob_inv {op : NavyOp} (h : Inv s)
    (hqueue : s.queue = op :: queue) (ht : runJob s outcome op queue s.job = some t) : Inv t := by
  cases op with
  | lookup => exact lookupJob_inv h hqueue ht
  | insert => exact insertJob_inv h hqueue ht
  | remove => exact removeJob_inv h hqueue ht

lemma recycle_inv (h : Inv s) : Inv { s with nvm := false, evictions := s.evictions + 1 } := by
  refine h.background (.of_flash ?_ Clear.read Clear.not_filling id) (fun _ => rfl)
    h.hasRead id rfl rfl h.filling
  intro hfinal
  cases hnvm : s.nvm with
  | true => exact finalValue_mono (hnvm ▸ hfinal) _
  | false => exact hnvm ▸ hfinal

lemma evictCB_inv (h : Inv s) : Inv { invalidateFill s with evictions := s.evictions - 1 } :=
  h.background (.of_same (fun _ hit => hit) (absurd · (invalidateFill_ne s)) id) h.erased h.hasRead
    id rfl (invalidateFill_isSome s) h.filling

end Flash

/-! ## Inserts -/

section Insert
variable {T : Type} [Fintype T] [DecidableEq T] {s t : State T} {other : Bool}

/-- `NvmCache::remove` leaves nothing behind if it does not skip the queue at a bad time. -/
lemma nvmRemove_clear (hfilling : s.job ≠ .filling)
    (hskip : hasPutContexts s = false → s.nvm = false → other = false → SkipSafe s) :
    Clear (nvmRemove s other) := by
  have hevictor : EvictorClear { s with tokenValid := false } := Or.inr (Or.inr rfl)
  unfold nvmRemove
  split_ifs with hqueue
  · exact Clear.append_remove hevictor hfilling
  · rw [Bool.not_eq_true, Bool.or_eq_false_iff, Bool.or_eq_false_iff] at hqueue
    obtain ⟨⟨hputs, hnvm⟩, hother⟩ := hqueue
    exact .of_skip hnvm (no_insert_of_hasPutContexts hputs) hevictor hfilling
      (hskip hputs hnvm hother)

omit [DecidableEq T] in
/-- An inserted item takes back every promise, but the flash cache stays clear. -/
lemma Inv.inserted (h : Inv s) (hguard : ¬∃ u, (s.ops u).hasGuard = true) {item : Option Item}
    {tokenValid : Bool} {queue : List NavyOp}
    (hclear : Clear { s with
      item := item, removed := false, late := fun _ => false, tokenValid := tokenValid,
      queue := queue })
    (hqueue : queue = s.queue ∨ queue = s.queue ++ [.remove]) :
    Inv { s with
      item := item, removed := false, late := fun _ => false, tokenValid := tokenValid,
      queue := queue } := by
  have hcount : queue.count .lookup = s.queue.count .lookup := by
    rcases hqueue with rfl | rfl <;> simp
  exact
    { erased := h.erased
      hasRead := fun hread => List.count_pos_iff.1
        (hcount ▸ List.count_pos_iff.2 (h.hasRead hread))
      lookups := by
        rw [hcount]
        exact h.lookups
      filling := fun _ => not_pastLock hguard
      unclean := fun _ _ _ _ => hclear
      ops := fun u => .of_not_pastLock (not_pastLock hguard u)
      removed := by simp
      late := by simp
      waiting := by simp
      resurrected := h.resurrected }

lemma insertOrReplace_inv (h : Inv s) (hfilling : s.job ≠ .filling)
    (hguard : ¬∃ u, (s.ops u).hasGuard = true)
    (hskip : hasPutContexts s = false → s.nvm = false → other = false → SkipSafe s) :
    Inv (insertOrReplace s other) := by
  have hremove : Inv (nvmRemove { s with
      item := some ⟨false, .unmarked⟩, removed := false, late := fun _ => false } other) := by
    have hclear := nvmRemove_clear (s := { s with
      item := some ⟨false, .unmarked⟩, removed := false, late := fun _ => false }) hfilling hskip
    unfold nvmRemove at hclear ⊢
    split_ifs at hclear ⊢
    · exact h.inserted hguard hclear (Or.inr rfl)
    · exact h.inserted hguard hclear (Or.inl rfl)
  unfold insertOrReplace
  split
  · exact hremove
  · rename_i replaced hfind
    split_ifs with hclean
    · exact hremove
    · -- the replaced item was not clean, so the flash cache was clear already
      obtain ⟨hit, hmark⟩ := findInternal_eq_some hfind
      have hclear := h.unclean replaced hit (Bool.eq_false_iff.2 hclean) hmark
      exact h.inserted hguard ⟨hclear.final, hclear.read, hclear.evictor, hclear.not_filling⟩
        (Or.inl rfl)

end Insert

/-! ## Runs -/

section Runs
variable {T : Type} [Fintype T] [DecidableEq T]

/-- `NvmCache::remove` does not skip the queue while a valid fill has a value in hand, and
a lookup that misses in DRAM joins no fill whose handle is already set. -/
def StepChecks (s : State T) : Action T → Prop
  | .continueRemove t other =>
    s.ops t = .noPuts → s.nvm = false → other = false → SkipSafe s
  | .insertOrReplace other =>
    hasPutContexts s = false → s.nvm = false → other = false → SkipSafe s
  | .continueFind t _ =>
    s.ops t = .findInvalidated → findInternal s = none → s.fill ≠ none → s.job ≠ .handled true
  | _ => True

instance (s : State T) (a : Action T) : Decidable (StepChecks s a) := by
  unfold StepChecks SkipSafe
  split <;> infer_instance

lemma step_inv (s : State T) (a : Action T) (t : State T) (hok : StepChecks s a) (h : Inv s)
    (ht : step s a = some t) : Inv t := by
  cases a with
  | insertOrReplace other =>
    simp only [step] at ht
    split_ifs at ht with hbusy
    cases ht
    rw [not_or] at hbusy
    exact insertOrReplace_inv h hbusy.1 hbusy.2 hok
  | startRemove u =>
    simp only [step] at ht
    split_ifs at ht with hu
    cases ht
    exact startRemove_inv h hu
  | continueRemove u other => exact removeStep_inv h ht hok
  | startFind u =>
    simp only [step] at ht
    split_ifs at ht with hu
    cases ht
    exact startFind_inv h hu
  | continueFind u other => exact findStep_inv h ht hok
  | acquireToken =>
    simp only [step] at ht
    split_ifs at ht with hidle
    cases ht
    exact h.evict (fun _ hit => hit) fun _ => Or.inr (Or.inl rfl)
  | markForEviction write => exact markForEviction_inv h ht
  | unlinkItem => exact unlinkItem_inv h ht
  | continuePut abort => exact putStep_inv h ht
  | runJob outcome =>
    simp only [step] at ht
    split at ht
    · cases ht
    · rename_i op queue hqueue
      exact runJob_inv h hqueue ht
  | recycle =>
    simp only [step] at ht
    split_ifs at ht
    cases ht
    exact recycle_inv h
  | evictCB =>
    simp only [step] at ht
    split_ifs at ht
    cases ht
    exact evictCB_inv h

end Runs

/-- The key is evicted to flash, and a lookup has read it back but not filled it in. -/
def storedThenRead : List (Action (Fin 2)) :=
  [.insertOrReplace false, .acquireToken, .markForEviction true, .continuePut false,
    .continuePut false, .continuePut false, .continuePut false, .runJob .ordinary, .runJob .ordinary,
    .startFind 0, .continueFind 0 false, .continueFind 0 false, .continueFind 0 false,
    .runJob .ordinary]

/-- The key is removed while the value is still in flash, and a second lookup joins. -/
def removeDuringFill : List (Action (Fin 2)) :=
  storedThenRead ++ [.startRemove 1] ++ List.replicate 6 (.continueRemove 1 false) ++
    [.startFind 1, .continueFind 1 false, .continueFind 1 false, .runJob .ordinary, .runJob .ordinary]

/-- The value is evicted from flash after the lookup has read it, so the removal skips the
queue; then the fill puts the value into DRAM. -/
def skippedQueue : List (Action (Fin 2)) :=
  storedThenRead ++ [.recycle, .startRemove 1] ++ List.replicate 5 (.continueRemove 1 false) ++
    [.runJob .ordinary, .runJob .ordinary, .runJob .ordinary, .startFind 1]

/-- The fill has set its handle when the key is removed, and a new lookup joins it. -/
def joinedFill : List (Action (Fin 2)) :=
  storedThenRead ++ [.runJob .ordinary, .runJob .ordinary, .startRemove 1] ++
    List.replicate 7 (.continueRemove 1 false) ++
    [.startFind 1, .continueFind 1 false, .continueFind 1 false, .runJob .ordinary]

end HybridCache.HybridRemove

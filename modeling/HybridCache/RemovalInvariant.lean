import HybridCache.HybridRemove

/-!
# What a removal leaves behind

A removal that has returned leaves nothing that could come back: no item in DRAM, no put
that still has a valid token, and in the flash cache only what a queued removal will
erase. The steps of removals, lookups and evictions from DRAM keep this, with two
exceptions that are hypotheses here: a removal that skips the queue, and a lookup that
joins a fill.
-/
set_option linter.unusedSectionVars false

namespace HybridCache.HybridRemove

open Function Bool List

/-! ## The queue -/

/-- Whether the flash cache has a value after the queued operations. -/
def finalValue (v : Bool) : List NavyOp → Bool
  | [] => v
  | .lookup :: queue => finalValue v queue
  | .insert :: queue => finalValue true queue
  | .remove :: queue => finalValue false queue

lemma finalValue_append_lookup (v : Bool) (queue : List NavyOp) :
    finalValue v (queue ++ [.lookup]) = finalValue v queue := by
  induction queue generalizing v with
  | nil => rfl
  | cons op queue ih => cases op <;> exact ih _

lemma finalValue_append_remove (v : Bool) (queue : List NavyOp) :
    finalValue v (queue ++ [.remove]) = false := by
  induction queue generalizing v with
  | nil => rfl
  | cons op queue ih => cases op <;> exact ih _

variable {queue : List NavyOp}

/-- A value that is missing at first makes no difference for the worse. -/
lemma finalValue_mono (h : finalValue true queue = false) (v : Bool) :
    finalValue v queue = false := by
  cases v with
  | true => exact h
  | false =>
    induction queue with
    | nil => rfl
    | cons op queue ih =>
      cases op with
      | lookup => exact ih h
      | insert => exact h
      | remove => exact h

lemma mem_remove_of_finalValue (h : finalValue true queue = false) :
    NavyOp.remove ∈ queue := by
  induction queue with
  | nil => cases h
  | cons op queue ih =>
    cases op with
    | lookup | insert => exact mem_cons_of_mem _ (ih h)
    | remove => exact mem_cons_self

lemma finalValue_of_no_insert (h : NavyOp.insert ∉ queue) :
    finalValue false queue = false := by
  induction queue with
  | nil => rfl
  | cons op queue ih =>
    have hrest : NavyOp.insert ∉ queue := fun hmem => h (mem_cons_of_mem _ hmem)
    cases op with
    | lookup => exact ih hrest
    | insert => exact absurd mem_cons_self h
    | remove => exact ih hrest

/-! ## What a removal leaves -/

section Invariant
variable {T : Type}

def EvictorClear (s : State T) : Prop :=
  s.evictor = .idle ∨ s.evictor = .acquired ∨ s.tokenValid = false

structure Clear (s : State T) : Prop where
  final : finalValue s.nvm s.queue = false
  read : s.job = .read true → s.fill = some true → NavyOp.remove ∈ s.queue
  evictor : EvictorClear s
  not_filling : s.job ≠ .filling

def Gone (s : State T) : Prop := ∀ it, s.item = some it → it.mark ≠ .unmarked

def Op.pastLock : Op → Bool
  | .started => false
  | op => op.hasGuard

def RemoveFact (s : State T) : Op → Prop
  | .found nvmClean => (∀ it, s.item = some it → it.nvmClean = nvmClean ∧ it.mark = .unmarked) ∧
    (nvmClean = false → Clear s)
  | .unlinked => Gone s
  | .removeInvalidated => Gone s ∧ EvictorClear s
  | .noPuts => Gone s ∧ EvictorClear s ∧ NavyOp.insert ∉ s.queue
  | .enqueueing => Gone s ∧ EvictorClear s
  | _ => True

def Op.isCreating (op : Op) : ℕ := if op = .creating then 1 else 0

def Job.hasRead : Job → Bool
  | .read _ => true
  | .failing => true
  | .failInvalidated => true
  | .failNoPuts => true
  | .failEnqueueing => true
  | .filling => true
  | .handled _ => true
  | _ => false

variable [Fintype T]

structure Inv (s : State T) : Prop where
  erased : s.job = .erased ∨ s.job = .completed → s.nvm = false
  hasRead : s.job.hasRead = true → NavyOp.lookup ∈ s.queue
  /-- A fill context has one lookup, which is queued by the thread that created it. -/
  lookups : s.queue.count .lookup + ∑ t, (s.ops t).isCreating = if s.fill.isSome then 1 else 0
  filling : s.job = .filling → ∀ t, (s.ops t).pastLock = false
  unclean : ∀ it, s.item = some it → it.nvmClean = false → it.mark = .unmarked → Clear s
  ops : ∀ t, RemoveFact s (s.ops t)
  removed : s.removed = true → Clear s ∧ Gone s
  late : ∀ t, s.late t = true → s.removed = true
  waiting : ∀ t, s.ops t = .waiting → s.late t = true → s.job ≠ .handled true
  resurrected : s.resurrected = false

lemma init_inv : Inv (init T) := by
  constructor <;> simp [init, RemoveFact, Op.isCreating, Job.hasRead]

end Invariant

/-! ## Steps that bring nothing back -/

section Stable
variable {T : Type}

/-- The step puts nothing into DRAM and queues no put with an invalid token. -/
structure Stable (s t : State T) : Prop where
  item : ∀ it, t.item = some it → s.item = some it
  clear : Clear s → Clear t
  evictor : EvictorClear s → EvictorClear t
  no_insert : EvictorClear s → NavyOp.insert ∉ s.queue → NavyOp.insert ∉ t.queue

variable {s t : State T}

lemma Stable.gone (h : Stable s t) (hgone : Gone s) : Gone t :=
  fun it hit => hgone it (h.item it hit)

variable {op : Op} {fill : Option Bool} {item : Option Item} {tokenValid : Bool} {u : T}

lemma RemoveFact.stable (h : Stable s t) (hop : RemoveFact s op) : RemoveFact t op := by
  cases op with
  | found nvmClean =>
    exact ⟨fun it hit => hop.1 it (h.item it hit), fun hclean => h.clear (hop.2 hclean)⟩
  | unlinked => exact h.gone hop
  | removeInvalidated | enqueueing => exact ⟨h.gone hop.1, h.evictor hop.2⟩
  | noPuts => exact ⟨h.gone hop.1, h.evictor hop.2.1, h.no_insert hop.2.1 hop.2.2⟩
  | idle | missed | findInvalidated | creating | waiting | started | locked => trivial

lemma Stable.refl (s : State T) : Stable s s where
  item _ hit := hit
  clear := id
  evictor := id
  no_insert _ := id

/-- `Stable` does not depend on who was promised what. -/
lemma Stable.ghosts (s : State T) (removed : Bool) (late : T → Bool) :
    Stable s { s with removed := removed, late := late } where
  item _ hit := hit
  clear h := ⟨h.final, h.read, h.evictor, h.not_filling⟩
  evictor := id
  no_insert _ := id

lemma Stable.of_same {evictions : ℕ} {evictor : Evictor}
    (hitem : ∀ it, item = some it → s.item = some it)
    (hfill : fill = some true → s.fill = some true)
    (hevictor : EvictorClear s → evictor = .idle ∨ evictor = .acquired ∨ tokenValid = false) :
    Stable s { s with
      item := item, fill := fill, evictions := evictions, evictor := evictor,
      tokenValid := tokenValid } where
  item := hitem
  clear h := ⟨h.final, fun hread hvalid => h.read hread (hfill hvalid), hevictor h.evictor,
    h.not_filling⟩
  evictor := hevictor
  no_insert _ := id

variable [Fintype T]

lemma Inv.stable (h : Inv s) (hst : Stable s t)
    (herased : t.job = .erased ∨ t.job = .completed → t.nvm = false)
    (hread : t.job.hasRead = true → NavyOp.lookup ∈ t.queue)
    (hlookups : t.queue.count .lookup + ∑ u, (t.ops u).isCreating = if t.fill.isSome then 1 else 0)
    (hfilling : t.job = .filling → ∀ u, (t.ops u).pastLock = false)
    (hops : ∀ u, t.ops u = s.ops u ∨ RemoveFact t (t.ops u))
    (hremoved : t.removed = true → s.removed = true ∨ Clear t ∧ Gone t)
    (hlate : ∀ u, t.late u = true → t.removed = true)
    (hwaiting : ∀ u, t.ops u = .waiting → t.late u = true → t.job ≠ .handled true)
    (hresurrected : t.resurrected = false) : Inv t where
  erased := herased
  hasRead := hread
  lookups := hlookups
  filling := hfilling
  unclean it hit hclean hmark := hst.clear (h.unclean it (hst.item it hit) hclean hmark)
  ops u := by
    rcases hops u with hsame | hfact
    · rw [hsame]
      exact (h.ops u).stable hst
    · exact hfact
  removed hrem := by
    rcases hremoved hrem with hold | hnew
    · exact ⟨hst.clear (h.removed hold).1, hst.gone (h.removed hold).2⟩
    · exact hnew
  late := hlate
  waiting := hwaiting
  resurrected := hresurrected

lemma Inv.background (h : Inv s) {nvm : Bool} {queue : List NavyOp} {job : Job}
    {evictions : ℕ} {evictor : Evictor}
    (hst : Stable s { s with
      item := item, nvm := nvm, queue := queue, job := job, fill := fill, evictions := evictions,
      evictor := evictor, tokenValid := tokenValid })
    (herased : job = .erased ∨ job = .completed → nvm = false)
    (hread : job.hasRead = true → NavyOp.lookup ∈ queue)
    (hhandled : job = .handled true → s.job = .handled true)
    (hqueue : queue.count .lookup = s.queue.count .lookup) (hfill : fill.isSome = s.fill.isSome)
    (hfilling : job = .filling → ∀ u, (s.ops u).pastLock = false) :
    Inv { s with
      item := item, nvm := nvm, queue := queue, job := job, fill := fill, evictions := evictions,
      evictor := evictor, tokenValid := tokenValid } := by
  refine h.stable hst herased hread ?_ hfilling (fun _ => Or.inl rfl) Or.inl h.late ?_ h.resurrected
  · rw [hqueue, hfill]
    exact h.lookups
  · exact fun u hu hlate hjob => h.waiting u hu hlate (hhandled hjob)

variable [DecidableEq T]

lemma Clear.setOp (h : Clear s) : Clear (setOp s u op) :=
  ⟨h.final, h.read, h.evictor, h.not_filling⟩

lemma RemoveFact.setOp {op' : Op} (h : RemoveFact s op') :
    RemoveFact (setOp s u op) op' := by
  cases op' with
  | found nvmClean => exact ⟨h.1, fun hclean => (h.2 hclean).setOp⟩
  | unlinked | removeInvalidated | noPuts | enqueueing => exact h
  | idle | missed | findInvalidated | creating | waiting | started | locked => trivial

lemma Stable.setOp (h : Stable s t) : Stable s (setOp t u op) where
  item := h.item
  clear hclear := (h.clear hclear).setOp
  evictor := h.evictor
  no_insert := h.no_insert

lemma sum_isCreating_setOp (s : State T) (u : T) (op : Op) :
    ∑ v, ((HybridRemove.setOp s u op).ops v).isCreating + (s.ops u).isCreating =
      ∑ v, (s.ops v).isCreating + op.isCreating :=
  Transition.sum_update s.ops Op.isCreating u op

lemma Inv.thread (h : Inv s) {queue : List NavyOp}
    {tokenValid : Bool}
    (hst : Stable s { s with item := item, queue := queue, fill := fill, tokenValid := tokenValid })
    (hmem : NavyOp.lookup ∈ s.queue → NavyOp.lookup ∈ queue)
    (hlookups : queue.count .lookup + op.isCreating + (if s.fill.isSome then 1 else 0) =
      s.queue.count .lookup + (s.ops u).isCreating + if fill.isSome then 1 else 0)
    (hlock : op.pastLock = true → s.job ≠ .filling)
    (hop : RemoveFact { s with
      item := item, queue := queue, fill := fill, tokenValid := tokenValid } op)
    (hwait : op = .waiting → s.late u = true → s.job ≠ .handled true) :
    Inv (setOp { s with
      item := item, queue := queue, fill := fill, tokenValid := tokenValid } u op) := by
  refine h.stable hst.setOp h.erased (fun hread => hmem (h.hasRead hread)) ?_ ?_ ?_ Or.inl h.late ?_
    h.resurrected
  · have hsum := sum_isCreating_setOp s u op
    have hold := h.lookups
    change queue.count .lookup + ∑ v, ((HybridRemove.setOp s u op).ops v).isCreating =
      if fill.isSome then 1 else 0
    omega
  · intro hfilling v
    change (update s.ops u op v).pastLock = false
    by_cases hv : v = u
    · rw [hv, update_self, ← not_eq_true]
      exact fun hpast => hlock hpast hfilling
    · rw [update_of_ne hv]
      exact h.filling hfilling v
  · intro v
    change update s.ops u op v = s.ops v ∨ RemoveFact _ (update s.ops u op v)
    by_cases hv : v = u
    · rw [hv, update_self]
      exact Or.inr hop.setOp
    · exact Or.inl (update_of_ne hv _ _)
  · intro v hv hlate
    change update s.ops u op v = .waiting at hv
    by_cases hvu : v = u
    · rw [hvu, update_self] at hv
      exact hwait hv (hvu ▸ hlate)
    · rw [update_of_ne hvu] at hv
      exact h.waiting v hv hlate

end Stable

/-! ## Removals -/

section Remove
variable {T : Type} {s : State T}

lemma Stable.invalidateToken : Stable s { s with tokenValid := false } :=
  .of_same (fun _ hit => hit) id fun _ => Or.inr (Or.inr rfl)

lemma Stable.drop : Stable s { s with item := none } := .of_same (fun _ hit => by cases hit) id id

lemma Clear.append_remove (hevictor : EvictorClear s) (hfilling : s.job ≠ .filling) :
    Clear { s with queue := s.queue ++ [.remove] } :=
  ⟨finalValue_append_remove _ _, fun _ _ => by simp, hevictor, hfilling⟩

lemma Stable.append_remove : Stable s { s with queue := s.queue ++ [.remove] } where
  item _ hit := hit
  clear h := .append_remove h.evictor h.not_filling
  evictor := id
  no_insert _ hins := by simpa using hins

lemma Gone.drop : Gone { s with item := none } := fun _ hit => by cases hit

variable [Fintype T]

lemma Inv.returnRemove (h : Inv s) (hclear : Clear s) (hgone : Gone s) :
    Inv { s with removed := true } := by
  have hst := Stable.ghosts s true s.late
  exact h.stable hst h.erased h.hasRead h.lookups h.filling (fun _ => Or.inl rfl)
    (fun _ => Or.inr ⟨hst.clear hclear, hst.gone hgone⟩) (fun _ _ => rfl) h.waiting h.resurrected

variable [DecidableEq T] {t : State T} {u : T} {other : Bool}

lemma Inv.removal (h : Inv s) {op : Op} {item : Option Item} {queue : List NavyOp}
    {tokenValid : Bool}
    (hst : Stable s { s with item := item, queue := queue, tokenValid := tokenValid })
    (hqueue : queue.count .lookup = s.queue.count .lookup) {old : Op} (hu : s.ops u = old)
    (hold : old.isCreating = 0) (hnew : op.isCreating = 0) (hwaiting : op ≠ .waiting)
    (hlock : op.pastLock = true → s.job ≠ .filling)
    (hop : RemoveFact { s with item := item, queue := queue, tokenValid := tokenValid } op) :
    Inv (setOp { s with item := item, queue := queue, tokenValid := tokenValid } u op) := by
  refine h.thread hst ?_ ?_ hlock hop fun heq => absurd heq hwaiting
  · rw [← count_pos_iff, ← count_pos_iff, hqueue]
    exact id
  · rw [hqueue, hu, hold, hnew]

lemma findInternal_eq_none (h : findInternal s = none) : Gone s := by
  intro it hit hmark
  rw [findInternal, hit] at h
  simp [hmark] at h

lemma findInternal_eq_some {it : Item} (h : findInternal s = some it) :
    s.item = some it ∧ it.mark = .unmarked := by
  rw [findInternal, Option.filter_eq_some_iff] at h
  exact ⟨h.1, by simpa using h.2⟩

lemma Inv.not_filling (h : Inv s) {op : Op} (hu : s.ops u = op) (hpast : op.pastLock = true) :
    s.job ≠ .filling := by
  intro hjob
  have hfree := h.filling hjob u
  rw [hu, hpast] at hfree
  cases hfree

/-- No valid fill has read a value, unless a queued removal will stop it. -/
def SkipSafe (s : State T) : Prop :=
  s.job = .read true → s.fill = some true → NavyOp.remove ∈ s.queue

/-- A removal that skips the queue leaves nothing behind. -/
lemma Clear.of_skip (hnvm : s.nvm = false) (hins : NavyOp.insert ∉ s.queue)
    (hevictor : EvictorClear s) (hfilling : s.job ≠ .filling) (hsafe : SkipSafe s) : Clear s :=
  ⟨by rw [hnvm]; exact finalValue_of_no_insert hins, hsafe, hevictor, hfilling⟩

lemma no_insert_of_hasPutContexts (h : hasPutContexts s = false) : NavyOp.insert ∉ s.queue := by
  simp only [hasPutContexts, or_eq_false_iff, decide_eq_false_iff_not] at h
  exact h.2

lemma removeStep_inv (h : Inv s) (ht : removeStep s u other (s.ops u) = some t)
    (hskip : s.ops u = .noPuts → s.nvm = false → other = false → SkipSafe s) : Inv t := by
  have hfact := h.ops u
  cases hu : s.ops u with
  | started =>
    rw [hu, removeStep] at ht
    split_ifs at ht with hjob
    cases ht
    exact h.removal (.refl s) rfl hu rfl rfl (by simp)
      (fun _ => hjob) trivial
  | locked =>
    have hjob := h.not_filling hu rfl
    rw [hu, removeStep] at ht
    cases hfind : findInternal s with
    | none =>
      rw [hfind] at ht
      cases ht
      exact h.removal (.refl s) rfl hu rfl rfl (by simp)
        (fun _ => hjob) (findInternal_eq_none hfind)
    | some it =>
      rw [hfind] at ht
      cases ht
      obtain ⟨hit, hmark⟩ := findInternal_eq_some hfind
      refine h.removal (.refl s) rfl hu rfl rfl (by simp)
        (fun _ => hjob) ⟨?_, fun hclean => h.unclean it hit hclean hmark⟩
      intro it' hit'
      rw [hit] at hit'
      cases hit'
      exact ⟨rfl, hmark⟩
  | found nvmClean =>
    have hjob := h.not_filling hu rfl
    rw [hu] at ht hfact
    cases nvmClean with
    | true =>
      cases ht
      exact h.removal .drop rfl hu rfl rfl (by simp)
        (fun _ => hjob) Gone.drop
    | false =>
      cases ht
      have hclear := (Stable.drop (s := s)).clear (hfact.2 rfl)
      exact Inv.returnRemove (h.removal .drop rfl hu rfl rfl
        (by simp) (by simp [Op.pastLock, Op.hasGuard]) trivial) hclear.setOp
        (Gone.drop (s := s))
  | unlinked =>
    have hjob := h.not_filling hu rfl
    rw [hu] at ht hfact
    cases ht
    exact h.removal .invalidateToken rfl hu rfl rfl (by simp)
      (fun _ => hjob) ⟨hfact, Or.inr (Or.inr rfl)⟩
  | removeInvalidated =>
    have hjob := h.not_filling hu rfl
    rw [hu] at ht hfact
    cases ht
    split_ifs with hputs
    · exact h.removal (.refl s) rfl hu rfl rfl (by simp)
        (fun _ => hjob) hfact
    · rw [not_eq_true, or_eq_false_iff] at hputs
      exact h.removal (.refl s) rfl hu rfl rfl (by simp)
        (fun _ => hjob) ⟨hfact.1, hfact.2, no_insert_of_hasPutContexts hputs.1⟩
  | noPuts =>
    have hjob := h.not_filling hu rfl
    rw [hu, removeStep] at ht
    rw [hu] at hfact
    split_ifs at ht with hexists
    · cases ht
      exact h.removal (.refl s) rfl hu rfl rfl (by simp)
        (fun _ => hjob) ⟨hfact.1, hfact.2.1⟩
    · rw [not_eq_true, or_eq_false_iff] at hexists
      cases ht
      have hclear : Clear s :=
        .of_skip hexists.1 hfact.2.2 hfact.2.1 hjob (hskip hu hexists.1 hexists.2)
      exact Inv.returnRemove (h.removal (.refl s) rfl hu rfl rfl
        (by simp) (by simp [Op.pastLock, Op.hasGuard]) trivial) hclear.setOp
        hfact.1
  | enqueueing =>
    have hjob := h.not_filling hu rfl
    rw [hu] at ht hfact
    cases ht
    have hclear := Clear.append_remove hfact.2 hjob
    exact Inv.returnRemove (h.removal .append_remove (by simp)
      hu rfl rfl (by simp) (by simp [Op.pastLock, Op.hasGuard]) trivial) hclear.setOp hfact.1
  | idle | missed | findInvalidated | creating | waiting =>
    rw [hu] at ht
    cases ht

lemma startRemove_inv (h : Inv s) (hu : s.ops u = .idle) : Inv (setOp s u .started) :=
  h.removal (.refl s) rfl
    hu rfl rfl (by simp) (by simp [Op.pastLock]) trivial

end Remove

/-! ## Lookups -/

section Find
variable {T : Type} [Fintype T] {s t : State T} {u : T} {other : Bool}

lemma Inv.not_hasRead (h : Inv s) (hcount : s.queue.count .lookup = 0) {job : Job}
    (hread : job.hasRead = true) : s.job ≠ job := by
  rintro rfl
  exact count_eq_zero.1 hcount (h.hasRead hread)

variable [DecidableEq T]

/-- A hit in DRAM is never late: after a removal there is nothing to find. -/
lemma Inv.hit (h : Inv s) {it : Item} (hfind : findInternal s = some it) {old : Op}
    (hu : s.ops u = old) (hold : old.isCreating = 0) :
    Inv { setOp s u .idle with resurrected := s.resurrected || s.late u } := by
  obtain ⟨hit, hmark⟩ := findInternal_eq_some hfind
  have hlate : s.late u = false := by
    rw [← not_eq_true]
    intro hlate
    exact (h.removed (h.late u hlate)).2 it hit hmark
  have heq : { setOp s u .idle with resurrected := s.resurrected || s.late u } =
      setOp s u .idle := by
    simp [setOp, hlate]
  rw [heq]
  exact h.removal (.refl s) rfl
    hu hold rfl (by simp) (by simp [Op.pastLock, Op.hasGuard]) trivial

lemma Inv.beginFind (h : Inv s) (hu : s.ops u = .idle) :
    Inv { s with late := update s.late u s.removed } := by
  refine h.stable (.ghosts s _ _) h.erased h.hasRead h.lookups h.filling (fun _ => Or.inl rfl) Or.inl
    ?_ ?_ h.resurrected
  · intro v hv
    change update s.late u s.removed v = true at hv
    by_cases hvu : v = u
    · rw [hvu, update_self] at hv
      exact hv
    · rw [update_of_ne hvu] at hv
      exact h.late v hv
  · intro v hv hlate
    have hvu : v ≠ u := by
      rintro rfl
      rw [hu] at hv
      cases hv
    change update s.late u s.removed v = true at hlate
    rw [update_of_ne hvu] at hlate
    exact h.waiting v hv hlate

lemma startFind_inv (h : Inv s) (hu : s.ops u = .idle) : Inv (startFind s u) := by
  have hbegun := h.beginFind hu
  unfold startFind findInDram
  dsimp only
  split
  · exact hbegun.removal (.refl _) rfl hu rfl rfl (by simp) (by simp [Op.pastLock, Op.hasGuard]) trivial
  · rename_i it hfind
    exact hbegun.hit hfind hu rfl

lemma Inv.createFill (h : Inv s) (hu : s.ops u = .findInvalidated) (hfill : s.fill = none) :
    Inv (setOp { s with fill := some true } u .creating) := by
  have hcount : s.queue.count .lookup = 0 := by
    have hlookups := h.lookups
    rw [hfill] at hlookups
    simp only [Option.isSome_none, false_eq_true, if_false] at hlookups
    omega
  have hst : Stable s { s with fill := some true } :=
    { item := fun _ hit => hit
      clear := fun hclear => ⟨hclear.final, fun hjob => absurd hjob (h.not_hasRead hcount rfl),
        hclear.evictor, hclear.not_filling⟩
      evictor := id
      no_insert := fun _ => id }
  refine h.thread hst id ?_
    (by simp [Op.pastLock, Op.hasGuard]) trivial (by simp)
  rw [hu, hfill]
  rfl

lemma Stable.append_lookup : Stable s { s with queue := s.queue ++ [.lookup] } where
  item _ hit := hit
  clear h := ⟨by rw [← h.final]; exact finalValue_append_lookup _ _,
    fun hread hvalid => List.mem_append_left _ (h.read hread hvalid), h.evictor, h.not_filling⟩
  evictor := id
  no_insert _ hins := by simpa using hins

lemma Inv.enqueueLookup (h : Inv s) (hu : s.ops u = .creating) :
    Inv (setOp { s with queue := s.queue ++ [.lookup] } u .waiting) := by
  have hcount : s.queue.count .lookup = 0 := by
    have hlookups := h.lookups
    have hle := Transition.le_sum (fun v => (s.ops v).isCreating) u
    have hone : (s.ops u).isCreating = 1 := by
      rw [hu]
      rfl
    split_ifs at hlookups <;> omega
  refine h.thread .append_lookup (by simp) ?_
    (by simp [Op.pastLock, Op.hasGuard]) trivial fun _ _ => h.not_hasRead hcount rfl
  rw [hu]
  simp [Op.isCreating]

lemma findLocked_inv (h : Inv s) (hu : s.ops u = .findInvalidated)
    (hjoin : s.fill ≠ none → s.job ≠ .handled true) : Inv (findLocked s u other) := by
  unfold findLocked
  split
  · rename_i valid hfill
    exact h.thread (.refl s) id
      (by rw [hu]; rfl) (by simp [Op.pastLock, Op.hasGuard]) trivial
      fun _ _ => hjoin (by simp [hfill])
  · rename_i hfill
    split_ifs
    · exact h.createFill hu hfill
    · exact h.removal (.refl s) rfl hu rfl rfl (by simp)
        (by simp [Op.pastLock, Op.hasGuard]) trivial

lemma findStep_inv (h : Inv s) (ht : findStep s u other (s.ops u) = some t)
    (hjoin : s.ops u = .findInvalidated → findInternal s = none → s.fill ≠ none →
      s.job ≠ .handled true) : Inv t := by
  cases hu : s.ops u with
  | missed =>
    rw [hu] at ht
    cases ht
    exact h.removal .invalidateToken rfl hu rfl rfl (by simp)
      (by simp [Op.pastLock, Op.hasGuard]) trivial
  | findInvalidated =>
    rw [hu, findStep, findInDram] at ht
    split_ifs at ht with hjob
    cases hfind : findInternal s with
    | some it =>
      rw [hfind] at ht
      cases ht
      exact h.hit hfind hu rfl
    | none =>
      rw [hfind] at ht
      cases ht
      exact findLocked_inv h hu (hjoin hu hfind)
  | creating =>
    rw [hu] at ht
    cases ht
    exact h.enqueueLookup hu
  | idle | waiting | started | locked | found | unlinked | removeInvalidated | noPuts
    | enqueueing =>
    rw [hu] at ht
    cases ht

end Find

/-! ## Evictions -/

section Evict
variable {T : Type} {s t : State T}

lemma RemoveFact.of_not_pastLock {op : Op} (h : op.pastLock = false) : RemoveFact t op := by
  cases op with
  | found | unlinked | removeInvalidated | noPuts | enqueueing => cases h
  | idle | missed | findInvalidated | creating | waiting | started | locked => trivial

lemma RemoveFact.of_present {it : Item} {op : Op} (hit : s.item = some it)
    (hmark : it.mark = .unmarked) (hhandle : op.hasHandle = false) (h : RemoveFact s op) :
    RemoveFact t op := by
  cases op with
  | found => cases hhandle
  | unlinked => exact absurd hmark (h it hit)
  | removeInvalidated | noPuts | enqueueing => exact absurd hmark (h.1 it hit)
  | idle | missed | findInvalidated | creating | waiting | started | locked => trivial

variable [Fintype T]

/-- An item that can be found is marked: it was not removed, so nothing is promised. -/
lemma Inv.mark (h : Inv s) {nvmClean : Bool} {mark : Mark} {evictor : Evictor}
    (hit : s.item = some ⟨nvmClean, .unmarked⟩) (hhandle : ¬∃ u, (s.ops u).hasHandle = true)
    (hmark : mark ≠ .unmarked) :
    Inv { s with item := some ⟨nvmClean, mark⟩, evictor := evictor } where
  erased := h.erased
  hasRead := h.hasRead
  lookups := h.lookups
  filling := h.filling
  unclean it hit' _ hmark' := by
    cases hit'
    exact absurd hmark' hmark
  ops u := by
    refine (h.ops u).of_present hit rfl ?_
    rw [← not_eq_true]
    exact fun hu => hhandle ⟨u, hu⟩
  removed hrem := absurd rfl ((h.removed hrem).2 _ hit)
  late := h.late
  waiting := h.waiting
  resurrected := h.resurrected

lemma markForEviction_inv {write : Bool} (h : Inv s) (ht : markForEviction s write = some t) :
    Inv t := by
  unfold markForEviction at ht
  split at ht
  · rename_i nvmClean hit
    split_ifs at ht with hhandle hwrite hevictor
    · cases ht
      exact h.mark hit hhandle (by simp)
    · cases ht
      exact h.mark hit hhandle (by simp)
  · cases ht

lemma Inv.evict (h : Inv s) {item : Option Item} {evictor : Evictor} {tokenValid : Bool}
    (hitem : ∀ it, item = some it → s.item = some it)
    (hevictor : EvictorClear s → evictor = .idle ∨ evictor = .acquired ∨ tokenValid = false) :
    Inv { s with item := item, evictor := evictor, tokenValid := tokenValid } :=
  h.background (.of_same hitem id hevictor) h.erased h.hasRead id rfl rfl h.filling

lemma unlinkItem_inv (h : Inv s) (ht : unlinkItem s = some t) : Inv t := by
  unfold unlinkItem at ht
  split at ht
  · cases ht
    exact h.evict (by simp) id
  · cases ht

/-- A put is queued only with a valid token, so not after a removal. -/
lemma Inv.enqueuePut (h : Inv s) (hevictor : s.evictor = .created) (htoken : s.tokenValid = true) :
    Inv { s with evictor := .idle, queue := s.queue ++ [.insert] } := by
  have hnot : ¬EvictorClear s := by simp [EvictorClear, hevictor, htoken]
  have hst : Stable s { s with evictor := .idle, queue := s.queue ++ [.insert] } :=
    { item := fun _ hit => hit
      clear := fun hclear => absurd hclear.evictor hnot
      evictor := fun hclear => absurd hclear hnot
      no_insert := fun hclear => absurd hclear hnot }
  exact h.background hst h.erased (fun hread => mem_append_left _ (h.hasRead hread)) id
    (by simp) rfl h.filling

lemma putStep_inv [DecidableEq T] {abort : Bool} (h : Inv s)
    (ht : putStep s abort s.evictor = some t) : Inv t := by
  have hsame : ∀ it, s.item = some it → s.item = some it := fun _ hit => hit
  -- past the mark, only an invalid token is clear
  have htoken : ∀ {evictor : Evictor}, s.evictor = evictor → evictor ≠ .idle →
      evictor ≠ .acquired → EvictorClear s → s.tokenValid = false := by
    rintro evictor rfl hidle hacquired (hcase | hcase | hcase)
    · exact absurd hcase hidle
    · exact absurd hcase hacquired
    · exact hcase
  cases hevictor : s.evictor with
  | idle =>
    rw [hevictor] at ht
    cases ht
  | acquired =>
    rw [hevictor] at ht
    cases ht
    exact h.evict hsame fun _ => Or.inl rfl
  | marked =>
    rw [hevictor] at ht
    cases ht
    refine h.evict ?_ fun hclear => Or.inr (Or.inr (htoken hevictor (by simp) (by simp) hclear))
    intro it hit
    exact (Option.filter_eq_some_iff.1 hit).1
  | unlinked | checked =>
    rw [hevictor] at ht
    cases ht
    exact h.evict hsame fun hclear => Or.inr (Or.inr (htoken hevictor (by simp) (by simp) hclear))
  | created =>
    rw [hevictor, putStep] at ht
    split_ifs at ht with hvalid
    · cases ht
      rw [and_eq_true] at hvalid
      exact h.enqueuePut hevictor hvalid.1
    · cases ht
      exact h.evict hsame fun _ => Or.inl rfl

end Evict

end HybridCache.HybridRemove

import HybridCache.Transition

/-!
# The item destructor across DRAM and flash

One key is followed through the DRAM cache, the flash cache and the queue of operations
between them. The flags of the DRAM item and the set `itemRemoved_` say which copy of an
item has to run the destructor of the user. Every action is one critical section under
the item destructor lock; operations of the flash cache on one key are executed in order.

Items are numbered in the order of their inserts, and `destructorCalls` counts the calls
for each of them. Time is not modelled: an action says that the item has expired.
-/
namespace HybridCache.ItemDestructor

open List Option

structure Item where
  id : ℕ
  nvmClean : Bool
  nvmEvicted : Bool
  deriving DecidableEq, Repr

/-- The operations that the flash cache has queued. -/
inductive NavyOp
  | insert (id : ℕ)
  | remove
  deriving DecidableEq, Repr

inductive DestructorEvent
  | Recycled
  | Removed
  | PutFailed
  deriving DecidableEq, Repr

inductive RemoveContext
  | kEviction
  | kNormal
  deriving DecidableEq, Repr

structure State where
  /-- The item that the access container has. -/
  item : Option Item
  /-- Items that were removed or replaced while a handle is outstanding. -/
  unlinked : List Item
  nvmCopy : Option ℕ
  queue : List NavyOp
  itemRemoved : Bool
  nextId : ℕ
  destructorCalls : ℕ → ℕ

def init : State := ⟨none, [], none, [], false, 0, fun _ => 0⟩

/-- The flags tell whether `createItem` succeeds, whether a put is accepted, whether it fails later,
and whether a removal is queued although the flash cache has no copy. -/
inductive Action
  | fill (created couldExist : Bool)
  | evict (accepted : Bool)
  | remove (couldExist : Bool)
  | insertOrReplace (couldExist : Bool)
  | invalidateNvm (couldExist : Bool)
  | removeIfExpired
  | moveRegularItem
  | release (it : Item)
  | runQueued (failed : Bool)
  | recycle
  deriving DecidableEq, Repr

/-! ## DRAM cache -/

def destroy (s : State) (id : ℕ) : State :=
  { s with destructorCalls := Function.update s.destructorCalls id (s.destructorCalls id + 1) }

/-- The destructor is left to the flash copy of an evicted item. -/
def releaseBackToAllocator (s : State) (it : Item) (ctx : RemoveContext) : State :=
  if ctx = .kEviction ∧ it.nvmClean ∧ ¬ it.nvmEvicted then s else destroy s it.id

def unlink (s : State) (it : Item) : State := { s with item := none, unlinked := it :: s.unlinked }

/-- `markNvmItemRemovedLocked`, if the flash cache has a copy of the item. -/
def markNvmItemRemoved (s : State) (it : Item) : State :=
  { s with itemRemoved := s.itemRemoved || (it.nvmClean && !it.nvmEvicted) }

/-! ## Flash cache -/

/-- A removal keeps its tombstone until it has been executed. -/
def hasTombStone (s : State) : Bool := decide (NavyOp.remove ∈ s.queue)

def NavyOp.isInsert : NavyOp → Bool
  | .insert _ => true
  | .remove => false

def hasPutContexts (s : State) : Bool := s.queue.any NavyOp.isInsert

/-- `NvmCache::remove` skips the removal if there is nothing to remove. `couldExist` may
be a false positive. -/
def nvmRemove (s : State) (couldExist : Bool) : State :=
  if hasPutContexts s || s.nvmCopy.isSome || couldExist then
    { s with queue := s.queue ++ [.remove] }
  else s

/-- `NvmCache::put` of an item that is not in the access container any more. -/
def put (s : State) (it : Item) (accepted : Bool) : State × Item :=
  if hasTombStone s || !accepted then (s, it)
  else ({ s with queue := s.queue ++ [.insert it.id] }, ⟨it.id, true, false⟩)

/-- The end of `evictCB`, when the DRAM cache has no clean item. -/
def evictUnclean (s : State) (id : ℕ) (event : DestructorEvent) : State :=
  if event ≠ .PutFailed ∧ s.itemRemoved then { s with itemRemoved := false } else destroy s id

/-- A flash copy is gone. -/
def evictCB (s : State) (id : ℕ) (event : DestructorEvent) : State :=
  match s.item with
  | some it =>
    if it.nvmClean then { s with item := some { it with nvmEvicted := true } }
    else evictUnclean s id event
  | none => evictUnclean s id event

/-! ## Steps -/

def fill (s : State) (id : ℕ) (created couldExist : Bool) : State :=
  if created then
    if hasTombStone s || s.item.isSome then s else { s with item := some ⟨id, true, false⟩ }
  else nvmRemove s couldExist

def shouldWriteToNvmCache (it : Item) : Bool := !it.nvmClean || it.nvmEvicted

def evict (s : State) (it : Item) (accepted : Bool) : State :=
  let unlinked := { s with item := none }
  let r := if shouldWriteToNvmCache it then put unlinked it accepted else (unlinked, it)
  releaseBackToAllocator r.1 r.2 .kEviction

def removeItem (s : State) (it : Item) (couldExist : Bool) : State :=
  let removed := markNvmItemRemoved (unlink s it) it
  if it.nvmClean then nvmRemove removed couldExist else removed

def insertNew (s : State) : State :=
  { s with item := some ⟨s.nextId, false, false⟩, nextId := s.nextId + 1 }

def insertOrReplace (s : State) (couldExist : Bool) : State :=
  match s.item with
  | none => nvmRemove (insertNew s) couldExist
  | some replaced =>
    let inserted := insertNew (markNvmItemRemoved (unlink s replaced) replaced)
    if replaced.nvmClean then nvmRemove inserted couldExist else inserted

def unmarkNvmClean (s : State) (it : Item) : State :=
  { s with item := some ⟨it.id, false, it.nvmEvicted⟩ }

def invalidateNvm (s : State) (it : Item) (couldExist : Bool) : State :=
  if it.nvmClean then nvmRemove (unmarkNvmClean (markNvmItemRemoved s it) it) couldExist else s

/-- The new allocation gets only one of the flags. -/
def moveRegularItem (s : State) (it : Item) : State :=
  { s with item := some ⟨it.id, it.nvmClean, false⟩ }

def runQueued (s : State) (failed : Bool) : NavyOp → State
  | .insert id => if failed then evictCB s id .PutFailed else { s with nvmCopy := some id }
  | .remove =>
    match s.nvmCopy with
    | none => s
    | some id => evictCB { s with nvmCopy := none } id .Removed

def step (s : State) : Action → Option State
  | .fill created couldExist => s.nvmCopy.map fun id => fill s id created couldExist
  | .evict accepted => s.item.map fun it => evict s it accepted
  | .remove couldExist =>
    match s.item with
    | none => some (nvmRemove s couldExist)
    | some it => some (removeItem s it couldExist)
  | .insertOrReplace couldExist => some (insertOrReplace s couldExist)
  | .invalidateNvm couldExist => s.item.map fun it => invalidateNvm s it couldExist
  | .removeIfExpired => s.item.map fun it => unlink s it
  | .moveRegularItem => s.item.map fun it => moveRegularItem s it
  | .release it =>
    if it ∈ s.unlinked then
      some (releaseBackToAllocator { s with unlinked := s.unlinked.erase it } it .kNormal)
    else none
  | .runQueued failed =>
    match s.queue with
    | [] => none
    | op :: queue => some (runQueued { s with queue := queue } failed op)
  | .recycle => s.nvmCopy.map fun id => evictCB { s with nvmCopy := none } id .Recycled

/-! ## Who has to run the destructor -/

def copies (items : List Item) (id : ℕ) : ℕ := items.countP fun it => it.id = id

def isShared (s : State) : Bool :=
  match s.item with
  | none => false
  | some it => it.nvmClean && !it.nvmEvicted

/-- The flash copy of this item is the only one that may run its destructor. -/
def nvmOwns (s : State) (id : ℕ) : ℕ :=
  if s.nvmCopy = some id ∧ (s.itemRemoved || isShared s) = false then 1 else 0

/-- The destructor calls of an item, and the copies that will run it. -/
def total (s : State) (id : ℕ) : ℕ :=
  s.destructorCalls id + copies s.item.toList id + copies s.unlinked id +
    s.queue.count (.insert id) + nvmOwns s id

/-- Every item that was inserted is accounted for once. -/
def Balanced (s : State) : Prop := ∀ id, total s id = if id < s.nextId then 1 else 0

def NoPut (queue : List NavyOp) : Prop := ∀ id, NavyOp.insert id ∉ queue

/-- What the flags mean. -/
structure Coherent (s : State) : Prop where
  /-- Only the first operation of the queue can be a put. -/
  behind_put : NoPut s.queue.tail
  no_copy : s.nvmCopy ≠ none → NoPut s.queue
  clean : ∀ it, s.item = some it → it.nvmClean = true → s.itemRemoved = false ∧ NoPut s.queue ∧
    s.nvmCopy = if it.nvmEvicted then none else some it.id
  unclean : ∀ it, s.item = some it → it.nvmClean = false → NavyOp.remove ∈ s.queue ∨
    s.nvmCopy = none ∧ NoPut s.queue
  removed : s.itemRemoved = true → NavyOp.remove ∈ s.queue ∧ s.nvmCopy ≠ none

structure Inv (s : State) : Prop where
  coherent : Coherent s
  balanced : Balanced s

lemma init_inv : Inv init := by
  refine ⟨⟨?_, ?_, ?_, ?_, ?_⟩, ?_⟩
  all_goals simp [init, NoPut, Balanced, total, copies, nvmOwns]

/-! ## Counting -/

@[simp] lemma copies_nil (id : ℕ) : copies [] id = 0 := rfl

lemma copies_cons (it : Item) (items : List Item) (id : ℕ) :
    copies (it :: items) id = copies items id + if it.id = id then 1 else 0 := by
  simp [copies, countP_cons]

variable {items : List Item} {queue : List NavyOp}

lemma copies_erase {it : Item} (h : it ∈ items) (id : ℕ) :
    copies items id = copies (items.erase it) id + if it.id = id then 1 else 0 := by
  rw [← copies_cons]
  exact (perm_cons_erase h).countP_eq _

lemma total_destroy (s : State) (id j : ℕ) :
    total (destroy s id) j = total s j + if j = id then 1 else 0 := by
  have hcalls : (destroy s id).destructorCalls j =
      s.destructorCalls j + if j = id then 1 else 0 := by
    by_cases hj : j = id
    · simp [destroy, hj]
    · simp [destroy, hj]
  have hrest : nvmOwns (destroy s id) j = nvmOwns s j := rfl
  rw [total, total, hcalls, hrest]
  change _ + copies s.item.toList j + copies s.unlinked j + s.queue.count _ + _ = _
  omega

lemma total_nvmRemove (s : State) (couldExist : Bool) (j : ℕ) :
    total (nvmRemove s couldExist) j = total s j := by
  unfold nvmRemove
  split_ifs
  · have hcount : (s.queue ++ [NavyOp.remove]).count (.insert j) = s.queue.count (.insert j) := by
      simp [count_append]
    change _ + _ + _ + (s.queue ++ [NavyOp.remove]).count (.insert j) + nvmOwns s j = _
    rw [hcount]
    rfl
  · rfl

/-! ## Removals in the flash cache -/

variable {s : State}

lemma noPut_of_hasPutContexts (h : hasPutContexts s = false) : NoPut s.queue := by
  intro id hmem
  have hany : s.queue.any NavyOp.isInsert = true := any_eq_true.2 ⟨_, hmem, rfl⟩
  rw [hasPutContexts, hany] at h
  cases h

lemma NoPut.append_remove (h : NoPut queue) : NoPut (queue ++ [.remove]) := by
  intro id hmem
  rcases mem_append.1 hmem with hmem | hmem
  · exact h id hmem
  · simp at hmem

lemma NoPut.tail_append_remove (h : NoPut queue.tail) :
    NoPut (queue ++ [NavyOp.remove]).tail := by
  cases queue with
  | nil => simp [NoPut]
  | cons op queue => exact NoPut.append_remove h

/-- After a removal of the flash copy it suffices that a marked item has one. -/
lemma nvmRemove_coherent {couldExist : Bool} (hbehind : NoPut s.queue.tail)
    (hcopy : s.nvmCopy ≠ none → NoPut s.queue)
    (hclean : ∀ it, s.item = some it → it.nvmClean = true → s.itemRemoved = false ∧
      NoPut s.queue ∧ s.nvmCopy = if it.nvmEvicted then none else some it.id)
    (hremoved : s.itemRemoved = true → s.nvmCopy ≠ none) : Coherent (nvmRemove s couldExist) := by
  unfold nvmRemove
  split_ifs with hneeded
  · exact {
      behind_put := hbehind.tail_append_remove
      no_copy := fun hne => (hcopy hne).append_remove
      clean := fun it hit hc => by
        obtain ⟨hrem, hput, hnvm⟩ := hclean it hit hc
        exact ⟨hrem, hput.append_remove, hnvm⟩
      unclean := fun it _ _ => Or.inl (by simp)
      removed := fun hrem => ⟨by simp, hremoved hrem⟩ }
  · simp only [Bool.or_eq_true, not_or, Bool.not_eq_true] at hneeded
    obtain ⟨⟨hput, hnone⟩, -⟩ := hneeded
    have hnvm : s.nvmCopy = none := isSome_eq_false_iff.1 hnone |> isNone_iff_eq_none.1
    exact {
      behind_put := hbehind
      no_copy := hcopy
      clean := hclean
      unclean := fun it _ _ => Or.inr ⟨hnvm, noPut_of_hasPutContexts hput⟩
      removed := fun hrem => absurd hnvm (hremoved hrem) }

/-! ## Items leave the access container -/

section Unlink
variable {s : State} {it : Item} {t : State}

lemma nvmOwns_congr (hcopy : t.nvmCopy = s.nvmCopy)
    (hflags : (t.itemRemoved || isShared t) = (s.itemRemoved || isShared s)) (j : ℕ) :
    nvmOwns t j = nvmOwns s j := by
  rw [nvmOwns, nvmOwns, hcopy, hflags]

section
variable (hit : s.item = some it)
include hit

lemma isShared_of_item : isShared s = (it.nvmClean && !it.nvmEvicted) := by
  unfold isShared
  rw [hit]

lemma total_markNvmItemRemoved (j : ℕ) :
    total (markNvmItemRemoved (unlink s it) it) j = total s j := by
  have howns : nvmOwns (markNvmItemRemoved (unlink s it) it) j = nvmOwns s j := by
    refine nvmOwns_congr (by rfl) ?_ j
    rw [isShared_of_item hit]
    exact Bool.or_false _
  rw [total, total, howns, hit]
  change _ + copies [] j + copies (it :: s.unlinked) j + _ + _ = _
  rw [copies_cons, toList_some, copies_cons]
  simp only [copies_nil, markNvmItemRemoved, unlink]
  omega

lemma total_unlink (hshared : isShared s = false) (j : ℕ) : total (unlink s it) j = total s j := by
  rw [← total_markNvmItemRemoved hit]
  rw [isShared_of_item hit] at hshared
  rw [markNvmItemRemoved, hshared, Bool.or_false]

lemma total_unmarkNvmClean (j : ℕ) :
    total (unmarkNvmClean (markNvmItemRemoved s it) it) j = total s j := by
  have howns : nvmOwns (unmarkNvmClean (markNvmItemRemoved s it) it) j = nvmOwns s j := by
    refine nvmOwns_congr (by rfl) ?_ j
    rw [isShared_of_item hit]
    exact Bool.or_false _
  rw [total, total, howns, hit]
  rfl

end

lemma Balanced.of_total (h : Balanced s) (htotal : ∀ j, total t j = total s j)
    (hnext : t.nextId = s.nextId) : Balanced t := by
  intro j
  rw [htotal, hnext]
  exact h j

lemma Coherent.without_item (h : Coherent s) (hitem : t.item = none)
    (hqueue : t.queue = s.queue) (hcopy : t.nvmCopy = s.nvmCopy)
    (hremoved : t.itemRemoved = s.itemRemoved) : Coherent t where
  behind_put := by rw [hqueue]; exact h.behind_put
  no_copy := by rw [hqueue, hcopy]; exact h.no_copy
  clean it' hit' := by rw [hitem] at hit'; cases hit'
  unclean it' hit' := by rw [hitem] at hit'; cases hit'
  removed := by rw [hqueue, hcopy, hremoved]; exact h.removed

end Unlink

/-! ## Removal, replacement and mutation -/

section Remove
variable {s : State} {it : Item}

lemma Coherent.marked (h : Coherent s) (hit : s.item = some it)
    (hmark : (markNvmItemRemoved s it).itemRemoved = true) : s.nvmCopy ≠ none := by
  simp only [markNvmItemRemoved, Bool.or_eq_true, Bool.and_eq_true, Bool.not_eq_true'] at hmark
  rcases hmark with hrem | ⟨hclean, hevicted⟩
  · exact (h.removed hrem).2
  · rw [(h.clean it hit hclean).2.2, hevicted]
    simp

lemma markNvmItemRemoved_unclean (hclean : it.nvmClean = false) : markNvmItemRemoved s it = s := by
  rw [markNvmItemRemoved, hclean, Bool.false_and, Bool.or_false]

lemma nextId_nvmRemove (s : State) (couldExist : Bool) :
    (nvmRemove s couldExist).nextId = s.nextId := by
  unfold nvmRemove
  split_ifs <;> rfl

lemma Balanced.nvmRemove (h : Balanced s) (couldExist : Bool) : Balanced (nvmRemove s couldExist) :=
  h.of_total (total_nvmRemove s couldExist) (nextId_nvmRemove s couldExist)

lemma nvmRemove_inv (h : Inv s) (couldExist : Bool) : Inv (nvmRemove s couldExist) :=
  ⟨nvmRemove_coherent h.coherent.behind_put h.coherent.no_copy h.coherent.clean
    fun hrem => (h.coherent.removed hrem).2, h.balanced.nvmRemove couldExist⟩

lemma removeItem_inv (h : Inv s) (hit : s.item = some it) (couldExist : Bool) :
    Inv (removeItem s it couldExist) := by
  have htotal := total_markNvmItemRemoved hit
  unfold removeItem
  split_ifs with hclean
  · constructor
    · refine nvmRemove_coherent h.coherent.behind_put h.coherent.no_copy ?_ (h.coherent.marked hit)
      intro it' hit'
      cases hit'
    · exact (h.balanced.of_total htotal rfl).nvmRemove couldExist
  · rw [Bool.not_eq_true] at hclean
    rw [markNvmItemRemoved_unclean hclean]
    rw [markNvmItemRemoved_unclean hclean] at htotal
    exact ⟨h.coherent.without_item rfl rfl rfl rfl, h.balanced.of_total htotal rfl⟩

lemma insertNew_balanced (h : Balanced s) (hitem : s.item = none) : Balanced (insertNew s) := by
  intro j
  have hold := h j
  have howns : nvmOwns (insertNew s) j = nvmOwns s j := by
    unfold nvmOwns isShared
    rw [hitem]
    rfl
  rw [total, hitem] at hold
  rw [total, howns]
  change _ + copies [⟨s.nextId, false, false⟩] j + copies s.unlinked j + s.queue.count _ + _ =
    if j < s.nextId + 1 then 1 else 0
  simp only [copies_cons, copies_nil, toList_none, insertNew] at hold ⊢
  split_ifs at hold ⊢ <;> omega

lemma insertNew_unclean (hit : (insertNew s).item = some it) : it.nvmClean = false := by
  cases hit
  rfl

lemma insertOrReplace_inv (h : Inv s) (couldExist : Bool) : Inv (insertOrReplace s couldExist) := by
  have hc := h.coherent
  unfold insertOrReplace
  cases hit : s.item with
  | none =>
    refine ⟨?_, (insertNew_balanced h.balanced hit).nvmRemove couldExist⟩
    refine nvmRemove_coherent hc.behind_put hc.no_copy ?_ fun hrem => (hc.removed hrem).2
    intro it hit hclean
    rw [insertNew_unclean hit] at hclean
    cases hclean
  | some replaced =>
    have hbalanced : Balanced (insertNew (markNvmItemRemoved (unlink s replaced) replaced)) :=
      insertNew_balanced (h.balanced.of_total (total_markNvmItemRemoved hit) rfl) rfl
    dsimp only
    split_ifs with hclean
    · refine ⟨?_, hbalanced.nvmRemove couldExist⟩
      refine nvmRemove_coherent hc.behind_put hc.no_copy ?_ (hc.marked hit)
      intro it hit hclean
      rw [insertNew_unclean hit] at hclean
      cases hclean
    · rw [Bool.not_eq_true] at hclean
      rw [markNvmItemRemoved_unclean hclean] at hbalanced ⊢
      refine ⟨⟨hc.behind_put, hc.no_copy, ?_, ?_, hc.removed⟩, hbalanced⟩
      · intro it hit hclean
        rw [insertNew_unclean hit] at hclean
        cases hclean
      · intro it _ _
        exact hc.unclean replaced hit hclean

lemma invalidateNvm_inv (h : Inv s) (hit : s.item = some it) (couldExist : Bool) :
    Inv (invalidateNvm s it couldExist) := by
  have hc := h.coherent
  unfold invalidateNvm
  split_ifs with hclean
  · constructor
    · refine nvmRemove_coherent hc.behind_put hc.no_copy ?_ (hc.marked hit)
      intro it' hit' hclean'
      cases hit'
      cases hclean'
    · exact (h.balanced.of_total (total_unmarkNvmClean hit) rfl).nvmRemove couldExist
  · exact h

end Remove

/-! ## Eviction, expiry and slab moves -/

section Evict
variable {s : State} {it : Item}

lemma total_without_item (hit : s.item = some it) (hshared : isShared s = false) (j : ℕ) :
    total { s with item := none } j + (if it.id = j then 1 else 0) = total s j := by
  have howns : nvmOwns { s with item := none } j = nvmOwns s j := by
    refine nvmOwns_congr (by rfl) ?_ j
    rw [hshared]
    rfl
  rw [total, total, howns, hit]
  simp only [toList_none, toList_some, copies_nil, copies_cons]
  omega

lemma NoPut.eq_nil {queue : List NavyOp} (h : NoPut queue) (hremove : NavyOp.remove ∉ queue) :
    queue = [] := by
  cases queue with
  | nil => rfl
  | cons op queue =>
    cases op with
    | insert id => exact absurd mem_cons_self (h id)
    | remove => exact absurd mem_cons_self hremove

lemma Coherent.empty_of_write (h : Coherent s) (hit : s.item = some it)
    (hwrite : shouldWriteToNvmCache it = true) (htomb : NavyOp.remove ∉ s.queue) :
    s.queue = [] ∧ s.nvmCopy = none := by
  cases hclean : it.nvmClean with
  | true =>
    obtain ⟨-, hput, hcopy⟩ := h.clean it hit hclean
    rw [shouldWriteToNvmCache, hclean, Bool.not_true, Bool.false_or] at hwrite
    rw [hwrite] at hcopy
    exact ⟨hput.eq_nil htomb, hcopy⟩
  | false =>
    obtain ⟨hcopy, hput⟩ := (h.unclean it hit hclean).resolve_left htomb
    exact ⟨hput.eq_nil htomb, hcopy⟩

lemma not_shared_of_write (hit : s.item = some it) (hwrite : shouldWriteToNvmCache it = true) :
    isShared s = false := by
  rw [isShared_of_item hit]
  rw [shouldWriteToNvmCache] at hwrite
  cases hclean : it.nvmClean <;> cases hevicted : it.nvmEvicted <;>
    simp [hclean, hevicted] at hwrite ⊢

lemma releaseBackToAllocator_eviction (s : State) (it : Item) :
    releaseBackToAllocator s it .kEviction =
      if shouldWriteToNvmCache it then destroy s it.id else s := by
  unfold releaseBackToAllocator shouldWriteToNvmCache
  cases it.nvmClean <;> cases it.nvmEvicted <;> simp

lemma total_drop_shared (h : Coherent s) (hit : s.item = some it)
    (hwrite : shouldWriteToNvmCache it = false) (j : ℕ) :
    total { s with item := none } j = total s j := by
  simp only [shouldWriteToNvmCache, Bool.or_eq_false_iff, Bool.not_eq_false'] at hwrite
  obtain ⟨hclean, hevicted⟩ := hwrite
  obtain ⟨hremoved, -, hcopy⟩ := h.clean it hit hclean
  rw [hevicted] at hcopy
  have hbefore : nvmOwns s j = 0 := by
    rw [nvmOwns, isShared_of_item hit, hclean, hevicted]
    simp
  have hafter : nvmOwns { s with item := none } j = if it.id = j then 1 else 0 := by
    rw [nvmOwns]
    simp [isShared, hremoved, hcopy]
  rw [total, total, hbefore, hafter, hit]
  simp only [toList_none, toList_some, copies_nil, copies_cons]
  omega

section
variable (h : Inv s) (hit : s.item = some it)
include h hit

lemma evict_inv (accepted : Bool) : Inv (evict s it accepted) := by
  have hc := h.coherent
  have hdropped : Coherent { s with item := none } := hc.without_item rfl rfl rfl rfl
  unfold evict
  dsimp only
  by_cases hwrite : shouldWriteToNvmCache it = true
  · rw [if_pos hwrite]
    have hshared := not_shared_of_write hit hwrite
    have hitem := total_without_item hit hshared
    unfold put
    split_ifs with hrejected
    · rw [releaseBackToAllocator_eviction, if_pos hwrite]
      refine ⟨⟨hdropped.behind_put, hdropped.no_copy, hdropped.clean, hdropped.unclean,
        hdropped.removed⟩, ?_⟩
      refine h.balanced.of_total (fun j => ?_) rfl
      rw [total_destroy, ← hitem]
      simp only [eq_comm]
    · simp only [hasTombStone, Bool.or_eq_true, decide_eq_true_eq, Bool.not_eq_true', not_or,
        Bool.not_eq_false] at hrejected
      obtain ⟨hqueue, hcopy⟩ := hc.empty_of_write hit hwrite hrejected.1
      rw [releaseBackToAllocator_eviction, if_neg (by simp [shouldWriteToNvmCache])]
      constructor
      · constructor
        · simp [hqueue, NoPut]
        · intro hne
          exact absurd hcopy hne
        · intro it' hit'
          cases hit'
        · intro it' hit'
          cases hit'
        · intro hrem
          exact absurd (hc.removed hrem).1 hrejected.1
      · refine h.balanced.of_total (fun j => ?_) rfl
        rw [← hitem, total, total]
        change _ + _ + _ + (s.queue ++ [NavyOp.insert it.id]).count (.insert j) +
          nvmOwns { s with item := none } j = _
        rw [count_append, count_singleton]
        simp only [NavyOp.insert.injEq, beq_iff_eq]
        omega
  · rw [if_neg hwrite, releaseBackToAllocator_eviction, if_neg hwrite]
    rw [Bool.not_eq_true] at hwrite
    exact ⟨hdropped, h.balanced.of_total (total_drop_shared hc hit hwrite) rfl⟩

lemma removeIfExpired_inv (hshared : isShared s = false) : Inv (unlink s it) :=
  ⟨h.coherent.without_item rfl rfl rfl rfl, h.balanced.of_total (total_unlink hit hshared) rfl⟩

lemma moveRegularItem_inv (hflags : ¬ (it.nvmClean = true ∧ it.nvmEvicted = true)) :
    Inv (moveRegularItem s it) := by
  cases hclean : it.nvmClean with
  | true =>
    have hevicted : it.nvmEvicted = false := by simpa [hclean] using hflags
    have hsame : moveRegularItem s it = s := by
      have heta : some (⟨it.id, it.nvmClean, false⟩ : Item) = s.item := by rw [hit, ← hevicted]
      rw [moveRegularItem, heta]
    rw [hsame]
    exact h
  | false =>
    have hc := h.coherent
    refine ⟨⟨hc.behind_put, hc.no_copy, ?_, ?_, hc.removed⟩, ?_⟩
    · intro it' hit' hclean'
      cases hit'
      rw [hclean] at hclean'
      cases hclean'
    · intro _ _ _
      exact hc.unclean it hit hclean
    · refine h.balanced.of_total (fun j => ?_) rfl
      have howns : nvmOwns (moveRegularItem s it) j = nvmOwns s j := by
        refine nvmOwns_congr (by rfl) ?_ j
        rw [isShared_of_item hit, isShared, moveRegularItem, hclean]
        rfl
      rw [total, total, howns, hit]
      rfl

end

lemma release_inv (h : Inv s) (hmem : it ∈ s.unlinked) :
    Inv (releaseBackToAllocator { s with unlinked := s.unlinked.erase it } it .kNormal) := by
  have hc := h.coherent
  rw [releaseBackToAllocator, if_neg (by simp)]
  refine ⟨⟨hc.behind_put, hc.no_copy, hc.clean, hc.unclean, hc.removed⟩, ?_⟩
  refine h.balanced.of_total (fun j => ?_) rfl
  have hcopies := copies_erase hmem j
  rw [total_destroy, total, total, hcopies]
  change _ + _ + _ + _ + nvmOwns s j + _ = _
  simp only [eq_comm]
  omega

end Evict

/-! ## Flash copies come and go -/

section Flash
variable {s : State} {queue : List NavyOp} {event : DestructorEvent} {id : ℕ}

variable {op : NavyOp}

lemma NoPut.of_tail (h : NoPut (op :: queue)) : NoPut queue :=
  fun id hmem => h id (mem_cons_of_mem _ hmem)

lemma evictUnclean_balanced {t : State} (h : Balanced s)
    (hcopy : s.nvmCopy = some id) (hevent : event ≠ .PutFailed) (hshared : isShared s = false)
    (htotal : ∀ j, total t j + nvmOwns s j = total s j) (hremoved : t.itemRemoved = s.itemRemoved)
    (hnext : t.nextId = s.nextId) (hnone : t.nvmCopy = none) :
    Balanced (evictUnclean t id event) := by
  unfold evictUnclean
  by_cases hrem : s.itemRemoved = true
  · rw [if_pos ⟨hevent, hremoved.trans hrem⟩]
    refine h.of_total (fun j => ?_) hnext
    have hzero : nvmOwns s j = 0 := by simp [nvmOwns, hrem]
    have hafter : nvmOwns { t with itemRemoved := false } j = nvmOwns t j := by
      simp [nvmOwns, hnone]
    rw [← htotal j, hzero, total, total, hafter]
    rfl
  · rw [if_neg (by rw [hremoved]; exact fun hand => hrem hand.2)]
    refine h.of_total (fun j => ?_) hnext
    have hone : nvmOwns s j = if j = id then 1 else 0 := by
      simp [nvmOwns, hcopy, hrem, hshared, eq_comm]
    rw [total_destroy, ← htotal j, hone]

lemma total_setFlash (s : State) (copy : Option ℕ) (queue : List NavyOp) (j : ℕ) :
    total { s with nvmCopy := copy, queue := queue } j + s.queue.count (.insert j) + nvmOwns s j =
      total s j + queue.count (.insert j) +
        nvmOwns { s with nvmCopy := copy, queue := queue } j := by
  rw [total, total]
  change s.destructorCalls j + copies s.item.toList j + copies s.unlinked j +
    queue.count (.insert j) + _ + _ + _ = _
  omega

lemma total_without_copy (s : State) (queue : List NavyOp)
    (hqueue : ∀ j, queue.count (.insert j) = s.queue.count (.insert j)) (j : ℕ) :
    total { s with nvmCopy := none, queue := queue } j + nvmOwns s j = total s j := by
  have hset := total_setFlash s none queue j
  have hzero : nvmOwns { s with nvmCopy := none, queue := queue } j = 0 := by simp [nvmOwns]
  rw [hqueue, hzero] at hset
  omega

lemma Coherent.of_no_copy (hput : NoPut s.queue) (hcopy : s.nvmCopy = none)
    (hremoved : s.itemRemoved = false)
    (hevicted : ∀ it, s.item = some it → it.nvmClean = true → it.nvmEvicted = true) :
    Coherent s where
  behind_put id hmem := hput id (List.mem_of_mem_tail hmem)
  no_copy _ := hput
  clean it hit hclean := ⟨hremoved, hput, by rw [hevicted it hit hclean]; exact hcopy⟩
  unclean _ _ _ := Or.inr ⟨hcopy, hput⟩
  removed hrem := by rw [hremoved] at hrem; cases hrem

lemma evictUnclean_coherent (hevent : event ≠ .PutFailed)
    (hput : NoPut s.queue) (hcopy : s.nvmCopy = none)
    (hitem : ∀ it, s.item = some it → it.nvmClean = false) :
    Coherent (evictUnclean s id event) := by
  have hclean : ∀ it, s.item = some it → it.nvmClean = true → it.nvmEvicted = true := by
    intro it hit hclean
    rw [hitem it hit] at hclean
    cases hclean
  unfold evictUnclean
  split_ifs with hrem
  · exact .of_no_copy hput hcopy rfl hclean
  · refine .of_no_copy hput hcopy ?_ hclean
    rw [← Bool.not_eq_true]
    exact fun htrue => hrem ⟨hevent, htrue⟩

lemma evictCB_inv (h : Inv s) (hcopy : s.nvmCopy = some id) (hevent : event ≠ .PutFailed)
    (hqueue : queue = s.queue ∨ s.queue = .remove :: queue) :
    Inv (evictCB { s with nvmCopy := none, queue := queue } id event) := by
  have hput : NoPut queue := by
    have hall := h.coherent.no_copy (by simp [hcopy])
    rcases hqueue with rfl | heq
    · exact hall
    · rw [heq] at hall
      exact hall.of_tail
  have htotal := total_without_copy s queue fun j => by
    rcases hqueue with rfl | heq
    · rfl
    · simp [heq]
  have hunclean : isShared s = false → (∀ it, s.item = some it → it.nvmClean = false) →
      Inv (evictUnclean { s with nvmCopy := none, queue := queue } id event) := fun hshared hitem =>
    ⟨evictUnclean_coherent hevent hput rfl hitem,
      evictUnclean_balanced h.balanced hcopy hevent hshared htotal rfl rfl rfl⟩
  unfold evictCB
  cases hit : s.item with
  | none =>
    rw [hit] at hunclean
    exact hunclean (by rw [isShared, hit]) (by simp)
  | some it =>
    dsimp only
    split_ifs with hclean
    · -- the item in DRAM runs the destructor from now on
      obtain ⟨hremoved, -, hnvm⟩ := h.coherent.clean it hit hclean
      have hshared : isShared s = true := by
        rw [isShared_of_item hit, hclean]
        cases hevicted : it.nvmEvicted with
        | false => rfl
        | true => simp [hcopy, hevicted] at hnvm
      refine ⟨.of_no_copy hput rfl hremoved ?_, ?_⟩
      · intro it' hit' _
        cases hit'
        rfl
      · refine h.balanced.of_total (fun j => ?_) rfl
        have hzero : nvmOwns s j = 0 := by simp [nvmOwns, hshared]
        rw [← htotal j, hzero, total, total, hit]
        simp [nvmOwns, copies_cons]
    · rw [hit] at hunclean
      rw [Bool.not_eq_true] at hclean
      refine hunclean ?_ ?_
      · rw [isShared_of_item hit, hclean]
        rfl
      · intro it' hit'
        cases hit'
        exact hclean

lemma Coherent.put_queued (h : Coherent s) (hqueue : s.queue = .insert id :: queue) :
    NoPut queue ∧ s.nvmCopy = none ∧ s.itemRemoved = false ∧
      (∀ it, s.item = some it → it.nvmClean = false ∧ NavyOp.remove ∈ queue) := by
  have hmem : ¬ NoPut s.queue := fun hput => hput id (by rw [hqueue]; exact mem_cons_self)
  have hcopy : s.nvmCopy = none := not_ne_iff.1 fun hne => hmem (h.no_copy hne)
  refine ⟨?_, hcopy, ?_, ?_⟩
  · have hbehind := h.behind_put
    rw [hqueue] at hbehind
    exact hbehind
  · rw [← Bool.not_eq_true]
    exact fun hrem => (h.removed hrem).2 hcopy
  · intro it hit
    cases hclean : it.nvmClean with
    | true => exact absurd (h.clean it hit hclean).2.1 hmem
    | false =>
      have hremove := (h.unclean it hit hclean).resolve_right fun hright => hmem hright.2
      rw [hqueue] at hremove
      exact ⟨rfl, (mem_cons.1 hremove).resolve_left (by simp)⟩

lemma runPut_inv (h : Inv s) (hqueue : s.queue = .insert id :: queue) (failed : Bool) :
    Inv (runQueued { s with queue := queue } failed (.insert id)) := by
  obtain ⟨hput, hcopy, hremoved, hitem⟩ := h.coherent.put_queued hqueue
  have hshared : isShared s = false := by
    unfold isShared
    split
    · rfl
    · rename_i it hit
      rw [(hitem it hit).1]
      rfl
  have hcount : ∀ j, s.queue.count (.insert j) = queue.count (.insert j) +
      if j = id then 1 else 0 := by
    intro j
    rw [hqueue, count_cons]
    by_cases hj : j = id
    · simp [hj]
    · simp [hj, Ne.symm hj]
  have hbefore : ∀ j, nvmOwns s j = 0 := fun j => by simp [nvmOwns, hcopy]
  have hclean : ∀ it, s.item = some it → it.nvmClean ≠ true := fun it hit => by
    simp [(hitem it hit).1]
  rw [runQueued]
  split_ifs with hfailed
  · have hcb : evictCB { s with queue := queue } id .PutFailed =
        destroy { s with queue := queue } id := by
      unfold evictCB evictUnclean
      cases hit : s.item with
      | none => simp
      | some it => simp [hclean it hit]
    rw [hcb]
    constructor
    · exact .of_no_copy hput hcopy hremoved fun it hit htrue => absurd htrue (hclean it hit)
    · refine h.balanced.of_total (fun j => ?_) rfl
      have hset := total_setFlash s s.nvmCopy queue j
      have hsame : nvmOwns { s with nvmCopy := s.nvmCopy, queue := queue } j = nvmOwns s j := rfl
      rw [hcount j, hsame] at hset
      rw [total_destroy]
      omega
  · constructor
    · constructor
      · exact fun j hmem => hput j (mem_of_mem_tail hmem)
      · exact fun _ => hput
      · exact fun it hit htrue => absurd htrue (hclean it hit)
      · exact fun it hit _ => Or.inl (hitem it hit).2
      · intro hrem
        rw [hremoved] at hrem
        cases hrem
    · refine h.balanced.of_total (fun j => ?_) rfl
      have hset := total_setFlash s (some id) queue j
      have hsame : isShared { s with nvmCopy := some id, queue := queue } = false := hshared
      have hafter : nvmOwns { s with nvmCopy := some id, queue := queue } j =
          if j = id then 1 else 0 := by
        rw [nvmOwns, hsame]
        rw [hremoved]
        by_cases hj : j = id
        · simp [hj]
        · simp [hj, Ne.symm hj]
      rw [hcount j, hafter, hbefore] at hset
      change total { s with nvmCopy := some id, queue := queue } j = total s j
      omega

lemma runQueued_inv (h : Inv s) (hqueue : s.queue = op :: queue)
    (failed : Bool) : Inv (runQueued { s with queue := queue } failed op) := by
  cases op with
  | insert id => exact runPut_inv h hqueue failed
  | remove =>
    rw [runQueued]
    split
    · rename_i hcopy
      have hput : NoPut queue := by
        have hbehind := h.coherent.behind_put
        rw [hqueue] at hbehind
        exact hbehind
      refine ⟨.of_no_copy hput hcopy ?_ ?_, ?_⟩
      · rw [← Bool.not_eq_true]
        exact fun hrem => (h.coherent.removed hrem).2 hcopy
      · intro it hit hclean
        have hnvm := (h.coherent.clean it hit hclean).2.2
        rw [hcopy] at hnvm
        cases hevicted : it.nvmEvicted with
        | true => rfl
        | false => simp [hevicted] at hnvm
      · refine h.balanced.of_total (fun j => ?_) rfl
        have hset := total_setFlash s s.nvmCopy queue j
        have hsame : nvmOwns { s with nvmCopy := s.nvmCopy, queue := queue } j = nvmOwns s j := rfl
        have hcount : s.queue.count (.insert j) = queue.count (.insert j) := by simp [hqueue]
        omega
    · rename_i id hcopy
      exact evictCB_inv (s := s) h hcopy (by decide) (Or.inr hqueue)

lemma fill_inv (h : Inv s) (hcopy : s.nvmCopy = some id) (created couldExist : Bool) :
    Inv (fill s id created couldExist) := by
  have hc := h.coherent
  unfold fill
  split_ifs with hcreated hkeep
  · exact h
  · simp only [hasTombStone, Bool.or_eq_true, decide_eq_true_eq, not_or, Bool.not_eq_true,
      isSome_eq_false_iff, isNone_iff_eq_none] at hkeep
    obtain ⟨htomb, hnone⟩ := hkeep
    have hremoved : s.itemRemoved = false := by
      rw [← Bool.not_eq_true]
      exact fun hrem => htomb (hc.removed hrem).1
    have hfilled : Coherent { s with item := some ⟨id, true, false⟩ } := by
      refine ⟨hc.behind_put, hc.no_copy, ?_, ?_, hc.removed⟩
      · intro it hit _
        cases hit
        exact ⟨hremoved, hc.no_copy (by simp [hcopy]), hcopy⟩
      · intro it hit hunclean
        cases hit
        cases hunclean
    refine ⟨hfilled, h.balanced.of_total (fun j => ?_) rfl⟩
    have hempty : s = { s with item := none } := by
      rw [← hnone]
    rw [← total_drop_shared hfilled rfl rfl j]
    exact congrArg (total · j) hempty.symm
  · exact nvmRemove_inv h couldExist

end Flash

/-! ## Runs -/

/-- The condition on the steps that carry flags over or drop them: a moved item is not
both clean and evicted, and the reaper does not remove an item that the flash cache
has. -/
def StepKeepsFlags (s : State) : Action → Prop
  | .moveRegularItem => ∀ it ∈ s.item, ¬ (it.nvmClean = true ∧ it.nvmEvicted = true)
  | .removeIfExpired => isShared s = false
  | _ => True

instance (s : State) (a : Action) : Decidable (StepKeepsFlags s a) := by
  unfold StepKeepsFlags
  split <;> infer_instance

lemma step_inv (s : State) (a : Action) (t : State) (hflags : StepKeepsFlags s a) (h : Inv s)
    (ht : step s a = some t) : Inv t := by
  cases a with
  | fill created couldExist =>
    obtain ⟨id, hcopy, rfl⟩ := map_eq_some_iff.1 ht
    exact fill_inv h hcopy created couldExist
  | evict accepted =>
    obtain ⟨it, hit, rfl⟩ := map_eq_some_iff.1 ht
    exact evict_inv h hit accepted
  | remove couldExist =>
    rw [step] at ht
    split at ht
    · cases ht
      exact nvmRemove_inv h couldExist
    · rename_i it hit
      cases ht
      exact removeItem_inv h hit couldExist
  | insertOrReplace couldExist =>
    cases ht
    exact insertOrReplace_inv h couldExist
  | invalidateNvm couldExist =>
    obtain ⟨it, hit, rfl⟩ := map_eq_some_iff.1 ht
    exact invalidateNvm_inv h hit couldExist
  | removeIfExpired =>
    obtain ⟨it, hit, rfl⟩ := map_eq_some_iff.1 ht
    exact removeIfExpired_inv h hit hflags
  | moveRegularItem =>
    obtain ⟨it, hit, rfl⟩ := map_eq_some_iff.1 ht
    exact moveRegularItem_inv h hit (hflags it hit)
  | release it =>
    rw [step] at ht
    split_ifs at ht with hmem
    cases ht
    exact release_inv h hmem
  | runQueued failed =>
    rw [step] at ht
    split at ht
    · cases ht
    · rename_i op queue hqueue
      cases ht
      exact runQueued_inv h hqueue failed
  | recycle =>
    obtain ⟨id, hcopy, rfl⟩ := map_eq_some_iff.1 ht
    exact evictCB_inv h hcopy (by decide) (Or.inl rfl)

def Holds (s : State) (id : ℕ) : Prop :=
  (∃ it ∈ s.item, it.id = id) ∨ (∃ it ∈ s.unlinked, it.id = id) ∨ s.nvmCopy = some id ∨
    NavyOp.insert id ∈ s.queue

/-- The destructor of every item is called at most once, and exactly once when no copy is
left. -/
def ExactlyOnce (s : State) : Prop :=
  ∀ id < s.nextId, s.destructorCalls id ≤ 1 ∧ (¬ Holds s id → s.destructorCalls id = 1)

lemma copies_eq_zero {id : ℕ} (h : ¬ ∃ it ∈ items, it.id = id) :
    copies items id = 0 := by
  rw [copies, countP_eq_zero]
  intro it hmem
  simp only [decide_eq_true_eq]
  exact fun hid => h ⟨it, hmem, hid⟩

lemma Inv.exactlyOnce (h : Inv s) : ExactlyOnce s := by
  intro id hid
  have hone := h.balanced id
  rw [if_pos hid, total] at hone
  refine ⟨by omega, ?_⟩
  intro hnone
  simp only [Holds, not_or] at hnone
  obtain ⟨hitem, hunlinked, hcopy, hqueue⟩ := hnone
  have hzero : copies s.item.toList id = 0 := copies_eq_zero (by simpa using hitem)
  have howns : nvmOwns s id = 0 := by simp [nvmOwns, hcopy]
  rw [hzero, copies_eq_zero hunlinked, count_eq_zero_of_not_mem hqueue, howns] at hone
  omega

/-- In a run that moves no item that is clean and evicted, and whose reaper removes no item
that the flash cache has a copy of, the destructor of every item is called at most once,
and exactly once by the time no copy is left. -/
theorem destructor_exactly_once (as : List Action) (hmeets : Transition.Meets step StepKeepsFlags init as)
    (s : State) (hrun : Transition.run step init as = some s) : ExactlyOnce s :=
  (Transition.run_invariant_meets step_inv hmeets init_inv hrun).exactlyOnce

/-- An item is written to flash, and read back into DRAM. -/
def fillActions : List Action :=
  [.insertOrReplace false, .evict true, .runQueued false, .fill true false]

theorem destructor_exactly_once_mutated : ∃ s, Transition.run step init (fillActions ++
        [.invalidateNvm false, .moveRegularItem, .evict true, .runQueued false]) = some s ∧
      s.nextId = 1 ∧ s.item = none ∧ s.nvmCopy = none ∧ ExactlyOnce s := by
  refine ⟨_, rfl, by decide, by decide, by decide, ?_⟩
  exact destructor_exactly_once (fillActions ++
    [.invalidateNvm false, .moveRegularItem, .evict true, .runQueued false]) (by decide) _ rfl

/-- If the flash copy is recycled first, then the moved item is taken for one that the flash
cache has, and its destructor is never called. If the reaper removes the item, then the
flash copy calls the destructor again. -/
theorem destructor_lost_and_repeated :
    (∃ s, Transition.run step init (fillActions ++ [.recycle, .moveRegularItem, .evict true]) =
        some s ∧ 0 < s.nextId ∧ ¬ Holds s 0 ∧ s.destructorCalls 0 = 0) ∧
    ∃ s, Transition.run step init (fillActions ++
        [.removeIfExpired, .release ⟨0, true, false⟩, .recycle]) = some s ∧
      s.destructorCalls 0 = 2 := by
  refine ⟨⟨_, rfl, by decide, ?_, by decide⟩, ⟨_, rfl, by decide⟩⟩
  unfold Holds
  decide

end HybridCache.ItemDestructor

import HybridCache.DList
import HybridCache.Transition

/-!
# A doubly linked list is a sequence of nodes

The operations of `DList` against those of a plain list, over whole runs: what the list holds, what
happens to the hooks of other nodes, and where its iterators go.
-/
namespace HybridCache.DList
open IntrusiveList Function List

variable {ν : Type*}

/-- A new list; its future nodes may be hooked elsewhere. -/
def construct (next prev : ν → Option ν) : DList ν := ⟨next, prev, none, none, 0⟩

inductive Op (ν : Type*)
  | linkAtHead (node : ν)
  | linkAtTail (node : ν)
  | insertBefore (nextNode node : ν)
  | remove (node : ν)
  | replace (oldNode newNode : ν)
  | moveToHead (node : ν)

/-- The nodes that the operation links. -/
def Op.links : Op ν → List ν
  | .linkAtHead node | .linkAtTail node | .insertBefore _ node | .replace _ node => [node]
  | .remove _ | .moveToHead _ => []

/-! ## Iterators -/

inductive Direction
  | fromHead
  | fromTail

structure Iterator (ν : Type*) where
  curr : Option ν
  dir : Direction

/-- `begin` and `rbegin`. -/
def begin (d : DList ν) : Direction → Iterator ν
  | .fromHead => ⟨d.head, .fromHead⟩
  | .fromTail => ⟨d.tail, .fromTail⟩

def goForward (d : DList ν) (curr : ν) : Direction → Option ν
  | .fromTail => d.prev curr
  | .fromHead => d.next curr

def goBackward (d : DList ν) (curr : ν) : Direction → Option ν
  | .fromTail => d.next curr
  | .fromHead => d.prev curr

/-- `++` and `--`, which do nothing at null. -/
def Iterator.move (d : DList ν) (it : Iterator ν) (forward : Bool) : Iterator ν :=
  { it with
    curr := it.curr.bind fun n => if forward then goForward d n it.dir else goBackward d n it.dir }

/-- The nodes in the order of an iterator. -/
def Direction.order (l : List ν) : Direction → List ν
  | .fromHead => l
  | .fromTail => l.reverse

/-- The moves of an iterator on the positions of a sequence. -/
def movePosition {length : ℕ} : Option (Fin length) → Bool → Option (Fin length)
  | some i, true => if h : i + 1 < length then some ⟨i + 1, h⟩ else none
  | some i, false => if i.val = 0 then none else some ⟨i - 1, by omega⟩
  | none, _ => none

def firstPosition (length : ℕ) : Option (Fin length) :=
  if h : 0 < length then some ⟨0, h⟩ else none

variable {d e : DList ν} {l l' : List ν} {m n : ν}

lemma Linked.neighbours (h : Linked d l) (i : Fin l.length) :
    d.next (l.get i) = l[i.val + 1]? ∧
      d.prev (l.get i) = if i.val = 0 then none else l[i.val - 1]? := by
  have hsplit : l = l.take i ++ l.get i :: l.drop (i + 1) := by simp
  have hl := h
  rw [hsplit] at hl
  refine ⟨hl.next_eq.trans (by simp), hl.prev_eq.trans ?_⟩
  rw [getLast?_take]
  split_ifs with hzero
  · rfl
  · rw [getElem?_eq_getElem (by omega)]
    rfl

lemma Linked.move (h : Linked d l) (dir : Direction) (p : Option (Fin (dir.order l).length))
    (forward : Bool) : (Iterator.move d ⟨p.map (dir.order l).get, dir⟩ forward).curr =
      (movePosition p forward).map (dir.order l).get := by
  -- For an iterator from the tail the mirrored list holds the nodes in its order.
  obtain ⟨e, he, hnext, hprev⟩ : ∃ e, Linked e (dir.order l) ∧
      (∀ n, goForward d n dir = e.next n) ∧ ∀ n, goBackward d n dir = e.prev n := by
    cases dir with
    | fromHead => exact ⟨d, h, fun _ => rfl, fun _ => rfl⟩
    | fromTail => exact ⟨d.mirror, h.mirror, fun _ => rfl, fun _ => rfl⟩
  cases p with
  | none => cases forward <;> rfl
  | some i =>
    obtain ⟨hi, hi'⟩ := he.neighbours i
    cases forward with
    | true =>
      change goForward d _ dir = _
      rw [hnext, hi, movePosition]
      split_ifs with hlt
      · simp
      · simpa using hlt
    | false =>
      change goBackward d _ dir = _
      rw [hprev, hi', movePosition]
      split_ifs with hzero
      · rfl
      · simp

/-- An iterator follows the positions of the sequence, whatever the moves. -/
lemma Linked.moves (h : Linked d l) (dir : Direction) (moves : List Bool) :
    (moves.foldl (Iterator.move d) (d.begin dir)).curr =
      (moves.foldl movePosition (firstPosition (dir.order l).length)).map (dir.order l).get := by
  have hfold : ∀ p : Option (Fin (dir.order l).length),
      (moves.foldl (Iterator.move d) ⟨p.map (dir.order l).get, dir⟩).curr =
        (moves.foldl movePosition p).map (dir.order l).get := by
    induction moves with
    | nil => exact fun _ => rfl
    | cons forward moves ih =>
      intro p
      rw [foldl_cons, foldl_cons, ← ih, ← h.move]
      rfl
  rw [← hfold]
  have hfirst : ∀ k : List ν, k.head? = (firstPosition k.length).map k.get := by
    intro k
    cases k <;> rfl
  rw [← hfirst]
  cases dir with
  | fromHead => rw [begin, h.head_eq]; rfl
  | fromTail => rw [begin, h.tail_eq, ← head?_reverse]; rfl

/-! ## Runs -/

variable [DecidableEq ν]

/-- The operation on the sequence; `none` if a node to link is in the list or another is not. -/
def Op.spec (l : List ν) : Op ν → Option (List ν)
  | .linkAtHead node => if node ∈ l then none else some (node :: l)
  | .linkAtTail node => if node ∈ l then none else some (l ++ [node])
  | .insertBefore nextNode node =>
    if nextNode ∈ l ∧ node ∉ l then some (l.insertIdx (l.idxOf nextNode) node) else none
  | .remove node => if node ∈ l then some (l.erase node) else none
  | .replace oldNode newNode =>
    if oldNode ∈ l ∧ newNode ∉ l then some (substitute oldNode newNode l) else none
  | .moveToHead node => if node ∈ l then some (node :: l.erase node) else none

def Op.apply (d : DList ν) : Op ν → DList ν
  | .linkAtHead node => d.linkAtHead node
  | .linkAtTail node => d.linkAtTail node
  | .insertBefore nextNode node => d.insertBefore nextNode node
  | .remove node => d.remove node
  | .replace oldNode newNode => d.replace oldNode newNode
  | .moveToHead node => d.moveToHead node

/-- The hooks of a node outside the list: cleared if the node was in `l`. -/
def Released (d e : DList ν) (l : List ν) (m : ν) : Prop :=
  (m ∈ l → e.next m = none ∧ e.prev m = none) ∧
    (m ∉ l → e.next m = d.next m ∧ e.prev m = d.prev m)

lemma Linked.insertBefore_outside (h : Linked d l) (hm : m ∈ l) :
    SameOutside d (d.insertBefore m n) (n :: l) := by
  intro k hk
  obtain ⟨l₁, l₂, rfl⟩ := append_of_mem hm
  have hne : k ≠ n ∧ k ≠ m := by
    constructor <;> rintro rfl <;> simp at hk
  have hprev : d.prev m ≠ some k := by
    rw [h.prev_eq]
    exact fun he => hk (by simp [mem_of_getLast? he])
  simp only [DList.insertBefore, update_of_ne hne.1, update_of_ne hne.2, setHook_of_ne hprev,
    and_self]

omit [DecidableEq ν] in
lemma SameOutside.released {k : List ν} (h : SameOutside d e k) (hk : k ⊆ l') (hl : l ⊆ l') :
    ∀ m ∉ l', Released d e l m :=
  fun m hm => ⟨fun hmem => absurd (hl hmem) hm, fun _ => h m fun hmem => hm (hk hmem)⟩

lemma insertIdx_idxOf {l₁ l₂ : List ν} (hm : m ∉ l₁) :
    (l₁ ++ m :: l₂).insertIdx ((l₁ ++ m :: l₂).idxOf m) n = l₁ ++ n :: m :: l₂ := by
  rw [idxOf_append_of_notMem hm, idxOf_cons_self]
  clear hm
  induction l₁ with
  | nil => rfl
  | cons k l ih => simpa using ih

lemma Linked.step {op : Op ν} (h : Linked d l) (hop : op.spec l = some l') :
    Linked (op.apply d) l' ∧ l' ⊆ l ++ op.links ∧ op.links ⊆ l' ∧
      ∀ m ∉ l', Released d (op.apply d) l m := by
  cases op with
  | linkAtHead node =>
    simp only [Op.spec, Option.ite_none_left_eq_some, Option.some.injEq] at hop
    obtain ⟨hnode, rfl⟩ := hop
    exact ⟨h.linkAtHead hnode, by simp [Op.links], by simp [Op.links],
      h.linkAtHead_outside.released (Subset.refl _) (by simp)⟩
  | linkAtTail node =>
    simp only [Op.spec, Option.ite_none_left_eq_some, Option.some.injEq] at hop
    obtain ⟨hnode, rfl⟩ := hop
    exact ⟨h.linkAtTail hnode, Subset.refl _, by simp [Op.links],
      h.linkAtTail_outside.released (Subset.refl _) (by simp)⟩
  | insertBefore nextNode node =>
    simp only [Op.spec, Option.ite_none_right_eq_some, Option.some.injEq] at hop
    obtain ⟨⟨hnext, hnode⟩, rfl⟩ := hop
    have hout := h.insertBefore_outside hnext (n := node)
    obtain ⟨l₁, l₂, hl₁, rfl, -⟩ := exists_erase_eq hnext
    rw [insertIdx_idxOf hl₁]
    exact ⟨h.insertBefore hnode, by grind [Op.links], by grind [Op.links],
      hout.released (by grind) (by grind)⟩
  | remove node =>
    simp only [Op.spec, Option.ite_none_right_eq_some, Option.some.injEq] at hop
    obtain ⟨hnode, rfl⟩ := hop
    refine ⟨h.remove_erase hnode, by simpa [Op.links] using erase_subset, by simp [Op.links],
      fun m hm => ⟨fun hmem => ?_, h.remove_outside hnode m⟩⟩
    obtain rfl : m = node := by grind
    exact ⟨update_self .., update_self ..⟩
  | replace oldNode newNode =>
    simp only [Op.spec, Option.ite_none_right_eq_some, Option.some.injEq] at hop
    obtain ⟨⟨hold, hnew⟩, rfl⟩ := hop
    have hne : newNode ≠ oldNode := fun he => hnew (he ▸ hold)
    have hmem : ∀ m, m ∈ substitute oldNode newNode l ↔ _ := fun m => mem_substitute hne
    refine ⟨h.replace_substitute hold hnew, by grind [Op.links], by grind [Op.links],
      fun m hm => ⟨fun hl => ?_, fun hl => h.replace_outside hold m (by grind)⟩⟩
    obtain rfl : m = oldNode := by grind
    exact ⟨update_self .., update_self ..⟩
  | moveToHead node =>
    simp only [Op.spec, Option.ite_none_right_eq_some, Option.some.injEq] at hop
    obtain ⟨hnode, rfl⟩ := hop
    have hsub : l ⊆ node :: l.erase node := by grind
    exact ⟨h.moveToHead_erase hnode, by grind [Op.links], by simp [Op.links],
      (h.moveToHead_outside hnode).released hsub hsub⟩

lemma Linked.run {ops : List (Op ν)} (h : Linked d l)
    (hrun : Transition.run Op.spec l ops = some l') : Linked (ops.foldl Op.apply d) l' ∧
      ∀ m ∉ l', Released d (ops.foldl Op.apply d) (l ++ ops.flatMap Op.links) m := by
  induction ops generalizing d l with
  | nil =>
    cases hrun
    exact ⟨h, fun m hm => ⟨fun hmem => by simp [hm] at hmem, fun _ => ⟨rfl, rfl⟩⟩⟩
  | cons op ops ih =>
    obtain ⟨l₁, hop, hrest⟩ := Transition.run_cons.1 hrun
    obtain ⟨hlinked, hsub, hlinks, hreleased⟩ := h.step hop
    obtain ⟨hfinal, hafter⟩ := ih hlinked hrest
    refine ⟨hfinal, fun m hm => ?_⟩
    have hm' := hafter m hm
    have hm₁ := hreleased m
    have hsub' := @hsub m
    simp only [Released, foldl_cons, flatMap_cons, mem_append] at hm' hm₁ hsub' ⊢
    grind

/-- After any legal operations on a new list the two walks visit the nodes of the sequence in
order and in reverse order, a node outside the list has null hooks if it was ever linked and its
old hooks if not, and an iterator from either end is where its moves lead in the sequence. -/
theorem dlist_refines_sequence (next prev : ν → Option ν) {ops : List (Op ν)} {l : List ν}
    (hrun : Transition.run Op.spec [] ops = some l) :
    let d := ops.foldl Op.apply (construct next prev)
    Segment d.next d.head l none ∧ Segment d.prev d.tail l.reverse none ∧ l.Nodup ∧
    d.head = l.head? ∧ d.tail = l.getLast? ∧ d.size = l.length ∧
    (∀ m ∉ l, m ∈ ops.flatMap Op.links → d.next m = none ∧ d.prev m = none) ∧
    (∀ m ∉ l, m ∉ ops.flatMap Op.links → d.next m = next m ∧ d.prev m = prev m) ∧
    ∀ (dir : Direction) (moves : List Bool),
      (moves.foldl (Iterator.move d) (d.begin dir)).curr =
        (moves.foldl movePosition (firstPosition (dir.order l).length)).map (dir.order l).get := by
  have hnew : Linked (construct next prev) [] := ⟨nodup_nil, rfl, rfl, rfl⟩
  obtain ⟨h, hreleased⟩ := hnew.run hrun
  exact ⟨h.forward, h.backward, h.nodup, h.head_eq, h.tail_eq, h.size,
    fun m hm => (hreleased m hm).1, fun m hm => (hreleased m hm).2, h.moves⟩

/-- A node is put between two others and moved to the head, the old head is replaced. -/
theorem dlist_refines_moves :
    let ops : List (Op ℕ) := [.linkAtTail 1, .linkAtTail 3, .insertBefore 3 2, .moveToHead 2,
      .replace 1 4, .remove 3]
    let d := ops.foldl Op.apply (construct (fun _ => none) fun _ => none)
    Transition.run Op.spec [] ops = some [2, 4] ∧ d.next 1 = none ∧
      ([true, false].foldl (Iterator.move d) (d.begin .fromTail)).curr = some 4 := by
  intro ops d
  have hrun : Transition.run Op.spec [] ops = some [2, 4] := by decide
  obtain ⟨-, -, -, -, -, -, hnull, -, hmoves⟩ :=
    dlist_refines_sequence (fun _ => none) (fun _ => none) hrun
  exact ⟨hrun, (hnull 1 (by decide) (by decide)).1, hmoves .fromTail [true, false]⟩

end HybridCache.DList

import HybridCache.MultiDList

/-!
# The iterator over several lists

The iterator walks each list from its tail to its head, from the last list to the first. An
index is `none` below the first list, where the code has `kInvalidIndex`. Reading a list at
such an index is undefined, and so is an iterator over no lists at all.
-/
namespace HybridCache

open List

inductive Direction
  | FROM_HEAD
  | FROM_TAIL
  deriving DecidableEq, Repr

/-- An iterator of one list. `dlist` says which list it is. -/
structure DListIterator (ι ν : Type*) where
  curr : Option ν
  dir : Direction
  dlist : ι
  deriving DecidableEq, Repr

namespace MultiDList

/-- `mlist_` is left out. -/
structure Iterator (n : ℕ) (ν : Type*) where
  index : Option ℕ
  currIter : DListIterator (Fin n) ν
  deriving DecidableEq, Repr

section Model
variable {n : ℕ} {ν : Type*} (m : MultiDList (Fin n) ν)

def listRbegin (i : Fin n) : DListIterator (Fin n) ν := ⟨m.tail i, .FROM_TAIL, i⟩

def listRend (i : Fin n) : DListIterator (Fin n) ν := ⟨none, .FROM_TAIL, i⟩

def increment (it : DListIterator (Fin n) ν) : DListIterator (Fin n) ν :=
  { it with curr := it.curr.bind (match it.dir with
      | .FROM_TAIL => m.prev
      | .FROM_HEAD => m.next) }

def decrement (it : DListIterator (Fin n) ν) : DListIterator (Fin n) ν :=
  { it with curr := it.curr.bind (match it.dir with
      | .FROM_TAIL => m.next
      | .FROM_HEAD => m.prev) }

def lastNonEmpty : (listIdx : ℕ) → listIdx < n → Option (Fin n)
  | 0, h => if m.size ⟨0, h⟩ = 0 then none else some ⟨0, h⟩
  | i + 1, h => if m.size ⟨i + 1, h⟩ = 0 then lastNonEmpty i (by omega) else some ⟨i + 1, h⟩

def initToValidRBeginFrom (listIdx : ℕ) (h : listIdx < n) : Iterator n ν :=
  match m.lastNonEmpty listIdx h with
  | none => ⟨none, listRend ⟨0, by omega⟩⟩
  | some i => ⟨some i, m.listRbegin i⟩

def rbegin : Option (Iterator n ν) :=
  if h : 0 < n then some (m.initToValidRBeginFrom (n - 1) (by omega)) else none

/-- What `reset` makes of an iterator. -/
def rend : Option (Iterator n ν) :=
  if h : 0 < n then some ⟨none, listRend ⟨0, h⟩⟩ else none

variable [DecidableEq ν]

/-- The loop of `goForward`. -/
def skipEnds : (i : ℕ) → i < n → DListIterator (Fin n) ν → Iterator n ν
  | 0, h, it => if it = listRend ⟨0, h⟩ then ⟨none, it⟩ else ⟨some 0, it⟩
  | i + 1, h, it =>
    if it = listRend ⟨i + 1, h⟩ then skipEnds i (by omega) (m.listRbegin ⟨i, by omega⟩)
    else ⟨some (i + 1), it⟩

def goForward (it : Iterator n ν) : Option (Iterator n ν) :=
  match it.index with
  | none => some it
  | some i => if h : i < n then some (m.skipEnds i h (m.increment it.currIter)) else none

/-- The loop of `goBackward`, with at most as many rounds as there are lists left. -/
def skipBegins : ℕ → ℕ → DListIterator (Fin n) ν → Iterator n ν
  | 0, i, it => ⟨some i, it⟩
  | k + 1, i, it =>
    if h : i < n then
      if it = m.listRbegin ⟨i, h⟩ then
        if h' : i + 1 < n then
          skipBegins k (i + 1) ⟨m.head ⟨i + 1, h'⟩, .FROM_TAIL, ⟨i + 1, h'⟩⟩
        else skipBegins k (i + 1) it
      else ⟨some i, it⟩
    else ⟨some i, it⟩

def goBackward (it : Iterator n ν) : Option (Iterator n ν) :=
  match it.index with
  | none => none
  | some i =>
    if i = n then some it
    else if h : i < n then
      if it.currIter ≠ m.listRbegin ⟨i, h⟩ then some ⟨some i, m.decrement it.currIter⟩
      else some (m.skipBegins (n - i) i it.currIter)
    else none

/-- The nodes that a loop from the iterator to `rend()` visits. -/
def visit : ℕ → Iterator n ν → Option (List ν)
  | 0, _ => none
  | fuel + 1, it =>
    if rend = some it then some []
    else it.currIter.curr.bind fun node =>
      (m.goForward it).bind fun next => (visit fuel next).map (node :: ·)

def iterate : Option (List ν) := m.rbegin.bind (m.visit (m.totalSize + 1))

end Model

/-! ## Positions -/

variable {n : ℕ} {ν : Type*} {m : MultiDList (Fin n) ν} {L : Fin n → List ν}

def below (L : Fin n → List ν) : ℕ → List (Fin n × ν)
  | 0 => []
  | j + 1 => (if h : j < n then (L ⟨j, h⟩).reverse.map (⟨j, h⟩, ·) else []) ++ below L j

/-- All nodes with their lists: from the last list to the first, each from tail to head. -/
def order (L : Fin n → List ν) : List (Fin n × ν) :=
  (List.finRange n).reverse.flatMap fun i => (L i).reverse.map (i, ·)

def position (p : Fin n × ν) : Iterator n ν := ⟨some p.1, ⟨some p.2, .FROM_TAIL, p.1⟩⟩

def first (hn : 0 < n) (l : List (Fin n × ν)) : Iterator n ν :=
  match l with
  | [] => ⟨none, listRend ⟨0, hn⟩⟩
  | p :: _ => position p

variable {j : ℕ} {p : Fin n × ν}

lemma below_succ (L : Fin n → List ν) (h : j < n) :
    below L (j + 1) = (L ⟨j, h⟩).reverse.map (⟨j, h⟩, ·) ++ below L j := by
  rw [below, dif_pos h]

lemma below_eq (L : Fin n → List ν) (hj : j ≤ n) :
    below L j = ((List.finRange j).map (Fin.castLE hj)).reverse.flatMap
      fun i => (L i).reverse.map (i, ·) := by
  induction j with
  | zero => rfl
  | succ j ih =>
    rw [below_succ L hj, ih (by omega), finRange_succ_last]
    have hcast : Fin.castLE hj ∘ Fin.castSucc = Fin.castLE (show j ≤ n by omega) := rfl
    simp only [map_append, map_map, hcast, map_cons, map_nil,
      reverse_append, reverse_cons, reverse_nil, nil_append, cons_append,
      flatMap_cons]
    rfl

lemma order_eq_below (L : Fin n → List ν) : order L = below L n := by
  simp [below_eq L le_rfl, order]

variable {q : Fin n × ν} {pre suf : List (Fin n × ν)}

/-- The position in front of the lists below. -/
lemma head_below (hj : j ≤ n) {l : List (Fin n × ν)} (h : below L j = q :: l) :
    q.1 < j ∧ (L q.1).getLast? = some q.2 ∧ ∀ i : Fin n, q.1 < i → i < j → L i = [] := by
  induction j generalizing l with
  | zero => cases h
  | succ j ih =>
    rw [below_succ L hj] at h
    rcases eq_nil_or_concat (L ⟨j, hj⟩) with hnil | ⟨l', k, hk⟩
    · rw [hnil] at h
      obtain ⟨hlt, hlast, hbetween⟩ := ih (by omega) h
      refine ⟨by omega, hlast, fun i hi hij => ?_⟩
      rcases Nat.lt_succ_iff_lt_or_eq.1 hij with hlt' | heq
      · exact hbetween i hi hlt'
      · rw [← hnil]
        exact congrArg L (Fin.ext heq)
    · rw [concat_eq_append] at hk
      simp only [hk, reverse_append, reverse_cons, reverse_nil, nil_append,
        cons_append, map_cons, cons.injEq] at h
      obtain ⟨rfl, -⟩ := h
      refine ⟨Nat.lt_succ_self j, by simp [hk], fun i hi hij => ?_⟩
      exact absurd hij (by have : j < i.val := hi; omega)

/-- A position is in one of the lists further below, or in the last one with the nodes before
it still to come. -/
lemma split_below (hj : j < n)
    (h : below L (j + 1) = pre ++ p :: suf) :
    (∃ pre', below L j = pre' ++ p :: suf) ∨
      ∃ (l : List ν) (k : ν) (r : List ν), p = (⟨j, hj⟩, k) ∧ L ⟨j, hj⟩ = r.reverse ++ k :: l ∧
        suf = r.map (⟨j, hj⟩, ·) ++ below L j := by
  rw [below_succ L hj] at h
  rcases append_eq_append_iff.1 h with ⟨l, -, hl⟩ | ⟨l, hl, hrest⟩
  · exact .inl ⟨l, hl⟩
  cases l with
  | nil => exact .inl ⟨[], by simpa using hrest.symm⟩
  | cons p' l =>
    obtain ⟨rfl, rfl⟩ := hrest
    obtain ⟨r₁, r₂, hr, -, hr₂⟩ := map_eq_append_iff.1 hl
    obtain ⟨k, r, rfl, rfl, rfl⟩ := map_eq_cons_iff.1 hr₂
    refine .inr ⟨r₁.reverse, k, r, rfl, ?_, rfl⟩
    rw [← reverse_reverse (L ⟨j, hj⟩), hr]
    simp

/-- Two positions next to each other: in one list, or at the ends of two lists with only empty
ones between them. -/
lemma adjacent_below (hj : j ≤ n) {q : Fin n × ν}
    (h : below L j = pre ++ p :: q :: suf) :
    (p.1 = q.1 ∧ ∃ l₁ l₂, L q.1 = l₁ ++ q.2 :: p.2 :: l₂) ∨
      (q.1 < p.1 ∧ (L p.1).head? = some p.2 ∧ (L q.1).getLast? = some q.2 ∧
        ∀ i, q.1 < i → i < p.1 → L i = []) := by
  induction j generalizing pre with
  | zero => simp [below] at h
  | succ j ih =>
    obtain ⟨pre', hpre⟩ | ⟨l, k, r, rfl, hL, hsuf⟩ := split_below hj h
    · exact ih (by omega) hpre
    cases r with
    | nil =>
      obtain ⟨hlt, hlast, hbetween⟩ := head_below (by omega) hsuf.symm
      exact .inr ⟨hlt, by simp [hL], hlast, hbetween⟩
    | cons k' r =>
      obtain ⟨rfl, -⟩ := hsuf
      exact .inl ⟨rfl, r.reverse, l, by simp [hL]⟩

lemma mem_below (hj : j ≤ n) : p ∈ below L j ↔ p.1 < j ∧ p.2 ∈ L p.1 := by
  obtain ⟨i, k⟩ := p
  induction j with
  | zero => simp [below]
  | succ j ih =>
    rw [below_succ L hj, mem_append, ih (by omega), mem_map]
    constructor
    · rintro (⟨k', hk', heq⟩ | ⟨hlt, hk⟩)
      · cases heq
        exact ⟨Nat.lt_succ_self j, mem_reverse.1 hk'⟩
      · exact ⟨Nat.lt_succ_of_lt hlt, hk⟩
    · rintro ⟨hlt, hk⟩
      rcases Nat.lt_succ_iff_lt_or_eq.1 hlt with hlt | rfl
      · exact .inr ⟨hlt, hk⟩
      · exact .inl ⟨k, mem_reverse.2 hk, rfl⟩

theorem mem_order : p ∈ order L ↔ p.2 ∈ L p.1 := by
  rw [order_eq_below, mem_below le_rfl]
  exact and_iff_right p.1.isLt

lemma Lists.nodup_below (h : Lists m L) (hj : j ≤ n) : ((below L j).map Prod.snd).Nodup := by
  induction j with
  | zero => exact nodup_nil
  | succ j ih =>
    rw [below_succ L hj, map_append, map_map]
    refine nodup_append.2 ⟨?_, ih (by omega), ?_⟩
    · simpa [Function.comp_def] using (h.linked ⟨j, hj⟩).nodup
    · rintro k hk k' hk' rfl
      obtain ⟨p, hp, rfl⟩ := mem_map.1 hk'
      obtain ⟨hlt, hmem⟩ := (mem_below (by omega)).1 hp
      have hk : p.2 ∈ L ⟨j, hj⟩ := by simpa [Function.comp_def] using hk
      have heq := h.unique p.1 ⟨j, hj⟩ p.2 hmem hk
      rw [heq] at hlt
      exact absurd hlt (lt_irrefl j)

theorem Lists.nodup_order (h : Lists m L) : ((order L).map Prod.snd).Nodup := by
  rw [order_eq_below]
  exact h.nodup_below le_rfl

/-! ## Forward -/

lemma Lists.rbegin_eq (h : Lists m L) (i : Fin n) :
    m.listRbegin i = ⟨(L i).getLast?, .FROM_TAIL, i⟩ := by
  have htail : m.tail i = (L i).getLast? := (h.linked i).tail_eq
  rw [listRbegin, htail]

section Forward
variable [DecidableEq ν] {i : ℕ}

lemma Lists.skipEnds_rbegin (h : Lists m L) (hi : i < n) :
    m.skipEnds i hi (m.listRbegin ⟨i, hi⟩) = first (by omega) (below L (i + 1)) := by
  induction i with
  | zero =>
    rw [h.rbegin_eq, below_succ L hi]
    rcases eq_nil_or_concat (L ⟨0, hi⟩) with hnil | ⟨l, k, hk⟩
    · simp [hnil, skipEnds, listRend, below, first]
    · simp [hk, skipEnds, listRend, first, position]
  | succ i ih =>
    rw [h.rbegin_eq, below_succ L hi]
    rcases eq_nil_or_concat (L ⟨i + 1, hi⟩) with hnil | ⟨l, k, hk⟩
    · simpa [hnil, skipEnds, listRend] using ih (by omega)
    · simp [hk, skipEnds, listRend, first, position]

lemma Lists.skipEnds_rend (h : Lists m L) (hi : i < n) :
    m.skipEnds i hi (listRend ⟨i, hi⟩) = first (by omega) (below L i) := by
  cases i with
  | zero => simp [skipEnds, below, first]
  | succ i => simpa [skipEnds] using h.skipEnds_rbegin (show i < n by omega)

variable {pre suf : List (Fin n × ν)}

lemma Lists.goForward_below (h : Lists m L) (hn : 0 < n) {j : ℕ} (hj : j ≤ n)
    {p : Fin n × ν} (hsplit : below L j = pre ++ p :: suf) :
    m.goForward (position p) = some (first hn suf) := by
  induction j generalizing pre with
  | zero => simp [below] at hsplit
  | succ j ih =>
    have hlt : j < n := hj
    obtain ⟨pre', hpre⟩ | ⟨l, k, r, rfl, hL, rfl⟩ := split_below hlt hsplit
    · exact ih (by omega) hpre
    have hlinked := h.linked ⟨j, hlt⟩
    rw [hL] at hlinked
    have hprev : m.prev k = r.head? := by
      rw [← getLast?_reverse]
      exact hlinked.prev_eq
    simp only [goForward, position, dif_pos hlt, increment, Option.bind_some, hprev]
    cases r with
    | nil => exact congrArg some (h.skipEnds_rend hlt)
    | cons k' r => cases j <;> simp [skipEnds, listRend, first, position]

lemma Lists.visit_eq (h : Lists m L) (hn : 0 < n) {fuel : ℕ}
    (hsplit : order L = pre ++ suf) (hfuel : suf.length < fuel) :
    m.visit fuel (first hn suf) = some (suf.map Prod.snd) := by
  induction suf generalizing pre fuel with
  | nil =>
    obtain ⟨fuel, rfl⟩ := Nat.exists_eq_succ_of_ne_zero (by omega : fuel ≠ 0)
    simp [visit, first, rend, hn]
  | cons p suf ih =>
    obtain ⟨fuel, rfl⟩ := Nat.exists_eq_succ_of_ne_zero (by omega : fuel ≠ 0)
    have hnext := h.goForward_below hn le_rfl (order_eq_below L ▸ hsplit)
    have hsplit' : order L = (pre ++ [p]) ++ suf := by simpa using hsplit
    have hrest : m.visit fuel (first hn suf) = some (suf.map Prod.snd) :=
      ih hsplit' (by simpa using hfuel)
    have hne : rend ≠ some (position p) := by simp [rend, hn, position]
    rw [first, visit, if_neg hne]
    change (some p.2).bind _ = _
    rw [Option.bind_some, hnext, Option.bind_some, hrest]
    rfl

omit [DecidableEq ν] in
lemma Lists.length_below (h : Lists m L) {j : ℕ} (hj : j ≤ n) :
    (below L j).length = ∑ i ∈ Finset.range j, if hi : i < n then m.size ⟨i, hi⟩ else 0 := by
  induction j with
  | zero => rfl
  | succ j ih =>
    have hlt : j < n := hj
    have hsize : m.size ⟨j, hlt⟩ = (L ⟨j, hlt⟩).length := (h.linked ⟨j, hlt⟩).size
    rw [below_succ L hlt, length_append, ih hlt.le, Finset.sum_range_succ, dif_pos hlt, hsize,
      length_map, length_reverse, Nat.add_comm]

omit [DecidableEq ν] in
lemma Lists.length_order (h : Lists m L) : (order L).length = m.totalSize := by
  rw [order_eq_below, h.length_below le_rfl, totalSize, Finset.sum_fin_eq_sum_range]

omit [DecidableEq ν] in
lemma Lists.initToValidRBeginFrom_eq (h : Lists m L) (hi : i < n) :
    m.initToValidRBeginFrom i hi = first (by omega) (below L (i + 1)) := by
  have hsize : ∀ j, m.size j = (L j).length := fun j => (h.linked j).size
  induction i with
  | zero =>
    rw [below_succ L hi]
    rcases eq_nil_or_concat (L ⟨0, hi⟩) with hnil | ⟨l, k, hk⟩
    · simp [initToValidRBeginFrom, lastNonEmpty, hsize, hnil, below, first]
    · simp [initToValidRBeginFrom, lastNonEmpty, hsize, hk, first, position, h.rbegin_eq]
  | succ i ih =>
    rw [below_succ L hi]
    rcases eq_nil_or_concat (L ⟨i + 1, hi⟩) with hnil | ⟨l, k, hk⟩
    · simpa [initToValidRBeginFrom, lastNonEmpty, hsize, hnil] using ih (by omega)
    · simp [initToValidRBeginFrom, lastNonEmpty, hsize, hk, first, position, h.rbegin_eq]

theorem Lists.iterate_eq (h : Lists m L) (hn : 0 < n) :
    m.iterate = some ((order L).map Prod.snd) := by
  have hbegin : m.rbegin = some (first hn (order L)) := by
    rw [rbegin, dif_pos hn, h.initToValidRBeginFrom_eq, order_eq_below, Nat.sub_add_cancel hn]
  have hvisit : m.visit (m.totalSize + 1) (first hn (order L)) = some ((order L).map Prod.snd) :=
    h.visit_eq hn (nil_append (order L)).symm (by rw [h.length_order]; omega)
  rw [iterate, hbegin, Option.bind_some, hvisit]

end Forward

/-! ## Backward -/

section Backward
variable [DecidableEq ν]

omit [DecidableEq ν] in
lemma Lists.head_eq (h : Lists m L) (i : Fin n) : m.head i = (L i).head? := (h.linked i).head_eq

lemma skipBegins_index (m : MultiDList (Fin n) ν) (k i : ℕ) (it : DListIterator (Fin n) ν) :
    ∃ i', (m.skipBegins k i it).index = some i' ∧ i ≤ i' := by
  induction k generalizing i it with
  | zero => exact ⟨i, rfl, le_rfl⟩
  | succ k ih =>
    rw [skipBegins]
    split_ifs with hi hit hi'
    · obtain ⟨i', heq, hle⟩ := ih (i + 1) ⟨m.head ⟨i + 1, hi'⟩, .FROM_TAIL, ⟨i + 1, hi'⟩⟩
      exact ⟨i', heq, by omega⟩
    · obtain ⟨i', heq, hle⟩ := ih (i + 1) it
      exact ⟨i', heq, by omega⟩
    · exact ⟨i, rfl, le_rfl⟩
    · exact ⟨i, rfl, le_rfl⟩

variable {i : ℕ}

lemma skipBegins_leaves (m : MultiDList (Fin n) ν) (k : ℕ) (hi : i < n) :
    ∃ i', (m.skipBegins (k + 1) i (m.listRbegin ⟨i, hi⟩)).index = some i' ∧ i < i' := by
  rw [skipBegins, dif_pos hi, if_pos rfl]
  split_ifs with hi'
  · exact m.skipBegins_index k (i + 1) _
  · exact m.skipBegins_index k (i + 1) _

variable {k : ℕ}

/-- The loop does not stop at a list with one node, since its head is its tail. -/
lemma Lists.skipBegins_short (h : Lists m L) (hi : i + 1 < n)
    (hshort : (L ⟨i + 1, hi⟩).length ≤ 1) :
    m.skipBegins (k + 1) i (m.listRbegin ⟨i, by omega⟩) =
      m.skipBegins k (i + 1) (m.listRbegin ⟨i + 1, hi⟩) := by
  have hends : (L ⟨i + 1, hi⟩).head? = (L ⟨i + 1, hi⟩).getLast? := by
    rcases hL : L ⟨i + 1, hi⟩ with _ | ⟨a, _ | ⟨b, l⟩⟩
    · rfl
    · rfl
    · rw [hL] at hshort
      simp at hshort
  rw [skipBegins, dif_pos (by omega), if_pos rfl, dif_pos hi, h.head_eq, hends, ← h.rbegin_eq]

lemma Lists.skipBegins_long (h : Lists m L) (hi : i + 1 < n)
    (hlong : 1 < (L ⟨i + 1, hi⟩).length) :
    m.skipBegins (k + 2) i (m.listRbegin ⟨i, by omega⟩) =
      ⟨some (i + 1), ⟨(L ⟨i + 1, hi⟩).head?, .FROM_TAIL, ⟨i + 1, hi⟩⟩⟩ := by
  have hne : (L ⟨i + 1, hi⟩).head? ≠ (L ⟨i + 1, hi⟩).getLast? := by
    have hnodup := (h.linked ⟨i + 1, hi⟩).nodup
    rcases hL : L ⟨i + 1, hi⟩ with _ | ⟨a, _ | ⟨b, l⟩⟩
    · simp [hL] at hlong
    · simp [hL] at hlong
    · rw [hL] at hnodup
      intro heq
      exact (nodup_cons.1 hnodup).1 (mem_of_getLast? heq.symm)
  rw [skipBegins, dif_pos (by omega), if_pos rfl, dif_pos hi, h.head_eq, skipBegins, dif_pos hi,
    if_neg]
  rw [h.rbegin_eq]
  exact fun heq => hne (congrArg DListIterator.curr heq)

lemma Lists.skipBegins_gap (h : Lists m L) (d : ℕ) (hd : i + d < n)
    (hempty : ∀ j : Fin n, i < j → j.val ≤ i + d → L j = []) :
    m.skipBegins (n - i) i (m.listRbegin ⟨i, by omega⟩) =
      m.skipBegins (n - (i + d)) (i + d) (m.listRbegin ⟨i + d, hd⟩) := by
  induction d with
  | zero => rfl
  | succ d ih =>
    have hshort : (L ⟨i + d + 1, hd⟩).length ≤ 1 := by
      rw [hempty ⟨i + d + 1, hd⟩ (by simp) (by simp)]
      exact Nat.zero_le 1
    rw [ih (by omega) fun j hj hle => hempty j hj (by omega),
      show n - (i + d) = n - (i + d + 1) + 1 by omega]
    exact h.skipBegins_short hd hshort

/-- `--` goes back to the position before, unless that is the only node of another list. -/
theorem Lists.goBackward_iff (h : Lists m L) {pre suf : List (Fin n × ν)} {p q : Fin n × ν}
    (hsplit : order L = pre ++ p :: q :: suf) :
    m.goBackward (position q) = some (position p) ↔ p.1 = q.1 ∨ (L p.1).length ≠ 1 := by
  rw [order_eq_below] at hsplit
  obtain ⟨heq, l₁, l₂, hL⟩ | ⟨hlt, hhead, hlast, hempty⟩ := adjacent_below le_rfl hsplit
  · refine iff_of_true ?_ (.inl heq)
    have hlinked := h.linked q.1
    rw [hL] at hlinked
    have hnext : m.next q.2 = some p.2 := hlinked.next_eq
    have hne : (⟨some q.2, .FROM_TAIL, q.1⟩ : DListIterator (Fin n) ν) ≠ m.listRbegin q.1 := by
      rw [h.rbegin_eq, hL]
      intro heq
      have hcurr := congrArg DListIterator.curr heq
      have hnodup := (nodup_append.1 hlinked.nodup).2.1
      have hmem : q.2 ∈ p.2 :: l₂ := mem_of_getLast? (by simpa using hcurr.symm)
      exact (nodup_cons.1 hnodup).1 hmem
    simp only [goBackward, position, if_neg (Nat.ne_of_lt q.1.isLt), dif_pos q.1.isLt, if_pos hne,
      decrement, Option.bind_some, hnext, heq]
  · rw [or_iff_right (Fin.ne_of_gt hlt)]
    have hcurr : (⟨some q.2, .FROM_TAIL, q.1⟩ : DListIterator (Fin n) ν) = m.listRbegin q.1 := by
      rw [h.rbegin_eq, hlast]
    have hback : m.goBackward (position q) =
        some (m.skipBegins (n - q.1) q.1 (m.listRbegin q.1)) := by
      simp only [goBackward, position, if_neg (Nat.ne_of_lt q.1.isLt), dif_pos q.1.isLt, hcurr,
        ne_eq, not_true_eq_false, if_false]
    obtain ⟨⟨j, hj⟩, k⟩ := p
    obtain ⟨d, rfl⟩ : ∃ d, j = q.1 + d + 1 := ⟨j - q.1 - 1, by have : q.1.val < j := hlt; omega⟩
    have hgap := h.skipBegins_gap (i := q.1) d (by omega) fun i hi hle => hempty i hi (by
      rw [Fin.lt_def]
      simp only
      omega)
    rw [hback, hgap, Option.some.injEq]
    by_cases hlong : 1 < (L ⟨q.1 + d + 1, hj⟩).length
    · refine iff_of_true ?_ (Nat.ne_of_gt hlong)
      rw [show n - (q.1 + d) = n - (q.1 + d) - 2 + 2 by omega, h.skipBegins_long hj hlong, hhead]
      rfl
    · have hone : (L ⟨q.1 + d + 1, hj⟩).length = 1 := by
        have hne : L ⟨q.1 + d + 1, hj⟩ ≠ [] := by
          intro hnil
          rw [hnil] at hhead
          cases hhead
        have := length_pos_iff.2 hne
        omega
      refine iff_of_false ?_ (not_not_intro hone)
      -- the loop has gone past the list
      rw [show n - (q.1 + d) = n - (q.1 + d) - 2 + 1 + 1 by omega, h.skipBegins_short hj hone.le]
      obtain ⟨i', hindex, hlt'⟩ := m.skipBegins_leaves (n - (q.1 + d) - 2) hj
      intro heq
      rw [heq] at hindex
      exact absurd (Option.some.inj hindex) (Nat.ne_of_lt hlt')

end Backward

/-! ## Both directions -/

/-- The iteration visits every node once, from the last list to the first and from tail to head,
exactly if there is a list. `++` leads from each position to the next one, and `--` leads back
exactly if both are in one list or the earlier one is not the only node of its list. -/
theorem iteration_reversible_iff [DecidableEq ν] (h : Lists m L) :
    (m.iterate = some ((order L).map Prod.snd) ↔ 0 < n) ∧
      ((order L).map Prod.snd).Nodup ∧ (∀ p, p ∈ order L ↔ p.2 ∈ L p.1) ∧
      ∀ pre p q suf, order L = pre ++ p :: q :: suf → m.goForward (position p) = some (position q) ∧
          (m.goBackward (position q) = some (position p) ↔ p.1 = q.1 ∨ (L p.1).length ≠ 1) := by
  refine ⟨⟨fun hiterate => ?_, h.iterate_eq⟩, h.nodup_order, fun _ => mem_order, ?_⟩
  · by_contra hn
    simp [iterate, rbegin, hn] at hiterate
  · intro pre p q suf hsplit
    exact ⟨h.goForward_below (Nat.zero_lt_of_lt p.1.isLt) le_rfl (order_eq_below L ▸ hsplit),
      h.goBackward_iff hsplit⟩

def twoAndOne : MultiDList (Fin 3) ℕ :=
  ((empty.edit 2 (·.linkAtHead 1)).edit 2 (·.linkAtHead 2)).edit 0 (·.linkAtHead 3)

theorem twoAndOne_reversible : twoAndOne.iterate = some [1, 2, 3] ∧
      twoAndOne.goBackward (position (0, 3)) = some (position (2, 2)) := by
  have h := (((lists_empty.linkAtHead (2 : Fin 3) (n := 1) (by decide)).linkAtHead 2 (n := 2)
    (by decide)).linkAtHead 0 (n := 3) (by decide))
  obtain ⟨hiterate, -, -, hsteps⟩ := iteration_reversible_iff h
  exact ⟨hiterate.2 (by decide), (hsteps [(2, 1)] (2, 2) (0, 3) [] (by decide)).2.2 (by decide)⟩

/-- With one node in each of two lists, `--` does not come back from the second position: the
iterator leaves the lists. Without any list there is no iteration. -/
theorem singleton_list_skipped :
    let m : MultiDList (Fin 2) ℕ := (empty.edit 1 (·.linkAtHead 1)).edit 0 (·.linkAtHead 0)
    m.iterate = some [1, 0] ∧ m.goForward (position (1, 1)) = some (position (0, 0)) ∧
      m.goBackward (position (0, 0)) = some ⟨some 2, ⟨some 1, .FROM_TAIL, 1⟩⟩ ∧
      (empty : MultiDList (Fin 0) ℕ).iterate = none := by
  decide

end MultiDList
end HybridCache

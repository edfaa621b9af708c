import HybridCache.MMLru

/-!
# The insertion point of the LRU container

The list is cut as `l₁ ++ l₂` where `l₂` is the tail: the flagged nodes, counted by
`tailSize`, with the insertion point at their head. The tail never holds more than half
of a list of two or more nodes. Therefore a node before the insertion point exists
whenever the insertion point itself is about to leave a list of two or more nodes.
-/
namespace HybridCache.MMLru

open DList IntrusiveList Container List Option

variable {ν : Type*}

/-- The list is `l₁ ++ l₂` and the flagged and counted nodes are those of `l₂`. -/
structure TailSplit (s : Container ν) (l₁ l₂ : List ν) : Prop where
  linked : s.lru.Linked (l₁ ++ l₂)
  size : s.tailSize = l₂.length
  flagged : ∀ n, s.isTail n = true ↔ n ∈ l₂

/-- The two containers differ at most in the tail. -/
def SameButTail (s t : Container ν) : Prop :=
  t = { s with isTail := t.isTail, tailSize := t.tailSize, insertionPoint := t.insertionPoint }

variable [DecidableEq ν]

section Loops

variable {l₁ l₂ : List ν} {s : Container ν}

variable {c p : ν}

omit [DecidableEq ν] in
/-- A node of the second part has a node before it unless the first part is empty. -/
lemma head_ne {d : DList ν} (h : d.Linked (l₁ ++ [p] ++ c :: l₂)) : some c ≠ d.head := by
  intro he
  have := h.head_iff.1 he.symm
  simp at this

lemma markTail_split (h : TailSplit s (l₁ ++ [p]) l₂) :
    TailSplit { s.markTail p with tailSize := s.tailSize + 1 } l₁ (p :: l₂) := by
  refine ⟨?_, congrArg (· + 1) h.size, ?_⟩
  · have := h.linked
    rw [append_assoc] at this
    exact this
  · intro n
    by_cases hn : n = p
    · simp [markTail, hn]
    · simp [markTail, hn, h.flagged]

lemma unmarkTail_split (h : TailSplit s l₁ (c :: l₂)) :
    TailSplit { s.unmarkTail c with tailSize := s.tailSize - 1 } (l₁ ++ [c]) l₂ := by
  have hc : c ∉ l₂ := (nodup_cons.1 (nodup_append.1 h.linked.nodup).2.1).1
  refine ⟨?_, ?_, ?_⟩
  · rw [append_assoc]
    exact h.linked
  · simp [h.size]
  · intro n
    by_cases hn : n = c
    · simp [unmarkTail, hn, hc]
    · simp [unmarkTail, hn, h.flagged]

lemma growTail_spec (h : TailSplit s l₁ l₂) (hne : l₂ ≠ [])
    (k : ℕ) : ∃ t m₁ m₂, s.growTail l₂.head? k = some (t, m₂.head?) ∧ TailSplit t m₁ m₂ ∧
      m₁ ++ m₂ = l₁ ++ l₂ ∧ m₂.length = min (l₂.length + k) (l₁ ++ l₂).length ∧
      SameButTail s t := by
  induction k generalizing s l₁ l₂ with
  | zero => exact ⟨s, l₁, l₂, rfl, h, rfl, by simp, rfl⟩
  | succ k ih =>
    obtain ⟨c, r, rfl⟩ := exists_cons_of_ne_nil hne
    rw [growTail]
    rcases eq_nil_or_concat l₁ with rfl | ⟨l, p, rfl⟩
    · rw [if_pos (show (c :: r).head? = s.lru.head from h.linked.head_eq.symm)]
      exact ⟨s, [], c :: r, rfl, h, rfl, by simp, rfl⟩
    · rw [concat_eq_append] at h ⊢
      have hprev : s.lru.prev c = some p := by
        rw [h.linked.prev_eq, getLast?_concat]
      rw [head?_cons, if_neg (head_ne h.linked), bind_some, hprev, bind_some]
      obtain ⟨t, m₁, m₂, ht, hsplit, hl, hlen, hsame⟩ := ih (markTail_split h) (by simp)
      refine ⟨t, m₁, m₂, ht, hsplit, by simpa using hl, ?_, ?_⟩
      · rw [hlen]
        simp only [length_append, length_cons, length_nil]
        omega
      · rw [SameButTail, hsame]
        rfl

lemma shrinkTail_spec (h : TailSplit s l₁ l₂) (hne : l₂ ≠ [])
    (k : ℕ) : ∃ t m₁ m₂, s.shrinkTail l₂.head? k = some (t, m₂.head?) ∧ TailSplit t m₁ m₂ ∧
      m₁ ++ m₂ = l₁ ++ l₂ ∧ m₂.length = max (l₂.length - k) 1 ∧ SameButTail s t := by
  induction k generalizing s l₁ l₂ with
  | zero =>
    have := length_pos_of_ne_nil hne
    exact ⟨s, l₁, l₂, rfl, h, rfl, by omega, rfl⟩
  | succ k ih =>
    obtain ⟨c, r, rfl⟩ := exists_cons_of_ne_nil hne
    rw [shrinkTail, h.linked.tail_eq]
    cases r with
    | nil =>
      rw [if_pos (by simp)]
      exact ⟨s, l₁, [c], rfl, h, rfl, by simp, rfl⟩
    | cons q r =>
      have hlast : some c ≠ (l₁ ++ c :: q :: r).getLast? := by
        rw [getLast?_append_cons, getLast?_cons_cons]
        intro he
        exact (nodup_cons.1 (nodup_append.1 h.linked.nodup).2.1).1 (mem_of_getLast? he.symm)
      rw [head?_cons, if_neg hlast, bind_some, h.linked.next_eq]
      obtain ⟨t, m₁, m₂, ht, hsplit, hl, hlen, hsame⟩ := ih (unmarkTail_split h) (by simp)
      refine ⟨t, m₁, m₂, ht, hsplit, by simpa using hl, ?_, ?_⟩
      · rw [hlen]
        simp only [length_cons]
        omega
      · rw [SameButTail, hsame]
        rfl

lemma clearTail_spec (h : TailSplit s l₁ l₂) :
    ∃ t, s.clearTail l₂.head? l₂.length = some t ∧ TailSplit t (l₁ ++ l₂) [] ∧ SameButTail s t := by
  induction l₂ generalizing s l₁ with
  | nil =>
    refine ⟨s, rfl, ?_, rfl⟩
    rw [append_nil]
    exact h
  | cons c r ih =>
    have hsplit := unmarkTail_split h
    have hsize : s.tailSize - 1 = r.length := hsplit.size
    rw [hsize] at hsplit
    obtain ⟨t, ht, htail, hsame⟩ := ih hsplit
    refine ⟨t, ?_, by simpa using htail, ?_⟩
    · rw [length_cons, clearTail, head?_cons, bind_some, h.linked.next_eq]
      exact ht
    · rw [SameButTail, hsame]
      rfl

end Loops

def tailTarget (spec n : ℕ) : ℕ := if n = 0 then 0 else max 1 (n >>> spec)

lemma tailTarget_le {spec n : ℕ} (hspec : spec ≠ 0) : tailTarget spec n ≤ max 1 (n / 2) := by
  have hle : n >>> spec ≤ n / 2 := by
    rw [Nat.shiftRight_eq_div_pow]
    exact Nat.div_le_div_left (Nat.le_self_pow hspec 2) (by norm_num)
  rw [tailTarget]
  split_ifs <;> omega

variable {l₁ l₂ : List ν} {s : Container ν}

section
variable (h : TailSplit s l₁ l₂) (hpoint : s.insertionPoint = l₂.head?)
include h hpoint

lemma startTail_spec :
    ∃ m₁ m₂, TailSplit s.startTail m₁ m₂ ∧ s.startTail.insertionPoint = m₂.head? ∧
      m₁ ++ m₂ = l₁ ++ l₂ ∧ (m₂ = [] → l₁ ++ l₂ = []) ∧ SameButTail s s.startTail := by
  cases l₂ with
  | cons c r =>
    have hstart : s.startTail = s := by rw [startTail, hpoint]; rfl
    rw [hstart]
    exact ⟨l₁, c :: r, h, hpoint, rfl, by simp, rfl⟩
  | nil =>
    have hsize : s.tailSize = 0 := h.size
    rcases eq_nil_or_concat l₁ with rfl | ⟨l, p, rfl⟩
    · have htail : s.lru.tail = none := h.linked.tail_eq
      have hstart : s.startTail = s := by
        rw [startTail, hpoint, head?_nil, htail, ← hsize]
        show { s with insertionPoint := none } = s
        rw [← show s.insertionPoint = none from hpoint]
      rw [hstart]
      exact ⟨[], [], h, hpoint, rfl, fun _ => rfl, rfl⟩
    · rw [concat_eq_append] at h ⊢
      have htail : s.lru.tail = some p := by rw [h.linked.tail_eq]; simp
      have hstart : s.startTail =
          { s.markTail p with insertionPoint := some p, tailSize := s.tailSize + 1 } := by
        rw [startTail, hpoint, head?_nil, htail, hsize]
      have hsplit := markTail_split h
      rw [hstart]
      refine ⟨l, [p], ⟨hsplit.linked, hsplit.size, hsplit.flagged⟩, rfl, by simp, by simp, rfl⟩

/-- After `updateLruInsertionPoint` the tail has the length that the list asks for. -/
lemma updateLruInsertionPoint_spec (hspec : s.config.lruInsertionPointSpec ≠ 0) :
    ∃ t m₁ m₂, s.updateLruInsertionPoint = some t ∧ TailSplit t m₁ m₂ ∧
      t.insertionPoint = m₂.head? ∧ m₁ ++ m₂ = l₁ ++ l₂ ∧
      m₂.length = tailTarget s.config.lruInsertionPointSpec (l₁ ++ l₂).length ∧
      SameButTail s t := by
  obtain ⟨k₁, k₂, hk, hkpoint, hkl, hkne, hksame⟩ := startTail_spec h hpoint
  have hconfig : s.startTail.config = s.config := by rw [hksame]
  have hsize : s.startTail.lru.size = (l₁ ++ l₂).length := by rw [hk.linked.size, hkl]
  have hklen : k₁.length + k₂.length = (l₁ ++ l₂).length := by
    rw [← length_append, hkl]
  rw [updateLruInsertionPoint, if_neg hspec]
  by_cases hsmall : s.startTail.lru.size ≤ 1
  · refine ⟨s.startTail, k₁, k₂, if_pos hsmall, hk, hkpoint, hkl, ?_, hksame⟩
    have hshift : 1 >>> s.config.lruInsertionPointSpec ≤ 1 := by
      rw [Nat.shiftRight_eq_div_pow]
      exact Nat.div_le_self _ _
    rw [tailTarget]
    split_ifs with hzero
    · omega
    · have hne : k₂ ≠ [] := fun he => hzero (by rw [hkne he]; rfl)
      have := length_pos_of_ne_nil hne
      rw [show (l₁ ++ l₂).length = 1 by omega]
      omega
  · have hne : k₂ ≠ [] := by
      intro he
      rw [hsize, hkne he] at hsmall
      exact hsmall (by simp)
    have htwo := tailTarget_le (n := (l₁ ++ l₂).length) hspec
    have hpos : (l₁ ++ l₂).length ≠ 0 := by omega
    rw [tailTarget, if_neg hpos] at htwo ⊢
    have hk₂ := length_pos_of_ne_nil hne
    have hkt := hk.size
    rw [hsize] at hsmall
    simp only [hkpoint, hconfig, hsize]
    set expected := (l₁ ++ l₂).length >>> s.config.lruInsertionPointSpec
    obtain ⟨u, u₁, u₂, hu, husplit, hul, hulen, husame⟩ :=
      growTail_spec hk hne (expected - s.startTail.tailSize)
    have hune : u₂ ≠ [] := by
      rw [← length_pos_iff, hulen, length_append]
      omega
    obtain ⟨v, v₁, v₂, hv, hvsplit, hvl, hvlen, hvsame⟩ :=
      shrinkTail_spec husplit hune (u.tailSize - expected)
    refine ⟨{ v with insertionPoint := v₂.head? }, v₁, v₂, ?_, ?_, rfl, ?_, ?_, ?_⟩
    · rw [if_neg hsmall, hu, bind_some, hv, map_some]
    · exact ⟨hvsplit.linked, hvsplit.size, hvsplit.flagged⟩
    · rw [hvl, hul, hkl]
    · rw [hvlen, husplit.size, hulen, length_append, hkt]
      omega
    · rw [SameButTail, hvsame, husame, hksame]

end

structure Good (s : Container ν) (l : List ν) : Prop where
  member : ∀ n, s.isInMMContainer n = true ↔ n ∈ l
  off : s.config.lruInsertionPointSpec = 0 → s.insertionPoint = none
  tail : ∃ l₁ l₂, l = l₁ ++ l₂ ∧ TailSplit s l₁ l₂ ∧ s.insertionPoint = l₂.head? ∧
    l₂.length ≤ max 1 (l.length / 2)

def Settled (s : Container ν) : Prop :=
  s.config.lruInsertionPointSpec ≠ 0 →
    s.tailSize = tailTarget s.config.lruInsertionPointSpec s.lru.size

variable {l : List ν} {t : Container ν}

omit [DecidableEq ν] in
lemma Good.linked (h : Good s l) : s.lru.Linked l := by
  obtain ⟨l₁, l₂, rfl, hsplit, -, -⟩ := h.tail
  exact hsplit.linked

/-- Every operation that edits the list ends with `updateLruInsertionPoint`. -/
lemma updateLruInsertionPoint_good (h : TailSplit s l₁ l₂) (hpoint : s.insertionPoint = l₂.head?)
    (hoff : s.config.lruInsertionPointSpec = 0 → l₂ = [])
    (hmember : ∀ n, s.isInMMContainer n = true ↔ n ∈ l₁ ++ l₂) :
    ∃ t, s.updateLruInsertionPoint = some t ∧ Good t (l₁ ++ l₂) ∧ t.config = s.config ∧
      Settled t := by
  by_cases hspec : s.config.lruInsertionPointSpec = 0
  · have hnil := hoff hspec
    subst hnil
    refine ⟨s, by rw [updateLruInsertionPoint, if_pos hspec], ⟨hmember, fun _ => hpoint, ?_⟩,
      rfl, fun hne => absurd hspec hne⟩
    exact ⟨l₁, [], rfl, h, hpoint, by simp⟩
  · obtain ⟨t, m₁, m₂, ht, hsplit, htpoint, hl, hlen, hsame⟩ :=
      updateLruInsertionPoint_spec h hpoint hspec
    have hconfig : t.config = s.config := by rw [hsame]
    have hlist : t.isInMMContainer = s.isInMMContainer := by rw [hsame]
    refine ⟨t, ht, ⟨?_, ?_, m₁, m₂, hl.symm, hsplit, htpoint, ?_⟩, hconfig, ?_⟩
    · intro n
      rw [hlist]
      exact hmember n
    · intro he
      rw [hconfig] at he
      exact absurd he hspec
    · rw [hlen]
      exact tailTarget_le hspec
    · intro _
      rw [hsplit.size, hlen, hconfig, hsplit.linked.size, hl]

def SameList (s t : Container ν) : Prop :=
  t = { s with
    nextReconfigureTime := t.nextReconfigureTime, lruRefreshTime := t.lruRefreshTime,
    isAccessed := t.isAccessed, updateTime := t.updateTime }

omit [DecidableEq ν] in
lemma Good.of_sameList (h : Good s l) (hsame : SameList s t) :
    Good t l := by
  rw [hsame]
  obtain ⟨hmember, hoff, l₁, l₂, hl, hsplit, hpoint, hhalf⟩ := h
  exact ⟨hmember, hoff, l₁, l₂, hl, ⟨hsplit.linked, hsplit.size, hsplit.flagged⟩, hpoint, hhalf⟩

omit [DecidableEq ν] in
lemma Settled.of_sameList (h : Settled s) (hsame : SameList s t) : Settled t := by
  rw [hsame]
  exact h

omit [DecidableEq ν] in
lemma reconfigureLocked_same (s : Container ν) (curr now : ℕ) :
    SameList s (s.reconfigureLocked curr now) := by
  rw [reconfigureLocked]
  split_ifs <;> rfl

lemma checkAccess_same (s : Container ν) (node : ν) (mode : AccessMode) (curr : ℕ) :
    SameList s (s.checkAccess node mode curr).2 := by
  rw [checkAccess]
  split_ifs <;> rfl

section Leaving

lemma erase_append_of_nodup {l₁ l₂ : List ν} (hnd : (l₁ ++ l₂).Nodup) (n : ν) :
    (l₁ ++ l₂).erase n = l₁.erase n ++ l₂.erase n := by
  rw [erase_append]
  split_ifs with hn
  · have hn₂ : n ∉ l₂ := fun h => (nodup_append.1 hnd).2.2 n hn n h rfl
    rw [erase_of_not_mem hn₂]
  · rw [erase_of_not_mem hn]

/-- When `node` is about to leave its place, the insertion point is the first other node of
a tail that was extended if `node` was the insertion point. -/
lemma ensureNotInsertionPoint_spec {s : Container ν} {l : List ν} (h : Good s l) (node : ν) :
    ∃ l₁ l₂, l = l₁ ++ l₂ ∧ TailSplit (s.ensureNotInsertionPoint node) l₁ l₂ ∧
      (s.ensureNotInsertionPoint node).insertionPoint = (l₂.erase node).head? ∧
      (s.config.lruInsertionPointSpec = 0 → l₂ = []) ∧
      SameButTail s (s.ensureNotInsertionPoint node) ∧
      (node ∉ l₂ → s.ensureNotInsertionPoint node = s ∧ l₂.length ≤ max 1 (l.length / 2)) := by
  obtain ⟨-, hoff, l₁, l₂, rfl, hsplit, hpoint, hhalf⟩ := h
  rw [ensureNotInsertionPoint]
  by_cases hnode : s.insertionPoint = some node
  · rw [if_pos hnode]
    have hspec : s.config.lruInsertionPointSpec ≠ 0 := fun he => by
      rw [hoff he] at hnode
      cases hnode
    obtain ⟨r, rfl⟩ : ∃ r, l₂ = node :: r := by
      rw [hpoint] at hnode
      exact head?_eq_some_iff.1 hnode
    rw [hsplit.linked.prev_eq]
    rcases eq_nil_or_concat l₁ with rfl | ⟨l, p, rfl⟩
    · -- the whole list is in the tail, so it has one node
      have hr : r = [] := by
        rw [nil_append, length_cons] at hhalf
        exact length_eq_zero_iff.1 (by omega)
      subst hr
      exact ⟨[], [node], rfl, ⟨hsplit.linked, hsplit.size, hsplit.flagged⟩, by simp,
        fun he => absurd he hspec, rfl, by simp⟩
    · rw [concat_eq_append] at hsplit ⊢
      have hne : p ≠ node := by
        rintro rfl
        exact (nodup_append.1 hsplit.linked.nodup).2.2 p (by simp) p (by simp) rfl
      have hmarked := markTail_split hsplit
      rw [getLast?_concat]
      refine ⟨l, p :: node :: r, by simp, ⟨hmarked.linked, hmarked.size, hmarked.flagged⟩, ?_,
        fun he => absurd he hspec, rfl, by simp⟩
      rw [erase_cons_tail (by simpa using hne)]
      rfl
  · rw [if_neg hnode]
    refine ⟨l₁, l₂, rfl, hsplit, ?_, ?_, rfl, fun _ => ⟨rfl, hhalf⟩⟩
    · cases l₂ with
      | nil => exact hpoint
      | cons c r =>
        have hne : c ≠ node := by
          rintro rfl
          exact hnode hpoint
        rw [erase_cons_tail (by simpa using hne)]
        exact hpoint
    · intro he
      rw [hoff he] at hpoint
      exact head?_eq_none_iff.1 hpoint.symm

lemma leaveTail_spec {s : Container ν} {l₁ l₂ m : List ν} (h : TailSplit s l₁ l₂) {node : ν}
    {d : DList ν} (hd : d.Linked (m ++ l₂.erase node)) :
    TailSplit ({ s with lru := d }.leaveTail node) m (l₂.erase node) := by
  have hnd : l₂.Nodup := (nodup_append.1 h.linked.nodup).2.1
  rw [leaveTail]
  by_cases hnode : s.isTail node = true
  · rw [if_pos hnode]
    have hmem := (h.flagged node).1 hnode
    refine ⟨hd, ?_, ?_⟩
    · rw [length_erase_of_mem hmem, ← h.size]
    · intro n
      rw [hnd.mem_erase_iff, ← h.flagged n]
      by_cases hn : n = node
      · simp [unmarkTail, hn]
      · simp [unmarkTail, hn]
  · rw [if_neg hnode]
    have hmem : node ∉ l₂ := fun hm => hnode ((h.flagged node).2 hm)
    rw [erase_of_not_mem hmem] at hd ⊢
    exact ⟨hd, h.size, h.flagged⟩

end Leaving

section Operations

section
variable (s : Container ν) (node : ν)

@[simp] lemma leaveTail_insertionPoint :
    (s.leaveTail node).insertionPoint = s.insertionPoint := by
  rw [leaveTail]
  split_ifs <;> rfl

@[simp] lemma leaveTail_config :
    (s.leaveTail node).config = s.config := by
  rw [leaveTail]
  split_ifs <;> rfl

@[simp] lemma leaveTail_isInMMContainer :
    (s.leaveTail node).isInMMContainer = s.isInMMContainer := by
  rw [leaveTail]
  split_ifs <;> rfl

end

variable {node : ν} {s : Container ν}

variable {l : List ν}

lemma removeLocked_good (h : Good s l) (hnode : node ∈ l) :
    ∃ t, s.removeLocked node = some t ∧ Good t (l.erase node) ∧ t.config = s.config ∧
      Settled t := by
  have hmember := h.member
  have hnd := h.linked.nodup
  obtain ⟨l₁, l₂, rfl, hsplit, hpoint, hoff, hsame, -⟩ := ensureNotInsertionPoint_spec h node
  rw [erase_append_of_nodup hnd, removeLocked]
  set u := s.ensureNotInsertionPoint node
  have hconfig : u.config = s.config := by rw [hsame]
  have hlist : u.isInMMContainer = s.isInMMContainer := by rw [hsame]
  have hremoved := hsplit.linked.remove_erase hnode
  rw [erase_append_of_nodup hnd] at hremoved
  have hbefore : TailSplit (u.unmarkAccessed node) l₁ l₂ :=
    ⟨hsplit.linked, hsplit.size, hsplit.flagged⟩
  have hleft := leaveTail_spec hbefore hremoved
  set w := ({ u with lru := u.lru.remove node }.unmarkAccessed node).leaveTail node with hw
  have hwpoint : w.insertionPoint = (l₂.erase node).head? := by
    rw [hw, leaveTail_insertionPoint]
    exact hpoint
  have hwconfig : w.config = s.config := by
    rw [hw, leaveTail_config]
    exact hconfig
  have hwlist : w.isInMMContainer = s.isInMMContainer := by
    rw [hw, leaveTail_isInMMContainer]
    exact hlist
  obtain ⟨t, ht, hgood, hcfg, hset⟩ := updateLruInsertionPoint_good
    (s := w.unmarkInMMContainer node) ⟨hleft.linked, hleft.size, hleft.flagged⟩ hwpoint
    (fun he => by
      rw [hoff (hwconfig ▸ he)]
      rfl)
    (fun n => by
      rw [← erase_append_of_nodup hnd, hnd.mem_erase_iff, ← hmember, ← hwlist]
      by_cases hn : n = node
      · simp [unmarkInMMContainer, hn]
      · simp [unmarkInMMContainer, hn])
  exact ⟨t, ht, hgood, hcfg.trans hwconfig, hset⟩

section
variable {u : Container ν} {curr now : ℕ}
  (hu : u = (s.reconfigureLocked (time32 curr) now).ensureNotInsertionPoint node)
include hu

lemma promote_eq (hin : u.isInMMContainer node = true) : s.promote node curr now =
      let v := { u.setUpdateTime node curr with lru := u.lru.moveToHead node }
      if u.isTail node = true then (v.leaveTail node).updateLruInsertionPoint else some v := by
  subst hu
  simp only [promote]
  rw [if_pos hin]
  rfl

lemma promote_eq_of_absent (hin : u.isInMMContainer node = false) (htail : u.isTail node = false) :
    s.promote node curr now = some u := by
  subst hu
  simp only [promote, hin, htail, Bool.false_eq_true, if_false]

end

lemma promote_good (h : Good s l) (node : ν) (curr now : ℕ) :
    ∃ t m, s.promote node curr now = some t ∧ Good t m ∧ t.config = s.config ∧
      (Settled s → Settled t) := by
  have hrec := reconfigureLocked_same s (time32 curr) now
  have h' := h.of_sameList hrec
  have hset' : Settled s → Settled (s.reconfigureLocked (time32 curr) now) :=
    fun hs => hs.of_sameList hrec
  have hcfg' : (s.reconfigureLocked (time32 curr) now).config = s.config := by rw [hrec]
  obtain ⟨u, hu⟩ : ∃ u, u = (s.reconfigureLocked (time32 curr) now).ensureNotInsertionPoint node :=
    ⟨_, rfl⟩
  have hmember := h'.member
  have hnd := h'.linked.nodup
  obtain ⟨l₁, l₂, rfl, hsplit, hpoint, hoff, hsame, hout⟩ := ensureNotInsertionPoint_spec h' node
  rw [← hu] at hsplit hpoint hsame hout
  have hlist : u.isInMMContainer = (s.reconfigureLocked (time32 curr) now).isInMMContainer := by
    rw [hsame]
  have hconfig : u.config = s.config := by rw [hsame, hcfg']
  rw [← hlist] at hmember
  rw [hcfg'] at hoff
  by_cases hin : u.isInMMContainer node = true
  · have hnode := (hmember node).1 hin
    have hmoved := hsplit.linked.moveToHead_erase hnode
    rw [erase_append_of_nodup hnd, ← cons_append] at hmoved
    have hperm : (node :: l₁.erase node ++ l₂.erase node).Perm (l₁ ++ l₂) := by
      rw [cons_append, ← erase_append_of_nodup hnd]
      exact (perm_cons_erase hnode).symm
    rw [promote_eq hu hin]
    by_cases htail : u.isTail node = true
    · have hbefore : TailSplit (u.setUpdateTime node curr) l₁ l₂ :=
        ⟨hsplit.linked, hsplit.size, hsplit.flagged⟩
      have hleft := leaveTail_spec hbefore hmoved
      obtain ⟨t, ht, hgood, hcfg, hset⟩ := updateLruInsertionPoint_good hleft
        (by rw [leaveTail_insertionPoint]; exact hpoint)
        (fun he => by
          rw [leaveTail_config] at he
          rw [hoff (hconfig ▸ he)]
          rfl)
        (fun n => by
          rw [leaveTail_isInMMContainer, hperm.mem_iff]
          exact hmember n)
      rw [leaveTail_config] at hcfg
      exact ⟨t, _, (if_pos htail).trans ht, hgood, hcfg.trans hconfig, fun _ => hset⟩
    · have hnot : node ∉ l₂ := fun hm => htail ((hsplit.flagged node).2 hm)
      obtain ⟨heq, hhalf⟩ := hout hnot
      rw [erase_of_not_mem hnot] at hmoved hpoint hperm
      refine ⟨_, node :: l₁.erase node ++ l₂, if_neg htail, ⟨?_, ?_, ?_⟩, hconfig, ?_⟩
      · intro n
        rw [hperm.mem_iff]
        exact hmember n
      · rw [← heq] at h'
        exact h'.off
      · refine ⟨_, l₂, rfl, ⟨hmoved, hsplit.size, hsplit.flagged⟩, hpoint, ?_⟩
        rw [hperm.length_eq]
        exact hhalf
      · intro hs
        have hsu := hset' hs
        rw [← heq, Settled, hsplit.linked.size, ← hperm.length_eq, ← hmoved.size] at hsu
        exact hsu
  · have habsent : node ∉ l₁ ++ l₂ := fun hm => hin ((hmember node).2 hm)
    have hnot : node ∉ l₂ := fun hm => habsent (mem_append_right _ hm)
    obtain ⟨heq, -⟩ := hout hnot
    rw [promote_eq_of_absent hu (by simpa using hin)
      (by simpa using fun he => hnot ((hsplit.flagged node).1 he))]
    rw [← heq] at h' hset'
    exact ⟨u, _, rfl, h', hconfig, hset'⟩

end Operations

end HybridCache.MMLru

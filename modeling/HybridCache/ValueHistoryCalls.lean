import HybridCache.ValueHistoryLog

/-!
# The calls of the checker

A begin adds an operation. An end either throws, because the begin record of its operation has
been dropped, or ends the operation; the end of a lookup that found a value returns an answer.
-/
namespace HybridCache.ValueHistory
open Option Nat

section Ends
variable {h : History} {ops : List Operation}

section
variable (hl : Logged h ops) (hsmall : h.log.last < 2 ^ 32) {i : ℕ} (hi : h.kept ≤ i)
  (hlast : i < h.log.last)
include hl hsmall hi hlast

theorem endSet_spec : ∃ next, h.endSet i = (some (), next) ∧
      Extends h next i { h.log.slot i with other := h.log.last }
        ⟨.kEndSet, i, (h.log.slot i).value⟩ ∧
      next.openSetCount = h.openSetCount - 1 := by
  obtain ⟨next, hend, hext, hopen⟩ := endOperation_spec hl hsmall hi hlast
    fun begin_ => ⟨.kEndSet, i, begin_.value⟩
  rw [History.endSet, hend]
  exact ⟨_, rfl, ⟨hext.first, hext.last, hext.slot⟩, congrArg (· - 1) hopen⟩

theorem endDelete_spec : ∃ next, h.endDelete i = (some (), next) ∧
      Extends h next i { h.log.slot i with other := h.log.last } ⟨.kEndDelete, i, 0⟩ ∧
      next.openSetCount = h.openSetCount := by
  obtain ⟨next, hend, hext, hopen⟩ := endOperation_spec hl hsmall hi hlast
    fun _ => ⟨.kEndDelete, i, 0⟩
  rw [History.endDelete, hend]
  exact ⟨next, rfl, hext, hopen⟩

theorem endGet_found_spec (value : ℕ) (es : Bool) :
    ∃ next, h.endGet i value true es = (next.isConsistent h.log.last es, next) ∧
      Extends h next i { h.log.slot i with other := h.log.last } ⟨.kEndGet, i, value⟩ ∧
      next.openSetCount = h.openSetCount := by
  obtain ⟨next, hend, hext, hopen⟩ := endOperation_spec hl hsmall hi hlast
    fun _ => ⟨.kEndGet, i, value⟩
  simp only [History.endGet, if_true, hend]
  exact ⟨next, rfl, hext, hopen⟩

theorem endGet_miss_spec (value : ℕ) (es : Bool) :
    ∃ next, h.endGet i value false es = (some (true, []), next) ∧
      Extends h next i ⟨.kBeginMiss, h.log.last, (h.log.slot i).value⟩ ⟨.kEndMiss, i, 0⟩ ∧
      next.openSetCount = h.openSetCount := by
  obtain ⟨mid, hend, hext, hopen⟩ := endOperation_spec hl hsmall hi hlast fun _ => ⟨.kEndGet, i, 0⟩
  have hfirst := hext.first
  have hlast' := hext.last
  have hroom := hl.room
  have hsize : mid.log.last - mid.log.first ≤ kCapacity := by omega
  have hend' (r : LogRecord) : mid.log.setAt h.log.last r = some (mid.log.put h.log.last r) :=
    RingBuffer.setAt_eq (by omega) (by omega)
  have hbegin (r r' : LogRecord) :
      (mid.log.put h.log.last r).setAt i r' = some ((mid.log.put h.log.last r).put i r') :=
    RingBuffer.setAt_eq (hfirst.trans_le hi) (by change i < mid.log.last; omega)
  simp only [History.endGet, Bool.false_eq_true, if_false, hend, hend', hbegin]
  refine ⟨_, rfl, ⟨hfirst, hlast', fun index hk hle => ?_⟩, hopen⟩
  have hput (r : LogRecord) : (mid.log.put h.log.last r).slot index =
      if index = h.log.last then r else mid.log.slot index :=
    RingBuffer.slot_put hsize (by omega) (by omega) (by omega) (by omega)
  have hput' (r r' : LogRecord) : ((mid.log.put h.log.last r).put i r').slot index =
      if index = i then r' else (mid.log.put h.log.last r).slot index :=
    RingBuffer.slot_put hsize (hfirst.trans_le hi) (by change i < mid.log.last; omega)
      (hfirst.trans_le hk) (by change index < mid.log.last; omega)
  rw [hput', hput, hext.slot index hk hle]
  split_ifs <;> first | rfl | omega

end

theorem ends_throw {i : ℕ} (hi : i < h.kept) (value : ℕ) (found es : Bool) :
    h.endGet i value found es = (none, h.cleanupIfFull) ∧
      h.endSet i = (none, h.cleanupIfFull) ∧ h.endDelete i = (none, h.cleanupIfFull) := by
  simp only [History.endGet, History.endSet, History.endDelete, endOperation_throws hi]
  exact ⟨trivial, trivial, trivial⟩

end Ends

/-! ## The log only grows -/

section Growth
variable (h : History)

lemma last_le_beginOperation (event : Event) (value opened : ℕ) :
    h.log.last ≤ (h.beginOperation event value opened).2.log.last := by
  simp only [History.beginOperation, History.cleanupIfFull_eq]
  split
  · next hwrite => exact (le_succ _).trans_eq (RingBuffer.write_last hwrite).symm
  · exact le_rfl

lemma last_le_endOperation (i : ℕ) (end_ : LogRecord → LogRecord) :
    h.log.last ≤ (h.endOperation i end_).2.log.last := by
  simp only [History.endOperation, History.cleanupIfFull_eq]
  split
  · exact le_rfl
  · split
    · exact le_rfl
    · next hwrite =>
      have hle := (le_succ _).trans_eq (RingBuffer.write_last hwrite).symm
      split
      · exact hle
      · next hset => exact hle.trans_eq (RingBuffer.setAt_last hset).symm

lemma last_le_endGet (i value : ℕ) (found es : Bool) :
    h.log.last ≤ (h.endGet i value found es).2.log.last := by
  have hle := last_le_endOperation h i fun _ => ⟨.kEndGet, i, if found = true then value else 0⟩
  simp only [History.endGet]
  generalize h.endOperation i _ = r at hle ⊢
  rcases r with ⟨_ | ⟨pos, begin_⟩, mid⟩
  · exact hle
  · dsimp only
    split
    · exact hle
    · split
      · exact hle
      · next hset =>
        have hle' := hle.trans_eq (RingBuffer.setAt_last hset).symm
        split
        · exact hle'
        · next hset' => exact hle'.trans_eq (RingBuffer.setAt_last hset').symm

lemma last_le_endSet (i : ℕ) : h.log.last ≤ (h.endSet i).2.log.last := by
  have hle := last_le_endOperation h i fun begin_ => ⟨.kEndSet, i, begin_.value⟩
  unfold History.endSet
  split
  all_goals
    next hend =>
      rw [hend] at hle
      exact hle

lemma last_le_endDelete (i : ℕ) : h.log.last ≤ (h.endDelete i).2.log.last := by
  have hle := last_le_endOperation h i fun _ => ⟨.kEndDelete, i, 0⟩
  unfold History.endDelete
  split
  all_goals
    next hend =>
      rw [hend] at hle
      exact hle

end Growth

lemma begun_history (s : System) (o : Operation) (r : Option ℕ × History) :
    (s.begun o r).history = r.2 := by
  rcases r with ⟨_ | _, _⟩ <;> rfl

lemma ended_history {α : Type} (s : System) (k : ℕ) (o : Operation) (r : Option α × History)
    (verdict : α → Option (ℕ × ℕ × ℕ × Bool)) : (s.ended k o r verdict).history = r.2 := by
  rcases r with ⟨_ | _, _⟩ <;> rfl

theorem step_last_le {s t : System} {a : Action} (hstep : step s a = some t) :
    s.history.log.last ≤ t.history.log.last := by
  cases a with
  | beginGet | beginDelete | beginSet value =>
    cases hstep
    rw [begun_history]
    exact last_le_beginOperation ..
  | endGet k value found es =>
    obtain ⟨o, -, rfl⟩ := map_eq_some_iff.1 hstep
    rw [ended_history]
    exact last_le_endGet ..
  | endSet k =>
    obtain ⟨o, -, rfl⟩ := map_eq_some_iff.1 hstep
    rw [ended_history]
    exact last_le_endSet ..
  | endDelete k =>
    obtain ⟨o, -, rfl⟩ := map_eq_some_iff.1 hstep
    rw [ended_history]
    exact last_le_endDelete ..

def Action.target : Action → Option ℕ
  | .endGet k _ _ _ | .endSet k | .endDelete k => some k
  | _ => none

/-- The lookup `o` from number `k` ends and has found a value. -/
structure Answers (s t : System) (a : Action) (k : ℕ) (o : Operation) (value : ℕ)
    (answer : Bool) : Prop where
  action : ∃ es, a = .endGet k value true es ∧
    ∃ events, t.history.isConsistent s.history.log.last es = some (answer, events)
  kind : o.kind = .get
  verdict : t.verdict = some (o.start, s.history.log.last, value, answer)
  ops : t.ops = s.ops.set k (s.endedGet o value true)

structure Extended (s t : System) : Prop where
  logged : Logged t.history t.ops
  first : t.history.log.first = s.history.kept
  last : t.history.log.last = s.history.log.last + 1
  thrown : t.thrown = s.thrown

inductive Outcome (s t : System) (a : Action) : Prop
  | begun (target : a.target = none) (extended : Extended s t) (verdict : t.verdict = none)
  | threw (k : ℕ) (o : Operation) (target : a.target = some k) (op : s.ops[k]? = some o)
      (open_ : o.stop = none) (dropped : o.start < s.history.kept)
      (history : t.history = s.history.cleanupIfFull) (ops : t.ops = s.ops)
      (thrown : t.thrown = true)
  | ended (k : ℕ) (o : Operation) (target : a.target = some k) (op : s.ops[k]? = some o)
      (open_ : o.stop = none) (kept : s.history.kept ≤ o.start) (extended : Extended s t)
      (answers : t.verdict = none ∨ ∃ value answer, Answers s t a k o value answer)

lemma pending_eq_some {s : System} {k : ℕ} {kind : Kind} {o : Operation}
    (h : s.pending k kind = some o) : s.ops[k]? = some o ∧ o.kind = kind ∧ o.stop = none := by
  simpa [System.pending, filter_eq_some_iff] using h

section Steps
variable {s : System} {k : ℕ} {o : Operation}

/-- The three begins. -/
lemma begun_extended (hl : Logged s.history s.ops) (hsmall : s.history.log.last < 2 ^ 32)
    (event : Event) (value opened : ℕ) (hstart : o.start = s.history.log.last)
    (hstop : o.stop = none)
    (hrecord : o.beginRecord = ⟨event, s.history.log.last, value⟩)
    (hopened : [o].countP Operation.openSet = opened) :
    Extended s (s.begun o (s.history.beginOperation event value opened)) ∧
      (s.begun o (s.history.beginOperation event value opened)).verdict = none := by
  obtain ⟨next, hbegin, hext, hopen⟩ := beginOperation_spec hl hsmall event value opened
  rw [hbegin]
  rw [← hrecord] at hext
  rw [← hopened] at hopen
  exact ⟨⟨hl.begun hstart hstop hext hopen, hext.first, hext.last, rfl⟩, rfl⟩

lemma ended_extended {α : Type} (hl : Logged s.history s.ops) (hop : s.ops[k]? = some o)
    (hstop : o.stop = none) (o' : Operation) (hstart : o'.start = o.start)
    (hstop' : o'.stop = some s.history.log.last) {next : History} (a : α)
    (verdict : α → Option (ℕ × ℕ × ℕ × Bool))
    (hext : Extends s.history next o.start o'.beginRecord o'.endRecord)
    (hopen : next.openSetCount = s.history.openSetCount - [o].countP Operation.openSet) :
    Extended s (s.ended k o' (some a, next) verdict) :=
  ⟨hl.ended hop hstop hstart hstop' hext hopen, hext.first, hext.last, rfl⟩

lemma slot_pending (hl : Logged s.history s.ops) (hop : s.ops[k]? = some o) (hstop : o.stop = none)
    (hkept : s.history.kept ≤ o.start) :
    s.history.log.slot o.start = ⟨o.beginEvent, o.start, if o.kind = .set then o.value else 0⟩ := by
  have hle := Logged.first_le_kept s.history
  rw [hl.begins o (List.mem_of_getElem? hop) (hle.trans hkept), Operation.beginRecord, hstop]
  rfl

lemma endGet_answers (hl : Logged s.history s.ops) (hsmall : s.history.log.last < 2 ^ 32)
    (hop : s.ops[k]? = some o) (hkind : o.kind = .get) (hstop : o.stop = none)
    (hkept : s.history.kept ≤ o.start) (value : ℕ) (es : Bool) :
    ∃ answer events next, s.history.endGet o.start value true es = (some (answer, events), next) ∧
      next.isConsistent s.history.log.last es = some (answer, events) ∧
      Extends s.history next o.start (s.endedGet o value true).beginRecord
        (s.endedGet o value true).endRecord ∧
      next.openSetCount = s.history.openSetCount - [o].countP Operation.openSet := by
  have hlast := hl.start_lt (List.mem_of_getElem? hop)
  obtain ⟨next, hend, hext, hopen⟩ := endGet_found_spec hl hsmall hkept hlast value es
  have hnotset : [o].countP Operation.openSet = 0 := by simp [Operation.openSet, hkind]
  rw [slot_pending hl hop hstop hkept] at hext
  have hrecords : Extends s.history next o.start (s.endedGet o value true).beginRecord
      (s.endedGet o value true).endRecord := by
    simpa [System.endedGet, Operation.beginRecord, Operation.endRecord, Operation.beginEvent,
      Operation.endEvent, Operation.missed, hkind, hstop] using hext
  have hopen' : next.openSetCount = s.history.openSetCount - [o].countP Operation.openSet := by
    rw [hopen, hnotset, Nat.sub_zero]
  have hlogged : Logged next (s.ops.set k (s.endedGet o value true)) :=
    hl.ended hop hstop rfl rfl hrecords hopen'
  have hordered := hlogged.toOrdered (by have := hrecords.last; omega)
  rw [hrecords.last] at hordered
  have hslot : next.log.slot s.history.log.last = (s.endedGet o value true).endRecord := by
    rw [hrecords.slot _ hl.room.1 le_rfl, if_pos rfl]
  obtain ⟨answer, events, -, hcheck, -⟩ := isConsistent_iff hordered
    (hrecords.first.trans_le hl.room.1) (by rw [hslot]; exact hlast.le) es
  exact ⟨answer, events, next, by rw [hend, hcheck], hcheck, hrecords, hopen'⟩

section
variable {t : System} {a : Action} (hl : Logged s.history s.ops)
  (hsmall : s.history.log.last < 2 ^ 32) (hstep : step s a = some t)
include hl hsmall hstep

omit hstep in
/-- An operation that ends began within the log, so that its index has not wrapped. -/
lemma pending_spec {kind : Kind} (h : s.pending k kind = some o) :
    s.ops[k]? = some o ∧ o.kind = kind ∧ o.stop = none ∧ o.start < s.history.log.last ∧
      u32 o.start = o.start := by
  obtain ⟨hop, hkind, hstop⟩ := pending_eq_some h
  have hlast := hl.start_lt (List.mem_of_getElem? hop)
  exact ⟨hop, hkind, hstop, hlast, mod_eq_of_lt (hlast.trans hsmall)⟩

theorem step_outcome : Outcome s t a := by
  cases a with
  | beginGet =>
    cases hstep
    obtain ⟨hext, hverdict⟩ := begun_extended (o := { kind := .get, start := s.history.log.last })
      hl hsmall .kBeginGet 0 0 rfl rfl rfl rfl
    exact .begun rfl hext hverdict
  | beginSet value =>
    cases hstep
    obtain ⟨hext, hverdict⟩ := begun_extended
      (o := { kind := .set, start := s.history.log.last, value := value }) hl hsmall .kBeginSet
      value 1 rfl rfl rfl rfl
    exact .begun rfl hext hverdict
  | beginDelete =>
    cases hstep
    obtain ⟨hext, hverdict⟩ := begun_extended
      (o := { kind := .delete, start := s.history.log.last }) hl hsmall .kBeginDelete 0 0
      rfl rfl rfl rfl
    exact .begun rfl hext hverdict
  | endGet k value found es =>
    obtain ⟨o, hpending, rfl⟩ := map_eq_some_iff.1 hstep
    obtain ⟨hop, hkind, hstop, hlast, hu⟩ := pending_spec hl hsmall hpending
    rw [hu]
    by_cases hkept : s.history.kept ≤ o.start
    · cases found with
      | true =>
        obtain ⟨answer, events, next, hend, hcheck, hext, hopen⟩ :=
          endGet_answers hl hsmall hop hkind hstop hkept value es
        rw [hend]
        exact .ended k o rfl hop hstop hkept
          (ended_extended hl hop hstop (s.endedGet o value true) rfl rfl _ _ hext hopen)
          (.inr ⟨value, answer, ⟨es, rfl, events, hcheck⟩, hkind, rfl, rfl⟩)
      | false =>
        obtain ⟨next, hend, hext, hopen⟩ := endGet_miss_spec hl hsmall hkept hlast value es
        rw [hend]
        rw [slot_pending hl hop hstop hkept] at hext
        have hnotset : [o].countP Operation.openSet = 0 := by simp [Operation.openSet, hkind]
        have hrecords : Extends s.history next o.start (s.endedGet o value false).beginRecord
            (s.endedGet o value false).endRecord := by
          simpa [System.endedGet, Operation.beginRecord, Operation.endRecord, Operation.beginEvent,
            Operation.endEvent, Operation.missed, hkind] using hext
        refine .ended k o rfl hop hstop hkept
          (ended_extended hl hop hstop (s.endedGet o value false) rfl rfl _ _ hrecords ?_) (.inl rfl)
        rw [hopen, hnotset, Nat.sub_zero]
    · rw [(ends_throw (not_le.1 hkept) value found es).1]
      exact .threw k o rfl hop hstop (not_le.1 hkept) rfl rfl rfl
  | endSet k =>
    obtain ⟨o, hpending, rfl⟩ := map_eq_some_iff.1 hstep
    obtain ⟨hop, hkind, hstop, hlast, hu⟩ := pending_spec hl hsmall hpending
    rw [hu]
    by_cases hkept : s.history.kept ≤ o.start
    · obtain ⟨next, hend, hext, hopen⟩ := endSet_spec hl hsmall hkept hlast
      rw [hend]
      rw [slot_pending hl hop hstop hkept] at hext
      have hset : [o].countP Operation.openSet = 1 := by simp [Operation.openSet, hkind, hstop]
      refine .ended k o rfl hop hstop hkept
        (ended_extended hl hop hstop { o with stop := some s.history.log.last } rfl rfl _ _ ?_
          (hset ▸ hopen)) (.inl rfl)
      simpa [Operation.beginRecord, Operation.endRecord, Operation.beginEvent,
        Operation.endEvent, hkind] using hext
    · rw [(ends_throw (not_le.1 hkept) 0 true true).2.1]
      exact .threw k o rfl hop hstop (not_le.1 hkept) rfl rfl rfl
  | endDelete k =>
    obtain ⟨o, hpending, rfl⟩ := map_eq_some_iff.1 hstep
    obtain ⟨hop, hkind, hstop, hlast, hu⟩ := pending_spec hl hsmall hpending
    rw [hu]
    by_cases hkept : s.history.kept ≤ o.start
    · obtain ⟨next, hend, hext, hopen⟩ := endDelete_spec hl hsmall hkept hlast
      rw [hend]
      rw [slot_pending hl hop hstop hkept] at hext
      have hnotset : [o].countP Operation.openSet = 0 := by simp [Operation.openSet, hkind]
      refine .ended k o rfl hop hstop hkept
        (ended_extended hl hop hstop { o with stop := some s.history.log.last } rfl rfl _ _ ?_ ?_)
        (.inl rfl)
      · simpa [Operation.beginRecord, Operation.endRecord, Operation.beginEvent,
          Operation.endEvent, hkind] using hext
      · rw [hopen, hnotset, Nat.sub_zero]
    · rw [(ends_throw (not_le.1 hkept) 0 true true).2.2]
      exact .threw k o rfl hop hstop (not_le.1 hkept) rfl rfl rfl

theorem step_logged : Logged t.history t.ops := by
  cases step_outcome hl hsmall hstep with
  | begun _ hext _ => exact hext.logged
  | threw k o _ _ _ _ hhistory hops _ =>
    rw [hhistory, hops]
    exact hl.cleanup
  | ended k o _ _ _ _ hext _ => exact hext.logged

end

end Steps

end HybridCache.ValueHistory

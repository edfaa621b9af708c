import HybridCache.ValueHistoryCalls

/-!
# The checker decides which values are possible

As long as nothing has been dropped from the log, the answer of the checker is exactly whether
the value is possible. A scan that starts from a trimmed log still finds every possible value
if the oldest record belongs to a lookup and no unfinished set has been dropped.
-/
namespace HybridCache.ValueHistory

open List

/-! ## Unfinished sets -/

lemma countP_flatMap_eq {α β : Type*} {l : List α} {f : α → List β} {q : β → Bool} {p : α → Bool}
    (h : ∀ a ∈ l, (f a).countP q = if p a = true then 1 else 0) :
    (l.flatMap f).countP q = l.countP p := by
  induction l with
  | nil => rfl
  | cons a l ih =>
    rw [flatMap_cons, countP_append, h a mem_cons_self,
      ih fun b hb => h b (mem_cons_of_mem _ hb), countP_cons, Nat.add_comm]

lemma opens_eq_countP (r : ℕ → LogRecord) (j i : ℕ) :
    opens r j i = (List.range i).countP fun k => decide (j < k) && isOpenSet (r k) k := by
  induction i with
  | zero => rfl
  | succ i ih =>
    rw [opens, ih, range_succ, countP_append, countP_singleton]
    simp

section Decision
variable {h : History} {ops : List Operation} {g e b value : ℕ}

lemma opens_eq (hl : Logged h ops) {j : ℕ} (hj : h.log.first ≤ j) :
    opens h.log.slot j h.log.last = ops.countP fun o => decide (j < o.start) && o.openSet := by
  rw [opens_eq_countP, ← hl.indices.countP_eq]
  refine countP_flatMap_eq fun o ho => ?_
  -- an end record never opens a set
  have hend : ∀ i, o.stop = some i → (decide (j < i) && isOpenSet (h.log.slot i) i) = false := by
    intro i hi
    by_cases hji : j < i
    · have hstart := hl.started o ho i hi
      rw [hl.ends o ho i hi (hj.trans hji.le)]
      simp [isOpenSet, Operation.endRecord, hstart.ne]
    · simp [hji]
  have hbegin : (decide (j < o.start) && isOpenSet (h.log.slot o.start) o.start) =
      (decide (j < o.start) && o.openSet) := by
    by_cases hji : j < o.start
    · rw [hl.begins o ho (hj.trans hji.le)]
      congr 1
      cases hstop : o.stop with
      | none =>
        simp only [isOpenSet, Operation.beginRecord, Operation.openSet, hstop, Option.getD_none,
          and_true, Operation.beginEvent]
        cases o.kind <;> cases o.missed <;> rfl
      | some i =>
        have hne := (hl.started o ho i hstop).ne'
        simp [isOpenSet, Operation.beginRecord, Operation.openSet, hstop, hne]
    · simp [hji]
  rw [Operation.stamps, countP_cons, hbegin]
  cases hstop : o.stop with
  | none => simp
  | some i => simp [hend i hstop]

/-! ## Possible values are found -/

lemma isSet_of_isGet {ev : Event} (hget : isGet ev = true) : isSet ev = false := by
  cases ev <;> first | rfl | cases hget

lemma reaches_of_writes_le (horder : InOrder h g b) {j : ℕ} (hfirst : h.log.first ≤ j) (hj : j < e)
    (hwrites : ∀ k, h.log.first ≤ k → k < g → isWriteEnd (h.log.slot k).event = true →
      (h.log.slot k).other ≤ j)
    (hrecord : (isSet (h.log.slot j).event = true ∧ (h.log.slot j).value = value) ∨
      (j = h.log.first ∧ isGet (h.log.slot j).event = true)) :
    Reaches h value g b e h.log.first 0 := by
  have hb : b ≤ j := by
    rcases horder with ⟨-, rfl⟩ | ⟨k, hk, hkg, hw, -, rfl⟩
    · exact hfirst
    · exact hwrites k hk hkg hw
  have hlow : lowest h.log.slot g j e ≤ j :=
    lowest_le_iff.2 fun k hjk _ hw hkg => hwrites k (hfirst.trans hjk.le) hkg hw
  refine ⟨j, hfirst, hj, .inl hb, .inr (max_le hfirst hlow), ?_⟩
  rcases hrecord with hset | ⟨holdest, hget⟩
  · exact .inl hset
  · exact .inr ⟨isSet_of_isGet hget, holdest, hget⟩

lemma reaches_of_openSet (hl : Logged h ops) (hlast : h.log.last = e + 1)
    (hend : (h.log.slot e).event = .kEndGet) {o : Operation} (ho : o ∈ ops)
    (hopen : o.openSet = true) (hfirst : h.log.first ≤ o.start) (hstart : o.start < e)
    (hvalue : o.value = value) : Reaches h value g b e h.log.first 0 := by
  obtain ⟨hkind, hstop⟩ : o.kind = .set ∧ o.stop = none := by simpa [Operation.openSet] using hopen
  have hslot : h.log.slot o.start = ⟨.kBeginSet, o.start, value⟩ := by
    rw [hl.begins o ho hfirst]
    simp [Operation.beginRecord, Operation.beginEvent, hkind, hstop, hvalue]
  have hcount : opens h.log.slot o.start e < h.openSetCount := by
    have hopens := opens_eq hl hfirst
    rw [hlast, opens, if_neg (by simp [isOpenSet, hend])] at hopens
    have hless : ops.countP (fun w => decide (o.start < w.start) && w.openSet) <
        ops.countP Operation.openSet := by
      rw [← countP_filter, countP_eq_length_filter (p := Operation.openSet), countP_lt_length_iff]
      exact ⟨o, mem_filter.2 ⟨ho, hopen⟩, by simp⟩
    rw [hl.openSets]
    omega
  refine ⟨o.start, hfirst, hstart, .inr (by omega), ?_⟩
  rw [Hit, hslot]
  exact ⟨.inl rfl, .inl ⟨rfl, rfl⟩⟩

/-- The finished sets of the value are in the log and a write has ended before `g`, so that the
value is not explained by something that was dropped. -/
def Recent (ops : List Operation) (g first value : ℕ) : Prop :=
  (∀ o ∈ ops, o.kind = .set → o.value = value → ∀ j, o.stop = some j → first ≤ j) ∧
    ∃ w ∈ ops, w.isWrite = true ∧ w.endsBefore g

/-- The scan finds every possible value, also in a trimmed log if its oldest record belongs to a
lookup or nothing that was dropped is needed. -/
theorem reaches_of_possible (hl : Logged h ops) (hlast : h.log.last = e + 1)
    (hend : (h.log.slot e).event = .kEndGet) (horder : InOrder h g b)
    (hfirst : h.log.first ≤ g) (hge : g < e)
    (holdest : h.log.first = 0 ∨ isGet (h.log.slot h.log.first).event = true ∨
      Recent ops g h.log.first value)
    (hsets : ∀ o ∈ ops, o.openSet = true → o.value = value → h.log.first ≤ o.start)
    (hpossible : Possible ops g e value) : Reaches h value g b e h.log.first 0 := by
  -- the writes that have ended before the lookup began, by their end records
  have hwrites : ∀ k, h.log.first ≤ k → k < g → isWriteEnd (h.log.slot k).event = true →
      ∃ w ∈ ops, w.isWrite = true ∧ w.endsBefore g ∧ (h.log.slot k).other = w.start := by
    intro k hk hkg hw
    obtain ⟨w, hmem, hwrite, hstop, hother⟩ := (hl.isWriteEnd_iff hk (by omega)).1 hw
    exact ⟨w, hmem, hwrite, ⟨k, hstop, hkg⟩, hother⟩
  rcases hpossible with ⟨o, ho, hkind, hvalue, hstart, hover⟩ | ⟨hnone, o, ho, hzero, hkind, hmiss⟩
  · cases hstop : o.stop with
    | none =>
      have hopen : o.openSet = true := by simp [Operation.openSet, hkind, hstop]
      exact reaches_of_openSet hl hlast hend ho hopen (hsets o ho hopen hvalue) hstart hvalue
    | some j =>
      have hlow : ∀ w ∈ ops, w.isWrite = true → w.endsBefore g → w.start ≤ j := by
        intro w hw hwrite hends
        by_contra hlt
        exact hover w hw hwrite ⟨⟨j, hstop, not_le.1 hlt⟩, hends⟩
      by_cases hj : h.log.first ≤ j
      · have hje : j < e := by
          have hlt := hl.stop_lt ho hstop
          have hne : j ≠ e := by
            rintro rfl
            rw [hl.ends o ho j hstop hj] at hend
            simp [Operation.endRecord, Operation.endEvent, hkind] at hend
          omega
        refine reaches_of_writes_le horder hj hje (fun k hk hkg hw => ?_) (.inl ?_)
        · obtain ⟨w, hmem, hwrite, hends, hother⟩ := hwrites k hk hkg hw
          exact hother ▸ hlow w hmem hwrite hends
        · rw [hl.ends o ho j hstop hj]
          simp [Operation.endRecord, Operation.endEvent, hkind, hvalue, isSet]
      · -- the set has been dropped, and the oldest record stands for it
        have hget : isGet (h.log.slot h.log.first).event = true := by
          rcases holdest with hzero | hget | hrecent
          · omega
          · exact hget
          · exact absurd (hrecent.1 o ho hkind hvalue j hstop) hj
        refine reaches_of_writes_le horder le_rfl (by omega) (fun k hk hkg hw => ?_)
          (.inr ⟨rfl, hget⟩)
        obtain ⟨w, hmem, hwrite, hends, hother⟩ := hwrites k hk hkg hw
        have := hlow w hmem hwrite hends
        omega
  · have hget : isGet (h.log.slot h.log.first).event = true := by
      rcases holdest with hf | hget | ⟨-, w, hw, hwrite, hends⟩
      · rw [hf, ← hzero, hl.begins o ho (by omega), Operation.beginRecord, isGet_beginEvent]
        simp [hkind, hmiss]
      · exact hget
      · exact absurd hends (hnone w hw hwrite)
    refine reaches_of_writes_le horder le_rfl (by omega) (fun k hk hkg hw => ?_) (.inr ⟨rfl, hget⟩)
    obtain ⟨w, hmem, hwrite, hends, -⟩ := hwrites k hk hkg hw
    exact absurd hends (hnone w hmem hwrite)

/-! ## Found values are possible -/

lemma possible_of_set (hl : Logged h ops) (hlast : h.log.last = e + 1) (hge : g < e) {j : ℕ}
    (hfirst : h.log.first ≤ j) (hj : j < e)
    (hseen : j = (h.log.slot j).other ∨ lowest h.log.slot g j e ≤ j)
    (hset : isSet (h.log.slot j).event = true) (hvalue : (h.log.slot j).value = value) :
    Possible ops g e value := by
  obtain ⟨o, ho, hrecord⟩ := hl.slot_cases hfirst (by omega)
  have hkind : o.kind = .set := by
    rcases hrecord with ⟨-, hslot⟩ | ⟨-, hslot⟩
    · simpa [hslot, Operation.beginRecord, isSet_beginEvent] using hset
    · simpa [hslot, Operation.endRecord, isSet_endEvent] using hset
  have hvalue' : o.value = value := by
    rcases hrecord with ⟨-, hslot⟩ | ⟨-, hslot⟩
    · simpa [hslot, Operation.beginRecord, hkind] using hvalue
    · simpa [hslot, Operation.endRecord, hkind] using hvalue
  -- both records of the set are at or after `j`, unless `j` is its end
  have hstart : o.start ≤ j := by
    rcases hrecord with ⟨rfl, -⟩ | ⟨hstop, -⟩
    · exact le_rfl
    · exact (hl.started o ho j hstop).le
  have hstop : ∀ i, o.stop = some i → j ≤ i := by
    intro i hi
    rcases hrecord with ⟨rfl, -⟩ | ⟨hstop, -⟩
    · exact (hl.started o ho i hi).le
    · rw [hstop] at hi
      exact (Option.some.inj hi).le
  refine .inl ⟨o, ho, hkind, hvalue', by omega, ?_⟩
  rintro w hw hwrite ⟨⟨i, hi, hlt⟩, k, hk, hkg⟩
  have hji := hstop i hi
  have hwk := hl.started w hw k hk
  rcases hseen with hopen | hlow
  · rcases hrecord with ⟨rfl, hslot⟩ | ⟨hstop', hslot⟩
    · rw [hslot, Operation.beginRecord, hi] at hopen
      exact absurd hopen (hl.started o ho i hi).ne
    · rw [hslot] at hopen
      exact absurd hopen (hl.started o ho j hstop').ne'
  · have hend := (hl.isWriteEnd_iff (i := k) (by omega) (by omega)).2
      ⟨w, hw, hwrite, hk, by rw [hl.ends w hw k hk (by omega)]; rfl⟩
    have hother := lowest_le_iff.1 hlow k (by omega) (by omega) hend hkg
    rw [hl.ends w hw k hk (by omega)] at hother
    exact absurd (show w.start ≤ j from hother) (by omega)

section
variable (hl : Logged h ops) (hfirst : h.log.first = 0) (hlast : h.log.last = e + 1)
  (hend : (h.log.slot e).event = .kEndGet) (horder : InOrder h g b) (hge : g < e)
include hl hfirst hlast hend horder hge

lemma possible_of_first (hreach : b ≤ 0 ∨ opens h.log.slot 0 e < h.openSetCount)
    (hget : isGet (h.log.slot 0).event = true) : Possible ops g e value := by
  obtain ⟨o, ho, hrecord⟩ := hl.slot_cases (i := 0) hfirst.le (by omega)
  obtain ⟨hzero, hslot⟩ : o.start = 0 ∧ h.log.slot 0 = o.beginRecord := by
    rcases hrecord with hbegin | ⟨hstop, -⟩
    · exact hbegin
    · exact absurd (hl.started o ho 0 hstop) (Nat.not_lt_zero _)
  obtain ⟨hkind, hmiss⟩ : o.kind = .get ∧ o.missed = false := by
    simpa [hslot, Operation.beginRecord, isGet_beginEvent] using hget
  have hunique : ∀ w ∈ ops, w.start = 0 → w = o := by
    intro w hw hw0
    exact hl.owner_unique hw ho (Operation.mem_stamps.2 (.inl hw0))
      (Operation.mem_stamps.2 (.inl hzero))
  -- the scan has met all unfinished sets, so it is here because of the writes
  have hopens : opens h.log.slot 0 e = h.openSetCount := by
    have hcount := opens_eq hl (j := 0) hfirst.le
    rw [hlast, opens, if_neg (by simp [isOpenSet, hend])] at hcount
    rw [Nat.add_zero] at hcount
    rw [hcount, hl.openSets]
    refine countP_congr fun w hw => ?_
    by_cases hw0 : w.start = 0
    · simp [hunique w hw hw0, Operation.openSet, hkind]
    · simp [Nat.pos_of_ne_zero hw0]
  refine .inr ⟨?_, o, ho, hzero, hkind, hmiss⟩
  rintro w hw hwrite ⟨k, hk, hkg⟩
  have hwk := (hl.isWriteEnd_iff (i := k) (by omega) (by omega)).2
    ⟨w, hw, hwrite, hk, by rw [hl.ends w hw k hk (by omega)]; rfl⟩
  rcases horder with ⟨hnone, -⟩ | ⟨k', hk', hkg', hw', -, hother⟩
  · rw [hnone k (by omega) hkg] at hwk
    cases hwk
  · obtain ⟨w', hmem, hwrite', -, hstart⟩ := (hl.isWriteEnd_iff hk' (by omega)).1 hw'
    rw [hunique w' hmem (by omega)] at hwrite'
    simp [Operation.isWrite, hkind, hmiss] at hwrite'

theorem possible_of_reaches (hreaches : Reaches h value g b e h.log.first 0) :
    Possible ops g e value := by
  obtain ⟨j, hj, hje, hreach, hseen, ⟨hset, hvalue⟩ | ⟨-, holdest, hget⟩⟩ := hreaches
  · refine possible_of_set hl hlast hge hj hje ?_ hset hvalue
    exact hseen.imp_right fun hle => (le_max_right _ _).trans hle
  · rw [hfirst] at holdest
    subst holdest
    rw [Nat.zero_add] at hreach
    exact possible_of_first hl hfirst hlast hend horder hge hreach hget

end

end Decision

/-! ## The answer -/

theorem endGet_iff_reaches {s : System} {k : ℕ} {o : Operation} (hl : Logged s.history s.ops)
    (hsmall : s.history.log.last < 2 ^ 32) (hop : s.pending k .get = some o)
    (hkept : s.history.kept ≤ o.start) (value : ℕ) (es : Bool) :
    ∃ answer events next b, s.history.endGet (u32 o.start) value true es =
        (some (answer, events), next) ∧
      Logged next (s.ops.set k (s.endedGet o value true)) ∧
      Extends s.history next o.start (s.endedGet o value true).beginRecord
        ⟨.kEndGet, o.start, value⟩ ∧
      InOrder next o.start b ∧
      (answer = true ↔ Reaches next value o.start b s.history.log.last next.log.first 0) := by
  obtain ⟨hop, hkind, hstop⟩ := pending_eq_some hop
  have hlast := hl.start_lt (mem_of_getElem? hop)
  obtain ⟨answer, events, next, hend, hcheck, hext, hopen⟩ :=
    endGet_answers hl hsmall hop hkind hstop hkept value es
  have hlogged : Logged next (s.ops.set k (s.endedGet o value true)) :=
    hl.ended hop hstop rfl rfl hext hopen
  have hnext := hext.last
  have hordered := hlogged.toOrdered (by omega)
  rw [hnext] at hordered
  have hrecord : (s.endedGet o value true).endRecord = ⟨.kEndGet, o.start, value⟩ := by
    simp [Operation.endRecord, Operation.endEvent, System.endedGet, hkind]
  rw [hrecord] at hext
  have hslot : next.log.slot s.history.log.last = ⟨.kEndGet, o.start, value⟩ := by
    rw [hext.slot _ hl.room.1 le_rfl, if_pos rfl]
  obtain ⟨answer', events', b, hcheck', horder, hiff⟩ := isConsistent_iff hordered
    (hext.first.trans_le hl.room.1) (by rw [hslot]; exact hlast.le) es
  obtain ⟨rfl, rfl⟩ : answer' = answer ∧ events' = events := by
    simpa [hcheck] using hcheck'.symm
  rw [hslot] at horder hiff
  have hu : u32 o.start = o.start := Nat.mod_eq_of_lt (hlast.trans hsmall)
  exact ⟨answer', events', next, b, by rw [hu, hend], hlogged, hext, horder, hiff⟩

/-- The log of every run, as long as its indices fit into 32 bits. Nothing is dropped before the
buffer is full. -/
theorem run_logged {acts : List Action} {s : System}
    (hrun : Transition.run step System.init acts = some s) (hsmall : s.history.log.last < 2 ^ 32) :
    Logged s.history s.ops ∧ (s.history.log.last < kCapacity → s.history.log.first = 0) := by
  have hstep : ∀ (s : System) (a : Action) (t : System), (s.history.log.last < 2 ^ 32 →
        Logged s.history s.ops ∧ (s.history.log.last < kCapacity → s.history.log.first = 0)) →
      step s a = some t → t.history.log.last < 2 ^ 32 →
        Logged t.history t.ops ∧ (t.history.log.last < kCapacity → t.history.log.first = 0) := by
    intro s a t hinv hstep hlast
    have hle := step_last_le hstep
    obtain ⟨hl, hzero⟩ := hinv (by omega)
    refine ⟨step_logged hl (by omega) hstep, fun hroom => ?_⟩
    have hfirst := hzero (by omega)
    have hkept : s.history.kept = 0 := by
      rw [History.kept, RingBuffer.size, if_neg (by omega), hfirst]
    cases step_outcome hl (by omega) hstep with
    | begun _ hext | ended k o _ _ _ _ hext => rw [hext.first, hkept]
    | threw k o _ _ _ hdropped _ _ _ => omega
  exact Transition.run_invariant hstep (fun _ => ⟨logged_empty, fun _ => rfl⟩) hrun hsmall

/-- On a history that has not been trimmed the answer is whether the value is possible. -/
theorem endGet_decides_possible {acts : List Action} {s : System}
    (hrun : Transition.run step System.init acts = some s) {k : ℕ} {o : Operation}
    (hop : s.pending k .get = some o) (hroom : s.history.log.last < kCapacity) (value : ℕ)
    (es : Bool) :
    ∃ answer events next, s.history.endGet (u32 o.start) value true es =
        (some (answer, events), next) ∧
      (answer = true ↔
        Possible (s.ops.set k (s.endedGet o value true)) o.start s.history.log.last value) := by
  have hcap : kCapacity < 2 ^ 32 := by decide
  obtain ⟨hl, hzero⟩ := run_logged hrun (hroom.trans hcap)
  have hfirst := hzero hroom
  have hkept : s.history.kept = 0 := by
    rw [History.kept, RingBuffer.size, if_neg (by omega), hfirst]
  obtain ⟨answer, events, next, b, hend, hlogged, hext, horder, hiff⟩ :=
    endGet_iff_reaches hl (hroom.trans hcap) hop (by omega) value es
  have hnext : next.log.first = 0 := hext.first.trans hkept
  have hevent : (next.log.slot s.history.log.last).event = .kEndGet := by
    rw [hext.slot _ hl.room.1 le_rfl, if_pos rfl]
  obtain ⟨hop, hkind, -⟩ := pending_eq_some hop
  have hge := hl.start_lt (mem_of_getElem? hop)
  refine ⟨answer, events, next, hend, hiff.trans ⟨?_, ?_⟩⟩
  · exact possible_of_reaches hlogged hnext hext.last hevent horder hge
  · exact reaches_of_possible hlogged hext.last hevent horder (by omega) hge (.inl hnext)
      fun _ _ _ _ => by omega

theorem endGet_after_set_decides : ∃ s answer events next,
    Transition.run step System.init [.beginSet 7, .endSet 0, .beginGet] = some s ∧
    s.pending 1 .get = some ⟨.get, 2, none, 0, true⟩ ∧ s.history.log.last < kCapacity ∧
    s.history.endGet (u32 2) 7 true true = (some (answer, events), next) ∧
    (answer = true ↔ Possible (s.ops.set 1 (s.endedGet ⟨.get, 2, none, 0, true⟩ 7 true)) 2
        s.history.log.last 7) := by
  have hvalues : (Transition.run step System.init [.beginSet 7, .endSet 0, .beginGet]).map
      (fun s => (s.pending 1 .get, s.history.log.last)) =
        some (some ⟨.get, 2, none, 0, true⟩, 3) := by
    decide
  obtain ⟨s, hrun, hs⟩ := Option.map_eq_some_iff.1 hvalues
  obtain ⟨hop, hlast⟩ := Prod.mk.inj hs
  have hroom : s.history.log.last < kCapacity := by
    rw [hlast]
    decide
  obtain ⟨answer, events, next, hend, hiff⟩ := endGet_decides_possible hrun hop hroom 7 true
  exact ⟨s, answer, events, next, hrun, hop, hroom, hend, hiff⟩

end HybridCache.ValueHistory

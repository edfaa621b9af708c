import HybridCache.ValueHistoryDecision

/-!
# Trimming and false alarms

The log drops its oldest record when it is full. Neither the end of an operation whose begin
record is gone nor a lookup that found the value of a dropped set is safe: the first throws, and
the second can be reported as inconsistent. Both are excluded by a condition on the calls.
-/
namespace HybridCache.ValueHistory
open Transition List

/-- The lookup `o` may end with `value`: nothing has been dropped, or no unfinished set of the
value has been dropped and the oldest remaining record belongs to a lookup or is not needed. -/
def Explainable (s : System) (o : Operation) (value : ℕ) : Prop :=
  s.history.kept = 0 ∨
    (∀ w ∈ s.ops, w.openSet = true → w.value = value → s.history.kept ≤ w.start) ∧
      (isGet (s.history.log.slot s.history.kept).event = true ∨
        Recent s.ops o.start s.history.kept value)

/-- The calls for which trimming is harmless: the index fits into 32 bits, an operation ends
while its begin record is in the log, and a value that was found can still be explained. -/
structure Traceable (s : System) (a : Action) : Prop where
  small : s.history.log.last < 2 ^ 32
  kept : ∀ k o, a.target = some k → s.ops[k]? = some o → s.history.kept ≤ o.start
  explainable : ∀ k o value es, a = .endGet k value true es → s.ops[k]? = some o →
    Explainable s o value

/-- No call has thrown, and the last answer was negative only for an impossible value. -/
def NoFalseAlarm (s : System) : Prop :=
  s.thrown = false ∧ ∀ g e value, s.verdict = some (g, e, value, false) →
    ¬ Possible s.ops g e value

section EndedGet
variable {s : System} {k : ℕ} {o : Operation} {value : ℕ}

variable {w : Operation}

lemma mem_endedGet (hw : w ∈ s.ops.set k (s.endedGet o value true)) :
    w ∈ s.ops ∨ w = s.endedGet o value true :=
  mem_or_eq_of_mem_set hw

lemma mem_endedGet_of_ne (hop : s.ops[k]? = some o) (hw : w ∈ s.ops)
    (hne : w ≠ o) : w ∈ s.ops.set k (s.endedGet o value true) := by
  obtain ⟨i, hi⟩ := mem_iff_getElem?.1 hw
  have hik : k ≠ i := by
    rintro rfl
    rw [hop] at hi
    exact hne (Option.some.inj hi).symm
  exact mem_of_getElem? (by rw [getElem?_set_ne hik]; exact hi)

/-- The ended lookup is not a write, so it changes nothing about recent sets. -/
lemma recent_endedGet {first : ℕ} (hop : s.ops[k]? = some o) (hkind : o.kind = .get)
    (hstop : o.stop = none) (hrecent : Recent s.ops o.start first value) :
    Recent (s.ops.set k (s.endedGet o value true)) o.start first value := by
  obtain ⟨hsets, w, hw, hwrite, hends⟩ := hrecent
  refine ⟨fun w hw hset => ?_, w, mem_endedGet_of_ne hop hw ?_, hwrite, hends⟩
  · rcases mem_endedGet hw with hw | rfl
    · exact hsets w hw hset
    · exact absurd (hkind.symm.trans hset) (by decide)
  · rintro rfl
    simp [Operation.isWrite, Operation.missed, hkind, hstop] at hwrite

end EndedGet

variable {o : Operation} {s : System}

theorem endGet_true_of_possible {k : ℕ} {value : ℕ}
    (hl : Logged s.history s.ops) (hsmall : s.history.log.last < 2 ^ 32)
    (hop : s.pending k .get = some o) (hkept : s.history.kept ≤ o.start)
    (hexplain : Explainable s o value) (es : Bool)
    (hpossible : Possible (s.ops.set k (s.endedGet o value true)) o.start s.history.log.last value) :
    ∃ events next, s.history.endGet (u32 o.start) value true es = (some (true, events), next) := by
  obtain ⟨answer, events, next, b, hend, hlogged, hext, horder, hiff⟩ :=
    endGet_iff_reaches hl hsmall hop hkept value es
  obtain ⟨hop, hkind, hstop⟩ := pending_eq_some hop
  have hge := hl.start_lt (mem_of_getElem? hop)
  have hfirst := hext.first
  have hevent : (next.log.slot s.history.log.last).event = .kEndGet := by
    rw [hext.slot _ hl.room.1 le_rfl, if_pos rfl]
  have hreaches : Reaches next value o.start b s.history.log.last next.log.first 0 := by
    refine reaches_of_possible hlogged hext.last hevent horder (by omega) hge ?_ ?_ hpossible
    · rcases hexplain with hzero | ⟨-, hget | hrecent⟩
      · exact .inl (hfirst.trans hzero)
      · -- the records of this lookup are those of a lookup, and no other record has changed
        refine .inr (.inl ?_)
        rw [hfirst, hext.slot _ le_rfl hl.room.1]
        split_ifs
        · rfl
        · rw [Operation.beginRecord, isGet_beginEvent]
          simp [System.endedGet, Operation.missed, hkind]
        · exact hget
      · rw [hfirst]
        exact .inr (.inr (recent_endedGet hop hkind hstop hrecent))
    · intro w hw hopen hvalue
      rw [hfirst]
      rcases mem_endedGet hw with hw | rfl
      · rcases hexplain with hzero | ⟨hsets, -⟩
        · omega
        · exact hsets w hw hopen hvalue
      · simp [System.endedGet, Operation.openSet] at hopen
  exact ⟨events, next, by rw [hend, hiff.2 hreaches]⟩

/-! ## Runs of begins -/

def beginAction : Kind → Action
  | .get => .beginGet
  | .set => .beginSet 0
  | .delete => .beginDelete

lemma step_beginAction (hl : Logged s.history s.ops)
    (hsmall : s.history.log.last < 2 ^ 32) (kind : Kind) :
    ∃ t, step s (beginAction kind) = some t ∧
      t.ops = s.ops ++ [⟨kind, s.history.log.last, none, 0, true⟩] := by
  have hbegun : ∀ o event value opened,
      (s.begun o (s.history.beginOperation event value opened)).ops = s.ops ++ [o] := by
    intro o event value opened
    obtain ⟨next, hbegin, -⟩ := beginOperation_spec hl hsmall event value opened
    rw [hbegin]
    rfl
  cases kind with
  | get | set | delete => exact ⟨_, rfl, hbegun ..⟩

lemma traceable_beginAction (hsmall : s.history.log.last < 2 ^ 32) (kind : Kind) :
    Traceable s (beginAction kind) := by
  refine ⟨hsmall, fun k o htarget => ?_, fun k o value es ha => ?_⟩ <;> cases kind <;> contradiction

theorem run_begins (kind : Kind) (n : ℕ) (hl : Logged s.history s.ops)
    (hsmall : s.history.log.last + n ≤ 2 ^ 32) :
    Meets step Traceable s (List.replicate n (beginAction kind)) ∧
    ∃ t, run step s (List.replicate n (beginAction kind)) = some t ∧ Logged t.history t.ops ∧
      t.ops = s.ops ++
        (List.range n).map (fun i => ⟨kind, s.history.log.last + i, none, 0, true⟩) ∧
      t.history.log.first = max s.history.log.first (s.history.log.last + n - kCapacity) ∧
      t.history.log.last = s.history.log.last + n ∧ t.thrown = s.thrown := by
  induction n generalizing s with
  | zero =>
    have hfits := hl.fits
    exact ⟨trivial, s, rfl, hl, by simp, by omega, rfl, rfl⟩
  | succ n ih =>
    obtain ⟨m, hstep, hops⟩ := step_beginAction hl (by omega) kind
    have hext : Extended s m := by
      cases step_outcome hl (by omega) hstep with
      | begun _ hext _ => exact hext
      | threw k o htarget | ended k o htarget => cases kind <;> cases htarget
    have hlast := hext.last
    obtain ⟨hmeets, t, hrun, hlogged, hops', hfirst, hlast', hthrown⟩ := ih hext.logged (by omega)
    refine ⟨fun u hu => ?_, t, run_cons.2 ⟨m, hstep, hrun⟩, hlogged, ?_, ?_, by omega,
      hthrown.trans hext.thrown⟩
    · obtain rfl : m = u := Option.some.inj (hstep.symm.trans hu)
      exact ⟨traceable_beginAction (by omega) kind, hmeets⟩
    · rw [hops', hops, hlast, range_succ_eq_map, map_cons, map_map, append_assoc]
      simp only [singleton_append, Function.comp_def, Nat.add_zero, Nat.succ_eq_add_one,
        Nat.add_assoc, Nat.add_comm 1]
    · have hfits := hl.fits
      have hordered := hl.ordered
      rw [hfirst, hext.first, History.kept, RingBuffer.size]
      split_ifs <;> omega

/-! ## Runs without false alarms -/

lemma step_noFalseAlarm {t : System} {a : Action} (htrace : Traceable s a)
    (hl : Logged s.history s.ops) (hsafe : NoFalseAlarm s) (hstep : step s a = some t) :
    NoFalseAlarm t := by
  cases step_outcome hl htrace.small hstep with
  | begun _ hext hverdict =>
    refine ⟨hext.thrown.trans hsafe.1, fun g e value hv => ?_⟩
    rw [hverdict] at hv
    cases hv
  | threw k o htarget hop _ hdropped =>
    exact absurd (htrace.kept k o htarget hop) (not_le.2 hdropped)
  | ended k o htarget hop hstop hkept hext hanswers =>
    refine ⟨hext.thrown.trans hsafe.1, fun g e value hv hpossible => ?_⟩
    rcases hanswers with hnone | ⟨value', answer, ⟨es, rfl, -⟩, hkind, hverdict, hops⟩
    · rw [hnone] at hv
      cases hv
    · obtain ⟨rfl, rfl, rfl, rfl⟩ : o.start = g ∧ s.history.log.last = e ∧ value' = value ∧
          answer = false := by
        simpa [hverdict] using hv
      rw [hops] at hpossible
      have hpending : s.pending k .get = some o := by
        simp [System.pending, hop, hkind, hstop]
      obtain ⟨events, next, hend⟩ := endGet_true_of_possible hl htrace.small hpending hkept
        (htrace.explainable k o value' es rfl hop) es hpossible
      simp only [step, hpending, Option.map_some, hend, System.ended, if_true] at hstep
      rw [← Option.some.inj hstep] at hverdict
      simp at hverdict

/-- In runs whose calls are all traceable no call throws, and a value is reported only if it is
not possible in the complete history. -/
theorem no_false_alarms {acts : List Action} (htrace : Meets step Traceable System.init acts) :
    Always step NoFalseAlarm System.init acts := by
  have hstep : ∀ (s : System) (a : Action) (t : System), Traceable s a →
      Logged s.history s.ops ∧ NoFalseAlarm s → step s a = some t →
      Logged t.history t.ops ∧ NoFalseAlarm t := by
    intro s a t hok hinv hstep
    exact ⟨step_logged hinv.1 hok.small hstep, step_noFalseAlarm hok hinv.1 hinv.2 hstep⟩
  refine always_of_meets (fun s hinv => hinv.2) hstep htrace ⟨logged_empty, rfl, ?_⟩
  intro g e value hv
  cases hv

/-- A run that has dropped two records when its last lookup ends. -/
def trimmedLookups : List Action :=
  (List.replicate 481 Action.beginGet).append [.endGet 480 7 true true]

theorem no_false_alarms_trimmed : Meets step Traceable System.init trimmedLookups ∧
      Always step NoFalseAlarm System.init trimmedLookups := by
  obtain ⟨hmeets, t, hrun, hl, hops, hfirst, hlast, -⟩ :=
    run_begins .get 481 (s := System.init) logged_empty (by decide)
  have hops' : t.ops = (range 481).map fun i => ⟨.get, i, none, 0, true⟩ := by
    simpa [System.init, History.empty] using hops
  have hfirst' : t.history.log.first = 1 := hfirst
  have hlast' : t.history.log.last = 481 := hlast
  have hkept : t.history.kept = 2 := by
    rw [History.kept, RingBuffer.size, hfirst', hlast']
    rfl
  have hop : t.ops[480]? = some ⟨.get, 480, none, 0, true⟩ := by
    rw [hops']
    rfl
  have hmem : (⟨.get, 2, none, 0, true⟩ : Operation) ∈ t.ops := by
    rw [hops']
    exact mem_map.2 ⟨2, mem_range.2 (by decide), rfl⟩
  have htrace : Traceable t (.endGet 480 7 true true) := by
    refine ⟨by omega, fun k o htarget ho => ?_, fun k o value es ha ho => .inr ⟨?_, .inl ?_⟩⟩
    · cases htarget
      rw [hop] at ho
      cases ho
      rw [hkept]
      decide
    · intro w hw hopen
      rw [hops'] at hw
      obtain ⟨i, -, rfl⟩ := mem_map.1 hw
      cases hopen
    · have hslot := hl.begins _ hmem (by rw [hfirst']; decide)
      rw [hkept, hslot]
      rfl
  have hall : Meets step Traceable System.init trimmedLookups :=
    hmeets.append hrun fun _ _ => ⟨htrace, trivial⟩
  exact ⟨hall, no_false_alarms hall⟩

/-- A lookup ends after its begin record has been dropped. -/
def droppedLookup : List Action :=
  [Action.beginGet].append ((List.replicate 480 Action.beginDelete).append
    [.endGet 0 7 true false])

lemma droppedLookup_throws :
    ∃ s, run step System.init droppedLookup = some s ∧ s.thrown = true := by
  obtain ⟨-, s, hs, hl, hops, -, hlast, -⟩ :=
    run_begins .get 1 (s := System.init) logged_empty (by decide)
  have hlast' : s.history.log.last = 1 := hlast
  obtain ⟨-, t, ht, hl', hops', -, hlast'', -⟩ := run_begins .delete 480 hl (by omega)
  have hop : t.ops[0]? = some ⟨.get, 0, none, 0, true⟩ := by
    rw [hops', hops]
    rfl
  have hpending : t.pending 0 .get = some ⟨.get, 0, none, 0, true⟩ := by
    rw [System.pending, hop]
    rfl
  have hdropped : (0 : ℕ) < t.history.kept := by
    have hroom := hl'.room
    have hcap : kCapacity = 480 := rfl
    omega
  have hthrows := (ends_throw hdropped 7 true false).1
  have hstep : step t (.endGet 0 7 true false) = some
      { t with history := t.history.cleanupIfFull, thrown := true, verdict := none } := by
    simp only [step, hpending, Option.map_some]
    rw [show u32 0 = 0 from rfl, hthrows]
    rfl
  exact ⟨_, run_append hs (run_append ht (run_cons.2 ⟨_, hstep, rfl⟩)), rfl⟩

/-- A lookup finds the value of a set that has been dropped while nothing has overridden it. -/
def droppedSet : List Action :=
  [Action.beginSet 7, .endSet 0].append ((List.replicate 479 Action.beginDelete).append
    ([Action.beginGet].append [.endGet 480 7 true false]))

def forgottenSet : List Operation :=
  ⟨.set, 0, some 1, 7, true⟩ ::
    ((List.range 479).map (fun i => ⟨.delete, 2 + i, none, 0, true⟩) ++
      [⟨.get, 481, some 482, 7, true⟩])

lemma mem_forgottenSet (ho : o ∈ forgottenSet) :
    o = ⟨.set, 0, some 1, 7, true⟩ ∨ (∃ i, o = ⟨.delete, 2 + i, none, 0, true⟩) ∨
      o = ⟨.get, 481, some 482, 7, true⟩ := by
  rw [forgottenSet, mem_cons, mem_append, mem_map, mem_singleton] at ho
  rcases ho with rfl | ⟨i, -, rfl⟩ | rfl
  · exact .inl rfl
  · exact .inr (.inl ⟨i, rfl⟩)
  · exact .inr (.inr rfl)

lemma possible_forgottenSet : Possible forgottenSet 481 482 7 := by
  refine .inl ⟨⟨.set, 0, some 1, 7, true⟩, mem_cons_self, rfl, rfl, by decide, ?_⟩
  rintro w hw hwrite ⟨⟨i, hi, hlt⟩, k, hk, -⟩
  rcases mem_forgottenSet hw with rfl | ⟨j, rfl⟩ | rfl
  · exact absurd hlt (Nat.not_lt_zero i)
  · cases hk
  · cases hwrite

/-- No record of the trimmed log explains the value. -/
lemma not_reaches_forgottenSet {h : History} {b : ℕ} (hl : Logged h forgottenSet)
    (hfirst : h.log.first = 3) (hlast : h.log.last = 483) : ¬ Reaches h 7 481 b 482 3 0 := by
  rintro ⟨j, hj, hje, -, -, hhit⟩
  obtain ⟨o, ho, hrecord⟩ := hl.slot_cases hj (by omega)
  rcases mem_forgottenSet ho with rfl | ⟨i, rfl⟩ | rfl
  · rcases hrecord with ⟨hstart, -⟩ | ⟨hstop, -⟩
    · simp only at hstart
      omega
    · simp only [Option.some.injEq] at hstop
      omega
  · rcases hrecord with ⟨-, hslot⟩ | ⟨hstop, -⟩
    · rw [hslot] at hhit
      rcases hhit with ⟨hset, -⟩ | ⟨-, -, hget⟩
      · cases hset
      · cases hget
    · cases hstop
  · rcases hrecord with ⟨hstart, hslot⟩ | ⟨hstop, -⟩
    · rw [hslot] at hhit
      simp only at hstart
      rcases hhit with ⟨hset, -⟩ | ⟨-, holdest, -⟩
      · cases hset
      · omega
    · simp only [Option.some.injEq] at hstop
      omega

lemma droppedSet_alarm : ∃ s, run step System.init droppedSet = some s ∧
    s.thrown = false ∧ s.ops = forgottenSet ∧ s.verdict = some (481, 482, 7, false) := by
  have hvalues : (run step System.init [.beginSet 7, .endSet 0]).map
      (fun s => (s.ops, s.history.log.first, s.history.log.last, s.thrown)) =
        some ([⟨.set, 0, some 1, 7, true⟩], 0, 2, false) := by
    decide
  obtain ⟨s, hs, hvalues⟩ := Option.map_eq_some_iff.1 hvalues
  simp only [Prod.mk.injEq] at hvalues
  obtain ⟨hops, hfirst, hlast, hthrown⟩ := hvalues
  have hl := (run_logged hs (by omega)).1
  obtain ⟨-, t, ht, hl, hopst, hfirstt, hlastt, hthrownt⟩ := run_begins .delete 479 hl (by omega)
  obtain ⟨-, u, hu, hl, hopsu, hfirstu, hlastu, hthrownu⟩ := run_begins .get 1 hl (by omega)
  rw [hfirst, hlast] at hfirstt
  rw [hlast] at hlastt
  rw [hfirstt, hlastt] at hfirstu
  rw [hlastt] at hlastu
  have hfirst3 : u.history.kept = 3 := by
    rw [History.kept, RingBuffer.size, hfirstu, hlastu]
    rfl
  have hopsu' : u.ops = ⟨.set, 0, some 1, 7, true⟩ ::
      ((range 479).map (fun i => ⟨.delete, 2 + i, none, 0, true⟩) ++
        [⟨.get, 481, none, 0, true⟩]) := by
    rw [hopsu, hopst, hops, hlastt, hlast]
    simp
  have hlength : (⟨.set, 0, some 1, 7, true⟩ ::
      (range 479).map (fun i => (⟨.delete, 2 + i, none, 0, true⟩ : Operation))).length = 480 := by
    simp
  have hpending : u.pending 480 .get = some ⟨.get, 481, none, 0, true⟩ := by
    rw [System.pending, hopsu', ← cons_append, ← hlength, getElem?_concat_length]
    rfl
  have hset : u.ops.set 480 (u.endedGet ⟨.get, 481, none, 0, true⟩ 7 true) = forgottenSet := by
    rw [hopsu', ← cons_append, set_append_right _ _ hlength.le, hlength]
    simp [System.endedGet, hlastu, forgottenSet]
  obtain ⟨answer, events, next, b, hend, hlogged, hext, -, hiff⟩ :=
    endGet_iff_reaches hl (by omega) hpending (by rw [hfirst3]; decide) 7 false
  have hanswer : answer = false := by
    rw [hset] at hlogged
    have hnext := hext.first.trans hfirst3
    rw [hnext, hlastu] at hiff
    rw [Bool.eq_false_iff, ne_eq, hiff]
    exact not_reaches_forgottenSet hlogged hnext (by rw [hext.last, hlastu])
  have hstep : step u (.endGet 480 7 true false) =
      some ⟨next, forgottenSet, false, some (481, 482, 7, false)⟩ := by
    simp only [step, hpending, Option.map_some, hend, System.ended, hset, hlastu, hanswer, if_true,
      hthrownu, hthrownt, hthrown]
  exact ⟨_, run_append hs (run_append ht (run_append hu (run_cons.2 ⟨_, hstep, rfl⟩))), rfl, rfl, rfl⟩

theorem trimming_throws_and_alarms :
    (∃ s, run step System.init droppedLookup = some s ∧ s.thrown = true) ∧
    ∃ s, run step System.init droppedSet = some s ∧ s.thrown = false ∧
      s.verdict = some (481, 482, 7, false) ∧ Possible s.ops 481 482 7 := by
  obtain ⟨s, hrun, hthrown, hops, hverdict⟩ := droppedSet_alarm
  refine ⟨droppedLookup_throws, s, hrun, hthrown, hverdict, ?_⟩
  rw [hops]
  exact possible_forgottenSet

end HybridCache.ValueHistory

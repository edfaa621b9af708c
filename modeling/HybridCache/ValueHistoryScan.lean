import HybridCache.ValueHistory

/-!
# What the backward scan of the log decides

`consistentLoop` runs down the log with a moving lower bound and a count of the unfinished
sets it has met. Its answer is described without the two accumulators: `lowest` is the
bound and `opens` the count that a record sees when the scan reaches it.
-/
namespace HybridCache.ValueHistory

def isOpenSet (r : LogRecord) (i : ℕ) : Bool := decide (r.event = .kBeginSet ∧ r.other = i)

def opens (r : ℕ → LogRecord) (j : ℕ) : ℕ → ℕ
  | 0 => 0
  | i + 1 => opens r j i + if j < i ∧ isOpenSet (r i) i = true then 1 else 0

/-- The latest begin of a write that ends before `g` and strictly between `j` and `i`. -/
def lowest (r : ℕ → LogRecord) (g j : ℕ) : ℕ → ℕ
  | 0 => 0
  | i + 1 =>
    if j < i ∧ isWriteEnd (r i).event = true ∧ i < g then max (lowest r g j i) (r i).other
    else lowest r g j i

section Accumulators
variable {r : ℕ → LogRecord} {g j i x : ℕ}

lemma opens_of_le (h : i ≤ j + 1) : opens r j i = 0 := by
  induction i with
  | zero => rfl
  | succ i ih =>
    rw [opens, ih (by omega), if_neg (by omega)]

lemma lowest_of_le (h : i ≤ j + 1) : lowest r g j i = 0 := by
  induction i with
  | zero => rfl
  | succ i ih =>
    rw [lowest, ih (by omega), if_neg (by omega)]

lemma lowest_le_iff : lowest r g j i ≤ x ↔
    ∀ k, j < k → k < i → isWriteEnd (r k).event = true → k < g → (r k).other ≤ x := by
  induction i with
  | zero =>
    exact ⟨fun _ k _ hk => absurd hk (Nat.not_lt_zero k), fun _ => Nat.zero_le x⟩
  | succ i ih =>
    have hsplit : (∀ k, j < k → k < i + 1 → isWriteEnd (r k).event = true → k < g →
        (r k).other ≤ x) ↔ lowest r g j i ≤ x ∧
          (j < i ∧ isWriteEnd (r i).event = true ∧ i < g → (r i).other ≤ x) := by
      rw [ih]
      constructor
      · intro h
        exact ⟨fun k hj hk => h k hj (by omega), fun ⟨hj, hw, hg⟩ => h i hj (by omega) hw hg⟩
      · rintro ⟨hlow, hi⟩ k hj hk hw hg
        rcases Nat.lt_succ_iff_lt_or_eq.1 hk with hk | rfl
        · exact hlow k hj hk hw hg
        · exact hi ⟨hj, hw, hg⟩
    rw [hsplit, lowest]
    split_ifs with h
    · rw [max_le_iff]
      exact and_congr_right fun _ => ⟨fun hle _ => hle, fun hle => hle h⟩
    · exact ⟨fun hle => ⟨hle, fun h' => absurd h' h⟩, fun hle => hle.1⟩

end Accumulators

/-- Reading a list of records returns if every single read does. -/
lemma mapM_returns {α β : Type*} {l : List α} {f : α → Option β}
    (h : ∀ a ∈ l, ∃ b, f a = some b) : ∃ bs, l.mapM f = some bs := by
  induction l with
  | nil => exact ⟨[], rfl⟩
  | cons a l ih =>
    obtain ⟨b, hb⟩ := h a List.mem_cons_self
    obtain ⟨bs, hbs⟩ := ih fun a ha => h a (List.mem_cons_of_mem _ ha)
    exact ⟨b :: bs, by simp [List.mapM_cons, hb, hbs]⟩

/-- The record at `j` explains the value if the scan reaches it under the bound `m`. -/
def Hit (s : History) (value j m : ℕ) : Prop :=
  (j = (s.log.slot j).other ∨ m ≤ j) ∧
    ((isSet (s.log.slot j).event = true ∧ (s.log.slot j).value = value) ∨
      (isSet (s.log.slot j).event = false ∧ j = s.log.first ∧
        isGet (s.log.slot j).event = true))

/-- The end record of a write names an earlier index, and indices fit into 32 bits. -/
structure Ordered (s : History) (i : ℕ) : Prop where
  inRange : i ≤ s.log.last
  small : i ≤ 2 ^ 32
  earlier : ∀ k, s.log.first ≤ k → k < i → isWriteEnd (s.log.slot k).event = true →
    (s.log.slot k).other < k

variable {i : ℕ} {s : History}

lemma Ordered.mono {j : ℕ} (h : Ordered s i) (hj : j ≤ i) : Ordered s j :=
  ⟨hj.trans h.inRange, hj.trans h.small, fun k hf hk => h.earlier k hf (by omega)⟩

/-- The records that the scan can reach from `i` and the bound that they see. -/
def Reaches (s : History) (value g b i m c : ℕ) : Prop :=
  ∃ j, s.log.first ≤ j ∧ j < i ∧ (b ≤ j ∨ c + opens s.log.slot j i < s.openSetCount) ∧
    Hit s value j (max m (lowest s.log.slot g j i))

/-- One step of the scan: the record at `i` or one below it. -/
lemma reaches_succ {value g b m c : ℕ} (hfirst : s.log.first ≤ i)
    (hgo : b ≤ i ∨ c < s.openSetCount) :
    Reaches s value g b (i + 1) m c ↔ Hit s value i m ∨ Reaches s value g b i
        (if isWriteEnd (s.log.slot i).event = true ∧ i < g then max m (s.log.slot i).other else m)
        (if isOpenSet (s.log.slot i) i = true then c + 1 else c) := by
  constructor
  · rintro ⟨j, hj, hji, hreach, hhit⟩
    rcases Nat.lt_succ_iff_lt_or_eq.1 hji with hlt | rfl
    · refine .inr ⟨j, hj, hlt, ?_, ?_⟩
      · rw [opens] at hreach
        simp only [hlt, true_and] at hreach
        split_ifs at hreach ⊢ <;> omega
      · rw [lowest] at hhit
        simp only [hlt, true_and] at hhit
        split_ifs at hhit ⊢ with hw
        · rwa [max_assoc, max_comm (s.log.slot i).other]
        · exact hhit
    · rw [lowest_of_le le_rfl, Nat.max_zero] at hhit
      exact .inl hhit
  · rintro (hhit | ⟨j, hj, hlt, hreach, hhit⟩)
    · refine ⟨i, hfirst, Nat.lt_succ_self i, ?_, ?_⟩
      · rw [opens_of_le le_rfl]
        exact hgo
      · rw [lowest_of_le le_rfl, Nat.max_zero]
        exact hhit
    · refine ⟨j, hj, by omega, ?_, ?_⟩
      · rw [opens]
        simp only [hlt, true_and]
        split_ifs at hreach ⊢ <;> omega
      · rw [lowest]
        simp only [hlt, true_and]
        split_ifs at hhit ⊢ with hw
        · rwa [max_assoc, max_comm (s.log.slot i).other] at hhit
        · exact hhit

theorem consistentLoop_iff (h : Ordered s i) (value g b m c : ℕ) (hm : m < 2 ^ 32) :
    ∃ answer, s.consistentLoop value g b i m c = some answer ∧
      (answer = true ↔ Reaches s value g b i m c) := by
  induction i generalizing m c with
  | zero =>
    refine ⟨false, rfl, ?_⟩
    simp [Reaches]
  | succ i ih =>
    have hrest := ih (h.mono (by omega))
    rw [History.consistentLoop]
    by_cases hgo : s.log.first < i + 1 ∧ (b < i + 1 ∨ c < s.openSetCount)
    · rw [if_pos hgo, RingBuffer.getAt_eq (by omega) (Nat.lt_of_succ_le h.inRange),
        Option.bind_some]
      set r := s.log.slot i with hr
      rw [reaches_succ (by omega) (by omega), ← hr]
      have hcount : (if r.event = .kBeginSet ∧ r.other = i then c + 1 else c) =
          if isOpenSet r i = true then c + 1 else c := by
        simp [isOpenSet]
      simp only [hcount]
      by_cases hskip : i ≠ r.other ∧ i < m
      · -- the skipped record is not a hit, and its begin is below the bound
        rw [if_pos hskip]
        have hnot : ¬ Hit s value i m := by
          rintro ⟨hopen | hle, -⟩
          · exact hskip.1 hopen
          · omega
        have hbound : (if isWriteEnd r.event = true ∧ i < g then max m r.other else m) = m := by
          split_ifs with hw
          · have := h.earlier i (by omega) (by omega) hw.1
            rw [← hr] at this
            omega
          · rfl
        rw [hbound, or_iff_right hnot]
        exact hrest m _ hm
      · rw [if_neg hskip]
        have hseen : i = r.other ∨ m ≤ i := by
          by_contra hno
          exact hskip ⟨fun he => hno (.inl he), by omega⟩
        by_cases hset : isSet r.event = true ∧ r.value = value
        · have hhit : Hit s value i m := ⟨hseen, .inl hset⟩
          exact ⟨true, if_pos hset, iff_of_true rfl (.inl hhit)⟩
        · rw [if_neg hset]
          by_cases hget : isSet r.event = false ∧ i = s.log.first ∧ isGet r.event = true
          · have hhit : Hit s value i m := ⟨hseen, .inr hget⟩
            exact ⟨true, if_pos hget, iff_of_true rfl (.inl hhit)⟩
          · rw [if_neg hget]
            have hnot : ¬ Hit s value i m := by
              rintro ⟨-, hset' | hget'⟩
              · exact hset hset'
              · exact hget hget'
            rw [or_iff_right hnot]
            have hu : u32 m = m := Nat.mod_eq_of_lt hm
            rw [hu]
            refine hrest _ _ ?_
            split_ifs with hw
            · have := h.earlier i (by omega) (by omega) hw.1
              have := h.small
              rw [← hr] at *
              omega
            · exact hm
    · refine ⟨false, if_neg hgo, ?_⟩
      simp only [Bool.false_eq_true, false_iff]
      rintro ⟨j, hj, hji, hreach, -⟩
      exact hgo ⟨by omega, by omega⟩

/-- The begin of the last write that ended before `g`, or the oldest index. -/
def InOrder (s : History) (g b : ℕ) : Prop :=
  ((∀ k, s.log.first ≤ k → k < g → isWriteEnd (s.log.slot k).event = false) ∧ b = s.log.first) ∨
  ∃ k, s.log.first ≤ k ∧ k < g ∧ isWriteEnd (s.log.slot k).event = true ∧
    (∀ k', k < k' → k' < g → isWriteEnd (s.log.slot k').event = false) ∧
    b = (s.log.slot k).other

theorem findLoop_spec {g : ℕ} (hg : g ≤ s.log.last) :
    ∃ b, s.findLoop g = some b ∧ InOrder s g b := by
  induction g with
  | zero => exact ⟨_, rfl, .inl ⟨fun k _ hk => absurd hk (Nat.not_lt_zero k), rfl⟩⟩
  | succ g ih =>
    rw [History.findLoop]
    by_cases hfirst : s.log.first < g + 1
    · rw [if_pos hfirst, RingBuffer.getAt_eq (by omega) (by omega), Option.bind_some]
      by_cases hw : isWriteEnd (s.log.slot g).event = true
      · exact ⟨_, if_pos hw, .inr ⟨g, by omega, by omega, hw, by omega, rfl⟩⟩
      · -- the scan passes a record that is not the end of a write
        rw [if_neg hw]
        rw [Bool.not_eq_true] at hw
        have hlast : ∀ k, k < g + 1 → k < g ∨ k = g := fun k => Nat.lt_succ_iff_lt_or_eq.1
        obtain ⟨b, hb, ⟨hnone, hfirst⟩ | ⟨k, hk, hkg, hwk, hnone, hother⟩⟩ := ih (by omega)
        · refine ⟨b, hb, .inl ⟨fun k hk hkg => ?_, hfirst⟩⟩
          rcases hlast k hkg with hkg | rfl
          · exact hnone k hk hkg
          · exact hw
        · refine ⟨b, hb, .inr ⟨k, hk, by omega, hwk, fun k' hk' hkg' => ?_, hother⟩⟩
          rcases hlast k' hkg' with hkg' | rfl
          · exact hnone k' hk' hkg'
          · exact hw
    · refine ⟨_, if_neg hfirst, .inl ⟨fun k hk hkg => ?_, rfl⟩⟩
      omega

/-- All records that are printed are still in the log. -/
lemma report_returns {e : ℕ} (hfirst : s.log.first ≤ e) (hlast : e < s.log.last)
    (b : ℕ) : ∃ events, s.report b e = some events := by
  refine mapM_returns fun i hi => ?_
  rw [List.mem_range] at hi
  refine ⟨_, congrArg _ (RingBuffer.getAt_eq ?_ (by omega))⟩
  rcases Nat.le_total b (s.log.first + kHistoryContext) with hle | hle <;>
    simp only [hle, max_eq_left, max_eq_right] at hi <;> omega

theorem isConsistent_iff {e : ℕ} (h : Ordered s (e + 1)) (hfirst : s.log.first ≤ e)
    (hother : (s.log.slot e).other ≤ e) (es : Bool) :
    ∃ answer events b, s.isConsistent e es = some (answer, events) ∧
      InOrder s (s.log.slot e).other b ∧
      (answer = true ↔ Reaches s (s.log.slot e).value (s.log.slot e).other b e s.log.first 0) := by
  have hlast := h.inRange
  have hsmall := h.small
  have hget : s.log.getAt e = some (s.log.slot e) := RingBuffer.getAt_eq hfirst (by omega)
  obtain ⟨b, hb, horder⟩ := findLoop_spec (s := s) (g := (s.log.slot e).other) (by omega)
  obtain ⟨answer, hanswer, hiff⟩ := consistentLoop_iff (h.mono (Nat.le_succ e))
    (s.log.slot e).value (s.log.slot e).other b s.log.first 0 (by omega)
  have hfind : s.findInOrderSetBegin e = some b := by
    rw [History.findInOrderSetBegin, hget]
    exact hb
  rw [History.isConsistent, hget, Option.bind_some, hfind, Option.bind_some, hanswer,
    Option.bind_some]
  by_cases hreport : answer = false ∧ es = true
  · obtain ⟨events, hevents⟩ := report_returns hfirst (by omega) b
    rw [if_pos hreport, hevents]
    exact ⟨false, events, b, rfl, horder, by rw [← hiff, hreport.1]⟩
  · rw [if_neg hreport]
    exact ⟨answer, [], b, rfl, horder, hiff⟩

end HybridCache.ValueHistory

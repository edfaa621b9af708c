import HybridCache.Bits
import HybridCache.Transition

/-!
# Two refcounts in one word

A `Cohort` keeps two refcounts and the bit that says which of them is in use in one atomic word.
A reader adds to the half that it has seen in use and takes its reference back if the halves have
been switched in between; the writer switches the halves and waits until the old one is empty.
Readers come and go, and the steps of the readers and of the one writer interleave: a step is one
atomic operation. A token remembers how many switches there were before it.
-/
namespace HybridCache.Cohort

open Transition List Nat

def kTopCohortBit : BitVec 64 := 1#64 <<< 63

def kBottomCohortBit : BitVec 64 := 1#64 <<< 31

def kBottomRef : BitVec 64 := 1#64

def kTopRef : BitVec 64 := 1#64 <<< 32

def isTopCohort (cohort : BitVec 64) : Bool := decide (cohort &&& kTopCohortBit ≠ 0)

def isBottomCohort (cohort : BitVec 64) : Bool := decide (cohort &&& kBottomCohortBit ≠ 0)

def getPending (cohort : BitVec 64) (isTop : Bool) : BitVec 64 :=
  if isTop = true then (cohort &&& ~~~kTopCohortBit) >>> 32
  else ((cohort &&& ~~~kBottomCohortBit) <<< 32) >>> 32

def refOf (topCohort : Bool) : BitVec 64 := if topCohort = true then kTopRef else kBottomRef

/-- What the loop of `switchCohorts` waits for. -/
def stillDraining (current : BitVec 64) : Bool :=
  decide (current <<< 32 ≠ 0 ∧ current >>> 32 ≠ 0)

/-- A reader in `incrActiveReqs`, or its token. -/
inductive Reader
  | starting
  | loaded (topCohort : Bool)
  | undoing (topCohort : Bool)
  | token (top : Bool) (switches : ℕ)
  deriving DecidableEq, Repr

inductive Writer
  | idle
  | loaded
  | draining
  deriving DecidableEq, Repr

/-- One round of the loop of `switchCohorts`. -/
def Writer.afterLoad (current : BitVec 64) : Writer :=
  if stillDraining current = true then .draining else .idle

structure State where
  cohortVal : BitVec 64
  readers : List Reader
  writer : Writer
  switches : ℕ

def State.init : State := ⟨kBottomCohortBit, [], .idle, 0⟩

/-- The atomic operations. A reader is named by its place in the list. -/
inductive Action
  | enter
  | load (i : ℕ)
  | fetchAdd (i : ℕ)
  | fetchSub (i : ℕ)
  | decrement (i : ℕ)
  | switchLoad
  | fetchXor
  | drainLoad
  deriving DecidableEq, Repr

/-- A step that is not the next one of its thread is not taken. -/
def step (s : State) : Action → Option State
  | .enter => some { s with readers := s.readers ++ [.starting] }
  | .load i =>
    match s.readers[i]? with
    | some .starting =>
      some { s with readers := s.readers.set i (.loaded (isTopCohort s.cohortVal)) }
    | _ => none
  | .fetchAdd i =>
    match s.readers[i]? with
    | some (.loaded topCohort) =>
      some { s with
        cohortVal := s.cohortVal + refOf topCohort
        readers := s.readers.set i
          (if isTopCohort s.cohortVal = topCohort then .token topCohort s.switches
            else .undoing topCohort) }
    | _ => none
  | .fetchSub i =>
    match s.readers[i]? with
    | some (.undoing topCohort) =>
      some { s with
        cohortVal := s.cohortVal - refOf topCohort
        readers := s.readers.set i .starting }
    | _ => none
  | .decrement i =>
    match s.readers[i]? with
    | some (.token top _) =>
      some { s with cohortVal := s.cohortVal - refOf top, readers := s.readers.eraseIdx i }
    | _ => none
  | .switchLoad => if s.writer = .idle then some { s with writer := .loaded } else none
  | .fetchXor =>
    if s.writer = .loaded then
      some { s with
        cohortVal := s.cohortVal ^^^ (kTopCohortBit + kBottomCohortBit)
        writer := .draining
        switches := s.switches + 1 }
    else none
  | .drainLoad =>
    if s.writer = .draining then
      some { s with writer := .afterLoad s.cohortVal }
    else none

/-! ## The word -/

/-- The word with `count true` references to the top half and `count false` to the bottom half,
of which the half `active` is in use. -/
def word (active : Bool) (count : Bool → ℕ) : ℕ :=
  2 ^ 32 * (2 ^ 31 * active.toNat + count true) + (2 ^ 31 * (!active).toNat + count false)

/-- The counts stay below the bits of the halves. -/
structure Encodes (cohort : BitVec 64) (active : Bool) (count : Bool → ℕ) : Prop where
  toNat_eq : cohort.toNat = word active count
  count_lt : ∀ top, count top < 2 ^ 31

section Word
variable {cohort : BitVec 64} {active : Bool} {count : Bool → ℕ}

lemma encodes_init : Encodes kBottomCohortBit false fun _ => 0 := ⟨rfl, fun _ => by decide⟩

section
variable (h : Encodes cohort active count)
include h

/-- The halves of the word. -/
lemma Encodes.halves : 2 ^ 31 * active.toNat + count true < 2 ^ 32 ∧
      2 ^ 31 * (!active).toNat + count false < 2 ^ 32 := by
  have htop := h.count_lt true
  have hbottom := h.count_lt false
  have hactive : active.toNat ≤ 1 := Bool.toNat_le _
  have hother : (!active).toNat ≤ 1 := Bool.toNat_le _
  omega

lemma Encodes.isTopCohort_eq : isTopCohort cohort = active := by
  have hbit : cohort.getLsbD 63 = active := by
    have hbottom := h.halves.2
    have hdiv : word active count / 2 ^ 63 % 2 = active.toNat := by
      have hactive : active.toNat ≤ 1 := Bool.toNat_le _
      have htop := h.count_lt true
      unfold word
      omega
    rw [BitVec.getLsbD, h.toNat_eq, testBit_eq_decide_div_mod_eq, hdiv]
    cases active <;> rfl
  have hzero : cohort &&& kTopCohortBit = 0 ↔ active = false := by
    rw [← hbit]
    exact Bits.and_shift_eq_zero cohort 63 (by decide)
  rw [Bool.eq_iff_iff, isTopCohort, decide_eq_true_iff, ne_eq, hzero, Bool.not_eq_false]

lemma Encodes.isBottomCohort_eq : isBottomCohort cohort = !active := by
  have hbit : cohort.getLsbD 31 = !active := by
    have hdiv : word active count / 2 ^ 31 % 2 = (!active).toNat := by
      have hother : (!active).toNat ≤ 1 := Bool.toNat_le _
      have hbottom := h.count_lt false
      unfold word
      omega
    rw [BitVec.getLsbD, h.toNat_eq, testBit_eq_decide_div_mod_eq, hdiv]
    cases active <;> rfl
  have hzero : cohort &&& kBottomCohortBit = 0 ↔ (!active) = false := by
    rw [← hbit]
    exact Bits.and_shift_eq_zero cohort 31 (by decide)
  rw [Bool.eq_iff_iff, isBottomCohort, decide_eq_true_iff, ne_eq, hzero, Bool.not_eq_false]

end

lemma toNat_kTopRef : kTopRef.toNat = 2 ^ 32 := rfl

lemma toNat_kBottomRef : kBottomRef.toNat = 1 := rfl

section
variable (h : Encodes cohort active count)
include h

lemma Encodes.add {top : Bool} {count' : Bool → ℕ}
    (hmore : count' top = count top + 1) (hsame : count' (!top) = count (!top))
    (hlt : count' top < 2 ^ 31) : Encodes (cohort + refOf top) active count' := by
  obtain ⟨htop, hbottom⟩ := h.halves
  have hlt' : ∀ t, count' t < 2 ^ 31 := by
    intro t
    by_cases ht : t = top
    · rw [ht]
      exact hlt
    · rw [Bool.eq_not.2 ht, hsame]
      exact h.count_lt _
  refine ⟨?_, hlt'⟩
  have hcohort := h.toNat_eq
  have hactive : active.toNat ≤ 1 := Bool.toNat_le _
  unfold word at hcohort ⊢
  cases top with
  | true =>
    have hbound := hlt' true
    have hsame' : count' false = count false := hsame
    rw [refOf, if_pos rfl, BitVec.toNat_add, toNat_kTopRef]
    omega
  | false =>
    have hbound := hlt' false
    have hsame' : count' true = count true := hsame
    rw [refOf, if_neg (by decide), BitVec.toNat_add, toNat_kBottomRef]
    omega

lemma Encodes.sub {top : Bool} {count' : Bool → ℕ}
    (hless : count' top + 1 = count top) (hsame : count' (!top) = count (!top)) :
    Encodes (cohort - refOf top) active count' := by
  obtain ⟨htop, hbottom⟩ := h.halves
  have hlt : ∀ t, count' t < 2 ^ 31 := by
    intro t
    by_cases ht : t = top
    · have := h.count_lt top
      rw [ht]
      omega
    · rw [Bool.eq_not.2 ht, hsame]
      exact h.count_lt _
  refine ⟨?_, hlt⟩
  have hcohort := h.toNat_eq
  unfold word at hcohort ⊢
  cases top with
  | true =>
    have hsame' : count' false = count false := hsame
    rw [refOf, if_pos rfl, BitVec.toNat_sub, toNat_kTopRef]
    omega
  | false =>
    have hsame' : count' true = count true := hsame
    rw [refOf, if_neg (by decide), BitVec.toNat_sub, toNat_kBottomRef]
    omega

lemma Encodes.switch : Encodes (cohort ^^^ (kTopCohortBit + kBottomCohortBit)) (!active) count := by
  obtain ⟨htop, hbottom⟩ := h.halves
  refine ⟨?_, h.count_lt⟩
  have hmask : (kTopCohortBit + kBottomCohortBit).toNat =
      2 ^ 32 * (2 ^ 31 * 1 + 0) + (2 ^ 31 * 1 + 0) := rfl
  rw [BitVec.toNat_xor, h.toNat_eq, hmask, word, Bits.xor_split hbottom (by decide),
    Bits.xor_split (h.count_lt true) (by decide), Bits.xor_split (h.count_lt false) (by decide),
    word, xor_zero, xor_zero]
  cases active <;> rfl

lemma toNat_refs :
    (getPending cohort true).toNat = count true ∧ (getPending cohort false).toNat = count false := by
  obtain ⟨htop, hbottom⟩ := h.halves
  have hlow := h.count_lt false
  have hhigh := h.count_lt true
  have hmaskTop : (~~~kTopCohortBit).toNat = 2 ^ 63 - 1 := rfl
  have hmaskBottom : (~~~kBottomCohortBit).toNat = 2 ^ 32 * (2 ^ 32 - 1) + (2 ^ 31 - 1) := rfl
  constructor
  · rw [getPending, if_pos rfl, BitVec.toNat_ushiftRight, BitVec.toNat_and, hmaskTop,
      and_two_pow_sub_one_eq_mod, h.toNat_eq, shiftRight_eq_div_pow, word]
    have hactive : active.toNat ≤ 1 := Bool.toNat_le _
    omega
  · rw [getPending, if_neg (by decide), BitVec.toNat_ushiftRight, BitVec.toNat_shiftLeft,
      BitVec.toNat_and, hmaskBottom, h.toNat_eq, word, Bits.and_split hbottom (by decide),
      and_two_pow_sub_one_eq_mod _ 31, shiftRight_eq_div_pow, shiftLeft_eq]
    omega

/-- The loop ends only if the half that is not in use is empty. -/
lemma Encodes.drained (hdrained : stillDraining cohort = false) : count (!active) = 0 := by
  obtain ⟨htop, hbottom⟩ := h.halves
  have hhalf : cohort <<< 32 = 0 ∨ cohort >>> 32 = 0 := by
    have hnot := of_decide_eq_false hdrained
    rw [not_and_or, not_not, not_not] at hnot
    exact hnot
  have hcohort := h.toNat_eq
  unfold word at hcohort
  rcases hhalf with hlow | hhigh
  · have hzero : (cohort <<< 32).toNat = 0 := by rw [hlow]; rfl
    rw [BitVec.toNat_shiftLeft, shiftLeft_eq] at hzero
    cases active with
    | true =>
      simp only [Bool.toNat_true, Bool.toNat_false, Bool.not_true] at *
      omega
    | false =>
      simp only [Bool.toNat_true, Bool.toNat_false, Bool.not_false] at *
      omega
  · have hzero : (cohort >>> 32).toNat = 0 := by rw [hhigh]; rfl
    rw [BitVec.toNat_ushiftRight, shiftRight_eq_div_pow] at hzero
    cases active with
    | true =>
      simp only [Bool.toNat_true, Bool.toNat_false, Bool.not_true] at *
      omega
    | false =>
      simp only [Bool.toNat_true, Bool.toNat_false, Bool.not_false] at *
      omega

end

end Word

/-! ## All interleavings -/

def Reader.isToken (top : Bool) : Reader → Bool
  | .token t _ => t == top
  | _ => false

/-- The reader is between its `fetch_add` and the `fetch_sub` that takes it back. -/
def Reader.isUndoing (top : Bool) : Reader → Bool
  | .undoing t => t == top
  | _ => false

/-- Fewer than `2 ^ 31 - 1` readers at the same time. -/
def Admitted (s : State) (a : Action) : Prop :=
  a = .enter → s.readers.length + 1 < 2 ^ 31 - 1

instance (s : State) (a : Action) : Decidable (Admitted s a) :=
  inferInstanceAs (Decidable (_ → _))

/-- One of the halves is in use, the counts are the references that are held, and while the writer
is not waiting, all tokens are from after its last switch. -/
structure Consistent (s : State) : Prop where
  oneBit : isTopCohort s.cohortVal = !isBottomCohort s.cohortVal
  pending : ∀ top, (getPending s.cohortVal top).toNat =
    s.readers.countP (Reader.isToken top) + s.readers.countP (Reader.isUndoing top)
  drained : s.writer ≠ .draining →
    ∀ top n, Reader.token top n ∈ s.readers → n = s.switches

def Reader.refs (top : Bool) : Reader → ℕ
  | .undoing t => (t == top).toNat
  | .token t _ => (t == top).toNat
  | _ => 0

def refsOf (l : List Reader) (top : Bool) : ℕ := (l.map (Reader.refs top)).sum

lemma refsOf_eq (l : List Reader) (top : Bool) :
    refsOf l top = l.countP (Reader.isToken top) + l.countP (Reader.isUndoing top) := by
  induction l with
  | nil => rfl
  | cons r l ih =>
    rw [refsOf, map_cons, sum_cons, countP_cons, countP_cons]
    rw [refsOf] at ih
    rw [ih]
    cases r with
    | starting | loaded => simp [Reader.refs, Reader.isToken, Reader.isUndoing]
    | undoing | token =>
      simp only [Reader.refs, Reader.isToken, Reader.isUndoing, Bool.toNat, cond_eq_ite]
      simp
      omega

lemma refsOf_le (l : List Reader) (top : Bool) : refsOf l top ≤ l.length := by
  induction l with
  | nil => exact le_rfl
  | cons r l ih =>
    have hone : Reader.refs top r ≤ 1 := by
      cases r <;> simp only [Reader.refs, zero_le, Bool.toNat_le]
    have hcons : refsOf (r :: l) top = Reader.refs top r + refsOf l top := rfl
    rw [hcons, length_cons]
    omega

/-- The half `active` is in use, and tokens of the other half are waited for. -/
structure Inv (s : State) (active : Bool) : Prop where
  encodes : Encodes s.cohortVal active (refsOf s.readers)
  few : s.readers.length < 2 ^ 31 - 1
  tokens : ∀ top n, Reader.token top n ∈ s.readers → (top = active ∧ n = s.switches) ∨
    (s.writer = .draining ∧ top = !active ∧ n + 1 = s.switches)

lemma Inv.init : Inv State.init false := by
  refine ⟨encodes_init, by decide, ?_⟩
  intro top n hmem
  cases hmem

lemma Inv.consistent {s : State} {active : Bool} (h : Inv s active) : Consistent s where
  oneBit := by
    rw [h.encodes.isTopCohort_eq, h.encodes.isBottomCohort_eq, Bool.not_not]
  pending := by
    intro top
    rw [← refsOf_eq]
    cases top with
    | true => exact (toNat_refs h.encodes).1
    | false => exact (toNat_refs h.encodes).2
  drained := by
    intro hwriter top n hmem
    rcases h.tokens top n hmem with ⟨-, hn⟩ | ⟨hdraining, -⟩
    · exact hn
    · exact absurd hdraining hwriter

section Steps
variable {s : State} {active : Bool} {i : ℕ} {r r' : Reader}

lemma refsOf_set (hr : s.readers[i]? = some r) (r' : Reader) (top : Bool) :
    refsOf (s.readers.set i r') top + r.refs top = refsOf s.readers top + r'.refs top :=
  sum_map_set hr (Reader.refs top) r'

section
variable (h : Inv s active)
include h

/-- A reader moves on without a token. -/
lemma Inv.set {cohort : BitVec 64} (hencodes : Encodes cohort active (refsOf (s.readers.set i r')))
    (htoken : ∀ top n, r' = .token top n → top = active ∧ n = s.switches) :
    Inv { s with cohortVal := cohort, readers := s.readers.set i r' } active := by
  refine ⟨hencodes, ?_, ?_⟩
  · rw [length_set]
    exact h.few
  · intro top n hmem
    rcases mem_or_eq_of_mem_set hmem with hold | hnew
    · exact h.tokens top n hold
    · exact .inl (htoken top n hnew.symm)

lemma Inv.load (hr : s.readers[i]? = some .starting) (top : Bool) :
    Inv { s with readers := s.readers.set i (.loaded top) } active := by
  have hrefs : refsOf (s.readers.set i (.loaded top)) = refsOf s.readers := by
    funext t
    exact refsOf_set hr (.loaded top) t
  exact h.set (hrefs ▸ h.encodes) (fun _ _ he => nomatch he)

/-- The reference counts as a token only if its half is still in use. -/
lemma Inv.fetchAdd {top : Bool} (hr : s.readers[i]? = some (.loaded top)) : Inv { s with
      cohortVal := s.cohortVal + refOf top
      readers := s.readers.set i
        (if isTopCohort s.cohortVal = top then .token top s.switches else .undoing top) } active := by
  rw [h.encodes.isTopCohort_eq]
  have hrefs := refsOf_set hr (if active = top then .token top s.switches else .undoing top)
  have hnew : ∀ t, Reader.refs t (if active = top then .token top s.switches else .undoing top) =
      (top == t).toNat := by
    intro t
    split_ifs <;> rfl
  simp only [hnew] at hrefs
  have hmore := hrefs top
  rw [beq_self_eq_true] at hmore
  refine h.set (h.encodes.add hmore ?_ ?_) ?_
  · have hsame := hrefs !top
    rwa [Bool.beq_not_self] at hsame
  · have hle := refsOf_le (s.readers.set i
      (if active = top then .token top s.switches else .undoing top)) top
    have hfew := h.few
    rw [length_set] at hle
    omega
  · intro t n he
    split_ifs at he with hactive
    cases he
    exact ⟨hactive.symm, rfl⟩

lemma Inv.fetchSub {top : Bool} (hr : s.readers[i]? = some (.undoing top)) : Inv { s with
      cohortVal := s.cohortVal - refOf top
      readers := s.readers.set i .starting } active := by
  have hrefs := refsOf_set hr .starting
  have hless := hrefs top
  simp only [Reader.refs, beq_self_eq_true, Bool.toNat_true] at hless
  refine h.set (h.encodes.sub hless ?_) (fun _ _ he => nomatch he)
  have hsame := hrefs !top
  simp only [Reader.refs, Bool.beq_not_self] at hsame
  exact hsame

lemma Inv.decrement {top : Bool} {n : ℕ} (hr : s.readers[i]? = some (.token top n)) :
    Inv { s with cohortVal := s.cohortVal - refOf top, readers := s.readers.eraseIdx i } active := by
  have hrefs : ∀ t, refsOf (s.readers.eraseIdx i) t + (top == t).toNat = refsOf s.readers t :=
    fun t => sum_map_eraseIdx hr (Reader.refs t)
  have hless := hrefs top
  rw [beq_self_eq_true] at hless
  have hsame := hrefs !top
  rw [Bool.beq_not_self] at hsame
  refine ⟨h.encodes.sub hless hsame, ?_, ?_⟩
  · exact (length_eraseIdx_le _ _).trans_lt h.few
  · intro t m hmem
    exact h.tokens t m (mem_of_mem_eraseIdx hmem)

/-- All tokens are of the half that was in use: they are now waited for. -/
lemma Inv.fetchXor (hwriter : s.writer = .loaded) : Inv { s with
      cohortVal := s.cohortVal ^^^ (kTopCohortBit + kBottomCohortBit)
      writer := .draining
      switches := s.switches + 1 } (!active) := by
  refine ⟨h.encodes.switch, h.few, ?_⟩
  intro top n hmem
  rcases h.tokens top n hmem with ⟨htop, hn⟩ | ⟨hdraining, -⟩
  · exact .inr ⟨rfl, by rw [Bool.not_not, htop], by rw [hn]⟩
  · rw [hwriter] at hdraining
    cases hdraining

end

lemma token_refs {l : List Reader} {top : Bool} {n : ℕ} (hmem : Reader.token top n ∈ l) :
    0 < refsOf l top := by
  rw [refsOf_eq]
  have hpos : 0 < l.countP (Reader.isToken top) := countP_pos_iff.2 ⟨_, hmem, beq_self_eq_true top⟩
  omega

lemma Inv.drainLoad (h : Inv s active) :
    Inv { s with writer := .afterLoad s.cohortVal } active := by
  refine ⟨h.encodes, h.few, ?_⟩
  dsimp only
  intro top n hmem
  rcases h.tokens top n hmem with hnow | ⟨-, htop, hn⟩
  · exact .inl hnow
  · by_cases hdraining : stillDraining s.cohortVal = true
    · have hwriter : Writer.afterLoad s.cohortVal = .draining := by
        rw [Writer.afterLoad, if_pos hdraining]
      exact .inr ⟨hwriter, htop, hn⟩
    · have hempty := h.encodes.drained (Bool.eq_false_iff.2 hdraining)
      have hpos := token_refs hmem
      rw [htop] at hpos
      omega

lemma step_inv {a : Action} {t : State} (hadmitted : Admitted s a) (h : ∃ active, Inv s active)
    (hstep : step s a = some t) : ∃ active, Inv t active := by
  obtain ⟨active, h⟩ := h
  cases a with
  | enter =>
    cases hstep
    have hrefs : refsOf (s.readers ++ [.starting]) = refsOf s.readers := by
      funext top
      simp [refsOf, Reader.refs]
    refine ⟨active, by rw [hrefs]; exact h.encodes, ?_, ?_⟩
    · have := hadmitted rfl
      rw [length_append, length_singleton]
      exact this
    · intro top n hmem
      rcases mem_append.1 hmem with hold | hnew
      · exact h.tokens top n hold
      · cases mem_singleton.1 hnew
  | load i =>
    rw [step] at hstep
    split at hstep
    next hr =>
      cases hstep
      exact ⟨active, h.load hr _⟩
    · cases hstep
  | fetchAdd i =>
    rw [step] at hstep
    split at hstep
    next hr =>
      cases hstep
      exact ⟨active, h.fetchAdd hr⟩
    · cases hstep
  | fetchSub i =>
    rw [step] at hstep
    split at hstep
    next hr =>
      cases hstep
      exact ⟨active, h.fetchSub hr⟩
    · cases hstep
  | decrement i =>
    rw [step] at hstep
    split at hstep
    next hr =>
      cases hstep
      exact ⟨active, h.decrement hr⟩
    · cases hstep
  | switchLoad =>
    rw [step] at hstep
    split_ifs at hstep with hwriter
    cases hstep
    refine ⟨active, h.encodes, h.few, fun top n hmem => ?_⟩
    rcases h.tokens top n hmem with hnow | ⟨hdraining, -⟩
    · exact .inl hnow
    · rw [hwriter] at hdraining
      cases hdraining
  | fetchXor =>
    rw [step] at hstep
    split_ifs at hstep with hwriter
    cases hstep
    exact ⟨!active, h.fetchXor hwriter⟩
  | drainLoad =>
    rw [step] at hstep
    split_ifs at hstep with hwriter
    cases hstep
    exact ⟨active, h.drainLoad⟩

end Steps

/-- In every interleaving, exactly one of the bits is set, the counts are right, and a switch that
has returned has left no token from before it. -/
theorem cohort_consistent {actions : List Action} (hfew : Meets step Admitted State.init actions) :
    Always step Consistent State.init actions :=
  always_of_meets (fun _ h => h.elim fun _ h => h.consistent) (fun _ _ _ => step_inv) hfew
    ⟨false, Inv.init⟩

/-- A reader with a token is waited for, while another one that has seen the old half takes its
reference back. -/
def switchWithReaders : List Action :=
  [.enter, .load 0, .enter, .load 1, .fetchAdd 0, .switchLoad, .fetchXor, .fetchAdd 1, .drainLoad,
    .decrement 0, .drainLoad, .fetchSub 0, .drainLoad, .load 0, .fetchAdd 0]

theorem switchWithReaders_consistent :
    (run step State.init switchWithReaders).map (fun s => (s.readers, s.writer)) =
        some ([.token true 1], .idle) ∧
      Always step Consistent State.init switchWithReaders :=
  ⟨by decide, cohort_consistent (by decide +kernel)⟩

end HybridCache.Cohort

import HybridCache.Transition
import HybridCache.Refcount

/-!
# The exclusivity protocol of RefcountWithFlags

A step is one load, one compare-and-swap iteration or one atomic or/and of one
thread, so a run is an interleaving at the granularity of the hardware.

The fields `linked`, `accessible` and `flags` of the state, and `handles` and
`mark` of a thread, are not in the word: they record what the callers did, and
the theorems compare the word with them.
-/
namespace HybridCache.Refcount
open Transition Bits Function Nat

/-- The exclusive mark a thread owns after a successful mark call. -/
inductive Mark where
  | eviction
  | moving
  deriving DecidableEq, Repr

/-- A thread with the handles and the mark it owns. `pc` is the running
compare-and-swap loop with the value it loaded last. -/
structure Thread where
  handles : ℕ := 0
  mark : Option Mark := none
  pc : Option (CasOp × Value) := none
  deriving DecidableEq, Repr

structure State (n : ℕ) where
  word : Value
  threads : Fin n → Thread
  linked : Bool
  accessible : Bool
  flags : Flag → Bool

def initial (n : ℕ) : State n where
  word := 0
  threads := fun _ => {}
  linked := false
  accessible := false
  flags := fun _ => false

/-- What the callers guarantee: only a holder releases, and only the thread with
the moving mark converts or drops it. -/
def CasOp.mayStart : CasOp → Thread → Bool
  | .decRef, th => decide (0 < th.handles)
  | .unmarkMoving, th => decide (th.mark = some .moving)
  | .markForEvictionWhenMoving, th => decide (th.mark = some .moving)
  | _, _ => true

def FetchOp.mayRun : FetchOp → Thread → Bool
  | .unmarkForEviction, th => decide (th.mark = some .eviction)
  | _, _ => true

/-- What a thread owns after a successful exchange. -/
def CasOp.finish : CasOp → Thread → Thread
  | .incRef, th => { handles := th.handles + 1, mark := th.mark }
  | .decRef, th => { handles := th.handles - 1, mark := th.mark }
  | .markForEviction, th => { handles := th.handles, mark := some .eviction }
  | .markMoving, th => { handles := th.handles, mark := some .moving }
  | .unmarkMoving, th => { handles := th.handles, mark := none }
  | .markForEvictionWhenMoving, th => { handles := th.handles, mark := some .eviction }

/-- The thread after a fetch instruction: `unmarkForEviction` gives the mark up. -/
def FetchOp.finish (op : FetchOp) (th : Thread) : Thread :=
  if op = .unmarkForEviction then { th with mark := none } else th

def State.setThread {n : ℕ} (s : State n) (t : Fin n) (th : Thread) : State n :=
  { s with threads := update s.threads t th }

/-- The word and the record of the caller's action after a fetch instruction. -/
def FetchOp.apply {n : ℕ} (op : FetchOp) (s : State n) : State n :=
  let s' := { s with word := op.newValue s.word }
  match op with
  | .markInMMContainer => { s' with linked := true }
  | .unmarkInMMContainer => { s' with linked := false }
  | .markAccessible => { s' with accessible := true }
  | .unmarkAccessible => { s' with accessible := false }
  | .setFlag f => { s' with flags := update s.flags f true }
  | .unSetFlag f => { s' with flags := update s.flags f false }
  | .unmarkForEviction => s'

inductive Action (n : ℕ) where
  /-- enter `atomicUpdateValue`: the first load of the word -/
  | load (t : Fin n) (op : CasOp)
  /-- one iteration of its loop: predicate, new value, compare-and-swap -/
  | attempt (t : Fin n)
  | fetch (t : Fin n) (op : FetchOp)

def step {n : ℕ} (s : State n) : Action n → Option (State n)
  | .load t op =>
    let th := s.threads t
    if th.pc = none ∧ op.mayStart th = true then
      some (s.setThread t { th with pc := some (op, s.word) })
    else none
  | .attempt t =>
    let th := s.threads t
    match th.pc with
    | none => none
    | some (op, cur) =>
      if op.predicate cur = .update then
        if s.word = cur then
          some { s.setThread t (op.finish th) with word := op.newValue cur }
        -- the failed exchange stores the current word into `curValue`
        else some (s.setThread t { th with pc := some (op, s.word) })
      else some (s.setThread t { th with pc := none })
  | .fetch t op =>
    let th := s.threads t
    if th.pc = none ∧ op.mayRun th = true then
      some ((op.apply s).setThread t (op.finish th))
    else none

/-! ## Counting what the threads own -/

def State.handles {n : ℕ} (s : State n) : ℕ := ∑ t, (s.threads t).handles

def Thread.owns (th : Thread) (m : Mark) : ℕ := if th.mark = some m then 1 else 0

def State.marked {n : ℕ} (s : State n) (m : Mark) : ℕ := ∑ t, (s.threads t).owns m

section Counts
variable {n : ℕ} (s : State n) (t : Fin n) (th : Thread)

@[simp] lemma setThread_word : (s.setThread t th).word = s.word := rfl
@[simp] lemma setThread_linked : (s.setThread t th).linked = s.linked := rfl
@[simp] lemma setThread_accessible : (s.setThread t th).accessible = s.accessible := rfl
@[simp] lemma setThread_flags : (s.setThread t th).flags = s.flags := rfl

lemma handles_setThread :
    (s.setThread t th).handles + (s.threads t).handles = s.handles + th.handles :=
  sum_update s.threads Thread.handles t th

lemma marked_setThread (m : Mark) :
    (s.setThread t th).marked m + (s.threads t).owns m = s.marked m + th.owns m :=
  sum_update s.threads (fun th => th.owns m) t th

lemma handles_le : (s.threads t).handles ≤ s.handles := le_sum (fun j => (s.threads j).handles) t

lemma owns_le (m : Mark) : (s.threads t).owns m ≤ s.marked m :=
  le_sum (fun j => (s.threads j).owns m) t

lemma marked_pos_iff (m : Mark) : 0 < s.marked m ↔ ∃ t, (s.threads t).mark = some m := by
  simp [State.marked, Thread.owns, pos_iff_ne_zero]

end Counts

/-- The word says what the threads own and what the callers last did to each bit. -/
structure Inv {n : ℕ} (s : State n) : Prop where
  access : accessBits s.word = s.handles + s.marked .moving
  exclusive : s.word.getLsbD 20 = decide (0 < s.marked .eviction + s.marked .moving)
  one_mark : s.marked .eviction + s.marked .moving ≤ 1
  unshared : 0 < s.marked .eviction + s.marked .moving → s.handles = 0
  linked : s.word.getLsbD 18 = s.linked
  accessible : s.word.getLsbD 19 = s.accessible
  flags : ∀ f : Flag, s.word.getLsbD f.bit = s.flags f
  unused : ∀ i, 29 ≤ i → i < 32 → s.word.getLsbD i = false
  running : ∀ t op cur, (s.threads t).pc = some (op, cur) → op.mayStart (s.threads t) = true

lemma initial_inv (n : ℕ) : Inv (initial n) := by
  constructor <;> simp [initial, State.handles, State.marked, Thread.owns, accessBits_eq]

variable {n : ℕ}

variable {s : State n} {m : Mark}

/-- A step that leaves every thread's possessions and all bits alone. -/
lemma Inv.setPc (hi : Inv s) (t : Fin n) (pc : Option (CasOp × Value))
    (hpc : ∀ op cur, pc = some (op, cur) → op.mayStart (s.threads t) = true) :
    Inv (s.setThread t { s.threads t with pc := pc }) := by
  have hh := handles_setThread s t { s.threads t with pc := pc }
  have hm := marked_setThread s t { s.threads t with pc := pc }
  have howns : ∀ m, ({ s.threads t with pc := pc } : Thread).owns m = (s.threads t).owns m :=
    fun _ => rfl
  simp only [howns, add_right_cancel_iff] at hh hm
  refine ⟨?_, ?_, ?_, ?_, hi.linked, hi.accessible, hi.flags, hi.unused, ?_⟩
  · rw [hh, hm]; exact hi.access
  · rw [hm, hm]; exact hi.exclusive
  · rw [hm, hm]; exact hi.one_mark
  · rw [hm, hm, hh]; exact hi.unshared
  · intro u op cur hu
    by_cases hut : u = t
    · subst hut
      simp only [State.setThread, update_self] at hu ⊢
      have := hpc op cur hu
      cases op <;> exact this
    · simp only [State.setThread, update_of_ne hut] at hu ⊢
      exact hi.running u op cur hu

lemma Inv.no_mark (hi : Inv s) (h : s.word.getLsbD 20 = false) :
    s.marked .eviction + s.marked .moving = 0 := by
  rw [hi.exclusive, decide_eq_false_iff_not] at h
  omega

lemma Thread.owns_eq_one (th : Thread) (h : th.mark = some m) : th.owns m = 1 := if_pos h

lemma Thread.owns_eq_zero (th : Thread) (h : th.mark ≠ some m) : th.owns m = 0 :=
  if_neg h

section
variable {s : State n} (hi : Inv s) (t : Fin n)
include hi

lemma exchange_counts (op : CasOp)
    (hstart : op.mayStart (s.threads t) = true) (hp : op.predicate s.word = .update) :
    let s' := s.setThread t (op.finish (s.threads t))
    (op.released = 1 → accessBits s.word ≠ 0) ∧
    s'.handles + s'.marked .moving + op.released = s.handles + s.marked .moving + op.acquired ∧
    (0 < s'.marked .eviction + s'.marked .moving ↔ op.exclusiveAfter (s.word.getLsbD 20) = true) ∧
    s'.marked .eviction + s'.marked .moving ≤ 1 ∧
    (0 < s'.marked .eviction + s'.marked .moving → s'.handles = 0) := by
  intro s'
  have hh := handles_setThread s t (op.finish (s.threads t))
  have he := marked_setThread s t (op.finish (s.threads t)) .eviction
  have hm := marked_setThread s t (op.finish (s.threads t)) .moving
  have hle := handles_le s t
  have hoe := owns_le s t .eviction
  have hom := owns_le s t .moving
  have hone := hi.one_mark
  have hun := hi.unshared
  have hacc := hi.access
  have hexc := hi.exclusive
  change s'.handles + _ = _ at hh
  change s'.marked .eviction + _ = _ at he
  change s'.marked .moving + _ = _ at hm
  clear_value s'
  cases op with
  | incRef =>
    -- the exclusive bit is clear, so nobody holds a mark
    have hbit := ((incRef_update_iff s.word).1 hp).2
    have hfree := hi.no_mark hbit
    rw [show (CasOp.incRef.finish (s.threads t)).owns _ = (s.threads t).owns _ from rfl] at he hm
    simp only [CasOp.finish] at hh
    simp only [CasOp.released, CasOp.acquired, CasOp.exclusiveAfter, hbit, Bool.false_eq_true,
      iff_false]
    omega
  | decRef =>
    -- the caller's own handle excludes every mark
    have hown : 0 < (s.threads t).handles := of_decide_eq_true hstart
    have hbit : s.word.getLsbD 20 = false := by
      rw [hexc, decide_eq_false_iff_not]
      omega
    rw [show (CasOp.decRef.finish (s.threads t)).owns _ = (s.threads t).owns _ from rfl] at he hm
    simp only [CasOp.finish] at hh
    simp only [CasOp.released, CasOp.acquired, CasOp.exclusiveAfter, hbit, Bool.false_eq_true,
      iff_false]
    omega
  | markForEviction =>
    obtain ⟨-, hbit, h0⟩ := (mark_update_iff s.word (.inl rfl)).1 hp
    have hfree := hi.no_mark hbit
    rw [Thread.owns_eq_one (CasOp.finish _ _) rfl] at he
    rw [Thread.owns_eq_zero (CasOp.finish _ _) (by simp [CasOp.finish])] at hm
    simp only [CasOp.finish] at hh
    simp only [CasOp.released, CasOp.acquired, CasOp.exclusiveAfter, iff_true]
    omega
  | markMoving =>
    obtain ⟨-, hbit, h0⟩ := (mark_update_iff s.word (.inr rfl)).1 hp
    have hfree := hi.no_mark hbit
    rw [Thread.owns_eq_one (CasOp.finish _ _) rfl] at hm
    rw [Thread.owns_eq_zero (CasOp.finish _ _) (by simp [CasOp.finish])] at he
    simp only [CasOp.finish] at hh
    simp only [CasOp.released, CasOp.acquired, CasOp.exclusiveAfter, iff_true]
    omega
  | unmarkMoving =>
    have hown := Thread.owns_eq_one (s.threads t) (of_decide_eq_true hstart)
    rw [Thread.owns_eq_zero (CasOp.finish _ _) (by simp [CasOp.finish])] at he hm
    simp only [CasOp.finish] at hh
    simp only [CasOp.released, CasOp.acquired, CasOp.exclusiveAfter, Bool.false_eq_true, iff_false]
    omega
  | markForEvictionWhenMoving =>
    have hmark : (s.threads t).mark = some .moving := of_decide_eq_true hstart
    have hown := Thread.owns_eq_one _ hmark
    rw [Thread.owns_eq_one (CasOp.finish _ _) rfl] at he
    rw [Thread.owns_eq_zero (CasOp.finish _ _) (by simp [CasOp.finish])] at hm
    have hbit : s.word.getLsbD 20 = true := by
      rw [hexc, decide_eq_true_iff]
      omega
    simp only [CasOp.finish] at hh
    simp only [CasOp.released, CasOp.acquired, CasOp.exclusiveAfter, hbit, iff_true]
    omega

lemma Inv.running_setThread (th : Thread)
    (hth : th.pc = none) (u : Fin n) (op : CasOp) (cur : Value)
    (hu : ((s.setThread t th).threads u).pc = some (op, cur)) :
    op.mayStart ((s.setThread t th).threads u) = true := by
  by_cases hut : u = t
  · subst hut
    simp [State.setThread, hth] at hu
  · simp only [State.setThread, update_of_ne hut] at hu ⊢
    exact hi.running u op cur hu

lemma Inv.exchange (op : CasOp)
    (hstart : op.mayStart (s.threads t) = true) (hp : op.predicate s.word = .update) :
    Inv { s.setThread t (op.finish (s.threads t)) with word := op.newValue s.word } := by
  obtain ⟨hrel, hcount, hexc, hone, hun⟩ := exchange_counts hi t op hstart hp
  obtain ⟨hacc, hbits, h20⟩ := newValue_spec op s.word hp hrel
  have hold := hi.access
  refine ⟨?_, ?_, hone, hun, ?_, ?_, ?_, ?_, ?_⟩
  · change accessBits (op.newValue s.word) = (s.setThread t (op.finish (s.threads t))).handles +
        (s.setThread t (op.finish (s.threads t))).marked .moving
    omega
  · change (op.newValue s.word).getLsbD 20 = _
    rw [h20, Bool.eq_iff_iff, decide_eq_true_iff]
    exact hexc.symm
  · exact (hbits 18 (by decide) (by decide) (by decide)).trans hi.linked
  · exact (hbits 19 (by decide) (by decide) (by decide)).trans hi.accessible
  · intro f
    have hf := f.bit_bounds
    exact (hbits f.bit (by omega) (by omega) (by omega)).trans (hi.flags f)
  · intro i h29 h32
    exact (hbits i (by omega) h32 (by omega)).trans (hi.unused i h29 h32)
  · intro u op' cur hu
    exact hi.running_setThread t (op.finish (s.threads t)) (by cases op <;> rfl) u op' cur hu

end

section Fetch
variable {n : ℕ} (op : FetchOp) (s : State n)

@[simp] lemma apply_word : (op.apply s).word = op.newValue s.word := by cases op <;> rfl
@[simp] lemma apply_threads : (op.apply s).threads = s.threads := by cases op <;> rfl

lemma apply_linked : (op.apply s).linked = if 18 = op.bit then op.written else s.linked := by
  cases op with
  | setFlag f | unSetFlag f => cases f <;> rfl
  | _ => rfl

lemma apply_accessible :
    (op.apply s).accessible = if 19 = op.bit then op.written else s.accessible := by
  cases op with
  | setFlag f | unSetFlag f => cases f <;> rfl
  | _ => rfl

lemma apply_flags (f : Flag) :
    (op.apply s).flags f = if f.bit = op.bit then op.written else s.flags f := by
  cases op with
  | setFlag g | unSetFlag g =>
    simp only [FetchOp.apply, FetchOp.bit, FetchOp.written, update_apply]
    by_cases hfg : f = g
    · simp [hfg]
    · simp [hfg, mt Flag.bit_inj hfg]
  | _ => cases f <;> rfl

end Fetch

lemma fetch_counts (hi : Inv s) (t : Fin n) (op : FetchOp)
    (hrun : op.mayRun (s.threads t) = true) :
    let s' := (op.apply s).setThread t (op.finish (s.threads t))
    s'.handles = s.handles ∧ s'.marked .moving = s.marked .moving ∧
      (op ≠ .unmarkForEviction → s'.marked .eviction = s.marked .eviction) ∧
      (op = .unmarkForEviction →
        s'.marked .eviction = 0 ∧ s'.marked .moving = 0 ∧ 0 < s.marked .eviction) := by
  intro s'
  have hh := handles_setThread (op.apply s) t (op.finish (s.threads t))
  have he := marked_setThread (op.apply s) t (op.finish (s.threads t)) .eviction
  have hm := marked_setThread (op.apply s) t (op.finish (s.threads t)) .moving
  have hsame : (op.apply s).handles = s.handles ∧ ∀ m, (op.apply s).marked m = s.marked m := by
    simp [State.handles, State.marked]
  have hfin : (op.finish (s.threads t)).handles = (s.threads t).handles := by
    unfold FetchOp.finish
    split_ifs <;> rfl
  rw [hsame.1, apply_threads, hfin] at hh
  rw [hsame.2, apply_threads] at he hm
  change s'.handles + _ = _ at hh
  change s'.marked .eviction + _ = _ at he
  change s'.marked .moving + _ = _ at hm
  clear_value s'
  have hone := hi.one_mark
  by_cases hop : op = .unmarkForEviction
  · subst hop
    have hmark : (s.threads t).mark = some .eviction := of_decide_eq_true hrun
    have hown := owns_le s t .eviction
    rw [Thread.owns_eq_one _ hmark] at he hown
    rw [Thread.owns_eq_zero (FetchOp.finish _ _) (by simp [FetchOp.finish])] at he hm
    exact ⟨by omega, by omega, fun h => absurd rfl h, fun _ => ⟨by omega, by omega, by omega⟩⟩
  · rw [FetchOp.finish, if_neg hop] at he hm
    exact ⟨by omega, by omega, fun _ => by omega, fun h => absurd h hop⟩

lemma Inv.fetch (hi : Inv s) (t : Fin n) (op : FetchOp)
    (hpc : (s.threads t).pc = none) (hrun : op.mayRun (s.threads t) = true) :
    Inv ((op.apply s).setThread t (op.finish (s.threads t))) := by
  obtain ⟨hh, hm, hkeep, hdrop⟩ := fetch_counts hi t op hrun
  obtain ⟨hacc, hbits⟩ := fetch_newValue_spec op s.word
  have hone := hi.one_mark
  have hun := hi.unshared
  refine ⟨?_, ?_, ?_, ?_, ?_, ?_, fun f => ?_, fun i h29 h32 => ?_, fun u op' cur hu => ?_⟩
  · rw [hh, hm, setThread_word, apply_word, hacc]
    exact hi.access
  · rw [setThread_word, apply_word, hbits 20 (by decide)]
    by_cases hop : op = .unmarkForEviction
    · obtain ⟨h1, h2, -⟩ := hdrop hop
      rw [h1, h2, hop]
      rfl
    · have h20 : 20 ≠ op.bit := by
        cases op with
        | setFlag f | unSetFlag f =>
          have := f.bit_bounds
          simp only [FetchOp.bit]
          omega
        | unmarkForEviction => exact absurd rfl hop
        | _ => decide
      rw [if_neg h20, hkeep hop, hm]
      exact hi.exclusive
  · by_cases hop : op = .unmarkForEviction
    · have := hdrop hop
      omega
    · rw [hkeep hop, hm]
      exact hone
  · by_cases hop : op = .unmarkForEviction
    · have := hdrop hop
      omega
    · rw [hkeep hop, hm, hh]
      exact hun
  · rw [setThread_word, apply_word, setThread_linked, hbits 18 (by decide), apply_linked, hi.linked]
  · rw [setThread_word, apply_word, setThread_accessible, hbits 19 (by decide), apply_accessible,
      hi.accessible]
  · have hf := f.bit_bounds
    rw [setThread_word, apply_word, setThread_flags, hbits f.bit (by omega), apply_flags,
      hi.flags f]
  · have hne : i ≠ op.bit := by
      cases op with
      | setFlag f | unSetFlag f =>
        have := f.bit_bounds
        simp only [FetchOp.bit]
        omega
      | _ => simp only [FetchOp.bit]; omega
    rw [setThread_word, apply_word, hbits i h32, if_neg hne]
    exact hi.unused i h29 h32
  · have hfin : (op.finish (s.threads t)).pc = none := by
      unfold FetchOp.finish
      split_ifs <;> exact hpc
    have hthr : (((op.apply s).setThread t (op.finish (s.threads t))).threads) =
        (s.setThread t (op.finish (s.threads t))).threads := by
      simp [State.setThread]
    rw [hthr] at hu ⊢
    exact hi.running_setThread t _ hfin u op' cur hu

lemma step_inv (s : State n) (a : Action n) (s' : State n) (hi : Inv s)
    (h : step s a = some s') : Inv s' := by
  cases a with
  | load t op =>
    simp only [step, Option.ite_none_right_eq_some, Option.some.injEq] at h
    obtain ⟨⟨-, hstart⟩, rfl⟩ := h
    refine hi.setPc t _ fun op' cur heq => ?_
    cases heq
    exact hstart
  | attempt t =>
    simp only [step] at h
    split at h
    · cases h
    · rename_i op cur hpc
      have hstart := hi.running t op cur hpc
      split_ifs at h with hp hcur
      · subst hcur
        cases h
        exact hi.exchange t op hstart hp
      · cases h
        refine hi.setPc t _ fun op' cur' heq => ?_
        cases heq
        exact hstart
      · cases h
        exact hi.setPc t none fun _ _ heq => by cases heq
  | fetch t op =>
    simp only [step, Option.ite_none_right_eq_some, Option.some.injEq] at h
    obtain ⟨⟨hpc, hrun⟩, rfl⟩ := h
    exact hi.fetch t op hpc hrun

theorem reachable_inv {as : List (Action n)}
    (h : run step (initial n) as = some s) : Inv s :=
  run_invariant step_inv (initial_inv n) h

section
variable {s : State n} (hi : Inv s)
include hi

lemma Inv.mark_unique (t u : Fin n)
    (ht : (s.threads t).mark ≠ none) (hu : (s.threads u).mark ≠ none) : t = u := by
  by_contra hne
  have hown : ∀ v, (s.threads v).mark ≠ none →
      (s.threads v).owns .eviction + (s.threads v).owns .moving = 1 := by
    intro v hv
    cases hm : (s.threads v).mark with
    | none => exact absurd hm hv
    | some m => cases m <;> simp [Thread.owns, hm]
  have hpair : ∑ v ∈ {t, u}, ((s.threads v).owns .eviction + (s.threads v).owns .moving) ≤
      ∑ v, ((s.threads v).owns .eviction + (s.threads v).owns .moving) :=
    Finset.sum_le_univ_sum_of_nonneg fun _ => zero_le _
  rw [Finset.sum_pair hne, hown t ht, hown u hu, Finset.sum_add_distrib] at hpair
  have hone := hi.one_mark
  simp only [State.marked] at hone
  omega

lemma Inv.isMoving_iff : isMoving s.word = true ↔ ∃ t, (s.threads t).mark = some .moving := by
  have hx := and_shift_eq_zero s.word 20 (by decide)
  rw [← marked_pos_iff]
  simp only [isMoving, getAdminRef, AdminRef.bit, kNumAccessRefBits, reduceAdd, ne_eq, hx,
    and_accessRefMask_eq_zero, hi.exclusive, hi.access, decide_eq_false_iff_not,
    decide_eq_true_iff]
  have hun := hi.unshared
  omega

lemma Inv.isMarkedForEviction_iff :
    isMarkedForEviction s.word = true ↔ ∃ t, (s.threads t).mark = some .eviction := by
  have hx := and_shift_eq_zero s.word 20 (by decide)
  rw [← marked_pos_iff]
  simp only [isMarkedForEviction, getAdminRef, AdminRef.bit, kNumAccessRefBits, reduceAdd,
    ne_eq, hx, and_accessRefMask_eq_zero, hi.exclusive, hi.access, decide_eq_false_iff_not,
    decide_eq_true_iff]
  have hun := hi.unshared
  have hone := hi.one_mark
  omega

lemma Inv.getAccessRef_eq : (getAccessRef s.word).toNat = s.handles := by
  have hx := and_shift_eq_zero s.word 20 (by decide)
  have hacc : (s.word &&& kAccessRefMask).toNat = s.handles + s.marked .moving := hi.access
  have hun := hi.unshared
  have hone := hi.one_mark
  simp only [getAccessRef, getAdminRef, AdminRef.bit, kNumAccessRefBits, reduceAdd, ne_eq, hx,
    hi.exclusive, decide_eq_false_iff_not]
  split_ifs with hc
  · rw [BitVec.toNat_sub]
    change (2 ^ 32 - 1 + (s.word &&& kAccessRefMask).toNat) % 2 ^ 32 = _
    omega
  · omega

lemma Inv.incRef_refused {t : Fin n} (ht : (s.threads t).mark = some .eviction) :
    s.handles = 0 ∧ CasOp.incRef.predicate s.word = .kIncFailedEviction := by
  have hpos := (marked_pos_iff s .eviction).2 ⟨t, ht⟩
  have hh := hi.unshared (by omega)
  have hone := hi.one_mark
  have hacc := hi.access
  have hbit : ¬ s.word.getLsbD 20 = false := by
    rw [hi.exclusive, decide_eq_false_iff_not]
    omega
  refine ⟨hh, ?_⟩
  have hx := and_shift_eq_zero s.word 20 (by decide)
  simp only [CasOp.predicate, getAdminRef, AdminRef.bit, kNumAccessRefBits, reduceAdd, ne_eq,
    hx, and_accessRefMask_eq_mask, and_accessRefMask_eq_zero]
  rw [if_neg (by omega), if_pos hbit, if_pos (by omega)]

end

/-- While an eviction mark is held, an `incRef` loop in flight does not get its
reference, whatever value it loaded before. -/
lemma Inv.attempt_incRef {s' : State n} (hi : Inv s) {t u : Fin n} {cur : Value}
    (ht : (s.threads t).mark = some .eviction) (hpc : (s.threads u).pc = some (.incRef, cur))
    (h : step s (.attempt u) = some s') : s'.word = s.word ∧ s'.handles = 0 := by
  obtain ⟨hh, hpred⟩ := hi.incRef_refused ht
  have hkeep : ∀ pc, (s.setThread u { s.threads u with pc := pc }).handles = 0 := by
    intro pc
    have := handles_setThread s u { s.threads u with pc := pc }
    simp only [add_right_cancel_iff] at this
    rw [this, hh]
  simp only [step, hpc] at h
  split_ifs at h with hp hcur
  · rw [← hcur, hpred] at hp
    cases hp
  · cases h
    exact ⟨rfl, hkeep _⟩
  · cases h
    exact ⟨rfl, hkeep _⟩

/-- The exclusivity protocol. In every state that any interleaving of any number
of threads reaches from the value 0: the access bits are the outstanding handles
plus the moving reference, every other bit is what the callers last made it, at
most one thread holds a mark, an eviction mark excludes handles and new
references, and a drained word means that nothing is held or linked. -/
theorem exclusivity_protocol {n : ℕ} {as : List (Action n)} {s : State n}
    (h : run step (initial n) as = some s) :
    (s.word &&& kAccessRefMask).toNat =
        s.handles + (if ∃ t, (s.threads t).mark = some .moving then 1 else 0) ∧
      (s.word.getLsbD AdminRef.kLinked.bit = s.linked ∧
        s.word.getLsbD AdminRef.kAccessible.bit = s.accessible ∧
        (s.word.getLsbD AdminRef.kExclusive.bit = true ↔ ∃ t, (s.threads t).mark ≠ none) ∧
        (∀ f : Flag, s.word.getLsbD f.bit = s.flags f) ∧
        ∀ i, 29 ≤ i → i < 32 → s.word.getLsbD i = false) ∧
      (isMoving s.word = true ↔ ∃ t, (s.threads t).mark = some .moving) ∧
      (isMarkedForEviction s.word = true ↔ ∃ t, (s.threads t).mark = some .eviction) ∧
      (∀ t u, (s.threads t).mark ≠ none → (s.threads u).mark ≠ none → t = u) ∧
      (∀ t, (s.threads t).mark = some .eviction →
        s.handles = 0 ∧ CasOp.incRef.predicate s.word = .kIncFailedEviction ∧
        ∀ u cur s', (s.threads u).pc = some (.incRef, cur) → step s (.attempt u) = some s' →
          s'.word = s.word ∧ s'.handles = 0) ∧
      (isDrained s.word = true → s.handles = 0 ∧ s.linked = false ∧ s.accessible = false ∧
          ∀ t, (s.threads t).mark = none) := by
  have hi := reachable_inv h
  have hmoving := marked_pos_iff s .moving
  have heviction := marked_pos_iff s .eviction
  have hone := hi.one_mark
  have hany : (∃ t, (s.threads t).mark ≠ none) ↔ 0 < s.marked .eviction + s.marked .moving := by
    rw [add_pos_iff_pos_or_pos, hmoving, heviction]
    constructor
    · rintro ⟨t, ht⟩
      cases hm : (s.threads t).mark with
      | none => exact absurd hm ht
      | some m => cases m <;> [exact .inl ⟨t, hm⟩; exact .inr ⟨t, hm⟩]
    · rintro (⟨t, ht⟩ | ⟨t, ht⟩) <;> exact ⟨t, by simp [ht]⟩
  refine ⟨?_, ⟨hi.linked, hi.accessible, ?_, hi.flags, hi.unused⟩, hi.isMoving_iff,
    hi.isMarkedForEviction_iff, hi.mark_unique, fun t ht => ?_, fun hd => ?_⟩
  · have hacc : (s.word &&& kAccessRefMask).toNat = s.handles + s.marked .moving := hi.access
    split_ifs with hm <;> rw [← hmoving] at hm <;> omega
  · rw [hany]
    exact (Bool.eq_iff_iff.1 hi.exclusive).trans decide_eq_true_iff
  · obtain ⟨hh, hpred⟩ := hi.incRef_refused ht
    exact ⟨hh, hpred, fun u cur s' hpc hs => hi.attempt_incRef ht hpc hs⟩
  · obtain ⟨h0, hbits⟩ := (isDrained_iff s.word).1 hd
    have hacc := hi.access
    have hx : ¬ 0 < s.marked .eviction + s.marked .moving :=
      decide_eq_false_iff_not.1 (hi.exclusive.symm.trans (hbits .kExclusive))
    refine ⟨by omega, hi.linked.symm.trans (hbits .kLinked),
      hi.accessible.symm.trans (hbits .kAccessible), fun t => ?_⟩
    by_contra ht
    exact hx (hany.1 ⟨t, ht⟩)

/-- Two threads: the second loads the word before the first marks the item for
eviction, so its exchange fails, and after the reload it is refused. -/
theorem exclusivity_protocol_incRef_race : ∃ s, run step (initial 2)
        [.fetch 0 .markInMMContainer, .load 0 .markForEviction, .load 1 .incRef,
          .attempt 0, .attempt 1, .attempt 1] = some s ∧
      (s.threads 0).mark = some .eviction ∧ s.handles = 0 := by
  refine ⟨_, rfl, rfl, ?_⟩
  have h := @exclusivity_protocol 2 [.fetch 0 .markInMMContainer, .load 0 .markForEviction,
    .load 1 .incRef, .attempt 0, .attempt 1, .attempt 1] _ rfl
  exact (h.2.2.2.2.2.1 0 rfl).1

theorem getAccessRef_counts_handles (n : ℕ) (as : List (Action n)) :
    Always step (fun s => (getAccessRef s.word).toNat = s.handles) (initial n) as :=
  always_of_invariant (fun _ hs => hs.getAccessRef_eq) step_inv (initial_inv n)

end HybridCache.Refcount

import HybridCache.ChainedHashTable

/-!
# Iterating the chained hash table under mutation

The iterator copies the handles of one bucket at a time, under the lock of that bucket,
and then walks over the copy. Other threads may call the container between any two
acquisitions of a lock. `reset` and `increment` are the functions of the iterator on a
table that rests; `iterStep` runs them one bucket at a time, with the calls of other
threads in between.
-/
namespace HybridCache.ChainedHashTable
open Transition IntrusiveList

/-- What the handle maker does with a node: it throws when the reference count is exhausted,
and it returns the null handle for an item that is being evicted. -/
inductive Grab
  | handle
  | null
  | exception
  deriving DecidableEq, Repr

def Grab.entry {ν : Type*} (n : ν) : Grab → Option (Option ν)
  | .handle => some (some n)
  | .null => some none
  | .exception => none

structure Iterator (ν : Type*) where
  currBucket : ℕ
  curSor : ℕ
  bucketElems : List (Option ν)

section Model
variable {ν : Type*} [Fintype ν] {p : ℕ}

/-- The loop of `forEachBucketElem` with the body that `getBucketElems` gives it. -/
def collect (next : ν → Option ν) (grab : ν → Grab) :
    ℕ → Option ν → Option (List (Option ν))
  | 0, _ => none
  | _ + 1, none => some []
  | fuel + 1, some curr =>
    (collect next grab fuel (next curr)).map fun handles =>
      match (grab curr).entry curr with
      | some e => e :: handles
      | none => handles

def getBucketElems (t : Table ν p) (grab : ν → Grab) (bucket : ℕ) :
    Option (List (Option ν)) :=
  if h : bucket < 2 ^ p then
    collect t.next grab (Fintype.card ν + 1) (t.hashTable ⟨bucket, h⟩)
  else none

/-- The loop of `reset` after bucket `b` has been read, with `k` buckets behind it. -/
def resetLoop (t : Table ν p) (grab : ℕ → ν → Grab) :
    ℕ → ℕ → List (Option ν) → Option (Iterator ν)
  | _, b, e :: elems => some ⟨b, 0, e :: elems⟩
  | 0, b, [] => some ⟨b + 1, 0, []⟩
  | k + 1, b, [] => (getBucketElems t (grab (b + 1)) (b + 1)).bind (resetLoop t grab k (b + 1))

def reset (t : Table ν p) (grab : ℕ → ν → Grab) : Option (Iterator ν) :=
  (getBucketElems t (grab 0) 0).bind (resetLoop t grab (2 ^ p - 1) 0)

/-- The loop of `operator++` over the `k` buckets from `b` on. -/
def incrementLoop (t : Table ν p) (grab : ℕ → ν → Grab) : ℕ → ℕ → Option (Iterator ν)
  | 0, b => some ⟨b, 0, []⟩
  | k + 1, b => (getBucketElems t (grab b) b).bind fun elems =>
    match elems with
    | e :: rest => some ⟨b, 0, e :: rest⟩
    | [] => incrementLoop t grab k (b + 1)

def increment (t : Table ν p) (grab : ℕ → ν → Grab) (it : Iterator ν) : Option (Iterator ν) :=
  if it.curSor + 1 < it.bucketElems.length then some { it with curSor := it.curSor + 1 }
  else incrementLoop t grab (2 ^ p - (it.currBucket + 1)) (it.currBucket + 1)

end Model

/-- Where the iterator stands: inside one of the loops, at an element, or at `end()`. -/
inductive Phase
  | scanning
  | ready
  | atEnd
  deriving DecidableEq, Repr

/-- The table, the iterator, the elements it has shown and the buckets it has read. -/
structure IterState (ν : Type*) (p : ℕ) where
  table : Table ν p
  it : Iterator ν
  phase : Phase
  produced : List (Option ν)
  visited : List ℕ

/-- A call of another thread, the next acquisition of a bucket lock, or the start of `++`. -/
inductive IterAction (K ν : Type*)
  | call (op : Op K ν)
  | visit (grab : ν → Grab)
  | advance

def IterAction.isIterator {K ν : Type*} : IterAction K ν → Bool
  | .call _ => false
  | .visit _ | .advance => true

section Step
variable {K ν : Type*} [DecidableEq K] [DecidableEq ν] [Fintype ν] {p : ℕ}
  (cfg : Config K ν)

def IterState.start (t : Table ν p) : IterState ν p := ⟨t, ⟨0, 0, []⟩, .scanning, [], []⟩

/-- The loop goes on to the next bucket, or the iterator reaches `end()`. -/
def IterState.nextBucket (s : IterState ν p) : IterState ν p :=
  { s with
    it := ⟨s.it.currBucket + 1, 0, []⟩
    phase := if s.it.currBucket + 1 < 2 ^ p then .scanning else .atEnd }

def IterState.afterVisit (s : IterState ν p) (elems : List (Option ν)) : IterState ν p :=
  let s := { s with visited := s.visited ++ [s.it.currBucket] }
  match elems with
  | [] => s.nextBucket
  | e :: rest =>
    { s with
      it := ⟨s.it.currBucket, 0, e :: rest⟩
      phase := .ready
      produced := s.produced ++ [e] }

/-- `operator++` up to its loop. -/
def IterState.afterAdvance (s : IterState ν p) : IterState ν p :=
  match s.it.bucketElems[s.it.curSor + 1]? with
  | some e =>
    { s with
      it := { s.it with curSor := s.it.curSor + 1 }
      produced := s.produced ++ [e] }
  | none => s.nextBucket

def iterStep (s : IterState ν p) : IterAction K ν → Option (IterState ν p)
  | .call op => (call cfg s.table op).map fun r => { s with table := r.2 }
  | .visit grab =>
    if s.phase = .scanning then
      (getBucketElems s.table grab s.it.currBucket).map s.afterVisit
    else none
  | .advance => if s.phase = .ready then some s.afterAdvance else none

end Step

section Quiet
variable {K ν : Type*} [DecidableEq K] [DecidableEq ν] [Fintype ν] {p : ℕ} (cfg : Config K ν)

omit [DecidableEq ν] in
/-- The two loops read the buckets in the same way. -/
lemma resetLoop_eq (t : Table ν p) (grab : ℕ → ν → Grab) (k b : ℕ) :
    (getBucketElems t (grab b) b).bind (resetLoop t grab k b) = incrementLoop t grab (k + 1) b := by
  induction k generalizing b with
  | zero =>
    congr 1
    funext elems
    cases elems <;> rfl
  | succ k ih =>
    congr 1
    funext elems
    cases elems with
    | nil => exact ih (b + 1)
    | cons e rest => rfl

omit [DecidableEq ν] in
theorem reset_eq (t : Table ν p) (grab : ℕ → ν → Grab) :
    reset t grab = incrementLoop t grab (2 ^ p) 0 := by
  have hpos : 2 ^ p - 1 + 1 = 2 ^ p := Nat.sub_add_cancel Nat.one_le_two_pow
  rw [reset, resetLoop_eq, hpos]

variable {grab : ℕ → ν → Grab} {it : Iterator ν} {s : IterState ν p}

lemma incrementLoop_run {k : ℕ}
    (hk : s.it.currBucket + k = 2 ^ p)
    (hphase : s.phase = if s.it.currBucket < 2 ^ p then .scanning else .atEnd)
    (hs : s.it = ⟨s.it.currBucket, 0, []⟩)
    (hloop : incrementLoop s.table grab k s.it.currBucket = some it) :
    ∃ (s' : IterState ν p) (m : ℕ), run (iterStep cfg) s
        ((List.range' s.it.currBucket m).map fun b => .visit (grab b)) = some s' ∧
      s'.it = it ∧ s'.table = s.table ∧ s'.phase ≠ .scanning := by
  induction k generalizing s with
  | zero =>
    rw [if_neg (by omega)] at hphase
    refine ⟨s, 0, rfl, ?_, rfl, by rw [hphase]; decide⟩
    rw [hs]
    exact Option.some.inj hloop
  | succ k ih =>
    rw [if_pos (by omega)] at hphase
    obtain ⟨elems, helems, hrest⟩ := Option.bind_eq_some_iff.1 hloop
    have hvisit : iterStep cfg s (.visit (grab s.it.currBucket)) = some (s.afterVisit elems) := by
      rw [iterStep, if_pos hphase, helems, Option.map_some]
    cases elems with
    | cons e rest =>
      refine ⟨s.afterVisit (e :: rest), 1, ?_, Option.some.inj hrest, rfl,
        by simp [IterState.afterVisit]⟩
      exact run_cons.2 ⟨_, hvisit, rfl⟩
    | nil =>
      obtain ⟨s', m, hrun, hit, htable, hdone⟩ := ih (s := s.afterVisit [])
        (by change s.it.currBucket + 1 + k = 2 ^ p; omega) rfl rfl hrest
      exact ⟨s', m + 1, run_cons.2 ⟨_, hvisit, hrun⟩, hit, htable, hdone⟩

theorem reset_run {t : Table ν p} {it : Iterator ν}
    (hreset : reset t grab = some it) :
    ∃ (s : IterState ν p) (m : ℕ), run (iterStep cfg) (.start t)
        ((List.range' 0 m).map fun b => .visit (grab b)) = some s ∧
      s.it = it ∧ s.table = t ∧ s.phase ≠ .scanning := by
  rw [reset_eq] at hreset
  exact incrementLoop_run cfg (s := .start t) (by simp [IterState.start])
    (by simp [IterState.start]) rfl hreset

/-- On a table that rests `operator++` is an `advance`, perhaps with bucket visits after it. -/
theorem increment_run {it : Iterator ν}
    (hready : s.phase = .ready) (hbucket : s.it.currBucket < 2 ^ p)
    (hinc : increment s.table grab s.it = some it) :
    ∃ (s' : IterState ν p) (m : ℕ), run (iterStep cfg) s
        (.advance :: (List.range' (s.it.currBucket + 1) m).map fun b => .visit (grab b)) = some s' ∧
      s'.it = it ∧ s'.table = s.table ∧ s'.phase ≠ .scanning := by
  have hstep : iterStep cfg s .advance = some s.afterAdvance := by
    rw [iterStep, if_pos hready]
  rw [increment] at hinc
  by_cases hcursor : s.it.curSor + 1 < s.it.bucketElems.length
  · rw [if_pos hcursor] at hinc
    have hafter : s.afterAdvance = { s with
        it := { s.it with curSor := s.it.curSor + 1 }
        produced := s.produced ++ [s.it.bucketElems[s.it.curSor + 1]] } := by
      rw [IterState.afterAdvance, List.getElem?_eq_getElem hcursor]
    refine ⟨s.afterAdvance, 0, run_cons.2 ⟨_, hstep, rfl⟩, ?_⟩
    rw [hafter]
    exact ⟨Option.some.inj hinc, rfl, by simp [hready]⟩
  · rw [if_neg hcursor] at hinc
    have hafter : s.afterAdvance = s.nextBucket := by
      rw [IterState.afterAdvance, List.getElem?_eq_none (by omega)]
    obtain ⟨s', m, hrun, hit, htable, hdone⟩ := incrementLoop_run cfg
      (s := s.nextBucket) (k := 2 ^ p - (s.it.currBucket + 1))
      (by change s.it.currBucket + 1 + _ = 2 ^ p; omega) rfl rfl hinc
    exact ⟨s', m, run_cons.2 ⟨_, hstep, by rw [hafter]; exact hrun⟩, hit, htable, hdone⟩

end Quiet

end HybridCache.ChainedHashTable

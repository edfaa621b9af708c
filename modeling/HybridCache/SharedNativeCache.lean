import Mathlib
import HybridCache.Transition

/-!
# The native cache shared by the benchmark's client threads

Every client thread has its own `CacheLibClient`, and all of them share the static flag
`INITIALIZED` and the native pointer `g_cache`. The flag is set before the cache is created and
cleared before it is destroyed; the native calls themselves are serialised by a mutex. A step
is one compare-and-set of the flag or one native call.
-/
namespace HybridCache.CacheLibClient
open Transition Function

/-! ## Model -/

variable {κ β : Type*} [DecidableEq κ] {n : ℕ}

inductive Status
  | ok
  | error
  | notFound
  deriving DecidableEq, Repr

/-- The object behind `g_cache`; `id` tells the objects created during the run apart. -/
structure CacheLibWrapper (κ β : Type*) where
  id : ℕ
  items : κ → Option β

/-- A database operation. `allocated` is the outcome of the allocation of the new item. -/
inductive Operation (κ β : Type*)
  | insert (key : κ) (value : β) (allocated : Bool)
  | read (key : κ)
  | update (key : κ) (value : β) (allocated : Bool)
  | delete (key : κ)
  deriving DecidableEq, Repr

namespace CacheLibWrapper

def insert (c : CacheLibWrapper κ β) (key : κ) (value : β) (allocated : Bool) :
    CacheLibWrapper κ β × Status :=
  if allocated then ({ c with items := update c.items key (some value) }, .ok) else (c, .error)

def read (c : CacheLibWrapper κ β) (key : κ) : Status :=
  if (c.items key).isSome then .ok else .notFound

def remove (c : CacheLibWrapper κ β) (key : κ) : CacheLibWrapper κ β × Status :=
  ({ c with items := update c.items key none },
    if (c.items key).isSome then .ok else .error)

def run (c : CacheLibWrapper κ β) : Operation κ β → CacheLibWrapper κ β × Status
  | .insert key value allocated => c.insert key value allocated
  | .read key => (c, c.read key)
  | .update key value allocated => c.insert key value allocated
  | .delete key => c.remove key

@[simp] theorem run_id (c : CacheLibWrapper κ β) (op : Operation κ β) : (c.run op).1.id = c.id := by
  cases op with
  | read key => rfl
  | delete key => rfl
  | insert key value allocated | update key value allocated => cases allocated <;> rfl

end CacheLibWrapper

/-- What the client answers when the native call finds no cache. -/
def Operation.missing : Operation κ β → Status
  | .read _ => .notFound
  | _ => .error

/-- Where a client thread is in `ClientThread.run`. -/
inductive Phase
  | start
  /-- Won the compare-and-set of `init` and is about to call `nativeInit`. -/
  | creating
  /-- `nativeInit` has thrown; the handler has not reset the flag yet. -/
  | failing
  /-- `init` has returned and `cleanup` has not been called. -/
  | running
  /-- Calls `cleanup`. -/
  | stopped
  /-- Won the compare-and-set of `cleanup` and is about to call `nativeCleanup`. -/
  | destroying
  | done
  deriving DecidableEq, Repr

/-- An operation with the cache object that served it. -/
structure Served (κ β : Type*) (n : ℕ) where
  thread : Fin n
  operation : Operation κ β
  instanceId : Option ℕ
  status : Status
  deriving DecidableEq, Repr

structure State (κ β : Type*) (n : ℕ) where
  /-- `INITIALIZED`. -/
  initialized : Bool
  /-- `g_cache`. -/
  cache : Option (CacheLibWrapper κ β)
  /-- Number of objects created so far. -/
  created : ℕ
  phase : Fin n → Phase
  /-- Operations performed, the latest first. -/
  served : List (Served κ β n)

def initial (κ β : Type*) (n : ℕ) : State κ β n := ⟨false, none, 0, fun _ => .start, []⟩

inductive Action (κ β : Type*) (n : ℕ)
  /-- `INITIALIZED.compareAndSet(false, true)` in `init`. -/
  | initCas (th : Fin n)
  /-- `nativeInit`; `ok` is false when the constructor throws. -/
  | nativeInit (th : Fin n) (ok : Bool)
  /-- `INITIALIZED.set(false)` in the handler of a failed `nativeInit`. -/
  | resetFlag (th : Fin n)
  | operate (th : Fin n) (op : Operation κ β)
  /-- The loop of the thread ends. -/
  | finish (th : Fin n)
  /-- `INITIALIZED.compareAndSet(true, false)` in `cleanup`. -/
  | cleanupCas (th : Fin n)
  | nativeCleanup (th : Fin n)
  /-- The cache evicts an item. -/
  | evict (key : κ)

/-- A native operation, under `g_cache_mutex`. -/
def operate (s : State κ β n) (th : Fin n) (op : Operation κ β) : State κ β n :=
  match s.cache with
  | none => { s with served := ⟨th, op, none, op.missing⟩ :: s.served }
  | some c =>
    let (c', status) := c.run op
    { s with cache := some c', served := ⟨th, op, some c.id, status⟩ :: s.served }

def moveTo (s : State κ β n) (th : Fin n) (p : Phase) : State κ β n :=
  { s with phase := update s.phase th p }

def step (s : State κ β n) : Action κ β n → Option (State κ β n)
  | .initCas th =>
    if s.phase th = .start then
      if s.initialized = false then some { moveTo s th .creating with initialized := true }
      else some (moveTo s th .running)
    else none
  | .nativeInit th ok =>
    if s.phase th = .creating then
      if ok then
        some { moveTo s th .running with
          cache := some ⟨s.created, fun _ => none⟩, created := s.created + 1 }
      else some { moveTo s th .failing with cache := none }
    else none
  | .resetFlag th =>
    if s.phase th = .failing then some { moveTo s th .done with initialized := false } else none
  | .operate th op => if s.phase th = .running then some (operate s th op) else none
  | .finish th => if s.phase th = .running then some (moveTo s th .stopped) else none
  | .cleanupCas th =>
    if s.phase th = .stopped then
      if s.initialized = true then some { moveTo s th .destroying with initialized := false }
      else some (moveTo s th .done)
    else none
  | .nativeCleanup th =>
    if s.phase th = .destroying then some { moveTo s th .done with cache := none } else none
  | .evict key =>
    some { s with cache := s.cache.map fun c => { c with items := update c.items key none } }

/-! ## One live cache for all threads -/

/-- The object `g_cache` points to. -/
def State.instanceId (s : State κ β n) : Option ℕ := s.cache.map (·.id)

/-- The first object created serves all operations, and a thread whose `init` has returned and
which has not called `cleanup` finds it. -/
structure Shared (s : State κ β n) : Prop where
  live : ∀ th, s.phase th = .running → s.instanceId = some 0
  served : ∀ call ∈ s.served, call.instanceId = some 0

/-- `init` returns, creates or finds the first object, and the object is destroyed when no
thread is between its `init` and its `cleanup`. -/
def StepShares (s : State κ β n) : Action κ β n → Prop
  | .initCas _ => s.initialized = true → s.instanceId = some 0
  | .nativeInit _ _ => s.created = 0
  | .nativeCleanup _ => ∀ th, s.phase th ≠ .running
  | _ => True

instance decidableStepShares (s : State κ β n) : ∀ a, Decidable (StepShares s a)
  | .initCas _ => inferInstanceAs (Decidable (s.initialized = true → s.instanceId = some 0))
  | .nativeInit _ _ => inferInstanceAs (Decidable (s.created = 0))
  | .nativeCleanup _ => inferInstanceAs (Decidable (∀ th, s.phase th ≠ .running))
  | .resetFlag _ | .operate _ _ | .finish _ | .cleanupCas _ | .evict _ => .isTrue trivial

/-- The constructor of the cache does not throw. -/
def Action.Succeeds : Action κ β n → Prop
  | .nativeInit _ ok => ok = true
  | _ => True

variable {s : State κ β n} {th : Fin n}

omit [DecidableEq κ] in
lemma shared_moveTo (hs : Shared s) (th : Fin n) (p : Phase)
    (hp : p = .running → s.instanceId = some 0) : Shared (moveTo s th p) := by
  refine ⟨?_, hs.served⟩
  intro th' hrun
  by_cases h : th' = th
  · subst h
    exact hp (by simpa [moveTo] using hrun)
  · exact hs.live th' (by simpa [moveTo, h] using hrun)

lemma shared_operate (hs : Shared s) (op : Operation κ β)
    (hrun : s.phase th = .running) : Shared (operate s th op) := by
  have hlive := hs.live th hrun
  cases hc : s.cache with
  | none => simp [State.instanceId, hc] at hlive
  | some c =>
    have hid : c.id = 0 := by simpa [State.instanceId, hc] using hlive
    constructor
    · intro th' _
      simp [operate, hc, State.instanceId, hid]
    · intro call hcall
      simp only [operate, hc, List.mem_cons] at hcall
      obtain rfl | hcall := hcall
      · simp [hid]
      · exact hs.served call hcall

omit [DecidableEq κ] in
/-- `nativeInit` keeps the property exactly when it creates the first object. -/
lemma shared_nativeInit (hs : Shared s) (th : Fin n) :
    Shared { moveTo s th .running with
      cache := some ⟨s.created, fun _ => none⟩, created := s.created + 1 } ↔ s.created = 0 := by
  constructor
  · intro h
    have hlive := h.live th (by simp [moveTo])
    simpa [State.instanceId] using hlive
  · intro h
    exact ⟨fun _ _ => by simp [State.instanceId, h], hs.served⟩

omit [DecidableEq κ] in
lemma shared_nativeCleanup (hs : Shared s)
    (hth : s.phase th = .destroying) :
    Shared { moveTo s th .done with cache := none } ↔ ∀ th', s.phase th' ≠ .running := by
  constructor
  · intro h th' hrun
    have hne : th' ≠ th := by
      intro he
      rw [he, hth] at hrun
      cases hrun
    have hlive := h.live th' (by simpa [moveTo, hne] using hrun)
    simp [State.instanceId] at hlive
  · intro h
    refine ⟨?_, hs.served⟩
    intro th' hrun
    by_cases he : th' = th
    · subst he
      simp [moveTo] at hrun
    · exact absurd (by simpa [moveTo, he] using hrun) (h th')

lemma shared_step {t : State κ β n} {a : Action κ β n} (ha : a.Succeeds) (hs : Shared s)
    (h : step s a = some t) : Shared t ↔ StepShares s a := by
  cases a with
  | initCas th =>
    simp only [step] at h
    split_ifs at h with hstart hinit <;> cases h
    · refine iff_of_true ?_ (by simp [StepShares, hinit])
      have hmove := shared_moveTo hs th .creating nofun
      exact ⟨hmove.live, hmove.served⟩
    · constructor
      · intro ht _
        exact ht.live th (by simp [moveTo])
      · intro hok
        exact shared_moveTo hs th .running fun _ => hok (by simpa using hinit)
  | nativeInit th ok =>
    obtain rfl : ok = true := ha
    simp only [step, if_true] at h
    split_ifs at h
    cases h
    exact shared_nativeInit hs th
  | resetFlag th =>
    simp only [step] at h
    split_ifs at h
    cases h
    have hmove := shared_moveTo hs th .done nofun
    exact iff_of_true ⟨hmove.live, hmove.served⟩ trivial
  | operate th op =>
    simp only [step] at h
    split_ifs at h with hrun
    cases h
    exact iff_of_true (shared_operate hs op hrun) trivial
  | finish th =>
    simp only [step] at h
    split_ifs at h
    cases h
    exact iff_of_true (shared_moveTo hs th _ nofun) trivial
  | cleanupCas th =>
    simp only [step] at h
    split_ifs at h <;> cases h
    · have hmove := shared_moveTo hs th .destroying nofun
      exact iff_of_true ⟨hmove.live, hmove.served⟩ trivial
    · exact iff_of_true (shared_moveTo hs th _ nofun) trivial
  | nativeCleanup th =>
    simp only [step] at h
    split_ifs at h with hth
    cases h
    exact shared_nativeCleanup hs hth
  | evict key =>
    cases h
    refine iff_of_true ⟨?_, hs.served⟩ trivial
    intro th hrun
    have hlive := hs.live th hrun
    cases hc : s.cache with
    | none => simp [State.instanceId, hc] at hlive
    | some c => simpa [State.instanceId, hc] using hlive

omit [DecidableEq κ] in
lemma shared_initial : Shared (initial κ β n) := ⟨nofun, nofun⟩

/-- The threads share one live cache along a run exactly when no `init` returns before the
first cache exists, no second cache is created, and the cache is destroyed after the last
thread has stopped. -/
theorem shared_cache_iff (as : List (Action κ β n)) (hok : ∀ a ∈ as, a.Succeeds) :
    Always step Shared (initial κ β n) as ↔ Meets step StepShares (initial κ β n) as :=
  always_iff_meets (fun _ => True) Action.Succeeds (fun _ _ _ _ _ _ _ => trivial)
    (fun _ _ _ ha _ hs h => shared_step ha hs h) hok trivial shared_initial

/-- Both threads are initialised before the first operation and stop before the first
`cleanup`. -/
def orderlyRun : List (Action ℕ ℕ 2) :=
  [.initCas 0, .nativeInit 0 true, .initCas 1, .operate 0 (.insert 5 7 true), .operate 1 (.read 5),
    .finish 0, .finish 1, .cleanupCas 1, .nativeCleanup 1, .cleanupCas 0]

theorem orderlyRun_shares : (∀ a ∈ orderlyRun, a.Succeeds) ∧
    Always step Shared (initial ℕ ℕ 2) orderlyRun := by
  have hok : ∀ a ∈ orderlyRun, a.Succeeds := by
    intro a ha
    simp only [orderlyRun, List.mem_cons, List.not_mem_nil, or_false] at ha
    obtain rfl | rfl | rfl | rfl | rfl | rfl | rfl | rfl | rfl | rfl := ha <;> trivial
  exact ⟨hok, (shared_cache_iff orderlyRun hok).2 (by decide)⟩

/-- Thread 1 loses the race of `init`, and its insert finds no cache. -/
def earlyRun : List (Action ℕ ℕ 2) := [.initCas 0, .initCas 1, .operate 1 (.insert 5 7 true)]

/-- Thread 0 finishes first and destroys the cache under thread 1. -/
def lateRun : List (Action ℕ ℕ 2) :=
  [.initCas 0, .nativeInit 0 true, .initCas 1, .operate 1 (.insert 5 7 true), .finish 0,
    .cleanupCas 0, .nativeCleanup 0, .operate 1 (.read 5)]

theorem operation_without_cache :
    (run step (initial ℕ ℕ 2) earlyRun).map (fun s => (s.served, s.phase 1)) =
      some ([⟨1, .insert 5 7 true, none, .error⟩], .running) ∧
    (run step (initial ℕ ℕ 2) lateRun).map (fun s => (s.served, s.phase 1)) =
      some ([⟨1, .read 5, none, .notFound⟩, ⟨1, .insert 5 7 true, some 0, .ok⟩], .running) := by
  decide

end HybridCache.CacheLibClient

import HybridCache.Transition

/-!
# A pair of engines

Small items are stored in one engine and large items in another. An insert stores the
key in the engine of its size and then removes it from the other one, a lookup asks the
large engine first, and a removal the small one. Each operation is a job that is run
again after an engine answered `Retry`, and it remembers in a flag which of its two calls
is done.

An engine is a map that may refuse any call without a change. Jobs of different keys
interleave, and a key has one job at a time. The completions of jobs, with what the two
engines then hold for the key, are recorded and not part of the program.
-/
namespace HybridCache.EnginePair

open Function

abbrev Key := List UInt8
abbrev Value := List UInt8

inductive Status
  | Ok
  | NotFound
  | Rejected
  | Retry
  | DeviceError
  | BadState
  deriving DecidableEq, Repr

/-! ## Engines -/

inductive Fault
  | Retry
  | Rejected
  | DeviceError
  deriving DecidableEq, Repr

def Fault.status : Fault → Status
  | .Retry => .Retry
  | .Rejected => .Rejected
  | .DeviceError => .DeviceError

abbrev Engine := Key → Option Value

def Engine.insert (m : Engine) (hk : Key) (value : Value) : Option Fault → Engine × Status
  | none => (update m hk (some value), .Ok)
  | some f => (m, f.status)

def Engine.lookup (m : Engine) (hk : Key) : Option Fault → Status × Option Value
  | none => if (m hk).isSome then (.Ok, m hk) else (.NotFound, none)
  | some f => (f.status, none)

def Engine.remove (m : Engine) (hk : Key) : Option Fault → Engine × Status
  | none => if (m hk).isSome then (update m hk none, .Ok) else (m, .NotFound)
  | some f => (m, f.status)

structure Engines where
  smallItemCache : Engine
  largeItemCache : Engine

def Engines.get (e : Engines) (large : Bool) : Engine :=
  if large then e.largeItemCache else e.smallItemCache

def Engines.set (e : Engines) (large : Bool) (m : Engine) : Engines :=
  if large then { e with largeItemCache := m } else { e with smallItemCache := m }

/-! ## One round of a job -/

/-- What a round of a job leaves: the engines, the flag of the job, the status, the value
that was read, and the answers of the engines. -/
structure Round where
  engines : Engines
  skip : Bool
  status : Status
  value : Option Value
  answers : List Status

def isItemLarge (smallItemMaxSize : ℕ) (hk : Key) (value : Value) : Bool :=
  decide (smallItemMaxSize < hk.length + value.length)

/-- The second half of `insertInternal`, after the status of the insertion. -/
def removeOther (e : Engines) (hk : Key) (large : Bool) (status : Status)
    (answers : List Status) (fault : Option Fault) : Round :=
  if status = .DeviceError then ⟨e, true, status, none, answers⟩
  else
    let (m, rs) := (e.get !large).remove hk fault
    ⟨e.set (!large) m, true,
      if rs = .Retry then .Retry
      else if rs ≠ .Ok ∧ rs ≠ .NotFound then .BadState
      else status, none, answers ++ [rs]⟩

def insertInternal (smallItemMaxSize : ℕ) (e : Engines) (hk : Key) (value : Value)
    (skipInsertion : Bool) (fault fault' : Option Fault) : Round :=
  let large := isItemLarge smallItemMaxSize hk value
  if skipInsertion then removeOther e hk large .Ok [] fault'
  else
    let (m, status) := (e.get large).insert hk value fault
    if status = .Retry then ⟨e, false, .Retry, none, [.Retry]⟩
    else removeOther (e.set large m) hk large status [status] fault'

def lookupSmall (e : Engines) (hk : Key) (answers : List Status) (fault : Option Fault) : Round :=
  let (status, value) := e.smallItemCache.lookup hk fault
  ⟨e, true, status, value, answers ++ [status]⟩

def lookupInternal (e : Engines) (hk : Key) (skipLargeItemCache : Bool)
    (fault fault' : Option Fault) : Round :=
  if skipLargeItemCache then lookupSmall e hk [] fault'
  else
    let (status, value) := e.largeItemCache.lookup hk fault
    if status = .Retry then ⟨e, false, .Retry, none, [.Retry]⟩
    else if status = .NotFound then lookupSmall e hk [.NotFound] fault'
    else ⟨e, true, status, value, [status]⟩

def removeLarge (e : Engines) (hk : Key) (answers : List Status) (fault : Option Fault) : Round :=
  let (m, status) := e.largeItemCache.remove hk fault
  ⟨{ e with largeItemCache := m }, true, status, none, answers ++ [status]⟩

def removeHashedKeyInternal (e : Engines) (hk : Key) (skipSmallItemCache : Bool)
    (fault fault' : Option Fault) : Round :=
  if skipSmallItemCache then removeLarge e hk [] fault'
  else
    let (m, status) := e.smallItemCache.remove hk fault
    if status = .NotFound then removeLarge { e with smallItemCache := m } hk [.NotFound] fault'
    else ⟨{ e with smallItemCache := m }, false, status, none, [status]⟩

/-! ## Jobs -/

inductive Request
  | insert (value : Value)
  | lookup
  | remove
  deriving DecidableEq, Repr

structure Job where
  request : Request
  skip : Bool
  deriving DecidableEq, Repr

/-- A job that is done, and what the engines hold for its key. -/
structure Completion where
  key : Key
  request : Request
  status : Status
  value : Option Value
  answers : List Status
  small : Option Value
  large : Option Value

structure State where
  engines : Engines
  jobs : Key → Option Job
  completed : List Completion

def init : State where
  engines := ⟨fun _ => none, fun _ => none⟩
  jobs _ := none
  completed := []

/-- A round says how the engine that is called first, and the one called second, refuses. -/
inductive Action
  | schedule (hk : Key) (request : Request)
  | run (hk : Key) (fault fault' : Option Fault)

def runRound (smallItemMaxSize : ℕ) (e : Engines) (hk : Key) (job : Job)
    (fault fault' : Option Fault) : Round :=
  match job.request with
  | .insert value => insertInternal smallItemMaxSize e hk value job.skip fault fault'
  | .lookup => lookupInternal e hk job.skip fault fault'
  | .remove => removeHashedKeyInternal e hk job.skip fault fault'

/-- The job is rescheduled after `Retry`; otherwise its callback gets the status. -/
def finishRound (s : State) (hk : Key) (job : Job) (r : Round) : State :=
  if r.status = .Retry then
    { s with
      engines := r.engines
      jobs := update s.jobs hk (some { job with skip := r.skip }) }
  else
    { engines := r.engines
      jobs := update s.jobs hk none
      completed := ⟨hk, job.request, r.status, r.value, r.answers, r.engines.smallItemCache hk,
        r.engines.largeItemCache hk⟩ :: s.completed }

def step (smallItemMaxSize : ℕ) (s : State) : Action → Option State
  | .schedule hk request =>
    if s.jobs hk = none then
      some { s with jobs := update s.jobs hk (some ⟨request, false⟩) }
    else none
  | .run hk fault fault' =>
    (s.jobs hk).map fun job =>
      finishRound s hk job (runRound smallItemMaxSize s.engines hk job fault fault')

/-! ## At most one engine has a key -/

def Single (e : Engines) (k : Key) : Prop := e.smallItemCache k = none ∨ e.largeItemCache k = none

/-- What is known while a job of the key is under way. Only an insert that has stored the key
may leave it in both engines. -/
def JobFact (e : Engines) (k : Key) : Option Job → Prop
  | some ⟨.insert _, true⟩ => True
  | some ⟨.lookup, true⟩ => e.largeItemCache k = none
  | some ⟨.remove, true⟩ => e.smallItemCache k = none
  | _ => Single e k

/-- What a job that is done promises: one engine at most has the key, no engine has it after
a removal, and a lookup finds the value of the engine that has it unless one that it asked
refused. -/
def Completion.Correct (c : Completion) : Prop :=
  (c.small = none ∨ c.large = none) ∧
    match c.request with
    | .insert _ => True
    | .remove => c.status = .Ok ∨ c.status = .NotFound → c.small = none ∧ c.large = none
    | .lookup => (c.status = .Ok ↔
        (c.small ≠ none ∨ c.large ≠ none) ∧ ∀ st ∈ c.answers, st = .Ok ∨ st = .NotFound) ∧
      (c.status = .Ok → c.value = c.large.or c.small)

def Round.completion (r : Round) (k : Key) (request : Request) : Completion :=
  ⟨k, request, r.status, r.value, r.answers, r.engines.smallItemCache k,
    r.engines.largeItemCache k⟩

structure RoundSpec (e : Engines) (k : Key) (request : Request) (r : Round) : Prop where
  others : ∀ k', k' ≠ k → r.engines.smallItemCache k' = e.smallItemCache k' ∧
    r.engines.largeItemCache k' = e.largeItemCache k'
  retried : r.status = .Retry → JobFact r.engines k (some ⟨request, r.skip⟩)
  done : r.status ≠ .Retry → r.status ≠ .BadState → (r.completion k request).Correct

section Rounds
variable {e : Engines} {k : Key} {fault fault' : Option Fault}

lemma Fault.status_ne (f : Fault) : f.status ≠ .Ok ∧ f.status ≠ .NotFound := by
  cases f <;> decide

variable {m : Engine} {answers : List Status} {value : Value} {skip : Bool}

/-- A removal that answers `Ok` or `NotFound` leaves nothing of the key. -/
lemma Engine.remove_gone (h : (m.remove k fault).2 = .Ok ∨ (m.remove k fault).2 = .NotFound) :
    (m.remove k fault).1 k = none := by
  cases fault with
  | some f => exact absurd h (not_or.2 f.status_ne)
  | none =>
    unfold Engine.remove
    split_ifs with hk
    · exact update_self _ _ _
    · simpa using hk

lemma Engine.remove_other {k' : Key} (hne : k' ≠ k) : (m.remove k fault).1 k' = m k' := by
  cases fault with
  | some f => rfl
  | none =>
    unfold Engine.remove
    split_ifs
    · exact update_of_ne hne _ _
    · rfl

lemma Engine.remove_refused (h : (m.remove k fault).2 ≠ .Ok) : (m.remove k fault).1 = m := by
  cases fault with
  | some f => rfl
  | none =>
    unfold Engine.remove at h ⊢
    split_ifs at h ⊢ with hk
    · exact absurd rfl h
    · rfl

lemma Engine.remove_ok (h : (m.remove k fault).2 = .Ok) : m k ≠ none := by
  cases fault with
  | some f => exact absurd h f.status_ne.1
  | none =>
    unfold Engine.remove at h
    split_ifs at h with hk
    exact Option.isSome_iff_ne_none.1 hk

/-! ### Inserts -/

/-- The second half of an insert: unless the device failed, the other engine is without the
key when it is done. -/
lemma removeOther_spec {large : Bool} {status : Status} {value : Value}
    (hfailed : status = .DeviceError → Single e k) (hretry : status ≠ .Retry) :
    RoundSpec e k (.insert value) (removeOther e k large status answers fault) := by
  unfold removeOther
  split_ifs with herror
  · exact ⟨fun _ _ => ⟨rfl, rfl⟩, fun h => absurd h hretry, fun _ _ => ⟨hfailed herror, trivial⟩⟩
  · refine ⟨fun k' hne => ?_, fun _ => trivial, fun hdone hbad => ⟨?_, trivial⟩⟩
    · cases large with
      | true => exact ⟨Engine.remove_other hne, rfl⟩
      | false => exact ⟨rfl, Engine.remove_other hne⟩
    · -- the other engine answered, and without an error
      dsimp only at hdone hbad
      split_ifs at hdone hbad with hrs hrs'
      · exact absurd rfl hdone
      · exact absurd rfl hbad
      · have hgone : ((e.get !large).remove k fault).1 k = none := Engine.remove_gone (by tauto)
        cases large with
        | true => exact Or.inl hgone
        | false => exact Or.inr hgone

lemma Engine.insert_other {k' : Key} (hne : k' ≠ k) : (m.insert k value fault).1 k' = m k' := by
  cases fault with
  | some f => rfl
  | none => exact update_of_ne hne _ _

lemma insertInternal_spec (smallItemMaxSize : ℕ) {skip : Bool}
    (h : JobFact e k (some ⟨.insert value, skip⟩)) :
    RoundSpec e k (.insert value)
      (insertInternal smallItemMaxSize e k value skip fault fault') := by
  unfold insertInternal
  dsimp only
  split_ifs with hskip hretry
  · exact removeOther_spec (by simp) (by simp)
  · rw [Bool.not_eq_true] at hskip
    rw [hskip] at h
    exact ⟨fun _ _ => ⟨rfl, rfl⟩, fun _ => h, fun hdone => absurd rfl hdone⟩
  · rw [Bool.not_eq_true] at hskip
    rw [hskip] at h
    generalize isItemLarge smallItemMaxSize k value = large at hretry ⊢
    have hspec : RoundSpec (e.set large ((e.get large).insert k value fault).1) k (.insert value)
        (removeOther (e.set large ((e.get large).insert k value fault).1) k large
          ((e.get large).insert k value fault).2 [((e.get large).insert k value fault).2] fault') := by
      refine removeOther_spec ?_ hretry
      intro herror
      cases fault with
      | none => cases herror
      | some f => cases large <;> exact h
    refine ⟨fun k' hne => ?_, hspec.retried, hspec.done⟩
    have hother := hspec.others k' hne
    cases large with
    | true => exact ⟨hother.1, hother.2.trans (Engine.insert_other hne)⟩
    | false => exact ⟨hother.1.trans (Engine.insert_other hne), hother.2⟩

/-! ### Lookups -/

lemma Engine.lookup_ok_iff : (m.lookup k fault).1 = .Ok ↔
      m k ≠ none ∧ ((m.lookup k fault).1 = .Ok ∨ (m.lookup k fault).1 = .NotFound) := by
  cases fault with
  | some f => exact iff_of_false f.status_ne.1 fun h => (not_or.2 f.status_ne) h.2
  | none =>
    cases hk : m k <;> simp [Engine.lookup, hk]

lemma Engine.lookup_value (h : (m.lookup k fault).1 = .Ok) : (m.lookup k fault).2 = m k := by
  cases fault with
  | some f => exact absurd h f.status_ne.1
  | none => cases hk : m k <;> simp [Engine.lookup, hk]

lemma Engine.lookup_notFound (h : (m.lookup k fault).1 = .NotFound) : m k = none := by
  cases fault with
  | some f => exact absurd h f.status_ne.2
  | none =>
    cases hk : m k with
    | none => rfl
    | some v => simp [Engine.lookup, hk] at h

/-- The large engine does not have the key, so the small one decides. -/
lemma lookupSmall_spec (h : e.largeItemCache k = none)
    (hanswers : ∀ st ∈ answers, st = .Ok ∨ st = .NotFound) :
    RoundSpec e k .lookup (lookupSmall e k answers fault) := by
  refine ⟨fun _ _ => ⟨rfl, rfl⟩, fun _ => h, fun _ _ => ⟨Or.inr h, ?_, ?_⟩⟩
  · change (e.smallItemCache.lookup k fault).1 = .Ok ↔
      (e.smallItemCache k ≠ none ∨ e.largeItemCache k ≠ none) ∧
        ∀ st ∈ answers ++ [(e.smallItemCache.lookup k fault).1], st = .Ok ∨ st = .NotFound
    rw [Engine.lookup_ok_iff, h, List.forall_mem_append, List.forall_mem_singleton]
    simp only [ne_eq, not_true_eq_false, or_false]
    exact and_congr_right fun _ => (and_iff_right hanswers).symm
  · intro hok
    change (e.smallItemCache.lookup k fault).2 = (e.largeItemCache k).or (e.smallItemCache k)
    rw [Engine.lookup_value hok, h]
    rfl

lemma lookupInternal_spec (h : JobFact e k (some ⟨.lookup, skip⟩)) :
    RoundSpec e k .lookup (lookupInternal e k skip fault fault') := by
  unfold lookupInternal
  dsimp only
  split_ifs with hskip hretry hfound
  · rw [hskip] at h
    exact lookupSmall_spec h (by simp)
  · rw [Bool.not_eq_true] at hskip
    rw [hskip] at h
    exact ⟨fun _ _ => ⟨rfl, rfl⟩, fun _ => h, fun hdone => absurd rfl hdone⟩
  · exact lookupSmall_spec (Engine.lookup_notFound hfound) (by simp)
  · rw [Bool.not_eq_true] at hskip
    rw [hskip] at h
    refine ⟨fun _ _ => ⟨rfl, rfl⟩, fun hretry' => absurd hretry' hretry, fun _ _ => ⟨h, ?_, ?_⟩⟩
    · change (e.largeItemCache.lookup k fault).1 = .Ok ↔
        (e.smallItemCache k ≠ none ∨ e.largeItemCache k ≠ none) ∧
          ∀ st ∈ [(e.largeItemCache.lookup k fault).1], st = .Ok ∨ st = .NotFound
      rw [List.forall_mem_singleton]
      constructor
      · exact fun hok => ⟨Or.inr (Engine.lookup_ok_iff.1 hok).1, Or.inl hok⟩
      · rintro ⟨-, hok | hnone⟩
        · exact hok
        · exact absurd hnone hfound
    · intro hok
      change (e.largeItemCache.lookup k fault).2 = (e.largeItemCache k).or (e.smallItemCache k)
      obtain ⟨v, hv⟩ := Option.ne_none_iff_exists'.1 (Engine.lookup_ok_iff.1 hok).1
      rw [Engine.lookup_value hok, hv]
      rfl

/-! ### Removals -/

lemma removeLarge_spec (h : e.smallItemCache k = none) :
    RoundSpec e k .remove (removeLarge e k answers fault) := by
  refine ⟨fun k' hne => ⟨rfl, Engine.remove_other hne⟩, fun _ => h, fun _ _ => ⟨Or.inl h, ?_⟩⟩
  exact fun hok => ⟨h, Engine.remove_gone hok⟩

lemma removeHashedKeyInternal_spec (h : JobFact e k (some ⟨.remove, skip⟩)) :
    RoundSpec e k .remove (removeHashedKeyInternal e k skip fault fault') := by
  unfold removeHashedKeyInternal
  dsimp only
  split_ifs with hskip hfound
  · rw [hskip] at h
    exact removeLarge_spec h
  · have hspec : RoundSpec { e with smallItemCache := (e.smallItemCache.remove k fault).1 } k .remove
        (removeLarge _ k [.NotFound] fault') := removeLarge_spec (Engine.remove_gone (Or.inr hfound))
    refine ⟨fun k' hne => ?_, hspec.retried, hspec.done⟩
    exact ⟨Engine.remove_other hne, (hspec.others k' hne).2⟩
  · rw [Bool.not_eq_true] at hskip
    rw [hskip] at h
    -- the key was in the small engine and nowhere else, or nothing was removed
    have hgone : (e.smallItemCache.remove k fault).2 = .Ok →
        (e.smallItemCache.remove k fault).1 k = none ∧ e.largeItemCache k = none := by
      intro hok
      refine ⟨Engine.remove_gone (Or.inl hok), ?_⟩
      rcases h with hsmall | hlarge
      · exact absurd hsmall (Engine.remove_ok hok)
      · exact hlarge
    refine ⟨fun k' hne => ⟨Engine.remove_other hne, rfl⟩, fun hretry => ?_, fun _ _ => ⟨?_, ?_⟩⟩
    · change (e.smallItemCache.remove k fault).2 = .Retry at hretry
      have hsame := Engine.remove_refused (show (e.smallItemCache.remove k fault).2 ≠ .Ok by
        rw [hretry]; simp)
      rw [hsame]
      exact h
    · change (e.smallItemCache.remove k fault).1 k = none ∨ e.largeItemCache k = none
      by_cases hok : (e.smallItemCache.remove k fault).2 = .Ok
      · exact Or.inr (hgone hok).2
      · rw [Engine.remove_refused hok]
        exact h
    · rintro (hok | hnone)
      · exact hgone hok
      · exact absurd hnone hfound

lemma runRound_spec (smallItemMaxSize : ℕ) {job : Job} (h : JobFact e k (some job)) :
    RoundSpec e k job.request (runRound smallItemMaxSize e k job fault fault') := by
  obtain ⟨request, skip⟩ := job
  cases request with
  | insert value => exact insertInternal_spec smallItemMaxSize h
  | lookup => exact lookupInternal_spec h
  | remove => exact removeHashedKeyInternal_spec h

end Rounds

/-! ## Runs -/

def NoBadState (s : State) : Prop := ∀ c ∈ s.completed, c.status ≠ .BadState

structure Inv (s : State) : Prop where
  jobs : ∀ k, JobFact s.engines k (s.jobs k)
  completed : ∀ c ∈ s.completed, c.Correct

variable {k : Key}

lemma JobFact.single_of_start {e : Engines} (h : JobFact e k none) (request : Request) :
    JobFact e k (some ⟨request, false⟩) := by
  cases request <;> exact h

lemma JobFact.congr {e e' : Engines} {job : Option Job} (h : JobFact e k job)
    (hsmall : e'.smallItemCache k = e.smallItemCache k)
    (hlarge : e'.largeItemCache k = e.largeItemCache k) : JobFact e' k job := by
  unfold JobFact Single at *
  rw [hsmall, hlarge]
  exact h

lemma finishRound_inv {s : State} {job : Job} {r : Round} (h : Inv s)
    (hspec : RoundSpec s.engines k job.request r) (hbad : NoBadState (finishRound s k job r)) :
    Inv (finishRound s k job r) := by
  unfold finishRound at hbad ⊢
  split_ifs at hbad ⊢ with hretry
  · refine ⟨fun k' => ?_, h.completed⟩
    change JobFact r.engines k' (update s.jobs k _ k')
    by_cases hk : k' = k
    · rw [hk, update_self]
      exact hspec.retried hretry
    · rw [update_of_ne hk]
      exact (h.jobs k').congr (hspec.others k' hk).1 (hspec.others k' hk).2
  · have hcorrect := hspec.done hretry (hbad _ List.mem_cons_self)
    refine ⟨fun k' => ?_, ?_⟩
    · change JobFact r.engines k' (update s.jobs k none k')
      by_cases hk : k' = k
      · rw [hk, update_self]
        exact hcorrect.1
      · rw [update_of_ne hk]
        exact (h.jobs k').congr (hspec.others k' hk).1 (hspec.others k' hk).2
    · intro c hc
      rcases List.mem_cons.1 hc with rfl | hc
      · exact hcorrect
      · exact h.completed c hc

lemma NoBadState.before {s : State} {job : Job} {r : Round}
    (h : NoBadState (finishRound s k job r)) : NoBadState s := by
  unfold finishRound at h
  split_ifs at h
  · exact h
  · exact fun c hc => h c (List.mem_cons_of_mem _ hc)

lemma step_inv (smallItemMaxSize : ℕ) (s : State) (a : Action) (t : State)
    (h : NoBadState s → Inv s) (ht : step smallItemMaxSize s a = some t) : NoBadState t → Inv t := by
  intro hbad
  cases a with
  | schedule k request =>
    rw [step] at ht
    split_ifs at ht with hidle
    cases ht
    have hinv := h hbad
    refine ⟨fun k' => ?_, hinv.completed⟩
    change JobFact s.engines k' (update s.jobs k _ k')
    by_cases hk : k' = k
    · have hfact := hinv.jobs k
      rw [hidle] at hfact
      rw [hk, update_self]
      exact hfact.single_of_start request
    · rw [update_of_ne hk]
      exact hinv.jobs k'
  | run k fault fault' =>
    obtain ⟨job, hjob, rfl⟩ := Option.map_eq_some_iff.1 ht
    have hinv := h hbad.before
    have hfact := hinv.jobs k
    rw [hjob] at hfact
    exact finishRound_inv hinv (runRound_spec smallItemMaxSize hfact) hbad

lemma init_inv : Inv init := ⟨fun _ => Or.inl rfl, by simp [init]⟩

/-- As long as no operation has returned `BadState`, a key without a job under way is in at
most one engine, and every operation that is done kept its promise. -/
theorem one_engine_per_key (smallItemMaxSize : ℕ) (as : List Action) (s : State)
    (hrun : Transition.run (step smallItemMaxSize) init as = some s)
    (hbad : ∀ c ∈ s.completed, c.status ≠ .BadState) :
    (∀ k, s.jobs k = none → s.engines.smallItemCache k = none ∨ s.engines.largeItemCache k = none) ∧
      ∀ c ∈ s.completed, c.Correct := by
  have hkept : NoBadState s → Inv s :=
    Transition.run_invariant (step_inv smallItemMaxSize) (fun _ => init_inv) hrun
  have hinv := hkept hbad
  refine ⟨fun k hk => ?_, hinv.completed⟩
  have hfact := hinv.jobs k
  rw [hk] at hfact
  exact hfact

/-- A key grows from a small to a large item while the small engine answers `Retry` once, and
is then looked up and removed with a retry each. -/
def growingItem : List Action :=
  [.schedule [1] (.insert [7]), .run [1] none none,
    .schedule [1] (.insert [7, 8, 9]), .run [1] none (some .Retry), .run [1] none none,
    .schedule [1] .lookup, .run [1] (some .Retry) none, .run [1] none none,
    .schedule [1] .remove, .run [1] none (some .Retry), .run [1] none none]

theorem one_engine_per_key_growing : ∃ s, Transition.run (step 2) init growingItem = some s ∧
      s.completed.map (fun c => (c.status, c.value)) =
        [(.Ok, none), (.Ok, some [7, 8, 9]), (.Ok, none), (.Ok, none)] ∧
      s.jobs [1] = none ∧ (s.engines.smallItemCache [1] = none ∨ s.engines.largeItemCache [1] = none) := by
  refine ⟨_, rfl, by decide +kernel, by decide +kernel, ?_⟩
  exact (one_engine_per_key 2 growingItem _ rfl (by decide +kernel)).1 [1] (by decide +kernel)

end HybridCache.EnginePair

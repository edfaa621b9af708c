import Mathlib
import HybridCache.NavySchedulerOrder
import HybridCache.OrderedSchedulerFinish

/-!
# Drain before flush and reset

`Driver::flush` and `Driver::reset` first call `drain`, which waits for the scheduler and then
for the engines. The engines have nothing to wait for. `OrderedThreadPoolJobScheduler::finish`
waits for all requests. `NavyRequestScheduler::finish` is empty and waits for none.
-/
namespace HybridCache.Driver
open JobScheduler Function Option

/-! ## Model -/

inductive SchedulerType
  | ordered
  | navy

inductive Scheduler (cfg : NavyScheduler.Config)
  | ordered (s : OrderedScheduler.State cfg)
  | navy (s : NavyScheduler.State cfg)

inductive Operation
  | drain
  | flush
  | reset
  deriving DecidableEq, Repr

/-- A call of the driver, with the requests that had been enqueued when it was made. -/
inductive Call
  | idle
  /-- Waits for the scheduler. -/
  | draining (op : Operation) (before : List Job)
  /-- `drain` has returned; the engines are flushed or reset. -/
  | drained (op : Operation) (before : List Job)
  deriving DecidableEq, Repr

variable {cfg : NavyScheduler.Config}

structure State (cfg : NavyScheduler.Config) where
  scheduler : Scheduler cfg
  call : ℕ → Call

def init (cfg : NavyScheduler.Config) : SchedulerType → State cfg
  | .ordered => ⟨.ordered (OrderedScheduler.init cfg), fun _ => .idle⟩
  | .navy => ⟨.navy (NavyScheduler.init cfg), fun _ => .idle⟩

def Scheduler.completed : Scheduler cfg → List Job
  | .ordered s => s.spool.completed
  | .navy s => s.spool.completed

def Scheduler.returnedCalls : Scheduler cfg → List Job
  | .ordered s => OrderedScheduler.returnedCalls s
  | .navy s => NavyScheduler.returnedCalls s

/-- A thread is within the function of the job. -/
def Scheduler.Runs (job : Job) : Scheduler cfg → Prop
  | .ordered s => ∃ th task, (s.phase th).task = some task ∧ task.job = job
  | .navy s => ∃ pl p task, NavyScheduler.phaseAt s pl = some p ∧ p.task = some task ∧
      task.job = job

def Scheduler.finish (f : ℕ) (readerFirst : Bool) : Scheduler cfg → Option (Scheduler cfg)
  | .ordered s => (OrderedScheduler.step s (.startFinish f readerFirst)).map .ordered
  | .navy s => some (.navy s)

def Scheduler.finished (f : ℕ) : Scheduler cfg → Bool
  | .ordered s =>
    match s.finish f with
    | .returned _ => true
    | _ => false
  | .navy _ => true

inductive Action (cfg : NavyScheduler.Config)
  | ordered (a : OrderedScheduler.Action cfg)
  | navy (a : NavyScheduler.Action cfg)
  | call (f : ℕ) (op : Operation) (readerFirst : Bool)
  /-- `drain` returns. -/
  | drained (f : ℕ)

def step (s : State cfg) : Action cfg → Option (State cfg)
  | .ordered a =>
    match s.scheduler with
    | .ordered sch => (OrderedScheduler.step sch a).map fun sch => { s with scheduler := .ordered sch }
    | .navy _ => none
  | .navy a =>
    match s.scheduler with
    | .ordered _ => none
    | .navy sch => (NavyScheduler.step sch a).map fun sch => { s with scheduler := .navy sch }
  | .call f op readerFirst =>
    match s.call f with
    | .idle => (s.scheduler.finish f readerFirst).map fun sch =>
        ⟨sch, update s.call f (.draining op s.scheduler.returnedCalls)⟩
    | _ => none
  | .drained f =>
    match s.call f with
    | .draining op before =>
      if s.scheduler.finished f then some { s with call := update s.call f (.drained op before) }
      else none
    | _ => none

/-! ## Requests that have been enqueued before the call -/

/-- When `drain` has returned the requests enqueued before it have completed, and none of
them overlaps with what follows. -/
def Drained (s : State cfg) : Prop :=
  ∀ f op before, s.call f = .drained op before → ∀ job ∈ before,
    job ∈ s.scheduler.completed ∧ ¬s.scheduler.Runs job

/-- A `finish` that does not wait returns after the requests have completed all the same. -/
def StepWaits (s : State cfg) : Action cfg → Prop
  | .drained f =>
    match s.scheduler with
    | .ordered _ => True
    | .navy sch => ∀ op before, s.call f = .draining op before → ∀ job ∈ before,
        job ∈ sch.spool.completed
  | _ => True

/-- `finish` waits for the requests that had been enqueued when the driver was called. -/
def CallOk (s : OrderedScheduler.State cfg) (f : ℕ) : Call → Prop
  | .idle => True
  | .draining _ before => (s.finish f).before = some before
  | .drained _ before => s.finish f = .returned before

def Inv (s : State cfg) : Prop :=
  match s.scheduler with
  | .ordered sch => OrderedScheduler.FinishInv sch ∧ ∀ f, CallOk sch f (s.call f)
  | .navy sch => NavyScheduler.Good sch

lemma init_inv (type : SchedulerType) : Inv (init cfg type) := by
  cases type with
  | ordered => exact ⟨OrderedScheduler.init_finishInv, fun _ => trivial⟩
  | navy => exact NavyScheduler.init_good

lemma init_drained (type : SchedulerType) : Drained (init cfg type) := by
  cases type <;> exact fun f op before h => by cases h

variable {sch : OrderedScheduler.State cfg} {s t : State cfg}

lemma CallOk.step {sch' : OrderedScheduler.State cfg} {f : ℕ} {call : Call}
    {a : OrderedScheduler.Action cfg} (h : CallOk sch f call)
    (hstep : OrderedScheduler.step sch a = some sch') : CallOk sch' f call := by
  cases call with
  | idle => trivial
  | draining op before => exact OrderedScheduler.step_before hstep h
  | drained op before => exact OrderedScheduler.step_returned hstep h

lemma returned_of_finished {f : ℕ} {call : Call}
    {op : Operation} {before : List Job} (hcall : call = .draining op before)
    (hfinished : (Scheduler.ordered sch).finished f = true) (hok : CallOk sch f call) :
    sch.finish f = .returned before := by
  rw [hcall] at hok
  simp only [Scheduler.finished] at hfinished
  split at hfinished
  next before' hf =>
    simp only [CallOk, hf, OrderedScheduler.Finish.before, some.injEq] at hok
    rw [hf, hok]
  next => cases hfinished

lemma step_inv {a : Action cfg} (hs : Inv s) (h : step s a = some t) : Inv t := by
  obtain ⟨scheduler, call⟩ := s
  cases a with
  | ordered a =>
    cases scheduler with
    | ordered sch =>
      obtain ⟨sch', hstep, rfl⟩ := map_eq_some_iff.1 h
      exact ⟨OrderedScheduler.step_finishInv hs.1 hstep, fun f => (hs.2 f).step hstep⟩
    | navy sch => cases h
  | navy a =>
    cases scheduler with
    | ordered sch => cases h
    | navy sch =>
      obtain ⟨sch', hstep, rfl⟩ := map_eq_some_iff.1 h
      exact NavyScheduler.change_good hs (NavyScheduler.step_change hstep)
  | call f op readerFirst =>
    simp only [step] at h
    split at h
    next hf =>
      cases scheduler with
      | ordered sch =>
        obtain ⟨_, hfinish, rfl⟩ := map_eq_some_iff.1 h
        obtain ⟨sch', hstep, rfl⟩ := map_eq_some_iff.1 hfinish
        refine ⟨OrderedScheduler.step_finishInv hs.1 hstep, fun g => ?_⟩
        simp only [update_apply]
        split_ifs with hg
        · rw [hg]
          exact OrderedScheduler.startFinish_before hstep
        · exact (hs.2 g).step hstep
      | navy sch =>
        obtain ⟨_, hfinish, rfl⟩ := map_eq_some_iff.1 h
        cases hfinish
        exact hs
    next => cases h
  | drained f =>
    simp only [step] at h
    split at h
    next op before hf =>
      split_ifs at h with hfinished
      cases h
      cases scheduler with
      | ordered sch =>
        refine ⟨hs.1, fun g => ?_⟩
        simp only [update_apply]
        split_ifs with hg
        · rw [hg]
          exact returned_of_finished hf hfinished (hs.2 f)
        · exact hs.2 g
      | navy sch => exact hs
    next => cases h

lemma not_runs_of_completed (hs : Inv s) {job : Job}
    (hjob : job ∈ s.scheduler.completed) : ¬s.scheduler.Runs job := by
  obtain ⟨scheduler, call⟩ := s
  cases scheduler with
  | ordered sch =>
    rintro ⟨th, task, htask, rfl⟩
    exact hs.1.good.inv.not_completed_of_task htask hjob
  | navy sch =>
    rintro ⟨pl, p, task, hpl, hp, rfl⟩
    exact hs.inv.not_completed_of_task hpl hp hjob

/-- With the ordered scheduler the requests have always completed. -/
lemma drained_of_ordered {call : ℕ → Call}
    (hs : Inv ⟨.ordered sch, call⟩) : Drained ⟨.ordered sch, call⟩ := by
  intro f op before hf job hjob
  have hcall := hs.2 f
  rw [hf] at hcall
  have hok := hs.1.finish f
  rw [hcall] at hok
  have hcompleted : job ∈ sch.spool.completed := OrderedScheduler.Settled.descends hok hjob .refl
  exact ⟨hcompleted, not_runs_of_completed hs hcompleted⟩

lemma Drained.step (hdrained : Drained s) (ht : Inv t)
    (hcall : ∀ f op before, t.call f = .drained op before → s.call f = .drained op before)
    (hcompleted : ∀ job ∈ s.scheduler.completed, job ∈ t.scheduler.completed) : Drained t := by
  intro f op before hf job hjob
  have hjob' := hcompleted job (hdrained f op before (hcall f op before hf) job hjob).1
  exact ⟨hjob', not_runs_of_completed ht hjob'⟩

lemma drained_step_iff {a : Action cfg} (hs : Inv s) (hdrained : Drained s)
    (h : step s a = some t) : Drained t ↔ StepWaits s a := by
  have ht := step_inv hs h
  obtain ⟨scheduler, call⟩ := s
  cases a with
  | ordered a =>
    cases scheduler with
    | ordered sch =>
      obtain ⟨sch', hstep, rfl⟩ := map_eq_some_iff.1 h
      exact iff_of_true (drained_of_ordered ht) trivial
    | navy sch => cases h
  | navy a =>
    cases scheduler with
    | ordered sch => cases h
    | navy sch =>
      obtain ⟨sch', hstep, rfl⟩ := map_eq_some_iff.1 h
      refine iff_of_true (hdrained.step ht (fun _ _ _ hf => hf) fun job hjob => ?_) trivial
      exact NavyScheduler.change_completed (NavyScheduler.step_change hstep) hjob
  | call f op readerFirst =>
    refine iff_of_true ?_ trivial
    simp only [step] at h
    split at h
    next hf =>
      cases scheduler with
      | ordered sch =>
        obtain ⟨_, hfinish, rfl⟩ := map_eq_some_iff.1 h
        obtain ⟨sch', hstep, rfl⟩ := map_eq_some_iff.1 hfinish
        exact drained_of_ordered ht
      | navy sch =>
        obtain ⟨_, hfinish, rfl⟩ := map_eq_some_iff.1 h
        cases hfinish
        refine hdrained.step ht (fun g op' before hg => ?_) fun job hjob => hjob
        simp only [update_apply] at hg
        split_ifs at hg
        exact hg
    next => cases h
  | drained f =>
    simp only [Driver.step] at h
    split at h
    next op before hf =>
      split_ifs at h with hfinished
      cases h
      cases scheduler with
      | ordered sch => exact iff_of_true (drained_of_ordered ht) trivial
      | navy sch =>
        constructor
        · intro hnew op' before' hf' job hjob
          obtain ⟨rfl, rfl⟩ := Call.draining.inj (hf.symm.trans hf')
          exact (hnew f op before (update_self ..) job hjob).1
        · intro hwaits g op' before' hg job hjob
          have hcompleted : job ∈ sch.spool.completed := by
            by_cases hgf : g = f
            · rw [hgf] at hg
              obtain ⟨rfl, rfl⟩ := Call.drained.inj ((update_self f _ call).symm.trans hg)
              exact hwaits op before hf job hjob
            · have hold : call g = .drained op' before' := (update_of_ne hgf _ call).symm.trans hg
              exact (hdrained g op' before' hold job hjob).1
          exact ⟨hcompleted, not_runs_of_completed ht hcompleted⟩
    next => cases h

/-! ## Result -/

/-- A write is enqueued and `flush` is called. -/
def flushRun : List (Action NavyScheduler.oneOutstanding) :=
  let client : Fin NavyScheduler.oneOutstanding.clients := ⟨0, Nat.one_pos⟩
  [.navy (.enqueue client .write 0 .done), .navy (.submit (.client client)),
    .navy (.submit (.client client)), .call 0 .flush true, .drained 0]

end HybridCache.Driver

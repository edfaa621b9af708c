import HybridCache.JobScheduler

/-!
# Ordered thread-pool scheduler

`OrderedThreadPoolJobScheduler` over two pools of threads, each with its own `JobQueue`.
A step is one critical section, or a part of a job that runs without a lock. A call that
schedules a task keeps the mutex of its shard while it enters the task into a queue and
notifies the thread of that queue.

No stop is requested, so the loop of a worker never ends. A wait for a condition variable
may end without a notification.
-/
namespace HybridCache.OrderedScheduler
open JobScheduler Function

/-- `scheduleJobLocked`, with the mutex of the shard held: first the task is pushed, then
the worker is notified if its queue was empty and it had nothing to do. -/
structure Call where
  task : Task
  wasEmpty : Option Bool
  deriving DecidableEq, Repr

/-- Who schedules a task: `enqueueWithKey`, called by a client or by a job, or
`scheduleNextJob`. -/
inductive Caller
  | client
  | job (task : Task)
  | next
  deriving DecidableEq, Repr

inductive Phase
  /-- In `cv_.wait`. -/
  | waiting
  /-- At the head of the loop of `process`, or a client between two calls. -/
  | awake
  /-- Within the function of the job. -/
  | running (task : Task)
  | calling (caller : Caller) (call : Call)
  /-- The function of the job has returned `Done`. -/
  | completing (job : Job)
  /-- The wrapper of the job has returned, with the task to be run again. -/
  | returning (again : Option Task)
  deriving DecidableEq, Repr

abbrev Thread (cfg : Config) := Queue cfg ⊕ Fin cfg.clients

/-- `ThreadPoolJobScheduler::finish` in a round: the sum of the round before, the sum so far
and the queues to be visited. The calls of `enqueueWithKey` that had returned at the start
are recorded. -/
inductive Finish (cfg : Config)
  | idle
  | running (before : List Job) (enqueueTotalCount ec : ℕ) (rest : List (Queue cfg))
  | returned (before : List Job)
  deriving DecidableEq

structure State (cfg : Config) where
  spool : Spool cfg
  /-- `mutexes_`. -/
  locked : Shard cfg → Bool
  queue : Queue cfg → List Task
  enqueueCount : Queue cfg → ℕ
  phase : Thread cfg → Phase
  finish : ℕ → Finish cfg

variable {cfg : Config}

def init (cfg : Config) : State cfg where
  spool := Spool.init cfg
  locked _ := false
  queue _ := []
  enqueueCount _ := 0
  phase _ := .awake
  finish _ := .idle

/-- `processing_ == 0`. -/
def Phase.isIdle : Phase → Bool
  | .waiting | .awake => true
  | _ => false

/-- The condition for which `JobQueue::finish` waits. -/
def idleQueue (s : State cfg) (q : Queue cfg) : Prop :=
  s.queue q = [] ∧ (s.phase (.inl q)).isIdle = true

instance (s : State cfg) (q : Queue cfg) : Decidable (idleQueue s q) := by
  unfold idleQueue
  infer_instance

/-- Reclaim and flush jobs are put to the front of a queue. -/
def pushTask (queue : List Task) (task : Task) : List Task :=
  match task.job.type with
  | .read | .write => queue ++ [task]
  | .reclaim | .flush => task :: queue

def Caller.resume : Caller → Phase
  | .client => .awake
  | .job task => .running task
  | .next => .returning none

/-- The first part of `enqueueWithKey`. -/
def submit (s : State cfg) (th : Thread cfg) (caller : Caller) (task : Task) :
    Option (State cfg) :=
  if s.locked (task.job.shard cfg) then none
  else if s.spool.shouldSpool (task.job.shard cfg) then
    some { s with
      spool := s.spool.spool task
      phase := update s.phase th caller.resume }
  else
    some { s with
      spool := s.spool.start task
      locked := update s.locked (task.job.shard cfg) true
      phase := update s.phase th (.calling caller ⟨task, none⟩) }

/-- `JobQueue::enqueue` under the mutex of the queue. -/
def push (s : State cfg) (th : Thread cfg) (caller : Caller) (task : Task) : State cfg :=
  let q := task.job.queue cfg
  { s with
    queue := update s.queue q (pushTask (s.queue q) task)
    enqueueCount := update s.enqueueCount q (s.enqueueCount q + 1)
    phase := update s.phase th (.calling caller ⟨task, some (decide (idleQueue s q))⟩) }

/-- Only a worker that waits takes notice of `notify_one`. -/
def wakeUp (phase : Thread cfg → Phase) (q : Queue cfg) (wasEmpty : Bool) : Thread cfg → Phase :=
  if wasEmpty = true ∧ phase (.inl q) = .waiting then update phase (.inl q) .awake
  else phase

/-- The end of a call: the worker is notified and the mutex of the shard is released. -/
def notify (s : State cfg) (th : Thread cfg) (caller : Caller) (task : Task) (wasEmpty : Bool) :
    State cfg :=
  { s with
    locked := update s.locked (task.job.shard cfg) false
    phase := update (wakeUp s.phase (task.job.queue cfg) wasEmpty) th
      caller.resume }

/-- The function of a job goes on. -/
def execute (s : State cfg) (q : Queue cfg) (task : Task) : Option (State cfg) :=
  match task.code with
  | .done => some { s with
      spool := s.spool.complete task.job
      phase := update s.phase (.inl q) (.completing task.job) }
  | .reschedule rest => some { s with
      phase := update s.phase (.inl q) (.returning (some ⟨task.job, rest⟩)) }
  | .enqueue type key body rest =>
    submit s (.inl q) (.job ⟨task.job, rest⟩) ⟨s.spool.newJob type key (some task.job.id), body⟩

def scheduleNextJob (s : State cfg) (q : Queue cfg) (job : Job) : Option (State cfg) :=
  if s.locked (job.shard cfg) then none
  else match s.spool.pending (job.shard cfg) with
    | [] => some { s with
        spool := s.spool.close (job.shard cfg)
        phase := update s.phase (.inl q) (.returning none) }
    | task :: rest => some { s with
        spool := s.spool.next (job.shard cfg) task rest
        locked := update s.locked (job.shard cfg) true
        phase := update s.phase (.inl q) (.calling .next ⟨task, none⟩) }

/-- The order in which the two pools are finished is not specified. -/
def visitOrder (cfg : Config) (readerFirst : Bool) : List (Queue cfg) :=
  let readers : List (Queue cfg) := (List.finRange cfg.readerThreads).map .inl
  let writers : List (Queue cfg) := (List.finRange cfg.writerThreads).map .inr
  if readerFirst then readers ++ writers else writers ++ readers

def setFinish (s : State cfg) (f : ℕ) (fin : Finish cfg) : State cfg :=
  { s with finish := update s.finish f fin }

/-- The job of a call of `enqueueWithKey` that has not returned. -/
def Phase.enqueueing : Phase → Option Job
  | .calling .client call | .calling (.job _) call => some call.task.job
  | _ => none

/-- The calls of `enqueueWithKey` that have returned. -/
def returnedCalls (s : State cfg) : List Job :=
  s.spool.enqueued.filter fun job => ∀ th, (s.phase th).enqueueing ≠ some job

inductive Action (cfg : Config)
  /-- A client calls `enqueueWithKey`. -/
  | enqueue (client : Fin cfg.clients) (type : JobType) (key : ℕ) (code : Code)
  /-- A call that holds the mutex of a shard goes on. -/
  | advance (th : Thread cfg)
  | wait (q : Queue cfg)
  /-- A wait ends without a notification. -/
  | wake (q : Queue cfg)
  | take (q : Queue cfg)
  | execute (q : Queue cfg)
  | next (q : Queue cfg)
  /-- `process` locks the queue again after a job. -/
  | endJob (q : Queue cfg)
  | startFinish (f : ℕ) (readerFirst : Bool)
  | visit (f : ℕ)
  | endRound (f : ℕ) (readerFirst : Bool)

def step (s : State cfg) : Action cfg → Option (State cfg)
  | .enqueue client type key code =>
    match s.phase (.inr client) with
    | .awake => submit s (.inr client) .client ⟨s.spool.newJob type key none, code⟩
    | _ => none
  | .advance th =>
    match s.phase th with
    | .calling caller ⟨task, none⟩ => some (push s th caller task)
    | .calling caller ⟨task, some wasEmpty⟩ => some (notify s th caller task wasEmpty)
    | _ => none
  | .wait q =>
    if s.phase (.inl q) = .awake ∧ s.queue q = [] then
      some { s with phase := update s.phase (.inl q) .waiting }
    else none
  | .wake q =>
    if s.phase (.inl q) = .waiting then
      some { s with phase := update s.phase (.inl q) .awake }
    else none
  | .take q =>
    match s.phase (.inl q), s.queue q with
    | .awake, task :: rest => some { s with
        queue := update s.queue q rest
        phase := update s.phase (.inl q) (.running task) }
    | _, _ => none
  | .execute q =>
    match s.phase (.inl q) with
    | .running task => execute s q task
    | _ => none
  | .next q =>
    match s.phase (.inl q) with
    | .completing job => scheduleNextJob s q job
    | _ => none
  | .endJob q =>
    match s.phase (.inl q) with
    | .returning none => some { s with phase := update s.phase (.inl q) .awake }
    | .returning (some task) => some { s with
        queue := update s.queue q (s.queue q ++ [task])
        phase := update s.phase (.inl q) .awake }
    | _ => none
  | .startFinish f readerFirst =>
    match s.finish f with
    | .idle =>
      some (setFinish s f (.running (returnedCalls s) 0 0 (visitOrder cfg readerFirst)))
    | _ => none
  | .visit f =>
    match s.finish f with
    | .running before total ec (q :: rest) =>
      if idleQueue s q then
        some (setFinish s f (.running before total (ec + s.enqueueCount q) rest))
      else none
    | _ => none
  | .endRound f readerFirst =>
    match s.finish f with
    | .running before total ec [] =>
      if ec = total then some (setFinish s f (.returned before))
      else some (setFinish s f (.running before ec 0 (visitOrder cfg readerFirst)))
    | _ => none

def Phase.task : Phase → Option Task
  | .running task | .calling (.job task) _ => some task
  | _ => none

end HybridCache.OrderedScheduler

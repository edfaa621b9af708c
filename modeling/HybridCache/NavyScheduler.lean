import HybridCache.JobScheduler

/-!
# Navy request scheduler

`NavyRequestScheduler` with its dispatchers. Each dispatcher has a thread of its own, which
runs the requests and the dispatch loop as fibers. Requests are submitted to a lock-free
stack; the loop takes the whole stack at once and puts a sentinel in its place.

The fibers of one thread switch only at waits, at yields and at their ends. Between two such
points a fiber has the counters and the baton of its dispatcher for itself, so what it does
there with them is one step. The stack and the mutexes of the shards are shared by all
threads, and each access is a step. A compare-and-swap that fails is tried again and changes
nothing. The scheduler is not stopped.
-/
namespace HybridCache.NavyScheduler
open JobScheduler Function

structure Config extends JobScheduler.Config where
  maxNumReads : ℕ
  maxNumWrites : ℕ

instance : Coe Config JobScheduler.Config := ⟨Config.toConfig⟩

/-- The limit of a dispatcher, after the adjustment by the constructor. -/
def maxOutstanding (cfg : Config) : Queue cfg → ℕ
  | .inl _ => max cfg.maxNumReads cfg.readerThreads / cfg.readerThreads
  | .inr _ => max cfg.maxNumWrites cfg.writerThreads / cfg.writerThreads

/-- What the last request of the list points to. -/
inductive Bottom
  | null
  | sentinel
  deriving DecidableEq, Repr

/-- The list that starts at `incomingReqs_`. -/
structure Incoming where
  reqs : List Task
  bottom : Bottom
  deriving DecidableEq, Repr

def Incoming.null : Incoming := ⟨[], .null⟩
def Incoming.sentinel : Incoming := ⟨[], .sentinel⟩

/-- The loop that inverts the list up to its end or to the sentinel. -/
def invert : List Task → List Task → List Task
  | [], pending => pending
  | req :: incoming, pending => invert incoming (req :: pending)

inductive Loop
  /-- About to claim the queue. -/
  | claim
  | dispatching (pending : List Task)
  /-- Waits for the baton with a request. -/
  | waiting (req : Task) (pending : List Task)
  /-- In `scheduleReq`, after the request is counted. -/
  | adding (req : Task) (pending : List Task)
  /-- About to unclaim the queue. -/
  | unclaim
  deriving DecidableEq, Repr

/-- `submitReq`, with the mutex of the shard held: first the request is pushed, then a loop
is started if the queue was empty. -/
structure Call where
  task : Task
  wasNull : Option Bool
  deriving DecidableEq, Repr

/-- Who submits a request: `enqueueWithKey`, called by a client or by a job, or
`notifyCompletion`. -/
inductive Caller
  | client
  | job (task : Task)
  | next
  deriving DecidableEq, Repr

/-- What a client or the fiber of a request is doing. -/
inductive Phase
  /-- A client between two calls. -/
  | idle
  /-- Within the function of the job, or at a yield between two executions. -/
  | running (task : Task)
  | calling (caller : Caller) (call : Call)
  /-- The function of the job has returned `Done`. -/
  | completing (job : Job)
  /-- `notifyCompletion` has returned. -/
  | finishing
  deriving DecidableEq, Repr

structure Dispatcher where
  incoming : Incoming
  /-- The loops given to the worker thread and not started. -/
  remote : ℕ
  loops : List Loop
  posted : Bool
  numOutstanding : ℕ
  /-- The requests in the order in which they were pushed. -/
  pushed : List Job
  /-- The requests in the order in which they were dispatched. -/
  dispatched : List Job

variable {cfg : Config}

structure State (cfg : Config) where
  spool : Spool cfg
  /-- `mutexes_`. -/
  locked : Shard cfg → Bool
  disp : Queue cfg → Dispatcher
  fibers : Queue cfg → List Phase
  clients : Fin cfg.clients → Phase

def init (cfg : Config) : State cfg where
  spool := Spool.init cfg
  locked _ := false
  disp _ := ⟨.null, 0, [], false, 0, [], []⟩
  fibers _ := []
  clients _ := .idle

inductive Place (cfg : Config)
  | client (c : Fin cfg.clients)
  | fiber (d : Queue cfg) (i : ℕ)

def phaseAt (s : State cfg) : Place cfg → Option Phase
  | .client c => some (s.clients c)
  | .fiber d i => (s.fibers d)[i]?

def setPhase (s : State cfg) (pl : Place cfg) (p : Phase) : State cfg :=
  match pl with
  | .client c => { s with clients := update s.clients c p }
  | .fiber d i => { s with fibers := update s.fibers d ((s.fibers d).set i p) }

def setDisp (s : State cfg) (d : Queue cfg) (disp : Dispatcher) : State cfg :=
  { s with disp := update s.disp d disp }

def Caller.resume : Caller → Phase
  | .client => .idle
  | .job task => .running task
  | .next => .finishing

/-- `enqueueWithKey` up to the call of `submitReq`. -/
def enqueueWithKey (s : State cfg) (pl : Place cfg) (caller : Caller) (task : Task) :
    Option (State cfg) :=
  let sh := task.job.shard cfg
  if s.locked sh then none
  else if s.spool.shouldSpool sh then
    some (setPhase { s with spool := s.spool.spool task } pl caller.resume)
  else
    some (setPhase { s with
      spool := s.spool.start task
      locked := update s.locked sh true } pl (.calling caller ⟨task, none⟩))

/-- The successful compare-and-swap of `submitReq`. -/
def pushReq (disp : Dispatcher) (task : Task) : Dispatcher :=
  { disp with
    incoming := { disp.incoming with reqs := task :: disp.incoming.reqs }
    pushed := disp.pushed ++ [task.job] }

/-- A loop is given to the worker thread if the queue was empty. -/
def addLoop (disp : Dispatcher) (wasNull : Bool) : Dispatcher :=
  { disp with remote := disp.remote + wasNull.toNat }

def submitReq (s : State cfg) (pl : Place cfg) (caller : Caller) (call : Call) : State cfg :=
  let d := call.task.job.queue cfg
  match call.wasNull with
  | none =>
    setPhase (setDisp s d (pushReq (s.disp d) call.task)) pl
      (.calling caller ⟨call.task, some (decide ((s.disp d).incoming = .null))⟩)
  | some wasNull =>
    setPhase { setDisp s d (addLoop (s.disp d) wasNull) with
      locked := update s.locked (call.task.job.shard cfg) false } pl caller.resume

/-- The fiber of a request goes on with its job. -/
def execute (s : State cfg) (pl : Place cfg) (task : Task) : Option (State cfg) :=
  match task.code with
  | .done =>
    some (setPhase { s with spool := s.spool.complete task.job } pl (.completing task.job))
  | .reschedule rest => some (setPhase s pl (.running ⟨task.job, rest⟩))
  | .enqueue type key body rest =>
    enqueueWithKey s pl (.job ⟨task.job, rest⟩)
      ⟨s.spool.newJob type key (some task.job.id), body⟩

def notifyCompletion (s : State cfg) (pl : Place cfg) (job : Job) : Option (State cfg) :=
  let sh := job.shard cfg
  if s.locked sh then none
  else match s.spool.pending sh with
    | [] => some (setPhase { s with spool := s.spool.close sh } pl .finishing)
    | task :: rest => some (setPhase { s with
        spool := s.spool.next sh task rest
        locked := update s.locked sh true } pl (.calling .next ⟨task, none⟩))

/-- The end of the fiber of a request: the baton is posted if the limit was reached. -/
def completeReq (disp : Dispatcher) (max : ℕ) : Dispatcher :=
  { disp with
    numOutstanding := disp.numOutstanding - 1
    posted := disp.posted || decide (disp.numOutstanding - 1 + 1 = max) }

def endRequest (s : State cfg) (d : Queue cfg) (i : ℕ) : State cfg :=
  { setDisp s d (completeReq (s.disp d) (maxOutstanding cfg d)) with
    fibers := update s.fibers d ((s.fibers d).eraseIdx i) }

/-! ## Dispatch loop -/

def startLoop (disp : Dispatcher) : Dispatcher :=
  { disp with remote := disp.remote - 1, loops := disp.loops ++ [.claim] }

def setLoop (disp : Dispatcher) (l : ℕ) (loop : Loop) : Dispatcher :=
  { disp with loops := disp.loops.set l loop }

/-- The queue is claimed by an exchange of its head. -/
def claimQueue (disp : Dispatcher) (l : ℕ) : Dispatcher :=
  { disp with
    incoming := .sentinel
    loops := disp.loops.set l (.dispatching (invert disp.incoming.reqs [])) }

/-- The baton is reset before the wait. -/
def waitBaton (disp : Dispatcher) (l : ℕ) (req : Task) (pending : List Task) : Dispatcher :=
  { disp with posted := false, loops := disp.loops.set l (.waiting req pending) }

/-- `scheduleReq` up to the start of the fiber. -/
def scheduleReq (disp : Dispatcher) (l : ℕ) (req : Task) (pending : List Task) : Dispatcher :=
  { disp with
    numOutstanding := disp.numOutstanding + 1
    dispatched := disp.dispatched ++ [req.job]
    loops := disp.loops.set l (.adding req pending) }

/-- The queue is unclaimed and the loop ends. -/
def unclaimQueue (disp : Dispatcher) (l : ℕ) : Dispatcher :=
  { disp with incoming := .null, loops := disp.loops.eraseIdx l }

def processLoop (s : State cfg) (d : Queue cfg) (l : ℕ) : Option (State cfg) :=
  let disp := s.disp d
  match disp.loops[l]? with
  | none => none
  | some .claim => some (setDisp s d (claimQueue disp l))
  | some (.dispatching []) => some (setDisp s d (setLoop disp l .unclaim))
  | some (.dispatching (req :: pending)) =>
    if disp.numOutstanding = maxOutstanding cfg d then
      some (setDisp s d (waitBaton disp l req pending))
    else some (setDisp s d (scheduleReq disp l req pending))
  | some (.waiting req pending) =>
    if disp.posted then some (setDisp s d (scheduleReq disp l req pending)) else none
  | some (.adding req pending) =>
    some { setDisp s d (setLoop disp l (.dispatching pending)) with
      fibers := update s.fibers d (s.fibers d ++ [.running req]) }
  | some .unclaim =>
    if disp.incoming = .sentinel then some (setDisp s d (unclaimQueue disp l))
    else some (setDisp s d (setLoop disp l .claim))

inductive Action (cfg : Config)
  /-- A client calls `enqueueWithKey`. -/
  | enqueue (client : Fin cfg.clients) (type : JobType) (key : ℕ) (code : Code)
  /-- A call of `submitReq` goes on. -/
  | submit (pl : Place cfg)
  | execute (d : Queue cfg) (i : ℕ)
  | notifyCompletion (d : Queue cfg) (i : ℕ)
  | endRequest (d : Queue cfg) (i : ℕ)
  /-- A loop given to the worker thread begins. -/
  | startLoop (d : Queue cfg)
  | processLoop (d : Queue cfg) (l : ℕ)

def step (s : State cfg) : Action cfg → Option (State cfg)
  | .enqueue client type key code =>
    match s.clients client with
    | .idle => enqueueWithKey s (.client client) .client ⟨s.spool.newJob type key none, code⟩
    | _ => none
  | .submit pl =>
    match phaseAt s pl with
    | some (.calling caller call) => some (submitReq s pl caller call)
    | _ => none
  | .execute d i =>
    match (s.fibers d)[i]? with
    | some (.running task) => execute s (.fiber d i) task
    | _ => none
  | .notifyCompletion d i =>
    match (s.fibers d)[i]? with
    | some (.completing job) => notifyCompletion s (.fiber d i) job
    | _ => none
  | .endRequest d i =>
    match (s.fibers d)[i]? with
    | some .finishing => some (endRequest s d i)
    | _ => none
  | .startLoop d =>
    if (s.disp d).remote = 0 then none else some (setDisp s d (startLoop (s.disp d)))
  | .processLoop d l => processLoop s d l

/-- The task that a fiber runs. -/
def Phase.task : Phase → Option Task
  | .running task | .calling (.job task) _ => some task
  | _ => none

/-- The job of a call of `enqueueWithKey` that has not returned. -/
def Phase.enqueueing : Phase → Option Job
  | .calling .client call | .calling (.job _) call => some call.task.job
  | _ => none

/-- The calls of `enqueueWithKey` that have returned. -/
def returnedCalls (s : State cfg) : List Job :=
  s.spool.enqueued.filter fun job =>
    (∀ c, (s.clients c).enqueueing ≠ some job) ∧
      ∀ d, ∀ p ∈ s.fibers d, p.enqueueing ≠ some job

end HybridCache.NavyScheduler

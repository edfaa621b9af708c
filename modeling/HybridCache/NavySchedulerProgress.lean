import HybridCache.NavyDispatch

/-!
# Every request is dispatched and completes

The mutex of a shard is held by exactly one call, and each job is pushed once. A dispatcher
whose loop waits has a fiber, and while a request is queued there is a loop or there will be
one. So some thread can go on as long as there is a job that has not completed.
-/
namespace HybridCache.NavyScheduler
open JobScheduler Function Transition List

variable {cfg : Config}

lemma maxOutstanding_pos (cfg : Config) (d : Queue cfg) : 0 < maxOutstanding cfg d := by
  cases d with
  | inl d => exact Nat.div_pos (le_max_right ..) cfg.readerThreads_pos
  | inr d => exact Nat.div_pos (le_max_right ..) cfg.writerThreads_pos

/-! ## Mutexes of the shards -/

def Phase.calls (sh : Shard cfg) : Phase → ℕ
  | .calling _ call => shardCopies sh call.task.job
  | _ => 0

lemma Caller.calls_resume (caller : Caller) (sh : Shard cfg) :
    caller.resume.calls sh = 0 := by cases caller <;> rfl

def Locks (s : State cfg) : Prop :=
  ∀ sh : Shard cfg, total (Phase.calls sh) s = (s.locked sh).toNat

variable {p p' : Phase} {pl : Place cfg} {s u t : State cfg} {caller : Caller} {task : Task}
  {k : Kind} {disp : Dispatcher}

/-- A thread goes on without the mutexes. -/
lemma Locks.setPhase (h : Locks s) (hlocked : u.locked = s.locked)
    (hfibers : u.fibers = s.fibers) (hclients : u.clients = s.clients)
    (hp : phaseAt u pl = some p)
    (hcalls : ∀ sh : Shard cfg, p'.calls sh = p.calls sh) : Locks (setPhase u pl p') := by
  intro sh
  have hset := total_goOn (Phase.calls sh) hfibers hclients hp p'
  rw [hcalls, h sh] at hset
  rw [setPhase_locked, hlocked]
  exact Nat.add_right_cancel hset

lemma Locks.acquire (h : Locks s) {task : Task}
    {sh : Shard cfg} (hshard : task.job.shard cfg = sh)
    (hlocked : u.locked = update s.locked sh true)
    (hfibers : u.fibers = s.fibers) (hclients : u.clients = s.clients)
    (hp : phaseAt u pl = some p) (hfree : s.locked sh = false)
    (hcalls : ∀ sh : Shard cfg, p.calls sh = 0) :
    Locks (NavyScheduler.setPhase u pl (.calling caller ⟨task, none⟩)) := by
  intro sh'
  have hset := total_goOn (Phase.calls sh') hfibers hclients hp (.calling caller ⟨task, none⟩)
  rw [hcalls, h sh'] at hset
  simp only [Phase.calls, shardCopies, hshard] at hset
  rw [setPhase_locked, hlocked, update_apply]
  by_cases hsh : sh' = sh
  · subst hsh
    simpa [hfree] using hset
  · simpa [hsh, Ne.symm hsh] using hset

lemma locked_of_calling (h : Locks s) {caller : Caller}
    {call : Call} (hp : phaseAt s pl = some (.calling caller call)) :
    s.locked (call.task.job.shard cfg) = true := by
  have hle := le_total (Phase.calls (call.task.job.shard cfg)) hp
  have hone : (Phase.calling caller call).calls (call.task.job.shard cfg) = 1 := if_pos rfl
  have hsum := h (call.task.job.shard cfg)
  cases hlocked : s.locked (call.task.job.shard cfg)
  · simp only [hlocked, Bool.toNat_false] at hsum
    omega
  · rfl

lemma Locks.release (h : Locks s) {call : Call}
    (hlocked : u.locked = update s.locked (call.task.job.shard cfg) false)
    (hfibers : u.fibers = s.fibers) (hclients : u.clients = s.clients)
    (hp : phaseAt s pl = some (.calling caller call)) (hu : phaseAt u pl = phaseAt s pl) :
    Locks (NavyScheduler.setPhase u pl caller.resume) := by
  intro sh
  have hset := total_goOn (Phase.calls sh) hfibers hclients (hu.trans hp) caller.resume
  have htrue := locked_of_calling h hp
  rw [caller.calls_resume, h sh] at hset
  simp only [Phase.calls, shardCopies] at hset
  rw [setPhase_locked, hlocked, update_apply]
  by_cases hsh : sh = call.task.job.shard cfg
  · subst hsh
    simpa [htrue] using hset
  · simpa [hsh, Ne.symm hsh] using hset

lemma change_locks (hinv : Inv s) (hlocks : Locks s) (h : Change s k t) : Locks t := by
  cases h with
  | @spool task pl caller hsub =>
    refine hlocks.setPhase (u := { s with spool := s.spool.spool task }) rfl rfl rfl hsub.phase ?_
    intro sh
    cases caller <;> rfl
  | @start task pl caller hsub hid hlocked =>
    exact hlocks.acquire (u := { s with spool := s.spool.start task, locked := _ }) rfl rfl rfl rfl
      hsub.phase hlocked fun sh => by cases caller <;> rfl
  | @push pl caller task hphase =>
    exact hlocks.setPhase (u := setDisp s (task.job.queue cfg) _) rfl rfl rfl hphase
      fun sh => rfl
  | @started pl caller task wasNull hphase =>
    exact hlocks.release (u := { setDisp s (task.job.queue cfg) _ with locked := _ })
      rfl rfl rfl hphase (by cases pl <;> rfl)
  | done hphase | close hphase =>
    exact hlocks.setPhase (u := { s with spool := _ }) rfl rfl rfl hphase fun sh => rfl
  | reschedule hphase => exact hlocks.setPhase (u := s) rfl rfl rfl hphase fun sh => rfl
  | @next d i job task rest hphase hlocked hpending =>
    have hshard : task.job.shard cfg = job.shard cfg :=
      Spool.shard_of_pending hinv.spool (by rw [hpending]; exact mem_cons_self)
    exact hlocks.acquire (u := { s with spool := _, locked := _ }) hshard rfl rfl rfl hphase hlocked
      fun sh => rfl
  | @endRequest d i hphase => exact fun sh => (total_erase _ hphase _).trans (hlocks sh)
  | startLoop | loop => exact hlocks
  | @add d l req pending hl => exact fun sh => (total_snoc _ s d (.running req) _).trans (hlocks sh)

/-! ## Each job is pushed once -/

def Phase.pushing (job : Job) : Phase → ℕ
  | .calling _ ⟨task, none⟩ => jobCopies job task.job
  | _ => 0

lemma Caller.pushing_resume (caller : Caller) (job : Job) : caller.resume.pushing job = 0 := by
  cases caller <;> rfl

lemma Caller.pushing_submitting (caller : Caller) (task : Task) (job : Job) :
    (caller.submitting task).pushing job = 0 := by cases caller <;> rfl

variable {disp' : Dispatcher} {l max : ℕ} {d : Queue cfg}

lemma LoopChange.pushed (h : LoopChange max disp l disp') :
    disp'.pushed = disp.pushed := by cases h <;> rfl

/-- A job that was enqueued has been pushed, is about to be pushed or is pending. -/
def Pushes (s : State cfg) : Prop :=
  ∀ job, (∑ d, (s.disp d).pushed.count job) + total (Phase.pushing job) s +
    (∑ sh, listCopies job (s.spool.pending sh)) = s.spool.enqueued.count job

lemma count_snoc (l : List Job) (job' job : Job) :
    (l ++ [job']).count job = l.count job + jobCopies job job' := by
  simp [jobCopies, count_singleton]

/-- A dispatcher goes on with its requests. -/
lemma Pushes.setDisp (h : Pushes s)
    (hdisp : u.disp = update s.disp d disp) (hspool : u.spool = s.spool)
    (hpushed : disp.pushed = (s.disp d).pushed)
    (htotal : ∀ job, total (Phase.pushing job) u = total (Phase.pushing job) s) : Pushes u := by
  intro job
  have hupdate := sum_update s.disp (fun disp => disp.pushed.count job) d disp
  rw [hpushed] at hupdate
  rw [hdisp, hspool, htotal, ← h job, Nat.add_right_cancel hupdate]

lemma Pushes.setPhase (h : Pushes s) (hfibers : u.fibers = s.fibers)
    (hclients : u.clients = s.clients) {p p' : Phase}
    (hp : phaseAt u pl = some p)
    (hbalance : ∀ job, (∑ d, (u.disp d).pushed.count job) + p'.pushing job +
        (∑ sh, listCopies job (u.spool.pending sh)) + s.spool.enqueued.count job =
      (∑ d, (s.disp d).pushed.count job) + p.pushing job +
        (∑ sh, listCopies job (s.spool.pending sh)) + u.spool.enqueued.count job) :
    Pushes (NavyScheduler.setPhase u pl p') := by
  intro job
  have hset := total_goOn (Phase.pushing job) hfibers hclients hp p'
  have hold := h job
  have hjob := hbalance job
  rw [setPhase_disp, setPhase_spool]
  omega

lemma change_pushes (hpushes : Pushes s) (h : Change s k t) : Pushes t := by
  cases h with
  | @spool task pl caller hsub =>
    refine hpushes.setPhase (u := { s with spool := s.spool.spool task }) rfl rfl hsub.phase ?_
    intro job
    have hpending := sum_update s.spool.pending (listCopies job)
      (task.job.shard cfg) (s.spool.pending (task.job.shard cfg) ++ [task])
    rw [listCopies_append, listCopies_cons, listCopies_nil] at hpending
    have hcount := count_snoc s.spool.enqueued task.job job
    rw [caller.pushing_resume, caller.pushing_submitting]
    simp only [Spool.spool]
    omega
  | @start task pl caller hsub =>
    refine hpushes.setPhase (u := { s with spool := s.spool.start task, locked := _ }) rfl rfl
      hsub.phase fun job => ?_
    have hcount := count_snoc s.spool.enqueued task.job job
    rw [caller.pushing_submitting, Phase.pushing]
    simp only [Spool.start]
    omega
  | @push pl caller task hphase =>
    refine hpushes.setPhase (u := setDisp s (task.job.queue cfg) _) rfl rfl hphase
      fun job => ?_
    have hupdate := sum_update s.disp (fun disp => disp.pushed.count job)
      (task.job.queue cfg) (pushReq (s.disp (task.job.queue cfg)) task)
    have hcount := count_snoc (s.disp (task.job.queue cfg)).pushed task.job job
    simp only [pushReq] at hupdate
    simp only [Phase.pushing, setDisp, pushReq]
    omega
  | @started pl caller task wasNull hphase =>
    refine hpushes.setPhase (u := { setDisp s (task.job.queue cfg) _ with
      locked := _ }) rfl rfl hphase fun job => ?_
    have hupdate := sum_update s.disp (fun disp => disp.pushed.count job)
      (task.job.queue cfg) (addLoop (s.disp (task.job.queue cfg)) wasNull)
    rw [caller.pushing_resume]
    simp only [addLoop] at hupdate
    simp only [Phase.pushing, setDisp, addLoop]
    omega
  | @done d i job hphase =>
    exact hpushes.setPhase (u := { s with spool := s.spool.complete job }) rfl rfl hphase fun _ => rfl
  | @close d i job hphase =>
    exact hpushes.setPhase (u := { s with spool := s.spool.close (job.shard cfg) })
      rfl rfl hphase fun _ => rfl
  | reschedule hphase => exact hpushes.setPhase (u := s) rfl rfl hphase fun _ => rfl
  | @next d i job task rest hphase hlocked hpend =>
    refine hpushes.setPhase (u := { s with
      spool := s.spool.next (job.shard cfg) task rest, locked := _ }) rfl rfl hphase
      fun job' => ?_
    have hpending := sum_update s.spool.pending (listCopies job') (job.shard cfg) rest
    rw [hpend, listCopies_cons] at hpending
    simp only [Phase.pushing, Spool.next]
    omega
  | @endRequest d i hphase =>
    have htotal := fun job => total_erase (Phase.pushing job) hphase
      (setDisp s d (completeReq (s.disp d) (maxOutstanding cfg d))).disp
    exact hpushes.setDisp (d := d) rfl rfl rfl htotal
  | @startLoop d hremote => exact hpushes.setDisp (d := d) rfl rfl rfl fun _ => rfl
  | @loop d l disp hloop => exact hpushes.setDisp (d := d) rfl rfl hloop.pushed fun _ => rfl
  | @add d l req pending hl =>
    have htotal := fun job => total_snoc (Phase.pushing job) s d (.running req)
      (setDisp s d (setLoop (s.disp d) l (.dispatching pending))).disp
    exact hpushes.setDisp (d := d) rfl rfl rfl htotal

/-! ## Callers -/

def Phase.OfClient : Phase → Prop
  | .idle | .calling .client _ => True
  | _ => False

def Phase.OfFiber : Phase → Prop
  | .idle | .calling .client _ => False
  | _ => True

def RoleOk : Place cfg → Phase → Prop
  | .client _ => Phase.OfClient
  | .fiber _ _ => Phase.OfFiber

structure Roles (s : State cfg) : Prop where
  client : ∀ c, (s.clients c).OfClient
  fiber : ∀ d, ∀ p ∈ s.fibers d, p.OfFiber

lemma Roles.setPhase (h : Roles s) {p : Phase} (hp : RoleOk pl p) : Roles (setPhase s pl p) := by
  cases pl with
  | client c =>
    refine ⟨fun c' => ?_, h.fiber⟩
    simp only [NavyScheduler.setPhase, update_apply]
    split_ifs
    · exact hp
    · exact h.client c'
  | fiber d i =>
    refine ⟨h.client, fun d' p' hp' => ?_⟩
    simp only [NavyScheduler.setPhase, update_apply] at hp'
    split_ifs at hp' with hd
    · subst hd
      rcases mem_or_eq_of_mem_set hp' with hmem | rfl
      · exact h.fiber d' p' hmem
      · exact hp
    · exact h.fiber d' p' hp'

lemma Roles.phase (h : Roles s) {p : Phase} (hp : phaseAt s pl = some p) : RoleOk pl p := by
  cases pl with
  | client c =>
    cases hp
    exact h.client c
  | fiber d i => exact h.fiber d p (mem_of_getElem? hp)

lemma Submits.role {caller : Caller} (h : Submits s task pl caller) :
    RoleOk pl caller.resume ∧ RoleOk pl (.calling caller ⟨task, none⟩) := by
  cases h <;> exact ⟨trivial, trivial⟩

lemma RoleOk.call {call : Call} (h : RoleOk pl (.calling caller call)) (call' : Call) :
    RoleOk pl (.calling caller call') ∧ RoleOk pl caller.resume := by
  cases pl <;> cases caller
  all_goals first | exact ⟨trivial, trivial⟩ | exact h.elim

lemma change_roles (hroles : Roles s) (h : Change s k t) : Roles t := by
  cases h with
  | spool hsub =>
    refine Roles.setPhase ?_ hsub.role.1
    exact ⟨hroles.client, hroles.fiber⟩
  | start hsub =>
    refine Roles.setPhase ?_ hsub.role.2
    exact ⟨hroles.client, hroles.fiber⟩
  | push hphase =>
    refine Roles.setPhase ?_ ((hroles.phase hphase).call _).1
    exact ⟨hroles.client, hroles.fiber⟩
  | @started pl caller task wasNull hphase =>
    refine Roles.setPhase ?_ ((hroles.phase hphase).call ⟨task, none⟩).2
    exact ⟨hroles.client, hroles.fiber⟩
  | done | reschedule | close | next =>
    refine Roles.setPhase ?_ ?_
    · exact ⟨hroles.client, hroles.fiber⟩
    · trivial
  | @endRequest d i hphase =>
    refine ⟨hroles.client, fun d' p hp => ?_⟩
    simp only [endRequest, update_apply] at hp
    split_ifs at hp with hd
    · subst hd
      exact hroles.fiber d' p (mem_of_mem_eraseIdx hp)
    · exact hroles.fiber d' p hp
  | startLoop | loop => exact ⟨hroles.client, hroles.fiber⟩
  | @add d l req pending hl =>
    refine ⟨hroles.client, fun d' p hp => ?_⟩
    simp only [update_apply] at hp
    split_ifs at hp with hd
    · subst hd
      rcases mem_append.1 hp with hold | hnew
      · exact hroles.fiber d' p hold
      · rw [mem_singleton.1 hnew]
        trivial
    · exact hroles.fiber d' p hp

/-! ## Work that is left -/

/-- A bound for the steps of a task, of the jobs it enqueues, and of the scheduler for them. -/
def taskWeight (task : Task) : ℕ := 3 * task.code.weight

def Caller.weight : Caller → ℕ
  | .client => 0
  | .job task => taskWeight task + 2
  | .next => 1

def Call.weight : Call → ℕ
  | ⟨task, none⟩ => taskWeight task + 12
  | ⟨_, some _⟩ => 3

def Phase.weight : Phase → ℕ
  | .idle => 0
  | .running task => taskWeight task + 2
  | .calling caller call => caller.weight + call.weight
  | .completing _ => 2
  | .finishing => 1

def listWeight (c : ℕ) (l : List Task) : ℕ := (l.map fun task => taskWeight task + c).sum

def Loop.weight : Loop → ℕ
  | .claim => 1
  | .dispatching pending => listWeight 5 pending + 3
  | .waiting req pending => taskWeight req + 4 + listWeight 5 pending + 3
  | .adding req pending => taskWeight req + 3 + listWeight 5 pending + 3
  | .unclaim => 2

def Dispatcher.weight (disp : Dispatcher) : ℕ :=
  listWeight 8 disp.incoming.reqs + 2 * disp.remote + (disp.loops.map Loop.weight).sum

/-- A bound for the steps that the threads can still take. -/
def workLeft (s : State cfg) : ℕ :=
  (∑ d, (s.disp d).weight) + total Phase.weight s + ∑ sh, listWeight 12 (s.spool.pending sh)

@[simp] lemma listWeight_nil (c : ℕ) : listWeight c [] = 0 := rfl

@[simp] lemma listWeight_cons (c : ℕ) (task : Task) (l : List Task) :
    listWeight c (task :: l) = taskWeight task + c + listWeight c l := rfl

@[simp] lemma listWeight_append (c : ℕ) (l l' : List Task) :
    listWeight c (l ++ l') = listWeight c l + listWeight c l' := by simp [listWeight]

/-- A request that is taken from the stack has less work before it. -/
lemma listWeight_invert (incoming pending : List Task) :
    listWeight 5 (invert incoming pending) + 3 * incoming.length =
      listWeight 8 incoming + listWeight 5 pending := by
  induction incoming generalizing pending with
  | nil => simp [invert]
  | cons req incoming ih =>
    have hrest := ih (req :: pending)
    simp only [invert, length_cons, listWeight_cons] at hrest ⊢
    omega

lemma Caller.weight_resume (caller : Caller) : caller.resume.weight = caller.weight := by
  cases caller <;> rfl

lemma Submits.weight {caller : Caller}
    (h : Submits s task pl caller) (hkind : caller.kind = .work) :
    taskWeight task + 12 + caller.weight < (caller.submitting task).weight := by
  cases h with
  | client => cases hkind
  | job hphase =>
    simp only [Caller.submitting, Caller.weight, Phase.weight, taskWeight, Code.weight]
    omega

lemma LoopChange.weight {fibers starting : ℕ}
    (hok : DispatchOk max fibers starting disp) (h : LoopChange max disp l disp') :
    disp'.weight < disp.weight := by
  cases h with
  | claim hl =>
    have hset := sum_map_set hl Loop.weight (.dispatching (invert disp.incoming.reqs []))
    have hinvert := listWeight_invert disp.incoming.reqs []
    have hne : disp.incoming.reqs ≠ [] := hok.loop _ (mem_of_getElem? hl)
    have hpos := length_pos_iff.2 hne
    simp only [Loop.weight] at hset
    simp only [Dispatcher.weight, claimQueue, Incoming.sentinel, listWeight_nil] at hinvert ⊢
    omega
  | drained hl =>
    have hset := sum_map_set hl Loop.weight .unclaim
    simp only [Loop.weight] at hset
    simp only [Dispatcher.weight, setLoop]
    omega
  | @wait req pending hl =>
    have hset := sum_map_set hl Loop.weight (.waiting req pending)
    simp only [Loop.weight, listWeight_cons] at hset
    simp only [Dispatcher.weight, waitBaton]
    omega
  | @dispatch req pending hl =>
    have hset := sum_map_set hl Loop.weight (.adding req pending)
    simp only [Loop.weight, listWeight_cons] at hset
    simp only [Dispatcher.weight, scheduleReq]
    omega
  | @resume req pending hl =>
    have hset := sum_map_set hl Loop.weight (.adding req pending)
    simp only [Loop.weight] at hset
    simp only [Dispatcher.weight, scheduleReq]
    omega
  | unclaim hl hsentinel =>
    have herase := sum_map_eraseIdx hl Loop.weight
    simp only [Loop.weight] at herase
    simp only [Dispatcher.weight, unclaimQueue, hsentinel, Incoming.sentinel, Incoming.null]
    omega
  | again hl =>
    have hset := sum_map_set hl Loop.weight .claim
    simp only [Loop.weight] at hset
    simp only [Dispatcher.weight, setLoop]
    omega

lemma workLeft_setPhase (s : State cfg) (hfibers : u.fibers = s.fibers)
    (hclients : u.clients = s.clients) {p p' : Phase}
    (hp : phaseAt u pl = some p)
    (hless : (∑ d, (u.disp d).weight) + p'.weight + (∑ sh, listWeight 12 (u.spool.pending sh)) <
      (∑ d, (s.disp d).weight) + p.weight + ∑ sh, listWeight 12 (s.spool.pending sh)) :
    workLeft (setPhase u pl p') < workLeft s := by
  have hset := total_goOn Phase.weight hfibers hclients hp p'
  simp only [workLeft, setPhase_disp, setPhase_spool]
  omega

lemma workLeft_fiber {i : ℕ}
    (hp : (s.fibers d)[i]? = some p) (hless : p'.weight < p.weight)
    (spool : Spool cfg) (hpending : spool.pending = s.spool.pending) :
    workLeft (setPhase { s with spool := spool } (.fiber d i) p') < workLeft s := by
  have hat : phaseAt s (.fiber d i) = some p := hp
  refine workLeft_setPhase s (u := { s with spool := spool }) rfl rfl hat ?_
  simp only [hpending]
  omega

lemma change_work (hdispatch : Dispatch s) (h : Change s k t)
    (hk : k = .work) : workLeft t < workLeft s := by
  cases h with
  | @spool task pl caller hsub =>
    refine workLeft_setPhase s (u := { s with spool := s.spool.spool task }) rfl rfl hsub.phase ?_
    have hpending := sum_update s.spool.pending (listWeight 12)
      (task.job.shard cfg) (s.spool.pending (task.job.shard cfg) ++ [task])
    have hless := hsub.weight hk
    rw [listWeight_append, listWeight_cons, listWeight_nil] at hpending
    rw [caller.weight_resume]
    simp only [Spool.spool]
    omega
  | @start task pl caller hsub =>
    refine workLeft_setPhase s (u := { s with spool := s.spool.start task, locked := _ }) rfl rfl
      hsub.phase ?_
    have hless := hsub.weight hk
    rw [Phase.weight, Call.weight]
    simp only [Spool.start]
    omega
  | @push pl caller task hphase =>
    refine workLeft_setPhase s (u := setDisp s (task.job.queue cfg) _) rfl rfl hphase ?_
    have hupdate := sum_update s.disp Dispatcher.weight (task.job.queue cfg)
      (pushReq (s.disp (task.job.queue cfg)) task)
    have hpush : (pushReq (s.disp (task.job.queue cfg)) task).weight =
        (s.disp (task.job.queue cfg)).weight + (taskWeight task + 8) := by
      simp only [Dispatcher.weight, pushReq, listWeight_cons]
      omega
    simp only [Phase.weight, Call.weight]
    simp only [setDisp]
    omega
  | @started pl caller task wasNull hphase =>
    refine workLeft_setPhase s (u := { setDisp s (task.job.queue cfg) _ with locked := _ })
      rfl rfl hphase ?_
    have hupdate := sum_update s.disp Dispatcher.weight (task.job.queue cfg)
      (addLoop (s.disp (task.job.queue cfg)) wasNull)
    have hone := wasNull.toNat_le
    have hadd : (addLoop (s.disp (task.job.queue cfg)) wasNull).weight =
        (s.disp (task.job.queue cfg)).weight + 2 * wasNull.toNat := by
      simp only [Dispatcher.weight, addLoop]
      omega
    rw [caller.weight_resume, Phase.weight, Call.weight]
    simp only [setDisp]
    omega
  | @done d i job hphase =>
    refine workLeft_fiber hphase ?_ _ rfl
    simp only [Phase.weight, taskWeight, Code.weight]
    omega
  | @reschedule d i job rest hphase =>
    refine workLeft_fiber hphase ?_ s.spool rfl
    simp only [Phase.weight, taskWeight, Code.weight]
    omega
  | @close d i job hphase =>
    refine workLeft_fiber hphase ?_ _ rfl
    rw [Phase.weight, Phase.weight]
    omega
  | @next d i job task rest hphase hlocked hpend =>
    refine workLeft_setPhase s (u := { s with
      spool := s.spool.next (job.shard cfg) task rest, locked := _ }) rfl rfl hphase ?_
    have hpending := sum_update s.spool.pending (listWeight 12) (job.shard cfg) rest
    rw [hpend, listWeight_cons] at hpending
    rw [Phase.weight, Phase.weight, Call.weight, Caller.weight]
    simp only [Spool.next]
    omega
  | @endRequest d i hphase =>
    have htotal := total_erase Phase.weight hphase
      (setDisp s d (completeReq (s.disp d) (maxOutstanding cfg d))).disp
    have hupdate := sum_update s.disp Dispatcher.weight d
      (completeReq (s.disp d) (maxOutstanding cfg d))
    have hsame : (completeReq (s.disp d) (maxOutstanding cfg d)).weight = (s.disp d).weight := rfl
    rw [Phase.weight] at htotal
    simp only [workLeft, endRequest, setDisp] at htotal ⊢
    omega
  | @startLoop d hremote =>
    have hupdate := sum_update s.disp Dispatcher.weight d (startLoop (s.disp d))
    have hless : (startLoop (s.disp d)).weight < (s.disp d).weight := by
      simp [Dispatcher.weight, startLoop, Loop.weight]
      omega
    have hsame : total Phase.weight (setDisp s d (startLoop (s.disp d))) = total Phase.weight s := rfl
    simp only [workLeft, hsame]
    simp only [setDisp]
    omega
  | @loop d l disp hloop =>
    have hupdate := sum_update s.disp Dispatcher.weight d disp
    have hless := hloop.weight (hdispatch d)
    have hsame : total Phase.weight (setDisp s d disp) = total Phase.weight s := rfl
    simp only [workLeft, hsame]
    simp only [setDisp]
    omega
  | @add d l req pending hl =>
    have htotal := total_snoc Phase.weight s d (.running req)
      (setDisp s d (setLoop (s.disp d) l (.dispatching pending))).disp
    have hupdate := sum_update s.disp Dispatcher.weight d
      (setLoop (s.disp d) l (.dispatching pending))
    have hset := sum_map_set hl Loop.weight (.dispatching pending)
    have hless : (setLoop (s.disp d) l (.dispatching pending)).weight + (taskWeight req + 3) =
        (s.disp d).weight := by
      simp only [Loop.weight] at hset
      simp only [Dispatcher.weight, setLoop]
      omega
    rw [Phase.weight] at htotal
    simp only [workLeft, setDisp] at htotal ⊢
    omega

end HybridCache.NavyScheduler

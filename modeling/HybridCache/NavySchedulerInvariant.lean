import HybridCache.NavyScheduler

/-!
# Requests of one shard run one after the other

The stacks, the loops, the fibers and the calls hold exactly the active jobs of the shards.
-/
namespace HybridCache.NavyScheduler
open JobScheduler Function Transition List

variable {cfg : Config}

/-! ## Steps -/

inductive Submits (s : State cfg) (task : Task) : Place cfg → Caller → Prop
  | client {c : Fin cfg.clients} : s.clients c = .idle → Submits s task (.client c) .client
  | job {d : Queue cfg} {i : ℕ} {job : Job} {rest : Code} :
      (s.fibers d)[i]? =
        some (.running ⟨job, .enqueue task.job.type task.job.key task.code rest⟩) →
      Submits s task (.fiber d i) (.job ⟨job, rest⟩)

/-- A client adds to the work of the scheduler, or a thread does a part of it. -/
inductive Kind
  | call
  | work
  deriving DecidableEq

def Caller.kind : Caller → Kind
  | .client => .call
  | .job _ | .next => .work

def Action.kind : Action cfg → Kind
  | .enqueue .. => .call
  | _ => .work

/-- What a step of the dispatch loop does to its dispatcher. -/
inductive LoopChange (max : ℕ) (disp : Dispatcher) (l : ℕ) : Dispatcher → Prop
  | claim : disp.loops[l]? = some .claim → LoopChange max disp l (claimQueue disp l)
  | drained : disp.loops[l]? = some (.dispatching []) →
      LoopChange max disp l (setLoop disp l .unclaim)
  | wait {req : Task} {pending : List Task} :
      disp.loops[l]? = some (.dispatching (req :: pending)) → disp.numOutstanding = max →
      LoopChange max disp l (waitBaton disp l req pending)
  | dispatch {req : Task} {pending : List Task} :
      disp.loops[l]? = some (.dispatching (req :: pending)) → disp.numOutstanding ≠ max →
      LoopChange max disp l (scheduleReq disp l req pending)
  | resume {req : Task} {pending : List Task} :
      disp.loops[l]? = some (.waiting req pending) → disp.posted = true →
      LoopChange max disp l (scheduleReq disp l req pending)
  | unclaim : disp.loops[l]? = some .unclaim → disp.incoming = .sentinel →
      LoopChange max disp l (unclaimQueue disp l)
  | again : disp.loops[l]? = some .unclaim → disp.incoming ≠ .sentinel →
      LoopChange max disp l (setLoop disp l .claim)

/-- What a step does to the state. -/
inductive Change (s : State cfg) : Kind → State cfg → Prop
  | spool {task : Task} {pl : Place cfg} {caller : Caller} : Submits s task pl caller →
      task.job.id = s.spool.enqueued.length → s.locked (task.job.shard cfg) = false →
      s.spool.shouldSpool (task.job.shard cfg) = true →
      Change s caller.kind
        (setPhase { s with spool := s.spool.spool task } pl caller.resume)
  | start {task : Task} {pl : Place cfg} {caller : Caller} : Submits s task pl caller →
      task.job.id = s.spool.enqueued.length → s.locked (task.job.shard cfg) = false →
      s.spool.shouldSpool (task.job.shard cfg) = false →
      Change s caller.kind (setPhase { s with
        spool := s.spool.start task
        locked := update s.locked (task.job.shard cfg) true } pl
          (.calling caller ⟨task, none⟩))
  | push {pl : Place cfg} {caller : Caller} {task : Task} :
      phaseAt s pl = some (.calling caller ⟨task, none⟩) →
      Change s .work (submitReq s pl caller ⟨task, none⟩)
  | started {pl : Place cfg} {caller : Caller} {task : Task} {wasNull : Bool} :
      phaseAt s pl = some (.calling caller ⟨task, some wasNull⟩) →
      Change s .work (submitReq s pl caller ⟨task, some wasNull⟩)
  | done {d : Queue cfg} {i : ℕ} {job : Job} :
      (s.fibers d)[i]? = some (.running ⟨job, .done⟩) →
      Change s .work
        (setPhase { s with spool := s.spool.complete job } (.fiber d i) (.completing job))
  | reschedule {d : Queue cfg} {i : ℕ} {job : Job} {rest : Code} :
      (s.fibers d)[i]? = some (.running ⟨job, .reschedule rest⟩) →
      Change s .work (setPhase s (.fiber d i) (.running ⟨job, rest⟩))
  | close {d : Queue cfg} {i : ℕ} {job : Job} :
      (s.fibers d)[i]? = some (.completing job) →
      s.locked (job.shard cfg) = false → s.spool.pending (job.shard cfg) = [] →
      Change s .work (setPhase { s with
        spool := s.spool.close (job.shard cfg) } (.fiber d i) .finishing)
  | next {d : Queue cfg} {i : ℕ} {job : Job} {task : Task} {rest : List Task} :
      (s.fibers d)[i]? = some (.completing job) →
      s.locked (job.shard cfg) = false →
      s.spool.pending (job.shard cfg) = task :: rest →
      Change s .work (setPhase { s with
        spool := s.spool.next (job.shard cfg) task rest
        locked := update s.locked (job.shard cfg) true } (.fiber d i)
          (.calling .next ⟨task, none⟩))
  | endRequest {d : Queue cfg} {i : ℕ} : (s.fibers d)[i]? = some .finishing →
      Change s .work (endRequest s d i)
  | startLoop {d : Queue cfg} : (s.disp d).remote ≠ 0 →
      Change s .work (setDisp s d (startLoop (s.disp d)))
  | loop {d : Queue cfg} {l : ℕ} {disp : Dispatcher} :
      LoopChange (maxOutstanding cfg d) (s.disp d) l disp → Change s .work (setDisp s d disp)
  | add {d : Queue cfg} {l : ℕ} {req : Task} {pending : List Task} :
      (s.disp d).loops[l]? = some (.adding req pending) →
      Change s .work { setDisp s d (setLoop (s.disp d) l (.dispatching pending)) with
        fibers := update s.fibers d (s.fibers d ++ [.running req]) }

variable {pl : Place cfg} {s t : State cfg} {task : Task} {d : Queue cfg} {i l : ℕ}
  {job : Job} {p : Phase} {disp : Dispatcher}

variable {caller : Caller} {job : Job} {p p' : Phase} {k : Kind} {pl' : Place cfg}

lemma enqueueWithKey_change
    (hsub : Submits s task pl caller) (hid : task.job.id = s.spool.enqueued.length)
    (h : enqueueWithKey s pl caller task = some t) : Change s caller.kind t := by
  simp only [enqueueWithKey] at h
  split_ifs at h with hlocked hspool
  · cases h
    exact .spool hsub hid (by simpa using hlocked) hspool
  · cases h
    exact .start hsub hid (by simpa using hlocked) (by simpa using hspool)

lemma execute_change {task : Task}
    (hphase : (s.fibers d)[i]? = some (.running task)) (h : execute s (.fiber d i) task = some t) :
    Change s .work t := by
  obtain ⟨job, code⟩ := task
  cases code with
  | done =>
    cases h
    exact .done hphase
  | reschedule rest =>
    cases h
    exact .reschedule hphase
  | enqueue type key body rest => exact enqueueWithKey_change (.job hphase) rfl h

lemma notifyCompletion_change (hphase : (s.fibers d)[i]? = some (.completing job))
    (h : notifyCompletion s (.fiber d i) job = some t) : Change s .work t := by
  simp only [notifyCompletion] at h
  split_ifs at h with hlocked
  have hfree : s.locked (job.shard cfg) = false := by simpa using hlocked
  split at h
  next hpending =>
    cases h
    exact .close hphase hfree hpending
  next task rest hpending =>
    cases h
    exact .next hphase hfree hpending

lemma processLoop_change {l : ℕ} (h : processLoop s d l = some t) : Change s .work t := by
  simp only [processLoop] at h
  split at h
  next => cases h
  next hl =>
    cases h
    exact .loop (.claim hl)
  next hl =>
    cases h
    exact .loop (.drained hl)
  next req pending hl =>
    split_ifs at h with hmax
    · cases h
      exact .loop (.wait hl hmax)
    · cases h
      exact .loop (.dispatch hl hmax)
  next req pending hl =>
    split_ifs at h with hposted
    cases h
    exact .loop (.resume hl hposted)
  next req pending hl =>
    cases h
    exact .add hl
  next hl =>
    split_ifs at h with hsentinel
    · cases h
      exact .loop (.unclaim hl hsentinel)
    · cases h
      exact .loop (.again hl hsentinel)

lemma step_change {a : Action cfg} (h : step s a = some t) : Change s a.kind t := by
  cases a with
  | enqueue client type key code =>
    simp only [step] at h
    split at h
    next hphase => exact enqueueWithKey_change (.client hphase) rfl h
    next => cases h
  | submit pl =>
    simp only [step] at h
    split at h
    next caller call hphase =>
      cases h
      obtain ⟨task, _ | wasNull⟩ := call
      · exact .push hphase
      · exact .started hphase
    next => cases h
  | execute d i =>
    simp only [step] at h
    split at h
    next task hphase => exact execute_change hphase h
    next => cases h
  | notifyCompletion d i =>
    simp only [step] at h
    split at h
    next job hphase => exact notifyCompletion_change hphase h
    next => cases h
  | endRequest d i =>
    simp only [step] at h
    split at h
    next hphase =>
      cases h
      exact .endRequest hphase
    next => cases h
  | startLoop d =>
    simp only [step] at h
    split_ifs at h with hremote
    cases h
    exact .startLoop hremote
  | processLoop d l => exact processLoop_change h

section
variable (s : State cfg) (pl : Place cfg) (p : Phase)

@[simp] lemma setPhase_spool : (setPhase s pl p).spool = s.spool := by cases pl <;> rfl

@[simp] lemma setPhase_locked : (setPhase s pl p).locked = s.locked := by cases pl <;> rfl

@[simp] lemma setPhase_disp : (setPhase s pl p).disp = s.disp := by cases pl <;> rfl

end

/-! ## Sums over clients and fibers -/

def total (w : Phase → ℕ) (s : State cfg) : ℕ :=
  (∑ c, w (s.clients c)) + ∑ d, ((s.fibers d).map w).sum

section
variable (w : Phase → ℕ)

lemma total_setPhase (h : phaseAt s pl = some p) (p' : Phase) :
    total w (setPhase s pl p') + w p = total w s + w p' := by
  cases pl with
  | client c =>
    cases h
    have hupdate := sum_update s.clients w c p'
    simp only [total, setPhase]
    omega
  | fiber d i =>
    have hupdate := sum_update s.fibers (fun l => (l.map w).sum) d ((s.fibers d).set i p')
    have hset := sum_map_set h w p'
    simp only [total, setPhase]
    omega

/-- The rest of the state has changed as well. -/
lemma total_goOn {u : State cfg} (hfibers : u.fibers = s.fibers) (hclients : u.clients = s.clients)
    (hp : phaseAt u pl = some p) (p' : Phase) :
    total w (setPhase u pl p') + w p = total w s + w p' := by
  have hsame : total w u = total w s := by rw [total, total, hfibers, hclients]
  rw [← hsame]
  exact total_setPhase w hp p'

/-- A fiber ends. -/
lemma total_erase (h : (s.fibers d)[i]? = some p) (disp : Queue cfg → Dispatcher) :
    total w { s with disp := disp, fibers := update s.fibers d ((s.fibers d).eraseIdx i) } + w p =
      total w s := by
  have hupdate := sum_update s.fibers (fun l => (l.map w).sum) d ((s.fibers d).eraseIdx i)
  have herase := sum_map_eraseIdx h w
  simp only [total]
  omega

lemma total_snoc (s : State cfg) (d : Queue cfg) (p : Phase)
    (disp : Queue cfg → Dispatcher) :
    total w { s with disp := disp, fibers := update s.fibers d (s.fibers d ++ [p]) } =
      total w s + w p := by
  have hupdate := sum_update s.fibers (fun l => (l.map w).sum) d (s.fibers d ++ [p])
  rw [map_append, sum_append, map_singleton, sum_singleton] at hupdate
  simp only [total]
  omega

lemma le_total (h : phaseAt s pl = some p) : w p ≤ total w s := by
  cases pl with
  | client c =>
    cases h
    have hle := le_sum (fun c => w (s.clients c)) c
    unfold total
    omega
  | fiber d i =>
    have hmem : p ∈ s.fibers d := mem_of_getElem? h
    have hle := le_sum (fun d => ((s.fibers d).map w).sum) d
    have hsum := single_le_sum (by simp) _ (mem_map_of_mem (f := w) hmem)
    unfold total
    omega

end

/-! ## Where the jobs are -/

def Caller.copies (job : Job) : Caller → ℕ
  | .job task => jobCopies job task.job
  | .client | .next => 0

def Call.copies (job : Job) : Call → ℕ
  | ⟨task, none⟩ => jobCopies job task.job
  | ⟨_, some _⟩ => 0

def Phase.copies (job : Job) : Phase → ℕ
  | .running task => jobCopies job task.job
  | .calling caller call => caller.copies job + call.copies job
  | .idle | .completing _ | .finishing => 0

def Phase.closing (sh : Shard cfg) : Phase → ℕ
  | .completing job => shardCopies sh job
  | _ => 0

def Loop.tasks : Loop → List Task
  | .dispatching pending => pending
  | .waiting req pending | .adding req pending => req :: pending
  | .claim | .unclaim => []

def Loop.copies (job : Job) (loop : Loop) : ℕ := listCopies job loop.tasks

def Dispatcher.copies (job : Job) (disp : Dispatcher) : ℕ :=
  (disp.loops.map (Loop.copies job)).sum + listCopies job disp.incoming.reqs

def copies (s : State cfg) (job : Job) : ℕ :=
  (∑ d, (s.disp d).copies job) + total (Phase.copies job) s

lemma listCopies_invert (job : Job) (incoming pending : List Task) :
    listCopies job (invert incoming pending) =
      listCopies job incoming + listCopies job pending := by
  induction incoming generalizing pending with
  | nil => simp [invert]
  | cons req incoming ih =>
    rw [invert, ih]
    simp
    omega

@[simp] lemma copies_claim (job : Job) : Loop.claim.copies job = 0 := rfl

@[simp] lemma copies_unclaim (job : Job) : Loop.unclaim.copies job = 0 := rfl

@[simp] lemma copies_dispatching (job : Job) (pending : List Task) :
    (Loop.dispatching pending).copies job = listCopies job pending := rfl

@[simp] lemma copies_adding (job : Job) (req : Task) (pending : List Task) :
    (Loop.adding req pending).copies job = listCopies job (req :: pending) := rfl

/-- A loop that does not touch the stack keeps its requests. -/
lemma copies_set {loop loop' : Loop} (hl : disp.loops[l]? = some loop)
    (h : loop'.copies job = loop.copies job) :
    ((disp.loops.set l loop').map (Loop.copies job)).sum =
      (disp.loops.map (Loop.copies job)).sum := by
  have hset := sum_map_set hl (Loop.copies job) loop'
  omega

lemma LoopChange.copies {max : ℕ} {disp' : Dispatcher} (h : LoopChange max disp l disp')
    (job : Job) : disp'.copies job = disp.copies job := by
  cases h with
  | claim hl =>
    have hset := sum_map_set hl (Loop.copies job) (.dispatching (invert disp.incoming.reqs []))
    rw [copies_claim, copies_dispatching, listCopies_invert, listCopies_nil] at hset
    simp only [claimQueue, Dispatcher.copies, Incoming.sentinel, listCopies_nil]
    omega
  | drained hl | again hl =>
    rw [Dispatcher.copies, Dispatcher.copies, setLoop, copies_set hl]
    rfl
  | wait hl =>
    rw [Dispatcher.copies, Dispatcher.copies, waitBaton, copies_set hl]
    rfl
  | dispatch hl | resume hl =>
    rw [Dispatcher.copies, Dispatcher.copies, scheduleReq, copies_set hl]
    rfl
  | unclaim hl hsentinel =>
    have herase := sum_map_eraseIdx hl (Loop.copies job)
    rw [copies_unclaim] at herase
    simp only [unclaimQueue, Dispatcher.copies, hsentinel, Incoming.sentinel, Incoming.null]
    omega

/-! ## Invariant -/

structure Inv (s : State cfg) : Prop where
  spool : s.spool.Inv
  held : Held s.spool (copies s) fun sh => total (Phase.closing sh) s

lemma init_inv : Inv (init cfg) := by
  refine ⟨Spool.init_inv, fun job => ?_, fun sh => ?_⟩
  · simp [copies, total, init, Phase.copies, Spool.init, Dispatcher.copies, Incoming.null]
  · simp [total, init, Phase.closing, Spool.init]

lemma copies_setDisp (s : State cfg) (d : Queue cfg) (disp : Dispatcher) (job : Job) :
    copies (setDisp s d disp) job + (s.disp d).copies job = copies s job + disp.copies job := by
  have hupdate := sum_update s.disp (Dispatcher.copies job) d disp
  have htotal : total (Phase.copies job) (setDisp s d disp) = total (Phase.copies job) s := rfl
  simp only [copies, htotal]
  simp only [setDisp]
  omega

lemma copies_setPhase (h : phaseAt s pl = some p) (p' : Phase) (job : Job) :
    copies (setPhase s pl p') job + p.copies job = copies s job + p'.copies job := by
  have htotal := total_setPhase (Phase.copies job) h p'
  have hdisp : (setPhase s pl p').disp = s.disp := by cases pl <;> rfl
  simp only [copies, hdisp]
  omega

lemma copies_pushReq (disp : Dispatcher) (task : Task) (job : Job) :
    (pushReq disp task).copies job = disp.copies job + jobCopies job task.job := by
  simp only [Dispatcher.copies, pushReq, listCopies_cons]
  omega

lemma Caller.copies_resume (caller : Caller) (job : Job) :
    caller.resume.copies job = caller.copies job := by cases caller <;> rfl

lemma Caller.closing_resume (caller : Caller) (sh : Shard cfg) :
    caller.resume.closing sh = 0 := by cases caller <;> rfl

def Caller.submitting (task : Task) : Caller → Phase
  | .job caller =>
    .running ⟨caller.job, .enqueue task.job.type task.job.key task.code caller.code⟩
  | .client | .next => .idle

lemma Submits.phase
    (h : Submits s task pl caller) : phaseAt s pl = some (caller.submitting task) := by
  cases h with
  | client hphase => exact congrArg some hphase
  | job hphase => exact hphase

lemma Caller.copies_submitting (caller : Caller) (task : Task) (job : Job) :
    (caller.submitting task).copies job = caller.copies job := by cases caller <;> rfl

lemma Caller.closing_submitting (caller : Caller) (task : Task) (sh : Shard cfg) :
    (caller.submitting task).closing sh = 0 := by cases caller <;> rfl

lemma active_of_phase (hinv : Inv s)
    (h : phaseAt s pl = some p) (hpos : 0 < p.copies job) :
    s.spool.active (job.shard cfg) = some job := by
  have hle := le_total (Phase.copies job) h
  refine hinv.held.active_of_pos ?_
  unfold copies
  omega

lemma closing_pos (h : phaseAt s pl = some (.completing job)) :
    0 < total (Phase.closing (job.shard cfg)) s := by
  have hle := le_total (Phase.closing (job.shard cfg)) h
  have hone : (Phase.completing job).closing (job.shard cfg) = 1 := if_pos rfl
  omega

/-- A thread goes on, after a change of the rest of the state. -/
lemma Inv.setPhase {u : State cfg} (hu : u.spool.Inv) (hp : phaseAt u pl = some p)
    (hheld : ∀ copies' closing', (∀ job, copies' job + p.copies job = copies u job + p'.copies job) →
      (∀ sh : Shard cfg, closing' sh + p.closing sh =
        total (Phase.closing sh) u + p'.closing sh) → Held u.spool copies' closing') :
    Inv (setPhase u pl p') := by
  refine ⟨?_, ?_⟩
  · rw [setPhase_spool]
    exact hu
  · rw [setPhase_spool]
    exact hheld _ _ (fun job => copies_setPhase hp p' job) fun sh => total_setPhase _ hp p'

lemma Inv.setDisp (hinv : Inv s) {disp : Dispatcher}
    (hcopies : ∀ job, disp.copies job = (s.disp d).copies job) : Inv (setDisp s d disp) := by
  refine ⟨hinv.spool, hinv.held.move rfl rfl (fun job => ?_) fun sh => rfl⟩
  have hset := copies_setDisp s d disp job
  rw [hcopies] at hset
  exact Nat.add_right_cancel hset

theorem change_inv (hinv : Inv s) (h : Change s k t) : Inv t := by
  cases h with
  | @spool task pl caller hsub hid hlocked hspool =>
    refine Inv.setPhase (u := { s with spool := s.spool.spool task })
      (Spool.spool_inv hinv.spool hid hspool) hsub.phase fun copies' closing' hc hf => ?_
    refine hinv.held.move rfl rfl (fun job => ?_) fun sh => ?_
    · have := hc job
      rw [caller.copies_submitting, caller.copies_resume] at this
      exact Nat.add_right_cancel this
    · have := hf sh
      rwa [caller.closing_submitting, caller.closing_resume] at this
  | @start task pl caller hsub hid hlocked hspool =>
    refine Inv.setPhase (u := { s with spool := s.spool.start task, locked := _ })
      (Spool.start_inv hinv.spool hid hspool) hsub.phase fun copies' closing' hc hf => ?_
    refine hinv.held.start hspool (fun job => ?_) fun sh => ?_
    · have hset : copies' job + (caller.submitting task).copies job = copies s job + _ := hc job
      rw [caller.copies_submitting, Phase.copies, Call.copies] at hset
      omega
    · have := hf sh
      rwa [caller.closing_submitting] at this
  | @push pl caller task hphase =>
    refine Inv.setPhase (u := NavyScheduler.setDisp s (task.job.queue cfg) _) hinv.spool
      hphase fun copies' closing' hc hf => ?_
    refine hinv.held.move rfl rfl (fun job => ?_) hf
    have hset := hc job
    have hsum := copies_setDisp s (task.job.queue cfg)
      (pushReq (s.disp (task.job.queue cfg)) task) job
    simp only [Phase.copies, Call.copies] at hset
    rw [copies_pushReq] at hsum
    omega
  | @started pl caller task wasNull hphase =>
    refine Inv.setPhase (u := { NavyScheduler.setDisp s (task.job.queue cfg) _ with
      locked := _ }) hinv.spool hphase fun copies' closing' hc hf => ?_
    refine hinv.held.move rfl rfl (fun job => ?_) fun sh => ?_
    · have hset := hc job
      have hsum := copies_setDisp s (task.job.queue cfg)
        (addLoop (s.disp (task.job.queue cfg)) wasNull) job
      rw [caller.copies_resume, Phase.copies, Call.copies, add_zero] at hset
      exact (Nat.add_right_cancel hset).trans (Nat.add_right_cancel hsum)
    · have := hf sh
      rwa [caller.closing_resume] at this
  | @done d i job hphase =>
    have hp : phaseAt s (.fiber d i) = some (.running ⟨job, .done⟩) := hphase
    have hactive : s.spool.active (job.shard cfg) = some job :=
      active_of_phase hinv hp (by simp [Phase.copies, jobCopies])
    refine Inv.setPhase (u := { s with spool := s.spool.complete job })
      (Spool.complete_inv hinv.spool hactive) hphase fun copies' closing' hc hf => ?_
    exact hinv.held.complete hactive hc hf
  | @reschedule d i job rest hphase =>
    refine Inv.setPhase (u := s) hinv.spool hphase fun copies' closing' hc hf => ?_
    exact hinv.held.move rfl rfl (fun job => Nat.add_right_cancel (hc job)) hf
  | @close d i job hphase hlocked hpending =>
    have hp : phaseAt s (.fiber d i) = some (.completing job) := hphase
    have hpos := closing_pos hp
    obtain ⟨hactive, -⟩ := hinv.held.inactive_of_finishing hpos
    refine Inv.setPhase (u := { s with spool := s.spool.close (job.shard cfg) })
      (Spool.close_inv hinv.spool hactive hpending) hphase fun copies' closing' hc hf => ?_
    exact hinv.held.close hpos hc hf
  | @next d i job task rest hphase hlocked hpending =>
    have hp : phaseAt s (.fiber d i) = some (.completing job) := hphase
    have hpos := closing_pos hp
    obtain ⟨hactive, -⟩ := hinv.held.inactive_of_finishing hpos
    have hshard : task.job.shard cfg = job.shard cfg :=
      Spool.shard_of_pending hinv.spool (by rw [hpending]; exact mem_cons_self)
    refine Inv.setPhase
      (u := { s with spool := s.spool.next (job.shard cfg) task rest, locked := _ })
      (Spool.next_inv hinv.spool hactive hpending) hphase fun copies' closing' hc hf => ?_
    refine hinv.held.next hpos hshard (fun job' => ?_) hf
    have hset : copies' job' + 0 = copies s job' + (0 + jobCopies job' task.job) := hc job'
    omega
  | @endRequest d i hphase =>
    refine ⟨hinv.spool, hinv.held.move rfl rfl (fun job => ?_) fun sh => ?_⟩
    · have hdisp := sum_update s.disp (Dispatcher.copies job) d
        (completeReq (s.disp d) (maxOutstanding cfg d))
      exact congrArg₂ (· + ·) (Nat.add_right_cancel hdisp) (total_erase (Phase.copies job) hphase _)
    · exact total_erase (Phase.closing sh) hphase _
  | @startLoop d hremote =>
    exact hinv.setDisp fun job => by simp [startLoop, Dispatcher.copies]
  | @loop d l disp hloop => exact hinv.setDisp hloop.copies
  | @add d l req pending hl =>
    refine ⟨hinv.spool, hinv.held.move rfl rfl (fun job => ?_) fun sh => ?_⟩
    · have hdisp := sum_update s.disp (Dispatcher.copies job) d
        (setLoop (s.disp d) l (.dispatching pending))
      have hset := sum_map_set hl (Loop.copies job) (.dispatching pending)
      have hsnoc := total_snoc (Phase.copies job) s d (.running req)
        (update s.disp d (setLoop (s.disp d) l (.dispatching pending)))
      have hnew : (setLoop (s.disp d) l (.dispatching pending)).copies job +
          (Phase.running req).copies job = (s.disp d).copies job := by
        rw [copies_adding, copies_dispatching, listCopies_cons] at hset
        simp only [Dispatcher.copies, setLoop, Phase.copies]
        omega
      simp only [copies, NavyScheduler.setDisp]
      omega
    · exact total_snoc (Phase.closing sh) s d (.running req) _

lemma phaseAt_setPhase_of_ne (h : pl' ≠ pl) (p : Phase) :
    phaseAt (setPhase s pl p) pl' = phaseAt s pl' := by
  cases pl with
  | client c =>
    cases pl' with
    | client c' =>
      have hne : c' ≠ c := fun heq => h (by rw [heq])
      simp [phaseAt, setPhase, update_of_ne hne]
    | fiber => rfl
  | fiber d i =>
    cases pl' with
    | client => rfl
    | fiber d' i' =>
      by_cases hd : d' = d
      · subst hd
        have hne : i ≠ i' := fun heq => h (by rw [heq])
        simp [phaseAt, setPhase, getElem?_set_ne hne]
      · simp [phaseAt, setPhase, update_of_ne hd]

lemma Phase.copies_pos_of_task (h : p.task = some task) : 0 < p.copies task.job := by
  unfold Phase.task at h
  split at h
  next =>
    cases h
    simp [Phase.copies, jobCopies]
  next =>
    cases h
    simp [Phase.copies, Caller.copies, jobCopies]
  next => cases h

lemma Inv.not_completed_of_task (hinv : Inv s)
    (hpl : phaseAt s pl = some p) (hp : p.task = some task) :
    task.job ∉ s.spool.completed :=
  Spool.not_completed_of_active hinv.spool (active_of_phase hinv hpl (Phase.copies_pos_of_task hp))

lemma change_completed (h : Change s k t)
    (hjob : job ∈ s.spool.completed) : job ∈ t.spool.completed := by
  cases h with
  | done =>
    exact mem_append_left _ hjob
  | spool | start | reschedule | close | next =>
    rw [setPhase_spool]
    exact hjob
  | push | started =>
    rw [submitReq, setPhase_spool]
    exact hjob
  | endRequest | startLoop | loop | add => exact hjob

/-- Two fibers do not run jobs of one shard at the same time, whatever their dispatchers. -/
theorem Inv.exclusive (hinv : Inv s) {p' : Phase}
    {task' : Task} (hpl : phaseAt s pl = some p) (hpl' : phaseAt s pl' = some p')
    (hp : p.task = some task) (hp' : p'.task = some task')
    (hshard : task.job.shard cfg = task'.job.shard cfg) : pl = pl' := by
  have h1 := Phase.copies_pos_of_task hp
  have h2 := Phase.copies_pos_of_task hp'
  have hjob : task.job = task'.job := by
    have hactive := active_of_phase hinv hpl h1
    rw [hshard, active_of_phase hinv hpl' h2] at hactive
    exact (Option.some.inj hactive).symm
  by_contra hne
  have hrest := total_setPhase (Phase.copies task.job) hpl .idle
  have hother := le_total (Phase.copies task.job) (s := NavyScheduler.setPhase s pl .idle)
    (phaseAt_setPhase_of_ne (Ne.symm hne) _ ▸ hpl')
  have hone := hinv.held.le_one task.job
  rw [← hjob] at h2
  have hidle : Phase.idle.copies task.job = 0 := rfl
  unfold copies at hone
  omega

end HybridCache.NavyScheduler

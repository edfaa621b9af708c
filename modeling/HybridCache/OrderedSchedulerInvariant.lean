import HybridCache.OrderedScheduler

/-!
# Jobs of one shard run one after the other

The threads and queues together hold exactly the active jobs of the shards, each of them
once. A shard that spools has an active job, or a thread that has completed one and will
schedule the next.
-/
namespace HybridCache.OrderedScheduler
open JobScheduler Function Transition

variable {cfg : Config}

/-! ## Steps -/

/-- A thread is about to call `enqueueWithKey` with a task. -/
inductive Submits (s : State cfg) (task : Task) : Thread cfg → Caller → Prop
  | client {c : Fin cfg.clients} : s.phase (.inr c) = .awake → task.job.parent = none →
      Submits s task (.inr c) .client
  | job {q : Queue cfg} {job : Job} {rest : Code} :
      s.phase (.inl q) = .running ⟨job, .enqueue task.job.type task.job.key task.code rest⟩ →
      task.job.parent = some job.id → Submits s task (.inl q) (.job ⟨job, rest⟩)

/-- What a step is for the work of the scheduler: a client adds to it, a thread does a part
of it, or it stays as it is because a worker waits or `finish` goes on. -/
inductive Kind
  | call
  | work
  | wait
  | finish
  deriving DecidableEq

def Caller.kind : Caller → Kind
  | .client => .call
  | .job _ | .next => .work

def Action.kind : Action cfg → Kind
  | .enqueue .. => .call
  | .advance _ | .take _ | .execute _ | .next _ | .endJob _ => .work
  | .wait _ | .wake _ => .wait
  | .startFinish .. | .visit _ | .endRound .. => .finish

/-- What a step does to the state. -/
inductive Change (s : State cfg) : Kind → State cfg → Prop
  | spool {task : Task} {th : Thread cfg} {caller : Caller} : Submits s task th caller →
      task.job.id = s.spool.enqueued.length → s.locked (task.job.shard cfg) = false →
      s.spool.shouldSpool (task.job.shard cfg) = true →
      Change s caller.kind { s with
        spool := s.spool.spool task
        phase := update s.phase th caller.resume }
  | start {task : Task} {th : Thread cfg} {caller : Caller} : Submits s task th caller →
      task.job.id = s.spool.enqueued.length → s.locked (task.job.shard cfg) = false →
      s.spool.shouldSpool (task.job.shard cfg) = false →
      Change s caller.kind { s with
        spool := s.spool.start task
        locked := update s.locked (task.job.shard cfg) true
        phase := update s.phase th (.calling caller ⟨task, none⟩) }
  | push {th : Thread cfg} {caller : Caller} {task : Task} :
      s.phase th = .calling caller ⟨task, none⟩ → Change s .work (push s th caller task)
  | notify {th : Thread cfg} {caller : Caller} {task : Task} {wasEmpty : Bool} :
      s.phase th = .calling caller ⟨task, some wasEmpty⟩ →
      Change s .work (notify s th caller task wasEmpty)
  | wait {q : Queue cfg} : s.phase (.inl q) = .awake → s.queue q = [] →
      Change s .wait { s with phase := update s.phase (.inl q) .waiting }
  | wake {q : Queue cfg} : s.phase (.inl q) = .waiting →
      Change s .wait { s with phase := update s.phase (.inl q) .awake }
  | take {q : Queue cfg} {task : Task} {rest : List Task} : s.phase (.inl q) = .awake →
      s.queue q = task :: rest →
      Change s .work { s with
        queue := update s.queue q rest
        phase := update s.phase (.inl q) (.running task) }
  | done {q : Queue cfg} {job : Job} : s.phase (.inl q) = .running ⟨job, .done⟩ →
      Change s .work { s with
        spool := s.spool.complete job
        phase := update s.phase (.inl q) (.completing job) }
  | reschedule {q : Queue cfg} {job : Job} {rest : Code} :
      s.phase (.inl q) = .running ⟨job, .reschedule rest⟩ →
      Change s .work { s with phase := update s.phase (.inl q) (.returning (some ⟨job, rest⟩)) }
  | close {q : Queue cfg} {job : Job} : s.phase (.inl q) = .completing job →
      s.locked (job.shard cfg) = false → s.spool.pending (job.shard cfg) = [] →
      Change s .work { s with
        spool := s.spool.close (job.shard cfg)
        phase := update s.phase (.inl q) (.returning none) }
  | next {q : Queue cfg} {job : Job} {task : Task} {rest : List Task} :
      s.phase (.inl q) = .completing job → s.locked (job.shard cfg) = false →
      s.spool.pending (job.shard cfg) = task :: rest →
      Change s .work { s with
        spool := s.spool.next (job.shard cfg) task rest
        locked := update s.locked (job.shard cfg) true
        phase := update s.phase (.inl q) (.calling .next ⟨task, none⟩) }
  | endJob {q : Queue cfg} : s.phase (.inl q) = .returning none →
      Change s .work { s with phase := update s.phase (.inl q) .awake }
  | again {q : Queue cfg} {task : Task} : s.phase (.inl q) = .returning (some task) →
      Change s .work { s with
        queue := update s.queue q (s.queue q ++ [task])
        phase := update s.phase (.inl q) .awake }
  | finish (f : ℕ) (fin : Finish cfg) : Change s .finish (setFinish s f fin)

variable {caller : Caller} {s t : State cfg} {task : Task} {th : Thread cfg} {q : Queue cfg}
  {job : Job} {p : Phase}

lemma submit_change {caller : Caller}
    (hsub : Submits s task th caller) (hid : task.job.id = s.spool.enqueued.length)
    (h : submit s th caller task = some t) : Change s caller.kind t := by
  unfold submit at h
  split_ifs at h with hlocked hspool
  · cases h
    exact .spool hsub hid (by simpa using hlocked) hspool
  · cases h
    exact .start hsub hid (by simpa using hlocked) (by simpa using hspool)

lemma execute_change {task : Task}
    (hphase : s.phase (.inl q) = .running task) (h : execute s q task = some t) :
    Change s .work t := by
  obtain ⟨job, code⟩ := task
  cases code with
  | done =>
    cases h
    exact .done hphase
  | reschedule rest =>
    cases h
    exact .reschedule hphase
  | enqueue type key body rest => exact submit_change (.job hphase rfl) rfl h

lemma scheduleNextJob_change {job : Job}
    (hphase : s.phase (.inl q) = .completing job) (h : scheduleNextJob s q job = some t) :
    Change s .work t := by
  unfold scheduleNextJob at h
  split_ifs at h with hlocked
  have hfree : s.locked (job.shard cfg) = false := by simpa using hlocked
  split at h
  next hpending =>
    cases h
    exact .close hphase hfree hpending
  next task rest hpending =>
    cases h
    exact .next hphase hfree hpending

lemma step_change {a : Action cfg} (h : step s a = some t) : Change s a.kind t := by
  cases a with
  | enqueue client type key code =>
    simp only [step] at h
    split at h
    next hphase => exact submit_change (.client hphase rfl) rfl h
    next => cases h
  | advance th =>
    simp only [step] at h
    split at h
    next caller task hphase =>
      cases h
      exact .push hphase
    next caller task wasEmpty hphase =>
      cases h
      exact .notify hphase
    next => cases h
  | wait q =>
    simp only [step] at h
    split_ifs at h with hcond
    cases h
    exact .wait hcond.1 hcond.2
  | wake q =>
    simp only [step] at h
    split_ifs at h with hcond
    cases h
    exact .wake hcond
  | take q =>
    simp only [step] at h
    split at h
    next task rest hphase hqueue =>
      cases h
      exact .take hphase hqueue
    next => cases h
  | execute q =>
    simp only [step] at h
    split at h
    next task hphase => exact execute_change hphase h
    next => cases h
  | next q =>
    simp only [step] at h
    split at h
    next job hphase => exact scheduleNextJob_change hphase h
    next => cases h
  | endJob q =>
    simp only [step] at h
    split at h
    next hphase =>
      cases h
      exact .endJob hphase
    next task hphase =>
      cases h
      exact .again hphase
    next => cases h
  | startFinish f readerFirst =>
    simp only [step] at h
    split at h
    next =>
      cases h
      exact .finish f _
    next => cases h
  | visit f =>
    simp only [step] at h
    split at h
    next =>
      split_ifs at h
      cases h
      exact .finish f _
    next => cases h
  | endRound f readerFirst =>
    simp only [step] at h
    split at h
    next =>
      split_ifs at h
      all_goals
        cases h
        exact .finish f _
    next => cases h

/-! ## Where the jobs are -/

def Caller.copies (job : Job) : Caller → ℕ
  | .job task => jobCopies job task.job
  | .client | .next => 0

def Call.copies (job : Job) : Call → ℕ
  | ⟨task, none⟩ => jobCopies job task.job
  | ⟨_, some _⟩ => 0

def Phase.copies (job : Job) : Phase → ℕ
  | .running task => jobCopies job task.job
  | .calling caller call => caller.copies job + call.copies job
  | .returning (some task) => jobCopies job task.job
  | .waiting | .awake | .completing _ | .returning none => 0

def copies (queue : Queue cfg → List Task) (phase : Thread cfg → Phase) (job : Job) : ℕ :=
  (∑ q, listCopies job (queue q)) + ∑ th, (phase th).copies job

def Phase.finishing (sh : Shard cfg) : Phase → ℕ
  | .completing job => shardCopies sh job
  | _ => 0

def finishing (phase : Thread cfg → Phase) (sh : Shard cfg) : ℕ := ∑ th, (phase th).finishing sh

section
variable (queue : Queue cfg → List Task) (phase : Thread cfg → Phase)

lemma copies_update_phase (th : Thread cfg) (p : Phase) (job : Job) :
    copies queue (update phase th p) job + (phase th).copies job =
      copies queue phase job + p.copies job := by
  have h := sum_update phase (Phase.copies job) th p
  unfold copies
  omega

lemma copies_update_queue (q : Queue cfg) (l : List Task) (job : Job) :
    copies (update queue q l) phase job + listCopies job (queue q) =
      copies queue phase job + listCopies job l := by
  have h := sum_update queue (listCopies job) q l
  unfold copies
  omega

end

lemma finishing_update (phase : Thread cfg → Phase) (th : Thread cfg) (p : Phase)
    (sh : Shard cfg) : finishing (update phase th p) sh + (phase th).finishing sh =
      finishing phase sh + p.finishing sh :=
  sum_update phase (Phase.finishing sh) th p

@[simp] lemma listCopies_pushTask (job : Job) (queue : List Task) (task : Task) :
    listCopies job (pushTask queue task) = listCopies job queue + jobCopies job task.job := by
  unfold pushTask
  split <;> simp [Nat.add_comm]

lemma Caller.copies_resume (caller : Caller) (job : Job) :
    caller.resume.copies job = caller.copies job := by cases caller <;> rfl

lemma Caller.finishing_resume (caller : Caller) (sh : Shard cfg) :
    caller.resume.finishing sh = 0 := by cases caller <;> rfl

/-- A notification changes neither. -/
lemma copies_wakeUp (queue : Queue cfg → List Task) (phase : Thread cfg → Phase) (q : Queue cfg)
    (wasEmpty : Bool) (job : Job) :
    copies queue (wakeUp phase q wasEmpty) job = copies queue phase job := by
  unfold wakeUp
  split_ifs with h
  · have hupdate := copies_update_phase queue phase (.inl q) .awake job
    rw [h.2] at hupdate
    simpa [Phase.copies] using hupdate
  · rfl

lemma finishing_wakeUp (phase : Thread cfg → Phase) (q : Queue cfg) (wasEmpty : Bool)
    (sh : Shard cfg) : finishing (wakeUp phase q wasEmpty) sh = finishing phase sh := by
  unfold wakeUp
  split_ifs with h
  · have hupdate := finishing_update phase (.inl q) .awake sh
    rw [h.2] at hupdate
    simpa [Phase.finishing] using hupdate
  · rfl

lemma wakeUp_of_ne {phase : Thread cfg → Phase} (h : phase th ≠ .waiting)
    (q : Queue cfg) (wasEmpty : Bool) : wakeUp phase q wasEmpty th = phase th := by
  unfold wakeUp
  split_ifs with hcond
  · have hne : th ≠ .inl q := by
      rintro rfl
      exact h hcond.2
    rw [update_of_ne hne]
  · rfl

/-! ## Invariant -/

structure Inv (s : State cfg) : Prop where
  spool : s.spool.Inv
  held : Held s.spool (copies s.queue s.phase) (finishing s.phase)

lemma init_inv : Inv (init cfg) := by
  refine ⟨Spool.init_inv, fun job => ?_, fun sh => ?_⟩
  · simp [copies, init, Phase.copies, Spool.init]
  · simp [finishing, init, Phase.finishing, Spool.init]

lemma copies_phase_le (s : State cfg) (th : Thread cfg) (job : Job) :
    (s.phase th).copies job ≤ copies s.queue s.phase job :=
  le_trans (le_sum (fun th => (s.phase th).copies job) th) (Nat.le_add_left _ _)

lemma finishing_pos {job : Job}
    (h : s.phase th = .completing job) : 0 < finishing s.phase (job.shard cfg) := by
  have hone : (s.phase th).finishing (job.shard cfg) = 1 := by
    simp [h, Phase.finishing, shardCopies]
  have hle := le_sum (fun th => (s.phase th).finishing (job.shard cfg)) th
  unfold finishing
  omega

lemma Inv.active_of_phase (hinv : Inv s) {job : Job}
    (h : 0 < (s.phase th).copies job) : s.spool.active (job.shard cfg) = some job :=
  hinv.held.active_of_pos (lt_of_lt_of_le h (copies_phase_le s th job))

lemma Submits.copies {caller : Caller}
    (h : Submits s task th caller) (job : Job) : (s.phase th).copies job = caller.copies job := by
  cases h with
  | client hphase | job hphase => simp [hphase, Phase.copies, Caller.copies]

lemma Submits.finishing {caller : Caller}
    (h : Submits s task th caller) (sh : Shard cfg) : (s.phase th).finishing sh = 0 := by
  cases h with
  | client hphase =>
    rw [hphase]
    rfl
  | job hphase =>
    rw [hphase]
    rfl

lemma Inv.move (hinv : Inv s) (hspool : t.spool = s.spool)
    (hcopies : ∀ job, copies t.queue t.phase job = copies s.queue s.phase job)
    (hfinishing : ∀ sh, finishing t.phase sh = finishing s.phase sh) : Inv t := by
  refine ⟨hspool ▸ hinv.spool, hinv.held.move ?_ ?_ hcopies hfinishing⟩
  · rw [hspool]
  · rw [hspool]

lemma Inv.phase (hinv : Inv s) {p : Phase} (hcopies : ∀ job, p.copies job = (s.phase th).copies job)
    (hfinishing : ∀ sh : Shard cfg, p.finishing sh = (s.phase th).finishing sh) :
    Inv { s with phase := update s.phase th p } := by
  refine hinv.move rfl (fun job => ?_) fun sh => ?_
  · have hupdate := copies_update_phase s.queue s.phase th p job
    rw [hcopies] at hupdate
    exact Nat.add_right_cancel hupdate
  · have hupdate := finishing_update s.phase th p sh
    rw [hfinishing] at hupdate
    exact Nat.add_right_cancel hupdate

lemma Inv.queue_phase (hinv : Inv s) {l : List Task} (count : Queue cfg → ℕ)
    (hcopies : ∀ job, listCopies job l + p.copies job =
      listCopies job (s.queue q) + (s.phase th).copies job)
    (hfinishing : ∀ sh : Shard cfg, p.finishing sh = (s.phase th).finishing sh) :
    Inv { s with
      queue := update s.queue q l
      enqueueCount := count
      phase := update s.phase th p } := by
  refine hinv.move rfl (fun job => ?_) fun sh => ?_
  · have hqueue := copies_update_queue s.queue (update s.phase th p) q l job
    have hphase := copies_update_phase s.queue s.phase th p job
    have hsum := hcopies job
    dsimp only
    omega
  · have hupdate := finishing_update s.phase th p sh
    rw [hfinishing] at hupdate
    exact Nat.add_right_cancel hupdate

theorem change_inv {k : Kind} (hinv : Inv s) (h : Change s k t) : Inv t := by
  cases h with
  | @spool task th caller hsub hid hlocked hspool =>
    refine ⟨Spool.spool_inv hinv.spool hid hspool, hinv.held.move rfl rfl ?_ ?_⟩
    · intro job
      have hupdate := copies_update_phase s.queue s.phase th caller.resume job
      rw [hsub.copies, caller.copies_resume] at hupdate
      exact Nat.add_right_cancel hupdate
    · intro sh
      have hupdate := finishing_update s.phase th caller.resume sh
      rwa [hsub.finishing, caller.finishing_resume] at hupdate
  | @start task th caller hsub hid hlocked hspool =>
    refine ⟨Spool.start_inv hinv.spool hid hspool, hinv.held.start hspool ?_ ?_⟩
    · intro job
      have hupdate := copies_update_phase s.queue s.phase th (.calling caller ⟨task, none⟩) job
      rw [hsub.copies] at hupdate
      simp only [Phase.copies, Call.copies] at hupdate
      dsimp only
      omega
    · intro sh
      have hupdate := finishing_update s.phase th (.calling caller ⟨task, none⟩) sh
      rwa [hsub.finishing] at hupdate
  | @push th caller task hphase =>
    refine hinv.queue_phase _ (fun job => ?_) fun sh => by rw [hphase]; rfl
    simp only [hphase, Phase.copies, Call.copies, listCopies_pushTask]
    omega
  | @notify th caller task wasEmpty hphase =>
    have hth : wakeUp s.phase (task.job.queue cfg) wasEmpty th = s.phase th :=
      wakeUp_of_ne (by simp [hphase]) _ _
    refine hinv.move rfl (fun job => ?_) fun sh => ?_
    · have hupdate := copies_update_phase s.queue (wakeUp s.phase (task.job.queue cfg) wasEmpty) th
        caller.resume job
      rw [hth, hphase, caller.copies_resume, copies_wakeUp] at hupdate
      exact Nat.add_right_cancel hupdate
    · have hupdate := finishing_update (wakeUp s.phase (task.job.queue cfg) wasEmpty) th
        caller.resume sh
      rwa [hth, hphase, caller.finishing_resume, finishing_wakeUp] at hupdate
  | wait hphase | wake hphase | reschedule hphase | endJob hphase =>
    exact hinv.phase (fun job => by rw [hphase]; rfl) fun sh => by rw [hphase]; rfl
  | take hphase hqueue =>
    refine hinv.queue_phase s.enqueueCount (fun job => ?_) fun sh => by rw [hphase]; rfl
    simp only [hphase, hqueue, Phase.copies, listCopies_cons]
    omega
  | @done q job hphase =>
    have hactive : s.spool.active (job.shard cfg) = some job :=
      hinv.active_of_phase (by rw [hphase]; simp [Phase.copies, jobCopies])
    refine ⟨Spool.complete_inv hinv.spool hactive, hinv.held.complete hactive ?_ ?_⟩
    · intro job'
      have hupdate := copies_update_phase s.queue s.phase (.inl q) (.completing job) job'
      rwa [hphase] at hupdate
    · intro sh
      have hupdate := finishing_update s.phase (.inl q) (.completing job) sh
      rwa [hphase] at hupdate
  | @close q job hphase hlocked hpending =>
    have hpos := finishing_pos hphase
    obtain ⟨hactive, -⟩ := hinv.held.inactive_of_finishing hpos
    refine ⟨Spool.close_inv hinv.spool hactive hpending, hinv.held.close hpos ?_ ?_⟩
    · intro job'
      have hupdate := copies_update_phase s.queue s.phase (.inl q) (.returning none) job'
      rwa [hphase] at hupdate
    · intro sh
      have hupdate := finishing_update s.phase (.inl q) (.returning none) sh
      rwa [hphase] at hupdate
  | @next q job task rest hphase hlocked hpending =>
    have hpos := finishing_pos hphase
    obtain ⟨hactive, -⟩ := hinv.held.inactive_of_finishing hpos
    have hshard : task.job.shard cfg = job.shard cfg :=
      Spool.shard_of_pending hinv.spool (by rw [hpending]; exact List.mem_cons_self)
    refine ⟨Spool.next_inv hinv.spool hactive hpending, hinv.held.next hpos hshard ?_ ?_⟩
    · intro job'
      have hupdate := copies_update_phase s.queue s.phase (.inl q) (.calling .next ⟨task, none⟩) job'
      rw [hphase] at hupdate
      simpa [Phase.copies, Caller.copies, Call.copies] using hupdate
    · intro sh
      have hupdate := finishing_update s.phase (.inl q) (.calling .next ⟨task, none⟩) sh
      rwa [hphase] at hupdate
  | again hphase =>
    refine hinv.queue_phase s.enqueueCount (fun job => ?_) fun sh => by rw [hphase]; rfl
    simp [hphase, Phase.copies]
  | finish f fin => exact ⟨hinv.spool, hinv.held⟩

lemma Phase.copies_pos_of_task (h : p.task = some task) : 0 < p.copies task.job := by
  unfold Phase.task at h
  split at h
  next =>
    cases h
    simp [Phase.copies, jobCopies]
  next =>
    cases h
    simp [Phase.copies, Caller.copies, jobCopies]
  next => cases h

lemma Inv.not_completed_of_task (hinv : Inv s) {task : Task}
    (h : (s.phase th).task = some task) : task.job ∉ s.spool.completed :=
  Spool.not_completed_of_active hinv.spool (hinv.active_of_phase (Phase.copies_pos_of_task h))

theorem Inv.exclusive (hinv : Inv s) {q' : Queue cfg} {task' : Task}
    (hq : (s.phase (.inl q)).task = some task) (hq' : (s.phase (.inl q')).task = some task')
    (hshard : task.job.shard cfg = task'.job.shard cfg) : q = q' := by
  have h1 := Phase.copies_pos_of_task hq
  have h2 := Phase.copies_pos_of_task hq'
  have hjob : task.job = task'.job := by
    have hactive := hinv.active_of_phase h1
    rw [hshard, hinv.active_of_phase h2] at hactive
    exact (Option.some.inj hactive).symm
  by_contra hne
  have hsum := Finset.add_le_sum (f := fun th => (s.phase th).copies task.job)
    (fun th _ => Nat.zero_le _) (Finset.mem_univ (Sum.inl q)) (Finset.mem_univ (Sum.inl q'))
    (by simpa using hne)
  have hone := hinv.held.le_one task.job
  rw [← hjob] at h2
  unfold copies at hone
  omega

end HybridCache.OrderedScheduler

import HybridCache.OrderedSchedulerInvariant

/-!
# Every job completes

The mutex of a shard is held by exactly one call, no notification gets lost, and a shard
with a call of `enqueueWithKey` in progress has no pending jobs. So some thread can go on
as long as there is a job that has not completed. Without new calls of the clients the
work that is left gets less with every step.
-/
namespace HybridCache.OrderedScheduler
open JobScheduler Function Transition

variable {cfg : Config}

/-! ## Mutexes of the shards -/

def Phase.calls (sh : Shard cfg) : Phase → ℕ
  | .calling _ call => shardCopies sh call.task.job
  | _ => 0

def calls (phase : Thread cfg → Phase) (sh : Shard cfg) : ℕ := ∑ th, (phase th).calls sh

lemma calls_update (phase : Thread cfg → Phase) (th : Thread cfg) (p : Phase) (sh : Shard cfg) :
    calls (update phase th p) sh + (phase th).calls sh = calls phase sh + p.calls sh :=
  sum_update phase (Phase.calls sh) th p

lemma Caller.calls_resume (caller : Caller) (sh : Shard cfg) : caller.resume.calls sh = 0 := by
  cases caller <;> rfl

lemma calls_wakeUp (phase : Thread cfg → Phase) (q : Queue cfg) (wasEmpty : Bool)
    (sh : Shard cfg) : calls (wakeUp phase q wasEmpty) sh = calls phase sh := by
  unfold wakeUp
  split_ifs with h
  · have hupdate := calls_update phase (.inl q) .awake sh
    rwa [h.2] at hupdate
  · rfl

variable {caller : Caller} {s t : State cfg} {task : Task} {th : Thread cfg} {p : Phase}
  {k : Kind}

lemma Submits.calls {caller : Caller}
    (h : Submits s task th caller) (sh : Shard cfg) : (s.phase th).calls sh = 0 := by
  cases h with
  | client hphase =>
    rw [hphase]
    rfl
  | job hphase =>
    rw [hphase]
    rfl

def Locks (s : State cfg) : Prop := ∀ sh, calls s.phase sh = (s.locked sh).toNat

lemma Locks.phase (h : Locks s) {p : Phase}
    (hphase : t.phase = update s.phase th p) (hlocked : t.locked = s.locked)
    (hold : ∀ sh : Shard cfg, (s.phase th).calls sh = p.calls sh) : Locks t := by
  intro sh
  have hupdate := calls_update s.phase th p sh
  rw [hold] at hupdate
  rw [hphase, hlocked, ← h sh]
  exact Nat.add_right_cancel hupdate

/-- A thread takes the mutex of a shard. -/
lemma Locks.acquire (h : Locks s) {caller : Caller}
    (hphase : t.phase = update s.phase th (.calling caller ⟨task, none⟩))
    (hlocked : t.locked = update s.locked (task.job.shard cfg) true)
    (hfree : s.locked (task.job.shard cfg) = false)
    (hold : ∀ sh : Shard cfg, (s.phase th).calls sh = 0) : Locks t := by
  intro sh
  have hupdate := calls_update s.phase th (.calling caller ⟨task, none⟩) sh
  rw [hold, h sh] at hupdate
  simp only [Phase.calls, shardCopies] at hupdate
  rw [hphase, hlocked, update_apply]
  by_cases hsh : sh = task.job.shard cfg
  · subst hsh
    simpa [hfree] using hupdate
  · simpa [hsh, Ne.symm hsh] using hupdate

lemma locked_of_calling (h : Locks s) {caller : Caller}
    {call : Call} (hphase : s.phase th = .calling caller call) :
    s.locked (call.task.job.shard cfg) = true := by
  have hle := le_sum (fun th => (s.phase th).calls (call.task.job.shard cfg)) th
  have hone : (s.phase th).calls (call.task.job.shard cfg) = 1 := by
    simp [hphase, Phase.calls, shardCopies]
  have hsum := h (call.task.job.shard cfg)
  unfold OrderedScheduler.calls at hsum
  cases hlocked : s.locked (call.task.job.shard cfg)
  · simp only [hlocked, Bool.toNat_false] at hsum
    omega
  · rfl

lemma change_locks (hinv : Inv s) (hlocks : Locks s) (h : Change s k t) : Locks t := by
  cases h with
  | @spool task th caller hsub =>
    exact hlocks.phase rfl rfl fun sh => (hsub.calls sh).trans (caller.calls_resume sh).symm
  | start hsub hid hlocked => exact hlocks.acquire rfl rfl hlocked hsub.calls
  | @notify th caller task wasEmpty hphase =>
    intro sh
    have hth : wakeUp s.phase (task.job.queue cfg) wasEmpty th = s.phase th :=
      wakeUp_of_ne (by simp [hphase]) _ _
    have hupdate := calls_update (wakeUp s.phase (task.job.queue cfg) wasEmpty) th caller.resume sh
    rw [hth, hphase, caller.calls_resume, calls_wakeUp, hlocks sh] at hupdate
    have htrue := locked_of_calling hlocks hphase
    simp only [Phase.calls, shardCopies] at hupdate
    simp only [notify, update_apply]
    by_cases hsh : sh = task.job.shard cfg
    · subst hsh
      simpa [htrue] using hupdate
    · simpa [hsh, Ne.symm hsh] using hupdate
  | @next q job task rest hphase hlocked hpending =>
    have hshard : task.job.shard cfg = job.shard cfg :=
      Spool.shard_of_pending hinv.spool (by rw [hpending]; exact List.mem_cons_self)
    rw [← hshard] at hlocked ⊢
    exact hlocks.acquire rfl rfl hlocked fun sh => by rw [hphase]; rfl
  | push hphase | wait hphase | wake hphase | take hphase | done hphase | reschedule hphase
  | close hphase | endJob hphase | again hphase =>
    exact hlocks.phase rfl rfl fun sh => by rw [hphase]; rfl
  | finish => exact hlocks

/-! ## Callers -/

/-- A client is between two calls or in a call of its own; a worker is in no client's call. -/
def RoleOk : Thread cfg → Phase → Prop
  | .inr _, .awake => True
  | .inr _, .calling .client call => call.task.job.parent = none
  | .inr _, _ => False
  | .inl _, .calling .client _ => False
  | .inl _, _ => True

def Roles (s : State cfg) : Prop := ∀ th, RoleOk th (s.phase th)

lemma Roles.update {phase : Thread cfg → Phase} (h : ∀ th, RoleOk th (phase th))
    (hp : RoleOk th p) (th' : Thread cfg) :
    RoleOk th' (update phase th p th') := by
  by_cases heq : th' = th
  · subst heq
    rwa [update_self]
  · rw [update_of_ne heq]
    exact h th'

lemma Submits.role {caller : Caller} (h : Submits s task th caller) : RoleOk th caller.resume ∧
      RoleOk th (.calling caller ⟨task, none⟩) := by
  cases h with
  | client hphase hparent => exact ⟨trivial, hparent⟩
  | job => exact ⟨trivial, trivial⟩

/-- Where a call is made does not change while it is in progress. -/
lemma RoleOk.call {w : Option Bool} (h : RoleOk th (.calling caller ⟨task, w⟩)) (w' : Option Bool) :
    RoleOk th (.calling caller ⟨task, w'⟩) ∧ RoleOk th caller.resume := by
  cases th <;> cases caller
  all_goals first | exact ⟨h, trivial⟩ | exact h.elim

lemma change_roles (hroles : Roles s) (h : Change s k t) : Roles t := by
  cases h with
  | spool hsub => exact Roles.update hroles hsub.role.1
  | start hsub => exact Roles.update hroles hsub.role.2
  | @push th caller task hphase =>
    have hrole := hroles th
    rw [hphase] at hrole
    exact Roles.update hroles (hrole.call _).1
  | @notify th caller task wasEmpty hphase =>
    have hrole := hroles th
    rw [hphase] at hrole
    refine Roles.update (fun th' => ?_) (hrole.call none).2
    unfold wakeUp
    split_ifs
    · have hawake : RoleOk (.inl (task.job.queue cfg) : Thread cfg) .awake := trivial
      exact Roles.update hroles hawake th'
    · exact hroles th'
  | wait | wake | take | done | reschedule | close | next | endJob | again =>
    exact Roles.update hroles trivial
  | finish => exact hroles

/-- While a task is on its way to a queue for the first time, its shard has no other job. -/
def Fresh (s : State cfg) : Prop :=
  ∀ th caller task, s.phase th = .calling caller ⟨task, none⟩ → caller ≠ .next →
    s.spool.pending (task.job.shard cfg) = []

lemma Fresh.phase (h : Fresh s) {p : Phase} (hphase : t.phase = update s.phase th p)
    (hpending : t.spool.pending = s.spool.pending)
    (hp : ∀ caller task, p = .calling caller ⟨task, none⟩ → caller ≠ .next →
      s.spool.pending (task.job.shard cfg) = []) : Fresh t := by
  intro th' caller task hth hcaller
  rw [hpending]
  rw [hphase] at hth
  by_cases heq : th' = th
  · subst heq
    rw [update_self] at hth
    exact hp caller task hth hcaller
  · rw [update_of_ne heq] at hth
    exact h th' caller task hth hcaller

/-- The pending jobs of a shard change while no call holds its mutex. -/
lemma Fresh.pending (h : Fresh s) (hlocks : Locks s)
    {sh : Shard cfg} {l : List Task} (hphase : t.phase = update s.phase th p)
    (hpending : t.spool.pending = update s.spool.pending sh l)
    (hfree : s.locked sh = false)
    (hp : ∀ caller task, p = .calling caller ⟨task, none⟩ → caller = .next) : Fresh t := by
  intro th' caller task hth hcaller
  rw [hphase] at hth
  by_cases heq : th' = th
  · subst heq
    rw [update_self] at hth
    exact absurd (hp caller task hth) hcaller
  · rw [update_of_ne heq] at hth
    have hne : task.job.shard cfg ≠ sh := by
      rintro rfl
      have := locked_of_calling hlocks hth
      rw [hfree] at this
      cases this
    rw [hpending, update_of_ne hne]
    exact h th' caller task hth hcaller

lemma Caller.resume_ne_calling (caller caller' : Caller) (call : Call) :
    caller.resume ≠ .calling caller' call := by
  cases caller <;> simp [Caller.resume]

lemma change_fresh (hinv : Inv s) (hlocks : Locks s) (hfresh : Fresh s)
    (h : Change s k t) : Fresh t := by
  cases h with
  | @spool task th caller hsub hid hlocked hspool =>
    exact hfresh.pending hlocks rfl rfl hlocked fun caller' task' hp =>
      absurd hp (caller.resume_ne_calling _ _)
  | @start task th caller hsub hid hlocked hspool =>
    refine hfresh.phase rfl rfl fun caller' task' hp _ => ?_
    simp only [Phase.calling.injEq, Call.mk.injEq, and_true] at hp
    rw [← hp.2]
    exact (hinv.spool.idle _ hspool).2
  | push hphase => exact hfresh.phase rfl rfl fun _ _ hp => by simp at hp
  | @notify th caller task wasEmpty hphase =>
    intro th' caller' task' hth hcaller
    simp only [notify, update_apply] at hth
    split_ifs at hth with heq
    · exact absurd hth (caller.resume_ne_calling _ _)
    · unfold wakeUp at hth
      split_ifs at hth with hcond
      · rw [update_apply] at hth
        split_ifs at hth with hq
        exact hfresh th' caller' task' hth hcaller
      · exact hfresh th' caller' task' hth hcaller
  | next hphase hlocked hpending =>
    refine hfresh.pending hlocks rfl rfl hlocked fun caller' task' hp => ?_
    simp only [Phase.calling.injEq] at hp
    exact hp.1.symm
  | wait | wake | take | done | reschedule | close | endJob | again =>
    exact hfresh.phase rfl rfl fun _ _ hp => by cases hp
  | finish => exact hfresh

/-! ## Notifications -/

/-- A worker that waits with something in its queue is about to be notified. -/
def Wake (s : State cfg) : Prop :=
  ∀ q, s.phase (.inl q) = .waiting → s.queue q ≠ [] →
    ∃ th caller task, s.phase th = .calling caller ⟨task, some true⟩ ∧ task.job.queue cfg = q

/-- The thread that takes the step is not the one that will notify, and adds nothing to the
queue of another one. -/
lemma Wake.phase (h : Wake s) {p : Phase}
    (hphase : t.phase = update s.phase th p) (hwaiting : p ≠ .waiting)
    (hqueue : ∀ q, t.queue q ≠ [] → s.queue q ≠ [] ∨ th = .inl q)
    (hold : ∀ caller task, s.phase th ≠ .calling caller ⟨task, some true⟩) : Wake t := by
  intro q hq hne
  have hother : th ≠ .inl q := by
    rintro rfl
    rw [hphase, update_self] at hq
    exact hwaiting hq
  rw [hphase, update_of_ne hother.symm] at hq
  obtain ⟨th', caller, task, hth, htask⟩ := h q hq ((hqueue q hne).resolve_right hother)
  refine ⟨th', caller, task, ?_, htask⟩
  rw [hphase, update_of_ne]
  · exact hth
  · rintro rfl
    exact hold caller task hth

lemma waiting_of_wakeUp {phase : Thread cfg → Phase} {q target : Queue cfg} {wasEmpty : Bool}
    (h : wakeUp phase target wasEmpty (.inl q) = .waiting) :
    phase (.inl q) = .waiting ∧ ¬(wasEmpty = true ∧ target = q) := by
  unfold wakeUp at h
  split_ifs at h with hcond
  · by_cases hq : q = target
    · subst hq
      simp at h
    · rw [update_of_ne (by simpa using hq)] at h
      exact ⟨h, fun hcon => hq hcon.2.symm⟩
  · refine ⟨h, ?_⟩
    rintro ⟨hempty, rfl⟩
    exact hcond ⟨hempty, h⟩

lemma queue_update_cases {queue : Queue cfg → List Task} {q q' : Queue cfg} {l : List Task}
    (h : update queue q l q' ≠ []) :
    queue q' ≠ [] ∨ (.inl q : Thread cfg) = .inl q' := by
  by_cases hq : q' = q
  · exact Or.inr (by rw [hq])
  · rw [update_of_ne hq] at h
    exact Or.inl h

lemma change_wake (hwake : Wake s) (h : Change s k t) : Wake t := by
  cases h with
  | @spool task th caller hsub =>
    refine hwake.phase rfl ?_ (fun _ => Or.inl) ?_
    · cases caller <;> simp [Caller.resume]
    · cases hsub with
      | client hphase => simp [hphase]
      | job hphase => simp [hphase]
  | start hsub =>
    refine hwake.phase rfl (by simp) (fun _ => Or.inl) ?_
    cases hsub with
    | client hphase => simp [hphase]
    | job hphase => simp [hphase]
  | @push th caller task hphase =>
    intro q hq hne
    have hother : Sum.inl q ≠ th := by
      rintro rfl
      simp [push] at hq
    simp only [push, update_of_ne hother] at hq hne
    by_cases htarget : s.queue q = []
    · -- The queue was empty, so it has received the task.
      have hqueue : task.job.queue cfg = q := by
        by_contra hdiff
        rw [update_of_ne (Ne.symm hdiff)] at hne
        exact hne htarget
      refine ⟨th, caller, task, ?_, hqueue⟩
      have hidle : idleQueue s (task.job.queue cfg) := by
        rw [hqueue]
        exact ⟨htarget, by rw [hq]; rfl⟩
      simp [push, hidle]
    · obtain ⟨th', caller', task', hth, htask⟩ := hwake q hq htarget
      refine ⟨th', caller', task', ?_, htask⟩
      have hne' : th' ≠ th := by
        rintro rfl
        simp [hphase] at hth
      simpa [push, update_of_ne hne'] using hth
  | @notify th caller task wasEmpty hphase =>
    intro q hq hne
    have hresume : caller.resume ≠ .waiting := by cases caller <;> simp [Caller.resume]
    have hother : Sum.inl q ≠ th := by
      rintro rfl
      exact hresume (by simpa [notify] using hq)
    simp only [notify, update_of_ne hother] at hq
    obtain ⟨hwaiting, hquiet⟩ := waiting_of_wakeUp hq
    obtain ⟨th', caller', task', hth, htask⟩ := hwake q hwaiting hne
    refine ⟨th', caller', task', ?_, htask⟩
    have hne' : th' ≠ th := by
      rintro rfl
      rw [hphase] at hth
      obtain ⟨-, rfl, rfl⟩ := hth
      exact hquiet ⟨rfl, htask⟩
    simp only [notify, update_of_ne hne']
    rw [wakeUp_of_ne (by simp [hth]), hth]
  | @wait q hphase hqueue =>
    intro q' hq' hne
    have hdiff : q' ≠ q := by
      rintro rfl
      exact hne hqueue
    dsimp only at hq' ⊢
    rw [update_of_ne (by simpa using hdiff)] at hq'
    obtain ⟨th, caller, task, hth, htask⟩ := hwake q' hq' hne
    refine ⟨th, caller, task, ?_, htask⟩
    rw [update_of_ne]
    · exact hth
    · rintro rfl
      simp [hphase] at hth
  | wake hphase | done hphase | reschedule hphase | close hphase | next hphase | endJob hphase =>
    exact hwake.phase rfl (by simp) (fun _ => Or.inl) (by simp [hphase])
  | take hphase | again hphase =>
    exact hwake.phase rfl (by simp) (fun _ => queue_update_cases) (by simp [hphase])
  | finish => exact hwake

/-! ## Work that is left -/

def Caller.weight : Caller → ℕ
  | .client => 0
  | .job task => task.code.weight + 2
  | .next => 1

def Call.weight : Call → ℕ
  | ⟨task, none⟩ => task.code.weight + 5
  | ⟨_, some _⟩ => 1

def Phase.weight : Phase → ℕ
  | .waiting | .awake => 0
  | .running task => task.code.weight + 2
  | .calling caller call => caller.weight + call.weight
  | .completing _ => 2
  | .returning none => 1
  | .returning (some task) => task.code.weight + 4

def listWeight (c : ℕ) (l : List Task) : ℕ := (l.map fun task => task.code.weight + c).sum

@[simp] lemma listWeight_cons (c : ℕ) (task : Task) (l : List Task) :
    listWeight c (task :: l) = task.code.weight + c + listWeight c l := rfl

@[simp] lemma listWeight_append (c : ℕ) (l l' : List Task) :
    listWeight c (l ++ l') = listWeight c l + listWeight c l' := by simp [listWeight]

@[simp] lemma listWeight_singleton (c : ℕ) (task : Task) :
    listWeight c [task] = task.code.weight + c := by simp [listWeight]

@[simp] lemma listWeight_pushTask (c : ℕ) (queue : List Task) (task : Task) :
    listWeight c (pushTask queue task) = listWeight c queue + (task.code.weight + c) := by
  unfold pushTask
  split <;> simp [listWeight, Nat.add_comm]

/-- A bound for the steps that the threads can still take. -/
def workLeft (s : State cfg) : ℕ :=
  (∑ q, listWeight 3 (s.queue q)) + (∑ th, (s.phase th).weight) +
    ∑ sh, listWeight 5 (s.spool.pending sh)

lemma Caller.weight_resume (caller : Caller) : caller.resume.weight = caller.weight := by
  cases caller <;> rfl

lemma weight_wakeUp (phase : Thread cfg → Phase) (q : Queue cfg) (wasEmpty : Bool) :
    (∑ th, (wakeUp phase q wasEmpty th).weight) = ∑ th, (phase th).weight := by
  unfold wakeUp
  split_ifs with h
  · have hupdate := sum_update phase Phase.weight (.inl q) .awake
    rw [h.2] at hupdate
    exact hupdate
  · rfl

/-- The work that a step leaves, from the parts of the state that it changes. -/
lemma Submits.weight {caller : Caller}
    (h : Submits s task th caller) (hkind : caller.kind = .work) :
    (s.phase th).weight = task.code.weight + caller.weight + 6 := by
  cases h with
  | client => cases hkind
  | job hphase =>
    rw [hphase]
    simp [Phase.weight, Caller.weight, Code.weight]
    omega

lemma change_work (h : Change s k t) (hk : k = .work) : workLeft t < workLeft s := by
  cases h with
  | @spool task th caller hsub =>
    have hphase := sum_update s.phase Phase.weight th caller.resume
    have hpending := sum_update s.spool.pending (listWeight 5) (task.job.shard cfg)
      (s.spool.pending (task.job.shard cfg) ++ [task])
    rw [hsub.weight hk, caller.weight_resume] at hphase
    rw [listWeight_append, listWeight_singleton] at hpending
    simp only [workLeft, Spool.spool]
    omega
  | @start task th caller hsub =>
    have hphase := sum_update s.phase Phase.weight th (.calling caller ⟨task, none⟩)
    rw [hsub.weight hk, Phase.weight, Call.weight] at hphase
    simp only [workLeft, Spool.start]
    omega
  | @push th caller task hth =>
    have hphase := sum_update s.phase Phase.weight th
      (.calling caller ⟨task, some (decide (idleQueue s (task.job.queue cfg)))⟩)
    have hqueue := sum_update s.queue (listWeight 3) (task.job.queue cfg)
      (pushTask (s.queue (task.job.queue cfg)) task)
    rw [hth, Phase.weight, Phase.weight, Call.weight, Call.weight] at hphase
    rw [listWeight_pushTask] at hqueue
    simp only [workLeft, push]
    omega
  | @notify th caller task wasEmpty hth =>
    have hwake : wakeUp s.phase (task.job.queue cfg) wasEmpty th = s.phase th :=
      wakeUp_of_ne (by simp [hth]) _ _
    have hphase := sum_update (wakeUp s.phase (task.job.queue cfg) wasEmpty) Phase.weight
      th caller.resume
    rw [hwake, hth, weight_wakeUp, caller.weight_resume, Phase.weight, Call.weight] at hphase
    simp only [workLeft, notify]
    omega
  | @take q task rest hth hq =>
    have hphase := sum_update s.phase Phase.weight (.inl q) (.running task)
    have hqueue := sum_update s.queue (listWeight 3) q rest
    rw [hth, Phase.weight, Phase.weight] at hphase
    rw [hq, listWeight_cons] at hqueue
    simp only [workLeft]
    omega
  | @done q job hth =>
    have hphase := sum_update s.phase Phase.weight (.inl q) (.completing job)
    rw [hth, Phase.weight, Phase.weight, Code.weight] at hphase
    simp only [workLeft, Spool.complete]
    omega
  | @reschedule q job rest hth =>
    have hphase := sum_update s.phase Phase.weight (.inl q) (.returning (some ⟨job, rest⟩))
    rw [hth, Phase.weight, Phase.weight, Code.weight] at hphase
    dsimp only at hphase
    simp only [workLeft]
    omega
  | @close q job hth =>
    have hphase := sum_update s.phase Phase.weight (.inl q) (.returning none)
    rw [hth, Phase.weight, Phase.weight] at hphase
    simp only [workLeft, Spool.close]
    omega
  | @next q job task rest hth hlocked hpend =>
    have hphase := sum_update s.phase Phase.weight (.inl q) (.calling .next ⟨task, none⟩)
    have hpending := sum_update s.spool.pending (listWeight 5) (job.shard cfg) rest
    rw [hth, Phase.weight, Phase.weight, Call.weight, Caller.weight] at hphase
    rw [hpend, listWeight_cons] at hpending
    simp only [workLeft, Spool.next]
    omega
  | @endJob q hth =>
    have hphase := sum_update s.phase Phase.weight (.inl q) .awake
    rw [hth, Phase.weight, Phase.weight] at hphase
    simp only [workLeft]
    omega
  | @again q task hth =>
    have hphase := sum_update s.phase Phase.weight (.inl q) .awake
    have hqueue := sum_update s.queue (listWeight 3) q (s.queue q ++ [task])
    rw [hth, Phase.weight, Phase.weight] at hphase
    rw [listWeight_append, listWeight_singleton] at hqueue
    simp only [workLeft]
    omega
  | wait | wake | finish => cases hk

lemma change_other (h : Change s k t) (hk : k = .wait ∨ k = .finish) : workLeft t = workLeft s := by
  cases h with
  | @spool task th caller hsub | @start task th caller hsub =>
    cases hsub <;> simp [Caller.kind] at hk
  | @wait q hth =>
    have hphase := sum_update s.phase Phase.weight (.inl q) .waiting
    rw [hth, Phase.weight, Phase.weight] at hphase
    simp only [workLeft]
    omega
  | @wake q hth =>
    have hphase := sum_update s.phase Phase.weight (.inl q) .awake
    rw [hth, Phase.weight, Phase.weight] at hphase
    simp only [workLeft]
    omega
  | finish => rfl
  | _ => simp at hk

/-! ## Whole runs -/

structure Good (s : State cfg) : Prop where
  inv : Inv s
  locks : Locks s
  roles : Roles s
  fresh : Fresh s
  wake : Wake s

lemma init_good : Good (init cfg) where
  inv := init_inv
  locks sh := by simp [calls, init, Phase.calls]
  roles th := by cases th <;> trivial
  fresh th caller task h := by simp [init] at h
  wake q h := by simp [init] at h

lemma change_good (hs : Good s) (h : Change s k t) : Good t where
  inv := change_inv hs.inv h
  locks := change_locks hs.inv hs.locks h
  roles := change_roles hs.roles h
  fresh := change_fresh hs.inv hs.locks hs.fresh h
  wake := change_wake hs.wake h

/-- The parts of a run that the threads do, as opposed to waits and calls of `finish`. -/
def workSteps (as : List (Action cfg)) : ℕ := as.countP fun a => a.kind = .work

theorem workSteps_le {as : List (Action cfg)}
    (hcall : ∀ a ∈ as, a.kind ≠ .call) (h : Transition.run step s as = some t) :
    workSteps as + workLeft t ≤ workLeft s := by
  induction as generalizing s with
  | nil =>
    cases h
    simp [workSteps]
  | cons a as ih =>
    obtain ⟨m, hm, hrest⟩ := run_cons.1 h
    obtain ⟨ha, has⟩ := List.forall_mem_cons.1 hcall
    have hle := ih has hrest
    have hchange := step_change hm
    unfold workSteps at hle ⊢
    rw [List.countP_cons]
    cases hkind : a.kind with
    | call => exact absurd hkind ha
    | work =>
      have := change_work hchange hkind
      simp
      omega
    | wait =>
      have := change_other hchange (Or.inl hkind)
      simp
      omega
    | finish =>
      have := change_other hchange (Or.inr hkind)
      simp
      omega

section Stuck
variable {s : State cfg} (hs : Good s) (hstuck : ∀ a : Action cfg, a.kind = .work → step s a = none)
include hs hstuck

omit hs in
lemma not_calling_of_stuck (th : Thread cfg) (caller : Caller) (call : Call) :
    s.phase th ≠ .calling caller call := by
  intro hphase
  obtain ⟨task, w⟩ := call
  have hstep := hstuck (.advance th) rfl
  cases w <;> simp [step, hphase] at hstep

lemma unlocked_of_stuck (sh : Shard cfg) : s.locked sh = false := by
  have hzero : calls s.phase sh = 0 := by
    refine Finset.sum_eq_zero fun th _ => ?_
    cases hphase : s.phase th with
    | calling caller call => exact absurd hphase (not_calling_of_stuck hstuck th caller call)
    | _ => rfl
  have hsum := hs.locks sh
  rw [hzero] at hsum
  cases hlocked : s.locked sh
  · rfl
  · simp [hlocked] at hsum

lemma idle_of_stuck (th : Thread cfg) : s.phase th = .awake ∨ s.phase th = .waiting := by
  have hcalling := not_calling_of_stuck hstuck th
  have hfree := unlocked_of_stuck hs hstuck
  cases th with
  | inr c =>
    have hrole := hs.roles (.inr c)
    cases hphase : s.phase (.inr c) with
    | awake => exact Or.inl rfl
    | calling caller call => exact absurd hphase (hcalling caller call)
    | _ => simp [hphase, RoleOk] at hrole
  | inl q =>
    cases hphase : s.phase (.inl q) with
    | waiting => exact Or.inr rfl
    | awake => exact Or.inl rfl
    | running task =>
      have hstep := hstuck (.execute q) rfl
      obtain ⟨job, code⟩ := task
      simp only [step, hphase] at hstep
      cases code with
      | done | reschedule => simp [execute] at hstep
      | enqueue type key body rest =>
        simp only [execute, submit, hfree, Bool.false_eq_true, if_false] at hstep
        split_ifs at hstep
    | calling caller call => exact absurd hphase (hcalling caller call)
    | completing job =>
      have hstep := hstuck (.next q) rfl
      simp only [step, hphase, scheduleNextJob, hfree, Bool.false_eq_true, if_false] at hstep
      split at hstep <;> cases hstep
    | returning again =>
      have hstep := hstuck (.endJob q) rfl
      cases again <;> simp [step, hphase] at hstep

lemma queue_of_stuck (q : Queue cfg) : s.queue q = [] := by
  cases hqueue : s.queue q with
  | nil => rfl
  | cons task rest =>
    rcases idle_of_stuck hs hstuck (.inl q) with hphase | hphase
    · have hstep := hstuck (.take q) rfl
      simp [step, hphase, hqueue] at hstep
    · obtain ⟨th, caller, task', hth, -⟩ := hs.wake q hphase (by simp [hqueue])
      exact absurd hth (not_calling_of_stuck hstuck th caller _)

/-- If no thread can go on, then every job has completed. -/
theorem completed_of_stuck {job : Job} (hjob : job ∈ s.spool.enqueued) :
    job ∈ s.spool.completed := by
  refine hs.inv.held.completed_of_zero hs.inv.spool (fun job => ?_) (fun sh => ?_) hjob
  · have hphases : ∀ th, (s.phase th).copies job = 0 := fun th => by
      rcases idle_of_stuck hs hstuck th with h | h <;> rw [h] <;> rfl
    simp [copies, queue_of_stuck hs hstuck, hphases]
  · refine Finset.sum_eq_zero fun th _ => ?_
    rcases idle_of_stuck hs hstuck th with h | h <;> rw [h] <;> rfl

end Stuck

end HybridCache.OrderedScheduler

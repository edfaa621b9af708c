import Mathlib
import HybridCache.NavySchedulerProgress

/-!
# Requests are dispatched once and in order

The results about whole runs of the scheduler.
-/
namespace HybridCache.NavyScheduler
open JobScheduler Function List

variable {cfg : Config}

structure Good (s : State cfg) : Prop where
  inv : Inv s
  dispatch : Dispatch s
  locks : Locks s
  pushes : Pushes s
  roles : Roles s

lemma init_good : Good (init cfg) where
  inv := init_inv
  dispatch := init_dispatch
  locks sh := by simp [total, init, Phase.calls]
  pushes job := by simp [total, init, Phase.pushing, Spool.init]
  roles := ⟨fun c => trivial, fun d p hp => by simp [init] at hp⟩

variable {s t : State cfg} {as : List (Action cfg)}

lemma change_good {k : Kind} (hs : Good s) (h : Change s k t) : Good t where
  inv := change_inv hs.inv h
  dispatch := change_dispatch hs.dispatch h
  locks := change_locks hs.inv hs.locks h
  pushes := change_pushes hs.pushes h
  roles := change_roles hs.roles h

theorem run_good (hs : Good s)
    (h : Transition.run step s as = some t) : Good t :=
  Transition.run_invariant (fun _ _ _ hs ht => change_good hs (step_change ht)) hs h

theorem length_le_workLeft (hs : Good s)
    (hwork : ∀ a ∈ as, a.kind = .work) (h : Transition.run step s as = some t) :
    as.length + workLeft t ≤ workLeft s := by
  induction as generalizing s with
  | nil =>
    cases h
    simp
  | cons a as ih =>
    obtain ⟨m, hm, hrest⟩ := Transition.run_cons.1 h
    obtain ⟨ha, has⟩ := forall_mem_cons.1 hwork
    have hless := change_work hs.dispatch (step_change hm) ha
    have hle := ih (change_good hs (step_change hm)) has hrest
    rw [length_cons]
    omega

lemma total_eq_zero {w : Phase → ℕ}
    (h : ∀ pl p, phaseAt s pl = some p → w p = 0) : total w s = 0 := by
  have hclients : ∑ c, w (s.clients c) = 0 := Finset.sum_eq_zero fun c _ => h (.client c) _ rfl
  have hfibers : ∑ d, ((s.fibers d).map w).sum = 0 := by
    refine Finset.sum_eq_zero fun d _ => sum_eq_zero fun n hn => ?_
    obtain ⟨p, hp, rfl⟩ := mem_map.1 hn
    obtain ⟨i, hi⟩ := mem_iff_getElem?.1 hp
    exact h (.fiber d i) p hi
  rw [total, hclients, hfibers]

/-! ## No thread can go on -/

section Stuck
variable {s : State cfg} (hs : Good s) (hstuck : ∀ a : Action cfg, a.kind = .work → step s a = none)
include hs hstuck

omit hs in
lemma not_calling_of_stuck (pl : Place cfg) (caller : Caller) (call : Call) :
    phaseAt s pl ≠ some (.calling caller call) := by
  intro hphase
  have hstep := hstuck (.submit pl) rfl
  simp [step, hphase] at hstep

lemma unlocked_of_stuck (sh : Shard cfg) : s.locked sh = false := by
  have hzero : total (Phase.calls sh) s = 0 := by
    refine total_eq_zero fun pl p hp => ?_
    cases p with
    | calling caller call => exact absurd hp (not_calling_of_stuck hstuck pl caller call)
    | _ => rfl
  have hsum := hs.locks sh
  rw [hzero] at hsum
  cases hlocked : s.locked sh
  · rfl
  · simp [hlocked] at hsum

lemma fibers_of_stuck (d : Queue cfg) : s.fibers d = [] := by
  have hfree := unlocked_of_stuck hs hstuck
  refine eq_nil_iff_forall_not_mem.2 fun p hp => ?_
  have hrole := hs.roles.fiber d p hp
  obtain ⟨i, hi⟩ := mem_iff_getElem?.1 hp
  cases p with
  | idle => exact hrole
  | running task =>
    have hstep := hstuck (.execute d i) rfl
    obtain ⟨job, code⟩ := task
    simp only [step, hi] at hstep
    cases code with
    | done | reschedule => simp [execute] at hstep
    | enqueue type key body rest =>
      simp only [execute, enqueueWithKey, hfree, Bool.false_eq_true, if_false] at hstep
      split_ifs at hstep
  | calling caller call => exact not_calling_of_stuck hstuck (.fiber d i) caller call hi
  | completing job =>
    have hstep := hstuck (.notifyCompletion d i) rfl
    simp only [step, hi, notifyCompletion, hfree, Bool.false_eq_true, if_false] at hstep
    split at hstep <;> cases hstep
  | finishing =>
    have hstep := hstuck (.endRequest d i) rfl
    simp [step, hi] at hstep

lemma idle_of_stuck (c : Fin cfg.clients) : s.clients c = .idle := by
  have hrole := hs.roles.client c
  cases hphase : s.clients c with
  | idle => rfl
  | calling caller call =>
    exact absurd (congrArg some hphase) (not_calling_of_stuck hstuck (.client c) caller call)
  | _ => simp [hphase, Phase.OfClient] at hrole

lemma loops_of_stuck (d : Queue cfg) : (s.disp d).loops = [] := by
  refine eq_nil_iff_forall_not_mem.2 fun loop hmem => ?_
  obtain ⟨l, hl⟩ := mem_iff_getElem?.1 hmem
  have hstep := hstuck (.processLoop d l) rfl
  simp only [step, processLoop, hl] at hstep
  have hdisp := hs.dispatch d
  cases loop with
  | claim => cases hstep
  | dispatching pending =>
    cases pending with
    | nil => cases hstep
    | cons req pending =>
      split_ifs at hstep
  | waiting req pending =>
    dsimp only at hstep
    split_ifs at hstep with hposted
    obtain ⟨-, hfull, -⟩ := hdisp.loop _ hmem
    have hcount := hdisp.count
    have hpos := maxOutstanding_pos cfg d
    rw [fibers_of_stuck hs hstuck d, (hdisp.alone hl).2.1] at hcount
    simp only [map_singleton, sum_singleton, Loop.adds, length_nil] at hcount
    have hmax := hfull (by simpa using hposted)
    omega
  | adding req pending => cases hstep
  | unclaim =>
    split_ifs at hstep

lemma incoming_of_stuck (d : Queue cfg) : (s.disp d).incoming = .null := by
  have hremote : (s.disp d).remote = 0 := by
    by_contra hne
    have hstep := hstuck (.startLoop d) rfl
    simp [step, hne] at hstep
  have hstarting : total (Phase.starting d) s = 0 := by
    refine total_eq_zero fun pl p hp => ?_
    cases p with
    | calling caller call => exact absurd hp (not_calling_of_stuck hstuck pl caller call)
    | _ => rfl
  have hsingle := (hs.dispatch d).single
  rw [loops_of_stuck hs hstuck d, hremote, hstarting] at hsingle
  by_contra hne
  rw [if_neg hne] at hsingle
  cases hsingle

theorem dispatched_of_stuck (d : Queue cfg) :
    (s.disp d).dispatched = (s.disp d).pushed := by
  have horder := (hs.dispatch d).order
  rw [loops_of_stuck hs hstuck d, incoming_of_stuck hs hstuck d] at horder
  simpa [Incoming.null] using horder.symm

theorem completed_of_stuck {job : Job} (hjob : job ∈ s.spool.enqueued) :
    job ∈ s.spool.completed := by
  refine hs.inv.held.completed_of_zero hs.inv.spool (fun job => ?_) (fun sh => ?_) hjob
  · simp [copies, total, Dispatcher.copies, loops_of_stuck hs hstuck, incoming_of_stuck hs hstuck,
      fibers_of_stuck hs hstuck, idle_of_stuck hs hstuck, Incoming.null, Phase.copies]
  · simp [total, fibers_of_stuck hs hstuck, idle_of_stuck hs hstuck, Phase.closing]

end Stuck

lemma Good.pushed_nodup (hs : Good s) (d : Queue cfg) :
    (s.disp d).pushed.Nodup := by
  refine nodup_iff_count_le_one.2 fun job => ?_
  have hle := Transition.le_sum (fun d => (s.disp d).pushed.count job) d
  have hone := nodup_iff_count_le_one.1 (Spool.enqueued_nodup hs.inv.spool) job
  have hsum := hs.pushes job
  omega

/-! ## Result -/

/-- A dispatcher has at most one loop, running or given to the worker thread. While a request
is queued there is one, or the call that has pushed onto the empty queue is about to start
it. The requests are dispatched in the order in which they were pushed, each of them once, and
never more than the limit are outstanding. Jobs of one shard run one at a time and complete
in the order of their calls, whatever their dispatchers. As long as a request has not been
dispatched or a job has not completed some thread can go on, and without new calls of the
clients the threads go on only finitely often. -/
theorem dispatched_once_in_order (cfg : Config) (as : List (Action cfg)) (s : State cfg)
    (h : Transition.run step (init cfg) as = some s) :
    (∀ d, (s.disp d).loops.length + (s.disp d).remote ≤ 1 ∧ ((s.disp d).incoming.reqs ≠ [] →
        (s.disp d).loops.length + (s.disp d).remote + total (Phase.starting d) s = 1) ∧
      (s.disp d).dispatched <+: (s.disp d).pushed ∧ (s.disp d).pushed.Nodup ∧
      (s.disp d).numOutstanding ≤ maxOutstanding cfg d) ∧
    (∀ pl pl' p p' task task', phaseAt s pl = some p → phaseAt s pl' = some p' →
      p.task = some task → p'.task = some task' →
      task.job.shard cfg = task'.job.shard cfg → pl = pl') ∧
    (∀ sh : Shard cfg, jobsOf sh s.spool.completed <+: jobsOf sh s.spool.enqueued) ∧
    s.spool.completed.Nodup ∧
    ∀ bs t, (∀ b ∈ bs, b.kind = .work) → Transition.run step s bs = some t →
      bs.length ≤ workLeft s ∧ ((∀ b : Action cfg, b.kind = .work → step t b = none) →
          (∀ d, (t.disp d).dispatched = (t.disp d).pushed) ∧
            ∀ job ∈ t.spool.enqueued, job ∈ t.spool.completed) := by
  have hs := run_good init_good h
  refine ⟨fun d => ?_, fun pl pl' p p' task task' hpl hpl' => hs.inv.exclusive hpl hpl',
    fun sh => Spool.completed_isPrefix hs.inv.spool sh, Spool.completed_nodup hs.inv.spool,
    fun bs t hbs ht => ⟨?_, fun hstuck => ?_⟩⟩
  · have hdisp := hs.dispatch d
    have hsingle := hdisp.single
    refine ⟨?_, fun hqueued => ?_, ?_, hs.pushed_nodup d, hdisp.le_max⟩
    · split_ifs at hsingle <;> omega
    · have hnull : (s.disp d).incoming ≠ .null := fun hnull => hqueued (by rw [hnull]; rfl)
      rwa [if_neg hnull] at hsingle
    · rw [hdisp.order, append_assoc]
      exact prefix_append ..
  · have hle := length_le_workLeft hs hbs ht
    omega
  · have hgood := run_good hs ht
    exact ⟨dispatched_of_stuck hgood hstuck, fun job => completed_of_stuck hgood hstuck⟩

/-- One thread in each pool, two shards, one client, and one request outstanding. -/
def oneOutstanding : Config := ⟨⟨1, 1, 1, 1, Nat.one_pos, Nat.one_pos⟩, 1, 1⟩

/-- Two reads of different shards: the loop waits with the second one until the first ends. -/
def waitRun : List (Action oneOutstanding) :=
  let client : Fin oneOutstanding.clients := ⟨0, by decide⟩
  let reader : Queue oneOutstanding.toConfig := reader oneOutstanding.toConfig 0
  [.enqueue client .read 0 (.reschedule .done), .submit (.client client), .submit (.client client),
    .enqueue client .read 1 .done, .submit (.client client), .startLoop reader,
    .submit (.client client), .processLoop reader 0, .processLoop reader 0, .processLoop reader 0,
    .execute reader 0, .processLoop reader 0, .execute reader 0, .notifyCompletion reader 0,
    .endRequest reader 0, .processLoop reader 0, .processLoop reader 0]

theorem waitRun_in_order : ∃ s, Transition.run step (init oneOutstanding) waitRun = some s ∧
    (s.disp (reader oneOutstanding.toConfig 0)).dispatched.map Job.id = [0, 1] ∧
    (s.disp (reader oneOutstanding.toConfig 0)).dispatched <+:
      (s.disp (reader oneOutstanding.toConfig 0)).pushed := by
  refine ⟨_, rfl, by decide +kernel, ?_⟩
  exact ((dispatched_once_in_order oneOutstanding waitRun _ rfl).1 _).2.2.1

/-- A job is in one place: it was pushed to one dispatcher, is on its way there, or waits for
the jobs of its shard. -/
theorem job_in_one_place (cfg : Config) (as : List (Action cfg)) : Transition.Always step (fun s =>
    ∀ job ∈ s.spool.enqueued, (∑ d, (s.disp d).pushed.count job) + total (Phase.pushing job) s +
      ∑ sh, listCopies job (s.spool.pending sh) = 1) (init cfg) as := by
  refine Transition.always_of_invariant (fun s (hs : Good s) job hjob => ?_)
    (fun _ _ _ hs ht => change_good hs (step_change ht)) init_good
  rw [hs.pushes, count_eq_one_of_mem (Spool.enqueued_nodup hs.inv.spool) hjob]

end HybridCache.NavyScheduler

import Mathlib
import HybridCache.OrderedSchedulerProgress

/-!
# Waiting for the jobs to finish

`finish` visits the queues one after the other and compares the numbers of jobs that were
ever entered. A queue that is idle stays idle until a job is entered. So if two rounds find
the same numbers, then all queues were idle together between the two rounds.
-/
namespace HybridCache.OrderedScheduler
open JobScheduler Function List

variable {cfg : Config}

/-! ## Descendants -/

/-- A job, the jobs that it has enqueued, those that they have enqueued, and so on. -/
inductive Descends (s : State cfg) (job : Job) : Job → Prop
  | refl : Descends s job job
  | child {parent child : Job} : Descends s job parent → child ∈ s.spool.enqueued →
      child.parent = some parent.id → Descends s job child

/-- The jobs are among completed ones that have enqueued only completed ones. -/
def Settled (s : State cfg) (before : List Job) : Prop :=
  ∃ closed : Job → Prop, (∀ job ∈ before, closed job) ∧
    (∀ job, closed job → job ∈ s.spool.enqueued ∧ job ∈ s.spool.completed) ∧
    ∀ child ∈ s.spool.enqueued, ∀ parent, closed parent → child.parent = some parent.id →
      closed child

variable {s t : State cfg} {k : Kind} {th : Thread cfg} {q : Queue cfg}
  {cur prev start : Queue cfg → ℕ} {total f : ℕ} {a : Action cfg}

lemma Settled.descends {before : List Job} (h : Settled s before) {job child : Job}
    (hjob : job ∈ before) (hchild : Descends s job child) : child ∈ s.spool.completed := by
  obtain ⟨closed, hbefore, hcompleted, hclosed⟩ := h
  have hin : closed child := by
    induction hchild with
    | refl => exact hbefore job hjob
    | child _ hmem hparent ih => exact hclosed _ hmem _ ih hparent
  exact (hcompleted child hin).2

def Returned (s : State cfg) (before : List Job) : Prop :=
  ∀ job ∈ before, job ∈ s.spool.enqueued ∧ ∀ th, (s.phase th).enqueueing ≠ some job

lemma returnedCalls_returned (s : State cfg) : Returned s (returnedCalls s) := by
  intro job hjob
  simpa [returnedCalls] using hjob

/-! ## Idle queues -/

section Idle
variable {s : State cfg} (hs : Good s) (hidle : ∀ q, idleQueue s q)
include hs hidle

omit hs in
lemma worker_of_idle (q : Queue cfg) : s.phase (.inl q) = .awake ∨ s.phase (.inl q) = .waiting := by
  have h := (hidle q).2
  cases hphase : s.phase (.inl q) with
  | awake => exact Or.inl rfl
  | waiting => exact Or.inr rfl
  | _ => simp [hphase, Phase.isIdle] at h

/-- With all queues idle, only a client's call can hold a job. -/
lemma thread_of_idle (th : Thread cfg) : s.phase th = .awake ∨ s.phase th = .waiting ∨
    ∃ call, s.phase th = .calling .client call ∧ call.task.job.parent = none := by
  cases th with
  | inl q => exact (worker_of_idle hidle q).imp_right Or.inl
  | inr c =>
    have hrole := hs.roles (.inr c)
    cases hphase : s.phase (.inr c) with
    | awake => exact Or.inl rfl
    | calling caller call =>
      rw [hphase] at hrole
      cases caller with
      | client => exact Or.inr (Or.inr ⟨call, rfl, hrole⟩)
      | _ => exact hrole.elim
    | _ => simp [hphase, RoleOk] at hrole

lemma active_of_idle {job : Job} (hactive : s.spool.active (job.shard cfg) = some job) :
    ∃ th task, s.phase th = .calling .client ⟨task, none⟩ ∧ task.job = job := by
  have hone := hs.inv.held.copies_eq job
  rw [if_pos hactive] at hone
  by_contra hnone
  have hphases : ∀ th, (s.phase th).copies job = 0 := by
    intro th
    rcases thread_of_idle hs hidle th with h | h | ⟨⟨task, w⟩, h, -⟩
    · rw [h]
      rfl
    · rw [h]
      rfl
    · cases w with
      | none =>
        have hne : task.job ≠ job := fun heq => hnone ⟨th, task, h, heq⟩
        simp [h, Phase.copies, Caller.copies, Call.copies, jobCopies, hne]
      | some w =>
        rw [h]
        rfl
  have hqueues : ∀ q, s.queue q = [] := fun q => (hidle q).1
  simp [copies, hphases, hqueues] at hone

lemma completed_of_idle {job : Job} (hjob : job ∈ s.spool.enqueued)
    (hreturned : ∀ th, (s.phase th).enqueueing ≠ some job) : job ∈ s.spool.completed := by
  rcases (Spool.mem_order hs.inv.spool).1 hjob with hdone | hactive | ⟨task, htask, -⟩
  · exact hdone
  · obtain ⟨th, task, hth, rfl⟩ := active_of_idle hs hidle hactive
    exact absurd (by rw [hth]; rfl) (hreturned th)
  · have hfinishing : finishing s.phase (job.shard cfg) = 0 := by
      refine Finset.sum_eq_zero fun th _ => ?_
      rcases thread_of_idle hs hidle th with h | h | ⟨call, h, -⟩ <;> rw [h] <;> rfl
    have hpending := ne_nil_of_mem htask
    obtain ⟨first, hactive⟩ := hs.inv.held.spool_of_pending hs.inv.spool hpending hfinishing
    have hshard := Spool.shard_of_active hs.inv.spool hactive
    rw [← hshard] at hactive hpending
    obtain ⟨th, task', hth, rfl⟩ := active_of_idle hs hidle hactive
    exact absurd (hs.fresh th .client task' hth (by simp)) hpending

lemma settled_of_idle {before : List Job} (hreturned : Returned s before) : Settled s before := by
  refine ⟨fun job => job ∈ s.spool.enqueued ∧ ∀ th, (s.phase th).enqueueing ≠ some job, hreturned,
    fun job h => ⟨h.1, completed_of_idle hs hidle h.1 h.2⟩, ?_⟩
  intro child hchild parent _ hparent
  refine ⟨hchild, fun th hth => ?_⟩
  rcases thread_of_idle hs hidle th with h | h | ⟨call, h, hnone⟩
  · simp [h, Phase.enqueueing] at hth
  · simp [h, Phase.enqueueing] at hth
  · simp only [h, Phase.enqueueing, Option.some.injEq] at hth
    rw [hth, hparent] at hnone
    cases hnone

end Idle

/-! ## What stays -/

lemma change_history (h : Change s k t) : (∀ job ∈ s.spool.enqueued, job ∈ t.spool.enqueued) ∧
      (∀ job ∈ s.spool.completed, job ∈ t.spool.completed) ∧
      ∀ job ∈ t.spool.enqueued, job ∈ s.spool.enqueued ∨
        ∃ task th caller, Submits s task th caller ∧ task.job = job := by
  have hsnoc : ∀ {task : Task} {th : Thread cfg} {caller : Caller}, Submits s task th caller →
      ∀ job ∈ s.spool.enqueued ++ [task.job], job ∈ s.spool.enqueued ∨
        ∃ task th caller, Submits s task th caller ∧ task.job = job := by
    intro task th caller hsub job hjob
    rcases mem_append.1 hjob with hold | hnew
    · exact Or.inl hold
    · exact Or.inr ⟨task, th, caller, hsub, (mem_singleton.1 hnew).symm⟩
  cases h with
  | spool hsub | start hsub => exact ⟨fun _ => mem_append_left _, fun _ => id, hsnoc hsub⟩
  | done => exact ⟨fun _ => id, fun _ => mem_append_left _, fun _ => Or.inl⟩
  | _ => exact ⟨fun _ => id, fun _ => id, fun _ => Or.inl⟩

lemma Submits.parent {task : Task} {caller : Caller}
    (h : Submits s task th caller) (hs : Good s) {parent : Job}
    (hparent : task.job.parent = some parent.id) (hmem : parent ∈ s.spool.enqueued) :
    parent ∉ s.spool.completed := by
  cases h with
  | client _ hnone => simp [hnone] at hparent
  | @job q job rest hphase hjob =>
    have hactive : s.spool.active (job.shard cfg) = some job :=
      hs.inv.active_of_phase (by rw [hphase]; simp [Phase.copies, jobCopies])
    have hjobmem : job ∈ s.spool.enqueued :=
      (Spool.mem_order hs.inv.spool).2 (Or.inr (Or.inl hactive))
    rw [hjob] at hparent
    rw [Spool.eq_of_id hs.inv.spool hmem hjobmem (Option.some.inj hparent).symm]
    exact Spool.not_completed_of_active hs.inv.spool hactive

lemma Settled.change {before : List Job} (h : Settled s before)
    (hs : Good s) (hchange : Change s k t) : Settled t before := by
  obtain ⟨closed, hbefore, hcompleted, hclosed⟩ := h
  obtain ⟨henqueued, hdone, hnew⟩ := change_history hchange
  refine ⟨closed, hbefore, fun job hjob => ?_, fun child hchild parent hparent hid => ?_⟩
  · exact ⟨henqueued job (hcompleted job hjob).1, hdone job (hcompleted job hjob).2⟩
  · rcases hnew child hchild with hold | ⟨task, th, caller, hsub, rfl⟩
    · exact hclosed child hold parent hparent hid
    · exact absurd (hcompleted parent hparent).2 (hsub.parent hs hid (hcompleted parent hparent).1)

lemma Caller.enqueueing_resume (caller : Caller) : caller.resume.enqueueing = none := by
  cases caller <;> rfl

lemma change_enqueueing (h : Change s k t) {job : Job} (hth : (t.phase th).enqueueing = some job) :
    (s.phase th).enqueueing = some job ∨ job.id = s.spool.enqueued.length := by
  have hupdate : ∀ {th' : Thread cfg} {p : Phase}, p.enqueueing = none →
      (update s.phase th' p th).enqueueing = some job → (s.phase th).enqueueing = some job := by
    intro th' p hp h
    by_cases heq : th = th'
    · subst heq
      rw [update_self, hp] at h
      cases h
    · rwa [update_of_ne heq] at h
  cases h with
  | @spool task th' caller => exact Or.inl (hupdate caller.enqueueing_resume hth)
  | @start task th' caller hsub hid =>
    dsimp only at hth
    by_cases heq : th = th'
    · subst heq
      rw [update_self] at hth
      right
      cases caller
      · cases hth
        exact hid
      · cases hth
        exact hid
      · cases hth
    · rw [update_of_ne heq] at hth
      exact Or.inl hth
  | @push th' caller task hphase =>
    left
    simp only [push] at hth
    by_cases heq : th = th'
    · subst heq
      rw [update_self] at hth
      rw [hphase]
      cases caller <;> exact hth
    · rwa [update_of_ne heq] at hth
  | @notify th' caller task wasEmpty hphase =>
    left
    simp only [notify] at hth
    by_cases heq : th = th'
    · subst heq
      rw [update_self, caller.enqueueing_resume] at hth
      cases hth
    · rw [update_of_ne heq, wakeUp] at hth
      split_ifs at hth
      · exact hupdate rfl hth
      · exact hth
  | next | wait | wake | take | done | reschedule | close | endJob | again =>
    exact Or.inl (hupdate rfl hth)
  | finish => exact Or.inl hth

lemma Returned.change {before : List Job} (h : Returned s before)
    (hs : Good s) (hchange : Change s k t) : Returned t before := by
  intro job hjob
  obtain ⟨hmem, hreturned⟩ := h job hjob
  refine ⟨(change_history hchange).1 job hmem, fun th hth => ?_⟩
  rcases change_enqueueing hchange hth with hold | hnew
  · exact hreturned th hold
  · have hlt := Spool.id_lt hs.inv.spool hmem
    omega

lemma idle_update {p : Phase}
    (hphase : t.phase = update s.phase th p) (hqueue : s.queue q = [] → t.queue q = [])
    (hp : th = .inl q → (s.phase th).isIdle = true → p.isIdle = true) (h : idleQueue s q) :
    idleQueue t q := by
  refine ⟨hqueue h.1, ?_⟩
  rw [hphase]
  by_cases heq : Sum.inl q = th
  · subst heq
    rw [update_self]
    exact hp rfl h.2
  · rw [update_of_ne heq]
    exact h.2

lemma Submits.busy {task : Task} {caller : Caller}
    (h : Submits s task th caller) (hq : th = .inl q) :
    (s.phase th).isIdle = false := by
  cases h with
  | client => cases hq
  | job hphase =>
    rw [hphase]
    rfl

lemma change_idle (h : Change s k t) (q : Queue cfg) : s.enqueueCount q ≤ t.enqueueCount q ∧
      (t.enqueueCount q = s.enqueueCount q → idleQueue s q → idleQueue t q) := by
  cases h with
  | spool hsub | start hsub =>
    exact ⟨le_rfl, fun _ => idle_update rfl id fun hq h => by simp [hsub.busy hq] at h⟩
  | @push th caller task hphase =>
    by_cases hq : q = task.job.queue cfg
    · subst hq
      simp only [push, update_self]
      exact ⟨Nat.le_succ _, fun hcount => absurd hcount (Nat.succ_ne_self _)⟩
    · have hbusy : (s.phase th).isIdle = false := by
        rw [hphase]
        rfl
      refine ⟨by simp [push, update_of_ne hq], fun _ => idle_update rfl ?_ ?_⟩
      · simp [push, update_of_ne hq]
      · simp [hbusy]
  | @notify th caller task wasEmpty hphase =>
    refine ⟨le_rfl, fun _ hidle => ⟨hidle.1, ?_⟩⟩
    have hne : Sum.inl q ≠ th := by
      rintro rfl
      have := hidle.2
      simp [hphase, Phase.isIdle] at this
    simp only [notify, update_of_ne hne, wakeUp]
    split_ifs
    · rw [update_apply]
      split_ifs
      · rfl
      · exact hidle.2
    · exact hidle.2
  | @take q' task rest hphase hqueue =>
    refine ⟨le_rfl, fun _ hidle => ?_⟩
    have hne : q ≠ q' := by
      rintro rfl
      simp [hidle.1] at hqueue
    exact idle_update rfl (by simp [update_of_ne hne]) (by simp [Ne.symm hne]) hidle
  | @again q' task hphase =>
    refine ⟨le_rfl, fun _ hidle => ?_⟩
    have hne : q ≠ q' := by
      rintro rfl
      have := hidle.2
      simp [hphase, Phase.isIdle] at this
    exact idle_update rfl (by simp [update_of_ne hne]) (by simp [Ne.symm hne]) hidle
  | wait | wake | endJob => exact ⟨le_rfl, fun _ => idle_update rfl id fun _ _ => rfl⟩
  | done hphase | reschedule hphase | close hphase | next hphase =>
    exact ⟨le_rfl, fun _ => idle_update rfl id fun _ h => by simp [hphase, Phase.isIdle] at h⟩
  | finish => exact ⟨le_rfl, fun _ => id⟩

/-! ## Rounds of `finish` -/

/-- A round of `finish`: `prev` and `cur` are the numbers that the round before and this one
have found, with zero for the queues to be visited, and `start` those at its start. -/
structure Round (s : State cfg) (before : List Job) (total ec : ℕ) (rest : List (Queue cfg))
    (prev start cur : Queue cfg → ℕ) : Prop where
  total_eq : total = ∑ q, prev q
  ec_eq : ec = ∑ q, cur q
  cur_zero : ∀ q ∈ rest, cur q = 0
  nodup : rest.Nodup
  returned : Returned s before
  prev_le : ∀ q, prev q ≤ start q
  start_le : ∀ q, start q ≤ s.enqueueCount q
  le_cur : ∀ q ∉ rest, start q ≤ cur q
  cur_le : ∀ q ∉ rest, cur q ≤ s.enqueueCount q
  idle : ∀ q ∉ rest, s.enqueueCount q = cur q → idleQueue s q
  settled : (∀ q, prev q = start q) → Settled s before

def FinishOk (s : State cfg) : Finish cfg → Prop
  | .idle => True
  | .running before total ec rest => ∃ prev start cur, Round s before total ec rest prev start cur
  | .returned before => Settled s before

lemma Round.change {before : List Job} {ec : ℕ} {rest : List (Queue cfg)}
    (h : Round s before total ec rest prev start cur) (hs : Good s) (hchange : Change s k t) :
    Round t before total ec rest prev start cur := by
  refine ⟨h.total_eq, h.ec_eq, h.cur_zero, h.nodup, h.returned.change hs hchange, h.prev_le, fun q => ?_,
    h.le_cur, fun q hq => ?_, fun q hq hcount => ?_, fun heq => (h.settled heq).change hs hchange⟩
  · exact le_trans (h.start_le q) (change_idle hchange q).1
  · exact le_trans (h.cur_le q hq) (change_idle hchange q).1
  · have hle := (change_idle hchange q).1
    have hcur := h.cur_le q hq
    exact (change_idle hchange q).2 (by omega) (h.idle q hq (by omega))

lemma FinishOk.change {fin : Finish cfg} (h : FinishOk s fin)
    (hs : Good s) (hchange : Change s k t) : FinishOk t fin := by
  cases fin with
  | idle => trivial
  | running before total ec rest =>
    obtain ⟨prev, start, cur, hround⟩ := h
    exact ⟨prev, start, cur, hround.change hs hchange⟩
  | returned before => exact Settled.change h hs hchange

lemma mem_visitOrder (readerFirst : Bool) (q : Queue cfg) : q ∈ visitOrder cfg readerFirst := by
  cases q <;> cases readerFirst <;> simp [visitOrder]

lemma visitOrder_nodup (readerFirst : Bool) : (visitOrder cfg readerFirst).Nodup := by
  have hreaders : ((finRange cfg.readerThreads).map Sum.inl : List (Queue cfg)).Nodup :=
    (nodup_finRange _).map Sum.inl_injective
  have hwriters : ((finRange cfg.writerThreads).map Sum.inr : List (Queue cfg)).Nodup :=
    (nodup_finRange _).map Sum.inr_injective
  cases readerFirst
  · exact hwriters.append hreaders (by simp [List.Disjoint])
  · exact hreaders.append hwriters (by simp [List.Disjoint])

/-- A round begins: what the round before has found is compared with the present numbers. -/
lemma Round.begin (hs : Good s) {before : List Job} (readerFirst : Bool)
    (hreturned : Returned s before)
    (hprev : ∀ q, prev q ≤ s.enqueueCount q)
    (hidle : ∀ q, s.enqueueCount q = prev q → idleQueue s q) :
    Round s before (∑ q, prev q) 0 (visitOrder cfg readerFirst) prev s.enqueueCount 0 := by
  have hall := @mem_visitOrder cfg readerFirst
  refine ⟨rfl, by simp, fun _ _ => rfl, visitOrder_nodup readerFirst, hreturned, hprev,
    fun _ => le_rfl, fun q hq => absurd (hall q) hq, fun q hq => absurd (hall q) hq,
    fun q hq => absurd (hall q) hq, fun heq => ?_⟩
  exact settled_of_idle hs (fun q => hidle q (heq q).symm) hreturned

lemma Round.visit {before : List Job} {ec : ℕ} {rest : List (Queue cfg)}
    (h : Round s before total ec (q :: rest) prev start cur) (hidle : idleQueue s q) :
    Round s before total (ec + s.enqueueCount q) rest prev start
      (update cur q (s.enqueueCount q)) := by
  obtain ⟨hnotin, hnodup⟩ := nodup_cons.1 h.nodup
  have hcases : ∀ q' ∉ rest, q' = q ∨ q' ≠ q ∧ q' ∉ q :: rest := by
    intro q' hq'
    by_cases heq : q' = q
    · exact Or.inl heq
    · exact Or.inr ⟨heq, by simp [heq, hq']⟩
  refine ⟨h.total_eq, ?_, ?_, hnodup, h.returned, h.prev_le, h.start_le, ?_, ?_, ?_, h.settled⟩
  · have hupdate := Transition.sum_update cur id q (s.enqueueCount q)
    have hzero := h.cur_zero q mem_cons_self
    simp only [id, hzero] at hupdate
    rw [h.ec_eq]
    omega
  · intro q' hq'
    have hne : q' ≠ q := by
      rintro rfl
      exact hnotin hq'
    rw [update_of_ne hne]
    exact h.cur_zero q' (mem_cons_of_mem _ hq')
  · intro q' hq'
    rcases hcases q' hq' with rfl | ⟨hne, hmem⟩
    · rw [update_self]
      exact h.start_le q'
    · rw [update_of_ne hne]
      exact h.le_cur q' hmem
  · intro q' hq'
    rcases hcases q' hq' with rfl | ⟨hne, hmem⟩
    · rw [update_self]
    · rw [update_of_ne hne]
      exact h.cur_le q' hmem
  · intro q' hq' hcount
    rcases hcases q' hq' with rfl | ⟨hne, hmem⟩
    · exact hidle
    · rw [update_of_ne hne] at hcount
      exact h.idle q' hmem hcount

lemma Round.finished {before : List Job} (h : Round s before total total [] prev start cur) :
    Settled s before := by
  refine h.settled fun q => ?_
  have hsum : ∑ q, prev q = ∑ q, cur q := by
    rw [← h.total_eq, ← h.ec_eq]
  have hle : ∀ q, prev q ≤ cur q := fun q =>
    le_trans (h.prev_le q) (h.le_cur q (by simp))
  have heq : prev q = cur q :=
    (Finset.sum_eq_sum_iff_of_le fun q _ => hle q).1 hsum q (Finset.mem_univ q)
  exact le_antisymm (h.prev_le q) (le_trans (h.le_cur q (by simp)) heq.ge)

/-! ## Whole runs -/

structure FinishInv (s : State cfg) : Prop where
  good : Good s
  counted : ∀ q, s.enqueueCount q = 0 → idleQueue s q
  finish : ∀ f, FinishOk s (s.finish f)

lemma init_finishInv : FinishInv (init cfg) := ⟨init_good, fun _ _ => ⟨rfl, rfl⟩, fun _ => trivial⟩

lemma change_finish (h : Change s k t) (hk : k ≠ .finish) : t.finish = s.finish := by
  cases h with
  | finish => exact absurd rfl hk
  | _ => rfl

lemma FinishInv.change (h : FinishInv s) (hchange : Change s k t)
    (hfinish : ∀ f, FinishOk s (t.finish f)) : FinishInv t := by
  refine ⟨change_good h.good hchange, fun q hq => ?_, fun f => (hfinish f).change h.good hchange⟩
  have hle := (change_idle hchange q).1
  exact (change_idle hchange q).2 (by omega) (h.counted q (by omega))

lemma FinishInv.set (h : FinishInv s) {fin : Finish cfg}
    (hfin : FinishOk s fin) : FinishInv (setFinish s f fin) := by
  refine h.change (.finish f fin) fun f' => ?_
  simp only [setFinish, update_apply]
  split_ifs
  · exact hfin
  · exact h.finish f'

lemma step_finishInv (h : FinishInv s) (ht : step s a = some t) : FinishInv t := by
  have hchange := step_change ht
  by_cases hkind : a.kind = .finish
  · cases a with
    | startFinish f readerFirst =>
      simp only [step] at ht
      split at ht
      next =>
        cases ht
        have hround := Round.begin h.good readerFirst (returnedCalls_returned s)
          (fun q => Nat.zero_le (s.enqueueCount q)) h.counted
        exact h.set ⟨_, _, _, by simpa using hround⟩
      next => cases ht
    | visit f =>
      simp only [step] at ht
      split at ht
      next before total ec q rest hf =>
        split_ifs at ht with hidle
        cases ht
        have hok := h.finish f
        rw [hf] at hok
        obtain ⟨prev, start, cur, hround⟩ := hok
        exact h.set ⟨_, _, _, hround.visit hidle⟩
      next => cases ht
    | endRound f readerFirst =>
      simp only [step] at ht
      split at ht
      next before total ec hf =>
        have hok := h.finish f
        rw [hf] at hok
        obtain ⟨prev, start, cur, hround⟩ := hok
        split_ifs at ht with heq
        · cases ht
          subst heq
          have hfin : FinishOk s (.returned before) := hround.finished
          exact h.set hfin
        · cases ht
          have hnext := Round.begin h.good readerFirst hround.returned
            (fun q => hround.cur_le q (by simp)) (fun q => hround.idle q (by simp))
          rw [← hround.ec_eq] at hnext
          exact h.set ⟨_, _, _, hnext⟩
      next => cases ht
    | _ => cases hkind
  · refine h.change hchange fun f => ?_
    rw [change_finish hchange hkind]
    exact h.finish f

theorem run_finishInv {as : List (Action cfg)}
    (h : Transition.run step (init cfg) as = some s) : FinishInv s :=
  Transition.run_invariant (fun _ _ _ hs ht => step_finishInv hs ht) init_finishInv h

def Finish.before : Finish cfg → Option (List Job)
  | .idle => none
  | .running before .. | .returned before => some before

/-- One call of `finish` goes on, and waits for the same jobs. -/
lemma step_finish (h : step s a = some t)
    (hkind : a.kind = .finish) : ∃ g fin, t = setFinish s g fin ∧
      (∀ before, s.finish g ≠ .returned before) ∧
      ∀ before, (s.finish g).before = some before → fin.before = some before := by
  cases a with
  | startFinish g readerFirst =>
    simp only [step] at h
    split at h
    next hg => exact ⟨g, _, (Option.some.inj h).symm, by simp [hg], by simp [hg, Finish.before]⟩
    next => cases h
  | visit g =>
    simp only [step] at h
    split at h
    next hg =>
      split_ifs at h
      exact ⟨g, _, (Option.some.inj h).symm, by simp [hg], by simp [hg, Finish.before]⟩
    next => cases h
  | endRound g readerFirst =>
    simp only [step] at h
    split at h
    next hg =>
      split_ifs at h
      all_goals exact ⟨g, _, (Option.some.inj h).symm, by simp [hg], by simp [hg, Finish.before]⟩
    next => cases h
  | _ => cases hkind

lemma step_before (h : step s a = some t)
    {before : List Job} (hf : (s.finish f).before = some before) :
    (t.finish f).before = some before := by
  by_cases hkind : a.kind = .finish
  · obtain ⟨g, fin, rfl, -, hbefore⟩ := step_finish h hkind
    simp only [setFinish, update_apply]
    split_ifs with heq
    · rw [heq] at hf
      exact hbefore before hf
    · exact hf
  · rw [change_finish (step_change h) hkind]
    exact hf

lemma startFinish_before {readerFirst : Bool} (h : step s (.startFinish f readerFirst) = some t) :
    (t.finish f).before = some (returnedCalls s) := by
  simp only [step] at h
  split at h
  next =>
    cases h
    simp [setFinish, Finish.before]
  next => cases h

lemma step_returned (h : step s a = some t)
    {before : List Job} (hf : s.finish f = .returned before) : t.finish f = .returned before := by
  by_cases hkind : a.kind = .finish
  · obtain ⟨g, fin, rfl, hreturned, -⟩ := step_finish h hkind
    have hne : f ≠ g := by
      rintro rfl
      exact hreturned before hf
    simp only [setFinish, update_of_ne hne]
    exact hf
  · rw [change_finish (step_change h) hkind]
    exact hf

/-- Jobs of one shard run one at a time and complete in the order of their calls, each of
them once. As long as a job has not completed some thread can go on, and without new calls
of the clients the threads go on only finitely often. When `finish` has returned, the jobs
that were enqueued before its call have completed, and all jobs that they have enqueued. -/
theorem ordered_and_completed (cfg : Config) (as : List (Action cfg)) (s : State cfg)
    (h : Transition.run step (init cfg) as = some s) :
    (∀ q q' task task', (s.phase (.inl q)).task = some task →
      (s.phase (.inl q')).task = some task' →
      task.job.shard cfg = task'.job.shard cfg → q = q') ∧
    (∀ sh : Shard cfg, jobsOf sh s.spool.completed <+: jobsOf sh s.spool.enqueued) ∧
    s.spool.completed.Nodup ∧
    (∀ bs t, (∀ b ∈ bs, b.kind ≠ .call) → Transition.run step s bs = some t →
      workSteps bs ≤ workLeft s ∧ ((∀ b : Action cfg, b.kind = .work → step t b = none) →
          ∀ job ∈ t.spool.enqueued, job ∈ t.spool.completed)) ∧
    ∀ f before, s.finish f = .returned before → ∀ job ∈ before, ∀ child,
      Descends s job child → child ∈ s.spool.completed := by
  have hs := run_finishInv h
  refine ⟨fun q q' task task' hq hq' => hs.good.inv.exclusive hq hq',
    fun sh => Spool.completed_isPrefix hs.good.inv.spool sh,
    Spool.completed_nodup hs.good.inv.spool, fun bs t hbs ht => ⟨?_, fun hstuck job hjob => ?_⟩,
    fun f before hf job hjob child hchild => ?_⟩
  · have hle := workSteps_le hbs ht
    omega
  · have htgood : Good t :=
      Transition.run_invariant (fun _ _ _ hs ht => change_good hs (step_change ht)) hs.good ht
    exact completed_of_stuck htgood hstuck hjob
  · have hok := hs.finish f
    rw [hf] at hok
    exact Settled.descends hok hjob hchild

def oneShard : Config := ⟨1, 1, 0, 1, Nat.one_pos, Nat.one_pos⟩

/-- A read job that enqueues a flush job and is run twice; then `finish` is called. -/
def finishRun : List (Action oneShard) :=
  let client : Fin oneShard.clients := ⟨0, by decide⟩
  let reader : Queue oneShard := reader oneShard 0
  let writer : Queue oneShard := writer oneShard 0
  [.enqueue client .read 0 (.enqueue .flush 0 .done (.reschedule .done)), .advance (.inr client),
    .advance (.inr client), .take reader, .execute reader, .execute reader, .endJob reader,
    .take reader, .startFinish 0 true, .execute reader, .next reader, .advance (.inl reader),
    .advance (.inl reader), .endJob reader, .visit 0, .take writer, .execute writer, .next writer,
    .endJob writer, .visit 0, .endRound 0 false, .visit 0, .visit 0, .endRound 0 true]

theorem finishRun_returns : ∃ s before, Transition.run step (init oneShard) finishRun = some s ∧
    s.finish 0 = .returned before ∧ before.map Job.id = [0, 1] ∧
    ∀ job ∈ before, ∀ child, Descends s job child → child ∈ s.spool.completed := by
  refine ⟨_, _, rfl, rfl, by decide +kernel, ?_⟩
  exact (ordered_and_completed oneShard finishRun _ rfl).2.2.2.2 0 _ rfl

/-- At most one thread is in the section of a shard, and no wake-up is lost. -/
theorem no_wakeup_lost (cfg : Config) (as : List (Action cfg)) : Transition.Always step (fun s =>
    (∀ sh, calls s.phase sh = (s.locked sh).toNat) ∧
      ∀ q, s.phase (.inl q) = .waiting → s.queue q ≠ [] → ∃ th caller task,
        s.phase th = .calling caller ⟨task, some true⟩ ∧ task.job.queue cfg = q) (init cfg) as :=
  Transition.always_of_invariant (fun _ hs => ⟨hs.locks, hs.wake⟩)
    (fun _ _ _ hs ht => change_good hs (step_change ht)) init_good

end HybridCache.OrderedScheduler

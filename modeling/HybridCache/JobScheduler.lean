import HybridCache.Transition

/-!
# Jobs of a scheduler and the jobs spooled per shard

Both schedulers of the cache accept jobs with a type and a key. The job of a key is
enqueued to a shard, and each shard has at most one job at a time with the threads; the
others are spooled in the order of their calls.

A job is given by what it does when it runs: the jobs it enqueues, how often it asks to be
run again, and that it ends. A scheduler does not look into it.
-/
namespace HybridCache.JobScheduler

open Function List

inductive JobType
  | read
  | write
  | reclaim
  | flush
  deriving DecidableEq, Repr

/-- What a job does from some point on. After `reschedule` the next execution begins. -/
inductive Code
  | done
  | reschedule (rest : Code)
  | enqueue (type : JobType) (key : ℕ) (body rest : Code)
  deriving DecidableEq, Repr

/-- A bound for the steps of a job, of the jobs it enqueues, and of the scheduler for them. -/
def Code.weight : Code → ℕ
  | .done => 1
  | .reschedule rest => rest.weight + 3
  | .enqueue _ _ body rest => body.weight + rest.weight + 6

/-- A call of `enqueueWithKey`. The number counts the calls, and the parent is the job that
has made the call. -/
structure Job where
  id : ℕ
  type : JobType
  key : ℕ
  parent : Option ℕ
  deriving DecidableEq, Repr

structure Task where
  job : Job
  code : Code
  deriving DecidableEq, Repr

structure Config where
  readerThreads : ℕ
  writerThreads : ℕ
  numShardsPower : ℕ
  /-- The threads that call the scheduler from outside. -/
  clients : ℕ
  readerThreads_pos : 0 < readerThreads
  writerThreads_pos : 0 < writerThreads

def Config.numShards (cfg : Config) : ℕ := 2 ^ cfg.numShardsPower

abbrev Shard (cfg : Config) := Fin cfg.numShards

/-- Each thread of the two pools has a queue. -/
abbrev Queue (cfg : Config) := Fin cfg.readerThreads ⊕ Fin cfg.writerThreads

variable {cfg : Config}

def shardOf (cfg : Config) (key : ℕ) : Shard cfg :=
  ⟨key % cfg.numShards, Nat.mod_lt _ (Nat.two_pow_pos _)⟩

def reader (cfg : Config) (key : ℕ) : Queue cfg :=
  .inl ⟨key % cfg.readerThreads, Nat.mod_lt _ cfg.readerThreads_pos⟩

def writer (cfg : Config) (key : ℕ) : Queue cfg :=
  .inr ⟨key % cfg.writerThreads, Nat.mod_lt _ cfg.writerThreads_pos⟩

def Job.shard (cfg : Config) (job : Job) : Shard cfg := shardOf cfg job.key

def Job.queue (cfg : Config) (job : Job) : Queue cfg :=
  match job.type with
  | .read => reader cfg job.key
  | .write | .reclaim | .flush => writer cfg job.key

/-! ## Spool -/

/-- The fields that the mutexes of the shards protect. The history of the jobs is kept
along with them: `active` is the job that has been taken from the shard and has not
completed. -/
structure Spool (cfg : Config) where
  shouldSpool : Shard cfg → Bool
  pending : Shard cfg → List Task
  active : Shard cfg → Option Job
  enqueued : List Job
  completed : List Job

def Spool.init (cfg : Config) : Spool cfg := ⟨fun _ => false, fun _ => [], fun _ => none, [], []⟩

def Spool.newJob (sp : Spool cfg) (type : JobType) (key : ℕ) (parent : Option ℕ) : Job :=
  ⟨sp.enqueued.length, type, key, parent⟩

/-- `enqueueWithKey` when the shard has a job already. -/
def Spool.spool (sp : Spool cfg) (task : Task) : Spool cfg :=
  { sp with
    pending := update sp.pending (task.job.shard cfg)
      (sp.pending (task.job.shard cfg) ++ [task])
    enqueued := sp.enqueued ++ [task.job] }

/-- `enqueueWithKey` when the task is scheduled at once. -/
def Spool.start (sp : Spool cfg) (task : Task) : Spool cfg :=
  { sp with
    shouldSpool := update sp.shouldSpool (task.job.shard cfg) true
    active := update sp.active (task.job.shard cfg) (some task.job)
    enqueued := sp.enqueued ++ [task.job] }

/-- The function of the job has returned `Done`. -/
def Spool.complete (sp : Spool cfg) (job : Job) : Spool cfg :=
  { sp with
    active := update sp.active (job.shard cfg) none
    completed := sp.completed ++ [job] }

def Spool.close (sp : Spool cfg) (sh : Shard cfg) : Spool cfg :=
  { sp with shouldSpool := update sp.shouldSpool sh false }

def Spool.next (sp : Spool cfg) (sh : Shard cfg) (task : Task) (rest : List Task) : Spool cfg :=
  { sp with
    pending := update sp.pending sh rest
    active := update sp.active sh (some task.job) }

def jobsOf (sh : Shard cfg) (jobs : List Job) : List Job :=
  jobs.filter fun job => job.shard cfg = sh

@[simp] lemma jobsOf_append (sh : Shard cfg) (l l' : List Job) :
    jobsOf sh (l ++ l') = jobsOf sh l ++ jobsOf sh l' := List.filter_append ..

variable {job : Job} {sh : Shard cfg}

lemma jobsOf_self (h : job.shard cfg = sh) :
    jobsOf sh [job] = [job] := by simp [jobsOf, h]

lemma jobsOf_other (h : job.shard cfg ≠ sh) :
    jobsOf sh [job] = [] := by simp [jobsOf, h]

/-- The jobs of a shard complete in the order of their calls: first come the completed
ones, then the active one and then the pending ones. -/
structure Spool.Inv (sp : Spool cfg) : Prop where
  order : ∀ sh, jobsOf sh sp.enqueued =
    jobsOf sh sp.completed ++ (sp.active sh).toList ++ (sp.pending sh).map Task.job
  idle : ∀ sh, sp.shouldSpool sh = false → sp.active sh = none ∧ sp.pending sh = []
  ids : sp.enqueued.map Job.id = List.range sp.enqueued.length

namespace Spool
variable {sp : Spool cfg}

lemma init_inv : (Spool.init cfg).Inv := ⟨fun _ => rfl, fun _ _ => ⟨rfl, rfl⟩, rfl⟩

variable {job : Job} {task : Task} {sh : Shard cfg}

section
variable (hinv : sp.Inv)
include hinv

lemma ids_snoc (hid : job.id = sp.enqueued.length) :
    (sp.enqueued ++ [job]).map Job.id = List.range (sp.enqueued ++ [job]).length := by
  simp [hinv.ids, hid, range_succ]

lemma spool_inv (hid : task.job.id = sp.enqueued.length)
    (hspool : sp.shouldSpool (task.job.shard cfg) = true) : (sp.spool task).Inv := by
  refine ⟨fun sh => ?_, fun sh hsh => ?_, ids_snoc hinv hid⟩
  · have hold := hinv.order sh
    by_cases h : task.job.shard cfg = sh
    · subst h
      simp [Spool.spool, jobsOf_self, hold]
    · simp [Spool.spool, jobsOf_other h, update_of_ne (Ne.symm h), hold]
  · have hne : sh ≠ task.job.shard cfg := by
      rintro rfl
      simp [Spool.spool, hspool] at hsh
    simp only [Spool.spool, update_of_ne hne]
    exact hinv.idle sh hsh

lemma start_inv (hid : task.job.id = sp.enqueued.length)
    (hspool : sp.shouldSpool (task.job.shard cfg) = false) : (sp.start task).Inv := by
  obtain ⟨hactive, hpending⟩ := hinv.idle _ hspool
  refine ⟨fun sh => ?_, fun sh hsh => ?_, ids_snoc hinv hid⟩
  · have hold := hinv.order sh
    by_cases h : task.job.shard cfg = sh
    · subst h
      simp [Spool.start, jobsOf_self, hold, hactive, hpending]
    · simp [Spool.start, jobsOf_other h, update_of_ne (Ne.symm h), hold]
  · have hne : sh ≠ task.job.shard cfg := by
      rintro rfl
      simp [Spool.start] at hsh
    simp only [Spool.start, update_of_ne hne] at hsh ⊢
    exact hinv.idle sh hsh

lemma complete_inv (hactive : sp.active (job.shard cfg) = some job) :
    (sp.complete job).Inv := by
  refine ⟨fun sh => ?_, fun sh hsh => ?_, hinv.ids⟩
  · have hold := hinv.order sh
    by_cases h : job.shard cfg = sh
    · subst h
      simp [Spool.complete, jobsOf_self, hold, hactive]
    · simp [Spool.complete, jobsOf_other h, update_of_ne (Ne.symm h), hold]
  · obtain ⟨hnone, hpending⟩ := hinv.idle sh hsh
    refine ⟨?_, hpending⟩
    simp only [Spool.complete, update_apply]
    split_ifs
    · rfl
    · exact hnone

lemma close_inv (hactive : sp.active sh = none)
    (hpending : sp.pending sh = []) : (sp.close sh).Inv := by
  refine ⟨hinv.order, fun sh' hsh => ?_, hinv.ids⟩
  by_cases h : sh' = sh
  · subst h
    exact ⟨hactive, hpending⟩
  · simp only [Spool.close, update_of_ne h] at hsh
    exact hinv.idle sh' hsh

end

lemma next_inv {rest : List Task} (hinv : sp.Inv)
    (hactive : sp.active sh = none) (hpending : sp.pending sh = task :: rest) :
    (sp.next sh task rest).Inv := by
  refine ⟨fun sh' => ?_, fun sh' hsh => ?_, hinv.ids⟩
  · have hold := hinv.order sh'
    by_cases h : sh' = sh
    · subst h
      simp [Spool.next, hold, hactive, hpending]
    · simp [Spool.next, update_of_ne h, hold]
  · by_cases h : sh' = sh
    · subst h
      have := (hinv.idle sh' hsh).2
      rw [hpending] at this
      cases this
    · simp only [Spool.next, update_of_ne h]
      exact hinv.idle sh' hsh

section
variable (hinv : sp.Inv)
include hinv

lemma mem_order : job ∈ sp.enqueued ↔ job ∈ sp.completed ∨ sp.active (job.shard cfg) = some job ∨
      ∃ task ∈ sp.pending (job.shard cfg), task.job = job := by
  have hmem : job ∈ sp.enqueued ↔ job ∈ jobsOf (job.shard cfg) sp.enqueued := by simp [jobsOf]
  rw [hmem, hinv.order]
  simp [jobsOf, eq_comm]

lemma shard_of_pending (h : task ∈ sp.pending sh) : task.job.shard cfg = sh := by
  have hmem : task.job ∈ jobsOf sh sp.enqueued := by
    rw [hinv.order]
    exact mem_append_right _ (mem_map_of_mem h)
  simpa [jobsOf] using (mem_filter.1 hmem).2

lemma shard_of_active (h : sp.active sh = some job) : job.shard cfg = sh := by
  have hmem : job ∈ jobsOf sh sp.enqueued := by
    rw [hinv.order, h]
    simp
  simpa [jobsOf] using (mem_filter.1 hmem).2

lemma enqueued_nodup : sp.enqueued.Nodup := by
  apply List.Nodup.of_map Job.id
  rw [hinv.ids]
  exact nodup_range

lemma id_lt (h : job ∈ sp.enqueued) : job.id < sp.enqueued.length := by
  have hmem := mem_map_of_mem (f := Job.id) h
  rwa [hinv.ids, mem_range] at hmem

lemma eq_of_id {i j : Job} (hi : i ∈ sp.enqueued) (hj : j ∈ sp.enqueued)
    (h : i.id = j.id) : i = j := by
  have hnodup : (sp.enqueued.map Job.id).Nodup := by
    rw [hinv.ids]
    exact nodup_range
  exact inj_on_of_nodup_map hnodup hi hj h

lemma not_completed_of_active (h : sp.active (job.shard cfg) = some job) : job ∉ sp.completed := by
  intro hmem
  have hnodup := (enqueued_nodup hinv).filter fun j => j.shard cfg = job.shard cfg
  change (jobsOf (job.shard cfg) sp.enqueued).Nodup at hnodup
  rw [hinv.order, h, append_assoc, nodup_append] at hnodup
  exact hnodup.2.2 job (by simp [jobsOf, hmem]) job (by simp) rfl

lemma completed_nodup : sp.completed.Nodup := by
  rw [nodup_iff_count_le_one]
  intro job
  have hcount : ∀ l : List Job, l.count job = (jobsOf (job.shard cfg) l).count job := fun l => by
    rw [jobsOf, count_filter]
    simp
  have hle : (jobsOf (job.shard cfg) sp.completed).count job ≤
      (jobsOf (job.shard cfg) sp.enqueued).count job := by
    rw [hinv.order, append_assoc, count_append]
    exact Nat.le_add_right _ _
  rw [hcount]
  rw [← hcount sp.enqueued] at hle
  exact le_trans hle (nodup_iff_count_le_one.1 (enqueued_nodup hinv) job)

/-- The completed jobs of a shard are the first ones enqueued. -/
lemma completed_isPrefix (sh : Shard cfg) : jobsOf sh sp.completed <+: jobsOf sh sp.enqueued := by
  rw [hinv.order, append_assoc]
  exact prefix_append _ _

end

end Spool

/-! ## Where the jobs are -/

def jobCopies (job job' : Job) : ℕ := if job' = job then 1 else 0

def listCopies (job : Job) (tasks : List Task) : ℕ :=
  (tasks.map fun task => jobCopies job task.job).sum

@[simp] lemma listCopies_nil (job : Job) : listCopies job [] = 0 := rfl

@[simp] lemma listCopies_cons (job : Job) (task : Task) (l : List Task) :
    listCopies job (task :: l) = jobCopies job task.job + listCopies job l := rfl

@[simp] lemma listCopies_append (job : Job) (l l' : List Task) :
    listCopies job (l ++ l') = listCopies job l + listCopies job l' := by
  simp [listCopies]

def shardCopies (sh : Shard cfg) (job : Job) : ℕ := if job.shard cfg = sh then 1 else 0

/-- The threads and queues of a scheduler hold exactly the active jobs of the shards, each of
them once. A shard that spools has an active job, or a thread that has completed one and
will schedule the next. -/
structure Held (sp : Spool cfg) (copies : Job → ℕ) (finishing : Shard cfg → ℕ) : Prop where
  copies_eq : ∀ job, copies job = if sp.active (job.shard cfg) = some job then 1 else 0
  finishing_eq : ∀ sh, finishing sh + (sp.active sh).isSome.toNat = (sp.shouldSpool sh).toNat

namespace Held
variable {sp : Spool cfg} {copies copies' : Job → ℕ} {finishing finishing' : Shard cfg → ℕ}
  {job : Job}

section
variable (h : Held sp copies finishing)
include h

lemma active_of_pos (hpos : 0 < copies job) : sp.active (job.shard cfg) = some job := by
  by_contra hne
  rw [h.copies_eq, if_neg hne] at hpos
  omega

lemma le_one (job : Job) : copies job ≤ 1 := by
  rw [h.copies_eq]
  split_ifs <;> omega

variable {sh : Shard cfg} {task : Task}

/-- While a thread is about to schedule the next job of a shard, none is active. -/
lemma inactive_of_finishing
    (hpos : 0 < finishing sh) : sp.active sh = none ∧ sp.shouldSpool sh = true := by
  have hsum := h.finishing_eq sh
  cases hactive : sp.active sh <;> cases hspool : sp.shouldSpool sh <;>
    simp [hactive, hspool] at hsum ⊢ <;> omega

lemma move {sp' : Spool cfg} (hactive : sp'.active = sp.active)
    (hspool : sp'.shouldSpool = sp.shouldSpool) (hcopies : ∀ job, copies' job = copies job)
    (hfinishing : ∀ sh, finishing' sh = finishing sh) : Held sp' copies' finishing' := by
  refine ⟨fun job => ?_, fun sh => ?_⟩
  · rw [hcopies, hactive, h.copies_eq]
  · rw [hfinishing, hspool, hactive]
    exact h.finishing_eq sh

lemma start (hspool : sp.shouldSpool (task.job.shard cfg) = false)
    (hcopies : ∀ job, copies' job = copies job + jobCopies job task.job)
    (hfinishing : ∀ sh, finishing' sh = finishing sh) :
    Held (sp.start task) copies' finishing' := by
  have hactive : sp.active (task.job.shard cfg) = none := by
    have hsum := h.finishing_eq (task.job.shard cfg)
    cases ha : sp.active (task.job.shard cfg)
    · rfl
    · simp [ha, hspool] at hsum
  refine ⟨fun job => ?_, fun sh => ?_⟩
  · rw [hcopies, h.copies_eq]
    simp only [Spool.start, update_apply, jobCopies]
    by_cases hjob : task.job = job
    · subst hjob
      simp [hactive]
    · by_cases hsh : job.shard cfg = task.job.shard cfg <;> simp [hsh, hactive, hjob]
  · have hold := h.finishing_eq sh
    rw [hfinishing]
    simp only [Spool.start, update_apply] at hold ⊢
    by_cases hsh : sh = task.job.shard cfg
    · subst hsh
      simpa [hactive, hspool] using hold
    · simpa [hsh] using hold

lemma complete (hactive : sp.active (job.shard cfg) = some job)
    (hcopies : ∀ job', copies' job' + jobCopies job' job = copies job')
    (hfinishing : ∀ sh, finishing' sh = finishing sh + shardCopies sh job) :
    Held (sp.complete job) copies' finishing' := by
  refine ⟨fun job' => ?_, fun sh => ?_⟩
  · have hsum := hcopies job'
    rw [h.copies_eq] at hsum
    simp only [Spool.complete, update_apply, jobCopies] at hsum ⊢
    by_cases hjob : job = job'
    · subst hjob
      simpa [hactive] using hsum
    · by_cases hsh : job'.shard cfg = job.shard cfg
      · simpa [hsh, hactive, hjob] using hsum
      · simpa [hsh, hjob] using hsum
  · have hold := h.finishing_eq sh
    rw [hfinishing]
    simp only [Spool.complete, update_apply, shardCopies] at hold ⊢
    by_cases hsh : sh = job.shard cfg
    · subst hsh
      simpa [hactive] using hold
    · simpa [hsh, Ne.symm hsh] using hold

lemma close (hpos : 0 < finishing (job.shard cfg)) (hcopies : ∀ job', copies' job' = copies job')
    (hfinishing : ∀ sh, finishing' sh + shardCopies sh job = finishing sh) :
    Held (sp.close (job.shard cfg)) copies' finishing' := by
  obtain ⟨hactive, hspool⟩ := h.inactive_of_finishing hpos
  refine ⟨fun job' => by rw [hcopies]; exact h.copies_eq job', fun sh => ?_⟩
  have hold := h.finishing_eq sh
  rw [← hfinishing] at hold
  simp only [Spool.close, update_apply, shardCopies] at hold ⊢
  by_cases hsh : sh = job.shard cfg
  · subst hsh
    simpa [hactive, hspool] using hold
  · simpa [hsh, Ne.symm hsh] using hold

lemma next {rest : List Task}
    (hpos : 0 < finishing (job.shard cfg)) (hshard : task.job.shard cfg = job.shard cfg)
    (hcopies : ∀ job', copies' job' = copies job' + jobCopies job' task.job)
    (hfinishing : ∀ sh, finishing' sh + shardCopies sh job = finishing sh) :
    Held (sp.next (job.shard cfg) task rest) copies' finishing' := by
  obtain ⟨hactive, hspool⟩ := h.inactive_of_finishing hpos
  refine ⟨fun job' => ?_, fun sh => ?_⟩
  · rw [hcopies, h.copies_eq]
    simp only [Spool.next, update_apply, jobCopies]
    by_cases hjob : task.job = job'
    · subst hjob
      simp [hshard, hactive]
    · by_cases hsh : job'.shard cfg = job.shard cfg <;> simp [hsh, hactive, hjob]
  · have hold := h.finishing_eq sh
    rw [← hfinishing] at hold
    simp only [Spool.next, update_apply, shardCopies] at hold ⊢
    by_cases hsh : sh = job.shard cfg
    · subst hsh
      simpa [hactive, hspool] using hold
    · simpa [hsh, Ne.symm hsh] using hold

lemma spool_of_pending (hinv : sp.Inv)
    (hpending : sp.pending sh ≠ []) (hfinishing : finishing sh = 0) :
    ∃ job, sp.active sh = some job := by
  have hsum := h.finishing_eq sh
  cases hspool : sp.shouldSpool sh with
  | false => exact absurd (hinv.idle sh hspool).2 hpending
  | true =>
    cases hactive : sp.active sh with
    | none => simp [hspool, hactive, hfinishing] at hsum
    | some job => exact ⟨job, rfl⟩

lemma completed_of_zero (hinv : sp.Inv)
    (hcopies : ∀ job, copies job = 0) (hfinishing : ∀ sh, finishing sh = 0)
    (hjob : job ∈ sp.enqueued) : job ∈ sp.completed := by
  have hinactive : ∀ job' : Job, sp.active (job'.shard cfg) ≠ some job' := by
    intro job' hactive
    have hone := h.copies_eq job'
    rw [hcopies, if_pos hactive] at hone
    cases hone
  rcases (Spool.mem_order hinv).1 hjob with hdone | hactive | ⟨task, htask, -⟩
  · exact hdone
  · exact absurd hactive (hinactive job)
  · obtain ⟨job', hactive⟩ := h.spool_of_pending hinv (ne_nil_of_mem htask) (hfinishing _)
    rw [← Spool.shard_of_active hinv hactive] at hactive
    exact absurd hactive (hinactive job')

end

end Held

end HybridCache.JobScheduler

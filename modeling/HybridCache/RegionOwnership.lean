import HybridCache.RegionManager

/-!
# Who owns a region

Every region has one owner: the eviction policy, the clean list, a region allocator,
a flush or a reclaim. Reclaims are scheduled from the length of the clean list and
the number of outstanding reclaims alone. A scheduled reclaim finds a victim if,
whenever reclaims are scheduled, the regions in use leave enough others.
-/
namespace HybridCache.RegionManager

open List Transition

variable {cfg : Config} {ι : Type}

def RegionAllocator.holds (rid : RegionId cfg) : RegionAllocator cfg → ℕ
  | .idle => 0
  | .taking q => if q = rid then 1 else 0
  | .current q => if q = rid then 1 else 0

def RegionAllocator.busy : RegionAllocator cfg → ℕ
  | .idle => 0
  | _ => 1

section Allocators
variable (q rid : RegionId cfg)

@[simp] lemma RegionAllocator.holds_idle : (idle : RegionAllocator cfg).holds rid = 0 := rfl

@[simp] lemma RegionAllocator.holds_taking : (taking q).holds rid = if q = rid then 1 else 0 := rfl

@[simp] lemma RegionAllocator.holds_current :
    (current q).holds rid = if q = rid then 1 else 0 := rfl

@[simp] lemma RegionAllocator.busy_idle : (idle : RegionAllocator cfg).busy = 0 := rfl

@[simp] lemma RegionAllocator.busy_taking : (taking q).busy = 1 := rfl

@[simp] lemma RegionAllocator.busy_current : (current q).busy = 1 := rfl

end Allocators

def flushesOf (jobs : List (RegionId cfg × Phase)) (rid : RegionId cfg) : ℕ :=
  jobs.countP fun j => decide (j.1 = rid) && !j.2.isReclaim

def reclaimsOf (jobs : List (RegionId cfg × Phase)) (rid : RegionId cfg) : ℕ :=
  jobs.countP fun j => decide (j.1 = rid) && j.2.isReclaim

def jobsOf (jobs : List (RegionId cfg × Phase)) (rid : RegionId cfg) : ℕ :=
  jobs.countP fun j => decide (j.1 = rid)

def runningReclaims (jobs : List (RegionId cfg × Phase)) : ℕ := jobs.countP fun j => j.2.isReclaim

def pendingFlushes (jobs : List (RegionId cfg × Phase)) : ℕ := jobs.countP fun j => !j.2.isReclaim

def owners (s : State cfg ι) (rid : RegionId cfg) : ℕ :=
  s.policy.count rid + s.cleanRegions.count rid + (∑ p, (s.allocators p).holds rid) +
    jobsOf s.jobs rid

lemma countP_add_countP_not {α : Type*} (l : List α) (p q : α → Bool) :
    (l.countP fun a => p a && !q a) + (l.countP fun a => p a && q a) = l.countP p := by
  induction l with
  | nil => rfl
  | cons a l ih =>
    simp only [countP_cons]
    cases p a <;> cases q a <;> simp <;> omega

lemma flushesOf_add_reclaimsOf (jobs : List (RegionId cfg × Phase)) (rid : RegionId cfg) :
    flushesOf jobs rid + reclaimsOf jobs rid = jobsOf jobs rid :=
  countP_add_countP_not jobs (fun j => decide (j.1 = rid)) fun j => j.2.isReclaim

lemma pendingFlushes_add_runningReclaims (jobs : List (RegionId cfg × Phase)) :
    pendingFlushes jobs + runningReclaims jobs = jobs.length := by
  have h := countP_add_countP_not jobs (fun _ => true) fun j => j.2.isReclaim
  simpa [pendingFlushes, runningReclaims] using h

/-! ## Jobs that move and end -/

section Jobs
variable {jobs : List (RegionId cfg × Phase)} {rid : RegionId cfg} {old : Phase}

lemma countP_erase_job (h : (rid, old) ∈ jobs) (q : RegionId cfg × Phase → Bool) :
    (jobs.erase (rid, old)).countP q + (if q (rid, old) then 1 else 0) = jobs.countP q := by
  have hperm := (perm_cons_erase h).countP_eq q
  rw [countP_cons] at hperm
  exact hperm.symm

lemma jobsOf_erase (h : (rid, old) ∈ jobs) (r : RegionId cfg) :
    jobsOf (jobs.erase (rid, old)) r + (if rid = r then 1 else 0) = jobsOf jobs r := by
  have hc := countP_erase_job h fun j => decide (j.1 = r)
  simpa [jobsOf] using hc

lemma jobsOf_cons (r : RegionId cfg) (ph : Phase) :
    jobsOf ((rid, ph) :: jobs) r = jobsOf jobs r + (if rid = r then 1 else 0) := by
  simp [jobsOf, countP_cons]

lemma runningReclaims_erase (h : (rid, old) ∈ jobs) :
    runningReclaims (jobs.erase (rid, old)) + old.isReclaim.toNat = runningReclaims jobs := by
  have hc := countP_erase_job h fun j => j.2.isReclaim
  cases hold : old.isReclaim with
  | false | true => simpa [runningReclaims, hold] using hc

lemma runningReclaims_cons (jobs : List (RegionId cfg × Phase)) (rid : RegionId cfg) (ph : Phase) :
    runningReclaims ((rid, ph) :: jobs) = runningReclaims jobs + ph.isReclaim.toNat := by
  cases hph : ph.isReclaim with
  | false | true => simp [runningReclaims, hph]

lemma length_erase_job (h : (rid, old) ∈ jobs) :
    (jobs.erase (rid, old)).length + 1 = jobs.length := by
  have hlen := (perm_cons_erase h).length_eq
  exact hlen.symm

end Jobs

/-- The counts that every step keeps: each region has one owner, all owners together
have all regions, and the outstanding reclaims are the scheduled and the running
ones. -/
structure Owned (s : State cfg ι) : Prop where
  unique : ∀ r, owners s r = 1
  total : s.policy.length + s.cleanRegions.length + (∑ p, (s.allocators p).busy) +
    s.jobs.length = cfg.numRegions
  outstanding : s.reclaimsOutstanding = s.scheduled + runningReclaims s.jobs

lemma init_owned : Owned (init cfg ι) where
  unique r := by
    simp [owners, init, RegionAllocator.holds, jobsOf, count_eq_one_of_mem
      (nodup_finRange _) (mem_finRange r)]
  total := by simp [init, RegionAllocator.busy]
  outstanding := rfl

/-! ## Every step keeps the counts -/

section Steps
variable {s : State cfg ι}

section
variable (h : Owned s) (rid : RegionId cfg)
include h

lemma Owned.setRegion (g : Region) : Owned (setRegion s rid g) := ⟨h.unique, h.total, h.outstanding⟩

lemma Owned.detachBuffer : Owned (detachBuffer s rid) := ⟨h.unique, h.total, h.outstanding⟩

lemma Owned.resetRegion : Owned (resetRegion s rid) := ⟨h.unique, h.total, h.outstanding⟩

end

variable {rid : RegionId cfg} {p : Priority cfg}

lemma Owned.moveJob (h : Owned s) {old new : Phase}
    (hmem : (rid, old) ∈ s.jobs) (hkind : new.isReclaim = old.isReclaim) :
    Owned (moveJob s rid old new) := by
  obtain ⟨hunique, htotal, hout⟩ := h
  refine ⟨fun r => ?_, ?_, ?_⟩
  · have hr := hunique r
    have he := jobsOf_erase hmem r
    simp only [owners, RegionManager.moveJob, jobsOf_cons] at hr ⊢
    omega
  · have hl := length_erase_job hmem
    simp only [RegionManager.moveJob, length_cons]
    omega
  · have hr := runningReclaims_erase hmem
    simp only [RegionManager.moveJob, runningReclaims_cons, hkind]
    omega

/-- A flush ends and its region is tracked. -/
lemma Owned.track (h : Owned s) (hmem : (rid, .detached) ∈ s.jobs) :
    Owned { endJob s rid .detached with policy := s.policy ++ [rid] } := by
  obtain ⟨hunique, htotal, hout⟩ := h
  refine ⟨fun r => ?_, ?_, ?_⟩
  · have hr := hunique r
    have he := jobsOf_erase hmem r
    simp only [owners, endJob, count_append, count_singleton, beq_iff_eq] at hr ⊢
    omega
  · have hl := length_erase_job hmem
    simp only [endJob, length_append, length_singleton]
    omega
  · have hr := runningReclaims_erase hmem
    exact hout.trans (congrArg _ hr.symm)

lemma Owned.returnClean (h : Owned s) {reclaim : Bool} (hmem : (rid, .returning reclaim) ∈ s.jobs) :
    Owned { endJob s rid (.returning reclaim) with
      cleanRegions := s.cleanRegions ++ [rid]
      reclaimsOutstanding :=
        if reclaim then s.reclaimsOutstanding - 1 else s.reclaimsOutstanding } := by
  obtain ⟨hunique, htotal, hout⟩ := h
  refine ⟨fun r => ?_, ?_, ?_⟩
  · have hr := hunique r
    have he := jobsOf_erase hmem r
    simp only [owners, endJob, count_append, count_singleton, beq_iff_eq] at hr ⊢
    omega
  · have hl := length_erase_job hmem
    simp only [endJob, length_append, length_singleton]
    omega
  · have hr := runningReclaims_erase hmem
    simp only [endJob, Phase.isReclaim] at hr ⊢
    cases reclaim with
    | false => simpa using hout.trans (congrArg _ hr.symm)
    | true =>
      rw [Bool.toNat_true] at hr
      simp only [if_true]
      omega

lemma Owned.runJob (h : Owned s) {ph : Phase} {written : Bool}
    (hmem : (rid, ph) ∈ s.jobs) {t : State cfg ι} (ht : runJob s rid written ph = some t) :
    Owned t := by
  cases ph with
  | flushing n =>
    rw [RegionManager.runJob] at ht
    split_ifs at ht <;> cases ht
    · exact h
    · exact h.moveJob hmem rfl
    · exact (h.setRegion rid _).moveJob hmem rfl
    · exact h.moveJob hmem rfl
    · exact h.moveJob hmem rfl
  | flushed | cleanedup =>
    rw [RegionManager.runJob] at ht
    split_ifs at ht
    cases ht
    exact (h.detachBuffer rid).moveJob hmem rfl
  | failing =>
    rw [RegionManager.runJob] at ht
    split_ifs at ht
    cases ht
    exact (h.setRegion rid _).moveJob hmem rfl
  | blocked =>
    rw [RegionManager.runJob] at ht
    split_ifs at ht
    cases ht
    exact h.moveJob hmem rfl
  | detached =>
    cases ht
    exact h.track hmem
  | evicted =>
    cases ht
    exact (h.setRegion rid _).moveJob hmem rfl
  | drained =>
    cases ht
    exact h.moveJob hmem rfl
  | releasing reclaim =>
    cases ht
    have hmove := h.moveJob hmem (rfl : (Phase.resetting reclaim).isReclaim = reclaim)
    exact ⟨hmove.unique, hmove.total, hmove.outstanding⟩
  | resetting reclaim =>
    cases ht
    exact (h.resetRegion rid).moveJob hmem rfl
  | returning reclaim =>
    cases ht
    exact h.returnClean hmem

section
variable (s : State cfg ι) (p : Priority cfg) (a : RegionAllocator cfg)

lemma sum_holds_update (r : RegionId cfg) :
    (∑ q, (Function.update s.allocators p a q).holds r) + (s.allocators p).holds r =
      (∑ q, (s.allocators q).holds r) + a.holds r :=
  sum_update s.allocators (RegionAllocator.holds r) p a

lemma sum_busy_update : (∑ q, (Function.update s.allocators p a q).busy) + (s.allocators p).busy =
      (∑ q, (s.allocators q).busy) + a.busy :=
  sum_update s.allocators RegionAllocator.busy p a

end

lemma Owned.releaseRegion (h : Owned s) {rid : RegionId cfg}
    (hp : s.allocators p = .current rid) (g : Region) :
    Owned { RegionManager.setRegion s rid g with
      allocators := Function.update s.allocators p .idle
      jobs := (rid, .flushing 0) :: s.jobs } := by
  obtain ⟨hunique, htotal, hout⟩ := h
  refine ⟨fun r => ?_, ?_, ?_⟩
  · have hr := hunique r
    have hsum := sum_holds_update s p .idle r
    simp only [owners, RegionManager.setRegion, hp, RegionAllocator.holds_idle,
      RegionAllocator.holds_current, jobsOf_cons] at hsum hr ⊢
    omega
  · have hsum := sum_busy_update s p .idle
    simp only [RegionManager.setRegion, hp, RegionAllocator.busy_idle, RegionAllocator.busy_current,
      length_cons] at hsum ⊢
    omega
  · rw [runningReclaims_cons]
    exact hout

lemma Owned.schedule (h : Owned s) : Owned (schedule s) := by
  refine ⟨h.unique, h.total, ?_⟩
  have ho := h.outstanding
  simp only [RegionManager.schedule]
  omega

lemma Owned.popCleanRegion (h : Owned s) (hp : s.allocators p = .idle) :
    Owned (popCleanRegion s p) := by
  unfold RegionManager.popCleanRegion
  cases hlast : s.cleanRegions.getLast? with
  | none => exact h.schedule
  | some rid =>
    obtain ⟨hunique, htotal, hout⟩ := h
    have hclean := dropLast_append_getLast? rid hlast
    refine Owned.schedule ⟨fun r => ?_, ?_, hout⟩
    · have hr := hunique r
      have hsum := sum_holds_update s p (.taking rid) r
      rw [owners, ← hclean, count_append, count_singleton] at hr
      simp only [owners, hp, RegionAllocator.holds_idle, RegionAllocator.holds_taking,
        beq_iff_eq] at hsum hr ⊢
      omega
    · have hsum := sum_busy_update s p (.taking rid)
      rw [← hclean, length_append, length_singleton] at htotal
      simp only [hp, RegionAllocator.busy_idle, RegionAllocator.busy_taking] at hsum ⊢
      omega

lemma Owned.assignBufferToRegion (h : Owned s) {rid : RegionId cfg}
    (hp : s.allocators p = .taking rid) : Owned (assignBufferToRegion s p rid) := by
  obtain ⟨hunique, htotal, hout⟩ := h
  unfold RegionManager.assignBufferToRegion
  split_ifs with hb
  · refine ⟨fun r => ?_, ?_, hout⟩
    · have hr := hunique r
      have hsum := sum_holds_update s p .idle r
      simp only [owners, hp, RegionAllocator.holds_idle, RegionAllocator.holds_taking,
        count_append, count_singleton, beq_iff_eq] at hsum hr ⊢
      omega
    · have hsum := sum_busy_update s p .idle
      simp only [hp, RegionAllocator.busy_idle, RegionAllocator.busy_taking, length_append,
        length_singleton] at hsum ⊢
      omega
  · refine ⟨fun r => ?_, ?_, hout⟩
    · have hr := hunique r
      have hsum := sum_holds_update s p (.current rid) r
      simp only [owners, RegionManager.setRegion, hp, RegionAllocator.holds_taking,
        RegionAllocator.holds_current] at hsum hr ⊢
      omega
    · have hsum := sum_busy_update s p (.current rid)
      simp only [RegionManager.setRegion, hp, RegionAllocator.busy_taking,
        RegionAllocator.busy_current] at hsum ⊢
      omega

lemma Owned.evict (h : Owned s) (hs : 0 < s.scheduled) (hmem : rid ∈ s.policy) : Owned { s with
      policy := s.policy.erase rid
      scheduled := s.scheduled - 1
      jobs := (rid, .evicted) :: s.jobs } := by
  obtain ⟨hunique, htotal, hout⟩ := h
  have hperm := perm_cons_erase hmem
  refine ⟨fun r => ?_, ?_, ?_⟩
  · have hr := hunique r
    have hcount := hperm.count_eq r
    simp only [owners, count_cons, beq_iff_eq, jobsOf_cons] at hcount hr ⊢
    omega
  · have hlen := hperm.length_eq
    simp only [length_cons] at hlen ⊢
    omega
  · have hcons : runningReclaims ((rid, .evicted) :: s.jobs) = runningReclaims s.jobs + 1 :=
      runningReclaims_cons s.jobs rid .evicted
    simp only [hcons]
    omega

variable [DecidableEq ι]

lemma step_owned (s : State cfg ι) (a : Action cfg ι) (t : State cfg ι) (h : Owned s)
    (ht : step s a = some t) : Owned t := by
  cases a with
  | openForRead i rid seqNumber =>
    rw [step] at ht
    split_ifs at ht <;> cases ht
    · exact h
    · exact ⟨h.unique, h.total, h.outstanding⟩
  | evict rid =>
    rw [step] at ht
    split_ifs at ht with hc
    cases ht
    exact h.evict hc.1 hc.2
  | runJob rid ph written =>
    rw [step] at ht
    split_ifs at ht with hmem
    exact h.runJob hmem ht
  | releaseRegion p =>
    rw [step] at ht
    split at ht <;> cases ht
    exact h.releaseRegion ‹_› _
  | getCleanRegion p =>
    rw [step] at ht
    split at ht <;> cases ht
    exact h.popCleanRegion ‹_›
  | assignBuffer p =>
    rw [step] at ht
    split at ht <;> cases ht
    exact h.assignBufferToRegion ‹_›
  | checkSeqNumber | close | allocate =>
    rw [step] at ht
    split at ht <;> try split_ifs at ht
    all_goals cases ht
    all_goals exact ⟨h.unique, h.total, h.outstanding⟩

end Steps

/-! ## Scheduled reclaims -/

def regionsInUse (s : State cfg ι) : ℕ := (∑ p, (s.allocators p).busy) + pendingFlushes s.jobs

/-- The condition on `getCleanRegion`: if it schedules reclaims, then the clean
regions that it aims at and the regions in use, with the one that it takes, are not
more than all regions. -/
def StepLeavesVictims (s : State cfg ι) : Action cfg ι → Prop
  | .getCleanRegion _ =>
    s.cleanRegions.length - 1 + s.reclaimsOutstanding < cfg.cleanRegionsPool →
      cfg.cleanRegionsPool + regionsInUse s + min 1 s.cleanRegions.length ≤ cfg.numRegions
  | _ => True

instance (s : State cfg ι) (a : Action cfg ι) : Decidable (StepLeavesVictims s a) := by
  induction a using Action.casesOn <;> unfold StepLeavesVictims <;> infer_instance

/-- There is a victim for every scheduled reclaim. -/
def Victims (s : State cfg ι) : Prop := Owned s ∧ s.scheduled ≤ s.policy.length

lemma schedule_le (s : State cfg ι) (h : Owned s) (hs : s.scheduled ≤ s.policy.length)
    (hroom : s.cleanRegions.length + s.reclaimsOutstanding < cfg.cleanRegionsPool →
      cfg.cleanRegionsPool + regionsInUse s ≤ cfg.numRegions) :
    (schedule s).scheduled ≤ (schedule s).policy.length := by
  have ht := h.total
  have ho := h.outstanding
  have hjobs := pendingFlushes_add_runningReclaims s.jobs
  change s.scheduled + newScheduled cfg s.cleanRegions.length s.reclaimsOutstanding ≤
    s.policy.length
  rw [newScheduled]
  split_ifs with hlt
  · have := hroom hlt
    rw [regionsInUse] at this
    omega
  · omega

lemma popCleanRegion_le {s : State cfg ι} (h : Owned s) (hs : s.scheduled ≤ s.policy.length)
    {p : Priority cfg} (hp : s.allocators p = .idle)
    (hroom : StepLeavesVictims s (.getCleanRegion p)) :
    (popCleanRegion s p).scheduled ≤ (popCleanRegion s p).policy.length := by
  have hpop := h.popCleanRegion hp
  unfold popCleanRegion at hpop ⊢
  cases hlast : s.cleanRegions.getLast? with
  | none =>
    have hnil : s.cleanRegions = [] := getLast?_eq_none_iff.1 hlast
    rw [StepLeavesVictims, hnil] at hroom
    refine schedule_le s h hs ?_
    rw [hnil]
    intro hlt
    simpa using hroom (by simpa using hlt)
  | some rid =>
    have hclean := dropLast_append_getLast? rid hlast
    have hlen : s.cleanRegions.length = s.cleanRegions.dropLast.length + 1 := by
      conv_lhs => rw [← hclean]
      simp
    have hsum := sum_busy_update s p (.taking rid)
    rw [hlast] at hpop
    refine schedule_le _ ⟨hpop.unique, hpop.total, h.outstanding⟩ hs ?_
    dsimp only [regionsInUse]
    rw [StepLeavesVictims, hlen, regionsInUse] at hroom
    simp only [RegionAllocator.busy] at hsum hroom ⊢
    intro hlt
    omega

/-- A job changes neither the scheduled reclaims nor, except by tracking, the policy. -/
lemma runJob_victims {s t : State cfg ι} {rid : RegionId cfg} {ph : Phase} {written : Bool}
    (ht : runJob s rid written ph = some t) :
    t.scheduled = s.scheduled ∧ s.policy.length ≤ t.policy.length := by
  cases ph with
  | flushing n =>
    rw [runJob] at ht
    split_ifs at ht <;> rw [← Option.some.inj ht] <;> exact ⟨rfl, le_rfl⟩
  | detached =>
    cases ht
    refine ⟨rfl, ?_⟩
    rw [length_append]
    omega
  | flushed | failing | cleanedup | blocked =>
    rw [runJob] at ht
    split_ifs at ht
    cases ht
    exact ⟨rfl, le_rfl⟩
  | evicted | drained | releasing | resetting | returning =>
    cases ht
    exact ⟨rfl, le_rfl⟩

variable [DecidableEq ι]

lemma step_victims (s : State cfg ι) (a : Action cfg ι) (t : State cfg ι)
    (hok : StepLeavesVictims s a) (h : Victims s) (ht : step s a = some t) : Victims t := by
  obtain ⟨hown, hs⟩ := h
  refine ⟨step_owned s a t hown ht, ?_⟩
  cases a with
  | openForRead i rid seqNumber =>
    rw [step] at ht
    split_ifs at ht <;> rw [← Option.some.inj ht] <;> exact hs
  | getCleanRegion p =>
    rw [step] at ht
    split at ht <;> cases ht
    exact popCleanRegion_le hown hs ‹_› hok
  | assignBuffer p =>
    rw [step] at ht
    split at ht <;> cases ht
    unfold assignBufferToRegion
    split_ifs <;> exact hs
  | evict rid =>
    rw [step] at ht
    split_ifs at ht with hc
    cases ht
    have hlen := (perm_cons_erase hc.2).length_eq
    rw [length_cons] at hlen
    dsimp only
    omega
  | runJob rid ph written =>
    rw [step] at ht
    split_ifs at ht
    obtain ⟨hsched, hpolicy⟩ := runJob_victims ht
    omega
  | checkSeqNumber | close | allocate | releaseRegion =>
    rw [step] at ht
    split at ht <;> try split_ifs at ht
    all_goals cases ht
    all_goals exact hs

/-- In every reachable state a region is tracked, clean, held by one allocator, held by
one pending flush or held by one running reclaim, and only one of these. If every
`getCleanRegion` of the run meets the condition, then a scheduled reclaim finds a
region in the policy. -/
theorem region_ownership (cfg : Config) (ι : Type) [DecidableEq ι] (as : List (Action cfg ι))
    (s : State cfg ι) (hrun : Transition.run step (init cfg ι) as = some s) :
    (∀ rid, s.policy.count rid + s.cleanRegions.count rid + (∑ p, (s.allocators p).holds rid) +
      flushesOf s.jobs rid + reclaimsOf s.jobs rid = 1) ∧
    (Transition.Meets step StepLeavesVictims (init cfg ι) as →
      0 < s.scheduled → s.policy ≠ []) := by
  constructor
  · intro rid
    have hown : Owned s := run_invariant step_owned init_owned hrun
    have hr := hown.unique rid
    have hjobs := flushesOf_add_reclaimsOf s.jobs rid
    rw [owners] at hr
    omega
  · intro hmeets hpos hnil
    have hinit : Victims (init cfg ι) := ⟨init_owned, Nat.zero_le _⟩
    have hv : Victims s := run_invariant_meets step_victims hmeets hinit hrun
    have hle := hv.2
    rw [hnil, length_nil] at hle
    omega

/-- The reclaim of one region, from the choice of the victim to the clean list. -/
def reclaimActions (rid : RegionId cfg) : List (Action cfg ι) :=
  [.evict rid, .runJob rid .evicted true, .runJob rid .blocked true, .runJob rid .drained true,
    .runJob rid (.releasing true) true, .runJob rid (.resetting true) true,
    .runJob rid (.returning true) true]

/-- One priority, one clean region to keep, and a number of regions of 16 bytes. -/
def smallConfig (n : ℕ) (h : 0 < n) : Config where
  cacheSize := n * 16
  regionSize := 16
  cleanRegionsPool := 1
  numInMemBuffers := 1
  numPriorities := 1
  inMemBufFlushRetryLimit := 1
  regionSize_pos := by decide
  regionSize_le := by decide
  cacheSize_pos := by omega
  cacheSize_mod := by omega
  cleanRegionsPool_le := by omega
  numInMemBuffers_ne := by decide
  numPriorities_ne := by decide

/-- An allocation that finds no clean region, the reclaim of a region, and the
allocation again. -/
def twoAllocations (p : Priority cfg) (rid : RegionId cfg) : List (Action cfg ι) :=
  .getCleanRegion p :: reclaimActions rid ++ [.getCleanRegion p]

theorem region_ownership_two_regions : ∃ s : State (smallConfig 2 (by decide)) (Fin 1),
      Transition.run step (init _ _) (twoAllocations ⟨0, by decide⟩ ⟨0, by decide⟩) = some s ∧
      0 < s.scheduled ∧ s.policy ≠ [] := by
  refine ⟨_, rfl, by decide, ?_⟩
  exact (region_ownership _ _ (twoAllocations ⟨0, by decide⟩ ⟨0, by decide⟩) _ rfl).2
    (by decide +kernel) (by decide)

/-- With as many regions as clean regions to keep, the first allocation empties the
policy and schedules one more reclaim, which has no victim. -/
theorem scheduled_reclaim_without_victim : ∃ s : State (smallConfig 1 (by decide)) (Fin 1),
      Transition.run step (init _ _) (twoAllocations ⟨0, by decide⟩ ⟨0, by decide⟩) = some s ∧
      0 < s.scheduled ∧ s.policy = [] :=
  ⟨_, rfl, by decide, by decide⟩

end HybridCache.RegionManager

import HybridCache.NavySchedulerInvariant

/-!
# The dispatch loop

A dispatcher has a loop, or a loop is about to start, exactly while its queue is not empty.
So there is never a second loop, and the loop finds what it has left: the sentinel below the
requests that were pushed in the meantime. While the loop waits for the baton the limit is
reached, or the baton is posted.
-/
namespace HybridCache.NavyScheduler
open JobScheduler Function List Nat

variable {cfg : Config}

/-! ## Invariant of a dispatcher -/

def Loop.pending : Loop → List Task
  | .dispatching pending | .adding _ pending => pending
  | .waiting req pending => req :: pending
  | .claim | .unclaim => []

def Loop.adds : Loop → ℕ
  | .adding _ _ => 1
  | _ => 0

def LoopOk (max : ℕ) (disp : Dispatcher) : Loop → Prop
  | .claim => disp.incoming.reqs ≠ []
  | .waiting _ _ => disp.incoming.bottom = .sentinel ∧
      (disp.posted = false → disp.numOutstanding = max) ∧
      (disp.posted = true → disp.numOutstanding < max)
  | .dispatching _ | .adding _ _ | .unclaim => disp.incoming.bottom = .sentinel

/-- A dispatcher with a number of fibers and of calls that are about to start a loop. -/
structure DispatchOk (max fibers starting : ℕ) (disp : Dispatcher) : Prop where
  single : disp.loops.length + disp.remote + starting = if disp.incoming = .null then 0 else 1
  queued : 0 < disp.remote + starting → disp.incoming.reqs ≠ []
  order : disp.pushed = disp.dispatched ++ (disp.loops.flatMap Loop.pending).map Task.job ++
    disp.incoming.reqs.reverse.map Task.job
  count : disp.numOutstanding = fibers + (disp.loops.map Loop.adds).sum
  le_max : disp.numOutstanding ≤ max
  loop : ∀ loop ∈ disp.loops, LoopOk max disp loop

section Dispatcher
variable {max fibers starting : ℕ} {disp : Dispatcher}

lemma push_ne_null (disp : Dispatcher) (task : Task) : (pushReq disp task).incoming ≠ .null := by
  simp [pushReq, Incoming.null]

variable {l : ℕ} {loop : Loop}

/-- A loop that runs is the only one. -/
lemma DispatchOk.alone (h : DispatchOk max fibers starting disp) {loop : Loop}
    (hl : disp.loops[l]? = some loop) :
    l = 0 ∧ disp.loops = [loop] ∧ disp.remote = 0 ∧ starting = 0 ∧ disp.incoming ≠ .null := by
  have hlt : l < disp.loops.length := (List.getElem?_eq_some_iff.1 hl).1
  have hsingle := h.single
  by_cases hnull : disp.incoming = .null
  · rw [if_pos hnull] at hsingle
    omega
  · rw [if_neg hnull] at hsingle
    obtain ⟨x, hx⟩ := length_eq_one_iff.1 (show disp.loops.length = 1 by omega)
    obtain rfl : l = 0 := by omega
    rw [hx] at hl
    obtain rfl : x = loop := by simpa using hl
    exact ⟨rfl, hx, by omega, by omega, hnull⟩

lemma DispatchOk.pushReq (h : DispatchOk max fibers starting disp) (task : Task) :
    DispatchOk max fibers (starting + (decide (disp.incoming = .null)).toNat)
      (pushReq disp task) := by
  refine ⟨?_, fun _ => by simp [NavyScheduler.pushReq], ?_, h.count, h.le_max, fun loop hmem => ?_⟩
  · rw [if_neg (push_ne_null disp task)]
    have hsingle := h.single
    by_cases hnull : disp.incoming = .null
    · rw [if_pos hnull] at hsingle
      simp only [NavyScheduler.pushReq, hnull, decide_true, Bool.toNat_true]
      omega
    · rw [if_neg hnull] at hsingle
      simp only [NavyScheduler.pushReq, hnull, decide_false, Bool.toNat_false]
      omega
  · simp [NavyScheduler.pushReq, h.order]
  · have hold := h.loop loop hmem
    cases loop with
    | claim => simp [LoopOk, NavyScheduler.pushReq]
    | _ => exact hold

lemma DispatchOk.addLoop {wasNull : Bool}
    (h : DispatchOk max fibers (starting + wasNull.toNat) disp) :
    DispatchOk max fibers starting (addLoop disp wasNull) := by
  refine ⟨?_, fun hpos => h.queued ?_, h.order, h.count, h.le_max, h.loop⟩
  · refine Eq.trans ?_ h.single
    simp only [NavyScheduler.addLoop]
    omega
  · simp only [NavyScheduler.addLoop] at hpos
    omega

lemma DispatchOk.startLoop (h : DispatchOk max fibers starting disp) (hremote : disp.remote ≠ 0) :
    DispatchOk max fibers starting (startLoop disp) := by
  have hqueued := h.queued (by omega)
  refine ⟨?_, fun _ => hqueued, ?_, ?_, h.le_max, ?_⟩
  · rw [NavyScheduler.startLoop, ← h.single]
    simp
    omega
  · simp [NavyScheduler.startLoop, h.order, Loop.pending]
  · simp [NavyScheduler.startLoop, h.count, Loop.adds]
  · intro loop hmem
    rcases mem_append.1 hmem with hold | hnew
    · exact h.loop loop hold
    · rw [mem_singleton.1 hnew]
      exact hqueued

lemma DispatchOk.completeReq (h : DispatchOk max (fibers + 1) starting disp) :
    DispatchOk max fibers starting (completeReq disp max) := by
  have hcount := h.count
  have hmax := h.le_max
  refine ⟨h.single, h.queued, h.order, ?_, ?_, fun loop hmem => ?_⟩
  · simp only [NavyScheduler.completeReq]
    omega
  · simp only [NavyScheduler.completeReq]
    omega
  · have hold := h.loop loop hmem
    cases loop with
    | waiting req pending =>
      obtain ⟨hbottom, hfull, hroom⟩ := hold
      refine ⟨hbottom, fun hposted => ?_, fun hposted => ?_⟩
      · simp only [NavyScheduler.completeReq, Bool.or_eq_false_iff, decide_eq_false_iff_not]
          at hposted
        have := hfull hposted.1
        omega
      · simp only [NavyScheduler.completeReq]
        omega
    | _ => exact hold

/-! ## Steps of the loop -/

lemma invert_eq (incoming pending : List Task) :
    invert incoming pending = incoming.reverse ++ pending := by
  induction incoming generalizing pending with
  | nil => rfl
  | cons req incoming ih => simp [invert, ih]

variable {disp' : Dispatcher}

section
variable (h : DispatchOk max fibers starting disp)
include h

lemma DispatchOk.replace {fibers' : ℕ}
    {loop' : Loop} (hl : disp.loops[l]? = some loop)
    (hloops : disp'.loops = disp.loops.set l loop') (hremote : disp'.remote = disp.remote)
    (hnull : disp'.incoming ≠ .null) (hpushed : disp'.pushed = disp.pushed)
    (horder : disp'.dispatched ++ loop'.pending.map Task.job ++
        disp'.incoming.reqs.reverse.map Task.job =
      disp.dispatched ++ loop.pending.map Task.job ++ disp.incoming.reqs.reverse.map Task.job)
    (hcount : disp'.numOutstanding + fibers + loop.adds =
      disp.numOutstanding + fibers' + loop'.adds)
    (hmax : disp'.numOutstanding ≤ max) (hok : LoopOk max disp' loop') :
    DispatchOk max fibers' starting disp' := by
  obtain ⟨rfl, hone, hremote0, hstarting, -⟩ := h.alone hl
  have hone' : disp'.loops = [loop'] := by rw [hloops, hone, set_cons_zero]
  refine ⟨?_, ?_, ?_, ?_, hmax, ?_⟩
  · rw [if_neg hnull, hone', hremote, hremote0, hstarting]
    rfl
  · intro hpos
    omega
  · have hpush := h.order
    rw [hone, flatMap_singleton] at hpush
    rw [hpushed, hone', flatMap_singleton, hpush, horder]
  · have hold := h.count
    rw [hone, map_singleton, sum_singleton] at hold
    rw [hone', map_singleton, sum_singleton]
    omega
  · intro x hx
    rw [hone', mem_singleton] at hx
    rw [hx]
    exact hok

lemma DispatchOk.bottom {loop : Loop}
    (hl : disp.loops[l]? = some loop) (hclaim : loop ≠ .claim) :
    disp.incoming.bottom = .sentinel := by
  have hok := h.loop loop (mem_of_getElem? hl)
  cases loop with
  | claim => exact absurd rfl hclaim
  | waiting => exact hok.1
  | _ => exact hok

lemma DispatchOk.loopChange (hloop : LoopChange max disp l disp') : DispatchOk max fibers starting disp' := by
  cases hloop with
  | claim hl =>
    refine h.replace hl rfl rfl (by simp [claimQueue, Incoming.sentinel, Incoming.null]) rfl ?_ rfl
      h.le_max rfl
    simp [claimQueue, Incoming.sentinel, Loop.pending, invert_eq]
  | drained hl =>
    exact h.replace hl rfl rfl (h.alone hl).2.2.2.2 rfl rfl rfl h.le_max (h.bottom hl (by simp))
  | @wait req pending hl hfull =>
    exact h.replace hl rfl rfl (h.alone hl).2.2.2.2 rfl rfl rfl h.le_max
      ⟨h.bottom hl (by simp), fun _ => hfull, fun hp => absurd hp Bool.false_ne_true⟩
  | @dispatch req pending hl hroom =>
    have hmax := h.le_max
    refine h.replace hl rfl rfl (h.alone hl).2.2.2.2 rfl ?_ ?_ ?_ (h.bottom hl (by simp))
    · simp [scheduleReq, Loop.pending]
    · exact add_right_comm _ 1 _
    · exact lt_of_le_of_ne hmax hroom
  | @resume req pending hl hposted =>
    obtain ⟨hbottom, -, hroom⟩ := h.loop _ (mem_of_getElem? hl)
    refine h.replace hl rfl rfl (h.alone hl).2.2.2.2 rfl ?_ ?_ (hroom hposted) hbottom
    · simp [scheduleReq, Loop.pending]
    · exact add_right_comm _ 1 _
  | unclaim hl hsentinel =>
    obtain ⟨rfl, hone, hremote, hstarting, -⟩ := h.alone hl
    have hcount := h.count
    have horder := h.order
    refine ⟨?_, ?_, ?_, ?_, h.le_max, ?_⟩
    · simp [unclaimQueue, hone, hremote, hstarting]
    · simp [unclaimQueue, hremote, hstarting]
    · simpa [unclaimQueue, hone, hsentinel, Incoming.sentinel, Incoming.null, Loop.pending]
        using horder
    · simpa [unclaimQueue, hone, Loop.adds] using hcount
    · simp [unclaimQueue, hone]
  | again hl hsentinel =>
    -- the sentinel is still at the bottom, so there are requests above it
    have hbottom := h.bottom hl (by simp)
    refine h.replace hl rfl rfl (h.alone hl).2.2.2.2 rfl rfl rfl h.le_max fun hempty => ?_
    exact hsentinel (congrArg₂ Incoming.mk hempty hbottom)

lemma DispatchOk.add {req : Task}
    {pending : List Task} (hl : disp.loops[l]? = some (.adding req pending)) :
    DispatchOk max (fibers + 1) starting (setLoop disp l (.dispatching pending)) :=
  h.replace hl rfl rfl (h.alone hl).2.2.2.2 rfl rfl (add_assoc ..) h.le_max (h.bottom hl nofun)

end

end Dispatcher

/-! ## Invariant of all dispatchers -/

def Phase.starting (d : Queue cfg) : Phase → ℕ
  | .calling _ ⟨task, some wasNull⟩ =>
    if task.job.queue cfg = d then wasNull.toNat else 0
  | _ => 0

def Dispatch (s : State cfg) : Prop :=
  ∀ d, DispatchOk (maxOutstanding cfg d) (s.fibers d).length (total (Phase.starting d) s) (s.disp d)

lemma init_dispatch : Dispatch (init cfg) := by
  intro d
  have hzero : total (Phase.starting d) (init cfg) = 0 := by simp [total, init, Phase.starting]
  rw [hzero]
  exact ⟨rfl, by simp [init], rfl, rfl, zero_le _, by simp [init]⟩

@[simp] lemma length_setPhase (s : State cfg) (pl : Place cfg) (p : Phase)
    (d : Queue cfg) : ((setPhase s pl p).fibers d).length = (s.fibers d).length := by
  cases pl with
  | client => rfl
  | fiber d' i =>
    by_cases hd : d = d'
    · subst hd
      simp [setPhase]
    · simp [setPhase, update_of_ne hd]

variable {s u : State cfg} {d : Queue cfg}

variable {p p' : Phase} {pl : Place cfg} {disp : Dispatcher}

/-- A thread goes on, after a change that the dispatchers do not see. -/
lemma Dispatch.setPhase (hs : Dispatch s) (hdisp : u.disp = s.disp)
    (hfibers : u.fibers = s.fibers) (hclients : u.clients = s.clients)
    (hp : phaseAt s pl = some p)
    (hstarting : ∀ d : Queue cfg, p'.starting d = p.starting d) :
    Dispatch (setPhase u pl p') := by
  intro d
  have hphase : phaseAt u pl = some p := by
    cases pl with
    | client c => rw [← hp, phaseAt, phaseAt, hclients]
    | fiber d i => rw [← hp, phaseAt, phaseAt, hfibers]
  have htotal := total_goOn (Phase.starting d) hfibers hclients hphase p'
  rw [hstarting] at htotal
  rw [length_setPhase, setPhase_disp, hdisp, hfibers, add_right_cancel htotal]
  exact hs d

lemma Dispatch.setDisp (hs : Dispatch s) (hdisp : u.disp = update s.disp d disp)
    (hfibers : ∀ d', d' ≠ d → (u.fibers d').length = (s.fibers d').length)
    (hstarting : ∀ d', d' ≠ d → total (Phase.starting d') u = total (Phase.starting d') s)
    (hok : DispatchOk (maxOutstanding cfg d) (u.fibers d).length
      (total (Phase.starting d) u) disp) : Dispatch u := by
  intro d'
  rw [hdisp]
  by_cases hd : d' = d
  · subst hd
    rw [update_self]
    exact hok
  · rw [update_of_ne hd, hfibers d' hd, hstarting d' hd]
    exact hs d'

lemma starting_pushed (caller : Caller) (task : Task) (wasNull : Bool) :
    (Phase.calling caller ⟨task, some wasNull⟩).starting (task.job.queue cfg) =
      wasNull.toNat := if_pos rfl

lemma starting_pushed_of_ne (caller : Caller) {task : Task} (wasNull : Bool)
    (hd : d ≠ task.job.queue cfg) :
    (Phase.calling caller ⟨task, some wasNull⟩).starting d = 0 := if_neg (Ne.symm hd)

lemma Caller.starting_resume (caller : Caller) (d : Queue cfg) :
    caller.resume.starting d = 0 := by cases caller <;> rfl

lemma Dispatch.submit (hs : Dispatch s)
    (hdisp : u.disp = update s.disp d disp) (hfibers : u.fibers = s.fibers)
    (hclients : u.clients = s.clients) {p p' : Phase}
    (hp : phaseAt u pl = some p)
    (hstarting : ∀ d' : Queue cfg, d' ≠ d → p'.starting d' = p.starting d')
    (hok : ∀ starting, starting + p.starting d = total (Phase.starting d) s + p'.starting d →
      DispatchOk (maxOutstanding cfg d) (s.fibers d).length starting disp) :
    Dispatch (NavyScheduler.setPhase u pl p') := by
  have htotal := fun d' : Queue cfg =>
    total_goOn (Phase.starting d') hfibers hclients hp p'
  refine hs.setDisp ((setPhase_disp u pl p').trans hdisp) ?_ ?_ ?_
  · intro d' _
    rw [length_setPhase, hfibers]
  · intro d' hd
    have hset := htotal d'
    rw [hstarting d' hd] at hset
    exact add_right_cancel hset
  · rw [length_setPhase, hfibers]
    exact hok _ (htotal d)

theorem change_dispatch {t : State cfg} {k : Kind} (hs : Dispatch s) (h : Change s k t) :
    Dispatch t := by
  cases h with
  | @spool task pl caller hsub =>
    refine hs.setPhase (u := { s with spool := s.spool.spool task }) rfl rfl rfl hsub.phase fun d => ?_
    cases caller <;> rfl
  | @start task pl caller hsub =>
    refine hs.setPhase (u := { s with spool := s.spool.start task, locked := _ }) rfl rfl rfl
      hsub.phase fun d => ?_
    cases caller <;> rfl
  | @push pl caller task hphase =>
    refine hs.submit (u := NavyScheduler.setDisp s (task.job.queue cfg) _) rfl rfl rfl
      hphase (fun d' hd => starting_pushed_of_ne caller _ hd) fun starting hset => ?_
    rw [starting_pushed] at hset
    have hpush := (hs (task.job.queue cfg)).pushReq task
    rw [← hset] at hpush
    exact hpush
  | @started pl caller task wasNull hphase =>
    refine hs.submit (u := { NavyScheduler.setDisp s (task.job.queue cfg) _ with
      locked := _ }) rfl rfl rfl hphase (fun d' hd => ?_) fun starting hset => ?_
    · rw [caller.starting_resume, starting_pushed_of_ne caller _ hd]
    · rw [caller.starting_resume, starting_pushed] at hset
      have hold := hs (task.job.queue cfg)
      rw [← add_zero (total _ s), ← hset] at hold
      exact hold.addLoop
  | done hphase | close hphase =>
    exact hs.setPhase (u := { s with spool := _ }) rfl rfl rfl hphase fun d => rfl
  | reschedule hphase => exact hs.setPhase (u := s) rfl rfl rfl hphase fun d => rfl
  | next hphase =>
    exact hs.setPhase (u := { s with spool := _, locked := _ }) rfl rfl rfl hphase fun d => rfl
  | @endRequest d i hphase =>
    have hstarting : ∀ d' : Queue cfg,
        total (Phase.starting d') (endRequest s d i) = total (Phase.starting d') s :=
      fun d' => total_erase (Phase.starting d') hphase _
    have hlt : i < (s.fibers d).length := (List.getElem?_eq_some_iff.1 hphase).1
    refine hs.setDisp rfl (fun d' hd => ?_) (fun d' _ => hstarting d') ?_
    · exact congrArg length (update_of_ne hd _ _)
    · have hlength : ((endRequest s d i).fibers d).length = (s.fibers d).length - 1 := by
        rw [← length_eraseIdx_of_lt hlt]
        exact congrArg length (update_self ..)
      rw [hstarting, hlength]
      refine DispatchOk.completeReq ?_
      rw [Nat.sub_add_cancel (by omega)]
      exact hs d
  | @startLoop d hremote =>
    exact hs.setDisp rfl (fun _ _ => rfl) (fun _ _ => rfl) ((hs d).startLoop hremote)
  | @loop d l disp hloop =>
    exact hs.setDisp rfl (fun _ _ => rfl) (fun _ _ => rfl) ((hs d).loopChange hloop)
  | @add d l req pending hl =>
    have hstarting := fun d' : Queue cfg => total_snoc (Phase.starting d') s d (.running req)
      (update s.disp d (setLoop (s.disp d) l (.dispatching pending)))
    refine hs.setDisp rfl (fun d' hd => ?_) (fun d' _ => hstarting d') ?_
    · exact congrArg length (update_of_ne hd _ _)
    · have hlength : (update s.fibers d (s.fibers d ++ [.running req]) d).length =
          (s.fibers d).length + 1 := by rw [update_self, length_append, length_singleton]
      refine Eq.mpr (congrArg₂ (fun n k => DispatchOk _ n k _) hlength (hstarting d)) ?_
      exact (hs d).add hl

end HybridCache.NavyScheduler

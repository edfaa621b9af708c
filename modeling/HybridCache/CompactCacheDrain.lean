import HybridCache.CompactCacheSteps

/-!
# Cohorts

A switch of the cohorts waits for all requests that have begun before it. So a request that
has found a chunk by the old number of chunks has ended before double writes stop.
-/
namespace HybridCache.CompactCache
open Function

variable {Key Value : Type} [DecidableEq Key] {cfg : Config Key Value}

/-! ## Stages of the resize -/

def Resize.moved : Resize Key Value → Bool
  | .start | .switch .copy | .drain .copy | .rehash .copy _ _ | .visit .copy _ _ _ _ _ | .update =>
    false
  | _ => true

def Resize.doubles : Resize Key Value → Bool
  | .start | .switch .delete | .drain .delete | .rehash .delete _ _ | .visit .delete _ _ _ _ _
  | .done => false
  | _ => true

def Resize.cleared : Resize Key Value → Bool
  | .clear | .switch .delete | .drain .delete | .rehash .delete _ _ | .visit .delete _ _ _ _ _
  | .done => true
  | _ => false

def Resize.drains : Resize Key Value → Bool
  | .drain _ => true
  | _ => false

/-- The loops of `tableRehash` are within one stage. -/
lemma nextBucket_stage (s : State cfg) (op : RehashOperation) (n i : ℕ) :
    (nextBucket s op n i).moved = (Resize.rehash op n i : Resize Key Value).moved ∧
    (nextBucket s op n i).doubles = (Resize.rehash op n i : Resize Key Value).doubles ∧
    (nextBucket s op n i).cleared = (Resize.rehash op n i : Resize Key Value).cleared ∧
    (nextBucket s op n i).drains = false := by
  unfold nextBucket
  split_ifs <;> cases op <;> exact ⟨rfl, rfl, rfl, rfl⟩

structure Stages (s : State cfg) : Prop where
  num : s.numChunks = if s.resize.moved then cfg.newNumChunks else cfg.oldNumChunks
  pending : s.pendingNumChunks = if s.resize.doubles then cfg.newNumChunks else 0

/-! ## Tokens -/

def Phase.ref : Phase Key Value → Option Bool
  | .idle | .begin .. | .loaded .. => none
  | .retry _ _ top | .find _ _ top | .apply _ _ top _ | .promote _ _ top _ _ | .findDbl _ _ top _
  | .foundPending _ _ top _ _ | .applyDbl _ _ top _ _ | .finish _ _ top _ => some top

def Phase.refs (top : Bool) (p : Phase Key Value) : ℕ := if p.ref = some top then 1 else 0

def Phase.token : Phase Key Value → Option Bool
  | .retry _ _ _ => none
  | p => p.ref

def Phase.chunk : Phase Key Value → Option (Key × ℕ)
  | .apply _ key _ chunk | .promote _ key _ chunk _ | .findDbl _ key _ chunk
  | .foundPending _ key _ chunk _ | .applyDbl _ key _ chunk _ => some (key, chunk)
  | _ => none

structure ChunkOk (s : State cfg) (top : Bool) (key : Key) (chunk : ℕ) : Prop where
  old_or_new : chunk = cfg.chunkIndex cfg.oldNumChunks key ∨
    chunk = cfg.chunkIndex cfg.newNumChunks key
  old : s.resize.moved = false → chunk = cfg.chunkIndex cfg.oldNumChunks key
  drain : s.resize = .drain .clear → top = s.cohort.isTop →
    chunk = cfg.chunkIndex cfg.newNumChunks key
  new : s.resize.cleared = true → chunk = cfg.chunkIndex cfg.newNumChunks key

structure TokenOk (s : State cfg) (p : Phase Key Value) : Prop where
  top : ∀ top, p.token = some top → s.resize.drains = false → top = s.cohort.isTop
  chunk : ∀ top key chunk, p.token = some top → p.chunk = some (key, chunk) →
    ChunkOk s top key chunk

structure Drains (s : State cfg) : Prop where
  stages : Stages s
  refs : ∀ top, s.cohort.refs top = ∑ th, (s.phase th).refs top
  token : ∀ th, TokenOk s (s.phase th)

variable {p p' : Phase Key Value} {s t : State cfg} {th : Fin cfg.threads} {top : Bool}

/-- A request without a token has found nothing. -/
lemma TokenOk.none (h : p.token = none) : TokenOk s p where
  top top htop := by rw [h] at htop; cases htop
  chunk top key c htop := by rw [h] at htop; cases htop

lemma init_drains : Drains (init cfg) where
  stages := ⟨rfl, rfl⟩
  refs top := by simp [init, Phase.refs, Phase.ref]
  token _ := TokenOk.none rfl

lemma refs_setPhase (s : State cfg) (th : Fin cfg.threads) (p : Phase Key Value) (top : Bool) :
    (∑ th', (update s.phase th p th').refs top) + (s.phase th).refs top =
      (∑ th', (s.phase th').refs top) + p.refs top :=
  Transition.sum_update s.phase (Phase.refs top) th p

lemma Drains.count (h : Drains s) {p : Phase Key Value}
    (hphase : t.phase = update s.phase th p) (htop : t.cohort.isTop = s.cohort.isTop)
    (hresize : t.resize = s.resize) (hnum : t.numChunks = s.numChunks)
    (hpending : t.pendingNumChunks = s.pendingNumChunks)
    (hrefs : ∀ top, t.cohort.refs top + (s.phase th).refs top = s.cohort.refs top + p.refs top)
    (hp : TokenOk s p) : Drains t where
  stages := by
    refine ⟨?_, ?_⟩
    · rw [hnum, hresize, h.stages.num]
    · rw [hpending, hresize, h.stages.pending]
  refs top := by
    have hsum := refs_setPhase s th p top
    have hcount := hrefs top
    have hold := h.refs top
    rw [hphase]
    omega
  token th' := by
    have hok : TokenOk s (t.phase th') := by
      rw [hphase, update_apply]
      split_ifs
      · exact hp
      · exact h.token th'
    refine ⟨fun top htop' hdrains => ?_, fun top key chunk htop' hchunk => ?_⟩
    · rw [htop]
      exact hok.top top htop' (by rwa [hresize] at hdrains)
    · have hold := hok.chunk top key chunk htop' hchunk
      refine ⟨hold.old_or_new, ?_, ?_, ?_⟩
      · rw [hresize]
        exact hold.old
      · rw [hresize, htop]
        exact hold.drain
      · rw [hresize]
        exact hold.new

lemma Drains.setPhase (h : Drains s)
    (hphase : t.phase = update s.phase th p) (hcohort : t.cohort = s.cohort)
    (hresize : t.resize = s.resize) (hnum : t.numChunks = s.numChunks)
    (hpending : t.pendingNumChunks = s.pendingNumChunks) (href : p.ref = (s.phase th).ref)
    (hp : TokenOk s p) : Drains t := by
  refine h.count hphase (by rw [hcohort]) hresize hnum hpending (fun top => ?_) hp
  rw [hcohort, Phase.refs, Phase.refs, href]

lemma TokenOk.same (h : TokenOk s p)
    (htoken : p'.token = p.token) (hchunk : ∀ key c, p'.chunk = some (key, c) →
      p.chunk = some (key, c)) : TokenOk s p' where
  top top htop := h.top top (htoken ▸ htop)
  chunk top key c htop hc := h.chunk top key c (htoken ▸ htop) (hchunk key c hc)

lemma TokenOk.find (hstages : Stages s) {op : Op Value} {key : Key}
    (h : TokenOk s (.find op key top)) :
    TokenOk s (.apply op key top (cfg.chunkIndex s.numChunks key)) where
  top := h.top
  chunk top' key' c htop hc := by
    cases hc
    have hnum := hstages.num
    refine ⟨?_, fun hmoved => ?_, fun hdrain _ => ?_, fun hcleared => ?_⟩
    · rw [hnum]
      split_ifs
      · exact Or.inr rfl
      · exact Or.inl rfl
    · rw [hnum, if_neg (by simp [hmoved])]
    · rw [hnum, hdrain]
      rfl
    · have hmoved : s.resize.moved = true := by
        cases hresize : s.resize with
        | switch next | drain next | rehash next | visit next =>
          cases next <;> first | rfl | simp [hresize, Resize.cleared] at hcleared
        | _ => first | rfl | simp [hresize, Resize.cleared] at hcleared
      rw [hnum, if_pos hmoved]

lemma Moves.token (h : Moves s p p') (hstages : Stages s)
    (hp : TokenOk s p) : p'.ref = p.ref ∧ TokenOk s p' := by
  cases h with
  | load => exact ⟨rfl, .none rfl⟩
  | find => exact ⟨rfl, hp.find hstages⟩
  | wantsPromote | foundPending | foundDbl => exact ⟨rfl, hp.same rfl fun _ _ hc => hc⟩
  | get | noDbl | sameChunk | timeout | promoteTimeout => exact ⟨rfl, hp.same rfl nofun⟩

lemma Writes.token {op : Op Value} {key : Key} {n : ℕ}
    (h : Writes s p op key n p') (hp : TokenOk s p) : p'.ref = p.ref ∧ TokenOk s p' := by
  cases h with
  | first => exact ⟨rfl, hp.same rfl fun _ _ hc => hc⟩
  | second => exact ⟨rfl, hp.same rfl nofun⟩

omit [DecidableEq Key] in
lemma refs_incr (hp : p.ref = none) (hp' : p'.ref = some top) (c : Cohort) (top' : Bool) :
    (c.incr top).refs top' + p.refs top' = c.refs top' + p'.refs top' := by
  simp only [Cohort.incr, Phase.refs, hp, hp', update_apply, Option.some.injEq]
  by_cases h : top' = top
  · simp [h]
  · simp [h, Ne.symm h]

omit [DecidableEq Key] in
lemma refs_decr (hp : p.ref = some top)
    (hp' : p'.ref = none) {c : Cohort} (hpos : 0 < c.refs top) (top' : Bool) :
    (c.decr top).refs top' + p.refs top' = c.refs top' + p'.refs top' := by
  simp only [Cohort.decr, Phase.refs, hp, hp', update_apply, Option.some.injEq]
  by_cases h : top' = top
  · subst h
    simp
    omega
  · simp [h, Ne.symm h]

lemma Drains.refs_pos (h : Drains s) {top : Bool}
    (href : (s.phase th).ref = some top) : 0 < s.cohort.refs top := by
  have hle := Transition.le_sum (fun th => (s.phase th).refs top) th
  have hone : (s.phase th).refs top = 1 := if_pos href
  rw [h.refs top]
  omega

lemma Drains.stage (h : Drains s) (hphase : t.phase = s.phase)
    (hrefs : t.cohort.refs = s.cohort.refs) (hstages : Stages t)
    (htop : ∀ th top, (s.phase th).token = some top → t.resize.drains = false →
      top = t.cohort.isTop)
    (hchunk : ∀ th top key chunk, (s.phase th).token = some top → ChunkOk s top key chunk →
      ChunkOk t top key chunk) : Drains t where
  stages := hstages
  refs top := by rw [hrefs, hphase, h.refs top]
  token th := by
    rw [hphase]
    exact ⟨htop th, fun top key chunk htoken hc =>
      hchunk th top key chunk htoken ((h.token th).chunk top key chunk htoken hc)⟩

lemma Drains.sameStage (h : Drains s) (hphase : t.phase = s.phase)
    (hcohort : t.cohort = s.cohort) (hnum : t.numChunks = s.numChunks)
    (hpending : t.pendingNumChunks = s.pendingNumChunks)
    (hmoved : t.resize.moved = s.resize.moved) (hdoubles : t.resize.doubles = s.resize.doubles)
    (hcleared : t.resize.cleared = s.resize.cleared) (hdrains : t.resize.drains = false)
    (hdrains' : s.resize.drains = false) : Drains t := by
  refine h.stage hphase (by rw [hcohort]) ⟨?_, ?_⟩ (fun th top htop _ => ?_)
    fun th top key chunk _ hold => ⟨hold.old_or_new, ?_, fun hdrain => ?_, ?_⟩
  · rw [hnum, hmoved, h.stages.num]
  · rw [hpending, hdoubles, h.stages.pending]
  · rw [hcohort]
    exact (h.token th).top top htop hdrains'
  · rw [hmoved]
    exact hold.old
  · rw [hdrain] at hdrains
    cases hdrains
  · rw [hcleared]
    exact hold.new

lemma Drains.top_of_drained (h : Drains s)
    (hrefs : s.cohort.refs (!s.cohort.isTop) = 0) {top : Bool}
    (htop : (s.phase th).token = some top) : top = s.cohort.isTop := by
  have href : (s.phase th).ref = some top := by
    cases hphase : s.phase th <;> rw [hphase] at htop <;> first | exact htop | cases htop
  have hpos := h.refs_pos href
  by_contra hne
  have hnot : top = !s.cohort.isTop := by
    cases top <;> cases htop' : s.cohort.isTop <;> simp_all
  rw [hnot, hrefs] at hpos
  exact absurd hpos (lt_irrefl 0)

lemma Resizes.drains (h : Resizes s t) (hs : Drains s) : Drains t := by
  have hnum := hs.stages.num
  have hpending := hs.stages.pending
  cases h with
  | start hresize =>
    rw [hresize] at hnum
    refine hs.stage rfl rfl ⟨hnum, rfl⟩ (fun th top htop _ => ?_)
      fun th top key chunk _ hold => ⟨hold.old_or_new, fun _ => ?_, nofun, nofun⟩
    · exact (hs.token th).top top htop (by rw [hresize]; rfl)
    · exact hold.old (by rw [hresize]; rfl)
  | @switch next hresize =>
    have htoken : ∀ th top, (s.phase th).token = some top → top = s.cohort.isTop :=
      fun th top htop => (hs.token th).top top htop (by rw [hresize]; rfl)
    rw [hresize] at hnum hpending
    refine hs.stage rfl rfl ⟨?_, ?_⟩ (fun th top htop hdrains => by cases hdrains)
      fun th top key chunk htop hold => ⟨hold.old_or_new, fun hmoved => ?_, fun _ hnew => ?_,
        fun hcleared => ?_⟩
    · rw [hnum]
      cases next <;> rfl
    · rw [hpending]
      cases next <;> rfl
    · refine hold.old ?_
      rw [hresize, ← hmoved]
      cases next <;> rfl
    · -- a request of the cohort that begins now has no token yet
      rw [htoken th top htop] at hnew
      simp at hnew
    · refine hold.new ?_
      rw [hresize, ← hcleared]
      cases next <;> rfl
  | @drained next hresize hrefs =>
    have htoken : ∀ th top, (s.phase th).token = some top → top = s.cohort.isTop :=
      fun th top htop => hs.top_of_drained hrefs htop
    rw [hresize] at hnum hpending
    refine hs.stage rfl rfl ⟨?_, ?_⟩ (fun th top htop _ => htoken th top htop)
      fun th top key chunk htop hold => ⟨hold.old_or_new, fun hmoved => ?_, fun hdrain => ?_,
        fun hcleared => ?_⟩
    · rw [hnum]
      cases next <;> rfl
    · rw [hpending]
      cases next <;> rfl
    · refine hold.old ?_
      rw [hresize, ← hmoved]
      cases next <;> rfl
    · cases next <;> cases hdrain
    · cases next with
      | copy => cases hcleared
      | clear => exact hold.drain hresize (htoken th top htop)
      | delete => exact hold.new (by rw [hresize]; rfl)
  | @next op n i hresize =>
    obtain ⟨hmoved, hdoubles, hcleared, hdrains⟩ := nextBucket_stage s op n i
    rw [← hresize] at hmoved hdoubles hcleared
    exact hs.sameStage rfl rfl rfl rfl hmoved hdoubles hcleared hdrains (by rw [hresize]; rfl)
  | @visited op n i moved maxMove hresize | @skip op n i moved maxMove e rest hresize =>
    refine hs.sameStage rfl rfl rfl rfl ?_ ?_ ?_ rfl (by rw [hresize]; rfl)
    all_goals rw [hresize]; cases op <;> rfl
  | update hresize =>
    rw [hresize] at hpending
    refine hs.stage rfl rfl ⟨rfl, hpending⟩ (fun th top htop _ => ?_)
      fun th top key chunk _ hold => ⟨hold.old_or_new, nofun, nofun, nofun⟩
    exact (hs.token th).top top htop (by rw [hresize]; rfl)
  | clear hresize =>
    rw [hresize] at hnum
    refine hs.stage rfl rfl ⟨hnum, rfl⟩ (fun th top htop _ => ?_)
      fun th top key chunk _ hold => ⟨hold.old_or_new, nofun, nofun, fun _ => ?_⟩
    · exact (hs.token th).top top htop (by rw [hresize]; rfl)
    · exact hold.new (by rw [hresize]; rfl)

lemma change_drains (hs : Drains s) (h : Change s t) : Drains t := by
  cases h with
  | @callWrite th op key hphase | @callGet th op key hphase =>
    exact hs.setPhase rfl rfl rfl rfl rfl (by rw [hphase]; rfl) (.none rfl)
  | @move th p p' hphase hmoves =>
    have hp := hs.token th
    rw [hphase] at hp
    obtain ⟨href, hp'⟩ := hmoves.token hs.stages hp
    exact hs.setPhase rfl rfl rfl rfl rfl (by rw [hphase, href]) hp'
  | @enter th op key top hphase htop =>
    refine hs.count rfl rfl rfl rfl rfl (fun top' => ?_) ⟨fun top' htop' _ => ?_, fun _ _ _ _ => nofun⟩
    · exact refs_incr (by rw [hphase]; rfl) rfl s.cohort top'
    · exact (Option.some.inj htop').symm.trans htop.symm
  | @miss th op key top hphase =>
    refine hs.count rfl rfl rfl rfl rfl (fun top' => ?_) (.none rfl)
    exact refs_incr (by rw [hphase]; rfl) rfl s.cohort top'
  | @retry th op key top hphase =>
    have href : (s.phase th).ref = some top := by rw [hphase]; rfl
    refine hs.count rfl rfl rfl rfl rfl (fun top' => ?_) (.none rfl)
    exact refs_decr href rfl (hs.refs_pos href) top'
  | @write th p p' op key n hphase hwrites =>
    have hp := hs.token th
    rw [hphase] at hp
    obtain ⟨href, hp'⟩ := hwrites.token hp
    exact hs.setPhase rfl rfl rfl rfl rfl (by rw [hphase, href]) hp'
  | @promote th shouldPromote key top n got hphase =>
    have hp := hs.token th
    rw [hphase] at hp
    exact hs.setPhase rfl rfl rfl rfl rfl (by rw [hphase]; rfl) (hp.same rfl nofun)
  | @finish th op key top outcome hphase =>
    have href : (s.phase th).ref = some top := by rw [hphase]; rfl
    have hrefs := fun top' => refs_decr href (rfl : (Phase.idle : Phase Key Value).ref = none)
      (hs.refs_pos href) top'
    unfold CompactCache.finish
    split
    all_goals exact hs.count rfl rfl rfl rfl rfl hrefs (.none rfl)
  | resize hresizes => exact hresizes.drains hs
  | copy hresize | delete hresize =>
    refine hs.sameStage rfl rfl rfl rfl ?_ ?_ ?_ rfl ?_
    all_goals rw [hresize]; rfl

end HybridCache.CompactCache

import HybridCache.CompactCacheInvariant

/-!
# Reads during a resize

Each step keeps the invariant, as long as no write misses the new chunk: a write that has found
its bucket by the old number of chunks and loads the new number afterwards does not write
twice, and leaves what the resizer has copied before.
-/
namespace HybridCache.CompactCache
open Function

variable {Key Value : Type} [DecidableEq Key] {cfg : Config Key Value}

/-! ## Threads and their writes -/

variable {p p' : Phase Key Value} {s t : State cfg} {key : Key} {n : ℕ} {th : Fin cfg.threads}
  {top : Bool}

lemma Moves.op (h : Moves s p p') : p'.op = p.op := by
  cases h <;> rfl

lemma Moves.second (h : Moves s p p') {op : Op Value}
    (hsecond : p'.second = some op) : p.second = some op := by
  cases h <;> first | exact hsecond | cases hsecond

lemma Writes.op {op : Op Value} {n : ℕ}
    (h : Writes s p op key n p') : p.op = some (op, key) ∧ p'.op = some (op, key) := by
  cases h <;> exact ⟨rfl, rfl⟩

section
variable (h : Roles s)
include h

lemma Roles.writer_iff :
    s.writer key = some th ↔ ∃ op, (s.phase th).op = some (op, key) ∧ op.isWrite = true := by
  constructor
  · exact h.op key th
  · rintro ⟨op, hop, hwrite⟩
    exact h.writer th op key hop hwrite

/-- One thread goes on and the writers follow. -/
lemma Roles.step {p : Phase Key Value} (hphase : t.phase = update s.phase th p)
    (hwriter : ∀ key th', t.writer key = some th' ↔ if th' = th then
      ∃ op, p.op = some (op, key) ∧ op.isWrite = true else s.writer key = some th')
    (hsecond : ∀ op, p.second = some op → op.isWrite = true) : Roles t := by
  refine ⟨fun th' op key hth' hop => ?_, fun key th' hth' => ?_, fun th' op hth' => ?_⟩
  · rw [hphase, update_apply] at hth'
    rw [hwriter]
    split_ifs at hth' ⊢
    · exact ⟨op, hth', hop⟩
    · exact h.writer th' op key hth' hop
  · rw [hwriter] at hth'
    rw [hphase, update_apply]
    split_ifs at hth' ⊢
    · exact hth'
    · exact h.op key th' hth'
  · rw [hphase, update_apply] at hth'
    split_ifs at hth'
    · exact hsecond op hth'
    · exact h.second th' op hth'

lemma Roles.setPhase {p : Phase Key Value}
    (hphase : t.phase = update s.phase th p) (hwriter : t.writer = s.writer)
    (hop : p.op = (s.phase th).op) (hsecond : ∀ op, p.second = some op → op.isWrite = true) :
    Roles t := by
  refine h.step hphase (fun key th' => ?_) hsecond
  rw [hwriter, hop]
  split_ifs with heq
  · rw [heq, h.writer_iff]
  · rfl

lemma Roles.ne_of_idle {th' : Fin cfg.threads}
    (hidle : s.phase th = .idle) (hwriter : s.writer key = some th') : th' ≠ th := by
  rintro rfl
  obtain ⟨op, hop, -⟩ := h.op key th' hwriter
  rw [hidle] at hop
  cases hop

lemma Roles.key_of_writer {key' : Key}
    {op : Op Value} (hop : (s.phase th).op = some (op, key)) (hwriter : s.writer key' = some th) :
    key' = key ∧ op.isWrite = true := by
  obtain ⟨op', hop', hwrite⟩ := h.op key' th hwriter
  rw [hop] at hop'
  cases hop'
  exact ⟨rfl, hwrite⟩

lemma roles_callWrite {op : Op Value} (hphase : s.phase th = .idle) (hop : op.isWrite = true)
    (hwriter : s.writer key = none) : Roles (callWrite s th op key) := by
  refine h.step rfl (fun key' th' => ?_) nofun
  change update s.writer key (some th) key' = some th' ↔ _
  by_cases hkey : key' = key
  · rw [hkey, update_self, hwriter]
    split_ifs with heq
    · exact iff_of_true (by rw [heq]) ⟨op, rfl, hop⟩
    · simp [Ne.symm heq]
  · rw [update_of_ne hkey]
    split_ifs with heq
    · refine iff_of_false (fun hth => h.ne_of_idle hphase hth heq) ?_
      rintro ⟨op', heq', -⟩
      cases heq'
      exact hkey rfl
    · rfl

lemma roles_callGet {op : Op Value} (hphase : s.phase th = .idle) (hop : op.isWrite = false) :
    Roles (callGet s th op key) := by
  refine h.step rfl (fun key' th' => ?_) nofun
  split_ifs with heq
  · refine iff_of_false (fun hth => h.ne_of_idle hphase hth heq) ?_
    rintro ⟨op', heq', hwrite⟩
    cases heq'
    rw [hop] at hwrite
    cases hwrite
  · rfl

lemma Roles.finish {op : Op Value}
    (hphase : (s.phase th).op = some (op, key)) (ht : t.phase = update s.phase th .idle)
    (hwriter : t.writer = if op.isWrite then update s.writer key none else s.writer) : Roles t := by
  refine h.step ht (fun key' th' => ?_) nofun
  have hown : th' = th → s.writer key' = some th' → key' = key ∧ op.isWrite = true := by
    rintro rfl hold
    exact h.key_of_writer hphase hold
  have hother : key' = key → op.isWrite = true → s.writer key' = some th' → th' = th := by
    rintro rfl hop hold
    rw [h.writer th op key' hphase hop] at hold
    exact (Option.some.inj hold).symm
  rw [hwriter]
  by_cases hkey : key' = key ∧ op.isWrite = true
  · obtain ⟨rfl, hop⟩ := hkey
    rw [if_pos hop, update_self]
    split_ifs with heq
    · exact iff_of_false nofun (by simp [Phase.op])
    · exact iff_of_false nofun fun hold => heq (hother rfl hop hold)
  · have hsame : (if op.isWrite then update s.writer key none else s.writer) key' =
        s.writer key' := by
      split_ifs with hop
      · exact update_of_ne (fun he => hkey ⟨he, hop⟩) _ _
      · rfl
    rw [hsame]
    split_ifs with heq
    · exact iff_of_false (fun hold => hkey (hown heq hold)) (by simp [Phase.op])
    · rfl

end

section
variable (s : State cfg) (th : Fin cfg.threads) (op : Op Value) (key : Key) (top : Bool)
  (outcome : Outcome Value)

lemma finish_phase : (finish s th op key top outcome).phase = update s.phase th .idle := by
  unfold CompactCache.finish
  split <;> rfl

lemma finish_writer : (finish s th op key top outcome).writer =
      if op.isWrite then update s.writer key none else s.writer := by
  unfold CompactCache.finish
  cases hop : op.isWrite <;> cases outcome <;> rfl

end

lemma change_roles (hs : Roles s) (h : Change s t) : Roles t := by
  cases h with
  | callWrite hphase hop hwriter => exact roles_callWrite hs hphase hop hwriter
  | callGet hphase hop => exact roles_callGet hs hphase hop
  | @move th p p' hphase hmoves =>
    refine hs.setPhase rfl rfl (by rw [hphase, hmoves.op]) fun op hop => ?_
    exact hs.second th op (by rw [hphase, hmoves.second hop])
  | enter hphase | miss hphase | retry hphase | promote hphase =>
    exact hs.setPhase rfl rfl (by rw [hphase]; rfl) nofun
  | @write th p p' op key n hphase hwrites =>
    refine hs.setPhase rfl rfl (by rw [hphase, hwrites.op.1, hwrites.op.2]) fun op' hop' => ?_
    cases hwrites with
    | first hop =>
      cases hop'
      exact hop
    | second => cases hop'
  | @finish th op key top outcome hphase =>
    exact hs.finish (by rw [hphase]; rfl) (finish_phase ..) (finish_writer ..)
  | resize hresizes => cases hresizes <;> exact ⟨hs.writer, hs.op, hs.second⟩
  | copy | delete => exact ⟨hs.writer, hs.op, hs.second⟩

/-! ## Entries -/

lemma doubles_of_stages (hstages : Stages s) (hpending : s.pendingNumChunks = 0) :
    s.resize.doubles = false := by
  have hpos := cfg.newNumChunks_pos
  by_contra hne
  rw [hstages.pending, if_pos (by simpa using hne)] at hpending
  omega

lemma start_of_stages (hstages : Stages s) (hmoved : s.resize.moved = false)
    (hpending : s.pendingNumChunks = 0) : s.resize = .start := by
  have hdoubles := doubles_of_stages hstages hpending
  cases hresize : s.resize with
  | start => rfl
  | switch next | drain next | rehash next | visit next =>
    cases next <;> simp [hresize, Resize.moved, Resize.doubles] at hmoved hdoubles
  | _ => simp [hresize, Resize.moved, Resize.doubles] at hmoved hdoubles

lemma cleared_of_stages (hstages : Stages s) (hmoved : s.resize.moved = true)
    (hpending : s.pendingNumChunks = 0) : s.resize.cleared = true := by
  have hdoubles := doubles_of_stages hstages hpending
  cases hresize : s.resize with
  | switch next | drain next | rehash next | visit next =>
    cases next <;> simp [hresize, Resize.moved, Resize.doubles, Resize.cleared] at hmoved hdoubles ⊢
  | _ => simp [hresize, Resize.moved, Resize.doubles, Resize.cleared] at hmoved hdoubles ⊢

lemma pending_of_start (hstages : Stages s) (hresize : s.resize = .start) :
    s.pendingNumChunks = 0 := by
  rw [hstages.pending, hresize]
  rfl

lemma Moves.doubles (h : Moves s p p')
    (hpending : s.pendingNumChunks = 0) (hp : p.doubles = false) : p'.doubles = false := by
  cases h with
  | foundPending hne => exact absurd hpending hne
  | foundDbl => cases hp
  | _ => rfl

lemma Tables.setPhase (h : Tables s)
    (hphase : t.phase = update s.phase th p) (htable : t.table = s.table)
    (hresize : t.resize = s.resize) (hp : s.resize = .start → p.doubles = false) : Tables t where
  home := by
    rw [htable]
    exact h.home
  fresh := by
    unfold lookupAt
    rw [htable, hresize]
    exact h.fresh
  single hstart th' := by
    rw [hresize] at hstart
    rw [hphase, update_apply]
    split_ifs
    · exact hp hstart
    · exact h.single hstart th'
  visit := by
    rw [htable, hresize]
    exact h.visit

lemma Tables.home_of_touches (h : Tables s) {key : Key}
    (ht : Touches s t n key) (hn : n = oldChunk cfg key ∨ n = newChunk cfg key) (n' i' : ℕ)
    (key' : Key) (hfind : bucketFind cfg.bucket (t.table n' i') key' ≠ none) :
    cfg.bucketIndex key' = i' ∧ (n' = oldChunk cfg key' ∨ n' = newChunk cfg key') := by
  by_cases hsame : n' = n ∧ i' = cfg.bucketIndex key ∧ key' = key
  · obtain ⟨rfl, rfl, rfl⟩ := hsame
    exact ⟨rfl, hn⟩
  · rcases ht n' i' key' hsame with hnone | heq
    · exact absurd hnone hfind
    · exact h.home n' i' key' (by rwa [heq] at hfind)

lemma Tables.home_of_shrinks (h : Tables s) (ht : Shrinks s t) (n i : ℕ)
    (key : Key) (hfind : bucketFind cfg.bucket (t.table n i) key ≠ none) :
    cfg.bucketIndex key = i ∧ (n = oldChunk cfg key ∨ n = newChunk cfg key) := by
  rcases ht n i key with hnone | heq
  · exact absurd hnone hfind
  · exact h.home n i key (by rwa [heq] at hfind)

lemma Tables.write (h : Tables s) {b : cfg.bucket.Bucket} (hphase : t.phase = update s.phase th p)
    (htable : t.table = setBucket s.table n (cfg.bucketIndex key) b)
    (hresize : t.resize = s.resize) (hp : p.doubles = false) (ht : Touches s t n key)
    (hn : n = oldChunk cfg key ∨ n = newChunk cfg key)
    (hstart : s.resize = .start → n = oldChunk cfg key)
    (hfree : locked s n (cfg.bucketIndex key) = false) : Tables t where
  home := h.home_of_touches ht hn
  fresh hs key' hne := by
    rw [hresize] at hs
    have hother : ¬(newChunk cfg key' = n ∧ key' = key) := by
      rintro ⟨hchunk, rfl⟩
      exact hne ((hstart hs).symm.trans hchunk.symm)
    rcases ht.lookupAt hother with hnone | heq
    · exact hnone
    · rw [heq, h.fresh hs key' hne]
  single hs th' := by
    rw [hresize] at hs
    rw [hphase, update_apply]
    split_ifs
    · exact hp
    · exact h.single hs th'
  visit n' i' rest moved maxMove hvisit e he := by
    rw [hresize] at hvisit
    have hother : ¬(n' = n ∧ i' = cfg.bucketIndex key) := by
      intro hsame
      simp [locked, hvisit, hsame.1, hsame.2] at hfree
    rw [htable, setBucket_of_ne hother]
    exact h.visit n' i' rest moved maxMove hvisit e he

lemma Resizes.tables (h : Resizes s t) (hs : Tables s) : Tables t := by
  cases h with
  | start | switch | visited | update | clear => exact ⟨hs.home, nofun, nofun, nofun⟩
  | @drained next =>
    cases next <;> exact ⟨hs.home, nofun, nofun, nofun⟩
  | @next op n i hresize =>
    refine ⟨hs.home, fun hstart => ?_, fun hstart => ?_, fun n' i' rest moved maxMove hvisit e he => ?_⟩
    · dsimp only at hstart
      unfold nextBucket at hstart
      split_ifs at hstart
      cases op <;> cases hstart
    · dsimp only at hstart
      unfold nextBucket at hstart
      split_ifs at hstart
      cases op <;> cases hstart
    · dsimp only at hvisit ⊢
      unfold nextBucket at hvisit
      split_ifs at hvisit
      · cases hvisit
        exact bucketFind_of_mem _ _ he
      · cases op <;> cases hvisit
  | @skip op n i moved maxMove e rest hresize =>
    refine ⟨hs.home, nofun, nofun, fun n' i' rest' moved' maxMove' hvisit e' he' => ?_⟩
    cases hvisit
    exact hs.visit n i _ moved maxMove hresize e' (List.mem_cons_of_mem e he')

lemma Inv.writeOk (hs : Inv s) {op : Op Value}
    (hop : (s.phase th).op = some (op, key)) (hwrite : op.isWrite = true) :
    WriteOk s key (s.phase th) := by
  have hkey := hs.keys key
  unfold KeyOk at hkey
  rw [hs.roles.writer th op key hop hwrite] at hkey
  exact hkey

lemma Inv.chunkOk (hs : Inv s) {p : Phase Key Value}
    (hphase : s.phase th = p) {chunk : ℕ} (htoken : p.token = some top)
    (hchunk : p.chunk = some (key, chunk)) : ChunkOk s top key chunk := by
  have hok := (hs.drains.token th).chunk top key chunk
  rw [hphase] at hok
  exact hok htoken hchunk

lemma Inv.writes (hs : Inv s) {p p' : Phase Key Value}
    {op : Op Value} (hphase : s.phase th = p) (h : Writes s p op key n p') :
    op.isWrite = true ∧ (n = oldChunk cfg key ∨ n = newChunk cfg key) ∧
      (s.resize = .start → n = oldChunk cfg key) := by
  cases h with
  | first hop =>
    have hchunk := hs.chunkOk hphase rfl rfl
    exact ⟨hop, hchunk.old_or_new, fun hstart => hchunk.old (by rw [hstart]; rfl)⟩
  | @second top chunk =>
    have hop := hs.roles.second th op (by rw [hphase]; rfl)
    have hth : (s.phase th).op = some (op, key) := by rw [hphase]; rfl
    have hok := hs.writeOk hth hop
    rw [hphase] at hok
    refine ⟨hop, Or.inr hok.1, fun hstart => ?_⟩
    have hsingle := hs.tables.single hstart th
    rw [hphase] at hsingle
    cases hsingle

lemma Inv.copies (hs : Inv s) {i moved maxMove : ℕ} {v : Value} {rest : List (Key × Value)}
    (hresize : s.resize = .visit .copy n i ((key, v) :: rest) moved maxMove)
    (hne : cfg.chunkIndex cfg.newNumChunks key ≠ n) :
    cfg.bucketIndex key = i ∧ n = oldChunk cfg key ∧ lookupAt s n key = some v := by
  have hfind := hs.tables.visit n i _ moved maxMove hresize (key, v) List.mem_cons_self
  obtain ⟨rfl, hn⟩ := hs.tables.home n i key (by simp [hfind])
  exact ⟨rfl, hn.resolve_right (Ne.symm hne), hfind⟩

lemma change_tables (hs : Inv s) (h : Change s t) : Tables t := by
  have htables := hs.tables
  cases h with
  | callWrite | callGet | enter | miss | retry => exact htables.setPhase rfl rfl rfl fun _ => rfl
  | @move th p p' hphase hmoves =>
    refine htables.setPhase rfl rfl rfl fun hstart => ?_
    have hsingle := htables.single hstart th
    rw [hphase] at hsingle
    exact hmoves.doubles (pending_of_start hs.drains.stages hstart) hsingle
  | @write th p p' op key n hphase hwrites hfree =>
    obtain ⟨-, hn, hstart⟩ := hs.writes hphase hwrites
    refine htables.write rfl rfl rfl ?_ (touches_write s op key n) hn hstart hfree
    cases hwrites <;> rfl
  | @promote th shouldPromote key top n got hphase hfree =>
    have hchunk := hs.chunkOk hphase rfl rfl
    refine htables.write rfl rfl rfl rfl (fun n' i' key' _ => Or.inr ?_) hchunk.old_or_new
      (fun hstart => hchunk.old (by rw [hstart]; rfl)) hfree
    exact bucketFind_promoteBucket s key key' n n' i'
  | @finish th op key top outcome hphase =>
    unfold CompactCache.finish
    split
    all_goals exact htables.setPhase rfl rfl rfl fun _ => rfl
  | resize hresizes => exact hresizes.tables htables
  | @copy n i moved maxMove key v rest hresize hne =>
    obtain ⟨rfl, -, -⟩ := hs.copies hresize hne
    refine ⟨htables.home_of_touches (touches_copy s key v _) (Or.inr rfl), nofun, nofun,
      fun n' i' rest' moved' maxMove' hvisit e he => ?_⟩
    cases hvisit
    rw [copyEntry_of_ne _ _ _ _ _ (Ne.symm hne)]
    exact htables.visit n _ _ moved maxMove hresize e (List.mem_cons_of_mem _ he)
  | @delete n i moved maxMove key v rest hresize =>
    exact ⟨htables.home_of_shrinks (shrinks_delete s n i key _), nofun, nofun, nofun⟩

/-! ## Values -/

lemma Settled.update {v : Option Value} (h : Settled s key v)
    (htable : t.table = s.table) (hnum : t.numChunks = cfg.newNumChunks) : Settled t key v := by
  have hnew : OrMiss (lookupAt t (newChunk cfg key) key) v := by
    rw [lookupAt, htable]
    exact h.new
  refine ⟨?_, hnew⟩
  rw [hnum]
  exact hnew

lemma Halfway.settled (hstages : Stages s) {key : Key}
    {v : Option Value} {chunk : ℕ} (h : Halfway s key v chunk) (hchunk : ChunkOk s top key chunk)
    (hnew : OrMiss (lookupAt s (newChunk cfg key) key) v) : Settled s key v := by
  refine ⟨?_, hnew⟩
  rw [hstages.num]
  cases hmoved : s.resize.moved with
  | true => exact hnew
  | false =>
    have hfirst := h.first
    rw [hchunk.old hmoved] at hfirst
    exact hfirst

lemma Moves.writeOk (hs : Inv s) {p p' : Phase Key Value}
    (hphase : s.phase th = p) (h : Moves s p p') {op : Op Value}
    (hop : p.op = some (op, key)) (hwrite : op.isWrite = true) (hok : WriteOk s key p) :
    WriteOk s key p' := by
  have hstages := hs.drains.stages
  cases h with
  | load | find | timeout => exact hok
  | get | wantsPromote | promoteTimeout =>
    obtain ⟨rfl, rfl⟩ := Prod.mk.inj (Option.some.inj hop)
    cases hwrite
  | @noDbl op' key' top chunk hpending =>
    obtain ⟨rfl, rfl⟩ := Prod.mk.inj (Option.some.inj hop)
    have hchunk := hs.chunkOk hphase rfl rfl
    refine hok.settled hstages hchunk ?_
    by_cases hsame : oldChunk cfg key' = newChunk cfg key'
    · -- the chunk does not change
      have hfirst := hok.first
      rcases hchunk.old_or_new with hc | hc
      · rw [hc] at hfirst
        exact hsame ▸ hfirst
      · rw [hc] at hfirst
        exact hfirst
    · cases hmoved : s.resize.moved with
      | false => exact Or.inl (hs.tables.fresh (start_of_stages hstages hmoved hpending) key' hsame)
      | true =>
        -- all requests with the old number have been waited for
        have hfirst := hok.first
        rw [hchunk.new (cleared_of_stages hstages hmoved hpending)] at hfirst
        exact hfirst
  | foundPending hpending =>
    refine ⟨?_, hok⟩
    rw [hstages.pending] at hpending ⊢
    split_ifs at hpending ⊢ with hdoubles
    · rfl
    · exact absurd rfl hpending
  | @sameChunk op' key' top chunk pending hsame hkeeps =>
    obtain ⟨rfl, rfl⟩ := Prod.mk.inj (Option.some.inj hop)
    obtain ⟨rfl, hhalf⟩ := hok
    refine hhalf.settled hstages (hs.chunkOk hphase rfl rfl) ?_
    rw [newChunk, ← hsame]
    rcases hkeeps with hchunk | hmiss
    · rw [hchunk]
      exact hhalf.first
    · exact hmiss
  | @foundDbl op' key' top chunk pending hne =>
    obtain ⟨rfl, rfl⟩ := Prod.mk.inj (Option.some.inj hop)
    obtain ⟨rfl, hhalf⟩ := hok
    exact ⟨rfl, hhalf⟩

lemma WriteOk.setPhase (h : WriteOk s key p) : WriteOk (setPhase s th p') key p := by
  cases p with
  | findDbl => exact ⟨h.first, h.new⟩
  | foundPending | applyDbl => exact ⟨h.1, h.2.first, h.2.new⟩
  | finish op key top outcome => cases outcome <;> exact ⟨h.cur, h.new⟩
  | _ => exact ⟨h.cur, h.new⟩

/-- A thread goes on without the table. Only the key of its write has to be looked at. -/
lemma Inv.keys_setPhase (hs : Inv s)
    (hphase : t.phase = update s.phase th p) (htable : t.table = s.table)
    (hnum : t.numChunks = s.numChunks) (hlatest : t.latest = s.latest)
    (hwriter : t.writer = s.writer)
    (hp : ∀ op key, (s.phase th).op = some (op, key) → op.isWrite = true → WriteOk t key p)
    (key : Key) : KeyOk t key := by
  by_cases hth : s.writer key = some th
  · obtain ⟨op, hop, hwrite⟩ := hs.roles.op key th hth
    unfold KeyOk
    rw [hwriter, hth]
    dsimp only
    rw [hphase, update_self]
    exact hp op key hop hwrite
  · refine KeyOk.mono (fun n => ?_) hnum (by rw [hlatest]) (by rw [hwriter]) (fun th' hth' => ?_)
      (hs.keys key)
    · rw [lookupAt, lookupAt, htable]
      exact .refl _
    · have hne : th' ≠ th := by
        rintro rfl
        exact hth hth'
      rw [hphase, update_of_ne hne]

lemma Inv.keys_get (hs : Inv s) {p : Phase Key Value}
    {op : Op Value} (hop : (s.phase th).op = some (op, key))
    (hget : op.isWrite = false) (hphase : t.phase = update s.phase th p)
    (hlookup : ∀ n key, lookupAt t n key = lookupAt s n key) (hnum : t.numChunks = s.numChunks)
    (hlatest : t.latest = s.latest) (hwriter : t.writer = s.writer) (key' : Key) :
    KeyOk t key' := by
  refine KeyOk.mono (fun n => Or.inr (hlookup n key')) hnum (by rw [hlatest]) (by rw [hwriter])
    (fun th' hth' => ?_) (hs.keys key')
  have hne : th' ≠ th := by
    rintro rfl
    have hwrite := (hs.roles.key_of_writer hop hth').2
    rw [hget] at hwrite
    cases hwrite
  rw [hphase, update_of_ne hne]

lemma Inv.keys_write (hs : Inv s) {p p' : Phase Key Value}
    {op : Op Value} (hphase : s.phase th = p) (h : Writes s p op key n p')
    (key' : Key) : KeyOk (setPhase (writeBucket s op key n) th p') key' := by
  obtain ⟨hwrite, hn, -⟩ := hs.writes hphase h
  have hop : (s.phase th).op = some (op, key) := by rw [hphase, h.op.1]
  have hwriter := hs.roles.writer th op key hop hwrite
  by_cases hkey : key' = key
  · subst hkey
    have hok := hs.writeOk hop hwrite
    have hself := lookupAt_write s hwrite key' n
    have hother : ∀ n', n' ≠ n → _ := fun n' hne => lookupAt_write_of_ne s op key' hne
    unfold KeyOk
    rw [show (setPhase (writeBucket s op key' n) th p').writer key' = some th from hwriter]
    rw [hphase] at hok
    simp only [setPhase, update_self]
    cases h with
    | first =>
      refine ⟨Or.inr hself, ?_⟩
      by_cases hnew : newChunk cfg key' = n
      · rw [hnew]
        exact Or.inr (Or.inr hself)
      · rcases hok.new with hnone | hlatest
        · exact Or.inr (Or.inl ((hother _ hnew).trans hnone))
        · exact Or.inl ((hother _ hnew).trans hlatest)
    | @second _ _ top chunk =>
      obtain ⟨rfl, hhalf⟩ := hok
      have hchunk := hs.chunkOk hphase rfl rfl
      refine ⟨?_, Or.inr hself⟩
      by_cases hcur : cfg.chunkIndex s.numChunks key' = newChunk cfg key'
      · exact Or.inr (hcur ▸ hself)
      · have hmoved : s.resize.moved = false := by
          by_contra hne
          rw [hs.drains.stages.num, if_pos (by simpa using hne)] at hcur
          exact hcur rfl
        have hold : cfg.chunkIndex s.numChunks key' = chunk := by
          rw [hs.drains.stages.num, hmoved, hchunk.old hmoved]
          rfl
        have hfirst := hhalf.first
        rw [← hold] at hfirst
        exact OrMiss.trans (Or.inr (hother _ hcur)) hfirst
  · refine KeyOk.mono (s := s) (fun n' => ?_) rfl rfl rfl (fun th' hth' => ?_) (hs.keys key')
    · exact (touches_write s op key n).lookupAt fun hsame => hkey hsame.2
    · have hne : th' ≠ th := by
        rintro rfl
        exact hkey (hs.roles.key_of_writer hop hth').1
      exact update_of_ne hne _ _

lemma Inv.keys_finish (hs : Inv s) {op : Op Value} {outcome : Outcome Value}
    (hphase : s.phase th = .finish op key top outcome) (key' : Key) :
    KeyOk (finish s th op key top outcome) key' := by
  have hop : (s.phase th).op = some (op, key) := by rw [hphase]; rfl
  have hlookup : ∀ n, lookupAt (finish s th op key top outcome) n key' = lookupAt s n key' := by
    intro n
    unfold CompactCache.finish
    split <;> rfl
  have hnum : (finish s th op key top outcome).numChunks = s.numChunks := by
    unfold CompactCache.finish
    split <;> rfl
  by_cases hkey : key' = key ∧ op.isWrite = true
  · obtain ⟨rfl, hwrite⟩ := hkey
    have hok := hs.writeOk hop hwrite
    rw [hphase] at hok
    have hwriter : (finish s th op key' top outcome).writer key' = none := by
      rw [finish_writer, if_pos hwrite, update_self]
    unfold KeyOk
    rw [hwriter]
    have hlatest : Settled s key' ((finish s th op key' top outcome).latest key') := by
      unfold CompactCache.finish
      rw [hwrite]
      cases outcome with
      | done got =>
        dsimp only
        rw [update_self]
        exact hok
      | timeout => exact hok
    exact Settled.mono (fun n => Or.inr (hlookup n)) hnum hlatest
  · have hwriter : (finish s th op key top outcome).writer key' = s.writer key' := by
      rw [finish_writer]
      split_ifs with hwrite
      · rw [update_of_ne fun heq => hkey ⟨heq, hwrite⟩]
      · rfl
    have hlatest : (finish s th op key top outcome).latest key' = s.latest key' := by
      unfold CompactCache.finish
      cases hwrite : op.isWrite <;> cases outcome
      · rfl
      · rfl
      · exact update_of_ne (fun heq => hkey ⟨heq, hwrite⟩) _ _
      · rfl
    refine KeyOk.mono (fun n => Or.inr (hlookup n)) hnum hlatest hwriter (fun th' hth' => ?_)
      (hs.keys key')
    have hne : th' ≠ th := by
      rintro rfl
      exact hkey (hs.roles.key_of_writer hop hth')
    rw [finish_phase, update_of_ne hne]

lemma Inv.keys_copy (hs : Inv s) {i moved maxMove : ℕ} {v : Value} {rest : List (Key × Value)}
    (hresize : s.resize = .visit .copy n i ((key, v) :: rest) moved maxMove)
    (hne : cfg.chunkIndex cfg.newNumChunks key ≠ n) (next : Resize Key Value) (key' : Key) :
    KeyOk (copyEntry s i key v next) key' := by
  obtain ⟨rfl, hn, hfind⟩ := hs.copies hresize hne
  by_cases hkey : key' = key
  · subst hkey
    have hmoved : s.resize.moved = false := by rw [hresize]; rfl
    have hcur : cfg.chunkIndex s.numChunks key' = n := by
      rw [hs.drains.stages.num, hmoved, hn]
      rfl
    have hself := lookupAt_copy s key' v next
    have hold : lookupAt (copyEntry s (cfg.bucketIndex key') key' v next) n key' = some v := by
      rw [← hfind, lookupAt, copyEntry_of_ne _ _ _ _ _ (Ne.symm hne), lookupAt]
    -- both chunks have the same value now
    have hsettled : ∀ x, Settled s key' x →
        Settled (copyEntry s (cfg.bucketIndex key') key' v next) key' x := by
      intro x h
      have hx := h.cur
      rw [hcur, hfind] at hx
      refine ⟨?_, hself ▸ hx⟩
      rw [show (copyEntry s (cfg.bucketIndex key') key' v next).numChunks = s.numChunks from rfl,
        hcur, hold]
      exact hx
    refine KeyOk.transfer (s := s) rfl rfl (fun _ _ => rfl) hsettled
      (fun th hwriter x key'' chunk hchunk h => ?_) (hs.keys key')
    obtain ⟨top, op, htoken, hop⟩ := Phase.op_of_chunk hchunk
    obtain rfl := (hs.roles.key_of_writer hop hwriter).1
    have hfirst := h.first
    rw [show chunk = n from ((hs.chunkOk rfl htoken hchunk).old hmoved).trans hn.symm] at hfirst ⊢
    rw [hfind] at hfirst
    exact ⟨hold ▸ hfirst, Or.inr (hself ▸ hfirst)⟩
  · refine KeyOk.mono (s := s) (fun n' => ?_) rfl rfl rfl (fun _ _ => rfl) (hs.keys key')
    exact (touches_copy s key v next).lookupAt fun hsame => hkey hsame.2

lemma Resizes.keys (h : Resizes s t) (hs : Inv s) (key : Key) : KeyOk t key := by
  have hsame : ∀ {t : State cfg}, t.table = s.table → t.numChunks = s.numChunks →
      t.latest = s.latest → t.writer = s.writer → t.phase = s.phase → KeyOk t key := by
    intro t htable hnum hlatest hwriter hphase
    refine KeyOk.mono (fun n => ?_) hnum (by rw [hlatest]) (by rw [hwriter]) (fun th _ => by rw [hphase])
      (hs.keys key)
    rw [lookupAt, lookupAt, htable]
    exact .refl _
  cases h with
  | update hresize =>
    exact KeyOk.transfer (s := s) rfl rfl (fun _ _ => rfl) (fun x hx => hx.update rfl rfl)
      (fun _ _ _ _ _ _ hx => ⟨hx.first, hx.new⟩) (hs.keys key)
  | _ => exact hsame rfl rfl rfl rfl rfl

lemma change_keys (hs : Inv s) (h : Change s t) (key : Key) : KeyOk t key := by
  cases h with
  | @callWrite th op key' hphase hop hwriter =>
    by_cases hkey : key = key'
    · subst hkey
      have hok := hs.keys key
      unfold KeyOk at hok ⊢
      rw [hwriter] at hok
      simp only [callWrite, setPhase, update_self]
      exact ⟨hok.cur, hok.new⟩
    · refine KeyOk.mono (s := s) (fun n => .refl _) rfl rfl (update_of_ne hkey _ _)
        (fun th' hth' => ?_) (hs.keys key)
      exact update_of_ne (hs.roles.ne_of_idle hphase hth') _ _
  | @callGet th op key' hphase hop =>
    refine KeyOk.mono (s := s) (fun n => .refl _) rfl rfl rfl (fun th' hth' => ?_) (hs.keys key)
    exact update_of_ne (hs.roles.ne_of_idle hphase hth') _ _
  | @move th p p' hphase hmoves =>
    refine hs.keys_setPhase (t := setPhase s th p') rfl rfl rfl rfl rfl
      (fun op key' hop hwrite => ?_) key
    have hok := hs.writeOk hop hwrite
    rw [hphase] at hok hop
    exact (hmoves.writeOk hs hphase hop hwrite hok).setPhase
  | @enter th op key' top hphase =>
    refine hs.keys_setPhase (t := setPhase { s with cohort := s.cohort.incr top } th (.find op key' top))
      rfl rfl rfl rfl rfl (fun op' key'' hop hwrite => ?_) key
    have hok := hs.writeOk hop hwrite
    rw [hphase] at hok
    exact ⟨hok.cur, hok.new⟩
  | @miss th op key' top hphase =>
    refine hs.keys_setPhase (t := setPhase { s with cohort := s.cohort.incr top } th (.retry op key' top))
      rfl rfl rfl rfl rfl (fun op' key'' hop hwrite => ?_) key
    have hok := hs.writeOk hop hwrite
    rw [hphase] at hok
    exact ⟨hok.cur, hok.new⟩
  | @retry th op key' top hphase =>
    refine hs.keys_setPhase (t := setPhase { s with cohort := s.cohort.decr top } th (.begin op key'))
      rfl rfl rfl rfl rfl (fun op' key'' hop hwrite => ?_) key
    have hok := hs.writeOk hop hwrite
    rw [hphase] at hok
    exact ⟨hok.cur, hok.new⟩
  | write hphase hwrites => exact hs.keys_write hphase hwrites key
  | @promote th shouldPromote key' top n got hphase =>
    have hop : (s.phase th).op = some (.get shouldPromote, key') := by rw [hphase]; rfl
    exact hs.keys_get (t := setPhase (promoteBucket s key' n) th _) hop rfl rfl
      (fun n' key'' => bucketFind_promoteBucket s key' key'' n n' _) rfl rfl rfl key
  | finish hphase => exact hs.keys_finish hphase key
  | resize hresizes => exact hresizes.keys hs key
  | copy hresize hne => exact hs.keys_copy hresize hne _ key
  | @delete n i moved maxMove key' v rest hresize =>
    exact KeyOk.mono (s := s) (fun n' => (shrinks_delete s n i key' _).lookupAt n' key) rfl rfl rfl
      (fun _ _ => rfl) (hs.keys key)

end HybridCache.CompactCache

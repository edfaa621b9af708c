import Mathlib
import HybridCache.CompactCacheResize

/-!
# Read after write

A `get` that is called after a write has returned, and returns before the next one is called,
finds what the write has left or nothing.
-/
namespace HybridCache.CompactCache
open Function

variable {Key Value : Type} [DecidableEq Key] {cfg : Config Key Value} {s t : State cfg}
  {th : Fin cfg.threads} {key : Key} {op : Op Value}

lemma GetOk.mono (hphase : t.phase th = s.phase th)
    (hexpect : t.expect th = s.expect th) (hversion : ∀ key, s.version key ≤ t.version key)
    (hkey : ∀ key, t.version key = s.version key → s.writer key = none →
      t.writer key = none ∧ t.latest key = s.latest key)
    (hless : ∀ key chunk, s.writer key = none → (s.phase th).chunk = some (key, chunk) →
      OrMiss (lookupAt t chunk key) (lookupAt s chunk key))
    (h : GetOk s th) : GetOk t th := by
  intro op key version v hop hget hexp
  rw [hphase] at hop
  rw [hexpect] at hexp
  obtain ⟨hle, hok⟩ := h op key version v hop hget hexp
  refine ⟨hle.trans (hversion key), fun heq => ?_⟩
  have hsame : s.version key = version := le_antisymm (heq ▸ hversion key) hle
  obtain ⟨hwriter, hlatest, hgot⟩ := hok hsame
  obtain ⟨hwriter', hlatest'⟩ := hkey key (heq.trans hsame.symm) hwriter
  refine ⟨hwriter', hlatest'.trans hlatest, ?_⟩
  rw [hphase]
  refine GotOk.mono (hless key · hwriter) (fun op' key' hop' => ?_) hgot
  exact (Prod.mk.inj (Option.some.inj (hop'.symm.trans hop))).2

lemma Inv.gets_setPhase (hs : Inv s) {p : Phase Key Value} (hphase : t.phase = update s.phase th p)
    (hexpect : t.expect = s.expect) (hversion : t.version = s.version)
    (hwriter : t.writer = s.writer) (hlatest : t.latest = s.latest)
    (hless : ∀ n key, s.writer key = none → OrMiss (lookupAt t n key) (lookupAt s n key))
    (hop : p.op = (s.phase th).op)
    (hp : ∀ op key v, p.op = some (op, key) → op.isWrite = false → s.writer key = none →
      s.latest key = v → GotOk s key v (s.phase th) → GotOk t key v p)
    (th' : Fin cfg.threads) : GetOk t th' := by
  by_cases hth : th' = th
  · subst hth
    intro op key version v hop' hget hexp
    rw [hphase, update_self] at hop'
    rw [hexpect] at hexp
    obtain ⟨hle, hok⟩ := hs.gets th' op key version v (hop ▸ hop') hget hexp
    rw [hversion, hwriter, hlatest]
    refine ⟨hle, fun heq => ?_⟩
    obtain ⟨hnone, hv, hgot⟩ := hok heq
    refine ⟨hnone, hv, ?_⟩
    rw [hphase, update_self]
    exact hp op key v hop' hget hnone hv hgot
  · refine GetOk.mono (s := s) (by rw [hphase, update_of_ne hth]) (by rw [hexpect])
      (fun key => by rw [hversion]) (fun key _ hnone => ?_) (fun key chunk hnone _ => hless _ _ hnone)
      (hs.gets th')
    rw [hwriter, hlatest]
    exact ⟨hnone, rfl⟩

lemma Inv.find (hs : Inv s) (hwriter : s.writer key = none) :
    OrMiss (lookupAt s (cfg.chunkIndex s.numChunks key) key) (s.latest key) := by
  have hok := hs.keys key
  unfold KeyOk at hok
  rw [hwriter] at hok
  exact hok.cur

lemma Moves.gotOk (hs : Inv s) {p p' : Phase Key Value} (h : Moves s p p')
    {v : Option Value} (hop : p'.op = some (op, key))
    (hwriter : s.writer key = none) (hlatest : s.latest key = v) (hgot : GotOk s key v p)
    (hsecond : p.second = none) : GotOk s key v p' := by
  cases h with
  | find =>
    cases hop
    rw [← hlatest]
    exact hs.find hwriter
  | get | wantsPromote =>
    cases hop
    exact hgot
  | promoteTimeout => exact hgot
  | load | timeout => trivial
  | noDbl | foundPending | sameChunk | foundDbl => cases hsecond

lemma Roles.second_of_get (hs : Roles s) {op : Op Value}
    (hop : (s.phase th).op = some (op, key)) (hget : op.isWrite = false) :
    (s.phase th).second = none := by
  have hwrite := hs.second th op
  cases hphase : s.phase th with
  | findDbl | foundPending | applyDbl =>
    rw [hphase] at hop hwrite
    cases hop
    rw [hwrite rfl] at hget
    cases hget
  | _ => rfl

lemma finish_expect (s : State cfg) (th : Fin cfg.threads) (op : Op Value) (key : Key) (top : Bool)
    (outcome : Outcome Value) : (finish s th op key top outcome).expect = s.expect ∧
      (finish s th op key top outcome).version = s.version ∧
      (finish s th op key top outcome).table = s.table := by
  unfold CompactCache.finish
  split <;> exact ⟨rfl, rfl, rfl⟩

lemma finish_latest (s : State cfg) (th : Fin cfg.threads) (op : Op Value) {key' : Key}
    (top : Bool) (outcome : Outcome Value) (hkey : ¬(key' = key ∧ op.isWrite = true)) :
    (finish s th op key top outcome).latest key' = s.latest key' := by
  unfold CompactCache.finish
  cases hwrite : op.isWrite <;> cases outcome
  · rfl
  · rfl
  · exact update_of_ne (fun heq => hkey ⟨heq, hwrite⟩) _ _
  · rfl

lemma change_gets (hs : Inv s) (h : Change s t) (th' : Fin cfg.threads) : GetOk t th' := by
  have hrefl : ∀ n key, s.writer key = none → OrMiss (lookupAt s n key) (lookupAt s n key) :=
    fun n key _ => .refl _
  cases h with
  | @callWrite th op key hphase hop hwriter =>
    by_cases hth : th' = th
    · subst hth
      intro op' key' version v hop' hget
      simp only [callWrite, setPhase, update_self] at hop'
      cases hop'
      rw [hop] at hget
      cases hget
    · refine GetOk.mono (s := s) (update_of_ne hth _ _) rfl (fun key' => ?_) (fun key' heq hnone => ?_)
        (fun key' chunk _ _ => .refl _) (hs.gets th')
      · simp only [callWrite, update_apply]
        split_ifs with hkey
        · rw [hkey]
          exact Nat.le_succ _
        · exact le_rfl
      · have hkey : key' ≠ key := by
          rintro rfl
          simp only [callWrite, update_self] at heq
          omega
        exact ⟨(update_of_ne hkey _ _).trans hnone, rfl⟩
  | @callGet th op key hphase hop =>
    by_cases hth : th' = th
    · subst hth
      intro op' key' version v hop' hget hexp
      simp only [callGet, setPhase, update_self] at hop' hexp
      cases hop'
      unfold expectation at hexp
      split_ifs at hexp with hsome
      cases hexp
      have hnone : s.writer key = none := by simpa using hsome
      refine ⟨le_rfl, fun _ => ⟨hnone, rfl, ?_⟩⟩
      simp only [callGet, setPhase, update_self]
      trivial
    · exact GetOk.mono (s := s) (update_of_ne hth _ _) (update_of_ne hth _ _) (fun _ => le_rfl)
        (fun key' _ hnone => ⟨hnone, rfl⟩) (fun key' chunk _ _ => .refl _) (hs.gets th')
  | @move th p p' hphase hmoves =>
    refine hs.gets_setPhase (t := setPhase s th p') rfl rfl rfl rfl rfl hrefl
      (by rw [hphase, hmoves.op]) (fun op key v hop hget hnone hv hgot => ?_) th'
    have hsecond : (s.phase th).second = none :=
      hs.roles.second_of_get (by rw [hphase, ← hmoves.op]; exact hop) hget
    rw [hphase] at hgot hsecond
    have hok := hmoves.gotOk hs hop hnone hv hgot hsecond
    exact GotOk.mono (fun _ _ => .refl _) (fun op' key' hop' =>
      (Prod.mk.inj (Option.some.inj (hop'.symm.trans hop))).2) hok
  | @enter th op key top hphase =>
    exact hs.gets_setPhase (t := setPhase { s with cohort := s.cohort.incr top } th (.find op key top))
      rfl rfl rfl rfl rfl hrefl (by rw [hphase]; rfl) (fun _ _ _ _ _ _ _ _ => trivial) th'
  | @miss th op key top hphase =>
    exact hs.gets_setPhase (t := setPhase { s with cohort := s.cohort.incr top } th (.retry op key top))
      rfl rfl rfl rfl rfl hrefl (by rw [hphase]; rfl) (fun _ _ _ _ _ _ _ _ => trivial) th'
  | @retry th op key top hphase =>
    exact hs.gets_setPhase (t := setPhase { s with cohort := s.cohort.decr top } th (.begin op key))
      rfl rfl rfl rfl rfl hrefl (by rw [hphase]; rfl) (fun _ _ _ _ _ _ _ _ => trivial) th'
  | @write th p p' op key n hphase hwrites hfree =>
    obtain ⟨hwrite, -, -⟩ := hs.writes hphase hwrites
    have hop : (s.phase th).op = some (op, key) := by rw [hphase, hwrites.op.1]
    refine hs.gets_setPhase (t := setPhase (writeBucket s op key n) th p') rfl rfl rfl rfl rfl
      (fun n' key' hnone => ?_) (by rw [hop, hwrites.op.2]) (fun op' key' v hop' hget => ?_) th'
    · -- a key that is not written
      refine (touches_write s op key n).lookupAt fun hsame => ?_
      rw [hsame.2, hs.roles.writer th op key hop hwrite] at hnone
      cases hnone
    · rw [hwrites.op.2] at hop'
      cases hop'
      rw [hwrite] at hget
      cases hget
  | @promote th shouldPromote key top n got hphase =>
    refine hs.gets_setPhase (t := setPhase (promoteBucket s key n) th _) rfl rfl rfl rfl rfl
      (fun n' key' _ => Or.inr (bucketFind_promoteBucket s key key' n n' _)) (by rw [hphase]; rfl)
      (fun op' key' v hop' hget _ _ hgot => ?_) th'
    rw [hphase] at hgot
    exact hgot
  | @finish th op key top outcome hphase =>
    obtain ⟨hexpect, hversion, htable⟩ := finish_expect s th op key top outcome
    have hop : (s.phase th).op = some (op, key) := by rw [hphase]; rfl
    by_cases hth : th' = th
    · subst hth
      intro op' key' version v hop'
      rw [finish_phase, update_self] at hop'
      cases hop'
    · refine GetOk.mono (s := s) (by rw [finish_phase, update_of_ne hth]) (by rw [hexpect])
        (fun _ => by rw [hversion]) (fun key' _ hnone => ?_) (fun key' chunk _ _ => ?_) (hs.gets th')
      · have hkey : ¬(key' = key ∧ op.isWrite = true) := by
          rintro ⟨rfl, hwrite⟩
          rw [hs.roles.writer th op key' hop hwrite] at hnone
          cases hnone
        refine ⟨?_, finish_latest s th op top outcome hkey⟩
        rw [finish_writer]
        split_ifs with hwrite
        · rw [update_of_ne fun heq => hkey ⟨heq, hwrite⟩]
          exact hnone
        · exact hnone
      · rw [lookupAt, lookupAt, htable]
        exact .refl _
  | @resize t hresizes =>
    have hsame : ∀ {t : State cfg}, t.phase = s.phase → t.expect = s.expect →
        t.version = s.version → t.writer = s.writer → t.latest = s.latest →
        t.table = s.table → GetOk t th' := by
      intro t hphase hexpect hversion hwriter hlatest htable
      refine GetOk.mono (s := s) (by rw [hphase]) (by rw [hexpect]) (fun _ => by rw [hversion])
        (fun key' _ hnone => by rw [hwriter, hlatest]; exact ⟨hnone, rfl⟩) (fun key' chunk _ _ => ?_)
        (hs.gets th')
      rw [lookupAt, lookupAt, htable]
      exact .refl _
    cases hresizes <;> exact hsame rfl rfl rfl rfl rfl rfl
  | @copy n i moved maxMove key v rest hresize hne =>
    obtain ⟨rfl, hn, -⟩ := hs.copies hresize hne
    refine GetOk.mono (s := s) rfl rfl (fun _ => le_rfl) (fun key' _ hnone => ⟨hnone, rfl⟩)
      (fun key' chunk hnone hchunk => ?_) (hs.gets th')
    refine (touches_copy s key v _).lookupAt fun hsame => ?_
    -- a `get` that has found its chunk reads the old one
    obtain ⟨rfl, rfl⟩ := hsame
    obtain ⟨top, op, htoken, -⟩ := Phase.op_of_chunk hchunk
    have hold := (hs.chunkOk rfl htoken hchunk).old (by rw [hresize]; rfl)
    exact hne (hold.trans hn.symm)
  | @delete n i moved maxMove key v rest hresize =>
    exact GetOk.mono (s := s) rfl rfl (fun _ => le_rfl) (fun key' _ hnone => ⟨hnone, rfl⟩)
      (fun key' chunk _ _ => (shrinks_delete s n i key _).lookupAt chunk key') (hs.gets th')

lemma Inv.result (hs : Inv s) {key : Key}
    {top : Bool} {got : Option Value} (hphase : s.phase th = .finish op key top (.done got))
    (hget : op.isWrite = false) : (getResult s th key got).Good := by
  intro v hv
  simp only [getResult] at hv ⊢
  split at hv
  next version v' hexp =>
    split_ifs at hv with hversion
    obtain rfl := Option.some.inj hv
    obtain ⟨-, -, hgot⟩ := (hs.gets th op key version v' (by rw [hphase]; rfl) hget hexp).2 hversion
    rw [hphase] at hgot
    exact hgot
  next => cases hv

lemma change_results (hs : Inv s) (h : Change s t) : ∀ r ∈ t.results, r.Good := by
  cases h with
  | @finish th op key top outcome hphase =>
    unfold CompactCache.finish
    split
    next => exact hs.results
    next => exact hs.results
    next got hget =>
      intro r hr
      rcases List.mem_cons.1 hr with rfl | hold
      · exact hs.result hphase hget
      · exact hs.results r hold
    next => exact hs.results
  | resize hresizes => cases hresizes <;> exact hs.results
  | _ => exact hs.results

theorem change_inv (hs : Inv s) (h : Change s t) : Inv t where
  drains := change_drains hs.drains h
  tables := change_tables hs h
  roles := change_roles hs.roles h
  keys := change_keys hs h
  gets := change_gets hs h
  results := change_results hs h

/-! ## Result -/

/-- Along every run of one resize with any requests, a `get` that is called after a write of its
key has returned, and returns before the next write of the key is called, gets the value of the
write or a miss, and a miss after a `del`. It is enough that no write leaves an older value
behind because its second load of `numChunks_` has told it not to write twice. -/
theorem get_after_write (cfg : Config Key Value) (as : List (Action cfg)) (s : State cfg)
    (hkeeps : Transition.Meets step StepKeeps (init cfg) as)
    (h : Transition.run step (init cfg) as = some s) :
    ∀ r ∈ s.results, ∀ v, r.expected = some v → r.got = none ∨ r.got = v :=
  (Transition.run_invariant_meets (fun _ _ _ hok hs ht => change_inv hs (step_change hok ht)) hkeeps
    init_inv h).results

/-- Buckets with room for one entry. -/
def oneEntryBucket : BucketDescriptor ℕ ℕ where
  Bucket := Option (ℕ × ℕ)
  empty := none
  entries := Option.toList
  nEntriesCapacity _ := 1
  insert _ key v := some (key, v)
  updateVal _ key v := some (key, v)
  del b key := b.filter (fun e => e.1 ≠ key)
  needsPromote _ _ := false
  promote b _ := b
  entries_empty := rfl
  nodup b := by cases b <;> simp
  insert_self _ _ _ _ := by simp
  insert_other _ _ _ _ hne := by simp [hne]
  updateVal_self _ _ _ _ := by simp
  updateVal_other _ _ _ _ hne := by simp [hne]
  del_self b key := by
    rcases b with - | ⟨key', v⟩
    · rfl
    · by_cases hkey : key' = key <;> simp [Option.filter, hkey, Ne.symm]
  del_other b key key' hne := by
    rcases b with - | ⟨key'', v⟩
    · rfl
    · by_cases hkey : key'' = key
      · subst hkey
        simp [Option.filter, hne]
      · simp [Option.filter, hkey]
  promote_lookup _ _ _ := rfl

/-- The cache grows from one chunk to two, and every key moves to the second one. -/
def growing : Config ℕ ℕ where
  bucket := oneEntryBucket
  chunkIndex n _ := n - 1
  bucketIndex _ := 0
  bucketsPerChunk := 1
  validCb _ := true
  allowPromotions := true
  oldNumChunks := 1
  newNumChunks := 2
  threads := 2
  oldNumChunks_pos := by decide
  newNumChunks_pos := Nat.two_pos

def advances (th : Fin 2) (steps : ℕ) : List (Action growing) :=
  List.replicate steps (.advance th)

/-- A second value is set while the first one is copied. The write has found its first chunk
before, and gets to its chunk after the entry has been copied. -/
def copiedRun : List (Action growing) :=
  .call (0 : Fin 2) (.set 7) 5 :: advances 0 6 ++ List.replicate 3 .resize ++
    .call (1 : Fin 2) (.set 8) 5 :: advances 1 3 ++ List.replicate 3 .resize ++ advances 1 2

def readRun : List (Action growing) :=
  .call (0 : Fin 2) (.get true) 5 :: advances 0 5

/-- The write looks for its second chunk before `numChunks_` changes. -/
def doubleWriteRun : List (Action growing) :=
  copiedRun ++ advances 1 3 ++ List.replicate 3 .resize ++ readRun

theorem doubleWriteRun_reads : ∃ s, Transition.run step (init growing) doubleWriteRun = some s ∧
      s.results.map (fun r => (r.expected, r.got)) = [(some (some 8), some 8)] ∧
      ∀ r ∈ s.results, ∀ v, r.expected = some v → r.got = none ∨ r.got = v :=
  ⟨_, rfl, by decide, get_after_write growing doubleWriteRun _ (by decide +kernel) rfl⟩

/-- The write loads `pendingNumChunks_` before and `numChunks_` after the change. -/
def staleRun : List (Action growing) :=
  copiedRun ++ List.replicate 3 .resize ++ advances 1 2 ++ readRun

/-- The value that was set last is written only where nobody looks for it, and a `get` finds
the copy of the value before. -/
theorem copy_outlives_write : ∃ s, Transition.run step (init growing) staleRun = some s ∧
    s.results.map (fun r => (r.expected, r.got)) = [(some (some 8), some 7)] :=
  ⟨_, rfl, by decide⟩

end HybridCache.CompactCache

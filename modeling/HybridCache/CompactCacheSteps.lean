import HybridCache.CompactCache

/-!
# Steps of the compact cache

What a step does to the buckets, seen from one key: the key is written, copied or deleted, or
it stays as it is or gets lost.
-/
namespace HybridCache.CompactCache
open Function

variable {Key Value : Type} [DecidableEq Key] {cfg : Config Key Value}

/-! ## Buckets seen from a key -/

def OrMiss (x y : Option Value) : Prop := x = none ∨ x = y

lemma OrMiss.refl (x : Option Value) : OrMiss x x := Or.inr rfl

lemma OrMiss.trans {x y z : Option Value} (hxy : OrMiss x y) (hyz : OrMiss y z) : OrMiss x z := by
  rcases hxy with rfl | rfl
  · exact Or.inl rfl
  · exact hyz

variable {key : Key} {s t : State cfg} {th : Fin cfg.threads}

lemma lookup_of_mem {l : List (Key × Value)} (hnodup : (l.map Prod.fst).Nodup)
    {v : Value} (h : (key, v) ∈ l) : l.lookup key = some v := by
  induction l with
  | nil => cases h
  | cons e l ih =>
    obtain ⟨k, w⟩ := e
    rw [List.map_cons, List.nodup_cons] at hnodup
    rcases List.mem_cons.1 h with heq | hmem
    · cases heq
      simp
    · have hne : key ≠ k := by
        rintro rfl
        exact hnodup.1 (List.mem_map.2 ⟨_, hmem, rfl⟩)
      rw [List.lookup_cons, beq_false_of_ne hne]
      exact ih hnodup.2 hmem

section Bucket
variable (D : BucketDescriptor Key Value) (b : D.Bucket) {key : Key}

lemma bucketFind_of_mem {v : Value} (h : (key, v) ∈ D.entries b) :
    bucketFind D b key = some v := lookup_of_mem (D.nodup b) h

lemma bucketFind_set (key : Key) (v : Value) : bucketFind D (bucketSet D b key v) key = some v := by
  unfold bucketSet
  split
  next h => exact D.insert_self b key v h
  next w h => exact D.updateVal_self b key v (by rw [bucketFind] at h; rw [h]; simp)

lemma bucketFind_set_other {key' : Key} (v : Value) (hne : key' ≠ key) :
    OrMiss (bucketFind D (bucketSet D b key v) key') (bucketFind D b key') := by
  unfold bucketSet
  split
  · exact D.insert_other b key v key' hne
  · exact D.updateVal_other b key v key' hne

lemma bucketFind_op {op : Op Value} (hop : op.isWrite = true) (key : Key) :
    bucketFind D (op.bucket D b key) key = op.value := by
  cases op with
  | get => cases hop
  | set v => exact bucketFind_set D b key v
  | del =>
    simp only [Op.bucket, Op.value, bucketDel]
    split
    next h => exact h
    next => exact D.del_self b key

lemma bucketFind_op_other (op : Op Value) {key' : Key} (hne : key' ≠ key) :
    OrMiss (bucketFind D (op.bucket D b key) key') (bucketFind D b key') := by
  cases op with
  | get => exact .refl _
  | set v => exact bucketFind_set_other D b v hne
  | del =>
    simp only [Op.bucket, bucketDel]
    split
    · exact .refl _
    · exact Or.inr (D.del_other b key key' hne)

lemma bucketFind_promote (key key' : Key) :
    bucketFind D (bucketPromote D b key) key' = bucketFind D b key' := by
  unfold bucketPromote
  split
  · rfl
  · split_ifs
    · exact D.promote_lookup b key key'
    · rfl

end Bucket

def lookupAt (s : State cfg) (n : ℕ) (key : Key) : Option Value :=
  bucketFind cfg.bucket (s.table n (cfg.bucketIndex key)) key

lemma setBucket_apply (table : ℕ → ℕ → cfg.bucket.Bucket) (n i : ℕ) (b : cfg.bucket.Bucket)
    (n' i' : ℕ) :
    setBucket table n i b n' i' = if n' = n ∧ i' = i then b else table n' i' := by
  simp only [setBucket, update_apply]
  by_cases hn : n' = n
  · subst hn
    by_cases hi : i' = i <;> simp [hi]
  · simp [hn]

/-- Another bucket is not touched. -/
lemma setBucket_of_ne {table : ℕ → ℕ → cfg.bucket.Bucket} {n i n' i' : ℕ} {b : cfg.bucket.Bucket}
    (h : ¬(n' = n ∧ i' = i)) : setBucket table n i b n' i' = table n' i' := by
  rw [setBucket_apply, if_neg h]

lemma setBucket_self (table : ℕ → ℕ → cfg.bucket.Bucket) (n i : ℕ) (b : cfg.bucket.Bucket) :
    setBucket table n i b n i = b := by rw [setBucket_apply, if_pos ⟨rfl, rfl⟩]

/-! ## Steps -/

/-- A step of a request that changes nothing else. A write that does not write twice has
found the chunk that it has written before, or one that has nothing older for the key. -/
inductive Moves (s : State cfg) : Phase Key Value → Phase Key Value → Prop
  | load {op : Op Value} {key : Key} :
      Moves s (.begin op key) (.loaded op key s.cohort.isTop)
  | find {op : Op Value} {key : Key} {top : Bool} :
      Moves s (.find op key top) (.apply op key top (cfg.chunkIndex s.numChunks key))
  | get {shouldPromote : Bool} {key : Key} {top : Bool} {chunk : ℕ} :
      Moves s (.apply (.get shouldPromote) key top chunk)
        (.finish (.get shouldPromote) key top (.done (lookupAt s chunk key)))
  | wantsPromote {shouldPromote : Bool} {key : Key} {top : Bool} {chunk : ℕ} :
      Moves s (.apply (.get shouldPromote) key top chunk)
        (.promote shouldPromote key top chunk (lookupAt s chunk key))
  | noDbl {op : Op Value} {key : Key} {top : Bool} {chunk : ℕ} : s.pendingNumChunks = 0 →
      Moves s (.findDbl op key top chunk) (.finish op key top (.done none))
  | foundPending {op : Op Value} {key : Key} {top : Bool} {chunk : ℕ} :
      s.pendingNumChunks ≠ 0 →
      Moves s (.findDbl op key top chunk) (.foundPending op key top chunk s.pendingNumChunks)
  | sameChunk {op : Op Value} {key : Key} {top : Bool} {chunk pending : ℕ} :
      cfg.chunkIndex s.numChunks key = cfg.chunkIndex pending key →
      (cfg.chunkIndex s.numChunks key = chunk ∨
        OrMiss (lookupAt s (cfg.chunkIndex s.numChunks key) key) op.value) →
      Moves s (.foundPending op key top chunk pending) (.finish op key top (.done none))
  | foundDbl {op : Op Value} {key : Key} {top : Bool} {chunk pending : ℕ} :
      cfg.chunkIndex s.numChunks key ≠ cfg.chunkIndex pending key →
      Moves s (.foundPending op key top chunk pending)
        (.applyDbl op key top chunk (cfg.chunkIndex pending key))
  | timeout {op : Op Value} {key : Key} {top : Bool} {chunk : ℕ} :
      Moves s (.apply op key top chunk) (.finish op key top .timeout)
  | promoteTimeout {shouldPromote : Bool} {key : Key} {top : Bool} {chunk : ℕ}
      {got : Option Value} :
      Moves s (.promote shouldPromote key top chunk got)
        (.finish (.get shouldPromote) key top (.done got))

/-- A write of a bucket by a request. -/
inductive Writes (s : State cfg) : Phase Key Value → Op Value → Key → ℕ → Phase Key Value → Prop
  | first {op : Op Value} {key : Key} {top : Bool} {chunk : ℕ} : op.isWrite = true →
      Writes s (.apply op key top chunk) op key chunk (.findDbl op key top chunk)
  | second {op : Op Value} {key : Key} {top : Bool} {chunk chunkNew : ℕ} :
      Writes s (.applyDbl op key top chunk chunkNew) op key chunkNew
        (.finish op key top (.done none))

/-- A step of the resizer that does not touch the buckets. -/
inductive Resizes (s : State cfg) : State cfg → Prop
  | start : s.resize = .start → Resizes s { s with
      pendingNumChunks := cfg.newNumChunks
      resize := .switch .copy }
  | switch {next : Stage} : s.resize = .switch next → Resizes s { s with
      cohort := { s.cohort with isTop := !s.cohort.isTop }
      resize := .drain next }
  | drained {next : Stage} : s.resize = .drain next → s.cohort.refs (!s.cohort.isTop) = 0 →
      Resizes s { s with resize := match next with
        | .copy => .rehash .copy 0 0
        | .clear => .clear
        | .delete => .rehash .delete 0 0 }
  | next {op : RehashOperation} {n i : ℕ} : s.resize = .rehash op n i →
      Resizes s { s with resize := nextBucket s op n i }
  | visited {op : RehashOperation} {n i moved maxMove : ℕ} :
      s.resize = .visit op n i [] moved maxMove →
      Resizes s { s with resize := .rehash op n (i + 1) }
  | skip {op : RehashOperation} {n i moved maxMove : ℕ} {e : Key × Value}
      {rest : List (Key × Value)} : s.resize = .visit op n i (e :: rest) moved maxMove →
      Resizes s { s with resize := .visit op n i rest moved maxMove }
  | update : s.resize = .update → Resizes s { s with
      numChunks := cfg.newNumChunks
      resize := .switch .clear }
  | clear : s.resize = .clear → Resizes s { s with
      pendingNumChunks := 0
      resize := .switch .delete }

inductive Change (s : State cfg) : State cfg → Prop
  | callWrite {th : Fin cfg.threads} {op : Op Value} {key : Key} : s.phase th = .idle →
      op.isWrite = true → s.writer key = none → Change s (callWrite s th op key)
  | callGet {th : Fin cfg.threads} {op : Op Value} {key : Key} : s.phase th = .idle →
      op.isWrite = false → Change s (callGet s th op key)
  | move {th : Fin cfg.threads} {p p' : Phase Key Value} : s.phase th = p → Moves s p p' →
      Change s (setPhase s th p')
  | enter {th : Fin cfg.threads} {op : Op Value} {key : Key} {top : Bool} :
      s.phase th = .loaded op key top → s.cohort.isTop = top →
      Change s (setPhase { s with cohort := s.cohort.incr top } th (.find op key top))
  | miss {th : Fin cfg.threads} {op : Op Value} {key : Key} {top : Bool} :
      s.phase th = .loaded op key top →
      Change s (setPhase { s with cohort := s.cohort.incr top } th (.retry op key top))
  | retry {th : Fin cfg.threads} {op : Op Value} {key : Key} {top : Bool} :
      s.phase th = .retry op key top →
      Change s (setPhase { s with cohort := s.cohort.decr top } th (.begin op key))
  | write {th : Fin cfg.threads} {p p' : Phase Key Value} {op : Op Value} {key : Key} {n : ℕ} :
      s.phase th = p → Writes s p op key n p' → locked s n (cfg.bucketIndex key) = false →
      Change s (setPhase (writeBucket s op key n) th p')
  | promote {th : Fin cfg.threads} {shouldPromote : Bool} {key : Key} {top : Bool} {n : ℕ}
      {got : Option Value} : s.phase th = .promote shouldPromote key top n got →
      locked s n (cfg.bucketIndex key) = false →
      Change s (setPhase (promoteBucket s key n) th
        (.finish (.get shouldPromote) key top (.done got)))
  | finish {th : Fin cfg.threads} {op : Op Value} {key : Key} {top : Bool}
      {outcome : Outcome Value} : s.phase th = .finish op key top outcome →
      Change s (finish s th op key top outcome)
  | resize {t : State cfg} : Resizes s t → Change s t
  | copy {n i moved maxMove : ℕ} {key : Key} {v : Value} {rest : List (Key × Value)} :
      s.resize = .visit .copy n i ((key, v) :: rest) moved maxMove →
      cfg.chunkIndex cfg.newNumChunks key ≠ n →
      Change s (copyEntry s i key v (.visit .copy n i rest (moved + 1) maxMove))
  | delete {n i moved maxMove : ℕ} {key : Key} {v : Value} {rest : List (Key × Value)} :
      s.resize = .visit .delete n i ((key, v) :: rest) moved maxMove →
      Change s (deleteEntry s n i key (.visit .delete n i rest moved maxMove))

/-- A write whose second load of `numChunks_` does not tell it to write twice has loaded the
same number before, or what it finds there for its key is not older. -/
def StepKeeps (s : State cfg) : Action cfg → Prop
  | .advance th =>
    match s.phase th with
    | .foundPending op key _ chunk pending =>
      cfg.chunkIndex s.numChunks key = cfg.chunkIndex pending key →
        cfg.chunkIndex s.numChunks key = chunk ∨
          OrMiss (lookupAt s (cfg.chunkIndex s.numChunks key) key) op.value
    | _ => True
  | _ => True

instance [DecidableEq Value] (s : State cfg) (a : Action cfg) : Decidable (StepKeeps s a) := by
  unfold StepKeeps OrMiss
  split
  · split <;> infer_instance
  · infer_instance

lemma call_change {op : Op Value}
    (hphase : s.phase th = .idle) (h : call s th op key = some t) : Change s t := by
  simp only [call] at h
  split_ifs at h with hop hwriter
  · cases h
    exact .callWrite hphase hop (by simpa using hwriter)
  · cases h
    exact .callGet hphase (by simpa using hop)

lemma advance_change (hkeeps : StepKeeps s (.advance th))
    (h : advance s th = some t) : Change s t := by
  unfold advance at h
  simp only [StepKeeps] at hkeeps
  split at h
  next => cases h
  next op key hphase =>
    cases h
    exact .move hphase .load
  next op key top hphase =>
    cases h
    by_cases htop : s.cohort.isTop = top
    · simp only [htop, if_true]
      exact .enter hphase htop
    · simp only [htop, if_false]
      exact .miss hphase
  next op key top hphase =>
    cases h
    exact .retry hphase
  next op key top hphase =>
    cases h
    exact .move hphase .find
  next op key top chunk hphase =>
    split_ifs at h with hlocked
    have hfree : locked s chunk (cfg.bucketIndex key) = false := by simpa using hlocked
    cases op with
    | get shouldPromote =>
      cases h
      simp only [applyGet]
      split_ifs
      · exact .move hphase .wantsPromote
      · exact .move hphase .get
    | set | del =>
      cases h
      exact .write hphase (.first rfl) hfree
  next shouldPromote key top chunk got hphase =>
    split_ifs at h with hlocked
    cases h
    exact .promote hphase (by simpa using hlocked)
  next op key top chunk hphase =>
    split_ifs at h with hpending
    · cases h
      exact .move hphase (.noDbl hpending)
    · cases h
      exact .move hphase (.foundPending hpending)
  next op key top chunk pending hphase =>
    rw [hphase] at hkeeps
    split_ifs at h with hsame
    · cases h
      exact .move hphase (.sameChunk hsame (hkeeps hsame))
    · cases h
      exact .move hphase (.foundDbl hsame)
  next op key top chunk chunkNew hphase =>
    split_ifs at h with hlocked
    cases h
    exact .write hphase .second (by simpa using hlocked)
  next op key top outcome hphase =>
    cases h
    exact .finish hphase

lemma timeout_change (h : timeout s th = some t) : Change s t := by
  unfold timeout at h
  split at h
  next op key top chunk hphase =>
    cases h
    exact .move hphase .timeout
  next shouldPromote key top chunk got hphase =>
    cases h
    exact .move hphase .promoteTimeout
  next => cases h

lemma visitEntry_change {op : RehashOperation} {n i moved maxMove : ℕ}
    {v : Value} {rest : List (Key × Value)}
    (h : s.resize = .visit op n i ((key, v) :: rest) moved maxMove) :
    Change s (visitEntry s op n i key v rest moved maxMove) := by
  simp only [visitEntry]
  by_cases hchunk : cfg.chunkIndex cfg.newNumChunks key = n
  · rw [if_pos hchunk]
    exact .resize (.skip h)
  · rw [if_neg hchunk]
    cases op with
    | copy =>
      split_ifs
      · exact .copy h hchunk
      · exact .resize (.skip h)
    | delete => exact .delete h

lemma resize_change (h : resize s = some t) : Change s t := by
  unfold resize at h
  split at h
  next hresize =>
    cases h
    exact .resize (.start hresize)
  next next hresize =>
    cases h
    exact .resize (.switch hresize)
  next next hresize =>
    split_ifs at h with hrefs
    cases next with
    | _ =>
      cases h
      exact .resize (.drained hresize hrefs)
  next op n i hresize =>
    cases h
    exact .resize (.next hresize)
  next op n i moved maxMove hresize =>
    cases h
    exact .resize (.visited hresize)
  next op n i key v rest moved maxMove hresize =>
    cases h
    exact visitEntry_change hresize
  next hresize =>
    cases h
    exact .resize (.update hresize)
  next hresize =>
    cases h
    exact .resize (.clear hresize)
  next => cases h

lemma step_change {a : Action cfg} (hkeeps : StepKeeps s a)
    (h : step s a = some t) : Change s t := by
  cases a with
  | call th op key =>
    simp only [step] at h
    split at h
    next hphase => exact call_change hphase h
    next => cases h
  | advance th => exact advance_change hkeeps h
  | timeout th => exact timeout_change h
  | resize => exact resize_change h

end HybridCache.CompactCache

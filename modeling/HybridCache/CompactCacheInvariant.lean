import HybridCache.CompactCacheDrain

/-!
# What the chunks have for a key

While no write of a key is in progress, the chunk that is read and the new chunk have what the
last write has left, or nothing. A write in progress has changed the first chunk that it has
found, and maybe not yet the new one.
-/
namespace HybridCache.CompactCache
open Function

variable {Key Value : Type} [DecidableEq Key] {cfg : Config Key Value}

def oldChunk (cfg : Config Key Value) (key : Key) : ℕ := cfg.chunkIndex cfg.oldNumChunks key

def newChunk (cfg : Config Key Value) (key : Key) : ℕ := cfg.chunkIndex cfg.newNumChunks key

/-! ## Invariant -/

/-- The chunk that is read and the new chunk have a value, or miss it. -/
structure Settled (s : State cfg) (key : Key) (v : Option Value) : Prop where
  cur : OrMiss (lookupAt s (cfg.chunkIndex s.numChunks key) key) v
  new : OrMiss (lookupAt s (newChunk cfg key) key) v

structure Halfway (s : State cfg) (key : Key) (v : Option Value) (chunk : ℕ) : Prop where
  first : OrMiss (lookupAt s chunk key) v
  new : lookupAt s (newChunk cfg key) key = s.latest key ∨
    OrMiss (lookupAt s (newChunk cfg key) key) v

def WriteOk (s : State cfg) (key : Key) : Phase Key Value → Prop
  | .findDbl op _ _ chunk => Halfway s key op.value chunk
  | .foundPending op _ _ chunk pending =>
    pending = cfg.newNumChunks ∧ Halfway s key op.value chunk
  | .applyDbl op _ _ chunk chunkNew => chunkNew = newChunk cfg key ∧ Halfway s key op.value chunk
  | .finish op _ _ (.done _) => Settled s key op.value
  | _ => Settled s key (s.latest key)

def KeyOk (s : State cfg) (key : Key) : Prop :=
  match s.writer key with
  | none => Settled s key (s.latest key)
  | some th => WriteOk s key (s.phase th)

def Phase.op : Phase Key Value → Option (Op Value × Key)
  | .idle => none
  | .begin op key | .loaded op key _ | .retry op key _ | .find op key _ | .apply op key _ _
  | .findDbl op key _ _ | .foundPending op key _ _ _ | .applyDbl op key _ _ _
  | .finish op key _ _ => some (op, key)
  | .promote shouldPromote key _ _ _ => some (.get shouldPromote, key)

variable {key : Key} {n : ℕ} {s t : State cfg}

omit [DecidableEq Key] in
lemma Phase.op_of_chunk {p : Phase Key Value} {chunk : ℕ}
    (h : p.chunk = some (key, chunk)) : ∃ top op, p.token = some top ∧ p.op = some (op, key) := by
  cases p with
  | apply | promote | findDbl | foundPending | applyDbl =>
    cases h
    exact ⟨_, _, rfl, rfl⟩
  | _ => cases h

def Phase.second : Phase Key Value → Option (Op Value)
  | .findDbl op _ _ _ | .foundPending op _ _ _ _ | .applyDbl op _ _ _ _ => some op
  | _ => none

/-- The writes in progress are those of the threads. -/
structure Roles (s : State cfg) : Prop where
  writer : ∀ th op key, (s.phase th).op = some (op, key) → op.isWrite = true →
    s.writer key = some th
  op : ∀ key th, s.writer key = some th →
    ∃ op, (s.phase th).op = some (op, key) ∧ op.isWrite = true
  second : ∀ th op, (s.phase th).second = some op → op.isWrite = true

def GotOk (s : State cfg) (key : Key) (v : Option Value) : Phase Key Value → Prop
  | .apply _ _ _ chunk => OrMiss (lookupAt s chunk key) v
  | .promote _ _ _ _ got => OrMiss got v
  | .finish _ _ _ (.done got) => OrMiss got v
  | _ => True

def GetOk (s : State cfg) (th : Fin cfg.threads) : Prop :=
  ∀ op key version v, (s.phase th).op = some (op, key) → op.isWrite = false →
    s.expect th = some (version, v) → version ≤ s.version key ∧
      (s.version key = version → s.writer key = none ∧ s.latest key = v ∧
        GotOk s key v (s.phase th))

def Phase.doubles : Phase Key Value → Bool
  | .foundPending .. | .applyDbl .. => true
  | _ => false

structure Tables (s : State cfg) : Prop where
  /-- Entries are in their bucket of the old or of the new chunk. -/
  home : ∀ n i key, bucketFind cfg.bucket (s.table n i) key ≠ none →
    cfg.bucketIndex key = i ∧ (n = oldChunk cfg key ∨ n = newChunk cfg key)
  /-- New chunks have nothing before the resize. -/
  fresh : s.resize = .start → ∀ key, oldChunk cfg key ≠ newChunk cfg key →
    lookupAt s (newChunk cfg key) key = none
  single : s.resize = .start → ∀ th, (s.phase th).doubles = false
  /-- The entries of a bucket that is locked by the resizer do not change. -/
  visit : ∀ n i rest moved maxMove, s.resize = .visit .copy n i rest moved maxMove →
    ∀ e ∈ rest, bucketFind cfg.bucket (s.table n i) e.1 = some e.2

def Result.Good (r : Result Key Value) : Prop := ∀ v, r.expected = some v → OrMiss r.got v

structure Inv (s : State cfg) : Prop where
  drains : Drains s
  tables : Tables s
  roles : Roles s
  keys : ∀ key, KeyOk s key
  gets : ∀ th, GetOk s th
  results : ∀ r ∈ s.results, r.Good

lemma init_inv : Inv (init cfg) where
  drains := init_drains
  tables := by
    have hnone : ∀ key, bucketFind cfg.bucket cfg.bucket.empty key = none := fun key => by
      rw [bucketFind, cfg.bucket.entries_empty]
      rfl
    exact ⟨fun n i key h => absurd (hnone key) h, fun _ key _ => hnone key, fun _ _ => rfl, by simp [init]⟩
  roles := by constructor <;> simp [init, Phase.op, Phase.second]
  keys key := by
    have hnone : ∀ n, lookupAt (init cfg) n key = none := fun n => by
      rw [lookupAt, init, bucketFind, cfg.bucket.entries_empty]
      rfl
    exact ⟨Or.inl (hnone _), Or.inl (hnone _)⟩
  gets th := by simp [GetOk, init]
  results := by simp [init]

/-! ## Changes of the table -/

def Touches (s t : State cfg) (n : ℕ) (key : Key) : Prop :=
  ∀ n' i' key', ¬(n' = n ∧ i' = cfg.bucketIndex key ∧ key' = key) →
    OrMiss (bucketFind cfg.bucket (t.table n' i') key') (bucketFind cfg.bucket (s.table n' i') key')

lemma Touches.lookupAt (h : Touches s t n key) {n' : ℕ}
    {key' : Key} (hne : ¬(n' = n ∧ key' = key)) :
    OrMiss (lookupAt t n' key') (CompactCache.lookupAt s n' key') :=
  h n' _ key' fun hcon => hne ⟨hcon.1, hcon.2.2⟩

lemma touches_setBucket {b : cfg.bucket.Bucket}
    (ht : t.table = setBucket s.table n (cfg.bucketIndex key) b)
    (hb : ∀ key', key' ≠ key → OrMiss (bucketFind cfg.bucket b key')
      (bucketFind cfg.bucket (s.table n (cfg.bucketIndex key)) key')) : Touches s t n key := by
  intro n' i' key' hne
  rw [ht, setBucket_apply]
  split_ifs with h
  · obtain ⟨rfl, rfl⟩ := h
    exact hb key' fun hkey => hne ⟨rfl, rfl, hkey⟩
  · exact .refl _

section
variable (s : State cfg)

lemma touches_write (op : Op Value) (key : Key) (n : ℕ) :
    Touches s (writeBucket s op key n) n key :=
  touches_setBucket rfl fun _ hne => bucketFind_op_other _ _ op hne

lemma lookupAt_write {op : Op Value} (hop : op.isWrite = true) (key : Key) (n : ℕ) :
    lookupAt (writeBucket s op key n) n key = op.value := by
  simp only [lookupAt, writeBucket, setBucket_self]
  exact bucketFind_op _ _ hop key

lemma lookupAt_write_of_ne (op : Op Value) (key : Key) {n' : ℕ} (hne : n' ≠ n) :
    lookupAt (writeBucket s op key n) n' key = lookupAt s n' key := by
  have hother : ¬(n' = n ∧ cfg.bucketIndex key = cfg.bucketIndex key) := fun h => hne h.1
  simp only [lookupAt, writeBucket, setBucket_of_ne hother]

lemma touches_copy (key : Key) (v : Value) (next : Resize Key Value) :
    Touches s (copyEntry s (cfg.bucketIndex key) key v next) (newChunk cfg key) key :=
  touches_setBucket rfl fun _ hne => bucketFind_set_other _ _ v hne

lemma lookupAt_copy (key : Key) (v : Value) (next : Resize Key Value) :
    lookupAt (copyEntry s (cfg.bucketIndex key) key v next) (newChunk cfg key) key = some v := by
  simp only [lookupAt, copyEntry, newChunk, setBucket_self]
  exact bucketFind_set ..

lemma copyEntry_of_ne (i : ℕ) (key : Key) (v : Value) (next : Resize Key Value)
    (hne : n ≠ newChunk cfg key) (i' : ℕ) :
    (copyEntry s i key v next).table n i' = s.table n i' :=
  setBucket_of_ne fun h => hne h.1

end

def Shrinks (s t : State cfg) : Prop :=
  ∀ n i key, OrMiss (bucketFind cfg.bucket (t.table n i) key)
    (bucketFind cfg.bucket (s.table n i) key)

lemma Shrinks.lookupAt (h : Shrinks s t) (n : ℕ) (key : Key) :
    OrMiss (lookupAt t n key) (CompactCache.lookupAt s n key) := h n _ key

lemma shrinks_delete (s : State cfg) (n i : ℕ) (key : Key) (next : Resize Key Value) :
    Shrinks s (deleteEntry s n i key next) := by
  intro n' i' key'
  simp only [deleteEntry, setBucket_apply]
  split_ifs with h
  · obtain ⟨rfl, rfl⟩ := h
    by_cases hkey : key' = key
    · rw [hkey]
      exact Or.inl (cfg.bucket.del_self _ key)
    · exact Or.inr (cfg.bucket.del_other _ key key' hkey)
  · exact .refl _

lemma bucketFind_promoteBucket (s : State cfg) (key key' : Key) (n n' i' : ℕ) :
    bucketFind cfg.bucket ((promoteBucket s key n).table n' i') key' =
      bucketFind cfg.bucket (s.table n' i') key' := by
  simp only [promoteBucket, setBucket_apply]
  split_ifs with h
  · obtain ⟨rfl, rfl⟩ := h
    exact bucketFind_promote _ _ key key'
  · rfl

/-! ## Keys that are not written -/

section Mono
variable {s t : State cfg} {key : Key} {v : Option Value}
  (hless : ∀ n, OrMiss (lookupAt t n key) (lookupAt s n key))
include hless

lemma Settled.mono (hnum : t.numChunks = s.numChunks) (h : Settled s key v) : Settled t key v := by
  refine ⟨?_, (hless _).trans h.new⟩
  rw [hnum]
  exact (hless _).trans h.cur

lemma Halfway.mono (hlatest : t.latest key = s.latest key) {chunk : ℕ}
    (h : Halfway s key v chunk) : Halfway t key v chunk := by
  refine ⟨(hless _).trans h.first, ?_⟩
  rcases h.new with heq | hv
  · rcases hless (newChunk cfg key) with hnone | hsame
    · exact Or.inr (Or.inl hnone)
    · exact Or.inl (by rw [hsame, heq, hlatest])
  · exact Or.inr ((hless _).trans hv)

omit hless in
/-- What is known of the chunks is carried over to another state. -/
lemma KeyOk.transfer (hlatest : t.latest key = s.latest key) (hwriter : t.writer key = s.writer key)
    (hphase : ∀ th, s.writer key = some th → t.phase th = s.phase th)
    (hsettled : ∀ x, Settled s key x → Settled t key x)
    (hhalf : ∀ th, s.writer key = some th → ∀ x key' chunk,
      (s.phase th).chunk = some (key', chunk) → Halfway s key x chunk → Halfway t key x chunk)
    (h : KeyOk s key) : KeyOk t key := by
  unfold KeyOk at h ⊢
  rw [hwriter]
  cases hw : s.writer key with
  | none =>
    rw [hw] at h
    rw [hlatest]
    exact hsettled _ h
  | some th =>
    have hhalf' := hhalf th hw
    have hlatest' : Settled s key (s.latest key) → Settled t key (t.latest key) := by
      rw [hlatest]
      exact hsettled _
    rw [hw] at h
    dsimp only at h ⊢
    rw [hphase th hw]
    cases hp : s.phase th with
    | findDbl op key' top chunk =>
      rw [hp] at h hhalf'
      exact hhalf' _ _ _ rfl h
    | foundPending | applyDbl =>
      rw [hp] at h hhalf'
      exact ⟨h.1, hhalf' _ _ _ rfl h.2⟩
    | finish op key' top outcome =>
      rw [hp] at h
      cases outcome with
      | done got => exact hsettled _ h
      | timeout => exact hlatest' h
    | _ =>
      rw [hp] at h
      exact hlatest' h

lemma KeyOk.mono (hnum : t.numChunks = s.numChunks) (hlatest : t.latest key = s.latest key)
    (hwriter : t.writer key = s.writer key)
    (hphase : ∀ th, s.writer key = some th → t.phase th = s.phase th) (h : KeyOk s key) :
    KeyOk t key :=
  h.transfer hlatest hwriter hphase (fun _ => Settled.mono hless hnum)
    fun _ _ _ _ _ _ => Halfway.mono hless hlatest

omit hless in
lemma GotOk.mono {p : Phase Key Value} (hless : ∀ chunk, p.chunk = some (key, chunk) →
      OrMiss (lookupAt t chunk key) (lookupAt s chunk key))
    (hkey : ∀ op key', p.op = some (op, key') → key' = key) (h : GotOk s key v p) :
    GotOk t key v p := by
  unfold GotOk at h ⊢
  split at h
  next op key' top chunk =>
    obtain rfl := hkey op key' rfl
    exact (hless chunk rfl).trans h
  all_goals exact h

end Mono

end HybridCache.CompactCache

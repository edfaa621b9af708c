import HybridCache.Transition

/-!
# Compact cache

A compact cache is a table of chunks with a fixed number of buckets each. A request takes part
in the current cohort, finds its bucket and works on it under the lock of the bucket. A write
then looks for a second bucket, which it has to write as well while the cache is resized.
Each load of a shared variable is a step of its own, and so is what is done to a bucket under
its lock. The resizer holds the lock of a bucket for as long as it goes through the entries.

The counts of a cohort do not overflow, and buckets have different locks.
-/
namespace HybridCache.CompactCache

open Function

/-- `BucketDescriptor`: what `CompactCache` expects of a kind of buckets. Inserting or updating
an entry may evict others. An entry is named by its key. -/
structure BucketDescriptor (Key Value : Type) [DecidableEq Key] where
  Bucket : Type
  empty : Bucket
  /-- The entries from the first one on. -/
  entries : Bucket → List (Key × Value)
  nEntriesCapacity : Bucket → ℕ
  insert : Bucket → Key → Value → Bucket
  updateVal : Bucket → Key → Value → Bucket
  del : Bucket → Key → Bucket
  needsPromote : Bucket → Key → Bool
  promote : Bucket → Key → Bucket
  entries_empty : entries empty = []
  nodup : ∀ b, ((entries b).map Prod.fst).Nodup
  insert_self : ∀ b k v, (entries b).lookup k = none → (entries (insert b k v)).lookup k = some v
  insert_other : ∀ b k v k', k' ≠ k → (entries (insert b k v)).lookup k' = none ∨
    (entries (insert b k v)).lookup k' = (entries b).lookup k'
  updateVal_self : ∀ b k v, (entries b).lookup k ≠ none →
    (entries (updateVal b k v)).lookup k = some v
  updateVal_other : ∀ b k v k', k' ≠ k → (entries (updateVal b k v)).lookup k' = none ∨
    (entries (updateVal b k v)).lookup k' = (entries b).lookup k'
  del_self : ∀ b k, (entries (del b k)).lookup k = none
  del_other : ∀ b k k', k' ≠ k → (entries (del b k)).lookup k' = (entries b).lookup k'
  promote_lookup : ∀ b k k', (entries (promote b k)).lookup k' = (entries b).lookup k'

structure Config (Key Value : Type) [DecidableEq Key] where
  bucket : BucketDescriptor Key Value
  /-- `furcHash`, of the number of chunks. -/
  chunkIndex : ℕ → Key → ℕ
  /-- The bucket within the chunk, from `MurmurHash2`. -/
  bucketIndex : Key → ℕ
  bucketsPerChunk : ℕ
  validCb : Key → Bool
  allowPromotions : Bool
  oldNumChunks : ℕ
  newNumChunks : ℕ
  threads : ℕ
  oldNumChunks_pos : 0 < oldNumChunks
  newNumChunks_pos : 0 < newNumChunks

inductive Op (Value : Type)
  | get (shouldPromote : Bool)
  | set (v : Value)
  | del
  deriving DecidableEq, Repr

def Op.isWrite {Value : Type} : Op Value → Bool
  | .get _ => false
  | .set _ | .del => true

def Op.value {Value : Type} : Op Value → Option Value
  | .set v => some v
  | .get _ | .del => none

inductive Outcome (Value : Type)
  | done (got : Option Value)
  /-- The lock of the bucket was not available in time. -/
  | timeout
  deriving DecidableEq, Repr

variable {Key Value : Type} [DecidableEq Key]

/-- `callBucketFn`. From `find` on the request has a token of a cohort. -/
inductive Phase (Key Value : Type)
  | idle
  | begin (op : Op Value) (key : Key)
  /-- In `incrActiveReqs`, with the cohort that was loaded. -/
  | loaded (op : Op Value) (key : Key) (top : Bool)
  | retry (op : Op Value) (key : Key) (top : Bool)
  | find (op : Op Value) (key : Key) (top : Bool)
  | apply (op : Op Value) (key : Key) (top : Bool) (chunk : ℕ)
  | promote (shouldPromote : Bool) (key : Key) (top : Bool) (chunk : ℕ) (got : Option Value)
  /-- In `tableFindDblWriteBucket`. -/
  | findDbl (op : Op Value) (key : Key) (top : Bool) (chunk : ℕ)
  /-- `pendingNumChunks_` has been loaded. -/
  | foundPending (op : Op Value) (key : Key) (top : Bool) (chunk pending : ℕ)
  | applyDbl (op : Op Value) (key : Key) (top : Bool) (chunk chunkNew : ℕ)
  | finish (op : Op Value) (key : Key) (top : Bool) (outcome : Outcome Value)

inductive RehashOperation
  | copy
  | delete
  deriving DecidableEq, Repr

/-- What comes after a switch of the cohorts. -/
inductive Stage
  | copy
  | clear
  | delete
  deriving DecidableEq, Repr

inductive Resize (Key Value : Type)
  | start
  | switch (next : Stage)
  /-- Waits for the old cohort. -/
  | drain (next : Stage)
  | rehash (op : RehashOperation) (n i : ℕ)
  /-- With the lock of the bucket. -/
  | visit (op : RehashOperation) (n i : ℕ) (rest : List (Key × Value)) (moved maxMove : ℕ)
  | update
  | clear
  | done

structure Cohort where
  isTop : Bool
  /-- The requests of the top and of the bottom cohort. -/
  refs : Bool → ℕ

/-- The end of a `get`. If no write has been in progress, the value that the key had. -/
structure Result (Key Value : Type) where
  key : Key
  expected : Option (Option Value)
  got : Option Value

structure State (cfg : Config Key Value) where
  numChunks : ℕ
  pendingNumChunks : ℕ
  cohort : Cohort
  table : ℕ → ℕ → cfg.bucket.Bucket
  resize : Resize Key Value
  phase : Fin cfg.threads → Phase Key Value
  /-- What the last write that has returned has left for a key. -/
  latest : Key → Option Value
  /-- The write in progress. -/
  writer : Key → Option (Fin cfg.threads)
  /-- The number of writes that have been called. -/
  version : Key → ℕ
  /-- What a `get` finds when it is called, unless a write is in progress. -/
  expect : Fin cfg.threads → Option (ℕ × Option Value)
  results : List (Result Key Value)

variable {cfg : Config Key Value}

def init (cfg : Config Key Value) : State cfg where
  numChunks := cfg.oldNumChunks
  pendingNumChunks := 0
  cohort := ⟨false, fun _ => 0⟩
  table _ _ := cfg.bucket.empty
  resize := .start
  phase _ := .idle
  latest _ := none
  writer _ := none
  version _ := 0
  expect _ := none
  results := []

/-! ## Buckets -/

def bucketFind (D : BucketDescriptor Key Value) (b : D.Bucket) (key : Key) : Option Value :=
  (D.entries b).lookup key

def bucketSet (D : BucketDescriptor Key Value) (b : D.Bucket) (key : Key) (v : Value) : D.Bucket :=
  match bucketFind D b key with
  | none => D.insert b key v
  | some _ => D.updateVal b key v

def bucketDel (D : BucketDescriptor Key Value) (b : D.Bucket) (key : Key) : D.Bucket :=
  match bucketFind D b key with
  | none => b
  | some _ => D.del b key

def bucketPromote (D : BucketDescriptor Key Value) (b : D.Bucket) (key : Key) : D.Bucket :=
  match bucketFind D b key with
  | none => b
  | some _ => if D.needsPromote b key then D.promote b key else b

/-- `bucketGet` returns `PROMOTE`. -/
def wantsPromote (D : BucketDescriptor Key Value) (b : D.Bucket) (key : Key)
    (shouldPromote : Bool) : Bool :=
  (bucketFind D b key).isSome && shouldPromote && D.needsPromote b key

def Op.bucket (D : BucketDescriptor Key Value) (b : D.Bucket) (key : Key) : Op Value → D.Bucket
  | .get _ => b
  | .set v => bucketSet D b key v
  | .del => bucketDel D b key

def setBucket (table : ℕ → ℕ → cfg.bucket.Bucket) (n i : ℕ) (b : cfg.bucket.Bucket) :
    ℕ → ℕ → cfg.bucket.Bucket :=
  update table n (update (table n) i b)

/-- The resizer has the lock of a bucket. -/
def locked (s : State cfg) (n i : ℕ) : Bool :=
  match s.resize with
  | .visit _ n' i' _ _ _ => n' = n && i' = i
  | _ => false

/-! ## Requests -/

def Cohort.incr (c : Cohort) (top : Bool) : Cohort :=
  { c with refs := update c.refs top (c.refs top + 1) }

def Cohort.decr (c : Cohort) (top : Bool) : Cohort :=
  { c with refs := update c.refs top (c.refs top - 1) }

def setPhase (s : State cfg) (th : Fin cfg.threads) (p : Phase Key Value) : State cfg :=
  { s with phase := update s.phase th p }

def callWrite (s : State cfg) (th : Fin cfg.threads) (op : Op Value) (key : Key) : State cfg :=
  { setPhase s th (.begin op key) with
    writer := update s.writer key (some th)
    version := update s.version key (s.version key + 1) }

def expectation (s : State cfg) (key : Key) : Option (ℕ × Option Value) :=
  if (s.writer key).isSome then none else some (s.version key, s.latest key)

def callGet (s : State cfg) (th : Fin cfg.threads) (op : Op Value) (key : Key) : State cfg :=
  { setPhase s th (.begin op key) with
    expect := update s.expect th (expectation s key) }

/-- A request is called. Writes of one key do not overlap. -/
def call (s : State cfg) (th : Fin cfg.threads) (op : Op Value) (key : Key) : Option (State cfg) :=
  if op.isWrite then
    if (s.writer key).isSome then none else some (callWrite s th op key)
  else some (callGet s th op key)

def getResult (s : State cfg) (th : Fin cfg.threads) (key : Key) (got : Option Value) :
    Result Key Value where
  key := key
  expected := match s.expect th with
    | some (version, v) => if s.version key = version then some v else none
    | none => none
  got := got

def finish (s : State cfg) (th : Fin cfg.threads) (op : Op Value) (key : Key) (top : Bool)
    (outcome : Outcome Value) : State cfg :=
  let t := { setPhase s th .idle with cohort := s.cohort.decr top }
  match op.isWrite, outcome with
  | true, .done _ => { t with
      latest := update s.latest key op.value
      writer := update s.writer key none }
  | true, .timeout => { t with writer := update s.writer key none }
  | false, .done got => { t with results := getResult s th key got :: s.results }
  | false, .timeout => t

def applyGet (s : State cfg) (th : Fin cfg.threads) (shouldPromote : Bool) (key : Key) (top : Bool)
    (chunk : ℕ) : State cfg :=
  let b := s.table chunk (cfg.bucketIndex key)
  let got := bucketFind cfg.bucket b key
  if cfg.allowPromotions && wantsPromote cfg.bucket b key shouldPromote then
    setPhase s th (.promote shouldPromote key top chunk got)
  else setPhase s th (.finish (.get shouldPromote) key top (.done got))

/-- What a request does to its bucket under the lock. -/
def writeBucket (s : State cfg) (op : Op Value) (key : Key) (chunk : ℕ) : State cfg :=
  let i := cfg.bucketIndex key
  { s with table := setBucket s.table chunk i (op.bucket cfg.bucket (s.table chunk i) key) }

def promoteBucket (s : State cfg) (key : Key) (chunk : ℕ) : State cfg :=
  let i := cfg.bucketIndex key
  { s with table := setBucket s.table chunk i (bucketPromote cfg.bucket (s.table chunk i) key) }

/-- A request goes on. -/
def advance (s : State cfg) (th : Fin cfg.threads) : Option (State cfg) :=
  match s.phase th with
  | .idle => none
  | .begin op key => some (setPhase s th (.loaded op key s.cohort.isTop))
  | .loaded op key top =>
    let p := if s.cohort.isTop = top then .find op key top else .retry op key top
    some (setPhase { s with cohort := s.cohort.incr top } th p)
  | .retry op key top => some (setPhase { s with cohort := s.cohort.decr top } th (.begin op key))
  | .find op key top => some (setPhase s th (.apply op key top (cfg.chunkIndex s.numChunks key)))
  | .apply op key top chunk =>
    if locked s chunk (cfg.bucketIndex key) then none
    else match op with
      | .get shouldPromote => some (applyGet s th shouldPromote key top chunk)
      | .set _ | .del => some (setPhase (writeBucket s op key chunk) th (.findDbl op key top chunk))
  | .promote shouldPromote key top chunk got =>
    if locked s chunk (cfg.bucketIndex key) then none
    else some (setPhase (promoteBucket s key chunk) th
      (.finish (.get shouldPromote) key top (.done got)))
  | .findDbl op key top chunk =>
    if s.pendingNumChunks = 0 then some (setPhase s th (.finish op key top (.done none)))
    else some (setPhase s th (.foundPending op key top chunk s.pendingNumChunks))
  | .foundPending op key top chunk pending =>
    if cfg.chunkIndex s.numChunks key = cfg.chunkIndex pending key then
      some (setPhase s th (.finish op key top (.done none)))
    else some (setPhase s th (.applyDbl op key top chunk (cfg.chunkIndex pending key)))
  | .applyDbl op key top _ chunkNew =>
    if locked s chunkNew (cfg.bucketIndex key) then none
    else some (setPhase (writeBucket s op key chunkNew) th (.finish op key top (.done none)))
  | .finish op key top outcome => some (finish s th op key top outcome)

/-- The lock of a bucket is not available in time. -/
def timeout (s : State cfg) (th : Fin cfg.threads) : Option (State cfg) :=
  match s.phase th with
  | .apply op key top _ => some (setPhase s th (.finish op key top .timeout))
  | .promote shouldPromote key top _ got =>
    some (setPhase s th (.finish (.get shouldPromote) key top (.done got)))
  | _ => none

/-! ## Resize -/

def maxMove (cfg : Config Key Value) (b : cfg.bucket.Bucket) : ℕ :=
  let capacity := cfg.bucket.nEntriesCapacity b
  min (max (cfg.newNumChunks * capacity / cfg.oldNumChunks) 1) capacity

/-- An entry is set in its new chunk. The bucket has the same index there. -/
def copyEntry (s : State cfg) (i : ℕ) (key : Key) (v : Value) (next : Resize Key Value) :
    State cfg :=
  let chunkNew := cfg.chunkIndex cfg.newNumChunks key
  { s with
    table := setBucket s.table chunkNew i (bucketSet cfg.bucket (s.table chunkNew i) key v)
    resize := next }

def deleteEntry (s : State cfg) (n i : ℕ) (key : Key) (next : Resize Key Value) : State cfg :=
  { s with
    table := setBucket s.table n i (cfg.bucket.del (s.table n i) key)
    resize := next }

/-- The loop of `tableRehash` over the entries of a bucket. -/
def visitEntry (s : State cfg) (op : RehashOperation) (n i : ℕ) (key : Key) (v : Value)
    (rest : List (Key × Value)) (moved maxMove : ℕ) : State cfg :=
  if cfg.chunkIndex cfg.newNumChunks key = n then
    { s with resize := .visit op n i rest moved maxMove }
  else match op with
    | .copy =>
      if cfg.validCb key = true ∧ moved < maxMove then
        copyEntry s i key v (.visit op n i rest (moved + 1) maxMove)
      else { s with resize := .visit op n i rest moved maxMove }
    | .delete => deleteEntry s n i key (.visit op n i rest moved maxMove)

/-- The loops of `tableRehash` over the chunks and their buckets. -/
def nextBucket (s : State cfg) (op : RehashOperation) (n i : ℕ) : Resize Key Value :=
  if n < cfg.oldNumChunks then
    if i < cfg.bucketsPerChunk then
      .visit op n i (cfg.bucket.entries (s.table n i)) 0 (maxMove cfg (s.table n i))
    else .rehash op (n + 1) 0
  else match op with
    | .copy => .update
    | .delete => .done

def resize (s : State cfg) : Option (State cfg) :=
  match s.resize with
  | .start => some { s with pendingNumChunks := cfg.newNumChunks, resize := .switch .copy }
  | .switch next => some { s with
      cohort := { s.cohort with isTop := !s.cohort.isTop }
      resize := .drain next }
  | .drain next =>
    if s.cohort.refs (!s.cohort.isTop) = 0 then
      match next with
      | .copy => some { s with resize := .rehash .copy 0 0 }
      | .clear => some { s with resize := .clear }
      | .delete => some { s with resize := .rehash .delete 0 0 }
    else none
  | .rehash op n i => some { s with resize := nextBucket s op n i }
  | .visit op n i [] _ _ => some { s with resize := .rehash op n (i + 1) }
  | .visit op n i ((key, v) :: rest) moved maxMove =>
    some (visitEntry s op n i key v rest moved maxMove)
  | .update => some { s with numChunks := cfg.newNumChunks, resize := .switch .clear }
  | .clear => some { s with pendingNumChunks := 0, resize := .switch .delete }
  | .done => none

inductive Action (cfg : Config Key Value)
  | call (th : Fin cfg.threads) (op : Op Value) (key : Key)
  | advance (th : Fin cfg.threads)
  | timeout (th : Fin cfg.threads)
  | resize

def step (s : State cfg) : Action cfg → Option (State cfg)
  | .call th op key =>
    match s.phase th with
    | .idle => call s th op key
    | _ => none
  | .advance th => advance s th
  | .timeout th => timeout s th
  | .resize => resize s

end HybridCache.CompactCache

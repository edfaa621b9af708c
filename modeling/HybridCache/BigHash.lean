import Mathlib
import HybridCache.Bucket
import HybridCache.BloomFilter
import HybridCache.Transition

/-!
# The small-item engine

A key hashes to one bucket of the device. An operation reads that bucket, changes
it in memory and writes it back as a whole, and one Bloom filter for each bucket
avoids reads. Operations on one bucket hold its lock, so a history is a sequence
of operations. An operation carries the outcome of its device accesses and, for
`insert`, the expiry check at the time of the call.

The trace records what is visible from outside: completed inserts and the calls of
the destructor callback.
-/
namespace HybridCache.BigHash
open Bucket Function List

/-- A validated configuration. The bucket size is a multiple of the device's block
size, so that the headers of a bucket and of one entry fit. -/
structure Config where
  bucketSize : ℕ
  numBuckets : ℕ
  keyHash : Key → ℕ
  bloomFilter : Option BloomFilter.Params
  numBuckets_pos : 0 < numBuckets
  overhead_le : bucketOverhead + slotSize entryOverhead ≤ bucketSize

inductive DestructorEvent
  | Removed
  | Recycled
  deriving DecidableEq, Repr

inductive Event
  | inserted (e : Entry)
  | destroyed (e : Entry) (event : DestructorEvent)
  deriving DecidableEq, Repr

inductive DeviceIo
  | succeeds
  | readFails
  | writeFails
  deriving DecidableEq, Repr

inductive Status
  | Ok
  | NotFound
  | DeviceError
  deriving DecidableEq, Repr

section Engine
variable (cfg : Config)

def capacity : ℕ := cfg.bucketSize - bucketOverhead

def getMaxItemSize : ℕ := cfg.bucketSize - bucketOverhead - slotSize entryOverhead

def getBucketId (hk : Key) : Fin cfg.numBuckets :=
  ⟨cfg.keyHash hk % cfg.numBuckets, Nat.mod_lt _ cfg.numBuckets_pos⟩

/-- A bucket of the device is `none` while its checksum or generation does not match. -/
structure State where
  device : Fin cfg.numBuckets → Option (List Entry)
  filters : BloomFilter.Bytes
  itemCount : ℤ
  usedSizeBytes : ℤ
  trace : List Event

/-- The state after `reset`, over any old contents of another generation. -/
def init : State cfg := ⟨fun _ => none, fun _ => 0, 0, 0, []⟩

/-! ## Bloom filters -/

def bfSet (filters : BloomFilter.Bytes) (bid : Fin cfg.numBuckets) (hk : Key) :
    BloomFilter.Bytes :=
  match cfg.bloomFilter with
  | none => filters
  | some p => BloomFilter.set p filters bid (cfg.keyHash hk)

def bfClear (filters : BloomFilter.Bytes) (bid : Fin cfg.numBuckets) : BloomFilter.Bytes :=
  match cfg.bloomFilter with
  | none => filters
  | some p => BloomFilter.clear p filters bid

def bfReject (filters : BloomFilter.Bytes) (bid : Fin cfg.numBuckets) (hk : Key) : Bool :=
  match cfg.bloomFilter with
  | none => false
  | some p => !BloomFilter.couldExist p filters bid (cfg.keyHash hk)

def bfRebuild (filters : BloomFilter.Bytes) (bid : Fin cfg.numBuckets) (bucket : List Entry) :
    BloomFilter.Bytes :=
  bucket.foldl (fun f e => bfSet cfg f bid e.key) (bfClear cfg filters bid)

/-! ## Operations -/

variable {cfg}

/-- A bucket that does not belong to this generation is initialised as empty. -/
def readBucket (s : State cfg) (bid : Fin cfg.numBuckets) : List Entry := (s.device bid).getD []

def couldExist (s : State cfg) (hk : Key) : Bool :=
  !bfReject cfg s.filters (getBucketId cfg hk) hk

/-- A bucket as an operation leaves it in memory, with the entries that went. -/
structure Update where
  removed : List Entry
  evicted : List Entry
  kept : List Entry
  added : Option Entry

def Update.bucket (u : Update) : List Entry := u.kept ++ u.added.toList

def Update.gone (u : Update) : List Entry := u.removed ++ u.evicted

def Update.removedItems (u : Update) : List Event :=
  u.removed.map (Event.destroyed · .Removed) ++ u.evicted.map (Event.destroyed · .Recycled)

def Update.events (u : Update) : List Event := u.removedItems ++ u.added.toList.map Event.inserted

/-- `insert` first removes the key and then makes space. -/
def insertUpdate (cfg : Config) (checkExpired : ExpiredCheck) (e : Entry) (bucket : List Entry) :
    Update :=
  let r := Bucket.remove bucket e.key
  let m := (Bucket.insert (capacity cfg) checkExpired e r.2).1
  ⟨r.1, m.expired ++ m.evicted, m.kept, some e⟩

def removeUpdate (hk : Key) (bucket : List Entry) : Update :=
  ⟨(Bucket.remove bucket hk).1, [], (Bucket.remove bucket hk).2, none⟩

/-- The filters before the write of an insert. -/
def insertFilters (s : State cfg) (bid : Fin cfg.numBuckets) (hk : Key) (u : Update) :
    BloomFilter.Bytes :=
  if u.removed.length + u.evicted.length = 0 then bfSet cfg s.filters bid hk
  else bfRebuild cfg s.filters bid u.bucket

/-- The signed change of `usedSizeBytes_` from two unsigned byte counts. -/
def addUsed (used : ℤ) (oldRemainingBytes newRemainingBytes : ℕ) : ℤ :=
  if oldRemainingBytes < newRemainingBytes then
    used - ((newRemainingBytes - oldRemainingBytes : ℕ) : ℤ)
  else used + ((oldRemainingBytes - newRemainingBytes : ℕ) : ℤ)

def remainingBytes (cfg : Config) (bucket : List Entry) : ℕ :=
  remainingCapacity (capacity cfg) bucket

/-- The bucket is on the device and the callbacks have run. -/
def written (s : State cfg) (bid : Fin cfg.numBuckets) (u : Update)
    (filters : BloomFilter.Bytes) (itemCount usedSizeBytes : ℤ) : State cfg where
  device := update s.device bid (some u.bucket)
  filters := filters
  itemCount := itemCount
  usedSizeBytes := usedSizeBytes
  trace := s.trace ++ u.events

/-- The write failed: the device keeps the old bytes and the filter is cleared. -/
def writeFailed (s : State cfg) (bid : Fin cfg.numBuckets) (filters : BloomFilter.Bytes) :
    State cfg :=
  { s with filters := bfClear cfg filters bid }

def insert (s : State cfg) (checkExpired : ExpiredCheck) (hk : Key) (value : Value)
    (io : DeviceIo) : Status × State cfg :=
  let bid := getBucketId cfg hk
  let old := readBucket s bid
  let u := insertUpdate cfg checkExpired ⟨hk, value⟩ old
  let filters := insertFilters s bid hk u
  match io with
  | .readFails => (.DeviceError, s)
  | .writeFails => (.DeviceError, writeFailed s bid filters)
  | .succeeds =>
    (.Ok, written s bid u filters
      (s.itemCount + 1 - ((u.evicted.length + u.removed.length : ℕ) : ℤ))
      (addUsed s.usedSizeBytes (remainingBytes cfg old) (remainingBytes cfg u.bucket)))

def lookup (s : State cfg) (hk : Key) (io : DeviceIo) : Status × Option Value :=
  let bid := getBucketId cfg hk
  if bfReject cfg s.filters bid hk then (.NotFound, none)
  else if io = .readFails then (.DeviceError, none)
  else
    match Bucket.find (readBucket s bid) hk with
    | none => (.NotFound, none)
    | some value => (.Ok, some value)

def remove (s : State cfg) (hk : Key) (io : DeviceIo) : Status × State cfg :=
  let bid := getBucketId cfg hk
  let old := readBucket s bid
  let u := removeUpdate hk old
  let filters := bfRebuild cfg s.filters bid u.bucket
  if bfReject cfg s.filters bid hk then (.NotFound, s)
  else if io = .readFails then (.DeviceError, s)
  else if u.removed.length = 0 then (.NotFound, s)
  else if io = .writeFails then (.DeviceError, writeFailed s bid filters)
  else
    (.Ok, written s bid u filters (s.itemCount - 1)
      (s.usedSizeBytes - ((remainingBytes cfg u.bucket - remainingBytes cfg old : ℕ) : ℤ)))

inductive Op
  | insert (checkExpired : ExpiredCheck) (hk : Key) (value : Value) (io : DeviceIo)
  | lookup (hk : Key) (io : DeviceIo)
  | remove (hk : Key) (io : DeviceIo)

def Op.io : Op → DeviceIo
  | .insert _ _ _ io => io
  | .lookup _ io => io
  | .remove _ io => io

/-- The engine pair routes only items of at most `getMaxItemSize` bytes here. -/
def step (s : State cfg) : Op → Option (State cfg)
  | .insert checkExpired hk value io =>
    if hk.length + value.length ≤ getMaxItemSize cfg then
      some (insert s checkExpired hk value io).2
    else none
  | .lookup _ _ => some s
  | .remove hk io => some (remove s hk io).2

/-! ## The abstract map -/

def latestStep (k : Key) (cur : Option Value) : Event → Option Value
  | .inserted e => if e.key = k then some e.value else cur
  | .destroyed e _ => if e.key = k then none else cur

/-- The value of the last insert of a key that was not destroyed since. -/
def latest (k : Key) (trace : List Event) : Option Value := trace.foldl (latestStep k) none

def queueStep (bid : Fin cfg.numBuckets) (q : List Entry) : Event → List Entry
  | .inserted e => if getBucketId cfg e.key = bid then q ++ [e] else q
  | .destroyed e _ => q.filter fun d => decide (d.key ≠ e.key)

/-- The inserted entries of one bucket that were not destroyed, oldest first. -/
def queue (bid : Fin cfg.numBuckets) (trace : List Event) : List Entry :=
  trace.foldl (queueStep bid) []

/-! ## Filters accept what was set -/

lemma bfReject_bfSet_self (f : BloomFilter.Bytes) (bid : Fin cfg.numBuckets) (k : Key) :
    bfReject cfg (bfSet cfg f bid k) bid k = false := by
  unfold bfReject bfSet
  cases cfg.bloomFilter with
  | none => rfl
  | some p => simp [BloomFilter.couldExist_set_self]

variable {bid bid' : Fin cfg.numBuckets} {k hk : Key} {old : List Entry} {value : Value}
  {s : State cfg} {f : BloomFilter.Bytes} {b : List Entry} {e : Entry} {u : Update}

lemma bfReject_bfSet_mono {k : Key} (h : bfReject cfg f bid k = false) (k' : Key) :
    bfReject cfg (bfSet cfg f bid' k') bid k = false := by
  unfold bfReject bfSet at *
  cases hp : cfg.bloomFilter with
  | none => rfl
  | some p =>
    simp only [hp, Bool.not_eq_false'] at h ⊢
    exact BloomFilter.couldExist_set_mono p f _ _ _ _ h

lemma bfReject_bfSet_other (f : BloomFilter.Bytes) (hne : bid' ≠ bid) (k k' : Key) :
    bfReject cfg (bfSet cfg f bid k') bid' k = bfReject cfg f bid' k := by
  have hval : (bid' : ℕ) ≠ bid := fun h => hne (Fin.ext h)
  unfold bfReject bfSet
  cases cfg.bloomFilter with
  | none => rfl
  | some p => simp [BloomFilter.couldExist_set_other p f _ _ _ _ hval]

lemma bfReject_bfClear_other (f : BloomFilter.Bytes) (hne : bid' ≠ bid) (k : Key) :
    bfReject cfg (bfClear cfg f bid) bid' k = bfReject cfg f bid' k := by
  have hval : (bid' : ℕ) ≠ bid := fun h => hne (Fin.ext h)
  unfold bfReject bfClear
  cases cfg.bloomFilter with
  | none => rfl
  | some p => simp [BloomFilter.couldExist_clear_other p f _ _ _ hval]

lemma bfReject_setAll_mono {k : Key} (h : bfReject cfg f bid' k = false) (b : List Entry) :
    bfReject cfg (b.foldl (fun f e => bfSet cfg f bid e.key) f) bid' k = false := by
  induction b generalizing f with
  | nil => exact h
  | cons e b ih => exact ih (bfReject_bfSet_mono h e.key)

section
variable (f : BloomFilter.Bytes)

lemma bfReject_setAll_mem (bid : Fin cfg.numBuckets) (hk : k ∈ keys b) :
    bfReject cfg (b.foldl (fun f e => bfSet cfg f bid e.key) f) bid k = false := by
  induction b generalizing f with
  | nil => simp [Bucket.keys] at hk
  | cons e b ih =>
    rw [Bucket.keys, map_cons, mem_cons] at hk
    rcases hk with rfl | hk
    · exact bfReject_setAll_mono (bfReject_bfSet_self f bid e.key) b
    · exact ih _ hk

lemma bfReject_setAll_other (hne : bid' ≠ bid) (k : Key) (b : List Entry) :
    bfReject cfg (b.foldl (fun f e => bfSet cfg f bid e.key) f) bid' k = bfReject cfg f bid' k := by
  induction b generalizing f with
  | nil => rfl
  | cons e b ih => rw [foldl_cons, ih, bfReject_bfSet_other f hne]

lemma bfReject_bfRebuild_mem (bid : Fin cfg.numBuckets) (hk : k ∈ keys b) :
    bfReject cfg (bfRebuild cfg f bid b) bid k = false :=
  bfReject_setAll_mem _ bid hk

lemma bfReject_bfRebuild_other (hne : bid' ≠ bid) (k : Key) (b : List Entry) :
    bfReject cfg (bfRebuild cfg f bid b) bid' k = bfReject cfg f bid' k := by
  rw [bfRebuild, bfReject_setAll_other _ hne, bfReject_bfClear_other f hne]

end

/-! ## What an update drops and keeps -/

/-- The entries of a bucket are split into the ones that go and the ones that stay,
and those keep their order. -/
structure Update.Splits (u : Update) (old : List Entry) : Prop where
  perm : (u.gone ++ u.kept).Perm old
  sublist : u.kept.Sublist old

lemma Update.Splits.notMem_gone (h : u.Splits old)
    (hold : (keys old).Nodup) (he : e ∈ u.kept) : e.key ∉ keys u.gone := by
  have hnodup : (keys (u.gone ++ u.kept)).Nodup := (h.perm.map Entry.key).nodup_iff.2 hold
  rw [Bucket.keys, map_append] at hnodup
  intro hgone
  exact disjoint_of_nodup_append hnodup hgone (mem_map_of_mem he)

/-- With distinct keys, the entries that stay are those whose key does not go. -/
lemma Update.Splits.kept_eq (h : u.Splits old) (hold : (keys old).Nodup) :
    u.kept = old.filter fun e => decide (e.key ∉ keys u.gone) := by
  have hkept : (u.kept.filter fun e => decide (e.key ∉ keys u.gone)) = u.kept := by
    apply filter_eq_self.2
    intro e he
    exact decide_eq_true (h.notMem_gone hold he)
  have hgone : (u.gone.filter fun e => decide (e.key ∉ keys u.gone)) = [] := by
    apply filter_eq_nil_iff.2
    intro e he hd
    exact of_decide_eq_true hd (mem_map_of_mem he)
  have hlen := (h.perm.filter fun e => decide (e.key ∉ keys u.gone)).length_eq
  rw [filter_append, hgone, hkept, nil_append] at hlen
  have hsub := h.sublist.filter fun e => decide (e.key ∉ keys u.gone)
  rw [hkept] at hsub
  exact hsub.eq_of_length hlen

lemma insertUpdate_splits (cfg : Config) (hold : (keys old).Nodup)
    (checkExpired : ExpiredCheck) (e : Entry) :
    (insertUpdate cfg checkExpired e old).Splits old := by
  constructor
  · have hspace := makeSpace_perm (capacity cfg) e.size checkExpired (Bucket.remove old e.key).2
    have happ := (hspace.append_left (Bucket.remove old e.key).1).trans
      (Bucket.remove_perm old e.key)
    rwa [← append_assoc] at happ
  · have hsub := makeSpace_kept_sublist (capacity cfg) e.size checkExpired
      (Bucket.remove old e.key).2
    refine hsub.trans ?_
    rw [remove_snd hold]
    exact filter_sublist

lemma removeUpdate_splits (hold : (keys old).Nodup) (hk : Key) :
    (removeUpdate hk old).Splits old := by
  constructor
  · have happ := Bucket.remove_perm old hk
    simpa [removeUpdate, Update.gone] using happ
  · change (Bucket.remove old hk).2.Sublist old
    rw [remove_snd hold]
    exact filter_sublist

lemma insertUpdate_key_notMem (cfg : Config) (hold : (keys old).Nodup)
    (checkExpired : ExpiredCheck) (e : Entry) :
    e.key ∉ keys (insertUpdate cfg checkExpired e old).kept := by
  intro hmem
  obtain ⟨d, hd, hkey⟩ := mem_map.1 hmem
  have hsub := makeSpace_kept_sublist (capacity cfg) e.size checkExpired (Bucket.remove old e.key).2
  have hrest := hsub.subset hd
  rw [remove_snd hold, mem_filter] at hrest
  exact of_decide_eq_true hrest.2 hkey

lemma slot_le_capacity {value : Value} (h : hk.length + value.length ≤ getMaxItemSize cfg) :
    (Entry.mk hk value).slot ≤ capacity cfg := by
  have hover := cfg.overhead_le
  rw [getMaxItemSize] at h
  rw [Entry.slot, Entry.size, computeSize, capacity]
  simp only [slotSize] at *
  omega

lemma insertUpdate_fits (hfits : endOffset old ≤ capacity cfg)
    (checkExpired : ExpiredCheck) (he : e.slot ≤ capacity cfg) :
    endOffset (insertUpdate cfg checkExpired e old).bucket ≤ capacity cfg := by
  have hrest : endOffset (Bucket.remove old e.key).2 ≤ capacity cfg := by
    have hperm := endOffset_perm (Bucket.remove_perm old e.key)
    rw [endOffset_append] at hperm
    omega
  have hroom := makeSpace_room he hrest checkExpired
  rw [Update.bucket, endOffset_append]
  change endOffset (makeSpace (capacity cfg) e.size checkExpired _).kept + endOffset [e] ≤ _
  exact hroom

/-! ## The trace of an update -/

lemma Update.foldl_removedItems {β : Type} (f : β → Event → β) (u : Update)
    (g : β → Entry → β) (hf : ∀ b e event, f b (.destroyed e event) = g b e) (b : β) :
    u.removedItems.foldl f b = u.gone.foldl g b := by
  simp only [removedItems, gone, foldl_append, foldl_map, hf]

lemma latest_events (k : Key) (trace : List Event) (u : Update) : latest k (trace ++ u.events) =
      (u.added.toList.map Event.inserted).foldl (latestStep k)
        (if k ∈ keys u.gone then none else latest k trace) := by
  rw [latest, Update.events, foldl_append, foldl_append,
    u.foldl_removedItems (latestStep k) (fun cur e => if e.key = k then none else cur)
      (fun _ _ _ => rfl)]
  congr 1
  change u.gone.foldl _ (latest k trace) = _
  generalize latest k trace = cur
  induction u.gone generalizing cur with
  | nil => simp [Bucket.keys]
  | cons e es ih =>
    rw [foldl_cons, ih]
    simp only [Bucket.keys, map_cons, mem_cons]
    by_cases he : e.key = k
    · simp [he]
    · simp [he, Ne.symm he]

lemma queue_events (bid : Fin cfg.numBuckets) (trace : List Event) (u : Update) :
    queue bid (trace ++ u.events) = (u.added.toList.map Event.inserted).foldl (queueStep bid)
        ((queue bid trace).filter fun e => decide (e.key ∉ keys u.gone)) := by
  rw [queue, Update.events, foldl_append, foldl_append, u.foldl_removedItems (queueStep bid)
      (fun q e => q.filter fun d => decide (d.key ≠ e.key)) (fun _ _ _ => rfl)]
  congr 1
  change u.gone.foldl _ (queue bid trace) = _
  generalize queue bid trace = q
  induction u.gone generalizing q with
  | nil => simp [Bucket.keys]
  | cons e es ih =>
    rw [foldl_cons, ih, filter_filter, Bucket.keys, Bucket.keys, map_cons]
    apply filter_congr
    intro d _
    rw [← Bool.decide_and, decide_eq_decide, mem_cons, not_or, and_comm]

/-! ## The invariant -/

def usedBytes (cfg : Config) (bucket : List Entry) : ℕ :=
  capacity cfg - remainingBytes cfg bucket

structure Inv (s : State cfg) : Prop where
  nodup : ∀ bid, (keys (readBucket s bid)).Nodup
  hashed : ∀ bid, ∀ e ∈ readBucket s bid, getBucketId cfg e.key = bid
  fits : ∀ bid, endOffset (readBucket s bid) ≤ capacity cfg
  queued : ∀ bid, readBucket s bid = queue bid s.trace
  latest_iff : ∀ e : Entry,
    e ∈ readBucket s (getBucketId cfg e.key) ↔ latest e.key s.trace = some e.value
  accepted : ∀ bid, ∀ e ∈ readBucket s bid, bfReject cfg s.filters bid e.key = false
  items : s.itemCount = ((∑ bid, (readBucket s bid).length : ℕ) : ℤ)
  used : s.usedSizeBytes = ((∑ bid, usedBytes cfg (readBucket s bid) : ℕ) : ℤ)

lemma init_inv : Inv (init cfg) where
  nodup _ := List.nodup_nil
  hashed _ e he := absurd he List.not_mem_nil
  fits _ := Nat.zero_le _
  queued _ := rfl
  latest_iff e := by simp [init, readBucket, latest]
  accepted _ e he := absurd he List.not_mem_nil
  items := by simp [init, readBucket]
  used := by simp [init, readBucket, usedBytes, remainingBytes, remainingCapacity]

lemma readBucket_written (s : State cfg) (bid : Fin cfg.numBuckets) (u : Update)
    (f : BloomFilter.Bytes) (i w : ℤ) (bid' : Fin cfg.numBuckets) :
    readBucket (written s bid u f i w) bid' = update (readBucket s) bid u.bucket bid' := by
  by_cases h : bid' = bid
  · rw [h, update_self]
    simp [readBucket, written]
  · rw [update_of_ne h]
    simp [readBucket, written, h]

/-- What the write of an updated bucket needs: the update concerns this bucket, its
filter accepts the new entries, and the other filters are as before. -/
structure Update.Valid (u : Update) (s : State cfg) (bid : Fin cfg.numBuckets)
    (f : BloomFilter.Bytes) : Prop where
  splits : u.Splits (readBucket s bid)
  nodup : (keys u.bucket).Nodup
  added_hashed : ∀ e ∈ u.added, getBucketId cfg e.key = bid
  fits : endOffset u.bucket ≤ capacity cfg
  accepted : ∀ e ∈ u.bucket, bfReject cfg f bid e.key = false
  other : ∀ bid' ≠ bid, ∀ k, bfReject cfg f bid' k = bfReject cfg s.filters bid' k

section Write
variable {s : State cfg} {bid : Fin cfg.numBuckets} {u : Update} {f : BloomFilter.Bytes}

section
variable (hu : u.Valid s bid f) (hinv : Inv s)
include hu hinv

lemma Update.Valid.gone_hashed {k : Key} (hk : k ∈ keys u.gone) : getBucketId cfg k = bid := by
  obtain ⟨e, he, rfl⟩ := mem_map.1 hk
  exact hinv.hashed bid e (hu.splits.perm.subset (mem_append_left _ he))

lemma Update.Valid.mem_kept (e : Entry) :
    e ∈ u.kept ↔ e ∈ readBucket s bid ∧ e.key ∉ keys u.gone := by
  rw [hu.splits.kept_eq (hinv.nodup bid), mem_filter, decide_eq_true_iff]

lemma Update.Valid.latest_iff (e : Entry) (he : getBucketId cfg e.key = bid) :
    e ∈ u.bucket ↔ latest e.key (s.trace ++ u.events) = some e.value := by
  have hkept : e ∈ u.kept ↔
      (if e.key ∈ keys u.gone then none else latest e.key s.trace) = some e.value := by
    rw [hu.mem_kept hinv e, ← he, hinv.latest_iff e]
    by_cases hgone : e.key ∈ keys u.gone
    · simp [hgone]
    · simp [hgone]
  have hnodup := hu.nodup
  rw [latest_events]
  rw [Update.bucket] at hnodup ⊢
  cases hadd : u.added with
  | none => simpa using hkept
  | some d =>
    rw [hadd] at hnodup
    simp only [Option.toList_some, map_cons, map_nil, foldl_cons, foldl_nil,
      latestStep, mem_append, mem_singleton]
    by_cases hd : d.key = e.key
    · -- the key was just inserted, so no entry of it stays
      have hnot : e ∉ u.kept := by
        intro hmem
        rw [Option.toList_some, Bucket.keys, map_append] at hnodup
        exact disjoint_of_nodup_append hnodup (mem_map_of_mem hmem) (by simp [hd])
      rw [if_pos hd]
      constructor
      · intro h
        rcases h with h | h
        · exact absurd h hnot
        · rw [h]
      · intro h
        right
        cases d
        simp_all
    · have hne : e ≠ d := fun h => hd (by rw [h])
      rw [if_neg hd, ← hkept]
      simp [hne]

lemma Update.Valid.latest_other {k : Key}
    (hk : getBucketId cfg k ≠ bid) : latest k (s.trace ++ u.events) = latest k s.trace := by
  have hgone : k ∉ keys u.gone := fun h => hk (hu.gone_hashed hinv h)
  rw [latest_events, if_neg hgone]
  cases hadd : u.added with
  | none => rfl
  | some d =>
    have hd : d.key ≠ k := by
      intro h
      rw [← h] at hk
      exact hk (hu.added_hashed d (by simp [hadd]))
    simp [latestStep, hd]

lemma Update.Valid.queue_self : u.bucket = queue bid (s.trace ++ u.events) := by
  rw [queue_events, ← hinv.queued bid, ← hu.splits.kept_eq (hinv.nodup bid), Update.bucket]
  cases hadd : u.added with
  | none => simp
  | some d =>
    have hd := hu.added_hashed d (by simp [hadd])
    simp [queueStep, hd]

lemma Update.Valid.queue_other {bid' : Fin cfg.numBuckets} (hne : bid' ≠ bid) :
    queue bid' (s.trace ++ u.events) = queue bid' s.trace := by
  have hall : ((queue bid' s.trace).filter fun e => decide (e.key ∉ keys u.gone)) =
      queue bid' s.trace := by
    apply filter_eq_self.2
    intro e he
    rw [← hinv.queued bid'] at he
    apply decide_eq_true
    intro hgone
    exact hne ((hinv.hashed bid' e he).symm.trans (hu.gone_hashed hinv hgone))
  rw [queue_events, hall]
  cases hadd : u.added with
  | none => rfl
  | some d =>
    have hd := hu.added_hashed d (by simp [hadd])
    simp [queueStep, hd, Ne.symm hne]

/-- A successful write keeps the invariant when it adjusts the two counters by what
changed in the bucket. -/
lemma Update.Valid.written_inv {i w : ℤ}
    (hi : i + ((readBucket s bid).length : ℤ) = s.itemCount + (u.bucket.length : ℤ))
    (hw : w + (usedBytes cfg (readBucket s bid) : ℤ) =
      s.usedSizeBytes + (usedBytes cfg u.bucket : ℤ)) :
    Inv (written s bid u f i w) := by
  have hself : readBucket (written s bid u f i w) bid = u.bucket := by
    rw [readBucket_written, update_self]
  have hother : ∀ bid' ≠ bid, readBucket (written s bid u f i w) bid' = readBucket s bid' := by
    intro bid' hne
    rw [readBucket_written, update_of_ne hne]
  constructor
  · intro bid'
    by_cases hb : bid' = bid
    · rw [hb, hself]
      exact hu.nodup
    · rw [hother bid' hb]
      exact hinv.nodup bid'
  · intro bid' e he
    by_cases hb : bid' = bid
    · rw [hb, hself, Update.bucket, mem_append] at he
      rw [hb]
      rcases he with he | he
      · exact hinv.hashed bid e ((hu.mem_kept hinv e).1 he).1
      · exact hu.added_hashed e (by simpa using he)
    · rw [hother bid' hb] at he
      exact hinv.hashed bid' e he
  · intro bid'
    by_cases hb : bid' = bid
    · rw [hb, hself]
      exact hu.fits
    · rw [hother bid' hb]
      exact hinv.fits bid'
  · intro bid'
    by_cases hb : bid' = bid
    · rw [hb, hself]
      exact hu.queue_self hinv
    · rw [hother bid' hb, hinv.queued bid']
      exact (hu.queue_other hinv hb).symm
  · intro e
    by_cases hb : getBucketId cfg e.key = bid
    · rw [hb, hself]
      exact hu.latest_iff hinv e hb
    · rw [hother _ hb, hinv.latest_iff e]
      change _ ↔ latest e.key (s.trace ++ u.events) = _
      rw [hu.latest_other hinv hb]
  · intro bid' e he
    change bfReject cfg f bid' e.key = false
    by_cases hb : bid' = bid
    · rw [hb, hself] at he
      rw [hb]
      exact hu.accepted e he
    · rw [hother bid' hb] at he
      rw [hu.other bid' hb]
      exact hinv.accepted bid' e he
  · have hsum := Transition.sum_update (readBucket s) length bid u.bucket
    simp only [← readBucket_written s bid u f i w] at hsum
    have hitems := hinv.items
    change i = _
    omega
  · have hsum := Transition.sum_update (readBucket s) (usedBytes cfg) bid u.bucket
    simp only [← readBucket_written s bid u f i w] at hsum
    have hused := hinv.used
    change w = _
    omega

end

end Write

/-! ## Operations keep the invariant -/

lemma addUsed_eq (used : ℤ) (o n : ℕ) : addUsed used o n = used + o - n := by
  unfold addUsed
  split_ifs
  · omega
  · omega

lemma usedBytes_eq {bucket : List Entry} (h : endOffset bucket ≤ capacity cfg) :
    usedBytes cfg bucket + remainingBytes cfg bucket = capacity cfg := by
  unfold usedBytes remainingBytes remainingCapacity
  omega

lemma insertFilters_other (s : State cfg) (hne : bid' ≠ bid) (hk : Key) (u : Update) (k : Key) :
    bfReject cfg (insertFilters s bid hk u) bid' k = bfReject cfg s.filters bid' k := by
  unfold insertFilters
  split_ifs
  · exact bfReject_bfSet_other s.filters hne k hk
  · exact bfReject_bfRebuild_other s.filters hne k u.bucket

lemma insertUpdate_valid (hinv : Inv s) (checkExpired : ExpiredCheck)
    (hsize : hk.length + value.length ≤ getMaxItemSize cfg) :
    (insertUpdate cfg checkExpired ⟨hk, value⟩ (readBucket s (getBucketId cfg hk))).Valid s
      (getBucketId cfg hk)
      (insertFilters s (getBucketId cfg hk) hk
        (insertUpdate cfg checkExpired ⟨hk, value⟩ (readBucket s (getBucketId cfg hk)))) := by
  have hnodup := hinv.nodup (getBucketId cfg hk)
  have hsplits := insertUpdate_splits cfg hnodup checkExpired ⟨hk, value⟩
  have hnew := insertUpdate_key_notMem cfg hnodup checkExpired ⟨hk, value⟩
  have hadded : (insertUpdate cfg checkExpired ⟨hk, value⟩
    (readBucket s (getBucketId cfg hk))).added = some ⟨hk, value⟩ := rfl
  have hfits := insertUpdate_fits (hinv.fits (getBucketId cfg hk)) checkExpired
    (slot_le_capacity hsize)
  generalize insertUpdate cfg checkExpired ⟨hk, value⟩ (readBucket s (getBucketId cfg hk)) = u at *
  have hbucket : u.bucket = u.kept ++ [⟨hk, value⟩] := by
    rw [Update.bucket, hadded, Option.toList_some]
  constructor
  · exact hsplits
  · rw [hbucket, Bucket.keys, map_append, nodup_append']
    refine ⟨(hsplits.sublist.map Entry.key).nodup hnodup, nodup_singleton _, ?_⟩
    intro k hkept hk'
    rw [mem_singleton.1 hk'] at hkept
    exact hnew hkept
  · intro e he
    rw [hadded, Option.mem_some_iff] at he
    rw [← he]
  · exact hfits
  · intro e he
    unfold insertFilters
    split_ifs with hzero
    · -- nothing went, so the old entries are already accepted
      rw [hbucket, mem_append, mem_singleton] at he
      rcases he with he | he
      · exact bfReject_bfSet_mono (hinv.accepted _ e (hsplits.sublist.subset he)) hk
      · rw [he]
        exact bfReject_bfSet_self s.filters _ hk
    · exact bfReject_bfRebuild_mem s.filters _ (mem_map_of_mem he)
  · intro bid' hne k
    exact insertFilters_other s hne hk u k

lemma removeUpdate_valid (hinv : Inv s) (hk : Key) :
    (removeUpdate hk (readBucket s (getBucketId cfg hk))).Valid s (getBucketId cfg hk)
      (bfRebuild cfg s.filters (getBucketId cfg hk)
        (removeUpdate hk (readBucket s (getBucketId cfg hk))).bucket) := by
  have hnodup := hinv.nodup (getBucketId cfg hk)
  have hsplits := removeUpdate_splits hnodup hk
  have hfits := hinv.fits (getBucketId cfg hk)
  have hadded : (removeUpdate hk (readBucket s (getBucketId cfg hk))).added = none := rfl
  generalize removeUpdate hk (readBucket s (getBucketId cfg hk)) = u at *
  have hbucket : u.bucket = u.kept := by
    rw [Update.bucket, hadded, Option.toList_none, append_nil]
  constructor
  · exact hsplits
  · rw [hbucket]
    exact (hsplits.sublist.map Entry.key).nodup hnodup
  · intro e he
    rw [hadded] at he
    cases he
  · have hperm := endOffset_perm hsplits.perm
    rw [endOffset_append] at hperm
    rw [hbucket]
    omega
  · intro e he
    exact bfReject_bfRebuild_mem s.filters _ (mem_map_of_mem he)
  · intro bid' hne k
    exact bfReject_bfRebuild_other s.filters hne k u.bucket

lemma insert_inv (hinv : Inv s) (checkExpired : ExpiredCheck)
    (hsize : hk.length + value.length ≤ getMaxItemSize cfg) :
    Inv (insert s checkExpired hk value .succeeds).2 := by
  have hvalid := insertUpdate_valid hinv checkExpired hsize
  apply hvalid.written_inv hinv
  · have hlen := hvalid.splits.perm.length_eq
    rw [length_append, Update.gone, length_append] at hlen
    have hbucket : (insertUpdate cfg checkExpired ⟨hk, value⟩
        (readBucket s (getBucketId cfg hk))).bucket.length =
          (insertUpdate cfg checkExpired ⟨hk, value⟩
            (readBucket s (getBucketId cfg hk))).kept.length + 1 := by
      rw [Update.bucket, length_append]
      rfl
    omega
  · have hold := usedBytes_eq (hinv.fits (getBucketId cfg hk))
    have hnew := usedBytes_eq hvalid.fits
    rw [addUsed_eq]
    omega

def removeWritten (s : State cfg) (hk : Key) : State cfg :=
  written s (getBucketId cfg hk) (removeUpdate hk (readBucket s (getBucketId cfg hk)))
    (bfRebuild cfg s.filters (getBucketId cfg hk)
      (removeUpdate hk (readBucket s (getBucketId cfg hk))).bucket)
    (s.itemCount - 1)
    (s.usedSizeBytes -
      ((remainingBytes cfg (removeUpdate hk (readBucket s (getBucketId cfg hk))).bucket -
        remainingBytes cfg (readBucket s (getBucketId cfg hk)) : ℕ) : ℤ))

/-- A removal finds nothing, cannot read, or finds the key; then it fails to write or
writes the bucket without the key. -/
lemma remove_cases (s : State cfg) (hk : Key) (io : DeviceIo) :
    ((couldExist s hk = true → hk ∉ keys (readBucket s (getBucketId cfg hk))) ∧
      remove s hk io = (.NotFound, s)) ∨
    (io = .readFails ∧ remove s hk io = (.DeviceError, s)) ∨
    ((couldExist s hk = true ∧ hk ∈ keys (readBucket s (getBucketId cfg hk))) ∧
      ((io = .writeFails ∧ remove s hk io = (.DeviceError, writeFailed s (getBucketId cfg hk)
          (bfRebuild cfg s.filters (getBucketId cfg hk)
            (removeUpdate hk (readBucket s (getBucketId cfg hk))).bucket))) ∨
        (io = .succeeds ∧ remove s hk io = (.Ok, removeWritten s hk)))) := by
  unfold remove couldExist
  by_cases hrej : bfReject cfg s.filters (getBucketId cfg hk) hk = true
  · left
    simp [hrej]
  rw [if_neg hrej]
  have hcould : (!bfReject cfg s.filters (getBucketId cfg hk) hk) = true := by simpa using hrej
  by_cases hread : io = .readFails
  · right
    left
    exact ⟨hread, if_pos hread⟩
  rw [if_neg hread]
  by_cases hmem : hk ∈ keys (readBucket s (getBucketId cfg hk))
  · have hfound : (removeUpdate hk (readBucket s (getBucketId cfg hk))).removed.length ≠ 0 := by
      intro hzero
      exact remove_fst_eq_nil.1 (length_eq_zero_iff.1 hzero) hmem
    right
    right
    refine ⟨⟨hcould, hmem⟩, ?_⟩
    rw [if_neg hfound]
    cases io with
    | succeeds => exact Or.inr ⟨rfl, by simp [removeWritten]⟩
    | readFails => exact absurd rfl hread
    | writeFails => exact Or.inl ⟨rfl, by simp⟩
  · have hfound : (removeUpdate hk (readBucket s (getBucketId cfg hk))).removed.length = 0 :=
      length_eq_zero_iff.2 (remove_fst_eq_nil.2 hmem)
    left
    exact ⟨fun _ => hmem, if_pos hfound⟩

lemma removeWritten_inv (hinv : Inv s)
    (hmem : hk ∈ keys (readBucket s (getBucketId cfg hk))) : Inv (removeWritten s hk) := by
  have hvalid := removeUpdate_valid hinv hk
  apply hvalid.written_inv hinv
  · have hlen := hvalid.splits.perm.length_eq
    have hone := remove_fst_length_le (readBucket s (getBucketId cfg hk)) hk
    have hpos : (Bucket.remove (readBucket s (getBucketId cfg hk)) hk).1.length ≠ 0 := by
      intro hzero
      exact remove_fst_eq_nil.1 (length_eq_zero_iff.1 hzero) hmem
    simp only [removeUpdate, Update.gone, Update.bucket, Option.toList_none, append_nil,
      length_append] at hlen ⊢
    omega
  · have hold := usedBytes_eq (hinv.fits (getBucketId cfg hk))
    have hnew := usedBytes_eq hvalid.fits
    have hperm := endOffset_perm hvalid.splits.perm
    have hle : remainingBytes cfg (readBucket s (getBucketId cfg hk)) ≤
        remainingBytes cfg (removeUpdate hk (readBucket s (getBucketId cfg hk))).bucket := by
      rw [endOffset_append] at hperm
      simp only [remainingBytes, remainingCapacity, removeUpdate, Update.bucket,
        Option.toList_none, append_nil] at hperm ⊢
      omega
    omega

lemma remove_inv (hinv : Inv s) (hk : Key) : Inv (remove s hk .succeeds).2 := by
  rcases remove_cases s hk .succeeds with ⟨_, h⟩ | ⟨hio, _⟩ | ⟨⟨_, hmem⟩, ⟨hio, _⟩ | ⟨_, h⟩⟩
  · rw [h]
    exact hinv
  · cases hio
  · cases hio
  · rw [h]
    exact removeWritten_inv hinv hmem

lemma step_inv (s : State cfg) (op : Op) (t : State cfg) (hio : op.io = .succeeds) (hinv : Inv s)
    (h : step s op = some t) : Inv t := by
  cases op with
  | insert checkExpired hk value io =>
    obtain rfl : io = .succeeds := hio
    rw [step] at h
    split_ifs at h with hsize
    cases h
    exact insert_inv hinv checkExpired hsize
  | lookup hk io =>
    cases h
    exact hinv
  | remove hk io =>
    obtain rfl : io = .succeeds := hio
    cases h
    exact remove_inv hinv hk

lemma lookup_eq_some (hinv : Inv s) (k : Key) (v : Value) :
    lookup s k .succeeds = (.Ok, some v) ↔ latest k s.trace = some v := by
  have hiff := (find_eq_some (hinv.nodup _)).trans (hinv.latest_iff ⟨k, v⟩)
  rw [← hiff]
  unfold lookup
  by_cases hrej : bfReject cfg s.filters (getBucketId cfg k) k = true
  · rw [if_pos hrej]
    constructor
    · intro h
      simp at h
    · intro h
      have hmem := (find_eq_some (hinv.nodup _)).1 h
      rw [hinv.accepted _ _ hmem] at hrej
      simp at hrej
  · rw [if_neg hrej, if_neg (by decide)]
    cases hfind : Bucket.find (readBucket s (getBucketId cfg k)) k with
    | none => simp
    | some w => simp

/-- An insert keeps the other entries of the bucket when there is room, and else a
suffix of those that have not expired. -/
lemma insert_kept (hinv : Inv s) (checkExpired : ExpiredCheck) (k : Key) (v : Value) :
    ∃ kept, readBucket (insert s checkExpired k v .succeeds).2 (getBucketId cfg k) =
        kept ++ [⟨k, v⟩] ∧
      (kept = (readBucket s (getBucketId cfg k)).filter (fun e => decide (e.key ≠ k)) ∨
        kept <:+ ((readBucket s (getBucketId cfg k)).filter fun e => decide (e.key ≠ k)).filter
          fun e => !checkExpired.expired e) := by
  have hrest := remove_snd (hinv.nodup (getBucketId cfg k)) k
  refine ⟨(insertUpdate cfg checkExpired ⟨k, v⟩ (readBucket s (getBucketId cfg k))).kept, ?_, ?_⟩
  · exact (readBucket_written s _ _ _ _ _ _).trans (update_self _ _ _)
  · rw [← hrest]
    rcases makeSpace_cases (capacity cfg) (Entry.mk k v).size checkExpired
      (Bucket.remove (readBucket s (getBucketId cfg k)) k).2 with ⟨_, h⟩ | ⟨_, h⟩
    · exact Or.inl (congrArg Space.kept h)
    · exact Or.inr ⟨_, h⟩

end Engine

def smallConfig : Config where
  bucketSize := 96
  numBuckets := 2
  keyHash hk := (hk.map UInt8.toNat).sum
  bloomFilter := some
    { numHashes := 2, hashTableBitSize := 8, hashInt := fun i => 3 * i + 1,
      combineHashes := fun key seed => key * seed, numHashes_pos := Nat.two_pos,
      hashTableBitSize_pos := by decide }
  numBuckets_pos := Nat.two_pos
  overhead_le := by decide

/-- The fourth insert recycles an expired entry, the fifth the oldest one. -/
def recyclingOps : List Op :=
  [.insert none [2] [1] .succeeds, .insert none [4] [7] .succeeds, .insert none [6] [1] .succeeds,
    .insert (some fun v => decide (v = [7])) [8] [2] .succeeds, .insert none [10] [3] .succeeds,
    .remove [6] .succeeds, .lookup [8] .succeeds]

/-- No bucket overflows, and each has only keys that hash to it. -/
theorem buckets_fit (cfg : Config) (ops : List Op) (hio : ∀ op ∈ ops, op.io = .succeeds)
    (s : State cfg) (hrun : Transition.run step (init cfg) ops = some s) (bid : Fin cfg.numBuckets) :
    endOffset (readBucket s bid) ≤ capacity cfg ∧
      ∀ e ∈ readBucket s bid, getBucketId cfg e.key = bid := by
  have hinv : Inv s := Transition.run_invariant_of step_inv hio init_inv hrun
  exact ⟨hinv.fits bid, hinv.hashed bid⟩

theorem buckets_fit_recycling : ∃ s : State smallConfig,
    Transition.run step (init smallConfig) recyclingOps = some s ∧
      ∀ bid, endOffset (readBucket s bid) ≤ capacity smallConfig :=
  ⟨_, rfl, fun bid => (buckets_fit _ recyclingOps (by decide) _ rfl bid).1⟩

end HybridCache.BigHash

import HybridCache.ByteMemory

/-!
# Buckets of a compact cache with values of any size

The headers of the entries lie at the beginning of a bucket, the most recently used one first.
The data of the entries lie at its end, one after another and in no order. A header has the
offset of the data of its entry, and the data begin with the index of the header. Pointers into
the bucket are offsets. Sizes and pointers are not computed modulo anything, what is stored in
a field of the bucket is.
-/
namespace HybridCache.VariableLru

open ByteMemory

structure Config where
  /-- `sizeof(Key)`. -/
  keySize : ℕ
  kMaxValueSize : ℕ
  /-- "Bucket is too big". -/
  bucket_fits : kMaxValueSize + (keySize + 3) + 1 ≤ 2 ^ 16 - 1

/-- `sizeof(EntryHdr)`: the key, one byte for the size and two for the offset of the data. -/
def Config.headerSize (cfg : Config) : ℕ := cfg.keySize + 3

def Config.kBucketDataSize (cfg : Config) : ℕ := cfg.kMaxValueSize + cfg.headerSize + 1

def kMaxEntries : ℕ := 2 ^ 8 - 1

abbrev Key (cfg : Config) := Vector UInt8 cfg.keySize

structure Entry (cfg : Config) where
  key : Key cfg
  value : List UInt8
  deriving DecidableEq

structure Bucket where
  numEntries : UInt8
  totalDataSize : UInt16
  data : Mem

/-! ## Headers and data -/

variable {cfg : Config}

/-- The position is an `uint8_t`. -/
def getEntryHeader (cfg : Config) (headerPos : ℕ) : ℕ := headerPos % 2 ^ 8 * cfg.headerSize

def key (cfg : Config) (m : Mem) (pos : ℕ) : Key cfg :=
  Vector.ofFn fun i => m (getEntryHeader cfg pos + i)

def dataSize (cfg : Config) (m : Mem) (pos : ℕ) : UInt8 :=
  m (getEntryHeader cfg pos + cfg.keySize)

def dataOffset (cfg : Config) (m : Mem) (pos : ℕ) : UInt16 :=
  read16 m (getEntryHeader cfg pos + cfg.keySize + 1)

def setDataSize (cfg : Config) (m : Mem) (pos : ℕ) (size : UInt8) : Mem :=
  write m (getEntryHeader cfg pos + cfg.keySize) [size]

def setDataOffset (cfg : Config) (m : Mem) (pos : ℕ) (offset : UInt16) : Mem :=
  write m (getEntryHeader cfg pos + cfg.keySize + 1) (bytes16 offset)

def getEntryData (cfg : Config) (m : Mem) (headerPos : ℕ) : ℕ := (dataOffset cfg m headerPos).toNat

/-- The data of an entry begin with `headerIndex`, of one byte. -/
def headerIndex (m : Mem) (entryData : ℕ) : UInt8 := m entryData

def getNextEntryData (cfg : Config) (m : Mem) (entryData : ℕ) : ℕ :=
  entryData + 1 + (dataSize cfg m (headerIndex m entryData).toNat).toNat

def getFirstEntryDataOffset (cfg : Config) (b : Bucket) : ℕ :=
  cfg.kBucketDataSize - b.totalDataSize.toNat

/-- What an `EntryHandle` gives. -/
def entryAt (cfg : Config) (m : Mem) (pos : ℕ) : Entry cfg where
  key := key cfg m pos
  value := read m (getEntryData cfg m pos + 1) (dataSize cfg m pos).toNat

/-- The entries that are found from `first` on. -/
def decode (cfg : Config) (b : Bucket) : List (Entry cfg) :=
  (List.range b.numEntries.toNat).map (entryAt cfg b.data)

/-- A loop over the headers that assigns to `headerIndex` of the data of each. -/
def assignHeaderIndex (cfg : Config) (f : ℕ → UInt8 → UInt8) (positions : List ℕ) (m : Mem) : Mem :=
  positions.foldl
    (fun m i =>
      let entryData := getEntryData cfg m i
      write m entryData [f i (headerIndex m entryData)]) m

/-! ## Moving data -/

/-- The loop of `shiftEntriesData` over the data of the entries. -/
def adjustOffsets (cfg : Config) (m : Mem) (cur stop : ℕ) (shiftDistance : UInt16) : Mem :=
  if cur < stop then
    let header := (headerIndex m cur).toNat
    let m := setDataOffset cfg m header (dataOffset cfg m header + shiftDistance)
    adjustOffsets cfg m (getNextEntryData cfg m cur) stop shiftDistance
  else m
termination_by stop - cur
decreasing_by
  unfold getNextEntryData
  omega

def shiftEntriesData (cfg : Config) (m : Mem) (src : ℕ) (shiftDistance : UInt16)
    (shiftedChunkSize : ℕ) : Mem :=
  memmove (adjustOffsets cfg m src (src + shiftedChunkSize) shiftDistance)
    (src + shiftDistance.toNat) src shiftedChunkSize

/-! ## Eviction -/

/-- The entries that `evictOneMoreEntryFn` evicts, the oldest first. There are `left` entries
before. Those are enough, so the loop does not go on without an entry. -/
def evictMore (cfg : Config) (m : Mem) (requiredSpace : ℕ) : ℕ → ℕ → List ℕ
  | 0, _ => []
  | left + 1, freeSpace =>
    if freeSpace < requiredSpace then
      left :: evictMore cfg m requiredSpace left
        (freeSpace + (dataSize cfg m left).toNat + cfg.headerSize + 1)
    else []

/-- One entry is evicted even if there is enough space when no more entries can be counted. -/
def evictedPositions (cfg : Config) (b : Bucket) (requiredSpace freeSpace : ℕ) : List ℕ :=
  let n := b.numEntries.toNat
  if n = kMaxEntries then
    (n - 1) :: evictMore cfg b.data requiredSpace (n - 1)
      (freeSpace + (dataSize cfg b.data (n - 1)).toNat + cfg.headerSize + 1)
  else evictMore cfg b.data requiredSpace n freeSpace

/-- A chunk begins at the end of the evicted entry to the left, or with the data. -/
def chunkStartOffset (cfg : Config) (first : ℕ) (m : Mem) : List ℕ → ℕ
  | [] => first
  | l :: _ => (dataOffset cfg m l).toNat + (dataSize cfg m l).toNat + 1

/-- The chunks between the evicted entries are moved, from the last one on. `evicted` has the
entries with the greatest offset first. -/
def moveChunks (cfg : Config) (first : ℕ) (m : Mem) : List ℕ → ℕ → Mem × ℕ
  | [], shiftDistance => (m, shiftDistance)
  | e :: evicted, shiftDistance =>
    let shiftDistance := shiftDistance + (dataSize cfg m e).toNat + 1
    let chunkStart := chunkStartOffset cfg first m evicted % 2 ^ 16
    let shiftedChunkSize := (dataOffset cfg m e).toNat - chunkStart
    if shiftedChunkSize = 0 then moveChunks cfg first m evicted shiftDistance
    else moveChunks cfg first
      (shiftEntriesData cfg m chunkStart (UInt16.ofNat shiftDistance) shiftedChunkSize)
      evicted shiftDistance

/-- The bucket, the entries in the order in which `evictionCb` has got them, and whether there
are any. -/
def evictEntries (cfg : Config) (b : Bucket) (requiredSpace : ℕ) :
    Bucket × List (Entry cfg) × Bool :=
  let freeSpace := cfg.kBucketDataSize - b.totalDataSize.toNat -
    cfg.headerSize * b.numEntries.toNat
  if requiredSpace ≤ freeSpace ∧ b.numEntries.toNat ≠ kMaxEntries then (b, [], false)
  else
    let arr := evictedPositions cfg b requiredSpace freeSpace
    let sorted := arr.insertionSort
      (fun x y => (dataOffset cfg b.data x).toNat ≤ (dataOffset cfg b.data y).toNat)
    let moved := moveChunks cfg (getFirstEntryDataOffset cfg b) b.data sorted.reverse 0
    ({ numEntries := b.numEntries - UInt8.ofNat arr.length
       totalDataSize := b.totalDataSize - UInt16.ofNat moved.2
       data := moved.1 }, arr.map (entryAt cfg b.data), true)

/-! ## Operations -/

/-- The headers are shifted to the right, and the one of a new entry is written. -/
def writeHeader (cfg : Config) (m : Mem) (n : ℕ) (key : Key cfg) (size offset : ℕ) : Mem :=
  let m := memmove m (getEntryHeader cfg 1) (getEntryHeader cfg 0) (n * cfg.headerSize)
  let m := write m (getEntryHeader cfg 0) key.toList
  let m := setDataSize cfg m 0 (UInt8.ofNat size)
  setDataOffset cfg m 0 (UInt16.ofNat offset)

/-- The new entry is written to the space that has been made for it. -/
def writeEntry (cfg : Config) (b : Bucket) (key : Key cfg) (val : List UInt8) : Bucket :=
  let n := b.numEntries.toNat
  let totalDataSize := b.totalDataSize + UInt16.ofNat (val.length + 1)
  let newEntryData := cfg.kBucketDataSize - totalDataSize.toNat
  let m := write b.data (newEntryData + 1) val
  let m := assignHeaderIndex cfg (fun _ index => index + 1) (List.range n) m
  let m := writeHeader cfg m n key val.length (cfg.kBucketDataSize - totalDataSize.toNat)
  let m := write m newEntryData [0]
  { numEntries := b.numEntries + 1, totalDataSize, data := m }

/-- The bucket, the entries that `evictionCb` has got, and the result. -/
def insert (cfg : Config) (b : Bucket) (key : Key cfg) (val : List UInt8) :
    Bucket × List (Entry cfg) × ℤ :=
  if cfg.kMaxValueSize < val.length then (b, [], -1)
  else if 2 ^ 8 - 1 < val.length then (b, [], -1)
  else
    let (b', gone, evicted) := evictEntries cfg b (val.length + cfg.headerSize + 1)
    (writeEntry cfg b' key val, gone, if evicted then 1 else 0)

/-- The headers before the promoted one are shifted to the right. -/
def promoteHeader (cfg : Config) (m : Mem) (pos : ℕ) : Mem :=
  let toPromote := read m (getEntryHeader cfg pos) cfg.headerSize
  let m := memmove m (getEntryHeader cfg 1) (getEntryHeader cfg 0) (pos * cfg.headerSize)
  write m (getEntryHeader cfg 0) toPromote

def promote (cfg : Config) (b : Bucket) (pos : ℕ) : Bucket :=
  { b with
    data := assignHeaderIndex cfg (fun i _ => UInt8.ofNat i) (List.range (pos + 1))
      (promoteHeader cfg b.data pos) }

def needsPromote (pos : ℕ) : Bool := 1 < pos

/-- The headers after the deleted one are shifted to the left. -/
def deleteHeader (cfg : Config) (m : Mem) (n pos : ℕ) : Mem :=
  if pos < n - 1 then
    memmove m (getEntryHeader cfg pos) (getEntryHeader cfg pos + cfg.headerSize)
      ((n - pos - 1) * cfg.headerSize)
  else m

def del (cfg : Config) (b : Bucket) (pos : ℕ) : Bucket :=
  let n := b.numEntries.toNat
  let shiftDistance := UInt16.ofNat ((dataSize cfg b.data pos).toNat + 1)
  let shiftChunkSize := UInt16.ofNat
    ((dataOffset cfg b.data pos).toNat - getFirstEntryDataOffset cfg b)
  let m := shiftEntriesData cfg b.data (getFirstEntryDataOffset cfg b) shiftDistance
    shiftChunkSize.toNat
  let m := assignHeaderIndex cfg (fun _ index => index - 1)
    (List.range' (pos + 1) (n - (pos + 1))) m
  { numEntries := b.numEntries - 1
    totalDataSize := b.totalDataSize - shiftDistance
    data := deleteHeader cfg m n pos }

/-- `updateVal` for a smaller value. -/
def shrinkVal (cfg : Config) (b : Bucket) (pos : ℕ) (val : List UInt8) : Bucket :=
  let shiftDistance := UInt16.ofNat ((dataSize cfg b.data pos).toNat - val.length)
  let entryData := getEntryData cfg b.data pos + shiftDistance.toNat
  let m := write b.data (entryData + 1) val
  let m := write m entryData [UInt8.ofNat pos]
  let shiftChunkSize := (dataOffset cfg m pos).toNat - getFirstEntryDataOffset cfg b
  let m := shiftEntriesData cfg m (getFirstEntryDataOffset cfg b) shiftDistance shiftChunkSize
  let m := setDataOffset cfg m pos (dataOffset cfg m pos + shiftDistance)
  let m := setDataSize cfg m pos (UInt8.ofNat val.length)
  { b with totalDataSize := b.totalDataSize - shiftDistance, data := m }

/-- The bucket, and the entries that `evictionCb` has got. -/
def updateVal (cfg : Config) (b : Bucket) (pos : ℕ) (val : List UInt8) :
    Bucket × List (Entry cfg) :=
  if (dataSize cfg b.data pos).toNat = val.length then
    let m := write b.data (getEntryData cfg b.data pos + 1) val
    (promote cfg { b with data := m } pos, [])
  else if val.length < (dataSize cfg b.data pos).toNat then
    (promote cfg (shrinkVal cfg b pos val) pos, [])
  else
    let (b', gone, _) := insert cfg (del cfg b pos) (key cfg b.data pos) val
    (b', gone)

/-- An estimate from the entries there are. -/
def nEntriesCapacity (cfg : Config) (b : Bucket) : ℕ :=
  let n := b.numEntries.toNat
  if n = 0 then 0
  else n * cfg.kBucketDataSize / (b.totalDataSize.toNat + cfg.headerSize * n)

/-! ## Consistency -/

/-- Each entry begins where the one before ends, and the last one ends at the end. -/
def contiguous (cfg : Config) : ℕ → List (UInt16 × UInt8) → Bool
  | expected, [] => expected = cfg.kBucketDataSize
  | expected, (offset, size) :: seen =>
    offset.toNat = expected && contiguous cfg ((expected + size.toNat + 1) % 2 ^ 16) seen

def checkBucketConsistency (cfg : Config) (b : Bucket) : Bool :=
  let positions := List.range b.numEntries.toNat
  let seen := positions.map (fun i => (dataOffset cfg b.data i, dataSize cfg b.data i))
  let totalSize := (positions.map (fun i => (dataSize cfg b.data i).toNat + 1)).sum
  getEntryHeader cfg b.numEntries.toNat ≤ getFirstEntryDataOffset cfg b &&
    positions.all (fun i => (headerIndex b.data (getEntryData cfg b.data i)).toNat = i) &&
    contiguous cfg (getFirstEntryDataOffset cfg b)
      (seen.insertionSort (fun x y => x.1.toNat ≤ y.1.toNat)) &&
    totalSize = b.totalDataSize.toNat

end HybridCache.VariableLru

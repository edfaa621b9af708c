import HybridCache.Transition

/-!
# A map in cache items

`Map` keeps an index, a Robin Hood hash table in the parent item, and the entries in buffers,
one in each chained item. The table maps a key to the address of its entry. When the table is
nearly full it is copied into a larger one; when the buffers have no room they are cloned and
the last one grows or a new one is added; removed entries are squeezed out by a compaction,
which gives the remaining ones new addresses.

An access outside a buffer, an exception that no caller handles and a loop that does not end
are `none`. Publishing the new parent item in the cache is left out.
-/
namespace HybridCache.CacheMap

open Function

inductive Exception
  | badAlloc
  | mapIndexMaxedOut (existingEntries newCapacity newSize : ℕ)
  | invalidArgument
  /-- "hashtable cannot have insufficient space during a compaction" -/
  | insufficientSpace
  /-- "old entry is missing, this should never happen" -/
  | oldEntryMissing
  deriving DecidableEq, Repr

/-- The item is a number in the chain, from the oldest on. -/
structure BufferAddr where
  itemOffset : ℕ
  byteOffset : ℕ
  deriving DecidableEq, Repr

/-- The hash function and the sizes of keys, values and of the item without its payload. -/
structure Config (K V : Type) where
  hash : K → UInt32
  keySize : ℕ
  valueSize : V → ℕ
  itemSize : ℕ
  keySize_pos : 0 < keySize

/-! ## The hash table -/

structure HashTable (K : Type) where
  capacity : ℕ
  numEntries : ℕ
  entries : ℕ → Option (K × BufferAddr)

def probeDistance (desiredIndex index capacity : ℕ) : ℕ :=
  if desiredIndex ≤ index then index - desiredIndex else index + capacity - desiredIndex

section
variable {K V : Type} (cfg : Config K V)

def computeStorageSize (capacity : ℕ) : Except Exception ℕ :=
  let totalSize := 8 + capacity * (cfg.keySize + 4)
  if 2 ^ 32 - 1 < totalSize then .error .invalidArgument else .ok totalSize

namespace HashTable

def new (capacity : ℕ) : HashTable K := ⟨capacity, 0, fun _ => none⟩

variable (t : HashTable K)

/-- Nearly full; the limit is nine tenths of the capacity. -/
def overLimit : Bool :=
  decide (t.capacity - 1 ≤ t.numEntries ∨ 9 * t.capacity < 10 * t.numEntries)

def getDesiredIndex (key : K) : ℕ := (cfg.hash key).toNat * t.capacity / 2 ^ 32

def nextIndex (index : ℕ) : ℕ := if index + 1 = t.capacity then 0 else index + 1

variable [DecidableEq K]

def findLoop (key : K) : ℕ → ℕ → ℕ → Option (Option (ℕ × BufferAddr))
  | 0, _, _ => none
  | fuel + 1, index, myDistance =>
    match t.entries index with
    | none => some none
    | some e =>
      if e.1 = key then some (some (index, e.2))
      else if probeDistance (t.getDesiredIndex cfg e.1) index t.capacity < myDistance then some none
      else findLoop key fuel (t.nextIndex index) (myDistance + 1)

/-- The index and the address of the entry. -/
def find (key : K) : Option (Option (ℕ × BufferAddr)) :=
  t.findLoop cfg key t.capacity (t.getDesiredIndex cfg key) 0

/-- The entry to be placed changes when it takes the place of one with a smaller distance. -/
def insertLoop : ℕ → HashTable K → K × BufferAddr → ℕ → ℕ →
    Option (Option BufferAddr × HashTable K)
  | 0, _, _, _, _ => none
  | fuel + 1, t, newE, index, myDistance =>
    match t.entries index with
    | none =>
      some (none, { t with
        entries := update t.entries index (some newE), numEntries := t.numEntries + 1 })
    | some e =>
      if e.1 = newE.1 then
        some (some e.2, { t with entries := update t.entries index (some newE) })
      else
        let curEntryDistance := probeDistance (t.getDesiredIndex cfg e.1) index t.capacity
        if curEntryDistance < myDistance then
          insertLoop fuel { t with entries := update t.entries index (some newE) } e
            (t.nextIndex index) (curEntryDistance + 1)
        else insertLoop fuel t newE (t.nextIndex index) (myDistance + 1)

/-- Returns the address of the replaced entry. One slot always remains empty. -/
def insertOrReplace (key : K) (addr : BufferAddr) :
    Option (Except Exception (Option BufferAddr × HashTable K)) :=
  if t.numEntries = t.capacity - 1 then some (.error .badAlloc)
  else (insertLoop cfg t.capacity t (key, addr) (t.getDesiredIndex cfg key) 0).map .ok

omit [DecidableEq K] in
/-- Entries after the removed one move back until one is in its ideal position. -/
def shiftLoop : ℕ → HashTable K → ℕ → Option (HashTable K)
  | 0, _, _ => none
  | fuel + 1, t, index =>
    let nextIndex := if index = t.capacity - 1 then 0 else index + 1
    let done := { t with
      entries := update t.entries index none, numEntries := t.numEntries - 1 }
    match t.entries nextIndex with
    | none => some done
    | some e =>
      if probeDistance (t.getDesiredIndex cfg e.1) nextIndex t.capacity = 0 then some done
      else shiftLoop fuel { t with entries := update t.entries index (some e) } nextIndex

def remove (key : K) : Option (Option BufferAddr × HashTable K) :=
  (t.find cfg key).bind fun
    | none => some (none, t)
    | some (index, addr) => (shiftLoop cfg t.capacity t index).map fun t => (some addr, t)

def copyLoop : List (Option (K × BufferAddr)) → HashTable K →
    Option (Except Exception (HashTable K))
  | [], t => some (.ok t)
  | none :: rest, t => copyLoop rest t
  | some e :: rest, t =>
    match t.insertOrReplace cfg e.1 e.2 with
    | none => none
    | some (.error ex) => some (.error ex)
    | some (.ok (_, t)) => copyLoop rest t

/-- The constructor that inserts the entries of another table. -/
def copy (capacity : ℕ) (other : HashTable K) : Option (Except Exception (HashTable K)) :=
  if capacity < other.capacity then some (.error .invalidArgument)
  else copyLoop cfg ((List.range other.capacity).map other.entries) (new capacity)

end HashTable

/-- `granted` says whether the new item can be allocated. -/
def copyHashTable [DecidableEq K] (oldHashTable : HashTable K) (newCapacity : ℕ)
    (granted : Bool) : Option (Except Exception (Option (HashTable K))) :=
  match computeStorageSize cfg newCapacity with
  | .error ex => some (.error ex)
  | .ok newSize =>
    let kMaxHashTableSize := 1024 * 1024 - 8 - cfg.itemSize
    if kMaxHashTableSize < newSize then
      some (.error (.mapIndexMaxedOut oldHashTable.numEntries newCapacity newSize))
    else if granted = true then
      (HashTable.copy cfg newCapacity oldHashTable).map fun
        | .error ex => .error ex
        | .ok t => .ok (some t)
    else some (.ok none)

end

/-! ## Buffers -/

/-- A slot with the bytes of its header left out. `entry` is what has been written into it. -/
structure Slot (K V : Type) where
  size : ℕ
  removed : Bool
  entry : Option (K × V)

/-- The slots by the offset of their header. -/
structure Buffer (K V : Type) where
  capacity : ℕ
  deletedBytes : ℕ
  nextByte : ℕ
  data : ℕ → Slot K V

def getAllocSize (size : ℕ) : ℕ := 4 + size

/-- The size field has 22 bits. -/
def Slot.new {K V : Type} (size : ℕ) : Slot K V := ⟨size % 2 ^ 22, false, none⟩

namespace Buffer

variable {K V : Type}

def new (capacity : ℕ) : Buffer K V := ⟨capacity, 0, 0, fun _ => ⟨0, false, none⟩⟩

/-- The constructor that copies the used bytes of another buffer. -/
def grown (capacity : ℕ) (other : Buffer K V) : Buffer K V :=
  ⟨capacity, other.deletedBytes, other.nextByte,
    fun o => if o < other.nextByte then other.data o else ⟨0, false, none⟩⟩

variable (b : Buffer K V)

def remainingBytes : ℕ := b.capacity - b.nextByte

def wastedBytes : ℕ := b.deletedBytes

def canAllocateWithoutCompaction (size : ℕ) : Bool :=
  decide (getAllocSize size ≤ b.remainingBytes)

/-- Returns the offset of the data, which follows the header. -/
def allocate (size : ℕ) : Option (ℕ × Buffer K V) :=
  if b.capacity < b.nextByte + getAllocSize size then none
  else
    let slot := Slot.new size
    some (b.nextByte + 4, { b with
      data := update b.data b.nextByte slot,
      nextByte := b.nextByte + getAllocSize slot.size })

/-- The header of the slot with this data offset. -/
def getSlot (dataOffset : ℕ) : Option ℕ :=
  if b.nextByte ≤ dataOffset ∨ dataOffset < 4 then none else some (dataOffset - 4)

def remove (offset : ℕ) : Option (Buffer K V) :=
  (b.getSlot offset).map fun o =>
    let slot := b.data o
    if slot.removed = true then b
    else { b with
      data := update b.data o { slot with removed := true },
      deletedBytes := b.deletedBytes + getAllocSize slot.size }

/-- What `memcpy` does to the data of a slot. -/
def write (offset : ℕ) (kv : K × V) : Buffer K V :=
  let o := offset - 4
  { b with data := update b.data o { b.data o with entry := some kv } }

def getData (offset : ℕ) : Option (K × V) := (b.data (offset - 4)).entry

/-- Copies the slots from `srcOffset` on to the end of `dest`. -/
def compactLoop : ℕ → ℕ → Buffer K V → Option (Buffer K V)
  | 0, _, _ => none
  | fuel + 1, srcOffset, dest =>
    if srcOffset < b.nextByte then
      let slot := b.data srcOffset
      let srcOffset := srcOffset + getAllocSize slot.size
      if slot.removed = true then compactLoop fuel srcOffset dest
      else
        (dest.allocate slot.size).bind fun (offset, dest) =>
          compactLoop fuel srcOffset { dest with
            data := update dest.data (offset - 4)
              { dest.data (offset - 4) with entry := slot.entry } }
    else some dest

def compact (dest : Buffer K V) : Option (Buffer K V) :=
  if dest.capacity < b.capacity - b.wastedBytes - b.remainingBytes then none
  else b.compactLoop (b.nextByte + 1) 0 dest

/-- The compaction of one buffer through a temporary one, whose used bytes are copied back. -/
def compacted : Option (Buffer K V) :=
  if b.wastedBytes = 0 then some b
  else (b.compact (new b.capacity)).map fun tmpBuffer =>
    ⟨tmpBuffer.capacity, tmpBuffer.deletedBytes, tmpBuffer.nextByte,
      fun o => if o < tmpBuffer.nextByte then tmpBuffer.data o else b.data o⟩

/-- Null if there is no slot. -/
def getFirstSlot : Option (Option ℕ) :=
  if b.nextByte < getAllocSize 0 then some none else (b.getSlot (getAllocSize 0)).map some

def getNextSlot (curSlot : ℕ) : Option ℕ :=
  let nextDataOffset := curSlot + 4 + getAllocSize (b.data curSlot).size
  if b.nextByte ≤ nextDataOffset then none else b.getSlot nextDataOffset

/-- The first slot from `curr` on that is not removed. -/
def skipRemoved : ℕ → Option ℕ → Option (Option ℕ)
  | _, none => some none
  | 0, some _ => none
  | fuel + 1, some curr =>
    if (b.data curr).removed = true then skipRemoved fuel (b.getNextSlot curr)
    else some (some curr)

def begin : Option (Option ℕ) := b.getFirstSlot.bind (b.skipRemoved b.nextByte)

def increment (curr : ℕ) : Option (Option ℕ) := b.skipRemoved b.nextByte (b.getNextSlot curr)

end Buffer

/-! ## The buffer manager

The buffers are listed from the oldest on; the chain of items starts with the newest. -/

def kMaxBufferCapacity : ℕ := 1024 * 1024 - 100
def kExpansionFactor : ℕ := 2
def kMaxNumChainedItems : ℕ := 2 ^ 10 - 1

namespace BufferManager

variable {K V : Type}

def allocateLoop (size : ℕ) : ℕ → List (Buffer K V) → Option (BufferAddr × List (Buffer K V))
  | _, [] => none
  | i, b :: rest =>
    if b.canAllocateWithoutCompaction size = true then
      (b.allocate size).map fun (offset, b) => (⟨i, offset⟩, b :: rest)
    else (allocateLoop size (i + 1) rest).map fun (addr, rest) => (addr, b :: rest)

def allocate (size : ℕ) (buffers : List (Buffer K V)) : Option (BufferAddr × List (Buffer K V)) :=
  if kMaxBufferCapacity ≤ getAllocSize size then none else allocateLoop size 0 buffers

/-- A copy of the buffer with a higher capacity, or nothing if that is not possible. -/
def expandBuffer (oldBuffer : Buffer K V) (minAdditionalSize : ℕ) (granted : Bool) :
    Option (Buffer K V) :=
  let currentCapacity := oldBuffer.capacity
  if kMaxBufferCapacity ≤ currentCapacity + minAdditionalSize then none
  else
    let normalDesiredCapacity := min kMaxBufferCapacity (currentCapacity * kExpansionFactor)
    let minDesiredCapacity := currentCapacity + minAdditionalSize
    let desiredCapacity := max minDesiredCapacity normalDesiredCapacity
    if granted = true then some (.grown desiredCapacity oldBuffer) else none

/-- `grow` and `add` say whether the larger and the additional item can be allocated. -/
def expand (size : ℕ) (grow add : Bool) (buffers : List (Buffer K V)) :
    Option (Bool × List (Buffer K V)) :=
  let requiredSize := getAllocSize size
  if kMaxBufferCapacity < requiredSize then some (false, buffers)
  else buffers.getLast?.map fun itemToExpand =>
    match expandBuffer itemToExpand requiredSize grow with
    | some expandedBuffer => (true, buffers.dropLast ++ [expandedBuffer])
    | none =>
      if kMaxNumChainedItems ≤ buffers.length then (false, buffers)
      else if add = true then (true, buffers ++ [.new kMaxBufferCapacity])
      else (false, buffers)

def remove (addr : BufferAddr) (buffers : List (Buffer K V)) : Option (List (Buffer K V)) :=
  buffers[addr.itemOffset]?.bind fun b =>
    (b.remove addr.byteOffset).map fun b => buffers.set addr.itemOffset b

def get (addr : BufferAddr) (buffers : List (Buffer K V)) : Option (K × V) :=
  buffers[addr.itemOffset]?.bind fun b => b.getData addr.byteOffset

def write (addr : BufferAddr) (kv : K × V) (buffers : List (Buffer K V)) :
    Option (List (Buffer K V)) :=
  buffers[addr.itemOffset]?.map fun b => buffers.set addr.itemOffset (b.write addr.byteOffset kv)

/-- Copies the items one by one; `granted i` says whether item `i` can be allocated. -/
def clone (granted : ℕ → Bool) : ℕ → List (Buffer K V) → Option (List (Buffer K V))
  | _, [] => some []
  | i, b :: rest =>
    if granted i = true then (clone granted (i + 1) rest).map fun rest => b :: rest else none

def compact (buffers : List (Buffer K V)) : Option (List (Buffer K V)) :=
  buffers.mapM Buffer.compacted

/-- Division by zero is undefined. -/
def wastedBytesPct (buffers : List (Buffer K V)) : Option ℕ :=
  let wastedBytes := (buffers.map Buffer.wastedBytes).sum
  let capacity := (buffers.map Buffer.capacity).sum
  if capacity = 0 then none else some (wastedBytes * 100 / capacity)

/-- `index` counts from the newest item; `curr` is the slot in its buffer. -/
structure Iterator where
  index : ℕ
  curr : Option ℕ
  deriving DecidableEq, Repr

section
variable (buffers : List (Buffer K V))

def getNthInChain (index : ℕ) : Option (Buffer K V) := buffers.reverse[index]?

def incrementIntoNextBuffer : ℕ → Iterator → Option Iterator
  | 0, _ => none
  | fuel + 1, it =>
    match it.curr with
    | some _ => some it
    | none =>
      match getNthInChain buffers (it.index + 1) with
      | none => some ⟨it.index + 1, none⟩
      | some b => b.begin.bind fun curr => incrementIntoNextBuffer fuel ⟨it.index + 1, curr⟩

def begin : Option Iterator :=
  (getNthInChain buffers 0).bind fun b =>
    b.begin.bind fun curr => incrementIntoNextBuffer buffers (buffers.length + 1) ⟨0, curr⟩

def increment (it : Iterator) : Option Iterator :=
  it.curr.bind fun curr => (getNthInChain buffers it.index).bind fun b =>
    (b.increment curr).bind fun curr =>
      incrementIntoNextBuffer buffers (buffers.length + 1) ⟨it.index, curr⟩

def getAsBufferAddr (it : Iterator) (curr : ℕ) : BufferAddr :=
  ⟨buffers.length - it.index - 1, curr + 4⟩

/-- The loop from the iterator to the end, with the address and the entry at each step. -/
def iterateFrom : ℕ → Iterator → Option (List (BufferAddr × K × V))
  | 0, _ => none
  | fuel + 1, it =>
    match it.curr with
    | none => some []
    | some curr =>
      (getNthInChain buffers it.index).bind fun b =>
        (b.getData (curr + 4)).bind fun kv =>
          (increment buffers it).bind fun next =>
            (iterateFrom fuel next).map fun rest => (getAsBufferAddr buffers it curr, kv) :: rest

def iterate : Option (List (BufferAddr × K × V)) :=
  (begin buffers).bind (iterateFrom buffers ((buffers.map Buffer.nextByte).sum + 1))

end
end BufferManager

/-! ## The map -/

structure Map (K V : Type) where
  hashtable : HashTable K
  buffers : List (Buffer K V)

/-- Which of the allocations of an insert succeed: the larger table and the clones of the
chained items for it, the copy of the table and the clones for that, the larger last buffer and
an additional buffer. -/
structure Allocations where
  table : Bool
  tableItems : ℕ → Bool
  copy : Bool
  copyItems : ℕ → Bool
  grow : Bool
  add : Bool

inductive InsertOrReplaceResult
  | kInserted
  | kReplaced
  deriving DecidableEq, Repr

abbrev Outcome (K V α : Type) : Type := Option (Except Exception α × Map K V)

def Outcome.bind {K V α β : Type} (o : Outcome K V α) (f : α → Map K V → Outcome K V β) :
    Outcome K V β :=
  match o with
  | none => none
  | some (.error ex, m) => some (.error ex, m)
  | some (.ok a, m) => f a m

namespace Map

variable {K V : Type} (cfg : Config K V)

/-- `table` and `item` say whether the parent and the first chained item can be allocated. -/
def create (numEntries numBytes : ℕ) (table item : Bool) : Except Exception (Map K V) :=
  match computeStorageSize cfg numEntries with
  | .error ex => .error ex
  | .ok _ =>
    if table = false then .error .badAlloc
    else if kMaxBufferCapacity < numBytes then .error .invalidArgument
    else if item = false then .error .badAlloc
    else .ok ⟨.new numEntries, [.new numBytes]⟩

variable [DecidableEq K] (m : Map K V)

def size : ℕ := m.hashtable.numEntries

def find (key : K) : Option (Option V) :=
  (m.hashtable.find cfg key).bind fun
    | none => some none
    | some (_, addr) => (BufferManager.get addr m.buffers).map fun kv => some kv.2

/-- Gives every entry its address in the compacted buffers. -/
def reinsert : List (BufferAddr × K × V) → HashTable K →
    Option (Except Exception Unit × HashTable K)
  | [], t => some (.ok (), t)
  | (addr, kv) :: rest, t =>
    match t.insertOrReplace cfg kv.1 addr with
    | none => none
    | some (.error _) => some (.error .insufficientSpace, t)
    | some (.ok (none, t)) => some (.error .oldEntryMissing, t)
    | some (.ok (some _, t)) => reinsert rest t

def compact : Outcome K V Unit :=
  (BufferManager.compact m.buffers).bind fun buffers =>
    (BufferManager.iterate buffers).bind fun entries =>
      (reinsert cfg entries m.hashtable).map fun (r, t) => (r, ⟨t, buffers⟩)

/-- A copy of the table of this capacity with clones of the buffers, or `false`. -/
def cloneInto (newCapacity : ℕ) (table : Bool) (items : ℕ → Bool) : Outcome K V Bool :=
  match copyHashTable cfg m.hashtable newCapacity table with
  | none => none
  | some (.error ex) => some (.error ex, m)
  | some (.ok none) => some (.ok false, m)
  | some (.ok (some newHashTable)) =>
    match BufferManager.clone items 0 m.buffers with
    | none => some (.ok false, m)
    | some buffers => some (.ok true, ⟨newHashTable, buffers⟩)

def expandHashTable (g : Allocations) : Outcome K V Bool :=
  m.cloneInto cfg (m.hashtable.capacity * 2) g.table g.tableItems

/-- The first part of `insertImpl`: whether the buffers have been cloned. -/
def expandIfOverLimit (g : Allocations) : Outcome K V Bool :=
  if m.hashtable.overLimit = true then
    (m.expandHashTable cfg g).bind fun res m =>
      if res = true then some (.ok true, m) else some (.error .badAlloc, m)
  else some (.ok false, m)

def kWastedBytesPctThreshold : ℕ := 50

def compactIfWasted : Outcome K V Unit :=
  (BufferManager.wastedBytesPct m.buffers).bind fun pct =>
    if kWastedBytesPctThreshold < pct then m.compact cfg else some (.ok (), m)

/-- The buffers are cloned before they grow, unless that has happened. -/
def cloneChain (chainCloned : Bool) (g : Allocations) : Outcome K V Unit :=
  if chainCloned = true then some (.ok (), m)
  else
    (m.cloneInto cfg m.hashtable.capacity g.copy g.copyItems).bind fun res m =>
      if res = true then some (.ok (), m) else some (.error .badAlloc, m)

/-- The part of `insertImpl` that finds room for the entry. -/
def allocate (chainCloned : Bool) (size : ℕ) (g : Allocations) : Outcome K V BufferAddr :=
  match BufferManager.allocate size m.buffers with
  | some (addr, buffers) => some (.ok addr, { m with buffers := buffers })
  | none =>
    (m.cloneChain cfg chainCloned g).bind fun _ m =>
      (BufferManager.expand size g.grow g.add m.buffers).map fun (expanded, buffers) =>
        if expanded = true then
          match BufferManager.allocate size buffers with
          | some (addr, buffers) => (.ok addr, { m with buffers := buffers })
          | none => (.error .badAlloc, { m with buffers := buffers })
        else (.error .badAlloc, { m with buffers := buffers })

/-- The last part of `insertImpl`: the entry is written and its address put into the table. -/
def store (key : K) (value : V) (addr : BufferAddr) : Outcome K V InsertOrReplaceResult :=
  (BufferManager.write addr (key, value) m.buffers).bind fun buffers =>
    match m.hashtable.insertOrReplace cfg key addr with
    | none => none
    | some (.error ex) =>
      (BufferManager.remove addr buffers).map fun buffers => (.error ex, { m with buffers := buffers })
    | some (.ok (none, t)) => some (.ok .kInserted, ⟨t, buffers⟩)
    | some (.ok (some oldAddr, t)) =>
      (BufferManager.remove oldAddr buffers).map fun buffers => (.ok .kReplaced, ⟨t, buffers⟩)

def insertImpl (key : K) (value : V) (g : Allocations) : Outcome K V InsertOrReplaceResult :=
  (m.expandIfOverLimit cfg g).bind fun chainCloned m =>
    (m.compactIfWasted cfg).bind fun _ m =>
      (m.allocate cfg chainCloned (cfg.keySize + cfg.valueSize value) g).bind fun addr m =>
        m.store cfg key value addr

def insertOrReplace (key : K) (value : V) (g : Allocations) : Outcome K V InsertOrReplaceResult :=
  m.insertImpl cfg key value g

def insert (key : K) (value : V) (g : Allocations) : Outcome K V Bool :=
  (m.hashtable.find cfg key).bind fun
    | some _ => some (.ok false, m)
    | none => (m.insertImpl cfg key value g).bind fun _ m => some (.ok true, m)

def erase (key : K) : Option (Bool × Map K V) :=
  (m.hashtable.remove cfg key).bind fun
    | (none, t) => some (false, { m with hashtable := t })
    | (some addr, t) =>
      (BufferManager.remove addr m.buffers).map fun buffers => (true, ⟨t, buffers⟩)

def iterate : Option (List (K × V)) :=
  (BufferManager.iterate m.buffers).map fun entries => entries.map Prod.snd

end Map

end HybridCache.CacheMap

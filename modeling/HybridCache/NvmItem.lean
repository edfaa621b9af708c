import HybridCache.ByteMemory
import Mathlib.Tactic

/-!
# Items on flash

An item and its chained items are written to flash as one block: the sizes of the blobs, each with
the offset where it ends, and then the blobs one after another. Back in memory, the children are
added in reverse order, because a child is added at the front of the chain; the buffers that the
destructor sees are built the same way.

A blob holds the bytes of an item up to the size that its user has asked for, or all bytes of its
slot. Callbacks that encode and decode items are not configured. A function returns `none` where
it would leave the memory that it writes to or reads from, or would overflow an `int`.
-/
namespace HybridCache.NvmCache
open ByteMemory

structure Blob where
  origAllocSize : UInt32
  data : List UInt8
  deriving DecidableEq

structure BlobInfo where
  origAllocSize : UInt32
  endOffset : UInt32
  deriving DecidableEq

/-- `sizeof(NvmItem)`, packed. -/
def sizeofNvmItem : ℕ := 18

def sizeofBlobInfo : ℕ := 8

structure NvmItem where
  id : ℕ
  creationTime : UInt32
  expTime : UInt32
  numBlobs : ℕ
  data : Mem

def getBlobInfo (data : Mem) (index : ℕ) : BlobInfo :=
  ⟨read32 data (index * sizeofBlobInfo), read32 data (index * sizeofBlobInfo + 4)⟩

def setBlobInfo (data : Mem) (index : ℕ) (info : BlobInfo) : Mem :=
  write data (index * sizeofBlobInfo) (bytes32 info.origAllocSize ++ bytes32 info.endOffset)

/-- The difference is one of 64-bit numbers. -/
def NvmItem.getBlob (item : NvmItem) (index : ℕ) : Except String Blob :=
  if item.numBlobs ≤ index then
    .error ("Index " ++ toString index ++ " out of range " ++ toString item.numBlobs)
  else
    let blobInfo := getBlobInfo item.data index
    let start := if index = 0 then 0 else (getBlobInfo item.data (index - 1)).endOffset.toNat
    let size := (blobInfo.endOffset.toNat + 2 ^ 64 - start) % 2 ^ 64
    .ok ⟨blobInfo.origAllocSize,
      read item.data (item.numBlobs * sizeofBlobInfo + start) size⟩

def NvmItem.totalSize (item : NvmItem) : ℕ :=
  sizeofNvmItem + item.numBlobs * sizeofBlobInfo +
    (getBlobInfo item.data (item.numBlobs - 1)).endOffset.toNat

def estimateVariableSize (blob : Blob) : ℕ := sizeofBlobInfo + blob.data.length

def estimateVariableSizes (blobs : List Blob) : ℕ :=
  blobs.foldl (fun total blob => total + estimateVariableSize blob) 0

/-- The loop of the constructor. There is memory for `extra` bytes, and `index` is an `int`. -/
def fillBlobs (numBlobs extra : ℕ) : List Blob → ℕ → ℕ → Mem → Option (Except String Mem)
  | [], _, _, data => some (.ok data)
  | blob :: blobs, index, offset, data =>
    if 2 ^ 31 - 1 ≤ index then none
    else if 2 ^ 32 - 1 < offset + blob.data.length then
      some (.error ("new offset " ++ toString offset ++ " is out of range. blob size " ++
        toString blob.data.length ++ ", num blobs" ++ toString numBlobs))
    else if extra < numBlobs * sizeofBlobInfo + offset + blob.data.length then none
    else
      let data := write data (numBlobs * sizeofBlobInfo + offset) blob.data
      let offset := offset + blob.data.length
      fillBlobs numBlobs extra blobs (index + 1) offset
        (setBlobInfo data index ⟨blob.origAllocSize, UInt32.ofNat offset⟩)

/-- `memory` is what the new block holds before. -/
def ofBlobs (id : ℕ) (creationTime expTime : UInt32) (blobs : List Blob) (extra : ℕ)
    (memory : Mem) : Option (Except String NvmItem) :=
  (fillBlobs blobs.length extra blobs 0 0 memory).map fun filled =>
    filled.map fun data => ⟨id, creationTime, expTime, blobs.length, data⟩

def ofBlob (id : ℕ) (creationTime expTime : UInt32) (blob : Blob) (extra : ℕ) (memory : Mem) :
    Option (Except String NvmItem) :=
  if 2 ^ 32 - 1 < blob.data.length then
    some (.error ("blob is too big. size " ++ toString blob.data.length))
  else if extra < sizeofBlobInfo + blob.data.length then none
  else
    let data := write memory sizeofBlobInfo blob.data
    some (.ok ⟨id, creationTime, expTime, 1,
      setBlobInfo data 0 ⟨blob.origAllocSize, UInt32.ofNat blob.data.length⟩⟩)

/-! ## Items in memory -/

/-- The bytes of a slot behind its header are `memory`; the user has asked for `size` of them. -/
structure Slot where
  poolId : ℕ
  size : UInt32
  memory : List UInt8
  deriving DecidableEq

structure Item extends Slot where
  key : List UInt8
  creationTime : UInt32
  expTime : UInt32
  chain : List Slot
  deriving DecidableEq

/-- The sizes of the allocation classes of each pool, which are checked against the size of a slab,
the sizes of the headers, and how much of an item is written. -/
structure Cache where
  acSizes : ℕ → List ℕ
  sorted : ∀ pool, (acSizes pool).Pairwise (· < ·)
  le_slab : ∀ pool, ∀ size ∈ acSizes pool, size ≤ 2 ^ 22
  sizeofItem : ℕ
  sizeofPayload : ℕ
  truncateItemToOriginalAllocSizeInNvm : Bool

namespace Cache
variable (cache : Cache)

def kKeySize : ℕ := 4

/-- What an item needs besides the bytes for its user. -/
def itemOverhead (key : List UInt8) : ℕ := key.length + cache.sizeofItem

def chainedOverhead : ℕ := kKeySize + cache.sizeofItem + cache.sizeofPayload

def getRequiredSize (overhead size : ℕ) : ℕ :=
  if 2 ^ 32 - 1 < size + overhead then 0 else size + overhead

/-- The size of the class that the pool has for this size. -/
def allocSize (pool size : ℕ) : Option ℕ :=
  if size = 0 then none else (cache.acSizes pool).find? fun a => decide (size ≤ a)

/-- A new slot, with any bytes in it. There is none if no class is large enough. -/
def allocate (pool overhead : ℕ) (size : UInt32) (junk : ℕ → UInt8) : Option Slot :=
  (cache.allocSize pool (getRequiredSize overhead size.toNat)).map fun a =>
    ⟨pool, size, (List.range (a - overhead)).map junk⟩

def getStorageSizeInNvm (slot : Slot) : ℕ :=
  if cache.truncateItemToOriginalAllocSizeInNvm = true then slot.size.toNat else slot.memory.length

def makeBlob (slot : Slot) : Blob := ⟨slot.size, slot.memory.take (cache.getStorageSizeInNvm slot)⟩

def makeNvmItem (item : Item) (memory : Mem) : Option (Except String NvmItem) :=
  if item.chain ≠ [] then
    let blobs := cache.makeBlob item.toSlot :: item.chain.map cache.makeBlob
    ofBlobs item.poolId item.creationTime item.expTime blobs (estimateVariableSizes blobs) memory
  else
    let blob := cache.makeBlob item.toSlot
    ofBlob item.poolId item.creationTime item.expTime blob (estimateVariableSize blob) memory

def memcpy (slot : Slot) (data : List UInt8) : Option Slot :=
  if data.length ≤ slot.memory.length then
    some { slot with memory := data ++ slot.memory.drop data.length }
  else none

/-- The loop over the children, from the last one on. Slot `i` holds the bytes `junk i` before. -/
def addChildren (nvmItem : NvmItem) (junk : ℕ → ℕ → UInt8) : ℕ → Item → Option (Option Item)
  | 0, it => some (some it)
  | i + 1, it =>
    (nvmItem.getBlob (i + 1)).toOption.bind fun cBlob =>
      match cache.allocate it.poolId cache.chainedOverhead cBlob.origAllocSize (junk (i + 1)) with
      | none => some none
      | some chainedIt =>
        (memcpy chainedIt cBlob.data).bind fun chainedIt =>
          addChildren nvmItem junk i { it with chain := chainedIt :: it.chain }

/-- Where the loops over the children start, as an `int`. -/
def lastChild (numBufs : ℕ) : ℕ := (((numBufs - 1 : ℕ) : ℤ).bmod (2 ^ 32)).toNat

/-- A null handle is `some none`. -/
def createItem (key : List UInt8) (nvmItem : NvmItem) (junk : ℕ → ℕ → UInt8) :
    Option (Option Item) :=
  (nvmItem.getBlob 0).toOption.bind fun pBlob =>
    match cache.allocate nvmItem.id (cache.itemOverhead key) pBlob.origAllocSize (junk 0) with
    | none => some none
    | some it =>
      (memcpy it pBlob.data).bind fun it =>
        cache.addChildren nvmItem junk (lastChild nvmItem.numBlobs)
          ⟨it, key, nvmItem.creationTime, nvmItem.expTime, []⟩

/-! ## Buffers for the destructor -/

/-- An item in a buffer: the size of its user and the bytes behind the header. -/
structure Buffer where
  size : UInt32
  memory : List UInt8
  deriving DecidableEq

/-- A chain of buffers behind its head. -/
structure IOBuf where
  head : Buffer
  chain : List Buffer
  deriving DecidableEq

/-- The buffer comes right behind the head. -/
def IOBuf.appendChain (buf : IOBuf) (chained : Buffer) : IOBuf :=
  { buf with chain := chained :: buf.chain }

/-- A buffer of the required size, into which `size` bytes of the blob are copied. -/
def bufferOf (overhead size : ℕ) (blob : Blob) : Option Buffer :=
  if getRequiredSize overhead size < overhead + size ∨ blob.data.length < size then none
  else some ⟨blob.origAllocSize, blob.data.take size⟩

def appendChildren (nvmItem : NvmItem) : ℕ → IOBuf → Option IOBuf
  | 0, head => some head
  | i + 1, head =>
    (nvmItem.getBlob (i + 1)).toOption.bind fun cBlob =>
      (bufferOf cache.chainedOverhead cBlob.origAllocSize.toNat cBlob).bind fun chained =>
        appendChildren nvmItem i (head.appendChain chained)

def createItemAsIOBuf (key : List UInt8) (nvmItem : NvmItem) (parentOnly : Bool) :
    Option IOBuf :=
  let numBufs := if parentOnly = true then 1 else nvmItem.numBlobs
  (nvmItem.getBlob 0).toOption.bind fun pBlob =>
    (bufferOf (cache.itemOverhead key) pBlob.data.length pBlob).bind fun head =>
      cache.appendChildren nvmItem (lastChild numBufs) ⟨head, []⟩

end Cache

end HybridCache.NvmCache

import HybridCache.NvmItem

/-!
# Items survive the way to flash and back

The constructor lays the blobs out so that each can be read back. A child comes back into a slot
of the pool of its parent. If all bytes of a slot are written, a child that came from another pool
may have more bytes than its new slot has room for.
-/
namespace HybridCache.NvmCache
open ByteMemory List Option Nat

section Layout

def totalBytes (blobs : List Blob) : ℕ := (blobs.map fun b => b.data.length).sum

@[simp] lemma totalBytes_nil : totalBytes [] = 0 := rfl

@[simp] lemma totalBytes_cons (b : Blob) (blobs : List Blob) :
    totalBytes (b :: blobs) = b.data.length + totalBytes blobs := rfl

lemma totalBytes_append (as bs : List Blob) :
    totalBytes (as ++ bs) = totalBytes as + totalBytes bs := by
  simp [totalBytes]

lemma length_flatMap_data (blobs : List Blob) :
    (blobs.flatMap Blob.data).length = totalBytes blobs := by
  simp [totalBytes, length_flatMap]

def infoBytes : ℕ → List Blob → List UInt8
  | _, [] => []
  | offset, b :: blobs =>
    (bytes32 b.origAllocSize ++ bytes32 (UInt32.ofNat (offset + b.data.length))) ++
      infoBytes (offset + b.data.length) blobs

lemma length_infoBytes (offset : ℕ) (blobs : List Blob) :
    (infoBytes offset blobs).length = blobs.length * sizeofBlobInfo := by
  induction blobs generalizing offset with
  | nil => simp [infoBytes]
  | cons b blobs ih =>
    rw [infoBytes, length_append, ih, length_append, length_bytes32, length_bytes32, length_cons]
    unfold sizeofBlobInfo
    omega

lemma infoBytes_append (offset : ℕ) (as bs : List Blob) :
    infoBytes offset (as ++ bs) = infoBytes offset as ++ infoBytes (offset + totalBytes as) bs := by
  induction as generalizing offset with
  | nil => simp [infoBytes]
  | cons a as ih =>
    rw [cons_append, infoBytes, ih, infoBytes, totalBytes_cons, add_assoc]
    simp only [append_assoc]

/-- The memory of an item that holds the blobs. -/
structure Holds (data : Mem) (blobs : List Blob) : Prop where
  infos : At data 0 (infoBytes 0 blobs)
  bytes : At data (blobs.length * sizeofBlobInfo) (blobs.flatMap Blob.data)
  small : totalBytes blobs ≤ 2 ^ 32 - 1

variable {data : Mem} {blobs : List Blob} {b : Blob} {i : ℕ}

section
variable (h : Holds data blobs) {before after : List Blob} (hsplit : blobs = before ++ b :: after)
include h hsplit

lemma Holds.getBlobInfo_eq : getBlobInfo data before.length =
      ⟨b.origAllocSize, UInt32.ofNat (totalBytes before + b.data.length)⟩ := by
  have hinfos := h.infos
  rw [hsplit, infoBytes_append, at_append, infoBytes, at_append, at_append, length_infoBytes,
    zero_add, zero_add, length_bytes32] at hinfos
  obtain ⟨-, ⟨horig, hend⟩, -⟩ := hinfos
  rw [getBlobInfo, horig.read32, hend.read32]

lemma Holds.endOffset_eq :
    (getBlobInfo data before.length).endOffset.toNat = totalBytes before + b.data.length := by
  have hsmall := h.small
  rw [hsplit, totalBytes_append, totalBytes_cons] at hsmall
  rw [h.getBlobInfo_eq hsplit, UInt32.toNat_ofNat', mod_eq_of_lt (by omega)]

end

lemma split_at (hb : blobs[i]? = some b) :
    blobs = blobs.take i ++ b :: blobs.drop (i + 1) ∧ (blobs.take i).length = i := by
  obtain ⟨hi, hbi⟩ := List.getElem?_eq_some_iff.1 hb
  refine ⟨?_, length_take_of_le hi.le⟩
  rw [← hbi, ← drop_eq_getElem_cons, take_append_drop]

/-- Where a blob ends. -/
lemma Holds.endOffset_take (h : Holds data blobs) (hi : i < blobs.length) :
    (getBlobInfo data i).endOffset.toNat = totalBytes (blobs.take (i + 1)) := by
  obtain ⟨hsplit, hlen⟩ := split_at (getElem?_eq_getElem hi)
  have hend := h.endOffset_eq hsplit
  rw [hlen] at hend
  rw [hend, take_succ_eq_append_getElem hi, totalBytes_append]
  simp

lemma Holds.getBlob (h : Holds data blobs) {item : NvmItem} (hdata : item.data = data)
    (hnum : item.numBlobs = blobs.length) (hb : blobs[i]? = some b) :
    item.getBlob i = .ok b := by
  obtain ⟨hi, -⟩ := List.getElem?_eq_some_iff.1 hb
  obtain ⟨hsplit, hlen⟩ := split_at hb
  have hinfo := h.getBlobInfo_eq hsplit
  have hend := h.endOffset_eq hsplit
  rw [hlen] at hinfo hend
  have hstart : (if i = 0 then 0 else (getBlobInfo data (i - 1)).endOffset.toNat) =
      totalBytes (blobs.take i) := by
    cases i with
    | zero => simp
    | succ j => rw [if_neg (Nat.succ_ne_zero j), Nat.add_sub_cancel, h.endOffset_take (by omega)]
  have hbytes := h.bytes
  rw [hsplit, flatMap_append, flatMap_cons, at_append, at_append,
    length_flatMap_data, ← hsplit] at hbytes
  have hsmall := h.small
  rw [hsplit, totalBytes_append, totalBytes_cons] at hsmall
  have hsize : ((getBlobInfo data i).endOffset.toNat + 2 ^ 64 - totalBytes (blobs.take i)) %
      2 ^ 64 = b.data.length := by
    omega
  rw [NvmItem.getBlob, if_neg (by omega), hdata, hnum]
  simp only [hstart, hsize]
  rw [hinfo, hbytes.2.1.read]

lemma Holds.totalSize (h : Holds data blobs) (hpos : 0 < blobs.length) {item : NvmItem}
    (hdata : item.data = data) (hnum : item.numBlobs = blobs.length) :
    item.totalSize = sizeofNvmItem + blobs.length * sizeofBlobInfo + totalBytes blobs := by
  rw [NvmItem.totalSize, hdata, hnum, h.endOffset_take (by omega), take_of_length_le (by omega)]

/-- The loop of the constructor leaves the infos before its own and the bytes before its own as
they are. -/
lemma fillBlobs_spec {numBlobs extra : ℕ} {index offset : ℕ}
    (hindex : index + blobs.length < 2 ^ 31) (hnum : index + blobs.length ≤ numBlobs)
    (hsmall : offset + totalBytes blobs ≤ 2 ^ 32 - 1)
    (hextra : numBlobs * sizeofBlobInfo + offset + totalBytes blobs ≤ extra) :
    ∃ data', fillBlobs numBlobs extra blobs index offset data = some (.ok data') ∧
      At data' (index * sizeofBlobInfo) (infoBytes offset blobs) ∧
      At data' (numBlobs * sizeofBlobInfo + offset) (blobs.flatMap Blob.data) ∧
      ∀ j, j < index * sizeofBlobInfo ∨
        (numBlobs * sizeofBlobInfo ≤ j ∧ j < numBlobs * sizeofBlobInfo + offset) →
          data' j = data j := by
  induction blobs generalizing index offset data with
  | nil => exact ⟨data, rfl, at_nil, at_nil, fun _ _ => rfl⟩
  | cons b blobs ih =>
    rw [totalBytes_cons] at hsmall hextra
    rw [length_cons] at hindex hnum
    have hroom : index * sizeofBlobInfo + sizeofBlobInfo ≤ numBlobs * sizeofBlobInfo := by
      rw [← succ_mul]
      exact mul_le_mul_right _ (by omega)
    set data₁ := setBlobInfo (write data (numBlobs * sizeofBlobInfo + offset) b.data) index
      ⟨b.origAllocSize, UInt32.ofNat (offset + b.data.length)⟩ with hdata₁
    obtain ⟨data', hfill, hinfos, hbytes, hsame⟩ := @ih data₁ (index + 1)
      (offset + b.data.length) (by omega) (by omega) (by omega) (by omega)
    have hinfo : At data₁ (index * sizeofBlobInfo) (bytes32 b.origAllocSize ++
        bytes32 (UInt32.ofNat (offset + b.data.length))) := at_write
    have hblob : At data₁ (numBlobs * sizeofBlobInfo + offset) b.data := by
      refine At.write at_write (Or.inr ?_)
      rw [length_append, length_bytes32, length_bytes32]
      unfold sizeofBlobInfo at hroom ⊢
      omega
    have hlen : (bytes32 b.origAllocSize ++
        bytes32 (UInt32.ofNat (offset + b.data.length))).length = sizeofBlobInfo := rfl
    rw [succ_mul] at hinfos hsame
    refine ⟨data', ?_, ?_, ?_, ?_⟩
    · rw [fillBlobs, if_neg (by omega), if_neg (by omega), if_neg (by omega)]
      exact hfill
    · rw [infoBytes, at_append, hlen]
      refine ⟨hinfo.congr fun j hj hj' => hsame j (Or.inl ?_), hinfos⟩
      exact hj'
    · rw [flatMap_cons, at_append]
      refine ⟨hblob.congr fun j hj hj' => hsame j (Or.inr ?_), ?_⟩
      · omega
      · rw [add_assoc]
        exact hbytes
    · intro j hj
      rw [hsame j (by omega), hdata₁, setBlobInfo]
      rw [write_of_outside, write_of_outside]
      · omega
      · rw [hlen]
        omega

lemma fillBlobs_overflow {numBlobs extra : ℕ} {index offset : ℕ}
    (hindex : 2 ^ 31 ≤ index + blobs.length) (hfits : index < 2 ^ 31)
    (hsmall : offset + totalBytes blobs ≤ 2 ^ 32 - 1) :
    fillBlobs numBlobs extra blobs index offset data = none := by
  induction blobs generalizing index offset data with
  | nil =>
    rw [length_nil] at hindex
    omega
  | cons b blobs ih =>
    rw [totalBytes_cons] at hsmall
    rw [length_cons] at hindex
    rw [fillBlobs]
    split_ifs with hlast hlarge hextra
    · rfl
    · omega
    · rfl
    · exact ih (by omega) (by omega) (by omega)

end Layout

section Write

lemma estimateVariableSizes_eq (blobs : List Blob) :
    estimateVariableSizes blobs = blobs.length * sizeofBlobInfo + totalBytes blobs := by
  have hfold : ∀ total, blobs.foldl (fun total blob => total + estimateVariableSize blob) total =
      total + (blobs.length * sizeofBlobInfo + totalBytes blobs) := by
    induction blobs with
    | nil => simp
    | cons b blobs ih =>
      intro total
      rw [foldl_cons, ih, estimateVariableSize, length_cons, totalBytes_cons, succ_mul]
      omega
  rw [estimateVariableSizes, hfold, zero_add]

lemma ofBlob_eq {id extra : ℕ} {creationTime expTime : UInt32} {blob : Blob} {memory : Mem}
    (hsmall : blob.data.length ≤ 2 ^ 32 - 1) :
    ofBlob id creationTime expTime blob extra memory =
      ofBlobs id creationTime expTime [blob] extra memory := by
  have hindex : ¬ 2 ^ 31 - 1 ≤ 0 := by decide
  have hbig : ¬ 2 ^ 32 - 1 < blob.data.length := not_lt.2 hsmall
  rw [ofBlob, ofBlobs, length_singleton, fillBlobs, one_mul, add_zero, zero_add,
    if_neg hbig, if_neg hbig, if_neg hindex]
  split_ifs
  · rfl
  · rfl

def Cache.blobsOf (cache : Cache) (item : Item) : List Blob :=
  cache.makeBlob item.toSlot :: item.chain.map cache.makeBlob

variable {cache : Cache} {item : Item}

section
variable (hsmall : totalBytes (cache.blobsOf item) ≤ 2 ^ 32 - 1)
include hsmall

lemma makeNvmItem_eq (memory : Mem) :
    cache.makeNvmItem item memory = ofBlobs item.poolId item.creationTime item.expTime
      (cache.blobsOf item) (estimateVariableSizes (cache.blobsOf item)) memory := by
  rw [Cache.makeNvmItem]
  by_cases hchain : item.chain = []
  · rw [if_neg (not_not.2 hchain)]
    rw [Cache.blobsOf, hchain, map_nil] at hsmall ⊢
    rw [totalBytes_cons, totalBytes_nil] at hsmall
    rw [ofBlob_eq (by omega), estimateVariableSizes_eq, estimateVariableSize]
    simp
  · rw [if_pos hchain]
    rfl

lemma makeNvmItem_holds (hnum : item.chain.length + 1 < 2 ^ 31) (memory : Mem) :
    ∃ nvmItem, cache.makeNvmItem item memory = some (.ok nvmItem) ∧
      Holds nvmItem.data (cache.blobsOf item) ∧ nvmItem.numBlobs = item.chain.length + 1 ∧
      nvmItem.id = item.poolId ∧ nvmItem.creationTime = item.creationTime ∧
      nvmItem.expTime = item.expTime := by
  have hlen : (cache.blobsOf item).length = item.chain.length + 1 := by
    rw [Cache.blobsOf, length_cons, length_map]
  obtain ⟨data, hfill, hinfos, hbytes, -⟩ := @fillBlobs_spec memory (cache.blobsOf item)
    (cache.blobsOf item).length (estimateVariableSizes (cache.blobsOf item)) 0 0 (by omega)
    (by omega) (by omega) (by rw [estimateVariableSizes_eq]; omega)
  refine ⟨⟨item.poolId, item.creationTime, item.expTime, (cache.blobsOf item).length, data⟩, ?_,
    ⟨hinfos, hbytes, hsmall⟩, hlen, rfl, rfl, rfl⟩
  rw [makeNvmItem_eq hsmall, ofBlobs, hfill]
  rfl

lemma makeNvmItem_overflow (hnum : 2 ^ 31 ≤ item.chain.length + 1) (memory : Mem) :
    cache.makeNvmItem item memory = none := by
  have hlen : (cache.blobsOf item).length = item.chain.length + 1 := by
    rw [Cache.blobsOf, length_cons, length_map]
  rw [makeNvmItem_eq hsmall, ofBlobs, fillBlobs_overflow (by omega) (by decide) (by omega)]
  rfl

end

end Write

section Read
variable {cache : Cache} {item : Item}

/-- The slot has the size that its pool gives to such an item. -/
def Slot.InPool (slot : Slot) (cache : Cache) (overhead : ℕ) : Prop :=
  ∃ a, cache.allocSize slot.poolId (Cache.getRequiredSize overhead slot.size.toNat) = some a ∧
    slot.memory.length + overhead = a

/-- The slot begins with the bytes that were written of the other one. -/
def Restored (cache : Cache) (slot' slot : Slot) : Prop :=
  slot'.size = slot.size ∧ (cache.makeBlob slot).data <+: slot'.memory

variable {overhead n : ℕ} {slot : Slot}

/-- A class that is large enough. -/
lemma allocSize_spec {pool size a : ℕ}
    (h : cache.allocSize pool (Cache.getRequiredSize overhead size) = some a) :
    size + overhead ≤ a ∧ a ≤ 2 ^ 22 ∧ Cache.getRequiredSize overhead size = size + overhead := by
  rw [Cache.allocSize] at h
  split_ifs at h with hzero
  have hle : Cache.getRequiredSize overhead size ≤ a := by
    have := find?_some h
    exact of_decide_eq_true this
  have hrequired : Cache.getRequiredSize overhead size = size + overhead := by
    rw [Cache.getRequiredSize] at hzero ⊢
    split_ifs at hzero ⊢ with hlarge
    · exact absurd rfl hzero
    · rfl
  exact ⟨hrequired ▸ hle, cache.le_slab pool a (mem_of_find?_eq_some h), hrequired⟩

lemma Slot.InPool.size_le (h : slot.InPool cache overhead) :
    slot.size.toNat ≤ slot.memory.length := by
  obtain ⟨a, ha, hlen⟩ := h
  have := (allocSize_spec ha).1
  omega

lemma length_data (h : slot.size.toNat ≤ slot.memory.length) :
    (cache.makeBlob slot).data.length = cache.getStorageSizeInNvm slot ∧
      slot.size.toNat ≤ cache.getStorageSizeInNvm slot ∧
      cache.getStorageSizeInNvm slot ≤ slot.memory.length := by
  rw [Cache.makeBlob, length_take, Cache.getStorageSizeInNvm]
  split_ifs <;> omega

lemma lastChild_eq (hn : n < 2 ^ 31) : Cache.lastChild (n + 1) = n := by
  have hmod : (n : ℤ).bmod (2 ^ 32) = n := by
    apply Int.bmod_eq_of_le
    · norm_num
    · norm_num
      omega
  unfold Cache.lastChild
  rw [Nat.add_sub_cancel, hmod, Int.toNat_natCast]

/-- A child fits into the slot that the pool of its parent has for it. -/
def Cache.Fits (cache : Cache) (pool : ℕ) (slot : Slot) : Prop :=
  ∀ a, cache.allocSize pool (getRequiredSize cache.chainedOverhead slot.size.toNat) = some a →
    (cache.makeBlob slot).data.length + cache.chainedOverhead ≤ a

lemma allocate_eq {pool : ℕ} {size : UInt32} {a : ℕ}
    (h : cache.allocSize pool (Cache.getRequiredSize overhead size.toNat) = some a)
    (junk : ℕ → UInt8) :
    ∃ slot, cache.allocate pool overhead size junk = some slot ∧ slot.poolId = pool ∧
      slot.size = size ∧ slot.memory.length + overhead = a := by
  refine ⟨_, by rw [Cache.allocate, h, map_some], rfl, rfl, ?_⟩
  have := (allocSize_spec h).1
  simp only [length_map, length_range]
  omega

/-- The bytes go to the front of the slot, if there is room for them. -/
lemma memcpy_spec {data : List UInt8} (h : data.length ≤ slot.memory.length) :
    ∃ slot', Cache.memcpy slot data = some slot' ∧ slot'.size = slot.size ∧
      slot'.poolId = slot.poolId ∧ data <+: slot'.memory :=
  ⟨_, if_pos h, rfl, rfl, prefix_append _ _⟩

variable {nvmItem : NvmItem} {children : List Slot}

section
variable (hn : n ≤ children.length) {it : Item} (junk : ℕ → ℕ → UInt8)
  (hblob : ∀ i c, children[i]? = some c → nvmItem.getBlob (i + 1) = .ok (cache.makeBlob c))
  (halloc : ∀ c ∈ children, (cache.allocSize it.poolId
    (Cache.getRequiredSize cache.chainedOverhead c.size.toNat)).isSome)
include hn hblob halloc

lemma addChildren_spec (hfits : ∀ c ∈ children, cache.Fits it.poolId c) :
    ∃ chain, cache.addChildren nvmItem junk n it =
        some (some { it with chain := chain ++ it.chain }) ∧
      List.Forall₂ (Restored cache) chain (children.take n) := by
  induction n generalizing it with
  | zero => exact ⟨[], rfl, List.Forall₂.nil⟩
  | succ n ih =>
    obtain ⟨c, hc⟩ : ∃ c, children[n]? = some c := ⟨_, getElem?_eq_getElem (by omega)⟩
    have hmem : c ∈ children := mem_of_getElem? hc
    obtain ⟨a, ha⟩ := isSome_iff_exists.1 (halloc c hmem)
    obtain ⟨slot, hslot, -, hsize, hlen⟩ := allocate_eq ha (junk (n + 1))
    have hroom : (cache.makeBlob c).data.length ≤ slot.memory.length := by
      have := hfits c hmem a ha
      omega
    obtain ⟨slot', hcopy, hsize', -, hdata⟩ := memcpy_spec hroom
    obtain ⟨chain, hrun, hrestored⟩ := @ih (by omega) { it with chain := slot' :: it.chain }
      halloc hfits
    refine ⟨chain ++ [slot'], ?_, ?_⟩
    · rw [Cache.addChildren, hblob n c hc, Except.toOption, bind_some]
      simp only [Cache.makeBlob] at hcopy hslot ⊢
      rw [hslot]
      simp only [hcopy, bind_some, hrun, append_assoc, singleton_append]
    · rw [take_add_one, hc, toList_some]
      exact rel_append hrestored (List.Forall₂.cons ⟨hsize'.trans hsize, hdata⟩ List.Forall₂.nil)

/-- A child that does not fit is written past its slot. -/
lemma addChildren_overflow (hfits : ∃ c ∈ children.take n, ¬ cache.Fits it.poolId c) :
    cache.addChildren nvmItem junk n it = none := by
  induction n generalizing it with
  | zero => simp at hfits
  | succ n ih =>
    obtain ⟨c, hc⟩ : ∃ c, children[n]? = some c := ⟨_, getElem?_eq_getElem (by omega)⟩
    have hmem : c ∈ children := mem_of_getElem? hc
    obtain ⟨a, ha⟩ := isSome_iff_exists.1 (halloc c hmem)
    obtain ⟨slot, hslot, -, hsize, hlen⟩ := allocate_eq ha (junk (n + 1))
    rw [Cache.addChildren, hblob n c hc, Except.toOption, bind_some]
    have hslot' : cache.allocate it.poolId cache.chainedOverhead
        (cache.makeBlob c).origAllocSize (junk (n + 1)) = some slot := hslot
    simp only [hslot']
    by_cases hroom : (cache.makeBlob c).data.length ≤ slot.memory.length
    · obtain ⟨slot', hcopy, -⟩ := memcpy_spec hroom
      rw [hcopy, bind_some]
      refine @ih (by omega) { it with chain := slot' :: it.chain } halloc ?_
      obtain ⟨d, hd, hno⟩ := hfits
      rw [take_add_one, hc, toList_some, mem_append, mem_singleton] at hd
      obtain hd | rfl := hd
      · exact ⟨d, hd, hno⟩
      · refine absurd (fun b hb => ?_) hno
        obtain rfl : a = b := some.inj (ha.symm.trans hb)
        omega
    · rw [Cache.memcpy, if_neg hroom, bind_none]

end

lemma bufferOf_eq {size : ℕ} {blob : Blob} (hsize : size ≤ blob.data.length)
    (hrequired : Cache.getRequiredSize overhead size = size + overhead) :
    Cache.bufferOf overhead size blob = some ⟨blob.origAllocSize, blob.data.take size⟩ := by
  rw [Cache.bufferOf, hrequired, if_neg]
  omega

def childBuffer (slot : Slot) : Cache.Buffer := ⟨slot.size, slot.memory.take slot.size.toNat⟩

lemma appendChildren_spec (hn : n ≤ children.length) {head : Cache.IOBuf}
    (hblob : ∀ i c, children[i]? = some c → nvmItem.getBlob (i + 1) = .ok (cache.makeBlob c))
    (hchildren : ∀ c ∈ children, c.InPool cache cache.chainedOverhead) :
    cache.appendChildren nvmItem n head =
      some { head with chain := (children.take n).map childBuffer ++ head.chain } := by
  induction n generalizing head with
  | zero => rfl
  | succ n ih =>
    obtain ⟨c, hc⟩ : ∃ c, children[n]? = some c := ⟨_, getElem?_eq_getElem (by omega)⟩
    have hin : c.InPool cache cache.chainedOverhead := hchildren c (mem_of_getElem? hc)
    obtain ⟨hlen, hle, -⟩ := @length_data cache c hin.size_le
    obtain ⟨a, ha, -⟩ := hin
    have hbuffer : Cache.bufferOf cache.chainedOverhead
        (cache.makeBlob c).origAllocSize.toNat (cache.makeBlob c) = some (childBuffer c) := by
      have hsize : (cache.makeBlob c).origAllocSize = c.size := rfl
      rw [hsize, bufferOf_eq (hlen ▸ hle) (allocSize_spec ha).2.2, childBuffer, hsize,
        Cache.makeBlob, take_take, min_eq_left hle]
    rw [Cache.appendChildren, hblob n c hc, Except.toOption, bind_some, hbuffer,
      bind_some, ih (by omega), take_add_one, hc, toList_some, map_append,
      append_assoc]
    rfl

end Read

section RoundTrip
variable {cache : Cache} {item : Item}

/-- The item is written as the blobs of the item and its children, in this order, and comes back
with their sizes and bytes: in memory, and as the buffers of the destructor. -/
def RoundTrips (cache : Cache) (item : Item) (memory : Mem) (junk : ℕ → ℕ → UInt8) : Prop :=
  ∃ nvmItem, cache.makeNvmItem item memory = some (.ok nvmItem) ∧
    nvmItem.numBlobs = (cache.blobsOf item).length ∧
    (∀ i b, (cache.blobsOf item)[i]? = some b → nvmItem.getBlob i = .ok b) ∧
    nvmItem.totalSize = sizeofNvmItem + estimateVariableSizes (cache.blobsOf item) ∧
    (∃ it, cache.createItem item.key nvmItem junk = some (some it) ∧ it.key = item.key ∧
      it.creationTime = item.creationTime ∧ it.expTime = item.expTime ∧
      Restored cache it.toSlot item.toSlot ∧
      List.Forall₂ (Restored cache) it.chain item.chain) ∧
    cache.createItemAsIOBuf item.key nvmItem false =
      some ⟨⟨item.size, (cache.makeBlob item.toSlot).data⟩, item.chain.map childBuffer⟩

/-- Only what the user has asked for is written of each child, or the parent's pool has a slot for
the child that is not smaller than its own. -/
def ChildrenFit (cache : Cache) (item : Item) : Prop :=
  cache.truncateItemToOriginalAllocSizeInNvm = true ∨
    ∀ c ∈ item.chain, ∀ a,
      cache.allocSize item.poolId (Cache.getRequiredSize cache.chainedOverhead c.size.toNat) =
        some a → c.memory.length + cache.chainedOverhead ≤ a

lemma childrenFit_iff (hchildren : ∀ c ∈ item.chain, c.InPool cache cache.chainedOverhead) :
    ChildrenFit cache item ↔ ∀ c ∈ item.chain, cache.Fits item.poolId c := by
  by_cases htrunc : cache.truncateItemToOriginalAllocSizeInNvm = true
  · refine iff_of_true (.inl htrunc) fun c hc a ha => ?_
    rw [(length_data (hchildren c hc).size_le).1, Cache.getStorageSizeInNvm, if_pos htrunc]
    exact (allocSize_spec ha).1
  · rw [ChildrenFit, or_iff_right htrunc]
    refine forall₂_congr fun c hc => ?_
    rw [Cache.Fits, (length_data (hchildren c hc).size_le).1, Cache.getStorageSizeInNvm,
      if_neg htrunc]

variable {nvmItem : NvmItem}

lemma getBlob_of_holds (h : Holds nvmItem.data (cache.blobsOf item))
    (hnum : nvmItem.numBlobs = item.chain.length + 1) {i : ℕ} {b : Blob}
    (hb : (cache.blobsOf item)[i]? = some b) : nvmItem.getBlob i = .ok b := by
  refine h.getBlob rfl ?_ hb
  rw [hnum, Cache.blobsOf, length_cons, length_map]

/-- The first steps of `createItem`: the slot of the parent has room again. -/
lemma createItem_eq (hitem : item.InPool cache (cache.itemOverhead item.key))
    (hblob : nvmItem.getBlob 0 = .ok (cache.makeBlob item.toSlot)) (hid : nvmItem.id = item.poolId)
    (junk : ℕ → ℕ → UInt8) :
    ∃ it : Item, cache.createItem item.key nvmItem junk =
        cache.addChildren nvmItem junk (Cache.lastChild nvmItem.numBlobs) it ∧
      it.poolId = item.poolId ∧ it.key = item.key ∧ it.creationTime = nvmItem.creationTime ∧
      it.expTime = nvmItem.expTime ∧ Restored cache it.toSlot item.toSlot ∧ it.chain = [] := by
  obtain ⟨a, ha, hlen⟩ := id hitem
  obtain ⟨slot, hslot, hpool, hsize, hlen'⟩ := allocate_eq ha (junk 0)
  have hroom : (cache.makeBlob item.toSlot).data.length ≤ slot.memory.length := by
    obtain ⟨hdata, -, hle⟩ := @length_data cache item.toSlot hitem.size_le
    omega
  obtain ⟨slot', hcopy, hsize', hpool', hdata⟩ := memcpy_spec hroom
  refine ⟨⟨slot', item.key, nvmItem.creationTime, nvmItem.expTime, []⟩, ?_, hpool'.trans hpool, rfl,
    rfl, rfl, ⟨hsize'.trans hsize, hdata⟩, rfl⟩
  have hslot' : cache.allocate nvmItem.id (cache.itemOverhead item.key)
      (cache.makeBlob item.toSlot).origAllocSize (junk 0) = some slot := hid ▸ hslot
  rw [Cache.createItem, hblob, Except.toOption, bind_some]
  rw [hslot']
  dsimp only
  rw [hcopy, bind_some]

lemma createItemAsIOBuf_eq
    (hdata : (cache.makeBlob item.toSlot).data.length + cache.itemOverhead item.key ≤ 2 ^ 22)
    (hblob : nvmItem.getBlob 0 = .ok (cache.makeBlob item.toSlot)) :
    cache.createItemAsIOBuf item.key nvmItem false =
      cache.appendChildren nvmItem (Cache.lastChild nvmItem.numBlobs)
        ⟨⟨item.size, (cache.makeBlob item.toSlot).data⟩, []⟩ := by
  have hrequired : Cache.getRequiredSize (cache.itemOverhead item.key)
      (cache.makeBlob item.toSlot).data.length =
        (cache.makeBlob item.toSlot).data.length + cache.itemOverhead item.key := by
    rw [Cache.getRequiredSize, if_neg (by omega)]
  rw [Cache.createItemAsIOBuf, hblob, Except.toOption, bind_some,
    bufferOf_eq le_rfl hrequired, bind_some, take_length, if_neg Bool.false_ne_true]
  rfl

/-- Two pools; the second one has no small slots. -/
def twoPools : Cache where
  acSizes pool := if pool = 0 then [64, 128] else [128]
  sorted pool := by split_ifs <;> decide
  le_slab pool := by split_ifs <;> decide
  sizeofItem := 32
  sizeofPayload := 4
  truncateItemToOriginalAllocSizeInNvm := false

/-- An item of the first pool with one child of ten bytes, from the given pool. -/
def withChild (pool : ℕ) (slack : List UInt8) : Item where
  poolId := 0
  size := 8
  memory := List.replicate 31 1
  key := [107]
  creationTime := 5
  expTime := 0
  chain := [⟨pool, 10, List.replicate 10 2 ++ slack⟩]

end RoundTrip

end HybridCache.NvmCache

import HybridCache.BoundedLru
import HybridCache.VariableLruShift

/-!
# Eviction from a bucket

`evictEntries` keeps the longest part of the list of entries with room for what is required.
-/
namespace HybridCache.VariableLru

open ByteMemory List Nat

variable {cfg : Config} {b : Bucket} {es : List (Entry cfg)} {off : ℕ → ℕ} {order : List ℕ}

def lru (cfg : Config) : BoundedLru (Entry cfg) where
  size e := e.value.length + cfg.headerSize + 1
  capacity := cfg.kBucketDataSize
  maxEntries := kMaxEntries

lemma lru_size (e : Entry cfg) : (lru cfg).size e = e.value.length + cfg.headerSize + 1 := rfl

lemma map_blockSize_range :
    (List.range es.length).map (blockSize es) = es.map (fun e => e.value.length + 1) := by
  refine ext_getElem (by simp) fun j hj hj' => ?_
  rw [length_map] at hj'
  simp only [getElem_map, getElem_range, blockSize]
  rw [valueAt_of_getElem (getElem?_eq_getElem hj')]

lemma load_eq : (lru cfg).load es = es.length * cfg.headerSize + dataLength es (List.range es.length) := by
  rw [dataLength, map_blockSize_range]
  induction es with
  | nil => simp
  | cons e es ih =>
    rw [BoundedLru.load_cons, ih, length_cons, map_cons, sum_cons, succ_mul, lru_size]
    omega

lemma dataLength_perm (es : List (Entry cfg)) {L L' : List ℕ} (h : L.Perm L') :
    dataLength es L = dataLength es L' :=
  (h.map (blockSize es)).sum_eq

lemma Layout.load (h : Layout cfg b es off order) :
    (lru cfg).load es = es.length * cfg.headerSize + dataLength es order := by
  rw [load_eq, dataLength_perm es h.perm]

lemma Layout.load_le (h : Layout cfg b es off order) : (lru cfg).load es ≤ cfg.kBucketDataSize := by
  rw [h.load]
  exact h.room

/-! ## Which entries are evicted -/

variable {k required : ℕ}

lemma range'_reverse {left : ℕ} (hk : k ≤ left) :
    (List.range' k (left + 1 - k)).reverse = left :: (List.range' k (left - k)).reverse := by
  rw [Nat.succ_sub hk, range'_1_concat, reverse_append, Nat.add_sub_cancel' hk]
  rfl

section
variable (h : Layout cfg b es off order) (hrequired : required ≤ cfg.kBucketDataSize)
include h hrequired

/-- The loop stops as soon as there is enough space. -/
lemma evictMore_spec (left free : ℕ) (hleft : left ≤ es.length)
    (hfree : free + (lru cfg).load (es.take left) = cfg.kBucketDataSize) :
    ∃ k ≤ left, evictMore cfg b.data required left free = (List.range' k (left - k)).reverse ∧
      (lru cfg).load (es.take k) + required ≤ cfg.kBucketDataSize ∧
      (k < left → ¬(lru cfg).load (es.take (k + 1)) + required ≤ cfg.kBucketDataSize) := by
  induction left generalizing free with
  | zero => exact ⟨0, le_rfl, by simp [evictMore], by simpa using hrequired, nofun⟩
  | succ left ih =>
    by_cases hspace : free < required
    · have hsize : (dataSize cfg b.data left).toNat = es[left].value.length :=
        h.dataSize (getElem?_eq_getElem hleft)
      have hload := BoundedLru.load_take_succ (B := lru cfg) hleft
      rw [hload, lru_size] at hfree
      obtain ⟨k, hk, hlist, hfits, hnext⟩ := ih
        (free + (dataSize cfg b.data left).toNat + cfg.headerSize + 1) (by omega)
        (by omega)
      refine ⟨k, by omega, ?_, hfits, fun hlt => ?_⟩
      · rw [evictMore, if_pos hspace, hlist, range'_reverse hk]
      · rcases lt_or_ge k left with hkl | hkl
        · exact hnext hkl
        · obtain rfl : k = left := by omega
          rw [hload, lru_size]
          omega
    · refine ⟨left + 1, le_rfl, ?_, by omega, fun hlt => absurd hlt (lt_irrefl _)⟩
      rw [evictMore, if_neg hspace, Nat.sub_self]
      rfl

lemma evictedPositions_spec :
    evictedPositions cfg b required (cfg.kBucketDataSize - (lru cfg).load es) =
      (List.range' ((lru cfg).keepCount required es)
        (es.length - (lru cfg).keepCount required es)).reverse := by
  have hload := h.load_le
  have hlength : es.length ≤ kMaxEntries := le_of_lt_succ h.length_lt
  unfold evictedPositions
  simp only [h.numEntries]
  split_ifs with hmax
  · -- at least one entry is evicted, the rest as in the other case
    have hpos : 0 < es.length := by rw [hmax]; decide
    have hlast : es.length - 1 < es.length := by omega
    have hsucc : es.length - 1 + 1 = es.length := by omega
    have htake := BoundedLru.load_take_succ (B := lru cfg) hlast
    rw [hsucc, take_length, lru_size] at htake
    have hsize : (dataSize cfg b.data (es.length - 1)).toNat = es[es.length - 1].value.length :=
      h.dataSize (getElem?_eq_getElem hlast)
    obtain ⟨k, hk, hlist, hfits, hnext⟩ := evictMore_spec h hrequired (es.length - 1)
      (cfg.kBucketDataSize - (lru cfg).load es +
        (dataSize cfg b.data (es.length - 1)).toNat + cfg.headerSize + 1) (by omega) (by omega)
    have hkeep : (lru cfg).keepCount required es = k := by
      refine BoundedLru.keepCount_eq (by omega) ⟨hfits, ?_⟩ fun hlt hfits' => ?_
      · rw [length_take]
        change min k es.length < kMaxEntries
        omega
      · rcases lt_or_ge k (es.length - 1) with hkl | hkl
        · exact hnext hkl hfits'.1
        · have hcount : (es.take (k + 1)).length < kMaxEntries := hfits'.2
          rw [length_take] at hcount
          omega
    rw [hlist, hkeep, ← range'_reverse (by omega), hsucc]
  · obtain ⟨k, hk, hlist, hfits, hnext⟩ := evictMore_spec h hrequired es.length
      (cfg.kBucketDataSize - (lru cfg).load es) le_rfl (by rw [take_length]; omega)
    have hkeep : (lru cfg).keepCount required es = k := by
      refine BoundedLru.keepCount_eq hk ⟨hfits, ?_⟩ fun hlt hfits' => hnext hlt hfits'.1
      rw [length_take]
      change min k es.length < kMaxEntries
      omega
    rw [hlist, hkeep]

end

/-! ## What is left -/

def Stores (cfg : Config) (b : Bucket) (es : List (Entry cfg)) : Prop :=
  ∃ off order, Layout cfg b es off order

/-- Everything that has been written lies in the bucket. -/
def Outside (cfg : Config) (m m' : Mem) : Prop := ∀ i, cfg.kBucketDataSize ≤ i → m' i = m i

lemma Outside.trans {m₁ m₂ m₃ : Mem} (h₁ : Outside cfg m₁ m₂) (h₂ : Outside cfg m₂ m₃) :
    Outside cfg m₁ m₃ :=
  fun i hi => (h₂ i hi).trans (h₁ i hi)

lemma valueAt_take {j : ℕ} (hj : j < k) : valueAt (es.take k) j = valueAt es j := by
  rw [valueAt, valueAt, getElem?_take_of_lt hj]

lemma Headers.take {m : Mem} (h : Headers m es off) : Headers m (es.take k) off := by
  intro j e he
  refine h j e ?_
  rw [getElem?_take] at he
  split_ifs at he
  exact he

/-- The positions that are evicted, in the order of the data. -/
lemma evicted_perm (hperm : order.Perm (List.range es.length)) :
    (List.range' k (es.length - k)).reverse.Perm (order.filter (fun j => k ≤ j)) := by
  have hnodup : order.Nodup := hperm.nodup_iff.2 nodup_range
  refine (reverse_perm _).trans ?_
  refine (perm_ext_iff_of_nodup nodup_range' (hnodup.filter _)).2 fun j => ?_
  rw [mem_range'_1, mem_filter, hperm.mem_iff, mem_range, decide_eq_true_eq]
  omega

lemma kept_perm (hk : k ≤ es.length) (hperm : order.Perm (List.range es.length)) :
    (order.filter (fun j => !decide (k ≤ j))).Perm (List.range (es.take k).length) := by
  have hnodup : order.Nodup := hperm.nodup_iff.2 nodup_range
  refine (perm_ext_iff_of_nodup (hnodup.filter _) nodup_range).2 fun j => ?_
  rw [mem_filter, hperm.mem_iff, mem_range, mem_range, length_take,
    Bool.not_eq_true', decide_eq_false_iff_not]
  omega

section
variable (h : Layout cfg b es off order)
include h

lemma Layout.sort_evicted (k : ℕ) : (List.range' k (es.length - k)).reverse.insertionSort
      (fun x y => (VariableLru.dataOffset cfg b.data x).toNat ≤
        (VariableLru.dataOffset cfg b.data y).toNat) = order.filter (fun j => k ≤ j) := by
  refine insertionSort_eq (fun x => (VariableLru.dataOffset cfg b.data x).toNat)
    (evicted_perm h.perm) ?_
  refine (h.chunk.points.pairwise.sublist filter_sublist).imp_of_mem fun {i j} hi hj hij => ?_
  obtain ⟨e, he⟩ := h.getElem_of_mem (mem_filter.1 hi).1
  obtain ⟨e', he'⟩ := h.getElem_of_mem (mem_filter.1 hj).1
  rw [h.dataOffset he, h.dataOffset he']
  exact hij

lemma Layout.map_entryAt (k : ℕ) :
    (List.range' k (es.length - k)).reverse.map (VariableLru.entryAt cfg b.data) =
      (es.drop k).reverse := by
  rw [map_reverse]
  congr 1
  refine ext_getElem (by simp) fun j hj hj' => ?_
  rw [length_map, length_range'] at hj
  rw [getElem_map, getElem_range', getElem_drop, one_mul]
  exact h.entryAt (getElem?_eq_getElem (by omega))

lemma Layout.moveChunks (hk : k ≤ es.length) : ∃ off', Layout cfg
      { numEntries := b.numEntries - UInt8.ofNat (es.length - k)
        totalDataSize := b.totalDataSize - UInt16.ofNat (VariableLru.moveChunks cfg
          (getFirstEntryDataOffset cfg b) b.data (order.filter (fun j => k ≤ j)).reverse 0).2
        data := (VariableLru.moveChunks cfg (getFirstEntryDataOffset cfg b) b.data
          (order.filter (fun j => k ≤ j)).reverse 0).1 } (es.take k) off'
      (order.filter (fun j => !decide (k ≤ j))) ∧
      ∀ i, cfg.kBucketDataSize ≤ i → (VariableLru.moveChunks cfg (getFirstEntryDataOffset cfg b)
        b.data (order.filter (fun j => k ≤ j)).reverse 0).1 i = b.data i := by
  have hroom := h.room
  obtain ⟨A, C, horder, hsweep, hC⟩ := exists_sweep (fun j => decide (k ≤ j)) order
  obtain ⟨hgoneC, hkeptC⟩ := filter_not_of_kept hC
  set start := cfg.kBucketDataSize - dataLength es order with hstart
  have hreadable : Readable cfg es start (A ++ C) := by rw [← horder]; exact h.readable
  have hlength : dataLength es order = dataLength es A + dataLength es C := by
    rw [horder, dataLength_append]
  obtain ⟨hchunkA, hchunkC⟩ : Chunk b.data es off position start A ∧
      Chunk b.data es off position (start + dataLength es A) C := by
    rw [← chunk_append, ← horder]
    exact h.chunk
  obtain ⟨hshift, off', hheaders, hchunk, hframe⟩ := moveChunks_spec hsweep 0
    hreadable.left (fun j hj hjC => (nodup_append.1 hreadable.nodup).2.2 j hj j hjC rfl)
    (by omega) h.headers hchunkA hchunkC
  have hgone : order.filter (fun j => decide (k ≤ j)) = A.filter (fun j => decide (k ≤ j)) := by
    rw [horder, filter_append, hgoneC, append_nil]
  have hkept : order.filter (fun j => !decide (k ≤ j)) =
      A.filter (fun j => !decide (k ≤ j)) ++ C := by
    rw [horder, filter_append, hkeptC]
  have hsplit := dataLength_perm es (filter_append_perm (fun j => decide (k ≤ j)) order)
  rw [dataLength_append] at hsplit
  have hmem : ∀ j ∈ order.filter (fun j => !decide (k ≤ j)), j < k := by
    simp
  have htake : dataLength (es.take k) (order.filter (fun j => !decide (k ≤ j))) =
      dataLength es (order.filter (fun j => !decide (k ≤ j))) :=
    dataLength_congr fun j hj => valueAt_take (hmem j hj)
  rw [← hgone, zero_add] at hshift
  rw [← hkept, hshift] at hchunk
  have hfirst : start + dataLength es (order.filter (fun j => decide (k ≤ j))) =
      cfg.kBucketDataSize -
        dataLength (es.take k) (order.filter (fun j => !decide (k ≤ j))) := by omega
  have hcount : (es.take k).length = k := by rw [length_take]; omega
  have hroomTake : k * cfg.headerSize ≤ es.length * cfg.headerSize := mul_le_mul_right _ hk
  rw [h.first, ← hstart]
  refine ⟨off', ⟨?_, ?_, kept_perm hk h.perm, ?_, ?_, hheaders.take, ?_⟩, hframe⟩
  · rw [toNat_sub_uint8 (by rw [h.numEntries]; omega), h.numEntries, hcount]
    omega
  · rw [hshift, toNat_sub_uint16 (by rw [h.totalDataSize]; omega), h.totalDataSize, htake]
    omega
  · rw [hcount, htake]
    omega
  · exact fun e he => h.sizes e (mem_of_mem_take he)
  · rw [← hfirst]
    exact hchunk.entries_congr fun j hj => valueAt_take (hmem j hj)

end

/-- `evictEntries` keeps the longest part of the list with enough room, and gives `evictionCb`
the rest from the end on. -/
theorem evictEntries_spec (h : Stores cfg b es) (hrequired : required ≤ cfg.kBucketDataSize) :
    Stores cfg (evictEntries cfg b required).1 ((lru cfg).keep required es) ∧
      (evictEntries cfg b required).2.1 = ((lru cfg).gone required es).reverse ∧
      Outside cfg b.data (evictEntries cfg b required).1.data := by
  obtain ⟨off, order, h⟩ := h
  have hload := h.load
  have hroom := h.room
  have hlength : es.length ≤ kMaxEntries := le_of_lt_succ h.length_lt
  have hfree : cfg.kBucketDataSize - b.totalDataSize.toNat - cfg.headerSize * b.numEntries.toNat =
      cfg.kBucketDataSize - (lru cfg).load es := by
    rw [h.totalDataSize, h.numEntries, hload, mul_comm]
    omega
  unfold evictEntries
  simp only [hfree]
  split_ifs with hspace
  · have hfits : (lru cfg).Fits required es := by
      rw [h.numEntries] at hspace
      exact ⟨by change _ ≤ cfg.kBucketDataSize; omega, by change _ < kMaxEntries; omega⟩
    rw [BoundedLru.keep_of_fits hfits, BoundedLru.gone_of_fits hfits]
    exact ⟨⟨off, order, h⟩, rfl, fun _ _ => rfl⟩
  · obtain ⟨off', hlayout, hframe⟩ :=
      h.moveChunks (BoundedLru.keepCount_le : (lru cfg).keepCount required es ≤ es.length)
    rw [evictedPositions_spec h hrequired, h.sort_evicted, h.map_entryAt, length_reverse,
      length_range']
    exact ⟨⟨off', _, hlayout⟩, rfl, hframe⟩

end HybridCache.VariableLru

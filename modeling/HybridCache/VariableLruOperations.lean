import HybridCache.VariableLruEvict

/-!
# Operations on a bucket

What an operation leaves in a bucket: the headers and the data of the list of entries that is
expected of it. In between, the data are those of the entries at their old positions, and the
headers are those of the entries at their new ones.
-/
namespace HybridCache.VariableLru

open ByteMemory List Nat

variable {cfg : Config} {b : Bucket} {es : List (Entry cfg)} {off : ℕ → ℕ} {order : List ℕ}

/-! ## Insertion -/

def consOffset (start : ℕ) (off : ℕ → ℕ) : ℕ → ℕ
  | 0 => start
  | j + 1 => off j

section WriteEntry

variable {m : Mem} {e : Entry cfg} {start : ℕ}

lemma getEntryHeader_zero : getEntryHeader cfg 0 = 0 := by
  rw [getEntryHeader_of_lt (by decide), Nat.zero_mul]

lemma getEntryHeader_one : getEntryHeader cfg 1 = cfg.headerSize := by
  rw [getEntryHeader_of_lt (by decide), one_mul]

variable {j n : ℕ}

/-- The header of an entry after it has been shifted by one position. -/
lemma Headers.moved (h : Headers m es off) (he : es[j]? = some e) (hn : j < n) :
    HeaderAt (memmove m (getEntryHeader cfg 1) (getEntryHeader cfg 0) (n * cfg.headerSize))
      (j + 1) e (off j) := by
  have hend := header_le cfg hn
  have hat := h j e he
  rw [HeaderAt, ← zero_add (j * cfg.headerSize)] at hat
  rw [getEntryHeader_zero, getEntryHeader_one, HeaderAt, succ_mul, add_comm]
  exact hat.memmove (by rw [length_encodeHeader]; omega)

lemma writeHeader_of_ge {i size offset : ℕ} {key : Key cfg}
    (hi : n * cfg.headerSize + cfg.headerSize ≤ i) :
    writeHeader cfg m n key size offset i = m i := by
  have hkey : cfg.keySize ≤ cfg.headerSize := by rw [Config.headerSize]; omega
  rw [writeHeader, setDataOffset_of_outside (by decide) (by omega),
    setDataSize_of_outside (by decide) (by omega),
    write_of_outside (by rw [Vector.length_toList, getEntryHeader_zero]; omega),
    memmove_of_outside (by rw [getEntryHeader_one]; omega)]

lemma headers_writeHeader (h : Headers m es off) :
    Headers (writeHeader cfg m es.length e.key e.value.length start) (e :: es)
      (consOffset start off) := by
  intro j e' he
  cases j with
  | zero =>
    cases he
    have hkey : e.key.toList.length = cfg.keySize := Vector.length_toList
    rw [headerAt_iff, writeHeader, setDataOffset, setDataSize, getEntryHeader_zero, Nat.zero_mul,
      zero_add]
    refine ⟨(at_write.write (Or.inl (by omega))).write (Or.inl (by omega)), ?_, at_write⟩
    rw [write_of_outside (by omega)]
    exact at_write 0 _ rfl
  | succ j =>
    have hkey : cfg.keySize ≤ cfg.headerSize := by rw [Config.headerSize]; omega
    have he' : es[j]? = some e' := he
    refine (h.moved he' (List.getElem?_eq_some_iff.1 he').1).congr fun i hi _ => ?_
    rw [succ_mul] at hi
    rw [writeHeader, setDataOffset_of_outside (by decide) (by omega),
      setDataSize_of_outside (by decide) (by omega),
      write_of_outside (by rw [Vector.length_toList, getEntryHeader_zero]; omega)]

lemma position_pred (hj : 0 < j) : position j - 1 = position (j - 1) := by
  obtain ⟨j, rfl⟩ : ∃ i, j = i + 1 := ⟨j - 1, by omega⟩
  have hsucc : position (j + 1) = position j + 1 := UInt8.ofNat_add j 1
  rw [hsucc, UInt8.add_sub_cancel, Nat.add_sub_cancel]

lemma position_succ : position j + 1 = position (j + 1) := (UInt8.ofNat_add j 1).symm

lemma Layout.writeEntry (h : Layout cfg b es off order) (hsize : e.value.length < 2 ^ 8)
    (hfits : (lru cfg).Fits ((lru cfg).size e) es) :
    Layout cfg (writeEntry cfg b e.key e.value) (e :: es)
        (consOffset (cfg.kBucketDataSize - (dataLength es order + e.value.length + 1)) off)
        (0 :: order.map (· + 1)) ∧
      Outside cfg b.data (VariableLru.writeEntry cfg b e.key e.value).data := by
  have hlt := kBucketDataSize_lt cfg
  have hroom : (es.length * cfg.headerSize + dataLength es order) +
      (e.value.length + cfg.headerSize + 1) ≤ cfg.kBucketDataSize := by
    rw [← h.load]
    exact hfits.1
  have hcount : es.length < kMaxEntries := hfits.2
  have htotal : (b.totalDataSize + UInt16.ofNat (e.value.length + 1)).toNat =
      dataLength es order + e.value.length + 1 := by
    rw [toNat_add_uint16 (by rw [h.totalDataSize]; omega), h.totalDataSize]
    omega
  set start := cfg.kBucketDataSize - (dataLength es order + e.value.length + 1) with hstart
  have hfirst : cfg.kBucketDataSize - dataLength es order = start + 1 + e.value.length := by omega
  have hold : dataLength (e :: es) (order.map (· + 1)) = dataLength es order :=
    dataLength_map fun _ _ => rfl
  have hnew : blockSize (e :: es) 0 = e.value.length + 1 := rfl
  have hreadable := h.readable
  have hchunk := h.chunk
  rw [hfirst] at hreadable hchunk
  -- the value
  set m₁ := write b.data (start + 1) e.value with hm₁
  have hframe₁ : ∀ i, i < start + 1 ∨ start + 1 + e.value.length ≤ i → m₁ i = b.data i :=
    fun i hi => write_of_outside hi
  -- the indices of the other headers
  obtain ⟨hheaders₂, hchunk₂, hframe₂⟩ := assignHeaderIndex_spec (fun _ index => index + 1)
    nodup_range (fun i hi => h.perm.mem_iff.2 hi) hreadable
    (h.headers.congr fun i hi => hframe₁ i (by omega))
    (hchunk.congr fun i hi _ => hframe₁ i (Or.inr hi))
  set m₂ := assignHeaderIndex cfg (fun _ index => index + 1) (range es.length) m₁ with hm₂
  -- the headers
  set m₃ := writeHeader cfg m₂ es.length e.key e.value.length start with hm₃
  have hframe₃ : ∀ i, start ≤ i → m₃ i = m₂ i := fun i hi => writeHeader_of_ge (by omega)
  have hdata : (VariableLru.writeEntry cfg b e.key e.value).data = write m₃ start [0] := by
    simp only [VariableLru.writeEntry, htotal, h.numEntries, ← hstart, ← hm₁, ← hm₂, ← hm₃]
  have hframe₄ : ∀ i, i ≠ start → write m₃ start [0] i = m₃ i :=
    fun i hi => write_of_outside (by rw [length_singleton]; omega)
  have hheaders : Headers (write m₃ start [0]) (e :: es) (consOffset start off) := by
    refine (headers_writeHeader hheaders₂).congr fun i hi => hframe₄ i ?_
    rw [length_cons, succ_mul] at hi
    omega
  have hfront : Chunk (write m₃ start [0]) (e :: es) (consOffset start off) position start [0] := by
    refine ⟨⟨rfl, trivial⟩, ?_⟩
    have hvalue : At m₁ (start + 1) e.value := at_write
    rw [blocks_cons, blocks_nil, append_nil, at_cons]
    refine ⟨at_write 0 0 rfl, hvalue.congr fun i hi hi' => ?_⟩
    rw [hframe₄ i (by omega), hframe₃ i (by omega), hframe₂ i (Or.inl (by omega))]
  have hback : Chunk (write m₃ start [0]) (e :: es) (consOffset start off) position
      (start + dataLength (e :: es) [0]) (order.map (· + 1)) := by
    have hplace : start + dataLength (e :: es) [0] = start + 1 + e.value.length := by
      rw [dataLength_cons, dataLength_nil, hnew]
      omega
    rw [hplace]
    refine Chunk.map (· + 1) (hchunk₂.congr fun i hi _ => ?_) (fun _ _ => rfl) (fun _ _ => rfl)
      fun j hj => ?_
    · rw [hframe₄ i (by omega), hframe₃ i (by omega)]
    · rw [if_pos (h.perm.mem_iff.1 hj), position_succ]
  have hlength : dataLength (e :: es) (0 :: order.map (· + 1)) =
      dataLength es order + e.value.length + 1 := by
    rw [dataLength_cons, hnew, hold]
    omega
  refine ⟨⟨?_, ?_, ?_, ?_, ?_, hdata ▸ hheaders, ?_⟩, fun i hi => ?_⟩
  · change (b.numEntries + 1).toNat = _
    rw [UInt8.toNat_add, h.numEntries, length_cons]
    exact mod_eq_of_lt (succ_lt_succ hcount)
  · exact htotal.trans hlength.symm
  · rw [length_cons, range_succ_eq_map]
    exact (h.perm.map _).cons 0
  · rw [hlength, length_cons, succ_mul]
    omega
  · intro e' he'
    rcases mem_cons.1 he' with rfl | he'
    · exact hsize
    · exact h.sizes e' he'
  · rw [hlength, ← hstart, hdata]
    exact (chunk_append (A := [0])).2 ⟨hfront, hback⟩
  · rw [hdata, hframe₄ i (by omega), hframe₃ i (by omega), hframe₂ i (Or.inr (by omega)),
      hframe₁ i (by omega)]

end WriteEntry

theorem insert_spec (h : Stores cfg b es) (e : Entry cfg)
    (hmax : e.value.length ≤ cfg.kMaxValueSize) (hsize : e.value.length < 2 ^ 8) :
    Stores cfg (insert cfg b e.key e.value).1 ((lru cfg).push e es) ∧
      (insert cfg b e.key e.value).2.1 = ((lru cfg).gone ((lru cfg).size e) es).reverse ∧
      Outside cfg b.data (insert cfg b e.key e.value).1.data := by
  have hneed : (lru cfg).size e ≤ cfg.kBucketDataSize := by
    rw [lru_size, Config.kBucketDataSize]
    omega
  obtain ⟨⟨off, order, hkeep⟩, hgone, hout⟩ := evictEntries_spec h hneed
  have hfits : (lru cfg).Fits ((lru cfg).size e) ((lru cfg).keep ((lru cfg).size e) es) :=
    BoundedLru.keep_fits hneed (by change 0 < kMaxEntries; decide)
  obtain ⟨hlayout, hout'⟩ := hkeep.writeEntry hsize hfits
  have hinsert : insert cfg b e.key e.value =
      (VariableLru.writeEntry cfg (evictEntries cfg b ((lru cfg).size e)).1 e.key e.value,
        (evictEntries cfg b ((lru cfg).size e)).2.1,
        if (evictEntries cfg b ((lru cfg).size e)).2.2 then 1 else 0) := by
    rw [insert, if_neg (by omega), if_neg (by omega)]
    rfl
  rw [hinsert]
  exact ⟨⟨_, _, hlayout⟩, hgone, hout.trans hout'⟩

/-! ## Promotion -/

def skip (p j : ℕ) : ℕ := if j < p then j else j + 1

def fromFront (p : ℕ) : ℕ → ℕ
  | 0 => p
  | j + 1 => skip p j

def toFront (p j : ℕ) : ℕ := if j < p then j + 1 else if j = p then 0 else j

lemma fromFront_toFront (p j : ℕ) : fromFront p (toFront p j) = j := by
  unfold toFront
  split_ifs with hlt heq
  · simp [fromFront, skip, hlt]
  · exact heq.symm
  · obtain ⟨j, rfl⟩ : ∃ i, j = i + 1 := ⟨j - 1, by omega⟩
    simp only [fromFront, skip]
    rw [if_neg (by omega)]

lemma toFront_fromFront (p j : ℕ) : toFront p (fromFront p j) = j := by
  cases j with
  | zero => simp [fromFront, toFront]
  | succ j =>
    simp only [fromFront, skip, toFront]
    split_ifs <;> omega

lemma getElem?_eraseIdx_skip {α : Type*} (l : List α) (p j : ℕ) :
    (l.eraseIdx p)[j]? = l[skip p j]? := by
  rw [getElem?_eraseIdx, skip]
  split_ifs <;> rfl

section Promote

variable {p : ℕ} {e : Entry cfg}

lemma getElem?_front (he : es[p]? = some e) (j : ℕ) :
    (e :: es.eraseIdx p)[j]? = es[fromFront p j]? := by
  cases j with
  | zero => exact he.symm
  | succ j => exact getElem?_eraseIdx_skip es p j

lemma valueAt_toFront (he : es[p]? = some e) (j : ℕ) :
    valueAt (e :: es.eraseIdx p) (toFront p j) = valueAt es j := by
  rw [valueAt, getElem?_front he, fromFront_toFront, valueAt]

lemma length_front (he : es[p]? = some e) : (e :: es.eraseIdx p).length = es.length := by
  have hp : p < es.length := (List.getElem?_eq_some_iff.1 he).1
  rw [length_cons, length_eraseIdx_of_lt hp]
  omega

variable {n : ℕ} {m : Mem}

/-- Renaming the positions gives all of them again. -/
lemma perm_map_range {L : List ℕ} {σ τ : ℕ → ℕ} (hnodup : L.Nodup)
    (hσ : ∀ j ∈ L, σ j < n ∧ τ (σ j) = j) (hτ : ∀ j < n, τ j ∈ L ∧ σ (τ j) = j) :
    (L.map σ).Perm (List.range n) := by
  have hmap : (L.map σ).Nodup := hnodup.map_on fun i hi j hj hij => by
    rw [← (hσ i hi).2, hij, (hσ j hj).2]
  refine (perm_ext_iff_of_nodup hmap nodup_range).2 fun j => ?_
  rw [mem_map, mem_range]
  constructor
  · rintro ⟨i, hi, rfl⟩
    exact (hσ i hi).1
  · exact fun hj => ⟨τ j, (hτ j hj).1, (hτ j hj).2⟩

lemma toFront_lt {j : ℕ} (hp : p < n) : toFront p j < n ↔ j < n := by
  unfold toFront
  split_ifs <;> omega

lemma promoteHeader_of_ge {i : ℕ} (hp : p < n) (hi : n * cfg.headerSize ≤ i) :
    promoteHeader cfg m p i = m i := by
  have := header_le cfg hp
  rw [promoteHeader, write_of_outside (by rw [getEntryHeader_zero, length_read]; omega),
    memmove_of_outside (by rw [getEntryHeader_one]; omega)]

lemma headers_promoteHeader (h : Headers m es off) (he : es[p]? = some e)
    (hp : p < 2 ^ 8) :
    Headers (promoteHeader cfg m p) (e :: es.eraseIdx p) (fun j => off (fromFront p j)) := by
  have hread := (h p e he).read
  rw [length_encodeHeader] at hread
  intro j e' he'
  rw [getElem?_front he] at he'
  rw [promoteHeader, getEntryHeader_of_lt hp, hread]
  cases j with
  | zero =>
    obtain rfl : e = e' := Option.some.inj (he.symm.trans he')
    exact at_write
  | succ j =>
    simp only [fromFront, skip] at he' ⊢
    split_ifs at he' ⊢ with hlt
    · refine (h.moved he' hlt).congr fun i hi _ => write_of_outside ?_
      rw [succ_mul] at hi
      rw [getEntryHeader_zero, length_encodeHeader]
      omega
    · have hj : p * cfg.headerSize ≤ j * cfg.headerSize := mul_le_mul_right _ (by omega)
      refine (h (j + 1) e' he').congr fun i hi _ => ?_
      rw [succ_mul] at hi
      rw [write_of_outside (by rw [getEntryHeader_zero, length_encodeHeader]; omega),
        memmove_of_outside (by rw [getEntryHeader_one]; omega)]

/-- `promote` puts the entry in front, and moves no data. -/
lemma Layout.promote (h : Layout cfg b es off order) (he : es[p]? = some e) :
    Layout cfg (promote cfg b p) (e :: es.eraseIdx p) (fun j => off (fromFront p j))
        (order.map (toFront p)) ∧
      Outside cfg b.data (VariableLru.promote cfg b p).data := by
  have hp : p < es.length := (List.getElem?_eq_some_iff.1 he).1
  have hroom := h.room
  have hlength := length_front he
  have hdata : dataLength (e :: es.eraseIdx p) (order.map (toFront p)) = dataLength es order :=
    dataLength_map fun j _ => valueAt_toFront he j
  have hperm : (order.map (toFront p)).Perm (range (e :: es.eraseIdx p).length) := by
    rw [hlength]
    refine perm_map_range h.nodup (fun j hj => ⟨?_, fromFront_toFront p j⟩)
      fun j hj => ⟨?_, toFront_fromFront p j⟩
    · rw [toFront_lt hp, ← h.mem_order]
      exact hj
    · rw [h.mem_order, ← toFront_lt hp, toFront_fromFront]
      exact hj
  have hsizes : ∀ e' ∈ e :: es.eraseIdx p, e'.value.length < 2 ^ 8 := by
    intro e' he'
    rcases mem_cons.1 he' with rfl | he'
    · exact h.sizes e' (mem_of_getElem? he)
    · exact h.sizes e' (mem_of_mem_eraseIdx he')
  -- the data are still those of the positions before
  have hchunk : Chunk (promoteHeader cfg b.data p) (e :: es.eraseIdx p)
      (fun j => off (fromFront p j)) (fun j => position (fromFront p j))
      (cfg.kBucketDataSize - dataLength es order) (order.map (toFront p)) := by
    refine Chunk.map (toFront p)
      (h.chunk.congr fun i hi _ => promoteHeader_of_ge hp (by omega))
      (fun j _ => valueAt_toFront he j) (fun j _ => ?_) fun j _ => ?_
    · rw [fromFront_toFront]
    · rw [fromFront_toFront]
  have hreadable : Readable cfg (e :: es.eraseIdx p) (cfg.kBucketDataSize - dataLength es order)
      (order.map (toFront p)) := by
    refine ⟨by rw [hlength]; exact h.length_lt, hsizes, hperm.nodup_iff.2 nodup_range,
      fun j hj => mem_range.1 (hperm.mem_iff.1 hj), ?_, ?_⟩
    · rw [hlength]
      omega
    · rw [hdata]
      omega
  have hsub : ∀ i ∈ range (p + 1), i ∈ order.map (toFront p) := by
    intro i hi
    rw [hperm.mem_iff, hlength]
    rw [mem_range] at hi ⊢
    omega
  obtain ⟨hheaders', hchunk', hframe⟩ := assignHeaderIndex_spec (fun i _ => UInt8.ofNat i)
    nodup_range hsub hreadable (headers_promoteHeader h.headers he (h.pos_lt he)) hchunk
  refine ⟨⟨?_, ?_, hperm, ?_, hsizes, hheaders', ?_⟩, fun i hi => ?_⟩
  · rw [hlength]
    exact h.numEntries
  · rw [hdata]
    exact h.totalDataSize
  · rw [hdata, hlength]
    exact hroom
  · rw [hdata]
    refine hchunk'.index_congr fun j hj => ?_
    split_ifs with hjp
    · rfl
    · have hjp' : ¬j < p + 1 := fun hlt => hjp (mem_range.2 hlt)
      obtain ⟨j, rfl⟩ : ∃ i, j = i + 1 := ⟨j - 1, by omega⟩
      simp only [fromFront, skip]
      rw [if_neg (by omega)]
  · rw [hdata] at hframe
    exact (hframe i (Or.inr (by omega))).trans (promoteHeader_of_ge hp (by omega))

end Promote

/-! ## Deletion -/

def closeGap (p j : ℕ) : ℕ := if p < j then j - 1 else j

lemma closeGap_skip (p j : ℕ) : closeGap p (skip p j) = j := by
  unfold skip closeGap
  split_ifs <;> omega

lemma skip_closeGap {p j : ℕ} (hj : j ≠ p) : skip p (closeGap p j) = j := by
  unfold skip closeGap
  split_ifs <;> omega

section Del

variable {p : ℕ} {e : Entry cfg}

lemma valueAt_closeGap {j : ℕ} (hj : j ≠ p) :
    valueAt (es.eraseIdx p) (closeGap p j) = valueAt es j := by
  rw [valueAt, getElem?_eraseIdx_skip, skip_closeGap hj, valueAt]

variable {m : Mem}

lemma deleteHeader_of_ge {i n : ℕ} (hp : p < 2 ^ 8) (hpn : p < n)
    (hi : n * cfg.headerSize ≤ i) : deleteHeader cfg m n p i = m i := by
  unfold deleteHeader
  split_ifs with hlt
  · have hend : p * cfg.headerSize + (n - p - 1) * cfg.headerSize ≤ n * cfg.headerSize := by
      rw [← Nat.add_mul]
      exact mul_le_mul_right _ (by omega)
    rw [memmove_of_outside (by rw [getEntryHeader_of_lt hp]; omega)]
  · rfl

/-- The headers behind the deleted one move by one position. -/
lemma headers_deleteHeader (h : Headers m es off) (hp : p < 2 ^ 8) :
    Headers (deleteHeader cfg m es.length p) (es.eraseIdx p) (fun j => off (skip p j)) := by
  intro j e he
  rw [getElem?_eraseIdx_skip] at he
  have hj : skip p j < es.length := (List.getElem?_eq_some_iff.1 he).1
  have hheader := h _ e he
  unfold deleteHeader
  rw [getEntryHeader_of_lt hp]
  by_cases hlt : j < p
  · simp only [skip, hlt, if_true] at hheader ⊢
    have hend := header_le cfg hlt
    split_ifs
    · exact hheader.congr fun i _ hi => memmove_of_outside (Or.inl (by omega))
    · exact hheader
  · simp only [skip, hlt, if_false] at hj hheader ⊢
    have hk : (j - p) * cfg.headerSize + cfg.headerSize ≤ (es.length - p - 1) * cfg.headerSize :=
      header_le cfg (by omega)
    have hsrc : (j + 1) * cfg.headerSize =
        p * cfg.headerSize + cfg.headerSize + (j - p) * cfg.headerSize := by
      rw [← Nat.succ_mul, ← Nat.add_mul]
      congr 1
      omega
    have hdst : j * cfg.headerSize = p * cfg.headerSize + (j - p) * cfg.headerSize := by
      rw [← Nat.add_mul]
      congr 1
      omega
    rw [HeaderAt, hsrc] at hheader
    rw [if_pos (by omega), HeaderAt, hdst]
    exact hheader.memmove (by rw [length_encodeHeader]; omega)

lemma mem_of_split {A B : List ℕ} (hnodup : (A ++ p :: B).Nodup) :
    (∀ j ∈ A, j ≠ p) ∧ (∀ j ∈ B, j ≠ p) ∧ (∀ j ∈ A, j ∉ B) := by
  rw [nodup_append, nodup_cons] at hnodup
  refine ⟨fun j hj => hnodup.2.2 j hj p (by simp), ?_, fun j hj hjB => ?_⟩
  · rintro j hj rfl
    exact hnodup.2.1.1 hj
  · exact hnodup.2.2 j hj j (by simp [hjB]) rfl

/-- `del` moves the data before those of the entry, and leaves no gap. -/
theorem Layout.del (h : Layout cfg b es off order) (he : es[p]? = some e) :
    Stores cfg (del cfg b p) (es.eraseIdx p) ∧
      Outside cfg b.data (VariableLru.del cfg b p).data := by
  have hlt := kBucketDataSize_lt cfg
  have hroom := h.room
  have hp : p < es.length := (List.getElem?_eq_some_iff.1 he).1
  obtain ⟨A, B, rfl⟩ := append_of_mem (h.mem_of_getElem he)
  obtain ⟨hA, hB, hAB⟩ := mem_of_split h.nodup
  have hsize : blockSize es p = e.value.length + 1 := by rw [blockSize, valueAt_of_getElem he]
  set start := cfg.kBucketDataSize - dataLength es (A ++ p :: B) with hstart
  have hlength : dataLength es (A ++ p :: B) =
      dataLength es A + (blockSize es p + dataLength es B) := by
    rw [dataLength_append, dataLength_cons]
  have hchunk := chunk_append.1 h.chunk
  obtain ⟨hchunkA, hchunkB⟩ := hchunk
  have hoff : off p = start + dataLength es A := hchunkB.points.1
  have hchunkSize : (UInt16.ofNat (off p - start)).toNat = dataLength es A := by
    rw [UInt16.toNat_ofNat', mod_eq_of_lt (by omega), hoff]
    omega
  -- the data before those of the entry
  have hchunkB₁ := ((chunk_append (A := [p])).1 hchunkB).2
  rw [dataLength_cons, dataLength_nil, add_zero] at hchunkB₁
  obtain ⟨off₁, hheaders₁, hchunk₁, -, hframe₁⟩ := shiftEntriesData_join (by omega)
    h.readable.left hAB h.headers hchunkA hchunkB₁
  set m₁ := shiftEntriesData cfg b.data start (UInt16.ofNat (blockSize es p)) (dataLength es A)
    with hm₁
  have hreadable₁ : Readable cfg es (start + blockSize es p) (A ++ B) := by
    refine ⟨h.length_lt, h.sizes, h.nodup.sublist (by simp), fun j hj => ?_, by omega, ?_⟩
    · exact h.mem_order.1 (by rcases mem_append.1 hj with hj | hj <;> simp [hj])
    · rw [dataLength_append]
      omega
  -- the indices of the headers behind
  have hsub : ∀ i ∈ range' (p + 1) (es.length - (p + 1)), i ∈ A ++ B := by
    intro i hi
    rw [mem_range'_1] at hi
    have hmem := h.mem_order.2 (by omega : i < es.length)
    rw [mem_append, mem_cons] at hmem
    rw [mem_append]
    rcases hmem with hmem | rfl | hmem
    · exact Or.inl hmem
    · omega
    · exact Or.inr hmem
  obtain ⟨hheaders₂, hchunk₂, hframe₂⟩ := assignHeaderIndex_spec (fun _ index => index - 1)
    nodup_range' hsub hreadable₁ hheaders₁ hchunk₁
  set m₂ := assignHeaderIndex cfg (fun _ index => index - 1)
    (range' (p + 1) (es.length - (p + 1))) m₁ with hm₂
  have hdel : VariableLru.del cfg b p =
      { numEntries := b.numEntries - 1
        totalDataSize := b.totalDataSize - UInt16.ofNat (blockSize es p)
        data := deleteHeader cfg m₂ es.length p } := by
    simp only [VariableLru.del, h.numEntries, h.first, ← hstart, h.dataSize he, h.dataOffset he,
      hchunkSize, ← hsize, ← hm₁, ← hm₂]
  have hne : ∀ j ∈ A ++ B, j ≠ p := fun j hj => (mem_append.1 hj).elim (hA j) (hB j)
  have hlength' : (es.eraseIdx p).length = es.length - 1 := length_eraseIdx_of_lt hp
  have hdata : dataLength (es.eraseIdx p) ((A ++ B).map (closeGap p)) = dataLength es (A ++ B) :=
    dataLength_map fun j hj => valueAt_closeGap (hne j hj)
  have hAB' : dataLength es (A ++ B) = dataLength es A + dataLength es B := dataLength_append
  have hheaderEnd := header_le cfg hp
  refine ⟨⟨fun j => off₁ (skip p j), (A ++ B).map (closeGap p), ?_⟩, ?_⟩
  · rw [hdel]
    refine ⟨?_, ?_, ?_, ?_, ?_, headers_deleteHeader hheaders₂ (h.pos_lt he), ?_⟩
    · have := toNat_sub_uint8 (x := b.numEntries) (d := 1) (by rw [h.numEntries]; omega)
      rw [h.numEntries, ← hlength'] at this
      exact this
    · rw [toNat_sub_uint16 (by rw [h.totalDataSize]; omega), h.totalDataSize, hdata]
      omega
    · rw [hlength']
      refine perm_map_range hreadable₁.nodup (fun j hj => ⟨?_, skip_closeGap (hne j hj)⟩)
        fun j hj => ⟨?_, closeGap_skip p j⟩
      · have hjn := hreadable₁.mem j hj
        have hjp := hne j hj
        unfold closeGap
        split_ifs <;> omega
      · have hmem : skip p j ∈ A ++ p :: B := h.mem_order.2 (by unfold skip; split_ifs <;> omega)
        have hskip : skip p j ≠ p := by unfold skip; split_ifs <;> omega
        rw [mem_append, mem_cons] at hmem
        rw [mem_append]
        exact hmem.imp_right fun hmem => hmem.resolve_left hskip
    · rw [hdata, hlength', Nat.sub_mul]
      omega
    · exact fun e' he' => h.sizes e' (mem_of_mem_eraseIdx he')
    · have hplace : cfg.kBucketDataSize -
          dataLength (es.eraseIdx p) ((A ++ B).map (closeGap p)) = start + blockSize es p := by
        rw [hdata]
        omega
      rw [hplace]
      refine Chunk.map (closeGap p) (hchunk₂.congr fun i hi _ =>
        deleteHeader_of_ge (h.pos_lt he) hp (by omega))
        (fun j hj => valueAt_closeGap (hne j hj)) (fun j hj => ?_) fun j hj => ?_
      · rw [skip_closeGap (hne j hj)]
      · have hjn := hreadable₁.mem j hj
        unfold closeGap
        split_ifs with hpj hmem hmem
        · rw [position_pred (by omega)]
        · exact absurd (mem_range'_1.2 (by omega)) hmem
        · have := mem_range'_1.1 hmem
          omega
        · rfl
  · intro i hi
    rw [hdel]
    change deleteHeader cfg m₂ es.length p i = _
    rw [deleteHeader_of_ge (h.pos_lt he) hp (by omega), hframe₂ i (Or.inr (by omega)),
      hframe₁ i (by omega) (Or.inr (by omega))]

end Del

/-! ## Updates -/

section Update

variable {p : ℕ} {e e' : Entry cfg}

lemma valueAt_set_self (he : es[p]? = some e) : valueAt (es.set p e') p = e'.value := by
  have hp : p < es.length := (List.getElem?_eq_some_iff.1 he).1
  exact valueAt_of_getElem (by rw [getElem?_set_self hp])

lemma valueAt_set_of_ne {j : ℕ} (hj : j ≠ p) : valueAt (es.set p e') j = valueAt es j := by
  rw [valueAt, getElem?_set_ne hj.symm, valueAt]

variable {m : Mem} {A B : List ℕ}

lemma Headers.setDataSize (h : Headers m es off) (he : es[p]? = some e)
    (hp : p < 2 ^ 8) (hkey : e'.key = e.key) :
    Headers (setDataSize cfg m p (UInt8.ofNat e'.value.length)) (es.set p e') off := by
  intro j e'' he''
  by_cases hj : j = p
  · subst hj
    rw [List.getElem?_set_self (List.getElem?_eq_some_iff.1 he).1] at he''
    cases he''
    exact (h j e he).setDataSize hp hkey
  · rw [getElem?_set_ne (Ne.symm hj)] at he''
    have := header_apart cfg hj
    exact (h j e'' he'').congr fun i _ _ => setDataSize_of_outside hp (by omega)

lemma Headers.set (h : Headers m es off) (he : es[p]? = some e) (hkey : e'.key = e.key)
    (hlength : e'.value.length = e.value.length) : Headers m (es.set p e') off := by
  intro j e'' he''
  by_cases hj : j = p
  · subst hj
    rw [List.getElem?_set_self (List.getElem?_eq_some_iff.1 he).1] at he''
    cases he''
    rw [HeaderAt, hkey, hlength]
    exact h j e he
  · rw [getElem?_set_ne (Ne.symm hj)] at he''
    exact h j e'' he''

lemma chunk_set {idx : ℕ → UInt8} {start : ℕ} (he : es[p]? = some e)
    (hnodup : (A ++ p :: B).Nodup) (hA : Chunk m es off idx start A)
    (hoff : off p = start + dataLength es A) (hindex : m (off p) = idx p)
    (hvalue : At m (off p + 1) e'.value)
    (hB : Chunk m es off idx (off p + 1 + e'.value.length) B) :
    Chunk m (es.set p e') off idx start (A ++ p :: B) := by
  obtain ⟨hneA, hneB, -⟩ := mem_of_split hnodup
  have hA' : Chunk m (es.set p e') off idx start A :=
    hA.entries_congr fun j hj => valueAt_set_of_ne (hneA j hj)
  have hlength : dataLength (es.set p e') A = dataLength es A :=
    dataLength_congr fun j hj => valueAt_set_of_ne (hneA j hj)
  refine chunk_append.2 ⟨hA', (chunk_append (A := [p])).2 ⟨⟨⟨?_, trivial⟩, ?_⟩, ?_⟩⟩
  · rw [hlength, hoff]
  · rw [hlength, ← hoff, blocks_cons, blocks_nil, append_nil, at_cons, valueAt_set_self he]
    exact ⟨hindex, hvalue⟩
  · have hplace : start + dataLength (es.set p e') A + dataLength (es.set p e') [p] =
        off p + 1 + e'.value.length := by
      rw [hlength, dataLength_cons, dataLength_nil, blockSize, valueAt_set_self he]
      omega
    rw [hplace]
    exact hB.entries_congr fun j hj => valueAt_set_of_ne (hneB j hj)

lemma dataLength_set (e' : Entry cfg) (he : es[p]? = some e) (hnodup : (A ++ p :: B).Nodup) :
    dataLength (es.set p e') (A ++ p :: B) + e.value.length =
      dataLength es (A ++ p :: B) + e'.value.length := by
  obtain ⟨hA, hB, -⟩ := mem_of_split hnodup
  have hlengthA : dataLength (es.set p e') A = dataLength es A :=
    dataLength_congr fun j hj => valueAt_set_of_ne (hA j hj)
  have hlengthB : dataLength (es.set p e') B = dataLength es B :=
    dataLength_congr fun j hj => valueAt_set_of_ne (hB j hj)
  simp only [dataLength_append, dataLength_cons, hlengthA, hlengthB, blockSize,
    valueAt_set_self he, valueAt_of_getElem he]
  omega

lemma mem_set_sizes (hsizes : ∀ e'' ∈ es, e''.value.length < 2 ^ 8)
    (hsize : e'.value.length < 2 ^ 8) : ∀ e'' ∈ es.set p e', e''.value.length < 2 ^ 8 := by
  intro e'' he''
  rcases mem_or_eq_of_mem_set he'' with hmem | rfl
  · exact hsizes e'' hmem
  · exact hsize

section
variable (h : Layout cfg b es off order) (e' : Entry cfg) (he : es[p]? = some e)
  (hkey : e'.key = e.key)
include h he hkey

lemma Layout.writeVal (hlength : e'.value.length = e.value.length) :
    Layout cfg { b with data := write b.data (off p + 1) e'.value } (es.set p e') off order ∧
      Outside cfg b.data (write b.data (off p + 1) e'.value) := by
  have hroom := h.room
  have hmem := h.mem_of_getElem he
  have hbounds := h.off_le hmem
  have hsize : blockSize es p = e.value.length + 1 := by rw [blockSize, valueAt_of_getElem he]
  obtain ⟨A, B, rfl⟩ := append_of_mem hmem
  have hdata := dataLength_set e' he h.nodup
  have hframe : ∀ i, i < off p + 1 ∨ off p + 1 + e'.value.length ≤ i →
      write b.data (off p + 1) e'.value i = b.data i := fun i hi => write_of_outside hi
  obtain ⟨hchunkA, hchunkB⟩ := chunk_append.1 h.chunk
  have hoff : off p = _ := hchunkB.points.1
  have hchunkB' := ((chunk_append (A := [p])).1 hchunkB).2
  rw [← hoff, dataLength_cons, dataLength_nil, hsize] at hchunkB'
  refine ⟨⟨?_, ?_, ?_, ?_, mem_set_sizes h.sizes ?_, ?_, ?_⟩, fun i hi => hframe i (by omega)⟩
  · rw [length_set]
    exact h.numEntries
  · rw [show dataLength (es.set p e') (A ++ p :: B) = dataLength es (A ++ p :: B) by omega]
    exact h.totalDataSize
  · rw [length_set]
    exact h.perm
  · rw [length_set]
    omega
  · rw [hlength]
    exact h.sizes e (mem_of_getElem? he)
  · refine (h.headers.set he hkey hlength).congr fun i hi => hframe i (Or.inl ?_)
    rw [length_set] at hi
    omega
  · rw [show dataLength (es.set p e') (A ++ p :: B) = dataLength es (A ++ p :: B) by omega]
    have hchunkA' : Chunk (write b.data (off p + 1) e'.value) es off position _ A :=
      hchunkA.congr fun i _ hi => hframe i (Or.inl (by omega))
    refine chunk_set he h.nodup hchunkA' hoff ?_ at_write ?_
    · exact (hframe (off p) (Or.inl (by omega))).trans (h.chunk.block hmem).1
    · rw [hlength]
      rw [add_zero, add_comm e.value.length, ← add_assoc] at hchunkB'
      exact hchunkB'.congr fun i hi _ => hframe i (Or.inr (by omega))

/-- A smaller value is written at the end of the data of the entry, and the data before it are
shifted. -/
lemma Layout.shrinkVal (hlength : e'.value.length < e.value.length) :
    Stores cfg (shrinkVal cfg b p e'.value) (es.set p e') ∧
      Outside cfg b.data (VariableLru.shrinkVal cfg b p e'.value).data := by
  have hlt := kBucketDataSize_lt cfg
  have hroom := h.room
  have hmem := h.mem_of_getElem he
  have hp : p < es.length := (List.getElem?_eq_some_iff.1 he).1
  have hbounds := h.off_le hmem
  have hesize := h.sizes e (mem_of_getElem? he)
  have hsize : blockSize es p = e.value.length + 1 := by rw [blockSize, valueAt_of_getElem he]
  obtain ⟨A, B, rfl⟩ := append_of_mem hmem
  obtain ⟨hA, hB, hAB⟩ := mem_of_split h.nodup
  have hdata := dataLength_set e' he h.nodup
  obtain ⟨hchunkA, hchunkB⟩ := chunk_append.1 h.chunk
  set start := cfg.kBucketDataSize - dataLength es (A ++ p :: B) with hstart
  have hoff : off p = start + dataLength es A := hchunkB.points.1
  set d := e.value.length - e'.value.length with hd
  have hd' : (UInt16.ofNat d).toNat = d := by
    rw [UInt16.toNat_ofNat', mod_eq_of_lt (by omega)]
  -- the value and its index
  set m₂ := write (write b.data (off p + d + 1) e'.value) (off p + d) [UInt8.ofNat p] with hm₂
  have hframe₂ : ∀ i, i < off p + d ∨ off p + 1 + e.value.length ≤ i → m₂ i = b.data i := by
    intro i hi
    rw [hm₂, write_of_outside (by rw [length_singleton]; omega), write_of_outside (by omega)]
  have hheaders₂ : Headers m₂ es off := h.headers.congr fun i hi => hframe₂ i (Or.inl (by omega))
  have hchunkA₂ : Chunk m₂ es off position start A :=
    hchunkA.congr fun i _ hi => hframe₂ i (Or.inl (by omega))
  have hoffset₂ : (VariableLru.dataOffset cfg m₂ p).toNat = off p :=
    (hheaders₂ p e he).dataOffset_toNat (h.pos_lt he) (by omega)
  -- the data before those of the entry
  obtain ⟨hheaders₃, hchunkA₃, hframe₃⟩ := shiftEntriesData_spec (d := d) (by omega)
    h.readable.left (fun _ _ => rfl) hheaders₂ hchunkA₂
  set m₃ := shiftEntriesData cfg m₂ start (UInt16.ofNat d) (dataLength es A) with hm₃
  have hoffset₃ : VariableLru.dataOffset cfg m₃ p + UInt16.ofNat d = UInt16.ofNat (off p + d) := by
    have hpA : p ∉ A := fun hpA => hA p hpA rfl
    rw [(hheaders₃ p e he).dataOffset (h.pos_lt he), UInt16.ofNat_add]
    simp only [hpA, if_false]
  -- the header of the entry
  set m₅ := VariableLru.setDataSize cfg (VariableLru.setDataOffset cfg m₃ p
    (UInt16.ofNat (off p + d))) p (UInt8.ofNat e'.value.length) with hm₅
  have hframe₅ : ∀ i, es.length * cfg.headerSize ≤ i → m₅ i = m₃ i := by
    intro i hi
    have := header_le cfg hp
    rw [hm₅, setDataSize_of_outside (h.pos_lt he) (by omega),
      setDataOffset_of_outside (h.pos_lt he) (by omega)]
  set off' := Function.update (fun j => if j ∈ A then off j + d else off j) p (off p + d) with hoff'
  have hheaders₅ : Headers m₅ (es.set p e') off' :=
    (hheaders₃.setDataOffset (h.pos_lt he) (off p + d)).setDataSize he (h.pos_lt he) hkey
  have hshrink : VariableLru.shrinkVal cfg b p e'.value =
      { b with totalDataSize := b.totalDataSize - UInt16.ofNat d, data := m₅ } := by
    have hchunkSize : off p - start = dataLength es A := by omega
    simp only [VariableLru.shrinkVal, h.dataSize he, getEntryData, h.dataOffset he, h.first,
      ← hstart, ← hd, hd', ← hm₂, hoffset₂, hchunkSize, ← hm₃, hoffset₃, ← hm₅]
  have hself : off' p = off p + d := Function.update_self ..
  have hpoint : ∀ j, j ≠ p → off' j = if j ∈ A then off j + d else off j :=
    fun j hj => Function.update_of_ne hj ..
  have hchunkA₅ : Chunk m₅ es off' position (start + d) A := by
    have hcongr := hchunkA₃.congr fun i hi _ => hframe₅ i (by omega)
    exact ⟨hcongr.points.congr fun j hj => hpoint j (hA j hj), hcongr.bytes⟩
  have hchunkB₅ : Chunk m₅ es off' position (off' p + 1 + e'.value.length) B := by
    have hB₁ := ((chunk_append (A := [p])).1 hchunkB).2
    have hplace : start + dataLength es A + dataLength es [p] =
        off' p + 1 + e'.value.length := by
      rw [hself, dataLength_cons, dataLength_nil, hsize]
      omega
    rw [hplace] at hB₁
    refine ⟨hB₁.points.congr fun j hj => ?_, (hB₁.congr fun i hi _ => ?_).bytes⟩
    · rw [hpoint j (hB j hj), if_neg fun hjA => hAB j hjA hj]
    · rw [hself] at hi
      rw [hframe₅ i (by omega), hframe₃ i (by omega) (Or.inr (by omega)),
        hframe₂ i (Or.inr (by omega))]
  have hentry : ∀ i, off p + d ≤ i → m₅ i = m₂ i := by
    intro i hi
    rw [hframe₅ i (by omega), hframe₃ i (by omega) (Or.inr (by omega))]
  have hvalue : At m₅ (off' p + 1) e'.value := by
    have hwrite : At m₂ (off p + d + 1) e'.value :=
      at_write.write (Or.inr (by rw [length_singleton]))
    rw [hself]
    exact hwrite.congr fun i hi _ => hentry i (by omega)
  have hindex : m₅ (off' p) = position p := by
    rw [hself, hentry _ le_rfl]
    exact at_write 0 _ rfl
  rw [hshrink]
  refine ⟨⟨off', A ++ p :: B, ?_, ?_, ?_, ?_, mem_set_sizes h.sizes (by omega), hheaders₅, ?_⟩,
    fun i hi => ?_⟩
  · rw [length_set]
    exact h.numEntries
  · rw [toNat_sub_uint16 (by rw [h.totalDataSize]; omega), h.totalDataSize]
    omega
  · rw [length_set]
    exact h.perm
  · rw [length_set]
    omega
  · rw [show cfg.kBucketDataSize - dataLength (es.set p e') (A ++ p :: B) = start + d by omega]
    exact chunk_set he h.nodup hchunkA₅ (by rw [hself]; omega) hindex hvalue hchunkB₅
  · exact (hentry i (by omega)).trans (hframe₂ i (Or.inr (by omega)))

end

end Update

end HybridCache.VariableLru

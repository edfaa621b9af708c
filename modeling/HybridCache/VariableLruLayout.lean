import HybridCache.VariableLruBucket
import Mathlib.Algebra.BigOperators.Group.List.Basic
import Mathlib.Algebra.Order.BigOperators.Group.List
import Mathlib.Data.List.Pairwise
import Mathlib.Logic.Function.Basic

/-!
# The layout of a bucket

Where the headers and the data of a list of entries lie. An entry is named by the position of
its header. A chunk is a row of data without a gap, and a bucket is one chunk that ends where the
bucket ends. While data are moved there are several chunks, and while headers are moved
`headerIndex` is not yet the position of the header.
-/
namespace HybridCache.VariableLru

open ByteMemory Function List Nat

variable {cfg : Config}

/-! ## Headers -/

def encodeHeader (key : Key cfg) (size : UInt8) (offset : UInt16) : List UInt8 :=
  key.toList ++ size :: bytes16 offset

@[simp] lemma length_encodeHeader (key : Key cfg) (size : UInt8) (offset : UInt16) :
    (encodeHeader key size offset).length = cfg.headerSize := by
  simp [encodeHeader, length_bytes16, Config.headerSize]

def HeaderAt (m : Mem) (j : ℕ) (e : Entry cfg) (off : ℕ) : Prop :=
  At m (j * cfg.headerSize)
    (encodeHeader e.key (UInt8.ofNat e.value.length) (UInt16.ofNat off))

def Headers (m : Mem) (es : List (Entry cfg)) (off : ℕ → ℕ) : Prop :=
  ∀ j e, es[j]? = some e → HeaderAt m j e (off j)

variable {j : ℕ} {es : List (Entry cfg)} {off : ℕ → ℕ} {L : List ℕ}

lemma getEntryHeader_of_lt (hj : j < 2 ^ 8) : getEntryHeader cfg j = j * cfg.headerSize := by
  rw [getEntryHeader, mod_eq_of_lt hj]

section HeaderAt

variable {m : Mem} {i j off : ℕ} {e : Entry cfg}

/-- The parts of a header. -/
lemma headerAt_iff : HeaderAt m j e off ↔ At m (j * cfg.headerSize) e.key.toList ∧
    m (j * cfg.headerSize + cfg.keySize) = UInt8.ofNat e.value.length ∧
    At m (j * cfg.headerSize + cfg.keySize + 1) (bytes16 (UInt16.ofNat off)) := by
  rw [HeaderAt, encodeHeader, at_append, at_cons, Vector.length_toList]

section
variable (h : HeaderAt m j e off) (hj : j < 2 ^ 8)
include h hj

lemma HeaderAt.key : key cfg m j = e.key := by
  rw [VariableLru.key, getEntryHeader_of_lt hj]
  ext i hi
  rw [Vector.getElem_ofFn, (headerAt_iff.1 h).1 i e.key[i]]
  rw [getElem?_eq_getElem (by simpa using hi), Vector.getElem_toList]

lemma HeaderAt.dataSize : dataSize cfg m j = UInt8.ofNat e.value.length := by
  rw [VariableLru.dataSize, getEntryHeader_of_lt hj, (headerAt_iff.1 h).2.1]

lemma HeaderAt.dataOffset : dataOffset cfg m j = UInt16.ofNat off := by
  rw [VariableLru.dataOffset, getEntryHeader_of_lt hj, (headerAt_iff.1 h).2.2.read16]

lemma HeaderAt.dataSize_toNat (hsize : e.value.length < 2 ^ 8) :
    (VariableLru.dataSize cfg m j).toNat = e.value.length := by
  rw [h.dataSize hj, UInt8.toNat_ofNat', mod_eq_of_lt hsize]

lemma HeaderAt.dataOffset_toNat (hoff : off < 2 ^ 16) :
    (VariableLru.dataOffset cfg m j).toNat = off := by
  rw [h.dataOffset hj, UInt16.toNat_ofNat', mod_eq_of_lt hoff]

end

lemma header_apart (cfg : Config) (hij : i ≠ j) : i * cfg.headerSize + cfg.headerSize ≤ j * cfg.headerSize ∨
    j * cfg.headerSize + cfg.headerSize ≤ i * cfg.headerSize := by
  rcases lt_or_gt_of_ne hij with hlt | hlt
  · have h := mul_le_mul_right cfg.headerSize (succ_le_of_lt hlt)
    rw [succ_mul] at h
    exact Or.inl h
  · have h := mul_le_mul_right cfg.headerSize (succ_le_of_lt hlt)
    rw [succ_mul] at h
    exact Or.inr h

lemma header_le (cfg : Config) {n : ℕ} (hj : j < n) :
    j * cfg.headerSize + cfg.headerSize ≤ n * cfg.headerSize := by
  rw [← succ_mul]
  exact mul_le_mul_right _ hj

lemma HeaderAt.congr {m' : Mem} (h : HeaderAt m j e off)
    (hsame : ∀ i, j * cfg.headerSize ≤ i → i < j * cfg.headerSize + cfg.headerSize → m' i = m i) :
    HeaderAt m' j e off :=
  At.congr h (by simpa using hsame)

lemma HeaderAt.setDataOffset (h : HeaderAt m j e off) (hj : j < 2 ^ 8) (off' : ℕ) :
    HeaderAt (setDataOffset cfg m j (UInt16.ofNat off')) j e off' := by
  rw [headerAt_iff] at h ⊢
  rw [VariableLru.setDataOffset, getEntryHeader_of_lt hj]
  refine ⟨h.1.write (Or.inl (by simp)), ?_, at_write⟩
  rw [write_of_outside (by omega), h.2.1]

lemma HeaderAt.setDataSize {e' : Entry cfg} (h : HeaderAt m j e off) (hj : j < 2 ^ 8)
    (hkey : e'.key = e.key) :
    HeaderAt (setDataSize cfg m j (UInt8.ofNat e'.value.length)) j e' off := by
  rw [headerAt_iff] at h ⊢
  rw [VariableLru.setDataSize, getEntryHeader_of_lt hj, hkey]
  exact ⟨h.1.write (Or.inl (by simp)), at_write 0 _ rfl, h.2.2.write (Or.inr (by simp))⟩

variable {k : ℕ}

lemma setDataOffset_of_outside {x : UInt16} (hj : j < 2 ^ 8)
    (hk : k < j * cfg.headerSize ∨ j * cfg.headerSize + cfg.headerSize ≤ k) :
    setDataOffset cfg m j x k = m k := by
  rw [VariableLru.setDataOffset, getEntryHeader_of_lt hj]
  exact write_of_outside (by simp only [length_bytes16, Config.headerSize] at hk ⊢; omega)

lemma setDataSize_of_outside {x : UInt8} (hj : j < 2 ^ 8)
    (hk : k < j * cfg.headerSize ∨ j * cfg.headerSize + cfg.headerSize ≤ k) :
    setDataSize cfg m j x k = m k := by
  rw [VariableLru.setDataSize, getEntryHeader_of_lt hj]
  exact write_of_outside (by simp only [length_singleton, Config.headerSize] at hk ⊢; omega)

end HeaderAt

variable {m : Mem} {es' : List (Entry cfg)}

lemma Headers.congr {m' : Mem} (h : Headers m es off)
    (hsame : ∀ i < es.length * cfg.headerSize, m' i = m i) : Headers m' es off := by
  intro j e he
  have hj := header_le cfg (List.getElem?_eq_some_iff.1 he).1
  exact (h j e he).congr fun i _ hi => hsame i (by omega)

lemma Headers.setDataOffset (h : Headers m es off) (hj : j < 2 ^ 8) (x : ℕ) :
    Headers (setDataOffset cfg m j (UInt16.ofNat x)) es (update off j x) := by
  intro i e he
  by_cases hij : i = j
  · subst hij
    rw [update_self]
    exact (h i e he).setDataOffset hj x
  · rw [update_of_ne hij]
    refine (h i e he).congr fun k hk hk' => setDataOffset_of_outside hj ?_
    have := header_apart cfg hij
    omega

/-! ## Data -/

def valueAt (es : List (Entry cfg)) (j : ℕ) : List UInt8 := (es[j]?.map Entry.value).getD []

def blockSize (es : List (Entry cfg)) (j : ℕ) : ℕ := (valueAt es j).length + 1

def dataLength (es : List (Entry cfg)) (L : List ℕ) : ℕ := (L.map (blockSize es)).sum

def blocks (es : List (Entry cfg)) (idx : ℕ → UInt8) (L : List ℕ) : List UInt8 :=
  L.flatMap fun j => idx j :: valueAt es j

/-- The offsets are the ones of the data in a row. -/
def Points (es : List (Entry cfg)) (off : ℕ → ℕ) : ℕ → List ℕ → Prop
  | _, [] => True
  | start, j :: L => off j = start ∧ Points es off (start + blockSize es j) L

section Data

variable {es : List (Entry cfg)} {off : ℕ → ℕ} {idx : ℕ → UInt8} {start j : ℕ} {L A B : List ℕ}
  {m : Mem}

lemma valueAt_of_getElem {e : Entry cfg} (h : es[j]? = some e) : valueAt es j = e.value := by
  rw [valueAt, h]
  rfl

@[simp] lemma dataLength_nil : dataLength es [] = 0 := rfl

@[simp] lemma dataLength_cons : dataLength es (j :: L) = blockSize es j + dataLength es L := by
  simp [dataLength]

@[simp] lemma dataLength_append : dataLength es (A ++ B) = dataLength es A + dataLength es B := by
  simp [dataLength]

@[simp] lemma blocks_nil : blocks es idx [] = [] := rfl

@[simp] lemma blocks_cons : blocks es idx (j :: L) = idx j :: (valueAt es j ++ blocks es idx L) := by
  simp [blocks]

@[simp] lemma blocks_append : blocks es idx (A ++ B) = blocks es idx A ++ blocks es idx B := by
  simp [blocks]

@[simp] lemma length_blocks : (blocks es idx L).length = dataLength es L := by
  induction L with
  | nil => rfl
  | cons j L ih =>
    rw [blocks_cons, dataLength_cons, length_cons, length_append, ih, blockSize]
    omega

lemma points_append : Points es off start (A ++ B) ↔
    Points es off start A ∧ Points es off (start + dataLength es A) B := by
  induction A generalizing start with
  | nil => simp [Points]
  | cons j A ih => simp only [cons_append, Points, ih, dataLength_cons, and_assoc, add_assoc]

/-- The data of an entry lie within the row. -/
lemma Points.bounds (h : Points es off start L) (hj : j ∈ L) :
    start ≤ off j ∧ off j + blockSize es j ≤ start + dataLength es L := by
  obtain ⟨A, B, rfl⟩ := append_of_mem hj
  have hoff := (points_append.1 h).2.1
  rw [hoff, dataLength_append, dataLength_cons]
  omega

lemma Points.pairwise (h : Points es off start L) : L.Pairwise (fun i j => off i < off j) := by
  induction L generalizing start with
  | nil => exact .nil
  | cons i L ih =>
    refine .cons (fun j hj => ?_) (ih h.2)
    have hbounds := (h.2.bounds hj).1
    rw [h.1]
    simp only [blockSize] at hbounds
    omega

variable {off' : ℕ → ℕ}

lemma Points.congr (h : Points es off start L) (hoff : ∀ j ∈ L, off' j = off j) :
    Points es off' start L := by
  induction L generalizing start with
  | nil => trivial
  | cons j L ih =>
    refine ⟨(hoff j (by simp)).trans h.1, ih h.2 fun i hi => hoff i (by simp [hi])⟩

lemma Points.shift {d : ℕ} (h : Points es off start L)
    (hoff : ∀ j ∈ L, off' j = off j + d) : Points es off' (start + d) L := by
  induction L generalizing start with
  | nil => trivial
  | cons j L ih =>
    refine ⟨by rw [hoff j (by simp), h.1], ?_⟩
    rw [add_right_comm]
    exact ih h.2 fun i hi => hoff i (by simp [hi])

lemma blocks_congr {idx' : ℕ → UInt8} (h : ∀ j ∈ L, idx' j = idx j) :
    blocks es idx' L = blocks es idx L := by
  simp only [blocks, flatMap]
  congr 1
  exact map_congr_left fun j hj => by rw [h j hj]

end Data

structure Chunk (m : Mem) (es : List (Entry cfg)) (off : ℕ → ℕ) (idx : ℕ → UInt8) (start : ℕ)
    (L : List ℕ) : Prop where
  points : Points es off start L
  bytes : At m start (blocks es idx L)

section Chunk

variable {m m' : Mem} {es : List (Entry cfg)} {off : ℕ → ℕ} {idx : ℕ → UInt8} {start j : ℕ}
  {L A B : List ℕ}

lemma chunk_append : Chunk m es off idx start (A ++ B) ↔
    Chunk m es off idx start A ∧ Chunk m es off idx (start + dataLength es A) B := by
  constructor
  · rintro ⟨hpoints, hbytes⟩
    rw [points_append] at hpoints
    rw [blocks_append, at_append, length_blocks] at hbytes
    exact ⟨⟨hpoints.1, hbytes.1⟩, ⟨hpoints.2, hbytes.2⟩⟩
  · rintro ⟨⟨hpoints, hbytes⟩, hpoints', hbytes'⟩
    refine ⟨points_append.2 ⟨hpoints, hpoints'⟩, ?_⟩
    rw [blocks_append, at_append, length_blocks]
    exact ⟨hbytes, hbytes'⟩

section
variable (h : Chunk m es off idx start L)
include h

lemma Chunk.congr (hsame : ∀ i, start ≤ i → i < start + dataLength es L → m' i = m i) :
    Chunk m' es off idx start L :=
  ⟨h.points, h.bytes.congr (by simpa using hsame)⟩

/-- The data of one entry. -/
lemma Chunk.block (hj : j ∈ L) : m (off j) = idx j ∧ At m (off j + 1) (valueAt es j) := by
  obtain ⟨A, B, rfl⟩ := append_of_mem hj
  obtain ⟨-, ⟨hoff, -⟩, hbytes⟩ := chunk_append.1 h
  rw [blocks_cons, at_cons, at_append, ← hoff] at hbytes
  exact ⟨hbytes.1, hbytes.2.1⟩

lemma Chunk.setIndex (hnodup : L.Nodup) (hj : j ∈ L) (x : UInt8) :
    Chunk (write m (off j) [x]) es off (update idx j x) start L := by
  refine ⟨h.points, ?_⟩
  obtain ⟨A, B, rfl⟩ := append_of_mem hj
  obtain ⟨hjA, hjB⟩ : j ∉ A ∧ j ∉ B := by
    rw [nodup_append] at hnodup
    exact ⟨fun hA => hnodup.2.2 j hA j (by simp) rfl, (nodup_cons.1 hnodup.2.1).1⟩
  have hne : ∀ C : List ℕ, j ∉ C → blocks es (update idx j x) C = blocks es idx C :=
    fun C hC => blocks_congr fun i hi => update_of_ne (by rintro rfl; exact hC hi) _ _
  have hoff := (points_append.1 h.points).2.1
  have hbytes := h.bytes
  rw [blocks_append, blocks_cons] at hbytes ⊢
  have hwrite := hbytes.write_middle (y := x)
  rw [length_blocks, ← hoff] at hwrite
  rwa [hne A hjA, hne B hjB, update_self]

end

variable {es' : List (Entry cfg)}

lemma Chunk.map {off' : ℕ → ℕ} {idx' : ℕ → UInt8} (σ : ℕ → ℕ)
    (h : Chunk m es off idx start L) (hvalue : ∀ j ∈ L, valueAt es' (σ j) = valueAt es j)
    (hoff : ∀ j ∈ L, off' (σ j) = off j) (hidx : ∀ j ∈ L, idx' (σ j) = idx j) :
    Chunk m es' off' idx' start (L.map σ) := by
  induction L generalizing start with
  | nil => exact ⟨trivial, at_nil⟩
  | cons j L ih =>
    rw [← singleton_append, chunk_append] at h
    rw [map_cons, ← singleton_append, chunk_append]
    obtain ⟨⟨⟨hstart, -⟩, hbytes⟩, hrest⟩ := h
    have hj : valueAt es' (σ j) = valueAt es j := hvalue j (by simp)
    have hsize : dataLength es' [σ j] = dataLength es [j] := by
      simp only [dataLength_cons, dataLength_nil, blockSize, hj]
    rw [hsize]
    refine ⟨⟨⟨(hoff j (by simp)).trans hstart, trivial⟩, ?_⟩, ih hrest
      (fun i hi => hvalue i (by simp [hi])) (fun i hi => hoff i (by simp [hi]))
      (fun i hi => hidx i (by simp [hi]))⟩
    rw [blocks_cons, hj, hidx j (by simp)]
    exact hbytes

lemma Chunk.entries_congr (h : Chunk m es off idx start L)
    (hvalue : ∀ j ∈ L, valueAt es' j = valueAt es j) : Chunk m es' off idx start L := by
  have hmap := h.map id hvalue (fun _ _ => rfl) fun _ _ => rfl
  rwa [map_id] at hmap

end Chunk

lemma dataLength_map {σ : ℕ → ℕ}
    (h : ∀ j ∈ L, valueAt es' (σ j) = valueAt es j) :
    dataLength es' (L.map σ) = dataLength es L := by
  simp only [dataLength, map_map]
  congr 1
  exact map_congr_left fun j hj => by simp only [Function.comp, blockSize, h j hj]

lemma dataLength_congr
    (h : ∀ j ∈ L, valueAt es' j = valueAt es j) : dataLength es' L = dataLength es L := by
  simpa using dataLength_map (σ := id) h

/-! ## Buckets -/

def position (j : ℕ) : UInt8 := UInt8.ofNat j

lemma position_toNat (hj : j < 2 ^ 8) : (position j).toNat = j := by
  rw [position, UInt8.toNat_ofNat', mod_eq_of_lt hj]

/-- A bucket with the given entries, the data of which lie in the given order. -/
structure Layout (cfg : Config) (b : Bucket) (es : List (Entry cfg)) (off : ℕ → ℕ)
    (order : List ℕ) : Prop where
  numEntries : b.numEntries.toNat = es.length
  totalDataSize : b.totalDataSize.toNat = dataLength es order
  perm : order.Perm (List.range es.length)
  room : es.length * cfg.headerSize + dataLength es order ≤ cfg.kBucketDataSize
  sizes : ∀ e ∈ es, e.value.length < 2 ^ 8
  headers : Headers b.data es off
  chunk : Chunk b.data es off position (cfg.kBucketDataSize - dataLength es order) order

lemma kBucketDataSize_lt (cfg : Config) : cfg.kBucketDataSize < 2 ^ 16 := by
  have := cfg.bucket_fits
  simp only [Config.kBucketDataSize, Config.headerSize]
  omega

namespace Layout

variable {b : Bucket} {es : List (Entry cfg)} {off : ℕ → ℕ} {order : List ℕ} {j : ℕ}
  {e : Entry cfg}

section
variable (h : Layout cfg b es off order)
include h

lemma length_lt : es.length < 2 ^ 8 := by
  rw [← h.numEntries]
  exact b.numEntries.toNat_lt

lemma mem_order : j ∈ order ↔ j < es.length := by
  rw [h.perm.mem_iff, mem_range]

lemma nodup : order.Nodup := h.perm.nodup_iff.2 List.nodup_range

lemma first : getFirstEntryDataOffset cfg b = cfg.kBucketDataSize - dataLength es order := by
  rw [getFirstEntryDataOffset, h.totalDataSize]

lemma pos_lt (he : es[j]? = some e) : j < 2 ^ 8 :=
  (List.getElem?_eq_some_iff.1 he).1.trans h.length_lt

lemma mem_of_getElem (he : es[j]? = some e) : j ∈ order :=
  h.mem_order.2 (List.getElem?_eq_some_iff.1 he).1

/-- The data of an entry lie within the bucket. -/
lemma off_le (hj : j ∈ order) : cfg.kBucketDataSize - dataLength es order ≤ off j ∧
      off j + blockSize es j ≤ cfg.kBucketDataSize := by
  have := h.chunk.points.bounds hj
  have := h.room
  omega

lemma dataSize (he : es[j]? = some e) : (dataSize cfg b.data j).toNat = e.value.length :=
  (h.headers j e he).dataSize_toNat (h.pos_lt he) (h.sizes e (mem_of_getElem? he))

lemma dataOffset (he : es[j]? = some e) : (dataOffset cfg b.data j).toNat = off j := by
  have hle := (h.off_le (h.mem_of_getElem he)).2
  have hlt := kBucketDataSize_lt cfg
  exact (h.headers j e he).dataOffset_toNat (h.pos_lt he) (by omega)

lemma entryAt (he : es[j]? = some e) : entryAt cfg b.data j = e := by
  have hvalue := (h.chunk.block (h.mem_of_getElem he)).2
  rw [valueAt_of_getElem he] at hvalue
  rw [VariableLru.entryAt, getEntryData, h.dataOffset he, h.dataSize he, hvalue.read,
    (h.headers j e he).key (h.pos_lt he)]

theorem decode : decode cfg b = es := by
  refine ext_getElem (by simp [VariableLru.decode, h.numEntries]) fun j hj hj' => ?_
  simp only [VariableLru.decode, getElem_map, getElem_range]
  exact h.entryAt (getElem?_eq_getElem hj')

end

end Layout

/-! ## Consistency -/

lemma insertionSort_eq {α : Type*} (f : α → ℕ) {l arr : List α} (hperm : arr.Perm l)
    (hl : l.Pairwise (fun x y => f x < f y)) : arr.insertionSort (fun x y => f x ≤ f y) = l := by
  have : Std.Symm (fun x y => f x = f y → x = y) := ⟨fun _ _ h heq => (h heq.symm).symm⟩
  have hinj : ∀ ⦃x⦄, x ∈ l → ∀ ⦃y⦄, y ∈ l → f x = f y → x = y :=
    List.Pairwise.forall_of_forall (fun _ _ _ => rfl) (hl.imp fun hlt heq => absurd heq hlt.ne)
  have hsorted := (perm_insertionSort (fun x y => f x ≤ f y) arr).trans hperm
  refine hsorted.eq_of_pairwise (fun x y hx hy hxy hyx => ?_)
    (pairwise_insertionSort (fun x y => f x ≤ f y) arr) (hl.imp le_of_lt)
  exact hinj (hsorted.mem_iff.1 hx) hy (le_antisymm hxy hyx)

/-- What `checkBucketConsistency` sees of an entry. -/
def seenAt (es : List (Entry cfg)) (off : ℕ → ℕ) (j : ℕ) : UInt16 × UInt8 :=
  (UInt16.ofNat (off j), UInt8.ofNat (valueAt es j).length)

lemma contiguous_of_points {start : ℕ}
    (hsize : ∀ j ∈ L, (valueAt es j).length < 2 ^ 8) (h : Points es off start L)
    (hend : start + dataLength es L = cfg.kBucketDataSize) :
    contiguous cfg start (L.map (seenAt es off)) = true := by
  have hlt := kBucketDataSize_lt cfg
  induction L generalizing start with
  | nil => simpa [contiguous] using hend
  | cons j L ih =>
    rw [dataLength_cons] at hend
    have hj : blockSize es j = (valueAt es j).length + 1 := rfl
    have hnext : (start + (UInt8.ofNat (valueAt es j).length).toNat + 1) % 2 ^ 16 =
        start + blockSize es j := by
      rw [UInt8.toNat_ofNat', mod_eq_of_lt (hsize j (by simp)), mod_eq_of_lt (by omega)]
      omega
    have hrest := ih (fun i hi => hsize i (by simp [hi])) h.2 (by omega)
    simp only [map_cons, seenAt, contiguous, hnext, Bool.and_eq_true, decide_eq_true_eq]
    refine ⟨?_, hrest⟩
    rw [h.1, UInt16.toNat_ofNat', mod_eq_of_lt (by omega)]

namespace Layout

variable {b : Bucket} {es : List (Entry cfg)} {off : ℕ → ℕ} {order : List ℕ} {j : ℕ}

section
variable (h : Layout cfg b es off order) (hj : j ∈ order)
include h hj

lemma getElem_of_mem : ∃ e, es[j]? = some e := ⟨_, getElem?_eq_getElem (h.mem_order.1 hj)⟩

lemma seen :
    (VariableLru.dataOffset cfg b.data j, VariableLru.dataSize cfg b.data j) = seenAt es off j := by
  obtain ⟨e, he⟩ := h.getElem_of_mem hj
  rw [seenAt, (h.headers j e he).dataOffset (h.pos_lt he), (h.headers j e he).dataSize (h.pos_lt he),
    valueAt_of_getElem he]

lemma value_lt : (valueAt es j).length < 2 ^ 8 := by
  obtain ⟨e, he⟩ := h.getElem_of_mem hj
  rw [valueAt_of_getElem he]
  exact h.sizes e (mem_of_getElem? he)

end

/-- A bucket with this layout passes the check. -/
theorem consistent (h : Layout cfg b es off order) : checkBucketConsistency cfg b = true := by
  have hlt := kBucketDataSize_lt cfg
  have hroom := h.room
  have hoff : ∀ j ∈ order, (UInt16.ofNat (off j)).toNat = off j := by
    intro j hj
    have := (h.off_le hj).2
    rw [UInt16.toNat_ofNat', mod_eq_of_lt (by omega)]
  have hmem : ∀ {j}, j ∈ range es.length → j ∈ order := fun hj => h.perm.mem_iff.2 hj
  simp only [checkBucketConsistency, Bool.and_eq_true, decide_eq_true_eq, all_eq_true,
    h.numEntries, h.first, h.totalDataSize]
  refine ⟨⟨⟨?_, ?_⟩, ?_⟩, ?_⟩
  · rw [getEntryHeader_of_lt h.length_lt]
    omega
  · intro j hj
    obtain ⟨e, he⟩ := h.getElem_of_mem (hmem hj)
    rw [headerIndex, getEntryData, h.dataOffset he, (h.chunk.block (hmem hj)).1,
      position_toNat (h.pos_lt he)]
  · -- the headers are sorted by where the data lie
    rw [map_congr_left fun j hj => h.seen (hmem hj),
      insertionSort_eq (fun x => x.1.toNat) (h.perm.symm.map (seenAt es off)) ?_]
    · exact contiguous_of_points (fun j hj => h.value_lt hj) h.chunk.points (by omega)
    · rw [pairwise_map]
      refine h.chunk.points.pairwise.imp_of_mem fun {i j} hi hj hij => ?_
      simpa only [seenAt, hoff i hi, hoff j hj] using hij
  · have hsum : (range es.length).map (fun i => (VariableLru.dataSize cfg b.data i).toNat + 1) =
        (range es.length).map (blockSize es) := by
      refine map_congr_left fun j hj => ?_
      obtain ⟨e, he⟩ := h.getElem_of_mem (hmem hj)
      rw [h.dataSize he, blockSize, valueAt_of_getElem he]
    rw [hsum, dataLength]
    exact ((h.perm.map (blockSize es)).sum_eq).symm

end Layout

end HybridCache.VariableLru

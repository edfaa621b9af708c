import HybridCache.VariableLruLayout
import Mathlib.Data.List.Induction

/-!
# Moving data in a bucket

What the loops over the data of a bucket do: the assignment of `headerIndex` for a list of
headers, `shiftEntriesData` for a chunk, and the moves between the evicted entries, for all of
which the chunks that lie to the left have not been touched yet.
-/
namespace HybridCache.VariableLru

open ByteMemory List Nat

variable {cfg : Config} {m : Mem} {es : List (Entry cfg)} {off : ℕ → ℕ} {idx : ℕ → UInt8}
  {start : ℕ} {L : List ℕ}

lemma Chunk.index_congr {idx' : ℕ → UInt8} (h : Chunk m es off idx start L)
    (hidx : ∀ j ∈ L, idx' j = idx j) : Chunk m es off idx' start L :=
  ⟨h.points, by rw [blocks_congr hidx]; exact h.bytes⟩

/-- What is needed of the entries and of a chunk for reading the headers of the chunk. -/
structure Readable (cfg : Config) (es : List (Entry cfg)) (start : ℕ) (L : List ℕ) : Prop where
  length_lt : es.length < 2 ^ 8
  sizes : ∀ e ∈ es, e.value.length < 2 ^ 8
  nodup : L.Nodup
  mem : ∀ j ∈ L, j < es.length
  apart : es.length * cfg.headerSize ≤ start
  end_le : start + dataLength es L ≤ cfg.kBucketDataSize

lemma Layout.readable {b : Bucket} {order : List ℕ} (h : Layout cfg b es off order) :
    Readable cfg es (cfg.kBucketDataSize - dataLength es order) order where
  length_lt := h.length_lt
  sizes := h.sizes
  nodup := h.nodup
  mem _ hj := h.mem_order.1 hj
  apart := by have := h.room; omega
  end_le := by have := h.room; omega

namespace Readable

variable {j : ℕ} {A B : List ℕ}

lemma left (h : Readable cfg es start (A ++ B)) : Readable cfg es start A where
  length_lt := h.length_lt
  sizes := h.sizes
  nodup := (List.nodup_append.1 h.nodup).1
  mem j hj := h.mem j (by simp [hj])
  apart := h.apart
  end_le := by have := h.end_le; rw [dataLength_append] at this; omega

lemma right (h : Readable cfg es start (A ++ B)) : Readable cfg es (start + dataLength es A) B where
  length_lt := h.length_lt
  sizes := h.sizes
  nodup := (List.nodup_append.1 h.nodup).2.1
  mem j hj := h.mem j (by simp [hj])
  apart := by have := h.apart; omega
  end_le := by have := h.end_le; rw [dataLength_append] at this; omega

section
variable (h : Readable cfg es start L)
include h

lemma pos_lt (hj : j ∈ L) : j < 2 ^ 8 := (h.mem j hj).trans h.length_lt

lemma getElem (hj : j ∈ L) : ∃ e, es[j]? = some e := ⟨_, getElem?_eq_getElem (h.mem j hj)⟩

lemma dataSize (hheaders : Headers m es off) (hj : j ∈ L) :
    (dataSize cfg m j).toNat = (valueAt es j).length := by
  obtain ⟨e, he⟩ := h.getElem hj
  rw [(hheaders j e he).dataSize_toNat (h.pos_lt hj) (h.sizes e (mem_of_getElem? he)),
    valueAt_of_getElem he]

lemma dataOffset (hheaders : Headers m es off)
    (hpoints : Points es off start L) (hj : j ∈ L) : (dataOffset cfg m j).toNat = off j := by
  obtain ⟨e, he⟩ := h.getElem hj
  have hend := h.end_le
  have hbounds := hpoints.bounds hj
  have hlt := kBucketDataSize_lt cfg
  exact (hheaders j e he).dataOffset_toNat (h.pos_lt hj) (by omega)

end

end Readable

/-! ## Loops over headers -/

/-- A loop that assigns `headerIndex`. -/
lemma assignHeaderIndex_spec (f : ℕ → UInt8 → UInt8) {positions : List ℕ}
    (hnodup : positions.Nodup) (hsub : ∀ i ∈ positions, i ∈ L) (hL : Readable cfg es start L)
    (hheaders : Headers m es off) (hchunk : Chunk m es off idx start L) :
    Headers (assignHeaderIndex cfg f positions m) es off ∧
      Chunk (assignHeaderIndex cfg f positions m) es off
        (fun j => if j ∈ positions then f j (idx j) else idx j) start L ∧
      ∀ i, i < start ∨ start + dataLength es L ≤ i →
        assignHeaderIndex cfg f positions m i = m i := by
  induction positions generalizing m idx with
  | nil => exact ⟨hheaders, hchunk, fun _ _ => rfl⟩
  | cons p ps ih =>
    obtain ⟨hp, hps⟩ := nodup_cons.1 hnodup
    have hpL : p ∈ L := hsub p (by simp)
    have hbounds := hchunk.points.bounds hpL
    have hsize : blockSize es p = (valueAt es p).length + 1 := rfl
    have hdata : getEntryData cfg m p = off p := hL.dataOffset hheaders hchunk.points hpL
    have hindex : headerIndex m (off p) = idx p := (hchunk.block hpL).1
    have hstep : assignHeaderIndex cfg f (p :: ps) m =
        assignHeaderIndex cfg f ps (write m (off p) [f p (idx p)]) := by
      simp only [assignHeaderIndex, foldl_cons, hdata, hindex]
    have hwrite : ∀ i, i < start ∨ start + dataLength es L ≤ i →
        write m (off p) [f p (idx p)] i = m i :=
      fun i hi => write_of_outside (by rw [length_singleton]; omega)
    obtain ⟨hheaders', hchunk', hframe⟩ := ih hps (fun i hi => hsub i (by simp [hi]))
      (hheaders.congr fun i hi => hwrite i (Or.inl (hi.trans_le hL.apart)))
      (hchunk.setIndex hL.nodup hpL (f p (idx p)))
    rw [hstep]
    refine ⟨hheaders', hchunk'.index_congr fun j _ => ?_, fun i hi => ?_⟩
    · by_cases hjp : j = p
      · subst hjp
        simp [hp]
      · simp [hjp]
    · rw [hframe i hi, hwrite i hi]

/-! ## Shifting a chunk -/

lemma adjustOffsets_spec (d : ℕ) (hL : Readable cfg es start L) (hidx : ∀ j ∈ L, idx j = position j)
    (hheaders : Headers m es off) (hchunk : Chunk m es off idx start L) :
    Headers (adjustOffsets cfg m start (start + dataLength es L) (UInt16.ofNat d)) es
        (fun j => if j ∈ L then off j + d else off j) ∧
      ∀ i, es.length * cfg.headerSize ≤ i →
        adjustOffsets cfg m start (start + dataLength es L) (UInt16.ofNat d) i = m i := by
  induction L generalizing m off start with
  | nil =>
    rw [adjustOffsets, if_neg (by simp)]
    exact ⟨by simpa using hheaders, fun _ _ => rfl⟩
  | cons j L ih =>
    obtain ⟨hjL, -⟩ := nodup_cons.1 hL.nodup
    have hj : j < 2 ^ 8 := hL.pos_lt (by simp)
    have hapart := hL.apart
    have hsize : blockSize es j = (valueAt es j).length + 1 := rfl
    obtain ⟨e, he⟩ := hL.getElem (mem_cons_self)
    have hend := header_le cfg (hL.mem j (by simp))
    have hoff : off j = start := hchunk.points.1
    have hstart : (headerIndex m start).toNat = j := by
      rw [headerIndex, ← hoff, (hchunk.block (by simp)).1, hidx j (by simp), position_toNat hj]
    -- the header of the first entry of the chunk
    set m' := setDataOffset cfg m j (UInt16.ofNat (off j + d)) with hm'
    have hsame : ∀ i, es.length * cfg.headerSize ≤ i → m' i = m i :=
      fun i hi => setDataOffset_of_outside hj (by omega)
    have hheaders' : Headers m' es (Function.update off j (off j + d)) :=
      hheaders.setDataOffset hj (off j + d)
    have hnext : getNextEntryData cfg m' start = start + blockSize es j := by
      have hread : headerIndex m' start = headerIndex m start := hsame start hapart
      rw [getNextEntryData, hread, hstart, hL.dataSize hheaders' (by simp), hsize]
      omega
    have hrest : Chunk m' es (Function.update off j (off j + d)) idx (start + blockSize es j) L := by
      rw [← singleton_append, chunk_append, dataLength_cons, dataLength_nil, add_zero] at hchunk
      have hcongr : Chunk m' es off idx (start + blockSize es j) L :=
        hchunk.2.congr fun i hi _ => hsame i (by omega)
      exact ⟨hcongr.points.congr fun i hi =>
        Function.update_of_ne (by rintro rfl; exact hjL hi) _ _, hcongr.bytes⟩
    have hright : Readable cfg es (start + blockSize es j) L := by
      rw [← singleton_append] at hL
      simpa using hL.right
    obtain ⟨hih, hframe⟩ := ih hright (fun i hi => hidx i (by simp [hi])) hheaders' hrest
    have hstep : adjustOffsets cfg m start (start + dataLength es (j :: L)) (UInt16.ofNat d) =
        adjustOffsets cfg m' (start + blockSize es j)
          (start + blockSize es j + dataLength es L) (UInt16.ofNat d) := by
      rw [adjustOffsets, if_pos (by rw [dataLength_cons]; omega)]
      simp only [hstart, (hheaders j e he).dataOffset hj, ← UInt16.ofNat_add, ← hm', hnext,
        dataLength_cons, add_assoc]
    rw [hstep]
    refine ⟨?_, fun i hi => (hframe i hi).trans (hsame i hi)⟩
    convert hih using 2 with i
    by_cases hij : i = j
    · subst hij
      simp [hjL]
    · simp [hij]

lemma shiftEntriesData_spec {d : ℕ} (hd : d < 2 ^ 16) (hL : Readable cfg es start L)
    (hidx : ∀ j ∈ L, idx j = position j)
    (hheaders : Headers m es off) (hchunk : Chunk m es off idx start L) :
    Headers (shiftEntriesData cfg m start (UInt16.ofNat d) (dataLength es L)) es
        (fun j => if j ∈ L then off j + d else off j) ∧
      Chunk (shiftEntriesData cfg m start (UInt16.ofNat d) (dataLength es L)) es
        (fun j => if j ∈ L then off j + d else off j) idx (start + d) L ∧
      ∀ i, es.length * cfg.headerSize ≤ i → i < start + d ∨ start + d + dataLength es L ≤ i →
        shiftEntriesData cfg m start (UInt16.ofNat d) (dataLength es L) i = m i := by
  obtain ⟨hheaders', hframe⟩ := adjustOffsets_spec d hL hidx hheaders hchunk
  have hapart := hL.apart
  have hd' : (UInt16.ofNat d).toNat = d := by rw [UInt16.toNat_ofNat', mod_eq_of_lt hd]
  rw [shiftEntriesData, hd']
  refine ⟨?_, ⟨?_, ?_⟩, fun i hi hout => ?_⟩
  · exact hheaders'.congr fun i hi => memmove_of_outside (by omega)
  · exact hchunk.points.shift fun j hj => if_pos hj
  · have hbytes := hchunk.bytes.congr fun i hi _ => hframe i (by omega)
    exact hbytes.memmove (k := 0) (by simp)
  · rw [memmove_of_outside hout, hframe i hi]

variable {R evicted : List ℕ} {gone : ℕ → Bool}

lemma shiftEntriesData_join {d : ℕ} (hd : d < 2 ^ 16) (hL : Readable cfg es start L)
    (hLR : ∀ j ∈ L, j ∉ R) (hheaders : Headers m es off) (hchunk : Chunk m es off position start L)
    (hright : Chunk m es off position (start + dataLength es L + d) R) :
    ∃ off', Headers (shiftEntriesData cfg m start (UInt16.ofNat d) (dataLength es L)) es off' ∧
      Chunk (shiftEntriesData cfg m start (UInt16.ofNat d) (dataLength es L)) es off' position
        (start + d) (L ++ R) ∧ (∀ j ∉ L, off' j = off j) ∧
      ∀ i, es.length * cfg.headerSize ≤ i → i < start + d ∨ start + d + dataLength es L ≤ i →
        shiftEntriesData cfg m start (UInt16.ofNat d) (dataLength es L) i = m i := by
  obtain ⟨hheaders', hchunk', hframe⟩ := shiftEntriesData_spec hd hL (fun _ _ => rfl) hheaders hchunk
  have hapart := hL.apart
  refine ⟨_, hheaders', chunk_append.2 ⟨hchunk', ?_⟩, fun j hj => if_neg hj, hframe⟩
  rw [add_right_comm]
  refine ⟨hright.points.congr fun j hj => if_neg fun hjL => hLR j hjL hj, ?_⟩
  exact (hright.congr fun i hi _ => hframe i (by omega) (by omega)).bytes

/-! ## Moving the chunks between evicted entries -/

/-- A row that ends with an evicted entry, or has none. The evicted entries of it are listed
from the last one on. -/
inductive Sweep (gone : ℕ → Bool) : List ℕ → List ℕ → Prop
  | nil : Sweep gone [] []
  | snoc {evicted A C : List ℕ} {e : ℕ} (h : Sweep gone evicted A)
      (hkept : ∀ j ∈ C, gone j = false) (he : gone e = true) :
      Sweep gone (e :: evicted) (A ++ C ++ [e])

/-- The entries after the last evicted one stay where they are. -/
lemma exists_sweep (gone : ℕ → Bool) (order : List ℕ) : ∃ A C, order = A ++ C ∧
    Sweep gone (order.filter gone).reverse A ∧ ∀ j ∈ C, gone j = false := by
  induction order using reverseRecOn with
  | nil => exact ⟨[], [], rfl, .nil, nofun⟩
  | append_singleton order e ih =>
    obtain ⟨A, C, rfl, hsweep, hC⟩ := ih
    cases he : gone e with
    | true =>
      refine ⟨A ++ C ++ [e], [], by simp, ?_, nofun⟩
      rw [filter_append, filter_singleton, he, cond_true, reverse_append]
      exact .snoc hsweep hC he
    | false =>
      refine ⟨A, C ++ [e], by simp, ?_, ?_⟩
      · rwa [filter_append (A ++ C), filter_singleton, he, cond_false, append_nil]
      · intro j hj
        rcases mem_append.1 hj with hj | hj
        · exact hC j hj
        · rw [mem_singleton.1 hj]
          exact he

lemma filter_not_of_kept {C : List ℕ} (hkept : ∀ j ∈ C, gone j = false) :
    C.filter gone = [] ∧ C.filter (fun j => !gone j) = C := by
  constructor
  · rw [filter_eq_nil_iff]
    intro j hj
    simp [hkept j hj]
  · rw [filter_eq_self]
    intro j hj
    simp [hkept j hj]

/-- The chunk of an evicted entry begins where the evicted entry before it ends. -/
lemma chunkStart_eq {A : List ℕ} (hsweep : Sweep gone evicted A)
    (hA : Readable cfg es start A) (hheaders : Headers m es off) (hpoints : Points es off start A) :
    chunkStartOffset cfg start m evicted = start + dataLength es A := by
  cases hsweep with
  | nil => simp [chunkStartOffset]
  | @snoc _ A C l _ _ _ =>
    have hl : l ∈ A ++ C ++ [l] := by simp
    have hoff : off l = start + dataLength es (A ++ C) := (points_append.1 hpoints).2.1
    rw [chunkStartOffset, hA.dataOffset hheaders hpoints hl, hA.dataSize hheaders hl, hoff,
      dataLength_append (B := [l]), dataLength_cons, dataLength_nil, blockSize]
    omega

/-- One turn of the loop: the chunk to the left of an evicted entry is moved to what has been
moved before. -/
lemma moveChunks_step {A C : List ℕ} {e shift : ℕ}
    (hsweep : Sweep gone evicted A) (hL : Readable cfg es start (A ++ C ++ [e]))
    (hLR : ∀ j ∈ A ++ C ++ [e], j ∉ R)
    (hend : start + dataLength es (A ++ C ++ [e]) + shift + dataLength es R ≤ cfg.kBucketDataSize)
    (hheaders : Headers m es off) (hchunk : Chunk m es off position start (A ++ C ++ [e]))
    (hright : Chunk m es off position (start + dataLength es (A ++ C ++ [e]) + shift) R) :
    ∃ m' off', moveChunks cfg start m (e :: evicted) shift =
        moveChunks cfg start m' evicted (shift + blockSize es e) ∧
      Headers m' es off' ∧ Chunk m' es off' position start A ∧
      Chunk m' es off' position (start + dataLength es A + (shift + blockSize es e)) (C ++ R) ∧
      ∀ i, cfg.kBucketDataSize ≤ i → m' i = m i := by
  have hlt := kBucketDataSize_lt cfg
  obtain ⟨hchunkAC, ⟨hoff, -⟩, -⟩ := chunk_append.1 hchunk
  obtain ⟨hchunkA, hchunkC⟩ := chunk_append.1 hchunkAC
  have heL : e ∈ A ++ C ++ [e] := by simp
  have hsize : (dataSize cfg m e).toNat + 1 = blockSize es e := by
    rw [hL.dataSize hheaders heL, blockSize]
  simp only [dataLength_append, dataLength_cons, dataLength_nil, add_zero] at hoff hend hright
  have hstart : chunkStartOffset cfg start m evicted % 2 ^ 16 = start + dataLength es A := by
    rw [chunkStart_eq hsweep hL.left.left hheaders hchunkA.points, mod_eq_of_lt (by omega)]
  have hchunkSize : (dataOffset cfg m e).toNat - (start + dataLength es A) = dataLength es C := by
    rw [hL.dataOffset hheaders hchunk.points heL, hoff]
    omega
  by_cases hempty : dataLength es C = 0
  · -- two evicted entries next to each other
    obtain rfl : C = [] := by
      rcases C with - | ⟨c, C⟩
      · rfl
      · rw [dataLength_cons, blockSize] at hempty
        omega
    refine ⟨m, off, ?_, hheaders, hchunkA, ?_, fun _ _ => rfl⟩
    · simp only [moveChunks, hstart, hchunkSize, hempty, if_true, add_assoc, hsize]
    · rw [nil_append]
      convert hright using 1
      omega
  · have hapart := hL.apart
    have hplace : start + (dataLength es A + dataLength es C + blockSize es e) + shift =
        start + dataLength es A + dataLength es C + (shift + blockSize es e) := by omega
    rw [hplace] at hright
    obtain ⟨off', hheaders', hchunk', hoff', hframe⟩ := shiftEntriesData_join (by omega)
      hL.left.right (fun j hj => hLR j (by simp [hj])) hheaders hchunkC hright
    refine ⟨_, off', ?_, hheaders', ?_, hchunk', fun i hi => hframe i (by omega) (by omega)⟩
    · simp only [moveChunks, hstart, hchunkSize, hempty, if_false, add_assoc, hsize]
    · have hA := hchunkA.congr fun i hi hi' => hframe i (by omega) (by omega)
      exact ⟨hA.points.congr fun j hj => hoff' j fun hjC =>
        (nodup_append.1 hL.left.nodup).2.2 j hj j hjC rfl, hA.bytes⟩

lemma moveChunks_spec (hsweep : Sweep gone evicted L)
    (shift : ℕ) (hL : Readable cfg es start L) (hLR : ∀ j ∈ L, j ∉ R)
    (hend : start + dataLength es L + shift + dataLength es R ≤ cfg.kBucketDataSize)
    (hheaders : Headers m es off) (hchunk : Chunk m es off position start L)
    (hright : Chunk m es off position (start + dataLength es L + shift) R) :
    (moveChunks cfg start m evicted shift).2 = shift + dataLength es (L.filter gone) ∧
      ∃ off', Headers (moveChunks cfg start m evicted shift).1 es off' ∧
        Chunk (moveChunks cfg start m evicted shift).1 es off' position
          (start + (moveChunks cfg start m evicted shift).2) (L.filter (fun j => !gone j) ++ R) ∧
        ∀ i, cfg.kBucketDataSize ≤ i → (moveChunks cfg start m evicted shift).1 i = m i := by
  induction hsweep generalizing m off shift R with
  | nil =>
    simp only [moveChunks]
    exact ⟨by simp, off, hheaders, by simpa using hright, fun _ _ => trivial⟩
  | @snoc evicted A C e hsweep hkept he ih =>
    obtain ⟨m', off', hstep, hheaders', hchunkA, hchunkCR, hframe⟩ :=
      moveChunks_step hsweep hL hLR hend hheaders hchunk hright
    have hdisj : ∀ j ∈ A, j ∉ C ++ R := fun j hj hjCR => (mem_append.1 hjCR).elim
      (fun hjC => (nodup_append.1 hL.left.nodup).2.2 j hj j hjC rfl) (hLR j (by simp [hj]))
    have hfilter : dataLength es ((A ++ C ++ [e]).filter gone) =
        blockSize es e + dataLength es (A.filter gone) := by
      simp [filter_append, (filter_not_of_kept hkept).1, he, add_comm]
    have hkeep : (A ++ C ++ [e]).filter (fun j => !gone j) ++ R =
        A.filter (fun j => !gone j) ++ (C ++ R) := by
      simp [filter_append, (filter_not_of_kept hkept).2, he]
    simp only [dataLength_append, dataLength_cons, dataLength_nil] at hend
    obtain ⟨hshift, off'', hheaders'', hchunk'', hframe'⟩ := ih _ hL.left.left hdisj
      (by rw [dataLength_append]; omega) hheaders' hchunkA hchunkCR
    rw [hstep, hfilter, hkeep]
    exact ⟨by omega, off'', hheaders'', hchunk'', fun i hi => (hframe' i hi).trans (hframe i hi)⟩

end HybridCache.VariableLru

import Mathlib.Data.List.GetD
import HybridCache.RecordIO

/-!
# Metadata records round-trip

The layout of the records depends on their lengths only: it gives the address of every
packet, a record with its header. The writer is compared with the layout through its
content, the bytes of the device followed by those of the buffer.
-/
namespace HybridCache.RecordIO

open List Option Nat

/-! ## Bytes of a device -/

section
variable (dev : Device)

@[simp] lemma length_window (a n : ℕ) : (window dev a n).length = n := by
  simp [window]

lemma window_eq_iff (a : ℕ) (bytes : Bytes) :
    window dev a bytes.length = bytes ↔ ∀ i < bytes.length, dev (a + i) = bytes.getD i 0 := by
  constructor
  · intro h i hi
    rw [← h]
    simp [window, hi]
  · intro h
    apply ext_getElem (by simp)
    intro i hi hi'
    simpa [window, hi'] using h i hi'

lemma window_add (a m n : ℕ) :
    window dev a (m + n) = window dev a m ++ window dev (a + m) n := by
  simp [window, range_add, add_assoc, Function.comp_def]

lemma drop_window (a i n : ℕ) :
    (window dev a n).drop i = window dev (a + i) (n - i) := by
  apply ext_getElem (by simp)
  simp [window, add_assoc]

lemma take_window (a i n : ℕ) (hi : i ≤ n) :
    (window dev a n).take i = window dev a i := by
  apply ext_getElem (by simpa using hi)
  simp [window]

end

lemma window_zero {dev : Device} {a n : ℕ} (h : ∀ i < n, dev (a + i) = 0) :
    window dev a n = List.replicate n 0 := by
  apply ext_getElem (by simp)
  intro i hi _
  simpa [window] using h i (by simpa using hi)

/-! ## Layout -/

section Layout
variable (cfg : Config)

lemma headerSize_le_blockSize : cfg.headerSize ≤ cfg.blockSize := cfg.headerSize_le

lemma blockSize_pos : 0 < cfg.blockSize := lt_of_lt_of_le cfg.headerSize_pos cfg.headerSize_le

def blockEnd (e : ℕ) : ℕ := (e + cfg.blockSize - 1) / cfg.blockSize * cfg.blockSize

def startPos (e : ℕ) : ℕ :=
  if cfg.blockSize < e % cfg.blockSize + cfg.headerSize then blockEnd cfg e else e

def packet (record : Bytes) : Bytes := (cfg.prependHeader record).getD []

/-- The packets with their addresses, behind the address `e`. -/
def layout : ℕ → List Bytes → List (ℕ × Bytes)
  | _, [] => []
  | e, record :: records =>
    (startPos cfg e, packet cfg record) ::
      layout (startPos cfg e + (packet cfg record).length) records

def endPos : ℕ → List Bytes → ℕ
  | e, [] => e
  | e, record :: records => endPos (startPos cfg e + (packet cfg record).length) records

def lastChunk (start length : ℕ) : ℕ := blockEnd cfg (start + length) - cfg.blockSize - start

variable {cfg} {k l : ℕ}

lemma blockEnd_eq (hl : 0 < l) (hl' : l ≤ cfg.blockSize) :
    blockEnd cfg (k * cfg.blockSize + l) = k * cfg.blockSize + cfg.blockSize := by
  have hdiv : (k * cfg.blockSize + l + cfg.blockSize - 1) / cfg.blockSize = k + 1 := by
    have := Nat.add_one_mul k cfg.blockSize
    have := Nat.add_one_mul (k + 1) cfg.blockSize
    exact Nat.div_eq_of_lt_le (by omega) (by omega)
  rw [blockEnd, hdiv, Nat.add_one_mul]

lemma blockEnd_ge {e : ℕ} (h : k * cfg.blockSize < e) :
    k * cfg.blockSize + cfg.blockSize ≤ blockEnd cfg e := by
  rw [← add_one_mul]
  apply Nat.mul_le_mul_right
  rw [le_div_iff_mul_le (blockSize_pos cfg), add_one_mul]
  omega

lemma startPos_eq (hl : l ≤ cfg.blockSize) : startPos cfg (k * cfg.blockSize + l) =
      if cfg.blockSize < l + cfg.headerSize then k * cfg.blockSize + cfg.blockSize
      else k * cfg.blockSize + l := by
  have hh := headerSize_le_blockSize cfg
  have hpos := cfg.headerSize_pos
  unfold startPos
  rcases lt_or_eq_of_le hl with hlt | rfl
  · have hmod : (k * cfg.blockSize + l) % cfg.blockSize = l := by
      rw [mul_comm, mul_add_mod, mod_eq_of_lt hlt]
    rw [hmod]
    split_ifs with hroom
    · exact blockEnd_eq (by omega) hl
    · rfl
  · have hmod : (k * cfg.blockSize + cfg.blockSize) % cfg.blockSize = 0 := by simp
    rw [hmod, if_neg (by omega), if_pos (by omega)]

lemma startPos_block (k : ℕ) : startPos cfg (k * cfg.blockSize) = k * cfg.blockSize := by
  have h := @startPos_eq cfg k 0 (zero_le _)
  rwa [add_zero, if_neg (by have := headerSize_le_blockSize cfg; omega)] at h

lemma le_blockEnd (e : ℕ) : e ≤ blockEnd cfg e := by
  have hpos := blockSize_pos cfg
  have := lt_div_mul_add (a := e + cfg.blockSize - 1) hpos
  unfold blockEnd
  omega

lemma le_startPos (e : ℕ) : e ≤ startPos cfg e := by
  unfold startPos
  split_ifs
  · exact le_blockEnd e
  · exact le_rfl

lemma endPos_ge (e : ℕ) (records : List Bytes) : e ≤ endPos cfg e records := by
  induction records generalizing e with
  | nil => exact le_rfl
  | cons record records ih =>
    exact le_trans (le_trans (le_startPos e) (le_add_right _ _)) (ih _)

lemma lastChunk_of_le {n : ℕ} (hn : 0 < n) (hle : l + n ≤ cfg.blockSize) :
    lastChunk cfg (k * cfg.blockSize + l) n = 0 := by
  rw [lastChunk, add_assoc, blockEnd_eq (by omega) hle]
  omega

/-- The first chunk fills a block. -/
lemma lastChunk_of_lt {n : ℕ} (hl : l < cfg.blockSize) (hlt : cfg.blockSize < l + n) :
    lastChunk cfg (k * cfg.blockSize + l) n = cfg.blockSize - l +
      lastChunk cfg ((k + 1) * cfg.blockSize) (n - (cfg.blockSize - l)) := by
  have hsucc := Nat.add_one_mul k cfg.blockSize
  have hsum : (k + 1) * cfg.blockSize + (n - (cfg.blockSize - l)) =
      k * cfg.blockSize + l + n := by omega
  have hend : (k + 1) * cfg.blockSize + cfg.blockSize ≤ blockEnd cfg (k * cfg.blockSize + l + n) :=
    blockEnd_ge (by omega)
  rw [lastChunk, lastChunk, hsum]
  omega

end Layout

/-! ## Writer -/

section Writer
variable {cfg : Config}

/-- The bytes that the writer has taken, with zeros behind them. -/
def Writer.content (w : Writer) : Device :=
  fun a => if a < w.offset then w.dev a else w.buffer.getD (a - w.offset) 0

def Writer.At (cfg : Config) (w : Writer) (e : ℕ) : Prop :=
  ∃ k, w.offset = k * cfg.blockSize ∧ w.buffer.length ≤ cfg.blockSize ∧
    e = k * cfg.blockSize + w.buffer.length

variable {w : Writer} {e : ℕ}

lemma content_flushBuffer (hlen : w.buffer.length ≤ cfg.blockSize) :
    (flushBuffer cfg w).content = w.content := by
  funext a
  change (if a < w.offset + cfg.blockSize then writeBlock cfg w.dev w.offset w.buffer a
    else ([] : Bytes).getD (a - (w.offset + cfg.blockSize)) 0) =
      if a < w.offset then w.dev a else w.buffer.getD (a - w.offset) 0
  unfold writeBlock
  by_cases hlow : a < w.offset
  · rw [if_pos (by omega), if_neg (by omega), if_pos hlow]
  · by_cases hblock : a < w.offset + cfg.blockSize
    · rw [if_pos hblock, if_pos (by omega), if_neg hlow]
    · rw [if_neg hblock, if_neg hlow, getD_nil, getD_eq_default _ _ (by omega)]

lemma content_append_of_lt (w : Writer) (chunk : Bytes) {a : ℕ}
    (ha : a < w.offset + w.buffer.length) :
    ({ w with buffer := w.buffer ++ chunk } : Writer).content a = w.content a := by
  simp only [Writer.content]
  split_ifs with hlow
  · rfl
  · exact getD_append _ _ _ _ (by omega)

lemma content_append (w : Writer) (chunk : Bytes) (i : ℕ) :
    ({ w with buffer := w.buffer ++ chunk } : Writer).content (w.offset + w.buffer.length + i) =
      chunk.getD i 0 := by
  simp only [Writer.content]
  rw [if_neg (by omega), getD_append_right _ _ _ _ (by omega)]
  congr 1
  omega

/-- There is room for a header, and the writer stands where the layout has it. -/
lemma makeRoom_spec (hw : w.At cfg e) :
    (makeRoom cfg w).At cfg (startPos cfg e) ∧ (makeRoom cfg w).content = w.content ∧
      (makeRoom cfg w).buffer.length + cfg.headerSize ≤ cfg.blockSize := by
  obtain ⟨k, hoff, hlen, rfl⟩ := hw
  rw [startPos_eq hlen, makeRoom]
  split_ifs with hroom
  · refine ⟨⟨k + 1, ?_, zero_le _, ?_⟩, content_flushBuffer hlen, ?_⟩
    · simp [flushBuffer, hoff, add_one_mul]
    · simp [flushBuffer, add_one_mul]
    · simpa [flushBuffer] using headerSize_le_blockSize cfg
  · exact ⟨⟨k, hoff, hlen, rfl⟩, rfl, by omega⟩

/-- What the loop of `writeRecord` does with the data that is left, from the address `e` and
with the first bytes of the record written already. -/
def Written (cfg : Config) (e dataOffset : ℕ) (data : Bytes) (w : Writer)
    (result : Except Failure Writer) : Prop :=
  let p := startPos cfg e
  if cfg.metadataSize < p + data.length then result = .error .metadataLimit
  else if intLimit ≤ dataOffset + lastChunk cfg p data.length then result = .error .undefined
  else ∃ w', result = .ok w' ∧ w'.At cfg (p + data.length) ∧ w'.buffer ≠ [] ∧
    (∀ a < e, w'.content a = w.content a) ∧
    ∀ i < data.length, w'.content (p + i) = data.getD i 0

lemma writeLoop_spec (fuel : ℕ) (w : Writer) (e dataOffset : ℕ) (data : Bytes)
    (hw : w.At cfg e) (hdata : 0 < data.length) (hfuel : data.length ≤ fuel) :
    Written cfg e dataOffset data w (writeLoop cfg fuel w dataOffset data) := by
  -- One chunk at a time; all but the first start at a block.
  induction fuel generalizing w e dataOffset data with
  | zero => omega
  | succ fuel ih =>
    obtain ⟨⟨k, hoff, hlen, hp⟩, hcontent, hroom⟩ := makeRoom_spec hw
    have hle := @le_startPos cfg e
    have hpos := cfg.headerSize_pos
    unfold writeLoop Written
    generalize makeRoom cfg w = v at *
    rw [hp, ← hoff] at hle ⊢
    by_cases hlimit : cfg.metadataSize < v.offset + v.buffer.length + data.length
    · rw [if_pos hlimit, if_pos hlimit]
    rw [if_neg hlimit, if_neg hlimit]
    by_cases hint : intLimit ≤ dataOffset
    · rw [if_pos hint, if_pos (by omega)]
    rw [if_neg hint]
    by_cases hlast : v.buffer.length + data.length ≤ cfg.blockSize
    · have hchunk : lastChunk cfg (v.offset + v.buffer.length) data.length = 0 := by
        rw [hoff]
        exact lastChunk_of_le hdata hlast
      rw [hchunk, if_neg (by omega), Nat.min_eq_right (by omega), if_pos (Nat.sub_self _),
        take_length]
      refine ⟨_, rfl, ⟨k, hoff, ?_, ?_⟩, ?_, ?_, ?_⟩
      · simpa using hlast
      · simp [hoff, add_assoc]
      · intro hnil
        simp_all
      · intro a ha
        rw [content_append_of_lt v data (by omega), hcontent]
      · intro i _
        rw [content_append]
    · push Not at hlast
      have hnext := lastChunk_of_lt (k := k) (by omega : v.buffer.length < cfg.blockSize) hlast
      rw [← hoff] at hnext
      have hleft : ¬data.length - (cfg.blockSize - v.buffer.length) = 0 := by omega
      rw [hnext, min_eq_left (by omega), if_neg hleft]
      have hchunk : (data.take (cfg.blockSize - v.buffer.length)).length =
          cfg.blockSize - v.buffer.length := by
        rw [length_take]
        omega
      have hrest : (data.drop (cfg.blockSize - v.buffer.length)).length =
          data.length - (cfg.blockSize - v.buffer.length) := length_drop
      have hblock := Nat.add_one_mul k cfg.blockSize
      have hih := ih { v with buffer := v.buffer ++ data.take (cfg.blockSize - v.buffer.length) }
        ((k + 1) * cfg.blockSize) (dataOffset + (cfg.blockSize - v.buffer.length))
        (data.drop (cfg.blockSize - v.buffer.length))
        ⟨k, hoff, by rw [length_append]; omega, by rw [length_append]; omega⟩
        (by omega) (by omega)
      unfold Written at hih
      rw [startPos_block, hrest, if_neg (by omega), add_assoc] at hih
      by_cases hundef : intLimit ≤ dataOffset + (cfg.blockSize - v.buffer.length +
          lastChunk cfg ((k + 1) * cfg.blockSize) (data.length - (cfg.blockSize - v.buffer.length)))
      · rwa [if_pos hundef] at hih ⊢
      rw [if_neg hundef] at hih ⊢
      obtain ⟨w', hok, hat, hne, hold, hnew⟩ := hih
      refine ⟨w', hok, ?_, hne, ?_, ?_⟩
      · convert hat using 1
        omega
      · intro a ha
        rw [hold a (by omega), content_append_of_lt v _ (by omega), hcontent]
      · intro i hi
        by_cases hfirst : i < cfg.blockSize - v.buffer.length
        · rw [hold _ (by omega), content_append, getD_eq_getElem?_getD,
            getElem?_take_of_lt hfirst, getD_eq_getElem?_getD]
        · have hi' := hnew (i - (cfg.blockSize - v.buffer.length)) (by omega)
          rw [getD_eq_getElem?_getD, getElem?_drop, ← getD_eq_getElem?_getD] at hi'
          convert hi' using 2 <;> omega

/-- The records are on the way to the device: the layout behind the address `e` is part of
the content. -/
structure WrittenAll (cfg : Config) (e : ℕ) (records : List Bytes) (w w' : Writer) : Prop where
  at_end : w'.At cfg (endPos cfg e records)
  buffer : w.buffer ≠ [] ∨ records ≠ [] → w'.buffer ≠ []
  kept : ∀ a < e, w'.content a = w.content a
  placed : ∀ x ∈ layout cfg e records, ∀ i < x.2.length, w'.content (x.1 + i) = x.2.getD i 0
  encoded : ∀ record ∈ records, cfg.prependHeader record = some (packet cfg record)

/-- The chunks of the packets start where `dataOffset` can count them. -/
def ShortChunks (cfg : Config) (e : ℕ) (records : List Bytes) : Prop :=
  ∀ x ∈ layout cfg e records, lastChunk cfg x.1 x.2.length < intLimit

lemma writeRecord_spec {record data : Bytes} (hw : w.At cfg e)
    (hne : record ≠ []) (hdata : cfg.prependHeader record = some data) :
    Written cfg e 0 data w (writeRecord cfg w record) := by
  have hpos := cfg.headerSize_pos
  have hlen := (cfg.prependHeader_eq record data hdata).1
  simp only [writeRecord, if_neg hne, hdata]
  exact writeLoop_spec _ w e 0 data hw (by omega) le_rfl

/-- Unless the writer throws, it either takes all the records or leaves defined behaviour. -/
lemma writeRecords_spec {records : List Bytes} (hw : w.At cfg e)
    (hne : ∀ record ∈ records, record ≠ []) (hthrow : ¬Throws (writeRecords cfg w records)) :
    (¬ShortChunks cfg e records ∧ writeRecords cfg w records = .error .undefined) ∨
      ShortChunks cfg e records ∧
        ∃ w', writeRecords cfg w records = .ok w' ∧ WrittenAll cfg e records w w' := by
  induction records generalizing w e with
  | nil =>
    refine Or.inr ⟨by simp [ShortChunks, layout], w, rfl, hw, by simp, fun _ _ => rfl, ?_, ?_⟩
    · simp [layout]
    · simp
  | cons record records ih =>
    rw [writeRecords] at hthrow ⊢
    obtain ⟨hrecord, hrest⟩ := forall_mem_cons.1 hne
    cases hdata : cfg.prependHeader record with
    | none => exact absurd (by simp [Throws, writeRecord, hrecord, hdata, Except.bind]) hthrow
    | some data =>
      have hpacket : packet cfg record = data := by simp [packet, hdata]
      have hwritten := writeRecord_spec hw hrecord hdata
      unfold Written at hwritten
      dsimp only at hwritten
      split_ifs at hwritten with hlimit hint
      · exact absurd (by simp [Throws, hwritten, Except.bind]) hthrow
      · refine Or.inl ⟨fun hshort => ?_, by simp [hwritten, Except.bind]⟩
        have := hshort (startPos cfg e, packet cfg record) (by simp [layout])
        rw [hpacket] at this
        simp only at this
        omega
      · obtain ⟨v, hok, hat, hbuf, hkept, hplaced⟩ := hwritten
        rw [hok] at hthrow ⊢
        have hlayout : layout cfg e (record :: records) = (startPos cfg e, data) ::
            layout cfg (startPos cfg e + data.length) records := by rw [layout, hpacket]
        have hfirst : ShortChunks cfg e (record :: records) ↔
            ShortChunks cfg (startPos cfg e + data.length) records := by
          simp only [ShortChunks, hlayout, forall_mem_cons]
          exact and_iff_right (by omega)
        rw [hfirst]
        refine (ih hat hrest hthrow).imp_right ?_
        rintro ⟨hshort, w', hw', hall⟩
        refine ⟨hshort, w', hw', ⟨?_, fun _ => ?_, ?_, ?_, ?_⟩⟩
        · rw [endPos, hpacket]
          exact hall.at_end
        · exact hall.buffer (Or.inl hbuf)
        · intro a ha
          rw [hall.kept a (by have := @le_startPos cfg e; omega), hkept a ha]
        · rw [hlayout, forall_mem_cons]
          refine ⟨fun i hi => ?_, hall.placed⟩
          rw [hall.kept _ (by simpa using hi), hplaced i hi]
        · rw [forall_mem_cons, hpacket]
          exact ⟨hdata, hall.encoded⟩

end Writer

/-! ## Reader -/

section Reader
variable {cfg : Config} {dev : Device}

def Reader.Loaded (cfg : Config) (dev : Device) (r : Reader) (p : ℕ) : Prop :=
  ∃ k, r.bufIndex < cfg.blockSize ∧ p = k * cfg.blockSize + r.bufIndex ∧
    r.offset = (k + 1) * cfg.blockSize ∧ r.buffer = window dev (k * cfg.blockSize) cfg.blockSize ∧
    (k + 1) * cfg.blockSize ≤ cfg.metadataSize

def Reader.At (cfg : Config) (dev : Device) (r : Reader) (e : ℕ) : Prop :=
  r.Loaded cfg dev e ∨
    r.bufIndex = cfg.blockSize ∧ r.offset = e ∧ ∃ k, e = k * cfg.blockSize

lemma init_at : (Reader.init cfg).At cfg dev 0 := Or.inr ⟨rfl, rfl, 0, (Nat.zero_mul _).symm⟩

variable {e : ℕ} {r : Reader}

lemma fillBuffer_spec (hr : r.At cfg dev e) :
    if cfg.metadataSize < blockEnd cfg (startPos cfg e + 1) then fillBuffer cfg dev r = none
    else ∃ r', fillBuffer cfg dev r = some r' ∧ r'.Loaded cfg dev (startPos cfg e) ∧
      r'.bufIndex + cfg.headerSize ≤ cfg.blockSize := by
  have hh := headerSize_le_blockSize cfg
  have hpos := cfg.headerSize_pos
  -- The next block, if the buffer has no room for a header.
  have hnext : ∀ k, r.offset = k * cfg.blockSize → cfg.blockSize < r.bufIndex + cfg.headerSize →
      if cfg.metadataSize < blockEnd cfg (k * cfg.blockSize + 1) then fillBuffer cfg dev r = none
      else ∃ r', fillBuffer cfg dev r = some r' ∧ r'.Loaded cfg dev (k * cfg.blockSize) ∧
        r'.bufIndex + cfg.headerSize ≤ cfg.blockSize := by
    intro k hoff hroom
    rw [blockEnd_eq (by omega) (by omega), fillBuffer, if_pos hroom, hoff]
    split_ifs with hlimit
    · rfl
    · refine ⟨_, rfl, ⟨k, by simp; omega, by simp, ?_, rfl, ?_⟩, by simpa using hh⟩
      · exact (Nat.add_one_mul k cfg.blockSize).symm
      · rw [Nat.add_one_mul]
        omega
  rcases hr with ⟨k, hlt, rfl, hoff, hbuf, hle⟩ | ⟨hidx, hoff, k, rfl⟩
  · rw [startPos_eq hlt.le]
    by_cases hroom : cfg.blockSize < r.bufIndex + cfg.headerSize
    · rw [if_pos hroom, ← Nat.add_one_mul]
      exact hnext (k + 1) hoff hroom
    · rw [if_neg hroom, Nat.add_assoc, blockEnd_eq (by omega) (by omega), ← Nat.add_one_mul,
        if_neg (by omega), fillBuffer, if_neg hroom]
      exact ⟨r, rfl, ⟨k, hlt, rfl, hoff, hbuf, hle⟩, by omega⟩
  · rw [startPos_block]
    exact hnext k hoff (by omega)

lemma readLoop_spec (fuel : ℕ) (r : Reader) (q dataOffset size : ℕ) (data : Bytes)
    (hr : r.Loaded cfg dev q) (hsize : 0 < size) (hfuel : size ≤ fuel) :
    if intLimit ≤ dataOffset + lastChunk cfg q size ∨ cfg.metadataSize < blockEnd cfg (q + size)
    then readLoop cfg dev fuel r dataOffset data size = none
    else ∃ r', readLoop cfg dev fuel r dataOffset data size = some (data ++ window dev q size, r') ∧
      r'.At cfg dev (q + size) := by
  induction fuel generalizing r q dataOffset size data with
  | zero => omega
  | succ fuel ih =>
    obtain ⟨k, hlt, rfl, hoff, hbuf, hle⟩ := hr
    have hmul := Nat.add_one_mul k cfg.blockSize
    have hchunk : ∀ n ≤ cfg.blockSize - r.bufIndex, (r.buffer.drop r.bufIndex).take n =
        window dev (k * cfg.blockSize + r.bufIndex) n := by
      intro n hn
      rw [hbuf, drop_window, take_window _ _ _ _ hn]
    unfold readLoop
    by_cases hint : intLimit ≤ dataOffset
    · rw [if_pos hint, if_pos (Or.inl (by omega))]
    rw [if_neg hint]
    by_cases hlast : r.bufIndex + size ≤ cfg.blockSize
    · rw [lastChunk_of_le hsize hlast, add_assoc (k * cfg.blockSize),
        blockEnd_eq (by omega) hlast, if_neg (by omega), min_eq_right (by omega),
        if_pos (Nat.sub_self _), hchunk size (by omega)]
      refine ⟨_, rfl, ?_⟩
      rcases lt_or_eq_of_le hlast with hin | hfull
      · exact Or.inl ⟨k, hin, rfl, hoff, hbuf, hle⟩
      · exact Or.inr ⟨hfull, by rw [hoff]; omega, k + 1, by omega⟩
    · push Not at hlast
      have hleft : ¬size - (cfg.blockSize - r.bufIndex) = 0 := by omega
      rw [min_eq_left (by omega), if_neg hleft, hchunk _ le_rfl]
      have hat : ({ r with bufIndex := r.bufIndex + (cfg.blockSize - r.bufIndex) } : Reader).At
          cfg dev ((k + 1) * cfg.blockSize) :=
        Or.inr ⟨by simp; omega, hoff, k + 1, rfl⟩
      have hfill := fillBuffer_spec hat
      rw [startPos_block, blockEnd_eq (by omega) (by omega)] at hfill
      have hend : (k + 1) * cfg.blockSize + cfg.blockSize ≤
          blockEnd cfg (k * cfg.blockSize + r.bufIndex + size) := blockEnd_ge (by omega)
      split_ifs at hfill with hlimit
      · rw [if_pos (Or.inr (by omega)), hfill, bind_none]
      · obtain ⟨r', hr', hloaded, -⟩ := hfill
        rw [hr', bind_some, lastChunk_of_lt hlt hlast, ← add_assoc dataOffset]
        have hsum : (k + 1) * cfg.blockSize + (size - (cfg.blockSize - r.bufIndex)) =
            k * cfg.blockSize + r.bufIndex + size := by omega
        have hih := ih r' _ (dataOffset + (cfg.blockSize - r.bufIndex))
          (size - (cfg.blockSize - r.bufIndex)) (data ++ window dev (k * cfg.blockSize + r.bufIndex)
            (cfg.blockSize - r.bufIndex)) hloaded (by omega) (by omega)
        have hwindow : window dev (k * cfg.blockSize + r.bufIndex) size =
            window dev (k * cfg.blockSize + r.bufIndex) (cfg.blockSize - r.bufIndex) ++
              window dev ((k + 1) * cfg.blockSize) (size - (cfg.blockSize - r.bufIndex)) := by
          have hadd := window_add dev (k * cfg.blockSize + r.bufIndex) (cfg.blockSize - r.bufIndex)
            (size - (cfg.blockSize - r.bufIndex))
          convert hadd using 3 <;> omega
        rwa [hsum, append_assoc, ← hwindow] at hih

lemma blockEnd_mono {a b : ℕ} (h : a ≤ b) : blockEnd cfg a ≤ blockEnd cfg b :=
  Nat.mul_le_mul_right _ (Nat.div_le_div_right (by omega))

/-- The rest of the buffer, from which the header is parsed. -/
lemma rest_of_loaded {p : ℕ} (hr : r.Loaded cfg dev p) :
    r.buffer.drop r.bufIndex = window dev p (blockEnd cfg (p + 1) - p) := by
  obtain ⟨k, hlt, rfl, -, hbuf, -⟩ := hr
  rw [hbuf, drop_window, add_assoc _ _ 1, blockEnd_eq (by omega) (by omega)]
  congr 1
  omega

lemma readRecord_of_window {record data : Bytes} (hr : r.At cfg dev e)
    (hdata : cfg.prependHeader record = some data)
    (hwindow : window dev (startPos cfg e) data.length = data)
    (hchunk : lastChunk cfg (startPos cfg e) data.length < intLimit)
    (hend : blockEnd cfg (startPos cfg e + data.length) ≤ cfg.metadataSize) :
    ∃ r', readRecord cfg dev r = some (record, r') ∧
      r'.At cfg dev (startPos cfg e + data.length) := by
  obtain ⟨hlen, hdrop⟩ := cfg.prependHeader_eq record data hdata
  have hpos := cfg.headerSize_pos
  have hblock := @blockEnd_mono cfg (startPos cfg e + 1) (startPos cfg e + data.length) (by omega)
  have hfill := fillBuffer_spec hr
  rw [if_neg (by omega)] at hfill
  obtain ⟨v, hv, hloaded, hroom⟩ := hfill
  generalize startPos cfg e = p at *
  -- The header is the first part of the rest of the block.
  have hrest : v.buffer.drop v.bufIndex = data.take cfg.headerSize ++
      window dev (p + cfg.headerSize) (blockEnd cfg (p + 1) - p - cfg.headerSize) := by
    have hheader : data.take cfg.headerSize = window dev p cfg.headerSize := by
      rw [← hwindow, take_window _ _ _ _ (by omega)]
    have hin : p + cfg.headerSize ≤ blockEnd cfg (p + 1) := by
      obtain ⟨k, hlt, rfl, -⟩ := hloaded
      rw [add_assoc _ _ 1, blockEnd_eq (by omega) (by omega)]
      omega
    rw [rest_of_loaded hloaded, hheader, ← window_add]
    congr 1
    omega
  have hloop := readLoop_spec (cfg.headerSize + record.length) v p 0
    (cfg.headerSize + record.length) [] hloaded (by omega) le_rfl
  rw [← hlen, zero_add, if_neg (by omega), nil_append, hwindow] at hloop
  obtain ⟨r', hloop, hat⟩ := hloop
  refine ⟨r', ?_, hat⟩
  simp only [readRecord, hv, bind_some]
  rw [hrest, if_pos (cfg.header_valid _ _ _ hdata), cfg.header_length _ _ _ hdata, ← hlen, hloop]
  simp [cfg.data_valid _ _ hdata, hdrop]

lemma window_of_readRecord {r' : Reader} {record : Bytes} (hr : r.At cfg dev e)
    (hread : readRecord cfg dev r = some (record, r')) :
    r'.At cfg dev (startPos cfg e + (cfg.headerSize + record.length)) ∧
      blockEnd cfg (startPos cfg e + (cfg.headerSize + record.length)) ≤ cfg.metadataSize ∧
      cfg.validateRecordHeader (window dev (startPos cfg e)
        (blockEnd cfg (startPos cfg e + 1) - startPos cfg e)) = true ∧
      window dev (startPos cfg e + cfg.headerSize) record.length = record := by
  have hpos := cfg.headerSize_pos
  have hfill := fillBuffer_spec hr
  simp only [readRecord, bind_eq_some_iff] at hread
  obtain ⟨v, hv, hread⟩ := hread
  rw [hv] at hfill
  split_ifs at hfill with hlimit
  obtain ⟨v', hv', hloaded, -⟩ := hfill
  cases hv'
  rw [rest_of_loaded hloaded] at hread
  generalize startPos cfg e = p at *
  generalize window dev p (blockEnd cfg (p + 1) - p) = rest at *
  split_ifs at hread with hheader
  obtain ⟨⟨data, w⟩, hloop, hread⟩ := bind_eq_some_iff.1 hread
  have hspec := readLoop_spec (cfg.headerSize + cfg.dataLength rest) v p 0
    (cfg.headerSize + cfg.dataLength rest) [] hloaded (by omega) le_rfl
  rw [hloop] at hspec
  split_ifs at hspec with hbound
  obtain ⟨w', hspec, hat⟩ := hspec
  cases hspec
  split_ifs at hread with hvalid
  cases hread
  rw [nil_append, drop_window, length_window, Nat.add_sub_cancel_left]
  exact ⟨hat, by omega, hheader, rfl⟩

lemma readRecords_of_windows {records : List Bytes} (hr : r.At cfg dev e)
    (hencoded : ∀ record ∈ records, cfg.prependHeader record = some (packet cfg record))
    (hwindow : ∀ x ∈ layout cfg e records, window dev x.1 x.2.length = x.2)
    (hshort : ShortChunks cfg e records)
    (hend : blockEnd cfg (endPos cfg e records) ≤ cfg.metadataSize) :
    readRecords cfg dev records.length r = some records := by
  induction records generalizing r e with
  | nil => rfl
  | cons record records ih =>
    obtain ⟨hfirst, hrest⟩ := forall_mem_cons.1 hencoded
    rw [layout, forall_mem_cons] at hwindow
    rw [ShortChunks, layout, forall_mem_cons] at hshort
    have hnext := le_trans (blockEnd_mono (endPos_ge (startPos cfg e + (packet cfg record).length)
      records)) hend
    obtain ⟨r', hread, hat⟩ := readRecord_of_window hr hfirst hwindow.1 hshort.1 hnext
    rw [length_cons, readRecords, hread, bind_some, ih hat hrest hwindow.2 hshort.2 hend]
    rfl

/-- The conditions on the device under which a packet is read as a record. -/
structure Readable (cfg : Config) (dev : Device) (x : ℕ × Bytes) : Prop where
  blockEnd_le : blockEnd cfg (x.1 + x.2.length) ≤ cfg.metadataSize
  header : cfg.validateRecordHeader (window dev x.1 (blockEnd cfg (x.1 + 1) - x.1)) = true
  bytes : window dev (x.1 + cfg.headerSize) (x.2.length - cfg.headerSize) =
    x.2.drop cfg.headerSize

lemma readable_of_readRecords {records : List Bytes} (hr : r.At cfg dev e)
    (hencoded : ∀ record ∈ records, cfg.prependHeader record = some (packet cfg record))
    (hread : readRecords cfg dev records.length r = some records) :
    ∀ x ∈ layout cfg e records, Readable cfg dev x := by
  induction records generalizing r e with
  | nil => simp [layout]
  | cons record records ih =>
    obtain ⟨hfirst, hrest⟩ := forall_mem_cons.1 hencoded
    obtain ⟨hlen, hdrop⟩ := cfg.prependHeader_eq _ _ hfirst
    simp only [length_cons, readRecords, bind_eq_some_iff, map_eq_some_iff] at hread
    obtain ⟨⟨read, r'⟩, hone, tail, htail, hcons⟩ := hread
    obtain ⟨rfl, rfl⟩ := cons.inj hcons
    obtain ⟨hat, hblock, hheader, hbytes⟩ := window_of_readRecord hr hone
    rw [← hlen] at hat hblock
    rw [layout, forall_mem_cons]
    refine ⟨⟨hblock, hheader, ?_⟩, ih hat hrest htail⟩
    rw [hdrop, hlen, Nat.add_sub_cancel_left]
    exact hbytes

end Reader

/-! ## Destructor -/

section RoundTrip
variable {cfg : Config}

lemma blockEnd_block (k : ℕ) : blockEnd cfg (k * cfg.blockSize) = k * cfg.blockSize := by
  have hpos := blockSize_pos cfg
  rw [blockEnd, Nat.add_sub_assoc hpos, Nat.mul_comm k, Nat.mul_add_div hpos,
    div_eq_of_lt (by omega), add_zero, mul_comm]

variable {e : ℕ} {w : Writer} {records : List Bytes}

section
variable (hw : w.At cfg e) (hbuf : w.buffer ≠ [])
include hw hbuf

lemma blockEnd_of_at :
    blockEnd cfg e = w.offset + cfg.blockSize ∧ e ≤ w.offset + cfg.blockSize := by
  obtain ⟨k, hoff, hlen, rfl⟩ := hw
  rw [blockEnd_eq (length_pos_iff.2 hbuf) hlen, hoff]
  exact ⟨rfl, by omega⟩

/-- With room behind the last block, the destructor writes what is left. -/
lemma destroy_of_lt (hlt : blockEnd cfg e < cfg.metadataSize) {a : ℕ} (ha : a < e) :
    destroy cfg w a = w.content a := by
  obtain ⟨hend, hle⟩ := blockEnd_of_at hw hbuf
  have hflush : (flushBuffer cfg w).content a = (flushBuffer cfg w).dev a :=
    if_pos (show a < w.offset + cfg.blockSize by omega)
  have hpos := length_pos_iff.2 hbuf
  have hlen : w.buffer.length ≤ cfg.blockSize := by
    obtain ⟨k, -, hlen, -⟩ := hw
    exact hlen
  rw [← content_flushBuffer hlen, hflush]
  simp only [destroy, if_pos (show 0 < w.buffer.length ∧ w.offset + cfg.blockSize <
    cfg.metadataSize by omega)]
  split_ifs
  · exact if_neg (show ¬(w.offset + cfg.blockSize ≤ a ∧ _) by omega)
  · rfl

lemma destroy_of_eq (heq : blockEnd cfg e = cfg.metadataSize) {a : ℕ} (ha : a < cfg.metadataSize) :
    destroy cfg w a = if a < cfg.metadataSize - cfg.blockSize then w.content a else 0 := by
  obtain ⟨hend, -⟩ := blockEnd_of_at hw hbuf
  have hoff : cfg.metadataSize - cfg.blockSize = w.offset := by omega
  simp only [destroy, if_neg (show ¬(0 < w.buffer.length ∧ w.offset + cfg.blockSize <
    cfg.metadataSize) by omega), if_pos (show w.offset + cfg.blockSize ≤ cfg.metadataSize by omega)]
  rw [hoff, writeBlock]
  by_cases hlow : a < w.offset
  · rw [if_neg (by omega), if_pos hlow, Writer.content, if_pos hlow]
  · rw [if_pos (by omega), if_neg hlow, getD_nil]

end

/-! ## Round trip -/

/-- The packets survive the destructor: there is another block behind them, or what they
have in the last block of the metadata is zero. -/
def TailKept (cfg : Config) (records : List Bytes) : Prop :=
  blockEnd cfg (endPos cfg 0 records) < cfg.metadataSize ∨
    blockEnd cfg (endPos cfg 0 records) = cfg.metadataSize ∧
      ∀ x ∈ layout cfg 0 records, ∀ i < x.2.length,
        cfg.metadataSize - cfg.blockSize ≤ x.1 + i → x.2.getD i 0 = 0

lemma layout_le : ∀ x ∈ layout cfg e records, x.1 + x.2.length ≤ endPos cfg e records := by
  induction records generalizing e with
  | nil => simp [layout]
  | cons record records ih =>
    rw [layout, forall_mem_cons]
    exact ⟨endPos_ge _ _, ih⟩

/-- A header lies within one block. -/
lemma header_in_block :
    ∀ x ∈ layout cfg e records, x.1 + cfg.headerSize ≤ blockEnd cfg (x.1 + 1) := by
  induction records generalizing e with
  | nil => simp [layout]
  | cons record records ih =>
    rw [layout, forall_mem_cons]
    refine ⟨?_, ih⟩
    have hh := headerSize_le_blockSize cfg
    have hmod := mod_lt e (blockSize_pos cfg)
    have he := div_add_mod' e cfg.blockSize
    have hstart := @startPos_eq cfg (e / cfg.blockSize) _ hmod.le
    rw [he] at hstart
    split_ifs at hstart with hroom
    · rw [hstart, ← add_one_mul, blockEnd_eq (by omega) (by omega)]
      omega
    · have hblock := @blockEnd_eq cfg (e / cfg.blockSize) (e % cfg.blockSize + 1) (by omega) hmod
      rw [← add_assoc, he] at hblock
      rw [hstart, hblock]
      omega

lemma exists_endPos (hne : records ≠ []) :
    ∃ x ∈ layout cfg e records, x.1 + x.2.length = endPos cfg e records := by
  induction records generalizing e with
  | nil => exact absurd rfl hne
  | cons record records ih =>
    by_cases hrest : records = []
    · subst hrest
      exact ⟨_, mem_cons_self, rfl⟩
    · obtain ⟨x, hx, hend⟩ := ih hrest
      exact ⟨x, mem_cons_of_mem _ hx, hend⟩

lemma writer_at_zero (dev : Device) : (⟨dev, 0, []⟩ : Writer).At cfg 0 :=
  ⟨0, (zero_mul _).symm, zero_le _, by simp⟩

lemma roundTrips_of_tailKept (hne : ∀ record ∈ records, record ≠ [])
    (hthrow : ∀ dev, ¬Throws (writeRecords cfg ⟨dev, 0, []⟩ records))
    (hshort : ShortChunks cfg 0 records) (htail : TailKept cfg records) :
    RoundTrips cfg records := by
  intro dev
  rcases writeRecords_spec (writer_at_zero dev) hne (hthrow dev) with ⟨hlong, -⟩ | ⟨-, w, hw, hall⟩
  · exact absurd hshort hlong
  refine ⟨w, hw, ?_⟩
  by_cases hnil : records = []
  · subst hnil
    rfl
  have hbuf := hall.buffer (Or.inr hnil)
  refine readRecords_of_windows init_at hall.encoded (fun x hx => ?_) hshort
    (htail.elim le_of_lt fun h => h.1.le)
  rw [window_eq_iff]
  intro i hi
  have hle := layout_le x hx
  rcases htail with hlt | ⟨heq, hzero⟩
  · rw [destroy_of_lt hall.at_end hbuf hlt (by omega), hall.placed x hx i hi]
  · have hmeta := (blockEnd_of_at hall.at_end hbuf).2
    rw [← (blockEnd_of_at hall.at_end hbuf).1, heq] at hmeta
    rw [destroy_of_eq hall.at_end hbuf heq (by omega)]
    split_ifs with hlow
    · exact hall.placed x hx i hi
    · exact (hzero x hx i hi (by omega)).symm

/-- If the last block of the metadata is zero, then a packet that can be read from the device
has only zeros there. -/
lemma zero_of_readable {dev : Device} {k : ℕ}
    (hmeta : cfg.metadataSize = k * cfg.blockSize + cfg.blockSize)
    (hzero : ∀ a, k * cfg.blockSize ≤ a → a < cfg.metadataSize → dev a = 0) (x : ℕ × Bytes)
    (hx : x ∈ layout cfg e records) (hread : Readable cfg dev x) (i : ℕ) (hi : i < x.2.length)
    (hhigh : k * cfg.blockSize ≤ x.1 + i) : x.2.getD i 0 = 0 := by
  have hend := hread.blockEnd_le
  have hle := @le_blockEnd cfg (x.1 + x.2.length)
  -- A header in the last block would be zero, and not valid.
  have hstart : x.1 < k * cfg.blockSize := by
    by_contra hge
    have hone := @blockEnd_mono cfg (x.1 + 1) (x.1 + x.2.length) (by omega)
    have hheader := hread.header
    rw [window_zero fun j hj => hzero _ (by omega) (by omega), cfg.zeros_invalid] at hheader
    cases hheader
  have hin : x.1 + cfg.headerSize ≤ k * cfg.blockSize := by
    have hmono := @blockEnd_mono cfg (x.1 + 1) (k * cfg.blockSize) hstart
    rw [blockEnd_block] at hmono
    exact le_trans (header_in_block x hx) hmono
  have hbytes := hread.bytes
  rw [← length_drop, window_eq_iff] at hbytes
  have hbyte := hbytes (i - cfg.headerSize) (by rw [length_drop]; omega)
  rw [hzero _ (by omega) (by omega), getD_eq_getElem?_getD, getElem?_drop,
    ← getD_eq_getElem?_getD, Nat.add_sub_cancel' (by omega)] at hbyte
  exact hbyte.symm

lemma tailKept_of_roundTrips (hne : ∀ record ∈ records, record ≠ [])
    (hthrow : ∀ dev, ¬Throws (writeRecords cfg ⟨dev, 0, []⟩ records))
    (hround : RoundTrips cfg records) : ShortChunks cfg 0 records ∧ TailKept cfg records := by
  let dev : Device := fun _ => 0
  obtain ⟨w, hw, hread⟩ := hround dev
  rcases writeRecords_spec (writer_at_zero dev) hne (hthrow dev) with
    ⟨-, herr⟩ | ⟨hshort, w', hw', hall⟩
  · rw [hw] at herr
    cases herr
  obtain rfl : w = w' := Except.ok.inj (hw.symm.trans hw')
  refine ⟨hshort, ?_⟩
  by_cases hnil : records = []
  · subst hnil
    have hzero := @blockEnd_block cfg 0
    rw [zero_mul] at hzero
    simp only [TailKept, endPos, hzero, layout]
    rcases Nat.eq_zero_or_pos cfg.metadataSize with h | h
    · exact Or.inr ⟨h.symm, by simp⟩
    · exact Or.inl h
  have hbuf := hall.buffer (Or.inr hnil)
  have hreadable := readable_of_readRecords init_at hall.encoded hread
  obtain ⟨last, hlast, hend⟩ := @exists_endPos cfg 0 _ hnil
  have hle := (hreadable last hlast).blockEnd_le
  rw [hend] at hle
  refine (lt_or_eq_of_le hle).imp_right fun heq => ⟨heq, fun x hx i hi hhigh => ?_⟩
  have hoff := (blockEnd_of_at hall.at_end hbuf).1
  obtain ⟨k, hk, -, -⟩ := hall.at_end
  refine zero_of_readable (k := k) (by omega) (fun a hlow hlt => ?_) x hx (hreadable x hx) i hi
    (by omega)
  rw [destroy_of_eq hall.at_end hbuf heq hlt, if_neg (by omega)]

end RoundTrip

/-! ## A format with short records -/

def shortFormat : RecordFormat where
  headerSize := 2
  prependHeader record :=
    if record.length < 256 then some (1 :: UInt8.ofNat record.length :: record) else none
  validateRecordHeader bytes := bytes.head? = some 1
  dataLength bytes := (bytes.getD 1 0).toNat
  validateRecordData bytes := bytes.head? = some 1
  headerSize_pos := by decide
  prependHeader_eq := by
    intro r b h
    split_ifs at h
    cases h
    simp
    omega
  header_valid := by
    intro r b rest h
    split_ifs at h
    cases h
    simp
  header_length := by
    intro r b rest h
    split_ifs at h with hlen
    cases h
    simp
    omega
  data_valid := by
    intro r b h
    split_ifs at h
    cases h
    simp
  zeros_invalid := by
    intro n
    cases n <;> simp [List.replicate_succ]

def shortConfig (metadataSize : ℕ) : Config where
  toRecordFormat := shortFormat
  ioAlignmentSize := 512
  metadataSize := metadataSize
  headerSize_le := by decide

lemma writeRecords_short (metadataSize : ℕ) (hsize : 3 ≤ metadataSize) (dev : Device) :
    writeRecords (shortConfig metadataSize) ⟨dev, 0, []⟩ [[7]] = .ok ⟨dev, 0, [1, 1, 7]⟩ := by
  have hroom : makeRoom (shortConfig metadataSize) ⟨dev, 0, []⟩ = ⟨dev, 0, []⟩ := rfl
  have hsize' : ¬metadataSize < 3 := by omega
  change (writeLoop (shortConfig metadataSize) 3 ⟨dev, 0, []⟩ 0 [1, 1, 7]).bind _ = _
  unfold writeLoop
  exact congrArg (Except.bind · _) (if_neg hsize')

/-! ## Main result -/

/-- The destructor loses the last block if it ends the metadata, although `writeRecord` has
accepted what is in it. -/
theorem roundTrips_iff (cfg : Config) (records : List Bytes) (hne : ∀ record ∈ records, record ≠ [])
    (hthrow : ∀ dev, ¬Throws (writeRecords cfg ⟨dev, 0, []⟩ records)) :
    RoundTrips cfg records ↔ ShortChunks cfg 0 records ∧ TailKept cfg records :=
  ⟨tailKept_of_roundTrips hne hthrow, fun h => roundTrips_of_tailKept hne hthrow h.1 h.2⟩

theorem roundTrips_spare_block :
    (∀ dev, ¬Throws (writeRecords (shortConfig 8192) ⟨dev, 0, []⟩ [[7]])) ∧
      RoundTrips (shortConfig 8192) [[7]] := by
  have hthrow : ∀ dev, ¬Throws (writeRecords (shortConfig 8192) ⟨dev, 0, []⟩ [[7]]) := by
    intro dev
    rw [writeRecords_short 8192 (by decide)]
    simp [Throws]
  refine ⟨hthrow, (roundTrips_iff _ _ (by decide) hthrow).2 ⟨?_, Or.inl ?_⟩⟩
  · unfold ShortChunks
    decide
  · decide

/-- One record in the only block of the metadata is lost. -/
theorem last_block_lost : (∀ dev, ¬Throws (writeRecords (shortConfig 4096) ⟨dev, 0, []⟩ [[7]])) ∧
      ¬RoundTrips (shortConfig 4096) [[7]] := by
  have hthrow : ∀ dev, ¬Throws (writeRecords (shortConfig 4096) ⟨dev, 0, []⟩ [[7]]) := by
    intro dev
    rw [writeRecords_short 4096 (by decide)]
    simp [Throws]
  refine ⟨hthrow, fun hround => ?_⟩
  rcases (tailKept_of_roundTrips (by decide) hthrow hround).2 with hlt | ⟨-, hzero⟩
  · exact absurd hlt (by decide)
  · exact absurd (hzero _ mem_cons_self 0 (by decide) (by decide)) (by decide)

end HybridCache.RecordIO

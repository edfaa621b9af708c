import Mathlib.Tactic

/-!
# Metadata records on a device

Records are packed into blocks. A record is preceded by a header and may span several
blocks, but a header lies within one block: if a block has no room for it, then the rest
of the block is zero. The writer keeps the bytes of the last block until that block is
full or the writer is destroyed.

The record format is a library of its own and appears here with what the code relies on.
A device is a function from addresses, and its reads and writes succeed. A writer that has
thrown is not used again, so its state is left out.
-/
namespace HybridCache.RecordIO

abbrev Bytes := List UInt8
abbrev Device := ℕ → UInt8

/-- `folly::recordio_helpers`. `prependHeader` throws for a record whose length does not fit
into the header. A block of zeros is no header, which marks the end of the metadata. -/
structure RecordFormat where
  headerSize : ℕ
  prependHeader : Bytes → Option Bytes
  validateRecordHeader : Bytes → Bool
  dataLength : Bytes → ℕ
  validateRecordData : Bytes → Bool
  headerSize_pos : 0 < headerSize
  prependHeader_eq : ∀ r b, prependHeader r = some b →
    b.length = headerSize + r.length ∧ b.drop headerSize = r
  header_valid : ∀ r b rest, prependHeader r = some b →
    validateRecordHeader (b.take headerSize ++ rest) = true
  header_length : ∀ r b rest, prependHeader r = some b →
    dataLength (b.take headerSize ++ rest) = r.length
  data_valid : ∀ r b, prependHeader r = some b → validateRecordData b = true
  zeros_invalid : ∀ n, validateRecordHeader (List.replicate n 0) = false

def kBlockSizeDefault : ℕ := 4096

def blockSizeFor (ioAlignmentSize : ℕ) : ℕ :=
  if kBlockSizeDefault ≤ ioAlignmentSize then ioAlignmentSize else kBlockSizeDefault

structure Config extends RecordFormat where
  ioAlignmentSize : ℕ
  metadataSize : ℕ
  headerSize_le : headerSize ≤ blockSizeFor ioAlignmentSize

def Config.blockSize (cfg : Config) : ℕ := blockSizeFor cfg.ioAlignmentSize

/-- The bytes of a device from an address on. -/
def window (dev : Device) (a n : ℕ) : Bytes := (List.range n).map fun i => dev (a + i)

/-- Write one block, with zeros behind the given bytes. -/
def writeBlock (cfg : Config) (dev : Device) (offset : ℕ) (buffer : Bytes) : Device :=
  fun a => if offset ≤ a ∧ a < offset + cfg.blockSize then buffer.getD (a - offset) 0 else dev a

/-! ## Writer -/

/-- The buffer holds the first `bufIndex_` bytes of the block. -/
structure Writer where
  dev : Device
  offset : ℕ
  buffer : Bytes

inductive Failure
  | invalidArgument
  | metadataLimit
  /-- An access in front of the data, after `dataOffset` has overflowed. -/
  | undefined
  deriving DecidableEq, Repr

def flushBuffer (cfg : Config) (w : Writer) : Writer :=
  ⟨writeBlock cfg w.dev w.offset w.buffer, w.offset + cfg.blockSize, []⟩

/-- The buffer is flushed if it has no room for a header. -/
def makeRoom (cfg : Config) (w : Writer) : Writer :=
  if cfg.blockSize < w.buffer.length + cfg.headerSize then flushBuffer cfg w else w

/-- `dataOffset` is a signed 32-bit integer. -/
def intLimit : ℕ := 2 ^ 31

/-- The loop of `writeRecord`, from a chunk of the record on. -/
def writeLoop (cfg : Config) : ℕ → Writer → ℕ → Bytes → Except Failure Writer
  | 0, _, _, _ => .error .undefined
  | fuel + 1, w, dataOffset, data =>
    let w' := makeRoom cfg w
    if cfg.metadataSize < w'.offset + w'.buffer.length + data.length then .error .metadataLimit
    else if intLimit ≤ dataOffset then .error .undefined
    else
      let cpBytes := min (cfg.blockSize - w'.buffer.length) data.length
      let w'' : Writer := { w' with buffer := w'.buffer ++ data.take cpBytes }
      if data.length - cpBytes = 0 then .ok w''
      else writeLoop cfg fuel w'' (dataOffset + cpBytes) (data.drop cpBytes)

def writeRecord (cfg : Config) (w : Writer) (record : Bytes) : Except Failure Writer :=
  if record = [] then .ok w
  else
    match cfg.prependHeader record with
    | none => .error .invalidArgument
    | some data => writeLoop cfg data.length w 0 data

def writeRecords (cfg : Config) : Writer → List Bytes → Except Failure Writer
  | w, [] => .ok w
  | w, record :: records => (writeRecord cfg w record).bind fun w' => writeRecords cfg w' records

/-- The destructor: the last bytes are written, and a block of zeros. -/
def destroy (cfg : Config) (w : Writer) : Device :=
  let w' := if 0 < w.buffer.length ∧ w.offset + cfg.blockSize < cfg.metadataSize then
    flushBuffer cfg w else w
  if w'.offset + cfg.blockSize ≤ cfg.metadataSize then writeBlock cfg w'.dev w'.offset [] else w'.dev

/-! ## Reader -/

structure Reader where
  offset : ℕ
  bufIndex : ℕ
  buffer : Bytes

def Reader.init (cfg : Config) : Reader := ⟨0, cfg.blockSize, []⟩

/-- The next block is read if the rest of the buffer has no room for a header. -/
def fillBuffer (cfg : Config) (dev : Device) (r : Reader) : Option Reader :=
  if cfg.blockSize < r.bufIndex + cfg.headerSize then
    if cfg.metadataSize < r.offset + cfg.blockSize then none
    else some ⟨r.offset + cfg.blockSize, 0, window dev r.offset cfg.blockSize⟩
  else some r

/-- The loop of `readRecord` from a chunk of the record on, when its size is known. -/
def readLoop (cfg : Config) (dev : Device) :
    ℕ → Reader → ℕ → Bytes → ℕ → Option (Bytes × Reader)
  | 0, _, _, _, _ => none
  | fuel + 1, r, dataOffset, data, size =>
    if intLimit ≤ dataOffset then none
    else
      let cpSize := min (cfg.blockSize - r.bufIndex) size
      let data' := data ++ (r.buffer.drop r.bufIndex).take cpSize
      let r' : Reader := { r with bufIndex := r.bufIndex + cpSize }
      if size - cpSize = 0 then some (data', r')
      else (fillBuffer cfg dev r').bind fun r'' =>
        readLoop cfg dev fuel r'' (dataOffset + cpSize) data' (size - cpSize)

def readRecord (cfg : Config) (dev : Device) (r : Reader) : Option (Bytes × Reader) :=
  (fillBuffer cfg dev r).bind fun r' =>
    let rest := r'.buffer.drop r'.bufIndex
    if cfg.validateRecordHeader rest then
      let size := cfg.headerSize + cfg.dataLength rest
      (readLoop cfg dev size r' 0 [] size).bind fun res =>
        if cfg.validateRecordData res.1 then some (res.1.drop cfg.headerSize, res.2) else none
    else none

def readRecords (cfg : Config) (dev : Device) : ℕ → Reader → Option (List Bytes)
  | 0, _ => some []
  | n + 1, r => (readRecord cfg dev r).bind fun res =>
    (readRecords cfg dev n res.2).map fun records => res.1 :: records

/-- The records are written to a device whatever it held before, the writer is destroyed
and the records are read back. -/
def RoundTrips (cfg : Config) (records : List Bytes) : Prop :=
  ∀ dev, ∃ w, writeRecords cfg ⟨dev, 0, []⟩ records = .ok w ∧
    readRecords cfg (destroy cfg w) records.length (Reader.init cfg) = some records

/-- One of the calls of `writeRecord` throws. -/
def Throws (result : Except Failure Writer) : Prop :=
  result = .error .invalidArgument ∨ result = .error .metadataLimit

end HybridCache.RecordIO

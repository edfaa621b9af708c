import HybridCache.RingBuffer
import HybridCache.Transition

/-!
# The consistency checker of the benchmark

Every operation on a key logs a record at its begin and one at its end; the two records
hold each other's index. When a lookup that found a value ends, the checker reads the
log backwards to decide whether the value can be explained. The log is a ring buffer:
when it is full, its oldest record is dropped.

The time and thread of a record, which only serve for printing, are left out.
-/
namespace HybridCache.ValueHistory

inductive Event
  | kBeginGet
  | kBeginMiss
  | kBeginSet
  | kBeginDelete
  | kEndGet
  | kEndMiss
  | kEndSet
  | kEndDelete
  deriving DecidableEq, Repr

def isWriteEnd : Event → Bool
  | .kEndMiss | .kEndSet | .kEndDelete => true
  | _ => false

def isEnd : Event → Bool
  | .kEndGet | .kEndMiss | .kEndSet | .kEndDelete => true
  | _ => false

def hasValue : Event → Bool
  | .kBeginSet | .kEndGet | .kEndSet => true
  | _ => false

def toString : Event → String
  | .kBeginGet | .kEndGet => "GET"
  | .kBeginMiss | .kEndMiss => "MISS"
  | .kBeginSet | .kEndSet => "SET"
  | .kBeginDelete | .kEndDelete => "DELETE"

/-- A record of a set; it holds a value to compare with. -/
def isSet (e : Event) : Bool := decide (e = .kBeginSet ∨ e = .kEndSet)

/-- A record of a lookup that found a value or has not ended. -/
def isGet (e : Event) : Bool := decide (e = .kBeginGet ∨ e = .kEndGet)

/-- The records hold indices and the callers get them as 32-bit numbers. -/
def u32 (n : ℕ) : ℕ := n % 2 ^ 32

/-- If `other` is the index of the record itself, the operation has no other record yet. -/
structure LogRecord where
  event : Event := .kBeginGet
  other : ℕ := 0
  value : ℕ := 0
  deriving DecidableEq, Repr

def kCapacity : ℕ := 480
def kHistoryContext : ℕ := 10

structure History where
  log : RingBuffer LogRecord kCapacity
  openSetCount : ℕ

def History.empty : History := ⟨⟨fun _ => {}, 0, 0⟩, 0⟩

/-- What `EventStream::event` is called with. -/
structure Report where
  index : ℕ
  other : ℕ
  eventName : String
  isEnd : Bool
  hasValue : Bool
  value : ℕ
  deriving DecidableEq, Repr

namespace History

def cleanupIfFull (s : History) : History :=
  if s.log.size = kCapacity then
    match s.log.read with
    | some (_, log) => { s with log := log }
    | none => s
  else s

/-- The part that the three functions `begin...` share. The result is the index of the record,
or nothing if the buffer overflows. -/
def beginOperation (s : History) (event : Event) (value opened : ℕ) : Option ℕ × History :=
  let s := s.cleanupIfFull
  match s.log.write { event := event, other := u32 s.log.last, value := value } with
  | some (index, log) => (some (u32 index), { log := log, openSetCount := s.openSetCount + opened })
  | none => (none, { s with openSetCount := s.openSetCount + opened })

def beginGet (s : History) : Option ℕ × History := s.beginOperation .kBeginGet 0 0

def beginSet (s : History) (value : ℕ) : Option ℕ × History :=
  s.beginOperation .kBeginSet value 1

def beginDelete (s : History) : Option ℕ × History := s.beginOperation .kBeginDelete 0 0

/-- The part that the three functions `end...` share: the index of the new record and the begin
record with its link, or nothing if an index is out of range. -/
def endOperation (s : History) (beginIdx : ℕ) (end_ : LogRecord → LogRecord) :
    Option (ℕ × LogRecord) × History :=
  let s := s.cleanupIfFull
  match s.log.getAt beginIdx with
  | none => (none, s)
  | some begin_ =>
    match s.log.write (end_ begin_) with
    | none => (none, s)
    | some (pos, log) =>
      let linked := { begin_ with other := u32 pos }
      match log.setAt beginIdx linked with
      | none => (none, { s with log := log })
      | some log => (some (pos, linked), { s with log := log })

/-- The loop of `findInOrderSetBegin`. -/
def findLoop (s : History) : ℕ → Option ℕ
  | 0 => some s.log.first
  | ri + 1 =>
    if s.log.first < ri + 1 then
      (s.log.getAt ri).bind fun r =>
        if isWriteEnd r.event = true then some r.other else s.findLoop ri
    else some s.log.first

def findInOrderSetBegin (s : History) (endGetIdx : ℕ) : Option ℕ :=
  (s.log.getAt endGetIdx).bind fun r => s.findLoop r.other

/-- The loop of `isConsistent`, which runs down from `i`. -/
def consistentLoop (s : History) (value beginGetIdx beginSetIdx : ℕ) :
    ℕ → ℕ → ℕ → Option Bool
  | 0, _, _ => some false
  | i + 1, setIdxMin, counter =>
    if s.log.first < i + 1 ∧ (beginSetIdx < i + 1 ∨ counter < s.openSetCount) then
      (s.log.getAt i).bind fun r =>
        let counter := if r.event = .kBeginSet ∧ r.other = i then counter + 1 else counter
        if i ≠ r.other ∧ i < setIdxMin then
          s.consistentLoop value beginGetIdx beginSetIdx i setIdxMin counter
        else if isSet r.event = true ∧ r.value = value then some true
        else if isSet r.event = false ∧ i = s.log.first ∧ isGet r.event = true then some true
        else
          let setIdxMin := if isWriteEnd r.event = true ∧ i < beginGetIdx then
            max (u32 setIdxMin) r.other else setIdxMin
          s.consistentLoop value beginGetIdx beginSetIdx i setIdxMin counter
    else some false

/-- The records that are printed when the value cannot be explained. -/
def report (s : History) (beginSetIdx endGetIdx : ℕ) : Option (List Report) :=
  let historyBeginIdx := max beginSetIdx (s.log.first + kHistoryContext) - kHistoryContext
  (List.range (endGetIdx - historyBeginIdx + 1)).mapM fun i =>
    (s.log.getAt (endGetIdx - i)).map fun r =>
      { index := i, other := endGetIdx - r.other, eventName := toString r.event,
        isEnd := isEnd r.event, hasValue := hasValue r.event, value := r.value }

def isConsistent (s : History) (endGetIdx : ℕ) (es : Bool) : Option (Bool × List Report) :=
  (s.log.getAt endGetIdx).bind fun r =>
    (s.findInOrderSetBegin endGetIdx).bind fun beginSetIdx =>
      (s.consistentLoop r.value r.other beginSetIdx endGetIdx s.log.first 0).bind fun consistent =>
        if consistent = false ∧ es = true then
          (s.report beginSetIdx endGetIdx).map fun events => (false, events)
        else some (consistent, [])

/-- A lookup without a value is turned into a miss, which counts as a deletion. -/
def endGet (s : History) (beginIdx value : ℕ) (found es : Bool) :
    Option (Bool × List Report) × History :=
  let record : LogRecord :=
    { event := .kEndGet, other := beginIdx, value := if found = true then value else 0 }
  match s.endOperation beginIdx fun _ => record with
  | (none, s) => (none, s)
  | (some (pos, begin_), s) =>
    if found = true then (s.isConsistent pos es, s)
    else
      match s.log.setAt pos { record with event := .kEndMiss } with
      | none => (none, s)
      | some log =>
        match log.setAt beginIdx { begin_ with event := .kBeginMiss } with
        | none => (none, { s with log := log })
        | some log => (some (true, []), { s with log := log })

def endSet (s : History) (beginIdx : ℕ) : Option Unit × History :=
  match s.endOperation beginIdx fun begin_ =>
    { event := .kEndSet, other := beginIdx, value := begin_.value } with
  | (none, s) => (none, s)
  | (some _, s) => (some (), { s with openSetCount := s.openSetCount - 1 })

def endDelete (s : History) (beginIdx : ℕ) : Option Unit × History :=
  match s.endOperation beginIdx fun _ => { event := .kEndDelete, other := beginIdx } with
  | (none, s) => (none, s)
  | (some _, s) => (some (), s)

end History

/-! ## The operations behind the log -/

inductive Kind
  | get
  | set
  | delete
  deriving DecidableEq, Repr

/-- An operation from the index of its begin record to the index of its end record. The value
is that of a set or the one that a lookup has found. -/
structure Operation where
  kind : Kind
  start : ℕ
  stop : Option ℕ := none
  value : ℕ := 0
  found : Bool := true
  deriving DecidableEq, Repr

namespace Operation

/-- A lookup that ended without a value. -/
def missed (o : Operation) : Bool := decide (o.kind = .get) && o.stop.isSome && !o.found

/-- Sets, deletions and misses. -/
def isWrite (o : Operation) : Bool := decide (o.kind ≠ .get) || o.missed

def endsBefore (o : Operation) (i : ℕ) : Prop := ∃ j, o.stop = some j ∧ j < i

end Operation

/-- A value that a lookup from `g` to `e` may find: that of a set which no write has
overridden for certain before the lookup began, or one from before the history. -/
def Possible (ops : List Operation) (g e value : ℕ) : Prop :=
  (∃ o ∈ ops, o.kind = .set ∧ o.value = value ∧ o.start < e ∧
    ∀ w ∈ ops, w.isWrite = true → ¬ (o.endsBefore w.start ∧ w.endsBefore g)) ∨
  ((∀ w ∈ ops, w.isWrite = true → ¬ w.endsBefore g) ∧
    ∃ o ∈ ops, o.start = 0 ∧ o.kind = .get ∧ o.missed = false)

/-- The checker with the complete history of operations. `verdict` is the last answer of
`endGet` for a value, with the begin and end of the lookup. -/
structure System where
  history : History
  ops : List Operation
  thrown : Bool
  verdict : Option (ℕ × ℕ × ℕ × Bool)

def System.init : System := ⟨.empty, [], false, none⟩

/-- The callers: an end names the operation by its number in the history. -/
inductive Action
  | beginGet
  | beginSet (value : ℕ)
  | beginDelete
  | endGet (k value : ℕ) (found es : Bool)
  | endSet (k : ℕ)
  | endDelete (k : ℕ)
  deriving DecidableEq, Repr

namespace System

def begun (s : System) (o : Operation) (r : Option ℕ × History) : System :=
  match r with
  | (some _, h) => { s with history := h, ops := s.ops ++ [o], verdict := none }
  | (none, h) => { s with history := h, thrown := true, verdict := none }

def ended {α : Type} (s : System) (k : ℕ) (o : Operation) (r : Option α × History)
    (verdict : α → Option (ℕ × ℕ × ℕ × Bool)) : System :=
  match r with
  | (some a, h) => { s with history := h, ops := s.ops.set k o, verdict := verdict a }
  | (none, h) => { s with history := h, thrown := true, verdict := none }

/-- The unfinished operation of this kind with number `k`. -/
def pending (s : System) (k : ℕ) (kind : Kind) : Option Operation :=
  s.ops[k]?.filter fun o => decide (o.kind = kind ∧ o.stop = none)

def endedGet (s : System) (o : Operation) (value : ℕ) (found : Bool) : Operation :=
  { o with
    stop := some s.history.log.last, value := if found = true then value else 0, found := found }

end System

/-- One call. Only an unfinished operation of the right kind can be ended. -/
def step (s : System) : Action → Option System
  | .beginGet => some (s.begun { kind := .get, start := s.history.log.last } s.history.beginGet)
  | .beginSet value =>
    some (s.begun { kind := .set, start := s.history.log.last, value := value }
      (s.history.beginSet value))
  | .beginDelete =>
    some (s.begun { kind := .delete, start := s.history.log.last } s.history.beginDelete)
  | .endGet k value found es => (s.pending k .get).map fun o =>
    s.ended k (s.endedGet o value found) (s.history.endGet (u32 o.start) value found es) fun r =>
      if found = true then some (o.start, s.history.log.last, value, r.1) else none
  | .endSet k => (s.pending k .set).map fun o =>
    s.ended k { o with stop := some s.history.log.last } (s.history.endSet (u32 o.start))
      fun _ => none
  | .endDelete k => (s.pending k .delete).map fun o =>
    s.ended k { o with stop := some s.history.log.last } (s.history.endDelete (u32 o.start))
      fun _ => none

end HybridCache.ValueHistory

import HybridCache.SharedNativeCache
import HybridCache.Utf16

/-!
# Records in the native cache

A record is a map from field names to bytes. The client writes all fields of a call one after
another into one value, and reads fields back out of it. The native calls take a table and a key
and use only the key.

The record that the database interface asks for is kept next to the cache: the fields of the last
insert, with the fields of later updates written over them. An insert that makes the allocator
throw ends the process, and with it the run.
-/
namespace HybridCache.CacheLibRecords
open Utf16 CacheLibClient

/-! ## Fields -/

/-- A map from field names to the bytes of their iterators, in the order of its entry set. -/
structure FieldMap where
  entries : List (JString × List UInt8)
  nodup : (entries.map Prod.fst).Nodup

namespace FieldMap

def get (m : FieldMap) (field : JString) : Option (List UInt8) := m.entries.lookup field

def names (m : FieldMap) : List JString := m.entries.map Prod.fst

def empty : FieldMap := ⟨[], List.nodup_nil⟩

/-- The second map with the fields of the first one written over it. -/
def writeOver (m old : FieldMap) : FieldMap where
  entries := m.entries ++ old.entries.filter fun e => decide (e.1 ∉ m.names)
  nodup := by
    rw [List.map_append, List.nodup_append]
    refine ⟨m.nodup, (List.Sublist.map _ List.filter_sublist).nodup old.nodup, ?_⟩
    rintro a ha b hb rfl
    obtain ⟨e, he, rfl⟩ := List.mem_map.1 hb
    exact absurd ha (of_decide_eq_true (List.mem_filter.1 he).2)

end FieldMap

/-! ## The value of a record -/

def writeInt (n : ℕ) : List UInt8 :=
  [UInt8.ofNat (n / 2 ^ 24), UInt8.ofNat (n / 2 ^ 16), UInt8.ofNat (n / 2 ^ 8), UInt8.ofNat n]

def fieldBytes (entry : JString × List UInt8) : List UInt8 :=
  let keyBytes := encode entry.1
  writeInt keyBytes.length ++ (keyBytes ++ (writeInt entry.2.length ++ entry.2))

/-- An array has less than 2^31 bytes. -/
def serialize (values : FieldMap) : Option (List UInt8) :=
  let bytes := values.entries.flatMap fieldBytes
  if bytes.length < 2 ^ 31 then some bytes else none

def readInt : List UInt8 → Except String (ℕ × List UInt8)
  | a :: b :: c :: d :: rest =>
    .ok (a.toNat * 2 ^ 24 + b.toNat * 2 ^ 16 + c.toNat * 2 ^ 8 + d.toNat, rest)
  | _ => .error "Deserialization failed"

def readFully (len : ℕ) (bytes : List UInt8) : Except String (List UInt8 × List UInt8) :=
  if 2 ^ 31 ≤ len then .error "NegativeArraySizeException"
  else if bytes.length < len then .error "Deserialization failed"
  else .ok (bytes.take len, bytes.drop len)

def readField (bytes : List UInt8) : Except String ((JString × List UInt8) × List UInt8) := do
  let (keyLen, bytes) ← readInt bytes
  let (keyBytes, bytes) ← readFully keyLen bytes
  let (valLen, bytes) ← readInt bytes
  let (valBytes, bytes) ← readFully valLen bytes
  return ((decode keyBytes, valBytes), bytes)

abbrev Result := JString → Option (List UInt8)

def requested (fields : Option (List JString)) (field : JString) : Bool :=
  match fields with
  | none => true
  | some names => decide (field ∈ names)

/-- The loop takes at least eight bytes in each round. -/
def deserializeLoop (fields : Option (List JString)) :
    ℕ → List UInt8 → Result → Except String Result
  | _, [], result => .ok result
  | 0, _ :: _, result => .ok result
  | n + 1, b :: bytes, result => do
    let (entry, rest) ← readField (b :: bytes)
    deserializeLoop fields n rest
      (if requested fields entry.1 = true then Function.update result entry.1 (some entry.2)
        else result)

def deserialize (bytes : List UInt8) (fields : Option (List JString)) (result : Result) :
    Except String Result :=
  deserializeLoop fields bytes.length bytes result

/-! ## The client -/

/-- The native pointer; the cache is shared by all clients. -/
structure Client where
  gCache : Option (CacheLibWrapper (List UInt8) (List UInt8))

/-- The characters up to the first zero byte. -/
def jStringToStdString (s : JString) : List UInt8 :=
  (encodeModified s).takeWhile fun b => decide (b ≠ 0)

namespace Client
variable (c : Client)

/-- The table is not used. `allocated` says whether there is memory for the item. -/
def nativeInsert (_table key : JString) (value : List UInt8) (allocated : Bool) : Client × Bool :=
  match c.gCache with
  | none => (c, false)
  | some cache =>
    let (cache, status) := cache.insert (jStringToStdString key) value allocated
    (⟨some cache⟩, decide (status = .ok))

def nativeRead (_table key : JString) : Option (List UInt8) :=
  c.gCache.bind fun cache => cache.items (jStringToStdString key)

/-- The wrapper's `update` is its `insert`. -/
def nativeUpdate (table key : JString) (value : List UInt8) (allocated : Bool) : Client × Bool :=
  c.nativeInsert table key value allocated

def nativeDelete (_table key : JString) : Client × Bool :=
  match c.gCache with
  | none => (c, false)
  | some cache =>
    let (cache, status) := cache.remove (jStringToStdString key)
    (⟨some cache⟩, decide (status = .ok))

def insert (table key : JString) (values : FieldMap) (allocated : Bool) :
    Client × Except String Status :=
  match serialize values with
  | none => (c, .error "OutOfMemoryError")
  | some value =>
    let (c, ok) := c.nativeInsert table key value allocated
    (c, .ok (if ok = true then .ok else .error))

def update (table key : JString) (values : FieldMap) (allocated : Bool) :
    Client × Except String Status :=
  match serialize values with
  | none => (c, .error "OutOfMemoryError")
  | some value =>
    let (c, ok) := c.nativeUpdate table key value allocated
    (c, .ok (if ok = true then .ok else .error))

def read (table key : JString) (fields : Option (List JString)) (result : Result) :
    Except String (Status × Result) :=
  match c.nativeRead table key with
  | none => .ok (.notFound, result)
  | some value => (deserialize value fields result).map fun result => (.ok, result)

def delete (table key : JString) : Client × Status :=
  let (c, ok) := c.nativeDelete table key
  (c, if ok = true then .ok else .error)

def drop (key : List UInt8) : Client :=
  ⟨c.gCache.map fun cache => { cache with items := Function.update cache.items key none }⟩

end Client

/-! ## Runs -/

/-- The client, with the record of each table and key, and the table through which a key was
written last. -/
structure Database where
  client : Client
  record : JString → JString → FieldMap
  writer : JString → Option JString

inductive Request
  | insert (table key : JString) (values : FieldMap) (allocated : Bool)
  | update (table key : JString) (values : FieldMap) (allocated : Bool)
  | read (table key : JString)
  | delete (table key : JString)
  | drop (key : List UInt8)

namespace Database

/-- A cache without items, or none. -/
def init (id : Option ℕ) : Database where
  client := ⟨id.map fun id => ⟨id, fun _ => none⟩⟩
  record _ _ := .empty
  writer _ := none

variable (s : Database)

def setRecord (table key : JString) (values : FieldMap) : JString → JString → FieldMap :=
  Function.update s.record table (Function.update (s.record table) key values)

def written (table key : JString) (values : FieldMap) (res : Client × Except String Status) :
    Database :=
  match res with
  | (client, .ok .ok) =>
    ⟨client, s.setRecord table key values, Function.update s.writer key (some table)⟩
  | (client, _) => { s with client := client }

def next : Request → Database
  | .insert table key values allocated =>
    s.written table key values (s.client.insert table key values allocated)
  | .update table key values allocated =>
    s.written table key (values.writeOver (s.record table key))
      (s.client.update table key values allocated)
  | .read _ _ => s
  | .delete table key =>
    match s.client.delete table key with
    | (client, .ok) => { s with client := client, record := s.setRecord table key .empty }
    | (client, _) => { s with client := client }
  | .drop key => { s with client := s.client.drop key }

def step (request : Request) : Option Database := some (s.next request)

end Database

end HybridCache.CacheLibRecords

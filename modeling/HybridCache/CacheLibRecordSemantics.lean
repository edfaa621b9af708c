import Mathlib
import HybridCache.CacheLibRecords

/-!
# When the client keeps the semantics of records

What is read is what was written by the last call on the key. So the fields that an update does not
name are lost, and the record of one table is read for another. The theorem is about the calls that
keep clear of both, and whose field names can be encoded.
-/
namespace HybridCache.CacheLibRecords
open Utf16 CacheLibClient Transition Function List

/-! ## Fields -/

section Fields

lemma lookup_eq_none {entries : List (JString × List UInt8)} {field : JString}
    (h : field ∉ entries.map Prod.fst) : entries.lookup field = none := by
  induction entries with
  | nil => rfl
  | cons e entries ih =>
    rw [map_cons, mem_cons, not_or] at h
    rw [lookup_cons, beq_eq_false_iff_ne.2 h.1]
    exact ih h.2

lemma get_writeOver {m old : FieldMap} (h : ∀ field ∈ old.names, field ∈ m.names)
    (field : JString) : (m.writeOver old).get field = m.get field := by
  have hnone : (old.entries.filter fun e => decide (e.1 ∉ m.names)) = [] := by
    rw [filter_eq_nil_iff]
    intro e he
    simp only [decide_eq_true_eq, not_not]
    exact h e.1 (mem_map_of_mem he)
  change (m.entries ++ old.entries.filter fun e => decide (e.1 ∉ m.names)).lookup field = _
  rw [hnone, append_nil]
  rfl

end Fields

/-! ## The value of a record -/

section Value

lemma readInt_writeInt {n : ℕ} (h : n < 2 ^ 31) (rest : List UInt8) :
    readInt (writeInt n ++ rest) = .ok (n, rest) := by
  have hvalue : n / 2 ^ 24 % 256 * 2 ^ 24 + n / 2 ^ 16 % 256 * 2 ^ 16 + n / 2 ^ 8 % 256 * 2 ^ 8 +
      n % 256 = n := by
    omega
  exact congrArg (fun k => Except.ok (k, rest)) hvalue

lemma readFully_append {bytes : List UInt8} (h : bytes.length < 2 ^ 31) (rest : List UInt8) :
    readFully bytes.length (bytes ++ rest) = .ok (bytes, rest) := by
  rw [readFully, if_neg (not_le.2 h), if_neg (by simp), take_left', drop_left']
  · rfl
  · rfl

lemma ok_bind {α β : Type} (a : α) (f : α → Except String β) : (Except.ok a >>= f) = f a := rfl

lemma readField_fieldBytes {entry : JString × List UInt8} (hname : wellFormed entry.1 = true)
    (hlen : (fieldBytes entry).length < 2 ^ 31) (rest : List UInt8) :
    readField (fieldBytes entry ++ rest) = .ok (entry, rest) := by
  have hlens : (encode entry.1).length < 2 ^ 31 ∧ entry.2.length < 2 ^ 31 := by
    simp only [fieldBytes, length_append] at hlen
    omega
  rw [readField, fieldBytes]
  simp only [append_assoc]
  rw [readInt_writeInt hlens.1, ok_bind]
  rw [readFully_append hlens.1, ok_bind]
  rw [readInt_writeInt hlens.2, ok_bind]
  rw [readFully_append hlens.2, ok_bind, decode_encode hname]
  rfl

lemma deserializeLoop_spec {fields : Option (List JString)}
    {entries : List (JString × List UInt8)} (hnodup : (entries.map Prod.fst).Nodup)
    (hnames : ∀ e ∈ entries, wellFormed e.1 = true)
    (hlen : (entries.flatMap fieldBytes).length < 2 ^ 31) {n : ℕ}
    (hn : (entries.flatMap fieldBytes).length ≤ n) (result : Result) :
    deserializeLoop fields n (entries.flatMap fieldBytes) result = .ok fun field =>
      if requested fields field = true then (entries.lookup field).or (result field)
      else result field := by
  induction entries generalizing n result with
  | nil =>
    simp [deserializeLoop]
  | cons e entries ih =>
    rw [map_cons, nodup_cons] at hnodup
    rw [flatMap_cons] at hlen hn ⊢
    have hlens : (fieldBytes e).length + (entries.flatMap fieldBytes).length < 2 ^ 31 := by
      rwa [length_append] at hlen
    have hpos : 4 ≤ (fieldBytes e).length := by
      simp only [fieldBytes, writeInt, length_append, length_cons]
      omega
    obtain ⟨k, rfl⟩ : ∃ k, n = k + 1 := by
      refine ⟨n - 1, ?_⟩
      rw [length_append] at hn
      omega
    have hread := readField_fieldBytes (hnames e mem_cons_self)
      (Nat.lt_of_le_of_lt (Nat.le_add_right _ _) hlens) (entries.flatMap fieldBytes)
    obtain ⟨b, bytes, hbytes⟩ := exists_cons_of_length_pos
      (show 0 < (fieldBytes e ++ entries.flatMap fieldBytes).length by
        rw [length_append]
        omega)
    rw [hbytes] at hread
    rw [hbytes, deserializeLoop, hread, ok_bind]
    dsimp only
    rw [ih hnodup.2 (fun d hd => hnames d (mem_cons_of_mem e hd))
      (Nat.lt_of_le_of_lt (Nat.le_add_left _ _) hlens) (by rw [length_append] at hn; omega)]
    congr 1
    funext field
    by_cases hfield : field = e.1
    · rw [hfield, lookup_eq_none hnodup.1, lookup_cons_self, Option.none_or, Option.some_or]
      split_ifs
      · rw [update_self]
      · rfl
    · have hsame : (if requested fields e.1 = true then update result e.1 (some e.2)
          else result) field = result field := by
        split_ifs
        · rw [update_of_ne hfield]
        · rfl
      rw [hsame, lookup_cons, beq_eq_false_iff_ne.2 hfield]

theorem deserialize_serialize {values : FieldMap} {bytes : List UInt8}
    (hnames : ∀ name ∈ values.names, wellFormed name = true)
    (hbytes : serialize values = some bytes) (fields : Option (List JString)) (result : Result) :
    deserialize bytes fields result = .ok fun field =>
      if requested fields field = true then (values.get field).or (result field)
      else result field := by
  rw [serialize] at hbytes
  split_ifs at hbytes with hlen
  cases hbytes
  exact deserializeLoop_spec values.nodup (fun e he => hnames e.1 (mem_map_of_mem he)) hlen
    le_rfl result

end Value

/-! ## Keys -/

lemma jStringToStdString_injective : Function.Injective jStringToStdString := by
  have heq : ∀ s, jStringToStdString s = encodeModified s := fun s =>
    takeWhile_eq_self_iff.2 fun b hb => decide_eq_true (ne_zero_of_mem_encodeModified hb)
  intro s t h
  rw [heq, heq] at h
  exact encodeModified_injective h

/-! ## Calls of the client -/

section Calls
variable {c : Client} {table key : JString} {values : FieldMap} {allocated : Bool}

lemma insert_cases (c : Client) (table key : JString) (values : FieldMap) (allocated : Bool) :
    (∃ value client, serialize values = some value ∧
      c.insert table key values allocated = (client, .ok .ok) ∧
      ∀ table' key', client.nativeRead table' key' =
        if key' = key then some value else c.nativeRead table' key') ∨
      ∃ e, c.insert table key values allocated = (c, e) ∧ e ≠ .ok .ok := by
  rw [Client.insert]
  cases hvalue : serialize values with
  | none => exact .inr ⟨_, rfl, nofun⟩
  | some value =>
    dsimp only
    rw [Client.nativeInsert]
    cases hcache : c.gCache with
    | none => exact .inr ⟨.ok .error, rfl, nofun⟩
    | some cache =>
      cases allocated with
      | false =>
        refine .inr ⟨.ok .error, ?_, nofun⟩
        have hsame : (⟨some cache⟩ : Client) = c := by rw [← hcache]
        exact congrArg (fun d => (d, Except.ok Status.error)) hsame
      | true =>
        refine .inl ⟨value, _, rfl, rfl, fun table' key' => ?_⟩
        simp only [CacheLibWrapper.insert, if_true, Client.nativeRead, hcache, Option.bind_some]
        by_cases hkey : key' = key
        · rw [hkey, if_pos rfl, update_self]
        · rw [if_neg hkey, update_of_ne fun h => hkey (jStringToStdString_injective h)]

lemma nativeRead_delete (table' key' : JString) : (c.delete table key).1.nativeRead table' key' =
      if key' = key then none else c.nativeRead table' key' := by
  rw [Client.delete, Client.nativeDelete]
  cases hcache : c.gCache with
  | none => simp [Client.nativeRead, hcache]
  | some cache =>
    simp only [Client.nativeRead, hcache, CacheLibWrapper.remove, Option.bind_some]
    by_cases hkey : key' = key
    · rw [hkey, if_pos rfl, update_self]
    · rw [if_neg hkey, update_of_ne fun h => hkey (jStringToStdString_injective h)]

lemma nativeRead_drop (dropped : List UInt8) (table' key' : JString) :
    (c.drop dropped).nativeRead table' key' =
      if jStringToStdString key' = dropped then none else c.nativeRead table' key' := by
  rw [Client.drop, Client.nativeRead, Client.nativeRead]
  cases c.gCache with
  | none => simp
  | some cache =>
    simp only [Option.map_some, Option.bind_some]
    by_cases hkey : jStringToStdString key' = dropped
    · rw [if_pos hkey, hkey, update_self]
    · rw [if_neg hkey, update_of_ne hkey]

end Calls

/-! ## Runs -/

namespace Database
variable (s : Database)

/-- The cache has nothing under the key, or what was written through this table. -/
def holds (table key : JString) : Bool :=
  (s.client.nativeRead table key).isNone || decide (s.writer key = some table)

/-- Field names are well-formed, a key is used through one table at a time, and an update names
all fields of the record. -/
def allowed : Request → Bool
  | .insert table key values _ => values.names.all wellFormed && s.holds table key
  | .update table key values _ =>
    values.names.all wellFormed && s.holds table key &&
      (s.record table key).names.all fun name => decide (name ∈ values.names)
  | .read table key => s.holds table key
  | .delete table key => s.holds table key
  | .drop _ => true

/-- Each value in the cache is the record of the table that has written it. -/
def Consistent : Prop :=
  ∀ table key bytes, s.client.nativeRead table key = some bytes →
    ∃ t values, s.writer key = some t ∧ serialize values = some bytes ∧
      (∀ name ∈ values.names, wellFormed name = true) ∧
      ∀ field, values.get field = (s.record t key).get field

variable {s}

lemma setRecord_self (table key : JString) (values : FieldMap) :
    s.setRecord table key values table key = values := by
  rw [setRecord, update_self, update_self]

lemma setRecord_of_ne {table key table' key' : JString} (h : key' ≠ key) (values : FieldMap) :
    s.setRecord table key values table' key' = s.record table' key' := by
  by_cases htable : table' = table
  · rw [htable, setRecord, update_self, update_of_ne h]
  · rw [setRecord, update_of_ne htable]

lemma setRecord_table {table table' : JString} (h : table' ≠ table) (key : JString)
    (values : FieldMap) : s.setRecord table key values table' = s.record table' := by
  rw [setRecord, update_of_ne h]

lemma written_of_ne {table key : JString} {values : FieldMap} {e : Except String Status}
    (he : e ≠ .ok .ok) : s.written table key values (s.client, e) = s := by
  rw [Database.written]
  exact he

/-- A write of a record, of which the call has all the fields. -/
lemma Consistent.written (h : s.Consistent) {table key : JString} {values stored : FieldMap}
    {allocated : Bool} (hnames : ∀ name ∈ stored.names, wellFormed name = true)
    (hvalues : ∀ field, stored.get field = values.get field) :
    (s.written table key values (s.client.insert table key stored allocated)).Consistent := by
  obtain ⟨value, client, hvalue, hrun, hread⟩ | ⟨e, hrun, he⟩ :=
    insert_cases s.client table key stored allocated
  · rw [hrun]
    intro table' key' bytes hbytes
    simp only [Database.written, hread] at hbytes ⊢
    by_cases hkey : key' = key
    · subst hkey
      rw [if_pos rfl] at hbytes
      refine ⟨table, stored, update_self .., hvalue.trans hbytes, hnames, fun field => ?_⟩
      rw [hvalues, setRecord_self]
    · rw [if_neg hkey] at hbytes
      obtain ⟨t, old, hwriter, hold, hwf, hget⟩ := h table' key' bytes hbytes
      refine ⟨t, old, ?_, hold, hwf, fun field => ?_⟩
      · rw [update_of_ne hkey, hwriter]
      · rw [setRecord_of_ne hkey, hget]
  · rw [hrun, written_of_ne he]
    exact h

lemma next_delete (s : Database) (table key : JString) :
    (s.next (.delete table key)).client = (s.client.delete table key).1 ∧
      (s.next (.delete table key)).writer = s.writer ∧
      ∀ table' key', table' ≠ table ∨ key' ≠ key →
        (s.next (.delete table key)).record table' key' = s.record table' key' := by
  rw [Database.next]
  split
  · rename_i client heq
    rw [heq]
    refine ⟨rfl, rfl, fun table' key' hne => ?_⟩
    obtain htable | hkey := hne
    · exact congrFun (setRecord_table htable key .empty) key'
    · exact setRecord_of_ne hkey .empty
  · rename_i client status heq
    rw [heq]
    exact ⟨rfl, rfl, fun _ _ _ => rfl⟩

lemma Consistent.next (h : s.Consistent) {request : Request} (hallowed : s.allowed request = true) :
    (s.next request).Consistent := by
  cases request with
  | insert table key values allocated =>
    rw [allowed, Bool.and_eq_true, all_eq_true] at hallowed
    exact h.written hallowed.1 fun _ => rfl
  | update table key values allocated =>
    simp only [allowed, Bool.and_eq_true, all_eq_true, decide_eq_true_eq] at hallowed
    exact h.written hallowed.1.1 fun field => (get_writeOver hallowed.2 field).symm
  | read table key => exact h
  | delete table key =>
    obtain ⟨hclient, hwriter, hrecord⟩ := next_delete s table key
    intro table' key' bytes hbytes
    rw [hclient, nativeRead_delete] at hbytes
    split_ifs at hbytes with hkey
    obtain ⟨t, old, ht, hold, hwf, hget⟩ := h table' key' bytes hbytes
    refine ⟨t, old, by rw [hwriter, ht], hold, hwf, fun field => ?_⟩
    rw [hrecord t key' (.inr hkey), hget]
  | drop key =>
    intro table' key' bytes hbytes
    simp only [Database.next, nativeRead_drop] at hbytes ⊢
    split_ifs at hbytes
    exact h table' key' bytes hbytes

/-- A read finds nothing, or exactly the requested fields of the record. -/
def ReadsRight (s : Database) : Prop :=
  ∀ table key fields result, s.allowed (.read table key) = true →
    s.client.read table key fields result = .ok (.notFound, result) ∨
      s.client.read table key fields result = .ok (.ok, fun field =>
        if requested fields field = true then
          ((s.record table key).get field).or (result field)
        else result field)

lemma Consistent.readsRight (h : s.Consistent) : s.ReadsRight := by
  intro table key fields result hallowed
  rw [Client.read]
  cases hread : s.client.nativeRead table key with
  | none => exact .inl rfl
  | some bytes =>
    right
    obtain ⟨t, values, hwriter, hvalues, hwf, hget⟩ := h table key bytes hread
    obtain rfl : t = table := by
      simpa [allowed, holds, hread, hwriter] using hallowed
    dsimp only
    rw [deserialize_serialize hwf hvalues]
    simp only [hget]
    rfl

def stored (s : Database) (table key : JString) : Option (List UInt8) :=
  if s.writer key = some table then s.client.nativeRead table key else none

end Database

def Request.table : Request → Option JString
  | .insert table _ _ _ => some table
  | .update table _ _ _ => some table
  | .read table _ => some table
  | .delete table _ => some table
  | .drop _ => none

namespace Database
variable {s : Database}

def KeepsOthers (s : Database) : Prop :=
  ∀ request table, s.allowed request = true → request.table = some table →
    ∀ table', table' ≠ table → ∀ key,
      (s.next request).stored table' key = s.stored table' key ∧
        (s.next request).record table' key = s.record table' key

lemma stored_eq_none {table key : JString} (hholds : s.holds table key = true) {table' : JString}
    (htable : table' ≠ table) : s.stored table' key = none := by
  rw [holds, Bool.or_eq_true, Option.isNone_iff_eq_none, decide_eq_true_iff] at hholds
  rw [stored]
  obtain hnone | hwriter := hholds
  · have hnone' : s.client.nativeRead table' key = none := hnone
    rw [hnone', ite_self]
  · rw [hwriter, if_neg fun h => htable (Option.some.inj h).symm]

lemma written_keeps {table key : JString} {values stored : FieldMap} {allocated : Bool}
    (hholds : s.holds table key = true) {table' : JString} (htable : table' ≠ table)
    (key' : JString) :
    (s.written table key values (s.client.insert table key stored allocated)).stored table' key' =
        s.stored table' key' ∧
      (s.written table key values (s.client.insert table key stored allocated)).record table' key' =
        s.record table' key' := by
  obtain ⟨value, client, hvalue, hrun, hread⟩ | ⟨e, hrun, he⟩ :=
    insert_cases s.client table key stored allocated
  · rw [hrun]
    refine ⟨?_, congrFun (setRecord_table htable key values) key'⟩
    by_cases hkey : key' = key
    · subst hkey
      rw [stored_eq_none hholds htable]
      simp only [Database.stored, Database.written, update_self]
      rw [if_neg fun h => htable (Option.some.inj h).symm]
    · simp only [Database.stored, Database.written, hread]
      rw [update_of_ne hkey, if_neg hkey]
  · rw [hrun, written_of_ne he]
    exact ⟨rfl, rfl⟩

lemma keepsOthers (s : Database) : s.KeepsOthers := by
  intro request table hallowed htable table' hne key'
  cases request with
  | insert _ key values allocated =>
    cases htable
    rw [allowed, Bool.and_eq_true] at hallowed
    exact written_keeps hallowed.2 hne key'
  | update _ key values allocated =>
    cases htable
    simp only [allowed, Bool.and_eq_true] at hallowed
    exact written_keeps hallowed.1.2 hne key'
  | read _ key => exact ⟨rfl, rfl⟩
  | delete _ key =>
    cases htable
    obtain ⟨hclient, hwriter, hrecord⟩ := next_delete s _ key
    refine ⟨?_, hrecord table' key' (.inl hne)⟩
    by_cases hkey : key' = key
    · rw [hkey, stored_eq_none hallowed hne, stored, hclient, nativeRead_delete, if_pos rfl,
        ite_self]
    · rw [stored, stored, hclient, hwriter, nativeRead_delete, if_neg hkey]
  | drop key => cases htable

lemma init_consistent (id : Option ℕ) : (init id).Consistent := by
  intro table key bytes hbytes
  cases id <;> cases hbytes

end Database

/-- In every run whose calls name fields that can be encoded, use a key through one table at a
time, and name all fields of the record in an update, reads are right and tables are apart. -/
theorem client_keeps_records {id : Option ℕ} {requests : List Request}
    (hrequests : Meets Database.step (fun s request => s.allowed request = true)
      (Database.init id) requests) :
    ∃ s, run Database.step (Database.init id) requests = some s ∧ s.ReadsRight ∧ s.KeepsOthers := by
  obtain ⟨s, hrun, hs⟩ := run_returns_meets (fun s request _ => ⟨s.next request, rfl⟩)
    (fun s request t hallowed hs ht => Option.some.inj ht ▸ Database.Consistent.next hs hallowed)
    hrequests (Database.init_consistent id)
  exact ⟨s, hrun, hs.readsRight, s.keepsOthers⟩

def field (name : UInt16) (value : UInt8) : FieldMap := ⟨[([name], [value])], by simp⟩

def twoFields : FieldMap := ⟨[([97], [1]), ([98], [2])], by decide⟩

def fullUpdate : List Request :=
  [.insert [116] [107] twoFields true, .update [116] [107] ⟨[([98], [3]), ([97], [4])], by decide⟩
    true, .read [116] [107]]

theorem fullUpdate_kept :
    ∃ s, run Database.step (Database.init (some 0)) fullUpdate = some s ∧ s.ReadsRight ∧
      s.KeepsOthers :=
  client_keeps_records (by decide +kernel)

/-- What a read of all fields finds for a field, if it returns OK, and what the record has. -/
def readBack (requests : List Request) (table key name : JString) :
    Option (Option (List UInt8) × Option (List UInt8)) :=
  (run Database.step (Database.init (some 0)) requests).bind fun s =>
    match s.client.read table key none fun _ => none with
    | .ok (.ok, result) => some (result name, (s.record table key).get name)
    | _ => none

/-- An update of one field loses the other one, an insert into one table is read from another, and
a field whose name is a single surrogate is lost. -/
theorem client_loses_records :
    readBack [.insert [116] [107] twoFields true, .update [116] [107] (field 97 3) true]
      [116] [107] [98] = some (none, some [2]) ∧
    readBack [.insert [116] [107] (field 97 1) true, .insert [117] [107] (field 97 2) true]
      [116] [107] [97] = some (some [2], some [1]) ∧
    readBack [.insert [116] [107] (field 0xD800 1) true] [116] [107] [0xD800] =
      some (none, some [1]) := by
  decide +kernel

end HybridCache.CacheLibRecords

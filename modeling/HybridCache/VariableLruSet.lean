import HybridCache.VariableLruRefinement

/-!
# Setting a value in a bucket

`bucketSet` of the compact cache looks for the key and inserts the value or updates the entry
there is. A value that is too large is refused by `insert`. An update with a larger value has
deleted the entry before, and it does not look at the result of the insertion.
-/
namespace HybridCache.VariableLru

open List Option

inductive BucketReturn
  | ERROR
  | NOTFOUND
  | FOUND
  deriving DecidableEq, Repr

section Model
variable (cfg : Config)

/-- The position of the first entry with the key. -/
def bucketFind (b : Bucket) (key : Key cfg) : Option ℕ :=
  (List.range b.numEntries.toNat).find? fun pos => VariableLru.key cfg b.data pos = key

/-- The bucket, the entries that `onEntryEvicted` has got, and the result. There is no value if
the pointer is null. -/
def bucketSet (b : Bucket) (key : Key cfg) (val : Option (List UInt8)) :
    Bucket × List (Entry cfg) × BucketReturn :=
  match val with
  | none => (b, [], .ERROR)
  | some val =>
    match bucketFind cfg b key with
    | none =>
      let (b', gone, rv) := insert cfg b key val
      if rv = -1 then (b', gone, .ERROR) else (b', gone, .NOTFOUND)
    | some pos =>
      let (b', gone) := updateVal cfg b pos val
      (b', gone, .FOUND)

end Model

variable {cfg : Config}

def valueOf (es : List (Entry cfg)) (key : Key cfg) : Option (List UInt8) :=
  (es.find? fun e => e.key = key).map Entry.value

/-- After a success the key has the value, after an error nothing has changed. -/
def AllOrNothing (b : Bucket) (key : Key cfg) (val : Option (List UInt8)) : Prop :=
  let (b', _, rv) := bucketSet cfg b key val
  if rv = .ERROR then decode cfg b' = decode cfg b
  else val ≠ none ∧ valueOf (decode cfg b') key = val

variable {b : Bucket} {es : List (Entry cfg)} {p : ℕ} {key : Key cfg} {val : List UInt8}

section
variable (h : Stores cfg b es)
include h

lemma Stores.entryAt (hp : p < es.length) : es[p]? = some (entryAt cfg b.data p) := by
  conv_lhs => rw [← h.decode]
  rw [VariableLru.decode, h.numEntries, getElem?_map, getElem?_range hp, map_some]

lemma Stores.bucketFind_none (hfind : bucketFind cfg b key = none) : ∀ e ∈ es, e.key ≠ key := by
  intro e he hkey
  obtain ⟨p, hp, rfl⟩ := getElem_of_mem he
  have hentry := h.entryAt hp
  rw [getElem?_eq_getElem hp] at hentry
  rw [bucketFind, h.numEntries, find?_eq_none] at hfind
  refine hfind p (mem_range.2 hp) (decide_eq_true ?_)
  rw [← hkey, some.inj hentry]
  rfl

lemma Stores.bucketFind_some (hfind : bucketFind cfg b key = some p) :
    ∃ e, es[p]? = some e ∧ e.key = key := by
  have hp : p < es.length := by
    rw [← h.numEntries, ← mem_range]
    exact mem_of_find?_eq_some hfind
  have hkey : VariableLru.key cfg b.data p = key := by simpa using find?_some hfind
  exact ⟨_, h.entryAt hp, hkey⟩

/-- No entry has a value that `insert` refuses. -/
lemma Stores.value_le {e : Entry cfg} (he : e ∈ es) :
    e.value.length ≤ min cfg.kMaxValueSize (2 ^ 8 - 1) := by
  obtain ⟨off, order, h⟩ := h
  have hload : (lru cfg).size e ≤ (lru cfg).load es :=
    single_le_sum (fun _ _ => Nat.zero_le _) _ (mem_map_of_mem he)
  have hmax := h.load_le
  have hsize := h.sizes e he
  rw [lru_size] at hload
  rw [Config.kBucketDataSize] at hmax
  omega

end

lemma insert_refused (hbig : min cfg.kMaxValueSize (2 ^ 8 - 1) < val.length) :
    insert cfg b key val = (b, [], -1) := by
  unfold insert
  split_ifs with h₁ h₂
  · rfl
  · rfl
  · omega

lemma insert_result_ne (hval : val.length ≤ min cfg.kMaxValueSize (2 ^ 8 - 1)) :
    (insert cfg b key val).2.2 ≠ -1 := by
  rw [insert, if_neg (by omega), if_neg (by omega)]
  change (if _ then (1 : ℤ) else 0) ≠ -1
  split_ifs <;> decide

lemma updateVal_refused (h : Stores cfg b es) {e : Entry cfg} (he : es[p]? = some e)
    (hbig : min cfg.kMaxValueSize (2 ^ 8 - 1) < val.length) :
    Stores cfg (updateVal cfg b p val).1 (es.eraseIdx p) := by
  have hle := h.value_le (mem_of_getElem? he)
  obtain ⟨off, order, h⟩ := h
  obtain ⟨hdel, -⟩ := h.del he
  rw [updateVal, h.dataSize he, if_neg (by omega), if_neg (by omega), insert_refused hbig]
  exact hdel

lemma valueOf_push (e : Entry cfg) : valueOf ((lru cfg).push e es) e.key = some e.value := by
  simp [valueOf, BoundedLru.push]

/-- `bucketSet` is all or nothing exactly if the key is new or the value not too large. -/
theorem bucketSet_allOrNothing_iff (h : Stores cfg b es) (key : Key cfg)
    (val : Option (List UInt8)) :
    AllOrNothing b key val ↔ (∀ e ∈ es, e.key ≠ key) ∨
      ∀ v, val = some v → v.length ≤ min cfg.kMaxValueSize (2 ^ 8 - 1) := by
  cases val with
  | none =>
    refine iff_of_true ?_ (.inr nofun)
    simp [AllOrNothing, bucketSet]
  | some v =>
    cases hfind : bucketFind cfg b key with
    | none =>
      refine iff_of_true ?_ (.inl (h.bucketFind_none hfind))
      by_cases hv : v.length ≤ min cfg.kMaxValueSize (2 ^ 8 - 1)
      · obtain ⟨hstores, -⟩ := insert_spec h ⟨key, v⟩ (hv.trans (min_le_left _ _))
          (Nat.lt_succ_of_le (hv.trans (min_le_right _ _)))
        have hne : (insert cfg b key v).2.2 ≠ -1 := insert_result_ne hv
        simp only [AllOrNothing, bucketSet, hfind, if_neg hne]
        exact ⟨nofun, by rw [hstores.decode]; exact valueOf_push ⟨key, v⟩⟩
      · simp [AllOrNothing, bucketSet, hfind, insert_refused (not_le.1 hv)]
    | some p =>
      obtain ⟨e, he, rfl⟩ := h.bucketFind_some hfind
      have hmem := mem_of_getElem? he
      by_cases hv : v.length ≤ min cfg.kMaxValueSize (2 ^ 8 - 1)
      · refine iff_of_true ?_ (.inr fun _ heq => some.inj heq ▸ hv)
        obtain ⟨hstores, -⟩ := updateVal_spec h he hv
        simp only [AllOrNothing, bucketSet, hfind]
        exact ⟨nofun, by rw [hstores.decode]; exact valueOf_push ⟨e.key, v⟩⟩
      · refine iff_of_false ?_ ?_
        · -- whatever is found now is shorter than the value
          have hstores := updateVal_refused h he (not_le.1 hv)
          simp only [AllOrNothing, bucketSet, hfind, hstores.decode]
          rintro ⟨-, hvalue⟩
          obtain ⟨e', hfind', rfl⟩ := map_eq_some_iff.1 hvalue
          exact hv (hstores.value_le (mem_of_find?_eq_some hfind'))
        · rintro (hnew | hsmall)
          · exact hnew e hmem rfl
          · exact hv (hsmall v rfl)

def oneEntry : Bucket := (insert smallBucket ⟨0, 0, fun _ => 0⟩ (.replicate 1 1) [1, 2]).1

lemma oneEntry_stores : Stores smallBucket oneEntry [⟨#v[1], [1, 2]⟩] := by
  have h := (insert_spec (stores_empty (fun _ => 0)) (⟨#v[1], [1, 2]⟩ : Entry smallBucket)
    (by decide) (by decide)).1
  exact h

theorem bucketSet_larger_value : @AllOrNothing smallBucket oneEntry #v[1] (some [7, 7, 7]) :=
  (bucketSet_allOrNothing_iff oneEntry_stores #v[1] (some [7, 7, 7])).2
    (.inr fun _ hv => some.inj hv ▸ by decide)

/-- The entry is lost, and the result is that of a success. -/
theorem bucketSet_loses_entry :
    (bucketSet smallBucket oneEntry #v[1] (some (List.replicate 21 7))).2.2 = .FOUND ∧
      decode smallBucket oneEntry = [⟨#v[1], [1, 2]⟩] ∧
      decode smallBucket
        (bucketSet smallBucket oneEntry #v[1] (some (List.replicate 21 7))).1 = [] := by
  have hstores := oneEntry_stores
  cases hfind : bucketFind smallBucket oneEntry #v[1] with
  | none => exact absurd rfl (hstores.bucketFind_none hfind ⟨#v[1], [1, 2]⟩ (by simp))
  | some p =>
    obtain ⟨e, he, -⟩ := hstores.bucketFind_some hfind
    obtain rfl : p = 0 := by
      have := (List.getElem?_eq_some_iff.1 he).1
      simpa using this
    have hlost : Stores smallBucket (updateVal smallBucket oneEntry 0 (List.replicate 21 7)).1 [] :=
      updateVal_refused hstores he (by decide)
    simp only [bucketSet, hfind]
    exact ⟨trivial, hstores.decode, hlost.decode⟩

end HybridCache.VariableLru

import Mathlib.Tactic
import Mathlib.Data.List.Perm.Basic

/-!
# One bucket of the small-item engine

A bucket is a FIFO of packed slots behind a header. The list of a bucket's
entries is in storage order, so its head is the oldest entry; compaction keeps
that order. Sizes are the sizes of the packed layout: a slot adds its own header
to the header of the entry, the key and the value.
-/
namespace HybridCache.Bucket

open List

abbrev Key := List UInt8
abbrev Value := List UInt8

structure Entry where
  key : Key
  value : Value
  deriving DecidableEq, Repr

/-- The size of `Slot`, of `BucketEntry` and of the bucket's own header. -/
def kAllocationOverhead : ℕ := 4
def entryOverhead : ℕ := 16
def bucketOverhead : ℕ := 24

def slotSize (size : ℕ) : ℕ := kAllocationOverhead + size

def computeSize (keySize valueSize : ℕ) : ℕ := entryOverhead + keySize + valueSize

def Entry.size (e : Entry) : ℕ := computeSize e.key.length e.value.length

def Entry.slot (e : Entry) : ℕ := slotSize e.size

def endOffset (b : List Entry) : ℕ := (b.map Entry.slot).sum

def remainingCapacity (capacity : ℕ) (b : List Entry) : ℕ := capacity - endOffset b

def keys (b : List Entry) : List Key := b.map Entry.key

def find : List Entry → Key → Option Value
  | [], _ => none
  | e :: b, hk => if e.key = hk then some e.value else find b hk

/-- The first entry of the key, if any, and the bucket without it. -/
def remove : List Entry → Key → List Entry × List Entry
  | [], _ => ([], [])
  | e :: b, hk => if e.key = hk then ([e], b) else ((remove b hk).1, e :: (remove b hk).2)

/-- A missing callback expires nothing. -/
abbrev ExpiredCheck := Option (Value → Bool)

def ExpiredCheck.expired (checkExpired : ExpiredCheck) (e : Entry) : Bool :=
  match checkExpired with
  | none => false
  | some check => check e.value

def removeExpired (checkExpired : ExpiredCheck) (b : List Entry) : List Entry × List Entry :=
  (b.filter checkExpired.expired, b.filter fun e => !checkExpired.expired e)

/-- The eviction loop: drop entries from the head until the free space is enough.
The loop never passes the end of a bucket whose capacity is enough. -/
def evictUntil (requiredSize : ℕ) : ℕ → List Entry → List Entry × List Entry
  | _, [] => ([], [])
  | curFreeSpace, e :: b =>
    if requiredSize ≤ curFreeSpace + e.slot then ([e], b)
    else
      (e :: (evictUntil requiredSize (curFreeSpace + e.slot) b).1,
        (evictUntil requiredSize (curFreeSpace + e.slot) b).2)

/-- What making space did: the expired entries, the entries evicted for space, and
the ones that stay. -/
structure Space where
  expired : List Entry
  evicted : List Entry
  kept : List Entry

def makeSpace (capacity size : ℕ) (checkExpired : ExpiredCheck) (b : List Entry) : Space :=
  if slotSize size ≤ remainingCapacity capacity b then ⟨[], [], b⟩
  else
    let r := removeExpired checkExpired b
    if 0 < r.1.length ∧ slotSize size ≤ remainingCapacity capacity r.2 then ⟨r.1, [], r.2⟩
    else
      let q := evictUntil (slotSize size) (remainingCapacity capacity r.2) r.2
      ⟨r.1, q.1, q.2⟩

/-- The bucket after `insert`, whose evictions are those of `makeSpace`. -/
def insert (capacity : ℕ) (checkExpired : ExpiredCheck) (e : Entry) (b : List Entry) :
    Space × List Entry :=
  let m := makeSpace capacity e.size checkExpired b
  (m, m.kept ++ [e])

/-! ## Sizes -/

@[simp] lemma endOffset_nil : endOffset [] = 0 := rfl

@[simp] lemma endOffset_cons (e : Entry) (b : List Entry) :
    endOffset (e :: b) = e.slot + endOffset b := by
  simp [endOffset]

@[simp] lemma endOffset_append (a b : List Entry) :
    endOffset (a ++ b) = endOffset a + endOffset b := by
  simp [endOffset]

variable {b : List Entry} {k : Key}

lemma endOffset_perm {a : List Entry} (h : a.Perm b) : endOffset a = endOffset b := (h.map _).sum_eq

/-! ## Lookup and removal -/

lemma find_eq_some (hb : (keys b).Nodup) {v : Value} : find b k = some v ↔ ⟨k, v⟩ ∈ b := by
  induction b with
  | nil => simp [find]
  | cons e b ih =>
    rw [keys, map_cons, nodup_cons] at hb
    rw [find, mem_cons]
    by_cases he : e.key = k
    · rw [if_pos he]
      constructor
      · intro h
        left
        rw [← he, ← Option.some.inj h]
      · intro h
        rcases h with h | h
        · rw [← h]
        · exact absurd (mem_map.2 ⟨_, h, he.symm⟩) hb.1
    · rw [if_neg he, ih hb.2]
      constructor
      · exact Or.inr
      · intro h
        rcases h with h | h
        · exact absurd (by rw [← h]) he
        · exact h

lemma remove_perm (b : List Entry) (k : Key) : ((remove b k).1 ++ (remove b k).2).Perm b := by
  induction b with
  | nil => simp [remove]
  | cons e b ih =>
    rw [remove]
    split_ifs
    · simp
    · exact perm_middle.trans (ih.cons e)

lemma remove_fst_key {e : Entry} (he : e ∈ (remove b k).1) : e.key = k := by
  induction b with
  | nil => simp [remove] at he
  | cons d b ih =>
    rw [remove] at he
    split_ifs at he with hd
    · rw [mem_singleton.1 he, hd]
    · exact ih he

/-- With distinct keys, removal leaves exactly the entries of the other keys. -/
lemma remove_snd (hb : (keys b).Nodup) (k : Key) :
    (remove b k).2 = b.filter fun e => decide (e.key ≠ k) := by
  induction b with
  | nil => rfl
  | cons e b ih =>
    rw [keys, map_cons, nodup_cons] at hb
    rw [remove]
    by_cases he : e.key = k
    · have hall : ∀ d ∈ b, decide (d.key ≠ k) = true := by
        intro d hd
        apply decide_eq_true
        intro hk
        exact hb.1 (mem_map.2 ⟨d, hd, hk.trans he.symm⟩)
      rw [if_pos he, filter_cons_of_neg (by simp [he]), filter_eq_self.2 hall]
    · rw [if_neg he, filter_cons_of_pos (by simp [he]), ih hb.2]

lemma remove_fst_eq_nil : (remove b k).1 = [] ↔ k ∉ keys b := by
  induction b with
  | nil => simp [remove, keys]
  | cons e b ih =>
    rw [remove]
    by_cases he : e.key = k
    · simp [he, keys]
    · rw [if_neg he, ih, keys, keys, map_cons, mem_cons]
      simp [Ne.symm he]

lemma remove_fst_length_le (b : List Entry) (k : Key) : (remove b k).1.length ≤ 1 := by
  induction b with
  | nil => simp [remove]
  | cons e b ih =>
    rw [remove]
    split_ifs
    · simp
    · exact ih

/-! ## Making space -/

lemma evictUntil_append (requiredSize cur : ℕ) (b : List Entry) :
    (evictUntil requiredSize cur b).1 ++ (evictUntil requiredSize cur b).2 = b := by
  induction b generalizing cur with
  | nil => rfl
  | cons e b ih =>
    rw [evictUntil]
    split_ifs
    · rfl
    · rw [cons_append, ih]

lemma evictUntil_room (requiredSize cur : ℕ) (hne : b ≠ []) (h : requiredSize ≤ cur + endOffset b) :
    requiredSize ≤ cur + endOffset (evictUntil requiredSize cur b).1 := by
  induction b generalizing cur with
  | nil => exact absurd rfl hne
  | cons e b ih =>
    rw [evictUntil]
    rw [endOffset_cons] at h
    split_ifs with hroom
    · simpa using hroom
    · have hb : b ≠ [] := by
        intro hb
        rw [hb, endOffset_nil] at h
        omega
      have := ih (cur + e.slot) hb (by omega)
      rw [endOffset_cons]
      omega

section
variable (capacity size : ℕ) (checkExpired : ExpiredCheck) (b : List Entry)

/-- The two ways in which space is made: there was enough, or the expired entries
go and then the oldest of the others. -/
lemma makeSpace_cases : (slotSize size ≤ remainingCapacity capacity b ∧
      makeSpace capacity size checkExpired b = ⟨[], [], b⟩) ∨
    ((makeSpace capacity size checkExpired b).expired = b.filter checkExpired.expired ∧
      (makeSpace capacity size checkExpired b).evicted ++
        (makeSpace capacity size checkExpired b).kept =
          b.filter fun e => !checkExpired.expired e) := by
  rw [makeSpace]
  dsimp only
  split_ifs with hfree _
  · exact Or.inl ⟨hfree, rfl⟩
  · exact Or.inr ⟨rfl, rfl⟩
  · exact Or.inr ⟨rfl, evictUntil_append _ _ _⟩

lemma makeSpace_perm : ((makeSpace capacity size checkExpired b).expired ++
      (makeSpace capacity size checkExpired b).evicted ++
        (makeSpace capacity size checkExpired b).kept).Perm b := by
  rcases makeSpace_cases capacity size checkExpired b with ⟨_, h⟩ | ⟨hexp, hkept⟩
  · rw [h]
    simp
  · rw [append_assoc, hkept, hexp]
    exact filter_append_perm _ b

end

lemma makeSpace_room {capacity size : ℕ} (hsize : slotSize size ≤ capacity)
    (hb : endOffset b ≤ capacity) (checkExpired : ExpiredCheck) :
    endOffset (makeSpace capacity size checkExpired b).kept + slotSize size ≤ capacity := by
  have hfilter := endOffset_perm (filter_append_perm checkExpired.expired b)
  rw [endOffset_append] at hfilter
  by_cases hfree : slotSize size ≤ remainingCapacity capacity b
  · rw [makeSpace, if_pos hfree]
    rw [remainingCapacity] at hfree
    dsimp only
    omega
  rw [makeSpace, if_neg hfree]
  by_cases hexp : 0 < (removeExpired checkExpired b).1.length ∧
      slotSize size ≤ remainingCapacity capacity (removeExpired checkExpired b).2
  · dsimp only
    rw [if_pos hexp]
    have hroom := hexp.2
    rw [remainingCapacity] at hroom
    dsimp only [removeExpired] at hroom ⊢
    omega
  · dsimp only
    rw [if_neg hexp]
    dsimp only [removeExpired, remainingCapacity] at hexp hfree ⊢
    -- an entry is left for the loop, because an empty bucket has room
    have hne : (b.filter fun e => !checkExpired.expired e) ≠ [] := by
      intro hnil
      rw [hnil] at hexp hfilter
      have hlen : b.filter checkExpired.expired = [] := by
        by_contra hcon
        exact hexp ⟨length_pos_of_ne_nil hcon, by simpa using hsize⟩
      rw [hlen] at hfilter
      simp only [endOffset_nil] at hfilter
      omega
    have hroom := evictUntil_room (slotSize size)
      (capacity - endOffset (b.filter fun e => !checkExpired.expired e)) hne (by omega)
    have hsplit := congrArg endOffset (evictUntil_append (slotSize size)
      (capacity - endOffset (b.filter fun e => !checkExpired.expired e))
      (b.filter fun e => !checkExpired.expired e))
    rw [endOffset_append] at hsplit
    omega

lemma makeSpace_kept_sublist (capacity size : ℕ) (checkExpired : ExpiredCheck)
    (b : List Entry) : (makeSpace capacity size checkExpired b).kept.Sublist b := by
  rcases makeSpace_cases capacity size checkExpired b with ⟨_, h⟩ | ⟨_, hkept⟩
  · rw [h]
  · have hsuffix := sublist_append_right (makeSpace capacity size checkExpired b).evicted
      (makeSpace capacity size checkExpired b).kept
    rw [hkept] at hsuffix
    exact hsuffix.trans filter_sublist

end HybridCache.Bucket

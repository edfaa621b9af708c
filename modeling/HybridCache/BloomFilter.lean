import HybridCache.Bits

/-!
# An array of Bloom filters in one block of bytes

Every filter owns `filterByteSize` bytes of the block and has one table of bits
for each hash function. The hash functions are arbitrary. A memory is a function
from byte addresses, which is enough here because no operation leaves the bytes
of its filter.
-/
namespace HybridCache.BloomFilter
open Bits Nat List

structure Params where
  numHashes : ℕ
  hashTableBitSize : ℕ
  hashInt : ℕ → ℕ
  combineHashes : ℕ → ℕ → ℕ
  numHashes_pos : 0 < numHashes
  hashTableBitSize_pos : 0 < hashTableBitSize

abbrev Bytes := ℕ → BitVec 8

def byteIndex (bitIdx : ℕ) : ℕ := bitIdx >>> 3

def bitMask (bitIdx : ℕ) : BitVec 8 := 1#8 <<< (bitIdx &&& 7)

def bitSet (mem : Bytes) (ptr bitIdx : ℕ) : Bytes :=
  Function.update mem (ptr + byteIndex bitIdx) (mem (ptr + byteIndex bitIdx) ||| bitMask bitIdx)

def bitGet (mem : Bytes) (ptr bitIdx : ℕ) : Bool :=
  decide (mem (ptr + byteIndex bitIdx) &&& bitMask bitIdx ≠ 0)

def bitsToBytes (bits : ℕ) : ℕ := ((bits + 7) / 8 * 8) >>> 3

section Filter
variable (p : Params)

def filterByteSize : ℕ := bitsToBytes (p.numHashes * p.hashTableBitSize)

def seeds : List ℕ := (List.range p.numHashes).map p.hashInt

def getFilterBytes (idx : ℕ) : ℕ := idx * filterByteSize p

def setLoop (ptr key : ℕ) : ℕ → List ℕ → Bytes → Bytes
  | _, [], mem => mem
  | firstBit, seed :: seeds, mem =>
    setLoop ptr key (firstBit + p.hashTableBitSize) seeds
      (bitSet mem ptr (firstBit + p.combineHashes key seed % p.hashTableBitSize))

def set (mem : Bytes) (idx key : ℕ) : Bytes :=
  setLoop p (getFilterBytes p idx) key 0 (seeds p) mem

def couldExistLoop (ptr key : ℕ) (mem : Bytes) : ℕ → List ℕ → Bool
  | _, [] => true
  | firstBit, seed :: seeds =>
    if bitGet mem ptr (firstBit + p.combineHashes key seed % p.hashTableBitSize) = false then false
    else couldExistLoop ptr key mem (firstBit + p.hashTableBitSize) seeds

def couldExist (mem : Bytes) (idx key : ℕ) : Bool :=
  couldExistLoop p (getFilterBytes p idx) key mem 0 (seeds p)

def clear (mem : Bytes) (idx : ℕ) : Bytes := fun a =>
  if getFilterBytes p idx ≤ a ∧ a < getFilterBytes p idx + filterByteSize p then 0 else mem a

/-! ## Bits -/

lemma bitGet_eq (mem : Bytes) (ptr i : ℕ) :
    bitGet mem ptr i = (mem (ptr + i / 8)).getLsbD (i % 8) := by
  have hlt : i % 8 < 8 := mod_lt i (by decide)
  have hmask : i &&& 7 = i % 8 := and_two_pow_sub_one_eq_mod i 3
  rw [bitGet, byteIndex, bitMask, shiftRight_eq_div_pow, hmask]
  have hbit := and_shift_eq_zero (mem (ptr + i / 8)) (i % 8) hlt
  rw [Bool.eq_iff_iff, decide_eq_true_iff, ne_eq, hbit, Bool.not_eq_false]

lemma bitGet_bitSet (mem : Bytes) (ptr i ptr' j : ℕ) : bitGet (bitSet mem ptr i) ptr' j =
      (decide (ptr' + j / 8 = ptr + i / 8 ∧ j % 8 = i % 8) || bitGet mem ptr' j) := by
  have hlt : j % 8 < 8 := mod_lt j (by decide)
  have hmask : i &&& 7 = i % 8 := and_two_pow_sub_one_eq_mod i 3
  rw [bitGet_eq, bitGet_eq, bitSet, byteIndex, bitMask, shiftRight_eq_div_pow, hmask,
    Function.update_apply]
  by_cases ha : ptr' + j / 8 = ptr + i / 8
  · rw [if_pos ha, ha]
    refine (getLsbD_setBit (mem (ptr + i / 8)) (i % 8) (j % 8) hlt).trans ?_
    simp only [true_and]
  · rw [if_neg ha]
    simp [ha]

/-- The bits that a key sets and reads. -/
def positions (key : ℕ) : ℕ → List ℕ → List ℕ
  | _, [] => []
  | firstBit, seed :: seeds =>
    (firstBit + p.combineHashes key seed % p.hashTableBitSize) ::
      positions key (firstBit + p.hashTableBitSize) seeds

lemma positions_lt (key firstBit : ℕ) (ss : List ℕ) :
    ∀ q ∈ positions p key firstBit ss, q < firstBit + ss.length * p.hashTableBitSize := by
  induction ss generalizing firstBit with
  | nil => simp [positions]
  | cons seed ss ih =>
    intro q hq
    have hmod := mod_lt (p.combineHashes key seed) p.hashTableBitSize_pos
    rw [length_cons, succ_mul]
    rcases mem_cons.1 hq with rfl | hq
    · omega
    · have := ih (firstBit + p.hashTableBitSize) q hq
      omega

lemma couldExistLoop_eq (ptr key : ℕ) (mem : Bytes) (firstBit : ℕ) (ss : List ℕ) :
    couldExistLoop p ptr key mem firstBit ss =
      (positions p key firstBit ss).all fun q => bitGet mem ptr q := by
  induction ss generalizing firstBit with
  | nil => rfl
  | cons seed ss ih =>
    simp only [couldExistLoop, positions, all_cons, ih]
    cases bitGet mem ptr (firstBit + p.combineHashes key seed % p.hashTableBitSize) <;> simp

lemma bitGet_setLoop (ptr key ptr' j : ℕ) (firstBit : ℕ) (ss : List ℕ) (mem : Bytes) :
    bitGet (setLoop p ptr key firstBit ss mem) ptr' j = (((positions p key firstBit ss).any fun q =>
        decide (ptr' + j / 8 = ptr + q / 8 ∧ j % 8 = q % 8)) || bitGet mem ptr' j) := by
  induction ss generalizing firstBit mem with
  | nil => simp [setLoop, positions]
  | cons seed ss ih =>
    simp only [setLoop, positions, any_cons, ih, bitGet_bitSet]
    rw [← Bool.or_assoc]
    congr 1
    rw [Bool.or_comm]

def bit (mem : Bytes) (idx j : ℕ) : Bool := bitGet mem (getFilterBytes p idx) j

lemma seeds_length : (seeds p).length = p.numHashes := by simp [seeds]

lemma div_lt_filterByteSize {q : ℕ} (hq : q < p.numHashes * p.hashTableBitSize) :
    q / 8 < filterByteSize p := by
  rw [filterByteSize, bitsToBytes, shiftRight_eq_div_pow]
  omega

/-- Bits of different filters, or of different index, are different. -/
lemma address_inj {idx idx' q j : ℕ} (hq : q < p.numHashes * p.hashTableBitSize)
    (hj : j < p.numHashes * p.hashTableBitSize) :
    (getFilterBytes p idx' + j / 8 = getFilterBytes p idx + q / 8 ∧ j % 8 = q % 8) ↔
      idx' = idx ∧ j = q := by
  have hq' := div_lt_filterByteSize p hq
  have hj' := div_lt_filterByteSize p hj
  have hpos : 0 < filterByteSize p := by omega
  constructor
  · rintro ⟨ha, hm⟩
    rw [getFilterBytes, getFilterBytes] at ha
    have hidx : idx' = idx := by
      have h1 := congrArg (· / filterByteSize p) ha
      simpa [mul_add_div hpos, mul_comm _ (filterByteSize p), div_eq_of_lt hq',
        div_eq_of_lt hj'] using h1
    subst hidx
    refine ⟨rfl, ?_⟩
    omega
  · rintro ⟨rfl, rfl⟩
    exact ⟨rfl, rfl⟩

def keyBits (key : ℕ) : List ℕ := positions p key 0 (seeds p)

lemma keyBits_lt {key q : ℕ} (hq : q ∈ keyBits p key) : q < p.numHashes * p.hashTableBitSize := by
  have := positions_lt p key 0 (seeds p) q hq
  rwa [seeds_length, zero_add] at this

lemma couldExist_iff (mem : Bytes) (idx key : ℕ) :
    couldExist p mem idx key = true ↔ ∀ q ∈ keyBits p key, bit p mem idx q = true := by
  rw [couldExist, couldExistLoop_eq, all_eq_true]
  rfl

lemma bit_set (mem : Bytes) (idx key idx' : ℕ) {j : ℕ} (hj : j < p.numHashes * p.hashTableBitSize) :
    bit p (set p mem idx key) idx' j = true ↔
      (idx' = idx ∧ j ∈ keyBits p key) ∨ bit p mem idx' j = true := by
  rw [bit, set, bitGet_setLoop, Bool.or_eq_true, any_eq_true]
  refine or_congr ?_ Iff.rfl
  constructor
  · rintro ⟨q, hq, hd⟩
    obtain ⟨hidx, rfl⟩ := (address_inj p (keyBits_lt p hq) hj).1 (of_decide_eq_true hd)
    exact ⟨hidx, hq⟩
  · rintro ⟨rfl, hmem⟩
    exact ⟨j, hmem, by simp⟩

lemma bit_clear (mem : Bytes) (idx idx' : ℕ) {j : ℕ} (hj : j < p.numHashes * p.hashTableBitSize) :
    bit p (clear p mem idx) idx' j = if idx' = idx then false else bit p mem idx' j := by
  have hj' := div_lt_filterByteSize p hj
  rw [bit, bit, bitGet_eq, bitGet_eq, clear]
  split_ifs with hr hidx hidx
  · simp
  · exfalso
    rw [getFilterBytes, getFilterBytes] at hr
    rcases lt_or_gt_of_ne hidx with hlt | hgt
    · have := mul_le_mul_right (filterByteSize p) (succ_le_of_lt hlt)
      rw [succ_mul] at this
      omega
    · have := mul_le_mul_right (filterByteSize p) (succ_le_of_lt hgt)
      rw [succ_mul] at this
      omega
  · subst hidx
    omega
  · rfl

/-! ## The interface -/

theorem couldExist_set_self (mem : Bytes) (idx key : ℕ) :
    couldExist p (set p mem idx key) idx key = true := by
  rw [couldExist_iff]
  intro q hq
  rw [bit_set p mem idx key idx (keyBits_lt p hq)]
  exact .inl ⟨rfl, hq⟩

theorem couldExist_set_mono (mem : Bytes) (idx key idx' key' : ℕ)
    (h : couldExist p mem idx' key' = true) :
    couldExist p (set p mem idx key) idx' key' = true := by
  rw [couldExist_iff] at h ⊢
  intro q hq
  rw [bit_set p mem idx key idx' (keyBits_lt p hq)]
  exact .inr (h q hq)

theorem couldExist_set_other (mem : Bytes) (idx key idx' key' : ℕ) (hne : idx' ≠ idx) :
    couldExist p (set p mem idx key) idx' key' = couldExist p mem idx' key' := by
  rw [Bool.eq_iff_iff, couldExist_iff, couldExist_iff]
  refine forall₂_congr fun q hq => ?_
  rw [bit_set p mem idx key idx' (keyBits_lt p hq)]
  simp [hne]

theorem couldExist_clear_self (mem : Bytes) (idx key : ℕ) :
    couldExist p (clear p mem idx) idx key = false := by
  rw [← Bool.not_eq_true, couldExist_iff]
  intro h
  have hne : keyBits p key ≠ [] := by
    rw [keyBits]
    cases hs : seeds p with
    | nil =>
      have := seeds_length p
      rw [hs] at this
      have := p.numHashes_pos
      simp at *
      omega
    | cons seed ss => simp [positions]
  obtain ⟨q, hq⟩ := exists_mem_of_ne_nil _ hne
  have := h q hq
  rw [bit_clear p mem idx idx (keyBits_lt p hq)] at this
  simp at this

theorem couldExist_clear_other (mem : Bytes) (idx idx' key : ℕ) (hne : idx' ≠ idx) :
    couldExist p (clear p mem idx) idx' key = couldExist p mem idx' key := by
  rw [Bool.eq_iff_iff, couldExist_iff, couldExist_iff]
  refine forall₂_congr fun q hq => ?_
  rw [bit_clear p mem idx idx' (keyBits_lt p hq), if_neg hne]

end Filter

end HybridCache.BloomFilter

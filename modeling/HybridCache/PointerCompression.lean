import HybridCache.SlabAllocator

/-!
# Compressed pointers

A pointer into a slab is kept in 32 bits: the index of the slab in the upper half, the index of
the allocation in the lower one. The pattern with every bit set is null. The headers of the slabs
take at least the first slab of the memory, so that the last slab index is never used.
-/
namespace HybridCache.PointerCompression
open SlabAllocator

/-- `1 << Slab::kMinAllocPower`. -/
def getMinAllocSize : ℕ := 2 ^ 6

def kNumAllocIdxBits : ℕ := 22 - 6

def kNumTierIdxOffset : ℕ := 31

def numSlabIdxBits (isMultiTiered : Bool) : ℕ :=
  kNumTierIdxOffset - kNumAllocIdxBits + if isMultiTiered then 0 else 1

def getMaxAddressableSize : ℕ := 2 ^ (numSlabIdxBits false + 22)

/-- `CompressedPtr::kNull`. -/
def kNull : ℕ := 0xffffffff

/-- `CompressedPtr::compress`, in `uint32_t`. -/
def pack (slabIdx allocIdx : ℕ) (isMultiTiered : Bool) (tid : ℕ) : ℕ :=
  let ptr := (slabIdx <<< kNumAllocIdxBits + allocIdx) % 2 ^ 32
  if isMultiTiered then (tid <<< kNumTierIdxOffset + ptr) % 2 ^ 32 else ptr

def getSlabIdx (ptr : ℕ) (isMultiTiered : Bool) : ℕ :=
  (if isMultiTiered then ptr % 2 ^ kNumTierIdxOffset else ptr) >>> kNumAllocIdxBits

def getAllocIdx (ptr : ℕ) : ℕ := ptr &&& (2 ^ kNumAllocIdxBits - 1)

/-- The code as the `int64_t` of the saved state. -/
def saveState (ptr : ℕ) : ℤ := ptr

/-- The restoring constructor, a cast to `uint32_t`. -/
def restore (saved : ℤ) : ℕ := (saved % 2 ^ 32).toNat

def sizeofSlabHeader : ℕ := 1 + 1 + 1 + 4

def numSlabs (memorySize : ℕ) : ℕ := memorySize / kSize

def numSlabsForHeaders (memorySize : ℕ) : ℕ :=
  (sizeofSlabHeader * numSlabs memorySize + kSize - 1) / kSize

/-- An allocator past the checks of `computeSlabMemoryStart`; addresses are numbers. -/
structure Memory where
  memoryStart : ℕ
  memorySize : ℕ
  start_ne : memoryStart ≠ 0
  aligned : memoryStart % kSize = 0
  headers_lt : numSlabsForHeaders memorySize < numSlabs memorySize
  /-- Slabs before `nextSlabAllocation_`. -/
  next : ℕ
  next_le : next ≤ numSlabs memorySize - numSlabsForHeaders memorySize
  /-- `SlabHeader::allocSize`, by slab index. -/
  allocSize : ℕ → ℕ

namespace Memory

variable (m : Memory)

def slabMemoryStart : ℕ := m.memoryStart + numSlabsForHeaders m.memorySize * kSize

/-- The mask clears the lower 22 bits. -/
def getSlabForMemory (memory : ℕ) : ℕ := memory / kSize * kSize

def isValidSlab (slab : ℕ) : Bool :=
  m.slabMemoryStart ≤ slab && slab < m.slabMemoryStart + m.next * kSize &&
    getSlabForMemory slab == slab

/-- `none` is the thrown `std::invalid_argument`, address `0` is `nullptr`. -/
def compress (ptr : ℕ) (isMultiTiered : Bool) : Option ℕ :=
  if ptr = 0 then some kNull
  else
    let slab := getSlabForMemory ptr
    if m.isValidSlab slab then
      let slabIndex := (slab - m.slabMemoryStart) / kSize % 2 ^ 32
      let allocIdx := (ptr - slab) % 2 ^ 32 / m.allocSize slabIndex
      some (pack slabIndex allocIdx isMultiTiered 0)
    else none

/-- The optimized build, without the checks under `NDEBUG`. -/
def unCompress (ptr : ℕ) (isMultiTiered : Bool) : ℕ :=
  if ptr = kNull then 0
  else
    let slabIndex := getSlabIdx ptr isMultiTiered
    let offset := m.allocSize slabIndex * getAllocIdx ptr % 2 ^ 32
    m.slabMemoryStart + slabIndex * kSize + offset

/-- Allocation `i` of a slab that has been cut lies inside the slab and starts at `ptr`. -/
structure Starts (slab i ptr : ℕ) : Prop where
  cut : slab < m.next
  min_le : getMinAllocSize ≤ m.allocSize slab
  inside : m.allocSize slab * i + m.allocSize slab ≤ kSize
  address : ptr = m.slabMemoryStart + slab * kSize + m.allocSize slab * i

variable {m} {slab i ptr : ℕ}

/-- One slab at least holds headers, which keeps the index of a slab under `2 ^ 16 - 1`. -/
theorem slab_lt (hsize : m.memorySize ≤ getMaxAddressableSize) (h : slab < m.next) :
    slab < 2 ^ 16 - 1 := by
  have hnext := m.next_le
  have hslabs : numSlabs m.memorySize ≤ 2 ^ 16 :=
    Nat.div_le_of_le_mul (hsize.trans (by decide))
  have hheaders : 1 ≤ numSlabsForHeaders m.memorySize := by
    rw [numSlabsForHeaders, Nat.le_div_iff_mul_le (by decide)]
    simp only [sizeofSlabHeader, kSize] at *
    omega
  omega

theorem Starts.index_lt (h : m.Starts slab i ptr) : i < 2 ^ 16 := by
  have hmin := Nat.mul_le_mul_right i h.min_le
  have hinside := h.inside
  have hpos := h.min_le
  simp only [getMinAllocSize, kSize] at *
  omega

/-- `compress` finds the two indices of an allocation. -/
theorem Starts.compress (h : m.Starts slab i ptr) (hslab : slab < 2 ^ 16 - 1) :
    m.compress ptr false = some (slab * 2 ^ 16 + i) := by
  have hi := h.index_lt
  have hpos : 0 < m.allocSize slab := lt_of_lt_of_le (by decide) h.min_le
  have hoffset : m.allocSize slab * i < kSize := by have := h.inside; omega
  have hstart : m.slabMemoryStart % kSize = 0 := by
    rw [slabMemoryStart, Nat.add_mul_mod_self_right, m.aligned]
  have hne : ptr ≠ 0 := by
    have := m.start_ne
    rw [h.address, slabMemoryStart]
    omega
  have hfloor : getSlabForMemory ptr = m.slabMemoryStart + slab * kSize := by
    have hcut := h.address
    simp only [getSlabForMemory, kSize] at *
    omega
  have hvalid : m.isValidSlab (m.slabMemoryStart + slab * kSize) := by
    have hcut := Nat.mul_lt_mul_of_pos_right h.cut (show 0 < kSize by decide)
    simp only [isValidSlab, Bool.and_eq_true, decide_eq_true_eq, beq_iff_eq, ← hfloor]
    simp only [getSlabForMemory, kSize] at *
    omega
  have hindex : slab * kSize / kSize % 2 ^ 32 = slab := by
    rw [Nat.mul_div_cancel _ (by decide), Nat.mod_eq_of_lt (by omega)]
  have halloc : m.allocSize slab * i % 2 ^ 32 / m.allocSize slab = i := by
    rw [Nat.mod_eq_of_lt (hoffset.trans (by decide)), Nat.mul_div_cancel_left _ hpos]
  simp only [Memory.compress, if_neg hne, hfloor, hvalid, if_true, Nat.add_sub_cancel_left,
    hindex, pack, kNumAllocIdxBits, Nat.shiftLeft_eq]
  rw [h.address, Nat.add_sub_cancel_left, halloc]
  simp only [Bool.false_eq_true, if_false, Option.some.injEq]
  omega

theorem Starts.unCompress (h : m.Starts slab i ptr) (hslab : slab < 2 ^ 16 - 1) :
    m.unCompress (slab * 2 ^ 16 + i) false = ptr := by
  have hi := h.index_lt
  have hne : slab * 2 ^ 16 + i ≠ kNull := by rw [kNull]; omega
  have hindex : (slab * 2 ^ 16 + i) / 2 ^ 16 = slab := by omega
  have halloc : (slab * 2 ^ 16 + i) % 2 ^ 16 = i := by omega
  have hoffset : m.allocSize slab * i < 2 ^ 32 := by
    have := h.inside
    simp only [kSize] at this
    omega
  simp only [Memory.unCompress, if_neg hne, getSlabIdx, getAllocIdx, kNumAllocIdxBits,
    Nat.and_two_pow_sub_one_eq_mod, Nat.shiftRight_eq_div_pow, Bool.false_eq_true, if_false,
    Nat.reduceSub, hindex, halloc, Nat.mod_eq_of_lt hoffset, h.address]

/-- In every memory that can be addressed the code of an allocation leads back to it, belongs to
no other allocation, is not null and survives a save and a restore. -/
theorem compress_exact (m : Memory) (hsize : m.memorySize ≤ getMaxAddressableSize)
    (slab i ptr : ℕ) (h : m.Starts slab i ptr) :
    ∃ code, m.compress ptr false = some code ∧ m.unCompress code false = ptr ∧
      code ≠ kNull ∧ restore (saveState code) = code ∧
      ∀ slab' i' ptr', m.Starts slab' i' ptr' → m.compress ptr' false = some code →
        ptr' = ptr := by
  have hslab := slab_lt hsize h.cut
  have hi := h.index_lt
  refine ⟨slab * 2 ^ 16 + i, h.compress hslab, h.unCompress hslab, ?_, ?_, ?_⟩
  · rw [kNull]
    omega
  · rw [restore, saveState]
    omega
  · intro slab' i' ptr' h' hcode
    have hslab' := slab_lt hsize h'.cut
    rw [h'.compress hslab', Option.some.injEq] at hcode
    rw [← h'.unCompress hslab', hcode, h.unCompress hslab]

/-- The largest memory, with all its slabs cut into allocations of 72 bytes. -/
def largest : Memory where
  memoryStart := 2 ^ 22
  memorySize := 2 ^ 38
  start_ne := by decide
  aligned := by decide
  headers_lt := by decide
  next := 65535
  next_le := by decide
  allocSize := fun _ => 72

/-- Its last allocation. -/
theorem largest_compress_exact :
    ∃ code, largest.compress (65536 * 2 ^ 22 + 72 * 58253) false = some code ∧ code ≠ kNull := by
  have h : largest.Starts 65534 58253 (65536 * 2 ^ 22 + 72 * 58253) :=
    ⟨by decide, by decide, by decide, by decide⟩
  obtain ⟨code, hcode, -, hne, -⟩ := compress_exact largest (by decide) _ _ _ h
  exact ⟨code, hcode, hne⟩

end Memory
end HybridCache.PointerCompression

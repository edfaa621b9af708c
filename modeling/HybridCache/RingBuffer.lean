import Mathlib.Tactic

/-!
# A ring buffer with indices that do not wrap

The elements have the indices from `first` up to `last`; the slot of an index is its
remainder. An access outside this range fails.
-/
namespace HybridCache

open Function

/-- `data` has one slot for every remainder modulo the capacity. -/
structure RingBuffer (α : Type*) (capacity : ℕ) where
  data : ℕ → α
  first : ℕ
  last : ℕ

namespace RingBuffer

variable {α : Type*} {capacity : ℕ}

def size (b : RingBuffer α capacity) : ℕ := b.last - b.first

def push (b : RingBuffer α capacity) (val : α) : RingBuffer α capacity :=
  { b with data := update b.data (b.last % capacity) val, last := b.last + 1 }

/-- Returns the index of the new element; fails if the buffer is full. -/
def write (b : RingBuffer α capacity) (val : α) : Option (ℕ × RingBuffer α capacity) :=
  if capacity ≤ b.last - b.first then none else some (b.last, b.push val)

/-- Takes the oldest element; fails if the buffer is empty. -/
def read (b : RingBuffer α capacity) : Option (α × RingBuffer α capacity) :=
  if b.last ≤ b.first then none
  else some (b.data (b.first % capacity), { b with first := b.first + 1 })

def getAt (b : RingBuffer α capacity) (index : ℕ) : Option α :=
  if b.first ≤ index ∧ index < b.last then some (b.data (index % capacity)) else none

def put (b : RingBuffer α capacity) (index : ℕ) (val : α) : RingBuffer α capacity :=
  { b with data := update b.data (index % capacity) val }

def setAt (b : RingBuffer α capacity) (index : ℕ) (val : α) : Option (RingBuffer α capacity) :=
  if b.first ≤ index ∧ index < b.last then some (b.put index val) else none

/-- The element at an index that is in range. -/
def slot (b : RingBuffer α capacity) (index : ℕ) : α := b.data (index % capacity)

theorem getAt_eq {b : RingBuffer α capacity} {index : ℕ} (hfirst : b.first ≤ index)
    (hlast : index < b.last) : b.getAt index = some (b.slot index) :=
  if_pos ⟨hfirst, hlast⟩

/-- Indices that are less than a capacity apart have different slots. -/
theorem mod_ne {i j : ℕ} (hij : i < j) (hclose : j - i < capacity) :
    i % capacity ≠ j % capacity := by
  intro he
  have hdvd : capacity ∣ j - i := (Nat.modEq_iff_dvd' hij.le).1 he
  exact absurd (Nat.le_of_dvd (by omega) hdvd) (by omega)

section Update
variable {b : RingBuffer α capacity} {val : α}

theorem write_eq (hroom : b.last - b.first < capacity) : b.write val = some (b.last, b.push val) :=
  if_neg (by omega)

variable {i index : ℕ} {b' : RingBuffer α capacity}

theorem setAt_eq (hfirst : b.first ≤ i) (hlast : i < b.last) :
    b.setAt i val = some (b.put i val) :=
  if_pos ⟨hfirst, hlast⟩

theorem write_last {n : ℕ} (h : b.write val = some (n, b')) :
    b'.last = b.last + 1 := by
  unfold write at h
  split_ifs at h
  cases h
  rfl

theorem setAt_last (h : b.setAt i val = some b') :
    b'.last = b.last := by
  unfold setAt at h
  split_ifs at h
  cases h
  rfl

theorem slot_push (hroom : b.last - b.first < capacity) (hfirst : b.first ≤ index)
    (hindex : index ≤ b.last) :
    (b.push val).slot index = if index = b.last then val else b.slot index := by
  by_cases he : index = b.last
  · rw [if_pos he, he]
    exact update_self ..
  · rw [if_neg he]
    exact update_of_ne (mod_ne (by omega) (by omega)) _ _

theorem slot_put (hsize : b.last - b.first ≤ capacity) (hi : b.first ≤ i)
    (hi' : i < b.last) (hfirst : b.first ≤ index) (hindex : index < b.last) :
    (b.put i val).slot index = if index = i then val else b.slot index := by
  by_cases he : index = i
  · rw [if_pos he, he]
    exact update_self ..
  · have hne : index % capacity ≠ i % capacity := by
      rcases Nat.lt_or_gt_of_ne he with hlt | hgt
      · exact mod_ne hlt (by omega)
      · exact (mod_ne hgt (by omega)).symm
    rw [if_neg he]
    exact update_of_ne hne _ _

end Update
end RingBuffer
end HybridCache

import Mathlib

/-!
# Bytes in memory

A memory has a byte at every address. `At m off bs` says that the bytes `bs` lie one after
another from `off` on, whatever the other bytes are. Each way of writing has one lemma for what
is written and one for the bytes it leaves as they are.
-/
namespace HybridCache.ByteMemory
open List Nat

abbrev Mem := ℕ → UInt8

def read (m : Mem) (off len : ℕ) : List UInt8 := (List.range len).map (fun i => m (off + i))

/-- `memcpy` from elsewhere. -/
def write (m : Mem) (off : ℕ) (bs : List UInt8) : Mem := fun i =>
  if off ≤ i then bs[i - off]?.getD (m i) else m i

/-- The source and the destination may overlap. -/
def memmove (m : Mem) (dst src len : ℕ) : Mem := fun i =>
  if dst ≤ i ∧ i < dst + len then m (src + (i - dst)) else m i

/-- Two bytes, the lower one first. -/
def bytes16 (x : UInt16) : List UInt8 := [UInt8.ofNat x.toNat, UInt8.ofNat (x.toNat / 2 ^ 8)]

def read16 (m : Mem) (off : ℕ) : UInt16 :=
  UInt16.ofNat ((m off).toNat + 2 ^ 8 * (m (off + 1)).toNat)

/-- Four bytes, the lowest one first. -/
def bytes32 (x : UInt32) : List UInt8 :=
  [UInt8.ofNat x.toNat, UInt8.ofNat (x.toNat / 2 ^ 8), UInt8.ofNat (x.toNat / 2 ^ 16),
    UInt8.ofNat (x.toNat / 2 ^ 24)]

def read32 (m : Mem) (off : ℕ) : UInt32 :=
  UInt32.ofNat ((m off).toNat + 2 ^ 8 * (m (off + 1)).toNat + 2 ^ 16 * (m (off + 2)).toNat +
    2 ^ 24 * (m (off + 3)).toNat)

def At (m : Mem) (off : ℕ) (bs : List UInt8) : Prop := ∀ i x, bs[i]? = some x → m (off + i) = x

variable {m m' : Mem} {off dst src len i : ℕ} {bs ws : List UInt8}

/-! ## Bytes that lie somewhere -/

@[simp] lemma at_nil : At m off [] := nofun

lemma at_cons {x : UInt8} : At m off (x :: bs) ↔ m off = x ∧ At m (off + 1) bs := by
  constructor
  · intro h
    refine ⟨h 0 x rfl, fun i y hy => ?_⟩
    rw [Nat.add_assoc, Nat.add_comm 1]
    exact h (i + 1) y hy
  · rintro ⟨hx, h⟩ i y hy
    cases i with
    | zero => exact hx.trans (Option.some.inj hy)
    | succ i =>
      rw [← h i y hy, Nat.add_assoc, Nat.add_comm 1]

lemma at_append : At m off (bs ++ ws) ↔ At m off bs ∧ At m (off + bs.length) ws := by
  induction bs generalizing off with
  | nil => simp
  | cons x bs ih =>
    rw [cons_append, at_cons, at_cons, ih, length_cons, and_assoc,
      Nat.add_assoc, Nat.add_comm 1]

/-- Only the bytes themselves count. -/
lemma At.congr (h : At m off bs) (hsame : ∀ i, off ≤ i → i < off + bs.length → m' i = m i) :
    At m' off bs := by
  intro i x hx
  have hi : i < bs.length := (List.getElem?_eq_some_iff.1 hx).1
  rw [hsame (off + i) (by omega) (by omega), h i x hx]

lemma At.read (h : At m off bs) : read m off bs.length = bs := by
  refine ext_getElem (by simp [ByteMemory.read]) fun i hi hi' => ?_
  simp only [ByteMemory.read, getElem_map, getElem_range]
  exact h i _ (getElem?_eq_getElem hi')

variable {x : UInt16} {d : ℕ}

lemma At.read16 (h : At m off (bytes16 x)) : read16 m off = x := by
  rw [bytes16, at_cons, at_cons] at h
  have hx : x.toNat < 2 ^ 16 := x.toNat_lt
  rw [ByteMemory.read16, h.1, h.2.1]
  apply UInt16.toNat_inj.1
  simp only [UInt16.toNat_ofNat', UInt8.toNat_ofNat']
  omega

lemma At.read32 {x : UInt32} (h : At m off (bytes32 x)) : read32 m off = x := by
  rw [bytes32, at_cons, at_cons, at_cons, at_cons] at h
  have hx : x.toNat < 2 ^ 32 := x.toNat_lt
  rw [ByteMemory.read32, h.1, h.2.1, h.2.2.1, h.2.2.2.1]
  apply UInt32.toNat_inj.1
  simp only [UInt32.toNat_ofNat', UInt8.toNat_ofNat']
  omega

lemma length_bytes32 {x : UInt32} : (bytes32 x).length = 4 := rfl

lemma length_bytes16 : (bytes16 x).length = 2 := rfl

@[simp] lemma length_read : (read m off len).length = len := by simp [read]

/-! ## Writing -/

lemma write_of_outside (h : i < off ∨ off + bs.length ≤ i) : write m off bs i = m i := by
  unfold write
  split_ifs with hi
  · rw [getElem?_eq_none (by omega), Option.getD_none]
  · rfl

lemma at_write : At (write m off bs) off bs := by
  intro i x hx
  simp [write, hx]

lemma At.write (h : At m off bs) (hout : off + bs.length ≤ dst ∨ dst + ws.length ≤ off) :
    At (write m dst ws) off bs :=
  h.congr fun _ _ _ => write_of_outside (by omega)

lemma At.write_middle {xs : List UInt8} {x y : UInt8} (h : At m off (bs ++ x :: xs)) :
    At (ByteMemory.write m (off + bs.length) [y]) off (bs ++ y :: xs) := by
  rw [at_append, at_cons] at h ⊢
  obtain ⟨hbs, -, hxs⟩ := h
  refine ⟨hbs.write (Or.inl (Nat.le_refl _)), ?_, hxs.write (Or.inr (by simp))⟩
  exact at_write 0 y rfl

lemma memmove_of_outside (h : i < dst ∨ dst + len ≤ i) : memmove m dst src len i = m i := by
  unfold memmove
  rw [if_neg (by omega)]

lemma At.memmove {k : ℕ} (h : At m (src + k) bs) (hk : k + bs.length ≤ len) :
    At (memmove m dst src len) (dst + k) bs := by
  intro i x hx
  have hi : i < bs.length := (List.getElem?_eq_some_iff.1 hx).1
  unfold ByteMemory.memmove
  rw [if_pos (by omega), ← h i x hx]
  congr 1
  omega

/-! ## Counters of one and two bytes -/

lemma toNat_sub_uint8 {x : UInt8} (hd : d ≤ x.toNat) :
    (x - UInt8.ofNat d).toNat = x.toNat - d := by
  have hx := x.toNat_lt
  have hofNat : (UInt8.ofNat d).toNat = d := by
    rw [UInt8.toNat_ofNat', mod_eq_of_lt (by omega)]
  rw [UInt8.toNat_sub_of_le _ _ (UInt8.le_iff_toNat_le.2 (by omega)), hofNat]

lemma toNat_sub_uint16 (hd : d ≤ x.toNat) :
    (x - UInt16.ofNat d).toNat = x.toNat - d := by
  have hx := x.toNat_lt
  have hofNat : (UInt16.ofNat d).toNat = d := by
    rw [UInt16.toNat_ofNat', mod_eq_of_lt (by omega)]
  rw [UInt16.toNat_sub_of_le _ _ (UInt16.le_iff_toNat_le.2 (by omega)), hofNat]

lemma toNat_add_uint16 (hd : x.toNat + d < 2 ^ 16) :
    (x + UInt16.ofNat d).toNat = x.toNat + d := by
  rw [UInt16.toNat_add, UInt16.toNat_ofNat', mod_eq_of_lt (by omega : d < 2 ^ 16),
    mod_eq_of_lt hd]

end HybridCache.ByteMemory

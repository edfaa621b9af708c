import Mathlib.Data.BitVec
import Mathlib.Tactic

/-!
# Single bits of a word

Testing, setting and clearing one bit by a mask, for words of any width. A number that is made of
a high and a low part is masked part by part.
-/
namespace HybridCache.Bits

open Nat

variable {w : ℕ}

theorem and_shift_eq_zero (v : BitVec w) (i : ℕ) (hi : i < w) :
    v &&& (1#w <<< i) = 0 ↔ v.getLsbD i = false := by
  constructor
  · intro h
    have := congrArg (fun u => u.getLsbD i) h
    simpa [hi] using this
  · intro h
    ext j hj
    by_cases hji : j = i
    · subst hji
      simp [← BitVec.getLsbD_eq_getElem, h]
    · simp
      omega

theorem getLsbD_setBit (v : BitVec w) (i j : ℕ) (hj : j < w) :
    (v ||| (1#w <<< i)).getLsbD j = (decide (j = i) || v.getLsbD j) := by
  by_cases hji : j = i
  · subst hji
    simp [hj]
  · simp [hji]
    omega

theorem getLsbD_clearBit (v : BitVec w) (i j : ℕ) (hj : j < w) :
    (v &&& ~~~(1#w <<< i)).getLsbD j = (!decide (j = i) && v.getLsbD j) := by
  by_cases hji : j = i
  · subst hji
    simp [hj]
  · simp [hji, hj]
    omega

section Parts
variable {i a b c d : ℕ}

theorem xor_split (hb : b < 2 ^ i) (hd : d < 2 ^ i) :
    (2 ^ i * a + b) ^^^ (2 ^ i * c + d) = 2 ^ i * (a ^^^ c) + (b ^^^ d) := by
  apply eq_of_testBit_eq
  intro j
  rw [testBit_xor, testBit_two_pow_mul_add a hb, testBit_two_pow_mul_add c hd,
    testBit_two_pow_mul_add _ (xor_lt_two_pow hb hd)]
  split_ifs
  · rw [testBit_xor]
  · rw [testBit_xor]

theorem and_split (hb : b < 2 ^ i) (hd : d < 2 ^ i) :
    (2 ^ i * a + b) &&& (2 ^ i * c + d) = 2 ^ i * (a &&& c) + (b &&& d) := by
  apply eq_of_testBit_eq
  intro j
  rw [testBit_and, testBit_two_pow_mul_add a hb, testBit_two_pow_mul_add c hd,
    testBit_two_pow_mul_add _ (and_lt_two_pow b hd)]
  split_ifs
  · rw [testBit_and]
  · rw [testBit_and]

end Parts

end HybridCache.Bits

import Mathlib.Data.Nat.Bits
import Mathlib.Tactic

/-!
# A consistent hash by a binary decision tree

`furcHash` draws bits for the key. At each level of the tree a bit says whether the result has
this many digits; if so, the other digits are drawn, and a result that is out of range is drawn
again at the same level. The bits come from `getbit`, which computes further hashes of the key
when they are needed and keeps them.

The loops are written over any generator of bits. What they do with a stream of bits is stated
next to them, and a generator that supplies a stream gives the same results. Numbers stay below
`2 ^ 32`.
-/
namespace HybridCache.FurcHash

open Function Nat

def kMaxTries : ℕ := 32

def kFurcShift : ℕ := 23

def kHashCacheSize : ℕ := 300

/-! ## The bits of a key -/

def murmurRehash64A (key : UInt64) : UInt64 :=
  let m : UInt64 := 0xc6a4a7935bd1e995
  let r : UInt64 := 47
  let h : UInt64 := 4193360111 ^^^ (8 * m)
  let key := key * m
  let key := key ^^^ (key >>> r)
  let key := key * m
  let h := h ^^^ key
  let h := h * m
  let h := h ^^^ (h >>> r)
  let h := h * m
  h ^^^ (h >>> r)

structure FurcHashState where
  hashIdx : ℕ
  hashCache : ℕ → UInt64

def FurcHashState.fill (s : FurcHashState) : ℕ → FurcHashState
  | 0 => s
  | count + 1 =>
    FurcHashState.fill ⟨s.hashIdx + 1, update s.hashCache (s.hashIdx + 1)
      (murmurRehash64A (s.hashCache s.hashIdx))⟩ count

/-- An index behind the cache is undefined. -/
def getbit (s : FurcHashState) (choice : ℕ) : Option (Bool × FurcHashState) :=
  let newHashIdx := choice / 64
  if newHashIdx < kHashCacheSize then
    let s := s.fill (newHashIdx - s.hashIdx)
    some ((s.hashCache newHashIdx).toNat.testBit (choice % 64), s)
  else none

/-- The state of a key with this hash; the rest of the cache is not initialized. -/
def FurcHashState.init (hash : UInt64) (memory : ℕ → UInt64) : FurcHashState :=
  ⟨0, update memory 0 hash⟩

/-! ## The decision tree -/

structure Result where
  value : ℕ
  exhausted : Bool
  deriving DecidableEq, Repr

def bitNumFrom (nPart : ℕ) : ℕ → ℕ → ℕ
  | 0, bitNum => bitNum
  | fuel + 1, bitNum => if 2 ^ bitNum < nPart then bitNumFrom nPart fuel (bitNum + 1) else bitNum

def bitNumOf (nPart : ℕ) : ℕ := bitNumFrom nPart nPart 0

section Loops
variable {σ : Type*} (getbit : σ → ℕ → Option (Bool × σ))

/-- The loop that goes down the levels: the level and the choice where it stops, or `none` if the
function returns 0. -/
def descendM : ℕ → ℕ → σ → Option (Option (ℕ × ℕ) × σ)
  | 0, _, _ => none
  | bitNum + 1, choice, s =>
    (getbit s choice).bind fun (bit, s) =>
      if bit = true then some (some (bitNum + 1, choice), s)
      else if bitNum = 0 then some (none, s)
      else descendM bitNum bitNum s

/-- The loop that draws the digits after the first. -/
def drawM : ℕ → ℕ → ℕ → σ → Option (ℕ × ℕ × σ)
  | 0, result, choice, s => some (result, choice, s)
  | count + 1, result, choice, s =>
    (getbit s choice).bind fun (bit, s) =>
      drawM count (2 * result + bit.toNat) (choice + kFurcShift) s

def triesM (nPart : ℕ) : ℕ → ℕ → ℕ → σ → Option Result
  | 0, _, _, _ => some ⟨0, true⟩
  | left + 1, bitNum, choice, s =>
    (descendM getbit bitNum choice s).bind fun
      | (none, _) => some ⟨0, false⟩
      | (some (bitNum, choice), s) =>
        (drawM getbit (bitNum - 1) 1 (choice + kFurcShift) s).bind fun (result, choice, s) =>
          if result < nPart then some ⟨result, false⟩ else triesM nPart left bitNum choice s

def furcHash (s : σ) (nPart : ℕ) : Option Result :=
  if nPart ≤ 1 then some ⟨0, false⟩
  else triesM getbit nPart kMaxTries (bitNumOf nPart) (bitNumOf nPart) s

end Loops

/-! ## With a stream of bits -/

section Stream
variable (bits : ℕ → Bool)

def descend : ℕ → ℕ → Option (ℕ × ℕ)
  | 0, _ => none
  | bitNum + 1, choice =>
    if bits choice = true then some (bitNum + 1, choice) else descend bitNum bitNum

def draw : ℕ → ℕ → ℕ → ℕ
  | 0, result, _ => result
  | count + 1, result, choice => draw count (2 * result + (bits choice).toNat) (choice + kFurcShift)

def tries (nPart : ℕ) : ℕ → ℕ → ℕ → Result
  | 0, _, _ => ⟨0, true⟩
  | left + 1, bitNum, choice =>
    match descend bits bitNum choice with
    | none => ⟨0, false⟩
    | some (bitNum, choice) =>
      let result := draw bits (bitNum - 1) 1 (choice + kFurcShift)
      if result < nPart then ⟨result, false⟩
      else tries nPart left bitNum (choice + kFurcShift * bitNum)

end Stream

variable {bits : ℕ → Bool} {m n : ℕ}

variable {b b' c c' k left r : ℕ}

lemma descend_le (h : descend bits b c = some (b', c')) : 0 < b' ∧ b' ≤ b := by
  induction b generalizing c with
  | zero => cases h
  | succ b ih =>
    rw [descend] at h
    split_ifs at h with hbit
    · cases h
      omega
    · have := ih h
      omega

lemma descend_choice_le (hbc : b ≤ c) (h : descend bits b c = some (b', c')) :
    b' ≤ c' ∧ c' ≤ c := by
  induction b generalizing c with
  | zero => cases h
  | succ b ih =>
    rw [descend] at h
    split_ifs at h with hbit
    · cases h
      omega
    · have := ih le_rfl h
      omega

/-- Whoever goes below a level gets there with a fresh choice. -/
lemma descend_through (hk : k < b)
    (hbelow : ∀ b' c', descend bits b c = some (b', c') → b' ≤ k) :
    descend bits b c = descend bits k k := by
  induction b generalizing c with
  | zero => omega
  | succ b ih =>
    by_cases hbit : bits c = true
    · have := hbelow (b + 1) c (by rw [descend, if_pos hbit])
      omega
    · have hnext : descend bits (b + 1) c = descend bits b b := by rw [descend, if_neg hbit]
      rw [hnext] at hbelow ⊢
      rcases Nat.lt_succ_iff_lt_or_eq.1 hk with hlt | rfl
      · exact ih hlt hbelow
      · rfl

lemma draw_bounds (count result choice : ℕ) : 2 ^ count * result ≤ draw bits count result choice ∧
      draw bits count result choice < 2 ^ count * (result + 1) := by
  induction count generalizing result choice with
  | zero => simp [draw]
  | succ count ih =>
    obtain ⟨hle, hlt⟩ := ih (2 * result + (bits choice).toNat) (choice + kFurcShift)
    have hbit : (bits choice).toNat ≤ 1 := Bool.toNat_le _
    constructor
    · calc 2 ^ count * 2 * result = 2 ^ count * (2 * result) := by ring
        _ ≤ 2 ^ count * (2 * result + (bits choice).toNat) := mul_le_mul_left _ (by omega)
        _ ≤ _ := hle
    · calc _ < 2 ^ count * (2 * result + (bits choice).toNat + 1) := hlt
        _ ≤ 2 ^ count * (2 * (result + 1)) := mul_le_mul_left _ (by omega)
        _ = 2 ^ count * 2 * (result + 1) := by ring

lemma le_draw {choice : ℕ} : 2 ^ (b - 1) ≤ draw bits (b - 1) 1 choice := by
  obtain ⟨hle, _⟩ : 2 ^ (b - 1) * 1 ≤ draw bits (b - 1) 1 choice ∧ _ := draw_bounds _ _ _
  omega

lemma tries_lt (hn : 0 < n) (left b c : ℕ) : (tries bits n left b c).value < n := by
  induction left generalizing b c with
  | zero => exact hn
  | succ left ih =>
    rw [tries]
    split
    · exact hn
    · simp only
      split_ifs with hlt
      · exact hlt
      · exact ih _ _

lemma tries_smaller (hmn : m ≤ n)
    (h : tries bits n left b c = ⟨r, false⟩) (hr : r < m) :
    tries bits m left b c = ⟨r, false⟩ := by
  induction left generalizing b c with
  | zero => cases h
  | succ left ih =>
    rw [tries] at h ⊢
    cases hdescend : descend bits b c with
    | none =>
      rw [hdescend] at h
      exact h
    | some p =>
      simp only [hdescend] at h ⊢
      split_ifs at h with hlt
      · cases h
        rw [if_pos hr]
      · rw [if_neg (by omega)]
        exact ih h

lemma tries_mono {left' : ℕ} (hle : left ≤ left')
    (h : tries bits n left b c = ⟨r, false⟩) : tries bits n left' b c = ⟨r, false⟩ := by
  induction left generalizing left' b c with
  | zero => cases h
  | succ left ih =>
    obtain ⟨left', rfl⟩ := exists_eq_succ_of_ne_zero (by omega : left' ≠ 0)
    rw [tries] at h ⊢
    cases hdescend : descend bits b c with
    | none =>
      rw [hdescend] at h
      exact h
    | some p =>
      simp only [hdescend] at h ⊢
      split_ifs at h ⊢ with hlt
      · exact h
      · exact ih (by omega) h

/-- A result with fewer digits has been drawn after going down from a fresh choice. -/
lemma tries_through (hk : k < b) (hr : r < 2 ^ k)
    (h : tries bits n left b c = ⟨r, false⟩) :
    ∃ left' ≤ left, tries bits n left' k k = ⟨r, false⟩ := by
  induction left generalizing b c with
  | zero => cases h
  | succ left ih =>
    by_cases hbelow : ∀ b' c', descend bits b c = some (b', c') → b' ≤ k
    · refine ⟨left + 1, le_rfl, ?_⟩
      rw [tries] at h ⊢
      rwa [← descend_through hk hbelow]
    · push Not at hbelow
      obtain ⟨b', c', hdescend, hlt⟩ := hbelow
      rw [tries, hdescend] at h
      simp only at h
      split_ifs at h with hin
      · -- a number with more digits is not the result
        cases h
        have hle : 2 ^ (b' - 1) ≤ draw bits (b' - 1) 1 (c' + kFurcShift) := le_draw
        have hpow : 2 ^ k ≤ 2 ^ (b' - 1) := Nat.pow_le_pow_right (by decide) (by omega)
        omega
      · obtain ⟨left', hle, hrest⟩ := ih hlt h
        exact ⟨left', by omega, hrest⟩


/-! ## A generator that supplies the stream -/

/-- In the states `I`, the generator has the bits of the stream for all the choices that the cache
has room for. -/
def Supplies {σ : Type*} (getbit : σ → ℕ → Option (Bool × σ)) (I : σ → Prop) (bits : ℕ → Bool) :
    Prop :=
  ∀ s choice, I s → choice < 64 * kHashCacheSize →
    ∃ s', getbit s choice = some (bits choice, s') ∧ I s'

section Supplied
variable {σ : Type*} {getbit : σ → ℕ → Option (Bool × σ)} {I : σ → Prop}
  (hbits : Supplies getbit I bits)
include hbits

variable {b c : ℕ} {s : σ}

lemma descendM_eq (hs : I s) (hpos : 0 < b) (hb : b ≤ kFurcShift)
    (hc : c < 64 * kHashCacheSize) :
    ∃ s', descendM getbit b c s = some (descend bits b c, s') ∧ I s' := by
  induction b generalizing c s with
  | zero => omega
  | succ b ih =>
    obtain ⟨s', hget, hs'⟩ := hbits s c hs hc
    rw [descendM, hget, Option.bind_some, descend]
    by_cases hbit : bits c = true
    · exact ⟨s', by simp only [if_pos hbit], hs'⟩
    · simp only [if_neg hbit]
      by_cases hzero : b = 0
      · subst hzero
        exact ⟨s', rfl, hs'⟩
      · rw [if_neg hzero]
        refine ih hs' (by omega) (by omega) ?_
        unfold kFurcShift at hb
        omega

lemma drawM_eq {count result choice : ℕ} {s : σ} (hs : I s)
    (hchoice : choice + kFurcShift * count ≤ 64 * kHashCacheSize) :
    ∃ s', drawM getbit count result choice s =
      some (draw bits count result choice, choice + kFurcShift * count, s') ∧ I s' := by
  induction count generalizing result choice s with
  | zero => exact ⟨s, rfl, hs⟩
  | succ count ih =>
    rw [mul_succ] at hchoice
    have hshift : 0 < kFurcShift := by decide
    obtain ⟨s', hget, hs'⟩ := hbits s choice hs (by omega)
    obtain ⟨s'', hrest, hs''⟩ := @ih (2 * result + (bits choice).toNat) (choice + kFurcShift) s' hs'
      (by omega)
    refine ⟨s'', ?_, hs''⟩
    have hend : choice + kFurcShift + kFurcShift * count = choice + kFurcShift * (count + 1) := by
      rw [mul_succ]
      omega
    rw [drawM, hget, Option.bind_some, draw, ← hend]
    exact hrest

lemma triesM_eq {left b c : ℕ} {s : σ} (hs : I s) (hpos : 0 < b) (hb : b ≤ kFurcShift)
    (hbc : b ≤ c) (hc : c + kFurcShift * kFurcShift * left < 64 * kHashCacheSize) :
    triesM getbit n left b c s = some (tries bits n left b c) := by
  induction left generalizing b c s with
  | zero => rfl
  | succ left ih =>
    obtain ⟨s', hdown, hs'⟩ := @descendM_eq bits σ getbit I hbits b c s hs hpos hb (by omega)
    rw [triesM, hdown, Option.bind_some, tries]
    cases hdescend : descend bits b c with
    | none => rfl
    | some p =>
      obtain ⟨b', c'⟩ := p
      obtain ⟨hpos', hle⟩ := descend_le hdescend
      obtain ⟨hbc', hc'⟩ := descend_choice_le hbc hdescend
      have hmul : kFurcShift * b' ≤ kFurcShift * kFurcShift := mul_le_mul_left _ (by omega)
      have hlast : c' + kFurcShift + kFurcShift * (b' - 1) = c' + kFurcShift * b' := by
        obtain ⟨k, rfl⟩ := exists_eq_succ_of_ne_zero hpos'.ne'
        rw [succ_sub_one, mul_succ]
        omega
      rw [mul_succ] at hc
      have hroom : c' + kFurcShift + kFurcShift * (b' - 1) ≤ 64 * kHashCacheSize := by omega
      obtain ⟨s'', hdraw, hs''⟩ := @drawM_eq bits σ getbit I hbits _ 1 _ _ hs' hroom
      simp only [hdraw, Option.bind_some]
      split_ifs with hlt
      · rfl
      · rw [hlast]
        exact ih hs'' hpos' (by omega) (by omega) (by omega)

end Supplied

/-! ## The generator of the source supplies a stream -/

/-- The bits of the hash of a key and of its further hashes. -/
def hashBits (hash : UInt64) (choice : ℕ) : Bool :=
  (murmurRehash64A^[choice / 64] hash).toNat.testBit (choice % 64)

def FurcHashState.Holds (hash : UInt64) (s : FurcHashState) : Prop :=
  ∀ k ≤ s.hashIdx, s.hashCache k = murmurRehash64A^[k] hash

lemma FurcHashState.Holds.init (hash : UInt64) (memory : ℕ → UInt64) :
    (FurcHashState.init hash memory).Holds hash := by
  intro k hk
  obtain rfl : k = 0 := le_zero.1 hk
  exact update_self 0 hash memory

lemma FurcHashState.Holds.fill {hash : UInt64} {s : FurcHashState} (hs : s.Holds hash)
    (count : ℕ) : (s.fill count).Holds hash ∧ (s.fill count).hashIdx = s.hashIdx + count := by
  induction count generalizing s with
  | zero => exact ⟨hs, rfl⟩
  | succ count ih =>
    have hnext : FurcHashState.Holds hash ⟨s.hashIdx + 1, update s.hashCache (s.hashIdx + 1)
        (murmurRehash64A (s.hashCache s.hashIdx))⟩ := by
      intro k hk
      rcases le_succ_iff.1 hk with hle | rfl
      · have hne : k ≠ s.hashIdx + 1 := by
          omega
        exact (update_of_ne hne _ _).trans (hs k hle)
      · rw [Function.iterate_succ_apply', ← hs _ le_rfl]
        exact update_self _ _ _
    obtain ⟨hholds, hidx⟩ := ih hnext
    refine ⟨hholds, ?_⟩
    rw [FurcHashState.fill, hidx]
    simp only
    omega

theorem getbit_supplies (hash : UInt64) :
    Supplies getbit (FurcHashState.Holds hash) (hashBits hash) := by
  intro s choice hs hchoice
  have hroom : choice / 64 < kHashCacheSize := by omega
  obtain ⟨hholds, hidx⟩ := hs.fill (choice / 64 - s.hashIdx)
  refine ⟨_, ?_, hholds⟩
  rw [getbit]
  simp only [if_pos hroom]
  rw [hholds _ (by omega)]
  rfl

/-! ## The hash is consistent -/

lemma bitNumFrom_spec {fuel : ℕ} (hfuel : n ≤ b + fuel) (hb : b = 0 ∨ 2 ^ (b - 1) < n) :
    n ≤ 2 ^ bitNumFrom n fuel b ∧
      (bitNumFrom n fuel b = 0 ∨ 2 ^ (bitNumFrom n fuel b - 1) < n) := by
  induction fuel generalizing b with
  | zero => exact ⟨hfuel.trans (Nat.lt_two_pow_self).le, hb⟩
  | succ fuel ih =>
    rw [bitNumFrom]
    split_ifs with hlt
    · exact ih (by omega) (Or.inr hlt)
    · exact ⟨Nat.not_lt.1 hlt, hb⟩

lemma le_two_pow_bitNumOf : n ≤ 2 ^ bitNumOf n := (bitNumFrom_spec (by omega) (Or.inl rfl)).1

lemma bitNumOf_pos (hn : 1 < n) : 0 < bitNumOf n := by
  by_contra hzero
  have hle : n ≤ 2 ^ bitNumOf n := le_two_pow_bitNumOf
  rw [Nat.eq_zero_of_not_pos hzero] at hle
  omega

lemma bitNumOf_le (hn : n ≤ 2 ^ b) : bitNumOf n ≤ b := by
  have hspec : _ ∧ (bitNumOf n = 0 ∨ 2 ^ (bitNumOf n - 1) < n) :=
    bitNumFrom_spec (by omega) (Or.inl rfl)
  rcases hspec.2 with hzero | hlt
  · omega
  · have := (Nat.pow_lt_pow_iff_right (by decide : 1 < 2)).1 (hlt.trans_le hn)
    omega

lemma bitNumOf_mono (hmn : m ≤ n) : bitNumOf m ≤ bitNumOf n :=
  bitNumOf_le (hmn.trans le_two_pow_bitNumOf)

/-- The draws for a smaller range give the same result, if it is in that range. -/
lemma tries_consistent (hmn : m ≤ n)
    (h : tries bits n left (bitNumOf n) (bitNumOf n) = ⟨r, false⟩) (hr : r < m) :
    tries bits m left (bitNumOf m) (bitNumOf m) = ⟨r, false⟩ := by
  rcases (bitNumOf_mono hmn).lt_or_eq with hlt | heq
  · have hdigits : r < 2 ^ bitNumOf m := hr.trans_le le_two_pow_bitNumOf
    obtain ⟨left', hle, hthrough⟩ := tries_through hlt hdigits h
    exact tries_mono hle (tries_smaller hmn hthrough hr)
  · rw [heq]
    exact tries_smaller hmn h hr

section Consistent
variable {σ : Type*} {getbit : σ → ℕ → Option (Bool × σ)} {I : σ → Prop}
  (hbits : Supplies getbit I bits)
include hbits

lemma furcHash_eq {s : σ} (hs : I s) (hone : 1 < n) (hn : n ≤ 2 ^ kFurcShift) :
    furcHash getbit s n = some (tries bits n kMaxTries (bitNumOf n) (bitNumOf n)) := by
  have hb : bitNumOf n ≤ kFurcShift := bitNumOf_le hn
  rw [furcHash, if_neg (by omega)]
  refine triesM_eq hbits hs (bitNumOf_pos hone) hb le_rfl ?_
  unfold kFurcShift at hb ⊢
  unfold kMaxTries kHashCacheSize
  omega

/-- The hash is in its range, and unless it has given up, a smaller range that has the result gives
the same result. -/
theorem furcHash_consistent {s s' : σ} (hs : I s) (hs' : I s') (hm : 1 ≤ m) (hmn : m ≤ n)
    (hn : n ≤ 2 ^ 23) :
    ∃ r r', furcHash getbit s n = some r ∧ furcHash getbit s' m = some r' ∧ r.value < n ∧
      r'.value < m ∧ (r.exhausted = false → r.value < m → r'.value = r.value) := by
  by_cases hone : n ≤ 1
  · refine ⟨⟨0, false⟩, ⟨0, false⟩, if_pos hone, if_pos (by omega), ?_, ?_, fun _ _ => rfl⟩
    all_goals simp only
    all_goals omega
  · have hrun := furcHash_eq hbits hs (not_le.1 hone) hn
    have hlt : (tries bits n kMaxTries (bitNumOf n) (bitNumOf n)).value < n :=
      tries_lt (by omega) _ _ _
    by_cases hone' : m ≤ 1
    · refine ⟨_, ⟨0, false⟩, hrun, if_pos hone', hlt, hm, fun _ hr => ?_⟩
      simp only
      omega
    · refine ⟨_, _, hrun, furcHash_eq hbits hs' (by omega) (hmn.trans hn), hlt,
        tries_lt hm _ _ _, fun hfound hr => ?_⟩
      have hresult : tries bits n kMaxTries (bitNumOf n) (bitNumOf n) =
          ⟨(tries bits n kMaxTries (bitNumOf n) (bitNumOf n)).value, false⟩ := by
        rw [← hfound]
      rw [tries_consistent hmn hresult hr]

end Consistent

theorem furcHash_grown_by_one : ∃ r r', furcHash getbit (.init 7 fun _ => 0) 12 = some r ∧
      furcHash getbit (.init 7 fun _ => 0) 11 = some r' ∧ r.value < 12 ∧ r'.value < 11 ∧
      (r.exhausted = false → r.value < 11 → r'.value = r.value) :=
  furcHash_consistent (getbit_supplies 7) (.init 7 _) (.init 7 _) (by decide) (by decide)
    (by decide)

example : furcHash getbit (.init 7 fun _ => 0) 12 = some ⟨2, false⟩ := by decide +kernel

end HybridCache.FurcHash

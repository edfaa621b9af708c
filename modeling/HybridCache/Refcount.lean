import HybridCache.Bits

/-!
# The word of RefcountWithFlags

One 32-bit word holds, from the low end, 18 bits of access reference count,
three admin bits and eleven flag bits. Reference counts and exclusive marks are
changed by a compare-and-swap loop (`CasOp`), the other bits by one atomic
or/and (`FetchOp`). The lemmas read the word as a number in the access bits and
separate bits above them.
-/
namespace HybridCache.Refcount
open Bits Nat

abbrev Value := BitVec 32

def kNumAdminRefBits : ℕ := 3
def kNumAccessRefBits : ℕ := 18
def kAccessRefMask : Value := BitVec.allOnes 32 >>> (32 - kNumAccessRefBits)
def kRefMask : Value := BitVec.allOnes 32 >>> (32 - kNumAdminRefBits - kNumAccessRefBits)

inductive AdminRef where
  | kLinked
  | kAccessible
  | kExclusive
  deriving DecidableEq, Repr

def AdminRef.bit : AdminRef → ℕ
  | .kLinked => kNumAccessRefBits
  | .kAccessible => kNumAccessRefBits + 1
  | .kExclusive => kNumAccessRefBits + 2

inductive Flag where
  | kMMFlag0
  | kMMFlag1
  | kMMFlag2
  | kIsChainedItem
  | kHasChainedItem
  | kNvmClean
  | kNvmEvicted
  | kUnevictable_NOOP
  deriving DecidableEq, Repr

def Flag.bit : Flag → ℕ
  | .kMMFlag0 => kNumAccessRefBits + kNumAdminRefBits
  | .kMMFlag1 => kNumAccessRefBits + kNumAdminRefBits + 1
  | .kMMFlag2 => kNumAccessRefBits + kNumAdminRefBits + 2
  | .kIsChainedItem => kNumAccessRefBits + kNumAdminRefBits + 3
  | .kHasChainedItem => kNumAccessRefBits + kNumAdminRefBits + 4
  | .kNvmClean => kNumAccessRefBits + kNumAdminRefBits + 5
  | .kNvmEvicted => kNumAccessRefBits + kNumAdminRefBits + 6
  | .kUnevictable_NOOP => kNumAccessRefBits + kNumAdminRefBits + 7

def getAdminRef (r : AdminRef) : Value := 1#32 <<< r.bit
def getFlag (f : Flag) : Value := 1#32 <<< f.bit

inductive CasOp where
  | incRef
  | decRef
  | markForEviction
  | markMoving
  | unmarkMoving
  | markForEvictionWhenMoving
  deriving DecidableEq, Repr

/-- What a predicate answers: go on with the exchange, return without one, or
throw `RefcountOverflow` or `RefcountUnderflow`. -/
inductive Verdict where
  | update
  | kIncFailedMoving
  | kIncFailedEviction
  | refuse
  | refcountOverflow
  | refcountUnderflow
  deriving DecidableEq, Repr

def CasOp.predicate : CasOp → Value → Verdict
  | .incRef, cur =>
    if cur &&& kAccessRefMask = kAccessRefMask then .refcountOverflow
    else if cur &&& getAdminRef .kExclusive ≠ 0 then
      if cur &&& kAccessRefMask = 0 then .kIncFailedEviction else .kIncFailedMoving
    else .update
  | .decRef, cur => if cur &&& kAccessRefMask = 0 then .refcountUnderflow else .update
  | .markForEviction, cur =>
    if cur &&& getAdminRef .kLinked = 0 ∨ cur &&& getAdminRef .kExclusive ≠ 0 then .refuse
    else if cur &&& kAccessRefMask ≠ 0 then .refuse
    else .update
  | .markMoving, cur =>
    if 0 < (cur &&& kAccessRefMask).toNat ∨ cur &&& getAdminRef .kLinked = 0 ∨
        cur &&& getAdminRef .kExclusive ≠ 0 then .refuse
    else .update
  | .unmarkMoving, _ => .update
  | .markForEvictionWhenMoving, _ => .update

def CasOp.newValue : CasOp → Value → Value
  | .incRef, cur => cur + 1
  | .decRef, cur => cur - 1
  | .markForEviction, cur => cur ||| getAdminRef .kExclusive
  | .markMoving, cur => (cur + 1) ||| getAdminRef .kExclusive
  | .unmarkMoving, cur => (cur - 1) &&& ~~~getAdminRef .kExclusive
  | .markForEvictionWhenMoving, cur => cur - 1

inductive FetchOp where
  | markInMMContainer
  | unmarkInMMContainer
  | markAccessible
  | unmarkAccessible
  | setFlag (f : Flag)
  | unSetFlag (f : Flag)
  | unmarkForEviction
  deriving DecidableEq, Repr

def FetchOp.newValue : FetchOp → Value → Value
  | .markInMMContainer, v => v ||| getAdminRef .kLinked
  | .unmarkInMMContainer, v => v &&& ~~~getAdminRef .kLinked
  | .markAccessible, v => v ||| getAdminRef .kAccessible
  | .unmarkAccessible, v => v &&& ~~~getAdminRef .kAccessible
  | .setFlag f, v => v ||| getFlag f
  | .unSetFlag f, v => v &&& (BitVec.allOnes 32 - getFlag f)
  | .unmarkForEviction, v => v &&& ~~~getAdminRef .kExclusive

/-- Reference count without the moving reference, control bits and flags. -/
def getAccessRef (raw : Value) : Value :=
  let accessRef := raw &&& kAccessRefMask
  if raw &&& getAdminRef .kExclusive ≠ 0 ∧ 1 ≤ accessRef.toNat then accessRef - 1 else accessRef

def isMarkedForEviction (raw : Value) : Bool :=
  decide (raw &&& getAdminRef .kExclusive ≠ 0 ∧ raw &&& kAccessRefMask = 0)

def isMoving (raw : Value) : Bool :=
  decide (raw &&& getAdminRef .kExclusive ≠ 0 ∧ raw &&& kAccessRefMask ≠ 0)

def isDrained (raw : Value) : Bool := decide (raw &&& kRefMask = 0)

/-! ## The word as a counter and separate bits -/

def accessBits (v : Value) : ℕ := (v &&& kAccessRefMask).toNat

lemma accessBits_eq (v : Value) : accessBits v = v.toNat % 2 ^ 18 := by
  rw [accessBits, BitVec.toNat_and, show kAccessRefMask.toNat = 2 ^ 18 - 1 by decide,
    and_two_pow_sub_one_eq_mod]

lemma and_accessRefMask_eq_zero (v : Value) : v &&& kAccessRefMask = 0 ↔ accessBits v = 0 := by
  rw [accessBits, ← BitVec.toNat_inj]
  rfl

lemma and_accessRefMask_eq_mask (v : Value) :
    v &&& kAccessRefMask = kAccessRefMask ↔ accessBits v = 2 ^ 18 - 1 := by
  rw [accessBits, ← BitVec.toNat_inj, show kAccessRefMask.toNat = 2 ^ 18 - 1 by decide]

lemma accessBits_setBit (v : Value) (i : ℕ) (h18 : 18 ≤ i) (hi : i < 32) :
    accessBits (v ||| (1#32 <<< i)) = accessBits v := by
  rw [accessBits_eq, accessBits_eq, BitVec.toNat_or, or_mod_two_pow]
  have : (1#32 <<< i).toNat % 2 ^ 18 = 0 := by
    interval_cases i <;> rfl
  rw [this, or_zero]

lemma accessBits_clearBit (v : Value) (i : ℕ) (h18 : 18 ≤ i) (hi : i < 32) :
    accessBits (v &&& ~~~(1#32 <<< i)) = accessBits v := by
  rw [accessBits_eq, accessBits_eq, BitVec.toNat_and, and_mod_two_pow]
  have : (~~~(1#32 <<< i)).toNat % 2 ^ 18 = 2 ^ 18 - 1 := by
    interval_cases i <;> rfl
  rw [this, and_two_pow_sub_one_eq_mod, mod_mod]

lemma allOnes_sub_getFlag (f : Flag) : BitVec.allOnes 32 - getFlag f = ~~~getFlag f := by
  cases f <;> rfl

lemma getLsbD_high (v : Value) (i : ℕ) (h18 : 18 ≤ i) :
    v.getLsbD i = (v.toNat / 2 ^ 18).testBit (i - 18) := by
  rw [testBit_div_two_pow, show i - 18 + 18 = i by omega]
  rfl

lemma add_one_low (v : Value) (h : accessBits v ≠ 2 ^ 18 - 1) :
    accessBits (v + 1) = accessBits v + 1 ∧ ∀ i, 18 ≤ i → (v + 1).getLsbD i = v.getLsbD i := by
  rw [accessBits_eq] at h
  have hadd : (v + 1).toNat = v.toNat + 1 := by
    change (v.toNat + 1) % 2 ^ 32 = _
    omega
  refine ⟨?_, fun i hi => ?_⟩
  · rw [accessBits_eq, accessBits_eq, hadd]
    omega
  · rw [getLsbD_high _ i hi, getLsbD_high _ i hi, hadd]
    congr 1
    omega

lemma sub_one_low (v : Value) (h : accessBits v ≠ 0) : accessBits (v - 1) = accessBits v - 1 ∧
      ∀ i, 18 ≤ i → (v - 1).getLsbD i = v.getLsbD i := by
  rw [accessBits_eq] at h
  have hsub : (v - 1).toNat = v.toNat - 1 := by
    change (2 ^ 32 - 1 + v.toNat) % 2 ^ 32 = _
    omega
  refine ⟨?_, fun i hi => ?_⟩
  · rw [accessBits_eq, accessBits_eq, hsub]
    omega
  · rw [getLsbD_high _ i hi, getLsbD_high _ i hi, hsub]
    congr 1
    omega

lemma isDrained_iff (v : Value) :
    isDrained v = true ↔ accessBits v = 0 ∧ ∀ r : AdminRef, v.getLsbD r.bit = false := by
  rw [isDrained, decide_eq_true_iff, ← BitVec.toNat_inj, BitVec.toNat_and,
    show kRefMask.toNat = 2 ^ 21 - 1 by decide, and_two_pow_sub_one_eq_mod, accessBits_eq]
  have hbit : ∀ r : AdminRef, v.getLsbD r.bit = v.toNat.testBit r.bit := fun _ => rfl
  simp only [hbit, testBit_eq_decide_div_mod_eq, decide_eq_false_iff_not]
  constructor
  · intro h
    have h0 : v.toNat % 2 ^ 21 = 0 := h
    refine ⟨by omega, ?_⟩
    rintro (_ | _ | _) <;> simp only [AdminRef.bit, kNumAccessRefBits] <;> omega
  · rintro ⟨h0, hr⟩
    have h1 := hr .kLinked
    have h2 := hr .kAccessible
    have h3 := hr .kExclusive
    simp only [AdminRef.bit, kNumAccessRefBits] at h1 h2 h3
    change v.toNat % 2 ^ 21 = 0
    omega


/-! ## What each exchange does to the counter and the bits -/

def CasOp.acquired : CasOp → ℕ
  | .incRef | .markMoving => 1
  | _ => 0

def CasOp.released : CasOp → ℕ
  | .decRef | .unmarkMoving | .markForEvictionWhenMoving => 1
  | _ => 0

def CasOp.exclusiveAfter : CasOp → Bool → Bool
  | .markForEviction, _ | .markMoving, _ => true
  | .unmarkMoving, _ => false
  | _, b => b

lemma incRef_update_iff (v : Value) : CasOp.incRef.predicate v = .update ↔
      accessBits v ≠ 2 ^ 18 - 1 ∧ v.getLsbD 20 = false := by
  have hx := and_shift_eq_zero v 20 (by decide)
  simp only [CasOp.predicate, and_accessRefMask_eq_mask, getAdminRef, AdminRef.bit,
    kNumAccessRefBits, reduceAdd, ne_eq, hx]
  split_ifs <;> simp_all

/-- The two marks ask for the same. -/
lemma mark_update_iff (v : Value) {op : CasOp} (hop : op = .markForEviction ∨ op = .markMoving) :
    op.predicate v = .update ↔
      v.getLsbD 18 = true ∧ v.getLsbD 20 = false ∧ accessBits v = 0 := by
  have hl := and_shift_eq_zero v 18 (by decide)
  have hx := and_shift_eq_zero v 20 (by decide)
  have ha : (v &&& kAccessRefMask).toNat = accessBits v := rfl
  rcases hop with rfl | rfl <;>
    simp only [CasOp.predicate, and_accessRefMask_eq_zero, getAdminRef, AdminRef.bit,
      kNumAccessRefBits, reduceAdd, ne_eq, hl, hx, ha, pos_iff_ne_zero] <;>
    cases v.getLsbD 18 <;> cases v.getLsbD 20 <;> by_cases h : accessBits v = 0 <;> simp [h]

/-- Effect of an exchange on the word. The hypothesis on `released` is what the
protocol has to provide: `unmarkMoving` and `markForEvictionWhenMoving` check nothing. -/
lemma newValue_spec (op : CasOp) (v : Value) (hp : op.predicate v = .update)
    (hr : op.released = 1 → accessBits v ≠ 0) :
    accessBits (op.newValue v) + op.released = accessBits v + op.acquired ∧
      (∀ i, 18 ≤ i → i < 32 → i ≠ 20 → (op.newValue v).getLsbD i = v.getLsbD i) ∧
      (op.newValue v).getLsbD 20 = op.exclusiveAfter (v.getLsbD 20) := by
  cases op with
  | incRef =>
    obtain ⟨ha, hb⟩ := add_one_low v ((incRef_update_iff v).1 hp).1
    exact ⟨ha, fun i hi _ _ => hb i hi, hb 20 (by decide)⟩
  | decRef | markForEvictionWhenMoving =>
    obtain ⟨ha, hb⟩ := sub_one_low v (hr rfl)
    have hne := hr rfl
    exact ⟨by simp only [CasOp.newValue, CasOp.released, CasOp.acquired]; omega,
      fun i hi _ _ => hb i hi, hb 20 (by decide)⟩
  | markForEviction =>
    refine ⟨accessBits_setBit v 20 (by decide) (by decide), fun i _ hi hne => ?_, ?_⟩
    · exact (getLsbD_setBit v 20 i hi).trans (by simp [hne])
    · exact (getLsbD_setBit v 20 20 (by decide)).trans (by simp [CasOp.exclusiveAfter])
  | markMoving =>
    have h0 := ((mark_update_iff v (.inr rfl)).1 hp).2.2
    obtain ⟨ha, hb⟩ := add_one_low v (by omega)
    refine ⟨(accessBits_setBit (v + 1) 20 (by decide) (by decide)).trans ha,
      fun i h18 hi hne => ?_, ?_⟩
    · refine (getLsbD_setBit (v + 1) 20 i hi).trans ?_
      rw [hb i h18, decide_eq_false hne, Bool.false_or]
    · exact (getLsbD_setBit (v + 1) 20 20 (by decide)).trans (by simp [CasOp.exclusiveAfter])
  | unmarkMoving =>
    have hne := hr rfl
    obtain ⟨ha, hb⟩ := sub_one_low v hne
    have hc : accessBits (CasOp.unmarkMoving.newValue v) = accessBits (v - 1) :=
      accessBits_clearBit (v - 1) 20 (by decide) (by decide)
    refine ⟨?_, fun i h18 hi hne => ?_, ?_⟩
    · simp only [CasOp.released, CasOp.acquired]
      omega
    · refine (getLsbD_clearBit (v - 1) 20 i hi).trans ?_
      rw [hb i h18, decide_eq_false hne, Bool.not_false, Bool.true_and]
    · exact (getLsbD_clearBit (v - 1) 20 20 (by decide)).trans (by simp [CasOp.exclusiveAfter])

lemma Flag.bit_bounds (f : Flag) : 21 ≤ f.bit ∧ f.bit ≤ 28 := by
  cases f <;> decide

lemma Flag.bit_inj {f g : Flag} (h : f.bit = g.bit) : f = g := by
  cases f <;> cases g <;> first | rfl | exact absurd h (by decide)

def FetchOp.bit : FetchOp → ℕ
  | .markInMMContainer | .unmarkInMMContainer => 18
  | .markAccessible | .unmarkAccessible => 19
  | .setFlag f | .unSetFlag f => f.bit
  | .unmarkForEviction => 20

def FetchOp.written : FetchOp → Bool
  | .markInMMContainer | .markAccessible | .setFlag _ => true
  | _ => false

lemma FetchOp.bit_bounds (op : FetchOp) : 18 ≤ op.bit ∧ op.bit < 32 := by
  cases op with
  | setFlag f | unSetFlag f =>
    have := f.bit_bounds
    simp only [FetchOp.bit]
    omega
  | _ => decide

lemma fetch_newValue (op : FetchOp) (v : Value) :
    op.newValue v = if op.written = true then v ||| (1#32 <<< op.bit)
      else v &&& ~~~(1#32 <<< op.bit) := by
  cases op with
  | unSetFlag f => exact congrArg (v &&& ·) (allOnes_sub_getFlag f)
  | _ => rfl

/-- A fetch instruction writes one admin or flag bit and nothing else. -/
lemma fetch_newValue_spec (op : FetchOp) (v : Value) : accessBits (op.newValue v) = accessBits v ∧
      ∀ i, i < 32 → (op.newValue v).getLsbD i =
        if i = op.bit then op.written else v.getLsbD i := by
  obtain ⟨h18, h32⟩ := op.bit_bounds
  rw [fetch_newValue]
  split_ifs with hw
  · refine ⟨accessBits_setBit v op.bit h18 h32, fun i hi => ?_⟩
    rw [getLsbD_setBit v op.bit i hi]
    split_ifs with hij <;> simp [hij, hw]
  · refine ⟨accessBits_clearBit v op.bit h18 h32, fun i hi => ?_⟩
    rw [getLsbD_clearBit v op.bit i hi]
    split_ifs with hij <;> simp [hij, hw]

end HybridCache.Refcount

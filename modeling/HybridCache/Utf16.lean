import Mathlib.Tactic

/-!
# Strings of 16-bit units and their encodings

A string is a list of UTF-16 units, in which a surrogate may stand alone. UTF-8 encodes a pair of
surrogates in four bytes and has nothing for a single one, so a question mark takes its place.
Modified UTF-8 encodes each unit by itself, and the zero in two bytes.
-/
namespace HybridCache.Utf16

open List

abbrev JString := List UInt16

instance : LawfulBEq JString := inferInstance

def isHigh (u : UInt16) : Bool := decide (0xD800 ≤ u.toNat) && decide (u.toNat < 0xDC00)

def isLow (u : UInt16) : Bool := decide (0xDC00 ≤ u.toNat) && decide (u.toNat < 0xE000)

def isSurrogate (u : UInt16) : Bool := isHigh u || isLow u

def wellFormed : JString → Bool
  | [] => true
  | [u] => !isSurrogate u
  | u :: v :: rest =>
    if (isHigh u && isLow v) = true then wellFormed rest
    else !isSurrogate u && wellFormed (v :: rest)

/-! ## UTF-8 -/

def unitBytes (n : ℕ) : List UInt8 :=
  if n < 0x80 then [UInt8.ofNat n]
  else if n < 0x800 then [UInt8.ofNat (0xC0 + n / 64), UInt8.ofNat (0x80 + n % 64)]
  else
    [UInt8.ofNat (0xE0 + n / 4096), UInt8.ofNat (0x80 + n / 64 % 64), UInt8.ofNat (0x80 + n % 64)]

def codePoint (u v : UInt16) : ℕ := 0x10000 + (u.toNat - 0xD800) * 1024 + (v.toNat - 0xDC00)

def pairBytes (n : ℕ) : List UInt8 :=
  [UInt8.ofNat (0xF0 + n / 262144), UInt8.ofNat (0x80 + n / 4096 % 64),
    UInt8.ofNat (0x80 + n / 64 % 64), UInt8.ofNat (0x80 + n % 64)]

def encodeUnit (u : UInt16) : List UInt8 :=
  if isSurrogate u = true then [0x3F] else unitBytes u.toNat

def encode : JString → List UInt8
  | [] => []
  | [u] => encodeUnit u
  | u :: v :: rest =>
    if (isHigh u && isLow v) = true then pairBytes (codePoint u v) ++ encode rest
    else encodeUnit u ++ encode (v :: rest)

def isTail (b : UInt8) : Bool := decide (0x80 ≤ b.toNat) && decide (b.toNat < 0xC0)

/-- The character at the front. A byte with which none begins stands for a replacement
character. -/
def decodeChar : List UInt8 → Option (JString × List UInt8)
  | [] => none
  | a :: rest =>
    if a.toNat < 0x80 then some ([UInt16.ofNat a.toNat], rest)
    else if 0xC2 ≤ a.toNat ∧ a.toNat < 0xE0 then
      match rest with
      | b :: rest' =>
        if isTail b = true then
          some ([UInt16.ofNat ((a.toNat - 0xC0) * 64 + (b.toNat - 0x80))], rest')
        else some ([0xFFFD], rest)
      | [] => some ([0xFFFD], rest)
    else if 0xE0 ≤ a.toNat ∧ a.toNat < 0xF0 then
      match rest with
      | b :: c :: rest' =>
        let n := (a.toNat - 0xE0) * 4096 + (b.toNat - 0x80) * 64 + (c.toNat - 0x80)
        if isTail b = true ∧ isTail c = true ∧ 0x800 ≤ n ∧ isSurrogate (UInt16.ofNat n) = false then
          some ([UInt16.ofNat n], rest')
        else some ([0xFFFD], rest)
      | _ => some ([0xFFFD], rest)
    else if 0xF0 ≤ a.toNat ∧ a.toNat < 0xF5 then
      match rest with
      | b :: c :: d :: rest' =>
        let n := (a.toNat - 0xF0) * 262144 + (b.toNat - 0x80) * 4096 + (c.toNat - 0x80) * 64 +
          (d.toNat - 0x80)
        if isTail b = true ∧ isTail c = true ∧ isTail d = true ∧ 0x10000 ≤ n ∧ n < 0x110000 then
          some ([UInt16.ofNat (0xD800 + (n - 0x10000) / 1024),
            UInt16.ofNat (0xDC00 + (n - 0x10000) % 1024)], rest')
        else some ([0xFFFD], rest)
      | _ => some ([0xFFFD], rest)
    else some ([0xFFFD], rest)

/-- Each character takes at least one byte. -/
def decodeChars : ℕ → List UInt8 → JString
  | 0, _ => []
  | n + 1, bytes =>
    match decodeChar bytes with
    | none => []
    | some (units, rest) => units ++ decodeChars n rest

def decode (bytes : List UInt8) : JString := decodeChars bytes.length bytes

variable {n : ℕ} {u : UInt16} {s : JString}

lemma byte_toNat (h : n < 256) : (UInt8.ofNat n).toNat = n := by
  exact Nat.mod_eq_of_lt h

lemma tail_toNat (n : ℕ) : (UInt8.ofNat (0x80 + n % 64)).toNat = 0x80 + n % 64 :=
  byte_toNat (by omega)

lemma isTail_tail (n : ℕ) : isTail (UInt8.ofNat (0x80 + n % 64)) = true := by
  rw [isTail, tail_toNat]
  simp only [Bool.and_eq_true, decide_eq_true_eq]
  omega

lemma two_bytes (h : n < 0x800) :
    (UInt8.ofNat (0xC0 + n / 64)).toNat = 0xC0 + n / 64 ∧
      (0xC0 + n / 64 - 0xC0) * 64 + (0x80 + n % 64 - 0x80) = n :=
  ⟨byte_toNat (by omega), by omega⟩

lemma three_bytes (h : n < 65536) :
    (UInt8.ofNat (0xE0 + n / 4096)).toNat = 0xE0 + n / 4096 ∧
      (0xE0 + n / 4096 - 0xE0) * 4096 + (0x80 + n / 64 % 64 - 0x80) * 64 +
        (0x80 + n % 64 - 0x80) = n :=
  ⟨byte_toNat (by omega), by omega⟩

lemma decodeChar_unit (hu : isSurrogate u = false) (rest : List UInt8) :
    decodeChar (encodeUnit u ++ rest) = some ([u], rest) := by
  have hlt : u.toNat < 65536 := u.toNat_lt
  have hself : UInt16.ofNat u.toNat = u := UInt16.ofNat_toNat
  rw [encodeUnit, if_neg (by rw [hu]; decide), unitBytes]
  by_cases h1 : u.toNat < 0x80
  · rw [if_pos h1]
    simp only [cons_append, nil_append, decodeChar,
      byte_toNat (show u.toNat < 256 by omega), if_pos h1, hself]
  rw [if_neg h1]
  by_cases h2 : u.toNat < 0x800
  · obtain ⟨hlead, hvalue⟩ := two_bytes h2
    rw [if_pos h2]
    simp only [cons_append, nil_append, decodeChar, hlead, tail_toNat, isTail_tail, hvalue, hself]
    rw [if_neg (by omega), if_pos (by omega), if_pos trivial]
  · obtain ⟨hlead, hvalue⟩ := three_bytes hlt
    rw [if_neg h2]
    simp only [cons_append, nil_append, decodeChar, hlead, tail_toNat, isTail_tail, hvalue, hself]
    rw [if_neg (by omega), if_neg (by omega), if_pos (by omega),
      if_pos ⟨trivial, trivial, by omega, hu⟩]

lemma decodeChar_pair {v : UInt16} (hu : isHigh u = true) (hv : isLow v = true)
    (rest : List UInt8) :
    decodeChar (pairBytes (codePoint u v) ++ rest) = some ([u, v], rest) := by
  simp only [isHigh, isLow, Bool.and_eq_true, decide_eq_true_eq] at hu hv
  have hself : UInt16.ofNat u.toNat = u := UInt16.ofNat_toNat
  have hself' : UInt16.ofNat v.toNat = v := UInt16.ofNat_toNat
  obtain ⟨n, hn⟩ : ∃ n, n = codePoint u v := ⟨_, rfl⟩
  have hsum : n = 0x10000 + (u.toNat - 0xD800) * 1024 + (v.toNat - 0xDC00) := by
    rw [hn]
    rfl
  have hlow : 0x10000 ≤ n := by omega
  have hhigh : n < 0x110000 := by omega
  have hu' : 0xD800 + (n - 0x10000) / 1024 = u.toNat := by omega
  have hv' : 0xDC00 + (n - 0x10000) % 1024 = v.toNat := by omega
  have hlead : (UInt8.ofNat (0xF0 + n / 262144)).toNat = 0xF0 + n / 262144 := byte_toNat (by omega)
  have hvalue : (0xF0 + n / 262144 - 0xF0) * 262144 + (0x80 + n / 4096 % 64 - 0x80) * 4096 +
      (0x80 + n / 64 % 64 - 0x80) * 64 + (0x80 + n % 64 - 0x80) = n := by
    omega
  rw [← hn, pairBytes]
  simp only [cons_append, nil_append, decodeChar, hlead, tail_toNat, isTail_tail, hvalue,
    hu', hv', hself, hself']
  rw [if_neg (by omega), if_neg (by omega), if_neg (by omega), if_pos (by omega),
    if_pos ⟨trivial, trivial, trivial, hlow, hhigh⟩]

lemma encodeUnit_ne_nil (u : UInt16) : encodeUnit u ≠ [] := by
  rw [encodeUnit, unitBytes]
  split_ifs <;> simp

lemma decodeChars_cons {units : JString} {bytes rest : List UInt8} (hne : bytes ≠ [])
    (hchar : decodeChar (bytes ++ rest) = some (units, rest))
    (ih : ∀ k, rest.length ≤ k → decodeChars k rest = s) (hn : (bytes ++ rest).length ≤ n) :
    decodeChars n (bytes ++ rest) = units ++ s := by
  have hpos : 0 < bytes.length := length_pos_iff.2 hne
  rw [length_append] at hn
  obtain ⟨k, rfl⟩ : ∃ k, n = k + 1 := ⟨n - 1, by omega⟩
  rw [decodeChars, hchar]
  exact congrArg (units ++ ·) (ih k (by omega))

/-- What is well-formed comes back. -/
theorem decode_encode (hs : wellFormed s = true) : decode (encode s) = s := by
  have hloop : ∀ n, (encode s).length ≤ n → decodeChars n (encode s) = s := by
    fun_induction encode s with
    | case1 =>
      intro n _
      cases n <;> rfl
    | case2 u =>
      intro n hn
      rw [wellFormed, Bool.not_eq_true'] at hs
      rw [← append_nil (encodeUnit u)] at hn ⊢
      refine decodeChars_cons (encodeUnit_ne_nil u) (decodeChar_unit hs []) (fun k _ => ?_) hn
      cases k <;> rfl
    | case3 u v rest hpair ih =>
      intro n hn
      rw [wellFormed, if_pos hpair] at hs
      rw [Bool.and_eq_true] at hpair
      exact decodeChars_cons (by simp [pairBytes]) (decodeChar_pair hpair.1 hpair.2 _) (ih hs) hn
    | case4 u v rest hpair ih =>
      intro n hn
      rw [wellFormed, if_neg hpair, Bool.and_eq_true, Bool.not_eq_true'] at hs
      exact decodeChars_cons (encodeUnit_ne_nil u) (decodeChar_unit hs.1 _) (ih hs.2) hn
  exact hloop _ le_rfl

/-! ## Modified UTF-8 -/

def modifiedUnit (u : UInt16) : List UInt8 :=
  if u = 0 then [0xC0, 0x80] else unitBytes u.toNat

def encodeModified (s : JString) : List UInt8 := s.flatMap modifiedUnit

def firstUnit : List UInt8 → Option (UInt16 × List UInt8)
  | [] => none
  | a :: rest =>
    if a.toNat < 0x80 then some (UInt16.ofNat a.toNat, rest)
    else if a.toNat < 0xE0 then
      match rest with
      | b :: rest' => some (UInt16.ofNat ((a.toNat - 0xC0) * 64 + (b.toNat - 0x80)), rest')
      | [] => none
    else
      match rest with
      | b :: c :: rest' =>
        some (UInt16.ofNat ((a.toNat - 0xE0) * 4096 + (b.toNat - 0x80) * 64 + (c.toNat - 0x80)),
          rest')
      | _ => none

lemma firstUnit_modifiedUnit (u : UInt16) (rest : List UInt8) :
    firstUnit (modifiedUnit u ++ rest) = some (u, rest) := by
  have hlt : u.toNat < 65536 := u.toNat_lt
  have hself : UInt16.ofNat u.toNat = u := UInt16.ofNat_toNat
  rw [modifiedUnit]
  by_cases h0 : u = 0
  · subst h0
    rfl
  rw [if_neg h0, unitBytes]
  by_cases h1 : u.toNat < 0x80
  · rw [if_pos h1]
    simp only [cons_append, nil_append, firstUnit,
      byte_toNat (show u.toNat < 256 by omega), if_pos h1, hself]
  rw [if_neg h1]
  by_cases h2 : u.toNat < 0x800
  · obtain ⟨hlead, hvalue⟩ := two_bytes h2
    rw [if_pos h2]
    simp only [cons_append, nil_append, firstUnit, hlead, tail_toNat, hvalue, hself]
    rw [if_neg (by omega), if_pos (by omega)]
  · obtain ⟨hlead, hvalue⟩ := three_bytes hlt
    rw [if_neg h2]
    simp only [cons_append, nil_append, firstUnit, hlead, tail_toNat, hvalue, hself]
    rw [if_neg (by omega), if_neg (by omega)]

/-- Different strings have different encodings. -/
theorem encodeModified_injective : Function.Injective encodeModified := by
  intro s
  induction s with
  | nil =>
    intro t h
    cases t with
    | nil => rfl
    | cons v t =>
      have hfirst := firstUnit_modifiedUnit v (encodeModified t)
      rw [show modifiedUnit v ++ encodeModified t = [] from h.symm] at hfirst
      cases hfirst
  | cons u s ih =>
    intro t h
    have hfirst := firstUnit_modifiedUnit u (encodeModified s)
    cases t with
    | nil =>
      rw [show modifiedUnit u ++ encodeModified s = [] from h] at hfirst
      cases hfirst
    | cons v t =>
      have hfirst' := firstUnit_modifiedUnit v (encodeModified t)
      rw [show modifiedUnit u ++ encodeModified s = modifiedUnit v ++ encodeModified t from h,
        hfirst'] at hfirst
      obtain ⟨rfl, hrest⟩ := Prod.mk.inj (Option.some.inj hfirst)
      rw [ih hrest.symm]

lemma ofNat_ne_zero (hpos : 0 < n) (h : n < 256) : UInt8.ofNat n ≠ 0 := by
  intro hzero
  have hnat := congrArg UInt8.toNat hzero
  rw [byte_toNat h] at hnat
  exact absurd hnat hpos.ne'

/-- No byte is zero, so the end of the string can be marked by one. -/
lemma ne_zero_of_mem_encodeModified {b : UInt8} (hb : b ∈ encodeModified s) :
    b ≠ 0 := by
  obtain ⟨u, -, hu⟩ := mem_flatMap.1 hb
  have hlt : u.toNat < 65536 := u.toNat_lt
  rw [modifiedUnit, unitBytes] at hu
  split_ifs at hu with h0 h1 h2
  · simp only [mem_cons, not_mem_nil, or_false] at hu
    rcases hu with rfl | rfl <;> decide
  · obtain rfl := mem_singleton.1 hu
    have hne : u.toNat ≠ 0 := fun hzero => h0 (UInt16.toNat_inj.1 hzero)
    exact ofNat_ne_zero (by omega) (by omega)
  · simp only [mem_cons, not_mem_nil, or_false] at hu
    rcases hu with rfl | rfl
    · exact ofNat_ne_zero (by omega) (by omega)
    · exact ofNat_ne_zero (by omega) (by omega)
  · simp only [mem_cons, not_mem_nil, or_false] at hu
    rcases hu with rfl | rfl | rfl
    · exact ofNat_ne_zero (by omega) (by omega)
    · exact ofNat_ne_zero (by omega) (by omega)
    · exact ofNat_ne_zero (by omega) (by omega)

end HybridCache.Utf16

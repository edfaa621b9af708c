import Mathlib.Tactic

/-!
# Robin Hood order in a circular table

A table of `c` slots in which every key has a home. An entry that is not at home has an entry
before it that is at most one step closer to its own home. This is kept when an entry takes the
place of one that is closer to its home, when an empty slot is filled and when a gap is closed
by moving the following entry back.
-/
namespace HybridCache.RobinHood

open Option Function Finset

/-! ## Distances around the table -/

def next (c i : ℕ) : ℕ := if i + 1 = c then 0 else i + 1

/-- The number of steps from `d` forward to `i`. -/
def distance (c d i : ℕ) : ℕ := if d ≤ i then i - d else i + c - d

section Distance
variable {c d i j : ℕ}

lemma next_lt (hi : i < c) : next c i < c := by
  rw [next]
  split_ifs <;> omega

lemma next_inj (h : next c i = next c j) : i = j := by
  unfold next at h
  split_ifs at h <;> omega

lemma exists_next_eq (hi : i < c) : ∃ q < c, next c q = i := by
  cases i with
  | zero => exact ⟨c - 1, by omega, if_pos (by omega)⟩
  | succ i => exact ⟨i, by omega, if_neg (by omega)⟩

@[simp] lemma distance_self : distance c d d = 0 := by simp [distance]

section
variable (hd : d < c)
include hd

lemma distance_lt (hi : i < c) : distance c d i < c := by
  rw [distance]
  split_ifs <;> omega

lemma distance_eq_zero (h : distance c d i = 0) : i = d := by
  unfold distance at h
  split_ifs at h <;> omega

lemma distance_inj (hi : i < c) (hj : j < c) (h : distance c d i = distance c d j) : i = j := by
  unfold distance at h
  split_ifs at h <;> omega

/-- A step goes one further or back to the start. -/
lemma distance_next :
    distance c d (next c i) = 0 ∨ distance c d (next c i) = distance c d i + 1 := by
  unfold distance next
  split_ifs <;> omega

lemma distance_next_of_lt (h : distance c d i + 1 < c) :
    distance c d (next c i) = distance c d i + 1 := by
  unfold distance next at *
  split_ifs at * <;> omega

lemma distance_of_next (h : 0 < distance c d (next c i)) :
    distance c d (next c i) = distance c d i + 1 :=
  (distance_next hd).resolve_left h.ne'

lemma iterate_distance (hi : i < c) : (next c)^[distance c d i] d = i := by
  generalize hn : distance c d i = n
  induction n generalizing i with
  | zero => exact (distance_eq_zero hd hn).symm
  | succ n ih =>
    obtain ⟨q, hq, rfl⟩ := exists_next_eq hi
    have hstep := distance_of_next (i := q) hd (by omega)
    rw [iterate_succ_apply', ih hq (by omega)]

end

end Distance

/-! ## Tables -/

section Table
variable {κ ν : Type*}

def Holds (c : ℕ) (T : ℕ → Option (κ × ν)) (e : κ × ν) : Prop := ∃ i < c, T i = some e

def Fresh (c : ℕ) (T : ℕ → Option (κ × ν)) (k : κ) : Prop := ∀ e, Holds c T e → e.1 ≠ k

def Distinct (c : ℕ) (T : ℕ → Option (κ × ν)) : Prop :=
  ∀ i < c, ∀ j < c, ∀ e e', T i = some e → T j = some e' → e.1 = e'.1 → i = j

/-- The entry before one that is not at home is at most one step closer to its own home. -/
def Ordered (c : ℕ) (home : κ → ℕ) (T : ℕ → Option (κ × ν)) : Prop :=
  ∀ i < c, ∀ e, T (next c i) = some e → 0 < distance c (home e.1) (next c i) →
    ∃ e', T i = some e' ∧
      distance c (home e.1) (next c i) ≤ distance c (home e'.1) i + 1

/-- The key could be put into slot `p` as far as the entry before is concerned. -/
def Fits (c : ℕ) (home : κ → ℕ) (T : ℕ → Option (κ × ν)) (p : ℕ) (k : κ) : Prop :=
  ∀ q < c, next c q = p → 0 < distance c (home k) p →
    ∃ e, T q = some e ∧ distance c (home k) p ≤ distance c (home e.1) q + 1

def occupied (c : ℕ) (T : ℕ → Option (κ × ν)) : ℕ := ∑ i ∈ Finset.range c, (T i).toList.length

variable {c : ℕ} {home : κ → ℕ} {T : ℕ → Option (κ × ν)} {p : ℕ} {k : κ} {e : κ × ν}

/-- All slots from the home of an entry up to it have entries that are no closer to their
homes. -/
theorem Ordered.on_path (hT : Ordered c home T) (hhome : ∀ k, home k < c) {i : ℕ} (hi : i < c)
    (he : T i = some e) (hp : p < c)
    (hle : distance c (home e.1) p ≤ distance c (home e.1) i) :
    ∃ e', T p = some e' ∧ distance c (home e.1) p ≤ distance c (home e'.1) p := by
  -- backwards from the entry
  obtain ⟨n, hn⟩ := Nat.exists_eq_add_of_le hle
  induction n generalizing p with
  | zero =>
    obtain rfl : p = i := distance_inj (hhome e.1) hp hi (by omega)
    exact ⟨e, he, le_rfl⟩
  | succ n ih =>
    have hlt := distance_lt (hhome e.1) hi
    have hstep := distance_next_of_lt (i := p) (hhome e.1) (by omega)
    obtain ⟨e', he', hle'⟩ := ih (next_lt hp) (by omega) (by omega)
    obtain ⟨e'', he'', hle''⟩ := hT p hp e' he' (by omega)
    exact ⟨e'', he'', by omega⟩

lemma fits_home (h : distance c (home k) p = 0) : Fits c home T p k :=
  fun _ _ _ hpos => absurd hpos (by omega)

lemma fits_next (hhome : ∀ k, home k < c) (he : T p = some e)
    (hle : distance c (home k) p ≤ distance c (home e.1) p) : Fits c home T (next c p) k := by
  intro q _ hnext hpos
  obtain rfl : q = p := next_inj hnext
  exact ⟨e, he, by rw [distance_of_next (hhome k) hpos]; omega⟩

lemma update_some_eq_some {i : ℕ} {x y : κ × ν} :
    update T p (some x) i = some y ↔ (i = p ∧ y = x) ∨ (i ≠ p ∧ T i = some y) := by
  by_cases hip : i = p
  · simp [hip, eq_comm]
  · simp [hip]

/-- A key that fits may take an empty slot or that of an entry closer to its home. -/
theorem Ordered.place (hT : Ordered c home T) (hfits : Fits c home T p e.1)
    (hold : ∀ e', T p = some e' → distance c (home e'.1) p ≤ distance c (home e.1) p) :
    Ordered c home (update T p (some e)) := by
  intro i hi e₁ he₁ hpos
  obtain ⟨hnext, rfl⟩ | ⟨-, he₁⟩ := update_some_eq_some.1 he₁
  · -- the new entry itself; it is not its own neighbour unless it is at home
    obtain ⟨e', he', hle⟩ := hfits i hi hnext (hnext ▸ hpos)
    by_cases hip : i = p
    · subst hip
      rw [hnext] at hpos ⊢
      exact ⟨e₁, update_self .., by omega⟩
    · exact ⟨e', by rwa [update_of_ne hip], by rwa [hnext]⟩
  · obtain ⟨e', he', hle⟩ := hT i hi e₁ he₁ hpos
    by_cases hip : i = p
    · subst hip
      exact ⟨e, update_self .., hle.trans (Nat.add_le_add_right (hold e' he') 1)⟩
    · exact ⟨e', by rwa [update_of_ne hip], hle⟩

theorem Ordered.moveBack (hT : Ordered c home T) (hhome : ∀ k, home k < c) (hp : p < c)
    (he : T (next c p) = some e) (hpos : 0 < distance c (home e.1) (next c p)) :
    Ordered c home (update T p (some e)) := by
  have hstep := distance_of_next (hhome e.1) hpos
  obtain ⟨e', he', hle⟩ := hT p hp e he hpos
  have hself : next c p ≠ p := by
    intro hnext
    rw [hnext] at hstep
    omega
  intro i hi e₁ he₁ hpos₁
  by_cases hnext : next c i = p
  · -- the entry before was close enough for the one that is overwritten, so it is for this one
    rw [hnext, update_self] at he₁
    cases he₁
    have hip : i ≠ p := by
      rintro rfl
      exact hself hnext
    rw [hnext] at hpos₁ ⊢
    obtain ⟨e'', he'', hle'⟩ := hT i hi e' (hnext ▸ he') (by rw [hnext]; omega)
    rw [hnext] at hle'
    exact ⟨e'', by rwa [update_of_ne hip], by omega⟩
  · rw [update_of_ne hnext] at he₁
    by_cases hip : i = p
    · subst hip
      obtain rfl := some.inj (he.symm.trans he₁)
      exact ⟨e, update_self .., hstep.le⟩
    · rw [update_of_ne hip]
      exact hT i hi e₁ he₁ hpos₁

/-- A slot before an empty one or an entry at home may be emptied. -/
theorem Ordered.clear (hT : Ordered c home T)
    (hnext : ∀ e, T (next c p) = some e → distance c (home e.1) (next c p) = 0) :
    Ordered c home (update T p none) := by
  intro i hi e₁ he₁ hpos
  by_cases hn : next c i = p
  · rw [hn, update_self] at he₁
    cases he₁
  · rw [update_of_ne hn] at he₁
    by_cases hip : i = p
    · subst hip
      exact absurd (hnext e₁ he₁) hpos.ne'
    · rw [update_of_ne hip]
      exact hT i hi e₁ he₁ hpos

/-! ## Contents -/

lemma occupied_update (hp : p < c) (x : Option (κ × ν)) :
    occupied c (update T p x) + (T p).toList.length = occupied c T + x.toList.length := by
  have hmem : p ∈ range c := mem_range.2 hp
  have hrest : ∑ i ∈ (range c).erase p, (update T p x i).toList.length =
      ∑ i ∈ (range c).erase p, (T i).toList.length := by
    refine sum_congr rfl fun i hi => ?_
    rw [update_of_ne (ne_of_mem_erase hi)]
  rw [occupied, occupied, ← add_sum_erase _ _ hmem, ← add_sum_erase _ _ hmem, hrest, update_self]
  omega

lemma exists_empty (h : occupied c T < c) : ∃ i < c, T i = none := by
  by_contra hno
  have hfull : ∀ i ∈ range c, (T i).toList.length = 1 := by
    intro i hi
    cases hslot : T i with
    | none => exact absurd ⟨i, mem_range.1 hi, hslot⟩ hno
    | some e => rfl
  rw [occupied, sum_congr rfl hfull] at h
  simp at h

def toList (c : ℕ) (T : ℕ → Option (κ × ν)) : List (κ × ν) := (List.range c).filterMap T

lemma mem_toList : e ∈ toList c T ↔ Holds c T e := by
  simp [toList, Holds, List.mem_filterMap]

lemma length_toList : (toList c T).length = occupied c T := by
  induction c with
  | zero => rfl
  | succ c ih =>
    rw [occupied, sum_range_succ, ← occupied, ← ih, toList, List.range_succ,
      List.filterMap_append, List.length_append, toList]
    cases hslot : T c <;> simp [hslot]

lemma Distinct.nodup_keys (hT : Distinct c T) : ((toList c T).map Prod.fst).Nodup := by
  rw [toList, List.Nodup, List.pairwise_map, List.pairwise_filterMap]
  refine List.nodup_range.imp_of_mem fun {i j} hi hj hne e he e' he' hkey => hne ?_
  exact hT i (List.mem_range.1 hi) j (List.mem_range.1 hj) e e' he he' hkey

/-- The empty slot is some steps ahead. -/
lemma exists_gap (h : occupied c T < c) (hp : p < c) : ∃ t, T ((next c)^[t] p) = none ∧ t < c := by
  obtain ⟨i, hi, hslot⟩ := exists_empty h
  exact ⟨distance c p i, by rwa [iterate_distance hp hi], distance_lt hp hi⟩

variable {x y : κ × ν}

lemma holds_put (hp : p < c) :
    Holds c (update T p (some x)) y ↔ y = x ∨ ∃ i < c, i ≠ p ∧ T i = some y := by
  simp only [Holds, update_some_eq_some]
  constructor
  · rintro ⟨i, hi, ⟨-, rfl⟩ | hy⟩
    · exact .inl rfl
    · exact .inr ⟨i, hi, hy⟩
  · rintro (rfl | ⟨i, hi, hy⟩)
    · exact ⟨p, hp, .inl ⟨rfl, rfl⟩⟩
    · exact ⟨i, hi, .inr hy⟩

lemma holds_fill (hp : p < c) (hslot : T p = none) :
    Holds c (update T p (some x)) y ↔ Holds c T y ∨ y = x := by
  rw [holds_put hp, or_comm]
  refine or_congr (exists_congr fun i => and_congr_right fun _ => ?_) Iff.rfl
  constructor
  · exact And.right
  · refine fun hy => ⟨?_, hy⟩
    rintro rfl
    rw [hslot] at hy
    cases hy

lemma holds_swap (hp : p < c) (hslot : T p = some e) :
    (Holds c (update T p (some x)) y ∨ y = e) ↔ (Holds c T y ∨ y = x) := by
  rw [holds_put hp]
  constructor
  · rintro ((rfl | ⟨i, hi, -, hy⟩) | rfl)
    · exact .inr rfl
    · exact .inl ⟨i, hi, hy⟩
    · exact .inl ⟨p, hp, hslot⟩
  · rintro (⟨i, hi, hy⟩ | rfl)
    · by_cases hip : i = p
      · subst hip
        exact .inr (some.inj (hy.symm.trans hslot))
      · exact .inl (.inr ⟨i, hi, hip, hy⟩)
    · exact .inl (.inl rfl)

lemma Distinct.update (hT : Distinct c T) (hfresh : Fresh c T e.1) :
    Distinct c (Function.update T p (some e)) := by
  have hne : ∀ i < c, ∀ e', T i = some e' → e'.1 ≠ e.1 := fun i hi e' he' => hfresh e' ⟨i, hi, he'⟩
  intro i hi j hj e₁ e₂ h₁ h₂ hkey
  by_cases hip : i = p <;> by_cases hjp : j = p
  · rw [hip, hjp]
  · rw [hip, update_self] at h₁
    rw [update_of_ne hjp] at h₂
    rw [← some.inj h₁] at hkey
    exact absurd hkey.symm (hne j hj e₂ h₂)
  · rw [update_of_ne hip] at h₁
    rw [hjp, update_self] at h₂
    rw [← some.inj h₂] at hkey
    exact absurd hkey (hne i hi e₁ h₁)
  · rw [update_of_ne hip] at h₁
    rw [update_of_ne hjp] at h₂
    exact hT i hi j hj e₁ e₂ h₁ h₂ hkey

lemma Distinct.fresh_swap (hT : Distinct c T) (hp : p < c) (hslot : T p = some e)
    (hne : x.1 ≠ e.1) : Fresh c (Function.update T p (some x)) e.1 := by
  rintro y ⟨i, hi, hy⟩ hkey
  obtain ⟨-, rfl⟩ | ⟨hip, hy⟩ := update_some_eq_some.1 hy
  · exact hne hkey
  · exact hip (hT i hi p hp y e hy hslot hkey)

/-! ## Overwriting an entry -/

lemma Ordered.overwrite (hT : Ordered c home T) (hslot : T p = some e)
    (hkey : x.1 = e.1) : Ordered c home (update T p (some x)) := by
  refine hT.place ?_ fun e' he' => ?_
  · intro q hq hnext hpos
    subst hnext
    rw [hkey] at hpos ⊢
    exact hT q hq e hslot hpos
  · rw [hkey, ← some.inj (hslot.symm.trans he')]

section
variable (hT : Distinct c T) (hp : p < c) (hslot : T p = some e) (hkey : x.1 = e.1)
include hT hp hslot hkey

lemma Distinct.overwrite : Distinct c (Function.update T p (some x)) := by
  -- the slots have the keys that they had
  have hold : ∀ i < c, ∀ y, Function.update T p (some x) i = some y →
      ∃ z, T i = some z ∧ z.1 = y.1 := by
    intro i _ y hy
    obtain ⟨rfl, rfl⟩ | ⟨-, hy⟩ := update_some_eq_some.1 hy
    · exact ⟨e, hslot, hkey.symm⟩
    · exact ⟨y, hy, rfl⟩
  intro i hi j hj e₁ e₂ h₁ h₂ hkeys
  obtain ⟨z₁, hz₁, hk₁⟩ := hold i hi e₁ h₁
  obtain ⟨z₂, hz₂, hk₂⟩ := hold j hj e₂ h₂
  exact hT i hi j hj z₁ z₂ hz₁ hz₂ (by rw [hk₁, hk₂, hkeys])

lemma holds_overwrite :
    Holds c (update T p (some x)) y ↔ (Holds c T y ∧ y.1 ≠ x.1) ∨ y = x := by
  rw [holds_put hp, or_comm]
  refine or_congr ?_ Iff.rfl
  constructor
  · rintro ⟨i, hi, hip, hy⟩
    exact ⟨⟨i, hi, hy⟩, fun hkey' => hip (hT i hi p hp y e hy hslot (hkey'.trans hkey))⟩
  · rintro ⟨⟨i, hi, hy⟩, hne⟩
    refine ⟨i, hi, ?_, hy⟩
    rintro rfl
    exact hne (by rw [hkey, some.inj (hy.symm.trans hslot)])

end

/-! ## Closing a gap

While entries are moved back, the last slot that was moved from still has its entry; it counts
as the gap. -/

lemma update_none_eq_some {i : ℕ} : update T p none i = some e ↔ i ≠ p ∧ T i = some e := by
  by_cases hip : i = p
  · simp [hip]
  · simp [hip]

lemma holds_gap : Holds c (update T p none) y ↔ ∃ i < c, i ≠ p ∧ T i = some y := by
  simp only [Holds, update_none_eq_some]

lemma Distinct.gap (hT : Distinct c T) : Distinct c (Function.update T p none) := by
  intro i hi j hj e₁ e₂ h₁ h₂
  exact hT i hi j hj e₁ e₂ (update_none_eq_some.1 h₁).2 (update_none_eq_some.1 h₂).2

lemma holds_remove (hT : Distinct c T) (hp : p < c) (hslot : T p = some e) :
    Holds c (update T p none) y ↔ Holds c T y ∧ y.1 ≠ e.1 := by
  rw [holds_gap]
  constructor
  · rintro ⟨i, hi, hip, hy⟩
    exact ⟨⟨i, hi, hy⟩, fun hkey => hip (hT i hi p hp y e hy hslot hkey)⟩
  · rintro ⟨⟨i, hi, hy⟩, hne⟩
    refine ⟨i, hi, ?_, hy⟩
    rintro rfl
    exact hne (congrArg Prod.fst (some.inj (hy.symm.trans hslot)))

section MoveBack
variable (hself : next c p ≠ p) (he : T (next c p) = some e)
include hself he

lemma moveBack_slot {i : ℕ} {y : κ × ν} :
    update (update T p (some e)) (next c p) none i = some y ↔
      (i = p ∧ y = e) ∨ (i ≠ p ∧ i ≠ next c p ∧ T i = some y) := by
  rw [update_none_eq_some]
  by_cases hip : i = p
  · subst hip
    simp [hself.symm, eq_comm]
  · simp [hip]

lemma holds_moveBack (hp : p < c) {y : κ × ν} :
    Holds c (update (update T p (some e)) (next c p) none) y ↔
      Holds c (update T p none) y := by
  rw [holds_gap (T := T)]
  simp only [Holds, moveBack_slot hself he]
  constructor
  · rintro ⟨i, hi, ⟨rfl, rfl⟩ | ⟨hip, -, hy⟩⟩
    · exact ⟨next c i, next_lt hi, hself, he⟩
    · exact ⟨i, hi, hip, hy⟩
  · rintro ⟨i, hi, hip, hy⟩
    by_cases hin : i = next c p
    · subst hin
      exact ⟨p, hp, .inl ⟨rfl, some.inj (hy.symm.trans he)⟩⟩
    · exact ⟨i, hi, .inr ⟨hip, hin, hy⟩⟩

lemma Distinct.moveBack (hp : p < c) (hT : Distinct c (Function.update T p none)) :
    Distinct c (Function.update (Function.update T p (some e)) (next c p) none) := by
  have hgap : ∀ i < c, ∀ y, i ≠ p → T i = some y → y.1 = e.1 → i = next c p := by
    intro i hi y hip hy hkey
    exact hT i hi (next c p) (next_lt hp) y e (update_none_eq_some.2 ⟨hip, hy⟩)
      (update_none_eq_some.2 ⟨hself, he⟩) hkey
  intro i hi j hj e₁ e₂ h₁ h₂ hkey
  rcases (moveBack_slot hself he).1 h₁ with ⟨rfl, rfl⟩ | ⟨hip, hin, hy₁⟩ <;>
    rcases (moveBack_slot hself he).1 h₂ with ⟨rfl, rfl⟩ | ⟨hjp, hjn, hy₂⟩
  · rfl
  · exact absurd (hgap j hj e₂ hjp hy₂ hkey.symm) hjn
  · exact absurd (hgap i hi e₁ hip hy₁ hkey) hin
  · exact hT i hi j hj e₁ e₂ (update_none_eq_some.2 ⟨hip, hy₁⟩)
      (update_none_eq_some.2 ⟨hjp, hy₂⟩) hkey

lemma occupied_moveBack (hp : p < c) :
    occupied c (update (update T p (some e)) (next c p) none) =
      occupied c (update T p none) := by
  have h₁ := occupied_update (T := update T p (some e)) (next_lt hp) none
  have h₂ := occupied_update (T := T) hp (some e)
  have h₃ := occupied_update (T := T) hp none
  rw [update_of_ne hself, he] at h₁
  omega

end MoveBack

end Table
end HybridCache.RobinHood

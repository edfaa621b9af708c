import Mathlib
import HybridCache.CacheMap
import HybridCache.RobinHood

/-!
# The hash table of the map

With one slot always empty and the entries in Robin Hood order, the loops of the table end and
the table is a finite map from keys to addresses.
-/
namespace HybridCache.CacheMap
open RobinHood Function Nat Function List

variable {K V : Type} (cfg : Config K V)

namespace HashTable

structure Good (t : HashTable K) : Prop where
  room : t.numEntries < t.capacity
  counted : occupied t.capacity t.entries = t.numEntries
  ordered : Ordered t.capacity (t.getDesiredIndex cfg) t.entries
  distinct : Distinct t.capacity t.entries

def Maps (t : HashTable K) (key : K) (addr : BufferAddr) : Prop :=
  Holds t.capacity t.entries (key, addr)

variable {t : HashTable K}

lemma getDesiredIndex_lt (h : 0 < t.capacity) (key : K) :
    t.getDesiredIndex cfg key < t.capacity := by
  rw [getDesiredIndex, div_lt_iff_lt_mul (by decide), mul_comm]
  exact mul_lt_mul_of_pos_left (UInt32.toNat_lt _) h

variable {cfg}

variable {capacity : ℕ} {newE : K × BufferAddr} {old : BufferAddr}

lemma good_new (h : 0 < capacity) : (new capacity : HashTable K).Good cfg := by
  refine ⟨h, ?_, ?_, ?_⟩
  · simp [occupied, new]
  · intro i _ e he
    cases he
  · intro i _ j _ e e' he
    cases he

variable {index fuel g j : ℕ} {key : K}

lemma exists_gap (ht : t.Good cfg) (h : index < t.capacity) :
    ∃ g, t.entries ((next t.capacity)^[g] index) = none ∧ g < t.capacity :=
  RobinHood.exists_gap (by rw [ht.counted]; exact ht.room) h

/-! ## Lookups -/

variable [DecidableEq K]

def Found (t : HashTable K) (key : K) (r : Option (ℕ × BufferAddr)) : Prop :=
  (∃ i addr, r = some (i, addr) ∧ i < t.capacity ∧ t.entries i = some (key, addr)) ∨
    (r = none ∧ Fresh t.capacity t.entries key)

/-- The loop after `j` steps, with an empty slot `g` steps ahead. -/
theorem findLoop_spec (ht : t.Good cfg) (hindex : index < t.capacity)
    (hj : distance t.capacity (t.getDesiredIndex cfg key) index = j)
    (hgap : t.entries ((next t.capacity)^[g] index) = none) (hg : j + g < t.capacity)
    (hfuel : g < fuel)
    (hseen : ∀ i < t.capacity, ∀ addr, t.entries i = some (key, addr) →
      j ≤ distance t.capacity (t.getDesiredIndex cfg key) i) :
    ∃ r, t.findLoop cfg key fuel index j = some r ∧ Found t key r := by
  have hhome := getDesiredIndex_lt cfg (t := t) (by omega)
  induction fuel generalizing index j g with
  | zero => omega
  | succ fuel ih =>
    -- if the key is in the table, the loop is still on the way to it
    have hpath : ∀ i < t.capacity, ∀ addr, t.entries i = some (key, addr) →
        ∃ e, t.entries index = some e ∧
          j ≤ distance t.capacity (t.getDesiredIndex cfg e.1) index := by
      intro i hi addr he
      obtain ⟨e, hslot, hle⟩ :=
        ht.ordered.on_path hhome hi he hindex (hj.trans_le (hseen i hi addr he))
      exact ⟨e, hslot, hj ▸ hle⟩
    rw [findLoop]
    cases hslot : t.entries index with
    | none =>
      refine ⟨none, rfl, .inr ⟨rfl, ?_⟩⟩
      rintro ⟨key', addr⟩ ⟨i, hi, he⟩ rfl
      obtain ⟨e, he', -⟩ := hpath i hi addr he
      rw [hslot] at he'
      cases he'
    | some e =>
      by_cases hkey : e.1 = key
      · subst hkey
        exact ⟨_, if_pos rfl, .inl ⟨index, e.2, rfl, hindex, hslot⟩⟩
      · simp only [if_neg hkey]
        by_cases hless : probeDistance (t.getDesiredIndex cfg e.1) index t.capacity < j
        · rw [if_pos hless]
          refine ⟨none, rfl, .inr ⟨rfl, ?_⟩⟩
          rintro ⟨key', addr⟩ ⟨i, hi, he⟩ rfl
          obtain ⟨e', he', hle⟩ := hpath i hi addr he
          obtain rfl := Option.some.inj (hslot.symm.trans he')
          exact absurd hless (not_lt.2 hle)
        · rw [if_neg hless]
          obtain ⟨g, rfl⟩ : ∃ g', g = g' + 1 := by
            refine exists_eq_succ_of_ne_zero ?_
            rintro rfl
            rw [iterate_zero_apply, hslot] at hgap
            cases hgap
          have hstep := distance_next_of_lt (i := index) (hhome key) (by omega)
          refine ih (next_lt hindex) (hstep.trans (by omega)) hgap (by omega) (by omega) ?_
          intro i hi addr he
          have hle := hseen i hi addr he
          have hne : distance t.capacity (t.getDesiredIndex cfg key) i ≠ j := by
            intro heq
            obtain rfl := distance_inj (hhome key) hi hindex (heq.trans hj.symm)
            rw [hslot] at he
            exact hkey (congrArg Prod.fst (Option.some.inj he))
          omega

theorem find_spec (ht : t.Good cfg) (key : K) : ∃ r, t.find cfg key = some r ∧ Found t key r := by
  have hhome := getDesiredIndex_lt cfg (t := t) (zero_lt_of_lt ht.room)
  obtain ⟨g, hgap, hg⟩ := exists_gap ht (hhome key)
  exact findLoop_spec ht (hhome key) distance_self hgap (by omega) hg fun _ _ _ _ => zero_le _

/-! ## Insertion -/

/-- A key that is in the table is found before any entry would have to give way. -/
theorem insertLoop_present (ht : t.Good cfg) {i : ℕ}
    (hi : i < t.capacity) (hold : t.entries i = some (newE.1, old))
    (hindex : index < t.capacity)
    (hj : distance t.capacity (t.getDesiredIndex cfg newE.1) index = j)
    (hle : j ≤ distance t.capacity (t.getDesiredIndex cfg newE.1) i)
    (hfuel : distance t.capacity (t.getDesiredIndex cfg newE.1) i - j < fuel) :
    insertLoop cfg fuel t newE index j =
      some (some old, { t with entries := update t.entries i (some newE) }) := by
  have hhome := getDesiredIndex_lt cfg (t := t) (by omega)
  induction fuel generalizing index j with
  | zero => omega
  | succ fuel ih =>
    obtain ⟨e, hslot, hdist⟩ := ht.ordered.on_path hhome hi hold hindex (hj.trans_le hle)
    simp only [insertLoop, hslot]
    by_cases hkey : e.1 = newE.1
    · obtain rfl := ht.distinct index hindex i hi e _ hslot hold hkey
      have he : e = (newE.1, old) := Option.some.inj (hslot.symm.trans hold)
      rw [if_pos hkey, he]
    · have hnot : ¬ probeDistance (t.getDesiredIndex cfg e.1) index t.capacity < j :=
        not_lt.2 (hj.symm.trans_le hdist)
      rw [if_neg hkey, if_neg hnot]
      have hne : index ≠ i := by
        rintro rfl
        have he : e = (newE.1, old) := Option.some.inj (hslot.symm.trans hold)
        exact hkey (by rw [he])
      have hlt : j ≠ distance t.capacity (t.getDesiredIndex cfg newE.1) i := fun heq =>
        hne (distance_inj (hhome newE.1) hindex hi (hj.trans heq))
      have hmax := distance_lt (hhome newE.1) hi
      have hstep := distance_next_of_lt (i := index) (hhome newE.1) (by omega)
      exact ih (next_lt hindex) (hstep.trans (by omega)) (by omega) (by omega)

structure Inserted (cfg : Config K V) (t t' : HashTable K) (e : K × BufferAddr) : Prop where
  capacity : t'.capacity = t.capacity
  numEntries : t'.numEntries = t.numEntries + 1
  counted : occupied t.capacity t'.entries = occupied t.capacity t.entries + 1
  ordered : Ordered t.capacity (t.getDesiredIndex cfg) t'.entries
  distinct : Distinct t.capacity t'.entries
  holds : ∀ y, Holds t.capacity t'.entries y ↔ Holds t.capacity t.entries y ∨ y = e

/-- A new key takes the first slot that is empty or has a closer entry; that entry is then
placed in the same way. -/
theorem insertLoop_absent {t : HashTable K}
    (hordered : Ordered t.capacity (t.getDesiredIndex cfg) t.entries)
    (hdistinct : Distinct t.capacity t.entries) (hfresh : Fresh t.capacity t.entries newE.1)
    (hindex : index < t.capacity)
    (hfits : Fits t.capacity (t.getDesiredIndex cfg) t.entries index newE.1)
    (hj : distance t.capacity (t.getDesiredIndex cfg newE.1) index = j)
    (hgap : t.entries ((next t.capacity)^[g] index) = none) (hg : j + g < t.capacity)
    (hfuel : g < fuel) :
    ∃ t', insertLoop cfg fuel t newE index j = some (none, t') ∧ Inserted cfg t t' newE := by
  have hhome := getDesiredIndex_lt cfg (t := t) (by omega)
  induction fuel generalizing t newE index j g with
  | zero => omega
  | succ fuel ih =>
    cases hslot : t.entries index with
    | none =>
      refine ⟨{ t with entries := update t.entries index (some newE),
                       numEntries := t.numEntries + 1 }, by simp only [insertLoop, hslot],
        rfl, rfl, ?_, ?_, hdistinct.update hfresh, fun y => holds_fill hindex hslot⟩
      · have hcount := occupied_update (T := t.entries) hindex (some newE)
        rw [hslot] at hcount
        simpa using hcount
      · refine hordered.place hfits fun e' he' => ?_
        rw [hslot] at he'
        cases he'
    | some e =>
      have hkey : e.1 ≠ newE.1 := hfresh e ⟨index, hindex, hslot⟩
      obtain ⟨g, rfl⟩ : ∃ g', g = g' + 1 := by
        refine exists_eq_succ_of_ne_zero ?_
        rintro rfl
        rw [iterate_zero_apply, hslot] at hgap
        cases hgap
      rw [iterate_succ_apply] at hgap
      simp only [insertLoop, hslot, if_neg hkey]
      by_cases hless : probeDistance (t.getDesiredIndex cfg e.1) index t.capacity < j
      · -- the entry gives way and is carried on
        rw [if_pos hless]
        have hless' : distance t.capacity (t.getDesiredIndex cfg e.1) index < j := hless
        have hne : (next t.capacity)^[g] (next t.capacity index) ≠ index := by
          intro heq
          rw [heq, hslot] at hgap
          cases hgap
        have hstep := distance_next_of_lt (i := index) (hhome e.1) (by omega)
        have hsum : distance t.capacity (t.getDesiredIndex cfg e.1) index + 1 + g < t.capacity := by
          omega
        obtain ⟨t', hloop, hins⟩ := ih
          (t := { t with entries := update t.entries index (some newE) })
          (hordered.place hfits fun e' he' => by
            rw [← Option.some.inj (hslot.symm.trans he'), hj]
            exact hless'.le)
          (hdistinct.update hfresh) (hdistinct.fresh_swap hindex hslot hkey.symm)
          (next_lt hindex)
          (fits_next hhome (update_self ..) (hless'.le.trans_eq hj.symm))
          hstep ((update_of_ne hne _ _).trans hgap) hsum (by omega) hhome
        refine ⟨t', hloop, hins.capacity, hins.numEntries, ?_, hins.ordered, hins.distinct,
          fun y => (hins.holds y).trans (holds_swap hindex hslot)⟩
        have hcount := occupied_update (T := t.entries) hindex (some newE)
        have hcount' := hins.counted
        rw [hslot] at hcount
        simp only [Option.toList_some, length_singleton] at hcount hcount'
        omega
      · rw [if_neg hless]
        have hle : j ≤ distance t.capacity (t.getDesiredIndex cfg e.1) index := not_lt.1 hless
        have hstep := distance_next_of_lt (i := index) (hhome newE.1) (by omega)
        exact ih hordered hdistinct hfresh (next_lt hindex)
          (fits_next hhome hslot (hj.trans_le hle)) (hstep.trans (by omega)) hgap (by omega)
          (by omega) hhome

structure Stored (cfg : Config K V) (t t' : HashTable K) (key : K) (addr : BufferAddr) : Prop where
  good : t'.Good cfg
  capacity : t'.capacity = t.capacity
  maps : ∀ k a, t'.Maps k a ↔ (t.Maps k a ∧ k ≠ key) ∨ (k = key ∧ a = addr)

theorem insertOrReplace_full (h : t.numEntries = t.capacity - 1) (key : K) (addr : BufferAddr) :
    t.insertOrReplace cfg key addr = some (.error .badAlloc) :=
  if_pos h

theorem insertOrReplace_present (ht : t.Good cfg) (hroom : t.numEntries ≠ t.capacity - 1)
    (hold : t.Maps key old) (addr : BufferAddr) :
    ∃ t', t.insertOrReplace cfg key addr = some (.ok (some old, t')) ∧
      t'.numEntries = t.numEntries ∧ Stored cfg t t' key addr := by
  obtain ⟨i, hi, hslot⟩ := hold
  have hhome := getDesiredIndex_lt cfg (t := t) (by omega)
  have hloop : insertLoop cfg t.capacity t (key, addr) (t.getDesiredIndex cfg key) 0 =
      some (some old, { t with entries := update t.entries i (some (key, addr)) }) :=
    insertLoop_present ht hi hslot (hhome key) distance_self (zero_le _)
      (distance_lt (hhome key) hi)
  refine ⟨{ t with entries := update t.entries i (some (key, addr)) }, ?_, rfl,
    ⟨ht.room, ?_, ?_, ?_⟩, rfl, ?_⟩
  · rw [insertOrReplace, if_neg hroom, hloop]
    rfl
  · have hcount := occupied_update (T := t.entries) hi (some (key, addr))
    rw [hslot] at hcount
    exact add_right_cancel (hcount.trans (congrArg (· + 1) ht.counted))
  · exact ht.ordered.overwrite hslot rfl
  · exact ht.distinct.overwrite hi hslot rfl
  · intro k a
    have hholds := holds_overwrite (x := (key, addr)) (y := (k, a)) ht.distinct hi hslot rfl
    rw [Prod.mk.injEq] at hholds
    exact hholds

theorem insertOrReplace_absent (ht : t.Good cfg) (hroom : t.numEntries ≠ t.capacity - 1)
    (hfresh : ∀ a, ¬ t.Maps key a) (addr : BufferAddr) :
    ∃ t', t.insertOrReplace cfg key addr = some (.ok (none, t')) ∧
      t'.numEntries = t.numEntries + 1 ∧ Stored cfg t t' key addr := by
  have hhome := getDesiredIndex_lt cfg (t := t) (zero_lt_of_lt ht.room)
  obtain ⟨g, hgap, hg⟩ := exists_gap ht (hhome key)
  have hfresh' : Fresh t.capacity t.entries key := by
    rintro ⟨k, a⟩ hmaps rfl
    exact hfresh a hmaps
  obtain ⟨t', hloop, hins⟩ : ∃ t', insertLoop cfg t.capacity t (key, addr)
      (t.getDesiredIndex cfg key) 0 = some (none, t') ∧ Inserted cfg t t' (key, addr) :=
    insertLoop_absent ht.ordered ht.distinct hfresh' (hhome key) (fits_home distance_self)
      distance_self hgap (by omega) hg
  have hroom' := ht.room
  have hcapacity := hins.capacity
  have hnum := hins.numEntries
  refine ⟨t', by rw [insertOrReplace, if_neg hroom, hloop]; rfl, hnum,
    ⟨by omega, ?_, ?_, ?_⟩, hcapacity, ?_⟩
  · rw [hcapacity, hins.counted, ht.counted, hnum]
  · have hhome' : t'.getDesiredIndex cfg = t.getDesiredIndex cfg := by
      funext k
      rw [getDesiredIndex, getDesiredIndex, hcapacity]
    rw [hcapacity, hhome']
    exact hins.ordered
  · rw [hcapacity]
    exact hins.distinct
  · intro k a
    rw [Maps, hcapacity, hins.holds, Prod.mk.injEq]
    refine or_congr_left ⟨fun hmaps => ⟨hmaps, ?_⟩, fun hmaps => hmaps.1⟩
    rintro rfl
    exact hfresh a hmaps

/-! ## Removal -/

omit [DecidableEq K] in
/-- The loop from a gap at `p` with an empty slot `g` steps ahead. -/
theorem shiftLoop_spec {t : HashTable K} {p : ℕ} (hp : p < t.capacity)
    (hordered : Ordered t.capacity (t.getDesiredIndex cfg) t.entries)
    (hdistinct : Distinct t.capacity (update t.entries p none))
    (hslot : t.entries p ≠ none) (hgap : t.entries ((next t.capacity)^[g] p) = none)
    (hfuel : g ≤ fuel) :
    ∃ t', shiftLoop cfg fuel t p = some t' ∧ t'.capacity = t.capacity ∧
      t'.numEntries = t.numEntries - 1 ∧
      Ordered t.capacity (t.getDesiredIndex cfg) t'.entries ∧ Distinct t.capacity t'.entries ∧
      occupied t.capacity t'.entries = occupied t.capacity (update t.entries p none) ∧
      ∀ y, Holds t.capacity t'.entries y ↔ Holds t.capacity (update t.entries p none) y := by
  have hhome := getDesiredIndex_lt cfg (t := t) (by omega)
  induction fuel generalizing t p g with
  | zero =>
    obtain rfl : g = 0 := by omega
    exact absurd hgap hslot
  | succ fuel ih =>
    have hnext : (if p = t.capacity - 1 then 0 else p + 1) = next t.capacity p := by
      congr 1
      exact propext (by omega)
    simp only [shiftLoop, hnext]
    cases hslot' : t.entries (next t.capacity p) with
    | none =>
      refine ⟨_, rfl, rfl, rfl, hordered.clear fun e he => ?_, hdistinct, rfl, fun y => Iff.rfl⟩
      rw [hslot'] at he
      cases he
    | some e =>
      by_cases hzero : probeDistance (t.getDesiredIndex cfg e.1) (next t.capacity p) t.capacity = 0
      · simp only [if_pos hzero]
        refine ⟨_, rfl, rfl, rfl, hordered.clear fun e' he' => ?_, hdistinct, rfl, fun y => Iff.rfl⟩
        rw [← Option.some.inj (hslot'.symm.trans he')]
        exact hzero
      · simp only [if_neg hzero]
        have hpos : 0 < distance t.capacity (t.getDesiredIndex cfg e.1) (next t.capacity p) :=
          pos_of_ne_zero hzero
        have hstep := distance_of_next (hhome e.1) hpos
        have hself : next t.capacity p ≠ p := by
          intro heq
          rw [heq] at hstep
          omega
        obtain ⟨g, rfl⟩ : ∃ g', g = g' + 1 := by
          refine exists_eq_succ_of_ne_zero ?_
          rintro rfl
          exact hslot hgap
        rw [iterate_succ_apply] at hgap
        have hne : (next t.capacity)^[g] (next t.capacity p) ≠ p := by
          intro heq
          rw [heq] at hgap
          exact hslot hgap
        obtain ⟨t', hloop, hcapacity, hnum, hordered', hdistinct', hcount, hholds⟩ := ih
          (t := { t with entries := update t.entries p (some e) }) (next_lt hp)
          (hordered.moveBack hhome hp hslot' hpos) (hdistinct.moveBack hself hslot' hp)
          (by simp [update_of_ne hself, hslot'])
          ((update_of_ne hne _ _).trans hgap) (by omega) hhome
        exact ⟨t', hloop, hcapacity, hnum, hordered', hdistinct',
          hcount.trans (occupied_moveBack hself hslot' hp),
          fun y => (hholds y).trans (holds_moveBack hself hslot' hp)⟩

theorem remove_absent (ht : t.Good cfg) (hfresh : ∀ a, ¬ t.Maps key a) :
    t.remove cfg key = some (none, t) := by
  obtain ⟨r, hfind, ⟨i, addr, rfl, hi, hslot⟩ | ⟨rfl, -⟩⟩ := find_spec ht key
  · exact absurd ⟨i, hi, hslot⟩ (hfresh addr)
  · rw [remove, hfind]
    rfl

theorem remove_present (ht : t.Good cfg) {addr : BufferAddr} (hmaps : t.Maps key addr) :
    ∃ t', t.remove cfg key = some (some addr, t') ∧ t'.Good cfg ∧ t'.capacity = t.capacity ∧
      ∀ k a, t'.Maps k a ↔ t.Maps k a ∧ k ≠ key := by
  obtain ⟨r, hfind, ⟨i, addr', rfl, hi, hslot⟩ | ⟨-, hfresh⟩⟩ := find_spec ht key
  · obtain ⟨j, hj, hslot'⟩ := hmaps
    obtain rfl := ht.distinct i hi j hj _ _ hslot hslot' rfl
    obtain rfl : addr' = addr := congrArg Prod.snd (Option.some.inj (hslot.symm.trans hslot'))
    obtain ⟨g, hgap, hg⟩ := exists_gap ht hi
    obtain ⟨t', hloop, hcapacity, hnum, hordered, hdistinct, hcount, hholds⟩ :=
      shiftLoop_spec hi ht.ordered ht.distinct.gap (by simp [hslot]) hgap hg.le
    have hupdate := occupied_update (T := t.entries) hi none
    rw [hslot, ht.counted] at hupdate
    simp only [Option.toList_some, Option.toList_none, length_singleton,
      length_nil] at hupdate
    have hroom := ht.room
    have hhome : t'.getDesiredIndex cfg = t.getDesiredIndex cfg := by
      funext k
      rw [getDesiredIndex, getDesiredIndex, hcapacity]
    refine ⟨t', by rw [remove, hfind]; simp [hloop], ⟨by omega, ?_, ?_, ?_⟩, hcapacity, ?_⟩
    · rw [hcapacity, hcount, hnum]
      omega
    · rw [hcapacity, hhome]
      exact hordered
    · rw [hcapacity]
      exact hdistinct
    · intro k a
      rw [Maps, hcapacity, hholds, holds_remove ht.distinct hi hslot]
      rfl
  · exact absurd rfl (hfresh _ hmaps)

/-! ## Copies -/

theorem copyLoop_spec {es : List (Option (K × BufferAddr))} {t : HashTable K} (ht : t.Good cfg)
    (hkeys : ((es.filterMap id).map Prod.fst).Nodup)
    (hfresh : ∀ e ∈ es.filterMap id, ∀ a, ¬ t.Maps e.1 a)
    (hroom : t.numEntries + (es.filterMap id).length < t.capacity) :
    ∃ t', copyLoop cfg es t = some (.ok t') ∧ t'.Good cfg ∧ t'.capacity = t.capacity ∧
      t'.numEntries = t.numEntries + (es.filterMap id).length ∧
      ∀ k a, t'.Maps k a ↔ t.Maps k a ∨ (k, a) ∈ es.filterMap id := by
  induction es generalizing t with
  | nil => exact ⟨t, rfl, ht, rfl, rfl, by simp⟩
  | cons x es ih =>
    cases x with
    | none => exact ih ht hkeys hfresh hroom
    | some e =>
      have hcons : (some e :: es).filterMap id = e :: es.filterMap id := rfl
      rw [hcons] at hkeys hfresh hroom ⊢
      rw [map_cons, nodup_cons] at hkeys
      rw [length_cons] at hroom ⊢
      obtain ⟨t₁, hinsert, hnum, hstored⟩ := insertOrReplace_absent ht (by omega)
        (hfresh e mem_cons_self) e.2
      have hcapacity := hstored.capacity
      obtain ⟨t', hloop, hgood, hcapacity', hnum', hmaps⟩ := ih hstored.good hkeys.2 (by
          intro e' he' a hmaps
          rcases (hstored.maps e'.1 a).1 hmaps with ⟨hmaps, -⟩ | ⟨hkey, -⟩
          · exact hfresh e' (mem_cons_of_mem _ he') a hmaps
          · exact hkeys.1 (hkey ▸ mem_map_of_mem he'))
        (by omega)
      refine ⟨t', by simp only [copyLoop, hinsert, hloop], hgood, by omega, by omega, ?_⟩
      intro k a
      rw [hmaps, hstored.maps, mem_cons]
      constructor
      · rintro ((⟨hmaps, -⟩ | ⟨rfl, rfl⟩) | hmem)
        · exact .inl hmaps
        · exact .inr (.inl rfl)
        · exact .inr (.inr hmem)
      · rintro (hmaps | rfl | hmem)
        · refine .inl (.inl ⟨hmaps, ?_⟩)
          rintro rfl
          exact hfresh e mem_cons_self a hmaps
        · exact .inl (.inr ⟨rfl, rfl⟩)
        · exact .inr hmem

theorem copy_spec (ht : t.Good cfg) (hcapacity : t.capacity ≤ capacity) :
    ∃ t', copy cfg capacity t = some (.ok t') ∧ t'.Good cfg ∧ t'.capacity = capacity ∧
      t'.numEntries = t.numEntries ∧ ∀ k a, t'.Maps k a ↔ t.Maps k a := by
  have hroom := ht.room
  have hlist : ((List.range t.capacity).map t.entries).filterMap id =
      toList t.capacity t.entries := by
    rw [List.filterMap_map]
    rfl
  have hnew : (new capacity : HashTable K).Good cfg := good_new (by omega)
  have hkeys : ((((List.range t.capacity).map t.entries).filterMap id).map Prod.fst).Nodup := by
    rw [hlist]
    exact ht.distinct.nodup_keys
  obtain ⟨t', hloop, hgood, hcap, hnum, hmaps⟩ := copyLoop_spec hnew hkeys
    (by rintro e - a ⟨i, -, hslot⟩; cases hslot)
    (by rw [hlist, length_toList, ht.counted]; change 0 + _ < capacity; omega)
  refine ⟨t', by rw [copy, if_neg (by omega), hloop], hgood, hcap, ?_, fun k a => ?_⟩
  · rw [hnum, hlist, length_toList, ht.counted]
    exact zero_add _
  · rw [hmaps, hlist, mem_toList]
    exact or_iff_right (by rintro ⟨i, -, hslot⟩; cases hslot)

/-! ## Runs of the table -/

omit [DecidableEq K] in
lemma Good.maps_functional (ht : t.Good cfg) {a a' : BufferAddr} (h : t.Maps key a)
    (h' : t.Maps key a') : a = a' := by
  obtain ⟨i, hi, hslot⟩ := h
  obtain ⟨j, hj, hslot'⟩ := h'
  obtain rfl := ht.distinct i hi j hj _ _ hslot hslot' rfl
  exact congrArg Prod.snd (Option.some.inj (hslot.symm.trans hslot'))

inductive Call (K : Type)
  | insertOrReplace (key : K) (addr : BufferAddr)
  | remove (key : K)

/-- An insertion that throws changes nothing. -/
def call (cfg : Config K V) (t : HashTable K) : Call K → Option (HashTable K)
  | .insertOrReplace key addr => (t.insertOrReplace cfg key addr).map fun
    | .ok r => r.2
    | .error _ => t
  | .remove key => (t.remove cfg key).map Prod.snd

section
variable (ht : t.Good cfg) (key : K)
include ht

lemma insertOrReplace_spec (hroom : t.numEntries ≠ t.capacity - 1) (addr : BufferAddr) :
    ∃ old t', t.insertOrReplace cfg key addr = some (.ok (old, t')) ∧
      (∀ a, old = some a ↔ t.Maps key a) ∧ Stored cfg t t' key addr := by
  by_cases h : ∃ old, t.Maps key old
  · obtain ⟨old, hold⟩ := h
    obtain ⟨t', hinsert, -, hstored⟩ := insertOrReplace_present ht hroom hold addr
    refine ⟨some old, t', hinsert, fun a => ?_, hstored⟩
    rw [Option.some.injEq]
    exact ⟨fun he => he ▸ hold, ht.maps_functional hold⟩
  · have hfresh : ∀ a, ¬ t.Maps key a := fun a ha => h ⟨a, ha⟩
    obtain ⟨t', hinsert, -, hstored⟩ := insertOrReplace_absent ht hroom hfresh addr
    exact ⟨none, t', hinsert, fun a => by simp [hfresh a], hstored⟩

lemma remove_spec : ∃ old t', t.remove cfg key = some (old, t') ∧
    (∀ a, old = some a ↔ t.Maps key a) ∧ t'.Good cfg ∧ t'.capacity = t.capacity ∧
      ∀ k a, t'.Maps k a ↔ t.Maps k a ∧ k ≠ key := by
  by_cases h : ∃ old, t.Maps key old
  · obtain ⟨old, hold⟩ := h
    obtain ⟨t', hremove, hrest⟩ := remove_present ht hold
    refine ⟨some old, t', hremove, fun a => ?_, hrest⟩
    rw [Option.some.injEq]
    exact ⟨fun he => he ▸ hold, ht.maps_functional hold⟩
  · have hfresh : ∀ a, ¬ t.Maps key a := fun a ha => h ⟨a, ha⟩
    refine ⟨none, t, remove_absent ht hfresh, fun a => by simp [hfresh a], ht, rfl, fun k a => ?_⟩
    refine ⟨fun hmaps => ⟨hmaps, ?_⟩, And.left⟩
    rintro rfl
    exact hfresh a hmaps

end

lemma call_good (ht : t.Good cfg) (c : Call K) :
    ∃ t', t.call cfg c = some t' ∧ t'.Good cfg ∧ t'.capacity = t.capacity := by
  cases c with
  | insertOrReplace key addr =>
    by_cases hroom : t.numEntries = t.capacity - 1
    · exact ⟨t, by rw [call, insertOrReplace_full hroom]; rfl, ht, rfl⟩
    · obtain ⟨old, t', hinsert, -, hstored⟩ := insertOrReplace_spec ht key hroom addr
      exact ⟨t', by rw [call, hinsert]; rfl, hstored.good, hstored.capacity⟩
  | remove key =>
    obtain ⟨old, t', hremove, -, hgood, hcapacity, -⟩ := remove_spec ht key
    exact ⟨t', by rw [call, hremove]; rfl, hgood, hcapacity⟩

/-- After any insertions and removals every key has at most one slot, a probe for a stored key
meets neither an empty slot nor an entry that is closer to its home on the way, and so lookups,
insertions, removals and copies end and treat the table as a map. -/
theorem robin_hood_table_correct (cfg : Config K V) (hcapacity : 2 ≤ capacity)
    (calls : List (Call K)) : ∃ t : HashTable K,
    Transition.run (call cfg) (new capacity) calls = some t ∧ t.capacity = capacity ∧
    t.numEntries ≤ capacity - 1 ∧ occupied capacity t.entries = t.numEntries ∧
    (∀ i < capacity, ∀ j < capacity, ∀ e e', t.entries i = some e → t.entries j = some e' →
      e.1 = e'.1 → i = j) ∧
    (∀ p < capacity, ∀ e, t.entries p = some e → ∀ i < capacity,
      probeDistance (t.getDesiredIndex cfg e.1) i capacity ≤
        probeDistance (t.getDesiredIndex cfg e.1) p capacity →
      ∃ e', t.entries i = some e' ∧ probeDistance (t.getDesiredIndex cfg e.1) i capacity ≤
        probeDistance (t.getDesiredIndex cfg e'.1) i capacity) ∧
    (∀ key, ∃ r, t.find cfg key = some r ∧
      ∀ i addr, r = some (i, addr) ↔ i < capacity ∧ t.entries i = some (key, addr)) ∧
    (∀ key addr, t.numEntries < capacity - 1 → ∃ old t',
      t.insertOrReplace cfg key addr = some (.ok (old, t')) ∧
      (∀ a, old = some a ↔ t.Maps key a) ∧
      ∀ k a, t'.Maps k a ↔ (t.Maps k a ∧ k ≠ key) ∨ (k = key ∧ a = addr)) ∧
    (∀ key, ∃ old t', t.remove cfg key = some (old, t') ∧ (∀ a, old = some a ↔ t.Maps key a) ∧
      ∀ k a, t'.Maps k a ↔ t.Maps k a ∧ k ≠ key) ∧
    ∀ larger, capacity ≤ larger → ∃ t', copy cfg larger t = some (.ok t') ∧
      t'.capacity = larger ∧ ∀ k a, t'.Maps k a ↔ t.Maps k a := by
  have hnew : (new capacity : HashTable K).Good cfg := good_new (by omega)
  have hstep : ∀ (t : HashTable K) (c : Call K), True → (t.Good cfg ∧ t.capacity = capacity) →
      ∃ t', t.call cfg c = some t' ∧ t'.Good cfg ∧ t'.capacity = capacity := by
    intro t c _ ht
    obtain ⟨t', hcall, hgood, hcap⟩ := call_good ht.1 c
    exact ⟨t', hcall, hgood, hcap.trans ht.2⟩
  obtain ⟨t, hrun, ht, rfl⟩ :=
    Transition.run_returns hstep (fun c (_ : c ∈ calls) => trivial) ⟨hnew, rfl⟩
  have hroom := ht.room
  refine ⟨t, hrun, rfl, by omega, ht.counted, ht.distinct, ?_, fun key => ?_, ?_, ?_, ?_⟩
  · intro p hp e he i hi hle
    exact ht.ordered.on_path (getDesiredIndex_lt cfg (by omega)) hp he hi hle
  · obtain ⟨r, hfind, hfound⟩ := find_spec ht key
    refine ⟨r, hfind, fun i addr => ⟨?_, ?_⟩⟩
    · rintro rfl
      obtain ⟨i', addr', heq, hi, hslot⟩ | ⟨hnone, -⟩ := hfound
      · cases heq
        exact ⟨hi, hslot⟩
      · cases hnone
    · rintro ⟨hi, hslot⟩
      obtain ⟨i', addr', rfl, hi', hslot'⟩ | ⟨-, hfresh⟩ := hfound
      · obtain rfl := ht.distinct i' hi' i hi _ _ hslot' hslot rfl
        rw [hslot', Option.some.injEq, Prod.mk.injEq] at hslot
        rw [hslot.2]
      · exact absurd rfl (hfresh _ ⟨i, hi, hslot⟩)
  · intro key addr hlt
    obtain ⟨old, t', hinsert, hold, hstored⟩ := insertOrReplace_spec ht key (by omega) addr
    exact ⟨old, t', hinsert, hold, hstored.maps⟩
  · intro key
    obtain ⟨old, t', hremove, hold, -, -, hmaps⟩ := remove_spec ht key
    exact ⟨old, t', hremove, hold, hmaps⟩
  · intro larger hle
    obtain ⟨t', hcopy, -, hcap, -, hmaps⟩ := copy_spec ht hle
    exact ⟨t', hcopy, hcap, hmaps⟩

/-- Two keys with one home in a table of three slots; the home is the last slot. -/
theorem robin_hood_table_wraps :
    let cfg : Config ℕ ℕ := ⟨fun _ => 2 ^ 32 - 1, 4, fun _ => 4, 0, by decide⟩
    ∃ t : HashTable ℕ, Transition.run (call cfg) (new 3)
        [.insertOrReplace 7 ⟨0, 0⟩, .insertOrReplace 8 ⟨0, 8⟩, .remove 7] = some t ∧
      ∃ r, t.find cfg 8 = some r ∧
        ∀ i addr, r = some (i, addr) ↔ i < 3 ∧ t.entries i = some (8, addr) := by
  intro cfg
  obtain ⟨t, hrun, -, -, -, -, -, hfind, -⟩ := robin_hood_table_correct cfg (by decide : 2 ≤ 3)
    [.insertOrReplace 7 ⟨0, 0⟩, .insertOrReplace 8 ⟨0, 8⟩, .remove 7]
  exact ⟨t, hrun, hfind 8⟩

end HashTable
end HybridCache.CacheMap

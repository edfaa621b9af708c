import Mathlib

/-!
# Bounded lists of entries, most recently used first

A list has room for so many entries and for entries of so much size in total. Room for something
new is made by giving up entries from the end, and no more of them than needed.
-/
namespace HybridCache
open List Nat

structure BoundedLru (ε : Type*) where
  size : ε → ℕ
  capacity : ℕ
  maxEntries : ℕ

namespace BoundedLru

variable {ε : Type*} (B : BoundedLru ε)

def load (es : List ε) : ℕ := (es.map B.size).sum

def Fits (need : ℕ) (es : List ε) : Prop :=
  B.load es + need ≤ B.capacity ∧ es.length < B.maxEntries

instance (need : ℕ) (es : List ε) : Decidable (B.Fits need es) :=
  inferInstanceAs (Decidable (_ ∧ _))

def keepCount (need : ℕ) (es : List ε) : ℕ :=
  Nat.findGreatest (fun k => B.Fits need (es.take k)) es.length

def keep (need : ℕ) (es : List ε) : List ε := es.take (B.keepCount need es)

def gone (need : ℕ) (es : List ε) : List ε := es.drop (B.keepCount need es)

def push (e : ε) (es : List ε) : List ε := e :: B.keep (B.size e) es

variable {B} {need : ℕ} {es : List ε}

@[simp] lemma load_nil : B.load [] = 0 := rfl

@[simp] lemma load_cons {e : ε} : B.load (e :: es) = B.size e + B.load es := by simp [load]

@[simp] lemma load_append {es' : List ε} : B.load (es ++ es') = B.load es + B.load es' := by
  simp [load]

lemma load_take_succ {k : ℕ} (hk : k < es.length) :
    B.load (es.take (k + 1)) = B.load (es.take k) + B.size es[k] := by
  rw [take_succ_eq_append_getElem hk, load_append, load_cons, load_nil, add_zero]

lemma load_take_mono {i j : ℕ} (hij : i ≤ j) : B.load (es.take i) ≤ B.load (es.take j) := by
  rw [← min_eq_left hij, ← take_take]
  conv_rhs => rw [← take_append_drop i (es.take j), load_append]
  exact le_add_right _ _

/-- What fits still fits with less entries. -/
lemma Fits.mono {i j : ℕ} (h : B.Fits need (es.take j)) (hij : i ≤ j) : B.Fits need (es.take i) := by
  refine ⟨le_trans (Nat.add_le_add_right (load_take_mono hij) need) h.1, lt_of_le_of_lt ?_ h.2⟩
  simp only [length_take]
  omega

lemma keepCount_le : B.keepCount need es ≤ es.length := Nat.findGreatest_le _

lemma keepCount_eq {k : ℕ} (hk : k ≤ es.length) (hfits : B.Fits need (es.take k))
    (hnext : k < es.length → ¬B.Fits need (es.take (k + 1))) : B.keepCount need es = k := by
  refine findGreatest_eq_iff.2 ⟨hk, fun _ => hfits, fun j hkj hj hfits' => ?_⟩
  exact hnext (by omega) (hfits'.mono hkj)

lemma keepCount_of_fits (h : B.Fits need es) : B.keepCount need es = es.length :=
  keepCount_eq le_rfl (by rwa [take_length]) fun hlt => absurd hlt (lt_irrefl _)

lemma keep_of_fits (h : B.Fits need es) : B.keep need es = es := by
  rw [keep, keepCount_of_fits h, take_length]

lemma gone_of_fits (h : B.Fits need es) : B.gone need es = [] := by
  rw [gone, keepCount_of_fits h, drop_length]

lemma keep_sublist : (B.keep need es).Sublist es := List.take_sublist _ _

lemma keep_fits (hneed : need ≤ B.capacity) (hmax : 0 < B.maxEntries) :
    B.Fits need (B.keep need es) := by
  have hzero : B.Fits need (es.take 0) := ⟨by simpa using hneed, by simpa using hmax⟩
  exact findGreatest_spec (P := fun k => B.Fits need (es.take k)) (zero_le _) hzero

end BoundedLru

end HybridCache

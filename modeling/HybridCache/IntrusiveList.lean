import Mathlib.Data.Fintype.Card
import Mathlib.Tactic

/-!
# Singly linked lists threaded through a next-hook

The hook `next` lives in the nodes, so a store of many lists is one function.
`Segment next h l t` says that the walk that starts at `h` visits exactly `l`
and arrives at `t`; a whole list is a segment that arrives at `none`.
-/
namespace HybridCache.IntrusiveList

open Function List

variable {ν : Type*}

/-- The walk from `h` visits `l` and arrives at `t`. -/
def Segment (next : ν → Option ν) : Option ν → List ν → Option ν → Prop
  | h, [], t => h = t
  | h, n :: l, t => h = some n ∧ Segment next (next n) l t

@[simp] theorem segment_nil (next : ν → Option ν) (h t : Option ν) :
    Segment next h [] t ↔ h = t := Iff.rfl

@[simp] theorem segment_cons (next : ν → Option ν) (h t : Option ν) (n : ν) (l : List ν) :
    Segment next h (n :: l) t ↔ h = some n ∧ Segment next (next n) l t := Iff.rfl

variable {h : Option ν} {next : ν → Option ν} {l : List ν}

theorem segment_append {t : Option ν} {l₁ l₂ : List ν} :
    Segment next h (l₁ ++ l₂) t ↔ ∃ m, Segment next h l₁ m ∧ Segment next m l₂ t := by
  induction l₁ generalizing h with
  | nil => simp
  | cons n l ih =>
    simp only [cons_append, segment_cons, ih]
    constructor
    · rintro ⟨hh, m, hl, hr⟩
      exact ⟨m, ⟨hh, hl⟩, hr⟩
    · rintro ⟨m, ⟨hh, hl⟩, hr⟩
      exact ⟨hh, m, hl, hr⟩

/-- A walk does not see what is written into other nodes. -/
theorem segment_frame {next' : ν → Option ν} {t : Option ν}
    (hs : Segment next h l t) (heq : ∀ n ∈ l, next' n = next n) : Segment next' h l t := by
  induction l generalizing h with
  | nil => exact hs
  | cons n l ih =>
    obtain ⟨hh, hl⟩ := hs
    refine ⟨hh, ?_⟩
    rw [heq n (by simp)]
    exact ih hl fun m hm => heq m (by simp [hm])

/-- Walk to the first node that satisfies `p`, remembering the node before it.
`none` means that `fuel` steps were not enough. -/
def scan (next : ν → Option ν) (p : ν → Bool) :
    ℕ → Option ν → Option ν → Option (Option ν × Option ν)
  | 0, _, _ => none
  | _ + 1, prev, none => some (prev, none)
  | fuel + 1, prev, some curr =>
    if p curr = true then some (prev, some curr) else scan next p fuel (some curr) (next curr)

theorem scan_eq (p : ν → Bool) {prev : Option ν} {fuel : ℕ}
    (hs : Segment next h l none) (hfuel : l.length < fuel) :
    scan next p fuel prev h = some ((l.takeWhile fun n => !p n).getLast?.or prev, l.find? p) := by
  induction l generalizing h prev fuel with
  | nil =>
    obtain ⟨fuel, rfl⟩ : ∃ k, fuel = k + 1 := ⟨fuel - 1, by simp at hfuel; omega⟩
    rw [segment_nil] at hs
    simp [hs, scan]
  | cons n l ih =>
    obtain ⟨fuel, rfl⟩ : ∃ k, fuel = k + 1 := ⟨fuel - 1, by simp at hfuel; omega⟩
    obtain ⟨rfl, hl⟩ := hs
    rw [scan]
    by_cases hp : p n = true
    · simp [hp]
    · rw [if_neg hp, ih hl (by simpa using hfuel)]
      simp [hp, getLast?_cons, Option.or_some]

section Splice
variable [DecidableEq ν]

/-- Write a link: into the hook of `prev`, or into the head when there is none. -/
def relink (next : ν → Option ν) (head prev dest : Option ν) : (ν → Option ν) × Option ν :=
  match prev with
  | some q => (update next q dest, head)
  | none => (next, dest)

variable {next : ν → Option ν} {h : Option ν} {l l₁ l₂ : List ν} {c m : ν}

theorem relink_next_of_ne {head prev dest : Option ν} {n : ν}
    (hn : prev ≠ some n) : (relink next head prev dest).1 n = next n := by
  cases prev with
  | none => rfl
  | some q => exact update_of_ne (fun h => hn (by rw [h])) _ _

/-- Writing behind the last node of a segment redirects the segment. -/
theorem segment_relink {t : Option ν} (dest : Option ν) (hs : Segment next h l t) (hnd : l.Nodup) :
    Segment (relink next h l.getLast? dest).1 (relink next h l.getLast? dest).2 l dest := by
  rcases eq_nil_or_concat l with rfl | ⟨l, q, rfl⟩
  · rfl
  · rw [concat_eq_append] at hs hnd ⊢
    rw [getLast?_concat]
    obtain ⟨m, hl, hq, -⟩ := segment_append.1 hs
    have hq' : q ∉ l := by
      have := (nodup_append.1 hnd).2.2
      intro hmem
      exact this q hmem q (by simp) rfl
    refine segment_append.2 ⟨m, segment_frame hl fun n hn => ?_, hq, ?_⟩
    · exact update_of_ne (ne_of_mem_of_not_mem hn hq') _ _
    · simp [relink]

/-- A node between two segments. -/
theorem segment_splice {m : ν} {t t' : Option ν} (hl₁ : Segment next h l₁ t)
    (hl₂ : Segment next t' l₂ none) (hnd : l₁.Nodup) (hdis : ∀ n ∈ l₂, n ∉ l₁)
    (hm : m ∉ l₁ ++ l₂) :
    let w := relink next h l₁.getLast? (some m)
    Segment (update w.1 m t') w.2 (l₁ ++ m :: l₂) none := by
  have hm₁ : m ∉ l₁ := fun h => hm (by simp [h])
  have hm₂ : m ∉ l₂ := fun h => hm (by simp [h])
  refine segment_append.2 ⟨some m, ?_, rfl, ?_⟩
  · refine segment_frame (segment_relink (some m) hl₁ hnd) fun n hn => ?_
    exact update_of_ne (ne_of_mem_of_not_mem hn hm₁) _ _
  · rw [update_self]
    refine segment_frame hl₂ fun n hn => ?_
    rw [update_of_ne (ne_of_mem_of_not_mem hn hm₂)]
    exact relink_next_of_ne fun hlast => hdis n hn (mem_of_getLast? hlast)

/-- Splicing `m` in the place of `c`. Node `m` may be `c` itself. -/
theorem segment_replace {c m : ν}
    (hs : Segment next h (l₁ ++ c :: l₂) none) (hnd : (l₁ ++ c :: l₂).Nodup)
    (hm : m ∉ l₁ ++ l₂) :
    let w := relink next h l₁.getLast? (some m)
    Segment (update w.1 m (w.1 c)) w.2 (l₁ ++ m :: l₂) none := by
  intro w
  obtain ⟨t, hl₁, -, hl₂⟩ := segment_append.1 hs
  obtain ⟨hnd₁, hnd₂, hdis⟩ := nodup_append.1 hnd
  have hc : l₁.getLast? ≠ some c := by
    intro hlast
    exact hdis c (mem_of_getLast? hlast) c (by simp) rfl
  rw [show w.1 c = next c from relink_next_of_ne hc]
  exact segment_splice hl₁ hl₂ hnd₁ (fun n hn hn' => hdis n hn' n (by simp [hn]) rfl) hm

theorem segment_remove {c : ν}
    (hs : Segment next h (l₁ ++ c :: l₂) none) (hnd : (l₁ ++ c :: l₂).Nodup) :
    let w := relink next h l₁.getLast? (next c)
    Segment w.1 w.2 (l₁ ++ l₂) none := by
  obtain ⟨t, hl₁, -, hl₂⟩ := segment_append.1 hs
  obtain ⟨hnd₁, -, hdis⟩ := nodup_append.1 hnd
  refine segment_append.2 ⟨next c, segment_relink (next c) hl₁ hnd₁, ?_⟩
  refine segment_frame hl₂ fun n hn => relink_next_of_ne fun hlast => ?_
  exact hdis n (mem_of_getLast? hlast) n (by simp [hn]) rfl

theorem segment_insert {m : ν}
    (hs : Segment next h (l₁ ++ l₂) none) (hnd : (l₁ ++ l₂).Nodup) (hm : m ∉ l₁ ++ l₂) :
    let w := relink next h l₁.getLast? (some m)
    Segment (update w.1 m l₂.head?) w.2 (l₁ ++ m :: l₂) none := by
  obtain ⟨t, hl₁, hl₂⟩ := segment_append.1 hs
  obtain ⟨hnd₁, -, hdis⟩ := nodup_append.1 hnd
  have ht : t = l₂.head? := by
    cases l₂ with
    | nil => exact hl₂
    | cons k l => exact hl₂.1
  rw [← ht]
  exact segment_splice hl₁ hl₂ hnd₁ (fun n hn hn' => hdis n hn' n hn rfl) hm

/-- The chain with `m` in the place of `c`. -/
def substitute (c m : ν) (l : List ν) : List ν := l.map fun n => if n = c then m else n

theorem substitute_split (hnd : (l₁ ++ c :: l₂).Nodup) :
    substitute c m (l₁ ++ c :: l₂) = l₁ ++ m :: l₂ := by
  have h₁ : ∀ n ∈ l₁, n ≠ c := by
    intro n hn he
    exact (nodup_append.1 hnd).2.2 n hn c (by simp) he
  have h₂ : ∀ n ∈ l₂, n ≠ c := by
    intro n hn he
    exact (nodup_cons.1 (nodup_append.1 hnd).2.1).1 (he ▸ hn)
  simp only [substitute, map_append, map_cons, if_true]
  congr 1
  · exact (map_congr_left fun n hn => if_neg (h₁ n hn)).trans (map_id _)
  · congr 1
    exact (map_congr_left fun n hn => if_neg (h₂ n hn)).trans (map_id _)

theorem mem_substitute {n : ν} (hne : m ≠ c) :
    n ∈ substitute c m l ↔ n = m ∧ c ∈ l ∨ n ≠ c ∧ n ∈ l := by
  rw [substitute, mem_map]
  constructor
  · rintro ⟨k, hk, rfl⟩
    by_cases hkc : k = c
    · exact .inl ⟨if_pos hkc, hkc ▸ hk⟩
    · rw [if_neg hkc]
      exact .inr ⟨hkc, hk⟩
  · rintro (⟨rfl, hc⟩ | ⟨hn, hmem⟩)
    · exact ⟨c, hc, if_pos rfl⟩
    · exact ⟨n, hmem, if_neg hn⟩

theorem head?_substitute (l : List ν) :
    (substitute c m l).head? = if l.head? = some c then some m else l.head? := by
  cases l with
  | nil => rfl
  | cons n l =>
    by_cases hn : n = c
    · simp [substitute, hn]
    · simp [substitute, hn]

theorem substitute_back (hm : m ∉ l) : substitute m c (substitute c m l) = l := by
  rw [substitute, substitute, map_map]
  refine (map_congr_left fun n hn => ?_).trans (map_id _)
  have hne : n ≠ m := ne_of_mem_of_not_mem hn hm
  by_cases hc : n = c
  · simp [hc]
  · simp [hc, hne]

end Splice

/-- Cutting a list at its first node that satisfies `p`. -/
theorem takeWhile_append_of_find? {p : ν → Bool} {c : ν} (h : l.find? p = some c) :
    ∃ l₂, l = (l.takeWhile fun n => !p n) ++ c :: l₂ := by
  induction l with
  | nil => simp at h
  | cons n l ih =>
    by_cases hp : p n = true
    · rw [find?_cons_of_pos hp] at h
      cases h
      exact ⟨l, by simp [hp]⟩
    · rw [find?_cons_of_neg hp] at h
      obtain ⟨l₂, hl₂⟩ := ih h
      refine ⟨l₂, ?_⟩
      simp only [takeWhile_cons, hp, Bool.not_false, if_true, cons_append]
      rw [← hl₂]

end HybridCache.IntrusiveList

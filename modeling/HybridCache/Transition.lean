import Mathlib.Algebra.BigOperators.Fin
import Mathlib.Tactic

/-!
# Finite runs of a partial transition function

A system is a function `step : σ → α → Option σ`: the action names everything
that is chosen from outside (the thread, the key, the outcome of a device
operation), so one list of actions is one interleaving. A disabled action
returns `none` and ends the run. Nothing here names a particular system.
-/
namespace HybridCache.Transition

open Function Finset

variable {σ α : Type*} {step : σ → α → Option σ}

def run (step : σ → α → Option σ) : σ → List α → Option σ
  | s, [] => some s
  | s, a :: as => (step s a).bind fun t => run step t as

variable {s t m : σ} {as bs : List α} {Inv P : σ → Prop} {ok : σ → α → Prop}

theorem run_cons {a : α} :
    run step s (a :: as) = some t ↔ ∃ m, step s a = some m ∧ run step m as = some t := by
  simp [run, Option.bind_eq_some_iff]

theorem run_append (hm : run step s as = some m)
    (ht : run step m bs = some t) : run step s (as ++ bs) = some t := by
  induction as generalizing s with
  | nil =>
    cases hm
    exact ht
  | cons a as ih =>
    obtain ⟨u, hu, hrest⟩ := run_cons.1 hm
    exact run_cons.2 ⟨u, hu, ih hrest⟩

theorem exists_of_run_append (h : run step s (as ++ bs) = some t) :
    ∃ m, run step s as = some m ∧ run step m bs = some t := by
  induction as generalizing s with
  | nil => exact ⟨s, rfl, h⟩
  | cons a as ih =>
    obtain ⟨u, hu, hrest⟩ := run_cons.1 h
    obtain ⟨m, hm, hbs⟩ := ih hrest
    exact ⟨m, run_cons.2 ⟨u, hu, hm⟩, hbs⟩

/-- The invariant rule: what every step keeps, every run keeps. -/
theorem run_invariant (hstep : ∀ s a t, Inv s → step s a = some t → Inv t)
    (hs : Inv s) (h : run step s as = some t) : Inv t := by
  induction as generalizing s with
  | nil =>
    cases h
    exact hs
  | cons a as ih =>
    obtain ⟨m, hm, ht⟩ := run_cons.mp h
    exact ih (hstep s a m hs hm) ht

/-- An invariant of the runs that use only some of the actions. -/
theorem run_invariant_of {ok : α → Prop}
    (hstep : ∀ s a t, ok a → Inv s → step s a = some t → Inv t)
    (hok : ∀ a ∈ as, ok a) (hs : Inv s) (h : run step s as = some t) : Inv t := by
  induction as generalizing s with
  | nil =>
    cases h
    exact hs
  | cons a as ih =>
    obtain ⟨m, hm, hrest⟩ := run_cons.1 h
    exact ih (fun b hb => hok b (by simp [hb])) (hstep s a m (hok a (by simp)) hs hm) hrest

/-- A measure that every counted action decreases bounds how many of them a run has. -/
theorem run_countP_le {ok : α → Prop} (counted : α → Bool) (μ : σ → ℕ)
    (hinv : ∀ s a t, ok a → Inv s → step s a = some t → Inv t)
    (hμ : ∀ s a t, Inv s → step s a = some t → μ t + (counted a).toNat ≤ μ s)
    (hok : ∀ a ∈ as, ok a) (hs : Inv s) (h : run step s as = some t) :
    μ t + as.countP counted ≤ μ s := by
  induction as generalizing s with
  | nil =>
    cases h
    simp
  | cons a as ih =>
    obtain ⟨m, hm, hrest⟩ := run_cons.1 h
    have hle := hμ s a m hs hm
    have hih := ih (fun b hb => hok b (by simp [hb])) (hinv s a m (hok a (by simp)) hs hm) hrest
    rw [List.countP_cons]
    cases hc : counted a <;> simp only [hc, Bool.toNat_true, Bool.toNat_false] at hle ⊢ <;>
      simp <;> omega

/-- Every step of the run meets a condition on the state before it. -/
def Meets (step : σ → α → Option σ) (ok : σ → α → Prop) : σ → List α → Prop
  | _, [] => True
  | s, a :: as => ∀ t, step s a = some t → ok s a ∧ Meets step ok t as

theorem Meets.append (has : Meets step ok s as)
    (hm : run step s as = some m) (hbs : Meets step ok m bs) : Meets step ok s (as ++ bs) := by
  induction as generalizing s with
  | nil =>
    cases hm
    exact hbs
  | cons a as ih =>
    obtain ⟨u, hu, hrest⟩ := run_cons.1 hm
    intro t ht
    obtain rfl : u = t := Option.some.inj (hu.symm.trans ht)
    exact ⟨(has u hu).1, ih (has u hu).2 hrest⟩

instance decidableMeets {ok : σ → α → Prop} [∀ s a, Decidable (ok s a)] :
    ∀ s as, Decidable (Meets step ok s as)
  | _, [] => .isTrue trivial
  | s, a :: as =>
    match h : step s a with
    | none => .isTrue (by
        intro t ht
        rw [h] at ht
        cases ht)
    | some m =>
      haveI : Decidable (Meets step ok m as) := decidableMeets m as
      decidable_of_iff (ok s a ∧ Meets step ok m as) (by
        constructor
        · intro hm t ht
          rw [h] at ht
          cases ht
          exact hm
        · intro hm
          exact hm m h)

/-- A property of the first state and of every state that the run reaches. -/
def Always (step : σ → α → Option σ) (P : σ → Prop) : σ → List α → Prop
  | s, [] => P s
  | s, a :: as => P s ∧ ∀ t, step s a = some t → Always step P t as

theorem Always.of_run (h : Always step P s as)
    (hrun : run step s as = some t) : P t := by
  induction as generalizing s with
  | nil =>
    cases hrun
    exact h
  | cons a as ih =>
    obtain ⟨m, hm, hrest⟩ := run_cons.1 hrun
    exact ih (h.2 m hm) hrest

/-- The invariant rule for the runs whose steps all meet a condition. -/
theorem run_invariant_meets
    (hstep : ∀ s a t, ok s a → Inv s → step s a = some t → Inv t)
    (hmeets : Meets step ok s as) (hs : Inv s) (h : run step s as = some t) : Inv t := by
  induction as generalizing s with
  | nil =>
    cases h
    exact hs
  | cons a as ih =>
    obtain ⟨m, hm, hrest⟩ := run_cons.1 h
    obtain ⟨hok, hmeets'⟩ := hmeets m hm
    exact ih hmeets' (hstep s a m hok hs hm) hrest

theorem always_of_meets (hP : ∀ s, Inv s → P s)
    (hstep : ∀ s a t, ok s a → Inv s → step s a = some t → Inv t)
    (hmeets : Meets step ok s as) (hs : Inv s) : Always step P s as := by
  induction as generalizing s with
  | nil => exact hP s hs
  | cons a as ih =>
    refine ⟨hP s hs, ?_⟩
    intro t ht
    obtain ⟨hok, hrest⟩ := hmeets t ht
    exact ih hrest (hstep s a t hok hs ht)

theorem always_of_invariant (hP : ∀ s, Inv s → P s)
    (hstep : ∀ s a t, Inv s → step s a = some t → Inv t) (hs : Inv s) : Always step P s as := by
  induction as generalizing s with
  | nil => exact hP s hs
  | cons a as ih => exact ⟨hP s hs, fun t ht => ih (hstep s a t hs ht)⟩

/-- If, under an invariant, a condition says exactly when a step keeps a property, then
the property holds along a run exactly when every step meets the condition. -/
theorem always_iff_meets (Inv : σ → Prop) (allowed : α → Prop)
    (hinv : ∀ s a t, allowed a → Inv s → P s → step s a = some t → Inv t)
    (hstep : ∀ s a t, allowed a → Inv s → P s → step s a = some t → (P t ↔ ok s a))
    (hallowed : ∀ a ∈ as, allowed a) (hs : Inv s) (hP : P s) :
    Always step P s as ↔ Meets step ok s as := by
  induction as generalizing s with
  | nil => exact iff_of_true hP trivial
  | cons a as ih =>
    have ha : allowed a := hallowed a (by simp)
    have hrest : ∀ b ∈ as, allowed b := fun b hb => hallowed b (by simp [hb])
    constructor
    · intro h t ht
      have hnext := h.2 t ht
      have hPt : P t := by
        cases as with
        | nil => exact hnext
        | cons b bs => exact hnext.1
      have hIt := hinv s a t ha hs hP ht
      exact ⟨(hstep s a t ha hs hP ht).1 hPt, (ih hrest hIt hPt).1 hnext⟩
    · intro h
      refine ⟨hP, ?_⟩
      intro t ht
      have hIt := hinv s a t ha hs hP ht
      have hPt := (hstep s a t ha hs hP ht).2 (h t ht).1
      exact (ih hrest hIt hPt).2 (h t ht).2

/-- Simulation by a total specification: a related state takes every allowed
action, and the successor is related to the specification's. -/
theorem run_simulation {τ : Type*} {R : σ → τ → Prop} {spec : τ → α → τ} {ok : α → Prop}
    (hstep : ∀ s t a, ok a → R s t → ∃ s', step s a = some s' ∧ R s' (spec t a))
    {t : τ} (hok : ∀ a ∈ as, ok a) (hR : R s t) :
    ∃ s', run step s as = some s' ∧ R s' (as.foldl spec t) := by
  induction as generalizing s t with
  | nil => exact ⟨s, rfl, hR⟩
  | cons a as ih =>
    obtain ⟨m, hm, hRm⟩ := hstep s t a (hok a (by simp)) hR
    obtain ⟨s', hs', hR'⟩ := ih (fun b hb => hok b (by simp [hb])) hRm
    exact ⟨s', run_cons.2 ⟨m, hm, hs'⟩, hR'⟩

/-- Every action of the run meets a condition on the state before it, also one that gets stuck. -/
def Requires (step : σ → α → Option σ) (ok : σ → α → Prop) : σ → List α → Prop
  | _, [] => True
  | s, a :: as => ok s a ∧ ∀ t, step s a = some t → Requires step ok t as

instance decidableRequires {ok : σ → α → Prop} [∀ s a, Decidable (ok s a)] :
    ∀ s as, Decidable (Requires step ok s as)
  | _, [] => .isTrue trivial
  | s, a :: as =>
    match h : step s a with
    | none => decidable_of_iff (ok s a) (by simp [Requires, h])
    | some m =>
      haveI : Decidable (Requires step ok m as) := decidableRequires m as
      decidable_of_iff (ok s a ∧ Requires step ok m as) (by simp [Requires, h])

/-- Simulation by a total specification, for the runs whose actions meet a condition. -/
theorem run_simulation_requires {τ : Type*} {R : σ → τ → Prop} {spec : τ → α → τ}
    (hstep : ∀ s t a, ok s a → R s t → ∃ s', step s a = some s' ∧ R s' (spec t a))
    {t : τ} (hok : Requires step ok s as) (hR : R s t) :
    ∃ s', run step s as = some s' ∧ R s' (as.foldl spec t) := by
  induction as generalizing s t with
  | nil => exact ⟨s, rfl, hR⟩
  | cons a as ih =>
    obtain ⟨m, hm, hRm⟩ := hstep s t a hok.1 hR
    obtain ⟨s', hs', hR'⟩ := ih (hok.2 m hm) hRm
    exact ⟨s', run_cons.2 ⟨m, hm, hs'⟩, hR'⟩

/-- If every allowed action is enabled under an invariant that it keeps, then a run of
allowed actions does not get stuck. -/
theorem run_returns {ok : α → Prop}
    (hstep : ∀ s a, ok a → Inv s → ∃ t, step s a = some t ∧ Inv t)
    (hok : ∀ a ∈ as, ok a) (hs : Inv s) : ∃ t, run step s as = some t ∧ Inv t :=
  @run_simulation σ α step s as Unit (fun s _ => Inv s) (fun _ _ => ()) ok
    (fun s _ a ha h => hstep s a ha h) () hok hs

/-- If every action is enabled under an invariant, then a run whose steps meet a condition
under which they keep the invariant does not get stuck. -/
theorem run_returns_meets
    (henabled : ∀ s a, Inv s → ∃ t, step s a = some t)
    (hstep : ∀ s a t, ok s a → Inv s → step s a = some t → Inv t)
    (hmeets : Meets step ok s as) (hs : Inv s) : ∃ t, run step s as = some t ∧ Inv t := by
  induction as generalizing s with
  | nil => exact ⟨s, rfl, hs⟩
  | cons a as ih =>
    obtain ⟨m, hm⟩ := henabled s a hs
    obtain ⟨hok, hrest⟩ := hmeets m hm
    obtain ⟨t, ht, hInv⟩ := ih hrest (hstep s a m hok hs hm)
    exact ⟨t, run_cons.2 ⟨m, hm, ht⟩, hInv⟩

theorem Meets.and_all {P : α → Prop}
    (hmeets : Meets step ok s as) (hP : ∀ a ∈ as, P a) :
    Meets step (fun s a => P a ∧ ok s a) s as := by
  induction as generalizing s with
  | nil => trivial
  | cons a as ih =>
    intro t ht
    obtain ⟨hok, hrest⟩ := hmeets t ht
    exact ⟨⟨hP a (by simp), hok⟩, ih hrest fun b hb => hP b (by simp [hb])⟩

/-- Refinement of a partial specification: related states take the same actions, to related
states. -/
theorem run_rel {τ : Type*} {spec : τ → α → Option τ} {R : σ → τ → Prop} {ok : α → Prop}
    (hstep : ∀ s t a, ok a → R s t → Option.Rel R (step s a) (spec t a))
    {t : τ} (hok : ∀ a ∈ as, ok a) (hR : R s t) :
    Option.Rel R (run step s as) (run spec t as) := by
  induction as generalizing s t with
  | nil => exact .some hR
  | cons a as ih =>
    have hrel := hstep s t a (hok a (by simp)) hR
    simp only [run]
    generalize step s a = s' at hrel
    generalize spec t a = t' at hrel
    cases hrel with
    | none => exact .none
    | some hR' => exact ih (fun b hb => hok b (by simp [hb])) hR'

/-- Replacing one summand. Per-thread counters are summed over the threads, and a
step changes the entry of one thread. -/
theorem sum_update {ι : Type*} [Fintype ι] [DecidableEq ι] {β : Type*} (g : ι → β) (f : β → ℕ)
    (i : ι) (v : β) :
    (∑ j, f (Function.update g i v j)) + f (g i) = (∑ j, f (g j)) + f v := by
  have hold := sum_erase_add (univ : Finset ι) (fun j => f (g j)) (mem_univ i)
  have hnew := sum_erase_add (univ : Finset ι) (fun j => f (update g i v j)) (mem_univ i)
  have he : (∑ j ∈ univ.erase i, f (update g i v j)) = ∑ j ∈ univ.erase i, f (g j) := by
    apply sum_congr rfl
    intro j hj
    rw [update_of_ne (ne_of_mem_erase hj)]
  rw [he, update_self] at hnew
  omega

theorem le_sum {ι : Type*} [Fintype ι] (f : ι → ℕ) (i : ι) : f i ≤ ∑ j, f j :=
  single_le_sum (fun j _ => Nat.zero_le (f j)) (mem_univ i)

section
variable {β : Type*} {l : List β} {i : ℕ} {a : β} (h : l[i]? = some a) (f : β → ℕ)
include h

theorem sum_map_set (b : β) : ((l.set i b).map f).sum + f a = (l.map f).sum + f b := by
  induction l generalizing i with
  | nil => simp at h
  | cons x l ih =>
    cases i with
    | zero =>
      obtain rfl : x = a := by simpa using h
      simp
      omega
    | succ i =>
      have hrest := ih (i := i) (by simpa using h)
      simp only [List.set_cons_succ, List.map_cons, List.sum_cons]
      omega

theorem sum_map_eraseIdx : ((l.eraseIdx i).map f).sum + f a = (l.map f).sum := by
  induction l generalizing i with
  | nil => simp at h
  | cons x l ih =>
    cases i with
    | zero =>
      obtain rfl : x = a := by simpa using h
      simp
      omega
    | succ i =>
      have hrest := ih (i := i) (by simpa using h)
      simp only [List.eraseIdx_cons_succ, List.map_cons, List.sum_cons]
      omega

end

/-- Two threads are numbered by `Fin 2`. -/
instance neZero_two : NeZero 2 := ⟨by decide⟩

end HybridCache.Transition

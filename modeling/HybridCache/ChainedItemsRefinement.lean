import HybridCache.ChainedItemsReplace

/-!
# Chained items refine a list for each parent

Each call on an allocator that holds what the specification says returns what the specification
returns, and the allocator holds it again. This needs that a chained item is added to the parent it
was allocated for, that chained items have no chains of their own, and that a chain which is
transferred exists.
-/
namespace HybridCache.ChainedItems
open Transition Chains Function Bool Option

variable {ι : Type} [DecidableEq ι]

/-! ## Calls -/

section Calls
variable [Fintype ι] {s : Allocator ι} {m : Chains ι}

section
variable (h : Represents s m) (hw : m.WellFormed) {it : ι}
include h hw

lemma construct_represents (hit : m.live it = false) (parent : Option ι) :
    Represents (s.construct it parent) (m.construct it parent) := by
  have hnot : ∀ p, it ∉ m.chain p := fun p hmem => by grind [hw.linked p it hmem]
  refine ⟨?_, ?_, h.freed, h.heads, fun x hx => ?_, h.children, h.parents⟩
  · rw [Allocator.construct, h.live]
    rfl
  · rw [Allocator.construct, h.handles]
    rfl
  · by_cases hxit : x = it
    · subst hxit
      have hmem : x ∉ (m.construct x parent).chainOf x := by
        cases parent <;> simp [chainOf, Chains.construct, hnot]
      have hhead : ((m.construct x parent).chainOf x).head? ≠ some x := fun hh =>
        hmem (List.mem_of_head? hh)
      simp only [item, linked, nextIn_of_notMem hmem, decide_eq_false hmem, decide_eq_false hhead]
      simp [Allocator.construct, Chains.construct, (hw.dead x hit).2]
    · have hchainOf : (m.construct it parent).chainOf x = m.chainOf x := by
        simp [chainOf, Chains.construct, hxit]
      have hlive : m.live x = true := by simpa [Chains.construct, hxit] using hx
      have hold := h.items x hlive
      simp only [item, linked, hchainOf] at hold ⊢
      simp only [Allocator.construct, Chains.construct, update_of_ne hxit]
      exact hold

lemma find_represents (hit : m.live it = true) (hregular : m.parent it = none) :
    Represents (s.acquire it) (m.setHandles it (m.handles it + 1)) ∧
      (m.setHandles it (m.handles it + 1)).WellFormed := by
  refine ⟨⟨h.live, ?_, h.freed, h.heads, fun x hx => ?_, h.children, h.parents⟩, ?_⟩
  · rw [Allocator.acquire, h.handles]
    rfl
  · have hold := h.items x hx
    simp only [Allocator.acquire, Allocator.incRef, modify_items]
    split_ifs with hxit
    · subst hxit
      rw [item_setHandles_self, hold]
      simp only [item, Nat.add_right_comm]
    · rw [item_setHandles_of_ne hxit, hold]
  · refine hw.setHandles (fun _ => ⟨hit, fun p hp => ?_⟩) fun hsome => ?_
    · grind [hw.linked p it hp]
    · grind

lemma setContainers_represents (hregular : m.parent it = none) (accessible inMM : Bool) :
    Represents ((s.markAccessible it accessible).markInMM it inMM) { m with
          accessible := update m.accessible it accessible
          inMM := update m.inMM it inMM } ∧
      ({ m with
        accessible := update m.accessible it accessible
        inMM := update m.inMM it inMM } : Chains ι).WellFormed := by
  refine ⟨⟨h.live, h.handles, h.freed, h.heads, fun x hx => ?_, h.children, h.parents⟩,
    ⟨hw.dead, hw.linked, hw.regular, hw.nodup, hw.single, fun c hc => ?_⟩⟩
  · have hold : s.items x = _ := h.items x hx
    simp only [Allocator.markInMM, Allocator.markAccessible, modify_items, hold, item, linked]
    split_ifs with hxit
    · subst hxit
      simp [chainOf, hregular]
    · simp only [update_of_ne hxit]
      rfl
  · grind [hw.flags c hc, update_apply]

lemma releaseBackToAllocator_represents (hit : m.live it = true) (toRecycle : Option ι) :
    ∃ t, s.releaseBackToAllocator it toRecycle = some (t, (m.release it toRecycle).2) ∧
      Represents t (m.release it toRecycle).1 ∧ (m.release it toRecycle).1.WellFormed := by
  rw [Chains.release]
  by_cases hdrained : m.drained it = true
  · by_cases hrecycle : (m.parent it).isSome = true → toRecycle = none
    · obtain ⟨t, hrun, ht⟩ := release_represents toRecycle h hw hit hdrained hrecycle
      rw [if_pos ⟨hdrained, hrecycle⟩]
      exact ⟨t, hrun, ht, hw.free hdrained toRecycle⟩
    · rw [if_neg fun hh => hrecycle hh.2]
      rw [Classical.not_imp] at hrecycle
      refine ⟨s, ?_, h, hw⟩
      rw [Allocator.releaseBackToAllocator, h.items it hit, item_isDrained, hdrained,
        if_neg (by decide), item_isChainedItem, if_pos hrecycle.1,
        if_pos (isSome_iff_ne_none.2 hrecycle.2)]
  · rw [if_neg fun hh => hdrained hh.1]
    refine ⟨s, ?_, h, hw⟩
    rw [Allocator.releaseBackToAllocator, h.items it hit, item_isDrained,
      if_pos (eq_false_iff.2 hdrained)]

end

/-- A chained item is added to the parent it was allocated for, which is no chained item, and a
chain that is transferred exists and goes to no chained item. -/
def Allocator.allowed (s : Allocator ι) : Call ι → Bool
  | .addChainedItem (some parent) (some child) =>
    !(s.items child).isChainedItem ||
      (decide ((s.items child).parent = some parent) && !(s.items parent).isChainedItem)
  | .transferChainAndReplace (some parent) (some newParent) =>
    (s.items newParent).hasChained ||
      ((s.items parent).hasChained && !(s.items newParent).isChainedItem)
  | _ => true

lemma held_iff (h : Represents s m) {handle : Option ι} :
    handle.all (Allocator.possible.held s) = true ↔ ∀ it, handle = some it → 0 < m.handles it := by
  cases handle with
  | none => simp
  | some it => simp [Allocator.possible.held, h.handles]

section
variable (h : Represents s m) (hw : m.WellFormed)
include h hw

lemma addChainedItem_represents {parent child : Option ι}
    (hparent : ∀ it, parent = some it → 0 < m.handles it)
    (hchild : ∀ it, child = some it → 0 < m.handles it)
    (hallowed : ∀ p c, parent = some p → child = some c → m.parent c ≠ none →
      m.parent c = some p ∧ m.parent p = none) :
    ∃ t, s.addChainedItem parent child = some (t, (m.add parent child).2) ∧
      Represents t (m.add parent child).1 ∧ (m.add parent child).1.WellFormed := by
  obtain _ | p := parent
  · have hadd : s.addChainedItem none child = s.throwing child .invalidArgument := by
      cases child <;> rfl
    have hspec : m.add none child = m.throwing child := by cases child <;> rfl
    exact throwing_represents h hw hchild
  obtain _ | c := child
  · exact throwing_represents h hw hchild
  by_cases hc : m.parent c = none
  · have hadd : s.addChainedItem (some p) (some c) = s.throwing (some c) .invalidArgument := by
      rw [Allocator.addChainedItem, h.items c (hw.live_of_handle (hchild c rfl)),
        item_isChainedItem, hc]
      rfl
    have hspec : m.add (some p) (some c) = m.throwing (some c) := by
      rw [Chains.add, if_pos hc]
    rw [hadd, hspec]
    exact throwing_represents h hw hchild
  · obtain ⟨hcp, hregular⟩ := hallowed p c rfl rfl hc
    exact add_represents h hw (hparent p rfl) (hchild c rfl) hcp hregular

lemma replaceChainedItem_represents {old p : ι} {newItem : Option ι} (hold : m.live old = true)
    (hnew : ∀ it, newItem = some it → 0 < m.handles it) :
    ∃ t, s.replaceChainedItem old newItem p = some (t, (m.replace old newItem p).2) ∧
      Represents t (m.replace old newItem p).1 ∧ (m.replace old newItem p).1.WellFormed := by
  obtain _ | n := newItem
  · exact ⟨s, rfl, h, hw⟩
  have hcheck := @replace_check ι _ s _ m h hw old n p hold (hw.live_of_handle (hnew n rfl))
  by_cases hok : m.parent old = some p ∧ m.parent n = some p ∧ old ∈ m.chain p ∧ n ∉ m.chain p
  · exact replace_represents h hw (hnew n rfl) hok.2.1 hok.2.2.1
  · rw [Chains.replace, if_neg hok, Allocator.replaceChainedItem]
    rw [if_pos (hcheck.2 hok)]
    exact throwing_represents h hw hnew

lemma transferChain_represents {parent newParent : Option ι}
    (hnew : ∀ it, newParent = some it → 0 < m.handles it)
    (hallowed : ∀ p q, parent = some p → newParent = some q → m.chain q = [] →
      m.chain p ≠ [] ∧ m.parent q = none) :
    ∃ t, s.transferChainAndReplace parent newParent = some (t, (m.transfer parent newParent).2) ∧
      Represents t (m.transfer parent newParent).1 ∧
      (m.transfer parent newParent).1.WellFormed := by
  obtain _ | p := parent
  · cases newParent <;> exact ⟨s, rfl, h, hw⟩
  obtain _ | q := newParent
  · exact ⟨s, rfl, h, hw⟩
  by_cases hq : m.chain q = []
  · obtain ⟨hp, hregular⟩ := hallowed p q rfl rfl hq
    exact transfer_represents h hw (hnew q rfl) hregular hq hp
  · have hitem := h.items q (hw.live_of_handle (hnew q rfl))
    rw [Chains.transfer, if_pos hq, Allocator.transferChainAndReplace,
      Allocator.transferChainLocked, hitem, item]
    rw [if_pos (decide_eq_true hq)]
    exact ⟨s, rfl, h, hw⟩

/-- One call of the allocator is one of the specification. -/
lemma call_represents {c : Call ι}
    (hpossible : s.possible c = true) (hallowed : s.allowed c = true) :
    ∃ t, s.call c = some (t, (m.call c).2) ∧ Represents t (m.call c).1 ∧
      (m.call c).1.WellFormed := by
  have hchained : ∀ x, m.live x = true → (s.items x).isChainedItem = (m.parent x).isSome :=
    fun x hx => by rw [h.items x hx, item_isChainedItem]
  have hhas : ∀ x, m.live x = true → (s.items x).hasChained = decide (m.chain x ≠ []) :=
    fun x hx => by rw [h.items x hx, item]
  cases c with
  | allocate it =>
    have hit : m.live it = false := by simpa [Allocator.possible, h.live] using hpossible
    exact ⟨_, rfl, construct_represents h hw hit none, hw.construct hit⟩
  | allocateChainedItem parent it =>
    have hit : m.live it = false := by
      simp only [Allocator.possible, h.live, and_eq_true, not_eq_true'] at hpossible
      exact hpossible.2
    exact ⟨_, rfl, construct_represents h hw hit (some parent), hw.construct hit⟩
  | find it =>
    simp only [Allocator.possible, h.live, and_eq_true, not_eq_true'] at hpossible
    obtain ⟨hit, hregular⟩ := hpossible
    rw [hchained it hit, isSome_eq_false_iff, isNone_iff_eq_none] at hregular
    exact ⟨_, rfl, find_represents h hw hit hregular⟩
  | setContainers it accessible inMM =>
    simp only [Allocator.possible, h.live, and_eq_true, not_eq_true'] at hpossible
    obtain ⟨hit, hregular⟩ := hpossible
    rw [hchained it hit, isSome_eq_false_iff, isNone_iff_eq_none] at hregular
    exact ⟨_, rfl, setContainers_represents h hw hregular accessible inMM⟩
  | dropHandle it =>
    obtain ⟨t, hrun, ht, hwt⟩ := drop_represents h hw
      (show 0 < m.handles it by simpa [Allocator.possible, h.handles] using hpossible)
    refine ⟨t, ?_, ht, hwt⟩
    rw [Allocator.call, hrun]
    rfl
  | addChainedItem parent child =>
    simp only [Allocator.possible, and_eq_true, held_iff h] at hpossible
    refine addChainedItem_represents h hw hpossible.1 hpossible.2 ?_
    rintro p c rfl rfl hc
    have hp := hw.live_of_handle (hpossible.1 p rfl)
    have hclive := hw.live_of_handle (hpossible.2 c rfl)
    rw [Allocator.allowed, hchained c hclive, hchained p hp, h.items c hclive] at hallowed
    simpa [item, hc] using hallowed
  | popChainedItem parent =>
    rw [Allocator.possible, held_iff h] at hpossible
    obtain _ | p := parent
    · exact ⟨s, rfl, h, hw⟩
    · exact pop_represents h hw (hpossible p rfl)
  | replaceChainedItem oldItem newItem parent =>
    simp only [Allocator.possible, and_eq_true, held_iff h, h.live] at hpossible
    exact replaceChainedItem_represents h hw hpossible.1.1 hpossible.2
  | transferChainAndReplace parent newParent =>
    simp only [Allocator.possible, and_eq_true, held_iff h] at hpossible
    refine transferChain_represents h hw hpossible.2 ?_
    rintro p q rfl rfl hq
    have hp := hw.live_of_handle (hpossible.1 p rfl)
    have hqlive := hw.live_of_handle (hpossible.2 q rfl)
    rw [Allocator.allowed, hchained q hqlive, hhas q hqlive, hhas p hp] at hallowed
    simpa [hq] using hallowed
  | releaseBackToAllocator it toRecycle =>
    refine releaseBackToAllocator_represents h hw ?_ toRecycle
    rw [← h.live]
    exact hpossible

end

end Calls

section Refinement
variable [Fintype ι]

/-- A call, with what it returns. -/
def Allocator.step (st : Allocator ι × List (Outcome ι)) (c : Call ι) :
    Option (Allocator ι × List (Outcome ι)) :=
  (st.1.call c).map fun r => (r.1, st.2 ++ [r.2])

def Chains.step (st : Chains ι × List (Outcome ι)) (c : Call ι) : Chains ι × List (Outcome ι) :=
  ((st.1.call c).1, st.2 ++ [(st.1.call c).2])

/-- The items that can be reached from the hash table are those of the specification, and the
flags, references and counters are right. -/
structure Refines (s : Allocator ι) (m : Chains ι) : Prop where
  reaches : ∀ p, Reaches s.items (s.heads p) (m.chain p)
  nodup : ∀ p, (m.chain p).Nodup
  owned : ∀ p, ∀ c ∈ m.chain p,
    s.live p = true ∧ s.live c = true ∧ (s.items c).parent = some p
  hasChainedItem : ∀ p, s.live p = true → ((s.items p).hasChained = true ↔ m.chain p ≠ [])
  refs : ∀ x, s.live x = true → (s.items x).refs = s.handles x + (m.linked x).toNat
  children : s.numChainedChildItems = ((∑ p, (m.chain p).length : ℕ) : ℤ)
  parents : s.numChainedParentItems = ((∑ p, (if m.chain p = [] then 0 else 1) : ℕ) : ℤ)
  live : s.live = m.live
  freed : s.freed = m.freed

lemma Represents.refines {s : Allocator ι} {m : Chains ι} (h : Represents s m)
    (hw : m.WellFormed) : Refines s m where
  reaches := h.reaches hw
  nodup := hw.nodup
  owned p c hc := by
    obtain ⟨hlive, hparent, -⟩ := hw.linked p c hc
    rw [h.live, h.items c hlive]
    exact ⟨hw.live_of_chain (List.ne_nil_of_mem hc), hlive, hparent⟩
  hasChainedItem p hp := by
    rw [h.live] at hp
    rw [h.items p hp]
    exact decide_eq_true_iff
  refs x hx := by
    rw [h.live] at hx
    rw [h.items x hx, h.handles]
    rfl
  children := h.children
  parents := h.parents
  live := h.live
  freed := h.freed

lemma init_represents : Represents (Allocator.init : Allocator ι) Chains.init where
  live := rfl
  handles := rfl
  freed := rfl
  heads _ := rfl
  items x hx := absurd hx (by simp [Chains.init])
  children := by simp [Allocator.init, Chains.init]
  parents := by simp [Allocator.init, Chains.init]

omit [Fintype ι] [DecidableEq ι] in
lemma init_wellFormed : (Chains.init : Chains ι).WellFormed where
  dead _ _ := ⟨rfl, rfl⟩
  linked p c hc := absurd hc (by simp [Chains.init])
  regular _ _ := rfl
  nodup _ := List.nodup_nil
  single _ _ := Nat.zero_le 1
  flags _ _ := ⟨rfl, rfl⟩

/-- Every sequence of calls that add chained items to the regular items they were allocated for,
and that transfer chains to regular items only where there is one, does what it does to lists. -/
theorem chained_items_refine {calls : List (Call ι)} (hcalls : Requires Allocator.step
      (fun st c => st.1.possible c = true ∧ st.1.allowed c = true) (Allocator.init, []) calls) :
    ∃ s outcomes, run Allocator.step (Allocator.init, []) calls = some (s, outcomes) ∧
      Refines s (calls.foldl Chains.step (Chains.init, [])).1 ∧
      outcomes = (calls.foldl Chains.step (Chains.init, [])).2 := by
  obtain ⟨⟨s, outcomes⟩, hrun, ⟨hrep, hwell⟩, hout⟩ :=
    @run_simulation_requires _ _ Allocator.step _ calls _ (Chains ι × List (Outcome ι))
      (fun st m => (Represents st.1 m.1 ∧ m.1.WellFormed) ∧ st.2 = m.2) Chains.step
      (by
        rintro ⟨s, outcomes⟩ ⟨m, outcomes'⟩ c ⟨hpossible, hallowed⟩ ⟨⟨h, hw⟩, rfl⟩
        obtain ⟨t, ht, hrep, hwell⟩ := call_represents h hw hpossible hallowed
        refine ⟨(t, outcomes ++ [(m.call c).2]), ?_, ⟨hrep, hwell⟩, rfl⟩
        simp only [Allocator.step, ht, map_some])
      (Chains.init, []) hcalls ⟨⟨init_represents, init_wellFormed⟩, rfl⟩
  exact ⟨s, outcomes, hrun, hrep.refines hwell, hout⟩

/-- A parent with two chained items, one of which is replaced; the chain goes to another parent,
and the first of it is taken out before the rest is released. -/
def chainOfTwo : List (Call (Fin 5)) :=
  [.allocate 0, .allocateChainedItem 0 1, .allocateChainedItem 0 2, .allocateChainedItem 0 3,
    .addChainedItem (some 0) (some 1), .addChainedItem (some 0) (some 2),
    .replaceChainedItem 1 (some 3) 0, .allocate 4, .transferChainAndReplace (some 0) (some 4),
    .popChainedItem (some 4), .dropHandle 4]

theorem chainOfTwo_refines :
    ∃ s outcomes, run Allocator.step (Allocator.init, []) chainOfTwo = some (s, outcomes) ∧
      Refines s (chainOfTwo.foldl Chains.step (Chains.init, [])).1 ∧
      outcomes = (chainOfTwo.foldl Chains.step (Chains.init, [])).2 :=
  chained_items_refine (by decide +kernel)

/-- The callers hold the handles that they pass. -/
def Possible (calls : List (Call (Fin 5))) : Prop :=
  Requires Allocator.step (fun st c => st.1.possible c = true) (Allocator.init, []) calls

/-- The chained item was allocated for item 0 and is added to item 1. -/
def addToOther : List (Call (Fin 5)) :=
  [.allocate 0, .allocate 1, .allocateChainedItem 0 2, .addChainedItem (some 1) (some 2)]

/-- There is no chain to transfer. -/
def transferNothing : List (Call (Fin 5)) :=
  [.allocate 0, .allocate 1, .transferChainAndReplace (some 0) (some 1)]

/-- The parent is itself a chained item, and goes without its chain. -/
def chainedParent : List (Call (Fin 5)) :=
  [.allocate 0, .allocateChainedItem 0 1, .allocateChainedItem 1 2,
    .addChainedItem (some 1) (some 2), .dropHandle 1]

/-- None of the three calls is refused: the flag of a parent is set without a chain, a null handle
is used, or a chain stays behind without its parent. -/
theorem misused_chains_break : (Possible addToOther ∧ ∃ s outcomes,
      run Allocator.step (Allocator.init, []) addToOther = some (s, outcomes) ∧
      ∀ m, ¬ Refines s m) ∧
    (Possible transferNothing ∧ run Allocator.step (Allocator.init, []) transferNothing = none) ∧
    (Possible chainedParent ∧ ∃ s outcomes,
      run Allocator.step (Allocator.init, []) chainedParent = some (s, outcomes) ∧
      ∀ m, ¬ Refines s m) := by
  have hpossible : ∀ calls, decide (Requires Allocator.step (fun st c => st.1.possible c = true)
      ((Allocator.init : Allocator (Fin 5)), []) calls) = true → Possible calls :=
    fun _ => of_decide_eq_true
  refine ⟨⟨hpossible _ (by decide +kernel), _, _, rfl, fun m h => ?_⟩,
    ⟨hpossible _ (by decide +kernel), rfl⟩,
    ⟨hpossible _ (by decide +kernel), _, _, rfl, fun m h => ?_⟩⟩
  · have hchain : m.chain 1 ≠ [] := (h.hasChainedItem 1 rfl).1 rfl
    have hreach := h.reaches 1
    obtain ⟨c, l, hcons⟩ := List.exists_cons_of_ne_nil hchain
    rw [hcons] at hreach
    cases hreach.1
  · have hreach := h.reaches 1
    cases hcons : m.chain 1 with
    | nil =>
      rw [hcons] at hreach
      cases hreach
    | cons c l =>
      have hlive := (h.owned 1 c (by rw [hcons]; exact List.mem_cons_self)).1
      cases hlive

end Refinement

end HybridCache.ChainedItems

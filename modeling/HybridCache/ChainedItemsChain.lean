import HybridCache.ChainedItemsRelease

/-!
# Adding and taking chained items

Both work at the front of the chain: the hash table, the flag of the next item and the link of the
item itself change, and nothing else.
-/
namespace HybridCache.ChainedItems
open Transition Chains Function

variable {ι : Type} [DecidableEq ι]

section Operations
variable {s : Allocator ι}

variable {c p : ι}

lemma insertOrReplace_eq (haccessible : (s.items c).accessible = false)
    (hparent : (s.items c).parent = some p) (hne : s.heads p ≠ some c) :
    s.insertOrReplace c = (s.heads p, { s with
      items := fun x => if x = c then { s.items x with accessible := true }
        else if s.heads p = some x then { s.items x with accessible := false } else s.items x
      heads := update s.heads p (some c) }) := by
  rw [Allocator.insertOrReplace, haccessible, hparent]
  cases hold : s.heads p <;>
    simp only [hold, Allocator.markAccessible, Allocator.modify, Prod.mk.injEq,
      Allocator.mk.injEq] <;>
    grind [update_apply]

variable [Fintype ι]

lemma dropHandle_eq (hc : 1 < (s.items c).refs) : s.dropHandle c =
      some { s.decRef c with handles := update s.handles c (s.handles c - 1) } := by
  refine if_neg ?_
  simp [Allocator.decRef, CacheItem.isDrained]
  omega

lemma addChainedItem_eq (hcp : c ≠ p)
    (hc : s.items c = ⟨some p, none, 1, false, false, false⟩) (hp : s.heads p ≠ some p)
    (hhead : s.heads p ≠ some c) :
    s.addChainedItem (some p) (some c) = some ({ s with
      items := fun x => if x = c then ⟨some p, s.heads p, 1, true, true, false⟩
        else if x = p then { s.items x with hasChained := true }
        else if s.heads p = some x then { s.items x with accessible := false } else s.items x
      heads := update s.heads p (some c)
      handles := update s.handles c (s.handles c - 1)
      numChainedParentItems :=
        s.numChainedParentItems + if (s.items p).hasChained = true then 0 else 1
      numChainedChildItems := s.numChainedChildItems + 1 }, .returned) := by
  rw [Allocator.addChainedItem, if_neg (by rw [hc]; simp [CacheItem.isChainedItem]),
    insertOrReplace_eq (by rw [hc]) (by rw [hc]) hhead]
  cases hh : s.heads p with
  | none =>
    by_cases hb : (s.items p).hasChained = true <;>
      simp [hc, hb, hcp, hcp.symm, Allocator.modify, Allocator.countParent,
        Allocator.markHasChainedItem, Allocator.countChild, Allocator.incRef, Allocator.markInMM,
        dropHandle_eq, Allocator.decRef] <;>
      grind [update_apply]
  | some d =>
    have hdp : d ≠ p := by grind
    by_cases hb : (s.items p).hasChained = true <;>
      simp [hc, hb, hcp, hcp.symm, hdp, Allocator.setNext, Allocator.modify, Allocator.countParent,
        Allocator.markHasChainedItem, Allocator.countChild, Allocator.incRef, Allocator.markInMM,
        dropHandle_eq, Allocator.decRef] <;>
      grind [update_apply]

variable {m : Chains ι}

lemma represents_setChain (h : Represents s m) {m' : Chains ι} {t : Allocator ι}
    {l : List ι} (hm : m' = { m.setChain p l with handles := m'.handles })
    (hlive : t.live = s.live) (hfreed : t.freed = s.freed)
    (hheads : t.heads = update s.heads p l.head?) (hhandles : t.handles = m'.handles)
    (hitems : ∀ x, m.live x = true → t.items x = m'.item x)
    (hchildren : t.numChainedChildItems + (m.chain p).length = s.numChainedChildItems + l.length)
    (hparents : t.numChainedParentItems + (if m.chain p = [] then 0 else 1) =
      s.numChainedParentItems + if l = [] then 0 else 1) : Represents t m' where
  live := by
    rw [hlive, hm]
    exact h.live
  handles := hhandles
  freed := by
    rw [hfreed, hm]
    exact h.freed
  heads q := by
    rw [hheads, hm]
    exact heads_update h.heads q
  items x hx := by
    rw [hm] at hx
    exact hitems x hx
  children := by
    have hsum := m.length_setChain p l
    rw [h.children] at hchildren
    rw [hm]
    have hcast : ((∑ q, ((m.setChain p l).chain q).length : ℕ) : ℤ) + (m.chain p).length =
        ((∑ q, (m.chain q).length : ℕ) : ℤ) + l.length := by exact_mod_cast hsum
    exact add_right_cancel (hchildren.trans hcast.symm)
  parents := by
    have hsum := m.count_setChain p l
    rw [h.parents] at hparents
    rw [hm]
    have hcast : ((∑ q, (if (m.setChain p l).chain q = [] then 0 else 1) : ℕ) : ℤ) +
          (if m.chain p = [] then 0 else 1) =
        ((∑ q, (if m.chain q = [] then 0 else 1) : ℕ) : ℤ) + if l = [] then 0 else 1 := by
      exact_mod_cast hsum
    exact add_right_cancel (hparents.trans hcast.symm)

lemma add_represents (h : Represents s m) (hw : m.WellFormed) (hp : 0 < m.handles p)
    (hc : 0 < m.handles c) (hparent : m.parent c = some p) (hregular : m.parent p = none) :
    ∃ t, s.addChainedItem (some p) (some c) = some (t, (m.add (some p) (some c)).2) ∧
      Represents t (m.add (some p) (some c)).1 ∧ (m.add (some p) (some c)).1.WellFormed := by
  obtain ⟨hone, hitem⟩ := hw.item_of_handle hparent hc
  have hcp : c ≠ p := by grind
  have hcnot : c ∉ m.chain p := hw.notMem_of_handle hc p
  have hpnot : p ∉ m.chain p := hw.notMem_of_handle hp p
  have hmem : ∀ x, s.heads p = some x → x ∈ m.chain p := by grind [h.heads p, List.mem_of_head?]
  have hadd : m.add (some p) (some c) =
      ((m.setChain p (c :: m.chain p)).setHandles c 0, .returned) := by
    rw [Chains.add, if_neg (by rw [hparent]; simp), hone]
  have hw' := hw.add hp hc hparent hregular
  have hhas : (s.items p).hasChained = decide (m.chain p ≠ []) := by
    rw [h.items p (hw.live_of_handle hp)]
    rfl
  rw [hadd, addChainedItem_eq hcp ((h.items c (hw.live_of_handle hc)).trans hitem)
    (fun hh => hpnot (hmem p hh)) (fun hh => hcnot (hmem c hh))]
  refine ⟨_, rfl, represents_setChain h rfl rfl rfl rfl ?_ (fun x hx => ?_) ?_ ?_, hw'⟩
  · simp only [h.handles, hone]
    rfl
  · have hold := h.items x hx
    by_cases hxc : x = c
    · subst hxc
      rw [hw'.item_of_mem (p := p) (by grind)]
      simp [Chains.setHandles, h.heads]
    rw [item_setHandles_of_ne hxc]
    by_cases hxp : x = p
    · subst hxp
      simp [hxc, item_setChain_self _ hregular, hold]
    by_cases hxmem : x ∈ m.chain p
    · rw [← item_setHandles_of_ne hxc 0, hw'.item_of_mem (p := p) (by grind)]
      rw [hw.item_of_mem hxmem, ← h.heads] at hold
      by_cases hhead : s.heads p = some x <;>
        simp [hxc, Ne.symm hxc, hxp, hhead, hold, Chains.setHandles, nextIn_cons_of_ne]
    · have hhead : s.heads p ≠ some x := fun hh => hxmem (hmem x hh)
      rw [item_setChain_of_notMem hxp hxmem (by simp [hxc, hxmem]), ← hold]
      simp [hxc, hxp, hhead]
  · simp
    ring
  · by_cases hnil : m.chain p = [] <;> simp [hhas, hnil]

omit [Fintype ι] in
lemma popChainedItem_eq (next : Option ι) (hcp : c ≠ p)
    (hc : s.items c = ⟨some p, next, 1, true, true, false⟩) (hhead : s.heads p = some c)
    (hhas : (s.items p).hasChained = true)
    (hnext : ∀ d, next = some d → d ≠ c ∧ d ≠ p ∧ (s.items d).accessible = false ∧
      (s.items d).parent = some p) :
    s.popChainedItem (some p) = some ({ s with
      items := fun x => if x = c then ⟨some p, none, 1, false, false, false⟩
        else if x = p then { s.items x with hasChained := next.isSome }
        else if next = some x then { s.items x with accessible := true } else s.items x
      heads := update s.heads p next
      handles := update s.handles c (s.handles c + 1)
      numChainedParentItems := s.numChainedParentItems - if next = none then 1 else 0
      numChainedChildItems := s.numChainedChildItems - 1 }, .handle c) := by
  rw [Allocator.popChainedItem, if_neg (by rw [hhas]; decide), Allocator.findChainedItem, hhead,
    Option.map_some]
  cases next with
  | none =>
    simp [hc, hcp, hcp.symm, Allocator.acquire, Allocator.incRef, Allocator.modify, remove_eq,
      Allocator.markAccessible, Allocator.markHasChainedItem, Allocator.countParent,
      Allocator.setNext, Allocator.markInMM, Allocator.decRef, Allocator.countChild]
    grind [update_apply]
  | some d =>
    obtain ⟨hdc, hdp, hdacc, hdparent⟩ := hnext d rfl
    have hp : { s.items p with hasChained := true } = s.items p := by rw [← hhas]
    simp [hc, hdc, hdc.symm, hdacc, hdparent, hhead, Allocator.acquire, Allocator.incRef,
      Allocator.modify, insertOrReplace_eq, Allocator.setNext, Allocator.markInMM,
      Allocator.decRef, Allocator.countChild]
    grind [update_apply]

lemma pop_represents (h : Represents s m) (hw : m.WellFormed) (hp : 0 < m.handles p) :
    ∃ t, s.popChainedItem (some p) = some (t, (m.pop (some p)).2) ∧
      Represents t (m.pop (some p)).1 ∧ (m.pop (some p)).1.WellFormed := by
  have hhas : (s.items p).hasChained = decide (m.chain p ≠ []) := by
    rw [h.items p (hw.live_of_handle hp)]
    rfl
  cases hchain : m.chain p with
  | nil =>
    rw [Chains.pop, hchain, Allocator.popChainedItem, if_pos (by rw [hhas, hchain]; rfl)]
    exact ⟨s, rfl, h, hw⟩
  | cons c l =>
    have hregular : m.parent p = none := hw.regular p (by rw [hchain]; simp)
    have hnodup := hw.nodup p
    have hitem : ∀ x ∈ m.chain p, s.items x = ⟨some p, nextIn (c :: l) x, 1,
        decide (c = x), true, false⟩ := by
      intro x hx
      rw [h.items x (hw.linked p x hx).1, hw.item_of_mem hx, hchain]
      simp
    obtain ⟨-, hcparent, hczero⟩ := hw.linked p c (by grind)
    have hw' := hw.pop hchain
    have hpop : m.pop (some p) = ((m.setChain p l).setHandles c 1, .handle c) := by
      rw [Chains.pop, hchain]
      dsimp only
      rw [hczero]
    rw [hpop, popChainedItem_eq (c := c) l.head? (by grind)
      (by rw [hitem c (by grind), nextIn_cons_self]; simp) (by rw [h.heads, hchain]; rfl)
      (by rw [hhas, hchain]; rfl)
      (fun d hd => by
        have hdl := List.mem_of_head? hd
        grind)]
    refine ⟨_, rfl, represents_setChain h rfl rfl rfl rfl ?_ (fun x hx => ?_) ?_ ?_, hw'⟩
    · simp only [h.handles, hczero]
      rfl
    · have hold := h.items x hx
      by_cases hxc : x = c
      · subst hxc
        rw [(hw'.item_of_handle hcparent (by grind)).2]
        simp
      rw [item_setHandles_of_ne hxc]
      by_cases hxp : x = p
      · subst hxp
        rw [item_setChain_self _ hregular, ← hold]
        cases l <;> simp [hxc]
      by_cases hxl : x ∈ l
      · rw [← item_setHandles_of_ne hxc 1, hw'.item_of_mem (p := p) (by grind)]
        by_cases hhead : l.head? = some x <;>
          simp [hxc, Ne.symm hxc, hxp, hhead, hitem x (by grind), Chains.setHandles,
            nextIn_cons_of_ne]
      · rw [item_setChain_of_notMem hxp (by simp [hchain, hxc, hxl]) hxl, ← hold]
        have hhead : l.head? ≠ some x := fun hh => hxl (List.mem_of_head? hh)
        simp [hxc, hxp, hhead]
    · simp [hchain]
    · cases l <;> simp [hchain]

end Operations

end HybridCache.ChainedItems

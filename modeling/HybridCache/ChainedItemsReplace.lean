import HybridCache.ChainedItemsChain

/-!
# Replacing a chained item and moving a chain

A chained item is replaced where it is, which takes a walk from the head to the item before it. A
whole chain moves to another parent by a walk that changes all the keys.
-/
namespace HybridCache.ChainedItems
open Transition Chains Function List Option

variable {ι : Type} [DecidableEq ι]

section Operations
variable {s : Allocator ι} [Fintype ι] {m : Chains ι}

omit [Fintype ι] in
lemma findPrev_spec {old : ι} {l : List ι} {n : ℕ} (hn : l.length ≤ n) {head : ι}
    (hreach : Reaches s.items (s.items head).next l) (hnodup : (head :: l).Nodup)
    (hold : old ∈ l) :
    ∃ prev, s.findPrev old n head (s.items head).next = some prev ∧ prev ∈ head :: l ∧
      nextIn (head :: l) prev = some old := by
  induction l generalizing n head with
  | nil => cases hold
  | cons x l ih =>
    obtain ⟨hnext, hreach⟩ := hreach
    obtain ⟨n, rfl⟩ : ∃ k, n = k + 1 := ⟨n - 1, by simp at hn; omega⟩
    rw [hnext, Allocator.findPrev]
    by_cases hx : x = old
    · subst hx
      exact ⟨head, if_pos rfl, mem_cons_self, nextIn_cons_self head _⟩
    · obtain ⟨prev, hrun, hmem, hprev⟩ := @ih n (by simpa using hn) x hreach
        (nodup_cons.1 hnodup).2 ((mem_cons.1 hold).resolve_left (Ne.symm hx))
      refine ⟨prev, (if_neg hx).trans hrun, mem_cons_of_mem head hmem, ?_⟩
      rw [nextIn_cons_of_ne, hprev]
      rintro rfl
      exact (nodup_cons.1 hnodup).1 hmem

lemma replaceInChainLocked_eq {old n p head : ι} {prev : Option ι} (hne : old ≠ n)
    (hn : (s.items n).accessible = false) (hnparent : (s.items n).parent = some p)
    (hhead : s.heads p = some head)
    (hold : (s.items old).accessible = decide (head = old))
    (hprev : prev = none ↔ head = old)
    (hfind : ∀ x, prev = some x → x ≠ old ∧ x ≠ n ∧
      s.findPrev old (Fintype.card ι) head (s.items head).next = some x) :
    s.replaceInChainLocked old n p = some { s with
      items := fun x =>
        if x = old then
          { s.items x with next := none, accessible := false, refs := (s.items x).refs - 1 }
        else if x = n then
          { s.items x with
            next := (s.items old).next, accessible := decide (head = old),
            refs := (s.items x).refs + 1 }
        else if prev = some x then { s.items x with next := some n } else s.items x
      heads := update s.heads p (some (if head = old then n else head)) } := by
  rw [Allocator.replaceInChainLocked, Allocator.findChainedItem, hhead, bind_some]
  by_cases hcase : head = old
  · obtain rfl := hprev.2 hcase
    have hinsert := insertOrReplace_eq hn hnparent (by grind)
    simp [hinsert, Allocator.setNext, Allocator.modify, Allocator.incRef, Allocator.decRef, hne,
      hne.symm, hhead]
    grind [update_apply]
  · obtain ⟨x, rfl⟩ := ne_none_iff_exists'.1 fun hnone => hcase (hprev.1 hnone)
    obtain ⟨hxold, hxn, hfindx⟩ := hfind x rfl
    simp [hcase, hfindx, Allocator.setNext, Allocator.modify, Allocator.incRef, Allocator.decRef,
      hne, hne.symm, hxold.symm, hxn.symm]
    grind [update_apply]

lemma replace_check (h : Represents s m) (hw : m.WellFormed) {old n p : ι}
    (hold : m.live old = true) (hn : m.live n = true) :
    ((s.items old).isChainedItem = false ∨ (s.items n).isChainedItem = false ∨
        (s.items old).parent ≠ (s.items n).parent ∨ (s.items old).parent ≠ some p ∨
        (s.items n).inMM = true ∨ (s.items old).inMM = false) ↔
      ¬ (m.parent old = some p ∧ m.parent n = some p ∧ old ∈ m.chain p ∧ n ∉ m.chain p) := by
  rw [h.items old hold, h.items n hn, item_isChainedItem, item_isChainedItem]
  by_cases hpold : m.parent old = some p
  · by_cases hpn : m.parent n = some p
    · have hflagsold := hw.flags old (by rw [hpold]; rfl)
      have hflagsn := hw.flags n (by rw [hpn]; rfl)
      have hinMM : (m.item old).inMM = decide (old ∈ m.chain p) := by
        rw [item, linked_eq hpold, hflagsold.2, Bool.false_or]
      have hinMM' : (m.item n).inMM = decide (n ∈ m.chain p) := by
        rw [item, linked_eq hpn, hflagsn.2, Bool.false_or]
      have hparent : (m.item old).parent = some p := hpold
      have hparent' : (m.item n).parent = some p := hpn
      rw [hinMM, hinMM', hparent, hparent', hpold, hpn, decide_eq_true_iff, decide_eq_false_iff_not]
      simp only [isSome_some, Bool.true_eq_false, ne_eq, not_true_eq_false, false_or,
        true_and]
      rw [not_and_or, not_not, or_comm]
    · simp only [hpn, false_and, and_false, not_false_eq_true, iff_true]
      right; right; left
      rw [item, item, hpold]
      exact fun hh => hpn hh.symm
  · simp only [hpold, false_and, not_false_eq_true, iff_true]
    exact .inr (.inr (.inr (.inl hpold)))

lemma exists_prev {old head : ι} {l : List ι} (hnodup : (head :: l).Nodup)
    (hreach : Reaches s.items (s.items head).next l) (hold : old ∈ head :: l) :
    ∃ prev : Option ι, (prev = none ↔ head = old) ∧
      (∀ x, prev = some x ↔ nextIn (head :: l) x = some old) ∧
      ∀ x, prev = some x →
        x ∈ head :: l ∧ s.findPrev old (Fintype.card ι) head (s.items head).next = some x := by
  by_cases hcase : head = old
  · refine ⟨none, iff_of_true rfl hcase, fun x => iff_of_false (by simp) fun hx => ?_, by simp⟩
    exact (nodup_cons.1 hnodup).1 (hcase ▸ mem_tail_of_nextIn hx)
  · have hlen : l.length ≤ Fintype.card ι := (nodup_cons.1 hnodup).2.length_le_card
    obtain ⟨prev, hfind, hmem, hnext⟩ := findPrev_spec hlen hreach hnodup
      ((mem_cons.1 hold).resolve_left (Ne.symm hcase))
    refine ⟨some prev, iff_of_false (by simp) hcase, fun x => ?_, ?_⟩
    · constructor
      · rintro hx
        cases hx
        exact hnext
      · intro hx
        rw [nextIn_inj hnodup hx hnext]
    · rintro x hx
      cases hx
      exact ⟨hmem, hfind⟩

lemma replaceChainedItem_eq {old n p head : ι} {l : List ι} {next : Option ι}
    (hold : s.items old = ⟨some p, next, 1, decide (head = old), true, false⟩)
    (hn : s.items n = ⟨some p, none, 1, false, false, false⟩) (hhead : s.heads p = some head)
    (hnodup : (head :: l).Nodup) (hreach : Reaches s.items (s.items head).next l)
    (holdmem : old ∈ head :: l) (hnmem : n ∉ head :: l) :
    s.replaceChainedItem old (some n) p = some ({ s with
      items := fun x =>
        if x = old then ⟨some p, none, 1, false, false, false⟩
        else if x = n then ⟨some p, next, 1, decide (head = old), true, false⟩
        else if nextIn (head :: l) x = some old then { s.items x with next := some n }
        else s.items x
      heads := update s.heads p (some (if head = old then n else head))
      handles := update (update s.handles old (s.handles old + 1)) n
        (s.handles n - 1) }, .handle old) := by
  have hne : old ≠ n := ne_of_mem_of_not_mem holdmem hnmem
  have hheadn : head ≠ n := ne_of_mem_of_not_mem mem_cons_self hnmem
  -- the handle and the flags are changed before the chain is
  obtain ⟨u, hu⟩ : ∃ u : Allocator ι, u = { s with
      items := fun x => if x = old then ⟨some p, next, 2, decide (head = old), false, false⟩
        else if x = n then ⟨some p, none, 1, false, true, false⟩ else s.items x
      handles := update s.handles old (s.handles old + 1) } := ⟨_, rfl⟩
  have hmarked : ((s.acquire old).markInMM old false).markInMM n true = u := by
    simp [hu, hold, hn, hne.symm, Allocator.acquire, Allocator.incRef, Allocator.markInMM,
      Allocator.modify]
    grind [update_apply]
  have hux : ∀ x, u.items x = if x = old then ⟨some p, next, 2, decide (head = old), false, false⟩
      else if x = n then ⟨some p, none, 1, false, true, false⟩ else s.items x := by
    intro x
    rw [hu]
  have hunext : ∀ x, (u.items x).next = (s.items x).next := by grind
  obtain ⟨prev, hnone, hprev, hfind⟩ := @exists_prev ι _ u _ old head l hnodup
    (by rw [hunext]; exact hreach.congr fun c _ => hunext c) holdmem
  have hlocked := @replaceInChainLocked_eq ι _ u _ old n p head prev hne (by grind) (by grind)
    (by rw [hu]; exact hhead) (by grind) hnone
    fun x hx => ⟨by grind [nextIn_ne_self hnodup x], by grind, (hfind x hx).2⟩
  rw [Allocator.replaceChainedItem, hold, hn]
  dsimp only
  rw [if_neg (by simp [CacheItem.isChainedItem]), hmarked, hlocked, bind_some,
    dropHandle_eq (by simp [hux, hne.symm])]
  simp [hu, hne.symm, hprev, Allocator.decRef, Allocator.modify]
  grind [update_apply]

lemma replace_represents (h : Represents s m) (hw : m.WellFormed) {old n p : ι}
    (hn : 0 < m.handles n) (hpn : m.parent n = some p) (holdmem : old ∈ m.chain p) :
    ∃ t, s.replaceChainedItem old (some n) p = some (t, (m.replace old (some n) p).2) ∧
      Represents t (m.replace old (some n) p).1 ∧ (m.replace old (some n) p).1.WellFormed := by
  have hnnot : n ∉ m.chain p := hw.notMem_of_handle hn p
  obtain ⟨holdlive, hpold, holdzero⟩ := hw.linked p old holdmem
  obtain ⟨hnone, hnitem⟩ := hw.item_of_handle hpn hn
  obtain ⟨head, l, hchain⟩ := exists_cons_of_ne_nil (ne_nil_of_mem holdmem)
  have hregular : m.parent p = none := hw.regular p (ne_nil_of_mem holdmem)
  have hw' := hw.replace hn hpn holdmem
  have hhead : s.heads p = some head := by rw [h.heads, hchain, head?_cons]
  have hreach := h.reaches hw p
  rw [hhead, hchain] at hreach
  have hreplace : m.replace old (some n) p = (((m.setChain p (substitute old n
      (m.chain p))).setHandles old 1).setHandles n 0, .handle old) := by
    rw [Chains.replace, if_pos ⟨hpold, hpn, holdmem, hnnot⟩, holdzero, hnone]
  have hitem : ∀ x ∈ m.chain p, s.items x = ⟨some p, nextIn (m.chain p) x, 1,
      decide (head = x), true, false⟩ := by
    intro x hx
    rw [h.items x (hw.linked p x hx).1, hw.item_of_mem hx, hchain]
    simp
  have hsubhead : (substitute old n (m.chain p)).head? = some (if head = old then n else head) := by
    rw [substitute, hchain, map_cons, head?_cons]
  have hmem := fun x => mem_substitute (b := n) (x := x) holdmem
  rw [hreplace, replaceChainedItem_eq (hitem old holdmem)
    ((h.items n (hw.live_of_handle hn)).trans hnitem) hhead (hchain ▸ hw.nodup p) hreach.2
    (hchain ▸ holdmem) (hchain ▸ hnnot), ← hchain]
  refine ⟨_, rfl, represents_setChain h rfl rfl rfl (by rw [hsubhead]) ?_ (fun x hx => ?_) ?_ ?_,
    hw'⟩
  · simp only [h.handles, hnone, holdzero]
    rfl
  · by_cases hxold : x = old
    · subst hxold
      rw [(hw'.item_of_handle hpold (by grind)).2]
      simp
    by_cases hxn : x = n
    · subst hxn
      have hheadx : head ≠ x := by grind
      rw [hw'.item_of_mem (p := p) (by grind)]
      by_cases hcase : head = old <;>
        simp [hxold, hcase, hheadx, hsubhead, Chains.setHandles,
          nextIn_substitute_self hnnot (hw.nodup p)]
    rw [item_setHandles_of_ne hxn, item_setHandles_of_ne hxold]
    by_cases hxmem : x ∈ m.chain p
    · rw [← item_setHandles_of_ne hxold 1, ← item_setHandles_of_ne hxn 0,
        hw'.item_of_mem (p := p) (by grind)]
      have hheadx : decide (some (if head = old then n else head) = some x) =
          decide (head = x) := by grind
      simp only [hxold, hxn, if_false, Chains.setHandles, setChain_self,
        nextIn_substitute hxold hxn, hsubhead, hheadx, hitem x hxmem]
      cases hnext : nextIn (m.chain p) x <;> grind
    · have hxprev : nextIn (m.chain p) x ≠ some old := by simp [nextIn_of_notMem hxmem]
      simp only [hxold, hxn, hxprev, if_false, h.items x hx]
      by_cases hxp : x = p
      · subst hxp
        rw [item_setChain_self _ hregular]
        simp [item, substitute]
      · exact (item_setChain_of_notMem hxp hxmem (by grind)).symm
  · simp [substitute]
  · simp [substitute]

omit [Fintype ι] in
lemma changeKeys_eq (q : ι) {l : List ι} {n : ℕ} (hn : l.length ≤ n) {head : Option ι}
    (hreach : Reaches s.items head l) (hnodup : l.Nodup)
    (hl : ∀ c ∈ l, (s.items c).accessible = false ∧ (s.items c).isChainedItem = true) :
    Allocator.changeKeys q n head s = some ({ s with
      items := fun x => if x ∈ l then { s.items x with parent := some q } else s.items x },
      true) := by
  induction l generalizing n head s with
  | nil =>
    obtain rfl : head = none := hreach
    simp [Allocator.changeKeys]
  | cons c l ih =>
    obtain ⟨rfl, hreach⟩ := hreach
    obtain ⟨n, rfl⟩ : ∃ k, n = k + 1 := ⟨n - 1, by simp at hn; omega⟩
    have hframe : ∀ x ≠ c, (s.modify c fun i => { i with parent := some q }).items x =
        s.items x := fun x hx => modify_items_of_ne hx _
    have hrest := @ih (s.modify c fun i => { i with parent := some q }) n (by simpa using hn)
      (s.items c).next (hreach.congr fun d hd => by rw [hframe d (by grind)]) hnodup.of_cons
      (fun d hd => by
        rw [hframe d (by grind)]
        exact hl d (mem_cons_of_mem c hd))
    obtain ⟨haccessible, hchained⟩ := hl c mem_cons_self
    rw [Allocator.changeKeys, haccessible, hchained, if_neg (by simp)]
    refine hrest.trans ?_
    simp [Allocator.modify]
    grind

lemma transferChainLocked_eq {p q head : ι} {l : List ι} (hpq : q ≠ p)
    (hq : (s.items q).hasChained = false) (hheadq : s.heads q = none)
    (hhead : s.heads p = some head) (hreach : Reaches s.items (some head) (head :: l))
    (hnodup : (head :: l).Nodup) (hp : p ∉ head :: l) (hqmem : q ∉ head :: l)
    (hl : ∀ c ∈ head :: l, (s.items c).accessible = decide (head = c) ∧
      (s.items c).parent = some p) :
    s.transferChainLocked p q = some ({ s with
      items := fun x => if x ∈ head :: l then { s.items x with parent := some q }
        else if x = p then { s.items x with hasChained := false }
        else if x = q then { s.items x with hasChained := true } else s.items x
      heads := update (update s.heads p none) q (some head) }, .returned) := by
  obtain ⟨haccessible, hparent⟩ := hl head mem_cons_self
  rw [decide_eq_true rfl] at haccessible
  have hux : ∀ x, (s.remove head).2.items x =
      if x = head then { s.items x with accessible := false } else s.items x := by
    intro x
    simp only [remove_eq haccessible hparent, Allocator.markAccessible, modify_items]
  have hkeys := @changeKeys_eq ι _ (s.remove head).2 q (head :: l) (Fintype.card ι)
    hnodup.length_le_card (some head) (hreach.congr fun d _ => by grind) hnodup
    (fun c hc => by grind [CacheItem.isChainedItem])
  rw [Allocator.transferChainLocked, if_neg (by rw [hq]; decide), Allocator.findChainedItem,
    hhead, bind_some, hkeys, map_some]
  have hqhead : q ≠ head := by grind
  have hphead : p ≠ head := by grind
  simp [remove_eq haccessible hparent, insertOrReplace_eq (p := q), Allocator.markHasChainedItem,
    Allocator.markAccessible, Allocator.modify, hpq, hheadq, hqhead, hqhead.symm, hphead]
  grind [update_apply]

lemma transfer_represents (h : Represents s m) (hw : m.WellFormed) {p q : ι}
    (hq : 0 < m.handles q) (hregular : m.parent q = none) (hqchain : m.chain q = [])
    (hpchain : m.chain p ≠ []) :
    ∃ t, s.transferChainLocked p q = some (t, (m.transfer (some p) (some q)).2) ∧
      Represents t (m.transfer (some p) (some q)).1 ∧
      (m.transfer (some p) (some q)).1.WellFormed := by
  have hpq : q ≠ p := by grind
  obtain ⟨head, l, hchain⟩ := exists_cons_of_ne_nil hpchain
  have hpregular := hw.regular p hpchain
  have hpmem : p ∉ m.chain p := fun hmem => by grind [hw.linked p p hmem]
  have hqmem := hw.notMem_of_handle hq p
  have hhead : s.heads p = some head := by rw [h.heads, hchain, head?_cons]
  have hreach := h.reaches hw p
  rw [hhead] at hreach
  have hitem : ∀ x ∈ m.chain p, s.items x = ⟨some p, nextIn (m.chain p) x, 1,
      decide ((m.chain p).head? = some x), true, false⟩ := fun x hx =>
    (h.items x (hw.linked p x hx).1).trans (hw.item_of_mem hx)
  have hw' := hw.transfer hq hregular hqchain (p := p)
  have htransfer : m.transfer (some p) (some q) = ({ (m.setChain q (m.chain p)).setChain p [] with
        parent := fun x => if x ∈ m.chain p then some q else m.parent x }, .returned) := by
    rw [Chains.transfer, if_neg (not_not.2 hqchain)]
  have hqitem := h.items q (hw.live_of_handle hq)
  rw [htransfer, transferChainLocked_eq hpq (by simp [hqitem, item, hqchain])
    (by rw [h.heads, hqchain]; rfl) hhead (hchain ▸ hreach) (hchain ▸ hw.nodup p) (hchain ▸ hpmem) (hchain ▸ hqmem) (fun c hc => by
      rw [hitem c (hchain ▸ hc), hchain]
      simp), ← hchain]
  refine ⟨_, rfl, ⟨h.live, h.handles, h.freed, fun r => ?_, fun x hx => ?_, ?_, ?_⟩, hw'⟩
  · grind [update_apply, h.heads r]
  · have hold := h.items x hx
    by_cases hxmem : x ∈ m.chain p
    · rw [hw'.item_of_mem (p := q) (by grind)]
      simp [hxmem, hitem x hxmem, setChain_of_ne hpq]
    have hparent := @item_setParent ι _ ((m.setChain q (m.chain p)).setChain p []) x
      (fun x => if x ∈ m.chain p then some q else m.parent x) (if_neg hxmem)
    refine Eq.trans ?_ hparent.symm
    by_cases hxp : x = p
    · subst hxp
      have hxregular : (m.setChain q (m.chain x)).parent x = none := hpregular
      rw [item_setChain_self [] hxregular, item_setChain_of_notMem hpq.symm (by simp [hqchain])
        hpmem, ← hold]
      simp [hpmem]
    rw [item_setChain_of_notMem hxp (by grind) (by simp)]
    by_cases hxq : x = q
    · subst hxq
      rw [item_setChain_self _ hregular, ← hold]
      simp [hxmem, hxp, hpchain]
    · rw [item_setChain_of_notMem hxq (by simp [hqchain]) hxmem, ← hold]
      simp [hxmem, hxp, hxq]
  · have hfirst := m.length_setChain q (m.chain p)
    have hsecond := (m.setChain q (m.chain p)).length_setChain p []
    exact h.children.trans (congrArg Nat.cast (by grind))
  · have hfirst := m.count_setChain q (m.chain p)
    have hsecond := (m.setChain q (m.chain p)).count_setChain p []
    exact h.parents.trans (congrArg Nat.cast (by grind))

end Operations

end HybridCache.ChainedItems

import HybridCache.ChainedItemsSpec

/-!
# Release of items with their chains

A drained item is given back to the memory allocator with all its chained items, each of them once.
The destructor of the last handle does the same.
-/
namespace HybridCache.ChainedItems
open Transition Chains Function List

variable {ι : Type} [DecidableEq ι]

namespace Chains
variable {m : Chains ι}

variable {x p : ι}

lemma item_setHandles_of_ne {c : ι} (h : x ≠ c) (n : ℕ) :
    (m.setHandles c n).item x = m.item x := by
  simp only [item, setHandles_of_ne h]
  rfl

lemma item_setHandles_self (c : ι) (n : ℕ) :
    (m.setHandles c n).item c = { m.item c with refs := n + (m.linked c).toNat } := by
  simp only [item, setHandles_self]
  rfl

lemma item_setChain_of_notMem {l : List ι} (hx : x ≠ p) (hmem : x ∉ m.chain p)
    (hmem' : x ∉ l) : (m.setChain p l).item x = m.item x := by
  have hchainOf : (m.setChain p l).chainOf x = if m.parent x = some p then l else m.chainOf x := by
    grind [chainOf]
  have hhead : (m.chain p).head? ≠ some x := fun h => hmem (mem_of_head? h)
  have hhead' : l.head? ≠ some x := fun h => hmem' (mem_of_head? h)
  rw [item, item, linked, linked, hchainOf, setChain_of_ne hx]
  split_ifs with hparent
  · simp [chainOf_eq hparent, hmem, hmem', hhead, hhead', nextIn_of_notMem, setChain]
  · rfl

lemma item_setParent {f : ι → Option ι} (h : f x = m.parent x) :
    ({ m with parent := f } : Chains ι).item x = m.item x := by
  have hchain : ({ m with parent := f } : Chains ι).chainOf x = m.chainOf x := by
    simp only [chainOf, h]
  simp only [item, linked, hchain, h]

lemma item_setChain_self (l : List ι) (hp : m.parent p = none) :
    (m.setChain p l).item p = { m.item p with hasChained := decide (l ≠ []) } := by
  simp only [item, linked, setChain_self, chainOf_eq_nil hp,
    chainOf_eq_nil (show (m.setChain p l).parent p = none from hp)]
  rfl

variable [Fintype ι]

lemma length_setChain (m : Chains ι) (p : ι) (l : List ι) :
    (∑ q, ((m.setChain p l).chain q).length) + (m.chain p).length =
      (∑ q, (m.chain q).length) + l.length :=
  sum_update m.chain length p l

lemma count_setChain (m : Chains ι) (p : ι) (l : List ι) :
    (∑ q, if (m.setChain p l).chain q = [] then 0 else 1) + (if m.chain p = [] then 0 else 1) =
      (∑ q, if m.chain q = [] then 0 else 1) + (if l = [] then 0 else 1) :=
  sum_update m.chain (fun l => if l = [] then 0 else 1) p l

end Chains

/-! ## Release -/

section Release
variable {s : Allocator ι} (toRecycle : Option ι)

@[grind =] lemma modify_items (it x : ι) (f : CacheItem ι → CacheItem ι) :
    (s.modify it f).items x = if x = it then f (s.items x) else s.items x := by
  simp only [Allocator.modify, update_apply]
  grind

variable {it p : ι} {l : List ι}

lemma modify_items_of_ne {x : ι} (h : x ≠ it) (f : CacheItem ι → CacheItem ι) :
    (s.modify it f).items x = s.items x := by grind

@[simp] lemma modify_items_self (it : ι) (f : CacheItem ι → CacheItem ι) :
    (s.modify it f).items it = f (s.items it) := by grind

lemma freeChain_spec (res : ReleaseRes) {n : ℕ} (hn : l.length ≤ n) {head : Option ι}
    (hreach : Reaches s.items head l) (hnodup : l.Nodup) (hlive : ∀ c ∈ l, s.live c = true) :
    ∃ items, Allocator.freeChain toRecycle n head s res = some ({ s with
          items := items
          live := fun x => s.live x && decide (x ∉ l)
          freed := s.freed ++ l.filter fun x => decide (toRecycle ≠ some x)
          numChainedChildItems := s.numChainedChildItems - l.length },
          if ∃ c ∈ l, toRecycle = some c then .recycled else res) ∧
      ∀ x ∉ l, items x = s.items x := by
  induction l generalizing n head s res with
  | nil =>
    obtain rfl : head = none := hreach
    exact ⟨s.items, by simp [Allocator.freeChain], fun _ _ => rfl⟩
  | cons c l ih =>
    obtain ⟨rfl, hreach⟩ := hreach
    obtain ⟨n, rfl⟩ : ∃ k, n = k + 1 := ⟨n - 1, by simp at hn; omega⟩
    -- one round: the item is recycled or freed
    obtain ⟨v, hv⟩ : ∃ v : Allocator ι, v = { s with
        items := ((s.markInMM c false).decRef c).items
        live := update s.live c false
        freed := s.freed ++ [c].filter fun x => decide (toRecycle ≠ some x)
        numChainedChildItems := s.numChainedChildItems + -1 } := ⟨_, rfl⟩
    have hround : Allocator.freeChain toRecycle (n + 1) (some c) s res =
        Allocator.freeChain toRecycle n (s.items c).next v
          (if toRecycle = some c then .recycled else res) := by
      rw [Allocator.freeChain, hv]
      by_cases hc : toRecycle = some c
      · simp [hc, Allocator.recycle, Allocator.countChild, Allocator.decRef, Allocator.markInMM,
          Allocator.modify]
      · simp [hc, Allocator.free, Allocator.countChild, Allocator.decRef, Allocator.markInMM,
          Allocator.modify, hlive c mem_cons_self]
    have hframe : ∀ x ≠ c, v.items x = s.items x := by
      intro x hx
      simp only [hv, Allocator.decRef, Allocator.markInMM, modify_items_of_ne hx]
    have hvlive : ∀ x, v.live x = if x = c then false else s.live x := by
      intro x
      rw [hv]
      exact update_apply ..
    have hleft : ∀ x, (v.live x && decide (x ∉ l)) = (s.live x && decide (x ∉ c :: l)) := by grind
    obtain ⟨items, hrun, hitems⟩ := ih _ (s := v) (by simpa using hn)
      (hreach.congr fun d hd => by rw [hframe d (by grind)]) hnodup.of_cons
      fun d hd => by grind
    refine ⟨items, ?_, fun x hx => (hitems x (by grind)).trans (hframe x (by grind))⟩
    have hres : (if ∃ d ∈ l, toRecycle = some d then ReleaseRes.recycled
        else if toRecycle = some c then .recycled else res) =
        if ∃ d ∈ c :: l, toRecycle = some d then .recycled else res := by
      by_cases hc : toRecycle = some c <;> simp [hc]
    have hfreed : v.freed ++ l.filter (fun x => decide (toRecycle ≠ some x)) =
        s.freed ++ (c :: l).filter fun x => decide (toRecycle ≠ some x) := by
      rw [hv, append_assoc, ← filter_append, singleton_append]
    have hnum : v.numChainedChildItems - l.length = s.numChainedChildItems - (c :: l).length := by
      rw [hv, length_cons]
      push_cast
      ring
    rw [hround, hrun, funext hleft, hres, hfreed, hnum, hv]

variable [Fintype ι] {m : Chains ι}

lemma Represents.reaches (h : Represents s m) (hw : m.WellFormed) (p : ι) :
    Reaches s.items (s.heads p) (m.chain p) := by
  rw [h.heads p]
  refine reaches_of_nextIn (hw.nodup p) fun c hc => ?_
  rw [h.items c (hw.linked p c hc).1, hw.item_of_mem hc]

omit [Fintype ι] in
lemma remove_eq {c : ι} (haccessible : (s.items c).accessible = true)
    (hparent : (s.items c).parent = some p) :
    s.remove c = (true, Allocator.markAccessible
      { s with heads := update s.heads p none } c false) := by
  rw [Allocator.remove, haccessible, hparent]

omit [Fintype ι] in
lemma heads_update (hheads : ∀ q, s.heads q = (m.chain q).head?) (q : ι) :
    update s.heads p l.head? q = ((m.setChain p l).chain q).head? := by
  grind [update_apply]

omit [Fintype ι] in
lemma freeParent_eq (res : ReleaseRes) (hlive : s.live it = true) :
    s.freeParent it toRecycle res = some ({ s with
        live := update s.live it false
        freed := s.freed ++ [it].filter fun x => decide (toRecycle ≠ some x) },
        .release (if toRecycle = some it then .recycled else res)) := by
  by_cases hit : toRecycle = some it
  · simp [Allocator.freeParent, Allocator.recycle, hit]
  · simp [Allocator.freeParent, Allocator.free, hlive, hit]

lemma represents_free (h : Represents s m) (it : ι) (items : ι → CacheItem ι)
    (hitems : ∀ x, x ∉ m.chain it ++ [it] → items x = s.items x) :
    Represents { s with
        items := items
        live := update (fun x => s.live x && decide (x ∉ m.chain it)) it false
        heads := update s.heads it none
        freed := s.freed ++ (m.chain it ++ [it]).filter fun x => decide (toRecycle ≠ some x)
        numChainedParentItems := s.numChainedParentItems - if m.chain it = [] then 0 else 1
        numChainedChildItems := s.numChainedChildItems - (m.chain it).length }
      (m.free it toRecycle) where
  live := by
    funext x
    by_cases hx : x = it <;> simp [Chains.free, h.live, hx]
  handles := h.handles
  freed := congrArg (· ++ _) h.freed
  heads := heads_update (l := []) h.heads
  items x hx := by
    simp only [Chains.free, Bool.and_eq_true, decide_eq_true_eq] at hx
    have hmem := hx.2
    rw [mem_append, not_or, mem_singleton] at hmem
    exact (hitems x hx.2).trans ((h.items x hx.1).trans
      (Chains.item_setChain_of_notMem hmem.2 hmem.1 (by simp)).symm)
  children := by
    have hsum := m.length_setChain it []
    rw [h.children, sub_eq_iff_eq_add]
    exact_mod_cast hsum.symm
  parents := by
    have hsum := m.count_setChain it []
    rw [h.parents, sub_eq_iff_eq_add]
    exact_mod_cast hsum.symm

omit [Fintype ι] in
lemma releaseRes_eq (it : ι) : (if toRecycle = some it then ReleaseRes.recycled
      else if ∃ c ∈ m.chain it, toRecycle = some c then .recycled
      else if toRecycle = none then .released else .notRecycled) = m.releaseRes it toRecycle := by
  cases toRecycle with
  | none => simp [Chains.releaseRes]
  | some x =>
    by_cases hx : x = it
    · simp [Chains.releaseRes, hx]
    · by_cases hmem : x ∈ m.chain it <;> simp [Chains.releaseRes, hmem, hx]

lemma release_childless (res : ReleaseRes) (h : Represents s m) (hlive : m.live it = true)
    (hchain : m.chain it = []) :
    ∃ t, s.freeParent it toRecycle res =
        some (t, .release (if toRecycle = some it then .recycled else res)) ∧
      Represents t (m.free it toRecycle) := by
  refine ⟨_, freeParent_eq toRecycle res (by rw [h.live, hlive]), ?_⟩
  have hfree := represents_free toRecycle h it s.items fun x _ => rfl
  have hheads : update s.heads it none = s.heads :=
    update_eq_self_iff.2 (by rw [h.heads, hchain]; rfl)
  simpa [hchain, hheads] using hfree

section
variable (h : Represents s m) (hw : m.WellFormed)
include h hw

variable {it : ι}

lemma release_represents (hlive : m.live it = true) (hdrained : m.drained it = true)
    (hrecycle : (m.parent it).isSome = true → toRecycle = none) :
    ∃ t, s.releaseBackToAllocator it toRecycle =
        some (t, .release (m.releaseRes it toRecycle)) ∧ Represents t (m.free it toRecycle) := by
  have hitem := h.items it hlive
  have hdrained' : ¬ (s.items it).isDrained = false := by
    simp [hitem, Chains.item_isDrained, hdrained]
  rw [Allocator.releaseBackToAllocator, if_neg hdrained', hitem, Chains.item_isChainedItem]
  by_cases hchained : (m.parent it).isSome = true
  · obtain rfl := hrecycle hchained
    obtain ⟨p, hp⟩ := Option.isSome_iff_exists.1 hchained
    obtain ⟨t, hrun, ht⟩ := release_childless none .released h hlive (hw.chain_eq_nil hp)
    rw [if_pos hchained, if_neg (by simp)]
    exact ⟨t, hrun, ht⟩
  rw [if_neg hchained]
  by_cases hchain : m.chain it = []
  · obtain ⟨t, hrun, ht⟩ := release_childless toRecycle
      (if toRecycle = none then .released else .notRecycled) h hlive hchain
    refine ⟨t, ?_, ht⟩
    rw [if_neg (by simp [Chains.item, hchain]), hrun, ← releaseRes_eq, hchain]
    simp
  obtain ⟨c, l, hcons⟩ := exists_cons_of_ne_nil hchain
  have hc : c ∈ m.chain it := hcons ▸ mem_cons_self
  have hcitem : s.items c = ⟨some it, nextIn (m.chain it) c, 1, true, true, false⟩ := by
    rw [h.items c (hw.linked it c hc).1, hw.item_of_mem hc, hcons]
    simp
  have hheads : s.heads it = some c := by rw [h.heads, hcons, head?_cons]
  have hreach := h.reaches hw it
  rw [hheads] at hreach
  obtain ⟨items, hrun, hitems⟩ := freeChain_spec toRecycle
    (if toRecycle = none then .released else .notRecycled)
    (s := Allocator.markAccessible { s with heads := update s.heads it none } c false)
    (hw.nodup it).length_le_card (hreach.congr fun d _ => by grind [Allocator.markAccessible])
    (hw.nodup it) fun d hd => (congrFun h.live d).trans (hw.linked it d hd).1
  have hit : it ∉ m.chain it := hw.notMem_of_drained hdrained it
  refine ⟨_, ?_, represents_free toRecycle h it items fun x hx => ?_⟩
  · rw [if_pos (by simp [Chains.item, hchain]), Allocator.findChainedItem, hheads]
    dsimp only
    rw [if_neg (by rw [hcitem]; simp), remove_eq (by rw [hcitem]) (by rw [hcitem])]
    dsimp only
    rw [hrun, Option.bind_some]
    rw [freeParent_eq, releaseRes_eq]
    · simp [Allocator.countParent, Allocator.markAccessible, Allocator.modify, hchain,
        filter_append, sub_eq_add_neg]
    · simp [Allocator.countParent, Allocator.markAccessible, Allocator.modify, h.live, hlive, hit]
  · rw [mem_append, not_or] at hx
    exact (hitems x hx.1).trans (modify_items_of_ne (by grind) _)

lemma represents_decRef (hit : 0 < m.handles it) :
    Represents { s.decRef it with handles := update s.handles it (s.handles it - 1) }
        (m.setHandles it (m.handles it - 1)) ∧
      (m.setHandles it (m.handles it - 1)).WellFormed := by
  refine ⟨⟨h.live, ?_, h.freed, h.heads, fun x hx => ?_, h.children, h.parents⟩, ?_⟩
  · rw [h.handles]
    rfl
  · have hold := h.items x hx
    by_cases hxit : x = it
    · subst hxit
      have hrefs : (m.item x).refs - 1 = m.handles x - 1 + (m.linked x).toNat :=
        Nat.sub_add_comm hit
      simp only [Chains.item_setHandles_self, Allocator.decRef, modify_items_self, hold, hrefs]
    · rw [Chains.item_setHandles_of_ne hxit, ← hold]
      exact modify_items_of_ne hxit fun i => { i with refs := i.refs - 1 }
  · refine hw.setHandles (fun _ => ⟨hw.live_of_handle hit, hw.notMem_of_handle hit⟩) fun hsome => ?_
    have := hw.single it hsome
    omega

lemma drop_represents (hit : 0 < m.handles it) :
    ∃ t, s.dropHandle it = some t ∧ Represents t (m.drop it) ∧ (m.drop it).WellFormed := by
  obtain ⟨h', hw'⟩ := represents_decRef h hw hit
  have hlive : (m.setHandles it (m.handles it - 1)).live it = true := hw.live_of_handle hit
  have hdrained := congrArg CacheItem.isDrained (h'.items it hlive)
  rw [Chains.item_isDrained] at hdrained
  rw [Allocator.dropHandle, Chains.drop]
  by_cases hd : (m.setHandles it (m.handles it - 1)).drained it = true
  · obtain ⟨t, hrun, ht⟩ := release_represents none h' hw' hlive hd fun _ => rfl
    rw [if_pos (hdrained.trans hd), if_pos hd, hrun]
    exact ⟨t, rfl, ht, hw'.free hd none⟩
  · rw [if_neg (fun hc => hd (hdrained.symm.trans hc)), if_neg hd]
    exact ⟨_, rfl, h', hw'⟩

lemma throwing_represents {handle : Option ι}
    (hhandle : ∀ it, handle = some it → 0 < m.handles it) :
    ∃ t, s.throwing handle .invalidArgument = some (t, (m.throwing handle).2) ∧
      Represents t (m.throwing handle).1 ∧ (m.throwing handle).1.WellFormed := by
  cases handle with
  | none => exact ⟨s, rfl, h, hw⟩
  | some it =>
    obtain ⟨t, hrun, ht, hwt⟩ := drop_represents h hw (hhandle it rfl)
    refine ⟨t, ?_, ht, hwt⟩
    rw [Allocator.throwing, hrun]
    rfl

end

end Release

end HybridCache.ChainedItems

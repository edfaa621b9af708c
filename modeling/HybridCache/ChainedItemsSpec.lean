import HybridCache.ChainedItems
import HybridCache.Transition

/-!
# Chained items refine a list for each parent

The specification keeps a list for each parent. What the items and the hash table hold follows from
it: the hash table has the first of each list, an item points to its successor, and the parent of a
list has one reference to each item of it.
-/
set_option linter.unusedSectionVars false

namespace HybridCache.ChainedItems
open Transition Function List

variable {ι : Type} [DecidableEq ι]

/-! ## Positions in a list -/

def nextIn : List ι → ι → Option ι
  | [], _ => none
  | c :: l, it => if c = it then l.head? else nextIn l it

@[simp] lemma nextIn_cons_self (c : ι) (l : List ι) : nextIn (c :: l) c = l.head? := if_pos rfl

variable {it x a b : ι} {l : List ι}

lemma nextIn_cons_of_ne {c : ι} (h : it ≠ c) (l : List ι) :
    nextIn (c :: l) it = nextIn l it := if_neg (Ne.symm h)

lemma nextIn_of_notMem (h : it ∉ l) : nextIn l it = none := by
  induction l with
  | nil => rfl
  | cons c l ih => grind [nextIn]

lemma mem_tail_of_nextIn {z : ι} (h : nextIn l it = some z) : z ∈ l.tail := by
  induction l with
  | nil => cases h
  | cons c l ih => grind [nextIn, mem_of_head?, mem_of_mem_tail]

lemma nextIn_ne_self (hnodup : l.Nodup) (it : ι) : nextIn l it ≠ some it := by
  induction l with
  | nil => simp [nextIn]
  | cons c l ih => grind [nextIn, mem_of_head?]

/-- An item comes after one item only. -/
lemma nextIn_inj (hnodup : l.Nodup) {y z : ι} (hx : nextIn l x = some z)
    (hy : nextIn l y = some z) : x = y := by
  induction l with
  | nil => cases hx
  | cons c l ih =>
    -- the head of the rest comes after nothing in it
    have hhead : ∀ w, l.head? = some z → nextIn l w ≠ some z := by
      intro w hz hw
      cases l with
      | nil => cases hz
      | cons d l => grind [mem_tail_of_nextIn hw]
    grind [nextIn]

def substitute (oldItem newItem : ι) (l : List ι) : List ι :=
  l.map fun x => if x = oldItem then newItem else x

lemma mem_substitute (ha : a ∈ l) : x ∈ substitute a b l ↔ x = b ∨ x ≠ a ∧ x ∈ l := by
  grind [substitute]

lemma nodup_substitute (hb : b ∉ l) (hnodup : l.Nodup) : (substitute a b l).Nodup := by
  refine hnodup.map_on fun x hx y hy hxy => ?_
  split_ifs at hxy with hxa hya hya
  · rw [hxa, hya]
  · exact absurd (hxy ▸ hy) hb
  · exact absurd (hxy ▸ hx) hb
  · exact hxy

lemma nextIn_substitute (hxa : x ≠ a) (hxb : x ≠ b) (l : List ι) :
    nextIn (substitute a b l) x = (nextIn l x).map fun y => if y = a then b else y := by
  induction l with
  | nil => rfl
  | cons c l ih => grind [substitute, nextIn, head?_map]

lemma nextIn_substitute_self (hb : b ∉ l) (hnodup : l.Nodup) :
    nextIn (substitute a b l) b = nextIn l a := by
  have hmap : nextIn (substitute a b l) b = (nextIn l a).map fun y => if y = a then b else y := by
    induction l with
    | nil => rfl
    | cons c l ih => grind [substitute, nextIn, head?_map]
  have hne := nextIn_ne_self hnodup a
  cases hnext : nextIn l a with
  | none => rw [hmap, hnext, Option.map_none]
  | some y => grind

def Reaches (items : ι → CacheItem ι) : Option ι → List ι → Prop
  | head, [] => head = none
  | head, c :: l => head = some c ∧ Reaches items (items c).next l

lemma Reaches.congr {items items' : ι → CacheItem ι} {head : Option ι}
    (h : Reaches items head l) (hnext : ∀ c ∈ l, (items' c).next = (items c).next) :
    Reaches items' head l := by
  induction l generalizing head with
  | nil => exact h
  | cons c l ih =>
    refine ⟨h.1, ?_⟩
    rw [hnext c mem_cons_self]
    exact ih h.2 fun d hd => hnext d (mem_cons_of_mem c hd)

lemma reaches_of_nextIn {items : ι → CacheItem ι} (hnodup : l.Nodup)
    (h : ∀ c ∈ l, (items c).next = nextIn l c) : Reaches items l.head? l := by
  induction l with
  | nil => rfl
  | cons c l ih =>
    refine ⟨rfl, ?_⟩
    rw [h c mem_cons_self, nextIn_cons_self]
    exact ih hnodup.of_cons fun d hd => by grind [nextIn]

/-! ## The specification -/

structure Chains (ι : Type) where
  live : ι → Bool
  parent : ι → Option ι
  chain : ι → List ι
  handles : ι → ℕ
  accessible : ι → Bool
  inMM : ι → Bool
  freed : List ι

namespace Chains

def init : Chains ι where
  live _ := false
  parent _ := none
  chain _ := []
  handles _ := 0
  accessible _ := false
  inMM _ := false
  freed := []

variable (m : Chains ι)

def chainOf (it : ι) : List ι :=
  match m.parent it with
  | none => []
  | some p => m.chain p

def linked (it : ι) : Bool := decide (it ∈ m.chainOf it)

def drained (it : ι) : Bool :=
  decide (m.handles it = 0) && !m.accessible it && !m.inMM it && !m.linked it

def setHandles (it : ι) (n : ℕ) : Chains ι := { m with handles := update m.handles it n }

def setChain (p : ι) (l : List ι) : Chains ι := { m with chain := update m.chain p l }

/-- The item goes with all its chain. What is recycled is not given back to the memory
allocator. -/
def free (it : ι) (toRecycle : Option ι) : Chains ι :=
  { m with
    live := fun x => m.live x && decide (x ∉ m.chain it ++ [it])
    chain := update m.chain it []
    freed := m.freed ++ (m.chain it ++ [it]).filter fun x => decide (toRecycle ≠ some x) }

def releaseRes (it : ι) (toRecycle : Option ι) : ReleaseRes :=
  match toRecycle with
  | none => .released
  | some x => if x ∈ m.chain it ++ [it] then .recycled else .notRecycled

def release (it : ι) (toRecycle : Option ι) : Chains ι × Outcome ι :=
  if m.drained it = true ∧ ((m.parent it).isSome = true → toRecycle = none) then
    (m.free it toRecycle, .release (m.releaseRes it toRecycle))
  else (m, .throws .runtimeError)

/-- The last handle to an item that nothing else holds takes the item with it. -/
def drop (it : ι) : Chains ι :=
  let m := m.setHandles it (m.handles it - 1)
  if m.drained it = true then m.free it none else m

def throwing (handle : Option ι) : Chains ι × Outcome ι :=
  match handle with
  | none => (m, .throws .invalidArgument)
  | some it => (m.drop it, .throws .invalidArgument)

def construct (it : ι) (parent : Option ι) : Chains ι :=
  { m with
    live := update m.live it true
    parent := update m.parent it parent
    handles := update m.handles it 1
    accessible := update m.accessible it false
    inMM := update m.inMM it false }

def add (parent child : Option ι) : Chains ι × Outcome ι :=
  match parent, child with
  | some p, some c =>
    if m.parent c = none then m.throwing (some c)
    else ((m.setChain p (c :: m.chain p)).setHandles c (m.handles c - 1), .returned)
  | _, child => m.throwing child

def pop (parent : Option ι) : Chains ι × Outcome ι :=
  match parent with
  | none => m.throwing none
  | some p =>
    match m.chain p with
    | [] => m.throwing none
    | c :: l => ((m.setChain p l).setHandles c (m.handles c + 1), .handle c)

def replace (oldItem : ι) (newItem : Option ι) (p : ι) : Chains ι × Outcome ι :=
  match newItem with
  | none => m.throwing none
  | some n =>
    if m.parent oldItem = some p ∧ m.parent n = some p ∧ oldItem ∈ m.chain p ∧
        n ∉ m.chain p then
      (((m.setChain p (substitute oldItem n (m.chain p))).setHandles oldItem
        (m.handles oldItem + 1)).setHandles n (m.handles n - 1), .handle oldItem)
    else m.throwing (some n)

def transfer (parent newParent : Option ι) : Chains ι × Outcome ι :=
  match parent, newParent with
  | some p, some q =>
    if m.chain q ≠ [] then m.throwing none
    else
      ({ (m.setChain q (m.chain p)).setChain p [] with
          parent := fun x => if x ∈ m.chain p then some q else m.parent x }, .returned)
  | _, _ => m.throwing none

def call : Call ι → Chains ι × Outcome ι
  | .allocate it => (m.construct it none, .handle it)
  | .allocateChainedItem parent it => (m.construct it (some parent), .handle it)
  | .find it => (m.setHandles it (m.handles it + 1), .handle it)
  | .setContainers it accessible inMM =>
    ({ m with
      accessible := update m.accessible it accessible
      inMM := update m.inMM it inMM }, .returned)
  | .dropHandle it => (m.drop it, .returned)
  | .addChainedItem parent child => m.add parent child
  | .popChainedItem parent => m.pop parent
  | .replaceChainedItem oldItem newItem parent => m.replace oldItem newItem parent
  | .transferChainAndReplace parent newParent => m.transfer parent newParent
  | .releaseBackToAllocator it toRecycle => m.release it toRecycle

variable {m}

section Setters
variable (x y p q it : ι) (n : ℕ) (l : List ι) (toRecycle : Option ι)

@[grind =] lemma setHandles_handles :
    (m.setHandles x n).handles y = if y = x then n else m.handles y := update_apply ..

@[grind =] lemma setHandles_live : (m.setHandles x n).live y = m.live y := rfl

@[grind =] lemma setHandles_parent : (m.setHandles x n).parent y = m.parent y := rfl

@[grind =] lemma setHandles_chain : (m.setHandles x n).chain y = m.chain y := rfl

@[grind =] lemma setChain_chain : (m.setChain p l).chain q = if q = p then l else m.chain q :=
  update_apply ..

@[grind =] lemma setChain_live : (m.setChain p l).live y = m.live y := rfl

@[grind =] lemma setChain_parent : (m.setChain p l).parent y = m.parent y := rfl

@[grind =] lemma setChain_handles : (m.setChain p l).handles y = m.handles y := rfl

@[grind =] lemma free_chain :
    (m.free it toRecycle).chain q = if q = it then [] else m.chain q := update_apply ..

@[grind =] lemma free_live :
    (m.free it toRecycle).live y = (m.live y && decide (y ∉ m.chain it ++ [it])) := rfl

@[grind =] lemma free_parent : (m.free it toRecycle).parent y = m.parent y := rfl

@[grind =] lemma free_handles : (m.free it toRecycle).handles y = m.handles y := rfl

@[simp] lemma setHandles_self : (m.setHandles x n).handles x = n := by grind

@[simp] lemma setChain_self : (m.setChain p l).chain p = l := by grind

end Setters

lemma setHandles_of_ne {x y : ι} (h : y ≠ x) (n : ℕ) :
    (m.setHandles x n).handles y = m.handles y := by grind

lemma setChain_of_ne {p q : ι} (h : q ≠ p) (l : List ι) :
    (m.setChain p l).chain q = m.chain q := by grind

end Chains

/-! ## What the specification says about the items -/

def Chains.item (m : Chains ι) (x : ι) : CacheItem ι where
  parent := m.parent x
  next := nextIn (m.chainOf x) x
  refs := m.handles x + (m.linked x).toNat
  accessible := m.accessible x || decide ((m.chainOf x).head? = some x)
  inMM := m.inMM x || m.linked x
  hasChained := decide (m.chain x ≠ [])

/-- Only regular items have chains, and the callers hold no handles to what is in one. -/
structure Chains.WellFormed (m : Chains ι) : Prop where
  dead : ∀ x, m.live x = false → m.handles x = 0 ∧ m.chain x = []
  linked : ∀ p, ∀ c ∈ m.chain p, m.live c = true ∧ m.parent c = some p ∧ m.handles c = 0
  regular : ∀ p, m.chain p ≠ [] → m.parent p = none
  nodup : ∀ p, (m.chain p).Nodup
  single : ∀ c, (m.parent c).isSome = true → m.handles c ≤ 1
  flags : ∀ c, (m.parent c).isSome = true → m.accessible c = false ∧ m.inMM c = false

namespace Chains
variable {m : Chains ι} {c : ι}

lemma chainOf_eq {p : ι} (h : m.parent c = some p) : m.chainOf c = m.chain p := by
  rw [chainOf, h]

lemma chainOf_eq_nil (h : m.parent c = none) : m.chainOf c = [] := by
  rw [chainOf, h]

lemma linked_eq {p : ι} (h : m.parent c = some p) : m.linked c = decide (c ∈ m.chain p) := by
  rw [linked, chainOf_eq h]

lemma item_isChainedItem (x : ι) : (m.item x).isChainedItem = (m.parent x).isSome := rfl

namespace WellFormed
variable (hw : m.WellFormed)
include hw

variable {x p c it : ι}

lemma live_of_handle (hx : 0 < m.handles x) : m.live x = true := by
  by_contra hdead
  rw [(hw.dead x (Bool.eq_false_iff.2 hdead)).1] at hx
  exact absurd hx (lt_irrefl 0)

lemma notMem_of_handle (hx : 0 < m.handles x) (p : ι) : x ∉ m.chain p := by
  intro hmem
  rw [(hw.linked p x hmem).2.2] at hx
  exact absurd hx (lt_irrefl 0)

lemma live_of_chain (hp : m.chain p ≠ []) : m.live p = true := by
  by_contra hdead
  exact hp (hw.dead p (Bool.eq_false_iff.2 hdead)).2

lemma chain_eq_nil (hc : m.parent c = some p) : m.chain c = [] := by
  by_contra hne
  rw [hw.regular c hne] at hc
  cases hc

/-- A chained item that a caller has in its hands. -/
lemma item_of_handle (hparent : m.parent c = some p) (hc : 0 < m.handles c) :
    m.handles c = 1 ∧ m.item c = ⟨some p, none, 1, false, false, false⟩ := by
  have hsome : (m.parent c).isSome = true := by
    rw [hparent]
    rfl
  have hnot := hw.notMem_of_handle hc p
  have hone : m.handles c = 1 := le_antisymm (hw.single c hsome) hc
  have hhead : (m.chain p).head? ≠ some c := fun h => hnot (mem_of_head? h)
  refine ⟨hone, ?_⟩
  rw [item, chainOf_eq hparent, linked_eq hparent, nextIn_of_notMem hnot, hw.chain_eq_nil hparent,
    (hw.flags c hsome).1, (hw.flags c hsome).2, hone, hparent]
  simp [hnot, hhead]

lemma item_of_mem (hc : c ∈ m.chain p) :
    m.item c = ⟨some p, nextIn (m.chain p) c, 1, decide ((m.chain p).head? = some c), true,
      false⟩ := by
  obtain ⟨-, hparent, hhandles⟩ := hw.linked p c hc
  have hsome : (m.parent c).isSome = true := by
    rw [hparent]
    rfl
  rw [item, chainOf_eq hparent, linked_eq hparent, hw.chain_eq_nil hparent,
    (hw.flags c hsome).1, (hw.flags c hsome).2, hhandles, hparent]
  simp [hc]

lemma notMem_of_drained (hit : m.drained it = true) (p : ι) : it ∉ m.chain p := by
  intro hmem
  have hlinked := linked_eq (hw.linked p it hmem).2.1
  simp [drained, hlinked, hmem] at hit

lemma setHandles {n : ℕ} (hn : n ≠ 0 → m.live x = true ∧ ∀ p, x ∉ m.chain p)
    (hone : (m.parent x).isSome = true → n ≤ 1) : (m.setHandles x n).WellFormed where
  dead y hy := by grind [hw.dead y]
  linked p c hc := by grind [hw.linked p c]
  regular := hw.regular
  nodup := hw.nodup
  single c hc := by grind [hw.single c hc]
  flags := hw.flags

lemma construct {parent : Option ι} (hit : m.live it = false) :
    (m.construct it parent).WellFormed := by
  obtain ⟨hdead, hlinked, hregular, hnodup, hsingle, hflags⟩ := hw
  constructor
  all_goals simp only [Chains.construct, update_apply]
  · grind
  · grind
  · grind
  · exact hnodup
  · grind
  · grind

lemma free (hit : m.drained it = true) (toRecycle : Option ι) :
    (m.free it toRecycle).WellFormed := by
  have hnot := hw.notMem_of_drained hit
  have hzero : m.handles it = 0 := by grind [drained]
  obtain ⟨hdead, hlinked, hregular, hnodup, hsingle, hflags⟩ := hw
  exact ⟨by grind, by grind, by grind, by grind, hsingle, hflags⟩

lemma setChain {l : List ι} (hnodup : l.Nodup) (hregular : l ≠ [] → m.parent p = none)
    (hlive : l ≠ [] → m.live p = true)
    (hl : ∀ c ∈ l, m.live c = true ∧ m.parent c = some p ∧ m.handles c = 0) :
    (m.setChain p l).WellFormed where
  dead x hx := by grind [hw.dead x]
  linked q c hc := by grind [hw.linked q c]
  regular q hq := by grind [hw.regular q]
  nodup q := by grind [hw.nodup q]
  single := hw.single
  flags := hw.flags

lemma add (hp : 0 < m.handles p) (hc : 0 < m.handles c) (hparent : m.parent c = some p)
    (hregular : m.parent p = none) :
    ((m.setChain p (c :: m.chain p)).setHandles c 0).WellFormed := by
  have hcnot : c ∉ m.chain p := hw.notMem_of_handle hc p
  refine WellFormed.setChain (hw.setHandles (fun h => absurd rfl h) fun _ => Nat.zero_le 1)
    (nodup_cons.2 ⟨hcnot, hw.nodup p⟩) (fun _ => hregular) (fun _ => hw.live_of_handle hp)
    fun d hd => ?_
  grind [hw.linked p d, hw.live_of_handle hc]

lemma pop {l : List ι} (hchain : m.chain p = c :: l) :
    ((m.setChain p l).setHandles c 1).WellFormed := by
  have hlive := hw.live_of_chain (p := p)
  have hnodup := hw.nodup p
  have hlinked := hw.linked
  refine WellFormed.setHandles (hw.setChain ?_ ?_ ?_ ?_) ?_ fun _ => le_rfl
  · grind
  · grind [hw.regular p]
  · grind
  · grind
  · grind

lemma replace {old n : ι} (hn : 0 < m.handles n)
    (hpn : m.parent n = some p) (holdmem : old ∈ m.chain p) :
    (((m.setChain p (substitute old n (m.chain p))).setHandles old 1).setHandles n
      0).WellFormed := by
  have hnnot : n ∉ m.chain p := hw.notMem_of_handle hn p
  have hnodup' := nodup_substitute (a := old) hnnot (hw.nodup p)
  have hmem := fun x => mem_substitute (b := n) (x := x) holdmem
  obtain ⟨hdead, hlinked, hregular, hnodup, hsingle, hflags⟩ := hw
  exact ⟨by grind, by grind, by grind, by grind, by grind, hflags⟩

lemma transfer {q : ι} (hq : 0 < m.handles q) (hregular : m.parent q = none)
    (hqchain : m.chain q = []) :
    ({ (m.setChain q (m.chain p)).setChain p [] with
      parent := fun x => if x ∈ m.chain p then some q else m.parent x } : Chains ι).WellFormed := by
  obtain ⟨hdead, hlinked, hregular, hnodup, hsingle, hflags⟩ := hw
  constructor
  · grind
  · grind
  · grind
  · grind
  · grind
  · intro c hc
    exact hflags c (by grind)

end WellFormed

lemma item_isDrained (m : Chains ι) (x : ι) : (m.item x).isDrained = m.drained x := by
  have hhead : (m.chainOf x).head? = some x → x ∈ m.chainOf x := mem_of_head?
  rw [CacheItem.isDrained, drained, item, linked]
  by_cases hmem : x ∈ m.chainOf x
  · simp [hmem]
  · have hne : (m.chainOf x).head? ≠ some x := fun h => hmem (hhead h)
    simp [hmem, hne]

end Chains

variable [Fintype ι]

/-- The allocator holds what the specification says. -/
structure Represents (s : Allocator ι) (m : Chains ι) : Prop where
  live : s.live = m.live
  handles : s.handles = m.handles
  freed : s.freed = m.freed
  heads : ∀ p, s.heads p = (m.chain p).head?
  items : ∀ x, m.live x = true → s.items x = m.item x
  children : s.numChainedChildItems = ((∑ p, (m.chain p).length : ℕ) : ℤ)
  parents : s.numChainedParentItems = ((∑ p, (if m.chain p = [] then 0 else 1) : ℕ) : ℤ)

end HybridCache.ChainedItems

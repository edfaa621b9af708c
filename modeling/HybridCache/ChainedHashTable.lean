import HybridCache.Transition
import HybridCache.IntrusiveList

/-!
# The chained hash table

The table is an array of heads; the chains run through the `next` hook of the
nodes, which also carry the accessible flag. Nodes are addresses of a finite
memory `ν`, so a walk that visits no node twice ends within `Fintype.card ν`
steps; the loops are bounded by that number and the bucket functions return
`none` when the bound is hit.

The abstract container is a finite map from keys to nodes.
-/
set_option linter.unusedSectionVars false

namespace HybridCache.ChainedHashTable
open Transition IntrusiveList Function List

/-- What the container is built with: the keys of the nodes and the hasher. -/
structure Config (K ν : Type*) where
  getKey : ν → K
  hasher : K → ℕ

structure Table (ν : Type*) (p : ℕ) where
  hashTable : Fin (2 ^ p) → Option ν
  next : ν → Option ν
  accessible : ν → Bool
  numKeys : ℕ

def Table.empty (ν : Type*) (p : ℕ) : Table ν p where
  hashTable := fun _ => none
  next := fun _ => none
  accessible := fun _ => false
  numKeys := 0

inductive Result (ν : Type*) where
  | bool (b : Bool)
  | handle (h : Option ν)
  | exception
  deriving DecidableEq, Repr

section Model
variable {K ν : Type*} [DecidableEq K] [DecidableEq ν] [Fintype ν] {p : ℕ}
  (cfg : Config K ν)

def getBucket (p : ℕ) (k : K) : Fin (2 ^ p) :=
  ⟨cfg.hasher k &&& (2 ^ p - 1), Nat.and_lt_two_pow _ (Nat.sub_one_lt (by positivity))⟩

/-- The loop shared by the bucket functions: the first node with the key, and
the node before it. -/
def search (t : Table ν p) (key : K) (bucket : Fin (2 ^ p)) : Option (Option ν × Option ν) :=
  scan t.next (fun n => decide (cfg.getKey n = key)) (Fintype.card ν + 1) none
    (t.hashTable bucket)

def findInBucket (t : Table ν p) (key : K) (bucket : Fin (2 ^ p)) : Option (Option ν) :=
  (search cfg t key bucket).map Prod.snd

def findPrevInBucket (t : Table ν p) (node : ν) (bucket : Fin (2 ^ p)) : Option (Option ν) :=
  (search cfg t (cfg.getKey node) bucket).map Prod.fst

def pushFront (t : Table ν p) (node : ν) (bucket : Fin (2 ^ p)) : Table ν p :=
  { t with
    hashTable := update t.hashTable bucket (some node)
    next := update t.next node (t.hashTable bucket) }

def insertInBucket (t : Table ν p) (node : ν) (bucket : Fin (2 ^ p)) :
    Option (Bool × Table ν p) := do
  let existing ← findInBucket cfg t (cfg.getKey node) bucket
  if existing.isSome then return (false, t)
  return (true, pushFront t node bucket)

def replaceNode (t : Table ν p) (prev : Option ν) (curr node : ν) (bucket : Fin (2 ^ p)) :
    Table ν p :=
  let w := relink t.next (t.hashTable bucket) prev (some node)
  { t with
    hashTable := update t.hashTable bucket w.2
    next := update w.1 node (w.1 curr) }

def insertOrReplaceInBucket (t : Table ν p) (node : ν) (bucket : Fin (2 ^ p)) :
    Option (Option ν × Table ν p) := do
  let (prev, curr) ← search cfg t (cfg.getKey node) bucket
  match curr with
  | none => return (none, pushFront t node bucket)
  | some c => return (some c, replaceNode t prev c node bucket)

def unlinkNode (t : Table ν p) (prev : Option ν) (node : ν) (bucket : Fin (2 ^ p)) : Table ν p :=
  let w := relink t.next (t.hashTable bucket) prev (t.next node)
  { t with hashTable := update t.hashTable bucket w.2, next := w.1 }

def removeFromBucket (t : Table ν p) (node : ν) (bucket : Fin (2 ^ p)) : Option (Table ν p) := do
  let prev ← findPrevInBucket cfg t node bucket
  return unlinkNode t prev node bucket

def markAccessible (t : Table ν p) (node : ν) : Table ν p :=
  { t with accessible := update t.accessible node true }

def unmarkAccessible (t : Table ν p) (node : ν) : Table ν p :=
  { t with accessible := update t.accessible node false }

/-- The handle maker throws on a node whose reference count is exhausted, never
on the null pointer. -/
def handleMaker (throws : Bool) : Option ν → Result ν
  | none => .handle none
  | some n => if throws then .exception else .handle (some n)

def insert (t : Table ν p) (node : ν) : Option (Result ν × Table ν p) := do
  if t.accessible node then return (.bool false, t)
  let (res, t') ← insertInBucket cfg t node (getBucket cfg p (cfg.getKey node))
  if res then
    return (.bool true, { markAccessible t' node with numKeys := t'.numKeys + 1 })
  return (.bool false, t')

def insertOrReplace (t : Table ν p) (node : ν) (throws : Bool) :
    Option (Result ν × Table ν p) := do
  if t.accessible node then return (handleMaker false none, t)
  let bucket := getBucket cfg p (cfg.getKey node)
  let (oldNode, t₁) ← insertOrReplaceInBucket cfg t node bucket
  match oldNode with
  | none =>
    let t₂ := markAccessible t₁ node
    return (handleMaker throws none, { t₂ with numKeys := t₂.numKeys + 1 })
  | some old =>
    if throws then
      -- put the element back since we failed to grab the handle
      let (_, t₂) ← insertOrReplaceInBucket cfg t₁ old bucket
      return (.exception, t₂)
    return (handleMaker throws (some old), unmarkAccessible (markAccessible t₁ node) old)

def replaceIf (t : Table ν p) (oldNode newNode : ν) (predicate : Bool) :
    Option (Result ν × Table ν p) := do
  let bucket := getBucket cfg p (cfg.getKey newNode)
  if t.accessible oldNode && predicate then
    let (_, t₁) ← insertOrReplaceInBucket cfg t newNode bucket
    return (.bool true, markAccessible (unmarkAccessible t₁ oldNode) newNode)
  return (.bool false, t)

def replaceIfAccessible (t : Table ν p) (oldNode newNode : ν) : Option (Result ν × Table ν p) :=
  replaceIf cfg t oldNode newNode true

def remove (t : Table ν p) (node : ν) : Option (Result ν × Table ν p) := do
  let bucket := getBucket cfg p (cfg.getKey node)
  if !t.accessible node then return (.bool false, t)
  let t₁ ← removeFromBucket cfg t node bucket
  let t₂ := unmarkAccessible t₁ node
  return (.bool true, { t₂ with numKeys := t₂.numKeys - 1 })

def removeIf (t : Table ν p) (node : ν) (predicate throws : Bool) :
    Option (Result ν × Table ν p) := do
  let bucket := getBucket cfg p (cfg.getKey node)
  if t.accessible node && predicate then
    if throws then return (.exception, t)
    let t₁ ← removeFromBucket cfg t node bucket
    let t₂ := unmarkAccessible t₁ node
    return (handleMaker throws (some node), { t₂ with numKeys := t₂.numKeys - 1 })
  return (handleMaker throws none, t)

def find (t : Table ν p) (key : K) (throws : Bool) : Option (Result ν × Table ν p) := do
  let n ← findInBucket cfg t key (getBucket cfg p key)
  return (handleMaker throws n, t)

end Model

/-- A container call. The Booleans are the answers of the caller's predicate
and whether the handle maker throws on a node. -/
inductive Op (K ν : Type*) where
  | insert (node : ν)
  | insertOrReplace (node : ν) (throws : Bool)
  | replaceIf (oldNode newNode : ν) (predicate : Bool)
  | replaceIfAccessible (oldNode newNode : ν)
  | remove (node : ν)
  | removeIf (node : ν) (predicate throws : Bool)
  | find (key : K) (throws : Bool)

section Step
variable {K ν : Type*} [DecidableEq K] [DecidableEq ν] [Fintype ν] {p : ℕ}
  (cfg : Config K ν)

def call (t : Table ν p) : Op K ν → Option (Result ν × Table ν p)
  | .insert n => insert cfg t n
  | .insertOrReplace n throws => insertOrReplace cfg t n throws
  | .replaceIf o n predicate => replaceIf cfg t o n predicate
  | .replaceIfAccessible o n => replaceIfAccessible cfg t o n
  | .remove n => remove cfg t n
  | .removeIf n predicate throws => removeIf cfg t n predicate throws
  | .find k throws => find cfg t k throws

/-- One call, with the results collected in call order. -/
def step (s : Table ν p × List (Result ν)) (op : Op K ν) : Option (Table ν p × List (Result ν)) :=
  (call cfg s.1 op).map fun r => (r.2, s.2 ++ [r.1])

end Step

/-! ## The abstract container -/

section Spec
variable {K ν : Type*} [DecidableEq K] [DecidableEq ν] (cfg : Config K ν)

/-- A call on the finite map from keys to nodes. -/
def specCall (M : K → Option ν) : Op K ν → Result ν × (K → Option ν)
  | .insert n =>
    if (M (cfg.getKey n)).isSome then (.bool false, M)
    else (.bool true, update M (cfg.getKey n) (some n))
  | .insertOrReplace n throws =>
    if M (cfg.getKey n) = some n then (.handle none, M)
    else if (M (cfg.getKey n)).isSome && throws then (.exception, M)
    else (.handle (M (cfg.getKey n)), update M (cfg.getKey n) (some n))
  | .replaceIf o n predicate =>
    if M (cfg.getKey o) = some o ∧ predicate = true then
      (.bool true, update M (cfg.getKey o) (some n))
    else (.bool false, M)
  | .replaceIfAccessible o n =>
    if M (cfg.getKey o) = some o then (.bool true, update M (cfg.getKey o) (some n))
    else (.bool false, M)
  | .remove n =>
    if M (cfg.getKey n) = some n then (.bool true, update M (cfg.getKey n) none)
    else (.bool false, M)
  | .removeIf n predicate throws =>
    if M (cfg.getKey n) = some n ∧ predicate = true then
      if throws then (.exception, M)
      else (.handle (some n), update M (cfg.getKey n) none)
    else (.handle none, M)
  | .find k throws => (handleMaker throws (M k), M)

def specStep (s : (K → Option ν) × List (Result ν)) (op : Op K ν) :
    (K → Option ν) × List (Result ν) :=
  ((specCall cfg s.1 op).2, s.2 ++ [(specCall cfg s.1 op).1])

/-- The map and the results after a sequence of calls on the empty container. -/
def specRun (ops : List (Op K ν)) : (K → Option ν) × List (Result ν) :=
  ops.foldl (specStep cfg) (fun _ => none, [])

end Spec

/-- A replacement names two nodes of one key. -/
def Op.SameKey {K ν : Type*} (cfg : Config K ν) : Op K ν → Prop
  | .replaceIf o n _ | .replaceIfAccessible o n => cfg.getKey o = cfg.getKey n
  | _ => True

/-! ## Chains -/

abbrev Config.home {K ν : Type*} (cfg : Config K ν) (p : ℕ) (node : ν) : Fin (2 ^ p) :=
  getBucket cfg p (cfg.getKey node)

section Chains
variable {K ν : Type*} {p : ℕ} {cfg : Config K ν} {t : Table ν p} {M : K → Option ν}
  {chain : Fin (2 ^ p) → List ν}

/-- The heads and hooks hold the map, bucket by bucket. -/
structure Linked (cfg : Config K ν) (t : Table ν p) (M : K → Option ν)
    (chain : Fin (2 ^ p) → List ν) : Prop where
  segment : ∀ b, Segment t.next (t.hashTable b) (chain b) none
  nodup : ∀ b, (chain b).Nodup
  mem : ∀ b n, n ∈ chain b ↔ getBucket cfg p (cfg.getKey n) = b ∧ M (cfg.getKey n) = some n
  keyed : ∀ k n, M k = some n → cfg.getKey n = k

/-- The container: the chains, the flags and the counter agree with the map. -/
structure Refines (cfg : Config K ν) (t : Table ν p) (M : K → Option ν)
    (chain : Fin (2 ^ p) → List ν) : Prop extends Linked cfg t M chain where
  accessible : ∀ n, t.accessible n = true ↔ M (cfg.getKey n) = some n
  numKeys : t.numKeys = ∑ b, (chain b).length

/-- A node of another bucket is not the written one, nor the predecessor. -/
lemma Linked.frame (h : Linked cfg t M chain) {next' : ν → Option ν} {b b' : Fin (2 ^ p)}
    (hb : b' ≠ b) (heq : ∀ n, getBucket cfg p (cfg.getKey n) ≠ b → next' n = t.next n) :
    Segment next' (t.hashTable b') (chain b') none := by
  refine segment_frame (h.segment b') fun n hn => heq n ?_
  rw [((h.mem b' n).1 hn).1]
  exact hb

variable [DecidableEq K]

lemma Linked.find?_eq (h : Linked cfg t M chain) (k : K) :
    (chain (getBucket cfg p k)).find? (fun n => decide (cfg.getKey n = k)) = M k := by
  cases hf : (chain (getBucket cfg p k)).find? (fun n => decide (cfg.getKey n = k)) with
  | none =>
    cases hM : M k with
    | none => rfl
    | some n => grind [h.keyed k n hM, h.mem (getBucket cfg p k) n]
  | some n =>
    have hk : cfg.getKey n = k := by simpa using find?_some hf
    rw [← hk, ((h.mem _ n).1 (mem_of_find?_eq_some hf)).2]

variable {k : K} {t' : Table ν p} {node : ν}

lemma Linked.update_chain (h : Linked cfg t M chain) {v : Option ν}
    {l : List ν} (hseg : Segment t'.next (t'.hashTable (getBucket cfg p k)) l none)
    (hframe : ∀ b, b ≠ getBucket cfg p k → Segment t'.next (t'.hashTable b) (chain b) none)
    (hnd : l.Nodup) (hkey : ∀ n, v = some n → cfg.getKey n = k)
    (hmem : ∀ n, n ∈ l ↔ v = some n ∨ (n ∈ chain (getBucket cfg p k) ∧ cfg.getKey n ≠ k)) :
    Linked cfg t' (update M k v) (update chain (getBucket cfg p k) l) := by
  have hmem' := h.mem
  refine ⟨fun b => ?_, fun b => ?_, fun b n => ?_, fun k' n hn => ?_⟩
  · grind
  · grind [h.nodup b]
  · grind
  · grind [h.keyed k' n]

variable [DecidableEq ν] [Fintype ν]

lemma Linked.search_eq (h : Linked cfg t M chain) (k : K) : search cfg t k (getBucket cfg p k) =
      some (((chain (getBucket cfg p k)).takeWhile
        fun n => !decide (cfg.getKey n = k)).getLast?, M k) := by
  have hlen := (h.nodup (getBucket cfg p k)).length_le_card
  rw [search, scan_eq _ (h.segment _) (by omega), h.find?_eq, Option.or_none]

lemma Linked.findInBucket_eq (h : Linked cfg t M chain) (k : K) :
    findInBucket cfg t k (getBucket cfg p k) = some (M k) := by
  rw [findInBucket, h.search_eq]
  rfl

def linkedChain (M : K → Option ν) (node : ν) (k : K) (l : List ν) : List ν :=
  match M k with
  | none => node :: l
  | some c => substitute c node l

section
variable (h : Linked cfg t M chain)
include h

lemma Linked.push_front (node : ν) (hnone : M (cfg.getKey node) = none) :
    Linked cfg (pushFront t node (cfg.home p node)) (update M (cfg.getKey node) (some node))
      (update chain (cfg.home p node) (node :: chain (cfg.home p node))) := by
  have hkeys : ∀ n ∈ chain (cfg.home p node), cfg.getKey n ≠ cfg.getKey node := fun n hn he => by
    have := ((h.mem _ n).1 hn).2
    grind
  have hfresh : node ∉ chain (cfg.home p node) := fun hn => hkeys node hn rfl
  refine h.update_chain ?_ (fun b hb => ?_) (nodup_cons.2 ⟨hfresh, h.nodup _⟩) ?_ ?_
  · simp only [pushFront, update_self, segment_cons, true_and]
    exact segment_frame (h.segment _) fun n hn => update_of_ne (ne_of_mem_of_not_mem hn hfresh) _ _
  · simp only [pushFront, update_of_ne hb]
    exact h.frame hb fun n hn => update_of_ne (fun he => hn (by rw [he])) _ _
  · grind
  · grind

/-- The chain of a bucket is cut at the node of the key. -/
lemma Linked.split {c : ν} (hc : M k = some c) :
    ∃ l₁ l₂, chain (getBucket cfg p k) = l₁ ++ c :: l₂ ∧ (∀ n ∈ l₁ ++ l₂, cfg.getKey n ≠ k) ∧
      search cfg t k (getBucket cfg p k) = some (l₁.getLast?, some c) := by
  have hf := h.find?_eq k
  rw [hc] at hf
  obtain ⟨l₂, hl⟩ := takeWhile_append_of_find? hf
  refine ⟨_, l₂, hl, fun n hn he => ?_, by rw [h.search_eq, hc]⟩
  have hmem := (h.mem (getBucket cfg p k) n).1 (by rw [hl]; grind)
  have hnd := h.nodup (getBucket cfg p k)
  rw [hl] at hnd
  grind

lemma Linked.replace {c : ν} (hc : M (cfg.getKey node) = some c) :
    ∃ t', insertOrReplaceInBucket cfg t node (cfg.home p node) =
        some (some c, t') ∧ t'.accessible = t.accessible ∧ t'.numKeys = t.numKeys ∧
      Linked cfg t' (update M (cfg.getKey node) (some node)) (update chain (cfg.home p node)
          (substitute c node (chain (cfg.home p node)))) := by
  obtain ⟨l₁, l₂, hl, hkeys, hsearch⟩ := h.split hc
  have hnd := h.nodup (cfg.home p node)
  have hseg := h.segment (cfg.home p node)
  have hmem := h.mem (cfg.home p node)
  rw [hl] at hnd hseg hmem
  have hnode : node ∉ l₁ ++ l₂ := fun hn => hkeys node hn rfl
  refine ⟨replaceNode t l₁.getLast? c node (cfg.home p node),
    by simp [insertOrReplaceInBucket, hsearch], rfl, rfl, ?_⟩
  rw [hl, substitute_split hnd]
  refine h.update_chain ?_ (fun b hb => ?_) ?_ ?_ ?_
  · simp only [replaceNode, update_self]
    exact segment_replace hseg hnd hnode
  · simp only [replaceNode, update_of_ne hb]
    refine h.frame hb fun n hn => ?_
    rw [update_of_ne (fun he => hn (by rw [he]))]
    exact relink_next_of_ne fun hlast =>
      hn ((hmem n).1 (mem_append_left _ (mem_of_getLast? hlast))).1
  · exact nodup_middle.2 (nodup_cons.2 ⟨hnode, (nodup_cons.1 (nodup_middle.1 hnd)).2⟩)
  · grind
  · grind [h.keyed _ _ hc]

lemma Linked.insert_or_replace (node : ν) :
    ∃ t', insertOrReplaceInBucket cfg t node (cfg.home p node) =
        some (M (cfg.getKey node), t') ∧ t'.accessible = t.accessible ∧ t'.numKeys = t.numKeys ∧
      Linked cfg t' (update M (cfg.getKey node) (some node)) (update chain (cfg.home p node)
          (linkedChain M node (cfg.getKey node) (chain (cfg.home p node)))) := by
  cases hM : M (cfg.getKey node) with
  | none =>
    refine ⟨pushFront t node (cfg.home p node), ?_, rfl, rfl, ?_⟩
    · simp [insertOrReplaceInBucket, h.search_eq, hM]
    · simpa only [linkedChain, hM] using h.push_front node hM
  | some c => simpa only [linkedChain, hM] using h.replace hM

lemma Linked.remove_from (hM : M (cfg.getKey node) = some node) :
    ∃ t' l, removeFromBucket cfg t node (cfg.home p node) = some t' ∧
      t'.accessible = t.accessible ∧ t'.numKeys = t.numKeys ∧
      l.length + 1 = (chain (cfg.home p node)).length ∧
      Linked cfg t' (update M (cfg.getKey node) none) (update chain (cfg.home p node) l) := by
  obtain ⟨l₁, l₂, hl, hkeys, hsearch⟩ := h.split hM
  have hnd := h.nodup (cfg.home p node)
  have hseg := h.segment (cfg.home p node)
  have hmem := h.mem (cfg.home p node)
  rw [hl] at hnd hseg hmem
  refine ⟨unlinkNode t l₁.getLast? node (cfg.home p node), l₁ ++ l₂,
    by simp [removeFromBucket, findPrevInBucket, hsearch],
    rfl, rfl, by simp [hl]; omega, ?_⟩
  refine h.update_chain ?_ (fun b hb => ?_) (nodup_cons.1 (nodup_middle.1 hnd)).2 ?_ ?_
  · simp only [unlinkNode, update_self]
    exact segment_remove hseg hnd
  · simp only [unlinkNode, update_of_ne hb]
    exact h.frame hb fun n hn => relink_next_of_ne fun hlast =>
      hn ((hmem n).1 (mem_append_left _ (mem_of_getLast? hlast))).1
  · grind
  · grind

end

/-! ## The calls -/

lemma update_eq_some_iff {v : Option ν} (hkey : ∀ n, v = some n → cfg.getKey n = k) (n : ν) :
    update M k v (cfg.getKey n) = some n ↔
      v = some n ∨ (cfg.getKey n ≠ k ∧ M (cfg.getKey n) = some n) := by
  grind

lemma Refines.link_fresh (h : Refines cfg t M chain)
    (hnone : M (cfg.getKey node) = none) {l : List ν}
    (hl : l.length = (chain (cfg.home p node)).length + 1)
    (hacc : t'.accessible = t.accessible) (hnum : t'.numKeys = t.numKeys)
    (hlinked : Linked cfg t' (update M (cfg.getKey node) (some node))
      (update chain (cfg.home p node) l)) :
    Refines cfg { markAccessible t' node with numKeys := t'.numKeys + 1 }
      (update M (cfg.getKey node) (some node))
      (update chain (cfg.home p node) l) := by
  refine ⟨⟨hlinked.segment, hlinked.nodup, hlinked.mem, hlinked.keyed⟩, fun n => ?_, ?_⟩
  · rw [update_eq_some_iff (by rintro n ⟨⟩; rfl)]
    simp only [markAccessible, hacc]
    grind [h.accessible n]
  · have hsum := sum_update chain length (cfg.home p node) l
    have := h.numKeys
    change t'.numKeys + 1 = _
    omega

lemma Refines.link_over (h : Refines cfg t M chain) {old : ν}
    (hold : M (cfg.getKey node) = some old) (acc : ν → Bool)
    (hacc : ∀ n, acc n = true ↔ n = node ∨ (n ≠ old ∧ t.accessible n = true))
    (hnum : t'.numKeys = t.numKeys)
    (hlinked : Linked cfg t' (update M (cfg.getKey node) (some node))
      (update chain (cfg.home p node) (substitute old node (chain (cfg.home p node))))) :
    Refines cfg { t' with accessible := acc } (update M (cfg.getKey node) (some node))
      (update chain (cfg.home p node) (substitute old node (chain (cfg.home p node)))) := by
  refine ⟨⟨hlinked.segment, hlinked.nodup, hlinked.mem, hlinked.keyed⟩, fun n => ?_, ?_⟩
  · rw [update_eq_some_iff (by rintro n ⟨⟩; rfl), hacc, h.accessible]
    grind [h.keyed _ _ hold]
  · have hsum := sum_update chain length (cfg.home p node)
      (substitute old node (chain (cfg.home p node)))
    have hlen : (substitute old node (chain (cfg.home p node))).length =
        (chain (cfg.home p node)).length := length_map _
    have := h.numKeys
    change t'.numKeys = _
    omega

lemma Refines.unlink (h : Refines cfg t M chain) (hM : M (cfg.getKey node) = some node) :
    ∃ t' chain', removeFromBucket cfg t node (cfg.home p node) = some t' ∧
      Refines cfg { unmarkAccessible t' node with numKeys := t'.numKeys - 1 }
        (update M (cfg.getKey node) none) chain' := by
  obtain ⟨t', l, hrem, hacc, hnum, hlen, hlinked⟩ := h.toLinked.remove_from hM
  refine ⟨t', _, hrem, ⟨hlinked.segment, hlinked.nodup, hlinked.mem, hlinked.keyed⟩,
    fun n => ?_, ?_⟩
  · rw [update_eq_some_iff (by rintro n ⟨⟩)]
    simp only [unmarkAccessible, hacc]
    grind [h.accessible n]
  · have hsum := sum_update chain length (cfg.home p node) l
    have := h.numKeys
    change t'.numKeys - 1 = _
    omega

/-- A call does what the specification does. -/
def Simulates (cfg : Config K ν) (t : Table ν p) (M : K → Option ν) (op : Op K ν) : Prop :=
  ∃ t' chain', call cfg t op = some ((specCall cfg M op).1, t') ∧
    Refines cfg t' (specCall cfg M op).2 chain'

lemma Refines.accessible_false (h : Refines cfg t M chain) (node : ν)
    (hM : M (cfg.getKey node) ≠ some node) : t.accessible node = false := by
  rw [← Bool.not_eq_true, h.accessible]
  exact hM

/-- The guard of a conditional call fails with the map's. -/
lemma Refines.guard_false (h : Refines cfg t M chain) {predicate : Bool}
    (hM : ¬(M (cfg.getKey node) = some node ∧ predicate = true)) :
    (t.accessible node && predicate) = false := by
  grind [h.accessible node]

lemma Simulates.intro {op : Op K ν} {r : Result ν} {M' : K → Option ν}
    {chain' : Fin (2 ^ p) → List ν} (hspec : specCall cfg M op = (r, M'))
    (hcall : call cfg t op = some (r, t')) (href : Refines cfg t' M' chain') :
    Simulates cfg t M op := by
  rw [Simulates, hspec]
  exact ⟨t', chain', hcall, href⟩

lemma simulates_insert (h : Refines cfg t M chain) (node : ν) :
    Simulates cfg t M (.insert node) := by
  cases hM : M (cfg.getKey node) with
  | some c =>
    refine Simulates.intro (r := .bool false) (by simp [specCall, hM]) ?_ h
    by_cases hacc : t.accessible node = true
    · simp [call, insert, hacc]
    · simp [call, insert, insertInBucket, h.findInBucket_eq, hM, hacc]
  | none =>
    have hacc := h.accessible_false node (by simp [hM])
    have href := h.toLinked.push_front node hM
    refine Simulates.intro (r := .bool true) (by simp [specCall, hM]) ?_
      (h.link_fresh hM (length_cons ..) (by rfl) (by rfl) href)
    simp [call, insert, insertInBucket, h.findInBucket_eq, hM, hacc]

/-- The exception path: the second splice undoes the first one. -/
lemma Linked.put_back (h : Linked cfg t M chain) {old : ν} (hne : old ≠ node)
    (hM : M (cfg.getKey node) = some old) :
    ∃ t₁ t₂, insertOrReplaceInBucket cfg t node (cfg.home p node) = some (some old, t₁) ∧
      insertOrReplaceInBucket cfg t₁ old (cfg.home p node) = some (some node, t₂) ∧
      t₂.accessible = t.accessible ∧ t₂.numKeys = t.numKeys ∧ Linked cfg t₂ M chain := by
  have holdkey : cfg.getKey old = cfg.getKey node := h.keyed _ _ hM
  have hhome : cfg.home p old = cfg.home p node := by rw [Config.home, holdkey]
  have hfresh : node ∉ chain (cfg.home p node) := by
    grind [h.mem (cfg.home p node) node]
  obtain ⟨t₁, h₁, hacc₁, hnum₁, hl₁⟩ := h.replace hM
  have hM₁ : update M (cfg.getKey node) (some node) (cfg.getKey old) = some node := by
    rw [holdkey, update_self]
  obtain ⟨t₂, h₂, hacc₂, hnum₂, hl₂⟩ := hl₁.replace hM₁
  rw [hhome] at h₂
  refine ⟨t₁, t₂, h₁, h₂, hacc₂.trans hacc₁, hnum₂.trans hnum₁, ?_⟩
  rw [holdkey, hhome, update_self, substitute_back hfresh, update_idem,
    update_idem, update_eq_self, ← hM, update_eq_self] at hl₂
  exact hl₂

section
variable (h : Refines cfg t M chain)
include h

lemma simulates_insertOrReplace (node : ν) (throws : Bool) :
    Simulates cfg t M (.insertOrReplace node throws) := by
  by_cases hself : M (cfg.getKey node) = some node
  · have hacc := (h.accessible node).2 hself
    refine Simulates.intro (r := .handle none) (by simp [specCall, hself]) ?_ h
    simp [call, insertOrReplace, hacc, handleMaker]
  have hacc := h.accessible_false node hself
  cases hM : M (cfg.getKey node) with
  | none =>
    obtain ⟨t₁, hins, hacc₁, hnum₁, hlinked⟩ := h.toLinked.insert_or_replace node
    simp only [linkedChain, hM] at hlinked
    refine Simulates.intro (r := .handle none) (by simp [specCall, hM]) ?_
      (h.link_fresh hM (length_cons ..) hacc₁ hnum₁ hlinked)
    simp [call, insertOrReplace, hacc, hins, hM, handleMaker, markAccessible]
  | some old =>
    have hne : old ≠ node := fun he => hself (by rw [hM, he])
    cases throws with
    | false =>
      obtain ⟨t₁, hins, hacc₁, hnum₁, hlinked⟩ := h.toLinked.replace hM
      refine Simulates.intro (r := .handle (some old)) (by simp [specCall, hM, hne]) ?_
        (h.link_over hM (update (update t₁.accessible node true) old false)
          (fun n => by grind) hnum₁ hlinked)
      simp [call, insertOrReplace, hacc, hins, handleMaker, markAccessible, unmarkAccessible]
    | true =>
      obtain ⟨t₁, t₂, h₁, h₂, hacc₂, hnum₂, hlinked⟩ := h.toLinked.put_back hne hM
      refine Simulates.intro (r := .exception) (by simp [specCall, hM, hne]) ?_
        ⟨hlinked, hacc₂ ▸ h.accessible, hnum₂ ▸ h.numKeys⟩
      simp [call, insertOrReplace, hacc, h₁, h₂]

lemma simulates_replaceIf {o n : ν} (predicate : Bool)
    (hkey : cfg.getKey o = cfg.getKey n) : Simulates cfg t M (.replaceIf o n predicate) := by
  by_cases hM : M (cfg.getKey o) = some o ∧ predicate = true
  · obtain ⟨hM, rfl⟩ := hM
    have hacc := (h.accessible o).2 hM
    rw [hkey] at hM
    obtain ⟨t₁, hins, hacc₁, hnum₁, hlinked⟩ := h.toLinked.replace hM
    refine Simulates.intro (r := .bool true) (by simp [specCall, hM, hkey]) ?_
      (h.link_over hM (update (update t₁.accessible o false) n true)
        (fun m => by grind) hnum₁ hlinked)
    simp [call, replaceIf, hacc, hins, markAccessible, unmarkAccessible]
  · refine Simulates.intro (r := .bool false) (by simp only [specCall, if_neg hM]) ?_ h
    simp [call, replaceIf, h.guard_false hM]

lemma simulates_remove (node : ν) : Simulates cfg t M (.remove node) := by
  by_cases hM : M (cfg.getKey node) = some node
  · have hacc := (h.accessible node).2 hM
    obtain ⟨t', chain', hrem, href⟩ := h.unlink hM
    refine Simulates.intro (r := .bool true) (by simp [specCall, hM]) ?_ href
    simp [call, remove, hacc, hrem, unmarkAccessible]
  · refine Simulates.intro (r := .bool false) (by simp only [specCall, if_neg hM]) ?_ h
    simp [call, remove, h.accessible_false node hM]

lemma simulates_removeIf (node : ν) (predicate throws : Bool) :
    Simulates cfg t M (.removeIf node predicate throws) := by
  by_cases hM : M (cfg.getKey node) = some node ∧ predicate = true
  · obtain ⟨hM, rfl⟩ := hM
    have hacc := (h.accessible node).2 hM
    cases throws with
    | true =>
      refine Simulates.intro (r := .exception) (by simp [specCall, hM]) ?_ h
      simp [call, removeIf, hacc]
    | false =>
      obtain ⟨t', chain', hrem, href⟩ := h.unlink hM
      refine Simulates.intro (r := .handle (some node)) (by simp [specCall, hM]) ?_ href
      simp [call, removeIf, hacc, hrem, unmarkAccessible, handleMaker]
  · refine Simulates.intro (r := .handle none) (by simp only [specCall, if_neg hM]) ?_ h
    simp [call, removeIf, h.guard_false hM, handleMaker]

lemma simulates_call (op : Op K ν) (hop : op.SameKey cfg) : Simulates cfg t M op := by
  cases op with
  | insert node => exact simulates_insert h node
  | insertOrReplace node throws => exact simulates_insertOrReplace h node throws
  | replaceIf o n predicate => exact simulates_replaceIf h predicate hop
  | replaceIfAccessible o n => 
    simpa [Simulates, specCall, call, replaceIfAccessible] using simulates_replaceIf h true hop
  | remove node => exact simulates_remove h node
  | removeIf node predicate throws => exact simulates_removeIf h node predicate throws
  | find k throws =>
    refine Simulates.intro rfl ?_ h
    simp [call, find, h.findInBucket_eq]

end

lemma refines_empty (cfg : Config K ν) (p : ℕ) :
    Refines cfg (Table.empty ν p) (fun _ => none) (fun _ => []) := by
  refine ⟨⟨fun _ => rfl, fun _ => nodup_nil, ?_, ?_⟩, ?_, ?_⟩ <;> simp [Table.empty]

/-- The table holds the map and the same results were returned. -/
def Agrees (cfg : Config K ν) (s : Table ν p × List (Result ν))
    (m : (K → Option ν) × List (Result ν)) : Prop :=
  (∃ chain, Refines cfg s.1 m.1 chain) ∧ s.2 = m.2

lemma step_agrees (cfg : Config K ν) (s : Table ν p × List (Result ν))
    (m : (K → Option ν) × List (Result ν)) (op : Op K ν) (hop : op.SameKey cfg)
    (h : Agrees cfg s m) : ∃ s', step cfg s op = some s' ∧ Agrees cfg s' (specStep cfg m op) := by
  obtain ⟨⟨chain, href⟩, hres⟩ := h
  obtain ⟨t', chain', hcall, href'⟩ := simulates_call href op hop
  refine ⟨(t', s.2 ++ [(specCall cfg m.1 op).1]), by simp [step, hcall], ⟨chain', href'⟩, ?_⟩
  rw [hres]
  rfl

/-- The container and the map after a sequence of calls, with the same results. -/
lemma run_refines (cfg : Config K ν) (p : ℕ) (ops : List (Op K ν))
    (hops : ∀ op ∈ ops, op.SameKey cfg) :
    ∃ t chain, run (step cfg) (Table.empty ν p, []) ops = some (t, (specRun cfg ops).2) ∧
      Refines cfg t (specRun cfg ops).1 chain := by
  have hinit : Agrees cfg (Table.empty ν p, []) (fun _ => none, []) :=
    ⟨⟨fun _ => [], refines_empty cfg p⟩, rfl⟩
  obtain ⟨⟨t, results⟩, hrun, ⟨chain, href⟩, hres⟩ := run_simulation (step_agrees cfg) hops hinit
  refine ⟨t, chain, ?_, href⟩
  rw [hrun]
  exact congrArg (fun r => some (t, r)) hres

lemma Linked.keys_nodup (h : Linked cfg t M chain) (b : Fin (2 ^ p)) :
    ((chain b).map cfg.getKey).Nodup := by
  refine List.Nodup.map_on (fun m hm n hn he => ?_) (h.nodup b)
  have hm' := ((h.mem b m).1 hm).2
  have hn' := ((h.mem b n).1 hn).2
  grind

lemma Linked.hashTable_eq (h : Linked cfg t M chain)
    (h' : Linked cfg t' M chain) : t'.hashTable = t.hashTable := by
  funext b
  have hs := h.segment b
  have hs' := h'.segment b
  cases hl : chain b with
  | nil => exact (hl ▸ hs').trans (hl ▸ hs).symm
  | cons n l => exact (hl ▸ hs').1.trans (hl ▸ hs).1.symm

/-- A call of `insertOrReplace` that throws leaves the container as it was. -/
lemma Refines.insertOrReplace_throws (h : Refines cfg t M chain) {throws : Bool}
    (hcall : insertOrReplace cfg t node throws = some (.exception, t')) :
    t'.hashTable = t.hashTable ∧ Linked cfg t' M chain ∧ t'.accessible = t.accessible ∧
      t'.numKeys = t.numKeys := by
  obtain ⟨t₁, chain₁, hcall₁, -⟩ := simulates_insertOrReplace h node throws
  rw [call, hcall] at hcall₁
  have hspec : (specCall cfg M (.insertOrReplace node throws)).1 = .exception :=
    (congrArg Prod.fst (Option.some.inj hcall₁)).symm
  -- the specification throws only for a key that another node holds
  have hcase : ∃ old, M (cfg.getKey node) = some old ∧ old ≠ node ∧ throws = true := by
    simp only [specCall] at hspec
    split_ifs at hspec with hself hthrow
    obtain ⟨hsome, hthrows⟩ := Bool.and_eq_true_iff.1 hthrow
    obtain ⟨old, hold⟩ := Option.isSome_iff_exists.1 hsome
    exact ⟨old, hold, fun he => hself (by rw [hold, he]), hthrows⟩
  obtain ⟨old, hM, hne, rfl⟩ := hcase
  obtain ⟨t₁, t₂, h₁, h₂, hacc₂, hnum₂, hlinked⟩ := h.toLinked.put_back hne hM
  have hacc := h.accessible_false node (by rw [hM]; simpa using hne)
  have ht : t₂ = t' := by
    simpa [insertOrReplace, hacc, h₁, h₂] using hcall
  subst ht
  exact ⟨h.toLinked.hashTable_eq hlinked, hlinked, hacc₂, hnum₂⟩

end Chains

/-- The container is a finite map. For every sequence of calls whose replacements
name two nodes of one key, every call returns and its result is the map's; the
chains are acyclic, hold each key once and only keys of their bucket; a node is
flagged exactly if it is linked; the counter counts the linked nodes; a lookup
finds the node that the map holds; and a throwing `insertOrReplace` changes
neither heads, chains, flags nor counter. -/
theorem container_refines_map {K ν : Type*} [DecidableEq K] [DecidableEq ν] [Fintype ν]
    (cfg : Config K ν) (p : ℕ) (ops : List (Op K ν)) (hops : ∀ op ∈ ops, op.SameKey cfg) :
    ∃ (t : Table ν p) (chain : Fin (2 ^ p) → List ν),
      run (step cfg) (Table.empty ν p, []) ops = some (t, (specRun cfg ops).2) ∧
      (∀ b, Segment t.next (t.hashTable b) (chain b) none ∧ (chain b).Nodup ∧
        ((chain b).map cfg.getKey).Nodup ∧
        ∀ n ∈ chain b, getBucket cfg p (cfg.getKey n) = b) ∧
      (∀ n, t.accessible n = true ↔ n ∈ chain (getBucket cfg p (cfg.getKey n))) ∧
      (∀ k, findInBucket cfg t k (getBucket cfg p k) = some ((specRun cfg ops).1 k)) ∧
      t.numKeys = ∑ b, (chain b).length ∧
      (∀ node throws t', insertOrReplace cfg t node throws = some (.exception, t') →
        t'.hashTable = t.hashTable ∧
        (∀ b, Segment t'.next (t'.hashTable b) (chain b) none) ∧
        t'.accessible = t.accessible ∧ t'.numKeys = t.numKeys) := by
  obtain ⟨t, chain, hrun, h⟩ := run_refines cfg p ops hops
  refine ⟨t, chain, hrun, fun b => ⟨h.segment b, h.nodup b, h.keys_nodup b, fun n hn => ?_⟩,
    fun n => ?_, h.findInBucket_eq, h.numKeys, fun node throws t' hcall => ?_⟩
  · exact ((h.mem b n).1 hn).1
  · rw [h.accessible, h.mem]
    simp
  · obtain ⟨hheads, hlinked, hacc, hnum⟩ := h.insertOrReplace_throws hcall
    exact ⟨hheads, hlinked.segment, hacc, hnum⟩

/-- Two nodes of one key in a table of one bucket; the second insertion throws. -/
theorem container_refines_map_throwing : ∃ t : Table (Fin 3) 0,
      run (step ⟨fun n : Fin 3 => n.val / 2, id⟩) (Table.empty (Fin 3) 0, [])
        [.insert 2, .insert 0, .insertOrReplace 1 true, .replaceIf 0 1 true] =
          some (t, [.bool true, .bool true, .exception, .bool true]) ∧
      findInBucket ⟨fun n : Fin 3 => n.val / 2, id⟩ t 0 0 = some (some 1) ∧ t.numKeys = 2 := by
  obtain ⟨t, chain, hrun, -, -, hfind, -, -⟩ := container_refines_map
    ⟨fun n : Fin 3 => n.val / 2, id⟩ 0
    [.insert 2, .insert 0, .insertOrReplace 1 true, .replaceIf 0 1 true]
    (by simp [Op.SameKey])
  have hres : (specRun ⟨fun n : Fin 3 => n.val / 2, id⟩
    [.insert 2, .insert 0, .insertOrReplace 1 true, .replaceIf 0 1 true]).2 =
      [.bool true, .bool true, .exception, .bool true] := by decide
  have hmap : (specRun ⟨fun n : Fin 3 => n.val / 2, id⟩
    [.insert 2, .insert 0, .insertOrReplace 1 true, .replaceIf 0 1 true]).1 0 = some 1 := by decide
  have hnum : (run (step ⟨fun n : Fin 3 => n.val / 2, id⟩) (Table.empty (Fin 3) 0, [])
    [.insert 2, .insert 0, .insertOrReplace 1 true, .replaceIf 0 1 true]).map
      (fun r => r.1.numKeys) = some 2 := by decide
  refine ⟨t, by rw [hrun, hres], (hfind 0).trans (by rw [hmap]), ?_⟩
  rw [hrun] at hnum
  simpa using hnum

/-- A replacement by a node of another key: the old node stays in the chain
without its flag, and the counter misses the new one. -/
theorem replaceIf_other_key_unflags_linked : ∃ t : Table (Fin 2) 0,
      run (step ⟨fun n : Fin 2 => n.val, id⟩) (Table.empty (Fin 2) 0, [])
        [.insert 0, .replaceIf 0 1 true] = some (t, [.bool true, .bool true]) ∧
      Segment t.next (t.hashTable 0) [1, 0] none ∧ t.accessible 0 = false ∧ t.numKeys = 1 := by
  refine ⟨_, rfl, ?_, rfl, rfl⟩
  exact ⟨rfl, rfl, rfl⟩

end HybridCache.ChainedHashTable

import HybridCache.IntrusiveList

/-!
# Doubly linked lists threaded through hooks

`DList` keeps a head, a tail and a size; the links live in the hooks of the nodes,
so several lists may run through one set of hooks. `Linked d l` says that the walk
along the next-hooks visits `l` and the walk along the prev-hooks visits it backwards.
Exchanging the two directions (`mirror`) maps a list to its reverse, so that each
operation is verified in one direction only.
-/
namespace HybridCache

open IntrusiveList Function List

/-- The hooks of all nodes, with the head, tail and size of one list. -/
@[ext] structure DList (ν : Type*) where
  next : ν → Option ν
  prev : ν → Option ν
  head : Option ν
  tail : Option ν
  size : ℕ

namespace DList

variable {ν : Type*}

def empty : DList ν := ⟨fun _ => none, fun _ => none, none, none, 0⟩

def mirror (d : DList ν) : DList ν := ⟨d.prev, d.next, d.tail, d.head, d.size⟩

@[simp] theorem mirror_mirror (d : DList ν) : d.mirror.mirror = d := rfl

/-- The list holds exactly the nodes of `l`, in this order. -/
structure Linked (d : DList ν) (l : List ν) : Prop where
  nodup : l.Nodup
  size : d.size = l.length
  forward : Segment d.next d.head l none
  backward : Segment d.prev d.tail l.reverse none

theorem linked_empty : Linked (empty : DList ν) [] := ⟨List.nodup_nil, rfl, rfl, rfl⟩

variable {d : DList ν} {l l₁ l₂ : List ν} {n : ν}

theorem Linked.mirror (h : Linked d l) : Linked d.mirror l.reverse :=
  ⟨nodup_reverse.2 h.nodup, by rw [length_reverse]; exact h.size, h.backward,
    by rw [reverse_reverse]; exact h.forward⟩

theorem linked_of_mirror (h : Linked d.mirror l.reverse) : Linked d l := by
  have := h.mirror
  rwa [reverse_reverse, mirror_mirror] at this

theorem Linked.head_eq (h : Linked d l) : d.head = l.head? := by
  cases l with
  | nil => exact h.forward
  | cons n l => exact h.forward.1

theorem Linked.tail_eq (h : Linked d l) : d.tail = l.getLast? := by
  rw [← head?_reverse]
  exact h.mirror.head_eq

section
variable (h : Linked d (l₁ ++ n :: l₂))
include h

theorem Linked.next_eq : d.next n = l₂.head? := by
  obtain ⟨m, -, -, hl₂⟩ := segment_append.1 h.forward
  cases l₂ with
  | nil => exact hl₂
  | cons k l => exact hl₂.1

theorem Linked.prev_eq : d.prev n = l₁.getLast? := by
  have hm := h.mirror
  rw [reverse_append, reverse_cons, append_assoc] at hm
  rw [← head?_reverse]
  exact hm.next_eq

/-- Only a node with nothing before it is the head. -/
theorem Linked.head_iff : d.head = some n ↔ l₁ = [] := by
  rw [h.head_eq]
  cases l₁ with
  | nil => simp
  | cons k l =>
    have hne : k ≠ n := by
      rintro rfl
      exact (nodup_cons.1 h.nodup).1 (by simp)
    simp [hne]

end

theorem Linked.frame {e : DList ν} (h : Linked d l) (hhead : e.head = d.head)
    (htail : e.tail = d.tail) (hsize : e.size = d.size)
    (hnext : ∀ n ∈ l, e.next n = d.next n) (hprev : ∀ n ∈ l, e.prev n = d.prev n) :
    Linked e l := by
  refine ⟨h.nodup, hsize.trans h.size, ?_, ?_⟩
  · rw [hhead]
    exact segment_frame h.forward hnext
  · rw [htail]
    exact segment_frame h.backward fun n hn => hprev n (mem_reverse.1 hn)

/-- The node that an iterator reaches after `k` steps from the tail. -/
def fromTail (d : DList ν) : ℕ → Option ν
  | 0 => d.tail
  | k + 1 => (fromTail d k).bind d.prev

theorem Linked.fromTail_mem (h : Linked d l) {k : ℕ} (hn : fromTail d k = some n) : n ∈ l := by
  induction k generalizing n with
  | zero =>
    rw [fromTail, h.tail_eq] at hn
    exact mem_of_getLast? hn
  | succ k ih =>
    obtain ⟨m, hm, hprev⟩ := Option.bind_eq_some_iff.1 hn
    obtain ⟨l₁, l₂, rfl⟩ := append_of_mem (ih hm)
    rw [h.prev_eq] at hprev
    exact mem_append_left _ (mem_of_getLast? hprev)

section Operations
variable [DecidableEq ν]

/-- Write `value` into the hook of the node that `target` points to, if it points to one. -/
def setHook (hook : ν → Option ν) (target value : Option ν) : ν → Option ν :=
  match target with
  | some q => update hook q value
  | none => hook

variable {m n : ν} {d : DList ν} {l l₁ l₂ : List ν}

theorem setHook_of_ne {hook : ν → Option ν} {target value : Option ν}
    (hm : target ≠ some m) : setHook hook target value m = hook m := by
  cases target with
  | none => rfl
  | some q => exact update_of_ne (fun h => hm (by rw [h])) _ _

theorem setHook_update {hook : ν → Option ν} {target value v : Option ν} (hm : target ≠ some m) :
    setHook (update hook m v) target value = update (setHook hook target value) m v := by
  cases target with
  | none => rfl
  | some q => exact update_comm (fun h => hm (by rw [h])) _ _ _

/-- Linking behind `target` writes into its hook, or into the anchor when it is null. -/
theorem relink_eq (hook : ν → Option ν) (anchor target value : Option ν) :
    relink hook anchor target value =
      (setHook hook target value, if target = none then value else anchor) := by
  cases target with
  | none => rfl
  | some q => rfl

def linkAtHead (d : DList ν) (node : ν) : DList ν where
  next := update d.next node d.head
  prev := setHook (update d.prev node none) d.head (some node)
  head := some node
  tail := if d.tail = none then some node else d.tail
  size := d.size + 1

def linkAtTail (d : DList ν) (node : ν) : DList ν where
  next := setHook (update d.next node none) d.tail (some node)
  prev := update d.prev node d.tail
  head := if d.head = none then some node else d.head
  tail := some node
  size := d.size + 1

def insertBefore (d : DList ν) (nextNode node : ν) : DList ν where
  next := update (setHook d.next (d.prev nextNode) (some node)) node (some nextNode)
  prev := update (update d.prev node (d.prev nextNode)) nextNode (some node)
  head := if d.prev nextNode = none then some node else d.head
  tail := d.tail
  size := d.size + 1

def unlink (d : DList ν) (node : ν) : DList ν where
  next := setHook d.next (d.prev node) (d.next node)
  prev := setHook d.prev (d.next node) (d.prev node)
  head := if d.head = some node then d.next node else d.head
  tail := if d.tail = some node then d.prev node else d.tail
  size := d.size - 1

def remove (d : DList ν) (node : ν) : DList ν :=
  let e := unlink d node
  { e with next := update e.next node none, prev := update e.prev node none }

def replace (d : DList ν) (oldNode newNode : ν) : DList ν where
  next := update (update (setHook d.next (d.prev oldNode) (some newNode))
    newNode (d.next oldNode)) oldNode none
  prev := update (update (setHook d.prev (d.next oldNode) (some newNode))
    newNode (d.prev oldNode)) oldNode none
  head := if d.head = some oldNode then some newNode else d.head
  tail := if d.tail = some oldNode then some newNode else d.tail
  size := d.size

def moveToHead (d : DList ν) (node : ν) : DList ν :=
  if d.head = some node then d else linkAtHead (unlink d node) node

theorem Linked.linkAtHead (h : Linked d l) (hn : n ∉ l) : Linked (linkAtHead d n) (n :: l) := by
  have hhead : d.head ≠ some n := by
    rw [h.head_eq]
    exact fun he => hn (mem_of_head? he)
  refine ⟨nodup_cons.2 ⟨hn, h.nodup⟩, congrArg (· + 1) h.size, ⟨rfl, ?_⟩, ?_⟩
  · have hnext : (DList.linkAtHead d n).next n = d.head := update_self ..
    rw [hnext]
    exact segment_frame h.forward fun m hm =>
      update_of_ne (ne_of_mem_of_not_mem hm hn) _ _
  · have hb : Segment d.prev d.tail (l.reverse ++ []) none := by
      rw [append_nil]
      exact h.backward
    have hs := segment_insert hb (by simpa using h.nodup) (by simpa using hn)
    rw [getLast?_reverse, ← h.head_eq, relink_eq] at hs
    rw [DList.linkAtHead, reverse_cons, setHook_update hhead]
    have hnull : (d.tail = none) = (d.head = none) := by
      rw [h.head_eq, h.tail_eq]
      simp
    simp only [hnull]
    exact hs

theorem Linked.linkAtTail (h : Linked d l) (hn : n ∉ l) : Linked (linkAtTail d n) (l ++ [n]) := by
  have hm := h.mirror.linkAtHead (n := n) (by simpa using hn)
  refine linked_of_mirror ?_
  rw [reverse_append]
  exact hm

theorem Linked.insertBefore {m n : ν} (h : Linked d (l₁ ++ m :: l₂)) (hn : n ∉ l₁ ++ m :: l₂) :
    Linked (insertBefore d m n) (l₁ ++ n :: m :: l₂) := by
  have hne : n ≠ m := fun he => hn (by simp [he])
  refine ⟨?_, ?_, ?_, ?_⟩
  · exact nodup_middle.2 (nodup_cons.2 ⟨hn, h.nodup⟩)
  · rw [DList.insertBefore, h.size]
    simp only [length_append, length_cons]
    omega
  · have hs := segment_insert h.forward h.nodup hn
    rw [← h.prev_eq, relink_eq] at hs
    exact hs
  · have hb := h.backward
    rw [reverse_append, reverse_cons] at hb
    have hnd := nodup_reverse.2 h.nodup
    rw [reverse_append, reverse_cons] at hnd
    have hs := segment_insert hb hnd (m := n) (by
      intro hmem
      refine hn ?_
      rw [← mem_reverse, reverse_append, reverse_cons]
      exact hmem)
    rw [getLast?_concat, relink_eq, head?_reverse, ← h.prev_eq] at hs
    rw [reverse_append, reverse_cons, reverse_cons, append_assoc,
      append_assoc, DList.insertBefore, update_comm hne]
    rw [append_assoc] at hs
    exact hs

section
variable (h : Linked d (l₁ ++ n :: l₂))
include h

theorem unlink_forward : Segment (unlink d n).next (unlink d n).head (l₁ ++ l₂) none := by
  have hs := segment_remove h.forward h.nodup
  rw [← h.prev_eq, relink_eq] at hs
  have hhead : (d.prev n = none) = (d.head = some n) := by
    rw [h.prev_eq, getLast?_eq_none_iff, h.head_iff]
  simp only [hhead] at hs
  exact hs

theorem Linked.unlink : Linked (unlink d n) (l₁ ++ l₂) := by
  have hm := h.mirror
  rw [reverse_append, reverse_cons, append_assoc] at hm
  refine ⟨(nodup_middle.1 h.nodup).of_cons, ?_, unlink_forward h, ?_⟩
  · rw [DList.unlink, h.size]
    simp
  · rw [reverse_append]
    exact unlink_forward hm

theorem Linked.remove : Linked (remove d n) (l₁ ++ l₂) := by
  have hn : n ∉ l₁ ++ l₂ := (nodup_cons.1 (nodup_middle.1 h.nodup)).1
  refine h.unlink.frame rfl rfl rfl ?_ ?_
  · exact fun m hm => update_of_ne (ne_of_mem_of_not_mem hm hn) _ _
  · exact fun m hm => update_of_ne (ne_of_mem_of_not_mem hm hn) _ _

end

section
variable {n m : ν} (h : Linked d (l₁ ++ n :: l₂)) (hm : m ∉ l₁ ++ n :: l₂)
include h hm

theorem replace_forward :
    Segment (replace d n m).next (replace d n m).head (l₁ ++ m :: l₂) none := by
  have hs := segment_replace h.forward h.nodup (m := m) (fun hmem => hm (by
    rcases mem_append.1 hmem with hmem | hmem <;> simp [hmem]))
  have hprev : d.prev n ≠ some n := by
    rw [h.prev_eq]
    intro hlast
    exact (nodup_append.1 h.nodup).2.2 n (mem_of_getLast? hlast) n (by simp) rfl
  rw [← h.prev_eq, relink_eq] at hs
  have hhead : (d.prev n = none) = (d.head = some n) := by
    rw [h.prev_eq, getLast?_eq_none_iff, h.head_iff]
  simp only [hhead, setHook_of_ne hprev] at hs
  refine segment_frame hs fun k hk => update_of_ne ?_ _ _
  rintro rfl
  rcases mem_append.1 hk with hk | hk
  · exact (nodup_append.1 h.nodup).2.2 k hk k (by simp) rfl
  · rcases mem_cons.1 hk with rfl | hk
    · exact hm (by simp)
    · exact (nodup_cons.1 (nodup_append.1 h.nodup).2.1).1 hk

theorem Linked.replace : Linked (replace d n m) (l₁ ++ m :: l₂) := by
  have hmir := h.mirror
  rw [reverse_append, reverse_cons, append_assoc] at hmir
  have hm' : m ∉ l₁ ++ l₂ := fun hmem => hm (by
    rcases mem_append.1 hmem with hmem | hmem <;> simp [hmem])
  refine ⟨?_, ?_, replace_forward h hm, ?_⟩
  · exact nodup_middle.2 (nodup_cons.2 ⟨hm', (nodup_middle.1 h.nodup).of_cons⟩)
  · rw [DList.replace, h.size]
    simp
  · rw [reverse_append, reverse_cons, append_assoc]
    refine replace_forward hmir ?_
    intro hmem
    refine hm ?_
    rw [← mem_reverse, reverse_append, reverse_cons, append_assoc]
    exact hmem

end

theorem Linked.moveToHead {n : ν}
    (h : Linked d (l₁ ++ n :: l₂)) : Linked (moveToHead d n) (n :: (l₁ ++ l₂)) := by
  have hn : n ∉ l₁ ++ l₂ := (nodup_cons.1 (nodup_middle.1 h.nodup)).1
  rw [DList.moveToHead]
  by_cases hhead : d.head = some n
  · rw [if_pos hhead]
    rw [h.head_iff] at hhead
    subst hhead
    exact h
  · rw [if_neg hhead]
    exact h.unlink.linkAtHead hn

section
variable (h : Linked d l) (hn : n ∈ l)
include h hn

theorem Linked.remove_erase :
    Linked (DList.remove d n) (l.erase n) := by
  obtain ⟨l₁, l₂, hn₁, rfl, he⟩ := exists_erase_eq hn
  rw [he]
  exact h.remove

theorem Linked.moveToHead_erase : Linked (DList.moveToHead d n) (n :: l.erase n) := by
  obtain ⟨l₁, l₂, hn₁, rfl, he⟩ := exists_erase_eq hn
  rw [he]
  exact h.moveToHead

theorem Linked.replace_substitute (hm : m ∉ l) : Linked (DList.replace d n m) (substitute n m l) := by
  obtain ⟨l₁, l₂, rfl⟩ := append_of_mem hn
  rw [substitute_split h.nodup]
  exact h.replace hm

end

/-- The hooks of the nodes outside `l` are the same in `d` and `e`. -/
def SameOutside (d e : DList ν) (l : List ν) : Prop :=
  ∀ m ∉ l, e.next m = d.next m ∧ e.prev m = d.prev m

theorem Linked.linkAtHead_outside (h : Linked d l) :
    SameOutside d (DList.linkAtHead d n) (n :: l) := by
  intro m hm
  have hne : m ≠ n := fun he => hm (by simp [he])
  refine ⟨update_of_ne hne _ _, ?_⟩
  have hhead : d.head ≠ some m := by
    rw [h.head_eq]
    exact fun he => hm (by simp [mem_of_head? he])
  exact (setHook_of_ne hhead).trans (update_of_ne hne _ _)

theorem Linked.linkAtTail_outside (h : Linked d l) :
    SameOutside d (DList.linkAtTail d n) (l ++ [n]) := by
  intro m hm
  have hmirror : m ∉ n :: l.reverse := by simpa [or_comm] using hm
  exact (h.mirror.linkAtHead_outside m hmirror).symm

theorem Linked.unlink_outside (h : Linked d l) (hn : n ∈ l) :
    SameOutside d (DList.unlink d n) l := by
  obtain ⟨l₁, l₂, rfl⟩ := append_of_mem hn
  intro m hm
  refine ⟨setHook_of_ne ?_, setHook_of_ne ?_⟩
  · rw [h.prev_eq]
    exact fun he => hm (by simp [mem_of_getLast? he])
  · rw [h.next_eq]
    exact fun he => hm (by simp [mem_of_head? he])

theorem Linked.remove_outside (h : Linked d l) (hn : n ∈ l) :
    SameOutside d (DList.remove d n) l := by
  intro m hm
  have hne : m ≠ n := fun he => hm (he ▸ hn)
  obtain ⟨hnext, hprev⟩ := h.unlink_outside hn m hm
  exact ⟨(update_of_ne hne _ _).trans hnext, (update_of_ne hne _ _).trans hprev⟩

theorem Linked.replace_outside {k : ν} (h : Linked d l)
    (hn : n ∈ l) : SameOutside d (DList.replace d n k) (k :: l) := by
  intro m hm
  have hk : m ≠ k := fun he => hm (by simp [he])
  have hl : m ∉ l := fun he => hm (by simp [he])
  have hne : m ≠ n := fun he => hl (he ▸ hn)
  obtain ⟨l₁, l₂, rfl⟩ := append_of_mem hn
  have hprev : d.prev n ≠ some m := by
    rw [h.prev_eq]
    exact fun he => hl (by simp [mem_of_getLast? he])
  have hnext : d.next n ≠ some m := by
    rw [h.next_eq]
    exact fun he => hl (by simp [mem_of_head? he])
  simp only [DList.replace, update_of_ne hne, update_of_ne hk,
    setHook_of_ne hprev, setHook_of_ne hnext, and_self]

theorem Linked.moveToHead_outside (h : Linked d l)
    (hn : n ∈ l) : SameOutside d (DList.moveToHead d n) l := by
  intro m hm
  rw [DList.moveToHead]
  by_cases hhead : d.head = some n
  · rw [if_pos hhead]
    exact ⟨rfl, rfl⟩
  · rw [if_neg hhead]
    obtain ⟨hnext, hprev⟩ := h.unlink_outside hn m hm
    obtain ⟨l₁, l₂, rfl⟩ := append_of_mem hn
    have hm' : m ∉ n :: (l₁ ++ l₂) := fun hmem => hm (mem_cons.1 hmem |>.elim
      (fun he => by simp [he]) fun he => by
        rcases mem_append.1 he with he | he <;> simp [he])
    obtain ⟨hnext', hprev'⟩ := h.unlink.linkAtHead_outside m hm'
    exact ⟨hnext'.trans hnext, hprev'.trans hprev⟩

end Operations
end DList
end HybridCache

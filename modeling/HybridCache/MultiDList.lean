import HybridCache.DList

/-!
# Several doubly linked lists through one set of hooks

Every list has a head, a tail and a size of its own; the hooks are shared, since they
live in the nodes. A node may be in one list at a time. An operation on one list then
leaves the others alone, which is what `Lists` carries through each operation.
-/
set_option linter.unusedSectionVars false

namespace HybridCache

open IntrusiveList Function List

/-- The hooks of all nodes and the lists, numbered by `ι`. -/
structure MultiDList (ι ν : Type*) where
  next : ν → Option ν
  prev : ν → Option ν
  head : ι → Option ν
  tail : ι → Option ν
  size : ι → ℕ

namespace MultiDList

variable {ι ν : Type*}

def empty : MultiDList ι ν :=
  ⟨fun _ => none, fun _ => none, fun _ => none, fun _ => none, fun _ => 0⟩

def getList (m : MultiDList ι ν) (i : ι) : DList ν :=
  ⟨m.next, m.prev, m.head i, m.tail i, m.size i⟩

def totalSize [Fintype ι] (m : MultiDList ι ν) : ℕ := ∑ i, m.size i

variable [DecidableEq ι]

def setList (m : MultiDList ι ν) (i : ι) (d : DList ν) : MultiDList ι ν where
  next := d.next
  prev := d.prev
  head := update m.head i d.head
  tail := update m.tail i d.tail
  size := update m.size i d.size

@[simp] theorem getList_setList (m : MultiDList ι ν) (i : ι) (d : DList ν) :
    (m.setList i d).getList i = d := by
  simp [getList, setList]

theorem getList_setList_of_ne {m : MultiDList ι ν} {i j : ι} (d : DList ν) (h : j ≠ i) :
    (m.setList i d).getList j = { m.getList j with next := d.next, prev := d.prev } := by
  simp [getList, setList, h]

def edit (m : MultiDList ι ν) (i : ι) (f : DList ν → DList ν) : MultiDList ι ν :=
  m.setList i (f (m.getList i))

/-- The lists hold the nodes of `L` and no node is in two lists. -/
structure Lists (m : MultiDList ι ν) (L : ι → List ν) : Prop where
  linked : ∀ i, (m.getList i).Linked (L i)
  unique : ∀ i j n, n ∈ L i → n ∈ L j → i = j

theorem lists_empty : Lists (empty : MultiDList ι ν) fun _ => [] :=
  ⟨fun _ => DList.linked_empty, by simp⟩

/-- An operation that touches only hooks of its own list and of nodes outside all lists. -/
theorem Lists.edit {m : MultiDList ι ν} {L : ι → List ν} (h : Lists m L) {i : ι}
    {f : DList ν → DList ν} {touched l : List ν} (hl : (f (m.getList i)).Linked l)
    (hout : DList.SameOutside (m.getList i) (f (m.getList i)) touched)
    (htouched : ∀ n ∈ touched, ∀ j, j ≠ i → n ∉ L j) (hsub : ∀ n ∈ l, n ∈ touched) :
    Lists (m.edit i f) (update L i l) := by
  refine ⟨?_, ?_⟩
  · intro j
    rw [MultiDList.edit]
    by_cases hj : j = i
    · subst hj
      rw [getList_setList, update_self]
      exact hl
    · rw [getList_setList_of_ne _ hj, update_of_ne hj]
      refine (h.linked j).frame rfl rfl rfl ?_ ?_
      · intro n hn
        exact (hout n fun ht => htouched n ht j hj hn).1
      · intro n hn
        exact (hout n fun ht => htouched n ht j hj hn).2
  · intro j k n hj hk
    by_cases hji : j = i
    · subst hji
      by_cases hkj : k = j
      · exact hkj.symm
      · rw [update_self] at hj
        rw [update_of_ne hkj] at hk
        exact absurd hk (htouched n (hsub n hj) k hkj)
    · rw [update_of_ne hji] at hj
      by_cases hki : k = i
      · subst hki
        rw [update_self] at hk
        exact absurd hj (htouched n (hsub n hk) j hji)
      · rw [update_of_ne hki] at hk
        exact h.unique j k n hj hk

section Operations
variable [DecidableEq ν] {m : MultiDList ι ν} {L : ι → List ν} {i j : ι} {n k : ν}

section
variable (h : Lists m L)
include h

theorem Lists.not_mem_other (hn : n ∈ L i) (hj : j ≠ i) :
    n ∉ L j := fun hn' => hj (h.unique j i n hn' hn)

theorem Lists.remove (hn : n ∈ L i) : Lists (m.edit i (·.remove n)) (update L i ((L i).erase n)) :=
  h.edit ((h.linked i).remove_erase hn) ((h.linked i).remove_outside hn)
    (fun _ hk _ hj => h.not_mem_other hk hj) (fun _ hk => mem_of_mem_erase hk)

theorem Lists.moveToHead (hn : n ∈ L i) :
    Lists (m.edit i (·.moveToHead n)) (update L i (n :: (L i).erase n)) := by
  refine h.edit ((h.linked i).moveToHead_erase hn) ((h.linked i).moveToHead_outside hn)
    (fun _ hk _ hj => h.not_mem_other hk hj) ?_
  intro k hk
  exact (perm_cons_erase hn).mem_iff.2 hk

theorem Lists.linkAtHead (i : ι) (hn : ∀ j, n ∉ L j) :
    Lists (m.edit i (·.linkAtHead n)) (update L i (n :: L i)) := by
  refine h.edit ((h.linked i).linkAtHead (hn i)) (h.linked i).linkAtHead_outside ?_ (fun _ hk => hk)
  intro k hk j hj
  rcases mem_cons.1 hk with rfl | hk
  · exact hn j
  · exact h.not_mem_other hk hj

theorem Lists.linkAtTail (i : ι) (hn : ∀ j, n ∉ L j) :
    Lists (m.edit i (·.linkAtTail n)) (update L i (L i ++ [n])) := by
  refine h.edit ((h.linked i).linkAtTail (hn i)) ?_ ?_ (fun _ hk => hk)
  · intro k hk
    refine (h.linked i).linkAtTail_outside k ?_
    simpa [or_comm] using hk
  · intro k hk j hj
    rcases mem_append.1 hk with hk | hk
    · exact h.not_mem_other hk hj
    · rw [mem_singleton.1 hk]
      exact hn j

theorem Lists.replace (hn : n ∈ L i) (hk : ∀ j, k ∉ L j) :
    Lists (m.edit i (·.replace n k)) (update L i (substitute n k (L i))) := by
  have hne : k ≠ n := fun he => hk i (he ▸ hn)
  refine h.edit ((h.linked i).replace_substitute hn (hk i)) ((h.linked i).replace_outside hn) ?_ ?_
  · intro q hq j hj
    rcases mem_cons.1 hq with rfl | hq
    · exact hk j
    · exact h.not_mem_other hq hj
  · intro q hq
    rcases (mem_substitute hne).1 hq with ⟨rfl, -⟩ | ⟨-, hq⟩
    · simp
    · simp [hq]

end

/-! ### Where the nodes are after an operation -/

theorem mem_linked (t : ι) : k ∈ update L i (n :: L i) t ↔ (k = n ∧ t = i) ∨ k ∈ L t := by
  by_cases ht : t = i
  · subst ht
    simp
  · simp [ht]

theorem mem_headed (hn : n ∈ L i) (t : ι) :
    k ∈ update L i (n :: (L i).erase n) t ↔ k ∈ L t := by
  by_cases ht : t = i
  · subst ht
    rw [update_self]
    exact (perm_cons_erase hn).symm.mem_iff
  · rw [update_of_ne ht]

section
variable (h : Lists m L) (hn : n ∈ L i)
include h hn

theorem Lists.mem_removed (t : ι) :
    k ∈ update L i ((L i).erase n) t ↔ k ≠ n ∧ k ∈ L t := by
  by_cases ht : t = i
  · subst ht
    rw [update_self, (h.linked t).nodup.mem_erase_iff]
  · rw [update_of_ne ht]
    exact ⟨fun hk => ⟨fun he => h.not_mem_other hn ht (he ▸ hk), hk⟩, And.right⟩

theorem Lists.not_mem_removed (t : ι) : n ∉ update L i ((L i).erase n) t :=
  fun hmem => ((h.mem_removed hn t).1 hmem).1 rfl

theorem Lists.mem_replaced {q : ν} (hk : ∀ j, k ∉ L j) (t : ι) :
    q ∈ update L i (substitute n k (L i)) t ↔
      (q = k ∧ t = i) ∨ (q ≠ k ∧ q ≠ n ∧ q ∈ L t) := by
  have hne : k ≠ n := fun he => hk i (he ▸ hn)
  have hother : q ∈ L t → q ≠ k := fun hq he => hk t (he ▸ hq)
  by_cases ht : t = i
  · subst ht
    rw [update_self, mem_substitute hne]
    simp only [hn, and_true]
    exact or_congr_right ⟨fun hq => ⟨hother hq.2, hq⟩, And.right⟩
  · have hold : q ∈ L t → q ≠ n := fun hq he => h.not_mem_other hn ht (he ▸ hq)
    simp only [update_of_ne ht, ht, and_false, false_or]
    exact ⟨fun hq => ⟨hother hq, hold hq, hq⟩, fun hq => hq.2.2⟩

end

/-! A flag that tells which nodes are in a list follows the operation. -/

section
variable {inside : ν → Bool} (hinside : ∀ n, inside n = true ↔ ∃ t, n ∈ L t)
include hinside

theorem member_linked (i : ι) (n k : ν) :
    update inside n true k = true ↔ ∃ t, k ∈ update L i (n :: L i) t := by
  simp only [mem_linked]
  by_cases hk : k = n
  · simp [hk]
  · simp [hk, hinside]

theorem Lists.member_removed (h : Lists m L) (hn : n ∈ L i) (k : ν) :
    update inside n false k = true ↔ ∃ t, k ∈ update L i ((L i).erase n) t := by
  simp only [h.mem_removed hn]
  by_cases hk : k = n
  · simp [hk]
  · simp [hk, hinside]

theorem Lists.member_replaced (h : Lists m L) (hn : n ∈ L i) (hk : ∀ j, k ∉ L j) (q : ν) :
    update (update inside n false) k true q = true ↔
      ∃ t, q ∈ update L i (substitute n k (L i)) t := by
  simp only [h.mem_replaced hn hk]
  by_cases hqk : q = k
  · simp [hqk]
  · by_cases hqn : q = n
    · have hne : n ≠ k := fun he => hqk (hqn.trans he)
      simp [hqn, hne]
    · simp [hqk, hqn, hinside]

end

/-- Take a node out of one list and link it at the head of another. -/
def transfer (m : MultiDList ι ν) (n : ν) (i j : ι) : MultiDList ι ν :=
  (m.edit i (·.remove n)).edit j (·.linkAtHead n)

def transferred (L : ι → List ν) (n : ν) (i j : ι) : ι → List ν :=
  update (update L i ((L i).erase n)) j (n :: L j)

section
variable (h : Lists m L) (hn : n ∈ L i) (hj : j ≠ i)
include h hn hj

theorem Lists.transfer : Lists (m.transfer n i j) (transferred L n i j) := by
  have := (h.remove hn).linkAtHead j (h.not_mem_removed hn)
  rw [update_of_ne hj] at this
  exact this

/-- The lists in which the nodes are after `n` has left list `i` for list `j`. -/
theorem mem_moved {l : List ν} (hl : k ∈ l ↔ k = n ∨ k ∈ L j) (t : ι) :
    k ∈ update (update L i ((L i).erase n)) j l t ↔ (k = n ∧ t = j) ∨ (k ≠ n ∧ k ∈ L t) := by
  by_cases ht : t = j
  · subst ht
    rw [update_self, hl]
    by_cases hk : k = n
    · simp [hk]
    · simp [hk]
  · rw [update_of_ne ht, h.mem_removed hn]
    simp [ht]

theorem mem_transferred (t : ι) : k ∈ transferred L n i j t ↔ (k = n ∧ t = j) ∨ (k ≠ n ∧ k ∈ L t) :=
  mem_moved h hn hj mem_cons t

end

/-- Take a node out of one list and link it at the tail of another. -/
def transferToTail (m : MultiDList ι ν) (n : ν) (i j : ι) : MultiDList ι ν :=
  (m.edit i (·.remove n)).edit j (·.linkAtTail n)

def transferredToTail (L : ι → List ν) (n : ν) (i j : ι) : ι → List ν :=
  update (update L i ((L i).erase n)) j (L j ++ [n])

theorem Lists.transferToTail (h : Lists m L) (hn : n ∈ L i) (hj : j ≠ i) :
    Lists (m.transferToTail n i j) (transferredToTail L n i j) := by
  have := (h.remove hn).linkAtTail j (h.not_mem_removed hn)
  rw [update_of_ne hj] at this
  exact this

theorem mem_transferredToTail (h : Lists m L) (hn : n ∈ L i) (hj : j ≠ i)
    (t : ι) : k ∈ transferredToTail L n i j t ↔ (k = n ∧ t = j) ∨ (k ≠ n ∧ k ∈ L t) :=
  mem_moved h hn hj (by rw [mem_append, mem_singleton, or_comm]) t

/-- A move between lists keeps the nodes. -/
theorem exists_mem_moved {M : ι → List ν} (hn : n ∈ L i)
    (hmoved : ∀ k t, k ∈ M t ↔ (k = n ∧ t = j) ∨ (k ≠ n ∧ k ∈ L t)) (k : ν) :
    (∃ t, k ∈ M t) ↔ ∃ t, k ∈ L t := by
  simp only [hmoved]
  constructor
  · rintro ⟨t, ⟨rfl, -⟩ | ⟨-, hk⟩⟩
    · exact ⟨i, hn⟩
    · exact ⟨t, hk⟩
  · rintro ⟨t, hk⟩
    by_cases hkn : k = n
    · exact ⟨j, .inl ⟨hkn, rfl⟩⟩
    · exact ⟨t, .inr ⟨hkn, hk⟩⟩

theorem Lists.tail_eq (h : Lists m L) (i : ι) : m.tail i = (L i).getLast? := (h.linked i).tail_eq

theorem Lists.size_eq (h : Lists m L) (i : ι) : m.size i = (L i).length := (h.linked i).size

theorem transferred_target (L : ι → List ν) (n : ν) (i j : ι) :
    transferred L n i j j = n :: L j := update_self _ _ _

theorem transferred_of_ne (L : ι → List ν) (n : ν) {t : ι} (hi : t ≠ i) (hj : t ≠ j) :
    transferred L n i j t = L t := by
  rw [transferred, update_of_ne hj, update_of_ne hi]

theorem Lists.transferred_source (h : Lists m L) (hn : m.tail i = some n)
    (hj : j ≠ i) : L i = transferred L n i j i ++ [n] := by
  obtain ⟨l, hl⟩ := getLast?_eq_some_iff.1 ((h.tail_eq i).symm.trans hn)
  have hnodup : (l ++ [n]).Nodup := hl ▸ (h.linked i).nodup
  have hout : n ∉ l := fun hmem =>
    disjoint_of_nodup_append hnodup hmem (mem_singleton_self n)
  rw [transferred, update_of_ne hj.symm, update_self, hl, erase_append_right _ hout]
  simp

end Operations
end MultiDList
end HybridCache

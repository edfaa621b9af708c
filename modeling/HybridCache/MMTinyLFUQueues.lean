import HybridCache.MMTinyLFU

/-!
# The two queues of the TinyLFU container

A node is in `Tiny` exactly if its tiny flag is set, and in `Main` if it is in the container
without the flag. Nodes outside the container have no tiny flag, so that `replace` does not have
to clear it. The iterator stands, in each list, before the nodes that it has not visited.
-/
set_option linter.unusedSectionVars false

namespace HybridCache.MMTinyLFU

open Container MultiDList MMLru Transition IntrusiveList Function List Option

variable {ν : Type*}

/-- The two lists hold the nodes of `L`, these are the nodes in the container, and every node is
in the list that its flag names and in no other. -/
structure Placed (s : Container ν) (L : LruType → List ν) : Prop where
  linked : ∀ t, (s.lru.getList t).Linked (L t)
  listed : ∀ t n, n ∈ L t → s.isInMMContainer n = true
  named : ∀ n, s.isInMMContainer n = true → ∀ t, n ∈ L t ↔ t = s.getLruType n

/-- The lists hold the nodes of `L`, and the flag is set in the nodes of `Tiny` only. -/
structure Agree (s : Container ν) (L : LruType → List ν) : Prop where
  lists : s.lru.Lists L
  tiny : ∀ n, s.isTiny n = true ↔ n ∈ L .Tiny

structure Good (s : Container ν) (L : LruType → List ν) : Prop extends Agree s L where
  member : ∀ n, s.isInMMContainer n = true ↔ ∃ t, n ∈ L t

lemma Good.init (config : Config) (now : ℕ) :
    Good (Container.init config now : Container ν) fun _ => [] where
  lists := lists_empty
  tiny := by simp [Container.init]
  member := by simp [Container.init]

section
variable {s : Container ν} {L : LruType → List ν} (h : Good s L)
include h

lemma Good.getLruType_eq {t : LruType}
    {n : ν} (hn : n ∈ L t) : s.getLruType n = t := by
  rw [getLruType]
  by_cases htiny : s.isTiny n = true
  · rw [if_pos htiny]
    exact h.lists.unique _ _ n ((h.tiny n).1 htiny) hn
  · rw [if_neg htiny]
    cases t with
    | Main => rfl
    | Tiny => exact absurd ((h.tiny n).2 hn) htiny

lemma Good.placed : Placed s L := by
  refine ⟨h.lists.linked, fun t n hn => (h.member n).2 ⟨t, hn⟩, ?_⟩
  intro n hn t
  obtain ⟨i, hi⟩ := (h.member n).1 hn
  rw [h.getLruType_eq hi]
  constructor
  · exact fun ht => h.lists.unique t i n ht hi
  · rintro rfl
    exact hi

end

/-- Times, access flags and the configuration do not matter. -/
lemma Good.congr {s u : Container ν} {L : LruType → List ν} (h : Good s L) (hlru : u.lru = s.lru)
    (htiny : u.isTiny = s.isTiny) (hin : u.isInMMContainer = s.isInMMContainer) : Good u L where
  lists := by
    rw [hlru]
    exact h.lists
  tiny := by
    rw [htiny]
    exact h.tiny
  member := by
    rw [hin]
    exact h.member

variable [DecidableEq ν] {s : Container ν} {L : LruType → List ν}

section Moves

lemma Agree.promoteTiny (h : Agree s L) {n : ν} (hn : n ∈ L .Tiny) :
    Agree (s.promoteTiny n) (transferred L n .Tiny .Main) where
  lists := h.lists.transfer hn (by decide)
  tiny := by
    intro k
    rw [mem_transferred h.lists hn (by decide)]
    change update s.isTiny n false k = true ↔ _
    by_cases hk : k = n
    · simp [hk]
    · rw [update_of_ne hk, h.tiny]
      simp [hk]

lemma Agree.demoteMain (h : Agree s L) {n : ν} (hn : n ∈ L .Main) :
    Agree (s.demoteMain n) (transferredToTail L n .Main .Tiny) where
  lists := h.lists.transferToTail hn (by decide)
  tiny := by
    intro k
    rw [mem_transferredToTail h.lists hn (by decide)]
    change update s.isTiny n true k = true ↔ _
    by_cases hk : k = n
    · simp [hk]
    · rw [update_of_ne hk, h.tiny]
      simp [hk]

lemma Agree.mem_tail (h : Agree s L) {t : LruType} {n : ν} (hn : s.lru.tail t = some n) :
    n ∈ L t := List.mem_of_getLast? ((h.lists.tail_eq t).symm.trans hn)

structure Moved (s u : Container ν) (L M : LruType → List ν) : Prop where
  nodes : ∀ n, (∃ t, n ∈ M t) ↔ ∃ t, n ∈ L t
  inContainer : u.isInMMContainer = s.isInMMContainer

lemma Good.moved {u : Container ν} {M : LruType → List ν} (h : Good s L) (hu : Agree u M)
    (hmoved : Moved s u L M) : Good u M where
  toAgree := hu
  member := by
    intro n
    rw [hmoved.inContainer, hmoved.nodes]
    exact h.member n

/-- A node moves to the head of its list. -/
lemma Agree.moveToHead (h : Agree s L) {t : LruType} {n : ν} (hn : n ∈ L t) :
    ∃ M, Agree { s with lru := s.lru.edit t (·.moveToHead n) } M ∧
      Moved s { s with lru := s.lru.edit t (·.moveToHead n) } L M := by
  refine ⟨_, ⟨h.lists.moveToHead hn, ?_⟩, ?_, rfl⟩
  · intro k
    rw [mem_headed hn]
    exact h.tiny k
  · intro k
    simp only [mem_headed hn]

lemma Agree.maybePromoteTailLocked (h : Agree s L) (freq : ν → ℕ) :
    ∃ M, Agree (s.maybePromoteTailLocked freq) M ∧ Moved s (s.maybePromoteTailLocked freq) L M := by
  rw [Container.maybePromoteTailLocked]
  split
  next mainNode tinyNode hmain htiny =>
    have hmainMem := h.mem_tail hmain
    have htinyMem := h.mem_tail htiny
    split_ifs
    · have hagree := h.promoteTiny htinyMem
      have hne : mainNode ≠ tinyNode := fun he =>
        h.lists.not_mem_other htinyMem (by decide : LruType.Main ≠ .Tiny) (he ▸ hmainMem)
      have hmem := fun k => mem_transferred (k := k) (j := .Main) h.lists htinyMem (by decide)
      have hstill : mainNode ∈ transferred L tinyNode .Tiny .Main .Main :=
        (hmem mainNode .Main).2 (.inr ⟨hne, hmainMem⟩)
      refine ⟨_, hagree.demoteMain hstill, ?_, rfl⟩
      intro k
      rw [exists_mem_moved hstill fun k =>
        mem_transferredToTail hagree.lists hstill (by decide)]
      exact exists_mem_moved htinyMem hmem k
    · exact h.moveToHead hmainMem
  · exact ⟨L, h, fun _ => Iff.rfl, rfl⟩

end Moves

section Operations

lemma Agree.linkTiny (h : Agree s L) {node : ν} (hnode : ∀ t, node ∉ L t) :
    Agree ({ s with lru := s.lru.edit .Tiny (·.linkAtHead node) }.markTiny node)
      (update L .Tiny (node :: L .Tiny)) where
  lists := h.lists.linkAtHead .Tiny hnode
  tiny := by
    intro k
    change update s.isTiny node true k = true ↔ _
    rw [update_self, mem_cons]
    by_cases hk : k = node
    · simp [hk]
    · rw [update_of_ne hk, h.tiny, or_iff_right hk]

lemma Agree.balance (h : Agree s L) {node : ν} (hnode : node ∈ L .Tiny) (freq : ν → ℕ) :
    ∃ u M, (if s.expectedSize < s.lru.size .Tiny then (s.lru.tail .Tiny).map s.promoteTiny
        else some (s.maybePromoteTailLocked freq)) = some u ∧ Agree u M ∧ Moved s u L M := by
  split_ifs
  · obtain ⟨n, hn⟩ : ∃ n, s.lru.tail .Tiny = some n := by
      rw [h.lists.tail_eq]
      exact ⟨_, getLast?_eq_getLast_of_ne_nil (ne_nil_of_mem hnode)⟩
    have hmem := h.mem_tail hn
    refine ⟨_, _, by rw [hn, map_some], h.promoteTiny hmem, ?_, rfl⟩
    exact exists_mem_moved hmem fun k => mem_transferred h.lists hmem (by decide)
  · obtain ⟨M, hagree, hmoved⟩ := h.maybePromoteTailLocked freq
    exact ⟨_, M, rfl, hagree, hmoved⟩

section
variable (h : Good s L)
include h

lemma add_good (node : ν) (now : ℕ) (freq : ν → ℕ) :
    ∃ u M, (s.add node now freq).map Prod.snd = some u ∧ Good u M := by
  rw [add]
  by_cases hin : s.isInMMContainer node = true
  · exact ⟨s, L, by rw [if_pos hin]; rfl, h⟩
  · have hnode : ∀ t, node ∉ L t := fun t ht => hin ((h.member node).2 ⟨t, ht⟩)
    have hlinked : node ∈ update L .Tiny (node :: L .Tiny) .Tiny := by simp
    obtain ⟨u, M, hu, hagree, hmoved⟩ := (h.toAgree.linkTiny hnode).balance hlinked freq
    refine ⟨((u.setInMMContainer node true).setUpdateTime node now).setAccessed node false, M, ?_,
      ⟨hagree.lists, hagree.tiny⟩, ?_⟩
    · rw [if_neg hin]
      simp only [hu, map_some]
    · intro n
      change update u.isInMMContainer node true n = true ↔ _
      rw [hmoved.nodes, hmoved.inContainer]
      exact member_linked h.member .Tiny node n

lemma removeLocked_eq {t : LruType} {n : ν} (hn : n ∈ L t) : s.removeLocked n = { s with
        lru := s.lru.edit t (·.remove n)
        isTiny := update s.isTiny n false
        isAccessed := update s.isAccessed n false
        isInMMContainer := update s.isInMMContainer n false } := by
  rw [removeLocked]
  cases t with
  | Tiny =>
    rw [if_pos ((h.tiny n).2 hn)]
    rfl
  | Main =>
    have hflag : s.isTiny n = false := by
      rw [Bool.eq_false_iff, ne_eq, h.tiny]
      exact h.lists.not_mem_other hn (by decide)
    have hsame : update s.isTiny n false = s.isTiny := by
      rw [← hflag, update_eq_self]
    rw [if_neg (by rw [hflag]; decide), hsame]
    rfl

lemma removeLocked_good {t : LruType} {n : ν} (hn : n ∈ L t) :
    Good (s.removeLocked n) (update L t ((L t).erase n)) := by
  rw [removeLocked_eq h hn]
  refine ⟨⟨h.lists.remove hn, ?_⟩, h.lists.member_removed h.member hn⟩
  intro k
  rw [h.lists.mem_removed hn]
  by_cases hk : k = n
  · simp [hk]
  · simp only [update_of_ne hk, h.tiny, ne_eq, hk, not_false_eq_true, true_and]

lemma remove_good (node : ν) : ∃ M, Good (s.remove node).2 M := by
  rw [Container.remove]
  by_cases hin : s.isInMMContainer node = false
  · rw [if_pos hin]
    exact ⟨L, h⟩
  · rw [if_neg hin]
    obtain ⟨t, hn⟩ := (h.member node).1 (Bool.not_eq_false _ ▸ hin)
    exact ⟨_, removeLocked_good h hn⟩

lemma replaced_eq {t : LruType} {oldNode newNode : ν} (hold : oldNode ∈ L t)
    (hnew : ∀ i, newNode ∉ L i) :
    (if s.isTiny oldNode = true then
      ({ s with lru := s.lru.edit .Tiny (·.replace oldNode newNode) }.unmarkTiny oldNode).markTiny
        newNode
    else { s with lru := s.lru.edit .Main (·.replace oldNode newNode) }) = { s with
        lru := s.lru.edit t (·.replace oldNode newNode)
        isTiny := update (update s.isTiny oldNode false) newNode (decide (t = .Tiny)) } := by
  cases t with
  | Tiny =>
    rw [if_pos ((h.tiny oldNode).2 hold)]
    rfl
  | Main =>
    have hclear : ∀ n, n ∉ L .Tiny → s.isTiny n = false := by
      intro n hn
      rwa [Bool.eq_false_iff, ne_eq, h.tiny]
    have hflag := hclear oldNode (h.lists.not_mem_other hold (by decide))
    have hflag' := hclear newNode (hnew .Tiny)
    have hsame : update (update s.isTiny oldNode false) newNode false = s.isTiny := by
      rw [← hflag, update_eq_self, hflag, ← hflag', update_eq_self]
    rw [if_neg (by rw [hflag]; decide), decide_eq_false (by decide), hsame]

lemma replace_good (oldNode newNode : ν) : ∃ M, Good (s.replace oldNode newNode).2 M := by
  rw [Container.replace]
  by_cases hrefuse : s.isInMMContainer oldNode = false ∨ s.isInMMContainer newNode = true
  · rw [if_pos hrefuse]
    exact ⟨L, h⟩
  rw [if_neg hrefuse]
  obtain ⟨hold, hnew⟩ := not_or.1 hrefuse
  obtain ⟨t, hmem⟩ := (h.member oldNode).1 (Bool.not_eq_false _ ▸ hold)
  have hfresh : ∀ i, newNode ∉ L i := fun i hi => hnew ((h.member newNode).2 ⟨i, hi⟩)
  have hne : newNode ≠ oldNode := fun he => hfresh t (he ▸ hmem)
  rw [replaced_eq h hmem hfresh]
  refine ⟨update L t (substitute oldNode newNode (L t)), ⟨h.lists.replace hmem hfresh, ?_⟩,
    h.lists.member_replaced h.member hmem hfresh⟩
  intro k
  change update (update s.isTiny oldNode false) newNode _ k = true ↔ _
  rw [h.lists.mem_replaced hmem hfresh]
  by_cases hk : k = newNode
  · simp [hk, eq_comm]
  · rw [update_of_ne hk]
    by_cases hk' : k = oldNode
    · simp [hk', hne.symm]
    · rw [update_of_ne hk', h.tiny]
      simp [hk, hk']

lemma reconfigureLocked_good (curr now : ℕ) : Good (s.reconfigureLocked curr now) L := by
  rw [reconfigureLocked]
  split_ifs
  · exact h
  · exact h.congr rfl rfl rfl

lemma promote_good (node : ν) (curr now : ℕ) : ∃ M, Good (s.promote node curr now).2 M := by
  have h' := reconfigureLocked_good h (time32 curr) now
  rw [promote]
  set r := s.reconfigureLocked (time32 curr) now
  by_cases hin : r.isInMMContainer node = false
  · simp only [if_pos hin]
    exact ⟨L, h'⟩
  · simp only [if_neg hin]
    obtain ⟨t, hn⟩ := (h'.member node).1 (Bool.not_eq_false _ ▸ hin)
    rw [h'.getLruType_eq hn]
    obtain ⟨M, hagree, hmoved⟩ := h'.toAgree.moveToHead hn
    exact ⟨M, (h'.moved hagree hmoved).congr rfl rfl rfl⟩

lemma checkAccess_good (node : ν) (mode : AccessMode) (curr : ℕ) :
    Good (s.checkAccess node mode curr).2 L := by
  rw [checkAccess]
  split_ifs
  · exact h
  · exact h.congr rfl rfl rfl
  · exact h
  · exact h

lemma recordAccess_good (node : ν) (mode : AccessMode) (curr now : ℕ)
    (lock : Bool) : ∃ M, Good (s.recordAccess node mode curr now lock).2 M := by
  have h' := checkAccess_good h node mode curr
  rw [recordAccess]
  split
  next u hu =>
    rw [hu] at h'
    exact ⟨L, h'⟩
  next u hu =>
    rw [hu] at h'
    split_ifs
    · exact ⟨L, h'⟩
    · exact promote_good h' node curr now

end

end Operations

section Iterator

structure Stands (it : LockedIterator ν) (L : LruType → List ν) (tiny main : List ν) : Prop where
  tIter : it.tIter = tiny.getLast?
  mIter : it.mIter = main.getLast?
  tinyRest : tiny <+: L .Tiny
  mainRest : main <+: L .Main

lemma stands_begin (h : Good s L) : Stands s.getEvictionIterator L (L .Tiny) (L .Main) where
  tIter := h.lists.tail_eq .Tiny
  mIter := h.lists.tail_eq .Main
  tinyRest := List.prefix_rfl
  mainRest := List.prefix_rfl

variable {it : LockedIterator ν} {tiny main : List ν}

/-- The node behind the part that is left points to its end. -/
lemma prev_of_rest (h : Good s L) {t : LruType} {l : List ν} {n : ν} (hl : l ++ [n] <+: L t) :
    s.lru.prev n = l.getLast? ∧ l <+: L t ∧ n ∈ L t ∧ n ∉ l := by
  obtain ⟨passed, hpassed⟩ := hl
  have hlinked := h.lists.linked t
  rw [← hpassed, append_assoc, singleton_append] at hlinked
  refine ⟨hlinked.prev_eq, ⟨n :: passed, ?_⟩, ?_, ?_⟩
  · rw [← hpassed, append_assoc, singleton_append]
  · rw [← hpassed]
    simp
  · exact fun hn => (nodup_append.1 hlinked.nodup).2.2 n hn n (by simp) rfl

lemma chosen_isSome (hvalid : it.isValid = true) (freq : ν → ℕ) :
    (it.evictTiny freq = true → ∃ n, it.tIter = some n) ∧
      (it.evictTiny freq = false → ∃ n, it.mIter = some n) := by
  obtain ⟨tIter, mIter⟩ := it
  cases tIter <;> cases mIter <;> simp_all [LockedIterator.isValid, LockedIterator.evictTiny]

/-- A valid iterator stands at one of the two ends, and `++` passes it. -/
lemma Stands.next (h : Good s L) (hit : Stands it L tiny main) (hvalid : it.isValid = true)
    (freq : ν → ℕ) :
    ∃ n t tiny' main', it.get freq = some n ∧ n ∈ L t ∧ n ∉ tiny' ∧ n ∉ main' ∧
      Stands (it.next freq s.lru) L tiny' main' ∧
      ((tiny = tiny' ++ [n] ∧ main = main') ∨ (tiny = tiny' ∧ main = main' ++ [n])) := by
  have hchosen := chosen_isSome hvalid freq
  rw [LockedIterator.get, LockedIterator.next]
  by_cases hevict : it.evictTiny freq = true
  · obtain ⟨n, hn⟩ := hchosen.1 hevict
    obtain ⟨tiny', rfl⟩ := getLast?_eq_some_iff.1 (hit.tIter.symm.trans hn)
    obtain ⟨hprev, hrest, hmem, hout⟩ := prev_of_rest h hit.tinyRest
    have hmain : n ∉ main := fun hn =>
      h.lists.not_mem_other hmem (by decide : LruType.Main ≠ .Tiny) (hit.mainRest.subset hn)
    rw [if_pos hevict, if_pos hevict, hn, bind_some, hprev]
    exact ⟨n, .Tiny, tiny', main, rfl, hmem, hout, hmain, ⟨rfl, hit.mIter, hrest, hit.mainRest⟩,
      .inl ⟨rfl, rfl⟩⟩
  · obtain ⟨n, hn⟩ := hchosen.2 (Bool.eq_false_iff.2 hevict)
    obtain ⟨main', rfl⟩ := getLast?_eq_some_iff.1 (hit.mIter.symm.trans hn)
    obtain ⟨hprev, hrest, hmem, hout⟩ := prev_of_rest h hit.mainRest
    have htiny : n ∉ tiny := fun hn =>
      h.lists.not_mem_other hmem (by decide : LruType.Tiny ≠ .Main) (hit.tinyRest.subset hn)
    rw [if_neg hevict, if_neg hevict, hn, bind_some, hprev]
    exact ⟨n, .Main, tiny, main', rfl, hmem, htiny, hout, ⟨hit.tIter, rfl, hit.tinyRest, hrest⟩,
      .inr ⟨rfl, rfl⟩⟩

lemma Stands.invalid (hit : Stands it L tiny main) (hvalid : it.isValid ≠ true) :
    tiny = [] ∧ main = [] := by
  rw [LockedIterator.isValid, hit.tIter, hit.mIter] at hvalid
  simpa using hvalid

lemma Stands.remove (hit : Stands it L tiny main) (t : LruType) {n : ν} (htiny : n ∉ tiny)
    (hmain : n ∉ main) : Stands it (update L t ((L t).erase n)) tiny main := by
  have hrest : ∀ {l : List ν} {i : LruType}, n ∉ l → l <+: L i →
      l <+: update L t ((L t).erase n) i := by
    intro l i hn ⟨passed, hpassed⟩
    by_cases hi : i = t
    · subst hi
      rw [update_self, ← hpassed, erase_append_right _ hn]
      exact prefix_append _ _
    · rw [update_of_ne hi]
      exact ⟨passed, hpassed⟩
  exact ⟨hit.tIter, hit.mIter, hrest htiny hit.tinyRest, hrest hmain hit.mainRest⟩

/-- The iterator visits every node that is before it, each list from the tail, and leaves the
container in order. -/
lemma useIterator_spec (h : Good s L) (hit : Stands it L tiny main) (freq : ν → ℕ)
    (removes : List Bool) :
    ∃ visited u M it', s.useIterator it freq removes = some (visited, u, it') ∧ Good u M ∧
      (tiny.length + main.length ≤ removes.length → it'.isValid = false ∧
        visited.Perm (tiny ++ main) ∧ tiny.reverse.Sublist visited ∧
          main.reverse.Sublist visited) := by
  induction removes generalizing s L it tiny main with
  | nil =>
    refine ⟨[], s, L, it, rfl, h, fun hlen => ?_⟩
    obtain ⟨rfl, rfl⟩ : tiny = [] ∧ main = [] := by
      simpa [length_eq_zero_iff] using hlen
    rw [LockedIterator.isValid, hit.tIter, hit.mIter]
    simp
  | cons removes rest ih =>
    rw [useIterator]
    by_cases hvalid : it.isValid = true
    · obtain ⟨n, t, tiny', main', hget, hmem, htiny, hmain, hnext, hpassed⟩ :=
        hit.next h hvalid freq
      obtain ⟨u₁, M₁, hstep, hgood, hstands⟩ : ∃ u M,
          (if removes = true then s.removeIterator it freq
            else some (s, it.next freq s.lru)) = some (u, it.next freq s.lru) ∧ Good u M ∧
          Stands (it.next freq s.lru) M tiny' main' := by
        split_ifs
        · refine ⟨s.removeLocked n, _, ?_, removeLocked_good h hmem, hnext.remove t htiny hmain⟩
          rw [removeIterator, hget, map_some]
        · exact ⟨s, L, rfl, h, hnext⟩
      obtain ⟨visited, u, M, it', hrun, hu, hall⟩ := ih hgood hstands
      refine ⟨n :: visited, u, M, it', ?_, hu, fun hlen => ?_⟩
      · rw [if_pos hvalid, hget, bind_some, hstep, bind_some]
        simp only [hrun, map_some]
      · have hlen' : tiny'.length + main'.length ≤ rest.length := by
          rcases hpassed with ⟨rfl, rfl⟩ | ⟨rfl, rfl⟩ <;>
            simp only [length_append, length_cons, length_nil] at hlen <;> omega
        obtain ⟨hend, hperm, hsub, hsub'⟩ := hall hlen'
        refine ⟨hend, ?_⟩
        rcases hpassed with ⟨rfl, rfl⟩ | ⟨rfl, rfl⟩
        · refine ⟨?_, ?_, hsub'.cons n⟩
          · rw [append_assoc]
            exact (hperm.cons n).trans perm_middle.symm
          · rw [reverse_append]
            exact hsub.cons_cons n
        · refine ⟨?_, hsub.cons n, ?_⟩
          · refine (hperm.cons n).trans ?_
            rw [← append_assoc]
            exact (perm_append_singleton n _).symm
          · rw [reverse_append]
            exact hsub'.cons_cons n
    · obtain ⟨rfl, rfl⟩ := hit.invalid hvalid
      exact ⟨[], s, L, it, if_neg hvalid, h, fun _ => ⟨by simpa using hvalid, by simp⟩⟩

end Iterator

/-- Every node of the container is in exactly one of the lists, the one that its flag names, and
an iterator that is used until it ends visits each node once, in each list from the tail on. -/
def Exact (s : Container ν) : Prop :=
  ∃ L, Placed s L ∧ ∀ freq removes, (L .Tiny).length + (L .Main).length ≤ removes.length →
    ∃ visited u it, s.useIterator s.getEvictionIterator freq removes = some (visited, u, it) ∧
      it.isValid = false ∧ visited.Perm (L .Tiny ++ L .Main) ∧
      (L .Tiny).reverse.Sublist visited ∧ (L .Main).reverse.Sublist visited

lemma Good.exact (h : Good s L) : Exact s := by
  refine ⟨L, h.placed, fun freq removes hlen => ?_⟩
  obtain ⟨visited, u, M, it, hrun, -, hall⟩ := useIterator_spec h (stands_begin h) freq removes
  exact ⟨visited, u, it, hrun, hall hlen⟩

lemma step_good (h : Good s L) (a : Action ν) : ∃ u, step s a = some u ∧ ∃ M, Good u M := by
  cases a with
  | add node now freq =>
    obtain ⟨u, M, hu, hgood⟩ := add_good h node now freq
    exact ⟨u, hu, M, hgood⟩
  | remove node => exact ⟨_, rfl, remove_good h node⟩
  | useIterator freq removes =>
    obtain ⟨visited, u, M, it, hrun, hgood, -⟩ := useIterator_spec h (stands_begin h) freq removes
    exact ⟨u, by rw [step, hrun, map_some], M, hgood⟩
  | recordAccess node mode curr now lock =>
    exact ⟨_, rfl, recordAccess_good h node mode curr now lock⟩
  | checkAccess node mode curr => exact ⟨_, rfl, L, checkAccess_good h node mode curr⟩
  | promote node curr now => exact ⟨_, rfl, promote_good h node curr now⟩
  | replace oldNode newNode => exact ⟨_, rfl, replace_good h oldNode newNode⟩
  | setConfig newConfig now => exact ⟨_, rfl, L, h.congr rfl rfl rfl⟩

/-- Every sequence of calls runs to its end, and the queues and the iterator are exact after it. -/
theorem queues_exact (config : Config) (now : ℕ) (actions : List (Action ν)) :
    ∃ s, run step (Container.init config now) actions = some s ∧ Exact s := by
  obtain ⟨s, hrun, L, hgood⟩ := @run_returns _ _ (step (ν := ν)) _ actions
    (fun s => ∃ L, Good s L) (fun _ => True) (fun s a _ ⟨L, h⟩ => step_good h a)
    (fun _ _ => trivial) ⟨_, Good.init config now⟩
  exact ⟨s, hrun, hgood.exact⟩

end HybridCache.MMTinyLFU

import HybridCache.MM2QRebalance

/-!
# When the flags of the 2Q container stay right

`add` clears all three flags of the node that it links, and every move rewrites the flags
of the node that it moves. `replace` only sets flags in the new node: flags that an earlier
stay in the container left there survive. In a run in which no `replace` meets such a flag,
the flags name the list of every node in every state.
-/
set_option linter.unusedSectionVars false

namespace HybridCache.MM2Q

open Container MultiDList IntrusiveList Function

variable {ν : Type*}

/-- The five lists hold the nodes of `L`, these are the nodes in the container, and every
node is in the list that its flags name and in no other. -/
structure Placed (s : Container ν) (L : LruType → List ν) : Prop where
  linked : ∀ t, (s.lru.getList t).Linked (L t)
  listed : ∀ t n, n ∈ L t → s.isInMMContainer n = true
  named : ∀ n, s.isInMMContainer n = true → ∀ t, n ∈ L t ↔ t = s.getLruType n

/-- The flags of the nodes agree with the lists. -/
def FlagsAgree (s : Container ν) : Prop := ∃ L, Placed s L

structure Good (s : Container ν) (L : LruType → List ν) : Prop where
  agree : Agree s L
  member : ∀ n, s.isInMMContainer n = true ↔ ∃ t, n ∈ L t
  tracking : s.tailTrackingEnabled = hasTails s

variable {L : LruType → List ν} {s : Container ν}

lemma Good.flagsAgree (h : Good s L) : FlagsAgree s := by
  refine ⟨L, h.agree.lists.linked, fun t n hn => (h.member n).2 ⟨t, hn⟩, ?_⟩
  intro n hn t
  obtain ⟨i, hi⟩ := (h.member n).1 hn
  rw [h.agree.named i n hi]
  constructor
  · exact fun ht => h.agree.lists.unique t i n ht hi
  · rintro rfl
    exact hi

def unmarkedFor (s : Container ν) (node : ν) : LruType → Bool
  | .Hot => !s.inTail node
  | .ColdTail => !s.isHot node
  | .Cold => !s.isHot node && !s.inTail node
  | .WarmTail => !s.isHot node && !s.isCold node
  | .Warm => !s.isHot node && !s.isCold node && !s.inTail node

/-- A `replace` that takes effect finds no flag in the new node that contradicts the list of
the old one. -/
def NoStaleFlags (s : Container ν) : Action ν → Prop
  | .replace oldNode newNode =>
    s.isInMMContainer oldNode = true → s.isInMMContainer newNode = false →
      unmarkedFor s newNode (s.getLruType oldNode) = true
  | _ => True

instance (s : Container ν) : DecidablePred (NoStaleFlags s)
  | .replace oldNode newNode => inferInstanceAs (Decidable
      (s.isInMMContainer oldNode = true → s.isInMMContainer newNode = false →
        unmarkedFor s newNode (s.getLruType oldNode) = true))
  | .add .. | .remove .. | .removeIterator .. | .recordAccess .. | .promote .. | .setConfig .. =>
    .isTrue trivial

section Flags

def Flags.markLike (f : Flags) : LruType → Flags
  | .Hot => { f with mmFlag0 := true }
  | .ColdTail => { f with mmFlag1 := true, mmFlag2 := true }
  | .Cold => { f with mmFlag2 := true }
  | .WarmTail => { f with mmFlag1 := true }
  | .Warm => f

lemma markLike_eq [DecidableEq ν] (s : Container ν) (n : ν) (t : LruType) : s.markLike n t =
      { s with flags := update s.flags n ((s.flags n).markLike t) } := by
  cases t <;> simp [Container.markLike, Flags.markLike, markHot, markCold, markTail, setFlags]

def Flags.unmarkedFor (f : Flags) (tracking : Bool) : LruType → Bool
  | .Hot => !(tracking && f.mmFlag1)
  | .ColdTail => !f.mmFlag0
  | .Cold => !f.mmFlag0 && !(tracking && f.mmFlag1)
  | .WarmTail => !f.mmFlag0 && !f.mmFlag2
  | .Warm => !f.mmFlag0 && !f.mmFlag2 && !(tracking && f.mmFlag1)

lemma unmarkedFor_eq (s : Container ν) (n : ν) (t : LruType) :
    unmarkedFor s n t = (s.flags n).unmarkedFor (hasTails s) t := by
  cases t <;> rfl

/-- Marking a node without stale flags like one of list `t` names this list. -/
lemma lruType_markLike (f g : Flags) (b : Bool) (t : LruType) (hold : f.lruType b = t)
    (hclean : g.unmarkedFor b t = true) :
    (g.markLike t).lruType b = t ∧ (t = .Hot → (b && (g.markLike t).mmFlag1) = false) := by
  obtain ⟨x, y, z⟩ := f
  obtain ⟨x', y', z'⟩ := g
  revert b x y z x' y' z'
  cases t <;> decide

end Flags

variable [DecidableEq ν]

section Operations

variable {L : LruType → List ν} {node : ν} {s : Container ν} {t : LruType}

lemma linked_agree (h : Agree s L) (hnode : ∀ t, node ∉ L t) :
    let marked := ((s.markHot node).unmarkCold node).unmarkTail node
    Agree { marked with lru := s.lru.edit .Hot (·.linkAtHead node) }
      (update L .Hot (node :: L .Hot)) := by
  intro marked
  have hmarked : marked.flags = update s.flags node ⟨true, false, false⟩ := by
    simp [marked, markHot, unmarkCold, unmarkTail, setFlags]
  refine ⟨h.lists.linkAtHead .Hot hnode, ?_, ?_⟩
  · intro t k hk
    change (marked.flags k).lruType (hasTails s) = t
    rw [hmarked]
    rcases (mem_linked t).1 hk with ⟨rfl, rfl⟩ | hk
    · rw [update_self]
      rfl
    · have hne : k ≠ node := fun he => hnode t (he ▸ hk)
      rw [update_of_ne hne]
      exact h.named t k hk
  · intro k hk
    change (hasTails s && (marked.flags k).mmFlag1) = false
    rw [hmarked]
    rcases (mem_linked LruType.Hot).1 hk with ⟨rfl, -⟩ | hk
    · rw [update_self]
      exact Bool.and_false _
    · have hne : k ≠ node := fun he => hnode .Hot (he ▸ hk)
      rw [update_of_ne hne]
      exact h.hot k hk

def Returns (o : Option (Container ν)) : Prop := ∃ u M, o = some u ∧ Good u M

lemma good_of_moved {u v : Container ν} {M : LruType → List ν} (hagree : Agree u M)
    (hmoved : Moved s u L M) (htracking : s.tailTrackingEnabled = hasTails s)
    (hv : v = { u with isInMMContainer := v.isInMMContainer, updateTime := v.updateTime })
    (hmember : ∀ n, v.isInMMContainer n = true ↔ ∃ t, n ∈ L t) : Good v M := by
  have hagree' : Agree v M := by
    rw [hv]
    exact ⟨hagree.lists, hagree.named, hagree.hot⟩
  refine ⟨hagree', fun n => (hmember n).trans (hmoved.nodes n).symm, ?_⟩
  have htails : hasTails v = hasTails u := by rw [hv]; rfl
  have htails' : hasTails u = hasTails s := by rw [hasTails, hmoved.config]; rfl
  have htrack : v.tailTrackingEnabled = u.tailTrackingEnabled := by rw [hv]
  rw [htrack, hmoved.tracking, htracking, htails, htails']

lemma add_good (h : Good s L) (node : ν) (now : ℕ) : Returns ((s.add node now).map Prod.snd) := by
  rw [add]
  by_cases hin : s.isInMMContainer node = true
  · exact ⟨s, L, by rw [if_pos hin]; rfl, h⟩
  · have hnode : ∀ t, node ∉ L t := fun t ht => hin ((h.member node).2 ⟨t, ht⟩)
    obtain ⟨u, M, hu, hagree, hmoved⟩ := rebalance_spec (linked_agree h.agree hnode)
    refine ⟨(u.setInMMContainer node true).setUpdateTime node now, M, ?_,
      good_of_moved hagree hmoved h.tracking rfl ?_⟩
    · rw [if_neg hin]
      simp only [Option.map_map]
      exact congrArg (Option.map _) hu
    · intro n
      simp only [setInMMContainer, setUpdateTime, hmoved.inContainer]
      exact member_linked h.member .Hot node n

/-- Nodes that stay in their lists keep the flags that name them. -/
lemma Agree.sub {u : Container ν} {M : LruType → List ν} (h : Agree s L)
    (hu : u = { s with lru := u.lru }) (hlists : u.lru.Lists M)
    (hsub : ∀ t k, k ∈ M t → k ∈ L t) : Agree u M := by
  have hnamed : ∀ k, u.getLruType k = s.getLruType k := fun k => by rw [hu]; rfl
  have htail : ∀ k, u.inTail k = s.inTail k := fun k => by rw [hu]; rfl
  refine ⟨hlists, ?_, ?_⟩
  · intro t k hk
    rw [hnamed]
    exact h.named t k (hsub t k hk)
  · intro k hk
    rw [htail]
    exact h.hot k (hsub _ k hk)

lemma removeLocked_good (h : Good s L) (hnode : node ∈ L t) (doRebalance : Bool) :
    Returns (s.removeLocked node doRebalance) := by
  have htype := h.agree.named t node hnode
  have hlists := h.agree.lists.remove hnode
  have hagree : Agree { s with lru := s.lru.edit t (·.remove node) }
      (update L t ((L t).erase node)) := by
    refine h.agree.sub rfl hlists ?_
    intro i k hk
    exact ((h.agree.lists.mem_removed hnode i).1 hk).2
  obtain ⟨u, M, hu, hagree', hmoved⟩ : ∃ u M, (if doRebalance = true then
        ({ s with lru := s.lru.edit t (·.remove node) } : Container ν).rebalance
      else some { s with lru := s.lru.edit t (·.remove node) }) = some u ∧ Agree u M ∧
      Moved { s with lru := s.lru.edit t (·.remove node) } u (update L t ((L t).erase node)) M := by
    by_cases hdo : doRebalance = true
    · rw [if_pos hdo]
      exact rebalance_spec hagree
    · rw [if_neg hdo]
      exact ⟨_, _, rfl, hagree, Moved.refl _ _⟩
  refine ⟨u.setInMMContainer node false, M, ?_, good_of_moved hagree' hmoved h.tracking rfl ?_⟩
  · rw [removeLocked, htype]
    simp only [hu, Option.map_some]
  · intro n
    simp only [setInMMContainer, hmoved.inContainer]
    exact h.agree.lists.member_removed h.member hnode n

lemma moveToHead_agree (h : Agree s L) (hnode : node ∈ L t) :
    ∃ M, Agree { s with lru := s.lru.edit t (·.moveToHead node) } M ∧
      Moved s { s with lru := s.lru.edit t (·.moveToHead node) } L M := by
  refine ⟨_, h.sub rfl (h.lists.moveToHead hnode) ?_, ⟨?_, rfl, rfl, rfl⟩⟩
  · intro i k hk
    exact (mem_headed hnode i).1 hk
  · intro n
    simp only [mem_headed hnode]

lemma promoteNode_spec (h : Agree s L) (hnode : node ∈ L t) :
    ∃ u M, s.promoteNode node = some u ∧ Agree u M ∧ Moved s u L M := by
  have htype := h.named t node hnode
  have hrest : ∀ {v : Container ν} {N : LruType → List ν}, Agree v N → Moved s v L N →
      ∃ u M, (if v.config.rebalanceOnRecordAccess = true then v.rebalance else some v) = some u ∧
        Agree u M ∧ Moved s u L M := by
    intro v N hv hmoved
    by_cases hdo : v.config.rebalanceOnRecordAccess = true
    · obtain ⟨u, M, hu, hagree, hmoved'⟩ := rebalance_spec hv
      exact ⟨u, M, by rw [if_pos hdo, hu], hagree, hmoved.trans hmoved'⟩
    · exact ⟨v, N, if_neg hdo, hv, hmoved⟩
  rw [promoteNode]
  by_cases hhot : s.isHot node = true
  · have ht : t = .Hot := by rw [← htype, getLruType, if_pos hhot]
    subst ht
    obtain ⟨M, hagree, hmoved⟩ := moveToHead_agree h hnode
    exact ⟨_, M, if_pos hhot, hagree, hmoved⟩
  · rw [if_neg hhot]
    rw [getLruType, if_neg hhot] at htype
    by_cases hcold : s.isCold node = true
    · rw [if_pos hcold] at htype
      simp only [if_pos hcold]
      by_cases htail : s.inTail node = true
      · rw [if_pos htail] at htype
        subst htype
        obtain ⟨hagree, hmoved⟩ := h.move (j := .Warm)
          (u := ((s.unmarkTail node).transfer node .ColdTail .Warm).unmarkCold node)
          (f := { s.flags node with mmFlag1 := false, mmFlag2 := false })
          hnode (by decide) (by decide)
          (by simp [unmarkCold, unmarkTail, setFlags, Container.transfer])
          (lruType_coldTail_warm _ _ (h.named _ node hnode))
        simp only [if_pos htail]
        exact hrest hagree hmoved
      · rw [if_neg htail] at htype
        subst htype
        obtain ⟨hagree, hmoved⟩ := h.move (j := .Warm)
          (u := (s.transfer node .Cold .Warm).unmarkCold node) hnode (by decide) (by decide) rfl
          (lruType_cold_warm _ _ (h.named _ node hnode))
        simp only [if_neg htail]
        exact hrest hagree hmoved
    · rw [if_neg hcold] at htype
      rw [if_neg hcold]
      by_cases htail : s.inTail node = true
      · rw [if_pos htail] at htype
        subst htype
        obtain ⟨hagree, hmoved⟩ := h.move (j := .Warm)
          (u := (s.unmarkTail node).transfer node .WarmTail .Warm)
          hnode (by decide) (by decide) rfl (lruType_warmTail_warm _ _ (h.named _ node hnode))
        exact ⟨_, _, if_pos htail, hagree, hmoved⟩
      · rw [if_neg htail] at htype
        subst htype
        obtain ⟨M, hagree, hmoved⟩ := moveToHead_agree h hnode
        exact ⟨_, M, if_neg htail, hagree, hmoved⟩

lemma reconfigureLocked_good (h : Good s L)
    (curr now : ℕ) : Good (s.reconfigureLocked curr now) L := by
  rw [reconfigureLocked]
  split_ifs
  · exact h
  · exact ⟨⟨h.agree.lists, h.agree.named, h.agree.hot⟩, h.member, h.tracking⟩

lemma promote_good (h : Good s L) (node : ν)
    (curr now : ℕ) : Returns ((s.promote node curr now).map Prod.snd) := by
  have h' := reconfigureLocked_good h (time32 curr) now
  rw [promote]
  set r := s.reconfigureLocked (time32 curr) now
  by_cases hin : r.isInMMContainer node = false
  · exact ⟨r, L, by simp only [if_pos hin]; rfl, h'⟩
  · obtain ⟨t, hnode⟩ := (h'.member node).1 (by simpa using hin)
    obtain ⟨u, M, hu, hagree, hmoved⟩ := promoteNode_spec h'.agree hnode
    refine ⟨u.setUpdateTime node curr, M, ?_, good_of_moved hagree hmoved h'.tracking rfl ?_⟩
    · simp only [if_neg hin, hu, Option.map_some]
    · intro n
      change u.isInMMContainer n = true ↔ _
      rw [hmoved.inContainer]
      exact h'.member n

lemma recordAccess_good (h : Good s L) (node : ν) (mode : AccessMode) (curr now : ℕ) (lock : Bool) :
    Returns ((s.recordAccess node mode curr now lock).map Prod.snd) := by
  rw [recordAccess]
  split_ifs
  · exact ⟨s, L, rfl, h⟩
  · exact ⟨s, L, rfl, h⟩
  · exact promote_good h node curr now

lemma replace_good (h : Good s L) {oldNode newNode : ν}
    (hclean : NoStaleFlags s (.replace oldNode newNode)) :
    ∃ M, Good (s.replace oldNode newNode).2 M := by
  rw [Container.replace]
  by_cases hrefuse : s.isInMMContainer oldNode = false ∨ s.isInMMContainer newNode = true
  · rw [if_pos hrefuse]
    exact ⟨L, h⟩
  · rw [if_neg hrefuse]
    obtain ⟨hold, hnew⟩ := not_or.1 hrefuse
    rw [Bool.not_eq_false] at hold
    rw [Bool.not_eq_true] at hnew
    obtain ⟨t, hmem⟩ := (h.member oldNode).1 hold
    have htype := h.agree.named t oldNode hmem
    have hfresh : ∀ i, newNode ∉ L i := by
      intro i hi
      rw [(h.member newNode).2 ⟨i, hi⟩] at hnew
      cases hnew
    have hmark := hclean hold hnew
    rw [htype, unmarkedFor_eq] at hmark
    obtain ⟨hmarked, hhot⟩ := lruType_markLike _ _ _ _ htype hmark
    have hback := fun i k => (h.agree.lists.mem_replaced (q := k) hmem hfresh i).1
    refine ⟨update L t (substitute oldNode newNode (L t)), ⟨?_, ?_, ?_⟩, ?_, ?_⟩
    · simp only [htype, markLike_eq]
      exact h.agree.lists.replace hmem hfresh
    · intro i k hk
      simp only [htype, markLike_eq]
      change (update s.flags newNode _ k).lruType (hasTails s) = i
      rcases hback i k hk with ⟨rfl, rfl⟩ | ⟨hk', -, hk⟩
      · rw [update_self]
        exact hmarked
      · rw [update_of_ne hk']
        exact h.agree.named i k hk
    · intro k hk
      simp only [htype, markLike_eq]
      change (hasTails s && (update s.flags newNode _ k).mmFlag1) = false
      rcases hback .Hot k hk with ⟨rfl, ht⟩ | ⟨hk', -, hk⟩
      · rw [update_self]
        exact hhot ht.symm
      · rw [update_of_ne hk']
        exact h.agree.hot k hk
    · intro k
      simp only [htype, markLike_eq]
      exact h.agree.lists.member_replaced h.member hmem hfresh k
    · simp only [htype, markLike_eq]
      exact h.tracking

lemma setConfig_good {t : Container ν} (h : Good s L)
    {newConfig : Config} {now : ℕ} (ht : s.setConfig newConfig now = .ok t) : Good t L := by
  rw [setConfig] at ht
  split_ifs at ht with hon hoff
  cases ht
  have htails : decide (newConfig.tailSize ≠ 0) = hasTails s := by
    rw [← h.tracking]
    cases htrack : s.tailTrackingEnabled with
    | false =>
      have : newConfig.tailSize = 0 := by
        by_contra hne
        exact hon ⟨htrack, Nat.pos_of_ne_zero hne⟩
      simp [this]
    | true =>
      have : newConfig.tailSize ≠ 0 := fun he => hoff ⟨htrack, he⟩
      simp [this]
  refine ⟨⟨h.agree.lists, ?_, ?_⟩, h.member, ?_⟩
  · intro i k hk
    change (s.flags k).lruType (decide (newConfig.tailSize ≠ 0)) = i
    rw [htails]
    exact h.agree.named i k hk
  · intro k hk
    change (decide (newConfig.tailSize ≠ 0) && (s.flags k).mmFlag1) = false
    rw [htails]
    exact h.agree.hot k hk
  · exact h.tracking.trans htails.symm

end Operations

lemma step_good (h : Good s L) {a : Action ν} (hclean : NoStaleFlags s a) : Returns (step s a) := by
  cases a with
  | add node now => exact add_good h node now
  | remove node =>
    rw [step, Container.remove]
    by_cases hin : s.isInMMContainer node = false
    · exact ⟨s, L, by rw [if_pos hin]; rfl, h⟩
    · obtain ⟨t, hnode⟩ := (h.member node).1 (by simpa using hin)
      obtain ⟨u, M, hu, hgood⟩ := removeLocked_good h hnode true
      exact ⟨u, M, by rw [if_neg hin, hu]; rfl, hgood⟩
  | removeIterator type k =>
    rw [step, removeIterator]
    cases hk : (s.lru.getList type).fromTail k with
    | none => exact ⟨s, L, rfl, h⟩
    | some node =>
      exact removeLocked_good h ((h.agree.lists.linked type).fromTail_mem hk) false
  | recordAccess node mode curr now lock => exact recordAccess_good h node mode curr now lock
  | promote node curr now => exact promote_good h node curr now
  | replace oldNode newNode =>
    obtain ⟨M, hgood⟩ := replace_good h hclean
    exact ⟨_, M, rfl, hgood⟩
  | setConfig newConfig now =>
    rw [step]
    cases hset : s.setConfig newConfig now with
    | ok t => exact ⟨t, L, rfl, setConfig_good h hset⟩
    | error e => exact ⟨s, L, rfl, h⟩

lemma init_good (config : Config) (now : ℕ) :
    Good (Container.init config now : Container ν) fun _ => [] := by
  refine ⟨⟨lists_empty, by simp, by simp⟩, by simp [Container.init], ?_⟩
  exact decide_eq_decide.2 Nat.pos_iff_ne_zero

lemma step_returns (h : Good s L) (a : Action ν) : ∃ t, step s a = some t := by
  by_cases hclean : NoStaleFlags s a
  · obtain ⟨t, -, ht, -⟩ := step_good h hclean
    exact ⟨t, ht⟩
  · cases a with
    | replace oldNode newNode => exact ⟨_, rfl⟩
    | _ => exact absurd trivial hclean

/-- In a run in which no `replace` meets a stale flag, every call returns, and in every state
the flags name the list of every node in the container. -/
theorem flags_agree_of_no_stale_flags (config : Config) (now : ℕ) (acts : List (Action ν))
    (hclean : Transition.Meets step NoStaleFlags (Container.init config now) acts) :
    (∃ s, Transition.run step (Container.init config now) acts = some s) ∧
      Transition.Always step FlagsAgree (Container.init config now) acts := by
  have henabled : ∀ (s : Container ν) a, (∃ L, Good s L) → ∃ t, step s a = some t := by
    rintro s a ⟨L, hL⟩
    exact step_returns hL a
  have hstep : ∀ (s : Container ν) a t, NoStaleFlags s a → (∃ L, Good s L) →
      step s a = some t → ∃ L, Good t L := by
    rintro s a t hok ⟨L, hL⟩ ht
    obtain ⟨u, M, hu, hM⟩ := step_good hL hok
    rw [hu] at ht
    cases ht
    exact ⟨M, hM⟩
  have hinit : ∃ L, Good (Container.init config now : Container ν) L := ⟨_, init_good config now⟩
  constructor
  · obtain ⟨t, ht, -⟩ := Transition.run_returns_meets henabled hstep hclean hinit
    exact ⟨t, ht⟩
  · refine Transition.always_of_meets ?_ hstep hclean hinit
    rintro s ⟨L, hL⟩
    exact hL.flagsAgree

def halfHot : Config := { hotSizePercent := 50, coldSizePercent := 25 }

theorem replace_with_new_node_agrees :
    let acts : List (Action ℕ) := [.add 0 0, .add 1 0, .remove 1, .replace 0 2,
      .recordAccess 2 .kRead 100 100 true, .remove 2]
    (∃ s, Transition.run step (Container.init halfHot 0) acts = some s) ∧
      Transition.Always step FlagsAgree (Container.init halfHot 0) acts :=
  flags_agree_of_no_stale_flags halfHot 0 _ (by decide +kernel)

/-- A node of the container whose flags name an empty list. -/
lemma not_flagsAgree {n : ν} (hin : s.isInMMContainer n = true)
    (hempty : s.lru.size (s.getLruType n) = 0) : ¬ FlagsAgree s := by
  rintro ⟨L, hL⟩
  have hmem := (hL.named n hin _).2 rfl
  have hlen : s.lru.size (s.getLruType n) = (L (s.getLruType n)).length := (hL.linked _).size
  exact absurd (List.length_pos_of_mem hmem) (by omega)

/-- Node 1 is removed from `Hot` and then replaces node 0 in `Cold`: its flags still say `Hot`,
which is empty. -/
theorem stale_hot_flag : ∃ s, Transition.run step (Container.init halfHot 0)
      [.add 0 0, .add 1 0, .remove 1, .replace 0 1] = some s ∧
      (s.lru.getList .Cold).head = some 1 ∧ s.getLruType 1 = .Hot ∧ ¬ FlagsAgree s := by
  have hrun : (Transition.run step (Container.init halfHot 0)
      [.add 0 0, .add 1 0, .remove 1, .replace 0 1]).map (fun s =>
        (s.isInMMContainer 1, s.getLruType 1, s.lru.size .Hot, s.lru.head .Cold)) =
      some (true, .Hot, 0, some 1) := by
    decide +kernel
  obtain ⟨s, hs, hvalues⟩ := Option.map_eq_some_iff.1 hrun
  simp only [Prod.mk.injEq] at hvalues
  obtain ⟨hin, htype, hsize, hhead⟩ := hvalues
  refine ⟨s, hs, hhead, htype, not_flagsAgree hin ?_⟩
  rw [htype, hsize]

end HybridCache.MM2Q

import HybridCache.MMLruInvariant

/-!
# Whole runs of the LRU container

Every call keeps the invariant of the insertion point and never dereferences a null
pointer. Under a fixed specification that is not zero every call also leaves a tail of
the configured length.
-/
namespace HybridCache.MMLru

open DList IntrusiveList Container Function List

variable {ν : Type*} [DecidableEq ν] {s : Container ν} {l : List ν}

lemma linkNew_linked {l₁ l₂ : List ν} {node : ν} (h : TailSplit s l₁ l₂)
    (hpoint : s.insertionPoint = l₂.head?)
    (hoff : s.config.lruInsertionPointSpec = 0 → s.insertionPoint = none)
    (hnode : node ∉ l₁ ++ l₂) :
    ∃ m, (s.linkNew node).Linked (m ++ l₂) ∧ m.Perm (node :: l₁) := by
  rw [linkNew, hpoint]
  cases l₂ with
  | nil => exact ⟨node :: l₁, h.linked.linkAtHead hnode, List.Perm.refl _⟩
  | cons c r =>
    have hspec : s.config.lruInsertionPointSpec ≠ 0 := by
      intro he
      rw [hoff he] at hpoint
      cases hpoint
    refine ⟨l₁ ++ [node], ?_, perm_append_singleton node l₁⟩
    rw [append_assoc]
    simp only [head?_cons, if_neg hspec]
    exact h.linked.insertBefore hnode

lemma add_good (h : Good s l) (node : ν) (now : ℕ) :
    ∃ b t m, s.add node now = some (b, t) ∧ Good t m ∧ t.config = s.config ∧
      (Settled s → Settled t) := by
  rw [add]
  by_cases hin : s.isInMMContainer node = true
  · exact ⟨false, s, l, if_pos hin, h, rfl, id⟩
  · obtain ⟨hmember, hoff, l₁, l₂, rfl, hsplit, hpoint, -⟩ := h
    have hnode : node ∉ l₁ ++ l₂ := fun hm => hin ((hmember node).2 hm)
    obtain ⟨m, hlinked, hperm⟩ := linkNew_linked hsplit hpoint hoff hnode
    have hperm' : (m ++ l₂).Perm (node :: (l₁ ++ l₂)) := hperm.append_right l₂
    obtain ⟨t, ht, hgood, hcfg, hset⟩ := updateLruInsertionPoint_good
      (s := (({ s with lru := s.linkNew node }.markInMMContainer node).setUpdateTime node
        now).unmarkAccessed node) ⟨hlinked, hsplit.size, hsplit.flagged⟩ hpoint
      (fun he => by
        rw [hoff he] at hpoint
        exact head?_eq_none_iff.1 hpoint.symm)
      (fun n => by
        rw [hperm'.mem_iff, mem_cons, ← hmember]
        by_cases hn : n = node
        · simp [markInMMContainer, setUpdateTime, unmarkAccessed, hn]
        · simp [markInMMContainer, setUpdateTime, unmarkAccessed, hn])
    refine ⟨true, t, m ++ l₂, ?_, hgood, hcfg, fun _ => hset⟩
    rw [if_neg hin]
    simp only [ht, Option.map_some]

lemma replace_fields {oldNode newNode : ν}
    (hold : s.isInMMContainer oldNode = true) (hnew : s.isInMMContainer newNode = false) :
    ∃ t, s.replace oldNode newNode = (true, t) ∧ t.lru = s.lru.replace oldNode newNode ∧
      t.tailSize = s.tailSize ∧ t.config = s.config ∧
      t.isInMMContainer = update (update s.isInMMContainer oldNode false) newNode true ∧
      t.isTail = (if s.isTail oldNode = true then
          update (update s.isTail newNode true) oldNode false
        else update s.isTail newNode false) ∧
      t.insertionPoint =
        if s.insertionPoint = some oldNode then some newNode else s.insertionPoint := by
  rw [Container.replace, if_neg (by simp [hold, hnew])]
  refine ⟨_, rfl, ?_⟩
  rw [movePoint, moveTail, copyAccessed]
  cases haccessed : s.isAccessed oldNode <;> cases htail : s.isTail oldNode <;>
    by_cases hpoint : s.insertionPoint = some oldNode <;>
    simp [markTail, unmarkTail, markAccessed, unmarkAccessed, unmarkInMMContainer,
      markInMMContainer, setUpdateTime, haccessed, htail, hpoint]

lemma replace_good (h : Good s l) (oldNode newNode : ν) :
    ∃ m, Good (s.replace oldNode newNode).2 m ∧ (s.replace oldNode newNode).2.config = s.config ∧
      (Settled s → Settled (s.replace oldNode newNode).2) := by
  by_cases hrefuse : s.isInMMContainer oldNode = false ∨ s.isInMMContainer newNode = true
  · rw [Container.replace, if_pos hrefuse]
    exact ⟨l, h, rfl, id⟩
  · have hold : s.isInMMContainer oldNode = true := by simp_all
    have hnew : s.isInMMContainer newNode = false := by simp_all
    obtain ⟨t, ht, hlru, hsize, hconfig, hlist, htail, htpoint⟩ := replace_fields hold hnew
    rw [ht]
    obtain ⟨hmember, hoff, l₁, l₂, rfl, hsplit, hpoint, hhalf⟩ := h
    have hold' := (hmember oldNode).1 hold
    have hnew' : newNode ∉ l₁ ++ l₂ := by
      intro hm
      rw [(hmember newNode).2 hm] at hnew
      cases hnew
    have hne : newNode ≠ oldNode := fun he => hnew' (he ▸ hold')
    have hnew₂ : newNode ∉ l₂ := fun hm => hnew' (mem_append_right _ hm)
    have hlinked := hsplit.linked.replace_substitute hold' hnew'
    have happend : substitute oldNode newNode (l₁ ++ l₂) =
        substitute oldNode newNode l₁ ++ substitute oldNode newNode l₂ := map_append
    have hlen : (substitute oldNode newNode (l₁ ++ l₂)).length = (l₁ ++ l₂).length := length_map _
    refine ⟨substitute oldNode newNode (l₁ ++ l₂), ⟨?_, ?_, ?_⟩, hconfig, ?_⟩
    · intro n
      rw [hlist, mem_substitute hne, ← hmember n]
      by_cases hn : n = newNode
      · simp [hn, hold']
      · by_cases hn' : n = oldNode
        · simp [hn', hne.symm]
        · simp [hn, hn']
    · intro he
      rw [hconfig] at he
      rw [htpoint, hoff he]
      rfl
    · refine ⟨_, _, happend, ⟨?_, ?_, ?_⟩, ?_, ?_⟩
      · rw [hlru, ← happend]
        exact hlinked
      · rw [hsize, hsplit.size]
        exact (length_map _).symm
      · intro n
        rw [htail, mem_substitute hne, ← hsplit.flagged oldNode, ← hsplit.flagged n]
        have hnewFlag : s.isTail newNode = false := by
          simpa using fun he => hnew₂ ((hsplit.flagged newNode).1 he)
        by_cases hn : n = newNode
        · by_cases hflag : s.isTail oldNode = true <;> simp [hn, hflag, hne, hnewFlag]
        · by_cases hn' : n = oldNode
          · by_cases hflag : s.isTail oldNode = true <;> simp [hn', hflag, hne.symm]
          · by_cases hflag : s.isTail oldNode = true <;> simp [hn, hn', hflag]
      · rw [htpoint, hpoint, head?_substitute]
      · rw [hlen]
        exact (length_map _).le.trans hhalf
    · intro hs
      rw [Settled] at hs ⊢
      rw [hconfig, hsize, hlru, hlinked.size, hlen, ← hsplit.linked.size]
      exact hs

lemma setConfig_good (h : Good s l) (newConfig : Config) (now : ℕ) :
    ∃ t, s.setConfig newConfig now = some t ∧ Good t l ∧ t.config = newConfig ∧
      (newConfig.lruInsertionPointSpec = s.config.lruInsertionPointSpec →
        Settled s → Settled t) := by
  obtain ⟨hmember, hoff, l₁, l₂, rfl, hsplit, hpoint, hhalf⟩ := h
  rw [setConfig]
  by_cases hclear : newConfig.lruInsertionPointSpec = 0 ∧ s.insertionPoint ≠ none
  · have hsplit' : TailSplit { s with config := newConfig } l₁ l₂ :=
      ⟨hsplit.linked, hsplit.size, hsplit.flagged⟩
    obtain ⟨t, ht, htail, hsame⟩ := clearTail_spec hsplit'
    rw [← hpoint, ← hsplit.size] at ht
    have hlist : t.isInMMContainer = s.isInMMContainer := by rw [hsame]
    have hconfig : t.config = newConfig := by rw [hsame]
    refine ⟨{ t with
      insertionPoint := none, lruRefreshTime := newConfig.lruRefreshTime
      nextReconfigureTime := nextReconfigure newConfig now }, ?_, ⟨?_, ?_, ?_⟩, hconfig, ?_⟩
    · simp only [if_pos hclear, ht, Option.map_some]
    · intro n
      rw [← hmember n, ← hlist]
    · exact fun _ => rfl
    · exact ⟨l₁ ++ l₂, [], (append_nil _).symm, ⟨htail.linked, htail.size, htail.flagged⟩,
        rfl, by simp⟩
    · intro _ _ hspec
      exact absurd (hconfig ▸ hclear.1) hspec
  · refine ⟨{ s with
      config := newConfig, lruRefreshTime := newConfig.lruRefreshTime
      nextReconfigureTime := nextReconfigure newConfig now }, ?_, ⟨hmember, ?_, ?_⟩, rfl, ?_⟩
    · simp only [if_neg hclear, Option.map_some]
    · intro he
      by_contra hne
      exact hclear ⟨he, hne⟩
    · exact ⟨l₁, l₂, rfl, ⟨hsplit.linked, hsplit.size, hsplit.flagged⟩, hpoint, hhalf⟩
    · intro he hs hspec
      have := hs (by rw [← he]; exact hspec)
      rw [← he] at this
      exact this

/-- The action does not change the specification of the insertion point. -/
def KeepsSpec (spec : ℕ) : Action ν → Prop
  | .setConfig newConfig _ => newConfig.lruInsertionPointSpec = spec
  | _ => True

/-- One call returns, keeps the invariant and, under a fixed specification, the length. -/
lemma step_good (h : Good s l) (a : Action ν) : ∃ t m, step s a = some t ∧ Good t m ∧
      (KeepsSpec s.config.lruInsertionPointSpec a →
        t.config.lruInsertionPointSpec = s.config.lruInsertionPointSpec ∧
          (Settled s → Settled t)) := by
  cases a with
  | add node now =>
    obtain ⟨b, t, m, ht, hgood, hcfg, hset⟩ := add_good h node now
    exact ⟨t, m, by rw [step, ht]; rfl, hgood, fun _ => ⟨by rw [hcfg], hset⟩⟩
  | remove node =>
    rw [step, Container.remove]
    by_cases hin : s.isInMMContainer node = false
    · exact ⟨s, l, by rw [if_pos hin]; rfl, h, fun _ => ⟨rfl, id⟩⟩
    · obtain ⟨t, ht, hgood, hcfg, hset⟩ :=
        removeLocked_good h ((h.member node).1 (by simpa using hin))
      exact ⟨t, _, by rw [if_neg hin, ht]; rfl, hgood, fun _ => ⟨by rw [hcfg], fun _ => hset⟩⟩
  | removeIterator k =>
    rw [step, removeIterator]
    cases hk : s.lru.fromTail k with
    | none => exact ⟨s, l, rfl, h, fun _ => ⟨rfl, id⟩⟩
    | some node =>
      obtain ⟨t, ht, hgood, hcfg, hset⟩ := removeLocked_good h (h.linked.fromTail_mem hk)
      exact ⟨t, _, ht, hgood, fun _ => ⟨by rw [hcfg], fun _ => hset⟩⟩
  | recordAccess node mode curr now lock =>
    have hsame := checkAccess_same s node mode curr
    rw [step, recordAccess]
    generalize s.checkAccess node mode curr = checked at hsame ⊢
    obtain ⟨b, u⟩ := checked
    have hu : Good u l := h.of_sameList hsame
    have hcfg : u.config = s.config := by
      change SameList s u at hsame
      rw [hsame]
    have hset : Settled s → Settled u := fun hs => hs.of_sameList hsame
    cases b with
    | false => exact ⟨u, l, rfl, hu, fun _ => ⟨by rw [hcfg], hset⟩⟩
    | true =>
      by_cases hlock : u.config.tryLockUpdate = true ∧ lock = false
      · exact ⟨u, l, by simp only [if_pos hlock]; rfl, hu, fun _ => ⟨by rw [hcfg], hset⟩⟩
      · obtain ⟨t, m, ht, hgood, hcfg', hset'⟩ := promote_good hu node curr now
        refine ⟨t, m, by simp only [if_neg hlock, ht]; rfl, hgood, fun _ => ⟨?_, ?_⟩⟩
        · rw [hcfg', hcfg]
        · exact fun hs => hset' (hset hs)
  | checkAccess node mode curr =>
    have hsame := checkAccess_same s node mode curr
    refine ⟨_, l, rfl, h.of_sameList hsame, fun _ => ⟨?_, fun hs => hs.of_sameList hsame⟩⟩
    rw [hsame]
  | promote node curr now =>
    obtain ⟨t, m, ht, hgood, hcfg, hset⟩ := promote_good h node curr now
    exact ⟨t, m, ht, hgood, fun _ => ⟨by rw [hcfg], hset⟩⟩
  | replace oldNode newNode =>
    obtain ⟨m, hgood, hcfg, hset⟩ := replace_good h oldNode newNode
    exact ⟨_, m, rfl, hgood, fun _ => ⟨by rw [hcfg], hset⟩⟩
  | setConfig newConfig now =>
    obtain ⟨t, ht, hgood, hcfg, hset⟩ := setConfig_good h newConfig now
    exact ⟨t, l, ht, hgood, fun hkeep => ⟨by rw [hcfg]; exact hkeep, hset hkeep⟩⟩

omit [DecidableEq ν] in
lemma init_good (config : Config) (now : ℕ) : Good (Container.init config now : Container ν) [] :=
  ⟨by simp [Container.init], fun _ => rfl,
    [], [], rfl, ⟨linked_empty, rfl, by simp [Container.init]⟩, rfl, by simp⟩

lemma settled_run (hgood : Good s []) {spec : ℕ} (hspec : spec ≠ 0)
    (hcfg : s.config.lruInsertionPointSpec = spec) {acts : List (Action ν)}
    (hkeep : ∀ a ∈ acts, KeepsSpec spec a) :
    ∃ t, Transition.run step s acts = some t ∧
      (1 ≤ t.lru.size → t.tailSize = max 1 (t.lru.size >>> spec)) := by
  have hempty : Settled s := by
    obtain ⟨l₁, l₂, hl, hsplit, -, -⟩ := hgood.tail
    obtain ⟨rfl, rfl⟩ := append_eq_nil_iff.1 hl.symm
    intro _
    rw [hsplit.size, hsplit.linked.size]
    rfl
  have hstep : ∀ (s : Container ν) a, KeepsSpec spec a →
      (∃ l, Good s l) ∧ s.config.lruInsertionPointSpec = spec ∧ Settled s →
      ∃ t, step s a = some t ∧
        (∃ l, Good t l) ∧ t.config.lruInsertionPointSpec = spec ∧ Settled t := by
    rintro s a hok ⟨⟨l, hl⟩, hcfg, hset⟩
    obtain ⟨t, m, ht, hm, hfix⟩ := step_good hl a
    rw [hcfg] at hfix
    exact ⟨t, ht, ⟨m, hm⟩, (hfix hok).1, (hfix hok).2 hset⟩
  obtain ⟨t, ht, -, hcfg', hset⟩ := Transition.run_returns hstep hkeep ⟨⟨[], hgood⟩, hcfg, hempty⟩
  refine ⟨t, ht, fun hone => ?_⟩
  have hlen := hset (by rw [hcfg']; exact hspec)
  rw [hcfg', tailTarget, if_neg (by omega)] at hlen
  exact hlen

/-- Four nodes and a tail of one half; then the insertion point is accessed and removed. -/
example :
    let config : Config := { lruInsertionPointSpec := 1 }
    let acts : List (Action ℕ) := [.add 0 0, .add 1 0, .add 2 0, .add 3 0,
      .recordAccess 1 .kRead 5 5 true, .remove 3]
    (Transition.run step (Container.init config 0) acts).map
      (fun s => (s.lru.size, s.insertionPoint, s.tailSize)) = some (3, some 0, 1) := by
  decide +kernel

end HybridCache.MMLru

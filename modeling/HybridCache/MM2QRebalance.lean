import HybridCache.MM2QInvariant

/-!
# Rebalancing the 2Q container

The loops of `rebalance` move the tail of a list to the head of another. Read from head to tail,
`Warm` with `WarmTail` and `Cold` with `ColdTail` are one list each: the first two loops cut a
last part off `Warm` and `Hot` and put it before `Cold`, and `adjustTail` only moves the border
between a list and its tail list. None of the loops reads a flag, and with flags that name the
lists every move keeps them so.
-/
namespace HybridCache.MM2Q

open Container MultiDList IntrusiveList Function List Option

variable {ν : Type*}

/-- The percentages that the constructors of `Config` accept. -/
def Config.checkLruSizes (c : Config) : Except String Unit :=
  let warmSizePercent := c.getWarmSizePercent
  if c.hotSizePercent = 100 then
    if c.coldSizePercent ≠ 0 ∧ warmSizePercent ≠ 0 then
      .error ("Invalid hot/cold/warm lru size " ++ toString c.hotSizePercent ++ "/" ++
        toString c.coldSizePercent ++ "/" ++ toString warmSizePercent ++
        ". When Hot is 100%, Warm and Cold must be 0.")
    else .ok ()
  else if c.hotSizePercent = 0 ∨ 100 < c.hotSizePercent ∨ c.coldSizePercent = 0 ∨
      100 ≤ c.coldSizePercent ∨ warmSizePercent = 0 ∨ 100 ≤ warmSizePercent then
    .error ("Invalid hot/cold/warm lru size " ++ toString c.hotSizePercent ++ "/" ++
      toString c.coldSizePercent ++ "/" ++ toString warmSizePercent ++
      ". Hot, Warm and Cold lru's must all have non-zero sizes.")
  else .ok ()

/-- What is left for `Warm` does not wrap around. -/
lemma Config.getWarmSizePercent_eq {c : Config} (h : c.checkLruSizes = .ok ()) :
    c.getWarmSizePercent = 100 - c.hotSizePercent - c.coldSizePercent := by
  have hwarm : c.getWarmSizePercent =
      ((100 - c.hotSizePercent - c.coldSizePercent : ℤ) % 2 ^ 64).toNat := rfl
  rw [Config.checkLruSizes] at h
  by_cases h100 : c.hotSizePercent = 100
  · rw [if_pos h100] at h
    by_cases hboth : c.coldSizePercent ≠ 0 ∧ c.getWarmSizePercent ≠ 0
    · rw [if_pos hboth] at h
      cases h
    · omega
  · rw [if_neg h100] at h
    by_cases hbad : c.hotSizePercent = 0 ∨ 100 < c.hotSizePercent ∨ c.coldSizePercent = 0 ∨
        100 ≤ c.coldSizePercent ∨ c.getWarmSizePercent = 0 ∨ 100 ≤ c.getWarmSizePercent
    · rw [if_pos hbad] at h
      cases h
    · omega

/-- From `s` to `u`, the nodes `warm` and `hot` have been cut off the lists and put before
`Cold`. -/
structure Demoted (s u : Container ν) (L M : LruType → List ν) (warm hot : List ν) : Prop
    extends Moved s u L M where
  lists : u.lru.Lists M
  agree : Agree s L → Agree u M
  fromWarm : L .Warm ++ L .WarmTail = M .Warm ++ M .WarmTail ++ warm
  fromHot : L .Hot = M .Hot ++ hot
  toCold : M .Cold ++ M .ColdTail = hot ++ warm ++ (L .Cold ++ L .ColdTail)

lemma Demoted.refl {s : Container ν} {L : LruType → List ν} (h : s.lru.Lists L) :
    Demoted s s L L [] [] where
  toMoved := Moved.refl s L
  lists := h
  agree := id
  fromWarm := (List.append_nil _).symm
  fromHot := (List.append_nil _).symm
  toCold := rfl

/-- The nodes of `Warm` go before those of `Hot`. -/
lemma Demoted.trans {s u v : Container ν} {L M N : LruType → List ν}
    {warm hot warm' hot' : List ν} (h : Demoted s u L M warm hot)
    (h' : Demoted u v M N warm' hot') (hside : warm' = [] ∨ hot = []) :
    Demoted s v L N (warm' ++ warm) (hot' ++ hot) where
  toMoved := h.toMoved.trans h'.toMoved
  lists := h'.lists
  agree := h'.agree ∘ h.agree
  fromWarm := by rw [h.fromWarm, h'.fromWarm, List.append_assoc]
  fromHot := by rw [h.fromHot, h'.fromHot, List.append_assoc]
  toCold := by
    rw [h'.toCold, h.toCold]
    rcases hside with rfl | rfl
    · simp
    · simp

variable [DecidableEq ν] {s : Container ν} {L : LruType → List ν}

section Loops

lemma move_tail {u : Container ν} (h : s.lru.Lists L) {n : ν} {i j : LruType} {f : Flags}
    (hn : s.lru.tail i = some n) (hj : j ≠ i) (hhot : j ≠ .Hot)
    (hu : u = { s with lru := s.lru.transfer n i j, flags := update s.flags n f })
    (htype : Agree s L → f.lruType (hasTails s) = j) :
    u.lru.Lists (transferred L n i j) ∧ Moved s u L (transferred L n i j) ∧
      (Agree s L → Agree u (transferred L n i j)) := by
  have hmem : n ∈ L i := mem_of_getLast? ((h.tail_eq i).symm.trans hn)
  refine ⟨?_, ⟨nodes_transferred h hmem hj, ?_, ?_, ?_⟩, ?_⟩
  · rw [hu]
    exact h.transfer hmem hj
  · rw [hu]
  · rw [hu]
  · rw [hu]
  · intro hagree
    exact (hagree.move hmem hj hhot hu (htype hagree)).1

lemma Agree.named_tail (h : Agree s L) {t : LruType} {n : ν} (hn : s.lru.tail t = some n) :
    n ∈ L t ∧ (s.flags n).lruType (hasTails s) = t := by
  have hmem : n ∈ L t := mem_of_getLast? ((h.lists.tail_eq t).symm.trans hn)
  exact ⟨hmem, h.named t n hmem⟩

section
variable (h : s.lru.Lists L)
include h

lemma tail_of_size {t : LruType} (hsize : 0 < s.lru.size t) : ∃ n, s.lru.tail t = some n := by
  rw [h.size_eq] at hsize
  rw [h.tail_eq]
  exact ⟨_, getLast?_eq_getLast_of_ne_nil (length_pos_iff.1 hsize)⟩

lemma popWarm_spec (hsize : 0 < s.lru.size .Warm + s.lru.size .WarmTail) :
    ∃ u M n, s.popWarm = some u ∧ Demoted s u L M [n] [] := by
  rw [popWarm]
  by_cases htail : 0 < s.lru.size .WarmTail
  · obtain ⟨n, hn⟩ := tail_of_size h htail
    have hcut := h.transferred_source hn (j := .Cold) (by decide)
    obtain ⟨hlists, hmoved, hagree⟩ := move_tail h hn (j := .Cold)
      (u := ((s.transfer n .WarmTail .Cold).unmarkTail n).markCold n) (by decide) (by decide)
      (by simp [markCold, unmarkTail, setFlags, Container.transfer])
      (fun ha => lruType_warmTail_cold _ _ (ha.named_tail hn).2)
    refine ⟨_, _, n, by rw [if_pos htail, hn, map_some], hmoved, hlists, hagree, ?_, ?_, ?_⟩
    · rw [hcut, transferred_of_ne L n (t := .Warm) (by decide) (by decide), append_assoc]
    · rw [transferred_of_ne L n (t := .Hot) (by decide) (by decide), append_nil]
    · rw [transferred_target, transferred_of_ne L n (t := .ColdTail) (by decide) (by decide)]
      rfl
  · obtain ⟨n, hn⟩ := tail_of_size h (t := .Warm) (by omega)
    have hempty : L .WarmTail = [] := by
      rw [h.size_eq] at htail
      exact length_eq_zero_iff.1 (by omega)
    have hcut := h.transferred_source hn (j := .Cold) (by decide)
    obtain ⟨hlists, hmoved, hagree⟩ := move_tail h hn (j := .Cold)
      (u := (s.transfer n .Warm .Cold).markCold n) (by decide) (by decide) rfl
      (fun ha => lruType_warm_cold _ _ (ha.named_tail hn).2)
    refine ⟨_, _, n, by rw [if_neg htail, hn, map_some], hmoved, hlists, hagree, ?_, ?_, ?_⟩
    · rw [transferred_of_ne L n (t := .WarmTail) (by decide) (by decide), hempty,
        append_nil, append_nil]
      exact hcut
    · rw [transferred_of_ne L n (t := .Hot) (by decide) (by decide), append_nil]
    · rw [transferred_target, transferred_of_ne L n (t := .ColdTail) (by decide) (by decide)]
      rfl

lemma shrinkWarm_spec (expected : ℕ) {fuel : ℕ}
    (hfuel : s.lru.size .Warm + s.lru.size .WarmTail < fuel) :
    ∃ u M warm, s.shrinkWarm expected fuel = some u ∧ Demoted s u L M warm [] ∧
      (M .Warm).length + (M .WarmTail).length ≤ expected := by
  induction fuel generalizing s L with
  | zero => omega
  | succ fuel ih =>
    rw [shrinkWarm]
    by_cases hlarge : expected < s.lru.size .Warm + s.lru.size .WarmTail
    · obtain ⟨v, N, n, hpop, hround⟩ := popWarm_spec h (by omega)
      have hlen := congrArg length hround.fromWarm
      simp only [length_append, length_singleton, ← h.size_eq, ← hround.lists.size_eq] at hlen
      obtain ⟨u, M, warm, hrest, hrounds, hexit⟩ := ih hround.lists (by omega)
      refine ⟨u, M, _, ?_, hround.trans hrounds (.inr rfl), hexit⟩
      rw [if_pos hlarge, hpop, bind_some, hrest]
    · rw [h.size_eq, h.size_eq, Nat.not_lt] at hlarge
      refine ⟨s, L, [], if_neg ?_, Demoted.refl h, hlarge⟩
      rw [h.size_eq, h.size_eq]
      omega

lemma popHot_spec (hsize : 0 < s.lru.size .Hot) :
    ∃ u M n, s.popHot = some u ∧ Demoted s u L M [] [n] := by
  obtain ⟨n, hn⟩ := tail_of_size h hsize
  have hcut := h.transferred_source hn (j := .Cold) (by decide)
  obtain ⟨hlists, hmoved, hagree⟩ := move_tail h hn (j := .Cold)
    (u := ((s.transfer n .Hot .Cold).unmarkHot n).markCold n) (by decide) (by decide)
    (by simp [markCold, unmarkHot, setFlags, Container.transfer])
    (fun ha => lruType_hot_cold _ _ (ha.hot n (ha.named_tail hn).1))
  refine ⟨_, _, n, by rw [popHot, hn, map_some], hmoved, hlists, hagree, ?_, hcut, ?_⟩
  · rw [transferred_of_ne L n (t := .Warm) (by decide) (by decide),
      transferred_of_ne L n (t := .WarmTail) (by decide) (by decide), append_nil]
  · rw [transferred_target, transferred_of_ne L n (t := .ColdTail) (by decide) (by decide)]
    rfl

lemma shrinkHot_spec (expected : ℕ) {fuel : ℕ} (hfuel : s.lru.size .Hot < fuel) :
    ∃ u M hot, s.shrinkHot expected fuel = some u ∧ Demoted s u L M [] hot ∧
      (M .Hot).length ≤ expected := by
  induction fuel generalizing s L with
  | zero => omega
  | succ fuel ih =>
    rw [shrinkHot]
    by_cases hlarge : expected < s.lru.size .Hot
    · obtain ⟨v, N, n, hpop, hround⟩ := popHot_spec h (by omega)
      have hlen := congrArg length hround.fromHot
      simp only [length_append, length_singleton, ← h.size_eq, ← hround.lists.size_eq] at hlen
      obtain ⟨u, M, hot, hrest, hrounds, hexit⟩ := ih hround.lists (by omega)
      refine ⟨u, M, _, ?_, hround.trans hrounds (.inl rfl), hexit⟩
      rw [if_pos hlarge, hpop, bind_some, hrest]
    · refine ⟨s, L, [], if_neg hlarge, Demoted.refl h, ?_⟩
      rw [← h.size_eq]
      omega

end

def IsTailOf (tailList list : LruType) : Prop :=
  (list = .Cold ∧ tailList = .ColdTail) ∨ (list = .Warm ∧ tailList = .WarmTail)

section
variable (h : s.lru.Lists L) {list tailList : LruType} (hpair : IsTailOf tailList list)
include h hpair

/-- One round moves the last node of the list to the head of its tail list. -/
lemma adjustTail_round {n : ν} (hn : s.lru.tail list = some n) (htails : hasTails s = true) :
    Demoted s ((s.markTail n).transfer n list tailList) L (transferred L n list tailList) [] [] := by
  have hne : tailList ≠ list := by
    rcases hpair with ⟨rfl, rfl⟩ | ⟨rfl, rfl⟩ <;> decide
  have hhot : tailList ≠ .Hot := by
    rcases hpair with ⟨rfl, rfl⟩ | ⟨rfl, rfl⟩ <;> decide
  have hmarked : Agree s L → Flags.lruType { s.flags n with mmFlag1 := true } (hasTails s) =
      tailList := by
    intro ha
    have htype := (ha.named_tail hn).2
    rw [htails] at htype ⊢
    rcases hpair with ⟨rfl, rfl⟩ | ⟨rfl, rfl⟩
    · exact lruType_cold_coldTail _ htype
    · exact lruType_warm_warmTail _ htype
  obtain ⟨hlists, hmoved, hagree⟩ :=
    move_tail h hn (u := (s.markTail n).transfer n list tailList) hne hhot rfl hmarked
  have hcut := h.transferred_source hn hne
  rcases hpair with ⟨rfl, rfl⟩ | ⟨rfl, rfl⟩
  · refine ⟨hmoved, hlists, hagree, ?_, ?_, ?_⟩
    · rw [transferred_of_ne L n (t := .Warm) (by decide) (by decide),
        transferred_of_ne L n (t := .WarmTail) (by decide) (by decide), append_nil]
    · rw [transferred_of_ne L n (t := .Hot) (by decide) (by decide), append_nil]
    · rw [transferred_target, hcut]
      simp
  · refine ⟨hmoved, hlists, hagree, ?_, ?_, ?_⟩
    · rw [transferred_target, hcut]
      simp
    · rw [transferred_of_ne L n (t := .Hot) (by decide) (by decide), append_nil]
    · rw [transferred_of_ne L n (t := .Cold) (by decide) (by decide),
        transferred_of_ne L n (t := .ColdTail) (by decide) (by decide)]
      rfl

lemma adjustTail_spec {fuel : ℕ} (hfuel : s.lru.size list < fuel) :
    ∃ u M, s.adjustTail list tailList fuel = some u ∧ Demoted s u L M [] [] ∧
      (s.config.tailSize ≤ (M tailList).length ∨ M list = []) ∧
      ∀ t, t ≠ list → t ≠ tailList → M t = L t := by
  have hne : tailList ≠ list := by
    rcases hpair with ⟨rfl, rfl⟩ | ⟨rfl, rfl⟩ <;> decide
  induction fuel generalizing s L with
  | zero => omega
  | succ fuel ih =>
    rw [adjustTail]
    cases hn : s.lru.tail list with
    | none =>
      have hempty : L list = [] := getLast?_eq_none_iff.1 ((h.tail_eq list).symm.trans hn)
      exact ⟨s, L, rfl, Demoted.refl h, .inr hempty, fun _ _ _ => rfl⟩
    | some n =>
      by_cases hroom : s.lru.size tailList + 1 ≤ s.config.tailSize
      · have hround := adjustTail_round h hpair hn (decide_eq_true (by omega))
        have hlen := congrArg length (h.transferred_source hn hne)
        rw [length_append, length_singleton, ← h.size_eq, ← hround.lists.size_eq] at hlen
        obtain ⟨u, M, hrest, hrounds, hexit, hsame⟩ := ih hround.lists (by omega)
        refine ⟨u, M, (if_pos hroom).trans hrest, hround.trans hrounds (.inl rfl), hexit, ?_⟩
        intro t hlist htail
        rw [hsame t hlist htail, transferred_of_ne L n hlist htail]
      · rw [h.size_eq] at hroom
        refine ⟨s, L, if_neg ?_, Demoted.refl h, .inl (by omega), fun _ _ _ => rfl⟩
        rw [h.size_eq]
        exact hroom

end

end Loops

omit [DecidableEq ν] in
lemma totalSize_eq (m : MultiDList LruType ν) :
    m.totalSize = m.size .Warm + m.size .WarmTail + m.size .Hot + m.size .Cold +
      m.size .ColdTail := by
  have huniv : (Finset.univ : Finset LruType) = {.Warm, .WarmTail, .Hot, .Cold, .ColdTail} := rfl
  rw [totalSize, huniv]
  simp
  omega

lemma Demoted.totalSize_eq {u : Container ν} {M : LruType → List ν} {warm hot : List ν}
    (h : s.lru.Lists L) (hd : Demoted s u L M warm hot) : u.lru.totalSize = s.lru.totalSize := by
  have hwarm := congrArg length hd.fromWarm
  have hhot := congrArg length hd.fromHot
  have hcold := congrArg length hd.toCold
  simp only [length_append] at hwarm hhot hcold
  simp only [MM2Q.totalSize_eq, h.size_eq, hd.lists.size_eq]
  omega

lemma rebalance_lists (h : s.lru.Lists L) :
    ∃ u M warm hot, s.rebalance = some u ∧ Demoted s u L M warm hot ∧
      (M .Warm).length + (M .WarmTail).length ≤ s.expectedSize s.config.getWarmSizePercent ∧
      (M .Hot).length ≤ s.expectedSize s.config.hotSizePercent ∧
      (s.config.tailSize ≤ (M .WarmTail).length ∨ M .Warm = []) ∧
      (s.config.tailSize ≤ (M .ColdTail).length ∨ M .Cold = []) := by
  have hfuel : ∀ (m : MultiDList LruType ν) t, m.size t < m.totalSize + 1 := by
    intro m t
    rw [totalSize_eq]
    cases t <;> omega
  have hwarm : s.lru.size .Warm + s.lru.size .WarmTail < s.lru.totalSize + 1 := by
    rw [totalSize_eq]
    omega
  obtain ⟨s₁, L₁, warm, h₁, hd₁, hle₁⟩ :=
    shrinkWarm_spec h (s.expectedSize s.config.getWarmSizePercent) hwarm
  obtain ⟨s₂, L₂, hot, h₂, hd₂, hle₂⟩ :=
    shrinkHot_spec hd₁.lists (s₁.expectedSize s₁.config.hotSizePercent) (hfuel s₁.lru .Hot)
  obtain ⟨s₃, L₃, h₃, hd₃, hcold, hsame₃⟩ :=
    adjustTail_spec hd₂.lists (.inl ⟨rfl, rfl⟩) (hfuel s₂.lru .Cold)
  obtain ⟨s₄, L₄, h₄, hd₄, hwarmTail, hsame₄⟩ :=
    adjustTail_spec hd₃.lists (.inr ⟨rfl, rfl⟩) (hfuel s₃.lru .Warm)
  have hconfig₂ : s₂.config = s.config := hd₂.config.trans hd₁.config
  have hexpected : s₁.expectedSize s₁.config.hotSizePercent =
      s.expectedSize s.config.hotSizePercent := by
    rw [expectedSize, expectedSize, hd₁.config, hd₁.totalSize_eq h]
  -- the moves after a loop leave the lists it has shrunk together
  have hlenWarm := congrArg length hd₂.fromWarm
  have hlenWarm₃ := congrArg length hd₃.fromWarm
  have hlenWarm₄ := congrArg length hd₄.fromWarm
  simp only [length_append, length_nil, Nat.add_zero] at hlenWarm hlenWarm₃ hlenWarm₄
  rw [hexpected] at hle₂
  refine ⟨s₄, L₄, _, _, ?_, ((hd₁.trans hd₂ (.inl rfl)).trans hd₃ (.inl rfl)).trans hd₄ (.inl rfl),
    by omega, ?_, ?_, ?_⟩
  · simp only [rebalance, h₁, h₂, h₃, h₄, bind_some]
  · rw [hsame₄ .Hot (by decide) (by decide), hsame₃ .Hot (by decide) (by decide)]
    exact hle₂
  · rw [← hconfig₂, ← hd₃.config]
    exact hwarmTail
  · rw [hsame₄ .Cold (by decide) (by decide), hsame₄ .ColdTail (by decide) (by decide), ← hconfig₂]
    exact hcold

lemma rebalance_spec (h : Agree s L) : ∃ u M, s.rebalance = some u ∧ Agree u M ∧ Moved s u L M := by
  obtain ⟨u, M, warm, hot, hu, hd, -⟩ := rebalance_lists h.lists
  exact ⟨u, M, hu, hd.agree h, hd.toMoved⟩

omit [DecidableEq ν] in
lemma expectedSize_le (s : Container ν) (percent : ℕ) :
    s.expectedSize percent ≤ percent * s.lru.totalSize / 100 :=
  Nat.div_le_div_right (Nat.mod_le _ _)

/-- `rebalance` ends, whatever the flags are. No node is lost and none appears twice: the nodes
`warm` and `hot` have left the ends of their lists for the front of `Cold`, in their order. -/
theorem rebalance_establishes_limits (h : s.lru.Lists L)
    (hconfig : s.config.checkLruSizes = .ok ()) :
    ∃ u M warm hot, s.rebalance = some u ∧ Demoted s u L M warm hot ∧
      (M .Warm).length + (M .WarmTail).length ≤
        (100 - s.config.hotSizePercent - s.config.coldSizePercent) * u.lru.totalSize / 100 ∧
      (M .Hot).length ≤ s.config.hotSizePercent * u.lru.totalSize / 100 ∧
      (s.config.tailSize ≤ (M .WarmTail).length ∨ M .Warm = []) ∧
      (s.config.tailSize ≤ (M .ColdTail).length ∨ M .Cold = []) := by
  obtain ⟨u, M, warm, hot, hu, hd, hwarm, hhot, htails⟩ := rebalance_lists h
  refine ⟨u, M, warm, hot, hu, hd, ?_, ?_, htails⟩
  · rw [← Config.getWarmSizePercent_eq hconfig, hd.totalSize_eq h]
    exact hwarm.trans (expectedSize_le _ _)
  · rw [hd.totalSize_eq h]
    exact hhot.trans (expectedSize_le _ _)

def fourHot : Container ℕ :=
  { Container.init { tailSize := 2 } 0 with
    lru := [0, 1, 2, 3].foldl (fun m n => m.edit .Hot (·.linkAtHead n)) .empty }

def fourHotLists : LruType → List ℕ := update (fun _ => []) .Hot [3, 2, 1, 0]

lemma fourHot_lists : fourHot.lru.Lists fourHotLists := by
  have h₀ := (lists_empty (ι := LruType)).linkAtHead .Hot (n := 0) (by simp)
  have h₁ := h₀.linkAtHead .Hot (n := 1) (by decide)
  have h₂ := h₁.linkAtHead .Hot (n := 2) (by decide)
  have h₃ := h₂.linkAtHead .Hot (n := 3) (by decide)
  simp only [update_idem, update_self] at h₃
  exact h₃

theorem fourHot_rebalanced :
    ∃ u M warm hot, fourHot.rebalance = some u ∧ Demoted fourHot u fourHotLists M warm hot ∧
      (M .Warm).length + (M .WarmTail).length ≤ (100 - 30 - 30) * u.lru.totalSize / 100 ∧
      (M .Hot).length ≤ 30 * u.lru.totalSize / 100 ∧
      (2 ≤ (M .WarmTail).length ∨ M .Warm = []) ∧ (2 ≤ (M .ColdTail).length ∨ M .Cold = []) :=
  rebalance_establishes_limits fourHot_lists rfl

end HybridCache.MM2Q

import HybridCache.HashTableIterator

/-!
# Every key that stays is produced once

Since a key keeps its bucket and every bucket is read once, in order, a key can only be
copied when its own bucket is read. The invariant speaks about `taken`, the copies of all
buckets read so far: what has been produced is a first part of it.
-/
set_option linter.unusedSectionVars false

namespace HybridCache.ChainedHashTable
open Transition IntrusiveList List Option

variable {K ν : Type*} {p : ℕ}

def entryKeys (cfg : Config K ν) (l : List (Option ν)) : List K :=
  l.filterMap (Option.map cfg.getKey)

section Entries
variable (cfg : Config K ν)

lemma entryKeys_append (l₁ l₂ : List (Option ν)) :
    entryKeys cfg (l₁ ++ l₂) = entryKeys cfg l₁ ++ entryKeys cfg l₂ :=
  filterMap_append

def snapshot (grab : ν → Grab) (l : List ν) : List (Option ν) :=
  l.filterMap fun n => (grab n).entry n

lemma collect_eq {next : ν → Option ν} (grab : ν → Grab) {h : Option ν} {l : List ν} {fuel : ℕ}
    (hs : Segment next h l none) (hfuel : l.length < fuel) :
    collect next grab fuel h = some (snapshot grab l) := by
  induction l generalizing h fuel with
  | nil =>
    obtain ⟨fuel, rfl⟩ : ∃ k, fuel = k + 1 := ⟨fuel - 1, by simp at hfuel; omega⟩
    rw [hs]
    rfl
  | cons n l ih =>
    obtain ⟨fuel, rfl⟩ : ∃ k, fuel = k + 1 := ⟨fuel - 1, by simp at hfuel; omega⟩
    obtain ⟨rfl, hl⟩ := hs
    rw [collect, ih hl (by simpa using hfuel), map_some, snapshot, snapshot, filterMap_cons]
    cases (grab n).entry n <;> rfl

/-- Inside a cycle the loop over the bucket does not end. -/
lemma collect_cycle {next : ν → Option ν} (cycle : List ν)
    (hcycle : ∀ n ∈ cycle, ∃ m ∈ cycle, next n = some m) (grab : ν → Grab) (fuel : ℕ) {n : ν}
    (hn : n ∈ cycle) : collect next grab fuel (some n) = none := by
  induction fuel generalizing n with
  | zero => rfl
  | succ fuel ih =>
    obtain ⟨m, hm, hnext⟩ := hcycle n hn
    rw [collect, hnext, ih hm, map_none]

lemma entryKeys_snapshot_sublist (grab : ν → Grab) (l : List ν) :
    (entryKeys cfg (snapshot grab l)).Sublist (l.map cfg.getKey) := by
  induction l with
  | nil => exact List.Sublist.refl _
  | cons n l ih =>
    rw [snapshot, filterMap_cons, map_cons]
    cases grab n with
    | handle => exact ih.cons_cons (cfg.getKey n)
    | null | exception => exact ih.cons (cfg.getKey n)

lemma mem_entryKeys_snapshot {grab : ν → Grab} {l : List ν} {n : ν} (hn : n ∈ l)
    (hgrab : grab n = .handle) : cfg.getKey n ∈ entryKeys cfg (snapshot grab l) := by
  refine mem_filterMap.2 ⟨some n, mem_filterMap.2 ⟨n, hn, ?_⟩, rfl⟩
  rw [hgrab]
  rfl

end Entries

variable [Fintype ν]

def IterState.pending (s : IterState ν p) : List (Option ν) :=
  if s.phase = .ready then s.it.bucketElems.drop (s.it.curSor + 1) else []

def IterState.reached (s : IterState ν p) : ℕ :=
  match s.phase with
  | .scanning => s.it.currBucket
  | .ready => s.it.currBucket + 1
  | .atEnd => 2 ^ p

/-- The invariant of an iteration. -/
structure Scanned (cfg : Config K ν) (s : IterState ν p) (taken : List (Option ν)) : Prop where
  refines : ∃ M chain, Refines cfg s.table M chain
  visited : s.visited = List.range s.reached
  bound : s.phase ≠ .atEnd → s.it.currBucket < 2 ^ p
  ended : s.phase = .atEnd → s.it = ⟨2 ^ p, 0, []⟩
  shown : taken = s.produced ++ s.pending
  cursor : s.phase = .ready → s.it.curSor < s.it.bucketElems.length
  short : s.it.bucketElems.length ≤ Fintype.card ν
  nodup : (entryKeys cfg taken).Nodup
  bucket : ∀ k ∈ entryKeys cfg taken, (getBucket cfg p k).val < s.reached

def IterState.remaining (s : IterState ν p) : ℕ :=
  (2 ^ p - s.reached) * (Fintype.card ν + 1) +
    if s.phase = .ready then s.it.bucketElems.length - s.it.curSor else 0

def Covered (cfg : Config K ν) (k : K) (s : IterState ν p) (taken : List (Option ν)) : Prop :=
  (getBucket cfg p k).val < s.reached → k ∈ entryKeys cfg taken

section Moves
variable [DecidableEq K] [DecidableEq ν] {cfg : Config K ν} {s : IterState ν p}
  {taken : List (Option ν)}

lemma reached_nextBucket (hbound : s.it.currBucket < 2 ^ p) :
    s.nextBucket.reached = s.it.currBucket + 1 := by
  rw [IterState.reached, IterState.nextBucket]
  by_cases h : s.it.currBucket + 1 < 2 ^ p
  · simp only [if_pos h]
  · simp only [if_neg h]
    omega

lemma pending_nextBucket : s.nextBucket.pending = [] := by
  rw [IterState.pending, IterState.nextBucket]
  by_cases h : s.it.currBucket + 1 < 2 ^ p
  · simp [h]
  · simp [h]

/-- Going on to the next bucket when everything copied has been produced. -/
lemma Scanned.nextBucket (href : ∃ M chain, Refines cfg s.table M chain)
    (hvisited : s.visited = List.range (s.it.currBucket + 1))
    (hbound : s.it.currBucket < 2 ^ p) (hshown : taken = s.produced)
    (hnodup : (entryKeys cfg taken).Nodup)
    (hbucket : ∀ k ∈ entryKeys cfg taken, (getBucket cfg p k).val < s.it.currBucket + 1) :
    Scanned cfg s.nextBucket taken := by
  refine ⟨href, ?_, ?_, ?_, ?_, ?_, ?_, hnodup, ?_⟩
  · rw [reached_nextBucket hbound]
    exact hvisited
  · intro hphase
    by_contra h
    refine hphase ?_
    exact if_neg h
  · intro hphase
    by_cases h : s.it.currBucket + 1 < 2 ^ p
    · simp [IterState.nextBucket, h] at hphase
    · change (⟨s.it.currBucket + 1, 0, []⟩ : Iterator ν) = _
      rw [show s.it.currBucket + 1 = 2 ^ p by omega]
  · rw [pending_nextBucket, append_nil]
    exact hshown
  · intro hphase
    by_cases h : s.it.currBucket + 1 < 2 ^ p <;> simp [IterState.nextBucket, h] at hphase
  · exact Nat.zero_le _
  · rw [reached_nextBucket hbound]
    exact hbucket

lemma Scanned.visit (h : Scanned cfg s taken) (hphase : s.phase = .scanning) (grab : ν → Grab) :
    ∃ (M : K → Option ν) (chain : Fin (2 ^ p) → List ν), Refines cfg s.table M chain ∧
      ∃ hb : s.it.currBucket < 2 ^ p, getBucketElems s.table grab s.it.currBucket =
          some (snapshot grab (chain ⟨s.it.currBucket, hb⟩)) ∧
        Scanned cfg (s.afterVisit (snapshot grab (chain ⟨s.it.currBucket, hb⟩)))
          (taken ++ snapshot grab (chain ⟨s.it.currBucket, hb⟩)) := by
  obtain ⟨M, chain, href⟩ := h.refines
  have hb : s.it.currBucket < 2 ^ p := h.bound (by rw [hphase]; decide)
  have hreached : s.reached = s.it.currBucket := by rw [IterState.reached, hphase]
  have hpending : s.pending = [] := by simp [IterState.pending, hphase]
  have hlen : (chain ⟨s.it.currBucket, hb⟩).length ≤ Fintype.card ν := (href.nodup _).length_le_card
  have hshown : taken = s.produced := by rw [h.shown, hpending, append_nil]
  have hnodup : (entryKeys cfg (taken ++ snapshot grab (chain ⟨s.it.currBucket, hb⟩))).Nodup := by
    rw [entryKeys_append]
    have hsub := entryKeys_snapshot_sublist cfg grab (chain ⟨s.it.currBucket, hb⟩)
    refine nodup_append.2 ⟨h.nodup, hsub.nodup (href.keys_nodup _), ?_⟩
    rintro k hk k' hk' rfl
    obtain ⟨n, hn, rfl⟩ := mem_map.1 (hsub.subset hk')
    have hlt := h.bucket _ hk
    rw [((href.mem _ n).1 hn).1, hreached] at hlt
    exact lt_irrefl _ hlt
  have hbucket : ∀ k ∈ entryKeys cfg (taken ++ snapshot grab (chain ⟨s.it.currBucket, hb⟩)),
      (getBucket cfg p k).val < s.it.currBucket + 1 := by
    intro k hk
    rw [entryKeys_append, mem_append] at hk
    rcases hk with hk | hk
    · have := h.bucket k hk
      omega
    · obtain ⟨n, hn, rfl⟩ := mem_map.1 ((entryKeys_snapshot_sublist cfg grab _).subset hk)
      rw [((href.mem _ n).1 hn).1]
      exact Nat.lt_succ_self _
  have hvisited : s.visited ++ [s.it.currBucket] = range (s.it.currBucket + 1) := by
    rw [h.visited, hreached, range_succ]
  refine ⟨M, chain, href, hb, ?_, ?_⟩
  · rw [getBucketElems, dif_pos hb, collect_eq grab (href.segment _) (by omega)]
  · have hshort : (snapshot grab (chain ⟨s.it.currBucket, hb⟩)).length ≤ Fintype.card ν :=
      (length_filterMap_le _ _).trans hlen
    cases helems : snapshot grab (chain ⟨s.it.currBucket, hb⟩) with
    | nil =>
      rw [helems] at hnodup hbucket
      exact Scanned.nextBucket ⟨M, chain, href⟩ hvisited hb
        (by rw [append_nil]; exact hshown) hnodup hbucket
    | cons e rest =>
      rw [helems] at hnodup hbucket hshort
      refine ⟨⟨M, chain, href⟩, hvisited, fun _ => hb, by simp [IterState.afterVisit], ?_,
        fun _ => Nat.succ_pos _, hshort, hnodup, hbucket⟩
      rw [hshown]
      simp [IterState.afterVisit, IterState.pending]

lemma Scanned.advance (h : Scanned cfg s taken) (hphase : s.phase = .ready) :
    Scanned cfg s.afterAdvance taken := by
  have hb : s.it.currBucket < 2 ^ p := h.bound (by rw [hphase]; decide)
  have hreached : s.reached = s.it.currBucket + 1 := by rw [IterState.reached, hphase]
  have hpending : s.pending = s.it.bucketElems.drop (s.it.curSor + 1) := by
    simp [IterState.pending, hphase]
  have hshown := h.shown
  have hvisited := h.visited
  have hbucket := h.bucket
  rw [hreached] at hvisited hbucket
  rw [hpending] at hshown
  rw [IterState.afterAdvance]
  by_cases hcursor : s.it.curSor + 1 < s.it.bucketElems.length
  · rw [getElem?_eq_getElem hcursor]
    refine ⟨h.refines, ?_, fun _ => hb, by simp [hphase], ?_, fun _ => hcursor, h.short,
      h.nodup, ?_⟩
    · simpa [IterState.reached, hphase] using hvisited
    · rw [hshown, drop_eq_getElem_cons hcursor]
      simp [IterState.pending, hphase]
    · simpa [IterState.reached, hphase] using hbucket
  · rw [getElem?_eq_none (by omega)]
    rw [drop_eq_nil_of_le (by omega), append_nil] at hshown
    exact Scanned.nextBucket h.refines hvisited hb hshown h.nodup hbucket

lemma reached_afterVisit (hb : s.it.currBucket < 2 ^ p) (elems : List (Option ν)) :
    (s.afterVisit elems).reached = s.it.currBucket + 1 := by
  cases elems with
  | nil => exact reached_nextBucket hb
  | cons e rest => rfl

lemma reached_afterAdvance (hb : s.it.currBucket < 2 ^ p) (hphase : s.phase = .ready) :
    s.afterAdvance.reached = s.it.currBucket + 1 := by
  rw [IterState.afterAdvance]
  cases s.it.bucketElems[s.it.curSor + 1]? with
  | none => exact reached_nextBucket hb
  | some e => simp [IterState.reached, hphase]

end Moves

section Steps
variable [DecidableEq K] [DecidableEq ν] {cfg : Config K ν} {s s' : IterState ν p}
  {taken : List (Option ν)} {a : IterAction K ν}

/-- The key is in the table, and if a bucket is read now, a handle to its node can be had. -/
def keyPresent (cfg : Config K ν) (k : K) (s : IterState ν p) (a : IterAction K ν) : Bool :=
  match findInBucket cfg s.table k (getBucket cfg p k), a with
  | some (some n), .visit grab => decide (grab n = .handle)
  | some (some _), _ => true
  | _, _ => false

/-- The calls of other threads replace nodes by nodes of the same key. -/
def IterAction.SameKey (cfg : Config K ν) : IterAction K ν → Prop
  | .call op => op.SameKey cfg
  | _ => True

lemma iterStep_scanned (h : Scanned cfg s taken) (hop : a.SameKey cfg)
    (hs : iterStep cfg s a = some s') :
    ∃ taken', Scanned cfg s' taken' ∧
      ∀ k, keyPresent cfg k s a = true → Covered cfg k s taken → Covered cfg k s' taken' := by
  cases a with
  | call op =>
    obtain ⟨M, chain, href⟩ := h.refines
    obtain ⟨t', chain', hcall, href'⟩ := simulates_call href op hop
    rw [iterStep, hcall] at hs
    cases hs
    exact ⟨taken, ⟨⟨_, chain', href'⟩, h.visited, h.bound, h.ended, h.shown, h.cursor, h.short,
      h.nodup, h.bucket⟩, fun _ _ hcov => hcov⟩
  | visit grab =>
    rw [iterStep] at hs
    split_ifs at hs with hphase
    obtain ⟨M, chain, href, hb, helems, hscan⟩ := h.visit hphase grab
    rw [helems] at hs
    cases hs
    refine ⟨_, hscan, ?_⟩
    intro k hpresent hcov hlt
    unfold keyPresent at hpresent
    rw [href.findInBucket_eq] at hpresent
    have hreached : s.reached = s.it.currBucket := by rw [IterState.reached, hphase]
    rw [reached_afterVisit hb] at hlt
    rw [entryKeys_append, mem_append]
    by_cases hold : (getBucket cfg p k).val < s.it.currBucket
    · exact .inl (hcov (by rw [hreached]; exact hold))
    · -- this is the bucket of the key
      have hbucket : getBucket cfg p k = ⟨s.it.currBucket, hb⟩ := Fin.ext (by simp; omega)
      obtain ⟨n, hM⟩ : ∃ n, M k = some n := by
        cases hM : M k with
        | none => simp [hM] at hpresent
        | some n => exact ⟨n, rfl⟩
      rw [hM] at hpresent
      have hkey := href.keyed k n hM
      have hmem : n ∈ chain ⟨s.it.currBucket, hb⟩ := by
        rw [href.mem, hkey]
        exact ⟨hbucket, hM⟩
      rw [← hkey]
      exact .inr (mem_entryKeys_snapshot cfg hmem (of_decide_eq_true hpresent))
  | advance =>
    rw [iterStep] at hs
    split_ifs at hs with hphase
    cases hs
    refine ⟨taken, h.advance hphase, ?_⟩
    intro k _ hcov hlt
    have hb : s.it.currBucket < 2 ^ p := h.bound (by rw [hphase]; decide)
    rw [reached_afterAdvance hb hphase] at hlt
    refine hcov ?_
    rw [IterState.reached, hphase]
    exact hlt

/-- Every step of the iterator brings the end nearer. -/
lemma iterStep_remaining (h : Scanned cfg s taken) (hs : iterStep cfg s a = some s') :
    s'.remaining + a.isIterator.toNat ≤ s.remaining := by
  cases a with
  | call op =>
    obtain ⟨r, -, rfl⟩ := map_eq_some_iff.1 hs
    exact le_refl _
  | visit grab =>
    rw [iterStep] at hs
    split_ifs at hs with hphase
    obtain ⟨M, chain, href, hb, helems, hscan⟩ := h.visit hphase grab
    rw [helems] at hs
    cases hs
    have hshort := hscan.short
    have hreached : s.reached = s.it.currBucket := by rw [IterState.reached, hphase]
    rw [IterState.remaining, IterState.remaining, reached_afterVisit hb, hreached,
      if_neg (show ¬ s.phase = .ready by rw [hphase]; decide)]
    have hsplit : 2 ^ p - s.it.currBucket = 2 ^ p - (s.it.currBucket + 1) + 1 := by omega
    rw [hsplit, Nat.add_mul]
    change _ + 1 ≤ _
    split_ifs <;> omega
  | advance =>
    rw [iterStep] at hs
    split_ifs at hs with hphase
    cases hs
    have hb : s.it.currBucket < 2 ^ p := h.bound (by rw [hphase]; decide)
    have hcursor := h.cursor hphase
    have hreached : s.reached = s.it.currBucket + 1 := by rw [IterState.reached, hphase]
    rw [IterState.remaining, IterState.remaining, reached_afterAdvance hb hphase, hreached,
      if_pos hphase]
    have hleft : (if s.afterAdvance.phase = .ready then
        s.afterAdvance.it.bucketElems.length - s.afterAdvance.it.curSor else 0) + 1 ≤
          s.it.bucketElems.length - s.it.curSor := by
      rw [IterState.afterAdvance]
      by_cases hnext : s.it.curSor + 1 < s.it.bucketElems.length
      · rw [getElem?_eq_getElem hnext]
        simp only [hphase, if_true]
        omega
      · rw [getElem?_eq_none (by omega)]
        have hnot : s.nextBucket.phase ≠ .ready := by
          by_cases h : s.it.currBucket + 1 < 2 ^ p <;> simp [IterState.nextBucket, h]
        rw [if_neg hnot]
        omega
    change _ + 1 ≤ _
    omega

lemma start_scanned {t : Table ν p} {M : K → Option ν} {chain : Fin (2 ^ p) → List ν}
    (href : Refines cfg t M chain) : Scanned cfg (.start t) [] where
  refines := ⟨M, chain, href⟩
  visited := rfl
  bound := fun _ => Nat.two_pow_pos p
  ended := by simp [IterState.start]
  shown := rfl
  cursor := by simp [IterState.start]
  short := Nat.zero_le _
  nodup := List.nodup_nil
  bucket := by simp [entryKeys]

lemma run_covered {k : K} {acts : List (IterAction K ν)} (hacts : ∀ a ∈ acts, a.SameKey cfg)
    (hstay : Meets (iterStep cfg) (fun s a => keyPresent cfg k s a = true) s acts)
    (h : Scanned cfg s taken) (hcov : Covered cfg k s taken)
    (hrun : run (iterStep cfg) s acts = some s') :
    ∃ taken', Scanned cfg s' taken' ∧ Covered cfg k s' taken' := by
  have hstep : ∀ (s : IterState ν p) a t, a.SameKey cfg ∧ keyPresent cfg k s a = true →
      (∃ taken, Scanned cfg s taken ∧ Covered cfg k s taken) → iterStep cfg s a = some t →
      ∃ taken, Scanned cfg t taken ∧ Covered cfg k t taken := by
    rintro s a t ⟨hop, hpresent⟩ ⟨taken, h, hcov⟩ ht
    obtain ⟨taken', h', hcov'⟩ := iterStep_scanned h hop ht
    exact ⟨taken', h', hcov' k hpresent hcov⟩
  exact @run_invariant_meets _ _ _ _ _ _
    (fun s => ∃ taken, Scanned cfg s taken ∧ Covered cfg k s taken) _ hstep (hstay.and_all hacts) ⟨taken, h, hcov⟩ hrun

end Steps

/-- One iteration over a table that other threads change at any time. No key is produced
twice. When the iterator is at `end()`, it has read every bucket, in order, and has produced
once every key that was in the table all the time. Until then it can always make a step, and
it makes at most `2 ^ p * (card ν + 1)` of them. -/
theorem iteration_produces_every_key {K ν : Type*} [DecidableEq K] [DecidableEq ν] [Fintype ν]
    (cfg : Config K ν) (p : ℕ) (ops : List (Op K ν)) (hops : ∀ op ∈ ops, op.SameKey cfg)
    {t : Table ν p} {results : List (Result ν)}
    (ht : run (step cfg) (Table.empty ν p, []) ops = some (t, results))
    (acts : List (IterAction K ν)) (hacts : ∀ a ∈ acts, a.SameKey cfg) {s : IterState ν p}
    (hs : run (iterStep cfg) (.start t) acts = some s) :
    (entryKeys cfg s.produced).Nodup ∧ (∀ k, s.phase = .atEnd →
        Meets (iterStep cfg) (fun s a => keyPresent cfg k s a = true) (.start t) acts →
        (entryKeys cfg s.produced).count k = 1) ∧
      (s.phase = .atEnd → s.visited = List.range (2 ^ p) ∧ s.it = ⟨2 ^ p, 0, []⟩) ∧
      (s.phase ≠ .atEnd → ∀ grab, ∃ s', iterStep cfg s (.visit grab) = some s' ∨
        iterStep cfg s .advance = some s') ∧
      acts.countP IterAction.isIterator ≤ 2 ^ p * (Fintype.card ν + 1) := by
  obtain ⟨t', chain, ht', href⟩ := run_refines cfg p ops hops
  rw [ht] at ht'
  cases ht'
  have hstart := start_scanned href
  have hstep : ∀ (s : IterState ν p) a s', a.SameKey cfg → (∃ taken, Scanned cfg s taken) →
      iterStep cfg s a = some s' → ∃ taken, Scanned cfg s' taken := by
    rintro s a s' hop ⟨taken, h⟩ hs
    obtain ⟨taken', h', -⟩ := iterStep_scanned h hop hs
    exact ⟨taken', h'⟩
  obtain ⟨taken, h⟩ := run_invariant_of hstep hacts ⟨[], hstart⟩ hs
  have hfirst : (entryKeys cfg s.produced).Sublist (entryKeys cfg taken) := by
    rw [h.shown, entryKeys_append]
    exact sublist_append_left _ _
  refine ⟨hfirst.nodup h.nodup, ?_, ?_, ?_, ?_⟩
  · intro k hphase hstay
    obtain ⟨taken', h', hcov⟩ := run_covered hacts hstay hstart (by simp [Covered,
      IterState.reached, IterState.start]) hs
    have hreached : s.reached = 2 ^ p := by rw [IterState.reached, hphase]
    have hall : taken' = s.produced := by
      rw [h'.shown, IterState.pending, if_neg (by rw [hphase]; decide), append_nil]
    rw [← hall]
    exact count_eq_one_of_mem h'.nodup (hcov (by rw [hreached]; exact (getBucket cfg p k).2))
  · intro hphase
    have hreached : s.reached = 2 ^ p := by rw [IterState.reached, hphase]
    exact ⟨by rw [h.visited, hreached], h.ended hphase⟩
  · intro hphase grab
    cases hp : s.phase with
    | atEnd => exact absurd hp hphase
    | ready => exact ⟨s.afterAdvance, .inr (by rw [iterStep, if_pos hp])⟩
    | scanning =>
      obtain ⟨M, chain, -, hb, helems, -⟩ := h.visit hp grab
      exact ⟨_, .inl (by rw [iterStep, if_pos hp, helems, map_some])⟩
  · have hcount := run_countP_le IterAction.isIterator IterState.remaining hstep (by
        rintro s a s' ⟨taken, h⟩ hs
        exact iterStep_remaining h hs)
      hacts ⟨[], hstart⟩ hs
    have hinit : (IterState.start t).remaining = 2 ^ p * (Fintype.card ν + 1) := by
      simp [IterState.remaining, IterState.reached, IterState.start]
    omega

def ownKeys : Config ℕ (Fin 4) := ⟨fun n => n.val, id⟩

/-- Two buckets and three keys. After bucket 0 has been read, key 0 is removed and key 3 is
inserted; key 3 is removed again after bucket 1 has been read. Key 1 stays. -/
theorem iteration_with_removals :
    let acts : List (IterAction ℕ (Fin 4)) := [.visit fun _ => .handle, .call (.remove 0),
      .call (.insert 3), .advance, .advance, .visit fun _ => .handle, .call (.remove 3),
      .advance, .advance]
    ∃ (t : Table (Fin 4) 1) (results : List (Result (Fin 4))) (s : IterState (Fin 4) 1),
      run (step ownKeys) (Table.empty (Fin 4) 1, []) [.insert 0, .insert 1, .insert 2] =
        some (t, results) ∧
      run (iterStep ownKeys) (.start t) acts = some s ∧ s.phase = .atEnd ∧
      (entryKeys ownKeys s.produced).Nodup ∧ (entryKeys ownKeys s.produced).count 1 = 1 ∧
      s.visited = [0, 1] := by
  intro acts
  have hrun : (run (step ownKeys) (Table.empty (Fin 4) 1, [])
      [.insert 0, .insert 1, .insert 2]).map (fun r =>
        ((run (iterStep ownKeys) (.start r.1) acts).map IterState.phase,
          decide (Meets (iterStep ownKeys) (fun s a => keyPresent ownKeys 1 s a = true)
            (.start r.1) acts))) = some (some .atEnd, true) := by
    decide +kernel
  obtain ⟨⟨t, results⟩, ht, hrest⟩ := map_eq_some_iff.1 hrun
  obtain ⟨hphase, hstay⟩ := Prod.mk.injEq .. ▸ hrest
  obtain ⟨s, hs, hend⟩ := map_eq_some_iff.1 hphase
  obtain ⟨hnodup, hcount, hvisited, -⟩ := iteration_produces_every_key ownKeys 1
    [.insert 0, .insert 1, .insert 2] (by simp [Op.SameKey]) ht acts
    (by simp [acts, IterAction.SameKey, Op.SameKey]) hs
  exact ⟨t, results, s, ht, hs, hend, hnodup, hcount 1 hend (of_decide_eq_true hstay),
    (hvisited hend).1⟩

/-- Nodes 1 and 2 have the same key. -/
def twoOfOneKey : Config ℕ (Fin 4) := ⟨fun n => if n = 2 then 1 else n.val, id⟩

/-- Node 0 is replaced by node 2, which has another key: node 1 is unlinked and keeps its
accessible flag. When it is removed later, its old link closes a cycle, and the loop over
the bucket never ends. -/
theorem iteration_never_ends : ∃ (t : Table (Fin 4) 0) (results : List (Result (Fin 4))),
      run (step twoOfOneKey) (Table.empty (Fin 4) 0, [])
        [.insert 3, .insert 1, .insert 0, .replaceIf 0 2 true, .remove 3, .insert 3, .remove 1] =
          some (t, results) ∧
      ∀ grab fuel, collect t.next grab fuel (t.hashTable 0) = none := by
  have hrun : (run (step twoOfOneKey) (Table.empty (Fin 4) 0, [])
      [.insert 3, .insert 1, .insert 0, .replaceIf 0 2 true, .remove 3, .insert 3,
        .remove 1]).map (fun r => (r.1.hashTable 0, r.1.next 3, r.1.next 0)) =
      some (some 3, some 0, some 3) := by
    decide +kernel
  obtain ⟨⟨t, results⟩, ht, hlinks⟩ := map_eq_some_iff.1 hrun
  simp only [Prod.mk.injEq] at hlinks
  obtain ⟨hhead, hnext₃, hnext₀⟩ := hlinks
  refine ⟨t, results, ht, fun grab fuel => ?_⟩
  rw [hhead]
  refine collect_cycle [3, 0] ?_ grab fuel (by simp)
  simp [hnext₃, hnext₀]

end HybridCache.ChainedHashTable

import HybridCache.BigHash

/-!
# Failed bucket writes

When a bucket cannot be written, its Bloom filter is cleared, which hides the old
entries that are still on the device. The filter is a whole: a later write of any
other key of the bucket may set the bits of a hidden key again, or rebuild the
filter from a bucket that still holds the hidden entry. This module says exactly
which steps keep the entries of failed operations hidden.
-/
namespace HybridCache.BigHash
open Bucket Function List

variable {cfg : Config}

/-- The engine with the keys whose last insert or remove returned `DeviceError` and
that were not inserted since. -/
structure Watched (cfg : Config) where
  engine : State cfg
  failed : List Key

def Watched.init (cfg : Config) : Watched cfg := ⟨BigHash.init cfg, []⟩

/-- The keys to watch after an insert with this status. -/
def afterInsert (failed : List Key) (hk : Key) : Status → List Key
  | .DeviceError => hk :: failed
  | _ => failed.filter fun k => decide (k ≠ hk)

def afterRemove (failed : List Key) (hk : Key) : Status → List Key
  | .DeviceError => hk :: failed
  | _ => failed

def Watched.step (w : Watched cfg) (op : Op) : Option (Watched cfg) :=
  (BigHash.step w.engine op).map fun s =>
    match op with
    | .insert checkExpired hk value io =>
      ⟨s, afterInsert w.failed hk (insert w.engine checkExpired hk value io).1⟩
    | .lookup _ _ => ⟨s, w.failed⟩
    | .remove hk io => ⟨s, afterRemove w.failed hk (remove w.engine hk io).1⟩

/-- No lookup finds a key whose entry was superseded by a failed operation. -/
def Watched.Hidden (w : Watched cfg) : Prop :=
  ∀ k ∈ w.failed, ∀ io, (lookup w.engine k io).1 ≠ .Ok

/-- The condition on a successful step. An insert that keeps the entry of a failed
key must neither replace nor recycle anything, which would rebuild the filter, nor
complete the bits of that key with its own. A removal that finds its key must not
share the bucket with a failed key. -/
def Watched.StepKeepsHidden (w : Watched cfg) : Op → Prop
  | .insert checkExpired hk value io =>
    io = .succeeds → ∀ k ∈ w.failed, k ≠ hk → getBucketId cfg k = getBucketId cfg hk →
      k ∈ keys (makeSpace (capacity cfg) (Entry.mk hk value).size checkExpired
        (Bucket.remove (readBucket w.engine (getBucketId cfg hk)) hk).2).kept →
      (hk ∉ keys (readBucket w.engine (getBucketId cfg hk)) ∧
        (Entry.mk hk value).slot ≤
          remainingBytes cfg (readBucket w.engine (getBucketId cfg hk))) ∧
      bfReject cfg (bfSet cfg w.engine.filters (getBucketId cfg hk) hk) (getBucketId cfg hk) k =
        true
  | .lookup _ _ => True
  | .remove hk io =>
    io = .succeeds → couldExist w.engine hk = true →
      hk ∈ keys (readBucket w.engine (getBucketId cfg hk)) →
      ∀ k ∈ w.failed, getBucketId cfg k = getBucketId cfg hk →
        k ∉ keys (readBucket w.engine (getBucketId cfg hk))

/-! ## Hidden keys are rejected by their filter -/

variable {b : List Entry} {k hk : Key} {p : BloomFilter.Params}

lemma find_eq_none : find b k = none ↔ k ∉ keys b := by
  induction b with
  | nil => simp [find, Bucket.keys]
  | cons e b ih =>
    rw [find]
    by_cases he : e.key = k
    · simp [he, Bucket.keys]
    · rw [if_neg he, ih, Bucket.keys, Bucket.keys, map_cons, mem_cons]
      simp [Ne.symm he]

/-- A stored key is found unless its filter rejects it. -/
lemma lookup_ne_ok_iff (s : State cfg) (k : Key) : (∀ io, (lookup s k io).1 ≠ .Ok) ↔
      (k ∈ keys (readBucket s (getBucketId cfg k)) →
        bfReject cfg s.filters (getBucketId cfg k) k = true) := by
  by_cases hrej : bfReject cfg s.filters (getBucketId cfg k) k = true
  · have hnot : ∀ io, (lookup s k io).1 ≠ .Ok := by
      intro io
      unfold lookup
      rw [if_pos hrej]
      decide
    exact iff_of_true hnot (fun _ => hrej)
  · constructor
    · intro h hmem
      exfalso
      cases hfind : find (readBucket s (getBucketId cfg k)) k with
      | none => exact find_eq_none.1 hfind hmem
      | some v =>
        apply h .succeeds
        unfold lookup
        rw [if_neg hrej, if_neg (by decide), hfind]
    · intro h io
      have hnone : find (readBucket s (getBucketId cfg k)) k = none :=
        find_eq_none.2 fun hmem => hrej (h hmem)
      unfold lookup
      rw [if_neg hrej, hnone]
      split_ifs
      · decide
      · decide

lemma bfReject_bfClear_self (hp : cfg.bloomFilter = some p)
    (f : BloomFilter.Bytes) (bid : Fin cfg.numBuckets) (k : Key) :
    bfReject cfg (bfClear cfg f bid) bid k = true := by
  simp only [bfReject, bfClear, hp, BloomFilter.couldExist_clear_self, Bool.not_false]

lemma hidden_iff (w : Watched cfg) :
    w.Hidden ↔ ∀ k ∈ w.failed, k ∈ keys (readBucket w.engine (getBucketId cfg k)) →
      bfReject cfg w.engine.filters (getBucketId cfg k) k = true :=
  forall₂_congr fun k _ => lookup_ne_ok_iff w.engine k

variable {s : State cfg} {value : Value} {w : Watched cfg}

lemma writeFailed_hidden (hp : cfg.bloomFilter = some p)
    {failed : List Key} (h : Watched.Hidden ⟨s, failed⟩)
    {f : BloomFilter.Bytes}
    (hf : ∀ bid ≠ getBucketId cfg hk, ∀ k, bfReject cfg f bid k = bfReject cfg s.filters bid k) :
    Watched.Hidden ⟨writeFailed s (getBucketId cfg hk) f, hk :: failed⟩ := by
  rw [hidden_iff] at h ⊢
  intro k hk' hmem
  change bfReject cfg (bfClear cfg f (getBucketId cfg hk)) (getBucketId cfg k) k = true
  by_cases hb : getBucketId cfg k = getBucketId cfg hk
  · rw [hb]
    exact bfReject_bfClear_self hp f _ k
  · rw [bfReject_bfClear_other f hb, hf _ hb]
    rcases mem_cons.1 hk' with rfl | hk'
    · exact absurd rfl hb
    · exact h k hk' hmem

/-! ## Successful writes -/

lemma remove_snd_of_notMem (hk : k ∉ keys b) : (Bucket.remove b k).2 = b := by
  induction b with
  | nil => rfl
  | cons e b ih =>
    rw [Bucket.keys, map_cons, mem_cons, not_or] at hk
    rw [Bucket.remove, if_neg (Ne.symm hk.1), ih hk.2]

lemma evictUntil_fst_ne_nil (requiredSize cur : ℕ) (hb : b ≠ []) :
    (evictUntil requiredSize cur b).1 ≠ [] := by
  cases b with
  | nil => exact absurd rfl hb
  | cons e b =>
    rw [evictUntil]
    split_ifs
    · simp
    · simp

lemma makeSpace_gone_eq_nil {capacity size : ℕ} (hsize : slotSize size ≤ capacity)
    (checkExpired : ExpiredCheck) (b : List Entry) :
    (makeSpace capacity size checkExpired b).expired ++
        (makeSpace capacity size checkExpired b).evicted = [] ↔
      slotSize size ≤ remainingCapacity capacity b := by
  rw [makeSpace]
  by_cases hfree : slotSize size ≤ remainingCapacity capacity b
  · simp [hfree]
  · rw [if_neg hfree]
    refine iff_of_false ?_ hfree
    dsimp only
    split_ifs with hexp
    · intro hnil
      have hexpired : (removeExpired checkExpired b).1 = [] := (append_eq_nil_iff.1 hnil).1
      rw [hexpired] at hexp
      simp at hexp
    · intro hnil
      obtain ⟨hexpired, hevicted⟩ := append_eq_nil_iff.1 hnil
      -- nothing expired, so the loop ran on the whole bucket, which is not empty
      have hrest : (removeExpired checkExpired b).2 = b := by
        apply filter_eq_self.2
        intro e he
        have := filter_eq_nil_iff.1 hexpired e he
        simpa using this
      rw [hrest] at hevicted
      apply evictUntil_fst_ne_nil _ _ _ hevicted
      intro hb
      rw [hb] at hfree
      exact hfree hsize

lemma insertUpdate_gone_eq_nil
    (hsize : hk.length + value.length ≤ getMaxItemSize cfg) (checkExpired : ExpiredCheck)
    (old : List Entry) :
    (insertUpdate cfg checkExpired ⟨hk, value⟩ old).gone = [] ↔
      hk ∉ keys old ∧ (Entry.mk hk value).slot ≤ remainingBytes cfg old := by
  have hslot := slot_le_capacity hsize
  rw [Update.gone, append_eq_nil_iff]
  change (Bucket.remove old hk).1 = [] ∧
    (makeSpace (capacity cfg) (Entry.mk hk value).size checkExpired _).expired ++
      (makeSpace (capacity cfg) (Entry.mk hk value).size checkExpired _).evicted = [] ↔ _
  rw [makeSpace_gone_eq_nil hslot, remove_fst_eq_nil]
  refine and_congr_right fun hmem => ?_
  rw [remove_snd_of_notMem hmem]
  rfl

lemma mem_keys_remove_snd (hne : k ≠ hk) : k ∈ keys (Bucket.remove b hk).2 ↔ k ∈ keys b := by
  have hperm := (Bucket.remove_perm b hk).map Entry.key
  rw [Bucket.keys, Bucket.keys, ← hperm.mem_iff, map_append, mem_append]
  constructor
  · exact Or.inr
  · intro h
    rcases h with h | h
    · obtain ⟨e, he, hkey⟩ := mem_map.1 h
      exact absurd (hkey.symm.trans (remove_fst_key he)) hne
    · exact h

lemma insertFilters_eq {bid : Fin cfg.numBuckets} {u : Update} : insertFilters s bid hk u =
      if u.gone = [] then bfSet cfg s.filters bid hk else bfRebuild cfg s.filters bid u.bucket := by
  unfold insertFilters Update.gone
  refine if_congr ?_ rfl rfl
  rw [append_eq_nil_iff, ← length_eq_zero_iff, ← length_eq_zero_iff]
  omega

lemma insert_hidden_iff (hw : w.Hidden) (checkExpired : ExpiredCheck)
    (hsize : hk.length + value.length ≤ getMaxItemSize cfg) :
    Watched.Hidden ⟨(insert w.engine checkExpired hk value .succeeds).2,
        w.failed.filter fun k => decide (k ≠ hk)⟩ ↔
      w.StepKeepsHidden (.insert checkExpired hk value .succeeds) := by
  have hgone := insertUpdate_gone_eq_nil hsize checkExpired
    (readBucket w.engine (getBucketId cfg hk))
  have hself : readBucket (insert w.engine checkExpired hk value .succeeds).2
      (getBucketId cfg hk) = (insertUpdate cfg checkExpired ⟨hk, value⟩
        (readBucket w.engine (getBucketId cfg hk))).bucket :=
    (readBucket_written w.engine _ _ _ _ _ _).trans (update_self _ _ _)
  have hother : ∀ bid ≠ getBucketId cfg hk,
      readBucket (insert w.engine checkExpired hk value .succeeds).2 bid =
        readBucket w.engine bid := fun bid hne =>
    (readBucket_written w.engine _ _ _ _ _ _).trans (update_of_ne hne _ _)
  have hfilters : (insert w.engine checkExpired hk value .succeeds).2.filters =
      insertFilters w.engine (getBucketId cfg hk) hk (insertUpdate cfg checkExpired ⟨hk, value⟩
        (readBucket w.engine (getBucketId cfg hk))) := rfl
  rw [hidden_iff] at hw ⊢
  rw [hfilters]
  simp only [Watched.StepKeepsHidden, forall_const, ← hgone]
  have hkept : (makeSpace (capacity cfg) (Entry.mk hk value).size checkExpired
      (Bucket.remove (readBucket w.engine (getBucketId cfg hk)) hk).2).kept =
        (insertUpdate cfg checkExpired ⟨hk, value⟩
          (readBucket w.engine (getBucketId cfg hk))).kept := rfl
  have hadded : (insertUpdate cfg checkExpired ⟨hk, value⟩
      (readBucket w.engine (getBucketId cfg hk))).added = some ⟨hk, value⟩ := rfl
  rw [hkept]
  generalize insertUpdate cfg checkExpired ⟨hk, value⟩
    (readBucket w.engine (getBucketId cfg hk)) = u at *
  have hmem : ∀ k ≠ hk, (k ∈ keys u.bucket ↔ k ∈ keys u.kept) := by
    intro k hne
    simp [Update.bucket, hadded, Bucket.keys, hne]
  have hbits : ∀ k ∈ keys u.bucket,
      (bfReject cfg (insertFilters w.engine (getBucketId cfg hk) hk u) (getBucketId cfg hk) k =
        true ↔ u.gone = [] ∧ bfReject cfg (bfSet cfg w.engine.filters (getBucketId cfg hk) hk)
            (getBucketId cfg hk) k = true) := by
    intro k hk'
    rw [insertFilters_eq]
    split_ifs with hnil
    · simp [hnil]
    · simp [hnil, bfReject_bfRebuild_mem w.engine.filters (getBucketId cfg hk) hk']
  constructor
  · intro h k hk' hne hb hin
    have hin' := (hmem k hne).2 hin
    have hfiltered : k ∈ w.failed.filter fun k => decide (k ≠ hk) :=
      mem_filter.2 ⟨hk', decide_eq_true hne⟩
    have hrej := h k hfiltered (by rw [hb, hself]; exact hin')
    rw [hb] at hrej
    exact (hbits k hin').1 hrej
  · intro h k hk' hin
    obtain ⟨hk', hd⟩ := mem_filter.1 hk'
    have hne := of_decide_eq_true hd
    by_cases hb : getBucketId cfg k = getBucketId cfg hk
    · rw [hb, hself] at hin
      rw [hb]
      exact (hbits k hin).2 (h k hk' hne hb ((hmem k hne).1 hin))
    · rw [hother _ hb] at hin
      rw [insertFilters_other w.engine hb hk u k]
      exact hw k hk' hin

lemma removeWritten_hidden_iff (hw : w.Hidden) (hcould : couldExist w.engine hk = true)
    (hmem : hk ∈ keys (readBucket w.engine (getBucketId cfg hk))) :
    Watched.Hidden ⟨removeWritten w.engine hk, w.failed⟩ ↔
      ∀ k ∈ w.failed, getBucketId cfg k = getBucketId cfg hk →
        k ∉ keys (readBucket w.engine (getBucketId cfg hk)) := by
  rw [hidden_iff] at hw ⊢
  have hbucket : (removeUpdate hk (readBucket w.engine (getBucketId cfg hk))).bucket =
      (Bucket.remove (readBucket w.engine (getBucketId cfg hk)) hk).2 := append_nil _
  -- the removed key was visible, so it is not one of the failed keys
  have hvisible : hk ∉ w.failed := by
    intro hfailed
    have := hw hk hfailed hmem
    simp [couldExist, this] at hcould
  have hself : readBucket (removeWritten w.engine hk) (getBucketId cfg hk) =
      (Bucket.remove (readBucket w.engine (getBucketId cfg hk)) hk).2 := by
    rw [← hbucket]
    exact (readBucket_written w.engine _ _ _ _ _ _).trans (update_self _ _ _)
  have hother : ∀ bid ≠ getBucketId cfg hk,
      readBucket (removeWritten w.engine hk) bid = readBucket w.engine bid := fun bid hne =>
    (readBucket_written w.engine _ _ _ _ _ _).trans (update_of_ne hne _ _)
  have hfilters : (removeWritten w.engine hk).filters =
      bfRebuild cfg w.engine.filters (getBucketId cfg hk)
        (Bucket.remove (readBucket w.engine (getBucketId cfg hk)) hk).2 := by
    rw [← hbucket]
    rfl
  constructor
  · intro h k hk' hb hin
    have hne : k ≠ hk := fun heq => hvisible (heq ▸ hk')
    have hin' := (mem_keys_remove_snd hne).2 hin
    have hrej := h k hk' (by rw [hb, hself]; exact hin')
    rw [hfilters, hb, bfReject_bfRebuild_mem _ _ hin'] at hrej
    simp at hrej
  · intro h k hk' hin
    by_cases hb : getBucketId cfg k = getBucketId cfg hk
    · have hne : k ≠ hk := fun heq => hvisible (heq ▸ hk')
      rw [hb, hself, mem_keys_remove_snd hne] at hin
      exact absurd hin (h k hk' hb)
    · rw [hother _ hb] at hin
      rw [hfilters, bfReject_bfRebuild_other _ hb]
      exact hw k hk' hin

/-! ## Runs -/

lemma step_hidden_iff (hp : cfg.bloomFilter = some p)
    (w : Watched cfg) (op : Op) (t : Watched cfg) (hio : op.io ≠ .readFails) (hw : w.Hidden)
    (h : w.step op = some t) : t.Hidden ↔ w.StepKeepsHidden op := by
  cases op with
  | insert checkExpired hk value io =>
    simp only [Watched.step, step] at h
    split_ifs at h with hsize
    · cases h
      cases io with
      | succeeds => exact insert_hidden_iff hw checkExpired hsize
      | readFails => exact absurd rfl hio
      | writeFails =>
        refine iff_of_true ?_ (by simp [Watched.StepKeepsHidden])
        exact writeFailed_hidden hp hw fun bid hne k => insertFilters_other w.engine hne hk _ k
    · cases h
  | lookup hk io =>
    cases h
    exact iff_of_true hw trivial
  | remove hk io =>
    cases h
    change Watched.Hidden ⟨(remove w.engine hk io).2,
      afterRemove w.failed hk (remove w.engine hk io).1⟩ ↔ _
    rcases remove_cases w.engine hk io with
      ⟨hnone, hr⟩ | ⟨hread, _⟩ | ⟨⟨hcould, hmem⟩, ⟨rfl, hr⟩ | ⟨rfl, hr⟩⟩
    · rw [hr]
      refine iff_of_true hw ?_
      intro _ hcould hmem
      exact absurd hmem (hnone hcould)
    · exact absurd hread hio
    · rw [hr]
      refine iff_of_true ?_ (by simp [Watched.StepKeepsHidden])
      exact writeFailed_hidden hp hw fun bid hne k =>
        bfReject_bfRebuild_other w.engine.filters hne k _
    · rw [hr]
      refine (removeWritten_hidden_iff hw hcould hmem).trans ?_
      simp [Watched.StepKeepsHidden, hcould, hmem]

/-- With filters and without read errors, the entries that failed operations
superseded stay hidden in every state of a run exactly when every step of the run
meets the condition. -/
theorem superseded_hidden_iff (cfg : Config) (p : BloomFilter.Params)
    (hp : cfg.bloomFilter = some p) (ops : List Op) (hio : ∀ op ∈ ops, op.io ≠ .readFails) :
    Transition.Always Watched.step Watched.Hidden (Watched.init cfg) ops ↔
      Transition.Meets Watched.step Watched.StepKeepsHidden (Watched.init cfg) ops := by
  refine Transition.always_iff_meets (fun _ => True) (fun op => op.io ≠ .readFails)
    (fun _ _ _ _ h _ _ => h) (fun w op t hop _ => step_hidden_iff hp w op t hop) hio trivial ?_
  intro k hk
  cases hk

/-- The second insert of key 2 fails, and another key of its bucket is written, whose
bits do not complete those of key 2. -/
def hiddenOps : List Op :=
  [.insert none [2] [1] .succeeds, .insert none [2] [5] .writeFails,
    .insert none [4] [1] .succeeds]

theorem superseded_hidden_iff_other_key :
    Transition.Always Watched.step Watched.Hidden (Watched.init smallConfig) hiddenOps := by
  refine (superseded_hidden_iff smallConfig _ rfl hiddenOps (by decide)).2 ?_
  intro w hw
  cases hw
  refine ⟨by simp [Watched.StepKeepsHidden, Watched.init], ?_⟩
  intro w hw
  cases hw
  refine ⟨by simp [Watched.StepKeepsHidden], ?_⟩
  intro w hw
  refine ⟨?_, trivial⟩
  intro _ k hk
  obtain rfl : k = [2] := mem_singleton.1 hk
  decide +kernel

/-- Replacing the value of another key rebuilds the filter from the bucket that still
holds the superseded entry. -/
theorem superseded_value_resurfaces : ∃ s₁ s₂ s₃ s₄ : State smallConfig,
      insert (init smallConfig) none [2] [1] .succeeds = (.Ok, s₁) ∧
      insert s₁ none [4] [7] .succeeds = (.Ok, s₂) ∧
      insert s₂ none [2] [5] .writeFails = (.DeviceError, s₃) ∧
      lookup s₃ [2] .succeeds = (.NotFound, none) ∧
      insert s₃ none [4] [8] .succeeds = (.Ok, s₄) ∧
      lookup s₄ [2] .succeeds = (.Ok, some [1]) := by
  refine ⟨_, _, _, _, rfl, rfl, rfl, ?_, rfl, ?_⟩
  · decide +kernel
  · decide +kernel

end HybridCache.BigHash

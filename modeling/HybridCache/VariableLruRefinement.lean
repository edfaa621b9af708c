import HybridCache.Transition
import HybridCache.VariableLruOperations

/-!
# Buckets as bounded lists

A bucket does what a bounded list of entries does, the most recently used of which comes first:
in every run of its operations, it has the entries of the list, and `evictionCb` gets the ones
the list has given up.
-/
namespace HybridCache.VariableLru

open ByteMemory Transition List

inductive Op (cfg : Config)
  | insert (key : Key cfg) (val : List UInt8)
  | updateVal (pos : ℕ) (val : List UInt8)
  | promote (pos : ℕ)
  | del (pos : ℕ)
  | evictEntries (requiredSpace : ℕ)

/-- With the entries that `evictionCb` has got. -/
structure State (cfg : Config) where
  bucket : Bucket
  reported : List (Entry cfg)

variable {cfg : Config}

/-- An empty bucket, wherever it lies. -/
def start (cfg : Config) (m : Mem) : State cfg := ⟨⟨0, 0, m⟩, []⟩

/-- The handle of an entry is valid. -/
def step (s : State cfg) : Op cfg → Option (State cfg)
  | .insert key val =>
    let r := insert cfg s.bucket key val
    some ⟨r.1, s.reported ++ r.2.1⟩
  | .updateVal pos val =>
    if pos < s.bucket.numEntries.toNat then
      let r := updateVal cfg s.bucket pos val
      some ⟨r.1, s.reported ++ r.2⟩
    else none
  | .promote pos =>
    if pos < s.bucket.numEntries.toNat then some ⟨promote cfg s.bucket pos, s.reported⟩ else none
  | .del pos =>
    if pos < s.bucket.numEntries.toNat then some ⟨del cfg s.bucket pos, s.reported⟩ else none
  | .evictEntries requiredSpace =>
    let r := evictEntries cfg s.bucket requiredSpace
    some ⟨r.1, s.reported ++ r.2.1⟩

/-- The list of entries, and the ones that have been given up. -/
structure Contents (cfg : Config) where
  entries : List (Entry cfg)
  reported : List (Entry cfg)
  deriving DecidableEq

def Contents.push (c : Contents cfg) (e : Entry cfg) (es : List (Entry cfg)) : Contents cfg where
  entries := (lru cfg).push e es
  reported := c.reported ++ ((lru cfg).gone ((lru cfg).size e) es).reverse

/-- What is expected of the operations. An update puts the entry in front as an insertion does. -/
def lruStep (c : Contents cfg) : Op cfg → Option (Contents cfg)
  | .insert key val => some (c.push ⟨key, val⟩ c.entries)
  | .updateVal pos val =>
    c.entries[pos]?.map fun e => c.push ⟨e.key, val⟩ (c.entries.eraseIdx pos)
  | .promote pos => c.entries[pos]?.map fun e => ⟨e :: c.entries.eraseIdx pos, c.reported⟩
  | .del pos => c.entries[pos]?.map fun _ => ⟨c.entries.eraseIdx pos, c.reported⟩
  | .evictEntries requiredSpace => some
      ⟨(lru cfg).keep requiredSpace c.entries,
        c.reported ++ ((lru cfg).gone requiredSpace c.entries).reverse⟩

def State.contents (s : State cfg) : Contents cfg := ⟨decode cfg s.bucket, s.reported⟩

/-- Values have at most the size that they may have. -/
def Op.InBounds : Op cfg → Prop
  | .insert _ val | .updateVal _ val => val.length ≤ min cfg.kMaxValueSize (2 ^ 8 - 1)
  | .promote _ | .del _ => True
  | .evictEntries requiredSpace => requiredSpace ≤ cfg.kBucketDataSize

instance (op : Op cfg) : Decidable op.InBounds :=
  match op with
  | .insert _ _ | .updateVal _ _ => inferInstanceAs (Decidable (_ ≤ _))
  | .promote _ | .del _ => inferInstanceAs (Decidable True)
  | .evictEntries _ => inferInstanceAs (Decidable (_ ≤ _))

/-- The caller has not found the key that is inserted. -/
def NewKey (s : State cfg) : Op cfg → Prop
  | .insert key _ => ∀ e ∈ decode cfg s.bucket, e.key ≠ key
  | _ => True

/-! ## Updates -/

variable {b : Bucket} {es : List (Entry cfg)} {off : ℕ → ℕ} {order : List ℕ} {p : ℕ}
  {e : Entry cfg}

lemma load_eraseIdx (he : es[p]? = some e) :
    (lru cfg).load (es.eraseIdx p) + (lru cfg).size e = (lru cfg).load es :=
  sum_map_eraseIdx he (lru cfg).size

/-- A value that is not larger needs no more room than there was. -/
lemma Layout.fits (h : Layout cfg b es off order) (he : es[p]? = some e) (e' : Entry cfg)
    (hle : e'.value.length ≤ e.value.length) :
    (lru cfg).Fits ((lru cfg).size e') (es.eraseIdx p) := by
  have hp : p < es.length := (List.getElem?_eq_some_iff.1 he).1
  have hload := load_eraseIdx he
  have hmax := h.load_le
  have hlength := h.length_lt
  rw [lru_size] at hload
  refine ⟨?_, ?_⟩
  · rw [lru_size]
    change _ ≤ cfg.kBucketDataSize
    omega
  · rw [length_eraseIdx_of_lt hp]
    change _ < kMaxEntries
    rw [kMaxEntries]
    omega

theorem updateVal_spec (h : Stores cfg b es) (he : es[p]? = some e) {val : List UInt8}
    (hval : val.length ≤ min cfg.kMaxValueSize (2 ^ 8 - 1)) :
    Stores cfg (updateVal cfg b p val).1 ((lru cfg).push ⟨e.key, val⟩ (es.eraseIdx p)) ∧
      (updateVal cfg b p val).2 =
        ((lru cfg).gone ((lru cfg).size ⟨e.key, val⟩) (es.eraseIdx p)).reverse ∧
      Outside cfg b.data (updateVal cfg b p val).1.data := by
  obtain ⟨off, order, h⟩ := h
  have hp : p < es.length := (List.getElem?_eq_some_iff.1 he).1
  have hset : (es.set p ⟨e.key, val⟩)[p]? = some ⟨e.key, val⟩ := getElem?_set_self hp
  have herase : (es.set p ⟨e.key, val⟩).eraseIdx p = es.eraseIdx p := eraseIdx_set_eq
  unfold updateVal
  rw [h.dataSize he]
  split_ifs with heq hlt
  · have hfits := h.fits he ⟨e.key, val⟩ heq.ge
    obtain ⟨hwrite, hout⟩ := h.writeVal ⟨e.key, val⟩ he rfl heq.symm
    obtain ⟨hpromote, hout'⟩ := hwrite.promote hset
    rw [BoundedLru.push, BoundedLru.keep_of_fits hfits, BoundedLru.gone_of_fits hfits, getEntryData,
      h.dataOffset he, ← herase]
    exact ⟨⟨_, _, hpromote⟩, rfl, hout.trans hout'⟩
  · have hfits := h.fits he ⟨e.key, val⟩ hlt.le
    obtain ⟨⟨off', order', hshrink⟩, hout⟩ := h.shrinkVal ⟨e.key, val⟩ he rfl hlt
    obtain ⟨hpromote, hout'⟩ := hshrink.promote hset
    rw [BoundedLru.push, BoundedLru.keep_of_fits hfits, BoundedLru.gone_of_fits hfits, ← herase]
    exact ⟨⟨_, _, hpromote⟩, rfl, hout.trans hout'⟩
  · obtain ⟨hdel, hout⟩ := h.del he
    obtain ⟨hinsert, hgone, hout'⟩ := insert_spec hdel ⟨e.key, val⟩
      (hval.trans (min_le_left _ _)) (by
        have := hval.trans (min_le_right _ _)
        exact Nat.lt_succ_of_le this)
    rw [(h.headers p e he).key (h.pos_lt he)]
    exact ⟨hinsert, hgone, hout.trans hout'⟩

/-! ## Runs -/

lemma Stores.decode (h : Stores cfg b es) : decode cfg b = es := by
  obtain ⟨off, order, h⟩ := h
  exact h.decode

lemma Stores.numEntries (h : Stores cfg b es) : b.numEntries.toNat = es.length := by
  obtain ⟨off, order, h⟩ := h
  exact h.numEntries

lemma stores_empty (m : Mem) : Stores cfg ⟨0, 0, m⟩ [] :=
  ⟨fun _ => 0, [], rfl, rfl, .refl _, by simp, nofun, nofun, trivial, at_nil⟩

/-- The bucket has the entries of the list, in memory that was `m` before. -/
structure Refines (m : Mem) (s : State cfg) (c : Contents cfg) : Prop where
  stores : Stores cfg s.bucket c.entries
  reported : s.reported = c.reported
  outside : Outside cfg m s.bucket.data

variable {m : Mem} {s : State cfg} {c : Contents cfg}

/-- An operation on a valid handle and its counterpart are both possible, or neither is. -/
lemma Refines.of_handle (h : Refines m s c) {pos : ℕ} {t : State cfg} {f : Entry cfg → Contents cfg}
    (hstep : ∀ e, c.entries[pos]? = some e → Refines m t (f e)) :
    Option.Rel (Refines m) (if pos < s.bucket.numEntries.toNat then some t else none)
      (c.entries[pos]?.map f) := by
  rw [h.stores.numEntries]
  by_cases hpos : pos < c.entries.length
  · rw [if_pos hpos, getElem?_eq_getElem hpos]
    exact .some (hstep _ (getElem?_eq_getElem hpos))
  · rw [if_neg hpos, getElem?_eq_none (by omega)]
    exact .none

theorem step_refines (h : Refines m s c) {op : Op cfg} (hop : op.InBounds) :
    Option.Rel (Refines m) (step s op) (lruStep c op) := by
  have hreport : ∀ {gone gone' : List (Entry cfg)}, gone = gone' →
      s.reported ++ gone = c.reported ++ gone' := by
    rintro gone gone' rfl
    rw [h.reported]
  cases op with
  | insert key val =>
    obtain ⟨hstores, hgone, hout⟩ := insert_spec h.stores ⟨key, val⟩
      (hop.trans (min_le_left _ _)) (Nat.lt_succ_of_le (hop.trans (min_le_right _ _)))
    exact .some ⟨hstores, hreport hgone, h.outside.trans hout⟩
  | updateVal pos val =>
    refine h.of_handle fun e he => ?_
    obtain ⟨hstores, hgone, hout⟩ := updateVal_spec h.stores he hop
    exact ⟨hstores, hreport hgone, h.outside.trans hout⟩
  | promote pos =>
    refine h.of_handle fun e he => ?_
    obtain ⟨off, order, hlayout⟩ := h.stores
    obtain ⟨hpromote, hout⟩ := hlayout.promote he
    exact ⟨⟨_, _, hpromote⟩, h.reported, h.outside.trans hout⟩
  | del pos =>
    refine h.of_handle fun e he => ?_
    obtain ⟨off, order, hlayout⟩ := h.stores
    obtain ⟨hdel, hout⟩ := hlayout.del he
    exact ⟨hdel, h.reported, h.outside.trans hout⟩
  | evictEntries requiredSpace =>
    obtain ⟨hstores, hgone, hout⟩ := evictEntries_spec h.stores hop
    exact .some ⟨hstores, hreport hgone, h.outside.trans hout⟩

lemma lruStep_nodup {c' : Contents cfg} {op : Op cfg} (hnodup : (c.entries.map Entry.key).Nodup)
    (hnew : ∀ key val, op = .insert key val → ∀ e ∈ c.entries, e.key ≠ key)
    (h : lruStep c op = some c') : (c'.entries.map Entry.key).Nodup := by
  have hpush : ∀ (e : Entry cfg) (es : List (Entry cfg)), (es.map Entry.key).Nodup →
      (∀ e' ∈ es, e'.key ≠ e.key) → (((lru cfg).push e es).map Entry.key).Nodup := by
    intro e es hes hne
    rw [BoundedLru.push, map_cons, nodup_cons]
    refine ⟨fun hmem => ?_, hes.sublist (BoundedLru.keep_sublist.map _)⟩
    obtain ⟨e', he', hkey⟩ := mem_map.1 hmem
    exact hne e' (BoundedLru.keep_sublist.mem he') hkey
  have herase : ∀ {pos : ℕ} {e : Entry cfg}, c.entries[pos]? = some e →
      ((c.entries.eraseIdx pos).map Entry.key).Nodup ∧
        ∀ e' ∈ c.entries.eraseIdx pos, e'.key ≠ e.key := by
    intro pos e he
    obtain ⟨hpos, rfl⟩ := List.getElem?_eq_some_iff.1 he
    have hperm := (getElem_cons_eraseIdx_perm hpos).map Entry.key
    rw [← hperm.nodup_iff, map_cons, nodup_cons] at hnodup
    exact ⟨hnodup.2, fun e' he' hkey => hnodup.1 (mem_map.2 ⟨e', he', hkey⟩)⟩
  cases op with
  | insert key val =>
    cases h
    exact hpush ⟨key, val⟩ c.entries hnodup (hnew key val rfl)
  | updateVal pos val =>
    obtain ⟨e, he, rfl⟩ := Option.map_eq_some_iff.1 h
    exact hpush ⟨e.key, val⟩ _ (herase he).1 (herase he).2
  | promote pos =>
    obtain ⟨e, he, rfl⟩ := Option.map_eq_some_iff.1 h
    refine nodup_cons.2 ⟨fun hmem => ?_, (herase he).1⟩
    obtain ⟨e', he', hkey⟩ := mem_map.1 hmem
    exact (herase he).2 e' he' hkey
  | del pos =>
    obtain ⟨e, he, rfl⟩ := Option.map_eq_some_iff.1 h
    exact (herase he).1
  | evictEntries requiredSpace =>
    cases h
    exact hnodup.sublist (BoundedLru.keep_sublist.map _)

lemma Refines.step (h : Refines m s c) {op : Op cfg} (hop : op.InBounds) {t : State cfg}
    (ht : step s op = some t) : ∃ c', lruStep c op = some c' ∧ Refines m t c' := by
  have hrel := step_refines h hop
  rw [ht] at hrel
  cases hc : lruStep c op with
  | none =>
    rw [hc] at hrel
    cases hrel
  | some c' =>
    rw [hc] at hrel
    cases hrel with
    | some hR => exact ⟨c', rfl, hR⟩

lemma refines_start (m : Mem) : Refines m (start cfg m) ⟨[], []⟩ :=
  ⟨stores_empty m, rfl, fun _ _ => rfl⟩

/-- The list that the bucket refines has no key twice. -/
def DistinctKeys (m : Mem) (s : State cfg) : Prop :=
  ∃ c, Refines m s c ∧ (c.entries.map Entry.key).Nodup

lemma keys_nodup {ops : List (Op cfg)} (hops : ∀ op ∈ ops, op.InBounds)
    (hnew : Transition.Meets step NewKey (start cfg m) ops)
    (h : Transition.run step (start cfg m) ops = some s) :
    ((decode cfg s.bucket).map Entry.key).Nodup := by
  have hinv : DistinctKeys m s := by
    refine run_invariant_meets ?_ (hnew.and_all hops) ⟨_, refines_start m, nodup_nil⟩ h
    rintro s op t ⟨hop, hnew⟩ ⟨c, hc, hnodup⟩ ht
    obtain ⟨c', hstep, hc'⟩ := hc.step hop ht
    refine ⟨c', hc', lruStep_nodup hnodup ?_ hstep⟩
    rintro key val rfl
    rw [← hc.stores.decode]
    exact hnew
  obtain ⟨c, hc, hnodup⟩ := hinv
  rw [hc.stores.decode]
  exact hnodup

/-! ## Result -/

/-- In every run of operations on a bucket, it has the entries of the bounded list and
`evictionCb` has got those the list has given up. The bucket passes its own check, nothing
outside it has been written, and the keys are distinct if only new ones are inserted. -/
theorem bucket_refines_lru (cfg : Config) (m : Mem) (ops : List (Op cfg))
    (hops : ∀ op ∈ ops, op.InBounds) :
    (Transition.run step (start cfg m) ops).map State.contents =
        Transition.run lruStep ⟨[], []⟩ ops ∧
      ∀ s, Transition.run step (start cfg m) ops = some s →
        checkBucketConsistency cfg s.bucket = true ∧
        (∀ i, cfg.kBucketDataSize ≤ i → s.bucket.data i = m i) ∧
        (Transition.Meets step NewKey (start cfg m) ops →
          ((decode cfg s.bucket).map Entry.key).Nodup) := by
  have hrel : Option.Rel (Refines m) (run step (start cfg m) ops) (run lruStep ⟨[], []⟩ ops) :=
    run_rel (fun _ _ _ hop hR => step_refines hR hop) hops (refines_start m)
  constructor
  · generalize run step (start cfg m) ops = s at hrel
    generalize run lruStep ⟨[], []⟩ ops = c at hrel
    cases hrel with
    | none => rfl
    | @some s c hR => simp only [Option.map_some, State.contents, hR.stores.decode, hR.reported]
  · intro s hs
    rw [hs] at hrel
    generalize run lruStep ⟨[], []⟩ ops = c at hrel
    cases hrel with
    | @some _ c hR =>
      obtain ⟨off, order, hlayout⟩ := hR.stores
      exact ⟨hlayout.consistent, hR.outside, fun hnew => keys_nodup hops hnew hs⟩

def smallBucket : Config := ⟨1, 20, by decide⟩

/-- Values of all sizes, in the end more than there is room for. -/
def fillingRun : List (Op smallBucket) :=
  [.insert #v[1] [1, 2], .insert #v[2] [3], .updateVal 1 [9], .promote 1,
    .updateVal 1 [4, 4, 4, 4], .insert #v[3] [7, 7, 7, 7, 7, 7]]

theorem fillingRun_contents :
    (Transition.run step (start smallBucket fun _ => 0) fillingRun).map State.contents =
      some ⟨[⟨#v[3], [7, 7, 7, 7, 7, 7]⟩, ⟨#v[1], [4, 4, 4, 4]⟩], [⟨#v[2], [3]⟩]⟩ :=
  (bucket_refines_lru smallBucket _ fillingRun (by decide)).1.trans (by decide +kernel)

end HybridCache.VariableLru

import HybridCache.RegionOwnership

/-!
# What one step does to a region

A step changes at most one region and hands it from one owner to another. `Change`
lists what the region and its owner can become. A fact about regions and their owners
that every change keeps is therefore an invariant.
-/
namespace HybridCache.RegionManager
open Function List

/-- Who has a region. -/
inductive Owner
  | tracked
  | clean
  | taking
  | current
  | job (phase : Phase)
  deriving DecidableEq, Repr

/-- The changes of a region with its owner. -/
inductive Change : Region → Owner → Region → Owner → Prop
  | opened (g : Region) (o : Owner) (hblock : g.blockAccess = false) :
    Change g o (g.addActive g.readMode) o
  | closed (g : Region) (o : Owner) (m : Mode) (hpos : 0 < g.active m) : Change g o (g.close m) o
  | allocated (g : Region) (size : ℕ) : Change g .current (g.openAndAllocate size) .current
  | released (g : Region) :
    Change g .current { g with flushPending := true } (.job (.flushing 0))
  | popped (g : Region) : Change g .clean g .taking
  | pushedBack (g : Region) : Change g .taking g .clean
  | assigned (g : Region) (p : ℕ) :
    Change g .taking { g with hasBuffer := true, priority := p } .current
  | evicted (g : Region) : Change g .tracked g (.job .evicted)
  | flushedBefore (g : Region) (n : ℕ) (hflushed : g.flushed = true) :
    Change g (.job (.flushing n)) g (.job .flushed)
  | written (g : Region) (n : ℕ) (hwrite : g.active .Write = 0) :
    Change g (.job (.flushing n)) { g with flushed := true } (.job .flushed)
  | retried (g : Region) (n : ℕ) : Change g (.job (.flushing n)) g (.job (.flushing (n + 1)))
  | gaveUp (g : Region) (n : ℕ) : Change g (.job (.flushing n)) g (.job .failing)
  | detached (g : Region) (hread : g.active .InMemRead = 0) :
    Change g (.job .flushed) { g with hasBuffer := false } (.job .detached)
  | tracked (g : Region) : Change g (.job .detached) g .tracked
  | cleaned (g : Region) (hwrite : g.active .Write = 0) :
    Change g (.job .failing) { g with cleanedup := true } (.job .cleanedup)
  | discarded (g : Region) (hread : g.active .InMemRead = 0) :
    Change g (.job .cleanedup) { g with hasBuffer := false } (.job (.releasing false))
  | blocked (g : Region) : Change g (.job .evicted) { g with blockAccess := true } (.job .blocked)
  | drained (g : Region) (hopen : ∀ m, g.active m = 0) : Change g (.job .blocked) g (.job .drained)
  | reclaimed (g : Region) : Change g (.job .drained) g (.job (.releasing true))
  | bumped (g : Region) (reclaim : Bool) :
    Change g (.job (.releasing reclaim)) g (.job (.resetting reclaim))
  | reset (g : Region) (reclaim : Bool) :
    Change g (.job (.resetting reclaim)) g.reset (.job (.returning reclaim))
  | returned (g : Region) (reclaim : Bool) : Change g (.job (.returning reclaim)) g .clean

section Lifecycle
variable {cfg : Config} {ι : Type}

def Owns (s : State cfg ι) (rid : RegionId cfg) : Owner → Prop
  | .tracked => rid ∈ s.policy
  | .clean => rid ∈ s.cleanRegions
  | .taking => ∃ p, s.allocators p = .taking rid
  | .current => ∃ p, s.allocators p = .current rid
  | .job ph => (rid, ph) ∈ s.jobs

/-! ## Every region has one owner -/

variable {ph : Phase} {rid : RegionId cfg} {p : Priority cfg} {s t : State cfg ι} {o : Owner}
  {g : Region}

lemma jobsOf_pos {jobs : List (RegionId cfg × Phase)} {ph : Phase}
    (h : (rid, ph) ∈ jobs) : 0 < jobsOf jobs rid := by
  rw [jobsOf, countP_pos_iff]
  exact ⟨(rid, ph), h, by simp⟩

lemma sum_holds_pos {rid : RegionId cfg}
    (hp : (s.allocators p).holds rid = 1) : 0 < ∑ q, (s.allocators q).holds rid := by
  have hle := Transition.le_sum (fun q => (s.allocators q).holds rid) p
  omega

/-- Two allocators do not have the same region. -/
lemma Owned.allocator_unique (h : Owned s) {q : Priority cfg} (hp : (s.allocators p).holds rid = 1)
    (hq : (s.allocators q).holds rid = 1) : p = q := by
  by_contra hne
  have hone := h.unique rid
  have hsum := sum_holds_update s p .idle rid
  have hle := Transition.le_sum (fun x => (update s.allocators p .idle x).holds rid) q
  have hidle : (RegionAllocator.idle : RegionAllocator cfg).holds rid = 0 := rfl
  simp only [update_of_ne (Ne.symm hne)] at hle
  rw [owners] at hone
  omega

lemma Owned.phase_unique (h : Owned s) {ph' : Phase}
    (hmem : (rid, ph) ∈ s.jobs) (hmem' : (rid, ph') ∈ s.jobs) : ph = ph' := by
  by_contra hne
  have hone := h.unique rid
  have herase := jobsOf_erase hmem rid
  have hother : (rid, ph') ≠ (rid, ph) := fun heq => hne (Prod.ext_iff.1 heq).2.symm
  have hpos := jobsOf_pos ((mem_erase_of_ne hother).2 hmem')
  rw [owners] at hone
  rw [if_pos rfl] at herase
  omega

lemma holds_taking (hp : s.allocators p = .taking rid) : (s.allocators p).holds rid = 1 := by
  simp [hp, RegionAllocator.holds]

lemma holds_current (hp : s.allocators p = .current rid) : (s.allocators p).holds rid = 1 := by
  simp [hp, RegionAllocator.holds]

lemma Owned.owner_unique (h : Owned s) {o' : Owner}
    (ho : Owns s rid o) (ho' : Owns s rid o') : o = o' := by
  have hone := h.unique rid
  rw [owners] at hone
  cases o <;> cases o' <;> simp only [Owns] at ho ho'
  case taking.current =>
    obtain ⟨p, hp⟩ := ho
    obtain ⟨q, hq⟩ := ho'
    rw [h.allocator_unique (holds_taking hp) (holds_current hq), hq] at hp
    cases hp
  case current.taking =>
    obtain ⟨p, hp⟩ := ho
    obtain ⟨q, hq⟩ := ho'
    rw [h.allocator_unique (holds_current hp) (holds_taking hq), hq] at hp
    cases hp
  case job.job ph ph' => rw [h.phase_unique ho ho']
  case tracked.tracked | clean.clean | taking.taking | current.current => rfl
  all_goals
    exfalso
    have h1 := fun p (hp : s.allocators p = .taking rid) => sum_holds_pos (holds_taking hp)
    have h2 := fun p (hp : s.allocators p = .current rid) => sum_holds_pos (holds_current hp)
    have h3 := fun ph (hmem : (rid, ph) ∈ s.jobs) => jobsOf_pos hmem
    grind

lemma Owned.exists_owner (h : Owned s) (rid : RegionId cfg) : ∃ o, Owns s rid o := by
  have hone := h.unique rid
  rw [owners] at hone
  by_cases hpolicy : rid ∈ s.policy
  · exact ⟨.tracked, hpolicy⟩
  by_cases hclean : rid ∈ s.cleanRegions
  · exact ⟨.clean, hclean⟩
  rw [count_eq_zero_of_not_mem hpolicy, count_eq_zero_of_not_mem hclean] at hone
  by_cases hjobs : jobsOf s.jobs rid = 0
  · have hsum : (∑ p, (s.allocators p).holds rid) ≠ 0 := by omega
    obtain ⟨p, _, hp⟩ := Finset.exists_ne_zero_of_sum_ne_zero hsum
    cases ha : s.allocators p with
    | idle => simp [ha, RegionAllocator.holds] at hp
    | taking q =>
      rw [ha, RegionAllocator.holds, ne_eq, ite_eq_right_iff, Classical.not_imp] at hp
      exact ⟨.taking, p, by rw [ha, hp.1]⟩
    | current q =>
      rw [ha, RegionAllocator.holds, ne_eq, ite_eq_right_iff, Classical.not_imp] at hp
      exact ⟨.current, p, by rw [ha, hp.1]⟩
  · obtain ⟨j, hj, hrid⟩ := countP_pos_iff.1 (Nat.pos_of_ne_zero hjobs)
    refine ⟨.job j.2, ?_⟩
    rw [← of_decide_eq_true hrid]
    exact hj

/-! ## Steps as changes -/

section Others
variable {r : RegionId cfg}

/-- A region has no new owner when no part of the state has gained it. -/
lemma Owns.of_parts {x : Owner} (hx : Owns t r x) (hpolicy : r ∈ t.policy → r ∈ s.policy)
    (hclean : r ∈ t.cleanRegions → r ∈ s.cleanRegions)
    (halloc : ∀ q, (t.allocators q).holds r = 1 → t.allocators q = s.allocators q)
    (hjobs : ∀ ph, (r, ph) ∈ t.jobs → (r, ph) ∈ s.jobs) : Owns s r x := by
  cases x with
  | tracked => exact hpolicy hx
  | clean => exact hclean hx
  | taking =>
    obtain ⟨q, hq⟩ := hx
    exact ⟨q, by rw [← halloc q (holds_taking hq), hq]⟩
  | current =>
    obtain ⟨q, hq⟩ := hx
    exact ⟨q, by rw [← halloc q (holds_current hq), hq]⟩
  | job ph => exact hjobs ph hx

lemma allocator_of_update {a : RegionAllocator cfg} (ha : a.holds r = 0) (q : Priority cfg)
    (hq : (update s.allocators p a q).holds r = 1) :
    update s.allocators p a q = s.allocators q := by
  by_cases hqp : q = p
  · rw [hqp, update_self, ha] at hq
    cases hq
  · exact update_of_ne hqp _ _

lemma mem_of_snoc {l : List (RegionId cfg)} (hr : r ≠ rid) (hx : r ∈ l ++ [rid]) : r ∈ l :=
  (mem_append.1 hx).resolve_right fun hx => hr (mem_singleton.1 hx)

lemma job_of_cons {l : List (RegionId cfg × Phase)} {ph' : Phase} (hr : r ≠ rid)
    (hx : (r, ph) ∈ (rid, ph') :: l) : (r, ph) ∈ l :=
  (mem_cons.1 hx).resolve_left fun hx => hr (Prod.ext_iff.1 hx).1

end Others

/-- One region changes and passes from one owner to another. -/
structure HandsOver (s t : State cfg ι) (rid : RegionId cfg) (o : Owner) (g : Region)
    (o' : Owner) : Prop where
  regions : t.regions = update s.regions rid g
  old : Owns s rid o
  new : Owns t rid o'
  other : ∀ r ≠ rid, ∀ x, Owns t r x → Owns s r x

/-- A step changes no region and no owner, or one region with its owner. -/
def Changes (s t : State cfg ι) : Prop :=
  (t.regions = s.regions ∧ ∀ r x, Owns t r x → Owns s r x) ∨
    ∃ rid o g o', HandsOver s t rid o g o' ∧ Change (s.regions rid) o g o'

lemma Changes.of_same (hregions : t.regions = s.regions)
    (howns : ∀ r x, Owns t r x → Owns s r x) : Changes s t :=
  Or.inl ⟨hregions, howns⟩

/-- The owner stays. -/
lemma Changes.of_region {g : Region} (hregions : t.regions = update s.regions rid g)
    (howns : ∀ r x, Owns t r x ↔ Owns s r x) (ho : Owns s rid o)
    (hchange : Change (s.regions rid) o g o) : Changes s t :=
  Or.inr ⟨rid, o, g, o, ⟨hregions, ho, (howns rid o).2 ho, fun r _ x => (howns r x).1⟩, hchange⟩

lemma Changes.of_moveJob {old new : Phase}
    (hmem : (rid, old) ∈ s.jobs) (hregions : t.regions = update s.regions rid g)
    (hjobs : t.jobs = (rid, new) :: s.jobs.erase (rid, old)) (hpolicy : t.policy = s.policy)
    (hclean : t.cleanRegions = s.cleanRegions) (halloc : t.allocators = s.allocators)
    (hchange : Change (s.regions rid) (.job old) g (.job new)) : Changes s t := by
  refine Or.inr ⟨rid, .job old, g, .job new, ⟨hregions, hmem, ?_, ?_⟩, hchange⟩
  · change (rid, new) ∈ t.jobs
    rw [hjobs]
    exact mem_cons_self
  · intro r hr x hx
    refine hx.of_parts (by rw [hpolicy]; exact id) (by rw [hclean]; exact id)
      (fun q _ => congrFun halloc q) fun ph hph => ?_
    rw [hjobs] at hph
    exact mem_of_mem_erase (job_of_cons hr hph)

lemma update_regions_self (s : State cfg ι) (rid : RegionId cfg) :
    s.regions = update s.regions rid (s.regions rid) :=
  (update_eq_self rid s.regions).symm

lemma Changes.of_endJob {old : Phase}
    (hmem : (rid, old) ∈ s.jobs) (hregions : t.regions = s.regions)
    (hjobs : t.jobs = s.jobs.erase (rid, old)) (halloc : t.allocators = s.allocators)
    (hpolicy : ∀ r ≠ rid, r ∈ t.policy → r ∈ s.policy)
    (hclean : ∀ r ≠ rid, r ∈ t.cleanRegions → r ∈ s.cleanRegions) (hnew : Owns t rid o)
    (hchange : Change (s.regions rid) (.job old) (s.regions rid) o) : Changes s t := by
  refine Or.inr ⟨rid, .job old, s.regions rid, o, ⟨?_, hmem, hnew, ?_⟩, hchange⟩
  · rw [hregions]
    exact update_regions_self s rid
  · intro r hr x hx
    refine hx.of_parts (hpolicy r hr) (hclean r hr) (fun q _ => congrFun halloc q) fun ph hph => ?_
    rw [hjobs] at hph
    exact mem_of_mem_erase hph

lemma runJob_changes {written : Bool}
    (hmem : (rid, ph) ∈ s.jobs) (ht : runJob s rid written ph = some t) : Changes s t := by
  have hself := update_regions_self s rid
  cases ph with
  | flushing n =>
    rw [runJob] at ht
    split_ifs at ht with hlimit hwrite hflushed hwritten <;> cases ht
    · exact .of_same rfl fun _ _ h => h
    · exact .of_moveJob hmem hself rfl rfl rfl rfl (.flushedBefore _ n hflushed)
    · exact .of_moveJob hmem rfl rfl rfl rfl rfl (.written _ n (not_ne_iff.1 hwrite))
    · exact .of_moveJob hmem hself rfl rfl rfl rfl (.retried _ n)
    · exact .of_moveJob hmem hself rfl rfl rfl rfl (.gaveUp _ n)
  | flushed =>
    rw [runJob] at ht
    split_ifs at ht with hread
    cases ht
    exact .of_moveJob hmem rfl rfl rfl rfl rfl (.detached _ (not_ne_iff.1 hread))
  | detached =>
    cases ht
    exact .of_endJob (o := .tracked) hmem rfl rfl rfl (fun _ => mem_of_snoc) (fun _ _ h => h)
      (mem_append_right _ (mem_singleton_self rid)) (.tracked _)
  | failing =>
    rw [runJob] at ht
    split_ifs at ht with hwrite
    cases ht
    exact .of_moveJob hmem rfl rfl rfl rfl rfl (.cleaned _ (not_ne_iff.1 hwrite))
  | cleanedup =>
    rw [runJob] at ht
    split_ifs at ht with hread
    cases ht
    exact .of_moveJob hmem rfl rfl rfl rfl rfl (.discarded _ (not_ne_iff.1 hread))
  | evicted =>
    cases ht
    exact .of_moveJob hmem rfl rfl rfl rfl rfl (.blocked _)
  | blocked =>
    rw [runJob] at ht
    split_ifs at ht with hopen
    cases ht
    refine .of_moveJob hmem hself rfl rfl rfl rfl (.drained _ ?_)
    have hzero := not_ne_iff.1 hopen
    rw [Region.activeOpen] at hzero
    intro m
    cases m <;> omega
  | drained =>
    cases ht
    exact .of_moveJob hmem hself rfl rfl rfl rfl (.reclaimed _)
  | releasing reclaim =>
    cases ht
    exact .of_moveJob hmem hself rfl rfl rfl rfl (.bumped _ reclaim)
  | resetting reclaim =>
    cases ht
    exact .of_moveJob hmem rfl rfl rfl rfl rfl (.reset _ reclaim)
  | returning reclaim =>
    cases ht
    exact .of_endJob (o := .clean) hmem rfl rfl rfl (fun _ _ h => h) (fun _ => mem_of_snoc)
      (mem_append_right _ (mem_singleton_self rid)) (.returned _ reclaim)

lemma releaseRegion_changes {rid : RegionId cfg} (hp : s.allocators p = .current rid) :
    Changes s { setRegion s rid { s.regions rid with flushPending := true } with
      allocators := update s.allocators p .idle
      jobs := (rid, .flushing 0) :: s.jobs } := by
  refine Or.inr ⟨rid, .current, _, .job (.flushing 0), ⟨rfl, ⟨p, hp⟩, mem_cons_self, ?_⟩,
    .released _⟩
  intro r hr x hx
  exact hx.of_parts id id (allocator_of_update rfl) fun _ => job_of_cons hr

lemma popCleanRegion_changes (s : State cfg ι) (p : Priority cfg) :
    Changes s (popCleanRegion s p) := by
  unfold popCleanRegion
  cases hlast : s.cleanRegions.getLast? with
  | none => exact .of_same rfl fun _ _ h => h
  | some rid =>
    have hmem : rid ∈ s.cleanRegions := mem_of_getLast? hlast
    refine Or.inr ⟨rid, .clean, s.regions rid, .taking,
      ⟨update_regions_self s rid, hmem, ⟨p, update_self _ _ _⟩, ?_⟩, .popped _⟩
    intro r hr x hx
    exact hx.of_parts id mem_of_mem_dropLast
      (allocator_of_update (a := .taking rid) (if_neg hr.symm)) fun _ => id

lemma assignBufferToRegion_changes {rid : RegionId cfg}
    (hp : s.allocators p = .taking rid) : Changes s (assignBufferToRegion s p rid) := by
  unfold assignBufferToRegion
  split_ifs with hb
  · refine Or.inr ⟨rid, .taking, s.regions rid, .clean, ⟨update_regions_self s rid, ⟨p, hp⟩,
      mem_append_right _ (mem_singleton_self rid), ?_⟩, .pushedBack _⟩
    intro r hr x hx
    exact hx.of_parts id (mem_of_snoc hr) (allocator_of_update rfl) fun _ => id
  · refine Or.inr ⟨rid, .taking, _, .current, ⟨rfl, ⟨p, hp⟩, ⟨p, update_self _ _ _⟩, ?_⟩,
      .assigned _ p⟩
    intro r hr x hx
    exact hx.of_parts id id (allocator_of_update (a := .current rid) (if_neg hr.symm)) fun _ => id

lemma evict_changes (hmem : rid ∈ s.policy) : Changes s { s with
      policy := s.policy.erase rid
      scheduled := s.scheduled - 1
      jobs := (rid, .evicted) :: s.jobs } := by
  refine Or.inr ⟨rid, .tracked, s.regions rid, .job .evicted,
    ⟨update_regions_self s rid, hmem, mem_cons_self, ?_⟩, .evicted _⟩
  intro r hr x hx
  exact hx.of_parts mem_of_mem_erase id (fun _ _ => rfl) fun _ => job_of_cons hr

variable [DecidableEq ι]

/-- The inversion of a step. Counters that are positive while a descriptor is open are
all it needs to know about descriptors. -/
lemma step_changes {a : Action cfg ι} (h : Owned s)
    (hpos : ∀ i d, s.descriptors i = some d → 0 < (s.regions d.id).active d.mode)
    (ht : step s a = some t) : Changes s t := by
  cases a with
  | openForRead i rid seqNumber =>
    obtain ⟨o, ho⟩ := h.exists_owner rid
    rw [step] at ht
    split_ifs at ht with hi hb <;> cases ht
    · exact .of_same rfl fun _ _ h => h
    · exact .of_region rfl (fun r x => by cases x <;> rfl) ho (.opened _ o (by simpa using hb))
  | checkSeqNumber i =>
    rw [step] at ht
    split at ht
    · rename_i rid m n hd
      obtain ⟨o, ho⟩ := h.exists_owner rid
      split_ifs at ht <;> cases ht
      · exact .of_same rfl fun r x => by cases x <;> exact id
      · exact .of_region rfl (fun r x => by cases x <;> rfl) ho (.closed _ o m (hpos i _ hd))
    · cases ht
  | close i =>
    rw [step] at ht
    split at ht
    · rename_i rid m hd
      obtain ⟨o, ho⟩ := h.exists_owner rid
      cases ht
      exact .of_region rfl (fun r x => by cases x <;> rfl) ho (.closed _ o m (hpos i _ hd))
    · cases ht
  | allocate i p size =>
    rw [step] at ht
    split at ht
    · rename_i rid hp
      split_ifs at ht
      cases ht
      exact .of_region (o := .current) rfl (fun r x => by cases x <;> rfl) ⟨p, hp⟩
        (.allocated _ size)
    · cases ht
  | releaseRegion p =>
    rw [step] at ht
    split at ht
    · rename_i rid hp
      cases ht
      exact releaseRegion_changes hp
    · cases ht
  | getCleanRegion p =>
    rw [step] at ht
    split at ht
    · cases ht
      exact popCleanRegion_changes s p
    · cases ht
  | assignBuffer p =>
    rw [step] at ht
    split at ht
    · rename_i rid hp
      cases ht
      exact assignBufferToRegion_changes hp
    · cases ht
  | evict rid =>
    rw [step] at ht
    split_ifs at ht with hc
    cases ht
    exact evict_changes hc.2
  | runJob rid ph written =>
    rw [step] at ht
    split_ifs at ht with hmem
    exact runJob_changes hmem ht

/-! ## Facts that changes keep -/

/-- A fact about every region and its owner. -/
def Facts (F : Region → Owner → Prop) (s : State cfg ι) : Prop :=
  ∀ rid o, Owns s rid o → F (s.regions rid) o

omit [DecidableEq ι] in
/-- The rule for facts: only the change of one region is left to check. -/
lemma Facts.of_changes {F : Region → Owner → Prop} (hF : Facts F s)
    (ht : Owned t) (hchanges : Changes s t)
    (hkeep : ∀ g o g' o', Change g o g' o' → F g o → F g' o') : Facts F t := by
  intro rid x hx
  rcases hchanges with ⟨hregions, howns⟩ | ⟨r, o, g, o', hhand, hchange⟩
  · rw [hregions]
    exact hF rid x (howns rid x hx)
  · rw [hhand.regions]
    by_cases hr : rid = r
    · rw [hr] at hx ⊢
      rw [update_self, ht.owner_unique hx hhand.new]
      exact hkeep _ _ _ _ hchange (hF r o hhand.old)
    · rw [update_of_ne hr]
      exact hF rid x (hhand.other rid hr x hx)

/-- How far a region has come: a current region has a buffer and is not flushed, a region
that was flushed or is tracked has its slots on the device, and a clean one has none. -/
def StageFact (g : Region) : Owner → Prop
  | .tracked => g.flushed = true ∨ g.lastEntryEndOffset = 0
  | .clean => g.lastEntryEndOffset = 0 ∧ g.flushed = false
  | .taking => g.lastEntryEndOffset = 0 ∧ g.flushed = false
  | .current => g.hasBuffer = true ∧ g.flushed = false
  | .job .flushed => g.flushed = true
  | .job .detached => g.flushed = true
  | .job .evicted => g.flushed = true ∨ g.lastEntryEndOffset = 0
  | .job .blocked => g.flushed = true ∨ g.lastEntryEndOffset = 0
  | .job (.returning _) => g.lastEntryEndOffset = 0 ∧ g.flushed = false
  | _ => True

omit [DecidableEq ι] in
lemma init_stages : Facts StageFact (init cfg ι) := by
  intro rid o ho
  cases o with
  | tracked => exact Or.inr rfl
  | clean | job => exact absurd ho not_mem_nil
  | taking | current => exact absurd ho.choose_spec (by simp [init])

lemma Change.stage {g' : Region} {o' : Owner} (h : Change g o g' o') (hg : StageFact g o) :
    StageFact g' o' := by
  cases h with
  | opened | closed | allocated | popped | pushedBack | evicted | detached | blocked | returned =>
    exact hg
  | assigned p => exact ⟨rfl, hg.2⟩
  | flushedBefore n hflushed => exact hflushed
  | tracked => exact Or.inl hg
  | reset reclaim => exact ⟨rfl, rfl⟩
  | written => rfl
  | released | retried | gaveUp | cleaned | discarded | drained | reclaimed | bumped => trivial

end Lifecycle

end HybridCache.RegionManager

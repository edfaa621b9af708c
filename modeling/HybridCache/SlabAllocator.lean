import HybridCache.Transition

/-!
# The slab allocator

The memory is cut into slabs of 4 MiB from its start, in order. A slab that has been cut is
held by a memory pool, free, or advised away. The allocator counts the bytes of each pool in
`memoryPoolSize_`; `adviseSlab` does not touch that counter while `reclaimSlab` adds to it.
-/
set_option linter.unusedSectionVars false

namespace HybridCache.SlabAllocator
open Transition Function Option Bool List

/-! ## Model -/

/-- `Slab::kSize`, which is `sizeof(Slab)`. -/
def kSize : ℕ := 2 ^ 22

structure Config where
  /-- Slabs between `slabMemoryStart_` and the end of the memory, an `unsigned int`. -/
  numSlabs : ℕ
  numSlabs_lt : numSlabs < 2 ^ 32

/-- A slab, by its distance from `slabMemoryStart_`. -/
abbrev Slab (cfg : Config) := Fin cfg.numSlabs

/-- `SlabHeader`; `none` is `kInvalidPoolId`. -/
structure SlabHeader (ι : Type*) where
  poolId : Option ι
  advised : Bool
  deriving DecidableEq, Repr

structure State (cfg : Config) (ι : Type*) where
  /-- `nextSlabAllocation_`. -/
  next : ℕ
  next_le : next ≤ cfg.numSlabs
  freeSlabs : List (Slab cfg)
  advisedSlabs : List (Slab cfg)
  canAllocate : Bool
  /-- Counters of type `size_t`. -/
  memoryPoolSize : ι → ℕ
  header : Slab cfg → SlabHeader ι
  /-- The pool a slab has been given to and not taken back from. -/
  held : Slab cfg → Option ι

variable {cfg : Config} {ι : Type*} [DecidableEq ι]

def initial (cfg : Config) (ι : Type*) : State cfg ι where
  next := 0
  next_le := Nat.zero_le _
  freeSlabs := []
  advisedSlabs := []
  canAllocate := true
  memoryPoolSize := fun _ => 0
  header := fun _ => ⟨none, false⟩
  held := fun _ => none

def isValidSlab (s : State cfg ι) (slab : Slab cfg) : Bool := slab.val < s.next

def allMemorySlabbed (s : State cfg ι) : Bool := s.next == cfg.numSlabs

def makeNewSlabImpl (s : State cfg ι) : Option (Slab cfg) × State cfg ι :=
  if s.canAllocate = false then (none, s)
  else
    match s.freeSlabs.getLast? with
    | some slab => (some slab, { s with freeSlabs := s.freeSlabs.dropLast })
    | none =>
      if h : s.next < cfg.numSlabs then
        (some ⟨s.next, h⟩, { s with next := s.next + 1, next_le := h })
      else (none, { s with canAllocate := false })

/-- `memoryPoolSize_[id] += sizeof(Slab)` and `initializeHeader`; the caller now has the slab. -/
def give (s : State cfg ι) (slab : Slab cfg) (id : ι) : State cfg ι :=
  { s with
    memoryPoolSize := update s.memoryPoolSize id ((s.memoryPoolSize id + kSize) % 2 ^ 64)
    header := update s.header slab ⟨some id, false⟩
    held := update s.held slab (some id) }

def makeNewSlab (s : State cfg ι) (id : ι) : Option (Slab cfg) × State cfg ι :=
  match makeNewSlabImpl s with
  | (none, s') => (none, s')
  | (some slab, s') => (some slab, give s' slab id)

/-- `memoryPoolSize_[header->poolId] -= sizeof(Slab)`. -/
def uncount (s : State cfg ι) (slab : Slab cfg) : ι → ℕ :=
  match (s.header slab).poolId with
  | some id => update s.memoryPoolSize id ((s.memoryPoolSize id + (2 ^ 64 - kSize)) % 2 ^ 64)
  | none => s.memoryPoolSize

/-- `freeSlab` for a valid slab. -/
def takeBack (s : State cfg ι) (slab : Slab cfg) : State cfg ι :=
  { s with
    memoryPoolSize := uncount s slab
    freeSlabs := s.freeSlabs ++ [slab]
    canAllocate := true
    header := update s.header slab { s.header slab with poolId := none }
    held := update s.held slab none }

/-- `none` is the `std::runtime_error` for an invalid slab. -/
def freeSlab (s : State cfg ι) (slab : Slab cfg) : Option (State cfg ι) :=
  if isValidSlab s slab then some (takeBack s slab) else none

/-- `adviseSlab` for a valid slab, when `madvise` succeeds. -/
def adviseAway (s : State cfg ι) (slab : Slab cfg) : State cfg ι :=
  { s with
    advisedSlabs := s.advisedSlabs ++ [slab]
    header := update s.header slab ⟨none, true⟩
    held := update s.held slab none }

/-- `madvised` says that `madvise` succeeds or is pretended to. A failure leaves the header with
the flag cleared. -/
def adviseSlab (s : State cfg ι) (slab : Slab cfg) (madvised : Bool) : Option (State cfg ι) :=
  if isValidSlab s slab then
    if madvised then some (adviseAway s slab)
    else some { s with header := update s.header slab { s.header slab with advised := false } }
  else none

def reclaimSlab (s : State cfg ι) (id : ι) : Option (Slab cfg) × State cfg ι :=
  match s.advisedSlabs with
  | [] => (none, s)
  | slab :: rest => (some slab, give { s with advisedSlabs := rest } slab id)

inductive Action (cfg : Config) (ι : Type*)
  | makeNewSlab (id : ι)
  | freeSlab (slab : Slab cfg)
  | adviseSlab (slab : Slab cfg) (madvised : Bool)
  | reclaimSlab (id : ι)

/-- A caller gives back slabs that it holds or slabs that are rejected as invalid. -/
def mayGiveBack (s : State cfg ι) (slab : Slab cfg) : Bool :=
  (s.held slab).isSome || !isValidSlab s slab

def step (s : State cfg ι) : Action cfg ι → Option (State cfg ι)
  | .makeNewSlab id => some (makeNewSlab s id).2
  | .freeSlab slab => if mayGiveBack s slab then some ((freeSlab s slab).getD s) else none
  | .adviseSlab slab madvised =>
    if mayGiveBack s slab then some ((adviseSlab s slab madvised).getD s) else none
  | .reclaimSlab id => some (reclaimSlab s id).2

/-! ## Conservation of slabs -/

def heldCount (s : State cfg ι) (id : ι) : ℕ :=
  ∑ slab, if s.held slab = some id then 1 else 0

/-- Where the slabs are, apart from the byte counters. -/
structure Placed (s : State cfg ι) : Prop where
  place : ∀ slab, s.freeSlabs.count slab + s.advisedSlabs.count slab +
    (s.held slab).isSome.toNat = (isValidSlab s slab).toNat
  header : ∀ slab id, s.held slab = some id → (s.header slab).poolId = some id
  exhausted : (makeNewSlabImpl s).1 = none → s.freeSlabs = [] ∧ allMemorySlabbed s = true

def Counted (s : State cfg ι) : Prop := ∀ id, s.memoryPoolSize id = kSize * heldCount s id

/-- Every slab that has been cut is free, advised away or held, its header names the holder,
the counters are exact, and `makeNewSlab` fails when no slab is left. -/
def Conserved (s : State cfg ι) : Prop := Placed s ∧ Counted s

lemma heldCount_le (s : State cfg ι) (id : ι) : heldCount s id ≤ cfg.numSlabs := by
  have hle : heldCount s id ≤ ∑ _ : Slab cfg, 1 := by
    apply Finset.sum_le_sum
    intro slab _
    split <;> simp
  simpa using hle

variable {s t : State cfg ι} {slab : Slab cfg} {id : ι}

lemma heldCount_update {holder : Option ι} (ht : t.held = update s.held slab holder) (id : ι) :
    heldCount t id + (if s.held slab = some id then 1 else 0) =
      heldCount s id + (if holder = some id then 1 else 0) := by
  simp only [heldCount, ht]
  exact sum_update s.held (fun h => if h = some id then 1 else 0) slab holder

lemma makeNewSlabImpl_cases (s : State cfg ι) :
    (s.canAllocate = false ∧ makeNewSlabImpl s = (none, s)) ∨
    (s.freeSlabs = [] ∧ s.next = cfg.numSlabs ∧
      makeNewSlabImpl s = (none, { s with canAllocate := false })) ∨
    (∃ rest slab, s.canAllocate = true ∧ s.freeSlabs = rest ++ [slab] ∧
      makeNewSlabImpl s = (some slab, { s with freeSlabs := rest })) ∨
    (∃ h : s.next < cfg.numSlabs, s.canAllocate = true ∧ s.freeSlabs = [] ∧
      makeNewSlabImpl s = (some ⟨s.next, h⟩, { s with next := s.next + 1, next_le := h })) := by
  by_cases hcan : s.canAllocate = false
  · exact .inl ⟨hcan, by simp [makeNewSlabImpl, hcan]⟩
  have htrue : s.canAllocate = true := by simpa using hcan
  cases hlast : s.freeSlabs.getLast? with
  | some slab =>
    have happ := dropLast_append_getLast? slab hlast
    exact .inr (.inr (.inl ⟨_, slab, htrue, happ.symm, by simp [makeNewSlabImpl, hcan, hlast]⟩))
  | none =>
    have hnil : s.freeSlabs = [] := getLast?_eq_none_iff.1 hlast
    have hle := s.next_le
    by_cases h : s.next < cfg.numSlabs
    · exact .inr (.inr (.inr ⟨h, htrue, hnil, by simp [makeNewSlabImpl, hcan, hnil, h]⟩))
    · exact .inr (.inl ⟨hnil, by omega, by simp [makeNewSlabImpl, hcan, hnil, h]⟩)

/-- Nothing is left when the flag is cleared. -/
def FlagTold (s : State cfg ι) : Prop :=
  s.canAllocate = false → s.freeSlabs = [] ∧ allMemorySlabbed s = true

/-- The lock-free early return is the only way to fail that does not look at the lists. -/
lemma exhausted_iff :
    ((makeNewSlabImpl s).1 = none → s.freeSlabs = [] ∧ allMemorySlabbed s = true) ↔ FlagTold s := by
  obtain ⟨hcan, he⟩ | ⟨hfree, hnext, he⟩ | ⟨rest, slab, hcan, -, he⟩ | ⟨h, hcan, -, he⟩ :=
    makeNewSlabImpl_cases s
  · simp [FlagTold, he, hcan]
  · simp [FlagTold, he, hfree, hnext, allMemorySlabbed]
  · simp [FlagTold, he, hcan]
  · simp [FlagTold, he, hcan]

lemma counted_give (hs : Counted s) (hfree : s.held slab = none)
    (id : ι) : Counted (give s slab id) := by
  intro id'
  have hcount := heldCount_update (s := s) (t := give s slab id) rfl id'
  have hle := heldCount_le (give s slab id) id'
  have hlt := cfg.numSlabs_lt
  simp only [hfree, reduceCtorEq, if_false, some.injEq] at hcount
  by_cases h : id = id'
  · subst h
    have hsize : (give s slab id).memoryPoolSize id = (kSize * heldCount s id + kSize) % 2 ^ 64 := by
      simp [give, hs id]
    simp only [if_true] at hcount
    rw [hsize]
    unfold kSize
    omega
  · have hsize : (give s slab id).memoryPoolSize id' = kSize * heldCount s id' := by
      simp [give, update_of_ne (Ne.symm h), hs id']
    simp only [h, if_false] at hcount
    rw [hsize, show heldCount (give s slab id) id' = heldCount s id' by omega]

lemma isValidSlab_give (s : State cfg ι) (slab x : Slab cfg) (id : ι) :
    isValidSlab (give s slab id) x = isValidSlab s x := rfl

lemma placed_give (s : State cfg ι) (slab : Slab cfg)
    (hplace : ∀ x, s.freeSlabs.count x + s.advisedSlabs.count x + (s.held x).isSome.toNat +
      (if x = slab then 1 else 0) = (isValidSlab s x).toNat)
    (hheader : ∀ x id, s.held x = some id → (s.header x).poolId = some id) (hflag : FlagTold s)
    (id : ι) : s.held slab = none ∧ Placed (give s slab id) := by
  have hslab := hplace slab
  have hvalid := toNat_le (isValidSlab s slab)
  simp only [if_true] at hslab
  have hnone : s.held slab = none := by
    cases h : s.held slab with
    | none => rfl
    | some holder =>
      simp only [h, isSome_some, toNat_true] at hslab
      omega
  refine ⟨hnone, ?_, ?_, exhausted_iff.2 hflag⟩
  · intro x
    have hx := hplace x
    by_cases h : x = slab
    · subst h
      simp only [hnone, isSome_none, toNat_false, if_true] at hx
      rw [isValidSlab_give, ← hx]
      simp [give]
    · rw [isValidSlab_give, ← hx]
      simp [give, h]
  · intro x id' hheld
    by_cases h : x = slab
    · subst h
      simpa [give] using hheld
    · simp only [give, update_of_ne h] at hheld ⊢
      exact hheader x id' hheld

/-- What an operation does to the slabs and, if they were exact, to the counters. -/
def Keeps (s t : State cfg ι) : Prop := Placed t ∧ (Counted s → Counted t)

lemma keeps_give {id : ι}
    (h : s.held slab = none ∧ Placed (give s slab id)) : Keeps s (give s slab id) :=
  ⟨h.2, fun hcount => counted_give hcount h.1 id⟩

lemma keeps_makeNewSlab (hs : Placed s) (id : ι) : Keeps s (makeNewSlab s id).2 := by
  obtain ⟨hplace, hheader, hex⟩ := hs
  obtain ⟨-, he⟩ | ⟨hfree, hnext, he⟩ | ⟨rest, slab, hcan, hfree, he⟩ | ⟨h, hcan, hfree, he⟩ :=
    makeNewSlabImpl_cases s
  · simp only [makeNewSlab, he]
    exact ⟨⟨hplace, hheader, hex⟩, fun hcount => hcount⟩
  · simp only [makeNewSlab, he]
    refine ⟨⟨hplace, hheader, exhausted_iff.2 ?_⟩, fun hcount => hcount⟩
    intro _
    exact ⟨hfree, by simpa [allMemorySlabbed] using hnext⟩
  · simp only [makeNewSlab, he]
    have hgive := placed_give { s with freeSlabs := rest } slab ?_ hheader (fun h => ?_) id
    · exact keeps_give hgive
    · intro x
      have hx := hplace x
      rw [hfree, count_append, count_singleton'] at hx
      simp only [eq_comm, isValidSlab] at hx ⊢
      omega
    · exact absurd h (by simp [hcan])
  · simp only [makeNewSlab, he]
    have hgive := placed_give { s with next := s.next + 1, next_le := h } ⟨s.next, h⟩ ?_ hheader
      (fun h => ?_) id
    · exact keeps_give hgive
    · intro x
      have hx := hplace x
      simp only [isValidSlab, Fin.ext_iff] at hx ⊢
      by_cases heq : x.val = s.next
      · simp [heq] at hx ⊢
        exact hx
      · have hiff : (x.val < s.next + 1) ↔ x.val < s.next := by omega
        simp only [hiff, heq, if_false]
        exact hx
    · exact absurd h (by simp [hcan])

lemma keeps_reclaimSlab (hs : Placed s) (id : ι) : Keeps s (reclaimSlab s id).2 := by
  have hflag : FlagTold s := exhausted_iff.1 hs.exhausted
  cases hadv : s.advisedSlabs with
  | nil =>
    simp only [reclaimSlab, hadv]
    exact ⟨hs, fun hcount => hcount⟩
  | cons slab rest =>
    simp only [reclaimSlab, hadv]
    have hgive := placed_give { s with advisedSlabs := rest } slab ?_ hs.header hflag id
    · exact keeps_give hgive
    intro x
    have hx := hs.place x
    simp only [hadv, count_cons, beq_iff_eq] at hx
    simp only [@eq_comm _ x slab, isValidSlab] at hx ⊢
    omega

/-- A slab leaves its holder for one of the lists. -/
lemma placed_return (hs : Placed s) {id : ι}
    (hheld : s.held slab = some id) (hnext : t.next = s.next)
    (hlists : ∀ x, t.freeSlabs.count x + t.advisedSlabs.count x =
      s.freeSlabs.count x + s.advisedSlabs.count x + if x = slab then 1 else 0)
    (hheader : ∀ x, x ≠ slab → t.header x = s.header x)
    (hheldt : t.held = update s.held slab none) (hflag : FlagTold t) : Placed t := by
  refine ⟨?_, ?_, exhausted_iff.2 hflag⟩
  · intro x
    have hx := hs.place x
    have hl := hlists x
    simp only [isValidSlab, hnext] at hx ⊢
    by_cases h : x = slab
    · subst h
      simp only [hheld, isSome_some, toNat_true] at hx
      simp only [if_true] at hl
      rw [hheldt, update_self]
      simp only [isSome_none, toNat_false]
      omega
    · simp only [h, if_false] at hl
      rw [hheldt, update_of_ne h]
      omega
  · intro x id' hx
    rw [hheldt] at hx
    by_cases h : x = slab
    · subst h
      simp at hx
    · rw [update_of_ne h] at hx
      rw [hheader x h]
      exact hs.header x id' hx

lemma heldCount_return {id : ι}
    (hheld : s.held slab = some id) (hheldt : t.held = update s.held slab none) (id' : ι) :
    heldCount t id' + (if id = id' then 1 else 0) = heldCount s id' := by
  have hcount := heldCount_update hheldt id'
  simpa [hheld] using hcount

lemma keeps_takeBack (hs : Placed s) {id : ι}
    (hheld : s.held slab = some id) : Keeps s (takeBack s slab) := by
  constructor
  · refine placed_return hs hheld rfl ?_ ?_ rfl (fun h => by cases h)
    · intro x
      simp only [takeBack, count_append, count_singleton', eq_comm]
      omega
    · intro x hx
      simp [takeBack, update_of_ne hx]
  · intro hcount id'
    have hreturn := heldCount_return (t := takeBack s slab) hheld rfl id'
    have hle := heldCount_le s id'
    have hlt := cfg.numSlabs_lt
    by_cases hid : id = id'
    · subst hid
      have hsize : (takeBack s slab).memoryPoolSize id =
          (kSize * heldCount s id + (2 ^ 64 - kSize)) % 2 ^ 64 := by
        simp [takeBack, uncount, hs.header slab id hheld, hcount id]
      simp only [if_true] at hreturn
      rw [hsize]
      unfold kSize
      omega
    · have hsize : (takeBack s slab).memoryPoolSize id' = kSize * heldCount s id' := by
        simp [takeBack, uncount, hs.header slab id hheld, update_of_ne (Ne.symm hid), hcount id']
      simp only [hid, if_false, add_zero] at hreturn
      rw [hsize, hreturn]

lemma placed_adviseAway (hs : Placed s) {id : ι}
    (hheld : s.held slab = some id) : Placed (adviseAway s slab) := by
  have hflag : FlagTold s := exhausted_iff.1 hs.exhausted
  refine placed_return hs hheld rfl ?_ ?_ rfl hflag
  · intro x
    simp only [adviseAway, count_append, count_singleton', eq_comm]
    omega
  · intro x hx
    simp [adviseAway, update_of_ne hx]

lemma not_counted_adviseAway (hs : Counted s) {id : ι}
    (hheld : s.held slab = some id) : ¬Counted (adviseAway s slab) := by
  intro ht
  have hreturn := heldCount_return (t := adviseAway s slab) hheld rfl id
  have hsize : kSize * heldCount s id = kSize * heldCount (adviseAway s slab) id :=
    (hs id).symm.trans (ht id)
  simp only [if_true, kSize] at hreturn hsize
  omega

/-- A slab is advised away only if its header is rejected or `madvise` fails. -/
def StepNotAdvised (s : State cfg ι) : Action cfg ι → Prop
  | .adviseSlab slab madvised => madvised = true → isValidSlab s slab = false
  | _ => True

instance decidableStepNotAdvised (s : State cfg ι) : ∀ a, Decidable (StepNotAdvised s a)
  | .adviseSlab slab madvised =>
    inferInstanceAs (Decidable (madvised = true → isValidSlab s slab = false))
  | .makeNewSlab _ | .freeSlab _ | .reclaimSlab _ => .isTrue trivial

lemma held_of_mayGiveBack (h : mayGiveBack s slab = true)
    (hvalid : isValidSlab s slab = true) : ∃ id, s.held slab = some id := by
  rw [mayGiveBack, hvalid] at h
  exact isSome_iff_exists.1 (by simpa using h)

/-- Every step keeps the slabs, and the counters unless it advises a slab away. -/
lemma step_keeps {a : Action cfg ι} (hs : Placed s) (h : step s a = some t) :
    Placed t ∧ (StepNotAdvised s a → Counted s → Counted t) := by
  cases a with
  | makeNewSlab id =>
    cases h
    exact (keeps_makeNewSlab hs id).imp_right fun h _ => h
  | reclaimSlab id =>
    cases h
    exact (keeps_reclaimSlab hs id).imp_right fun h _ => h
  | freeSlab slab =>
    simp only [step] at h
    split_ifs at h with hmay
    cases h
    cases hvalid : isValidSlab s slab with
    | false => simpa [freeSlab, hvalid] using hs
    | true =>
      obtain ⟨id, hheld⟩ := held_of_mayGiveBack hmay hvalid
      simpa [freeSlab, hvalid, Keeps, StepNotAdvised] using keeps_takeBack hs hheld
  | adviseSlab slab madvised =>
    simp only [step] at h
    split_ifs at h with hmay
    cases h
    cases hvalid : isValidSlab s slab with
    | false => simpa [adviseSlab, hvalid] using hs
    | true =>
      obtain ⟨id, hheld⟩ := held_of_mayGiveBack hmay hvalid
      cases madvised with
      | true =>
        simp only [adviseSlab, hvalid, if_true, getD_some]
        exact ⟨placed_adviseAway hs hheld, fun hnot => by simpa [hvalid] using hnot rfl⟩
      | false =>
        simp only [adviseSlab, hvalid, if_true, false_eq_true, if_false, getD_some]
        have hflag : FlagTold s := exhausted_iff.1 hs.exhausted
        refine ⟨⟨hs.place, ?_, exhausted_iff.2 hflag⟩, fun _ hcount => hcount⟩
        intro x id' hx
        have hheader := hs.header x id' hx
        by_cases h : x = slab
        · subst h
          simpa using hheader
        · simpa [h] using hheader

lemma conserved_step {a : Action cfg ι} (hs : Conserved s)
    (h : step s a = some t) : Conserved t ↔ StepNotAdvised s a := by
  obtain ⟨hplaced, hcounted⟩ := step_keeps hs.1 h
  refine ⟨fun ht => ?_, fun hnot => ⟨hplaced, hcounted hnot hs.2⟩⟩
  by_contra hadvised
  cases a with
  | makeNewSlab | freeSlab | reclaimSlab => exact hadvised trivial
  | adviseSlab slab madvised =>
    simp only [StepNotAdvised, Classical.not_imp, not_eq_false] at hadvised
    obtain ⟨rfl, hvalid⟩ := hadvised
    simp only [step] at h
    split_ifs at h with hmay
    cases h
    obtain ⟨id, hheld⟩ := held_of_mayGiveBack hmay hvalid
    simp only [adviseSlab, hvalid, if_true, getD_some] at ht
    exact not_counted_adviseAway hs.2 hheld ht.2

lemma conserved_initial : Conserved (initial cfg ι) := by
  refine ⟨⟨?_, nofun, exhausted_iff.2 nofun⟩, ?_⟩
  · intro slab
    simp [initial, isValidSlab]
  · intro id
    simp [initial, heldCount]

/-! ## Who holds a slab -/

lemma held_of_listed (hs : Placed s)
    (h : 0 < s.freeSlabs.count slab + s.advisedSlabs.count slab) : s.held slab = none := by
  have hplace := hs.place slab
  have hvalid := toNat_le (isValidSlab s slab)
  cases hheld : s.held slab with
  | none => rfl
  | some id =>
    simp only [hheld, isSome_some, toNat_true] at hplace
    omega

lemma isValidSlab_of_held (hs : Placed s) {id : ι}
    (h : s.held slab = some id) : isValidSlab s slab = true := by
  have hplace := hs.place slab
  cases hvalid : isValidSlab s slab with
  | true => rfl
  | false =>
    simp only [h, hvalid, isSome_some, toNat_true, toNat_false] at hplace
    omega

lemma makeNewSlab_held (hs : Placed s) (id : ι) :
    ((makeNewSlab s id).1 = none ∧ (makeNewSlab s id).2.held = s.held) ∨
    ∃ slab, (makeNewSlab s id).1 = some slab ∧ s.held slab = none ∧
      (makeNewSlab s id).2.held = update s.held slab (some id) := by
  obtain ⟨-, he⟩ | ⟨-, -, he⟩ | ⟨rest, slab, -, hfree, he⟩ | ⟨h, -, -, he⟩ :=
    makeNewSlabImpl_cases s
  · exact .inl (by simp [makeNewSlab, he])
  · exact .inl (by simp [makeNewSlab, he])
  · refine .inr ⟨slab, by simp [makeNewSlab, he], held_of_listed hs ?_, by simp [makeNewSlab, he, give]⟩
    simp [hfree]
  · refine .inr ⟨⟨s.next, h⟩, by simp [makeNewSlab, he], ?_, by simp [makeNewSlab, he, give]⟩
    cases hheld : s.held ⟨s.next, h⟩ with
    | none => rfl
    | some id' => simpa [isValidSlab] using isValidSlab_of_held hs hheld

lemma reclaimSlab_held (hs : Placed s) (id : ι) :
    ((reclaimSlab s id).1 = none ∧ (reclaimSlab s id).2.held = s.held) ∨
    ∃ slab, (reclaimSlab s id).1 = some slab ∧ s.held slab = none ∧
      (reclaimSlab s id).2.held = update s.held slab (some id) := by
  cases hadv : s.advisedSlabs with
  | nil => exact .inl (by simp [reclaimSlab, hadv])
  | cons slab rest =>
    refine .inr ⟨slab, by simp [reclaimSlab, hadv], held_of_listed hs ?_, by simp [reclaimSlab, hadv, give]⟩
    simp [hadv]

/-- Slabs are neither lost nor shared, also when they are advised away. -/
theorem slabs_placed {as : List (Action cfg ι)}
    (h : run step (initial cfg ι) as = some s) : Placed s :=
  run_invariant (fun _ _ _ hs hstep => (step_keeps hs hstep).1) conserved_initial.1 h

theorem slabs_placed_advised : ∃ s, run step (initial ⟨2, by decide⟩ (Fin 2))
    [.makeNewSlab 0, .adviseSlab ⟨0, by decide⟩ true] = some s ∧ Placed s :=
  Exists.imp (fun _ h => ⟨h, slabs_placed h⟩) (Option.isSome_iff_exists.1 rfl)

/-- Slabs and counters agree along a run exactly when no slab is advised away. -/
theorem slabs_conserved_iff (as : List (Action cfg ι)) :
    Always step Conserved (initial cfg ι) as ↔ Meets step StepNotAdvised (initial cfg ι) as :=
  always_iff_meets (fun _ => True) (fun _ => True) (fun _ _ _ _ _ _ _ => trivial)
    (fun _ _ _ _ _ hs h => conserved_step hs h) (fun _ _ => trivial) trivial conserved_initial

def twoSlabs : Config := ⟨2, by decide⟩

/-- Pool 0 gets a slab, it is advised away and reclaimed: the counter says two slabs. -/
theorem advised_slab_counted_twice :
    (run step (initial twoSlabs (Fin 2)) [.makeNewSlab 0, .adviseSlab ⟨0, by decide⟩ true,
      .reclaimSlab 0]).map
      (fun s => (s.memoryPoolSize 0, kSize * heldCount s 0)) = some (8388608, 4194304) := by
  decide

end HybridCache.SlabAllocator

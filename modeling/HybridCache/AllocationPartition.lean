import HybridCache.AllocationClass

/-!
# Every chunk of an owned slab has one place

The places of a chunk are counted, and the counts of the four places add up to
one for a chunk of an owned slab and to zero otherwise. An aborted `startSlabRelease` loses its
slab and chunks of it: in a run with one, the counts are bounds only. `Sound` holds in both cases.
-/
namespace HybridCache.AllocationClass
open Transition Function List Option Bool Nat

section Places
variable {σ : Type*} [DecidableEq σ] (cfg : Config)

def Phase.lists : Phase σ → List (Mem σ)
  | .batch f i n | .aborting f i n => f ++ (i ++ n)
  | _ => []

def offline (s : State σ) : List (Mem σ) :=
  match s.release with
  | some (_, ph) => ph.lists
  | none => []

def ahead (s : State σ) (slab : σ) (i : ℕ) : ℕ :=
  if s.currSlab = some slab ∧ s.currOffset ≤ i * cfg.allocationSize then 1 else 0

def uncarved (s : State σ) (slab : σ) (i : ℕ) : ℕ := s.freeSlabs.count slab + ahead cfg s slab i

def listed (s : State σ) (slab : σ) (i : ℕ) : ℕ :=
  s.freedAllocations.count (chunk cfg slab i) + (offline s).count (chunk cfg slab i)

def bitOf (bitmaps : σ → Option (List Bool)) (slab : σ) (i : ℕ) : Bool :=
  ((bitmaps slab).getD []).getD i false

def freeBit (s : State σ) (slab : σ) (i : ℕ) : Bool := bitOf s.slabReleaseAllocMap slab i

def handed (s : State σ) (slab : σ) (i : ℕ) : ℕ := s.handedOut.count (chunk cfg slab i)

/-- The number of places of a chunk. -/
def places (s : State σ) (slab : σ) (i : ℕ) : ℕ :=
  uncarved cfg s slab i + listed cfg s slab i + (freeBit s slab i).toNat + handed cfg s slab i

/-- The slabs under release: the one of the running call and those with a context. -/
def releasing (s : State σ) : List σ :=
  (s.release.map Prod.fst).toList ++ s.contexts.map Context.slab

/-- What a running release guarantees about its lists. -/
def PhaseInv (s : State σ) (slab : σ) : Phase σ → Prop
  | .marked => True
  | .batch f i n =>
    (∀ m ∈ f, s.markedForRelease m.1 = true → m.1 = slab) ∧ (∀ m ∈ i, m.1 = slab) ∧
      ∀ m ∈ n, s.markedForRelease m.1 = false
  | .pruned => True
  | .collected active =>
    ∀ i < getAllocsPerSlab cfg, freeBit s slab i = false → chunk cfg slab i ∈ active
  | .aborting _ _ _ => False
  | .aborted => False

structure Inv (s : State σ) : Prop where
  owner : ∀ slab, s.freeSlabs.count slab + s.allocatedSlabs.count slab +
    (releasing s).count slab = (s.owned slab).toNat
  marked : ∀ slab, s.markedForRelease slab = true ↔ slab ∈ releasing s
  bitmap : ∀ slab, (s.slabReleaseAllocMap slab).isSome = s.markedForRelease slab
  bits : ∀ slab l, s.slabReleaseAllocMap slab = some l → l.length = getAllocsPerSlab cfg
  curr : ∀ slab, s.currSlab = some slab → slab ∈ s.allocatedSlabs
  freed : ∀ c ∈ s.contexts, c.allFreed = true →
    ∀ i < getAllocsPerSlab cfg, freeBit s c.slab i = true
  place : ∀ slab, ∀ i < getAllocsPerSlab cfg, places cfg s slab i = (s.owned slab).toNat
  chunks : ∀ m, m ∈ s.freedAllocations ∨ m ∈ offline s ∨ m ∈ s.handedOut → IsChunk cfg m
  offset : ∃ j ≤ getAllocsPerSlab cfg, s.currOffset = j * cfg.allocationSize
  clean : ∀ m ∈ s.freedAllocations, s.markedForRelease m.1 = true →
    s.release = some (m.1, .marked)
  phase : ∀ slab ph, s.release = some (slab, ph) → PhaseInv cfg s slab ph

/-- At most the bound, and equal to it if nothing is lost. -/
abbrev Within (intact : Prop) (n bound : ℕ) : Prop := n ≤ bound ∧ (intact → n = bound)

def PhaseSound (intact : Prop) (s : State σ) (slab : σ) : Phase σ → Prop
  | .batch f i n =>
    (∀ m ∈ i, m.1 = slab) ∧ (intact → (∀ m ∈ f, s.markedForRelease m.1 = true → m.1 = slab) ∧
      ∀ m ∈ n, s.markedForRelease m.1 = false)
  | .collected active =>
    ∀ i < getAllocsPerSlab cfg, freeBit s slab i = false → chunk cfg slab i ∈ active
  | .aborting _ _ _ | .aborted => ¬ intact
  | _ => True

structure Sound (intact : Prop) (s : State σ) : Prop where
  owner : ∀ slab, Within intact (s.freeSlabs.count slab + s.allocatedSlabs.count slab +
    (releasing s).count slab) (s.owned slab).toNat
  marked : ∀ slab ∈ releasing s, s.markedForRelease slab = true
  only : intact → ∀ slab, s.markedForRelease slab = true → slab ∈ releasing s
  bitmap : ∀ slab, (s.slabReleaseAllocMap slab).isSome = s.markedForRelease slab
  bits : ∀ slab l, s.slabReleaseAllocMap slab = some l → l.length = getAllocsPerSlab cfg
  curr : ∀ slab, s.currSlab = some slab → slab ∈ s.allocatedSlabs
  freed : ∀ c ∈ s.contexts, c.allFreed = true →
    ∀ i < getAllocsPerSlab cfg, freeBit s c.slab i = true
  place : ∀ slab, ∀ i < getAllocsPerSlab cfg,
    Within intact (places cfg s slab i) (s.owned slab).toNat
  chunks : ∀ m, m ∈ s.freedAllocations ∨ m ∈ offline s ∨ m ∈ s.handedOut → IsChunk cfg m
  offset : ∃ j ≤ getAllocsPerSlab cfg, s.currOffset = j * cfg.allocationSize
  clean : intact → ∀ m ∈ s.freedAllocations, s.markedForRelease m.1 = true →
    s.release = some (m.1, .marked)
  phase : ∀ slab ph, s.release = some (slab, ph) → PhaseSound cfg intact s slab ph

lemma Sound.inv {s : State σ} (h : Sound cfg True s) : Inv cfg s := by
  refine ⟨fun slab => (h.owner slab).2 trivial, fun slab => ⟨h.only trivial slab, h.marked slab⟩,
    h.bitmap, h.bits, h.curr, h.freed, fun slab i hi => (h.place slab i hi).2 trivial, h.chunks,
    h.offset, h.clean trivial, fun slab ph hph => ?_⟩
  have hold := h.phase slab ph hph
  cases ph with
  | batch f i n => exact ⟨(hold.2 trivial).1, hold.1, (hold.2 trivial).2⟩
  | aborting | aborted => exact hold trivial
  | _ => exact hold

end Places

section Steps
variable {σ : Type*} [DecidableEq σ] {cfg : Config} {intact : Prop} {s : State σ}

lemma initial_sound (cfg : Config) : Sound cfg intact (initial σ) := by
  constructor
  case offset => exact ⟨0, zero_le _, by simp [initial]⟩
  all_goals simp [initial, releasing, freeBit, bitOf, Within, places, uncarved, ahead, listed, handed,
    offline]

variable {i : ℕ} {slab : σ} {m : Mem σ} {l : List Bool} {ph : Phase σ}

lemma chunk_offset_le {j : ℕ} : j * cfg.allocationSize ≤ i * cfg.allocationSize ↔ j ≤ i :=
  Nat.mul_le_mul_right_iff cfg.pos

/-- Room in the current slab means that the next chunk exists. -/
lemma lt_allocsPerSlab_iff {j : ℕ} :
    j * cfg.allocationSize + cfg.allocationSize ≤ kSize ↔ j < getAllocsPerSlab cfg := by
  rw [getAllocsPerSlab, ← succ_le_iff, le_div_iff_mul_le cfg.pos, succ_mul]

lemma Sound.addSlab (h : Sound cfg intact s) (ho : s.owned slab = false) : Sound cfg intact (addSlabLocked s slab) := by
  have hself := h.owner slab
  refine ⟨fun t => ?_, h.marked, h.only, h.bitmap, h.bits, h.curr, h.freed, fun t i hi => ?_, h.chunks,
    h.offset, h.clean, h.phase⟩
  · have hown := h.owner t
    simp only [addSlabLocked, releasing] at hown hself ⊢
    grind
  · have hp := h.place t i hi
    have hown := h.place slab i hi
    simp only [places, uncarved, ahead, addSlabLocked, freeBit, listed, handed, offline] at hp hown ⊢
    grind

lemma Sound.pop (h : Sound cfg intact s) {rest : List (Mem σ)} (hl : s.freedAllocations = m :: rest) :
    Sound cfg intact { s with freedAllocations := rest, handedOut := m :: s.handedOut } := by
  refine ⟨h.owner, h.marked, h.only, h.bitmap, h.bits, h.curr, h.freed, fun t i hi => ?_, fun x hx => ?_,
    h.offset, fun hi x hx => h.clean hi x (by simp [hl, hx]), h.phase⟩
  · have hp := h.place t i hi
    simp only [places, uncarved, ahead, freeBit, listed, handed, offline, hl] at hp ⊢
    grind
  · have hold := h.chunks x
    simp only [offline] at hx hold
    grind

def carved (cfg : Config) (s : State σ) (slab : σ) : State σ :=
  { s with
    currOffset := s.currOffset + cfg.allocationSize
    handedOut := (slab, s.currOffset) :: s.handedOut }

/-- The next chunk of the current slab is handed out. -/
lemma Sound.carve (h : Sound cfg intact s) (hc : s.currSlab = some slab)
    (hroom : s.currOffset + cfg.allocationSize ≤ kSize) :
    Sound cfg intact (carved cfg s slab) := by
  obtain ⟨j, hj, hoff⟩ := h.offset
  have hlt : j < getAllocsPerSlab cfg := lt_allocsPerSlab_iff.1 (hoff ▸ hroom)
  have hmem : (slab, s.currOffset) = chunk cfg slab j := by rw [hoff]; rfl
  refine ⟨h.owner, h.marked, h.only, h.bitmap, h.bits, h.curr, h.freed, fun t i hi => ?_, fun x hx => ?_,
    ⟨j + 1, hlt, by rw [succ_mul, ← hoff]; rfl⟩, h.clean, h.phase⟩
  · have hp := h.place t i hi
    simp only [places, uncarved, ahead, listed, handed, freeBit, offline, carved, hmem, hc] at hp ⊢
    simp only [hoff, ← succ_mul, chunk_offset_le, some.injEq, count_cons,
      beq_iff_eq, chunk_inj] at hp ⊢
    grind
  · have hold := h.chunks x
    simp only [offline, carved, hmem] at hx hold
    grind [isChunk_chunk]

lemma Sound.setup (h : Sound cfg intact s) {init : List σ} (hf : s.freeSlabs = init ++ [slab])
    (hfull : canAllocateFromCurrentSlabLocked cfg s = false) :
    Sound cfg intact (setupCurrentSlabLocked s) := by
  have hset : setupCurrentSlabLocked s = { s with
      freeSlabs := init
      currSlab := some slab
      currOffset := 0
      allocatedSlabs := s.allocatedSlabs ++ [slab] } := by
    simp [setupCurrentSlabLocked, hf]
  -- nothing is left to carve in the old slab
  have hold : ∀ t i, i < getAllocsPerSlab cfg → ahead cfg s t i = 0 := by
    intro t i hi
    obtain ⟨j, hj, hoff⟩ := h.offset
    refine if_neg fun ⟨hc, hle⟩ => ?_
    rw [canAllocateFromCurrentSlabLocked, hc, isSome_some, Bool.true_and,
      decide_eq_false_iff_not, hoff, lt_allocsPerSlab_iff] at hfull
    rw [hoff, chunk_offset_le] at hle
    omega
  rw [hset]
  refine ⟨fun t => ?_, h.marked, h.only, h.bitmap, h.bits, by simp, h.freed, fun t i hi => ?_,
    h.chunks, ⟨0, zero_le _, by simp⟩, h.clean, h.phase⟩
  · have hown := h.owner t
    simp only [hf, releasing] at hown ⊢
    grind
  · have hp := h.place t i hi
    rw [places, uncarved, hold t i hi, hf] at hp
    simp only [places, uncarved, ahead, listed, handed, freeBit, offline] at hp ⊢
    grind

omit [DecidableEq σ] in
lemma allocate_cases (cfg : Config) (s : State σ) :
    (∃ m rest, s.freedAllocations = m :: rest ∧ allocate cfg s =
      (some m, { s with freedAllocations := rest, handedOut := m :: s.handedOut })) ∨
    (∃ slab, s.currSlab = some slab ∧ s.currOffset + cfg.allocationSize ≤ kSize ∧
      allocate cfg s = (some (slab, s.currOffset), carved cfg s slab)) ∨
    (∃ init slab, s.freeSlabs = init ++ [slab] ∧
      canAllocateFromCurrentSlabLocked cfg s = false ∧ allocate cfg s =
        (some (slab, 0), carved cfg (setupCurrentSlabLocked s) slab)) ∨
    (s.freedAllocations = [] ∧ s.freeSlabs = [] ∧ canAllocateFromCurrentSlabLocked cfg s = false ∧
      allocate cfg s = (none, { s with canAllocate := false })) := by
  cases hl : s.freedAllocations with
  | cons m rest =>
    left
    exact ⟨m, rest, rfl, by simp [allocate, allocateLocked, hl]⟩
  | nil =>
    by_cases hroom : canAllocateFromCurrentSlabLocked cfg s = true
    · right; left
      have hr := hroom
      rw [canAllocateFromCurrentSlabLocked, and_eq_true, isSome_iff_exists,
        decide_eq_true_iff] at hr
      obtain ⟨⟨slab, hc⟩, hle⟩ := hr
      exact ⟨slab, hc, hle, by
        simp [allocate, allocateLocked, hl, hroom, allocateFromCurrentSlabLocked, hc, carved]⟩
    · rw [not_eq_true] at hroom
      rcases eq_nil_or_concat s.freeSlabs with hf | ⟨init, slab, hf⟩
      · right; right; right
        exact ⟨rfl, hf, hroom, by simp [allocate, allocateLocked, hl, hroom, hf]⟩
      · right; right; left
        rw [concat_eq_append] at hf
        refine ⟨init, slab, hf, hroom, ?_⟩
        simp [allocate, allocateLocked, hl, hroom, hf, allocateFromCurrentSlabLocked,
          setupCurrentSlabLocked, carved]

lemma Sound.setCanAllocate (h : Sound cfg intact s) (b : Bool) : Sound cfg intact { s with canAllocate := b } :=
  ⟨h.owner, h.marked, h.only, h.bitmap, h.bits, h.curr, h.freed, h.place, h.chunks, h.offset, h.clean,
    h.phase⟩

lemma Sound.allocate (h : Sound cfg intact s) : Sound cfg intact (allocate cfg s).2 := by
  obtain ⟨m, rest, hl, heq⟩ | ⟨slab, hc, hroom, heq⟩ | ⟨init, slab, hf, hfull, heq⟩ |
      ⟨-, -, -, heq⟩ :=
    allocate_cases cfg s
  · rw [heq]
    exact h.pop hl
  · rw [heq]
    exact h.carve hc hroom
  · rw [heq]
    refine (h.setup hf hfull).carve ?_ ?_
    · simp [setupCurrentSlabLocked, hf]
    · simp [setupCurrentSlabLocked, hf, cfg.le]
  · rw [heq]
    exact h.setCanAllocate false

lemma Sound.freeBit_of_handedOut (h : Sound cfg intact s) {i : ℕ}
    (hi : i < getAllocsPerSlab cfg) (hm : chunk cfg slab i ∈ s.handedOut) :
    freeBit s slab i = false ∧ s.handedOut.count (chunk cfg slab i) = 1 := by
  have hp := h.place slab i hi
  simp only [places, handed] at hp
  grind [toNat_le]

lemma bitOf_update (bitmaps : σ → Option (List Bool)) (slab t : σ) (v : Option (List Bool))
    (i : ℕ) : bitOf (update bitmaps slab v) t i =
      if t = slab then (v.getD []).getD i false else bitOf bitmaps t i := by
  grind [bitOf]

section
variable (h : Sound cfg intact s)
include h

lemma Sound.bitmap_of_marked (hm : s.markedForRelease slab = true) :
    ∃ l, s.slabReleaseAllocMap slab = some l ∧ l.length = getAllocsPerSlab cfg ∧
      ∀ i, freeBit s slab i = l.getD i false := by
  obtain ⟨l, hl⟩ := isSome_iff_exists.1 ((h.bitmap slab).trans hm)
  exact ⟨l, hl, h.bits slab l hl, fun i => by simp [freeBit, bitOf, hl]⟩

lemma Sound.bitmap_of_unmarked (hm : s.markedForRelease slab = false) :
    s.slabReleaseAllocMap slab = none ∧ ∀ i, freeBit s slab i = false := by
  have hnone : s.slabReleaseAllocMap slab = none :=
    isNone_iff_eq_none.1 (by simpa [isNone_iff_eq_none] using (h.bitmap slab).trans hm)
  exact ⟨hnone, fun i => by simp [freeBit, bitOf, hnone]⟩

lemma Sound.setBits {l' : List Bool}
    (hl : s.slabReleaseAllocMap slab = some l) (hlen : l'.length = l.length) :
    (∀ t, (update s.slabReleaseAllocMap slab (some l') t).isSome = s.markedForRelease t) ∧
    ∀ t r, update s.slabReleaseAllocMap slab (some l') t = some r →
      r.length = getAllocsPerSlab cfg := by
  have hb := h.bitmap
  have hlen' := h.bits
  constructor <;> grind

lemma Sound.free_marked {k : ℕ} (hk : k < getAllocsPerSlab cfg) (hm : chunk cfg slab k ∈ s.handedOut)
    (hl : s.slabReleaseAllocMap slab = some l) :
    Sound cfg intact { s with
      slabReleaseAllocMap := update s.slabReleaseAllocMap slab (some (l.set k true))
      handedOut := s.handedOut.erase (chunk cfg slab k) } := by
  have hlen := h.bits slab l hl
  have hbit : ∀ t i, bitOf (update s.slabReleaseAllocMap slab (some (l.set k true))) t i =
      (decide (t = slab ∧ i = k) || freeBit s t i) := by
    intro t i
    rw [bitOf_update]
    split_ifs with ht
    · rw [getD_some, bit_set l k i (by omega)]
      simp [ht, freeBit, bitOf, hl]
    · simp [ht, freeBit]
  obtain ⟨hb, hs⟩ := h.setBits hl (length_set ..)
  obtain ⟨hzero, hone⟩ := h.freeBit_of_handedOut hk hm
  refine ⟨h.owner, h.marked, h.only, hb, hs, h.curr, fun c hc hf i hi => ?_, fun t i hi => ?_,
    fun x hx => ?_, h.offset, h.clean, fun t ph hph => ?_⟩
  · exact (hbit c.slab i).trans (by rw [h.freed c hc hf i hi, Bool.or_true])
  · have hp := h.place t i hi
    simp only [places, handed] at hp ⊢
    rw [freeBit, hbit, count_erase]
    simp only [uncarved, ahead, listed, offline, beq_iff_eq, chunk_inj] at hp ⊢
    grind
  · have hold := h.chunks x
    simp only [offline] at hx hold
    grind [mem_of_mem_erase]
  · have hold := h.phase t ph hph
    cases ph with
    | collected active =>
      intro i hi hfalse
      have hor := (hbit t i).symm.trans hfalse
      rw [or_eq_false_iff] at hor
      exact hold i hi hor.2
    | _ => exact hold

lemma Sound.free_unmarked (hm : m ∈ s.handedOut) (hum : s.markedForRelease m.1 = false) :
    Sound cfg intact { s with
      freedAllocations := m :: s.freedAllocations
      canAllocate := true
      handedOut := s.handedOut.erase m } := by
  refine ⟨h.owner, h.marked, h.only, h.bitmap, h.bits, h.curr, h.freed, fun t i hi => ?_, fun x hx => ?_,
    h.offset, fun hi x hx hxm => ?_, h.phase⟩
  · have hp := h.place t i hi
    simp only [places, uncarved, ahead, listed, handed, freeBit, offline] at hp ⊢
    grind
  · have hold := h.chunks x
    simp only [offline] at hx hold
    grind [mem_of_mem_erase]
  · have hold := h.clean hi x
    grind

lemma Sound.free (hm : m ∈ s.handedOut) :
    ∃ t, free cfg s m = some t ∧ Sound cfg intact { t with handedOut := t.handedOut.erase m } := by
  obtain ⟨k, hk, hchunk⟩ := h.chunks m (.inr (.inr hm))
  by_cases hmark : s.markedForRelease m.1 = true
  · obtain ⟨l, hl, hlen, hbits⟩ := h.bitmap_of_marked hmark
    rw [hchunk] at hm
    have hzero := (h.freeBit_of_handedOut hk hm).1
    have hidx : getAllocIdx cfg m = k := by rw [hchunk, getAllocIdx_chunk]
    rw [hbits] at hzero
    refine ⟨{ s with
      slabReleaseAllocMap := update s.slabReleaseAllocMap m.1 (some (l.set k true)) },
      ?_, ?_⟩
    · simp only [AllocationClass.free, hmark, if_true, hl, hidx, hzero, false_eq_true, if_false]
    · rw [hchunk]
      exact h.free_marked hk hm hl
  · rw [not_eq_true] at hmark
    exact ⟨{ s with freedAllocations := m :: s.freedAllocations, canAllocate := true },
      by simp [AllocationClass.free, hmark], h.free_unmarked hm hmark⟩

lemma Sound.release_free (hf : slab ∈ s.freeSlabs) : Sound cfg intact { s with
      freeSlabs := swapRemove slab s.freeSlabs
      owned := update s.owned slab false } := by
  have hself := h.owner slab
  refine ⟨fun t => ?_, h.marked, h.only, h.bitmap, h.bits, h.curr, h.freed, fun t i hi => ?_, h.chunks,
    h.offset, h.clean, h.phase⟩
  · have hown := h.owner t
    have hswap := count_swapRemove hf t
    simp only [releasing] at hown hself ⊢
    grind [toNat_le]
  · have hp := h.place t i hi
    have hswap := count_swapRemove hf t
    simp only [places, uncarved, ahead, listed, handed, freeBit, offline] at hp ⊢
    grind [toNat_le]

end

def newBitmap (cfg : Config) (s : State σ) (slab : σ) : List Bool :=
  if s.currSlab = some slab then
    markTail (s.currOffset / cfg.allocationSize) (List.replicate (getAllocsPerSlab cfg) false)
  else List.replicate (getAllocsPerSlab cfg) false

lemma newBitmap_length (cfg : Config) (s : State σ) (slab : σ) :
    (newBitmap cfg s slab).length = getAllocsPerSlab cfg := by
  unfold newBitmap
  split_ifs <;> simp [markTail]

lemma newBitmap_bit (cfg : Config) (s : State σ) (slab : σ)
    (hi : i < getAllocsPerSlab cfg) : (newBitmap cfg s slab).getD i false =
      decide (s.currSlab = some slab ∧ s.currOffset / cfg.allocationSize ≤ i) := by
  have hrep : (replicate (getAllocsPerSlab cfg) false).getD i false = false := by
    simp [getD_eq_getElem?_getD, hi]
  unfold newBitmap
  split_ifs with hc
  · rw [bit_markTail _ _ _ (by simpa using hi), hrep]
    simp [hc]
  · rw [hrep]
    simp [hc]

def markedState (cfg : Config) (s : State σ) (slab : σ) : State σ :=
  { s with
    markedForRelease := update s.markedForRelease slab true
    slabReleaseAllocMap := update s.slabReleaseAllocMap slab (some (newBitmap cfg s slab))
    allocatedSlabs := swapRemove slab s.allocatedSlabs
    release := some (slab, .marked)
    currSlab := if s.currSlab = some slab then none else s.currSlab
    currOffset := if s.currSlab = some slab then 0 else s.currOffset }

lemma Sound.not_releasing (h : Sound cfg intact s) (hm : s.markedForRelease slab = false) :
    slab ∉ releasing s := by
  intro hmem
  simp [h.marked slab hmem] at hm

lemma startSlabRelease_marked (hf : slab ∉ s.freeSlabs) (ha : slab ∈ s.allocatedSlabs) :
    startSlabRelease cfg s slab = markedState cfg s slab := by
  by_cases hc : s.currSlab = some slab
  · simp [startSlabRelease, markedState, newBitmap, hf, ha, hc]
  · simp [startSlabRelease, markedState, newBitmap, hf, ha, hc]

/-- The un-carved tail of the current slab becomes free bits. -/
lemma Sound.mark (h : Sound cfg intact s) (hrel : s.release = none)
    (hm : s.markedForRelease slab = false) (hf : slab ∉ s.freeSlabs)
    (ha : slab ∈ s.allocatedSlabs) : Sound cfg intact (markedState cfg s slab) := by
  have hr := h.not_releasing hm
  have hreleasing : releasing (markedState cfg s slab) = slab :: releasing s := by
    simp [releasing, markedState, hrel]
  have hoffline : offline (markedState cfg s slab) = offline s := by
    simp [offline, markedState, hrel, Phase.lists]
  obtain ⟨j, hj, hoff⟩ := h.offset
  have hcarved : s.currOffset / cfg.allocationSize = j := by
    rw [hoff, Nat.mul_div_cancel _ cfg.pos]
  obtain ⟨-, hzero⟩ := h.bitmap_of_unmarked hm
  have hbit : ∀ t i, i < getAllocsPerSlab cfg → freeBit (markedState cfg s slab) t i =
      if t = slab then decide (s.currSlab = some slab ∧ j ≤ i) else freeBit s t i := by
    intro t i hi
    rw [freeBit, markedState, bitOf_update, getD_some, newBitmap_bit cfg s slab hi, hcarved]
    rfl
  refine ⟨fun t => ?_, fun t => ?_, fun hi t => ?_, fun t => ?_, fun t l hl => ?_, fun t ht => ?_,
    fun c hc hfr i hi => ?_, fun t i hi => ?_, hoffline ▸ h.chunks, ?_, fun hi x hx hxm => ?_,
    fun t ph hph => ?_⟩
  · have hown := h.owner t
    have hswap := count_swapRemove ha t
    rw [hreleasing]
    simp only [markedState]
    grind
  · have hold := h.marked t
    rw [hreleasing]
    simp only [markedState]
    grind
  · have hold := h.only hi t
    rw [hreleasing]
    simp only [markedState]
    grind
  · have hold := h.bitmap t
    simp only [markedState]
    grind
  · have hold := h.bits t l
    simp only [markedState] at hl
    grind [newBitmap_length]
  · have hold := h.curr t
    have hswap := count_swapRemove ha t
    simp only [markedState] at ht ⊢
    grind
  · have hcs : c.slab ≠ slab := by
      rintro rfl
      exact hr (mem_append_right _ (mem_map_of_mem hc))
    rw [hbit c.slab i hi, if_neg hcs]
    exact h.freed c hc hfr i hi
  · have hp := h.place t i hi
    simp only [places, hbit t i hi, uncarved, ahead, listed, handed, hoffline] at hp ⊢
    by_cases hc : s.currSlab = some slab <;>
      simp only [markedState, hc, if_true, if_false, hoff, chunk_offset_le] at hp ⊢ <;> grind
  · simp only [markedState]
    split_ifs
    · exact ⟨0, zero_le _, by simp⟩
    · exact ⟨j, hj, hoff⟩
  · have hold := h.clean hi x hx
    simp only [markedState] at hxm ⊢
    grind
  · cases hph
    trivial

def advanced (s : State σ) (slab : σ) (fl : List (Mem σ)) (ca : Bool) (l : List Bool)
    (ph : Phase σ) : State σ :=
  { s with
    freedAllocations := fl
    canAllocate := ca
    slabReleaseAllocMap := update s.slabReleaseAllocMap slab (some l)
    release := some (slab, ph) }

lemma Sound.advance (h : Sound cfg intact s) {l : List Bool}
    (fl : List (Mem σ)) (ca : Bool) (l' : List Bool) (ph' : Phase σ)
    (hrel : s.release = some (slab, ph))
    (hl : s.slabReleaseAllocMap slab = some l) (hlen : l'.length = l.length)
    (hmono : ∀ i, l.getD i false = true → l'.getD i false = true)
    (hcount : ∀ t, ∀ i < getAllocsPerSlab cfg,
      fl.count (chunk cfg t i) + ph'.lists.count (chunk cfg t i) +
        (bitOf (update s.slabReleaseAllocMap slab (some l')) t i).toNat =
      listed cfg s t i + (freeBit s t i).toNat)
    (hchunks : ∀ x, x ∈ fl ∨ x ∈ ph'.lists → IsChunk cfg x)
    (hclean : intact → ∀ x ∈ fl, s.markedForRelease x.1 = false)
    (hphase : PhaseSound cfg intact (advanced s slab fl ca l' ph') slab ph') :
    Sound cfg intact (advanced s slab fl ca l' ph') := by
  have hreleasing : releasing (advanced s slab fl ca l' ph') = releasing s := by
    simp [releasing, advanced, hrel]
  obtain ⟨hb, hs⟩ := h.setBits hl hlen
  refine ⟨hreleasing ▸ h.owner, hreleasing ▸ h.marked, hreleasing ▸ h.only, hb, hs, h.curr,
    fun c hc hf i hi => ?_, fun t i hi => ?_, fun x hx => ?_, h.offset, fun hi x hx hxm => ?_,
    fun t ph₁ hph => ?_⟩
  · have hold := h.freed c hc hf i hi
    rw [freeBit, advanced, bitOf_update]
    split_ifs with hcs
    · rw [freeBit, bitOf, hcs, hl] at hold
      exact hmono i hold
    · exact hold
  · have hp := h.place t i hi
    rw [places] at hp
    change Within intact (uncarved cfg s t i +
      (fl.count (chunk cfg t i) + ph'.lists.count (chunk cfg t i)) +
      (bitOf (update s.slabReleaseAllocMap slab (some l')) t i).toNat + handed cfg s t i)
      (s.owned t).toNat
    grind
  · rcases hx with hx | hx | hx
    · exact hchunks x (.inl hx)
    · exact hchunks x (.inr hx)
    · exact h.chunks x (.inr (.inr hx))
  · exact absurd hxm (by simp [advanced, hclean hi x hx])
  · cases hph
    exact hphase

lemma Sound.marked_of_release (h : Sound cfg intact s) {ph : Phase σ}
    (hrel : s.release = some (slab, ph)) : s.markedForRelease slab = true := by
  exact h.marked slab (by simp [releasing, hrel])

/-- The lists move between the class and the call; the bitmaps stay. -/
lemma Sound.moveLists (h : Sound cfg intact s) (hrel : s.release = some (slab, ph))
    (fl : List (Mem σ)) (ph' : Phase σ)
    (hcount : ∀ x, fl.count x + ph'.lists.count x = s.freedAllocations.count x + ph.lists.count x)
    (hclean : intact → ∀ x ∈ fl, s.markedForRelease x.1 = false)
    (hphase : PhaseSound cfg intact s slab ph') :
    Sound cfg intact { s with freedAllocations := fl, release := some (slab, ph') } := by
  obtain ⟨l, hl, -, -⟩ := h.bitmap_of_marked (h.marked_of_release hrel)
  have hupd : update s.slabReleaseAllocMap slab (some l) = s.slabReleaseAllocMap := by
    rw [← hl, update_eq_self]
  have hstate : { s with freedAllocations := fl, release := some (slab, ph') } =
      advanced s slab fl s.canAllocate l ph' := by
    simp [advanced, hupd]
  rw [hstate]
  refine h.advance _ _ _ _ hrel hl rfl (fun _ hi => hi) ?_ ?_ hclean ?_
  · intro t i hi
    have hx := hcount (chunk cfg t i)
    simp only [hupd, listed, offline, hrel, freeBit]
    omega
  · intro x hx
    have hx' := hcount x
    have hold := h.chunks x
    simp only [offline, hrel, ← count_pos_iff] at hx hold
    exact hold (by omega)
  · rw [← hstate]
    cases ph' <;> exact hphase

lemma Sound.takeOffline (h : Sound cfg intact s) (hrel : s.release = some (slab, .marked)) :
    Sound cfg intact (takeOffline s slab) := by
  obtain ⟨hcount, hin, hout⟩ := partitionFreeAllocs_spec slab kFreeAllocsPruneLimit
    s.freedAllocations [] [] (by simp) (by simp)
  refine h.moveLists hrel _ _ ?_ (by simp) ⟨hin, fun hi => ?_⟩
  · intro x
    simpa [Phase.ofPartition, Phase.lists, add_assoc] using hcount x
  · have hself : ∀ x, 0 < s.freedAllocations.count x → s.markedForRelease x.1 = true →
        x.1 = slab := by
      intro x hx hxm
      have hclean := h.clean hi x (count_pos_iff.1 hx) hxm
      grind
    constructor <;> intro x hx <;> have hx' := hcount x <;> rw [← count_pos_iff] at hx <;> grind

lemma Sound.clean_of_phase (h : Sound cfg intact s) {ph : Phase σ}
    (hrel : s.release = some (slab, ph)) (hph : ph ≠ .marked) (hi : intact) (x : Mem σ)
    (hx : x ∈ s.freedAllocations) : s.markedForRelease x.1 = false := by
  have hclean := h.clean hi x hx
  grind

def nextPhase (slab : σ) (f : List (Mem σ)) : Phase σ :=
  if f.isEmpty then .pruned
  else .ofPartition (partitionFreeAllocs slab kFreeAllocsPruneLimit f [] [])

lemma nextPhase_lists (slab : σ) (f : List (Mem σ)) (x : Mem σ) :
    (nextPhase slab f).lists.count x = f.count x := by
  have hcount :=
    (partitionFreeAllocs_spec slab kFreeAllocsPruneLimit f [] [] (by simp) (by simp)).1 x
  cases f with
  | nil => simp [nextPhase, Phase.lists]
  | cons a f => simpa [nextPhase, Phase.ofPartition, Phase.lists, add_assoc] using hcount

lemma nextPhase_inv {s' : State σ} (slab : σ) (f : List (Mem σ))
    (hf : intact → ∀ x ∈ f, s'.markedForRelease x.1 = true → x.1 = slab) :
    PhaseSound cfg intact s' slab (nextPhase slab f) := by
  have hmem : ∀ x ∈ (nextPhase slab f).lists, x ∈ f := by
    intro x hx
    rw [← count_pos_iff, nextPhase_lists] at hx
    exact count_pos_iff.1 hx
  obtain ⟨-, hin, hout⟩ := partitionFreeAllocs_spec slab kFreeAllocsPruneLimit f [] []
    (by simp) (by simp)
  cases f with
  | nil => simp [nextPhase, PhaseSound]
  | cons a f =>
    simp only [nextPhase, isEmpty_cons, false_eq_true, if_false, Phase.ofPartition,
      Phase.lists] at hmem ⊢
    refine ⟨hin, fun hi => ⟨fun x hx => hf hi x (hmem x (by simp [hx])), fun x hx => ?_⟩⟩
    grind

/-- A batch is put back: foreign chunks on the free list, own chunks as bits. -/
lemma Sound.putBack (h : Sound cfg intact s) {f i n : List (Mem σ)}
    (hrel : s.release = some (slab, .batch f i n)) : Sound cfg intact (putBack cfg s slab f i n) := by
  obtain ⟨l, hl, hlen, hbits⟩ := h.bitmap_of_marked (h.marked_of_release hrel)
  obtain ⟨hin, hout⟩ := h.phase slab _ hrel
  have hoffline : offline s = f ++ (i ++ n) := by simp [offline, hrel, Phase.lists]
  have hchunk : ∀ x ∈ f ++ (i ++ n), IsChunk cfg x :=
    fun x hx => h.chunks x (.inr (.inl (hoffline ▸ hx)))
  obtain ⟨hlen', hbit'⟩ := markFreed_spec cfg slab i l (by
    intro x hx
    rw [hlen]
    exact ⟨hin x hx, hchunk x (by simp [hx])⟩)
  have hstate : AllocationClass.putBack cfg s slab f i n = advanced s slab (n ++ s.freedAllocations)
        (if n.isEmpty then s.canAllocate else true) (markFreed cfg i l) (nextPhase slab f) := by
    simp [AllocationClass.putBack, advanced, hl, nextPhase]
  rw [hstate]
  refine h.advance _ _ _ _ hrel hl hlen' ?_ ?_ ?_ ?_ 
    (nextPhase_inv slab f fun hi => (hout hi).1)
  · intro k hk
    rw [hbit', hk, Bool.or_true]
  · intro t k hk
    have hp := h.place t k hk
    have hle : (s.owned t).toNat ≤ 1 := toNat_le _
    have hself : chunk cfg t k ∈ i → t = slab := hin (chunk cfg t k)
    have hbit : t = slab → freeBit s t k = l.getD k false := fun ht => ht ▸ hbits k
    rw [nextPhase_lists, bitOf_update, getD_some, hbit']
    simp only [places, listed, hoffline, count_append] at hp ⊢
    change _ + toNat (if t = slab then _ else freeBit s t k) = _
    grind
  · rintro x (hx | hx)
    · rcases mem_append.1 hx with hx | hx
      · exact hchunk x (by simp [hx])
      · exact h.chunks x (.inl hx)
    · rw [← count_pos_iff, nextPhase_lists] at hx
      exact hchunk x (by simp [count_pos_iff.1 hx])
  · intro hi x hx
    rcases mem_append.1 hx with hx | hx
    · exact (hout hi).2 x hx
    · exact h.clean_of_phase hrel (by simp) hi x hx

lemma Sound.collect (h : Sound cfg intact s) (hrel : s.release = some (slab, .pruned)) :
    Sound cfg intact (collect cfg s slab) := by
  obtain ⟨l, hl, hlen, hbits⟩ := h.bitmap_of_marked (h.marked_of_release hrel)
  refine h.moveLists hrel _ _ (fun _ => rfl) (h.clean_of_phase hrel (by simp)) ?_
  intro i hi hfalse
  rw [hl, Option.getD_some, mem_allocsWith]
  exact ⟨i, by omega, (hbits i).symm.trans hfalse, rfl⟩

end Steps

end HybridCache.AllocationClass

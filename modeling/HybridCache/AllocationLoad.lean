import HybridCache.AllocationAbort

/-!
# The load of a slab

An aborted `startSlabRelease` loses chunks of its slab, so the partition of the chunks is no
invariant of all runs. What remains is an upper bound: the chunks of a slab that are free, marked
free or handed out, with those not yet carved, are never more than the slab has if the class owns
it, and none if it does not. Hence a slab leaves the class with all its chunks back.
-/
namespace HybridCache.AllocationClass
open Transition Function List Bool

variable {σ : Type*} [DecidableEq σ] {cfg : Config} {s t : State σ}

def inSlab (slab : σ) (l : List (Mem σ)) : ℕ := l.countP fun m => decide (m.1 = slab)

def marks (s : State σ) (slab : σ) : ℕ := ((s.slabReleaseAllocMap slab).getD []).count true

def room (cfg : Config) (s : State σ) (slab : σ) : ℕ :=
  if s.currSlab = some slab then getAllocsPerSlab cfg - s.currOffset / cfg.allocationSize else 0

def load (cfg : Config) (s : State σ) (slab : σ) : ℕ :=
  getAllocsPerSlab cfg * s.freeSlabs.count slab + room cfg s slab + inSlab slab s.freedAllocations +
    inSlab slab (offline s) + marks s slab + inSlab slab s.handedOut

def PhaseFits (cfg : Config) (s : State σ) (slab : σ) : Phase σ → Prop
  | .batch _ i _ => ∀ m ∈ i, m.1 = slab
  | .collected active => active = [] → marks s slab = getAllocsPerSlab cfg
  | _ => True

structure Fits (cfg : Config) (s : State σ) : Prop where
  load_le : ∀ slab, load cfg s slab ≤ getAllocsPerSlab cfg * (s.owned slab).toNat
  owner : ∀ slab, s.freeSlabs.count slab + s.allocatedSlabs.count slab +
    (releasing s).count slab ≤ (s.owned slab).toNat
  marked : ∀ slab ∈ releasing s,
    s.markedForRelease slab = true ∧ (s.slabReleaseAllocMap slab).isSome = true
  bits : ∀ slab l, s.slabReleaseAllocMap slab = some l → l.length = getAllocsPerSlab cfg
  freed : ∀ c ∈ s.contexts, c.allFreed = true → marks s c.slab = getAllocsPerSlab cfg
  phase : ∀ slab ph, s.release = some (slab, ph) → PhaseFits cfg s slab ph

/-! ## A slab's load is the sum over its chunks -/

variable {l : List (Mem σ)} {m : Mem σ} {slab : σ}

lemma inSlab_cons (slab : σ) (m : Mem σ) (l : List (Mem σ)) :
    inSlab slab (m :: l) = inSlab slab l + if m.1 = slab then 1 else 0 := by
  simp [inSlab, countP_cons]

lemma inSlab_eq_sum (slab : σ) (hl : ∀ m ∈ l, IsChunk cfg m) :
    inSlab slab l = ∑ i ∈ Finset.range (getAllocsPerSlab cfg), l.count (chunk cfg slab i) := by
  induction l with
  | nil => simp [inSlab]
  | cons m l ih =>
    obtain ⟨k, hk, hm⟩ := hl m (by simp)
    have hiff : ∀ i, m = chunk cfg slab i ↔ k = i ∧ m.1 = slab := by
      intro i
      rw [hm, chunk_inj]
      exact and_comm
    simp only [inSlab_cons, count_cons, Finset.sum_add_distrib, beq_iff_eq, hiff, ite_and,
      Finset.sum_ite_eq, Finset.mem_range, hk, if_true]
    rw [ih fun m' hm' => hl m' (by simp [hm'])]

lemma sum_ahead (h : Sound cfg False s) (slab : σ) :
    ∑ i ∈ Finset.range (getAllocsPerSlab cfg), ahead cfg s slab i = room cfg s slab := by
  obtain ⟨j, -, hoff⟩ := h.offset
  have hfrom : ∀ n, ∑ i ∈ Finset.range n, (if j ≤ i then 1 else 0) = n - j := by
    intro n
    induction n with
    | zero => simp
    | succ n ih =>
      rw [Finset.sum_range_succ, ih]
      split_ifs <;> omega
  simp only [ahead, room, hoff, chunk_offset_le, Nat.mul_div_cancel _ cfg.pos]
  by_cases hc : s.currSlab = some slab
  · simp [hc, hfrom]
  · simp [hc]

lemma sum_bits (l : List Bool) :
    ∑ i ∈ Finset.range l.length, (l.getD i false).toNat = l.count true := by
  induction l with
  | nil => simp
  | cons b l ih =>
    rw [length_cons, Finset.sum_range_succ']
    simp only [getD_cons_succ, ih, getD_cons_zero]
    cases b <;> simp

lemma Sound.sum_freeBit (h : Sound cfg False s) (slab : σ) :
    ∑ i ∈ Finset.range (getAllocsPerSlab cfg), (freeBit s slab i).toNat = marks s slab := by
  simp only [freeBit, bitOf, marks]
  cases hl : s.slabReleaseAllocMap slab with
  | none => simp
  | some l => rw [← h.bits slab l hl, Option.getD_some, sum_bits]

lemma Sound.marks_eq (h : Sound cfg False s)
    (hfull : ∀ i < getAllocsPerSlab cfg, freeBit s slab i = true) :
    marks s slab = getAllocsPerSlab cfg := by
  rw [← h.sum_freeBit, Finset.sum_congr rfl fun i hi => by rw [hfull i (Finset.mem_range.1 hi)]]
  simp

lemma Sound.load_eq (h : Sound cfg False s) (slab : σ) :
    load cfg s slab = ∑ i ∈ Finset.range (getAllocsPerSlab cfg), places cfg s slab i := by
  have hfree := inSlab_eq_sum slab fun m hm => h.chunks m (.inl hm)
  have hoff := inSlab_eq_sum slab fun m hm => h.chunks m (.inr (.inl hm))
  have hout := inSlab_eq_sum slab fun m hm => h.chunks m (.inr (.inr hm))
  simp only [load, places, uncarved, listed, handed, Finset.sum_add_distrib, sum_ahead h,
    h.sum_freeBit, Finset.sum_const, Finset.card_range, smul_eq_mul, hfree, hoff, hout]
  omega

lemma Sound.fits (h : Sound cfg False s) : Fits cfg s := by
  refine ⟨fun slab => ?_, h.ownedOnce, fun slab hmem => ?_, h.bits,
    fun c hc hf => h.marks_eq (h.freed c hc hf), fun slab ph hph => ?_⟩
  · calc load cfg s slab
        = ∑ i ∈ Finset.range (getAllocsPerSlab cfg), places cfg s slab i := h.load_eq slab
      _ ≤ ∑ _i ∈ Finset.range (getAllocsPerSlab cfg), (s.owned slab).toNat :=
        Finset.sum_le_sum fun i hi => (h.place slab i (Finset.mem_range.1 hi)).1
      _ = getAllocsPerSlab cfg * (s.owned slab).toNat := by simp
  · exact ⟨h.marked slab hmem, (h.bitmap slab).trans (h.marked slab hmem)⟩
  · have hold := h.phase slab ph hph
    cases ph with
    | batch f i n => exact hold.1
    | collected active =>
      rintro rfl
      refine h.marks_eq fun i hi => ?_
      rw [← not_eq_false]
      intro hfalse
      simpa using hold i hi hfalse
    | _ => trivial

lemma Fits.count_releasing (hs : Fits cfg s) (hmem : slab ∈ releasing s) :
    (s.owned slab).toNat = 1 ∧ s.freeSlabs.count slab = 0 ∧ s.allocatedSlabs.count slab = 0 ∧
      (releasing s).count slab = 1 := by
  have hpos := count_pos_iff.2 hmem
  have howner := hs.owner slab
  have hle := toNat_le (s.owned slab)
  omega

lemma Fits.of_holdsContext (hs : Fits cfg s) {b : Bool} (hc : holdsContext s slab b = true) :
    (∃ c ∈ s.contexts, c.slab = slab ∧ c.allFreed = b) ∧ slab ∈ releasing s ∧
      ∀ x, ((s.release.map Prod.fst).toList ++
        ((s.contexts.filter fun c => decide (c.slab ≠ slab)).map Context.slab)).count x +
          (if x = slab then 1 else 0) = (releasing s).count x := by
  have hpos := (OwnedOnce.context hs.owner hc).1
  simp only [holdsContext, any_eq_true, decide_eq_true_eq] at hc
  obtain ⟨c, hcmem, hcs, hcb⟩ := hc
  have hmem : slab ∈ releasing s := mem_append_right _ (count_pos_iff.1 hpos)
  obtain ⟨-, -, -, hone⟩ := hs.count_releasing hmem
  refine ⟨⟨c, hcmem, hcs, hcb⟩, hmem, ?_⟩
  intro x
  rw [releasing, count_append] at hone
  rw [releasing, count_append, count_append, count_dropContext]
  grind

/-! ## Slabs and memory in a step -/

/-- The class owns the same slabs and callers hold the same memory. -/
def SameBooks (s t : State σ) : Prop := t.owned = s.owned ∧ t.handedOut = s.handedOut

omit [DecidableEq σ] in
lemma allocate_books (cfg : Config) (s : State σ) : (allocate cfg s).2.owned = s.owned ∧
      (allocate cfg s).2.handedOut = (allocate cfg s).1.toList ++ s.handedOut := by
  obtain ⟨m, rest, hl, heq⟩ | ⟨slab, hc, hroom, heq⟩ | ⟨init, slab, hf, hfull, heq⟩ |
      ⟨-, -, -, heq⟩ := allocate_cases cfg s
  · simp [heq]
  · simp [heq, carved]
  · simp [heq, carved, setupCurrentSlabLocked, hf]
  · simp [heq]

omit [DecidableEq σ] in
/-- A class with a free slab has memory. -/
lemma allocate_isSome (cfg : Config) {s : State σ} (h : s.freeSlabs ≠ []) :
    ∃ m, (allocate cfg s).1 = some m := by
  obtain ⟨m, rest, hl, heq⟩ | ⟨slab, hc, hroom, heq⟩ | ⟨init, slab, hf, hfull, heq⟩ |
      ⟨-, hnil, -, -⟩ := allocate_cases cfg s
  · exact ⟨m, by rw [heq]⟩
  · exact ⟨_, by rw [heq]⟩
  · exact ⟨_, by rw [heq]⟩
  · exact absurd hnil h

lemma free_books (h : free cfg s m = some t) : SameBooks s t := by
  unfold AllocationClass.free at h
  grind [SameBooks]

lemma startSlabRelease_books (cfg : Config) (s : State σ) (slab : σ) :
    (startSlabRelease cfg s slab).handedOut = s.handedOut ∧ (startSlabRelease cfg s slab).owned =
        if slab ∈ s.freeSlabs then update s.owned slab false else s.owned := by
  unfold AllocationClass.startSlabRelease
  split_ifs with hf
  · exact ⟨rfl, rfl⟩
  · dsimp only
    split_ifs <;> exact ⟨rfl, rfl⟩

lemma abortSlabRelease_books (hs : Fits cfg s) (hc : holdsContext s slab false = true) :
    SameBooks s (dropContext (abortSlabRelease cfg s slab) slab) := by
  obtain ⟨-, hmem, -⟩ := hs.of_holdsContext hc
  obtain ⟨hown, -, -, -⟩ := hs.count_releasing hmem
  refine ⟨?_, rfl⟩
  change update s.owned slab true = s.owned
  grind

lemma Fits.owned_of_handedOut (hs : Fits cfg s) (hm : m ∈ s.handedOut) : s.owned m.1 = true := by
  have hload := hs.load_le m.1
  have hpos : 0 < inSlab m.1 s.handedOut := countP_pos_iff.2 ⟨m, hm, by simp⟩
  rw [load] at hload
  grind

lemma Fits.handedOut_le [Fintype σ] (hs : Fits cfg s) :
    s.handedOut.length ≤ getAllocsPerSlab cfg * ∑ slab, (s.owned slab).toNat := by
  have hsum : s.handedOut.length = ∑ slab, inSlab slab s.handedOut := by
    induction s.handedOut with
    | nil => simp [inSlab]
    | cons m l ih => simp [inSlab_cons, Finset.sum_add_distrib, ← ih]
  rw [hsum, Finset.mul_sum]
  apply Finset.sum_le_sum
  intro slab _
  have hload := hs.load_le slab
  rw [load] at hload
  omega

end HybridCache.AllocationClass

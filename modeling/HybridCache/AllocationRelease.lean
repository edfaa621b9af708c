import HybridCache.AllocationPartition

/-!
# Whole runs of an allocation class

The contexts of slab releases, the step lemma over all lock sections, and the
partition of the chunks in every state that a run without an aborted
`startSlabRelease` reaches.
-/
namespace HybridCache.AllocationClass
open Transition Function List Bool

section Contexts
variable {σ : Type*} [DecidableEq σ] {cfg : Config} {intact : Prop} {s : State σ} {slab : σ}

lemma Sound.leave (h : Sound cfg intact s) (s' : State σ)
    (hmap : s'.slabReleaseAllocMap = update s.slabReleaseAllocMap slab none)
    (hmark : s'.markedForRelease = update s.markedForRelease slab false)
    (hcount : ∀ t, (releasing s').count t + (if t = slab then 1 else 0) = (releasing s).count t)
    (hctx : ∀ c ∈ s'.contexts, c ∈ s.contexts)
    (hrel : ∀ t ph, s'.release = some (t, ph) → s.release = some (t, ph)) :
    (∀ t ∈ releasing s', s'.markedForRelease t = true) ∧
    (intact → ∀ t, s'.markedForRelease t = true → t ∈ releasing s') ∧
    (∀ t, (s'.slabReleaseAllocMap t).isSome = s'.markedForRelease t) ∧
    (∀ t l, s'.slabReleaseAllocMap t = some l → l.length = getAllocsPerSlab cfg) ∧
    (∀ c ∈ s'.contexts, c.allFreed = true →
      ∀ i < getAllocsPerSlab cfg, freeBit s' c.slab i = true) ∧
    (∀ t ph, s'.release = some (t, ph) → PhaseSound cfg intact s' t ph) := by
  have hgone : slab ∉ releasing s' := by
    have hown := h.owner slab
    grind [toNat_le]
  have hbit : ∀ t i, t ≠ slab → freeBit s' t i = freeBit s t i := by
    intro t i ht
    rw [freeBit, hmap, bitOf_update, if_neg ht]
    rfl
  have hmap' := congrFun hmap
  have hmark' := congrFun hmark
  refine ⟨fun t => ?_, fun hi t => ?_, fun t => ?_, fun t l hl => ?_, fun c hc hf i hi => ?_,
    fun t ph hph => ?_⟩
  · have hold := h.marked t
    rw [← count_pos_iff] at hold hgone ⊢
    grind
  · have hold := h.only hi t
    rw [← count_pos_iff] at hold hgone ⊢
    grind
  · grind [h.bitmap t]
  · grind [h.bits t l]
  · have hne : c.slab ≠ slab := by
      rintro rfl
      exact hgone (mem_append_right _ (mem_map_of_mem hc))
    rw [hbit c.slab i hne]
    exact h.freed c (hctx c hc) hf i hi
  · have hne : t ≠ slab := by
      rintro rfl
      exact hgone (by simp [releasing, hph])
    have hold := h.phase t ph (hrel t ph hph)
    cases ph with
    | batch f i n =>
      refine ⟨hold.1, fun hi => ?_⟩
      obtain ⟨hf, hn⟩ := hold.2 hi
      refine ⟨fun x hx hxm => hf x hx ?_, fun x hx => ?_⟩ <;> grind
    | collected active =>
      intro i hi hfalse
      rw [hbit t i hne] at hfalse
      exact hold i hi hfalse
    | _ => exact hold

def givenUp (s : State σ) (slab : σ) (rel : Option (σ × Phase σ)) (ctxs : List (Context σ))
    (ar : ℤ) : State σ :=
  { s with
    owned := update s.owned slab false
    markedForRelease := update s.markedForRelease slab false
    slabReleaseAllocMap := update s.slabReleaseAllocMap slab none
    release := rel
    contexts := ctxs
    activeReleases := ar }

/-- A slab whose chunks are all marked free leaves the class. -/
lemma Sound.giveUp (h : Sound cfg intact s) (rel : Option (σ × Phase σ)) (ctxs : List (Context σ)) (ar : ℤ)
    (hfull : ∀ i < getAllocsPerSlab cfg, freeBit s slab i = true)
    (hcount : ∀ t, (releasing (givenUp s slab rel ctxs ar)).count t +
      (if t = slab then 1 else 0) = (releasing s).count t)
    (hctx : ∀ c ∈ ctxs, c ∈ s.contexts)
    (hrel : ∀ t ph, rel = some (t, ph) → s.release = some (t, ph))
    (hkeep : ∀ t, t ≠ slab → s.release = some (t, .marked) → rel = some (t, .marked))
    (hoff : offline (givenUp s slab rel ctxs ar) = offline s) :
    Sound cfg intact (givenUp s slab rel ctxs ar) := by
  obtain ⟨hmarked, honly, hbitmap, hbits, hfreed, hphase⟩ :=
    h.leave (givenUp s slab rel ctxs ar) rfl rfl hcount hctx hrel
  have hless := hcount slab
  refine ⟨fun t => ?_, hmarked, honly, hbitmap, hbits, h.curr, hfreed, fun t i hi => ?_,
    hoff ▸ h.chunks, h.offset, fun hi x hx hxm => ?_, hphase⟩
  · have hown := h.owner t
    have hnum := hcount t
    simp only [givenUp] at hnum hless ⊢
    grind [toNat_le]
  · have hp := h.place t i hi
    have hone := hfull i hi
    simp only [places, listed, hoff, freeBit] at hp hone ⊢
    rw [givenUp, bitOf_update]
    simp only [uncarved, ahead, handed] at hp ⊢
    grind [toNat_le]
  · have hclean := h.clean hi x hx
    simp only [givenUp] at hxm ⊢
    grind

lemma count_dropContext (l : List (Context σ)) (slab t : σ) :
    ((l.filter fun c => decide (c.slab ≠ slab)).map Context.slab).count t =
      if t = slab then 0 else (l.map Context.slab).count t := by
  induction l with
  | nil => simp
  | cons c l ih =>
    grind

section
variable (h : Sound cfg intact s)
include h

lemma Sound.of_holdsContext {b : Bool} (hc : holdsContext s slab b = true) :
    (∃ c ∈ s.contexts, c.slab = slab ∧ c.allFreed = b) ∧ s.markedForRelease slab = true ∧
      (∀ ph, s.release ≠ some (slab, ph)) ∧
      ∀ t, ((s.release.map Prod.fst).toList ++
        ((s.contexts.filter fun c => decide (c.slab ≠ slab)).map Context.slab)).count t +
          (if t = slab then 1 else 0) = (releasing s).count t := by
  simp only [holdsContext, any_eq_true, decide_eq_true_eq] at hc
  obtain ⟨c, hcmem, hcs, hcb⟩ := hc
  have hmem : slab ∈ s.contexts.map Context.slab := mem_map.2 ⟨c, hcmem, hcs⟩
  have howner := h.owner slab
  rw [releasing, count_append] at howner
  refine ⟨⟨c, hcmem, hcs, hcb⟩, ?_, fun ph hph => ?_, fun t => ?_⟩
  · exact h.marked slab (mem_append_right _ hmem)
  · rw [hph] at howner
    grind [toNat_le]
  · rw [releasing, count_append, count_append, count_dropContext]
    grind [toNat_le]

lemma Sound.buildContext {active : List (Mem σ)} (hrel : s.release = some (slab, .collected active)) :
    Sound cfg intact (buildContext s slab active) := by
  have hoffline : offline s = [] := by simp [offline, hrel, Phase.lists]
  have hcollected := h.phase slab _ hrel
  cases active with
  | nil =>
    have hstate : AllocationClass.buildContext s slab [] =
        givenUp s slab none s.contexts s.activeReleases := rfl
    rw [hstate]
    refine h.giveUp _ _ _ (fun i hi => ?_) (fun t => ?_) (fun c hc => hc) (by simp)
      (by simp [hrel]) (by rw [hoffline]; rfl)
    · rw [← not_eq_false]
      intro hfalse
      simpa using hcollected i hi hfalse
    · simp only [releasing, givenUp, hrel]
      grind
  | cons m active =>
    have hreleasing : releasing (AllocationClass.buildContext s slab (m :: active)) =
        releasing s := by
      simp [releasing, AllocationClass.buildContext, hrel]
    refine ⟨hreleasing ▸ h.owner, hreleasing ▸ h.marked, hreleasing ▸ h.only, h.bitmap, h.bits,
      h.curr, fun c hc hf => ?_, fun t i hi => ?_, fun x hx => ?_, h.offset, fun hi x hx hxm => ?_,
      by simp [AllocationClass.buildContext]⟩
    · rcases mem_cons.1 hc with rfl | hc
      · cases hf
      · exact h.freed c hc hf
    · have hp := h.place t i hi
      simp only [places, listed, hoffline] at hp
      exact hp
    · exact h.chunks x (hx.imp_right fun hx => hx.resolve_left (by simp [offline,
        AllocationClass.buildContext]) |> .inr)
    · exact absurd hxm (by
        simp [AllocationClass.buildContext, h.clean_of_phase hrel (by simp) hi x hx])

lemma Sound.completeSlabRelease (hc : holdsContext s slab true = true) :
    Sound cfg intact (dropContext (completeSlabRelease s slab) slab) := by
  obtain ⟨⟨c, hcmem, rfl, hfreed⟩, -, hother, hcount⟩ := h.of_holdsContext hc
  refine h.giveUp s.release _ _ (h.freed c hcmem hfreed) hcount (fun c' hc' => ?_)
    (fun t ph hph => hph) (fun t ht hm => hm) rfl
  exact mem_of_mem_filter hc'

lemma Sound.waitUntilAllFreed (hall : allFreed s slab = true) : Sound cfg intact { s with
      contexts := s.contexts.map fun c =>
        if c.slab = slab then { c with allFreed := true } else c } := by
  have hslabs : (s.contexts.map fun c =>
      if c.slab = slab then { c with allFreed := true } else c).map Context.slab =
      s.contexts.map Context.slab := by
    rw [map_map]
    refine map_congr_left fun c _ => ?_
    simp only [Function.comp_apply]
    split_ifs <;> rfl
  have hbit : ∀ i < getAllocsPerSlab cfg, freeBit s slab i = true := by
    intro i hi
    cases hl : s.slabReleaseAllocMap slab with
    | none => simp [allFreed, hl] at hall
    | some l =>
      have hlen := h.bits slab l hl
      simp only [allFreed, freeBit, bitOf, hl, Option.map_some, Option.getD_some,
        all_eq_true, getD_eq_getElem?_getD] at hall ⊢
      rw [getElem?_eq_getElem (by omega)]
      exact hall _ (getElem_mem _)
  refine ⟨fun t => ?_, fun t => ?_, fun hi t => ?_, h.bitmap, h.bits, h.curr,
    fun c hc hf i hi => ?_, h.place, h.chunks, h.offset, h.clean, h.phase⟩
  · rw [releasing, hslabs]
    exact h.owner t
  · rw [releasing, hslabs]
    exact h.marked t
  · rw [releasing, hslabs]
    exact h.only hi t
  · obtain ⟨c', hc', rfl⟩ := mem_map.1 hc
    have hold := h.freed c' hc'
    simp only [freeBit] at hbit hold ⊢
    grind

lemma Sound.abortSlabRelease (hc : holdsContext s slab false = true) :
    Sound cfg intact (dropContext (abortSlabRelease cfg s slab) slab) := by
  obtain ⟨-, hmark, hother, hcount⟩ := h.of_holdsContext hc
  obtain ⟨l, hl, hlen, hbits⟩ := h.bitmap_of_marked hmark
  have hself := h.owner slab
  have hless := hcount slab
  have hupd : update s.owned slab true = s.owned := by
    rw [update_eq_self_iff]
    grind [toNat_le]
  obtain ⟨hmarked, honly, hbitmap, hbits', hfreed, hphase⟩ :=
    h.leave (dropContext (AllocationClass.abortSlabRelease cfg s slab) slab) rfl rfl hcount
      (fun c hc => mem_of_mem_filter hc) (fun t ph hph => hph)
  have hfree : ∀ x, x ∈ allocsWith cfg true slab l ↔
      ∃ i < getAllocsPerSlab cfg, freeBit s slab i = true ∧ x = chunk cfg slab i := by
    simp [mem_allocsWith, hlen, hbits]
  refine ⟨fun t => ?_, hmarked, honly, hbitmap, hbits', fun t ht => mem_append_left _ (h.curr t ht),
    hfreed, fun t i hi => ?_, fun x hx => ?_, h.offset, fun hi x hx hxm => ?_, hphase⟩
  · have hown := h.owner t
    have hnum := hcount t
    simp only [dropContext, AllocationClass.abortSlabRelease, hupd, releasing] at hown hnum ⊢
    grind
  · have hp := h.place t i hi
    have hone : chunk cfg t i ∈ allocsWith cfg true slab l ↔ t = slab ∧ freeBit s t i = true := by
      rw [hfree]
      grind [chunk_inj]
    simp only [places, uncarved, ahead, listed, handed, offline] at hp ⊢
    simp only [dropContext, AllocationClass.abortSlabRelease, hupd, hl, Option.getD_some,
      count_append, count_reverse, count_allocsWith, freeBit, bitOf_update] at hp hone ⊢
    grind
  · simp only [dropContext, AllocationClass.abortSlabRelease, hl, Option.getD_some,
      mem_append, mem_reverse, hfree, offline] at hx
    grind [h.chunks x, isChunk_chunk, offline]
  · simp only [dropContext, AllocationClass.abortSlabRelease, hl, Option.getD_some,
      mem_append, mem_reverse, hfree] at hx hxm ⊢
    grind [h.clean hi x, chunk]

/-- A slab that an aborted release has left on no list is marked, and the call throws. -/
lemma Sound.markLost (hlost : ¬ intact) (hrel : s.release = none)
    (hm : s.markedForRelease slab = false) : Sound cfg intact { s with
      markedForRelease := update s.markedForRelease slab true
      slabReleaseAllocMap := update s.slabReleaseAllocMap slab
        (some (List.replicate (getAllocsPerSlab cfg) false)) } := by
  have hbit : ∀ t i, bitOf (update s.slabReleaseAllocMap slab
      (some (List.replicate (getAllocsPerSlab cfg) false))) t i = freeBit s t i := by
    intro t i
    rw [bitOf_update]
    split_ifs with ht
    · rw [ht, (h.bitmap_of_unmarked hm).2, Option.getD_some]
      grind
    · rfl
  refine ⟨h.owner, fun t ht => ?_, fun hi => absurd hi hlost, fun t => ?_, fun t l hl => ?_, h.curr,
    fun c hc hf i hi => ?_, fun t i hi => ?_, h.chunks, h.offset, fun hi => absurd hi hlost,
    by simp [hrel]⟩
  · have hold := h.marked t ht
    grind
  · have hold := h.bitmap t
    grind
  · have hold := h.bits t l
    grind
  · rw [freeBit, hbit]
    exact h.freed c hc hf i hi
  · have hp := h.place t i hi
    rw [places, freeBit, hbit]
    exact hp

lemma Sound.throwAborted (hrel : s.release = some (slab, .aborted)) :
    Sound cfg intact (throwAborted s slab) := by
  have hlost : ¬ intact := h.phase slab _ hrel
  have hcount : ∀ t, (releasing (AllocationClass.throwAborted s slab)).count t +
      (if t = slab then 1 else 0) = (releasing s).count t := by
    intro t
    simp only [releasing, AllocationClass.throwAborted, hrel]
    grind
  obtain ⟨hmarked, -, hbitmap, hbits, hfreed, hphase⟩ :=
    h.leave (AllocationClass.throwAborted s slab) rfl rfl hcount (fun _ hc => hc) (by
      simp [AllocationClass.throwAborted])
  refine ⟨fun t => ⟨?_, fun hi => absurd hi hlost⟩, hmarked, fun hi => absurd hi hlost, hbitmap,
    hbits, h.curr, hfreed, fun t i hi => ⟨?_, fun hi => absurd hi hlost⟩, fun x hx => ?_, h.offset,
    fun hi => absurd hi hlost, hphase⟩
  · have hown := (h.owner t).1
    have hnum := hcount t
    simp only [AllocationClass.throwAborted] at hnum ⊢
    omega
  · have hp := (h.place t i hi).1
    simp only [places, uncarved, ahead, listed, handed, freeBit, offline, hrel, Phase.lists,
      AllocationClass.throwAborted, bitOf_update] at hp ⊢
    grind
  · have hold := h.chunks x
    simp only [offline, AllocationClass.throwAborted] at hx
    grind

lemma Sound.undoPrune {f i n : List (Mem σ)} (hrel : s.release = some (slab, .aborting f i n)) :
    Sound cfg intact (undoPrune s slab f i n) := by
  have hlost : ¬ intact := h.phase slab _ hrel
  refine h.moveLists hrel _ .aborted (fun x => ?_) (fun hi => absurd hi hlost) hlost
  simp only [Phase.lists]
  grind

lemma Sound.startSlabRelease (hrel : s.release = none) (ho : s.owned slab = true)
    (hm : s.markedForRelease slab = false) : Sound cfg intact (startSlabRelease cfg s slab) := by
  by_cases hf : slab ∈ s.freeSlabs
  · rw [AllocationClass.startSlabRelease, if_pos hf]
    exact h.release_free hf
  by_cases ha : slab ∈ s.allocatedSlabs
  · rw [startSlabRelease_marked hf ha]
    exact h.mark hrel hm hf ha
  · have hlost : ¬ intact := by
      intro hi
      have hown := (h.owner slab).2 hi
      have hr := h.not_releasing hm
      grind
    simp only [AllocationClass.startSlabRelease, hf, ha, if_false]
    exact h.markLost hlost hrel hm

end

/-- A step in which `shouldAbortFn` does not ask `startSlabRelease` to stop. -/
def NotAborted : Action σ → Prop
  | .pruneLoop shouldAbort => shouldAbort = false
  | _ => True

lemma step_sound (s : State σ) (a : Action σ) (s' : State σ) (ha : intact → NotAborted a)
    (h : Sound cfg intact s) (hstep : step cfg s a = some s') : Sound cfg intact s' := by
  cases a with
  | addSlab slab =>
    simp only [step, Option.ite_none_left_eq_some, Option.some.injEq] at hstep
    obtain ⟨ho, rfl⟩ := hstep
    exact h.addSlab (by simpa using ho)
  | addSlabAndAllocate slab =>
    simp only [step, Option.ite_none_left_eq_some, Option.some.injEq] at hstep
    obtain ⟨ho, rfl⟩ := hstep
    exact (h.addSlab (by simpa using ho)).allocate
  | allocate =>
    cases hstep
    exact h.allocate
  | free m =>
    simp only [step, Option.ite_none_right_eq_some] at hstep
    obtain ⟨hm, hstep⟩ := hstep
    obtain ⟨t, ht, hinv⟩ := h.free hm
    rw [ht, Option.map_some] at hstep
    cases hstep
    exact hinv
  | startSlabRelease slab =>
    simp only [step, Option.ite_none_right_eq_some, Option.some.injEq, and_eq_true,
      Option.isNone_iff_eq_none, not_eq_true'] at hstep
    obtain ⟨⟨⟨hrel, ho⟩, hm⟩, rfl⟩ := hstep
    exact h.startSlabRelease hrel ho hm
  | takeOffline | collect | buildContext | undoPrune | throwAborted =>
    simp only [step] at hstep
    split at hstep <;> cases hstep
    rename_i hrel
    first
      | exact h.takeOffline hrel
      | exact h.collect hrel
      | exact h.buildContext hrel
      | exact h.undoPrune hrel
      | exact h.throwAborted hrel
  | pruneLoop shouldAbort =>
    simp only [step] at hstep
    split at hstep
    next slab f i n hrel =>
      split_ifs at hstep with habort <;> cases hstep
      · exact h.moveLists hrel _ (.aborting f i n) (fun _ => rfl)
          (h.clean_of_phase hrel (by simp)) fun hi => absurd (ha hi) (by simp [NotAborted, habort])
      · exact h.putBack hrel
    · cases hstep
  | abortSlabRelease slab =>
    simp only [step, Option.ite_none_right_eq_some, Option.some.injEq] at hstep
    obtain ⟨hc, rfl⟩ := hstep
    exact h.abortSlabRelease hc
  | waitUntilAllFreed slab =>
    simp only [step, Option.ite_none_right_eq_some, Option.some.injEq, and_eq_true] at hstep
    obtain ⟨⟨-, hall⟩, rfl⟩ := hstep
    exact h.waitUntilAllFreed hall
  | completeSlabRelease slab =>
    simp only [step, Option.ite_none_right_eq_some, Option.some.injEq] at hstep
    obtain ⟨hc, rfl⟩ := hstep
    exact h.completeSlabRelease hc

lemma Inv.unmarked_of_mem (h : Inv cfg s)
    (hmem : slab ∈ s.freeSlabs ∨ slab ∈ s.allocatedSlabs) : s.markedForRelease slab = false := by
  have hown := h.owner slab
  have hmark := h.marked slab
  grind [toNat_le]

/-- What `allocate` returns had a place other than the caller's hands, and its
slab is unmarked unless a release has just marked it. -/
lemma Inv.allocate_returns (h : Inv cfg s) {m : Mem σ}
    (hm : (AllocationClass.allocate cfg s).1 = some m) :
    IsChunk cfg m ∧ m ∉ s.handedOut ∧
      (s.markedForRelease m.1 = true → s.release = some (m.1, .marked)) := by
  have hfree : ∀ slab, ∀ i < getAllocsPerSlab cfg, 0 < uncarved cfg s slab i + listed cfg s slab i →
      chunk cfg slab i ∉ s.handedOut := by
    intro slab i hi hpos hmem
    have hp := h.place slab i hi
    simp only [places, handed] at hp
    grind [toNat_le]
  obtain ⟨m', rest, hl, heq⟩ | ⟨slab, hc, hroom, heq⟩ | ⟨init, slab, hf, hfull, heq⟩ |
      ⟨-, -, -, heq⟩ :=
    allocate_cases cfg s <;> rw [heq] at hm <;> cases hm
  · have hmem : m ∈ s.freedAllocations := by simp [hl]
    obtain ⟨i, hi, hchunk⟩ := h.chunks m (.inl hmem)
    refine ⟨⟨i, hi, hchunk⟩, ?_, h.clean m hmem⟩
    rw [hchunk] at hmem ⊢
    exact hfree m.1 i hi (by have := count_pos_iff.2 hmem; rw [listed]; omega)
  · obtain ⟨j, -, hoff⟩ := h.offset
    have hlt : j < getAllocsPerSlab cfg := lt_allocsPerSlab_iff.1 (hoff ▸ hroom)
    have hchunk : (slab, s.currOffset) = chunk cfg slab j := by rw [hoff]; rfl
    have hahead : ahead cfg s slab j = 1 := if_pos ⟨hc, hoff.le⟩
    refine ⟨⟨j, hlt, hchunk⟩, ?_, fun hmark => ?_⟩
    · rw [hchunk]
      exact hfree slab j hlt (by rw [uncarved, hahead]; omega)
    · exact absurd hmark (by simp [h.unmarked_of_mem (.inr (h.curr slab hc))])
  · have hmem : slab ∈ s.freeSlabs := by simp [hf]
    have hpos := count_pos_iff.2 hmem
    have hlt := allocsPerSlab_pos cfg
    have hchunk : (slab, 0) = chunk cfg slab 0 := by simp [chunk]
    refine ⟨⟨0, hlt, hchunk⟩, ?_, fun hmark => ?_⟩
    · rw [hchunk]
      exact hfree slab 0 hlt (by rw [uncarved]; omega)
    · exact absurd hmark (by simp [h.unmarked_of_mem (.inl hmem)])

lemma Sound.mem_active (h : Sound cfg True s) (hrel : s.release = some (slab, .pruned))
    (m : Mem σ) : m ∈ allocsWith cfg false slab ((s.slabReleaseAllocMap slab).getD []) ↔
      m.1 = slab ∧ m ∈ s.handedOut := by
  have hinv := h.inv
  have hmark := h.marked_of_release hrel
  obtain ⟨l, hl, hlen, hbits⟩ := h.bitmap_of_marked hmark
  have hoffline : offline s = [] := by simp [offline, hrel, Phase.lists]
  have hplace : ∀ i < getAllocsPerSlab cfg,
      (l.getD i false).toNat + s.handedOut.count (chunk cfg slab i) = 1 := by
    intro i hi
    have hp := hinv.place slab i hi
    have howner := hinv.owner slab
    have hrelpos : 0 < (releasing s).count slab := count_pos_iff.2 ((hinv.marked slab).1 hmark)
    have hle : (s.owned slab).toNat ≤ 1 := toNat_le _
    have hahead : ahead cfg s slab i = 0 :=
      if_neg fun hc => by simp [hinv.unmarked_of_mem (.inr (h.curr slab hc.1))] at hmark
    have hlist : s.freedAllocations.count (chunk cfg slab i) = 0 :=
      count_eq_zero_of_not_mem fun hx =>
        absurd (h.clean_of_phase hrel (by simp) trivial _ hx) (by simp [chunk, hmark])
    simp only [places, uncarved, listed, handed, hoffline, hahead, hlist, hbits, count_nil] at hp
    omega
  rw [hl, Option.getD_some, mem_allocsWith]
  constructor
  · rintro ⟨i, hi, hb, rfl⟩
    have hone := hplace i (by omega)
    rw [hb, toNat_false] at hone
    exact ⟨rfl, count_pos_iff.1 (by omega)⟩
  · rintro ⟨rfl, hm⟩
    obtain ⟨i, hi, hchunk⟩ := h.chunks m (.inr (.inr hm))
    exact ⟨i, by omega, by grind, hchunk⟩

end Contexts

/-- The partition of the chunks. In every state that a run without an aborted
`startSlabRelease` reaches, each chunk of an owned slab has exactly one place;
`allocate` returns a chunk that nobody holds, of a slab that is not marked or
whose release has not yet taken the free list offline; the active allocations
that a prune collects are the handed out chunks of its slab, and the context
carries them. -/
theorem chunk_partition {σ : Type*} [DecidableEq σ] (cfg : Config) {as : List (Action σ)}
    {s : State σ} (has : ∀ a ∈ as, NotAborted a) (hrun : run (step cfg) (initial σ) as = some s) :
    (∀ slab, s.owned slab = true → ∀ i < getAllocsPerSlab cfg,
      uncarved cfg s slab i + listed cfg s slab i + (freeBit s slab i).toNat +
        handed cfg s slab i = 1) ∧
    (∀ m, (allocate cfg s).1 = some m → IsChunk cfg m ∧ m ∉ s.handedOut ∧
      (s.markedForRelease m.1 = true → s.release = some (m.1, .marked))) ∧
    (∀ slab s', s.release = some (slab, .pruned) → step cfg s .collect = some s' →
      ∃ active, s'.release = some (slab, .collected active) ∧
        ∀ m, m ∈ active ↔ m.1 = slab ∧ m ∈ s.handedOut) ∧
    (∀ slab active s', s.release = some (slab, .collected active) →
      step cfg s .buildContext = some s' → s'.release = none ∧
        s'.contexts = if active.isEmpty then s.contexts else ⟨slab, active, false⟩ :: s.contexts) :=
    by
  have hsound : Sound cfg True s :=
    run_invariant_of (fun s a t ha => step_sound s a t fun _ => ha) has (initial_sound cfg) hrun
  have h := hsound.inv
  refine ⟨fun slab ho i hi => ?_, fun m hm => h.allocate_returns hm, fun slab s' hrel hs => ?_,
    fun slab active s' hrel hs => ?_⟩
  · have hp := h.place slab i hi
    rw [ho, toNat_true] at hp
    exact hp
  · simp only [step, hrel, Option.some.injEq] at hs
    subst hs
    exact ⟨_, rfl, fun m => hsound.mem_active hrel m⟩
  · simp only [step, hrel, Option.some.injEq] at hs
    subst hs
    cases active <;> exact ⟨rfl, rfl⟩

def halfSlab : Config := ⟨2 ^ 21, by decide, by decide⟩

/-- One chunk is freed and handed out again while the other stays with its caller. -/
theorem chunk_partition_reused : ∃ s : State ℕ, run (step halfSlab) (initial ℕ)
        [.addSlab 0, .allocate, .allocate, .free (0, 0)] = some s ∧
      (allocate halfSlab s).1 = some (0, 0) ∧ (0, 0) ∉ s.handedOut ∧
      uncarved halfSlab s 0 1 + listed halfSlab s 0 1 + (freeBit s 0 1).toNat +
        handed halfSlab s 0 1 = 1 := by
  have hrun : ∃ s : State ℕ, run (step halfSlab) (initial ℕ)
      [.addSlab 0, .allocate, .allocate, .free (0, 0)] = some s ∧
      (allocate halfSlab s).1 = some (0, 0) ∧ s.owned 0 = true := ⟨_, rfl, rfl, rfl⟩
  obtain ⟨s, hrun, hm, ho⟩ := hrun
  have h := chunk_partition halfSlab (by simp [NotAborted]) hrun
  exact ⟨s, hrun, hm, (h.2.1 _ hm).2.1, h.1 0 ho 1 (by decide)⟩

/-- Two gaps between lock sections. After the mark and before the free list is
taken offline, `allocate` returns a chunk of the marked slab. And a chunk freed
after the collection is still among the active allocations of the context. -/
theorem slab_release_gaps : (∃ s : State ℕ, run (step halfSlab) (initial ℕ)
        [.addSlab 0, .allocate, .allocate, .free (0, 0), .startSlabRelease 0] = some s ∧
      s.markedForRelease 0 = true ∧ (allocate halfSlab s).1 = some (0, 0)) ∧
    (∃ s s' : State ℕ, run (step halfSlab) (initial ℕ)
        [.addSlab 0, .allocate, .allocate, .startSlabRelease 0, .takeOffline, .pruneLoop false,
          .collect, .free (0, 0)] = some s ∧
      step halfSlab s .buildContext = some s' ∧ (0, 0) ∉ s.handedOut ∧
      ∃ c ∈ s'.contexts, c.slab = 0 ∧ (0, 0) ∈ c.activeAllocations) := by
  refine ⟨⟨_, rfl, rfl, rfl⟩, ⟨_, _, rfl, rfl, ?_, ?_⟩⟩
  · decide
  · exact ⟨_, mem_cons_self, rfl, by decide⟩

/-- Whatever becomes of the releases, memory that a caller has is a chunk of a slab of the class,
and it is neither free nor with another caller. -/
theorem handed_out_once {σ : Type*} [DecidableEq σ] (cfg : Config) (as : List (Action σ)) :
    Always (step cfg) (fun s => ∀ m ∈ s.handedOut, IsChunk cfg m ∧ s.owned m.1 = true ∧
      s.freedAllocations.count m + s.handedOut.count m = 1) (initial σ) as := by
  refine always_of_invariant (fun s (hs : Sound cfg False s) m hm => ?_)
    (fun s a t => step_sound s a t False.elim) (initial_sound cfg)
  obtain ⟨i, hi, hchunk⟩ := hs.chunks m (.inr (.inr hm))
  have hle := (hs.place m.1 i hi).1
  rw [places, listed, handed, ← hchunk] at hle
  have hpos := count_pos_iff.2 hm
  cases howned : s.owned m.1 with
  | false =>
    rw [howned, toNat_false] at hle
    omega
  | true =>
    rw [howned, toNat_true] at hle
    exact ⟨⟨i, hi, hchunk⟩, rfl, by omega⟩

end HybridCache.AllocationClass

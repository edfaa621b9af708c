import HybridCache.BlockCacheRegions

/-!
# Allocating and writing slots

An insert and a reinsertion both allocate a slot at the end of a current region and
then write it. The region is open for writing from the allocation on, so that it is
neither flushed nor reclaimed before the slot is written.
-/
set_option linter.unusedSectionVars false

namespace HybridCache.BlockCache
open RegionManager Function

variable {cfg : Config} {T : Type}

/-! ## One region -/

variable {last : ℕ} {slots : ℕ → Option Slot}

lemma Tiled.push (h : Tiled cfg slots last) (sl : Slot) :
    Tiled cfg (update slots (last + serializedSize cfg sl.entry) (some sl))
      (last + serializedSize cfg sl.entry) := by
  have hsize := serializedSize_pos cfg sl.entry
  set new := last + serializedSize cfg sl.entry with hnew
  have hcases : ∀ off sl', update slots new (some sl) off = some sl' →
      off = new ∧ sl' = sl ∨ slots off = some sl' ∧ off ≤ last := by
    intro off sl' hoff
    by_cases hne : off = new
    · exact Or.inl ⟨hne, by simpa [hne, eq_comm] using hoff⟩
    · rw [update_of_ne hne] at hoff
      exact Or.inr ⟨hoff, h.le_last off sl' hoff⟩
  have hkeep : ∀ off, (∃ sl', slots off = some sl') →
      ∃ sl', update slots new (some sl) off = some sl' := by
    rintro off ⟨sl', hoff⟩
    have hle := h.le_last off sl' hoff
    exact ⟨sl', by rwa [update_of_ne (by omega)]⟩
  refine ⟨Or.inr ⟨sl, update_self _ _ _⟩, fun off sl' hoff => ?_, fun off sl' hoff => ?_,
    fun off sl' hoff => ?_, fun off sl' off' sl'' hoff hoff' hlt => ?_⟩
  · rcases hcases off sl' hoff with ⟨rfl, rfl⟩ | ⟨hold, -⟩
    · omega
    · exact h.pos off sl' hold
  · rcases hcases off sl' hoff with ⟨rfl, rfl⟩ | ⟨-, hle⟩ <;> omega
  · rcases hcases off sl' hoff with ⟨rfl, rfl⟩ | ⟨hold, -⟩
    · rw [hnew, Nat.add_sub_cancel, ← hnew]
      exact ⟨by omega, h.last_slot.imp_right (hkeep last)⟩
    · exact (h.start_slot off sl' hold).imp_right (Or.imp_right (hkeep _))
  · rcases hcases off sl' hoff with ⟨rfl, rfl⟩ | ⟨hold, hle⟩ <;>
      rcases hcases off' sl'' hoff' with ⟨rfl, rfl⟩ | ⟨hold', hle'⟩
    · omega
    · omega
    · omega
    · exact h.disjoint off sl' off' sl'' hold hold' hlt

lemma Tiled.write {off : ℕ} {e : Entry} {w w' : Bool}
    (h : Tiled cfg slots last) (hoff : slots off = some ⟨e, w⟩) :
    Tiled cfg (update slots off (some ⟨e, w'⟩)) last := by
  have hentry : ∀ o sl, update slots off (some ⟨e, w'⟩) o = some sl →
      ∃ sl', slots o = some sl' ∧ sl'.entry = sl.entry := by
    intro o sl ho
    by_cases hne : o = off <;> grind
  have hkeep : ∀ o, (∃ sl, slots o = some sl) →
      ∃ sl, update slots off (some ⟨e, w'⟩) o = some sl := by
    intro o ho
    by_cases hne : o = off <;> simp [hne, ho]
  refine ⟨h.last_slot.imp_right (hkeep last), fun o sl ho => ?_, fun o sl ho => ?_,
    fun o sl ho => ?_, fun o sl o₁ sl₁ ho ho₁ hlt => ?_⟩ <;> obtain ⟨x, hx, heq⟩ := hentry o sl ho
  · exact h.pos o x hx
  · exact h.le_last o x hx
  · rw [← heq]
    exact (h.start_slot o x hx).imp_right (Or.imp_right (hkeep _))
  · obtain ⟨y, hy, -⟩ := hentry o₁ sl₁ ho₁
    rw [← heq]
    exact h.disjoint o x o₁ y hx hy hlt

section
variable (slots : Address cfg → Option Slot) (addr : Address cfg) (v : Option Slot)

lemma region_update_self : (fun off => update slots addr v (addr.1, off)) =
      update (fun off => slots (addr.1, off)) addr.2 v := by
  funext off
  simp [update_apply, Prod.ext_iff]

lemma region_update_of_ne {rid : RegionId cfg} (hr : rid ≠ addr.1) :
    (fun off => update slots addr v (rid, off)) = fun off => slots (rid, off) := by
  funext off
  exact update_of_ne (fun heq => hr (congrArg Prod.fst heq)) _ _

end

/-! ## Allocation -/

section Allocate
variable [Fintype T] [DecidableEq T] {s t : State cfg T}

structure Allocates (s t : State cfg T) (x : Holder cfg T) (e : Entry) (addr : Address cfg) :
    Prop where
  closed : s.manager.descriptors x = none
  last : addr.2 = (s.manager.regions addr.1).lastEntryEndOffset + serializedSize cfg e
  regions : t.manager.regions = update s.manager.regions addr.1
    ((s.manager.regions addr.1).openAndAllocate (serializedSize cfg e))
  descriptors : t.manager.descriptors =
    update s.manager.descriptors x (some ⟨addr.1, .Write, none⟩)
  slots : t.slots = update s.slots addr (some ⟨e, false⟩)
  buffer : t.buffer = s.buffer
  device : t.device = s.device
  writing : ∀ y, writing t y = if y = x then some (e, addr) else writing s y
  written : ∀ y p, written t y = some p → written s y = some p

variable {x : Holder cfg T} {e : Entry} {addr : Address cfg}

section
variable (h : Allocates s t x e addr)
include h

lemma Allocates.fresh (hc : Contents s) : s.slots addr = none := by
  have hle := (hc.tiled addr.1).le_last addr.2
  have hpos := serializedSize_pos cfg e
  have hlast := h.last
  cases hsl : s.slots addr <;> grind

lemma Allocates.region (rid : RegionId cfg) :
    (t.manager.regions rid).hasBuffer = (s.manager.regions rid).hasBuffer ∧
      (t.manager.regions rid).flushed = (s.manager.regions rid).flushed := by
  rw [h.regions]
  by_cases hr : rid = addr.1
  · rw [hr, update_self]
    exact ⟨rfl, rfl⟩
  · simp [hr]

variable {a : Address cfg} {sl : Slot}

lemma Allocates.slot_cases {sl : Slot}
    (hsl : t.slots a = some sl) : a = addr ∧ sl = ⟨e, false⟩ ∨ a ≠ addr ∧ s.slots a = some sl := by
  grind [congrFun h.slots a]

lemma Allocates.slot_of_old (hc : Contents s)
    (hsl : s.slots a = some sl) : t.slots a = some sl := by
  grind [congrFun h.slots a, h.fresh hc]

/-- The new slot is not written yet. -/
lemma Allocates.live_iff (hc : Contents s) (a : Address cfg)
    (e' : Entry) : Live t a e' ↔ Live s a e' := by
  constructor
  · intro hlive
    rcases h.slot_cases hlive with ⟨-, hsl⟩ | ⟨-, hsl⟩
    · cases hsl
    · exact hsl
  · exact h.slot_of_old hc

lemma Allocates.contents (hc : Contents s) (hcurrent : (s.manager.regions addr.1).hasBuffer = true ∧
      (s.manager.regions addr.1).flushed = false) : Contents t where
  backed a sl hsl := by
    rw [(h.region a.1).1, (h.region a.1).2]
    rcases h.slot_cases hsl with ⟨ha, -⟩ | ⟨-, hold⟩
    · rw [ha]
      exact Or.inl hcurrent.1
    · exact hc.backed a sl hold
  buffered a e' hb hlive := by
    rw [(h.region a.1).1] at hb
    rw [h.buffer]
    exact hc.buffered a e' hb ((h.live_iff hc a e').1 hlive)
  flushed a sl hflushed hsl := by
    rw [(h.region a.1).2] at hflushed
    rw [h.device]
    rcases h.slot_cases hsl with ⟨ha, -⟩ | ⟨-, hold⟩
    · rw [ha, hcurrent.2] at hflushed
      cases hflushed
    · exact hc.flushed a sl hflushed hold
  tiled rid := by
    rw [h.slots, h.regions]
    by_cases hr : rid = addr.1
    · subst hr
      rw [region_update_self, update_self, h.last]
      exact (hc.tiled addr.1).push ⟨e, false⟩
    · rw [region_update_of_ne _ _ _ hr, update_of_ne hr]
      exact hc.tiled rid
  unwritten a e' hsl := by
    rcases h.slot_cases hsl with ⟨ha, heq⟩ | ⟨-, hold⟩
    · cases heq
      exact ⟨x, by rw [h.writing, if_pos rfl, ha]⟩
    · obtain ⟨y, hy⟩ := hc.unwritten a e' hold
      have hd := (hc.writing_open y e' a hy).1
      refine ⟨y, ?_⟩
      grind [h.writing y, h.closed]
  writing_open y e' a hy := by
    rw [h.writing] at hy
    rw [h.descriptors]
    by_cases hyx : y = x
    · rw [if_pos hyx] at hy
      cases hy
      rw [hyx, update_self, h.slots, update_self]
      exact ⟨rfl, rfl⟩
    · rw [if_neg hyx] at hy
      obtain ⟨hd, hsl⟩ := hc.writing_open y e' a hy
      rw [update_of_ne hyx]
      exact ⟨hd, h.slot_of_old hc hsl⟩
  writing_unique y z e' e'' a hy hz := by
    -- nobody else writes to the fresh slot
    have hfresh := h.fresh hc
    have hslot : ∀ w e₀, BlockCache.writing s w = some (e₀, a) → s.slots a = some ⟨e₀, false⟩ :=
      fun w e₀ hw => (hc.writing_open w e₀ a hw).2
    have hold := hc.writing_unique y z e' e'' a
    grind [h.writing y, h.writing z]
  written_open y e' a hy := by
    obtain ⟨hd, hlive⟩ := hc.written_open y e' a (h.written y _ hy)
    exact ⟨by grind [congrFun h.descriptors y, h.closed], (h.live_iff hc a e').2 hlive⟩

lemma Allocates.frame (hs : Inv s)
    (hjobs : JobsFrame s.manager t.manager) (hindex : t.index = s.index)
    (himage : t.image = s.image) : Frame s t := by
  refine .of_jobs hs.pointers hjobs ?_ (fun a e' _ => (h.live_iff hs.contents a e').2)
    (fun rid _ off e' => (h.live_iff hs.contents (rid, off) e').1) ?_ fun rid _ => by rw [himage]
  · intro rid mode _ hserved
    cases mode with
    | Write => exact hserved
    | PhysRead => exact (h.region rid).2.trans hserved
    | InMemRead => exact (h.region rid).1.trans hserved
  · intro rid _ k off hk
    rw [hindex] at hk
    exact hk

end

variable {p : Priority cfg}

section
variable {s' : State cfg T} (h : Inv s) (hr : allocateSlot s x e p = some (s', addr))
include h hr

lemma allocateSlot_cases :
    Managed s'.manager ∧ s' = allocated s (setRegion (setDescriptor s.manager x
        (some ⟨addr.1, .Write, none⟩)) addr.1
          ((s.manager.regions addr.1).openAndAllocate (serializedSize cfg e))) e addr ∧
      s.manager.descriptors x = none ∧
      addr.2 = (s.manager.regions addr.1).lastEntryEndOffset + serializedSize cfg e ∧
      (s.manager.regions addr.1).hasBuffer = true ∧ (s.manager.regions addr.1).flushed = false := by
  unfold allocateSlot at hr
  split at hr
  · rename_i rid hp
    obtain ⟨m, hm, heq⟩ := Option.map_eq_some_iff.1 hr
    have hmanaged := h.toManaged.step hm trivial
    rw [RegionManager.step, hp] at hm
    dsimp only at hm
    split_ifs at hm with hclosed
    cases heq
    cases hm
    exact ⟨hmanaged, rfl, not_ne_iff.1 fun hne => hclosed (Or.inl hne), rfl,
      h.stages rid .current ⟨p, hp⟩⟩
  · cases hr

lemma Inv.allocate {ops : T → Op cfg} {walks : RegionId cfg → Walk cfg}
    (hwriting : ∀ y, writing { s' with ops := ops, walks := walks } y =
      if y = x then some (e, addr) else writing s y)
    (hwritten : ∀ y p, written { s' with ops := ops, walks := walks } y = some p →
      written s y = some p)
    (hwalks : ∀ r, walks r = s.walks r ∨ (r, .drained) ∈ s.manager.jobs ∧ WalkFact s r (walks r))
    (hops : ∀ u, ops u = s.ops u ∧ .inl u ≠ x ∨ ∀ s'', LookupFact s'' u (ops u)) :
    Inv { s' with ops := ops, walks := walks } := by
  obtain ⟨hmanaged, rfl, hclosed, hlast, hcurrent⟩ := allocateSlot_cases h hr
  have halloc : Allocates s { allocated s _ e addr with ops := ops, walks := walks } x e addr :=
    ⟨hclosed, hlast, rfl, rfl, rfl, rfl, rfl, hwriting, hwritten⟩
  have hf := halloc.frame h (.of_same rfl rfl) rfl rfl
  exact {
    toManaged := hmanaged
    contents := halloc.contents h.contents hcurrent
    pointers := .frame h hf (fun _ _ hk => h.live_of_index hf rfl hk) fun r =>
      (hwalks r).imp_right fun hw => hw.2.frame h hf (Or.inr hw.1)
    lookups := by
      refine .frame h hf ?_ fun _ _ _ hmem => Or.inl hmem
      intro u
      rcases hops u with ⟨hsame, hne⟩ | hfact
      · exact Or.inl ⟨hsame, update_of_ne hne _ _⟩
      · exact Or.inr (hfact _) }

end

lemma insertAllocate_inv {u : T} (h : Inv s)
    (ht : (allocateSlot s (.inl u) e p).map (fun r => setOp r.1 u (.allocated e r.2)) = some t) :
    Inv t := by
  obtain ⟨⟨s', addr⟩, hr, rfl⟩ := Option.map_eq_some_iff.1 ht
  have hs' := (allocateSlot_cases h hr).2.1
  refine h.allocate hr ?_ ?_ (fun r => Or.inl (by rw [hs']; rfl)) ?_
  · intro y
    rw [← setOp, writing_setOp, hs']
    rfl
  · intro y q hq
    have hold := written_setOp_of_none rfl y q hq
    rw [hs'] at hold
    exact hold
  · intro v
    rw [hs']
    by_cases hv : v = u
    · right
      intro s''
      rw [hv, update_self]
      trivial
    · left
      exact ⟨update_of_ne hv _ _, by simpa using hv⟩

lemma reinsertAllocate_inv {rid : RegionId cfg} {offset : ℕ}
    (h : Inv s) (hw : s.walks rid = .peeked offset e)
    (ht : (allocateSlot s (.inr rid) e p).map
      (fun r => setWalk r.1 rid (.allocated offset e r.2)) = some t) : Inv t := by
  obtain ⟨⟨s', addr⟩, hr, rfl⟩ := Option.map_eq_some_iff.1 ht
  have hs' := (allocateSlot_cases h hr).2.1
  have hfact := h.pointers.walks rid
  rw [hw] at hfact
  refine h.allocate hr ?_ ?_ ?_ (fun u => Or.inl ⟨by rw [hs']; rfl, by simp⟩)
  · intro y
    rw [← setWalk, writing_setWalk, hs']
    rfl
  · intro y q hq
    have hold := written_setWalk_of_none rfl y q hq
    rw [hs'] at hold
    exact hold
  · intro r
    rw [hs']
    by_cases hr : r = rid
    · right
      rw [hr, update_self]
      exact ⟨hfact.1.drained, hfact⟩
    · exact Or.inl (update_of_ne hr _ _)

end Allocate

/-! ## Writing -/

section Write
variable [Fintype T] [DecidableEq T] {s t : State cfg T}

structure Writes (s t : State cfg T) (x : Holder cfg T) (e : Entry) (addr : Address cfg) :
    Prop where
  holder : writing s x = some (e, addr)
  manager : t.manager = s.manager
  slots : t.slots = update s.slots addr (some ⟨e, true⟩)
  buffer : t.buffer = writeToBuffer s.buffer addr e
  device : t.device = s.device
  writing : ∀ y, writing t y = if y = x then none else writing s y
  written : ∀ y, written t y = if y = x then some (e, addr) else written s y

variable {x : Holder cfg T} {e : Entry} {addr : Address cfg} {a : Address cfg}

lemma Writes.slot_cases (h : Writes s t x e addr) {sl : Slot}
    (hsl : t.slots a = some sl) : a = addr ∧ sl = ⟨e, true⟩ ∨ a ≠ addr ∧ s.slots a = some sl := by
  grind [congrFun h.slots a]

lemma Writes.live (h : Writes s t x e addr) (hc : Contents s) {e' : Entry}
    (hlive : Live s a e') : Live t a e' := by
  rw [Live, h.slots, update_of_ne]
  · exact hlive
  · rintro rfl
    rw [Live, (hc.writing_open x e a h.holder).2] at hlive
    cases hlive

section
variable (buffer : RegionId cfg → ℕ → Option Entry)

lemma writeToBuffer_self :
    writeToBuffer buffer addr e addr.1 addr.2 = some e := by
  rw [writeToBuffer, update_self, update_self]

lemma writeToBuffer_of_ne (ha : a ≠ addr) : writeToBuffer buffer addr e a.1 a.2 = buffer a.1 a.2 := by
  rw [writeToBuffer]
  by_cases hr : a.1 = addr.1
  · rw [hr, update_self, update_of_ne fun hoff => ha (Prod.ext hr hoff)]
  · rw [update_of_ne hr]

end

lemma Writes.contents (h : Writes s t x e addr) (hc : Contents s) : Contents t where
  backed a sl hsl := by
    rw [h.manager]
    rcases h.slot_cases hsl with ⟨rfl, -⟩ | ⟨-, hold⟩
    · exact hc.backed a _ (hc.writing_open x e a h.holder).2
    · exact hc.backed a sl hold
  buffered a e' hb hlive := by
    rw [h.manager] at hb
    rw [h.buffer]
    rcases h.slot_cases hlive with ⟨rfl, heq⟩ | ⟨ha, hold⟩
    · cases heq
      exact writeToBuffer_self s.buffer
    · rw [writeToBuffer_of_ne s.buffer ha]
      exact hc.buffered a e' hb hold
  flushed a sl hflushed hsl := by
    rw [h.manager] at hflushed
    rw [h.device]
    rcases h.slot_cases hsl with ⟨rfl, -⟩ | ⟨-, hold⟩
    · have hwritten := (hc.flushed a _ hflushed (hc.writing_open x e a h.holder).2).1
      cases hwritten
    · exact hc.flushed a sl hflushed hold
  tiled rid := by
    rw [h.slots, h.manager]
    by_cases hr : rid = addr.1
    · subst hr
      rw [region_update_self]
      exact (hc.tiled addr.1).write (hc.writing_open x e addr h.holder).2
    · rw [region_update_of_ne _ _ _ hr]
      exact hc.tiled rid
  unwritten a e' hsl := by
    rcases h.slot_cases hsl with ⟨-, heq⟩ | ⟨ha, hold⟩
    · cases heq
    · obtain ⟨y, hy⟩ := hc.unwritten a e' hold
      exact ⟨y, by grind [h.writing y, h.holder]⟩
  writing_open y e' a hy := by
    have hold := hc.writing_open y e' a
    have hunique := hc.writing_unique y x e' e a
    have hholder := h.holder
    rw [h.manager]
    grind [h.writing y, congrFun h.slots a]
  writing_unique y z e' e'' a hy hz := by
    rw [h.writing] at hy hz
    split_ifs at hy hz
    exact hc.writing_unique y z e' e'' a hy hz
  written_open y e' a hy := by
    rw [h.written] at hy
    rw [h.manager]
    by_cases hyx : y = x
    · rw [if_pos hyx] at hy
      cases hy
      rw [hyx, Live, h.slots, update_self]
      exact ⟨(hc.writing_open x e addr h.holder).1, rfl⟩
    · rw [if_neg hyx] at hy
      exact (hc.written_open y e' a hy).imp_right (h.live hc)

lemma Writes.frame (h : Writes s t x e addr) (hs : Inv s) (hindex : t.index = s.index)
    (himage : t.image = s.image) : Frame s t := by
  refine .of_jobs hs.pointers (.of_same (by rw [h.manager]) (by rw [h.manager]))
    (fun _ _ _ hserved => by rw [h.manager]; exact hserved) (fun _ _ _ => h.live hs.contents) ?_ ?_
    fun rid _ => by rw [himage]
  · intro rid hdrained off e' hlive
    rcases h.slot_cases hlive with ⟨rfl, -⟩ | ⟨-, hold⟩
    · -- the region of the slot is open for writing
      have hd := (hs.contents.writing_open x e _ h.holder).1
      exact absurd (Or.inl hdrained) (hs.open_not_sealed hd)
    · exact hold
  · intro rid _ k off hk
    rw [hindex] at hk
    exact hk

lemma insertWrite_inv {u : T} (h : Inv s) (hu : s.ops u = .allocated e addr) :
    Inv (setOp (writeEntry s e addr) u (.wrote e addr)) := by
  have hwrites : Writes s (setOp (writeEntry s e addr) u (.wrote e addr)) (.inl u) e addr := {
    holder := by rw [writing, hu]; rfl
    manager := rfl
    slots := rfl
    buffer := rfl
    device := rfl
    writing := fun y => by rw [writing_setOp]; rfl
    written := fun y => by rw [written_setOp]; rfl }
  have hf := hwrites.frame h rfl rfl
  exact {
    toManaged := h.toManaged
    contents := hwrites.contents h.contents
    pointers := .frame h hf (fun _ _ hk => h.live_of_index hf rfl hk) fun _ => Or.inl rfl
    lookups := by
      refine .frame h hf ?_ fun _ _ _ hmem => Or.inl hmem
      intro v
      by_cases hv : v = u
      · right
        change LookupFact _ v (update s.ops u _ v)
        rw [hv, update_self]
        trivial
      · exact Or.inl ⟨update_of_ne hv _ _, rfl⟩ }

lemma reinsertWrite_inv {rid : RegionId cfg} {offset : ℕ} (h : Inv s)
    (hw : s.walks rid = .allocated offset e addr) :
    Inv (setWalk (writeEntry s e addr) rid (.wrote offset e addr)) := by
  have hwrites : Writes s (setWalk (writeEntry s e addr) rid (.wrote offset e addr)) (.inr rid) e
      addr := {
    holder := by rw [writing, hw]; rfl
    manager := rfl
    slots := rfl
    buffer := rfl
    device := rfl
    writing := fun y => by rw [writing_setWalk]; rfl
    written := fun y => by rw [written_setWalk]; rfl }
  have hf := hwrites.frame h rfl rfl
  have hfact := h.pointers.walks rid
  rw [hw] at hfact
  exact {
    toManaged := h.toManaged
    contents := hwrites.contents h.contents
    pointers := by
      refine .frame h hf (fun _ _ hk => h.live_of_index hf rfl hk) fun r => ?_
      by_cases hr : r = rid
      · right
        change WalkFact _ r (update s.walks rid _ r)
        rw [hr, update_self]
        have hold : WalkFact s rid (.wrote offset e addr) := hfact
        exact hold.frame h hf (Or.inr hfact.1.drained)
      · exact Or.inl (update_of_ne hr _ _)
    lookups := .frame h hf (fun _ => Or.inl ⟨rfl, rfl⟩) fun _ _ _ hmem => Or.inl hmem }

end Write

end HybridCache.BlockCache

import HybridCache.BlockCacheInvariant

/-!
# The steps of regions

A region is taken from the clean list, filled, flushed, tracked, evicted, walked over
and reset. Most of these steps only move the region from one owner to the next.
-/
set_option linter.unusedSectionVars false

namespace HybridCache.BlockCache
open RegionManager Function Option

variable {cfg : Config} {T : Type} [Fintype T] [DecidableEq T]

section Manager
variable {m m' : RegionManager.State cfg (Holder cfg T)}

/-! ## Steps of the region manager -/

lemma Managed.step {a : RegionManager.Action cfg (Holder cfg T)} (h : Managed m)
    (ht : RegionManager.step m a = some m') (hreader : StepFindsNoReader m a) : Managed m' := by
  have hphased := step_phased m a m' h.phased h.accounted ht
  have hchanges := step_changes h.phased.owned (fun _ _ hd => h.accounted.active_pos hd) ht
  exact ⟨hphased, (step_accounted_iff m a m' h.phased h.accounted ht).2 hreader,
    h.stages.of_changes hphased.owned hchanges fun _ _ _ _ hc => hc.stage⟩

lemma RegionsFrame.of_same (hregions : m'.regions = m.regions) : RegionsFrame m m' :=
  ⟨fun rid => by rw [hregions], fun rid => by rw [hregions], fun rid => Or.inl (by rw [hregions])⟩

variable {rid : RegionId cfg}

lemma RegionsFrame.of_update {g : Region} (hregions : m'.regions = update m.regions rid g)
    (hlast : g.lastEntryEndOffset = (m.regions rid).lastEntryEndOffset)
    (hflushed : g.flushed = (m.regions rid).flushed)
    (hbuffer : g.hasBuffer = (m.regions rid).hasBuffer ∨
      g.hasBuffer = false ∧ (m.regions rid).flushed = true ∧
        (m.regions rid).active .InMemRead = 0) : RegionsFrame m m' := by
  have hupd := congrFun hregions
  constructor <;> grind

lemma JobsFrame.of_mem (hseq : m'.seqNumber = m.seqNumber)
    (hkeep : ∀ rid, (rid, .drained) ∈ m.jobs → (rid, .drained) ∈ m'.jobs)
    (hback : ∀ rid ph, ph = .releasing true ∨ ph = .resetting true → (rid, ph) ∈ m'.jobs →
      (rid, ph) ∈ m.jobs) : JobsFrame m m' where
  seq_le := hseq.ge
  resetting _ rid := hback rid _ (Or.inr rfl)
  drained := hkeep
  released rid := Or.imp (hback rid _ (Or.inl rfl)) (hback rid _ (Or.inr rfl))

lemma JobsFrame.trans {m'' : RegionManager.State cfg (Holder cfg T)}
    (h : JobsFrame m m') (h' : JobsFrame m' m'') : JobsFrame m m'' where
  seq_le := h.seq_le.trans h'.seq_le
  resetting hseq rid hrid := by
    have hle := h.seq_le
    have hle' := h'.seq_le
    exact h.resetting (by omega) rid (h'.resetting (by omega) rid hrid)
  drained rid hrid := h'.drained rid (h.drained rid hrid)
  released rid hrid := h.released rid (h'.released rid hrid)

lemma JobsFrame.of_same (hseq : m'.seqNumber = m.seqNumber) (hjobs : m'.jobs = m.jobs) :
    JobsFrame m m' :=
  .of_mem hseq (fun rid => by rw [hjobs]; exact id) fun rid ph _ => by rw [hjobs]; exact id

variable {new old : Phase}

section
variable (hseq : m'.seqNumber = m.seqNumber)
include hseq

lemma JobsFrame.of_cons (hjobs : m'.jobs = (rid, new) :: m.jobs)
    (hnew : new ≠ .releasing true ∧ new ≠ .resetting true) : JobsFrame m m' := by
  refine .of_mem hseq ?_ ?_ <;> grind

lemma JobsFrame.of_erase (hjobs : m'.jobs = m.jobs.erase (rid, old))
    (hold : old ≠ .drained) : JobsFrame m m' := by
  refine .of_mem hseq ?_ ?_ <;> grind [List.mem_of_mem_erase]

lemma JobsFrame.of_moveJob (hjobs : m'.jobs = (rid, new) :: m.jobs.erase (rid, old))
    (hold : old ≠ .drained) (hnew : new ≠ .releasing true ∧ new ≠ .resetting true) :
    JobsFrame m m' := by
  have herase : JobsFrame m { m with jobs := m.jobs.erase (rid, old) } := .of_erase rfl rfl hold
  have hcons : JobsFrame { m with jobs := m.jobs.erase (rid, old) } m' := .of_cons hseq hjobs hnew
  exact herase.trans hcons

end

lemma JobsFrame.of_bump (hmem : (rid, .releasing true) ∈ m.jobs)
    (hseq : m'.seqNumber = m.seqNumber + 1)
    (hjobs : m'.jobs = (rid, .resetting true) :: m.jobs.erase (rid, .releasing true)) :
    JobsFrame m m' where
  seq_le := by omega
  resetting := by omega
  drained r hr := by grind
  released r hr := by grind [List.mem_of_mem_erase]

end Manager

/-! ## Steps that only move a region on -/

section Quiet
variable {s t : State cfg T}

lemma Inv.of_regions (h : Inv s) {m : RegionManager.State cfg (Holder cfg T)}
    {buffer device : RegionId cfg → ℕ → Option Entry} (hmanaged : Managed m)
    (hjobs : JobsFrame s.manager m) (hdesc : m.descriptors = s.manager.descriptors)
    (hserved : ∀ rid mode, 0 < (s.manager.regions rid).active mode →
      Served (s.manager.regions rid) mode → Served (m.regions rid) mode)
    (hcontents : Contents { s with manager := m, buffer := buffer, device := device }) :
    Inv { s with manager := m, buffer := buffer, device := device } := by
  have hf : Frame s { s with manager := m, buffer := buffer, device := device } :=
    .of_jobs h.pointers hjobs hserved (fun _ _ _ hl => hl) (fun _ _ _ _ hl => hl)
      (fun _ _ _ _ hk => hk) fun _ _ => rfl
  exact {
    toManaged := hmanaged
    contents := hcontents
    pointers := .frame h hf (fun _ _ hk => h.live_of_index hf rfl hk) fun _ => Or.inl rfl
    lookups := .frame h hf (fun _ => Or.inl ⟨rfl, by rw [hdesc]⟩) fun _ _ _ hmem => Or.inl hmem }

lemma Inv.manage {a : RegionManager.Action cfg (Holder cfg T)} (h : Inv s)
    (ht : manage s a = some t) (hreader : StepFindsNoReader s.manager a)
    (hframe : ∀ m, RegionManager.step s.manager a = some m →
      RegionsFrame s.manager m ∧ JobsFrame s.manager m ∧
        m.descriptors = s.manager.descriptors) : Inv t := by
  obtain ⟨m, hm, rfl⟩ := map_eq_some_iff.1 ht
  obtain ⟨hregions, hjobs, hdesc⟩ := hframe m hm
  refine h.of_regions (h.toManaged.step hm hreader) hjobs hdesc (fun _ _ => hregions.served) ?_
  exact h.contents.frame hregions rfl rfl rfl (fun _ => rfl) (fun _ _ hp => hp)
    fun x d hd _ => by rw [hdesc]; exact hd

variable {p : Priority cfg} {rid : RegionId cfg}

lemma releaseRegion_inv (h : Inv s)
    (ht : manage s (.releaseRegion p) = some t) : Inv t := by
  refine h.manage ht trivial fun m hm => ?_
  rw [RegionManager.step] at hm
  split at hm
  · cases hm
    exact ⟨.of_update rfl rfl rfl (Or.inl rfl), .of_cons rfl rfl (by decide), rfl⟩
  · cases hm

lemma getCleanRegion_inv (h : Inv s)
    (ht : manage s (.getCleanRegion p) = some t) : Inv t := by
  refine h.manage ht trivial fun m hm => ?_
  rw [RegionManager.step] at hm
  split at hm
  · cases hm
    unfold popCleanRegion
    split <;> exact ⟨.of_same rfl, .of_same rfl rfl, rfl⟩
  · cases hm

lemma evict_inv (h : Inv s)
    (ht : manage s (.evict rid) = some t) : Inv t := by
  refine h.manage ht trivial fun m hm => ?_
  rw [RegionManager.step] at hm
  split_ifs at hm
  cases hm
  exact ⟨.of_same rfl, .of_cons rfl rfl (by decide), rfl⟩

lemma runJob_inv {ph : Phase} (h : Inv s)
    (hph : ph ∈ [.flushed, .detached, .evicted, .releasing true, .returning true])
    (ht : manage s (.runJob rid ph true) = some t) : Inv t := by
  have hreader : StepFindsNoReader s.manager (.runJob rid ph true) := by
    fin_cases hph <;> trivial
  refine h.manage ht hreader fun m hm => ?_
  rw [RegionManager.step] at hm
  split_ifs at hm with hmem
  have hstage := h.stages rid (.job ph) hmem
  fin_cases hph
  · rw [RegionManager.runJob] at hm
    split_ifs at hm with hread
    cases hm
    exact ⟨.of_update rfl rfl rfl (Or.inr ⟨rfl, hstage, not_ne_iff.1 hread⟩),
      .of_moveJob rfl rfl (by decide) (by decide), rfl⟩
  · cases hm
    exact ⟨.of_same rfl, .of_erase rfl rfl (by decide), rfl⟩
  · cases hm
    exact ⟨.of_update rfl rfl rfl (Or.inl rfl), .of_moveJob rfl rfl (by decide) (by decide), rfl⟩
  · cases hm
    exact ⟨.of_same rfl, .of_bump hmem rfl rfl, rfl⟩
  · cases hm
    exact ⟨.of_same rfl, .of_erase rfl rfl (by decide), rfl⟩

end Quiet

/-! ## Buffers -/

section Buffers
variable {s t : State cfg T} {rid : RegionId cfg}

variable {m : RegionManager.State cfg (Holder cfg T)}

lemma Inv.of_region (h : Inv s) {g : Region}
    {buffer device : RegionId cfg → ℕ → Option Entry} (hmanaged : Managed m)
    (hjobs : JobsFrame s.manager m) (hdesc : m.descriptors = s.manager.descriptors)
    (hregions : m.regions = update s.manager.regions rid g)
    (hlast : g.lastEntryEndOffset = (s.manager.regions rid).lastEntryEndOffset)
    (hserved : ∀ mode, Served (s.manager.regions rid) mode → Served g mode)
    (hbuffer : ∀ r ≠ rid, buffer r = s.buffer r) (hdevice : ∀ r ≠ rid, device r = s.device r)
    (hself : ∀ off sl, s.slots (rid, off) = some sl → (g.hasBuffer = true ∨ g.flushed = true) ∧
      (g.hasBuffer = true → sl.written = true → buffer rid off = some sl.entry) ∧
      (g.flushed = true → sl.written = true ∧ device rid off = some sl.entry)) :
    Inv { s with manager := m, buffer := buffer, device := device } := by
  have hcases : ∀ r, r = rid ∧ m.regions r = g ∨ r ≠ rid ∧ m.regions r = s.manager.regions r := by
    have hupd := congrFun hregions
    grind
  refine h.of_regions hmanaged hjobs hdesc ?_ (h.contents.of_slots rfl ?_ ?_ ?_ ?_ (fun _ => rfl)
    (fun _ _ hp => hp) fun _ _ hd _ => hdesc ▸ hd)
  · intro r mode _ hr
    rcases hcases r with ⟨rfl, heq⟩ | ⟨-, heq⟩
    · exact heq ▸ hserved mode hr
    · exact heq ▸ hr
  · grind
  · rintro ⟨r, off⟩ sl hsl
    have hold := h.contents.backed (r, off) sl hsl
    rcases hcases r with ⟨rfl, heq⟩ | ⟨-, heq⟩ <;> grind
  · rintro ⟨r, off⟩ e hb hlive
    have hold := h.contents.buffered (r, off) e
    rcases hcases r with ⟨rfl, heq⟩ | ⟨hr, heq⟩
    · exact (hself off _ hlive).2.1 (heq ▸ hb) rfl
    · exact (congrFun (hbuffer r hr) off).trans (hold (heq ▸ hb) hlive)
  · rintro ⟨r, off⟩ sl hflushed hsl
    have hold := h.contents.flushed (r, off) sl
    rcases hcases r with ⟨rfl, heq⟩ | ⟨hr, heq⟩
    · exact (hself off sl hsl).2.2 (heq ▸ hflushed)
    · exact (hold (heq ▸ hflushed) hsl).imp_right (congrFun (hdevice r hr) off).trans

lemma assignBuffer_inv {p : Priority cfg} (h : Inv s)
    (hp : s.manager.allocators p = .taking rid) (ht : assignBuffer s p rid = some t) : Inv t := by
  obtain ⟨m, hm, rfl⟩ := map_eq_some_iff.1 ht
  have hmanaged := h.toManaged.step hm trivial
  rw [RegionManager.step, hp] at hm
  dsimp only at hm
  by_cases hb : s.manager.buffers = 0
  · rw [assignBufferToRegion, if_pos hb] at hm
    rw [if_pos hb]
    cases hm
    refine h.of_regions hmanaged (.of_same rfl rfl) rfl (fun _ _ _ hs => hs) ?_
    exact h.contents.frame (.of_same rfl) rfl rfl rfl (fun _ => rfl) (fun _ _ hp => hp)
      fun _ _ hd _ => hd
  · rw [assignBufferToRegion, if_neg hb] at hm
    rw [if_neg hb]
    cases hm
    refine h.of_region hmanaged (.of_same rfl rfl) rfl rfl rfl ?_
      (fun r hr => update_of_ne hr _ _) (fun _ _ => rfl) ?_
    · intro mode hserved
      cases mode with
      | InMemRead => rfl
      | _ => exact hserved
    · -- a region that is just taken has no slots
      intro off sl hsl
      have htiled := h.contents.tiled rid
      rw [(h.stages rid .taking ⟨p, hp⟩).1] at htiled
      rw [htiled.no_slots off] at hsl
      cases hsl

/-- The flush itself: nobody writes, so all slots are written and their bytes are in
the buffer. -/
lemma flushed_inv (h : Inv s)
    (hmanaged : Managed m) (hjobs : JobsFrame s.manager m)
    (hdesc : m.descriptors = s.manager.descriptors)
    (hregions : m.regions = update s.manager.regions rid
      { s.manager.regions rid with flushed := true })
    (hwrite : (s.manager.regions rid).active .Write = 0)
    (hbefore : (s.manager.regions rid).flushed = false) :
    Inv { s with manager := m, device := update s.device rid (s.buffer rid) } := by
  refine h.of_region hmanaged hjobs hdesc hregions rfl ?_ (fun _ _ => rfl)
    (fun r hr => update_of_ne hr _ _) ?_
  · intro mode hserved
    cases mode with
    | PhysRead => rfl
    | _ => exact hserved
  · intro off sl hsl
    have hlive := h.live_of_slot (rid, off) hwrite hsl
    have hwritten : sl.written = true := by
      rw [Live, hsl, some.injEq] at hlive
      rw [hlive]
    have hbuf := (h.contents.backed (rid, off) sl hsl).resolve_right (by simp [hbefore])
    have hbytes := h.contents.buffered (rid, off) sl.entry hbuf hlive
    rw [update_self]
    exact ⟨Or.inr rfl, fun _ _ => hbytes, fun _ => ⟨hwritten, hbytes⟩⟩

lemma flushBuffer_inv (h : Inv s) (ht : flushBuffer s rid = some t) : Inv t := by
  obtain ⟨m, hm, rfl⟩ := map_eq_some_iff.1 ht
  have hmanaged := h.toManaged.step hm trivial
  -- without a device write no region changes
  have hsame : m.regions = s.manager.regions → JobsFrame s.manager m →
      m.descriptors = s.manager.descriptors → Inv { s with
        manager := m
        device := if (m.regions rid).flushed && !(s.manager.regions rid).flushed then
          update s.device rid (s.buffer rid) else s.device } := by
    intro hregions hjobs hdesc
    rw [hregions, Bool.and_not_self]
    refine h.of_regions hmanaged hjobs hdesc (fun _ _ _ hs => by rw [hregions]; exact hs) ?_
    exact h.contents.frame (.of_same hregions) rfl rfl rfl (fun _ => rfl) (fun _ _ hp => hp)
      fun _ _ hd _ => by rw [hdesc]; exact hd
  rw [RegionManager.step] at hm
  split_ifs at hm with hmem
  rw [RegionManager.runJob] at hm
  simp only [if_true] at hm
  split_ifs at hm with hlimit hwrite hflushed
  · exact hsame (by rw [← some.inj hm]) (by cases hm; exact .of_same rfl rfl)
      (by rw [← some.inj hm])
  · cases hm
    exact hsame rfl (.of_moveJob rfl rfl (by decide) (by decide)) rfl
  · have hregions : m.regions = update s.manager.regions rid
        { s.manager.regions rid with flushed := true } := by
      cases hm
      rfl
    have hbefore : (s.manager.regions rid).flushed = false := by simpa using hflushed
    rw [show (m.regions rid).flushed = true by rw [hregions, update_self], hbefore]
    refine flushed_inv h hmanaged ?_ (by cases hm; rfl) hregions (not_ne_iff.1 hwrite) hbefore
    cases hm
    exact .of_moveJob rfl rfl (by decide) (by decide)
  · cases hm
    exact hsame rfl (.of_moveJob rfl rfl (by decide) (by decide)) rfl

end Buffers

/-! ## Walks -/

section Walks
variable {s t : State cfg T} {rid : RegionId cfg} {w : Walk cfg}

variable {r : RegionId cfg}

lemma Ahead.setWalk {offset : ℕ}
    (h : Ahead s r offset) : Ahead (setWalk s rid w) r offset :=
  ⟨h.drained, h.at_slot, h.pointers, h.image⟩

lemma WalkFact.setWalk {w' : Walk cfg} (h : WalkFact s r w') :
    WalkFact (setWalk s rid w) r w' := by
  cases w' with
  | idle => trivial
  | visiting offset => exact Ahead.setWalk h
  | peeked offset e | allocated offset e addr | wrote offset e addr | unreplaced offset e
  | finishing offset e => exact ⟨h.1.setWalk, h.2⟩

lemma walks_setWalk (hw : WalkFact s rid w) (r : RegionId cfg) :
    (setWalk s rid w).walks r = s.walks r ∨
      WalkFact (setWalk s rid w) r ((setWalk s rid w).walks r) := by
  change update s.walks rid w r = s.walks r ∨ WalkFact (setWalk s rid w) r (update s.walks rid w r)
  by_cases hr : r = rid
  · rw [hr, update_self]
    exact Or.inr hw.setWalk
  · exact Or.inl (update_of_ne hr _ _)

section
variable (h : Inv s)
include h

lemma Inv.walk_idle (hjob : (rid, .drained) ∉ s.manager.jobs) : s.walks rid = .idle := by
  rcases (h.pointers.walks rid).drained with hidle | hmem
  · exact hidle
  · exact absurd hmem hjob

lemma Inv.walk {index : ℕ → Option (Address cfg)}
    (hwriting : w.writing = (s.walks rid).writing) (hwritten : w.written = none)
    (hlive : ∀ k addr, index k = some addr → ∃ e, Live s addr e ∧ cfg.keyHash e.key = k ∧
      lastUpdate e.key s.history = some e.value)
    (hpointer : ∀ r, Sealed s r → ∀ k off, index k = some (r, off) → s.index k = some (r, off))
    (hw : WalkFact { s with index := index } rid w) :
    Inv (setWalk { s with index := index } rid w) := by
  have hf : Frame s (setWalk { s with index := index } rid w) :=
    h.frame_of_slots (.of_same rfl) (.of_same rfl rfl) rfl hpointer fun _ _ => rfl
  exact {
    toManaged := h.toManaged
    contents := h.contents.frame (.of_same rfl) rfl rfl rfl (writing_setWalk_of_eq hwriting)
      (written_setWalk_of_none hwritten) fun _ _ hd _ => hd
    pointers := .frame h hf hlive (walks_setWalk hw)
    lookups := .frame h hf (fun _ => Or.inl ⟨rfl, rfl⟩) fun _ _ _ hmem => Or.inl hmem }

lemma Inv.flushed_of_blocked (hjob : (rid, .blocked) ∈ s.manager.jobs) {off : ℕ}
    {sl : Slot} (hsl : s.slots (rid, off) = some sl) :
    (s.manager.regions rid).flushed = true := by
  rcases h.stages rid (.job .blocked) hjob with hflushed | hzero
  · exact hflushed
  · have htiled := h.contents.tiled rid
    rw [hzero] at htiled
    rw [htiled.no_slots off] at hsl
    cases hsl

lemma drained_inv (hmanaged : Managed (moveJob s.manager rid .blocked .drained))
    (hmem : (rid, .blocked) ∈ s.manager.jobs) :
    Inv { s with
      manager := moveJob s.manager rid .blocked .drained
      image := update s.image rid (s.device rid) } := by
  have hf : Frame s { s with
      manager := moveJob s.manager rid .blocked .drained
      image := update s.image rid (s.device rid) } := by
    refine h.frame_of_slots (.of_same rfl) (.of_moveJob rfl rfl (by decide) (by decide)) rfl
      (fun _ _ _ _ hk => hk) ?_
    intro r hdrained
    refine update_of_ne ?_ _ _
    rintro rfl
    cases h.phased.owned.phase_unique hmem hdrained
  exact {
    toManaged := hmanaged
    contents := h.contents.frame (.of_same rfl) rfl rfl rfl (fun _ => rfl) (fun _ _ hp => hp)
      fun _ _ hd _ => hd
    pointers := .frame h hf (fun _ _ hk => h.live_of_index hf rfl hk) fun _ => Or.inl rfl
    lookups := .frame h hf (fun _ => Or.inl ⟨rfl, rfl⟩) fun _ _ _ hmem => Or.inl hmem }

lemma startWalk_inv (ht : startWalk s rid = some t) : Inv t := by
  obtain ⟨m, hm, rfl⟩ := map_eq_some_iff.1 ht
  have hmanaged := h.toManaged.step hm trivial
  rw [RegionManager.step] at hm
  split_ifs at hm with hmem
  rw [RegionManager.runJob] at hm
  split_ifs at hm with hopen
  have hzero := not_ne_iff.1 hopen
  rw [Region.activeOpen] at hzero
  have hwrite : (s.manager.regions rid).active .Write = 0 := by omega
  have hidle : s.walks rid = .idle := h.walk_idle fun hdrained => by
    cases h.phased.owned.phase_unique hmem hdrained
  cases hm
  have hdrained := drained_inv h hmanaged hmem
  refine hdrained.walk (by rw [hidle]; rfl) rfl hdrained.pointers.live (fun _ _ _ _ hk => hk) ?_
  exact {
    drained := List.mem_cons_self
    at_slot := (h.contents.tiled rid).last_slot.imp_right fun hslot => by
      obtain ⟨sl, hsl⟩ := hslot
      exact ⟨sl.entry, h.live_of_slot (rid, _) hwrite hsl⟩
    pointers := fun k off hk => by
      obtain ⟨e, hlive, -⟩ := h.pointers.live k (rid, off) hk
      exact (h.contents.tiled rid).le_last off _ hlive
    image := fun off e hlive => by
      change update s.image rid (s.device rid) rid off = some e
      rw [update_self]
      exact (h.contents.flushed (rid, off) _ (h.flushed_of_blocked hmem hlive) hlive).2 }

lemma Inv.walk_ended (hw : s.walks rid = .visiting 0) (k off : ℕ) :
    s.index k ≠ some (rid, off) := by
  intro hk
  have hfact := h.pointers.walks rid
  rw [hw] at hfact
  have hle := Ahead.pointers hfact k off hk
  obtain ⟨e, hlive, -⟩ := h.pointers.live k (rid, off) hk
  have hpos := (h.contents.tiled rid).pos off _ hlive
  omega

lemma endWalk_inv (hw : s.walks rid = .visiting 0)
    (ht : (manage s (.runJob rid .drained true)).map (fun s' => setWalk s' rid .idle) = some t) :
    Inv t := by
  obtain ⟨s', hs', rfl⟩ := map_eq_some_iff.1 ht
  obtain ⟨m, hm, rfl⟩ := map_eq_some_iff.1 hs'
  have hmanaged := h.toManaged.step hm trivial
  rw [RegionManager.step] at hm
  split_ifs at hm with hmem
  cases hm
  have hback : ∀ r ph, (r, ph) ≠ (rid, .releasing true) →
      (r, ph) ∈ (moveJob s.manager rid .drained (.releasing true)).jobs → (r, ph) ∈ s.manager.jobs := by
    intro r ph hne hr
    exact List.mem_of_mem_erase ((List.mem_cons.1 hr).resolve_left hne)
  have hf : Frame s (setWalk { s with
      manager := moveJob s.manager rid .drained (.releasing true) } rid .idle) := {
    seq_le := le_rfl
    resetting := fun _ r hr => hback r _ (by simp) hr
    served := fun _ _ _ hs => hs
    live := fun _ _ _ hl => hl
    live_back := fun _ _ _ _ hl => hl
    pointer := fun _ _ _ _ hk => hk
    image := fun _ _ => rfl
    drained := fun r hr => by
      by_cases hrid : r = rid
      · exact Or.inl (by rw [hrid]; exact update_self _ _ _)
      · refine Or.inr (List.mem_cons_of_mem _ ((List.mem_erase_of_ne ?_).2 hr))
        exact fun heq => hrid (Prod.ext_iff.1 heq).1
    released := fun r hr => by
      by_cases hrid : r = rid
      · rw [hrid]
        exact ⟨Or.inl hmem, h.walk_ended hw⟩
      · have hold : Released s r := hr.imp
          (hback r _ fun heq => hrid (Prod.ext_iff.1 heq).1) (hback r _ (by simp))
        exact ⟨Or.inr hold, h.pointers.released r hold⟩ }
  exact {
    toManaged := hmanaged
    contents := h.contents.frame (.of_same rfl) rfl rfl rfl
      (writing_setWalk_of_eq (by change _ = (s.walks rid).writing; rw [hw]; rfl))
      (written_setWalk_of_none rfl) fun _ _ hd _ => hd
    pointers := .frame h hf (fun _ _ hk => h.live_of_index hf rfl hk) (walks_setWalk trivial)
    lookups := .frame h hf (fun _ => Or.inl ⟨rfl, rfl⟩) fun _ _ _ hmem => Or.inl hmem }

end

end Walks

/-! ## Reset -/

section Reset
variable {s t : State cfg T} {rid : RegionId cfg}

lemma clearSlots_eq_some {slots : Address cfg → Option Slot} {addr : Address cfg} {sl : Slot} :
    clearSlots slots rid addr = some sl ↔ addr.1 ≠ rid ∧ slots addr = some sl := by
  grind [clearSlots]

lemma Contents.clear {m : RegionManager.State cfg (Holder cfg T)} (h : Contents s)
    (hother : ∀ r ≠ rid, m.regions r = s.manager.regions r)
    (hlast : (m.regions rid).lastEntryEndOffset = 0)
    (hdesc : m.descriptors = s.manager.descriptors)
    (hopen : ∀ x d, s.manager.descriptors x = some d → d.id ≠ rid) :
    Contents { s with manager := m, slots := clearSlots s.slots rid } where
  backed addr sl hsl := by
    obtain ⟨hr, hsl⟩ := clearSlots_eq_some.1 hsl
    rw [hother _ hr]
    exact h.backed addr sl hsl
  buffered addr e hb hlive := by
    obtain ⟨hr, hlive⟩ := clearSlots_eq_some.1 hlive
    rw [hother _ hr] at hb
    exact h.buffered addr e hb hlive
  flushed addr sl hflushed hsl := by
    obtain ⟨hr, hsl⟩ := clearSlots_eq_some.1 hsl
    rw [hother _ hr] at hflushed
    exact h.flushed addr sl hflushed hsl
  tiled r := by
    by_cases hr : r = rid
    · have hnone : (fun off => clearSlots s.slots rid (r, off)) = fun _ => none := by
        funext off
        exact if_pos hr
      rw [hnone, hr, hlast]
      exact ⟨Or.inl rfl, by simp, by simp, by simp, by simp⟩
    · have hsame : (fun off => clearSlots s.slots rid (r, off)) = fun off => s.slots (r, off) := by
        funext off
        exact if_neg hr
      rw [hsame, hother r hr]
      exact h.tiled r
  unwritten addr e hsl := h.unwritten addr e (clearSlots_eq_some.1 hsl).2
  writing_open x e addr hx := by
    obtain ⟨hd, hsl⟩ := h.writing_open x e addr hx
    exact ⟨by rw [hdesc]; exact hd, clearSlots_eq_some.2 ⟨hopen x _ hd, hsl⟩⟩
  writing_unique := h.writing_unique
  written_open x e addr hx := by
    obtain ⟨hd, hsl⟩ := h.written_open x e addr hx
    exact ⟨by rw [hdesc]; exact hd, clearSlots_eq_some.2 ⟨hopen x _ hd, hsl⟩⟩

lemma reset_inv (h : Inv s) (ht : reset s rid = some t) : Inv t := by
  obtain ⟨m, hm, rfl⟩ := map_eq_some_iff.1 ht
  have hmanaged := h.toManaged.step hm trivial
  rw [RegionManager.step] at hm
  split_ifs at hm with hmem
  cases hm
  have hsealed : Sealed s rid := .of_resetting hmem
  have hother : ∀ r ≠ rid, (resetRegion s.manager rid).regions r = s.manager.regions r :=
    fun r hr => update_of_ne hr _ _
  have hlast : ((resetRegion s.manager rid).regions rid).lastEntryEndOffset = 0 := by
    change (update s.manager.regions rid _ rid).lastEntryEndOffset = 0
    rw [update_self]
    rfl
  have hf : Frame s { s with
      manager := moveJob (resetRegion s.manager rid) rid (.resetting true) (.returning true)
      slots := clearSlots s.slots rid } := by
    refine .of_jobs h.pointers (.of_moveJob rfl rfl (by decide) (by decide)) ?_ ?_ ?_
      (fun _ _ _ _ hk => hk) fun _ _ => rfl
    · intro r mode hpos hserved
      change Served ((resetRegion s.manager rid).regions r) mode
      rw [hother r]
      · exact hserved
      · intro hr
        rw [hr, h.sealed_inactive hsealed] at hpos
        omega
    · intro addr e hreset hlive
      refine clearSlots_eq_some.2 ⟨?_, hlive⟩
      intro hr
      exact hreset (hr ▸ hmem)
    · intro r _ off e hlive
      exact (clearSlots_eq_some.1 hlive).2
  exact {
    toManaged := hmanaged
    contents := h.contents.clear hother hlast rfl
      fun x d hd hid => h.open_not_sealed hd (hid ▸ hsealed)
    pointers := .frame h hf (fun _ _ hk => h.live_of_index hf rfl hk) fun _ => Or.inl rfl
    lookups := .frame h hf (fun _ => Or.inl ⟨rfl, rfl⟩) fun _ _ _ hmem => Or.inl hmem }

end Reset

end HybridCache.BlockCache

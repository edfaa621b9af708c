import Mathlib
import HybridCache.BlockCacheSlots

/-!
# Lookups return the last insert of their key

A lookup loads the sequence number, reads the index, opens the region and compares the
sequence number. If that is unchanged, then the region was not about to be reset at any
time in between, so the slot that the index named still holds its entry; and from then
on the open descriptor keeps the region from being reset.
-/
set_option linter.unusedSectionVars false

namespace HybridCache.BlockCache
open RegionManager Function Option

variable {cfg : Config} {T : Type} [Fintype T] [DecidableEq T] {s t : State cfg T}

/-! ## Operations of threads -/

section Ops
variable {u : T}

lemma LookupFact.setOp {op op' : Op cfg} {v : T} (h : LookupFact s v op') :
    LookupFact (setOp s u op) v op' := by
  cases op' <;> exact h

lemma ops_setOp {op : Op cfg} (hop : LookupFact s u op) (v : T) : (setOp s u op).ops v = s.ops v ∧
      (setOp s u op).manager.descriptors (.inl v) = s.manager.descriptors (.inl v) ∨
      LookupFact (setOp s u op) v ((setOp s u op).ops v) := by
  by_cases hv : v = u
  · right
    change LookupFact (BlockCache.setOp s u op) v (update s.ops u op v)
    rw [hv, update_self]
    exact hop.setOp
  · exact Or.inl ⟨update_of_ne hv _ _, rfl⟩

lemma Inv.op (h : Inv s) {op : Op cfg} {returned : List (Key × Value × List Update)}
    (hwriting : op.writing = (s.ops u).writing) (hwritten : op.written = none)
    (hop : LookupFact s u op)
    (hreturned : ∀ k v seen, (k, v, seen) ∈ returned →
      (k, v, seen) ∈ s.returned ∨ lastUpdate k seen = some v) :
    Inv (setOp { s with returned := returned } u op) := by
  have hf : Frame s (setOp { s with returned := returned } u op) :=
    h.frame_of_slots (.of_same rfl) (.of_same rfl rfl) rfl (fun _ _ _ _ hk => hk) fun _ _ => rfl
  have hfact : LookupFact { s with returned := returned } u op := by
    cases op <;> exact hop
  exact {
    toManaged := h.toManaged
    contents := h.contents.frame (.of_same rfl) rfl rfl rfl (writing_setOp_of_eq hwriting)
      (written_setOp_of_none hwritten) fun _ _ hd _ => hd
    pointers := .frame h hf (fun _ _ hk => h.live_of_index hf rfl hk) fun _ => Or.inl rfl
    lookups := .frame h hf (ops_setOp hfact) hreturned }

end Ops

/-! ## Descriptors -/

section Descriptors
variable {x : Holder cfg T}

lemma RegionsFrame.of_active {m m' : RegionManager.State cfg (Holder cfg T)}
    {rid : RegionId cfg} {active : Mode → ℕ}
    (hregions : m'.regions = update m.regions rid { m.regions rid with active := active }) :
    RegionsFrame m m' :=
  .of_update hregions rfl rfl (Or.inl rfl)

lemma close_inv (h : Inv s) (hwriting : writing s x = none) (hwritten : written s x = none)
    (hop : ∀ u, x = .inl u → ∀ s', LookupFact s' u (s.ops u))
    (ht : manage s (.close x) = some t) :
    Inv t ∧ ∃ m, t = { s with manager := m } := by
  obtain ⟨m, hm, rfl⟩ := map_eq_some_iff.1 ht
  refine ⟨?_, m, rfl⟩
  have hmanaged := h.toManaged.step hm trivial
  rw [RegionManager.step] at hm
  split at hm
  · rename_i rid mode hd
    have hregions : RegionsFrame s.manager m := by
      cases hm
      exact .of_active rfl
    have hjobs : JobsFrame s.manager m := by
      cases hm
      exact .of_same rfl rfl
    have hdesc : ∀ y, y ≠ x → m.descriptors y = s.manager.descriptors y := by
      intro y hy
      cases hm
      exact update_of_ne hy _ _
    have hf : Frame s { s with manager := m } :=
      h.frame_of_slots hregions hjobs rfl (fun _ _ _ _ hk => hk) fun _ _ => rfl
    exact {
      toManaged := hmanaged
      contents := by
        refine h.contents.frame hregions rfl rfl rfl (fun _ => rfl) (fun _ _ hp => hp) ?_
        intro y d hd hy
        rw [← hd]
        refine hdesc y ?_
        rintro rfl
        exact hy.elim (fun hne => hne hwriting) fun hne => hne hwritten
      pointers := .frame h hf (fun _ _ hk => h.live_of_index hf rfl hk) fun _ => Or.inl rfl
      lookups := by
        refine .frame h hf ?_ fun _ _ _ hmem => Or.inl hmem
        intro v
        by_cases hv : .inl v = x
        · exact Or.inr (hop v hv.symm _)
        · exact Or.inl ⟨rfl, hdesc _ hv⟩ }
  · cases hm

variable {u : T} {addr : Address cfg}

lemma Inv.descriptor (h : Inv s) {m : RegionManager.State cfg (Holder cfg T)}
    {op : Op cfg} (hmanaged : Managed m) (hregions : RegionsFrame s.manager m)
    (hjobs : JobsFrame s.manager m)
    (hdesc : ∀ y, y ≠ .inl u → m.descriptors y = s.manager.descriptors y)
    (hold : (s.ops u).writing = none) (hwriting : op.writing = none) (hwritten : op.written = none)
    (hop : Frame s { s with manager := m } → LookupFact { s with manager := m } u op) :
    Inv (setOp { s with manager := m } u op) := by
  have hf : Frame s { s with manager := m } :=
    h.frame_of_slots hregions hjobs rfl (fun _ _ _ _ hk => hk) fun _ _ => rfl
  have hf' : Frame s (setOp { s with manager := m } u op) :=
    h.frame_of_slots hregions hjobs rfl (fun _ _ _ _ hk => hk) fun _ _ => rfl
  exact {
    toManaged := hmanaged
    contents := by
      refine h.contents.frame hregions rfl rfl rfl (writing_setOp_of_eq (hwriting.trans hold.symm))
        (written_setOp_of_none hwritten) ?_
      intro y d hd hy
      rw [← hd]
      refine hdesc y ?_
      rintro rfl
      rw [writing_setOp, if_pos rfl, written_setOp, if_pos rfl] at hy
      exact hy.elim (fun hne => hne hwriting) fun hne => hne hwritten
    pointers := .frame h hf' (fun _ _ hk => h.live_of_index hf' rfl hk) fun _ => Or.inl rfl
    lookups := by
      refine .frame h hf' ?_ fun _ _ _ hmem => Or.inl hmem
      intro v
      by_cases hv : v = u
      · right
        change LookupFact _ v (update s.ops u op v)
        rw [hv, update_self]
        exact (hop hf).setOp
      · exact Or.inl ⟨update_of_ne hv _ _, hdesc _ (by simpa using hv)⟩ }

lemma Contents.served_readMode {e : Entry} (h : Contents s) (hlive : Live s addr e) :
    Served (s.manager.regions addr.1) (s.manager.regions addr.1).readMode := by
  rcases h.backed addr _ hlive with hb | hflushed
  · cases hflushed : (s.manager.regions addr.1).flushed <;>
      simp [Region.readMode, hflushed, hb, Served]
  · simp [Region.readMode, hflushed, Served]

lemma openForRead_inv {k : Key} {n : ℕ} {seen : List Update}
    (h : Inv s) (hu : s.ops u = .found k n addr seen)
    (ht : (manage s (.openForRead (.inl u) addr.1 n)).map (fun s' => setOp s' u
      (if (s.manager.regions addr.1).blockAccess then .idle else .opened k n addr seen)) = some t) :
    Inv t := by
  obtain ⟨s', hs', rfl⟩ := map_eq_some_iff.1 ht
  obtain ⟨m, hm, rfl⟩ := map_eq_some_iff.1 hs'
  have hmanaged := h.toManaged.step hm trivial
  have hold : (s.ops u).writing = none := by rw [hu]; rfl
  have hfact := h.lookups.ops u
  rw [hu] at hfact
  rw [RegionManager.step] at hm
  split_ifs at hm with hclosed hblock
  · rw [if_pos hblock, ← some.inj hm]
    exact h.op hold.symm rfl trivial fun _ _ _ hmem => Or.inl hmem
  · rw [if_neg hblock]
    cases hm
    refine h.descriptor hmanaged (.of_active rfl) (.of_same rfl rfl)
      (fun y hy => update_of_ne hy _ _) hold rfl rfl ?_
    intro hf
    refine ⟨hfact.1, (s.manager.regions addr.1).readMode, update_self _ _ _, ?_⟩
    intro hn
    have hvalid := hfact.2 hn
    refine ⟨hvalid.frame hf rfl, ?_⟩
    obtain ⟨e, hlive, -⟩ := hvalid.1
    have hserved := h.contents.served_readMode hlive
    change Served (update s.manager.regions addr.1 _ addr.1) _
    rw [update_self]
    cases hmode : (s.manager.regions addr.1).readMode <;> rw [hmode] at hserved <;> exact hserved

lemma checkSeqNumber_inv {k : Key} {n : ℕ} {seen : List Update}
    (h : Inv s) (hu : s.ops u = .opened k n addr seen)
    (ht : (manage s (.checkSeqNumber (.inl u))).map (fun s' => setOp s' u
      (if s.manager.seqNumber = n then .ready k addr seen else .idle)) = some t) : Inv t := by
  obtain ⟨s', hs', rfl⟩ := map_eq_some_iff.1 ht
  obtain ⟨m, hm, rfl⟩ := map_eq_some_iff.1 hs'
  have hmanaged := h.toManaged.step hm trivial
  have hold : (s.ops u).writing = none := by rw [hu]; rfl
  have hfact := h.lookups.ops u
  rw [hu] at hfact
  obtain ⟨-, mode, hd, hvalid⟩ := hfact
  rw [RegionManager.step, hd] at hm
  dsimp only at hm
  by_cases hseq : s.manager.seqNumber = n
  · rw [if_pos hseq] at hm ⊢
    cases hm
    refine h.descriptor hmanaged (.of_same rfl) (.of_same rfl rfl)
      (fun y hy => update_of_ne hy _ _) hold rfl rfl ?_
    intro hf
    obtain ⟨hv, hserved⟩ := hvalid hseq.symm
    exact ⟨mode, update_self _ _ _, (hv.frame hf rfl).1, hserved⟩
  · rw [if_neg hseq] at hm ⊢
    cases hm
    exact h.descriptor hmanaged (.of_active rfl) (.of_same rfl rfl)
      (fun y hy => update_of_ne hy _ _) hold rfl rfl fun _ => trivial

end Descriptors

/-! ## Index reads and entry reads -/

section Reads
variable {u : T} {k : Key} {addr : Address cfg}

lemma checkKey_eq_some {e : Option Entry} {v : Value} (h : checkKey k e = some v) :
    e = some ⟨k, v⟩ := by
  obtain ⟨e', rfl, hkey⟩ := bind_eq_some_iff.1 h
  split_ifs at hkey with heq
  rw [← heq, ← some.inj hkey]

lemma indexLookup_fact (h : Inv s) {n : ℕ}
    (hu : s.ops u = .started k n) (hk : s.index (cfg.keyHash k) = some addr) :
    LookupFact s u (.found k n addr s.history) := by
  have hfact := h.lookups.ops u
  rw [hu] at hfact
  refine ⟨hfact, ?_⟩
  intro _
  obtain ⟨e, hlive, -, hlast⟩ := h.pointers.live _ addr hk
  refine ⟨⟨e, hlive, ?_⟩, ?_⟩
  · intro hkey
    rw [← hkey]
    exact hlast
  · intro hreset
    exact h.pointers.released addr.1 (Or.inr hreset) _ addr.2 hk

lemma readBytes_of_served (h : Contents s) {e : Entry} {mode : Mode}
    (hlive : Live s addr e) (hserved : Served (s.manager.regions addr.1) mode) :
    readBytes s mode addr = some e := by
  cases mode with
  | Write => cases hserved
  | PhysRead => exact (h.flushed addr _ hserved hlive).2
  | InMemRead => exact h.buffered addr e hserved hlive

lemma readEntry_fact (h : Inv s) {seen : List Update}
    {d : Descriptor cfg} (hu : s.ops u = .ready k addr seen)
    (hd : s.manager.descriptors (.inl u) = some d) (unknown : Option Entry) :
    LookupFact s u (.finished k (checkKey k ((readBytes s d.mode addr).or unknown)) seen) := by
  have hfact := h.lookups.ops u
  rw [hu] at hfact
  obtain ⟨mode, hmode, ⟨e, hlive, hlast⟩, hserved⟩ := hfact
  rw [hmode] at hd
  cases hd
  intro v hv
  rw [readBytes_of_served h.contents hlive hserved, some_or] at hv
  cases some.inj (checkKey_eq_some hv)
  exact hlast rfl

lemma lookupStep_inv {unknown : Option Entry} (h : Inv s)
    (ht : lookupStep s u unknown (s.ops u) = some t) : Inv t := by
  cases hu : s.ops u with
  | started k n =>
    rw [hu, lookupStep] at ht
    have hwriting : (s.ops u).writing = none := by rw [hu]; rfl
    cases hk : s.index (cfg.keyHash k) with
    | none =>
      rw [hk] at ht
      cases ht
      exact h.op hwriting.symm rfl trivial fun _ _ _ hmem => Or.inl hmem
    | some addr =>
      rw [hk] at ht
      cases ht
      exact h.op hwriting.symm rfl (indexLookup_fact h hu hk) fun _ _ _ hmem => Or.inl hmem
  | found k n addr seen =>
    rw [hu] at ht
    exact openForRead_inv h hu ht
  | opened k n addr seen =>
    rw [hu] at ht
    exact checkSeqNumber_inv h hu ht
  | ready k addr seen =>
    rw [hu, lookupStep] at ht
    split at ht
    · cases ht
    · rename_i d hd
      cases ht
      exact h.op (by rw [hu]; rfl) rfl (readEntry_fact h hu hd unknown) fun _ _ _ hmem =>
        Or.inl hmem
  | finished k value seen =>
    rw [hu] at ht
    obtain ⟨s', hs', rfl⟩ := map_eq_some_iff.1 ht
    have hfact := h.lookups.ops u
    rw [hu] at hfact
    obtain ⟨hinv, m, rfl⟩ := close_inv h (by rw [writing, hu]; rfl) (by rw [written, hu]; rfl)
      (fun v hv s'' => by cases hv; rw [hu]; exact hfact) hs'
    refine hinv.op (by change _ = (s.ops u).writing; rw [hu]; rfl) rfl trivial ?_
    intro k' v seen' hmem
    cases value with
    | none => exact Or.inl hmem
    | some w =>
      rcases List.mem_cons.1 hmem with heq | hmem
      · cases heq
        exact Or.inr (hfact v rfl)
      · exact Or.inl hmem
  | idle | allocated | wrote | indexed =>
    rw [hu] at ht
    cases ht

end Reads

/-! ## Index updates of inserts and removals -/

section Updates

lemma Inv.update_index (h : Inv s) (w : Update) {new : Option (Address cfg)}
    (hnew : ∀ addr, new = some addr → ¬ Sealed s addr.1 ∧ ∃ e, w = .insert e ∧ Live s addr e) :
    Inv { s with
      index := update s.index (cfg.keyHash w.key) new
      history := s.history ++ [w] } := by
  have hf : Frame s { s with
      index := update s.index (cfg.keyHash w.key) new
      history := s.history ++ [w] } := by
    refine h.frame_of_slots (.of_same rfl) (.of_same rfl rfl) rfl ?_ fun _ _ => rfl
    intro rid hsealed k off hk
    grind
  refine {
    toManaged := h.toManaged
    contents := h.contents.frame (.of_same rfl) rfl rfl rfl (fun _ => rfl) (fun _ _ hp => hp)
      fun _ _ hd _ => hd
    pointers := .frame h hf ?_ fun _ => Or.inl rfl
    lookups := .frame h hf (fun _ => Or.inl ⟨rfl, rfl⟩) fun _ _ _ hmem => Or.inl hmem }
  intro k addr hk
  change update s.index (cfg.keyHash w.key) new k = some addr at hk
  by_cases hkw : k = cfg.keyHash w.key
  · rw [hkw, update_self] at hk
    obtain ⟨-, e, rfl, hlive⟩ := hnew addr hk
    exact ⟨e, hlive, hkw.symm, by simp [lastUpdate_append, lastStep]⟩
  · rw [update_of_ne hkw] at hk
    obtain ⟨e, hlive, hhash, hlast⟩ := h.pointers.live k addr hk
    refine ⟨e, hlive, hhash, ?_⟩
    rw [lastUpdate_append_of_ne fun hkey => hkw (by rw [← hhash, hkey])]
    exact hlast

lemma insertStep_inv {u : T} (h : Inv s) (ht : insertStep s u (s.ops u) = some t) : Inv t := by
  cases hu : s.ops u with
  | allocated e addr =>
    rw [hu] at ht
    cases ht
    exact insertWrite_inv h hu
  | wrote e addr =>
    rw [hu] at ht
    cases ht
    obtain ⟨hd, hlive⟩ := h.contents.written_open (.inl u) e addr (by rw [written, hu]; rfl)
    have hindex : Inv { s with
        index := update s.index (cfg.keyHash e.key) (some addr)
        history := s.history ++ [.insert e] } := by
      refine h.update_index (.insert e) ?_
      rintro _ ⟨⟩
      exact ⟨h.open_not_sealed hd, e, rfl, hlive⟩
    exact hindex.op (by change _ = (s.ops u).writing; rw [hu]; rfl) rfl trivial fun _ _ _ hmem =>
      Or.inl hmem
  | indexed e =>
    rw [hu] at ht
    obtain ⟨s', hs', rfl⟩ := map_eq_some_iff.1 ht
    obtain ⟨hinv, m, rfl⟩ := close_inv h (by rw [writing, hu]; rfl) (by rw [written, hu]; rfl)
      (fun v hv s'' => by cases hv; rw [hu]; trivial) hs'
    exact hinv.op (by change _ = (s.ops u).writing; rw [hu]; rfl) rfl trivial fun _ _ _ hmem =>
      Or.inl hmem
  | idle | started | found | opened | ready | finished =>
    rw [hu] at ht
    cases ht

end Updates

/-! ## Index updates of walks -/

section Walks
variable {rid : RegionId cfg} {offset : ℕ} {e : Entry}

lemma removeIfMatch_le {index : ℕ → Option (Address cfg)} {h : ℕ} {a : Address cfg} {k : ℕ}
    {addr : Address cfg} (hk : removeIfMatch index h a k = some addr) : index k = some addr := by
  unfold removeIfMatch at hk
  split_ifs at hk <;> grind

lemma removeIfMatch_self (index : ℕ → Option (Address cfg)) (h : ℕ) (a : Address cfg) :
    removeIfMatch index h a h ≠ some a := by
  unfold removeIfMatch
  split_ifs with hmatch <;> simp [hmatch]

/-- The walk goes on to the entry in front of this one, when the index does not point to
this one any more. -/
lemma Inv.ahead_next (h : Inv s) (ha : Ahead s rid offset) (hlive : Live s (rid, offset) e)
    {index : ℕ → Option (Address cfg)}
    (hle : ∀ k addr, index k = some addr → s.index k = some addr)
    (hne : index (cfg.keyHash e.key) ≠ some (rid, offset)) :
    Ahead { s with index := index } rid (offset - serializedSize cfg e) where
  drained := ha.drained
  at_slot := by
    refine ((h.contents.tiled rid).start_slot offset _ hlive).2.imp_right ?_
    rintro ⟨sl, hsl⟩
    exact ⟨sl.entry, h.live_of_slot (rid, _) (h.sealed_inactive (Or.inl ha.drained) _) hsl⟩
  pointers k off hk := by
    obtain ⟨e', hlive', hhash, -⟩ := h.pointers.live k (rid, off) (hle k _ hk)
    have hoff := ha.pointers k off (hle k _ hk)
    have hcases : off ≠ offset := by
      rintro rfl
      rw [hlive.unique hlive'] at hne
      exact hne (hhash ▸ hk)
    exact (h.contents.tiled rid).disjoint offset _ off _ hlive hlive' (by omega)
  image := ha.image

lemma Ahead.of_index (ha : Ahead s rid offset) {index : ℕ → Option (Address cfg)}
    (hle : ∀ k off, index k = some (rid, off) → s.index k = some (rid, off)) :
    Ahead { s with index := index } rid offset :=
  ⟨ha.drained, ha.at_slot, fun k off hk => ha.pointers k off (hle k off hk), ha.image⟩

lemma Inv.walk_remove (h : Inv s) {w : Walk cfg} (hwriting : w.writing = (s.walks rid).writing)
    (hwritten : w.written = none)
    (hw : WalkFact { s with
      index := removeIfMatch s.index (cfg.keyHash e.key) (rid, offset) } rid w) :
    Inv (setWalk { s with
      index := removeIfMatch s.index (cfg.keyHash e.key) (rid, offset) } rid w) :=
  h.walk hwriting hwritten (fun k addr hk => h.pointers.live k addr (removeIfMatch_le hk))
    (fun _ _ _ _ hk => removeIfMatch_le hk) hw

lemma evictItem_inv (h : Inv s) (ht : evictItem s rid (s.walks rid) = some t) : Inv t := by
  have hfact := h.pointers.walks rid
  cases hw : s.walks rid with
  | peeked offset e =>
    rw [hw] at ht hfact
    cases ht
    exact h.walk_remove (by rw [hw]; rfl) rfl
      (h.ahead_next hfact.1 hfact.2 (fun _ _ => removeIfMatch_le) (removeIfMatch_self _ _ _))
  | idle | visiting | allocated | wrote | unreplaced | finishing =>
    rw [hw] at ht
    cases ht

lemma peek_inv (h : Inv s) (hw : s.walks rid = .visiting offset)
    (ht : walkStep s rid (.visiting offset) = some t) : Inv t := by
  have hahead := h.pointers.walks rid
  rw [hw] at hahead
  rw [walkStep] at ht
  split_ifs at ht with hzero
  obtain ⟨e, hlive⟩ := hahead.at_slot.resolve_left hzero
  rw [hahead.image offset e hlive] at ht
  dsimp only at ht
  split_ifs at ht with hindex
  · cases ht
    exact h.walk (by rw [hw]; rfl) rfl h.pointers.live (fun _ _ _ _ hk => hk) ⟨hahead, hlive⟩
  · cases ht
    exact h.walk (by rw [hw]; rfl) rfl h.pointers.live (fun _ _ _ _ hk => hk)
      (h.ahead_next hahead hlive (fun _ _ hk => hk) hindex)

lemma replaceIfMatch_inv (h : Inv s) {addr : Address cfg} (hw : s.walks rid = .wrote offset e addr)
    (hindex : s.index (cfg.keyHash e.key) = some (rid, offset)) :
    Inv (setWalk { s with index := update s.index (cfg.keyHash e.key) (some addr) } rid
      (.finishing offset e)) := by
  have hfact := h.pointers.walks rid
  rw [hw] at hfact
  obtain ⟨hahead, hold⟩ := hfact
  obtain ⟨hd, hnew⟩ := h.contents.written_open (.inr rid) e addr (by rw [written, hw]; rfl)
  -- the copy is not in a region that is being reclaimed
  have hopen : ∀ r, Sealed s r → ∀ k off,
      update s.index (cfg.keyHash e.key) (some addr) k = some (r, off) →
      s.index k = some (r, off) ∧ k ≠ cfg.keyHash e.key := by
    have hne := h.open_not_sealed hd
    grind
  refine h.walk (by rw [hw]; rfl) rfl ?_ (fun r hr k off hk => (hopen r hr k off hk).1) ?_
  · intro k a hk
    by_cases hke : k = cfg.keyHash e.key
    · rw [hke, update_self] at hk
      cases hk
      obtain ⟨e', hlive, -, hlast⟩ := h.pointers.live _ _ hindex
      cases hold.unique hlive
      exact ⟨e, hnew, hke.symm, hlast⟩
    · rw [update_of_ne hke] at hk
      exact h.pointers.live k a hk
  · refine ⟨hahead.of_index fun k off hk => (hopen rid (Or.inl hahead.drained) k off hk).1, hold, ?_⟩
    intro hk
    exact (hopen rid (Or.inl hahead.drained) _ _ hk).2 rfl

lemma walkStep_inv (h : Inv s) (ht : walkStep s rid (s.walks rid) = some t) : Inv t := by
  have hfact := h.pointers.walks rid
  cases hw : s.walks rid with
  | visiting offset =>
    rw [hw] at ht
    exact peek_inv h hw ht
  | allocated offset e addr =>
    rw [hw] at ht
    cases ht
    exact reinsertWrite_inv h hw
  | wrote offset e addr =>
    rw [hw] at ht hfact
    rw [walkStep] at ht
    split_ifs at ht with hindex
    · cases ht
      exact replaceIfMatch_inv h hw hindex
    · cases ht
      exact h.walk (by rw [hw]; rfl) rfl h.pointers.live (fun _ _ _ _ hk => hk) hfact
  | unreplaced offset e =>
    rw [hw] at ht hfact
    cases ht
    exact h.walk_remove (by rw [hw]; rfl) rfl
      ⟨hfact.1.of_index fun _ _ => removeIfMatch_le, hfact.2, removeIfMatch_self _ _ _⟩
  | finishing offset e =>
    rw [hw] at ht
    obtain ⟨s', hs', rfl⟩ := map_eq_some_iff.1 ht
    obtain ⟨hinv, m, rfl⟩ := close_inv h (by rw [writing, hw]; rfl) (by rw [written, hw]; rfl)
      (fun v hv => by cases hv) hs'
    have hclosed := hinv.pointers.walks rid
    rw [hw] at hclosed
    exact hinv.walk (by change _ = (s.walks rid).writing; rw [hw]; rfl) rfl hinv.pointers.live
      (fun _ _ _ _ hk => hk) (hinv.ahead_next hclosed.1 hclosed.2.1 (fun _ _ hk => hk) hclosed.2.2)
  | idle | peeked =>
    rw [hw] at ht
    cases ht

end Walks

/-! ## Runs -/

lemma step_inv (s : State cfg T) (a : Action cfg T) (t : State cfg T) (h : Inv s)
    (ht : step s a = some t) : Inv t := by
  cases a with
  | releaseRegion p => exact releaseRegion_inv h ht
  | getCleanRegion p => exact getCleanRegion_inv h ht
  | assignBuffer p =>
    rw [step] at ht
    split at ht
    · rename_i rid hp
      exact assignBuffer_inv h hp ht
    · cases ht
  | flushBuffer rid => exact flushBuffer_inv h ht
  | evict rid => exact evict_inv h ht
  | detachBuffer rid | track rid | block rid | bumpSeqNumber rid | returnRegion rid =>
    exact runJob_inv h (by simp) ht
  | startWalk rid => exact startWalk_inv h ht
  | endWalk rid =>
    rw [step] at ht
    split at ht
    · rename_i hw
      exact endWalk_inv h hw ht
    · cases ht
  | reset rid => exact reset_inv h ht
  | insertAllocate u e p =>
    rw [step] at ht
    split at ht
    · split_ifs at ht
      exact insertAllocate_inv h ht
    · cases ht
  | continueInsert u => exact insertStep_inv h ht
  | loadSeqNumber u key =>
    rw [step] at ht
    split at ht
    · rename_i hu
      cases ht
      exact h.op (by rw [hu]; rfl) rfl le_rfl fun _ _ _ hmem => Or.inl hmem
    · cases ht
  | continueLookup u unknown => exact lookupStep_inv h ht
  | remove key =>
    cases ht
    exact h.update_index (.remove key) (by simp)
  | continueWalk rid => exact walkStep_inv h ht
  | evictItem rid => exact evictItem_inv h ht
  | reinsertAllocate rid p =>
    rw [step] at ht
    split at ht
    · rename_i hw
      exact reinsertAllocate_inv h hw ht
    · cases ht

/-- A lookup that returns a value returns that of an insert of the key, and no update of
the key comes between the index update of that insert and the index read of the lookup.
Other keys may have the same hash. -/
theorem lookup_returns_last_insert (cfg : Config) (T : Type) [Fintype T] [DecidableEq T]
    (as : List (Action cfg T)) (s : State cfg T) (hrun : Transition.run step (init cfg T) as = some s)
    (k : Key) (v : Value) (seen : List Update) (hreturned : (k, v, seen) ∈ s.returned) :
    ∃ before after, seen = before ++ .insert ⟨k, v⟩ :: after ∧ ∀ u ∈ after, u.key ≠ k := by
  have hinv : Inv s := Transition.run_invariant step_inv init_inv hrun
  exact lastUpdate_eq_some (hinv.lookups.returned k v seen hreturned)

/-- Two regions of two slots, and all keys have the same hash. -/
def twoRegions : Config where
  cacheSize := 128
  regionSize := 64
  cleanRegionsPool := 1
  numInMemBuffers := 1
  numPriorities := 1
  inMemBufFlushRetryLimit := 1
  regionSize_pos := by decide
  regionSize_le := by decide
  cacheSize_pos := by decide
  cacheSize_mod := by decide
  cleanRegionsPool_le := by decide
  numInMemBuffers_ne := Nat.one_ne_zero
  numPriorities_ne := Nat.one_ne_zero
  allocAlignSize := 32
  keyHash _ := 0
  allocAlignSize_pos := by decide

/-- A region is reclaimed and filled with one entry. A lookup reads the index, then the key
is removed and the region is flushed, and the lookup reads the entry from the device. -/
def removeDuringLookup (p : Priority twoRegions.toConfig) (rid : RegionId twoRegions.toConfig) :
    List (Action twoRegions (Fin 2)) :=
  [.getCleanRegion p, .evict rid, .block rid, .startWalk rid, .endWalk rid, .bumpSeqNumber rid,
    .reset rid, .returnRegion rid, .getCleanRegion p, .assignBuffer p,
    .insertAllocate 0 ⟨[1], [7]⟩ p, .continueInsert 0, .continueInsert 0, .continueInsert 0,
    .releaseRegion p, .loadSeqNumber 1 [1], .continueLookup 1 none, .remove [1],
    .flushBuffer rid, .detachBuffer rid, .continueLookup 1 none, .continueLookup 1 none,
    .continueLookup 1 none, .continueLookup 1 none]

theorem lookup_returns_last_insert_during_remove : ∃ s : State twoRegions (Fin 2),
      Transition.run step (init _ _) (removeDuringLookup ⟨0, by decide⟩ ⟨0, by decide⟩) = some s ∧
      ([1], [7], [.insert ⟨[1], [7]⟩]) ∈ s.returned ∧
      ∃ before after, [Update.insert ⟨[1], [7]⟩] = before ++ .insert ⟨[1], [7]⟩ :: after ∧
        ∀ u ∈ after, u.key ≠ [1] := by
  refine ⟨_, rfl, by decide +kernel, ?_⟩
  exact lookup_returns_last_insert _ _ (removeDuringLookup ⟨0, by decide⟩ ⟨0, by decide⟩) _ rfl
    [1] [7] _ (by decide +kernel)

/-- While no flush fails, each region has one owner, its counters are those of its open
descriptors, tracked regions are flushed or empty, and nobody has a region open that is reset. -/
theorem regions_accounted (cfg : Config) (T : Type) [Fintype T] [DecidableEq T]
    (as : List (Action cfg T)) : Transition.Always step (fun s =>
      Owned s.manager ∧ Accounted s.manager ∧
      (∀ rid ∈ s.manager.policy, (s.manager.regions rid).flushed = true ∨
        (s.manager.regions rid).lastEntryEndOffset = 0) ∧
      ∀ rid, (rid, .resetting true) ∈ s.manager.jobs →
        ∀ m, (s.manager.regions rid).active m = 0) (init cfg T) as :=
  Transition.always_of_invariant (fun s (hs : Inv s) => ⟨hs.phased.owned, hs.accounted,
    (hs.stages · .tracked), fun rid h => (hs.phased.fact rid (.job (.resetting true)) h).2⟩)
    step_inv init_inv

end HybridCache.BlockCache

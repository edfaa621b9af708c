import HybridCache.BlockCache

/-!
# What the large-item engine maintains

`Contents` relates the bytes of buffers and device to the slots that were allocated
and written. `Pointers` says that the index points to written slots that hold the last
insert of their key, and how far the walks have come. `Lookups` says what a lookup knows
about its address at each point.
-/
set_option linter.unusedSectionVars false

namespace HybridCache.BlockCache
open RegionManager Function

/-! ## The last update of a key -/

def lastStep (k : Key) (cur : Option Value) : Update → Option Value
  | .insert e => if e.key = k then some e.value else cur
  | .remove k' => if k' = k then none else cur

def lastUpdate (k : Key) (history : List Update) : Option Value :=
  history.foldl (lastStep k) none

lemma lastUpdate_append (k : Key) (history : List Update) (u : Update) :
    lastUpdate k (history ++ [u]) = lastStep k (lastUpdate k history) u := by
  rw [lastUpdate, lastUpdate, List.foldl_append, List.foldl_cons, List.foldl_nil]

lemma lastUpdate_append_of_ne {k : Key} {u : Update} (h : u.key ≠ k) (history : List Update) :
    lastUpdate k (history ++ [u]) = lastUpdate k history := by
  rw [lastUpdate_append]
  cases u <;> exact if_neg h

/-- The last update is an insert that no other update of the key follows. -/
lemma lastUpdate_eq_some {k : Key} {v : Value} {history : List Update}
    (h : lastUpdate k history = some v) :
    ∃ before after, history = before ++ .insert ⟨k, v⟩ :: after ∧ ∀ u ∈ after, u.key ≠ k := by
  induction history using List.reverseRecOn with
  | nil => simp [lastUpdate] at h
  | append_singleton history u ih =>
    by_cases hu : u.key = k
    · rw [lastUpdate_append] at h
      cases u with
      | remove k' => simp_all [lastStep, Update.key]
      | insert e =>
        obtain ⟨key, value⟩ := e
        exact ⟨history, [], by simp_all [lastStep, Update.key], by simp⟩
    · rw [lastUpdate_append_of_ne hu] at h
      obtain ⟨before, after, rfl, hafter⟩ := ih h
      exact ⟨before, after ++ [u], by simp, by grind⟩

variable {cfg : Config} {T : Type}

lemma serializedSize_pos (cfg : Config) (e : Entry) : 0 < serializedSize cfg e := by
  have hpos := cfg.allocAlignSize_pos
  apply Nat.mul_pos _ hpos
  apply Nat.div_pos _ hpos
  unfold entryDescSize
  omega

/-! ## Contents -/

def Live (s : State cfg T) (addr : Address cfg) (e : Entry) : Prop :=
  s.slots addr = some ⟨e, true⟩

def Op.writing : Op cfg → Option (Entry × Address cfg)
  | .allocated e addr => some (e, addr)
  | _ => none

def Op.written : Op cfg → Option (Entry × Address cfg)
  | .wrote e addr => some (e, addr)
  | _ => none

def Walk.writing : Walk cfg → Option (Entry × Address cfg)
  | .allocated _ e addr => some (e, addr)
  | _ => none

def Walk.written : Walk cfg → Option (Entry × Address cfg)
  | .wrote _ e addr => some (e, addr)
  | _ => none

def writing (s : State cfg T) : Holder cfg T → Option (Entry × Address cfg)
  | .inl t => (s.ops t).writing
  | .inr rid => (s.walks rid).writing

def written (s : State cfg T) : Holder cfg T → Option (Entry × Address cfg)
  | .inl t => (s.ops t).written
  | .inr rid => (s.walks rid).written

section Holders
variable {s : State cfg T} {rid : RegionId cfg}

section
variable [DecidableEq T] (s : State cfg T) (w : Walk cfg) (x : Holder cfg T)

lemma writing_setWalk :
    writing (setWalk s rid w) x = if x = .inr rid then w.writing else writing s x := by
  cases x <;> simp [writing, setWalk, update_apply, apply_ite Walk.writing]

lemma written_setWalk :
    written (setWalk s rid w) x = if x = .inr rid then w.written else written s x := by
  cases x <;> simp [written, setWalk, update_apply, apply_ite Walk.written]

end

lemma writing_setWalk_of_eq {w : Walk cfg} (hw : w.writing = (s.walks rid).writing)
    (x : Holder cfg T) : writing (setWalk s rid w) x = writing s x := by
  classical
  rw [writing_setWalk]
  split_ifs with hx
  · rw [hx, hw, writing]
  · rfl

lemma written_setWalk_of_none {w : Walk cfg} (hw : w.written = none) (x : Holder cfg T)
    (p : Entry × Address cfg) (hp : written (setWalk s rid w) x = some p) :
    written s x = some p := by
  classical
  grind [written_setWalk]

variable [DecidableEq T] {u : T}

lemma writing_setOp (s : State cfg T) (op : Op cfg) (x : Holder cfg T) :
    writing (setOp s u op) x = if x = .inl u then op.writing else writing s x := by
  cases x <;> simp [writing, setOp, update_apply, apply_ite Op.writing]

lemma written_setOp (s : State cfg T) (op : Op cfg) (x : Holder cfg T) :
    written (setOp s u op) x = if x = .inl u then op.written else written s x := by
  cases x <;> simp [written, setOp, update_apply, apply_ite Op.written]

lemma writing_setOp_of_eq {op : Op cfg} (hop : op.writing = (s.ops u).writing)
    (x : Holder cfg T) : writing (setOp s u op) x = writing s x := by
  rw [writing_setOp]
  split_ifs with hx
  · rw [hx, hop, writing]
  · rfl

lemma written_setOp_of_none {op : Op cfg} (hop : op.written = none) (x : Holder cfg T)
    (p : Entry × Address cfg) (hp : written (setOp s u op) x = some p) :
    written s x = some p := by
  grind [written_setOp]

end Holders

structure Tiled (cfg : Config) (slots : ℕ → Option Slot) (last : ℕ) : Prop where
  last_slot : last = 0 ∨ ∃ sl, slots last = some sl
  pos : ∀ off sl, slots off = some sl → 0 < off
  le_last : ∀ off sl, slots off = some sl → off ≤ last
  start_slot : ∀ off sl, slots off = some sl → serializedSize cfg sl.entry ≤ off ∧
    (off - serializedSize cfg sl.entry = 0 ∨
      ∃ sl', slots (off - serializedSize cfg sl.entry) = some sl')
  disjoint : ∀ off sl off' sl', slots off = some sl → slots off' = some sl' → off' < off →
    off' ≤ off - serializedSize cfg sl.entry

lemma Tiled.no_slots {slots : ℕ → Option Slot} (h : Tiled cfg slots 0) (off : ℕ) :
    slots off = none := by
  cases hsl : slots off with
  | none => rfl
  | some sl => grind [h.pos off sl hsl, h.le_last off sl hsl]

structure Contents (s : State cfg T) : Prop where
  backed : ∀ addr sl, s.slots addr = some sl →
    (s.manager.regions addr.1).hasBuffer = true ∨ (s.manager.regions addr.1).flushed = true
  buffered : ∀ addr e, (s.manager.regions addr.1).hasBuffer = true → Live s addr e →
    s.buffer addr.1 addr.2 = some e
  flushed : ∀ addr sl, (s.manager.regions addr.1).flushed = true → s.slots addr = some sl →
    sl.written = true ∧ s.device addr.1 addr.2 = some sl.entry
  tiled : ∀ rid, Tiled cfg (fun off => s.slots (rid, off))
    (s.manager.regions rid).lastEntryEndOffset
  unwritten : ∀ addr e, s.slots addr = some ⟨e, false⟩ → ∃ x, writing s x = some (e, addr)
  writing_open : ∀ x e addr, writing s x = some (e, addr) →
    s.manager.descriptors x = some ⟨addr.1, .Write, none⟩ ∧ s.slots addr = some ⟨e, false⟩
  writing_unique : ∀ x y e e' addr, writing s x = some (e, addr) →
    writing s y = some (e', addr) → x = y
  written_open : ∀ x e addr, written s x = some (e, addr) →
    s.manager.descriptors x = some ⟨addr.1, .Write, none⟩ ∧ Live s addr e

/-! ## Pointers and walks -/

/-- The part of a region that a walk has not left behind: the entries up to this offset,
which is the end of a slot unless the walk is at its end. -/
structure Ahead (s : State cfg T) (rid : RegionId cfg) (offset : ℕ) : Prop where
  drained : (rid, .drained) ∈ s.manager.jobs
  at_slot : offset = 0 ∨ ∃ e, Live s (rid, offset) e
  pointers : ∀ h off, s.index h = some (rid, off) → off ≤ offset
  image : ∀ off e, Live s (rid, off) e → s.image rid off = some e

def WalkFact (s : State cfg T) (rid : RegionId cfg) : Walk cfg → Prop
  | .idle => True
  | .visiting offset => Ahead s rid offset
  | .peeked offset e => Ahead s rid offset ∧ Live s (rid, offset) e
  | .allocated offset e _ => Ahead s rid offset ∧ Live s (rid, offset) e
  | .wrote offset e _ => Ahead s rid offset ∧ Live s (rid, offset) e
  | .unreplaced offset e => Ahead s rid offset ∧ Live s (rid, offset) e
  | .finishing offset e => Ahead s rid offset ∧ Live s (rid, offset) e ∧
    s.index (cfg.keyHash e.key) ≠ some (rid, offset)

def Released (s : State cfg T) (rid : RegionId cfg) : Prop :=
  (rid, .releasing true) ∈ s.manager.jobs ∨ (rid, .resetting true) ∈ s.manager.jobs

structure Pointers (s : State cfg T) : Prop where
  live : ∀ h addr, s.index h = some addr → ∃ e, Live s addr e ∧ cfg.keyHash e.key = h ∧
    lastUpdate e.key s.history = some e.value
  walks : ∀ rid, WalkFact s rid (s.walks rid)
  released : ∀ rid, Released s rid → ∀ h off, s.index h ≠ some (rid, off)

/-! ## Lookups -/

/-- The slot at an address holds an entry, and if that is one of the key, then the history
that the lookup saw ends, for this key, with its insert. -/
def Answers (s : State cfg T) (k : Key) (addr : Address cfg) (seen : List Update) : Prop :=
  ∃ e, Live s addr e ∧ (e.key = k → lastUpdate k seen = some e.value)

/-- The address of a lookup answers it, and its region is not about to be reset. -/
def Valid (s : State cfg T) (k : Key) (addr : Address cfg) (seen : List Update) : Prop :=
  Answers s k addr seen ∧ (addr.1, .resetting true) ∉ s.manager.jobs

def Served (g : Region) : Mode → Prop
  | .Write => False
  | .PhysRead => g.flushed = true
  | .InMemRead => g.hasBuffer = true

def LookupFact (s : State cfg T) (t : T) : Op cfg → Prop
  | .started _ n => n ≤ s.manager.seqNumber
  | .found k n addr seen => n ≤ s.manager.seqNumber ∧
    (n = s.manager.seqNumber → Valid s k addr seen)
  | .opened k n addr seen => n ≤ s.manager.seqNumber ∧
    ∃ m, s.manager.descriptors (.inl t) = some ⟨addr.1, m, some n⟩ ∧
      (n = s.manager.seqNumber → Valid s k addr seen ∧ Served (s.manager.regions addr.1) m)
  | .ready k addr seen => ∃ m, s.manager.descriptors (.inl t) = some ⟨addr.1, m, none⟩ ∧
    Answers s k addr seen ∧ Served (s.manager.regions addr.1) m
  | .finished k value seen => ∀ v, value = some v → lastUpdate k seen = some v
  | _ => True

structure Lookups (s : State cfg T) : Prop where
  ops : ∀ t, LookupFact s t (s.ops t)
  returned : ∀ k v seen, (k, v, seen) ∈ s.returned → lastUpdate k seen = some v

variable [Fintype T]

/-- What the region manager maintains by itself. -/
structure Managed (m : RegionManager.State cfg (Holder cfg T)) : Prop where
  phased : Phased m
  accounted : Accounted m
  stages : Facts StageFact m

structure Inv (s : State cfg T) : Prop extends Managed s.manager where
  contents : Contents s
  pointers : Pointers s
  lookups : Lookups s

lemma init_inv : Inv (init cfg T) where
  phased := init_phased
  accounted := init_accounted
  stages := init_stages
  contents := by
    constructor <;> simp [init, Live, writing, written, Op.writing, Op.written, Walk.writing, Walk.written]
    intro rid
    constructor <;> simp [RegionManager.init, Region.fresh]
  pointers := by
    constructor <;> simp [init, WalkFact]
  lookups := by
    constructor <;> simp [init, LookupFact]

/-! ## Regions that nobody has open -/

def Sealed (s : State cfg T) (rid : RegionId cfg) : Prop :=
  (rid, .drained) ∈ s.manager.jobs ∨ Released s rid

variable {s : State cfg T}

lemma Sealed.of_resetting {rid : RegionId cfg}
    (h : (rid, .resetting true) ∈ s.manager.jobs) : Sealed s rid := Or.inr (Or.inr h)

lemma Inv.sealed_inactive (h : Inv s) {rid : RegionId cfg}
    (hsealed : Sealed s rid) (m : Mode) : (s.manager.regions rid).active m = 0 := by
  rcases hsealed with hjob | hjob | hjob
  · exact (h.phased.fact rid (.job .drained) hjob).2 m
  · exact (h.phased.fact rid (.job (.releasing true)) hjob).2 m
  · exact (h.phased.fact rid (.job (.resetting true)) hjob).2 m

lemma Inv.open_not_sealed (h : Inv s) {x : Holder cfg T}
    {d : Descriptor cfg} (hd : s.manager.descriptors x = some d) : ¬ Sealed s d.id := by
  intro hsealed
  have hpos := h.accounted.active_pos hd
  rw [h.sealed_inactive hsealed] at hpos
  omega

/-- The slots of a region without writers are all written. -/
lemma Inv.live_of_slot (h : Inv s) (addr : Address cfg)
    (hwrite : (s.manager.regions addr.1).active .Write = 0) {sl : Slot}
    (hsl : s.slots addr = some sl) : Live s addr sl.entry := by
  obtain ⟨e, w⟩ := sl
  cases w with
  | true => exact hsl
  | false =>
    obtain ⟨x, hx⟩ := h.contents.unwritten addr e hsl
    have hpos := h.accounted.active_pos (h.contents.writing_open x e addr hx).1
    simp only [hwrite] at hpos
    omega

lemma Live.unique {addr : Address cfg} {e e' : Entry} (h : Live s addr e)
    (h' : Live s addr e') : e = e' := by
  grind [Live]

/-! ## Frames -/

/-- The regions keep their slots, and lose a buffer only after the flush, when nobody
reads it. -/
structure RegionsFrame (m m' : RegionManager.State cfg (Holder cfg T)) : Prop where
  last : ∀ rid, (m'.regions rid).lastEntryEndOffset = (m.regions rid).lastEntryEndOffset
  flushed : ∀ rid, (m'.regions rid).flushed = (m.regions rid).flushed
  buffer : ∀ rid, (m'.regions rid).hasBuffer = (m.regions rid).hasBuffer ∨
    (m'.regions rid).hasBuffer = false ∧ (m.regions rid).flushed = true ∧
      (m.regions rid).active .InMemRead = 0

/-- No walk starts or ends, and a region about to be reset makes the sequence numbers of
earlier lookups old. -/
structure JobsFrame (m m' : RegionManager.State cfg (Holder cfg T)) : Prop where
  seq_le : m.seqNumber ≤ m'.seqNumber
  resetting : m'.seqNumber = m.seqNumber →
    ∀ rid, (rid, .resetting true) ∈ m'.jobs → (rid, .resetting true) ∈ m.jobs
  drained : ∀ rid, (rid, .drained) ∈ m.jobs → (rid, .drained) ∈ m'.jobs
  released : ∀ rid, (rid, .releasing true) ∈ m'.jobs ∨ (rid, .resetting true) ∈ m'.jobs →
    (rid, .releasing true) ∈ m.jobs ∨ (rid, .resetting true) ∈ m.jobs

/-- What a step leaves to walks and lookups. -/
structure Frame (s t : State cfg T) : Prop where
  seq_le : s.manager.seqNumber ≤ t.manager.seqNumber
  resetting : t.manager.seqNumber = s.manager.seqNumber →
    ∀ rid, (rid, .resetting true) ∈ t.manager.jobs → (rid, .resetting true) ∈ s.manager.jobs
  served : ∀ rid m, 0 < (s.manager.regions rid).active m → Served (s.manager.regions rid) m →
    Served (t.manager.regions rid) m
  live : ∀ addr e, (addr.1, .resetting true) ∉ s.manager.jobs → Live s addr e → Live t addr e
  live_back : ∀ rid, (rid, .drained) ∈ s.manager.jobs →
    ∀ off e, Live t (rid, off) e → Live s (rid, off) e
  pointer : ∀ rid, Sealed s rid → ∀ h off, t.index h = some (rid, off) →
    s.index h = some (rid, off)
  image : ∀ rid, (rid, .drained) ∈ s.manager.jobs → t.image rid = s.image rid
  drained : ∀ rid, (rid, .drained) ∈ s.manager.jobs → t.walks rid = .idle ∨
    (rid, .drained) ∈ t.manager.jobs
  released : ∀ rid, Released t rid → Sealed s rid ∧ ∀ h off, s.index h ≠ some (rid, off)

section Frames
variable {s t : State cfg T} {rid : RegionId cfg} {addr : Address cfg}

lemma RegionsFrame.served {m m' : RegionManager.State cfg (Holder cfg T)}
    (h : RegionsFrame m m') {mode : Mode}
    (hpos : 0 < (m.regions rid).active mode) (hserved : Served (m.regions rid) mode) :
    Served (m'.regions rid) mode := by
  cases mode with
  | Write => exact hserved
  | PhysRead => exact (h.flushed rid).trans hserved
  | InMemRead =>
    rcases h.buffer rid with hb | ⟨-, -, hzero⟩
    · exact hb.trans hserved
    · omega

lemma Frame.of_jobs (h : Pointers s) (hjobs : JobsFrame s.manager t.manager)
    (hserved : ∀ rid m, 0 < (s.manager.regions rid).active m → Served (s.manager.regions rid) m →
      Served (t.manager.regions rid) m)
    (hlive : ∀ addr e, (addr.1, .resetting true) ∉ s.manager.jobs → Live s addr e → Live t addr e)
    (hback : ∀ rid, (rid, .drained) ∈ s.manager.jobs →
      ∀ off e, Live t (rid, off) e → Live s (rid, off) e)
    (hpointer : ∀ rid, Sealed s rid → ∀ h off, t.index h = some (rid, off) →
      s.index h = some (rid, off))
    (himage : ∀ rid, (rid, .drained) ∈ s.manager.jobs → t.image rid = s.image rid) :
    Frame s t where
  seq_le := hjobs.seq_le
  resetting := hjobs.resetting
  served := hserved
  live := hlive
  live_back := hback
  pointer := hpointer
  image := himage
  drained rid hrid := Or.inr (hjobs.drained rid hrid)
  released rid hrid := ⟨Or.inr (hjobs.released rid hrid), h.released rid (hjobs.released rid hrid)⟩

/-- The step changes no slot. -/
lemma Inv.frame_of_slots (h : Inv s) (hregions : RegionsFrame s.manager t.manager)
    (hjobs : JobsFrame s.manager t.manager) (hslots : t.slots = s.slots)
    (hpointer : ∀ rid, Sealed s rid → ∀ h off, t.index h = some (rid, off) →
      s.index h = some (rid, off))
    (himage : ∀ rid, (rid, .drained) ∈ s.manager.jobs → t.image rid = s.image rid) :
    Frame s t := by
  refine .of_jobs h.pointers hjobs (fun rid m => hregions.served) ?_ ?_ hpointer himage
  · intro addr e _ hlive
    rw [Live, hslots]
    exact hlive
  · intro rid _ off e hlive
    rw [Live, hslots] at hlive
    exact hlive

lemma Contents.of_slots (h : Contents s) (hslots : t.slots = s.slots)
    (hlast : ∀ rid, (t.manager.regions rid).lastEntryEndOffset =
      (s.manager.regions rid).lastEntryEndOffset)
    (hbacked : ∀ addr sl, s.slots addr = some sl →
      (t.manager.regions addr.1).hasBuffer = true ∨ (t.manager.regions addr.1).flushed = true)
    (hbuffered : ∀ addr e, (t.manager.regions addr.1).hasBuffer = true → Live s addr e →
      t.buffer addr.1 addr.2 = some e)
    (hflushed : ∀ addr sl, (t.manager.regions addr.1).flushed = true → s.slots addr = some sl →
      sl.written = true ∧ t.device addr.1 addr.2 = some sl.entry)
    (hwriting : ∀ x, writing t x = writing s x)
    (hwritten : ∀ x p, written t x = some p → written s x = some p)
    (hdesc : ∀ x d, s.manager.descriptors x = some d → writing t x ≠ none ∨ written t x ≠ none →
      t.manager.descriptors x = some d) : Contents t where
  backed addr sl hsl := hbacked addr sl (hslots ▸ hsl)
  buffered addr e hb hlive := hbuffered addr e hb (by rw [Live, hslots] at hlive; exact hlive)
  flushed addr sl hfl hsl := hflushed addr sl hfl (hslots ▸ hsl)
  tiled rid := by
    rw [hslots, hlast]
    exact h.tiled rid
  unwritten addr e hsl := by
    rw [hslots] at hsl
    obtain ⟨x, hx⟩ := h.unwritten addr e hsl
    exact ⟨x, (hwriting x).trans hx⟩
  writing_open x e addr hx := by
    have hold := h.writing_open x e addr ((hwriting x).symm.trans hx)
    rw [hslots]
    exact ⟨hdesc x _ hold.1 (Or.inl (by simp [hx])), hold.2⟩
  writing_unique x y e e' addr hx hy :=
    h.writing_unique x y e e' addr ((hwriting x).symm.trans hx) ((hwriting y).symm.trans hy)
  written_open x e addr hx := by
    have hold := h.written_open x e addr (hwritten x _ hx)
    rw [Live, hslots]
    exact ⟨hdesc x _ hold.1 (Or.inr (by simp [hx])), hold.2⟩

lemma Contents.frame (h : Contents s) (hregions : RegionsFrame s.manager t.manager)
    (hslots : t.slots = s.slots) (hbuffer : t.buffer = s.buffer) (hdevice : t.device = s.device)
    (hwriting : ∀ x, writing t x = writing s x)
    (hwritten : ∀ x p, written t x = some p → written s x = some p)
    (hdesc : ∀ x d, s.manager.descriptors x = some d → writing t x ≠ none ∨ written t x ≠ none →
      t.manager.descriptors x = some d) : Contents t := by
  refine h.of_slots hslots hregions.last ?_ ?_ ?_ hwriting hwritten hdesc
  · intro addr sl hsl
    rw [hregions.flushed]
    rcases hregions.buffer addr.1 with hb | ⟨-, hflushed, -⟩
    · rw [hb]
      exact h.backed addr sl hsl
    · exact Or.inr hflushed
  · intro addr e hb hlive
    rw [hbuffer]
    rcases hregions.buffer addr.1 with hb' | ⟨hnone, -⟩
    · exact h.buffered addr e (hb' ▸ hb) hlive
    · rw [hnone] at hb
      cases hb
  · intro addr sl hflushed hsl
    rw [hregions.flushed] at hflushed
    rw [hdevice]
    exact h.flushed addr sl hflushed hsl

lemma Ahead.frame {offset : ℕ} (hf : Frame s t) (hjob : (rid, .drained) ∈ t.manager.jobs)
    (hreset : (rid, .resetting true) ∉ s.manager.jobs) (h : Ahead s rid offset) :
    Ahead t rid offset where
  drained := hjob
  at_slot := h.at_slot.imp_right fun ⟨e, he⟩ => ⟨e, hf.live _ e hreset he⟩
  pointers k off hk := h.pointers k off (hf.pointer rid (Or.inl h.drained) k off hk)
  image off e hlive := by
    rw [hf.image rid h.drained]
    exact h.image off e (hf.live_back rid h.drained off e hlive)

lemma WalkFact.drained {w : Walk cfg} (h : WalkFact s rid w) :
    w = .idle ∨ (rid, .drained) ∈ s.manager.jobs := by
  cases w with
  | idle => exact Or.inl rfl
  | visiting offset => exact Or.inr (Ahead.drained h)
  | peeked offset e | allocated offset e addr | wrote offset e addr | unreplaced offset e
  | finishing offset e => exact Or.inr h.1.drained

lemma Inv.not_resetting_of_drained (h : Inv s)
    (hjob : (rid, .drained) ∈ s.manager.jobs) : (rid, .resetting true) ∉ s.manager.jobs := by
  intro hreset
  have heq := h.phased.owned.phase_unique hjob hreset
  cases heq

lemma WalkFact.frame (h : Inv s) (hf : Frame s t) {w : Walk cfg}
    (hjob : w = .idle ∨ (rid, .drained) ∈ t.manager.jobs) (hw : WalkFact s rid w) :
    WalkFact t rid w := by
  rcases hjob with rfl | hjob
  · trivial
  have hahead : ∀ {offset}, Ahead s rid offset → Ahead t rid offset := fun ha =>
    ha.frame hf hjob (h.not_resetting_of_drained ha.drained)
  have hlive : ∀ {offset e}, Ahead s rid offset → Live s (rid, offset) e →
      Live t (rid, offset) e := fun ha =>
    hf.live _ _ (h.not_resetting_of_drained ha.drained)
  cases w with
  | idle => trivial
  | visiting offset => exact hahead hw
  | peeked offset e | allocated offset e addr | wrote offset e addr | unreplaced offset e =>
    exact ⟨hahead hw.1, hlive hw.1 hw.2⟩
  | finishing offset e =>
    refine ⟨hahead hw.1, hlive hw.1 hw.2.1, ?_⟩
    intro hindex
    exact hw.2.2 (hf.pointer rid (Or.inl hw.1.drained) _ _ hindex)

lemma Pointers.frame (h : Inv s) (hf : Frame s t)
    (hlive : ∀ k addr, t.index k = some addr → ∃ e, Live t addr e ∧ cfg.keyHash e.key = k ∧
      lastUpdate e.key t.history = some e.value)
    (hwalks : ∀ rid, t.walks rid = s.walks rid ∨ WalkFact t rid (t.walks rid)) : Pointers t where
  live := hlive
  walks rid := by
    rcases hwalks rid with hsame | hfact
    · have hw := h.pointers.walks rid
      rw [← hsame] at hw
      refine hw.frame h hf ?_
      rcases hw.drained with hidle | hjob
      · exact Or.inl hidle
      · exact hf.drained rid hjob
    · exact hfact
  released rid hrid k off hk := by
    obtain ⟨hsealed, hnone⟩ := hf.released rid hrid
    exact hnone k off (hf.pointer rid hsealed k off hk)

lemma Inv.live_of_index (h : Inv s) (hf : Frame s t) (hhistory : t.history = s.history) {k : ℕ}
    (hk : s.index k = some addr) :
    ∃ e, Live t addr e ∧ cfg.keyHash e.key = k ∧ lastUpdate e.key t.history = some e.value := by
  obtain ⟨e, hlive, hhash, hlast⟩ := h.pointers.live k addr hk
  refine ⟨e, hf.live addr e ?_ hlive, hhash, hhistory ▸ hlast⟩
  intro hreset
  exact h.pointers.released addr.1 (Or.inr hreset) k addr.2 hk

lemma Answers.frame (hf : Frame s t) {k : Key} {seen : List Update}
    (hreset : (addr.1, .resetting true) ∉ s.manager.jobs) (h : Answers s k addr seen) :
    Answers t k addr seen := by
  obtain ⟨e, hlive, hlast⟩ := h
  exact ⟨e, hf.live addr e hreset hlive, hlast⟩

lemma Valid.frame (hf : Frame s t) (hseq : t.manager.seqNumber = s.manager.seqNumber) {k : Key}
    {seen : List Update} (h : Valid s k addr seen) : Valid t k addr seen :=
  ⟨h.1.frame hf h.2, fun hreset => h.2 (hf.resetting hseq _ hreset)⟩

lemma LookupFact.frame (h : Inv s) (hf : Frame s t) {u : T} {op : Op cfg}
    (hdesc : t.manager.descriptors (.inl u) = s.manager.descriptors (.inl u))
    (hop : LookupFact s u op) : LookupFact t u op := by
  have hle := hf.seq_le
  cases op with
  | started k n => exact le_trans hop hle
  | found k n addr seen =>
    refine ⟨hop.1.trans hle, ?_⟩
    intro hn
    have hold := hop.1
    exact (hop.2 (by omega)).frame hf (by omega)
  | opened k n addr seen =>
    obtain ⟨hold, m, hd, hvalid⟩ := hop
    refine ⟨hold.trans hle, m, hdesc.trans hd, ?_⟩
    intro hn
    obtain ⟨hv, hserved⟩ := hvalid (by omega)
    exact ⟨hv.frame hf (by omega), hf.served _ m (h.accounted.active_pos hd) hserved⟩
  | ready k addr seen =>
    obtain ⟨m, hd, hanswers, hserved⟩ := hop
    refine ⟨m, hdesc.trans hd, ?_, hf.served _ m (h.accounted.active_pos hd) hserved⟩
    -- the open descriptor keeps the region from being reset
    exact hanswers.frame hf fun hreset => h.open_not_sealed hd (.of_resetting hreset)
  | finished k value seen => exact hop
  | idle | allocated | wrote | indexed => trivial

lemma Lookups.frame (h : Inv s) (hf : Frame s t) (hops : ∀ u, t.ops u = s.ops u ∧
      t.manager.descriptors (.inl u) = s.manager.descriptors (.inl u) ∨ LookupFact t u (t.ops u))
    (hreturned : ∀ k v seen, (k, v, seen) ∈ t.returned →
      (k, v, seen) ∈ s.returned ∨ lastUpdate k seen = some v) : Lookups t where
  ops u := by
    rcases hops u with ⟨hsame, hdesc⟩ | hfact
    · rw [hsame]
      exact (h.lookups.ops u).frame h hf hdesc
    · exact hfact
  returned k v seen hmem := by
    rcases hreturned k v seen hmem with hold | hlast
    · exact h.lookups.returned k v seen hold
    · exact hlast

end Frames

end HybridCache.BlockCache

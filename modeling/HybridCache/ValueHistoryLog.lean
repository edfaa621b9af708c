import HybridCache.ValueHistoryScan

/-!
# The log follows the operations

Every index up to the end of the log is the begin or the end of exactly one operation, and the
records that have not been dropped are those of their operations. Every call keeps this,
whether or not it throws.
-/
namespace HybridCache.ValueHistory
open List Nat
open scoped List

namespace Operation

def beginEvent (o : Operation) : Event :=
  match o.kind with
  | .get => if o.missed = true then .kBeginMiss else .kBeginGet
  | .set => .kBeginSet
  | .delete => .kBeginDelete

def endEvent (o : Operation) : Event :=
  match o.kind with
  | .get => if o.found = true then .kEndGet else .kEndMiss
  | .set => .kEndSet
  | .delete => .kEndDelete

def beginRecord (o : Operation) : LogRecord :=
  ⟨o.beginEvent, o.stop.getD o.start, if o.kind = .set then o.value else 0⟩

def endRecord (o : Operation) : LogRecord :=
  ⟨o.endEvent, o.start, if o.kind = .delete then 0 else o.value⟩

def openSet (o : Operation) : Bool := decide (o.kind = .set ∧ o.stop = none)

def stamps (o : Operation) : List ℕ := o.start :: o.stop.toList

lemma mem_stamps {o : Operation} {i : ℕ} : i ∈ o.stamps ↔ o.start = i ∨ o.stop = some i := by
  rw [stamps, mem_cons, Option.mem_toList, eq_comm]

end Operation

section Events
variable (o : Operation)

lemma isWriteEnd_beginEvent : isWriteEnd o.beginEvent = false := by
  unfold Operation.beginEvent
  cases o.kind <;> cases o.missed <;> rfl

lemma isWriteEnd_endEvent (h : o.stop.isSome = true) : isWriteEnd o.endEvent = o.isWrite := by
  unfold Operation.endEvent Operation.isWrite Operation.missed
  cases o.kind <;> cases o.found <;> simp [h, isWriteEnd]

lemma isSet_beginEvent : isSet o.beginEvent = decide (o.kind = .set) := by
  unfold Operation.beginEvent
  cases o.kind <;> cases o.missed <;> rfl

lemma isSet_endEvent : isSet o.endEvent = decide (o.kind = .set) := by
  unfold Operation.endEvent
  cases o.kind <;> cases o.found <;> rfl

lemma isGet_beginEvent : isGet o.beginEvent = (decide (o.kind = .get) && !o.missed) := by
  unfold Operation.beginEvent
  cases o.kind <;> cases o.missed <;> rfl

end Events

def History.kept (h : History) : ℕ :=
  if h.log.size = kCapacity then h.log.first + 1 else h.log.first

structure Logged (h : History) (ops : List Operation) : Prop where
  ordered : h.log.first ≤ h.log.last
  fits : h.log.last - h.log.first ≤ kCapacity
  indices : (ops.flatMap Operation.stamps).Perm (List.range h.log.last)
  started : ∀ o ∈ ops, ∀ j, o.stop = some j → o.start < j
  begins : ∀ o ∈ ops, h.log.first ≤ o.start → h.log.slot o.start = o.beginRecord
  ends : ∀ o ∈ ops, ∀ j, o.stop = some j → h.log.first ≤ j → h.log.slot j = o.endRecord
  openSets : h.openSetCount = ops.countP Operation.openSet

lemma logged_empty : Logged .empty [] :=
  ⟨le_rfl, zero_le _, .refl _, by simp, by simp, by simp, rfl⟩

namespace Logged

variable {h : History} {ops : List Operation} {o : Operation} {i j : ℕ}

section
variable (hl : Logged h ops)
include hl

/-- The index belongs to an operation. -/
lemma lt_last_iff : i < h.log.last ↔ ∃ o ∈ ops, o.start = i ∨ o.stop = some i := by
  rw [← mem_range, ← hl.indices.mem_iff, mem_flatMap]
  simp only [Operation.mem_stamps]

lemma start_lt (ho : o ∈ ops) : o.start < h.log.last := hl.lt_last_iff.2 ⟨o, ho, .inl rfl⟩

lemma stop_lt (ho : o ∈ ops) (hj : o.stop = some j) : j < h.log.last :=
  hl.lt_last_iff.2 ⟨o, ho, .inr hj⟩

lemma indices_nodup : (ops.flatMap Operation.stamps).Nodup :=
  hl.indices.nodup_iff.2 nodup_range

lemma owner_unique {w : Operation} (ho : o ∈ ops) (hw : w ∈ ops)
    (hoi : i ∈ o.stamps) (hwi : i ∈ w.stamps) : o = w := by
  by_contra hne
  have hdisjoint := (nodup_flatMap.1 hl.indices_nodup).2
  have hsymm : Std.Symm (Function.onFun List.Disjoint Operation.stamps) := ⟨fun _ _ h => h.symm⟩
  exact hdisjoint.forall ho hw hne hoi hwi

end

end Logged

namespace Logged

variable {h : History} {ops : List Operation} {i : ℕ}

section
variable (hl : Logged h ops) (hfirst : h.log.first ≤ i) (hlast : i < h.log.last)
include hl hfirst hlast

lemma slot_cases :
    ∃ o ∈ ops, (o.start = i ∧ h.log.slot i = o.beginRecord) ∨
      (o.stop = some i ∧ h.log.slot i = o.endRecord) := by
  obtain ⟨o, ho, rfl | hstop⟩ := hl.lt_last_iff.1 hlast
  · exact ⟨o, ho, .inl ⟨rfl, hl.begins o ho hfirst⟩⟩
  · exact ⟨o, ho, .inr ⟨hstop, hl.ends o ho i hstop hfirst⟩⟩

lemma isWriteEnd_iff :
    isWriteEnd (h.log.slot i).event = true ↔
      ∃ w ∈ ops, w.isWrite = true ∧ w.stop = some i ∧ (h.log.slot i).other = w.start := by
  constructor
  · intro hw
    obtain ⟨w, hmem, ⟨-, hslot⟩ | ⟨hstop, hslot⟩⟩ := hl.slot_cases hfirst hlast
    · rw [hslot, Operation.beginRecord, isWriteEnd_beginEvent] at hw
      cases hw
    · rw [hslot, Operation.endRecord, isWriteEnd_endEvent w (by simp [hstop])] at hw
      exact ⟨w, hmem, hw, hstop, by rw [hslot]; rfl⟩
  · rintro ⟨w, hmem, hw, hstop, -⟩
    rw [hl.ends w hmem i hstop hfirst, Operation.endRecord, isWriteEnd_endEvent w (by simp [hstop])]
    exact hw

end

lemma toOrdered (hl : Logged h ops) (hsmall : h.log.last ≤ 2 ^ 32) : Ordered h h.log.last := by
  refine ⟨le_rfl, hsmall, fun k hfirst hlast hw => ?_⟩
  obtain ⟨w, hmem, -, hstop, hother⟩ := (hl.isWriteEnd_iff hfirst hlast).1 hw
  rw [hother]
  exact hl.started w hmem k hstop

end Logged

/-! ## Writing a record -/

def History.trimmed (h : History) : RingBuffer LogRecord kCapacity :=
  { h.log with first := h.kept }

theorem History.cleanupIfFull_eq (h : History) : h.cleanupIfFull = ⟨h.trimmed, h.openSetCount⟩ := by
  rw [cleanupIfFull, trimmed, kept]
  split_ifs with hfull
  · have hpos : ¬ h.log.last ≤ h.log.first := by
      unfold RingBuffer.size kCapacity at hfull
      omega
    rw [RingBuffer.read, if_neg hpos]
  · rfl

namespace Logged

variable {h : History} {ops : List Operation}

lemma first_le_kept (h : History) : h.log.first ≤ h.kept := by
  rw [History.kept]
  split_ifs <;> omega

section
variable (hl : Logged h ops)
include hl

lemma room : h.kept ≤ h.log.last ∧ h.log.last - h.kept < kCapacity := by
  have hfits := hl.fits
  have hordered := hl.ordered
  have hpos : 0 < kCapacity := by decide
  rw [History.kept, RingBuffer.size]
  split_ifs <;> omega

/-- Dropping the oldest record. -/
lemma cleanup : Logged h.cleanupIfFull ops := by
  have hle := first_le_kept h
  have hroom := hl.room
  rw [History.cleanupIfFull_eq]
  exact ⟨hroom.1, hroom.2.le, hl.indices, hl.started, fun o ho hk => hl.begins o ho (hle.trans hk),
    fun o ho j hj hk => hl.ends o ho j hj (hle.trans hk), hl.openSets⟩

lemma write_trimmed (r : LogRecord) :
    h.trimmed.write r = some (h.log.last, h.trimmed.push r) :=
  RingBuffer.write_eq hl.room.2

lemma slot_push_trimmed (r : LogRecord) {index : ℕ} (hk : h.kept ≤ index)
    (hle : index ≤ h.log.last) :
    (h.trimmed.push r).slot index = if index = h.log.last then r else h.log.slot index :=
  RingBuffer.slot_push hl.room.2 hk hle

end

end Logged

/-- After the oldest record is dropped if necessary, `next` has the new record `re` at the end and
`rb` at the index `i`. -/
structure Extends (h next : History) (i : ℕ) (rb re : LogRecord) : Prop where
  first : next.log.first = h.kept
  last : next.log.last = h.log.last + 1
  slot : ∀ index, h.kept ≤ index → index ≤ h.log.last → next.log.slot index =
    if index = h.log.last then re else if index = i then rb else h.log.slot index

variable {h : History} {ops : List Operation} {i : ℕ}

theorem beginOperation_spec (hl : Logged h ops)
    (hsmall : h.log.last < 2 ^ 32) (event : Event) (value opened : ℕ) :
    ∃ next, h.beginOperation event value opened = (some h.log.last, next) ∧
      Extends h next h.log.last ⟨event, h.log.last, value⟩ ⟨event, h.log.last, value⟩ ∧
      next.openSetCount = h.openSetCount + opened := by
  have hu : u32 h.log.last = h.log.last := mod_eq_of_lt hsmall
  have hother : u32 h.trimmed.last = h.log.last := hu
  simp only [History.beginOperation, History.cleanupIfFull_eq, hother, hl.write_trimmed, hu]
  refine ⟨_, rfl, ⟨rfl, rfl, fun index hk hle => ?_⟩, rfl⟩
  rw [hl.slot_push_trimmed _ hk hle]
  split_ifs <;> rfl

/-- An end whose begin record has been dropped throws. -/
theorem endOperation_throws (hi : i < h.kept) (end_ : LogRecord → LogRecord) :
    h.endOperation i end_ = (none, h.cleanupIfFull) := by
  have hget : h.cleanupIfFull.log.getAt i = none := by
    rw [History.cleanupIfFull_eq]
    exact if_neg fun hin => absurd hin.1 (Nat.not_le_of_lt hi)
  simp only [History.endOperation, hget]

theorem endOperation_spec (hl : Logged h ops)
    (hsmall : h.log.last < 2 ^ 32) (hi : h.kept ≤ i) (hlast : i < h.log.last)
    (end_ : LogRecord → LogRecord) :
    ∃ next, h.endOperation i end_ =
        (some (h.log.last, { h.log.slot i with other := h.log.last }), next) ∧
      Extends h next i { h.log.slot i with other := h.log.last } (end_ (h.log.slot i)) ∧
      next.openSetCount = h.openSetCount := by
  have hroom := hl.room
  have hu : u32 h.log.last = h.log.last := mod_eq_of_lt hsmall
  have hget : h.trimmed.getAt i = some (h.log.slot i) := RingBuffer.getAt_eq hi hlast
  have hset (r r' : LogRecord) :
      (h.trimmed.push r).setAt i r' = some ((h.trimmed.push r).put i r') :=
    RingBuffer.setAt_eq hi (lt_succ_of_lt hlast)
  simp only [History.endOperation, History.cleanupIfFull_eq, hget, hl.write_trimmed, hset, hu]
  refine ⟨_, rfl, ⟨rfl, rfl, fun index hk hle => ?_⟩, rfl⟩
  -- the new record is at the end, so the begin record is another one
  have hsize (r : LogRecord) : (h.trimmed.push r).last - (h.trimmed.push r).first ≤ kCapacity := by
    change h.log.last + 1 - h.kept ≤ kCapacity
    omega
  rw [RingBuffer.slot_put (hsize _) hi (lt_succ_of_lt hlast) hk (lt_succ_of_le hle),
    hl.slot_push_trimmed _ hk hle]
  by_cases he : index = i
  · rw [if_pos he, if_neg (by omega), if_pos he]
  · rw [if_neg he, if_neg he]

namespace Logged

variable {h next : History} {ops : List Operation} {o o' : Operation}

theorem begun (hl : Logged h ops) (hstart : o.start = h.log.last) (hstop : o.stop = none)
    (hext : Extends h next h.log.last o.beginRecord o.beginRecord)
    (hopen : next.openSetCount = h.openSetCount + [o].countP Operation.openSet) :
    Logged next (ops ++ [o]) := by
  have hroom := hl.room
  have hkept := first_le_kept h
  have hfirst := hext.first
  have hlast := hext.last
  -- the records of the operations before are where they were
  have hold : ∀ i, i < h.log.last → h.kept ≤ i → next.log.slot i = h.log.slot i := by
    intro i hi hk
    rw [hext.slot i hk hi.le, if_neg hi.ne, if_neg hi.ne]
  have hmem : ∀ w ∈ ops ++ [o], w ∈ ops ∨ w = o := by
    simp
  refine ⟨by omega, by omega, ?_, ?_, ?_, ?_, ?_⟩
  · rw [hlast, range_succ, flatMap_append]
    have hsingle : [o].flatMap Operation.stamps = [h.log.last] := by
      simp [Operation.stamps, hstop, hstart]
    rw [hsingle]
    exact hl.indices.append_right _
  · intro w hw j hj
    rcases hmem w hw with hw | rfl
    · exact hl.started w hw j hj
    · rw [hstop] at hj
      cases hj
  · intro w hw hk
    rw [hfirst] at hk
    rcases hmem w hw with hw | rfl
    · rw [hold _ (hl.start_lt hw) hk]
      exact hl.begins w hw (hkept.trans hk)
    · rw [hext.slot _ hk hstart.le, if_pos hstart]
  · intro w hw j hj hk
    rw [hfirst] at hk
    rcases hmem w hw with hw | rfl
    · rw [hold _ (hl.stop_lt hw hj) hk]
      exact hl.ends w hw j hj (hkept.trans hk)
    · rw [hstop] at hj
      cases hj
  · rw [hopen, hl.openSets, countP_append]

theorem ended (hl : Logged h ops) {k : ℕ} (hk : ops[k]? = some o) (hstop : o.stop = none)
    (hstart : o'.start = o.start) (hstop' : o'.stop = some h.log.last)
    (hext : Extends h next o.start o'.beginRecord o'.endRecord)
    (hopen : next.openSetCount = h.openSetCount - [o].countP Operation.openSet) :
    Logged next (ops.set k o') := by
  have hroom := hl.room
  have hkept := first_le_kept h
  have hfirst := hext.first
  have hlast := hext.last
  obtain ⟨hlt, hget⟩ := List.getElem?_eq_some_iff.1 hk
  obtain ⟨l₁, l₂, hops, -, hset⟩ :
      ∃ l₁ l₂, ops = l₁ ++ ops[k] :: l₂ ∧ l₁.length = k ∧ ops.set k o' = l₁ ++ o' :: l₂ :=
    exists_of_set hlt
  rw [hget] at hops
  have hperm : ops.Perm (o :: (l₁ ++ l₂)) := hops ▸ perm_middle
  have hperm' : (ops.set k o').Perm (o' :: (l₁ ++ l₂)) := hset ▸ perm_middle
  have ho : o ∈ ops := hperm.mem_iff.2 mem_cons_self
  have hmem : ∀ w ∈ ops.set k o', w ∈ l₁ ++ l₂ ∨ w = o' := by
    intro w hw
    exact (mem_cons.1 (hperm'.mem_iff.1 hw)).symm
  have hsub : ∀ w ∈ l₁ ++ l₂, w ∈ ops := fun w hw => hperm.mem_iff.2 (mem_cons_of_mem _ hw)
  -- no other operation has the index of the begin record
  have hne : ∀ w ∈ l₁ ++ l₂, ∀ i ∈ w.stamps, i ≠ o.start := by
    rintro w hw i hi rfl
    have hnodup := ((hperm.flatMap_right Operation.stamps).nodup_iff).1 hl.indices_nodup
    rw [flatMap_cons, nodup_append] at hnodup
    exact hnodup.2.2 _ mem_cons_self _ (mem_flatMap.2 ⟨w, hw, hi⟩) rfl
  have hold : ∀ w ∈ l₁ ++ l₂, ∀ i ∈ w.stamps, h.kept ≤ i →
      next.log.slot i = h.log.slot i := by
    intro w hw i hi hki
    have hi' : i < h.log.last := hl.lt_last_iff.2 ⟨w, hsub w hw, Operation.mem_stamps.1 hi⟩
    rw [hext.slot i hki hi'.le, if_neg hi'.ne, if_neg (hne w hw i hi)]
  refine ⟨by omega, by omega, ?_, ?_, ?_, ?_, ?_⟩
  · have hstamps : o'.stamps.Perm (h.log.last :: o.stamps) := by
      simp only [Operation.stamps, hstart, hstop, hstop', Option.toList_some, Option.toList_none]
      exact .swap _ _ _
    calc (ops.set k o').flatMap Operation.stamps
      _ ~ (o' :: (l₁ ++ l₂)).flatMap Operation.stamps := hperm'.flatMap_right _
      _ ~ h.log.last :: (o :: (l₁ ++ l₂)).flatMap Operation.stamps := by
        exact hstamps.append_right _
      _ ~ h.log.last :: range h.log.last :=
        ((hperm.flatMap_right _).symm.trans hl.indices).cons _
      _ ~ range next.log.last := by
        rw [hlast, range_succ]
        exact (perm_append_singleton _ _).symm
  · intro w hw j hj
    rcases hmem w hw with hw | rfl
    · exact hl.started w (hsub w hw) j hj
    · obtain rfl : h.log.last = j := by simpa [hstop'] using hj
      rw [hstart]
      exact hl.start_lt ho
  · intro w hw hfw
    rw [hfirst] at hfw
    rcases hmem w hw with hw | rfl
    · rw [hold w hw _ (Operation.mem_stamps.2 (.inl rfl)) hfw]
      exact hl.begins w (hsub w hw) (hkept.trans hfw)
    · have hlt := hl.start_lt ho
      rw [hstart] at hfw ⊢
      rw [hext.slot _ hfw hlt.le, if_neg hlt.ne, if_pos rfl]
  · intro w hw j hj hfj
    rw [hfirst] at hfj
    rcases hmem w hw with hw | rfl
    · rw [hold w hw j (Operation.mem_stamps.2 (.inr hj)) hfj]
      exact hl.ends w (hsub w hw) j hj (hkept.trans hfj)
    · obtain rfl : h.log.last = j := by simpa [hstop'] using hj
      rw [hext.slot _ hfj le_rfl, if_pos rfl]
  · have hclosed : o'.openSet = false := by simp [Operation.openSet, hstop']
    rw [hopen, hl.openSets, hperm.countP_eq, hperm'.countP_eq]
    simp [countP_cons, hclosed]

end Logged

end HybridCache.ValueHistory

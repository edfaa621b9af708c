import HybridCache.CacheMap

/-!
# The buffers of the map

The slots of a buffer follow each other from its start to the next free byte. Allocation adds
one at the end, a removal only marks it, and a compaction copies the others into a new buffer.
-/
namespace HybridCache.CacheMap

open Function List Nat

/-! ## Consecutive pieces -/

/-- Pieces at the offsets `l`, each as long as `f` says, fill the bytes from `o` to `e`. -/
def Laid (f : ℕ → ℕ) : ℕ → List ℕ → ℕ → Prop
  | o, [], e => o = e
  | o, x :: l, e => x = o ∧ Laid f (o + f o) l e

namespace Laid

variable {f g : ℕ → ℕ} {o e x : ℕ} {l : List ℕ}

section
variable (h : Laid f o l e)
include h

lemma le : o ≤ e := by
  induction l generalizing o with
  | nil => exact h.le
  | cons x l ih => exact (le_add_right _ _).trans (ih h.2)

lemma of_mem (hx : x ∈ l) : o ≤ x ∧ x + f x ≤ e := by
  induction l generalizing o with
  | nil => cases hx
  | cons y l ih =>
    obtain ⟨rfl, hl⟩ := h
    rcases mem_cons.1 hx with rfl | hx
    · exact ⟨le_rfl, hl.le⟩
    · have hx' := ih hl hx
      omega

lemma congr (hfg : ∀ x ∈ l, g x = f x) : Laid g o l e := by
  induction l generalizing o with
  | nil => exact h
  | cons y l ih =>
    obtain ⟨rfl, hl⟩ := h
    refine ⟨rfl, ?_⟩
    rw [hfg y mem_cons_self]
    exact ih hl fun x hx => hfg x (mem_cons_of_mem _ hx)

/-- One more piece at the end. -/
lemma concat : Laid f o (l ++ [e]) (e + f e) := by
  induction l generalizing o with
  | nil =>
    obtain rfl : o = e := h
    exact ⟨rfl, rfl⟩
  | cons y l ih => exact ⟨h.1, ih h.2⟩

lemma pairwise (hpos : ∀ x ∈ l, 0 < f x) : l.Pairwise (· < ·) := by
  induction l generalizing o with
  | nil => exact .nil
  | cons y l ih =>
    obtain ⟨rfl, hl⟩ := h
    refine .cons (fun x hx => ?_) (ih hl fun x hx => hpos x (mem_cons_of_mem _ hx))
    have := (hl.of_mem hx).1
    have := hpos y mem_cons_self
    omega

lemma length_le (hpos : ∀ x ∈ l, 0 < f x) : o + l.length ≤ e := by
  induction l generalizing o with
  | nil => exact h.le
  | cons y l ih =>
    obtain ⟨rfl, hl⟩ := h
    have hrest := ih hl fun x hx => hpos x (mem_cons_of_mem _ hx)
    have := hpos y mem_cons_self
    rw [length_cons]
    omega

lemma sum_eq : o + (l.map f).sum = e := by
  induction l generalizing o with
  | nil => exact h
  | cons y l ih =>
    obtain ⟨rfl, hl⟩ := h
    have hrest := ih hl
    rw [map_cons, sum_cons]
    omega

end

lemma of_append {pre post : List ℕ} (h : Laid f o (pre ++ x :: post) e) :
    Laid f x (x :: post) e := by
  induction pre generalizing o with
  | nil =>
    obtain ⟨rfl, hl⟩ := h
    exact ⟨rfl, hl⟩
  | cons y pre ih => exact ih h.2

end Laid

/-! ## Valid buffers -/

namespace Buffer

variable {K V : Type} (b : Buffer K V)

def slotBytes (o : ℕ) : ℕ := getAllocSize (b.data o).size

def slotsFrom : ℕ → ℕ → List ℕ
  | 0, _ => []
  | fuel + 1, o => if o < b.nextByte then o :: slotsFrom fuel (o + b.slotBytes o) else []

def slots : List ℕ := b.slotsFrom b.nextByte 0

def removedBytes (o : ℕ) : ℕ := if (b.data o).removed = true then b.slotBytes o else 0

def liveOf (l : List ℕ) : List (ℕ × K × V) :=
  l.filterMap fun o =>
    if (b.data o).removed = true then none else (b.data o).entry.map fun kv => (o + 4, kv)

def live : List (ℕ × K × V) := b.liveOf b.slots

structure Valid : Prop where
  laid : Laid b.slotBytes 0 b.slots b.nextByte
  fits : b.nextByte ≤ b.capacity
  bound : b.capacity ≤ kMaxBufferCapacity
  sized : ∀ o ∈ b.slots, 0 < (b.data o).size
  written : ∀ o ∈ b.slots, (b.data o).removed = false → (b.data o).entry ≠ none
  deleted : b.deletedBytes = (b.slots.map b.removedBytes).sum

variable {b}

lemma slotBytes_pos (o : ℕ) : 0 < b.slotBytes o := by
  rw [slotBytes, getAllocSize]
  omega

variable {fuel o : ℕ} {l : List ℕ}

/-- The slots are determined by how they are laid out. -/
lemma slotsFrom_eq (h : Laid b.slotBytes o l b.nextByte)
    (hfuel : l.length ≤ fuel) : b.slotsFrom fuel o = l := by
  induction l generalizing o fuel with
  | nil =>
    obtain rfl : o = b.nextByte := h
    cases fuel with
    | zero => rfl
    | succ fuel => exact if_neg (lt_irrefl _)
  | cons x l ih =>
    obtain ⟨rfl, hl⟩ := h
    cases fuel with
    | zero => cases hfuel
    | succ fuel =>
      have hlt : x < b.nextByte := by
        have := hl.le
        have := slotBytes_pos (b := b) x
        omega
      rw [slotsFrom, if_pos hlt, ih hl (le_of_succ_le_succ hfuel)]

lemma slots_eq (h : Laid b.slotBytes 0 l b.nextByte) : b.slots = l := by
  refine slotsFrom_eq h ?_
  have := h.length_le fun x _ => slotBytes_pos x
  omega

lemma valid_of_laid (h : Laid b.slotBytes 0 l b.nextByte)
    (hfits : b.nextByte ≤ b.capacity) (hbound : b.capacity ≤ kMaxBufferCapacity)
    (hsized : ∀ o ∈ l, 0 < (b.data o).size)
    (hwritten : ∀ o ∈ l, (b.data o).removed = false → (b.data o).entry ≠ none)
    (hdeleted : b.deletedBytes = (l.map b.removedBytes).sum) : b.Valid ∧ b.slots = l := by
  have hslots := slots_eq h
  rw [← hslots] at h hsized hwritten hdeleted
  exact ⟨⟨h, hfits, hbound, hsized, hwritten, hdeleted⟩, hslots⟩

lemma mem_liveOf {off : ℕ} {kv : K × V} : (off, kv) ∈ b.liveOf l ↔
    ∃ o ∈ l, (b.data o).removed = false ∧ (b.data o).entry = some kv ∧ off = o + 4 := by
  simp only [liveOf, mem_filterMap]
  refine exists_congr fun o => and_congr_right fun _ => ?_
  cases (b.data o).removed <;> simp [eq_comm]

lemma Valid.mem_lt (hb : b.Valid) (ho : o ∈ b.slots) : o + b.slotBytes o ≤ b.nextByte :=
  (hb.laid.of_mem ho).2

/-! ## Copies -/

lemma valid_new {capacity : ℕ} (h : capacity ≤ kMaxBufferCapacity) :
    (new capacity : Buffer K V).Valid ∧ (new capacity : Buffer K V).live = [] := by
  have hlaid : Laid (new capacity : Buffer K V).slotBytes 0 [] 0 := rfl
  obtain ⟨hvalid, hslots⟩ := valid_of_laid hlaid (zero_le _) h (by simp) (by simp) rfl
  exact ⟨hvalid, by rw [live, hslots]; rfl⟩

lemma Valid.congr (hb : b.Valid) {b' : Buffer K V} (hnext : b'.nextByte = b.nextByte)
    (hdata : ∀ o < b.nextByte, b'.data o = b.data o) (hdeleted : b'.deletedBytes = b.deletedBytes)
    (hfits : b.nextByte ≤ b'.capacity) (hbound : b'.capacity ≤ kMaxBufferCapacity) :
    b'.Valid ∧ b'.live = b.live := by
  have hmem : ∀ o ∈ b.slots, b'.data o = b.data o := by
    intro o ho
    have := hb.mem_lt ho
    have := slotBytes_pos (b := b) o
    exact hdata o (by omega)
  have hbytes : ∀ o ∈ b.slots, b'.slotBytes o = b.slotBytes o := by
    intro o ho
    rw [slotBytes, slotBytes, hmem o ho]
  obtain ⟨hvalid, hslots⟩ := valid_of_laid (b := b') (l := b.slots)
    (by rw [hnext]; exact hb.laid.congr hbytes) (by omega) hbound
    (fun o ho => by rw [hmem o ho]; exact hb.sized o ho)
    (fun o ho => by rw [hmem o ho]; exact hb.written o ho)
    (by
      rw [hdeleted, hb.deleted]
      congr 1
      refine map_congr_left fun o ho => ?_
      rw [removedBytes, removedBytes, hmem o ho, hbytes o ho])
  refine ⟨hvalid, ?_⟩
  rw [live, live, hslots, liveOf, liveOf]
  refine filterMap_congr fun o ho => ?_
  rw [hmem o ho]

lemma Valid.grown (hb : b.Valid) {capacity : ℕ} (hle : b.capacity ≤ capacity)
    (hbound : capacity ≤ kMaxBufferCapacity) :
    (Buffer.grown capacity b).Valid ∧ (Buffer.grown capacity b).live = b.live :=
  hb.congr rfl (fun _ ho => if_pos ho) rfl (hb.fits.trans hle) hbound

/-! ## Allocation -/

theorem allocate_write (hb : b.Valid) {size : ℕ} (hsize : 0 < size)
    (hroom : b.nextByte + getAllocSize size ≤ b.capacity) (kv : K × V) :
    ∃ b', b.allocate size = some (b.nextByte + 4, b') ∧ (b'.write (b.nextByte + 4) kv).Valid ∧
      b'.capacity = b.capacity ∧ b'.nextByte = b.nextByte + getAllocSize size ∧
      (b'.write (b.nextByte + 4) kv).live = b.live ++ [(b.nextByte + 4, kv)] := by
  have hbound := hb.bound
  have hmask : size % 2 ^ 22 = size := by
    refine mod_eq_of_lt ?_
    unfold getAllocSize at hroom
    unfold kMaxBufferCapacity at hbound
    omega
  refine ⟨_, if_neg (by omega), ?_⟩
  simp only [Slot.new, hmask]
  set b' := Buffer.write _ (b.nextByte + 4) kv with hb'
  have hnew : b'.data b.nextByte = ⟨size, false, some kv⟩ := by
    simp [hb', write]
  have hold : ∀ o < b.nextByte, b'.data o = b.data o := by
    intro o ho
    simp [hb', write, ho.ne]
  have hmem : ∀ o ∈ b.slots, b'.data o = b.data o := by
    intro o ho
    have := hb.mem_lt ho
    have := slotBytes_pos (b := b) o
    exact hold o (by omega)
  have hbytes : ∀ o ∈ b.slots, b'.slotBytes o = b.slotBytes o := by
    intro o ho
    rw [slotBytes, slotBytes, hmem o ho]
  have hlaid : Laid b'.slotBytes 0 (b.slots ++ [b.nextByte]) b'.nextByte := by
    have hnext : b'.nextByte = b.nextByte + b'.slotBytes b.nextByte := by
      rw [slotBytes, hnew]
      rfl
    rw [hnext]
    exact (hb.laid.congr hbytes).concat
  have hcases : ∀ o ∈ b.slots ++ [b.nextByte], o ∈ b.slots ∨ o = b.nextByte := by
    simp
  obtain ⟨hvalid, hslots⟩ := valid_of_laid hlaid hroom hb.bound (by
      intro o ho
      rcases hcases o ho with ho | rfl
      · rw [hmem o ho]
        exact hb.sized o ho
      · rw [hnew]
        exact hsize)
    (by
      intro o ho
      rcases hcases o ho with ho | rfl
      · rw [hmem o ho]
        exact hb.written o ho
      · rw [hnew]
        simp)
    (by
      have hsum : (b.slots.map b'.removedBytes) = b.slots.map b.removedBytes := by
        refine map_congr_left fun o ho => ?_
        rw [removedBytes, removedBytes, hmem o ho, hbytes o ho]
      rw [map_append, hsum, List.sum_append, ← hb.deleted]
      simp [removedBytes, hb', write])
  refine ⟨hvalid, trivial, trivial, ?_⟩
  rw [live, hslots, liveOf, filterMap_append]
  congr 1
  · refine filterMap_congr fun o ho => ?_
    rw [hmem o ho]
  · simp [hnew]

/-! ## Removal -/

lemma Valid.getSlot (hb : b.Valid) (ho : o ∈ b.slots) : b.getSlot (o + 4) = some o := by
  have hlt := hb.mem_lt ho
  have hsize := hb.sized o ho
  unfold slotBytes getAllocSize at hlt
  rw [Buffer.getSlot, if_neg (by omega), Nat.add_sub_cancel]

theorem remove_spec (hb : b.Valid) {off : ℕ} {kv : K × V} (hlive : (off, kv) ∈ b.live) :
    ∃ b', b.remove off = some b' ∧ b'.Valid ∧ b'.capacity = b.capacity ∧
      ∀ off' kv', (off', kv') ∈ b'.live ↔ (off', kv') ∈ b.live ∧ off' ≠ off := by
  obtain ⟨o, ho, hremoved, hentry, rfl⟩ := mem_liveOf.1 hlive
  refine ⟨{ b with data := update b.data o { b.data o with removed := true },
                   deletedBytes := b.deletedBytes + getAllocSize (b.data o).size }, ?_, ?_⟩
  · rw [remove, hb.getSlot ho]
    simp [hremoved]
  set b' : Buffer K V := { b with
    data := update b.data o { b.data o with removed := true },
    deletedBytes := b.deletedBytes + getAllocSize (b.data o).size } with hb'
  have hself : b'.data o = { b.data o with removed := true } := update_self ..
  have hother : ∀ x, x ≠ o → b'.data x = b.data x := fun x hx => update_of_ne hx ..
  have hsizes : ∀ x, (b'.data x).size = (b.data x).size := by
    intro x
    by_cases hx : x = o
    · rw [hx, hself]
    · rw [hother x hx]
  have hbytes : ∀ x, b'.slotBytes x = b.slotBytes x := fun x => by
    rw [slotBytes, slotBytes, hsizes]
  have hlaid : Laid b'.slotBytes 0 b.slots b'.nextByte := hb.laid.congr fun x _ => hbytes x
  have hnodup : b.slots.Nodup := (hb.laid.pairwise fun x _ => slotBytes_pos x).imp ne_of_lt
  -- only the removed slot counts differently
  have hsum : (b.slots.map b'.removedBytes).sum =
      (b.slots.map b.removedBytes).sum + b.slotBytes o := by
    obtain ⟨l₁, l₂, hsplit⟩ := append_of_mem ho
    rw [hsplit] at hnodup ⊢
    have hnot : o ∉ l₁ ++ l₂ := by
      have := (perm_middle.nodup_iff).1 hnodup
      exact (nodup_cons.1 this).1
    have hrest : ∀ x ∈ l₁ ++ l₂, b'.removedBytes x = b.removedBytes x := by
      intro x hx
      have hxo : x ≠ o := by
        rintro rfl
        exact hnot hx
      rw [removedBytes, removedBytes, hother x hxo, hbytes]
    have h₁ := map_congr_left fun x hx => hrest x (mem_append_left l₂ hx)
    have h₂ := map_congr_left fun x hx => hrest x (mem_append_right l₁ hx)
    have hold : b.removedBytes o = 0 := by simp [removedBytes, hremoved]
    have hnew : b'.removedBytes o = b.slotBytes o := by
      rw [removedBytes, hself, if_pos rfl, hbytes]
    simp only [map_append, map_cons, List.sum_append, sum_cons, h₁, h₂, hold, hnew]
    omega
  obtain ⟨hvalid, hslots⟩ := valid_of_laid hlaid hb.fits hb.bound
    (fun x hx => by rw [hsizes]; exact hb.sized x hx)
    (by
      intro x hx hx'
      by_cases hxo : x = o
      · rw [hxo, hself] at hx'
        cases hx'
      · rw [hother x hxo] at hx' ⊢
        exact hb.written x hx hx')
    (by
      rw [hsum, ← hb.deleted]
      rfl)
  refine ⟨hvalid, rfl, fun off' kv' => ?_⟩
  rw [live, live, hslots, mem_liveOf, mem_liveOf]
  constructor
  · rintro ⟨x, hx, hx', hentry', rfl⟩
    have hxo : x ≠ o := by
      rintro rfl
      rw [hself] at hx'
      cases hx'
    rw [hother x hxo] at hx' hentry'
    exact ⟨⟨x, hx, hx', hentry', rfl⟩, by omega⟩
  · rintro ⟨⟨x, hx, hx', hentry', rfl⟩, hne⟩
    have hxo : x ≠ o := by
      rintro rfl
      exact hne rfl
    exact ⟨x, hx, by rwa [hother x hxo], by rwa [hother x hxo], rfl⟩

/-! ## Compaction -/

def liveBytes (b : Buffer K V) (l : List ℕ) : ℕ :=
  (l.map fun o => if (b.data o).removed = true then 0 else b.slotBytes o).sum

lemma liveBytes_cons (o : ℕ) (l : List ℕ) : b.liveBytes (o :: l) =
    (if (b.data o).removed = true then 0 else b.slotBytes o) + b.liveBytes l :=
  sum_cons

/-- The loop over the slots `l` adds their live entries to the destination. -/
theorem compactLoop_spec {src : ℕ} {dest : Buffer K V}
    (hlaid : Laid b.slotBytes src l b.nextByte) (hsized : ∀ o ∈ l, 0 < (b.data o).size)
    (hwritten : ∀ o ∈ l, (b.data o).removed = false → (b.data o).entry ≠ none)
    (hfuel : l.length < fuel) (hdest : dest.Valid)
    (hroom : dest.nextByte + b.liveBytes l ≤ dest.capacity) :
    ∃ dest', b.compactLoop fuel src dest = some dest' ∧ dest'.Valid ∧
      dest'.capacity = dest.capacity ∧
      dest'.live.map Prod.snd = dest.live.map Prod.snd ++ (b.liveOf l).map Prod.snd := by
  induction l generalizing fuel src dest with
  | nil =>
    obtain rfl : src = b.nextByte := hlaid
    obtain ⟨fuel, rfl⟩ := Nat.exists_eq_add_of_lt hfuel
    refine ⟨dest, ?_, hdest, rfl, by simp [liveOf]⟩
    rw [add_assoc, add_comm, add_right_comm, compactLoop, if_neg (lt_irrefl _)]
  | cons o l ih =>
    obtain ⟨rfl, hlaid⟩ := hlaid
    cases fuel with
    | zero => cases hfuel
    | succ fuel =>
      have hlt : o < b.nextByte := by
        have := hlaid.le
        have := slotBytes_pos (b := b) o
        omega
      have hsized' : ∀ x ∈ l, 0 < (b.data x).size := fun x hx =>
        hsized x (mem_cons_of_mem _ hx)
      have hwritten' : ∀ x ∈ l, (b.data x).removed = false → (b.data x).entry ≠ none :=
        fun x hx => hwritten x (mem_cons_of_mem _ hx)
      have hfuel' : l.length < fuel := lt_of_succ_lt_succ hfuel
      rw [compactLoop, if_pos hlt]
      rw [liveBytes_cons] at hroom
      cases hremoved : (b.data o).removed with
      | true =>
        simp only [hremoved, if_true, zero_add] at hroom ⊢
        obtain ⟨dest', hloop, hvalid, hcapacity, hlive⟩ :=
          ih hlaid hsized' hwritten' hfuel' hdest hroom
        exact ⟨dest', hloop, hvalid, hcapacity, by simp [hlive, liveOf, hremoved]⟩
      | false =>
        simp only [hremoved, Bool.false_eq_true, if_false] at hroom ⊢
        obtain ⟨kv, hkv⟩ := Option.ne_none_iff_exists'.1 (hwritten o mem_cons_self hremoved)
        obtain ⟨dest₁, halloc, hvalid, hcapacity, hnext, hlive⟩ :=
          allocate_write hdest (hsized o mem_cons_self)
            (show dest.nextByte + b.slotBytes o ≤ dest.capacity by omega) kv
        obtain ⟨dest', hloop, hvalid', hcapacity', hlive'⟩ := ih hlaid hsized' hwritten' hfuel'
          hvalid (by
            have hnext' : dest₁.nextByte = dest.nextByte + b.slotBytes o := hnext
            change dest₁.nextByte + b.liveBytes l ≤ dest₁.capacity
            omega)
        refine ⟨dest', ?_, hvalid', hcapacity'.trans hcapacity, ?_⟩
        · rw [halloc, Option.bind_some, hkv]
          exact hloop
        · simp [hlive', hlive, liveOf, hremoved, hkv]

lemma Valid.liveBytes_le (hb : b.Valid) : b.liveBytes b.slots ≤ b.nextByte := by
  have hsum := hb.laid.sum_eq
  have hle : b.liveBytes b.slots ≤ (b.slots.map b.slotBytes).sum := by
    refine sum_le_sum fun o _ => ?_
    split_ifs <;> simp
  omega

theorem compacted_spec (hb : b.Valid) :
    ∃ b', b.compacted = some b' ∧ b'.Valid ∧ b'.capacity = b.capacity ∧
      b'.live.map Prod.snd = b.live.map Prod.snd := by
  by_cases hwasted : b.wastedBytes = 0
  · exact ⟨b, if_pos hwasted, hb, rfl, rfl⟩
  · obtain ⟨hnew, hempty⟩ := valid_new (K := K) (V := V) hb.bound
    have hlength := hb.laid.length_le fun x _ => slotBytes_pos x
    have hbytes := hb.liveBytes_le
    have hfits := hb.fits
    have hroom : (new b.capacity : Buffer K V).nextByte + b.liveBytes b.slots ≤ b.capacity := by
      change 0 + b.liveBytes b.slots ≤ b.capacity
      omega
    have hfuel : b.slots.length < b.nextByte + 1 := by omega
    obtain ⟨tmp, hloop, htmp, hcapacity, hlive⟩ :=
      compactLoop_spec hb.laid hb.sized hb.written hfuel hnew hroom
    have hcap : tmp.capacity = b.capacity := hcapacity
    have hcompact : b.compact (new b.capacity) = some tmp := by
      rw [compact, if_neg (by change ¬ b.capacity < _; omega), hloop]
    let back : Buffer K V := ⟨tmp.capacity, tmp.deletedBytes, tmp.nextByte,
      fun o => if o < tmp.nextByte then tmp.data o else b.data o⟩
    obtain ⟨hvalid, hlive'⟩ : back.Valid ∧ back.live = tmp.live :=
      htmp.congr rfl (fun o ho => if_pos ho) rfl htmp.fits htmp.bound
    refine ⟨back, by rw [compacted, if_neg hwasted, hcompact]; rfl, hvalid, hcap, ?_⟩
    rw [hlive', hlive, hempty]
    rfl

/-! ## Iteration -/

/-- The iterator is at a slot, or at the end, with these entries before it. -/
def Stands (b : Buffer K V) (curr : Option ℕ) (entries : List (ℕ × K × V)) : Prop :=
  (curr = none ∧ entries = []) ∨
    ∃ pre x post kv, curr = some x ∧ b.slots = pre ++ x :: post ∧ (b.data x).entry = some kv ∧
      entries = (x + 4, kv) :: b.liveOf post

section
variable (hb : b.Valid)
include hb

lemma Valid.getFirstSlot : b.getFirstSlot = some b.slots.head? := by
  rw [Buffer.getFirstSlot]
  cases hslots : b.slots with
  | nil =>
    have hlaid := hb.laid
    rw [hslots] at hlaid
    have hzero : b.nextByte = 0 := hlaid.symm
    rw [if_pos (by rw [hzero]; decide)]
    rfl
  | cons x l =>
    have hlaid := hb.laid
    rw [hslots] at hlaid
    obtain ⟨rfl, -⟩ := hlaid
    have hmem : 0 ∈ b.slots := by simp [hslots]
    have hlt := hb.mem_lt hmem
    unfold slotBytes getAllocSize at hlt
    have hget := hb.getSlot hmem
    rw [if_neg (by unfold getAllocSize; omega)]
    exact congrArg (Option.map some) hget

lemma Valid.getNextSlot {pre post : List ℕ} {x : ℕ}
    (hslots : b.slots = pre ++ x :: post) : b.getNextSlot x = post.head? := by
  have hlaid := hb.laid
  rw [hslots] at hlaid
  obtain ⟨-, hpost⟩ := hlaid.of_append
  rw [Buffer.getNextSlot]
  cases post with
  | nil =>
    have hend : x + b.slotBytes x = b.nextByte := hpost
    unfold slotBytes at hend
    exact if_pos (by omega)
  | cons y post =>
    obtain ⟨rfl, -⟩ := hpost
    have hmem : x + b.slotBytes x ∈ b.slots := by simp [hslots]
    have hlt : x + b.slotBytes x + (4 + (b.data (x + b.slotBytes x)).size) ≤ b.nextByte :=
      hb.mem_lt hmem
    have hsize := hb.sized _ hmem
    have hget := hb.getSlot hmem
    have hoffset : x + 4 + getAllocSize (b.data x).size = x + b.slotBytes x + 4 := by
      rw [slotBytes]
      omega
    rw [hoffset, if_neg (by omega), hget]
    rfl

lemma skipRemoved_spec {pre : List ℕ} (hslots : b.slots = pre ++ l) (hfuel : l.length ≤ fuel) :
    ∃ r, b.skipRemoved fuel l.head? = some r ∧ b.Stands r (b.liveOf l) := by
  induction l generalizing pre fuel with
  | nil => exact ⟨none, by cases fuel <;> rfl, .inl ⟨rfl, rfl⟩⟩
  | cons x l ih =>
    have hmem : x ∈ b.slots := by simp [hslots]
    cases fuel with
    | zero => cases hfuel
    | succ fuel =>
      rw [head?_cons, skipRemoved]
      cases hremoved : (b.data x).removed with
      | true =>
        obtain ⟨r, hskip, hstands⟩ := ih
          (show b.slots = (pre ++ [x]) ++ l by simp [hslots]) (le_of_succ_le_succ hfuel)
        rw [if_pos rfl, hb.getNextSlot hslots]
        have hlive : b.liveOf (x :: l) = b.liveOf l := by simp [liveOf, hremoved]
        exact ⟨r, hskip, hlive ▸ hstands⟩
      | false =>
        obtain ⟨kv, hkv⟩ := Option.ne_none_iff_exists'.1 (hb.written x hmem hremoved)
        refine ⟨some x, if_neg (by simp), .inr ⟨pre, x, l, kv, rfl, hslots, hkv, ?_⟩⟩
        simp [liveOf, hremoved, hkv]

lemma Valid.length_slots_le : b.slots.length ≤ b.nextByte := by
  have := hb.laid.length_le fun x _ => slotBytes_pos x
  omega

theorem begin_spec : ∃ r, b.begin = some r ∧ b.Stands r b.live := by
  rw [Buffer.begin, hb.getFirstSlot]
  exact skipRemoved_spec hb (nil_append _).symm hb.length_slots_le

theorem increment_spec {x : ℕ} {entry : ℕ × K × V} {rest : List (ℕ × K × V)}
    (hstands : b.Stands (some x) (entry :: rest)) :
    b.getData (x + 4) = some entry.2 ∧ entry.1 = x + 4 ∧
      ∃ r, b.increment x = some r ∧ b.Stands r rest := by
  obtain ⟨hno, -⟩ | ⟨pre, x', post, kv, hx, hslots, hkv, hentries⟩ := hstands
  · cases hno
  · cases hx
    obtain ⟨rfl, rfl⟩ := cons.inj hentries
    refine ⟨hkv, rfl, ?_⟩
    rw [Buffer.increment, hb.getNextSlot hslots]
    refine skipRemoved_spec hb (show b.slots = (pre ++ [x]) ++ post by simp [hslots]) ?_
    have hlength := hb.length_slots_le
    rw [hslots] at hlength
    simp at hlength
    omega

end

end Buffer
end HybridCache.CacheMap

import HybridCache.CacheMapBuffer

/-!
# The buffer manager of the map

An address names the item and the offset in its buffer. The live entries of all buffers are
listed in the order of the iterator, which starts with the newest item.
-/
namespace HybridCache.CacheMap

open List
namespace BufferManager

variable {K V : Type}

def liveChain : List (Buffer K V) → List (BufferAddr × K × V)
  | [] => []
  | b :: rest => b.live.map (fun entry => (⟨rest.length, entry.1⟩, entry.2)) ++ liveChain rest

def live (buffers : List (Buffer K V)) : List (BufferAddr × K × V) := liveChain buffers.reverse

structure Valid (buffers : List (Buffer K V)) : Prop where
  each : ∀ b ∈ buffers, b.Valid
  nonempty : buffers ≠ []
  length_le : buffers.length ≤ kMaxNumChainedItems
  capacity_pos : 0 < (buffers.map Buffer.capacity).sum

variable {buffers : List (Buffer K V)} {addr : BufferAddr} {kv : K × V}

lemma mem_liveChain {c : List (Buffer K V)} : (addr, kv) ∈ liveChain c ↔
    ∃ b, c.reverse[addr.itemOffset]? = some b ∧ (addr.byteOffset, kv) ∈ b.live := by
  induction c with
  | nil => simp [liveChain]
  | cons b rest ih =>
    rw [liveChain, List.mem_append, ih, List.reverse_cons]
    constructor
    · rintro (hmem | ⟨b', hb', hlive⟩)
      · obtain ⟨entry, hentry, heq⟩ := List.mem_map.1 hmem
        cases heq
        exact ⟨b, by simp, hentry⟩
      · refine ⟨b', ?_, hlive⟩
        have hlt := (List.getElem?_eq_some_iff.1 hb').1
        rw [List.getElem?_append_left hlt, hb']
    · rintro ⟨b', hb', hlive⟩
      by_cases hlt : addr.itemOffset < rest.reverse.length
      · rw [List.getElem?_append_left hlt] at hb'
        exact .inr ⟨b', hb', hlive⟩
      · rw [List.getElem?_append_right (not_lt.1 hlt)] at hb'
        obtain ⟨hzero, rfl⟩ : addr.itemOffset - rest.reverse.length = 0 ∧ b = b' := by
          have hbound := (List.getElem?_eq_some_iff.1 hb').1
          have hzero : addr.itemOffset - rest.reverse.length = 0 := by simpa using hbound
          rw [hzero] at hb'
          exact ⟨hzero, by simpa using hb'⟩
        refine .inl (List.mem_map.2 ⟨(addr.byteOffset, kv), hlive, ?_⟩)
        rw [List.length_reverse] at hlt hzero
        have heq : rest.length = addr.itemOffset := by omega
        simp only [heq]

theorem mem_live : (addr, kv) ∈ live buffers ↔
    ∃ b, buffers[addr.itemOffset]? = some b ∧ (addr.byteOffset, kv) ∈ b.live := by
  rw [live, mem_liveChain, reverse_reverse]

variable {b' b : Buffer K V} {i : ℕ} {bs : List (Buffer K V)}

/-- The live entries after one buffer has been exchanged. -/
lemma mem_live_set (hi : i < buffers.length) : (addr, kv) ∈ live (buffers.set i b') ↔
      (addr.itemOffset = i ∧ (addr.byteOffset, kv) ∈ b'.live) ∨
        (addr.itemOffset ≠ i ∧ (addr, kv) ∈ live buffers) := by
  rw [mem_live, mem_live]
  by_cases heq : addr.itemOffset = i
  · subst heq
    simp [getElem?_set_self hi]
  · rw [getElem?_set_ne (Ne.symm heq)]
    simp [heq]

lemma Valid.set (h : Valid buffers) (hi : buffers[i]? = some b)
    (hb' : b'.Valid) (hcapacity : b.capacity ≤ b'.capacity) : Valid (buffers.set i b') := by
  refine ⟨fun x hx => ?_, by simpa using h.nonempty, by simpa using h.length_le, ?_⟩
  · rcases mem_or_eq_of_mem_set hx with hx | rfl
    · exact h.each x hx
    · exact hb'
  · have hsum := Transition.sum_map_set hi Buffer.capacity b'
    have hpos := h.capacity_pos
    omega

lemma live_functional {kv' : K × V} (hlive : (addr, kv) ∈ live buffers)
    (hlive' : (addr, kv') ∈ live buffers) : kv = kv' := by
  obtain ⟨b, hb, hmem⟩ := mem_live.1 hlive
  obtain ⟨b', hb', hmem'⟩ := mem_live.1 hlive'
  obtain rfl := Option.some.inj (hb.symm.trans hb')
  obtain ⟨o, -, -, hentry, hoff⟩ := Buffer.mem_liveOf.1 hmem
  obtain ⟨o', -, -, hentry', hoff'⟩ := Buffer.mem_liveOf.1 hmem'
  obtain rfl : o = o' := by omega
  exact Option.some.inj (hentry.symm.trans hentry')

/-! ## The operations -/

variable {size : ℕ}

lemma allocateLoop_eq_some {start : ℕ}
    (h : allocateLoop size start buffers = some (addr, bs)) :
    ∃ i b b' off, buffers[i]? = some b ∧ getAllocSize size ≤ b.remainingBytes ∧
      b.allocate size = some (off, b') ∧ addr = ⟨start + i, off⟩ ∧ bs = buffers.set i b' := by
  induction buffers generalizing start addr bs with
  | nil => cases h
  | cons b rest ih =>
    rw [allocateLoop] at h
    split_ifs at h with hcan
    · obtain ⟨⟨off, b'⟩, halloc, heq⟩ := Option.map_eq_some_iff.1 h
      cases heq
      exact ⟨0, b, b', off, rfl, of_decide_eq_true hcan, halloc, rfl, rfl⟩
    · obtain ⟨⟨addr', rest'⟩, hloop, heq⟩ := Option.map_eq_some_iff.1 h
      cases heq
      obtain ⟨i, b₁, b₁', off, hi, hcan', halloc, haddr, hset⟩ := ih hloop
      exact ⟨i + 1, b₁, b₁', off, hi, hcan', halloc, by rw [haddr]; congr 1; omega,
        by rw [hset]; rfl⟩

theorem allocate_write_spec (h : Valid buffers) (hsize : 0 < size)
    (halloc : allocate size buffers = some (addr, bs)) (kv : K × V) :
    ∃ bs', write addr kv bs = some bs' ∧ Valid bs' ∧ (∀ kv', (addr, kv') ∉ live buffers) ∧
      ∀ a x, (a, x) ∈ live bs' ↔ (a, x) ∈ live buffers ∨ (a = addr ∧ x = kv) := by
  unfold allocate at halloc
  split_ifs at halloc
  obtain ⟨i, b, b₁, off, hi, hcan, hb₁, rfl, rfl⟩ := allocateLoop_eq_some halloc
  rw [Nat.zero_add]
  obtain ⟨hlt, hget⟩ := List.getElem?_eq_some_iff.1 hi
  have hb : b.Valid := h.each b (mem_of_getElem? hi)
  have hroom : b.nextByte + getAllocSize size ≤ b.capacity := by
    unfold Buffer.remainingBytes at hcan
    unfold getAllocSize at *
    omega
  obtain ⟨b₂, hb₂, hvalid, hcapacity, -, hlive⟩ := Buffer.allocate_write hb hsize hroom kv
  obtain ⟨rfl, rfl⟩ : b.nextByte + 4 = off ∧ b₂ = b₁ := by
    simpa using hb₂.symm.trans hb₁
  have hold : ∀ kv', (b.nextByte + 4, kv') ∉ b.live := by
    intro kv' hmem
    obtain ⟨o, ho, -, -, hoff⟩ := Buffer.mem_liveOf.1 hmem
    have := hb.mem_lt ho
    have := Buffer.slotBytes_pos (b := b) o
    omega
  refine ⟨buffers.set i (b₂.write (b.nextByte + 4) kv), ?_, h.set hi hvalid hcapacity.ge, ?_, ?_⟩
  · rw [write, getElem?_set_self hlt]
    simp
  · intro kv' hmem
    obtain ⟨b', hb', hmem'⟩ := mem_live.1 hmem
    obtain rfl := Option.some.inj (hi.symm.trans hb')
    exact hold kv' hmem'
  · intro a x
    rw [mem_live_set hlt, hlive, mem_append, mem_singleton, mem_live]
    constructor
    · rintro (⟨rfl, hmem | heq⟩ | ⟨-, hmem⟩)
      · exact .inl ⟨b, hi, hmem⟩
      · obtain ⟨hbyte, rfl⟩ := Prod.mk.inj heq
        exact .inr ⟨by rw [← hbyte], rfl⟩
      · exact .inl hmem
    · rintro (⟨b', hb', hmem⟩ | ⟨rfl, rfl⟩)
      · by_cases heq : a.itemOffset = i
        · rw [heq] at hb'
          obtain rfl := Option.some.inj (hi.symm.trans hb')
          exact .inl ⟨heq, .inl hmem⟩
        · exact .inr ⟨heq, b', hb', hmem⟩
      · exact .inl ⟨rfl, .inr rfl⟩

theorem get_spec (hlive : (addr, kv) ∈ live buffers) : get addr buffers = some kv := by
  obtain ⟨b, hb, hmem⟩ := mem_live.1 hlive
  obtain ⟨o, -, -, hentry, hoff⟩ := Buffer.mem_liveOf.1 hmem
  rw [get, hb, Option.bind_some, Buffer.getData, hoff, Nat.add_sub_cancel, hentry]

theorem remove_spec (h : Valid buffers) (hlive : (addr, kv) ∈ live buffers) :
    ∃ bs, remove addr buffers = some bs ∧ Valid bs ∧
      ∀ a x, (a, x) ∈ live bs ↔ (a, x) ∈ live buffers ∧ a ≠ addr := by
  obtain ⟨b, hb, hmem⟩ := mem_live.1 hlive
  obtain ⟨hlt, -⟩ := List.getElem?_eq_some_iff.1 hb
  obtain ⟨b', hremove, hvalid, hcapacity, hlive'⟩ :=
    Buffer.remove_spec (h.each b (mem_of_getElem? hb)) hmem
  refine ⟨buffers.set addr.itemOffset b', by simp [remove, hb, hremove],
    h.set hb hvalid hcapacity.ge, fun a x => ?_⟩
  rw [mem_live_set hlt, hlive', mem_live]
  constructor
  · rintro (⟨heq, hx, hne⟩ | ⟨hne, hx⟩)
    · refine ⟨⟨b, heq ▸ hb, hx⟩, ?_⟩
      rintro rfl
      exact hne rfl
    · refine ⟨hx, ?_⟩
      rintro rfl
      exact hne rfl
  · rintro ⟨⟨b₁, hb₁, hx⟩, hne⟩
    by_cases heq : a.itemOffset = addr.itemOffset
    · rw [heq] at hb₁
      obtain rfl := Option.some.inj (hb.symm.trans hb₁)
      refine .inl ⟨heq, hx, fun hbyte => hne ?_⟩
      cases addr
      cases heq
      cases hbyte
      rfl
    · exact .inr ⟨heq, b₁, hb₁, hx⟩

lemma clone_eq {granted : ℕ → Bool} {bs : List (Buffer K V)}
    (h : clone granted i buffers = some bs) : bs = buffers := by
  induction buffers generalizing i bs with
  | nil =>
    cases h
    rfl
  | cons b rest ih =>
    rw [clone] at h
    split_ifs at h
    obtain ⟨rest', hrest, rfl⟩ := Option.map_eq_some_iff.1 h
    rw [ih hrest]

lemma expandBuffer_eq_some {n : ℕ} {granted : Bool}
    (h : expandBuffer b n granted = some b') (hb : b.Valid) :
    b'.Valid ∧ b'.live = b.live ∧ b.capacity ≤ b'.capacity := by
  simp only [expandBuffer] at h
  split_ifs at h with hmax
  cases h
  have hle : b.capacity ≤ max (b.capacity + n)
      (min kMaxBufferCapacity (b.capacity * kExpansionFactor)) :=
    (Nat.le_add_right _ _).trans (le_max_left _ _)
  obtain ⟨hvalid, hlive⟩ := hb.grown hle (by omega)
  exact ⟨hvalid, hlive, hle⟩

theorem expand_spec (h : Valid buffers) (size : ℕ) (grow add : Bool) :
    ∃ expanded bs, expand size grow add buffers = some (expanded, bs) ∧ Valid bs ∧
      ∀ a x, (a, x) ∈ live bs ↔ (a, x) ∈ live buffers := by
  simp only [expand]
  by_cases hmax : kMaxBufferCapacity < getAllocSize size
  · exact ⟨false, buffers, if_pos hmax, h, fun _ _ => Iff.rfl⟩
  · rw [if_neg hmax]
    have hlast := getLast?_eq_some_getLast h.nonempty
    have hpos : 0 < buffers.length := length_pos_iff.2 h.nonempty
    simp only [hlast, Option.map_some]
    cases hexpand : expandBuffer (buffers.getLast h.nonempty) (getAllocSize size) grow with
    | some b' =>
      have hget : buffers[buffers.length - 1]? = some (buffers.getLast h.nonempty) := by
        rw [← getLast?_eq_getElem?, hlast]
      obtain ⟨hvalid, hlive, hcapacity⟩ :=
        expandBuffer_eq_some hexpand (h.each _ (getLast_mem h.nonempty))
      have hset : buffers.dropLast ++ [b'] = buffers.set (buffers.length - 1) b' := by
        rw [set_eq_take_append_cons_drop, if_pos (by omega), dropLast_eq_take,
          drop_eq_nil_of_le (by omega)]
      refine ⟨true, _, rfl, ?_, ?_⟩
      · rw [hset]
        exact h.set hget hvalid hcapacity
      · intro a x
        rw [hset, mem_live_set (by omega), hlive, mem_live]
        constructor
        · rintro (⟨heq, hx⟩ | ⟨-, hx⟩)
          · exact ⟨_, heq ▸ hget, hx⟩
          · exact hx
        · rintro ⟨b₁, hb₁, hx⟩
          by_cases heq : a.itemOffset = buffers.length - 1
          · rw [heq] at hb₁
            obtain rfl := Option.some.inj (hget.symm.trans hb₁)
            exact .inl ⟨heq, hx⟩
          · exact .inr ⟨heq, b₁, hb₁, hx⟩
    | none =>
      split_ifs with hfull
      · exact ⟨false, buffers, rfl, h, fun _ _ => Iff.rfl⟩
      · obtain ⟨hnew, hempty⟩ := Buffer.valid_new (K := K) (V := V) le_rfl
        refine ⟨true, _, rfl, ⟨?_, by simp, ?_, ?_⟩, fun a x => ?_⟩
        · intro b hb
          rcases mem_append.1 hb with hb | hb
          · exact h.each b hb
          · rw [mem_singleton.1 hb]
            exact hnew
        · rw [length_append, length_singleton]
          omega
        · have := h.capacity_pos
          rw [map_append, sum_append]
          omega
        · rw [mem_live, mem_live]
          constructor
          · rintro ⟨b, hb, hx⟩
            by_cases hlt : a.itemOffset < buffers.length
            · rw [getElem?_append_left hlt] at hb
              exact ⟨b, hb, hx⟩
            · rw [getElem?_append_right (not_lt.1 hlt)] at hb
              have hmem := mem_of_getElem? hb
              rw [mem_singleton.1 hmem, hempty] at hx
              cases hx
          · rintro ⟨b, hb, hx⟩
            have hlt := (List.getElem?_eq_some_iff.1 hb).1
            exact ⟨b, by rw [getElem?_append_left hlt, hb], hx⟩
      · exact ⟨false, buffers, rfl, h, fun _ _ => Iff.rfl⟩

/-! ## Compaction -/

lemma live_map_snd : (live buffers).map Prod.snd =
    (buffers.reverse.map fun b => b.live.map Prod.snd).flatten := by
  rw [live]
  generalize buffers.reverse = c
  induction c with
  | nil => rfl
  | cons b rest ih =>
    rw [liveChain, map_append, ih, map_map, map_cons, flatten_cons]
    rfl

theorem compact_spec (h : Valid buffers) : ∃ bs, compact buffers = some bs ∧ Valid bs ∧
      (live bs).map Prod.snd = (live buffers).map Prod.snd := by
  have hloop : ∀ l : List (Buffer K V), (∀ b ∈ l, b.Valid) →
      ∃ bs, l.mapM Buffer.compacted = some bs ∧ (∀ b ∈ bs, b.Valid) ∧
        bs.map Buffer.capacity = l.map Buffer.capacity ∧
        bs.map (fun b => b.live.map Prod.snd) = l.map fun b => b.live.map Prod.snd := by
    intro l
    induction l with
    | nil => exact fun _ => ⟨[], rfl, by simp, rfl, rfl⟩
    | cons b l ih =>
      intro hl
      obtain ⟨b', hb', hvalid, hcapacity, hlive⟩ := Buffer.compacted_spec (hl b mem_cons_self)
      obtain ⟨bs, hbs, hvalids, hcapacities, hlives⟩ := ih fun x hx => hl x (mem_cons_of_mem _ hx)
      refine ⟨b' :: bs, by simp [mapM_cons, hb', hbs], ?_, ?_, ?_⟩
      · intro x hx
        rcases mem_cons.1 hx with rfl | hx
        · exact hvalid
        · exact hvalids x hx
      · rw [map_cons, map_cons, hcapacity, hcapacities]
      · rw [map_cons, map_cons, hlive, hlives]
  obtain ⟨bs, hbs, hvalid, hcapacity, hlive⟩ := hloop buffers h.each
  have hlength : bs.length = buffers.length := by
    simpa using congrArg length hcapacity
  refine ⟨bs, hbs, ⟨hvalid, ?_, hlength.trans_le h.length_le, hcapacity ▸ h.capacity_pos⟩, ?_⟩
  · rw [← length_pos_iff, hlength, length_pos_iff]
    exact h.nonempty
  · rw [live_map_snd, live_map_snd, map_reverse, map_reverse, hlive]

lemma wastedBytesPct_returns (h : Valid buffers) : ∃ pct, wastedBytesPct buffers = some pct :=
  ⟨_, if_neg h.capacity_pos.ne'⟩

/-! ## Iteration -/

def tagged (item : ℕ) (entries : List (ℕ × K × V)) : List (BufferAddr × K × V) :=
  entries.map fun entry => (⟨item, entry.1⟩, entry.2)

/-- The iterator is at an entry, or at the end, with these entries before it. -/
def At (c : List (Buffer K V)) (it : Iterator) (entries : List (BufferAddr × K × V)) : Prop :=
  (it.curr = none ∧ entries = []) ∨
    ∃ b rest x head tail, c.drop it.index = b :: rest ∧ it.curr = some x ∧
      b.Stands (some x) (head :: tail) ∧
      entries = tagged rest.length (head :: tail) ++ liveChain rest

section
variable (h : ∀ b ∈ buffers, b.Valid)
include h

variable {fuel : ℕ} {entries : List (BufferAddr × K × V)} {it : Iterator}

lemma incrementIntoNextBuffer_spec
    {rest : List (Buffer K V)} (hdrop : buffers.reverse.drop i = b :: rest) {curr : Option ℕ}
    {entries : List (ℕ × K × V)} (hstands : b.Stands curr entries) (hfuel : rest.length < fuel) :
    ∃ it, incrementIntoNextBuffer buffers fuel ⟨i, curr⟩ = some it ∧
      At buffers.reverse it (tagged rest.length entries ++ liveChain rest) := by
  induction fuel generalizing i b rest curr entries with
  | zero => cases hfuel
  | succ fuel ih =>
    rw [incrementIntoNextBuffer]
    cases curr with
    | some x =>
      refine ⟨_, rfl, .inr ?_⟩
      obtain ⟨hno, -⟩ | ⟨pre, x', post, kv, hx, hslots, hkv, rfl⟩ := hstands
      · cases hno
      · exact ⟨b, rest, x, _, _, hdrop, rfl, .inr ⟨pre, x', post, kv, hx, hslots, hkv, rfl⟩, rfl⟩
    | none =>
      obtain rfl : entries = [] := by
        obtain ⟨-, hnil⟩ | ⟨pre, x', post, kv, hx, -⟩ := hstands
        · exact hnil
        · cases hx
      have hdrop' : buffers.reverse.drop (i + 1) = rest := by
        rw [← drop_drop, hdrop]
        rfl
      have hget : getNthInChain buffers (i + 1) = rest.head? := by
        rw [getNthInChain, ← hdrop', head?_drop]
      simp only [hget]
      cases rest with
      | nil => exact ⟨_, rfl, .inl ⟨rfl, rfl⟩⟩
      | cons b' rest =>
        have hmem : b' ∈ buffers := by
          have hin : b' ∈ buffers.reverse.drop (i + 1) := by simp [hdrop']
          exact mem_reverse.1 (mem_of_mem_drop hin)
        obtain ⟨r, hbegin, hstands'⟩ := Buffer.begin_spec (h b' hmem)
        simp only [head?_cons, hbegin, Option.bind_some]
        exact ih hdrop' hstands' (Nat.lt_of_succ_lt_succ hfuel)

/-- One step of the iterator. -/
lemma increment_spec {entry : BufferAddr × K × V}
    (hat : At buffers.reverse it (entry :: entries)) :
    ∃ b x it', it.curr = some x ∧ getNthInChain buffers it.index = some b ∧
      b.getData (x + 4) = some entry.2 ∧ getAsBufferAddr buffers it x = entry.1 ∧
      increment buffers it = some it' ∧ At buffers.reverse it' entries := by
  obtain ⟨-, hno⟩ | ⟨b, rest, x, head, tail, hdrop, hcurr, hstands, hentries⟩ := hat
  · cases hno
  · have hget : getNthInChain buffers it.index = some b := by
      rw [getNthInChain, ← head?_drop, hdrop]
      rfl
    have hmem : b ∈ buffers := mem_reverse.1 (mem_of_getElem? hget)
    obtain ⟨hdata, hoffset, r, hincrement, hstands'⟩ := Buffer.increment_spec (h b hmem) hstands
    have hlength : rest.length + 1 = buffers.length - it.index := by
      simpa using (congrArg length hdrop).symm
    obtain ⟨it', hnext, hat'⟩ := incrementIntoNextBuffer_spec h hdrop hstands'
      (show rest.length < buffers.length + 1 by omega)
    rw [tagged, map_cons, cons_append] at hentries
    obtain ⟨rfl, rfl⟩ := cons.inj hentries
    refine ⟨b, x, it', hcurr, hget, hdata, ?_, ?_, hat'⟩
    · rw [getAsBufferAddr, hoffset]
      congr 1
      omega
    · rw [increment, hcurr, Option.bind_some, hget, Option.bind_some, hincrement,
        Option.bind_some, hnext]

lemma iterateFrom_spec
    (hat : At buffers.reverse it entries)
    (hfuel : entries.length < fuel) : iterateFrom buffers fuel it = some entries := by
  induction entries generalizing fuel it with
  | nil =>
    cases fuel with
    | zero => cases hfuel
    | succ fuel =>
      obtain ⟨hcurr, -⟩ | ⟨b, rest, x, head, tail, -, -, -, hno⟩ := hat
      · rw [iterateFrom, hcurr]
      · cases hno
  | cons entry entries ih =>
    cases fuel with
    | zero => cases hfuel
    | succ fuel =>
      obtain ⟨b, x, it', hcurr, hget, hdata, haddr, hincrement, hat'⟩ := increment_spec h hat
      simp only [iterateFrom, hcurr, hget, hdata, hincrement, Option.bind_some,
        ih hat' (Nat.lt_of_succ_lt_succ hfuel), haddr, Option.map_some]

lemma length_live_le : (live buffers).length ≤ (buffers.map Buffer.nextByte).sum := by
  have hchain : ∀ c : List (Buffer K V), (∀ b ∈ c, b.Valid) →
      (liveChain c).length ≤ (c.map Buffer.nextByte).sum := by
    intro c
    induction c with
    | nil => exact fun _ => le_rfl
    | cons b rest ih =>
      intro hc
      have hrest := ih fun x hx => hc x (mem_cons_of_mem _ hx)
      have hb : b.live.length ≤ b.nextByte :=
        (length_filterMap_le _ _).trans (hc b mem_cons_self).length_slots_le
      rw [liveChain, length_append, length_map, map_cons, sum_cons]
      omega
  have hle := hchain buffers.reverse fun b hb => h b (mem_reverse.1 hb)
  rwa [map_reverse, sum_reverse] at hle

end

theorem iterate_spec (h : Valid buffers) : iterate buffers = some (live buffers) := by
  obtain ⟨b, rest, hchain⟩ := exists_cons_of_ne_nil
    (show buffers.reverse ≠ [] by simpa using h.nonempty)
  have hmem : b ∈ buffers := mem_reverse.1 (by simp [hchain])
  obtain ⟨r, hbegin, hstands⟩ := Buffer.begin_spec (h.each b hmem)
  have hlength : buffers.length = rest.length + 1 := by
    simpa using congrArg length hchain
  obtain ⟨it, hnext, hat⟩ := incrementIntoNextBuffer_spec (i := 0) h.each hchain hstands
    (show rest.length < buffers.length + 1 by omega)
  have hget : getNthInChain buffers 0 = some b := by
    rw [getNthInChain, hchain]
    rfl
  have hlive : tagged rest.length b.live ++ liveChain rest = live buffers := by
    rw [live, hchain]
    rfl
  rw [hlive] at hat
  rw [iterate, begin, hget, Option.bind_some, hbegin, Option.bind_some, hnext, Option.bind_some]
  exact iterateFrom_spec h.each hat (Nat.lt_succ_of_le (length_live_le h.each))

/-! ## Addresses -/

lemma nodup_addresses (h : ∀ b ∈ buffers, b.Valid) : ((live buffers).map Prod.fst).Nodup := by
  have hchain : ∀ c : List (Buffer K V), (∀ b ∈ c, b.Valid) → ((liveChain c).map Prod.fst).Nodup ∧
        ∀ a ∈ (liveChain c).map Prod.fst, a.itemOffset < c.length := by
    intro c
    induction c with
    | nil => exact fun _ => ⟨.nil, by simp [liveChain]⟩
    | cons b rest ih =>
      intro hc
      obtain ⟨hnodup, hlt⟩ := ih fun x hx => hc x (mem_cons_of_mem _ hx)
      have hb := hc b mem_cons_self
      have hsorted := hb.laid.pairwise fun x _ => Buffer.slotBytes_pos x
      have hoffsets : (b.live.map fun entry => (⟨rest.length, entry.1⟩ : BufferAddr)).Nodup := by
        rw [List.Nodup, pairwise_map, Buffer.live, Buffer.liveOf, pairwise_filterMap]
        refine hsorted.imp fun {x y} hxy e he e' he' heq => ?_
        have hoffset : ∀ {z e}, (if (b.data z).removed = true then none
            else (b.data z).entry.map fun kv => (z + 4, kv)) = some e → e.1 = z + 4 := by
          intro z e hz
          split_ifs at hz
          obtain ⟨kv, -, rfl⟩ := Option.map_eq_some_iff.1 hz
          rfl
        have hbyte : e.1 = e'.1 := congrArg BufferAddr.byteOffset heq
        rw [hoffset he, hoffset he'] at hbyte
        omega
      rw [liveChain, map_append, map_map]
      refine ⟨nodup_append.2 ⟨hoffsets, hnodup, ?_⟩, ?_⟩
      · rintro a ha a' ha' rfl
        obtain ⟨entry, -, rfl⟩ := mem_map.1 ha
        exact absurd (hlt _ ha') (lt_irrefl _)
      · intro a ha
        rcases mem_append.1 ha with ha | ha
        · obtain ⟨entry, -, rfl⟩ := mem_map.1 ha
          exact Nat.lt_succ_self _
        · exact Nat.lt_succ_of_lt (hlt a ha)
  exact (hchain buffers.reverse fun b hb => h b (mem_reverse.1 hb)).1

end BufferManager
end HybridCache.CacheMap

import HybridCache.CacheMapManager
import HybridCache.CacheMapTable

/-!
# The index and the entries of the map agree

The table maps a key to an address exactly if there is a live entry with this key at the
address. Every part of an insert keeps this, also when it ends with an exception.
-/
namespace HybridCache.CacheMap

open List
open BufferManager (live)

variable {K V : Type}

/-- An exception of a failed allocation or of an index that would become too large. -/
def Exception.recoverable : Exception → Bool
  | .badAlloc | .mapIndexMaxedOut .. | .invalidArgument => true
  | .insufficientSpace | .oldEntryMissing => false

namespace Map

structure Good (cfg : Config K V) (m : Map K V) : Prop where
  table : m.hashtable.Good cfg
  buffers : BufferManager.Valid m.buffers
  link : ∀ key addr, m.hashtable.Maps key addr ↔ ∃ value, (addr, key, value) ∈ live m.buffers

def Has (m : Map K V) (kv : K × V) : Prop := ∃ addr, (addr, kv) ∈ live m.buffers

/-- The same entries, with at least as much room in the index. -/
structure Keeps (cfg : Config K V) (m m' : Map K V) : Prop where
  good : m'.Good cfg
  capacity_le : m.hashtable.capacity ≤ m'.hashtable.capacity
  numEntries : m'.hashtable.numEntries = m.hashtable.numEntries
  has : ∀ kv, m'.Has kv ↔ m.Has kv

variable {cfg : Config K V} {m m' : Map K V} {key : K} {value : V} {addr : BufferAddr}

lemma Keeps.refl (h : m.Good cfg) : Keeps cfg m m := ⟨h, le_rfl, rfl, fun _ => Iff.rfl⟩

lemma Keeps.trans {m₂ : Map K V} (h : Keeps cfg m m') (h' : Keeps cfg m' m₂) : Keeps cfg m m₂ :=
  ⟨h'.good, h.capacity_le.trans h'.capacity_le, h'.numEntries.trans h.numEntries,
    fun kv => (h'.has kv).trans (h.has kv)⟩

/-- A key has one address and one value. -/
lemma Good.live_key_unique (h : m.Good cfg) {a a' : BufferAddr} {v v' : V}
    (hlive : (a, key, v) ∈ live m.buffers) (hlive' : (a', key, v') ∈ live m.buffers) :
    a = a' ∧ v = v' := by
  obtain rfl := h.table.maps_functional ((h.link key a).2 ⟨v, hlive⟩)
    ((h.link key a').2 ⟨v', hlive'⟩)
  exact ⟨rfl, congrArg Prod.snd (BufferManager.live_functional hlive hlive')⟩

lemma Good.nodup_keys (h : m.Good cfg) : ((live m.buffers).map fun e => e.2.1).Nodup := by
  have haddresses := BufferManager.nodup_addresses h.buffers.each
  rw [List.Nodup, pairwise_map] at haddresses ⊢
  refine haddresses.imp_of_mem fun {e e'} he he' hne hkey => hne ?_
  obtain ⟨a, k, v⟩ := e
  obtain ⟨a', k', v'⟩ := e'
  obtain rfl : k = k' := hkey
  exact (h.live_key_unique he he').1

theorem Good.size_eq (h : m.Good cfg) : m.size = (live m.buffers).length := by
  have hnodup : ((live m.buffers).map fun e => (e.2.1, e.1)).Nodup := by
    have hkeys := h.nodup_keys
    rw [List.Nodup, pairwise_map] at hkeys ⊢
    exact hkeys.imp fun hne heq => hne (Prod.mk.inj heq).1
  have hperm : (RobinHood.toList m.hashtable.capacity m.hashtable.entries).Perm
      ((live m.buffers).map fun e => (e.2.1, e.1)) := by
    refine (perm_ext_iff_of_nodup ?_ hnodup).2 ?_
    · exact .of_map _ h.table.distinct.nodup_keys
    · rintro ⟨k, a⟩
      rw [RobinHood.mem_toList]
      refine (h.link k a).trans ⟨?_, ?_⟩
      · rintro ⟨v, hlive⟩
        exact mem_map.2 ⟨(a, k, v), hlive, rfl⟩
      · intro hmem
        obtain ⟨⟨a', k', v⟩, hlive, heq⟩ := mem_map.1 hmem
        cases heq
        exact ⟨v, hlive⟩
  have hlength := hperm.length_eq
  rw [RobinHood.length_toList, h.table.counted, length_map] at hlength
  exact hlength

/-! ## Parts that keep the entries -/

def HasRoom (m : Map K V) : Prop := m.hashtable.numEntries + 1 < m.hashtable.capacity

lemma Keeps.hasRoom (h : Keeps cfg m m') (hroom : m.HasRoom) : m'.HasRoom := by
  have hcapacity := h.capacity_le
  have hnum := h.numEntries
  unfold HasRoom at *
  omega

/-- A part that only prepares: it ends with a recoverable exception or with a result for which
`P` holds, and keeps the entries. -/
def Prepares {α : Type} (cfg : Config K V) (m : Map K V) (o : Outcome K V α)
    (P : α → Map K V → Prop) : Prop :=
  ∃ r m', o = some (r, m') ∧ Keeps cfg m m' ∧
    ((∃ ex, r = .error ex ∧ ex.recoverable = true) ∨ ∃ a, r = .ok a ∧ P a m')

/-- Parts one after the other. -/
lemma Prepares.bind {α β : Type} {o : Outcome K V α} {f : α → Map K V → Outcome K V β}
    {P : α → Map K V → Prop} {Q : β → Map K V → Prop} (h : Prepares cfg m o P)
    (hf : ∀ a m', Keeps cfg m m' → P a m' → Prepares cfg m' (f a m') Q) :
    Prepares cfg m (o.bind f) Q := by
  obtain ⟨r, m', rfl, hkeeps, ⟨ex, rfl, hex⟩ | ⟨a, rfl, hP⟩⟩ := h
  · exact ⟨.error ex, m', rfl, hkeeps, .inl ⟨ex, rfl, hex⟩⟩
  · obtain ⟨r, m₂, ho, hkeeps', hr⟩ := hf a m' hkeeps hP
    exact ⟨r, m₂, ho, hkeeps.trans hkeeps', hr⟩

/-! ## Iteration and lookups -/

theorem iterate_eq (h : m.Good cfg) : m.iterate = some ((live m.buffers).map Prod.snd) := by
  rw [iterate, BufferManager.iterate_spec h.buffers]
  rfl

lemma mem_iterate {kv : K × V} : kv ∈ (live m.buffers).map Prod.snd ↔ m.Has kv := by
  rw [mem_map]
  exact ⟨fun ⟨⟨a, x⟩, hmem, heq⟩ => ⟨a, by cases heq; exact hmem⟩,
    fun ⟨a, hmem⟩ => ⟨(a, kv), hmem, rfl⟩⟩

variable [DecidableEq K]

theorem find_of_has (h : m.Good cfg) (hhas : m.Has (key, value)) :
    m.find cfg key = some (some value) := by
  obtain ⟨a, hlive⟩ := hhas
  obtain ⟨r, hfind, ⟨i, a', rfl, hi, hslot⟩ | ⟨-, hfresh⟩⟩ := HashTable.find_spec h.table key
  · obtain ⟨v', hlive'⟩ := (h.link key a').1 ⟨i, hi, hslot⟩
    obtain ⟨rfl, rfl⟩ := h.live_key_unique hlive hlive'
    simp only [find, hfind, Option.bind_some, BufferManager.get_spec hlive, Option.map_some]
  · exact absurd rfl (hfresh _ ((h.link key a).2 ⟨value, hlive⟩))

theorem find_of_not_has (h : m.Good cfg) (hno : ∀ v, ¬ m.Has (key, v)) :
    m.find cfg key = some none := by
  obtain ⟨r, hfind, ⟨i, a, rfl, hi, hslot⟩ | ⟨rfl, -⟩⟩ := HashTable.find_spec h.table key
  · obtain ⟨v, hlive⟩ := (h.link key a).1 ⟨i, hi, hslot⟩
    exact absurd ⟨a, hlive⟩ (hno v)
  · rw [find, hfind]
    rfl

/-! ## Compaction -/

theorem reinsert_spec {l : List (BufferAddr × K × V)} {t : HashTable K} (ht : t.Good cfg)
    (hroom : l = [] ∨ t.numEntries ≠ t.capacity - 1) (hkeys : (l.map fun e => e.2.1).Nodup)
    (hmaps : ∀ e ∈ l, ∃ a, t.Maps e.2.1 a) :
    ∃ t', reinsert cfg l t = some (.ok (), t') ∧ t'.Good cfg ∧ t'.capacity = t.capacity ∧
      t'.numEntries = t.numEntries ∧ ∀ k a, t'.Maps k a ↔
        (∃ v, (a, k, v) ∈ l) ∨ (t.Maps k a ∧ k ∉ l.map fun e => e.2.1) := by
  induction l generalizing t with
  | nil => exact ⟨t, rfl, ht, rfl, rfl, by simp⟩
  | cons e l ih =>
    obtain ⟨addr, k₀, v₀⟩ := e
    have hroom' : t.numEntries ≠ t.capacity - 1 := hroom.resolve_left (by simp)
    rw [map_cons, nodup_cons] at hkeys
    obtain ⟨old, hold⟩ := hmaps _ mem_cons_self
    obtain ⟨t₁, hinsert, hnum, hstored⟩ := HashTable.insertOrReplace_present ht hroom' hold addr
    have hcapacity := hstored.capacity
    obtain ⟨t', hrest, hgood, hcapacity', hnum', hmaps'⟩ := ih hstored.good
      (.inr (by rw [hnum, hcapacity]; exact hroom')) hkeys.2 (by
        intro e he
        obtain ⟨a, ha⟩ := hmaps e (mem_cons_of_mem _ he)
        refine ⟨a, (hstored.maps e.2.1 a).2 (.inl ⟨ha, fun hkey => hkeys.1 ?_⟩)⟩
        exact hkey ▸ mem_map_of_mem he)
    refine ⟨t', by simp only [reinsert, hinsert, hrest], hgood, hcapacity'.trans hcapacity,
      hnum'.trans hnum, fun k a => ?_⟩
    rw [hmaps', hstored.maps, map_cons, mem_cons]
    constructor
    · rintro (⟨v, hmem⟩ | ⟨⟨hold', hne⟩ | ⟨rfl, rfl⟩, hnot⟩)
      · exact .inl ⟨v, mem_cons_of_mem _ hmem⟩
      · exact .inr ⟨hold', by rintro (hkey | hmem); exacts [hne hkey, hnot hmem]⟩
      · exact .inl ⟨v₀, mem_cons_self⟩
    · rintro (⟨v, hmem⟩ | ⟨hold', hnot⟩)
      · rcases mem_cons.1 hmem with heq | hmem
        · cases heq
          exact .inr ⟨.inr ⟨rfl, rfl⟩, hkeys.1⟩
        · exact .inl ⟨v, hmem⟩
      · exact .inr ⟨.inl ⟨hold', fun hkey => hnot (.inl hkey)⟩, fun hmem => hnot (.inr hmem)⟩

theorem compact_spec (h : m.Good cfg) (hroom : m.size = 0 ∨ m.size ≠ m.hashtable.capacity - 1) :
    ∃ m', m.compact cfg = some (.ok (), m') ∧ Keeps cfg m m' := by
  obtain ⟨bs, hcompact, hvalid, hsnd⟩ := BufferManager.compact_spec h.buffers
  have hiterate := BufferManager.iterate_spec hvalid
  have hkeys : (live bs).map (fun e => e.2.1) = (live m.buffers).map fun e => e.2.1 := by
    simpa [map_map, Function.comp_def] using congrArg (map Prod.fst) hsnd
  have hhas : ∀ kv, (∃ a, (a, kv) ∈ live bs) ↔ m.Has kv := by
    intro kv
    rw [← mem_iterate, ← hsnd]
    exact (mem_iterate (m := ⟨m.hashtable, bs⟩)).symm
  have hempty : live bs = [] ∨ m.hashtable.numEntries ≠ m.hashtable.capacity - 1 := by
    refine hroom.imp_left fun hzero => ?_
    have hlength := congrArg length hsnd
    rw [length_map, length_map, ← h.size_eq, hzero] at hlength
    exact eq_nil_of_length_eq_zero hlength
  obtain ⟨t', hreinsert, hgood, hcapacity, hnum, hmaps⟩ := reinsert_spec h.table hempty
    (hkeys ▸ h.nodup_keys) (by
      rintro ⟨a, k, v⟩ he
      obtain ⟨a', hlive⟩ := (hhas (k, v)).1 ⟨a, he⟩
      exact ⟨a', (h.link k a').2 ⟨v, hlive⟩⟩)
  refine ⟨⟨t', bs⟩, ?_, ⟨hgood, hvalid, fun k a => ?_⟩, hcapacity.ge, hnum, hhas⟩
  · simp only [compact, hcompact, hiterate, hreinsert, Option.bind_some, Option.map_some]
  · rw [hmaps]
    refine or_iff_left ?_
    -- every key of the table is the key of some entry
    rintro ⟨hold, hnot⟩
    obtain ⟨v, hlive⟩ := (h.link k a).1 hold
    rw [hkeys] at hnot
    exact hnot (mem_map.2 ⟨(a, k, v), hlive, rfl⟩)

/-- At its limit a compaction throws, and the entries may have moved. -/
theorem compact_full (h : m.Good cfg) (hpos : m.size ≠ 0)
    (hfull : m.size = m.hashtable.capacity - 1) :
    ∃ m', m.compact cfg = some (.error .insufficientSpace, m') := by
  obtain ⟨bs, hcompact, hvalid, hsnd⟩ := BufferManager.compact_spec h.buffers
  have hlength : (live bs).length = m.size := by
    have := congrArg length hsnd
    rwa [length_map, length_map, ← h.size_eq] at this
  obtain ⟨e, rest, hlive⟩ := exists_cons_of_length_pos (l := live bs) (by omega)
  refine ⟨⟨m.hashtable, bs⟩, ?_⟩
  simp only [compact, hcompact, BufferManager.iterate_spec hvalid, hlive, Option.bind_some,
    reinsert, HashTable.insertOrReplace_full hfull, Option.map_some]

/-! ## The parts of an insert -/

lemma cloneInto_spec (h : m.Good cfg) {newCapacity : ℕ}
    (hcapacity : m.hashtable.capacity ≤ newCapacity) (table : Bool) (items : ℕ → Bool) :
    Prepares cfg m (m.cloneInto cfg newCapacity table items) fun res m' =>
      res = true → m'.hashtable.capacity = newCapacity := by
  have hthrow : ∀ ex : Exception, ex.recoverable = true →
      Prepares cfg m (some (.error ex, m)) fun (res : Bool) m' =>
        res = true → m'.hashtable.capacity = newCapacity := fun ex hex =>
    ⟨_, m, rfl, .refl h, .inl ⟨ex, rfl, hex⟩⟩
  have hfail : Prepares cfg m (some (.ok false, m)) fun (res : Bool) m' =>
      res = true → m'.hashtable.capacity = newCapacity :=
    ⟨_, m, rfl, .refl h, .inr ⟨false, rfl, by simp⟩⟩
  obtain ⟨t', hcopy, hgood, hcap, hnum, hmaps⟩ := HashTable.copy_spec h.table hcapacity
  rw [cloneInto, copyHashTable]
  cases hsize : computeStorageSize cfg newCapacity with
  | error ex =>
    refine hthrow ex ?_
    simp only [computeStorageSize] at hsize
    split_ifs at hsize
    cases hsize
    rfl
  | ok newSize =>
    simp only
    split_ifs with hmax
    · exact hthrow _ rfl
    · rw [hcopy]
      cases hclone : BufferManager.clone items 0 m.buffers with
      | none => exact hfail
      | some bs =>
        obtain rfl := BufferManager.clone_eq hclone
        refine ⟨_, ⟨t', m.buffers⟩, rfl, ⟨⟨hgood, h.buffers, fun k a => ?_⟩, ?_, hnum,
          fun kv => Iff.rfl⟩, .inr ⟨true, rfl, fun _ => hcap⟩⟩
        · rw [hmaps]
          exact h.link k a
        · rw [hcap]
          exact hcapacity
    · exact hfail

lemma cloneInto_or_badAlloc {α : Type} (h : m.Good cfg) {newCapacity : ℕ}
    (hcapacity : m.hashtable.capacity ≤ newCapacity) (table : Bool) (items : ℕ → Bool) (a : α) :
    Prepares cfg m ((m.cloneInto cfg newCapacity table items).bind fun res m =>
      if res = true then some (.ok a, m) else some (.error .badAlloc, m)) fun _ m' =>
        m'.hashtable.capacity = newCapacity := by
  refine (cloneInto_spec h hcapacity table items).bind fun res m' hkeeps hres => ?_
  cases res with
  | true => exact ⟨_, m', rfl, .refl hkeeps.good, .inr ⟨a, rfl, hres rfl⟩⟩
  | false => exact ⟨_, m', rfl, .refl hkeeps.good, .inl ⟨_, rfl, rfl⟩⟩

lemma expandIfOverLimit_spec (h : m.Good cfg) (g : Allocations) :
    Prepares cfg m (m.expandIfOverLimit cfg g) fun _ m' => m'.HasRoom := by
  have hroom := h.table.room
  rw [expandIfOverLimit]
  split_ifs with hover
  · obtain ⟨r, m', ho, hkeeps, hr⟩ := cloneInto_or_badAlloc h
      (show m.hashtable.capacity ≤ m.hashtable.capacity * 2 by omega) g.table g.tableItems true
    refine ⟨r, m', ho, hkeeps, hr.imp_right fun ⟨a, ha, hcapacity⟩ => ⟨a, ha, ?_⟩⟩
    have hnum := hkeeps.numEntries
    unfold HasRoom
    omega
  · refine ⟨_, m, rfl, .refl h, .inr ⟨false, rfl, ?_⟩⟩
    simp only [HashTable.overLimit, decide_eq_true_eq, not_or] at hover
    unfold HasRoom
    omega

lemma compactIfWasted_spec (h : m.Good cfg) (hroom : m.HasRoom) :
    Prepares cfg m (m.compactIfWasted cfg) fun _ _ => True := by
  obtain ⟨pct, hpct⟩ := BufferManager.wastedBytesPct_returns h.buffers
  rw [compactIfWasted, hpct, Option.bind_some]
  split_ifs
  · unfold HasRoom at hroom
    obtain ⟨m', hcompact, hkeeps⟩ := compact_spec h (.inr (by rw [size]; omega))
    exact ⟨_, m', hcompact, hkeeps, .inr ⟨(), rfl, trivial⟩⟩
  · exact ⟨_, m, rfl, .refl h, .inr ⟨(), rfl, trivial⟩⟩

lemma cloneChain_spec (h : m.Good cfg) (chainCloned : Bool) (g : Allocations) :
    Prepares cfg m (m.cloneChain cfg chainCloned g) fun _ _ => True := by
  rw [cloneChain]
  split_ifs
  · exact ⟨_, m, rfl, .refl h, .inr ⟨(), rfl, trivial⟩⟩
  · obtain ⟨r, m', ho, hkeeps, hr⟩ := cloneInto_or_badAlloc h le_rfl g.copy g.copyItems ()
    exact ⟨r, m', ho, hkeeps, hr.imp_right fun ⟨a, ha, _⟩ => ⟨a, ha, trivial⟩⟩

lemma allocate_spec (h : m.Good cfg) (chainCloned : Bool) (size : ℕ) (g : Allocations) :
    ∃ r m', m.allocate cfg chainCloned size g = some (r, m') ∧
      ((∃ ex, r = .error ex ∧ ex.recoverable = true ∧ Keeps cfg m m') ∨
        ∃ addr m₂, r = .ok addr ∧ Keeps cfg m m₂ ∧ m'.hashtable = m₂.hashtable ∧
          BufferManager.allocate size m₂.buffers = some (addr, m'.buffers)) := by
  rw [allocate]
  cases halloc : BufferManager.allocate size m.buffers with
  | some p =>
    obtain ⟨addr, bs⟩ := p
    exact ⟨_, _, rfl, .inr ⟨addr, m, rfl, .refl h, rfl, halloc⟩⟩
  | none =>
    obtain ⟨r, m₁, hclone, hkeeps, ⟨ex, rfl, hex⟩ | ⟨u, rfl, -⟩⟩ := cloneChain_spec h chainCloned g
    · exact ⟨.error ex, m₁, by simp only [hclone, Outcome.bind], .inl ⟨ex, rfl, hex, hkeeps⟩⟩
    · simp only [hclone, Outcome.bind]
      obtain ⟨expanded, bs, hexpand, hvalid, hlive⟩ :=
        BufferManager.expand_spec hkeeps.good.buffers size g.grow g.add
      have hkeeps' : Keeps cfg m ⟨m₁.hashtable, bs⟩ := by
        refine hkeeps.trans ⟨⟨hkeeps.good.table, hvalid, fun k a => ?_⟩, le_rfl, rfl, fun kv => ?_⟩
        · simp only [hlive]
          exact hkeeps.good.link k a
        · exact exists_congr fun a => hlive a kv
      rw [hexpand, Option.map_some]
      cases expanded with
      | false => exact ⟨_, _, rfl, .inl ⟨_, rfl, rfl, hkeeps'⟩⟩
      | true =>
        cases halloc' : BufferManager.allocate size bs with
        | none => exact ⟨_, _, rfl, .inl ⟨_, rfl, rfl, hkeeps'⟩⟩
        | some p =>
          obtain ⟨addr, bs'⟩ := p
          exact ⟨_, _, rfl, .inr ⟨addr, ⟨m₁.hashtable, bs⟩, rfl, hkeeps', rfl, halloc'⟩⟩

structure Updated (cfg : Config K V) (m m' : Map K V) (key : K) (value : V) : Prop where
  good : m'.Good cfg
  has : ∀ kv, m'.Has kv ↔ kv = (key, value) ∨ (m.Has kv ∧ kv.1 ≠ key)

theorem store_spec (h : m.Good cfg) (hroom : m.HasRoom) {size : ℕ} (hsize : 0 < size)
    {bs : List (Buffer K V)} (halloc : BufferManager.allocate size m.buffers = some (addr, bs))
    (key : K) (value : V) :
    ∃ res m', store cfg ⟨m.hashtable, bs⟩ key value addr = some (.ok res, m') ∧
      Updated cfg m m' key value := by
  have hroom' : m.hashtable.numEntries ≠ m.hashtable.capacity - 1 := by
    unfold HasRoom at hroom
    omega
  obtain ⟨bs', hwrite, hvalid, hnew, hlive⟩ :=
    BufferManager.allocate_write_spec h.buffers hsize halloc (key, value)
  simp only [store, hwrite, Option.bind_some]
  by_cases hpresent : ∃ old, m.hashtable.Maps key old
  · obtain ⟨old, hold⟩ := hpresent
    obtain ⟨v₀, hold'⟩ := (h.link key old).1 hold
    obtain ⟨t', hinsert, -, hstored⟩ := HashTable.insertOrReplace_present h.table hroom' hold addr
    obtain ⟨bs'', hremove, hvalid', hlive'⟩ :=
      BufferManager.remove_spec hvalid ((hlive old (key, v₀)).2 (.inl hold'))
    have hne : addr ≠ old := by
      rintro rfl
      exact hnew _ hold'
    -- the live entries: those of the other keys and the new one
    have hentries : ∀ a kv, (a, kv) ∈ live bs'' ↔
        ((a, kv) ∈ live m.buffers ∧ kv.1 ≠ key) ∨ (a = addr ∧ kv = (key, value)) := by
      rintro a ⟨k, v⟩
      rw [hlive', hlive]
      constructor
      · rintro ⟨hmem | hadd, haold⟩
        · refine .inl ⟨hmem, ?_⟩
          rintro rfl
          exact haold (h.live_key_unique hmem hold').1
        · exact .inr hadd
      · rintro (⟨hmem, hkey⟩ | ⟨rfl, hkv⟩)
        · refine ⟨.inl hmem, ?_⟩
          rintro rfl
          exact hkey (congrArg Prod.fst (BufferManager.live_functional hmem hold'))
        · exact ⟨.inr ⟨rfl, hkv⟩, hne⟩
    refine ⟨.kReplaced, ⟨t', bs''⟩, ?_, ⟨hstored.good, hvalid', fun k a => ?_⟩, fun kv => ?_⟩
    · simp only [hinsert, hremove, Option.map_some]
    · rw [hstored.maps, h.link]
      simp only [hentries]
      constructor
      · rintro (⟨⟨v, hmem⟩, hkey⟩ | ⟨rfl, rfl⟩)
        · exact ⟨v, .inl ⟨hmem, hkey⟩⟩
        · exact ⟨value, .inr ⟨rfl, rfl⟩⟩
      · rintro ⟨v, ⟨hmem, hkey⟩ | ⟨rfl, hkv⟩⟩
        · exact .inl ⟨⟨v, hmem⟩, hkey⟩
        · cases hkv
          exact .inr ⟨rfl, rfl⟩
    · simp only [Has, hentries]
      constructor
      · rintro ⟨a, ⟨hmem, hkey⟩ | ⟨rfl, hkv⟩⟩
        · exact .inr ⟨⟨a, hmem⟩, hkey⟩
        · exact .inl hkv
      · rintro (hkv | ⟨⟨a, hmem⟩, hkey⟩)
        · exact ⟨addr, .inr ⟨rfl, hkv⟩⟩
        · exact ⟨a, .inl ⟨hmem, hkey⟩⟩
  · obtain ⟨t', hinsert, -, hstored⟩ := HashTable.insertOrReplace_absent h.table hroom'
      (fun a ha => hpresent ⟨a, ha⟩) addr
    have hother : ∀ a k v, (a, k, v) ∈ live m.buffers → k ≠ key := by
      rintro a k v hmem rfl
      exact hpresent ⟨a, (h.link k a).2 ⟨v, hmem⟩⟩
    refine ⟨.kInserted, ⟨t', bs'⟩, ?_, ⟨hstored.good, hvalid, fun k a => ?_⟩, fun kv => ?_⟩
    · simp only [hinsert]
    · rw [hstored.maps, h.link]
      simp only [hlive]
      constructor
      · rintro (⟨⟨v, hmem⟩, -⟩ | ⟨rfl, rfl⟩)
        · exact ⟨v, .inl hmem⟩
        · exact ⟨value, .inr ⟨rfl, rfl⟩⟩
      · rintro ⟨v, hmem | ⟨rfl, hkv⟩⟩
        · exact .inl ⟨⟨v, hmem⟩, hother a k v hmem⟩
        · cases hkv
          exact .inr ⟨rfl, rfl⟩
    · simp only [Has, hlive]
      constructor
      · rintro ⟨a, hmem | ⟨rfl, hkv⟩⟩
        · exact .inr ⟨⟨a, hmem⟩, hother a kv.1 kv.2 hmem⟩
        · exact .inl hkv
      · rintro (hkv | ⟨⟨a, hmem⟩, -⟩)
        · exact ⟨addr, .inr ⟨rfl, hkv⟩⟩
        · exact ⟨a, .inl hmem⟩

/-- An insert throws a recoverable exception and keeps the entries, or sets the value. -/
theorem insertImpl_spec (h : m.Good cfg) (key : K) (value : V) (g : Allocations) :
    ∃ r m', m.insertImpl cfg key value g = some (r, m') ∧
      ((∃ ex, r = .error ex ∧ ex.recoverable = true ∧ Keeps cfg m m') ∨
        ∃ res, r = .ok res ∧ Updated cfg m m' key value) := by
  obtain ⟨r, m₁, h₁, hkeeps₁, ⟨ex, rfl, hex⟩ | ⟨chainCloned, rfl, hroom⟩⟩ :=
    expandIfOverLimit_spec h g
  · exact ⟨.error ex, m₁, by simp only [insertImpl, h₁, Outcome.bind], .inl ⟨ex, rfl, hex, hkeeps₁⟩⟩
  obtain ⟨r, m₂, h₂, hkeeps₂, ⟨ex, rfl, hex⟩ | ⟨u, rfl, -⟩⟩ :=
    compactIfWasted_spec hkeeps₁.good hroom
  · exact ⟨.error ex, m₂, by simp only [insertImpl, h₁, h₂, Outcome.bind],
      .inl ⟨ex, rfl, hex, hkeeps₁.trans hkeeps₂⟩⟩
  obtain ⟨r, m₃, h₃, ⟨ex, rfl, hex, hkeeps₃⟩ | ⟨addr, m₄, rfl, hkeeps₄, htable, halloc⟩⟩ :=
    allocate_spec hkeeps₂.good chainCloned (cfg.keySize + cfg.valueSize value) g
  · exact ⟨.error ex, m₃, by simp only [insertImpl, h₁, h₂, h₃, Outcome.bind],
      .inl ⟨ex, rfl, hex, (hkeeps₁.trans hkeeps₂).trans hkeeps₃⟩⟩
  have hkeeps := (hkeeps₁.trans hkeeps₂).trans hkeeps₄
  have hsize : 0 < cfg.keySize + cfg.valueSize value := by
    have := cfg.keySize_pos
    omega
  obtain ⟨res, m', hstore, hupdated⟩ := store_spec hkeeps₄.good
    (hkeeps₄.hasRoom (hkeeps₂.hasRoom hroom)) hsize halloc key value
  have hm₃ : m₃ = ⟨m₄.hashtable, m₃.buffers⟩ := by
    cases m₃
    cases htable
    rfl
  rw [← hm₃] at hstore
  refine ⟨.ok res, m', by simp only [insertImpl, h₁, h₂, h₃, hstore, Outcome.bind],
    .inr ⟨res, rfl, hupdated.good, fun kv => ?_⟩⟩
  rw [hupdated.has, hkeeps.has]

/-! ## Erasing -/

theorem erase_spec (h : m.Good cfg) (key : K) :
    ∃ b m', m.erase cfg key = some (b, m') ∧ m'.Good cfg ∧
      ∀ kv, m'.Has kv ↔ m.Has kv ∧ kv.1 ≠ key := by
  by_cases hpresent : ∃ addr, m.hashtable.Maps key addr
  · obtain ⟨addr, hmaps⟩ := hpresent
    obtain ⟨v, hlive⟩ := (h.link key addr).1 hmaps
    obtain ⟨t', hremove, hgood, -, hmaps'⟩ := HashTable.remove_present h.table hmaps
    obtain ⟨bs, hremove', hvalid, hlive'⟩ := BufferManager.remove_spec h.buffers hlive
    have hentries : ∀ a kv, (a, kv) ∈ live bs ↔ (a, kv) ∈ live m.buffers ∧ kv.1 ≠ key := by
      rintro a ⟨k, v'⟩
      rw [hlive']
      refine and_congr_right fun hmem => not_congr ⟨?_, ?_⟩
      · rintro rfl
        exact congrArg Prod.fst (BufferManager.live_functional hmem hlive)
      · rintro rfl
        exact (h.live_key_unique hmem hlive).1
    refine ⟨true, ⟨t', bs⟩, ?_, ⟨hgood, hvalid, fun k a => ?_⟩, fun kv => ?_⟩
    · simp only [erase, hremove, hremove', Option.bind_some, Option.map_some]
    · rw [hmaps', h.link]
      simp only [hentries, exists_and_right]
    · simp only [Has, hentries, exists_and_right]
  · have hremove := HashTable.remove_absent h.table fun a ha => hpresent ⟨a, ha⟩
    refine ⟨false, m, by simp only [erase, hremove, Option.bind_some], h, fun kv => ?_⟩
    refine (and_iff_left_of_imp ?_).symm
    rintro ⟨a, hmem⟩ rfl
    exact hpresent ⟨a, (h.link kv.1 a).2 ⟨kv.2, hmem⟩⟩

omit [DecidableEq K] in
theorem create_spec {numEntries numBytes : ℕ} {table item : Bool} (hentries : 1 ≤ numEntries)
    (hbytes : 1 ≤ numBytes) (hcreate : create cfg numEntries numBytes table item = .ok m) :
    m.Good cfg ∧ ∀ kv, ¬ m.Has kv := by
  rw [create] at hcreate
  cases hsize : computeStorageSize cfg numEntries with
  | error ex =>
    rw [hsize] at hcreate
    cases hcreate
  | ok size =>
    rw [hsize] at hcreate
    split_ifs at hcreate with _ hbig _
    cases hcreate
    obtain ⟨hnew, hempty⟩ := Buffer.valid_new (K := K) (V := V) (not_lt.1 hbig)
    have hlive : live [(Buffer.new numBytes : Buffer K V)] = [] := by
      simp [live, BufferManager.liveChain, hempty]
    refine ⟨⟨HashTable.good_new hentries, ⟨?_, by simp, (show 1 ≤ kMaxNumChainedItems by decide), ?_⟩,
      fun k a => ?_⟩, ?_⟩
    · intro b hb
      rw [mem_singleton.1 hb]
      exact hnew
    · simpa [Buffer.new] using Nat.lt_of_lt_of_le Nat.zero_lt_one hbytes
    · simp only [hlive, not_mem_nil, exists_false, iff_false]
      rintro ⟨i, -, hslot⟩
      cases hslot
    · rintro kv ⟨a, hmem⟩
      cases hmem

end Map
end HybridCache.CacheMap

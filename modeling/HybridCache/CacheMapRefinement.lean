import HybridCache.CacheMapInvariant

/-!
# The map refines a finite map

Calls on the map, each with the allocations that succeed, next to the mapping that the earlier
calls describe. Every call returns and agrees with the mapping, except a `compact` of a map whose
table has one slot left: it rewrites the addresses through an insertion, which refuses a table
as full as that.
-/
namespace HybridCache.CacheMap
open Transition Function Option
open BufferManager (live)

variable {K V : Type}

inductive Action (K V : Type)
  | insert (key : K) (value : V) (g : Allocations)
  | insertOrReplace (key : K) (value : V) (g : Allocations)
  | erase (key : K)
  | find (key : K)
  | compact
  | iterate

inductive Output (K V : Type)
  | inserted (b : Bool)
  | replaced (r : InsertOrReplaceResult)
  | erased (b : Bool)
  | found (value : Option V)
  | compacted
  | entries (l : List (K × V))
  | threw (ex : Exception)
  deriving DecidableEq

def Outcome.output {α : Type} (f : α → Output K V) (o : Outcome K V α) :
    Option (Output K V × Map K V) :=
  o.map fun
    | (.ok a, m) => (f a, m)
    | (.error ex, m) => (.threw ex, m)

def Map.call [DecidableEq K] (cfg : Config K V) (m : Map K V) :
    Action K V → Option (Output K V × Map K V)
  | .insert key value g => (m.insert cfg key value g).output .inserted
  | .insertOrReplace key value g => (m.insertOrReplace cfg key value g).output .replaced
  | .erase key => (m.erase cfg key).map fun (b, m) => (.erased b, m)
  | .find key => (m.find cfg key).map fun value => (.found value, m)
  | .compact => (m.compact cfg).output fun _ => .compacted
  | .iterate => m.iterate.map fun l => (.entries l, m)

/-- The map, the mapping that the calls describe and the last call with what it returned. -/
structure System (K V : Type) where
  map : Map K V
  mapping : K → Option V
  last : Option (Action K V × Output K V)

def System.init (m : Map K V) : System K V := ⟨m, fun _ => none, none⟩

/-- A successful insert sets the value of its key, an erase takes it away, and nothing else
changes the mapping. -/
def remember [DecidableEq K] (mapping : K → Option V) : Action K V → Output K V → K → Option V
  | .insert key value _, .inserted true => update mapping key (some value)
  | .insertOrReplace key value _, .replaced _ => update mapping key (some value)
  | .erase key, .erased _ => update mapping key none
  | _, _ => mapping

def System.step [DecidableEq K] (cfg : Config K V) (s : System K V) (a : Action K V) :
    Option (System K V) :=
  (s.map.call cfg a).map fun (out, m) => ⟨m, remember s.mapping a out, some (a, out)⟩

/-- The list has exactly the entries of the mapping, once each. -/
def Lists (mapping : K → Option V) (l : List (K × V)) : Prop :=
  (l.map Prod.fst).Nodup ∧ ∀ key value, (key, value) ∈ l ↔ mapping key = some value

/-- What a call may return: only inserts throw, and only for want of memory or room. -/
def Conforms (mapping : K → Option V) : Action K V → Output K V → Prop
  | .insert .., .inserted _ => True
  | .insert .., .threw ex => ex.recoverable = true
  | .insertOrReplace .., .replaced _ => True
  | .insertOrReplace .., .threw ex => ex.recoverable = true
  | .erase _, .erased _ => True
  | .find key, .found value => value = mapping key
  | .compact, .compacted => True
  | .iterate, .entries l => Lists mapping l
  | _, _ => False

/-- The map answers like the mapping, and the last call has done so. -/
structure Refines [DecidableEq K] (cfg : Config K V) (s : System K V) : Prop where
  find : ∀ key, s.map.find cfg key = some (s.mapping key)
  iterate : ∃ l, s.map.iterate = some l ∧ Lists s.mapping l ∧ s.map.size = l.length
  last : ∀ a out, s.last = some (a, out) → Conforms s.mapping a out

/-- A compaction finds the map empty or with more than one slot of the table left. -/
def Compactable (s : System K V) : Action K V → Prop
  | .compact => s.map.hashtable.numEntries = 0 ∨
      s.map.hashtable.numEntries ≠ s.map.hashtable.capacity - 1
  | _ => True

instance (s : System K V) (a : Action K V) : Decidable (Compactable s a) :=
  match a with
  | .compact => inferInstanceAs (Decidable (_ ∨ _))
  | .insert .. | .insertOrReplace .. | .erase _ | .find _ | .iterate => .isTrue trivial

/-! ## One call -/

structure System.Inv (cfg : Config K V) (s : System K V) : Prop where
  good : s.map.Good cfg
  has : ∀ key value, s.map.Has (key, value) ↔ s.mapping key = some value
  last : ∀ a out, s.last = some (a, out) → Conforms s.mapping a out

variable {cfg : Config K V} {s t : System K V}

lemma System.Inv.lists (h : s.Inv cfg) : Lists s.mapping ((live s.map.buffers).map Prod.snd) := by
  refine ⟨?_, fun key value => Map.mem_iterate.trans (h.has key value)⟩
  rw [List.map_map]
  exact h.good.nodup_keys

variable {a : Action K V} {m' : Map K V} {out : Output K V}

lemma inv_of_keeps (h : s.Inv cfg)
    (hkeeps : Map.Keeps cfg s.map m') (hconforms : Conforms s.mapping a out) :
    System.Inv cfg ⟨m', s.mapping, some (a, out)⟩ := by
  refine ⟨hkeeps.good, fun key value => (hkeeps.has _).trans (h.has key value), ?_⟩
  rintro a' out' heq
  cases heq
  exact hconforms

variable [DecidableEq K]

lemma System.Inv.find_eq (h : s.Inv cfg) (key : K) : s.map.find cfg key = some (s.mapping key) := by
  cases hvalue : s.mapping key with
  | none =>
    refine Map.find_of_not_has h.good fun value hhas => ?_
    rw [h.has, hvalue] at hhas
    cases hhas
  | some value => exact Map.find_of_has h.good ((h.has key value).2 hvalue)

lemma System.Inv.refines (h : s.Inv cfg) : Refines cfg s :=
  ⟨h.find_eq, ⟨_, Map.iterate_eq h.good, h.lists, by rw [h.good.size_eq, List.length_map]⟩, h.last⟩

lemma inv_of_updated {key : K} {value : V}
    (h : s.Inv cfg) (hupdated : Map.Updated cfg s.map m' key value)
    (hconforms : Conforms (update s.mapping key (some value)) a out) :
    System.Inv cfg ⟨m', update s.mapping key (some value), some (a, out)⟩ := by
  refine ⟨hupdated.good, fun key' value' => (hupdated.has _).trans ?_, ?_⟩
  · by_cases hkey : key' = key
    · subst hkey
      simp [eq_comm]
    · simp [hkey, h.has]
  · rintro a' out' heq
    cases heq
    exact hconforms

lemma step_of_call {out : Output K V} (hcall : s.map.call cfg a = some (out, m')) :
    s.step cfg a = some ⟨m', remember s.mapping a out, some (a, out)⟩ := by
  rw [System.step, hcall]
  rfl

/-- Under the condition a call returns and agrees with the mapping. -/
theorem step_compactable (h : s.Inv cfg) (hok : Compactable s a) :
    ∃ t, s.step cfg a = some t ∧ t.Inv cfg := by
  cases a with
  | insert key value g =>
    obtain ⟨r, hfind, hfound⟩ := HashTable.find_spec h.good.table key
    cases r with
    | some p =>
      have hcall : s.map.call cfg (.insert key value g) = some (.inserted false, s.map) := by
        simp only [Map.call, Map.insert, hfind, bind_some, Outcome.output, map_some]
      exact ⟨_, step_of_call hcall, inv_of_keeps h (.refl h.good) trivial⟩
    | none =>
      obtain ⟨r, m', himpl, ⟨ex, rfl, hex, hkeeps⟩ | ⟨res, rfl, hupdated⟩⟩ :=
        Map.insertImpl_spec h.good key value g
      · have hcall : s.map.call cfg (.insert key value g) = some (.threw ex, m') := by
          simp only [Map.call, Map.insert, hfind, himpl, bind_some, Outcome.bind,
            Outcome.output, map_some]
        exact ⟨_, step_of_call hcall, inv_of_keeps h hkeeps hex⟩
      · have hcall : s.map.call cfg (.insert key value g) = some (.inserted true, m') := by
          simp only [Map.call, Map.insert, hfind, himpl, bind_some, Outcome.bind,
            Outcome.output, map_some]
        exact ⟨_, step_of_call hcall, inv_of_updated h hupdated trivial⟩
  | insertOrReplace key value g =>
    obtain ⟨r, m', himpl, ⟨ex, rfl, hex, hkeeps⟩ | ⟨res, rfl, hupdated⟩⟩ :=
      Map.insertImpl_spec h.good key value g
    · have hcall : s.map.call cfg (.insertOrReplace key value g) = some (.threw ex, m') := by
        simp only [Map.call, Map.insertOrReplace, himpl, Outcome.output, map_some]
      exact ⟨_, step_of_call hcall, inv_of_keeps h hkeeps hex⟩
    · have hcall : s.map.call cfg (.insertOrReplace key value g) = some (.replaced res, m') := by
        simp only [Map.call, Map.insertOrReplace, himpl, Outcome.output, map_some]
      exact ⟨_, step_of_call hcall, inv_of_updated h hupdated trivial⟩
  | erase key =>
    obtain ⟨b, m', herase, hgood, hhas⟩ := Map.erase_spec h.good key
    refine ⟨⟨m', update s.mapping key none, some (.erase key, .erased b)⟩, ?_, hgood,
      fun key' value' => (hhas _).trans ?_, ?_⟩
    · simp only [System.step, Map.call, herase, map_some, remember]
    · by_cases hkey : key' = key
      · subst hkey
        simp
      · simp [hkey, h.has]
    · rintro a out heq
      cases heq
      trivial
  | find key =>
    refine ⟨⟨s.map, s.mapping, some (.find key, .found (s.mapping key))⟩, ?_,
      inv_of_keeps h (.refl h.good) rfl⟩
    simp only [System.step, Map.call, h.find_eq, map_some, remember]
  | compact =>
    obtain ⟨m', hcompact, hkeeps⟩ := Map.compact_spec h.good hok
    refine ⟨⟨m', s.mapping, some (.compact, .compacted)⟩, ?_, inv_of_keeps h hkeeps trivial⟩
    simp only [System.step, Map.call, hcompact, Outcome.output, map_some, remember]
  | iterate =>
    refine ⟨⟨s.map, s.mapping, some (.iterate, .entries _)⟩, ?_,
      inv_of_keeps h (.refl h.good) h.lists⟩
    simp only [System.step, Map.call, Map.iterate_eq h.good, map_some, remember]

theorem step_not_compactable (h : s.Inv cfg) (hno : ¬ Compactable s a) :
    ∃ t, s.step cfg a = some t ∧ ¬ Refines cfg t := by
  cases a with
  | compact =>
    obtain ⟨hpos, hfull⟩ := not_or.1 hno
    obtain ⟨m', hcompact⟩ := Map.compact_full h.good hpos (not_not.1 hfull)
    have hcall : s.map.call cfg .compact = some (.threw .insufficientSpace, m') := by
      simp only [Map.call, hcompact, Outcome.output, map_some]
    exact ⟨_, step_of_call hcall, fun hrefines => hrefines.last _ _ rfl⟩
  | insert | insertOrReplace | erase | find | iterate => exact absurd trivial hno

/-! ## Every run -/

/-- From a new map, the map refines the mapping along a run exactly if every compaction finds
the map empty or with more than one slot of the table left, and such a run does not get stuck. -/
theorem map_refines {numEntries numBytes : ℕ} {table item : Bool} {m : Map K V}
    (hentries : 1 ≤ numEntries) (hbytes : 1 ≤ numBytes)
    (hcreate : Map.create cfg numEntries numBytes table item = .ok m) (as : List (Action K V)) :
    (Always (System.step cfg) (Refines cfg) (.init m) as ↔
      Meets (System.step cfg) Compactable (.init m) as) ∧
    (Meets (System.step cfg) Compactable (.init m) as →
      ∃ t, run (System.step cfg) (.init m) as = some t) := by
  obtain ⟨hgood, hempty⟩ := Map.create_spec hentries hbytes hcreate
  have hinit : (System.init m).Inv cfg :=
    ⟨hgood, fun key value => ⟨fun hhas => absurd hhas (hempty _), nofun⟩, nofun⟩
  have hkeep : ∀ s a t, Compactable s a → s.Inv cfg → s.step cfg a = some t → t.Inv cfg := by
    intro s a t hok h hstep
    obtain ⟨t', hstep', ht⟩ := step_compactable h hok
    obtain rfl : t' = t := some.inj (hstep'.symm.trans hstep)
    exact ht
  have hbreak : ∀ s a t, ¬ Compactable s a → s.Inv cfg → s.step cfg a = some t →
      ¬ Refines cfg t := by
    intro s a t hno h hstep
    obtain ⟨t', hstep', ht⟩ := step_not_compactable h hno
    obtain rfl : t' = t := some.inj (hstep'.symm.trans hstep)
    exact ht
  constructor
  · -- a state in which the map does not refine the mapping needs no invariant
    refine always_iff_meets (fun s : System K V => Refines cfg s → s.Inv cfg) (fun _ => True)
      (fun s a t _ h hP hstep hQ => ?_) (fun s a t _ h hP hstep => ?_) (fun _ _ => trivial)
      (fun _ => hinit) hinit.refines
    · by_contra hbad
      exact hbreak s a t (fun hok => hbad (hkeep s a t hok (h hP) hstep)) (h hP) hstep hQ
    · constructor
      · intro hQ
        by_contra hno
        exact hbreak s a t hno (h hP) hstep hQ
      · intro hok
        exact (hkeep s a t hok (h hP) hstep).refines
  · intro hmeets
    have henabled : ∀ (s : System K V) a, s.Inv cfg → ∃ t, s.step cfg a = some t := by
      intro s a h
      by_cases hok : Compactable s a
      · obtain ⟨t, hstep, -⟩ := step_compactable h hok
        exact ⟨t, hstep⟩
      · obtain ⟨t, hstep, -⟩ := step_not_compactable h hok
        exact ⟨t, hstep⟩
    obtain ⟨t, ht, -⟩ := run_returns_meets henabled hkeep hmeets hinit
    exact ⟨t, ht⟩

def wordConfig : Config ℕ ℕ := ⟨UInt32.ofNat, 4, fun _ => 4, 32, by decide⟩

def Allocations.all : Allocations := ⟨true, fun _ => true, true, fun _ => true, true, true⟩

theorem map_refines_compacted : ∃ m, Map.create wordConfig 4 16 true true = .ok m ∧
      Always (System.step wordConfig) (Refines wordConfig) (.init m)
        [.insert 1 10 .all, .insertOrReplace 1 20 .all, .insert 2 30 .all, .compact, .erase 2,
          .find 1, .iterate] := by
  have hcreate : Map.create wordConfig 4 16 true true = .ok ⟨.new 4, [.new 16]⟩ := rfl
  exact ⟨_, hcreate, (map_refines (by decide) (by decide) hcreate _).1.2 (by decide)⟩

/-- With room for two keys, one is enough for a compaction to throw. -/
theorem compact_throws : ∃ m, Map.create wordConfig 2 64 true true = .ok m ∧
      (run (System.step wordConfig) (.init m) [.insert 1 10 .all, .compact]).map
          (fun s => s.last.map Prod.snd) = some (some (.threw .insufficientSpace)) ∧
      ¬ Always (System.step wordConfig) (Refines wordConfig) (.init m)
        [.insert 1 10 .all, .compact] := by
  have hrun : (run (System.step wordConfig) (.init ⟨.new 2, [.new 64]⟩)
      [.insert 1 10 .all, .compact]).map (fun s => s.last.map Prod.snd) =
        some (some (.threw .insufficientSpace)) := by decide
  refine ⟨_, rfl, hrun, fun halways => ?_⟩
  obtain ⟨t, ht, hlast⟩ := map_eq_some_iff.1 hrun
  obtain ⟨⟨a, out⟩, hlast, rfl⟩ := map_eq_some_iff.1 hlast
  have hconforms := (halways.of_run ht).last a _ hlast
  cases a <;> cases hconforms

end HybridCache.CacheMap

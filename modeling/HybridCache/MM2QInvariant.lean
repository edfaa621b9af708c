import HybridCache.MM2Q

/-!
# The flags of the 2Q container name the list of a node

`Agree s L` says that the five lists hold the nodes of `L` and that the flags of every
listed node name its list. A node moves with its flags: each move takes a node out of
one list, links it into another and rewrites the flags of this node only.
-/
namespace HybridCache.MM2Q

open Container MultiDList IntrusiveList Function

variable {ν : Type*}

/-- The flags of the listed nodes name their lists. A node in `Hot` does not carry a tail
flag, which would come to light when it is moved to `Cold`. -/
structure Agree (s : Container ν) (L : LruType → List ν) : Prop where
  lists : s.lru.Lists L
  named : ∀ t n, n ∈ L t → s.getLruType n = t
  hot : ∀ n ∈ L .Hot, s.inTail n = false

/-- The nodes of the two families of lists are the same, and nothing but the lists, the
flags and the times differs between the containers. -/
structure Moved (s u : Container ν) (L M : LruType → List ν) : Prop where
  nodes : ∀ n, (∃ t, n ∈ M t) ↔ ∃ t, n ∈ L t
  inContainer : u.isInMMContainer = s.isInMMContainer
  config : u.config = s.config
  tracking : u.tailTrackingEnabled = s.tailTrackingEnabled

lemma Moved.refl (s : Container ν) (L : LruType → List ν) : Moved s s L L :=
  ⟨fun _ => Iff.rfl, rfl, rfl, rfl⟩

lemma Moved.trans {s u v : Container ν} {L M N : LruType → List ν} (h : Moved s u L M)
    (h' : Moved u v M N) : Moved s v L N :=
  ⟨fun n => (h'.nodes n).trans (h.nodes n), h'.inContainer.trans h.inContainer,
    h'.config.trans h.config, h'.tracking.trans h.tracking⟩

def Flags.lruType (f : Flags) (tracking : Bool) : LruType :=
  if f.mmFlag0 = true then .Hot
  else if f.mmFlag2 = true then (if (tracking && f.mmFlag1) = true then .ColdTail else .Cold)
  else if (tracking && f.mmFlag1) = true then .WarmTail else .Warm

def hasTails (s : Container ν) : Bool := decide (s.config.tailSize ≠ 0)

section FlagMoves

section
variable (f : Flags)

lemma lruType_warmTail_cold (b : Bool) (h : f.lruType b = .WarmTail) :
    Flags.lruType { f with mmFlag1 := false, mmFlag2 := true } b = .Cold := by
  obtain ⟨x, y, z⟩ := f
  revert b x y z
  decide

lemma lruType_warm_cold (b : Bool) (h : f.lruType b = .Warm) :
    Flags.lruType { f with mmFlag2 := true } b = .Cold := by
  obtain ⟨x, y, z⟩ := f
  revert b x y z
  decide

lemma lruType_hot_cold (b : Bool) (h : (b && f.mmFlag1) = false) :
    Flags.lruType { f with mmFlag0 := false, mmFlag2 := true } b = .Cold := by
  obtain ⟨x, y, z⟩ := f
  revert b x y z
  decide

lemma lruType_cold_coldTail (h : f.lruType true = .Cold) :
    Flags.lruType { f with mmFlag1 := true } true = .ColdTail := by
  obtain ⟨x, y, z⟩ := f
  revert x y z
  decide

lemma lruType_warm_warmTail (h : f.lruType true = .Warm) :
    Flags.lruType { f with mmFlag1 := true } true = .WarmTail := by
  obtain ⟨x, y, z⟩ := f
  revert x y z
  decide

lemma lruType_cold_warm (b : Bool) (h : f.lruType b = .Cold) :
    Flags.lruType { f with mmFlag2 := false } b = .Warm := by
  obtain ⟨x, y, z⟩ := f
  revert b x y z
  decide

lemma lruType_coldTail_warm (b : Bool) (h : f.lruType b = .ColdTail) :
    Flags.lruType { f with mmFlag1 := false, mmFlag2 := false } b = .Warm := by
  obtain ⟨x, y, z⟩ := f
  revert b x y z
  decide

lemma lruType_warmTail_warm (b : Bool) (h : f.lruType b = .WarmTail) :
    Flags.lruType { f with mmFlag1 := false } b = .Warm := by
  obtain ⟨x, y, z⟩ := f
  revert b x y z
  decide

end

end FlagMoves

variable [DecidableEq ν]

lemma nodes_transferred {m : MultiDList LruType ν} {L : LruType → List ν} (h : m.Lists L) {n : ν}
    {i j : LruType} (hn : n ∈ L i) (hj : j ≠ i) (k : ν) :
    (∃ t, k ∈ transferred L n i j t) ↔ ∃ t, k ∈ L t :=
  exists_mem_moved hn (fun _ => mem_transferred h hn hj) k

/-- A node changes its list together with its flags; everything else stays. -/
lemma Agree.move {s u : Container ν} {L : LruType → List ν} (h : Agree s L) {n : ν}
    {i j : LruType} {f : Flags} (hn : n ∈ L i) (hj : j ≠ i) (hhot : j ≠ .Hot)
    (hu : u = { s with lru := s.lru.transfer n i j, flags := update s.flags n f })
    (htype : f.lruType (hasTails s) = j) :
    Agree u (transferred L n i j) ∧ Moved s u L (transferred L n i j) := by
  subst hu
  refine ⟨⟨h.lists.transfer hn hj, ?_, ?_⟩, nodes_transferred h.lists hn hj, rfl, rfl, rfl⟩
  · intro t k hk
    change (update s.flags n f k).lruType (hasTails s) = t
    rcases (mem_transferred h.lists hn hj t).1 hk with ⟨rfl, rfl⟩ | ⟨hne, hk⟩
    · rw [update_self]
      exact htype
    · rw [update_of_ne hne]
      exact h.named t k hk
  · intro k hk
    change (hasTails s && (update s.flags n f k).mmFlag1) = false
    rcases (mem_transferred h.lists hn hj _).1 hk with ⟨-, he⟩ | ⟨hne, hk⟩
    · exact absurd he.symm hhot
    · rw [update_of_ne hne]
      exact h.hot k hk

end HybridCache.MM2Q

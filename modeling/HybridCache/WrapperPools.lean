import Mathlib

/-!
# The pool of an attached cache

`CacheLibWrapperImpl` adds its pools to a new allocator, which numbers them from 0. A lookup that
fails gives `kInvalidPoolId`, which is -1, but an instance that attaches takes the
default-constructed id, which is 0, for a failure.
-/
namespace HybridCache.CacheLibWrapperImpl
open Function

def kMaxPools : ℕ := 64

def kInvalidPoolId : ℤ := -1

/-- `size` is the memory of all slabs; the id of a pool is its place in `pools`, a list of
sizes. -/
structure MemoryPoolManager where
  size : ℕ
  pools : List ℕ
  poolsByName : String → Option ℤ

def MemoryPoolManager.init (size : ℕ) : MemoryPoolManager := ⟨size, [], fun _ => none⟩

variable {m m' : MemoryPoolManager} {name : String} {id : ℤ} {ids : List ℤ} {sizes : List ℕ}

def createNewPool (m : MemoryPoolManager) (name : String) (poolSize : ℕ) :
    Except String (ℤ × MemoryPoolManager) :=
  let remaining := m.size - m.pools.sum
  if (m.poolsByName name).isSome then .error "Duplicate pool"
  else if m.pools.length = kMaxPools then .error "All pools exhausted"
  else if remaining < poolSize then
    .error ("Not enough memory (" ++ toString remaining ++
      " bytes) to create a new pool of size " ++ toString poolSize ++ " bytes")
  else .ok (m.pools.length, { m with
    pools := m.pools ++ [poolSize]
    poolsByName := update m.poolsByName name (some m.pools.length) })

def getPoolId (m : MemoryPoolManager) (name : String) : ℤ :=
  (m.poolsByName name).getD kInvalidPoolId

/-- The loop of the constructor, from pool `i` on. -/
def addPools (m : MemoryPoolManager) : ℕ → List ℕ → Except String (List ℤ × MemoryPoolManager)
  | _, [] => .ok ([], m)
  | i, poolSize :: rest =>
    match createNewPool m ("pool_" ++ toString i) poolSize with
    | .error e => .error e
    | .ok (id, m') => (addPools m' (i + 1) rest).map fun (ids, t) => (id :: ids, t)

/-- An instance, with `pool_` and the pools of `allocator_`. -/
abbrev Instance := ℤ × MemoryPoolManager

/-- The constructor. `attached` is the allocator that has been attached to, if any, `created` a
new one, and `poolSizes` are the shares of the pools in bytes. -/
def construct (numPools : ℕ) (poolSizes : List ℕ) (created : MemoryPoolManager)
    (attached : Option MemoryPoolManager) : Except String Instance :=
  if poolSizes.length ≠ numPools then .error "poolSizes length must match numPools"
  else match attached with
    | some m =>
      let pool := getPoolId m "pool_0"
      if pool = default then .error "Failed to get pool_0 from attached cache" else .ok (pool, m)
    | none =>
      match addPools created 0 poolSizes with
      | .error e => .error e
      | .ok ([], _) => .error "No pools created in CacheLibWrapperImpl"
      | .ok (id :: _, m) => .ok (id, m)

lemma createNewPool_ok {poolSize : ℕ} (h : createNewPool m name poolSize = .ok (id, m')) :
    id = m.pools.length ∧ m.poolsByName name = none ∧
      m'.poolsByName = update m.poolsByName name (some id) := by
  simp only [createNewPool] at h
  split_ifs at h with hname
  cases h
  exact ⟨rfl, by simpa using hname, rfl⟩

lemma addPools_cons {i poolSize : ℕ} (h : addPools m i (poolSize :: sizes) = .ok (ids, m')) :
    ∃ id m₁ rest, createNewPool m ("pool_" ++ toString i) poolSize = .ok (id, m₁) ∧
      addPools m₁ (i + 1) sizes = .ok (rest, m') ∧ ids = id :: rest := by
  rw [addPools] at h
  split at h
  · cases h
  · rename_i id m₁ hnew
    cases hrest : addPools m₁ (i + 1) sizes with
    | error e =>
      rw [hrest] at h
      cases h
    | ok r =>
      rw [hrest] at h
      cases h
      exact ⟨id, m₁, r.1, hnew, hrest, rfl⟩

/-- A name is never given to a second pool. -/
lemma addPools_keeps {i : ℕ} (h : addPools m i sizes = .ok (ids, m'))
    (hid : m.poolsByName name = some id) : m'.poolsByName name = some id := by
  induction sizes generalizing m i ids with
  | nil =>
    cases h
    exact hid
  | cons poolSize sizes ih =>
    obtain ⟨id', m₁, rest, hnew, hrest, -⟩ := addPools_cons h
    obtain ⟨-, hnone, hnames⟩ := createNewPool_ok hnew
    have hne : name ≠ "pool_" ++ toString i := by
      rintro rfl
      rw [hid] at hnone
      cases hnone
    exact ih hrest (by rw [hnames, update_of_ne hne, hid])

lemma construct_created {numPools : ℕ} {first : Instance}
    (h : construct numPools sizes m none = .ok first) :
    first.1 = m.pools.length ∧ getPoolId first.2 "pool_0" = first.1 := by
  simp only [construct] at h
  split_ifs at h
  split at h
  · cases h
  · cases h
  · rename_i id ids m' hadd
    cases h
    cases sizes with
    | nil => cases hadd
    | cons poolSize sizes =>
      obtain ⟨id', m₁, rest, hnew, hrest, heq⟩ := addPools_cons hadd
      cases heq
      obtain ⟨hid, -, hnames⟩ := createNewPool_ok hnew
      have hzero : m₁.poolsByName "pool_0" = some id := by
        rw [hnames]
        exact update_self ..
      rw [getPoolId, addPools_keeps hrest hzero]
      exact ⟨hid, rfl⟩

/-- An instance that attaches comes up with the pool of the instance that created the cache
exactly if the allocator had other pools before; a new one has none. -/
theorem attached_pool_iff (created created' : MemoryPoolManager) (numPools numPools' : ℕ)
    (sizes sizes' : List ℕ) (hlength : sizes'.length = numPools') (first : Instance)
    (hfirst : construct numPools sizes created none = .ok first) :
    construct numPools' sizes' created' (some first.2) = .ok (first.1, first.2) ↔
      created.pools ≠ [] := by
  obtain ⟨hid, hget⟩ := construct_created hfirst
  have hzero : first.1 = default ↔ created.pools = [] := by
    rw [hid, Int.default_eq_zero, Int.natCast_eq_zero, List.length_eq_zero_iff]
  simp only [construct, hlength, hget, ne_eq, not_true_eq_false, if_false, ← hzero]
  by_cases h : first.1 = default
  · simp [h]
  · simp only [h, if_false, not_false_eq_true]

/-- Its own allocator is new, and attaching fails. -/
theorem attach_to_created_throws :
    ∃ first, construct 1 [4194304] (.init 8388608) none = .ok first ∧ first.1 = 0 ∧
      construct 1 [4194304] (.init 8388608) (some first.2) =
        .error "Failed to get pool_0 from attached cache" :=
  ⟨_, rfl, rfl, rfl⟩

def oneOther : MemoryPoolManager := ⟨8388608, [4194304], fun _ => none⟩

/-- After a pool of another name `pool_0` has the id 1. -/
theorem attached_pool_after_other :
    ∃ first, construct 1 [4194304] oneOther none = .ok first ∧
      construct 1 [4194304] (.init 8388608) (some first.2) = .ok (first.1, first.2) :=
  ⟨_, rfl, (attached_pool_iff oneOther (.init 8388608) 1 1 [4194304] [4194304] rfl _ rfl).2
    (by simp [oneOther])⟩

end HybridCache.CacheLibWrapperImpl

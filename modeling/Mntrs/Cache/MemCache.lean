import Mntrs.Base.Machine
import Mntrs.Model.State

/-!
# The in-memory block cache

`DashMapMemCache` (`src/src/cache.rs:397-620`): the blocks under their inode and block number, the
keys of each inode, a queue of keys for eviction and a counter of the bytes. Eviction leaves keys of
evicted blocks in the reverse sets, and an insertion over a block leaves a second copy of its key in
the queue. Operations run one at a time. The counter is a `u64` that the source lowers with
`fetch_sub`, which wraps: here an operation that would take it below zero has no result. The sum of
the lengths of blocks in memory does not reach `2 ^ 64`, so additions are those of `Nat`. The
back-pressure deadline and the statistics are left out.
-/

namespace Mntrs

open Base

/-- `MemCacheKey`. -/
abbrev MemCacheKey := Ino × Nat

/-- `DashMapMemCache`. -/
structure MemCache where
  inner : Table MemCacheKey Bytes
  byIno : Table Ino (List MemCacheKey)
  order : List MemCacheKey
  used : Nat

namespace MemCache

/-- `DashMapMemCache::new`. -/
def new : MemCache := ⟨∅, ∅, [], 0⟩

/-- `inner.remove` of a key, with its length off the counter. -/
def remove (c : MemCache) (k : MemCacheKey) : Option MemCache :=
  match c.inner.lookup k with
  | none => some c
  | some old =>
    if old.length ≤ c.used then
      some { c with inner := c.inner.erase k, used := c.used - old.length }
    else none

/-- The back-pressure loop of `put`, `482-524`: it pops keys off the queue until the block fits or
the queue is empty. -/
def makeRoom (memLimit size : Nat) (c : MemCache) : List MemCacheKey → Option MemCache
  | [] => some { c with order := [] }
  | victim :: rest =>
    if c.used + size ≤ memLimit then some { c with order := victim :: rest }
    else
      match c.remove victim with
      | none => none
      | some c => makeRoom memLimit size c rest

def roomFor (memLimit size : Nat) (c : MemCache) : Option MemCache :=
  if 0 < memLimit then c.makeRoom memLimit size c.order else some c

/-- The insertion of a block at the end of `put`, `558-567`. -/
def insert (c : MemCache) (ino : Ino) (block : Nat) (data : Bytes) : MemCache where
  inner := c.inner.insert (ino, block) data
  byIno := c.byIno.insert ino (((c.byIno.lookup ino).getD []).insert (ino, block))
  order := c.order ++ [(ino, block)]
  used := c.used + data.length

/-- `put`, `474-577`. A limit of zero means no limit. -/
def put (memLimit : Nat) (c : MemCache) (ino : Ino) (block : Nat) (data : Bytes) :
    Option MemCache := do
  let c ← c.roomFor memLimit data.length
  let c ← c.remove (ino, block)
  return c.insert ino block data

/-- `get`, `461-472`. -/
def get (c : MemCache) (ino : Ino) (block : Nat) : Option Bytes := c.inner.lookup (ino, block)

/-- The loop of `invalidate_ino` over the keys of the inode: the blocks left and the bytes
removed. -/
def removeKeys (inner : Table MemCacheKey Bytes) :
    List MemCacheKey → Table MemCacheKey Bytes × Nat
  | [] => (inner, 0)
  | k :: keys =>
    match inner.lookup k with
    | none => removeKeys inner keys
    | some v =>
      let (left, removed) := removeKeys (inner.erase k) keys
      (left, v.length + removed)

/-- `invalidate_ino`, `578-613`. -/
def invalidateIno (c : MemCache) (ino : Ino) : Option MemCache :=
  match c.byIno.lookup ino with
  | none => some c
  | some keys =>
    let (inner, removed) := removeKeys c.inner keys
    if removed ≤ c.used then
      some {
        inner := inner
        byIno := c.byIno.erase ino
        order := c.order.filter (fun k ↦ k.1 ≠ ino)
        used := c.used - removed }
    else none

/-- The bytes of the stored blocks. -/
def storedBytes (c : MemCache) : Nat := Table.weight List.length c.inner

/-- What every history keeps: the counter is exact, and every stored key is in the queue and in the
set of its inode, which holds no key of another inode. -/
structure Sound (c : MemCache) : Prop where
  used : c.used = c.storedBytes
  order : ∀ k ∈ c.inner, k ∈ c.order
  byIno : ∀ k ∈ c.inner, ∃ keys, c.byIno.lookup k.1 = some keys ∧ k ∈ keys
  own : ∀ ino keys, c.byIno.lookup ino = some keys → ∀ k ∈ keys, k.1 = ino

variable {c c' : MemCache} {k : MemCacheKey} {ino : Ino} {block memLimit size : Nat} {data : Bytes}

theorem sound_new : Sound new := by
  constructor <;> simp [new, storedBytes, Table.weight]

/-- A removal has a result, takes the key out and changes neither the queue nor the sets. -/
theorem exists_remove (hused : c.used = c.storedBytes) (k : MemCacheKey) :
    ∃ c', c.remove k = some c' ∧ c'.used = c'.storedBytes ∧ c'.used ≤ c.used ∧
      c'.inner = c.inner.erase k ∧ c'.order = c.order ∧ c'.byIno = c.byIno := by
  unfold remove
  cases hk : c.inner.lookup k with
  | none =>
    have hnot : k ∉ c.inner.keys := AList.lookup_eq_none.mp hk
    have herase : c.inner.erase k = c.inner := AList.ext (List.kerase_of_notMem_keys hnot)
    exact ⟨c, rfl, hused, Nat.le_refl _, herase.symm, rfl, rfl⟩
  | some old =>
    have hweight : c.storedBytes = _ := Table.weight_erase List.length hk
    simp only
    rw [if_pos (by omega)]
    refine ⟨_, rfl, ?_, Nat.sub_le _ _, rfl, rfl, rfl⟩
    change c.used - old.length = Table.weight List.length (c.inner.erase k)
    omega

/-- The loop has a result. It keeps the counter exact and the sets, stores no new block, drops from
the queue only keys it removes, and ends with room for the block or with nothing stored. -/
theorem exists_makeRoom (memLimit size : Nat) (hused : c.used = c.storedBytes) :
    ∀ queue : List MemCacheKey, (∀ k ∈ c.inner, k ∈ queue) →
    ∃ c', c.makeRoom memLimit size queue = some c' ∧ c'.used = c'.storedBytes ∧
      (∀ k ∈ c'.inner, k ∈ c.inner ∧ k ∈ c'.order) ∧ c'.byIno = c.byIno ∧
      (c'.used + size ≤ memLimit ∨ c'.used = 0) := by
  intro queue
  induction queue generalizing c with
  | nil =>
    intro hqueue
    have hempty : c.inner.entries = [] :=
      List.eq_nil_iff_forall_not_mem.mpr (fun e he ↦ by cases hqueue e.1 (List.mem_keys_of_mem he))
    refine ⟨_, rfl, hused, fun k hk ↦ absurd (hqueue k hk) List.not_mem_nil, rfl, .inr ?_⟩
    rw [hused, storedBytes, Table.weight, hempty]
    rfl
  | cons victim rest ih =>
    intro hqueue
    unfold makeRoom
    split
    · next hroom => exact ⟨_, rfl, hused, fun k hk ↦ ⟨hk, hqueue k hk⟩, rfl, .inl hroom⟩
    · obtain ⟨c₁, hremove, hused₁, -, hinner, -, hbyIno⟩ := exists_remove hused victim
      have hqueue₁ : ∀ k ∈ c₁.inner, k ∈ c.inner ∧ k ∈ rest := by
        intro k hk
        rw [hinner, AList.mem_erase] at hk
        exact ⟨hk.2, (List.mem_cons.mp (hqueue k hk.2)).resolve_left hk.1⟩
      obtain ⟨c₂, hroom, hused₂, hkept, hsets, hfits⟩ := ih hused₁ (fun k hk ↦ (hqueue₁ k hk).2)
      rw [hremove]
      exact ⟨c₂, hroom, hused₂, fun k hk ↦ ⟨(hqueue₁ k (hkept k hk).1).1, (hkept k hk).2⟩,
        hsets.trans hbyIno, hfits⟩

/-- Storing a block under a free key keeps everything. -/
private theorem Sound.insert (h : c.Sound) (hfree : c.inner.lookup (ino, block) = none)
    (data : Bytes) : (c.insert ino block data).Sound where
  used := by
    have hweight := Table.weight_insert List.length data hfree
    change c.used + data.length = Table.weight List.length (c.inner.insert (ino, block) data)
    rw [hweight, h.used, Nat.add_comm]
    rfl
  order k hk := by
    rcases (AList.mem_insert _).mp hk with rfl | hold
    · exact List.mem_append_right _ (List.mem_singleton_self _)
    · exact List.mem_append_left _ (h.order k hold)
  byIno k hk := by
    simp only [MemCache.insert]
    rcases (AList.mem_insert _).mp hk with rfl | hold
    · exact ⟨_, AList.lookup_insert _, List.mem_insert_self⟩
    · obtain ⟨keys, hkeys, hmem⟩ := h.byIno k hold
      by_cases hino : k.1 = ino
      · subst hino
        refine ⟨_, AList.lookup_insert _, List.mem_insert_of_mem ?_⟩
        rwa [hkeys]
      · exact ⟨keys, by rwa [AList.lookup_insert_ne hino], hmem⟩
  own i keys hkeys k hk := by
    simp only [MemCache.insert] at hkeys
    by_cases hino : i = ino
    · subst hino
      rw [AList.lookup_insert] at hkeys
      cases hkeys
      rcases List.mem_insert_iff.mp hk with rfl | hold
      · rfl
      · cases hset : c.byIno.lookup i with
        | none => simp [hset] at hold
        | some old => exact h.own i old hset k (by simpa [hset] using hold)
    · rw [AList.lookup_insert_ne hino] at hkeys
      exact h.own i keys hkeys k hk

/-- An insertion has a result, and leaves the counter within the limit or at the block's size. -/
theorem Sound.exists_put (h : c.Sound) (memLimit : Nat) (ino : Ino) (block : Nat) (data : Bytes) :
    ∃ c', c.put memLimit ino block data = some c' ∧ c'.Sound ∧
      (0 < memLimit → c'.used ≤ max memLimit data.length) := by
  obtain ⟨c₁, hroom, hused, hkept, hsets, hfits⟩ : ∃ c₁, c.roomFor memLimit data.length = some c₁ ∧
      c₁.used = c₁.storedBytes ∧ (∀ k ∈ c₁.inner, k ∈ c.inner ∧ k ∈ c₁.order) ∧
      c₁.byIno = c.byIno ∧ (0 < memLimit → c₁.used + data.length ≤ memLimit ∨ c₁.used = 0) := by
    unfold roomFor
    split
    · obtain ⟨c₁, hroom, hused, hkept, hsets, hfits⟩ :=
        exists_makeRoom memLimit data.length h.used c.order h.order
      exact ⟨c₁, hroom, hused, hkept, hsets, fun _ ↦ hfits⟩
    · next hnone =>
      exact ⟨c, rfl, h.used, fun k hk ↦ ⟨hk, h.order k hk⟩, rfl, fun hlimit ↦ absurd hlimit hnone⟩
  obtain ⟨c₂, hremove, hused₂, hless, hinner, horder, hbyIno⟩ := exists_remove hused (ino, block)
  have hsound : c₂.Sound := by
    refine ⟨hused₂, fun k hk ↦ ?_, fun k hk ↦ ?_, fun i keys hkeys ↦ ?_⟩
    · rw [hinner, AList.mem_erase] at hk
      rw [horder]
      exact (hkept k hk.2).2
    · rw [hinner, AList.mem_erase] at hk
      rw [hbyIno, hsets]
      exact h.byIno k (hkept k hk.2).1
    · rw [hbyIno, hsets] at hkeys
      exact h.own i keys hkeys
  refine ⟨c₂.insert ino block data, by simp [put, hroom, hremove], ?_, fun hlimit ↦ ?_⟩
  · exact hsound.insert (by rw [hinner, AList.lookup_erase]) data
  · change c₂.used + data.length ≤ _
    omega

/-- The loop over the keys removes exactly their blocks, and adds up their bytes. -/
private theorem removeKeys_spec (inner : Table MemCacheKey Bytes) (keys : List MemCacheKey) :
    (∀ k, (removeKeys inner keys).1.lookup k = if k ∈ keys then none else inner.lookup k) ∧
      Table.weight List.length inner = (removeKeys inner keys).2 +
        Table.weight List.length (removeKeys inner keys).1 := by
  induction keys generalizing inner with
  | nil => simp [removeKeys]
  | cons k₀ keys ih =>
    cases hk : inner.lookup k₀ with
    | none =>
      simp only [removeKeys, hk]
      refine ⟨fun k ↦ ?_, (ih inner).2⟩
      rw [(ih inner).1 k]
      by_cases hk₀ : k = k₀
      · subst hk₀
        simp [hk]
      · simp [hk₀]
    | some v =>
      obtain ⟨hlookup, hweight⟩ := ih (inner.erase k₀)
      simp only [removeKeys, hk]
      refine ⟨fun k ↦ ?_, ?_⟩
      · rw [hlookup k]
        by_cases hk₀ : k = k₀
        · subst hk₀
          simp
        · simp [hk₀, AList.lookup_erase_ne hk₀]
      · rw [Table.weight_erase List.length hk, hweight, Nat.add_assoc]

/-- An invalidation has a result and removes exactly the blocks of its inode. -/
theorem Sound.exists_invalidateIno (h : c.Sound) (ino : Ino) :
    ∃ c', c.invalidateIno ino = some c' ∧ c'.Sound ∧
      ∀ k, c'.inner.lookup k = if k.1 = ino then none else c.inner.lookup k := by
  unfold invalidateIno
  cases hset : c.byIno.lookup ino with
  | none =>
    refine ⟨c, rfl, h, fun k ↦ ?_⟩
    split
    · next hino =>
      refine AList.lookup_eq_none.mpr (fun hk ↦ ?_)
      obtain ⟨keys, hkeys, -⟩ := h.byIno k hk
      rw [hino, hset] at hkeys
      cases hkeys
    · rfl
  | some keys =>
    obtain ⟨hlookup, hweight⟩ := removeKeys_spec c.inner keys
    have hexact : ∀ k, (removeKeys c.inner keys).1.lookup k =
        if k.1 = ino then none else c.inner.lookup k := by
      intro k
      rw [hlookup k]
      by_cases hino : k.1 = ino
      · rw [if_pos hino, ite_eq_left_iff]
        intro hnot
        refine AList.lookup_eq_none.mpr (fun hk ↦ hnot ?_)
        obtain ⟨keys', hkeys', hmem⟩ := h.byIno k hk
        rw [hino, hset, Option.some.injEq] at hkeys'
        exact hkeys' ▸ hmem
      · rw [if_neg hino, if_neg (fun hk ↦ hino (h.own ino keys hset k hk))]
    have hused : c.used = Table.weight List.length c.inner := h.used
    -- a block that is left is a block of another inode that was there
    have hleft : ∀ k ∈ (removeKeys c.inner keys).1, k.1 ≠ ino ∧ k ∈ c.inner := by
      intro k hk
      have hfound := AList.lookup_isSome.mpr hk
      rw [hexact k] at hfound
      split at hfound
      · cases hfound
      · next hino => exact ⟨hino, AList.lookup_isSome.mp hfound⟩
    simp only
    rw [if_pos (by omega)]
    refine ⟨_, rfl, ⟨?_, fun k hk ↦ ?_, fun k hk ↦ ?_, fun i keys' hkeys' ↦ ?_⟩, hexact⟩
    · change c.used - _ = Table.weight List.length (removeKeys c.inner keys).1
      omega
    · exact List.mem_filter.mpr ⟨h.order k (hleft k hk).2, by simpa using (hleft k hk).1⟩
    · simp only [AList.lookup_erase_ne (hleft k hk).1]
      exact h.byIno k (hleft k hk).2
    · by_cases hi : i = ino
      · subst hi
        simp at hkeys'
      · rw [AList.lookup_erase_ne hi] at hkeys'
        exact h.own i keys' hkeys'

end MemCache

/-- The operations of the cache. -/
inductive MemOp where
  | put (ino : Ino) (block : Nat) (data : Bytes)
  | get (ino : Ino) (block : Nat)
  | invalidateIno (ino : Ino)
  | clear

/-- One operation; `clear` is `615-620`. -/
def memStep (memLimit : Nat) : MemOp → MemCache → Option MemCache
  | .put ino block data, c => c.put memLimit ino block data
  | .get _ _, c => some c
  | .invalidateIno ino, c => c.invalidateIno ino
  | .clear, _ => some .new

/-- Every history has a result: no subtraction goes below zero. The cache is sound after it, an
insertion leaves the counter within the limit or at the size of its block, and an invalidation
removes exactly the blocks of its inode. -/
theorem mem_cache_of_history (memLimit : Nat) (ops : List MemOp) :
    ∃ c, exec (memStep memLimit) ops .new = some c ∧ c.Sound ∧
      (∀ ino block data, ∃ c', c.put memLimit ino block data = some c' ∧
        (0 < memLimit → c'.used ≤ max memLimit data.length)) ∧
      ∀ ino, ∃ c', c.invalidateIno ino = some c' ∧
        ∀ k, c'.inner.lookup k = if k.1 = ino then none else c.inner.lookup k := by
  have hrun : ∀ c : MemCache, c.Sound →
      ∃ c', exec (memStep memLimit) ops c = some c' ∧ c'.Sound := by
    induction ops with
    | nil => exact fun c hc ↦ ⟨c, rfl, hc⟩
    | cons op ops ih =>
      intro c hc
      obtain ⟨c₁, hstep, hc₁⟩ : ∃ c₁, memStep memLimit op c = some c₁ ∧ c₁.Sound := by
        cases op with
        | put ino block data =>
          obtain ⟨c₁, hput, hc₁, -⟩ := hc.exists_put memLimit ino block data
          exact ⟨c₁, hput, hc₁⟩
        | get ino block => exact ⟨c, rfl, hc⟩
        | invalidateIno ino =>
          obtain ⟨c₁, hinvalidate, hc₁, -⟩ := hc.exists_invalidateIno ino
          exact ⟨c₁, hinvalidate, hc₁⟩
        | clear => exact ⟨.new, rfl, MemCache.sound_new⟩
      rw [exec, hstep]
      exact ih c₁ hc₁
  obtain ⟨c, hc, hsound⟩ := hrun .new MemCache.sound_new
  refine ⟨c, hc, hsound, fun ino block data ↦ ?_, fun ino ↦ ?_⟩
  · obtain ⟨c', hput, -, hlimit⟩ := hsound.exists_put memLimit ino block data
    exact ⟨c', hput, hlimit⟩
  · obtain ⟨c', hinvalidate, -, hexact⟩ := hsound.exists_invalidateIno ino
    exact ⟨c', hinvalidate, hexact⟩

end Mntrs

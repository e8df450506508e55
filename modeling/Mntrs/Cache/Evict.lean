import Mathlib.Data.Char
import Mathlib.Data.List.Lex
import Mathlib.Data.Prod.Lex
import Mathlib.Order.WithBot
import Mntrs.Base.Drain
import Mntrs.Model.State

/-!
# Eviction from the cache directory

Models `evict_if_needed`, `src/src/lib.rs:1073-1284`: the sum over the index, the two capacity
deltas, the age sweep and the drain of the oldest entries, with `LruHeapEntry`'s order
(`137-167`) and `is_cache_file_expired` (`src/src/util.rs:615-633`). The doc comment of the
function promises that whole-file entries with a `.dirty` sidecar are skipped; the drain does
not look at the sidecar.
-/

namespace Mntrs

open Base

/-- `is_cache_file_expired`: a missing file and a time in the future are not expired. -/
def isCacheFileExpired (maxAge now : Nat) (mtime : Option Nat) : Bool :=
  if maxAge = 0 then false
  else match mtime with
    | none => false
    | some t => if now < t then false else now - t > maxAge

/-- The modification time of the cache file an index key names. -/
def cacheFileMtime (cfg : Config) (d : Disk) (key : CacheKey) : Option Nat :=
  let n := cfg.writeBufferPath key.1
  match key.2 with
  | some i => (d.block n i).map BlockFile.mtime
  | none => (d.whole n).map d.mtime

/-- The cache file an index key names exists. -/
def cacheFileExists (cfg : Config) (d : Disk) (key : CacheKey) : Bool :=
  (cacheFileMtime cfg d key).isSome

/-- The key is a whole-file key whose `.dirty` sidecar exists. -/
def hasDirtySidecar (cfg : Config) (d : Disk) (key : CacheKey) : Bool :=
  key.2.isNone && (d.dirty (cfg.writeBufferPath key.1)).isSome

/-- Whether the age sweep takes a key, `src/src/lib.rs:1168-1186`. -/
def ageRemovable (cfg : Config) (now : Nat) (d : Disk) (key : CacheKey) : Bool :=
  if !cacheFileExists cfg d key then true
  else if hasDirtySidecar cfg d key then false
  else isCacheFileExpired cfg.cacheMaxAge now (cacheFileMtime cfg d key)

/-- Remove the file of a key, the `.meta` sidecar of a whole file, and the index entry. -/
def removeCacheEntry (cfg : Config) (fs : MntrsFs) (key : CacheKey) : MntrsFs :=
  let n := cfg.writeBufferPath key.1
  { fs with
    disk := match key.2 with
      | some i => fs.disk.removeBlock n i
      | none => (fs.disk.removeWhole n).removeMeta n
    diskCacheIndex := fs.diskCacheIndex.erase key }

/-- Remove a list of keys one after the other. -/
def removeCacheEntries (cfg : Config) (fs : MntrsFs) (keys : List CacheKey) : MntrsFs :=
  keys.foldl (removeCacheEntry cfg) fs

/-- The sum of the index sizes. -/
def totalSize (fs : MntrsFs) : Nat := (fs.diskCacheIndex.entries.map (fun e ↦ e.2.1)).sum

/-- The bytes to free: the larger of the excess over the size limit and the shortfall of free
space. `free` is the `statvfs` reading, `none` when the call fails. -/
def bytesToFree (cfg : Config) (free : Option Nat) (fs : MntrsFs) : Nat :=
  let needFree : Option Nat :=
    if 0 < cfg.cacheMinFreeSpace then
      match free with
      | some f => if f < cfg.cacheMinFreeSpace then some (cfg.cacheMinFreeSpace - f) else none
      | none => none
    else none
  let sizeLimit := if 0 < cfg.cacheMaxSize then totalSize fs - cfg.cacheMaxSize else 0
  max sizeLimit (needFree.getD 0)

/-- The age sweep: collect the keys first, then remove them. -/
def ageSweep (cfg : Config) (now : Nat) (fs : MntrsFs) : MntrsFs :=
  removeCacheEntries cfg fs
    ((fs.diskCacheIndex.entries.map Sigma.fst).filter (ageRemovable cfg now fs.disk))

/-- `LruHeapEntry`'s order: access time, key, size. The byte order of UTF-8 strings is the
order of their code points. -/
def lruRank (e : Sigma fun _ : CacheKey ↦ Nat × Nat) : Nat ×ₗ (Path ×ₗ WithBot Nat) ×ₗ Nat :=
  toLex (e.2.2, toLex (toLex (e.1.1, e.1.2), e.2.1))

/-- The drain of the oldest entries until enough bytes are freed. -/
def lruDrain (cfg : Config) (toFree : Nat) (fs : MntrsFs) : MntrsFs :=
  removeCacheEntries cfg fs
    ((drainBy lruRank (fun e ↦ e.2.1) toFree fs.diskCacheIndex.entries).map Sigma.fst)

/-- `evict_if_needed`, `src/src/lib.rs:1073-1284`. -/
def evictIfNeeded (cfg : Config) (now : Nat) (free : Option Nat) (fs : MntrsFs) : MntrsFs :=
  if cfg.cacheMaxSize = 0 ∧ cfg.cacheMinFreeSpace = 0 ∧ cfg.cacheMaxAge = 0 then fs
  else
    let toFree := bytesToFree cfg free fs
    let fs := if cfg.cacheMaxAge = 0 then fs else ageSweep cfg now fs
    if toFree = 0 then fs else lruDrain cfg toFree fs

/-! ### What removing entries leaves -/

/-- Some key of a list is the whole-file key of a cache name. -/
def namesWhole (cfg : Config) (keys : List CacheKey) (n : CacheName) : Prop :=
  ∃ p, (p, none) ∈ keys ∧ cfg.writeBufferPath p = n

section Removal

variable (cfg : Config) (fs : MntrsFs) (keys : List CacheKey)

/-- Removal takes exactly the listed keys out of the index. -/
theorem lookup_removeCacheEntries (key : CacheKey) :
    (removeCacheEntries cfg fs keys).diskCacheIndex.lookup key =
      if key ∈ keys then none else fs.diskCacheIndex.lookup key := by
  induction keys generalizing fs with
  | nil => simp [removeCacheEntries]
  | cons k keys ih =>
    have hrest := ih (removeCacheEntry cfg fs k)
    simp only [removeCacheEntries, List.foldl_cons] at hrest ⊢
    rw [hrest]
    by_cases hk : key = k
    · subst hk
      simp [removeCacheEntry]
    · simp [removeCacheEntry, hk, AList.lookup_erase_ne hk]

theorem disk_removeCacheEntries :
    ∃ whole metaFile block, (removeCacheEntries cfg fs keys).disk =
      { fs.disk with whole := whole, metaFile := metaFile, block := block } := by
  induction keys generalizing fs with
  | nil => exact ⟨_, _, _, rfl⟩
  | cons k keys ih =>
    obtain ⟨whole, metaFile, block, hrest⟩ := ih (removeCacheEntry cfg fs k)
    simp only [removeCacheEntries, List.foldl_cons] at hrest ⊢
    rw [hrest]
    obtain ⟨p, i⟩ := k
    cases i <;> exact ⟨whole, metaFile, block, rfl⟩

@[simp] theorem dirty_removeCacheEntries :
    (removeCacheEntries cfg fs keys).disk.dirty = fs.disk.dirty := by
  obtain ⟨_, _, _, hdisk⟩ := disk_removeCacheEntries cfg fs keys
  rw [hdisk]

@[simp] theorem data_removeCacheEntries :
    (removeCacheEntries cfg fs keys).disk.data = fs.disk.data := by
  obtain ⟨_, _, _, hdisk⟩ := disk_removeCacheEntries cfg fs keys
  rw [hdisk]

/-- Removal unlinks exactly the whole-file caches the keys name. -/
theorem whole_removeCacheEntries (n : CacheName) :
    (namesWhole cfg keys n → (removeCacheEntries cfg fs keys).disk.whole n = none) ∧
    (¬ namesWhole cfg keys n →
      (removeCacheEntries cfg fs keys).disk.whole n = fs.disk.whole n) := by
  induction keys generalizing fs with
  | nil => simp [namesWhole, removeCacheEntries]
  | cons k keys ih =>
    obtain ⟨hin, hout⟩ := ih (removeCacheEntry cfg fs k)
    simp only [removeCacheEntries, List.foldl_cons] at hin hout ⊢
    obtain ⟨q, i⟩ := k
    cases i with
    | some i =>
      -- a block key names no whole-file cache
      have hiff : namesWhole cfg ((q, some i) :: keys) n ↔ namesWhole cfg keys n := by
        simp [namesWhole]
      rw [hiff]
      exact ⟨hin, hout⟩
    | none =>
      by_cases hkeys : namesWhole cfg keys n
      · have hcons : namesWhole cfg ((q, none) :: keys) n := by
          obtain ⟨p, hp, hn⟩ := hkeys
          exact ⟨p, List.mem_cons_of_mem _ hp, hn⟩
        exact ⟨fun _ ↦ hin hkeys, fun h ↦ absurd hcons h⟩
      · rw [hout hkeys]
        by_cases hn : cfg.writeBufferPath q = n
        · subst hn
          refine ⟨fun _ ↦ by simp [removeCacheEntry, Disk.removeWhole, Disk.removeMeta],
            fun h ↦ ?_⟩
          exact absurd ⟨q, List.mem_cons_self, rfl⟩ h
        · refine ⟨fun h ↦ ?_, fun _ ↦ ?_⟩
          · obtain ⟨p, hp, hpn⟩ := h
            rcases List.mem_cons.mp hp with heq | hp
            · cases heq
              exact absurd hpn hn
            · exact absurd ⟨p, hp, hpn⟩ hkeys
          · simp [removeCacheEntry, Disk.removeWhole, Disk.removeMeta,
              Function.update_of_ne (Ne.symm hn)]

/-- The block files that are left are those whose key is not in the list. -/
theorem block_removeCacheEntries (n : CacheName) (i : Nat) :
    (removeCacheEntries cfg fs keys).disk.block n i =
      if ∃ key ∈ keys, cfg.writeBufferPath key.1 = n ∧ key.2 = some i then none
      else fs.disk.block n i := by
  induction keys generalizing fs with
  | nil => simp [removeCacheEntries]
  | cons key keys ih =>
    have hrest := ih (removeCacheEntry cfg fs key)
    simp only [removeCacheEntries, List.foldl_cons] at hrest ⊢
    rw [hrest]
    by_cases htail : ∃ k ∈ keys, cfg.writeBufferPath k.1 = n ∧ k.2 = some i
    · simp [htail]
    · obtain ⟨p, index⟩ := key
      cases index with
      | none => simp [removeCacheEntry, htail, Disk.removeWhole, Disk.removeMeta]
      | some j =>
        by_cases hn : cfg.writeBufferPath p = n
        · subst hn
          by_cases hi : j = i
          · subst hi
            simp [removeCacheEntry, Disk.removeBlock]
          · simp [removeCacheEntry, Disk.removeBlock, htail, hi, Function.update_of_ne (Ne.symm hi)]
        · simp [removeCacheEntry, Disk.removeBlock, htail, hn, Function.update_of_ne (Ne.symm hn)]

theorem removeCacheEntries_frame :
    removeCacheEntries cfg fs keys =
      { fs with
        disk := (removeCacheEntries cfg fs keys).disk
        diskCacheIndex := (removeCacheEntries cfg fs keys).diskCacheIndex } := by
  induction keys generalizing fs with
  | nil => rfl
  | cons k keys ih =>
    have hrest := ih (removeCacheEntry cfg fs k)
    simp only [removeCacheEntries, List.foldl_cons] at hrest ⊢
    rw [hrest]
    rfl

theorem entries_removeCacheEntries :
    (removeCacheEntries cfg fs keys).diskCacheIndex.entries =
      fs.diskCacheIndex.entries.filter (fun e ↦ e.1 ∉ keys) := by
  induction keys generalizing fs with
  | nil => simp [removeCacheEntries]
  | cons k keys ih =>
    have hrest := ih (removeCacheEntry cfg fs k)
    simp only [removeCacheEntries, List.foldl_cons] at hrest ⊢
    rw [hrest, removeCacheEntry, Table.entries_erase, List.filter_filter]
    apply List.filter_congr
    intro e _
    simp [not_or, Bool.and_comm]

end Removal

/-! ### Whole-file entries with a sidecar -/

/-- The capacity pressure on the cache: what exceeds the size limit, or what is missing from
the free space, whichever is more. -/
def pressure (cfg : Config) (free : Option Nat) (fs : MntrsFs) : Nat :=
  max (if cfg.cacheMaxSize = 0 then 0 else totalSize fs - cfg.cacheMaxSize)
    (cfg.cacheMinFreeSpace - free.getD cfg.cacheMinFreeSpace)

/-- The index entries that are not removable by age. -/
def survivors (cfg : Config) (now : Nat) (fs : MntrsFs) :
    List (Sigma fun _ : CacheKey ↦ Nat × Nat) :=
  fs.diskCacheIndex.entries.filter
    (fun e ↦ cfg.cacheMaxAge = 0 ∨ ageRemovable cfg now fs.disk e.1 = false)

/-- A whole-file entry that holds un-uploaded data: its sidecar and its file exist. -/
def Unuploaded (cfg : Config) (fs : MntrsFs) (p : Path) : Prop :=
  hasDirtySidecar cfg fs.disk (p, none) ∧ cacheFileExists cfg fs.disk (p, none)

/-- Eviction keeps the index entry and the cache file of every entry with un-uploaded data. -/
def EvictKeepsUnuploaded (cfg : Config) (now : Nat) (free : Option Nat) (fs : MntrsFs) : Prop :=
  ∀ p v, fs.diskCacheIndex.lookup (p, none) = some v → Unuploaded cfg fs p →
    (evictIfNeeded cfg now free fs).diskCacheIndex.lookup (p, none) = some v ∧
    (evictIfNeeded cfg now free fs).disk.whole (cfg.writeBufferPath p) =
      fs.disk.whole (cfg.writeBufferPath p)

/-- Either there is no capacity pressure, or the surviving entries older than any entry with
un-uploaded data are large enough to relieve it. -/
def OlderEntriesSuffice (cfg : Config) (now : Nat) (free : Option Nat) (fs : MntrsFs) : Prop :=
  pressure cfg free fs = 0 ∨
    ∀ p v, ⟨(p, none), v⟩ ∈ survivors cfg now fs → Unuploaded cfg fs p →
      pressure cfg free fs ≤
        sizeBelow lruRank (fun e ↦ e.2.1) (survivors cfg now fs) ⟨(p, none), v⟩

theorem bytesToFree_eq_pressure (cfg : Config) (free : Option Nat) (fs : MntrsFs) :
    bytesToFree cfg free fs = pressure cfg free fs := by
  have hsize : (if 0 < cfg.cacheMaxSize then totalSize fs - cfg.cacheMaxSize else 0) =
      if cfg.cacheMaxSize = 0 then 0 else totalSize fs - cfg.cacheMaxSize := by
    by_cases h : cfg.cacheMaxSize = 0
    · simp [h]
    · rw [if_pos (Nat.pos_of_ne_zero h), if_neg h]
  simp only [bytesToFree, pressure, hsize]
  congr 1
  by_cases hmin : 0 < cfg.cacheMinFreeSpace
  · cases free with
    | none => simp [hmin]
    | some f =>
      by_cases hf : f < cfg.cacheMinFreeSpace
      · simp [hmin, hf]
      · simp [hmin, hf]
        omega
  · simp [hmin]
    omega

theorem pressure_of_no_limits {cfg : Config} (free : Option Nat) (fs : MntrsFs)
    (hsize : cfg.cacheMaxSize = 0) (hfree : cfg.cacheMinFreeSpace = 0) :
    pressure cfg free fs = 0 := by
  simp [pressure, hsize, hfree]

/-- The state after the age sweep, if there is one. -/
def afterAgeSweep (cfg : Config) (now : Nat) (fs : MntrsFs) : MntrsFs :=
  if cfg.cacheMaxAge = 0 then fs else ageSweep cfg now fs

section

variable (cfg : Config) (now : Nat) (free : Option Nat) (fs : MntrsFs)

/-- Eviction is the age sweep followed, under pressure, by the drain. -/
theorem evictIfNeeded_eq :
    evictIfNeeded cfg now free fs =
      if pressure cfg free fs = 0 then afterAgeSweep cfg now fs
      else lruDrain cfg (pressure cfg free fs) (afterAgeSweep cfg now fs) := by
  unfold evictIfNeeded
  split
  · next h =>
    rw [if_pos (pressure_of_no_limits free fs h.1 h.2.1), afterAgeSweep, if_pos h.2.2]
  · rw [bytesToFree_eq_pressure]
    rfl

/-- Eviction removes index keys in one or two passes, or none. -/
theorem evictIfNeeded_removes :
    ∃ aged drained, evictIfNeeded cfg now free fs =
      removeCacheEntries cfg (removeCacheEntries cfg fs aged) drained := by
  have hsweep : ∃ aged, afterAgeSweep cfg now fs = removeCacheEntries cfg fs aged := by
    unfold afterAgeSweep
    split
    · exact ⟨[], rfl⟩
    · exact ⟨_, rfl⟩
  obtain ⟨aged, haged⟩ := hsweep
  rw [evictIfNeeded_eq, haged]
  split
  · exact ⟨aged, [], rfl⟩
  · exact ⟨aged, _, rfl⟩

theorem evictIfNeeded_frame :
    evictIfNeeded cfg now free fs =
      { fs with
        disk := (evictIfNeeded cfg now free fs).disk
        diskCacheIndex := (evictIfNeeded cfg now free fs).diskCacheIndex } := by
  obtain ⟨aged, drained, heq⟩ := evictIfNeeded_removes cfg now free fs
  rw [heq, removeCacheEntries_frame cfg (removeCacheEntries cfg fs aged) drained,
    removeCacheEntries_frame cfg fs aged]

@[simp]
theorem data_evictIfNeeded : (evictIfNeeded cfg now free fs).disk.data = fs.disk.data := by
  obtain ⟨aged, drained, heq⟩ := evictIfNeeded_removes cfg now free fs
  rw [heq, data_removeCacheEntries, data_removeCacheEntries]

@[simp]
theorem dirty_evictIfNeeded : (evictIfNeeded cfg now free fs).disk.dirty = fs.disk.dirty := by
  obtain ⟨aged, drained, heq⟩ := evictIfNeeded_removes cfg now free fs
  rw [heq, dirty_removeCacheEntries, dirty_removeCacheEntries]

theorem entries_afterAgeSweep :
    (afterAgeSweep cfg now fs).diskCacheIndex.entries = survivors cfg now fs := by
  unfold afterAgeSweep survivors
  by_cases hage : cfg.cacheMaxAge = 0
  · simp [hage]
  · rw [if_neg hage, ageSweep, entries_removeCacheEntries]
    apply List.filter_congr
    intro e he
    have hmem : e.1 ∈ fs.diskCacheIndex.entries.map Sigma.fst := List.mem_map_of_mem he
    simp [List.mem_filter, hmem, hage]

theorem ageRemovable_of_unuploaded {cfg : Config} {fs : MntrsFs} {p : Path}
    (h : Unuploaded cfg fs p) : ageRemovable cfg now fs.disk (p, none) = false := by
  simp [ageRemovable, h.1, h.2]

theorem Unuploaded.of_same_name {cfg : Config} {fs : MntrsFs} {p q : Path}
    (h : Unuploaded cfg fs p) (hname : cfg.writeBufferPath q = cfg.writeBufferPath p) :
    Unuploaded cfg fs q := by
  simpa [Unuploaded, hasDirtySidecar, cacheFileExists, cacheFileMtime, hname] using h

theorem afterAgeSweep_keeps {cfg : Config} {fs : MntrsFs} {p : Path} (h : Unuploaded cfg fs p) :
    (afterAgeSweep cfg now fs).diskCacheIndex.lookup (p, none) =
      fs.diskCacheIndex.lookup (p, none) ∧
    (afterAgeSweep cfg now fs).disk.whole (cfg.writeBufferPath p) =
      fs.disk.whole (cfg.writeBufferPath p) := by
  unfold afterAgeSweep
  split
  · exact ⟨rfl, rfl⟩
  · have hspared : ∀ q, cfg.writeBufferPath q = cfg.writeBufferPath p →
        (q, none) ∉ (fs.diskCacheIndex.entries.map Sigma.fst).filter
          (ageRemovable cfg now fs.disk) := by
      intro q hq hmem
      have hkept := ageRemovable_of_unuploaded now (h.of_same_name hq)
      rw [List.mem_filter, hkept] at hmem
      exact Bool.false_ne_true hmem.2
    constructor
    · rw [ageSweep, lookup_removeCacheEntries, if_neg (hspared p rfl)]
    · apply (whole_removeCacheEntries cfg fs _ _).2
      rintro ⟨q, hq, hname⟩
      exact hspared q hname hq

theorem nodup_rank_survivors : ((survivors cfg now fs).map lruRank).Nodup := by
  apply List.Nodup.of_map (fun r ↦ ofLex (ofLex (ofLex r).2).1)
  rw [List.map_map]
  have hkeys : (fs.diskCacheIndex.entries.map Sigma.fst).Nodup := fs.diskCacheIndex.nodupKeys
  exact hkeys.sublist (List.filter_sublist.map _)

/-- Under pressure the drain takes an entry exactly when older ones do not suffice. -/
theorem mem_lruDrain_iff {cfg : Config} {now : Nat} (quota : Nat) {fs : MntrsFs}
    {e : Sigma fun _ : CacheKey ↦ Nat × Nat} (hmem : e ∈ survivors cfg now fs) :
    e.1 ∈ (drainBy lruRank (fun e ↦ e.2.1) quota
        (afterAgeSweep cfg now fs).diskCacheIndex.entries).map Sigma.fst ↔
      sizeBelow lruRank (fun e ↦ e.2.1) (survivors cfg now fs) e < quota := by
  rw [entries_afterAgeSweep, ← mem_drainBy_iff (nodup_rank_survivors cfg now fs) hmem]
  constructor
  · intro h
    obtain ⟨e', hdrained, hkey⟩ := List.mem_map.mp h
    have hin : e' ∈ survivors cfg now fs :=
      (List.perm_insertionSort _ _).mem_iff.mp ((drain_sublist _ _ _).subset hdrained)
    have heq : e' = e := List.inj_on_of_nodup_map fs.diskCacheIndex.nodupKeys
      (List.mem_filter.mp hin).1 (List.mem_filter.mp hmem).1 hkey
    exact heq ▸ hdrained
  · intro h
    exact List.mem_map_of_mem h

/-- Eviction keeps all un-uploaded data exactly when the entries older than it relieve the
pressure: the drain takes entries with a sidecar like any other. -/
theorem evictIfNeeded_keeps_unuploaded_iff (cfg : Config) (now : Nat) (free : Option Nat)
    (fs : MntrsFs) :
    EvictKeepsUnuploaded cfg now free fs ↔ OlderEntriesSuffice cfg now free fs := by
  unfold EvictKeepsUnuploaded OlderEntriesSuffice
  rw [evictIfNeeded_eq]
  by_cases hpressure : pressure cfg free fs = 0
  · simp only [hpressure, if_true, true_or, iff_true]
    intro p v hlookup hdata
    obtain ⟨hindex, hfile⟩ := afterAgeSweep_keeps now hdata
    exact ⟨hindex.trans hlookup, hfile⟩
  · simp only [hpressure, if_false, false_or]
    constructor
    · intro hkeeps p v hmem hdata
      by_contra hlt
      have hdrained := (mem_lruDrain_iff _ hmem).mpr (Nat.lt_of_not_le hlt)
      have hlookup : fs.diskCacheIndex.lookup (p, none) = some v :=
        Table.lookup_eq_some_iff.mpr (List.mem_filter.mp hmem).1
      have hafter := (hkeeps p v hlookup hdata).1
      rw [lruDrain, lookup_removeCacheEntries, if_pos hdrained] at hafter
      exact Option.some_ne_none v hafter.symm
    · intro hsuffice p v hlookup hdata
      obtain ⟨hindex, hfile⟩ := afterAgeSweep_keeps now hdata
      -- no drained key shares the name, since such a key would hold the same data
      have hspared : ∀ q, cfg.writeBufferPath q = cfg.writeBufferPath p →
          (q, none) ∉ (drainBy lruRank (fun e ↦ e.2.1) (pressure cfg free fs)
            (afterAgeSweep cfg now fs).diskCacheIndex.entries).map Sigma.fst := by
        intro q hname hmem
        have hq := hdata.of_same_name hname
        obtain ⟨⟨key, w⟩, hdrained, rfl⟩ := List.mem_map.mp hmem
        have hin : ⟨(q, none), w⟩ ∈ survivors cfg now fs := by
          rw [entries_afterAgeSweep] at hdrained
          exact (List.perm_insertionSort _ _).mem_iff.mp ((drain_sublist _ _ _).subset hdrained)
        have hlt := (mem_lruDrain_iff _ hin).mp hmem
        have hle := hsuffice q w hin hq
        omega
      constructor
      · rw [lruDrain, lookup_removeCacheEntries, if_neg (hspared p rfl), hindex, hlookup]
      · rw [← hfile]
        apply (whole_removeCacheEntries cfg _ _ _).2
        rintro ⟨q, hq, hname⟩
        exact hspared q hname hq

end

/-- A cache of five bytes with one entry of ten, whose upload is still due. -/
def overfullDirty : Config × MntrsFs :=
  let cfg := { Config.plain .writes with cacheMaxSize := 5 }
  let n := cfg.writeBufferPath ['a']
  (cfg,
    { MntrsFs.mounted (fun _ ↦ none)
        ((Disk.empty.create n (List.replicate 10 7) 0).writeDirty n ['a']) with
      diskCacheIndex := AList.singleton (['a'], none) (10, 0) })

/-- The drain unlinks the only copy of the un-uploaded bytes. -/
theorem evictIfNeeded_drops_unuploaded :
    ¬ EvictKeepsUnuploaded overfullDirty.1 0 none overfullDirty.2 := by
  intro hkeeps
  have hafter := (hkeeps ['a'] (10, 0) (by decide) ⟨by decide, by decide⟩).1
  revert hafter
  decide

/-! ### How much is evicted -/

/-- The entries that eviction leaves. -/
theorem entries_evictIfNeeded (cfg : Config) (now : Nat) (free : Option Nat) (fs : MntrsFs) :
    (evictIfNeeded cfg now free fs).diskCacheIndex.entries =
      (survivors cfg now fs).filter (fun e ↦ pressure cfg free fs ≤
        sizeBelow lruRank (fun e ↦ e.2.1) (survivors cfg now fs) e) := by
  rw [evictIfNeeded_eq]
  split
  · next hzero => simp [hzero, entries_afterAgeSweep]
  · rw [lruDrain, entries_removeCacheEntries]
    have hmem := fun e (he : e ∈ survivors cfg now fs) ↦
      mem_lruDrain_iff (pressure cfg free fs) he
    rw [entries_afterAgeSweep] at hmem ⊢
    refine List.filter_congr fun e he ↦ ?_
    rw [decide_eq_decide, hmem e he, Nat.not_lt]

/-- The entries the drain removes. -/
def Drained (cfg : Config) (now : Nat) (free : Option Nat) (fs : MntrsFs)
    (e : Sigma fun _ : CacheKey ↦ Nat × Nat) : Prop :=
  e ∈ survivors cfg now fs ∧ e ∉ (evictIfNeeded cfg now free fs).diskCacheIndex.entries

/-- The total size of the entries that outlive the age sweep. -/
def survivingSize (cfg : Config) (now : Nat) (fs : MntrsFs) : Nat :=
  ((survivors cfg now fs).map (fun e ↦ e.2.1)).sum

/-- The size of those the drain has removed when it comes to an entry. -/
def drainedBefore (cfg : Config) (now : Nat) (fs : MntrsFs)
    (e : Sigma fun _ : CacheKey ↦ Nat × Nat) : Nat :=
  sizeBelow lruRank (fun e ↦ e.2.1) (survivors cfg now fs) e

/-- Eviction brings the total within the limit or leaves nothing, the drain removes entries that
were used before all those it leaves, and none once the total is within the limit. -/
def EvictsJustEnough (cfg : Config) (now : Nat) (free : Option Nat) (fs : MntrsFs) : Prop :=
  (totalSize (evictIfNeeded cfg now free fs) ≤ cfg.cacheMaxSize ∨
    (evictIfNeeded cfg now free fs).diskCacheIndex.entries = []) ∧
  (∀ e, Drained cfg now free fs e →
    ∀ e' ∈ (evictIfNeeded cfg now free fs).diskCacheIndex.entries, e.2.2 < e'.2.2) ∧
  ∀ e, Drained cfg now free fs e →
    drainedBefore cfg now fs e + cfg.cacheMaxSize < survivingSize cfg now fs

/-- No entry that outlives the age sweep comes up in the drain between the point where what the
sweep has left is within the limit and the point where all there was before would be. -/
def NoOvershoot (cfg : Config) (now : Nat) (fs : MntrsFs) : Prop :=
  ∀ e ∈ survivors cfg now fs,
    survivingSize cfg now fs ≤ drainedBefore cfg now fs e + cfg.cacheMaxSize →
      totalSize fs ≤ drainedBefore cfg now fs e + cfg.cacheMaxSize

/-- The amount to free is computed before the age sweep, so with a size limit eviction takes just
enough exactly when the bytes of the sweep do not make the drain overshoot. -/
theorem evicts_just_enough_iff {cfg : Config} (now : Nat) (free : Option Nat) {fs : MntrsFs}
    (hfree : cfg.cacheMinFreeSpace = 0) (hmax : 0 < cfg.cacheMaxSize)
    (hinstants : (fs.diskCacheIndex.entries.map (fun e ↦ e.2.2)).Nodup) :
    EvictsJustEnough cfg now free fs ↔ NoOvershoot cfg now fs := by
  have hpressure : pressure cfg free fs = totalSize fs - cfg.cacheMaxSize := by
    simp [pressure, hfree, hmax.ne']
  have hentries := entries_evictIfNeeded cfg now free fs
  rw [hpressure] at hentries
  have hdrained : ∀ e, Drained cfg now free fs e ↔ e ∈ survivors cfg now fs ∧
      drainedBefore cfg now fs e < totalSize fs - cfg.cacheMaxSize := by
    intro e
    rw [Drained, hentries, List.mem_filter, decide_eq_true_iff, not_and, Nat.not_le]
    exact ⟨fun h ↦ ⟨h.1, h.2 h.1⟩, fun h ↦ ⟨h.1, fun _ ↦ h.2⟩⟩
  have hle : survivingSize cfg now fs ≤ totalSize fs :=
    List.Sublist.sum_le_sum (List.filter_sublist.map _) (by simp)
  have hsufficient : totalSize (evictIfNeeded cfg now free fs) ≤ cfg.cacheMaxSize ∨
      (evictIfNeeded cfg now free fs).diskCacheIndex.entries = [] := by
    rw [totalSize, hentries]
    rcases sum_kept_le (fun e ↦ e.2.1) (totalSize fs - cfg.cacheMaxSize)
      (nodup_rank_survivors cfg now fs) with hnone | hfreed
    · exact .inr hnone
    · left
      unfold survivingSize at hle
      omega
  have holdest : ∀ e, Drained cfg now free fs e →
      ∀ e' ∈ (evictIfNeeded cfg now free fs).diskCacheIndex.entries, e.2.2 < e'.2.2 := by
    intro e he e' he'
    obtain ⟨hmem, hlt⟩ := (hdrained e).mp he
    rw [hentries, List.mem_filter, decide_eq_true_iff] at he'
    have hrank : lruRank e < lruRank e' := by
      by_contra hnot
      exact absurd (he'.2.trans (sizeBelow_mono (not_lt.mp hnot))) (Nat.not_le.mpr hlt)
    refine (Prod.Lex.toLex_lt_toLex.mp hrank).resolve_right fun ⟨hsame, _⟩ ↦ ?_
    have heq : e = e' := List.inj_on_of_nodup_map hinstants (List.mem_filter.mp hmem).1
      (List.mem_filter.mp he'.1).1 hsame
    exact lt_irrefl _ (heq ▸ hrank)
  refine ⟨fun h e he hwithin ↦ ?_, fun h ↦ ⟨hsufficient, holdest, fun e he ↦ ?_⟩⟩
  · by_contra hnot
    have hmore := h.2.2 e ((hdrained e).mpr ⟨he, by omega⟩)
    omega
  · obtain ⟨hmem, hlt⟩ := (hdrained e).mp he
    by_contra hnot
    have hbefore := h e hmem (Nat.not_lt.mp hnot)
    omega

/-- A cache of five bytes with two entries of five, one written long ago. -/
def agedEntry (maxAge : Nat) : Config × MntrsFs :=
  let cfg := { Config.plain .full with cacheMaxSize := 5, cacheMaxAge := maxAge }
  (cfg,
    { MntrsFs.mounted (fun _ ↦ none)
        ((Disk.empty.create (cfg.writeBufferPath ['a']) (List.replicate 5 7) 0).create
          (cfg.writeBufferPath ['b']) (List.replicate 5 7) 9) with
      diskCacheIndex := ((∅ : Table CacheKey (Nat × Nat)).insert (['a'], none) (5, 0)).insert
        (['b'], none) (5, 9) })

/-- Without a maximal age the older entry goes, and that is enough. -/
theorem evicts_just_enough_iff_sample :
    EvictsJustEnough (agedEntry 0).1 9 none (agedEntry 0).2 ↔
      NoOvershoot (agedEntry 0).1 9 (agedEntry 0).2 :=
  evicts_just_enough_iff 9 none rfl (by decide) (by decide)

/-- The age sweep takes the old entry, which is enough, and the drain takes the other one. -/
theorem sweep_makes_drain_overshoot :
    ¬ EvictsJustEnough (agedEntry 4).1 9 none (agedEntry 4).2 := by
  intro h
  have hmore := h.2.2 ⟨(['b'], none), (5, 9)⟩ ⟨by decide, by decide⟩
  revert hmore
  decide

end Mntrs

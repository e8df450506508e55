import Mntrs.Cache.Evict
import Mntrs.Delete.Pump
import Mntrs.Fs.Inodes

/-!
# Unlink

Models `MntrsFs::unlink`, `src/src/lib.rs:7317-7726`: the symlink branch, which deletes
synchronously, and the file branch, which deletes on the backend, through the pump where there
is one, and then drops everything local. The file branch is cut between the two.
-/

namespace Mntrs

open Base

/-- The number of blocks of a file. -/
def blockCount (size : Nat) : Nat := (size + cacheBlockSize - 1) / cacheBlockSize

/-- An unlink after its backend delete. -/
structure UnlinkCall where
  parent : Path
  name : Path
  path : Path
  result : Except IoError Unit

/-- The parent's path, the name and the full path of an unlink, `7362-7373`. -/
def unlinkNames (fs : MntrsFs) (parent : Ino) (name : Path) : Path × Path × Path :=
  let parentPath := ((fs.inodes.lookup parent).map InodeEntry.path).getD []
  let name := if parentPath = [] ∧ name.head? = some '/' then name.tail else name
  (parentPath, name, if parentPath = [] then name else parentPath ++ '/' :: name)

/-- Drop a listing. -/
def removeListing (fs : MntrsFs) (parent : Path) : MntrsFs :=
  { fs with dirCache := Function.update fs.dirCache (canonicalizeListPath parent) none }

/-- The symlink branch, `7411-7531`. -/
def unlinkSymlink (cfg : Config) (fs : MntrsFs) (parent name path stored : Path)
    (env : DeleteEnv) : MntrsFs :=
  let n := cfg.writeBufferPath stored
  let key := if (fs.symlinks.lookup path).isSome then path else stored
  let fs := { fs with
    symlinks := fs.symlinks.erase key
    symlinksLower := Function.update fs.symlinksLower (cfg.toLowercase key) none }
  let mapped := if (fs.pathToIno stored).isSome then stored else path
  let fs := { fs with
    inodes := match fs.pathToIno mapped with
      | some ino => fs.inodes.erase ino
      | none => fs.inodes
    pathToIno := Function.update fs.pathToIno mapped none
    disk := (fs.disk.removeWhole n).removeDirty n
    attrCache := Function.update fs.attrCache stored none }
  let fs := removeListing (cacheRemoveEntry fs parent name) parent
  let fs := { fs with
    writeback := fs.writeback.cancel (if stored ∈ fs.writeback.pending then stored else path) }
  -- a failed delete of the placeholder is only logged
  (deleteBackendStrict fs stored "symlink_cleanup" env).2

/-- The start of an unlink: the symlink branch in full, or the backend delete of the file
branch, `7362-7611`. -/
def unlinkBegin (cfg : Config) (fs : MntrsFs) (parent : Ino) (name : Path) (env : DeleteEnv) :
    (Except IoError Unit × MntrsFs) ⊕ (UnlinkCall × MntrsFs) :=
  let (parentPath, name, path) := unlinkNames fs parent name
  let (stored, fs) := lookupSymlinkKeyCaseInsensitive cfg fs path
  match stored with
  | some stored => .inl (.ok (), unlinkSymlink cfg fs parentPath name path stored env)
  | none =>
    match enqueueBackendDelete fs path with
    | some fs =>
      .inr (⟨parentPath, name, path, .ok ()⟩,
        { fs with deleteTombstones := insert path fs.deleteTombstones })
    | none =>
      let (result, fs) := deleteBackendStrict fs path "unlink" env
      .inr (⟨parentPath, name, path, result⟩, fs)

/-- Cancel the upload and remove the cache file, `7626-7637`. The sidecar goes only with a
registered path; tasks and off-mode buffers stay. -/
def unlinkCache (cfg : Config) (fs : MntrsFs) (path : Path) : MntrsFs :=
  let n := cfg.writeBufferPath path
  let disk := if path ∈ fs.writeback.pending then fs.disk.removeDirty n else fs.disk
  { fs with
    writeback := fs.writeback.cancel path
    disk := disk.removeWhole n }

/-- Drop the blocks and the index entry of a path, `7639-7663`. -/
def unlinkIndex (cfg : Config) (fs : MntrsFs) (path : Path) : MntrsFs :=
  let (ino, fs) := findInoByPath fs path
  let size := ((ino.bind fs.inodes.lookup).map InodeEntry.size).getD 0
  let fs := removeCacheEntries cfg fs ((List.range (blockCount size)).map (fun i ↦ (path, some i)))
  { fs with diskCacheIndex := fs.diskCacheIndex.erase (path, none) }

/-- Drop the inode and the cached attributes and listings of a path, `7665-7700`. -/
def unlinkTables (fs : MntrsFs) (parent name path : Path) : MntrsFs :=
  let (ino, fs) := findInoByPath fs path
  let fs := { fs with
    inodes := match ino with
      | some ino => fs.inodes.erase ino
      | none => fs.inodes
    pathToIno := Function.update fs.pathToIno path none
    attrCache := Function.update fs.attrCache path none }
  removeListing (cacheRemoveEntry fs parent name) parent

/-- The local half of the file branch. -/
def unlinkLocal (cfg : Config) (fs : MntrsFs) (c : UnlinkCall) : MntrsFs :=
  unlinkTables (unlinkIndex cfg (unlinkCache cfg fs c.path) c.path) c.parent c.name c.path

/-- `MntrsFs::unlink`, `src/src/lib.rs:7317-7726`, without interference. -/
def unlink (cfg : Config) (fs : MntrsFs) (parent : Ino) (name : Path) (env : DeleteEnv) :
    Except IoError Unit × MntrsFs :=
  match unlinkBegin cfg fs parent name env with
  | .inl done => done
  | .inr (c, fs) => (c.result, unlinkLocal cfg fs c)

/-! ### What each piece leaves alone -/

variable (cfg : Config) (fs : MntrsFs)

theorem enqueueBackendDelete_frame {fs fs' : MntrsFs} {path : Path}
    (h : enqueueBackendDelete fs path = some fs') :
    ∃ d, fs' = { fs with concurrentDeleter := d } := by
  unfold enqueueBackendDelete at h
  split at h
  · cases h
  · next d _ =>
    cases hd : d.enqueue path with
    | none => simp [hd] at h
    | some d' =>
      simp only [hd, Option.map_some, Option.some.injEq] at h
      exact ⟨_, h.symm⟩

/-- The path an unlink of a symlink takes out of the dedup set. -/
def unlinkCancels (cfg : Config) (fs : MntrsFs) (parent : Ino) (name : Path) : Option Path :=
  let path := (unlinkNames fs parent name).2.2
  (lookupSymlinkKeyCaseInsensitive cfg fs path).1.map
    (fun stored ↦ if stored ∈ fs.writeback.pending then stored else path)

theorem deleteBackendStrict_queue (path : Path) (label : String) (env : DeleteEnv) :
    (deleteBackendStrict fs path label env).2.writeback = fs.writeback ∧
      (deleteBackendStrict fs path label env).2.receiverAlive = fs.receiverAlive ∧
      (deleteBackendStrict fs path label env).2.pendingCount = fs.pendingCount := by
  rw [deleteBackendStrict_frame]
  exact ⟨rfl, rfl, rfl⟩

theorem cacheRemoveEntry_queue (parent name : Path) :
    (cacheRemoveEntry fs parent name).writeback = fs.writeback ∧
      (cacheRemoveEntry fs parent name).receiverAlive = fs.receiverAlive ∧
      (cacheRemoveEntry fs parent name).pendingCount = fs.pendingCount := by
  rw [cacheRemoveEntry_frame]
  exact ⟨rfl, rfl, rfl⟩

/-- The symlink branch takes one path out of the dedup set and leaves the channel alone. -/
theorem unlinkSymlink_queue (parent name path stored : Path) (env : DeleteEnv) :
    (unlinkSymlink cfg fs parent name path stored env).writeback =
        fs.writeback.cancel (if stored ∈ fs.writeback.pending then stored else path) ∧
      (unlinkSymlink cfg fs parent name path stored env).receiverAlive = fs.receiverAlive ∧
      (unlinkSymlink cfg fs parent name path stored env).pendingCount = fs.pendingCount := by
  simp [unlinkSymlink, removeListing, deleteBackendStrict_queue, cacheRemoveEntry_queue]

/-- Dropping the tables touches the inode table, its reverse map and the attribute and listing
caches only. -/
theorem unlinkTables_frame (parent name path : Path) :
    ∃ inodes pathToIno attrCache dirCache, unlinkTables fs parent name path =
      { fs with
        inodes := inodes
        pathToIno := pathToIno
        attrCache := attrCache
        dirCache := dirCache } := by
  unfold unlinkTables removeListing
  simp only
  rw [findInoByPath_frame, cacheRemoveEntry_frame]
  exact ⟨_, _, _, _, rfl⟩

/-- The size of a path, as an unlink finds it in the inode table. -/
def unlinkedSize (fs : MntrsFs) (path : Path) : Nat :=
  (((findInoByPath fs path).1.bind fs.inodes.lookup).map InodeEntry.size).getD 0

theorem unlinkedSize_congr {fs fs' : MntrsFs} (hinodes : fs'.inodes = fs.inodes)
    (hmap : fs'.pathToIno = fs.pathToIno) (path : Path) :
    unlinkedSize fs' path = unlinkedSize fs path := by
  rw [unlinkedSize, (findInoByPath_congr hinodes hmap path).1, hinodes]
  rfl

theorem block_removeFirst (path : Path) (n k : Nat) :
    (removeCacheEntries cfg fs ((List.range n).map (fun i ↦ (path, some i)))).disk.block
        (cfg.writeBufferPath path) k =
      if k < n then none else fs.disk.block (cfg.writeBufferPath path) k := by
  rw [block_removeCacheEntries]
  have hkeys : (∃ key ∈ (List.range n).map (fun i ↦ ((path, some i) : CacheKey)),
      cfg.writeBufferPath key.1 = cfg.writeBufferPath path ∧ key.2 = some k) ↔ k < n := by
    simp
  simp only [hkeys]

/-- Dropping the index touches the index, the reverse map and, of the disk, blocks only: those
of the size in the inode table go. -/
theorem unlinkIndex_frame (path : Path) :
    ∃ disk index pathToIno, unlinkIndex cfg fs path =
        { fs with disk := disk, diskCacheIndex := index, pathToIno := pathToIno } ∧
      disk.whole = fs.disk.whole ∧ disk.data = fs.disk.data ∧ disk.dirty = fs.disk.dirty ∧
      ∀ k, disk.block (cfg.writeBufferPath path) k =
        if k < blockCount (unlinkedSize fs path) then none
        else fs.disk.block (cfg.writeBufferPath path) k := by
  set found := findInoByPath fs path with hfound
  have hdisk : found.2.disk = fs.disk := by rw [findInoByPath_frame]
  have hsize : (((found.1.bind found.2.inodes.lookup).map InodeEntry.size).getD 0) =
      unlinkedSize fs path := by
    rw [findInoByPath_frame]
    rfl
  set size := ((found.1.bind found.2.inodes.lookup).map InodeEntry.size).getD 0
  set keys : List CacheKey := (List.range (blockCount size)).map (fun i ↦ (path, some i))
    with hkeys
  have hindex : unlinkIndex cfg fs path =
      { removeCacheEntries cfg found.2 keys with
        diskCacheIndex :=
          (removeCacheEntries cfg found.2 keys).diskCacheIndex.erase (path, none) } := rfl
  have hblocks : ∀ n, ¬ namesWhole cfg keys n := by
    rintro n ⟨q, hq, -⟩
    simp [hkeys] at hq
  refine ⟨(removeCacheEntries cfg found.2 keys).disk,
    (removeCacheEntries cfg found.2 keys).diskCacheIndex.erase (path, none), found.2.pathToIno,
    ?_, ?_, ?_, ?_, ?_⟩
  · rw [hindex, removeCacheEntries_frame, findInoByPath_frame]
  · funext n
    rw [(whole_removeCacheEntries cfg found.2 keys n).2 (hblocks n), hdisk]
  · rw [data_removeCacheEntries, hdisk]
  · rw [dirty_removeCacheEntries, hdisk]
  · intro k
    rw [hkeys, hsize, block_removeFirst, hdisk]

/-- The local half of an unlink: the path leaves the dedup set, its cache file goes, its
sidecar at most, the blocks of the size in the inode table go, and of the rest only tables and
indexes change. -/
theorem unlinkLocal_frame (c : UnlinkCall) :
    ∃ disk index inodes pathToIno attrCache dirCache, unlinkLocal cfg fs c =
        { fs with
          disk := disk
          diskCacheIndex := index
          inodes := inodes
          pathToIno := pathToIno
          attrCache := attrCache
          dirCache := dirCache
          writeback := fs.writeback.cancel c.path } ∧
      disk.whole = Function.update fs.disk.whole (cfg.writeBufferPath c.path) none ∧
      disk.data = fs.disk.data ∧
      ∀ k, disk.block (cfg.writeBufferPath c.path) k =
        if k < blockCount (unlinkedSize fs c.path) then none
        else fs.disk.block (cfg.writeBufferPath c.path) k := by
  obtain ⟨disk, index, pathToIno, hindex, hwhole, hdata, -, hblock⟩ :=
    unlinkIndex_frame cfg (unlinkCache cfg fs c.path) c.path
  obtain ⟨inodes, pathToIno', attrCache, dirCache, htables⟩ :=
    unlinkTables_frame (unlinkIndex cfg (unlinkCache cfg fs c.path) c.path) c.parent c.name c.path
  have hcache : (unlinkCache cfg fs c.path).disk.data = fs.disk.data ∧
      (unlinkCache cfg fs c.path).disk.block = fs.disk.block := by
    unfold unlinkCache
    split <;> exact ⟨rfl, rfl⟩
  have hsize : unlinkedSize (unlinkCache cfg fs c.path) c.path = unlinkedSize fs c.path :=
    @unlinkedSize_congr fs (unlinkCache cfg fs c.path) rfl rfl c.path
  refine ⟨disk, index, inodes, pathToIno', attrCache, dirCache, ?_, ?_, ?_, ?_⟩
  · rw [unlinkLocal, htables, hindex]
    rfl
  · rw [hwhole, unlinkCache]
    split <;> rfl
  · rw [hdata, hcache.1]
  · intro k
    rw [hblock, hsize, hcache.2]

/-- An unlink that goes on to its local half has deleted on the backend or queued the delete,
and touched nothing else but the symlink index. -/
theorem unlinkBegin_inr {cfg : Config} {fs fs' : MntrsFs} {parent : Ino} {name : Path}
    {env : DeleteEnv} {c : UnlinkCall} (h : unlinkBegin cfg fs parent name env = .inr (c, fs')) :
    ∃ backend deleter tombs lower, fs' =
      { fs with
        backend := backend
        concurrentDeleter := deleter
        deleteTombstones := tombs
        symlinksLower := lower } := by
  unfold unlinkBegin at h
  simp only at h
  rw [lookupSymlinkKeyCaseInsensitive_frame] at h
  split at h
  · cases h
  · split at h
    · next hq =>
      obtain ⟨d, rfl⟩ := enqueueBackendDelete_frame hq
      cases h
      exact ⟨_, _, _, _, rfl⟩
    · cases h
      rw [deleteBackendStrict_frame]
      exact ⟨_, _, _, _, rfl⟩

/-- An unlink that returns from its start took the symlink branch. -/
theorem unlinkBegin_inl {cfg : Config} {fs fs' : MntrsFs} {parent : Ino} {name : Path}
    {env : DeleteEnv} {r : Except IoError Unit}
    (h : unlinkBegin cfg fs parent name env = .inl (r, fs')) :
    ∃ p, unlinkCancels cfg fs parent name = some p ∧ fs'.writeback = fs.writeback.cancel p ∧
      fs'.receiverAlive = fs.receiverAlive ∧ fs'.pendingCount = fs.pendingCount := by
  unfold unlinkBegin at h
  simp only at h
  split at h
  · next stored hstored =>
    cases h
    obtain ⟨hq, halive, hcount⟩ := unlinkSymlink_queue cfg
      (lookupSymlinkKeyCaseInsensitive cfg fs (unlinkNames fs parent name).2.2).2
      (unlinkNames fs parent name).1 (unlinkNames fs parent name).2.1
      (unlinkNames fs parent name).2.2 stored env
    rw [lookupSymlinkKeyCaseInsensitive_frame] at hq halive hcount
    refine ⟨if stored ∈ fs.writeback.pending then stored else (unlinkNames fs parent name).2.2,
      ?_, ?_, ?_, ?_⟩
    · simp [unlinkCancels, hstored]
    · rw [lookupSymlinkKeyCaseInsensitive_frame, hq]
    · rw [lookupSymlinkKeyCaseInsensitive_frame, halive]
    · rw [lookupSymlinkKeyCaseInsensitive_frame, hcount]
  · split at h <;> cases h

end Mntrs

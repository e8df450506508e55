import Mntrs.Base.Piece
import Mntrs.Fs.Write

/-!
# The read handler

Models `MntrsFs::read`, `src/src/lib.rs:4737-5480`, with `MultiLevelCache::read_block`,
`DiskBlockCache::get_block` (`src/src/cache_layer.rs:113-179`), `write_block_cached`
(`src/src/lib.rs:2305-2356`) and `try_backend_or_stale` (`8587-8638`). A read looks at the
unflushed buffers, the block cache, the prefetched parts, the whole-file cache and the backend,
in this order. The prefetcher and the encoding of block files are left to `ReadEnv`, and the
in-memory block cache has no limit.
-/

namespace Mntrs

open Base

/-- What a read meets outside the modelled state. -/
structure ReadEnv where
  /-- the clock -/
  now : Nat
  /-- the part the handle's prefetcher returns: its offset and bytes -/
  popped : Option (Nat × Bytes)
  /-- the length of a serialised block -/
  serializedLen : Path → Bytes → Nat
  /-- error of the backend range read -/
  remote : Option ErrorKind

/-- No prefetched part, and a backend that answers. -/
def ReadEnv.ok : ReadEnv := ⟨0, none, fun _ data ↦ data.length, none⟩

/-- `BLOCK_OVERHEAD`: the header and the checksum of a block file. -/
def blockOverhead : Nat := 12

/-- `bump_in_memory_atime`. -/
def bumpAtime (fs : MntrsFs) (key : CacheKey) (now : Nat) : MntrsFs :=
  { fs with diskCacheIndex := fs.diskCacheIndex.modify key (fun v ↦ (v.1, now)) }

/-- `MemCache::put`. -/
def memPut (fs : MntrsFs) (ino : Ino) (block : Nat) (data : Bytes) : MntrsFs :=
  { fs with
    memCache := Function.update fs.memCache ino
      (Function.update (fs.memCache ino) block (some data)) }

/-- `DiskBlockCache::get_block`: an expired block file and one that names another path are
removed. -/
def getBlock (cfg : Config) (fs : MntrsFs) (path : Path) (block now : Nat) :
    Option Bytes × MntrsFs :=
  let n := cfg.writeBufferPath path
  if cfg.directIo then (none, fs)
  else match fs.disk.block n block with
    | none => (none, fs)
    | some file =>
      let dropped := { fs with disk := fs.disk.removeBlock n block }
      if isCacheFileExpired cfg.cacheMaxAge now (some file.mtime) then
        (none, { dropped with diskCacheIndex := fs.diskCacheIndex.erase (path, some block) })
      else if file.path = path then (some file.data, bumpAtime fs (path, some block) now)
      else (none, dropped)

/-- `MultiLevelCache::read_block`: a block found on disk is promoted to memory. -/
def readBlock (cfg : Config) (fs : MntrsFs) (path : Path) (ino : Ino) (block now : Nat) :
    Option Bytes × MntrsFs :=
  match fs.memCache ino block with
  | some data => (some data, fs)
  | none =>
    match getBlock cfg fs path block now with
    | (some data, fs) => (some data, memPut fs ino block data)
    | (none, fs) => (none, fs)

/-- `write_block_cached`. -/
def writeBlockCached (cfg : Config) (fs : MntrsFs) (path : Path) (env : ReadEnv)
    (block : Nat) (data : Bytes) : MntrsFs :=
  let n := cfg.writeBufferPath path
  if cfg.directIo ∨ maxPathLen < (utf8 path).length then fs
  else
    { fs with
      disk := fs.disk.writeBlock n block ⟨path, data, env.now⟩
      diskCacheIndex :=
        fs.diskCacheIndex.insert (path, some block) (env.serializedLen path data, env.now) }

/-- The unflushed buffer that answers a read, `4779-4857`: the off-mode buffer of the handle, a
dirty off-mode buffer of the path that covers the file, or the file behind the handle's
descriptor, each only if it reaches past the offset. -/
def answeringBuffer (cfg : Config) (fs : MntrsFs) (path : Path) (fileSize : Nat) (fh : Fh)
    (offset : Nat) : Option Bytes :=
  let reaches := fun data : Bytes ↦ offset < data.length
  let offMode := !cfg.cacheMode.diskWriteBuffer
  let ofHandle := (handleBuffer fs fh).map (fun b ↦ (fs.buffers b).data)
  let ofPath := ((fs.offModeBuffers path).map fs.buffers).bind
    (fun buf ↦ if buf.dirty ∧ fileSize ≤ buf.data.length then some buf.data else none)
  let ofFd := match fs.handles.lookup fh with
    | some (.write h) => h.writeBufferFd.map fs.disk.data
    | _ => none
  if cfg.directIo then none
  else if offMode then
    (ofHandle.filter reaches).or ((ofPath.filter reaches).or (ofFd.filter reaches))
  else ofFd.filter reaches

/-- The part a handle's prefetcher returns, if the handle has one. -/
def poppedPart (fs : MntrsFs) (fh : Fh) (env : ReadEnv) : Option (Nat × Bytes) :=
  match fs.handles.lookup fh with
  | some (.read h) => if h.prefetcher then env.popped else none
  | _ => none

/-- Fill both block caches from a prefetched part, `4908-4957`. -/
def cachePart (cfg : Config) (fs : MntrsFs) (path : Path) (ino : Ino) (start : Nat)
    (data : Bytes) (env : ReadEnv) : MntrsFs :=
  (cutBlocks cacheBlockSize start data false).foldl
    (fun fs b ↦ writeBlockCached cfg (memPut fs ino b.1 b.2) path env b.1 b.2) fs

/-- The block around an offset, as a whole-file cache holds it. -/
def memPutAround (fs : MntrsFs) (ino : Ino) (data : Bytes) (offset : Nat) : MntrsFs :=
  let block := offset / cacheBlockSize
  if block * cacheBlockSize < data.length then
    memPut fs ino block (slice data (block * cacheBlockSize) ((block + 1) * cacheBlockSize))
  else fs

/-- A read from the whole-file cache, `4993-5112`. An expired file without sidecar is removed,
and one shorter than the file only feeds the block cache. -/
def readFileCache (cfg : Config) (fs : MntrsFs) (path : Path) (ino : Ino) (fileSize : Nat)
    (offset size now : Nat) : Option Bytes × MntrsFs :=
  let n := cfg.writeBufferPath path
  if cfg.directIo then (none, fs)
  else match fs.disk.whole n with
    | none => (none, fs)
    | some f =>
      if fs.disk.dirty n = none ∧
          isCacheFileExpired cfg.cacheMaxAge now (some (fs.disk.mtime f)) then
        (none, { fs with
          disk := fs.disk.removeWhole n
          diskCacheIndex := fs.diskCacheIndex.erase (path, none) })
      else
        let data := fs.disk.data f
        if fileSize ≤ data.length then
          (some (slice data offset (offset + size)),
            memPutAround (bumpAtime fs (path, none) now) ino data offset)
        else (none, memPutAround fs ino data offset)

/-- The chunk size and the end of the last read of a read handle. -/
def readChunk (fs : MntrsFs) (fh : Fh) : Nat × Nat :=
  match fs.handles.lookup fh with
  | some (.read h) => (h.chunkSize, h.lastOffset)
  | _ => (0, 0)

/-- How many bytes a read asks the backend for, `5127-5160`. -/
def fetchSize (cfg : Config) (chunk fileSize offset size : Nat) : Nat :=
  let cap := fileSize - offset
  let userCap :=
    if 0 < chunk then chunk
    else if 0 < cfg.readChunkSize then cfg.readChunkSize
    else 8 * 1024 * 1024
  let hardCap := if fileSize ≤ 256 * 1024 * 1024 then fileSize else 16 * 1024 * 1024
  if offset = 0 ∧ cap ≤ hardCap then min (min userCap hardCap) cap
  else min (min (min size userCap) hardCap) cap

/-- `try_backend_or_stale`: with the option set, a failed fetch falls back to a whole-file
cache that covers the request. -/
def tryBackendOrStale (cfg : Config) (fs : MntrsFs) (path : Path) (offset size : Nat)
    (res : Except IoError Bytes) : Except IoError Bytes :=
  match res with
  | .ok b => .ok b
  | .error e =>
    if cfg.readStaleOnBackendError then
      match MntrsFs.cacheFile cfg fs path with
      | some data =>
        if data.length < offset + size then .error e else .ok (slice data offset (offset + size))
      | none => .error e
    else .error e

/-- The chunk size of a handle after a fetch, `5452-5478`: it doubles while the reads are
sequential and full. -/
def nextChunk (cfg : Config) (fs : MntrsFs) (fh : Fh) (offset len : Nat) (full : Bool) :
    MntrsFs :=
  match fs.handles.lookup fh with
  | some (.read h) =>
    let limit := if 0 < cfg.readChunkSizeLimit then cfg.readChunkSizeLimit
      else 128 * 1024 * 1024
    let chunkSize :=
      if offset = h.lastOffset then (if full then min (h.chunkSize * 2) limit else h.chunkSize)
      else max cfg.readChunkSize 131072
    { fs with
      handles := fs.handles.insert fh
        (.read { h with lastOffset := offset + len, chunkSize := chunkSize }) }
  | _ => fs

/-- Hand a block to the disk-write pool and index it, `5425-5450`. -/
def submitBlock (fs : MntrsFs) (path : Path) (block : Nat) (data : Bytes) (now : Nat) : MntrsFs :=
  let fs := submitBlockCacheWrite fs path block data
  { fs with
    diskCacheIndex :=
      fs.diskCacheIndex.insert (path, some block) (data.length + blockOverhead, now) }

/-- Fill the block caches from fetched bytes, `5304-5452`. The block files are written by the
disk-write pool. -/
def cacheFetched (cfg : Config) (fs : MntrsFs) (path : Path) (ino : Ino) (fileSize offset : Nat)
    (data : Bytes) (now : Nat) : MntrsFs :=
  let blocks := cutBlocks cacheBlockSize offset data (decide (fileSize ≤ offset + data.length))
  let fs := blocks.foldl (fun fs b ↦ memPut fs ino b.1 b.2) fs
  if cfg.directIo then fs
  else blocks.foldl (fun fs b ↦ submitBlock fs path b.1 b.2 now) fs

/-- A read from the backend, `5114-5480`. -/
def readRemote (cfg : Config) (fs : MntrsFs) (path : Path) (ino : Ino) (fileSize : Nat) (fh : Fh)
    (offset size : Nat) (env : ReadEnv) : Except IoError Bytes × MntrsFs :=
  let fetch := fetchSize cfg (readChunk fs fh).1 fileSize offset size
  let fetched : Except IoError Bytes :=
    match readRange fs env.remote path offset (offset + fetch) with
    | .ok b => .ok b
    | .error _ => .error ⟨.other, "read failed", none⟩
  match tryBackendOrStale cfg fs path offset size fetched with
  | .error e => (.error e, fs)
  | .ok b =>
    let fs := cacheFetched cfg fs path ino fileSize offset b env.now
    (.ok (b.take size), nextChunk cfg fs fh offset (min b.length size) (fetch ≤ b.length))

/-- `MntrsFs::read`, `src/src/lib.rs:4737-5480`. -/
def read (cfg : Config) (fs : MntrsFs) (ino : Ino) (fh : Fh) (offset size : Nat)
    (env : ReadEnv) : Except IoError Bytes × MntrsFs :=
  match fs.inodes.lookup ino with
  | none => (.error ⟨.notFound, "", none⟩, fs)
  | some e =>
    if e.size ≤ offset then (.ok [], fs)
    else match answeringBuffer cfg fs e.path e.size fh offset with
      | some data => (.ok (slice data offset (offset + size)), fs)
      | none =>
        let block := offset / cacheBlockSize
        match readBlock cfg fs e.path ino block env.now with
        | (some data, fs) =>
          let start := offset - block * cacheBlockSize
          (.ok (slice data start (start + size)), fs)
        | (none, fs) =>
          match poppedPart fs fh env with
          | some (start, data) =>
            (.ok (slice data (offset - start) (offset - start + size)),
              cachePart cfg fs e.path ino start data env)
          | none =>
            match readFileCache cfg fs e.path ino e.size offset size env.now with
            | (some bytes, fs) => (.ok bytes, fs)
            | (none, fs) => readRemote cfg fs e.path ino e.size fh offset size env

variable (cfg : Config) (fs : MntrsFs)

/-- A block comes from memory, or from a live block file that names the path. -/
theorem readBlock_some {cfg : Config} {fs : MntrsFs} {path : Path} {ino : Ino} {block now : Nat}
    {data : Bytes} (h : (readBlock cfg fs path ino block now).1 = some data) :
    fs.memCache ino block = some data ∨
      ∃ file, fs.disk.block (cfg.writeBufferPath path) block = some file ∧ file.path = path ∧
        file.data = data := by
  unfold readBlock at h
  split at h
  · next hmem =>
    cases h
    exact .inl hmem
  · split at h <;> cases h
    rename_i hget
    unfold getBlock at hget
    simp only at hget
    split at hget
    · cases hget
    · split at hget
      · cases hget
      · next file hfile =>
        split at hget
        · cases hget
        · split at hget
          · next hpath =>
            cases hget
            exact .inr ⟨file, hfile, hpath, rfl⟩
          · cases hget

/-! ### What each piece leaves alone -/

theorem readBlock_frame (path : Path) (ino : Ino) (block now : Nat) :
    ∃ index mem blocks, (readBlock cfg fs path ino block now).2 =
      { fs with
        diskCacheIndex := index
        memCache := mem
        disk := { fs.disk with block := blocks } } := by
  have hget : ∃ index blocks, (getBlock cfg fs path block now).2 =
      { fs with diskCacheIndex := index, disk := { fs.disk with block := blocks } } := by
    unfold getBlock
    simp only
    split
    · exact ⟨_, _, rfl⟩
    · split
      · exact ⟨_, _, rfl⟩
      · split
        · exact ⟨_, _, rfl⟩
        · split <;> exact ⟨_, _, rfl⟩
  obtain ⟨index, blocks, hget⟩ := hget
  unfold readBlock
  split
  · exact ⟨_, _, _, rfl⟩
  · cases hblock : getBlock cfg fs path block now with
    | mk data fs' =>
      rw [hblock] at hget
      subst hget
      cases data <;> exact ⟨_, _, _, rfl⟩

theorem memPutAround_frame (ino : Ino) (data : Bytes) (offset : Nat) :
    ∃ mem, memPutAround fs ino data offset = { fs with memCache := mem } := by
  rw [memPutAround]
  by_cases h : offset / cacheBlockSize * cacheBlockSize < data.length
  · rw [if_pos h]
    exact ⟨_, rfl⟩
  · rw [if_neg h]
    exact ⟨_, rfl⟩

theorem readFileCache_frame (path : Path) (ino : Ino) (fileSize offset size now : Nat) :
    ∃ index mem whole, (readFileCache cfg fs path ino fileSize offset size now).2 =
        { fs with
          diskCacheIndex := index
          memCache := mem
          disk := { fs.disk with whole := whole } } ∧
      (whole = fs.disk.whole ∨
        whole = Function.update fs.disk.whole (cfg.writeBufferPath path) none) := by
  unfold readFileCache
  simp only
  split
  · exact ⟨_, _, _, rfl, .inl rfl⟩
  · split
    · exact ⟨_, _, _, rfl, .inl rfl⟩
    · split
      · exact ⟨_, _, _, rfl, .inr rfl⟩
      · split
        · obtain ⟨mem, hmem⟩ := memPutAround_frame (bumpAtime fs (path, none) now) ino _ offset
          rw [hmem]
          exact ⟨_, _, _, rfl, .inl rfl⟩
        · obtain ⟨mem, hmem⟩ := memPutAround_frame fs ino _ offset
          rw [hmem]
          exact ⟨_, _, _, rfl, .inl rfl⟩

theorem readFileCache_congr (index : Table CacheKey (Nat × Nat)) (mem : Ino → Nat → Option Bytes)
    (blocks : CacheName → Nat → Option BlockFile) (path : Path) (ino : Ino)
    (fileSize offset size now : Nat) :
    (readFileCache cfg
        { fs with
          diskCacheIndex := index
          memCache := mem
          disk := { fs.disk with block := blocks } } path ino fileSize offset size now).1 =
      (readFileCache cfg fs path ino fileSize offset size now).1 := by
  unfold readFileCache
  simp only
  split
  · rfl
  · cases hwhole : fs.disk.whole (cfg.writeBufferPath path) with
    | none => rfl
    | some f =>
      simp only
      split
      · rfl
      · split <;> rfl

end Mntrs

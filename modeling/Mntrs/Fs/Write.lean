import Mntrs.Cache.Evict
import Mntrs.Fs.DiskWritePool

/-!
# The write handler

Models `MntrsFs::write`, `src/src/lib.rs:5482-6315`, with `fetch_backend_bytes` (`8693-8711`),
`off_mode_buffer` (`8720-8742`) and the enqueueing of writeback tasks that `flush` and
`release` share. The handler is cut at the points where a background worker can be seen to
act: the ranged backend read, the descriptor lock, and the enqueue. `write` runs the pieces in
one go. `WriteEnv` holds the outcomes of the calls that leave the process.
-/

namespace Mntrs

open Base

/-- `GAP_BACKFILL_MAX`, `src/src/lib.rs:5643`: larger gaps are left to zero-fill. -/
def gapBackfillMax : Nat := 64 * 1024 * 1024

/-- The outcomes of the backend and host calls of one write. -/
structure WriteEnv where
  /-- error of the ranged gap read -/
  gapRead : Option ErrorKind
  /-- error of the whole-object read that seeds an off-mode buffer -/
  seedRead : Option ErrorKind
  /-- error of the direct-I/O upload -/
  directPut : Option ErrorKind
  /-- whether writing the gap to the cache file succeeds -/
  gapWritten : Bool
  /-- `some k` when writing the data fails after `k` bytes -/
  dataCut : Option Nat
  /-- the clock -/
  now : Nat
  /-- the `statvfs` reading -/
  free : Option Nat
deriving DecidableEq, Repr

/-- Every call succeeds. -/
def WriteEnv.ok : WriteEnv := ⟨none, none, none, true, none, 0, none⟩

/-- A write after its gap fetch. -/
structure WriteCall where
  ino : Ino
  fh : Fh
  path : Path
  fd : Option FileId
  offset : Nat
  data : Bytes
  gap : Option Bytes
  env : WriteEnv
deriving DecidableEq, Repr

/-- `op.read_with(p).range(start..stop)`: the object's bytes in the range, or an error. A range past
the end of the object gives the bytes there are; opendal 0.59 fails it, which is a `failure`. -/
def readRange (fs : MntrsFs) (failure : Option ErrorKind) (p : Path) (start stop : Nat) :
    Except ErrorKind Bytes :=
  match failure, fs.backend p with
  | some e, _ => .error e
  | none, none => .error .notFound
  | none, some obj => .ok (slice obj start stop)

/-- `fetch_backend_bytes`, `src/src/lib.rs:8693-8711`. -/
def fetchBackendBytes (fs : MntrsFs) (failure : Option ErrorKind) (p : Path) : Option Bytes :=
  match failure with
  | some _ => none
  | none => fs.backend p

/-- The path and descriptor a handle gives to a write, `src/src/lib.rs:5490-5502`. -/
def writeTarget (fs : MntrsFs) (fh : Fh) : Option (Path × Option FileId) :=
  match fs.handles.lookup fh with
  | none => none
  | some (.write h) => some (h.path, h.writeBufferFd)
  | some (.read r) => some (r.path, none)

/-- The off-mode buffer of a handle. -/
def handleBuffer (fs : MntrsFs) (fh : Fh) : Option BufId :=
  match fs.handles.lookup fh with
  | some (.write h) => h.inMemoryBuffer
  | _ => none

/-- The bytes to put between the end of the buffered file and the write, `5651-5745`. A gap
above the cap is not fetched. -/
def fetchGap (cfg : Config) (fs : MntrsFs) (fh : Fh) (path : Path) (fd : Option FileId)
    (offset : Nat) (env : WriteEnv) : Except IoError (Option Bytes) :=
  if offset = 0 then .ok none
  else match fd with
    | some f =>
      let cacheLen := (fs.disk.data f).length
      if cacheLen < offset then
        if offset - cacheLen ≤ gapBackfillMax then
          match readRange fs env.gapRead path cacheLen offset with
          | .ok b => .ok (some b)
          | .error e => .error ⟨.other, "backfill gap read failed", some e⟩
        else .ok none
      else .ok none
    | none =>
      if cfg.cacheMode.diskWriteBuffer then .ok none
      else
        let bufLen := match handleBuffer fs fh with
          | some b => (fs.buffers b).data.length
          | none => 0
        if bufLen < offset then
          if offset - bufLen ≤ gapBackfillMax then
            match readRange fs env.gapRead path bufLen offset with
            | .ok b => .ok (some b)
            | .error .notFound => .ok (some [])
            | .error e => .error ⟨.other, "off-mode backfill gap read failed", some e⟩
          else .ok none
        else .ok none

/-- The start of a write: the handle, the direct-I/O path and the gap fetch. `inl` when the
call returns here. -/
def writeBegin (cfg : Config) (fs : MntrsFs) (ino : Ino) (fh : Fh) (offset : Nat) (data : Bytes)
    (env : WriteEnv) : (Except IoError Nat × MntrsFs) ⊕ WriteCall :=
  match writeTarget fs fh with
  | none => .inl (.error ⟨.notFound, "", none⟩, fs)
  | some (path, fd) =>
    if cfg.directIo then
      if !cfg.writeCanAppend && !cfg.writeCanMulti then
        .inl (.error ⟨.unsupported, "--direct-io requires an append- or multipart-capable " ++
          "backend; this backend would silently corrupt multi-chunk writes (issue #456).",
          none⟩, fs)
      else match env.directPut with
        | some e => .inl (.error ⟨.other, "direct_io write failed", some e⟩, fs)
        | none =>
          .inl (.ok data.length, { fs with backend := Function.update fs.backend path (some data) })
    else match fetchGap cfg fs fh path fd offset env with
      | .error e => .inl (.error e, fs)
      | .ok gap => .inr ⟨ino, fh, path, fd, offset, data, gap, env⟩

/-- The bytes of an off-mode buffer after a write, `5803-5848`. The subtraction that bounds the
gap wraps when a re-seed made the buffer longer than the offset. -/
def spliceBuffer (v : Bytes) (gap : Option Bytes) (offset : Nat) (data : Bytes) : Bytes :=
  let stop := offset + data.length
  let v :=
    if v.length < stop then
      let v := match gap with
        | some g => v ++ g.take (min g.length ((offset + 2 ^ 64 - v.length) % 2 ^ 64))
        | none => v
      if v.length < stop then setLen 0 v stop else v
    else v
  v.take offset ++ data ++ v.drop stop

/-- The off-mode branch: re-seed an empty buffer, splice the data in, register the buffer. -/
def writeOffMode (fs : MntrsFs) (c : WriteCall) : MntrsFs :=
  match handleBuffer fs c.fh with
  | none => fs
  | some b =>
    let v := (fs.buffers b).data
    let knownSize := ((fs.inodes.lookup c.ino).map InodeEntry.size).getD 0
    let v :=
      if v.isEmpty ∧ (0 < knownSize ∨ 0 < c.offset) then
        match fetchBackendBytes fs c.env.seedRead c.path with
        | some bytes => if knownSize ≤ bytes.length then bytes else v
        | none => v
      else v
    { fs with
      buffers := Function.update fs.buffers b
        { fs.buffers b with data := spliceBuffer v c.gap c.offset c.data, dirty := true }
      offModeBuffers := Function.update fs.offModeBuffers c.path
        (some ((fs.offModeBuffers c.path).getD b)) }

/-- The bytes of a cache file after the gap is put in place, `5866-5879`. -/
def backfill (cur : Bytes) (gap : Option Bytes) (offset : Nat) : Bytes :=
  match gap with
  | some g => if cur.length < offset then writeAt 0 cur cur.length g else cur
  | none => cur

/-- The descriptor branch: put the gap in place, set the length to the end of the write, write
the data, `5859-5884`. The host's `set_len` on an open descriptor is taken to succeed. -/
def writeFile (fs : MntrsFs) (f : FileId) (c : WriteCall) : Except IoError Unit × MntrsFs :=
  let cur := fs.disk.data f
  if c.gap.isSome ∧ cur.length < c.offset ∧ c.env.gapWritten = false then
    -- the partial gap is cut off again
    (.error ⟨.other, "backfill write to cache failed", none⟩,
      { fs with disk := fs.disk.setData f cur c.env.now })
  else
    let cur := backfill cur c.gap c.offset
    let cur := setLen 0 cur (c.offset + c.data.length)
    match c.env.dataCut with
    | none =>
      (.ok (), { fs with disk := fs.disk.setData f (writeAt 0 cur c.offset c.data) c.env.now })
    | some k =>
      (.error ⟨.other, "", none⟩,
        { fs with disk := fs.disk.setData f (writeAt 0 cur c.offset (c.data.take k)) c.env.now })

/-- Put the data into the write buffer of the mode. -/
def writeBuffer (cfg : Config) (fs : MntrsFs) (c : WriteCall) : Except IoError Unit × MntrsFs :=
  if cfg.cacheMode.diskWriteBuffer then
    match c.fd with
    | some f => writeFile fs f c
    | none => (.ok (), fs)
  else (.ok (), writeOffMode fs c)

/-- `writeback_pending.insert` and `tx.send`, as `write`, `flush` and `release` do them. The
flag says whether a task of the path is now on its way; a failed send takes the path out of
the set again. -/
def enqueueWriteback (fs : MntrsFs) (path : Path) (task : WritebackTask) : Bool × MntrsFs :=
  if fs.writebackSender then
    if path ∈ fs.writeback.pending then (true, fs)
    else if fs.receiverAlive then (true, { fs with writeback := fs.writeback.submit path task })
    else (false, fs)
  else (false, fs)

/-- The task `write`, `flush` and `release` enqueue. -/
def writebackTask (cfg : Config) (ino : Ino) (path : Path) (payload : Option Bytes) :
    WritebackTask :=
  ⟨ino, path, cfg.writeBufferPath path, payload, cfg.cacheMode.deleteCacheOnSuccess, 0⟩

/-- Record the new size and time in the inode table, `5897-5917`. -/
def touchInode (fs : MntrsFs) (c : WriteCall) : MntrsFs :=
  let stop := c.offset + c.data.length
  { fs with
    inodes := match fs.inodes.lookup c.ino with
      | some e => fs.inodes.insert c.ino
          { e with size := if e.size < stop then stop else e.size, mtime := some c.env.now }
      | none => fs.inodes.insert c.ino ⟨c.path, .regularFile, stop, some c.env.now⟩ }

/-- The enqueue of a write whose cache file was found, `5937-5995`. -/
def writeSend (cfg : Config) (fs : MntrsFs) (c : WriteCall) (present : Bool) : MntrsFs :=
  if present then (enqueueWriteback fs c.path (writebackTask cfg c.ino c.path none)).2 else fs

/-- The inode update and the enqueue of a write, `5897-5995`. -/
def writeEnqueue (cfg : Config) (fs : MntrsFs) (c : WriteCall) : MntrsFs :=
  let fs := touchInode fs c
  writeSend cfg fs c (fs.disk.exists? (cfg.writeBufferPath c.path))

/-- `drop_block_cache_for_path`, `src/src/block_format.rs:590-607`, and the L2 half of
`multi_cache.invalidate`. -/
def dropBlockCacheForPath (cfg : Config) (fs : MntrsFs) (path : Path) : MntrsFs :=
  removeCacheEntries cfg fs
    ((fs.diskCacheIndex.entries.map Sigma.fst).filter (fun k ↦ k.1 = path ∧ k.2.isSome))

/-- `multi_cache.invalidate`: the memory blocks of the inode, the indexed block files of the
path, and the block-cache jobs submitted for it. -/
def invalidateBlocks (cfg : Config) (fs : MntrsFs) (path : Path) (ino : Ino) : MntrsFs :=
  let fs := { fs with memCache := Function.update fs.memCache ino (fun _ ↦ none) }
  bumpPathCacheGen (dropBlockCacheForPath cfg fs path) path

/-- Record the new end in the cache index, `6203-6206`. -/
def touchIndex (fs : MntrsFs) (path : Path) (stop now : Nat) : MntrsFs :=
  { fs with
    diskCacheIndex := match fs.diskCacheIndex.lookup (path, none) with
      | some v => fs.diskCacheIndex.insert (path, none) (max v.1 stop, v.2)
      | none => fs.diskCacheIndex.insert (path, none) (stop, now) }

/-- `off_mode_buffer`, `src/src/lib.rs:8720-8742`: the shared buffer of a path, seeded once. -/
def offModeBuffer (fs : MntrsFs) (failure : Option ErrorKind) (path : Path) : BufId × MntrsFs :=
  let (b, fs) := match fs.offModeBuffers path with
    | some b => (b, fs)
    | none =>
      (fs.nextBuf,
        { fs with
          buffers := Function.update fs.buffers fs.nextBuf ⟨[], false, false⟩
          offModeBuffers := Function.update fs.offModeBuffers path (some fs.nextBuf)
          nextBuf := fs.nextBuf + 1 })
  let buf := fs.buffers b
  let data :=
    if buf.seeded = false ∧ buf.data.isEmpty then
      (fetchBackendBytes fs failure path).getD buf.data
    else buf.data
  (b, { fs with buffers := Function.update fs.buffers b { buf with data := data, seeded := true } })

/-- Mark the handle dirty, `6282-6313`. -/
def markDirty (cfg : Config) (fs : MntrsFs) (c : WriteCall) : MntrsFs :=
  let now := some c.env.now
  match fs.handles.lookup c.fh with
  | some (.write h) =>
    { fs with
      handles := fs.handles.insert c.fh
        (.write { h with dirty := true, dirtySince := now, lastWriteAt := now }) }
  | some (.read _) => fs
  | none =>
    if cfg.cacheMode.diskWriteBuffer then
      { fs with
        handles := fs.handles.insert c.fh (.write ⟨c.path, c.fd, none, true, now, now, none⟩) }
    else
      let (b, fs) := offModeBuffer fs c.env.seedRead c.path
      { fs with
        handles := fs.handles.insert c.fh (.write ⟨c.path, c.fd, some b, true, now, now, none⟩) }

/-- The disk-write pool, the index, eviction and block invalidation of a write, `6150-6280`. -/
def writeIndex (cfg : Config) (fs : MntrsFs) (c : WriteCall) : MntrsFs :=
  let fs := match c.fd with
    | some _ => fs
    | none =>
      { fs with
        diskWritePool := fs.diskWritePool ++
          [⟨cfg.writeBufferPath c.path, c.path, c.offset, c.data⟩] }
  let fs := touchIndex fs c.path (c.offset + c.data.length) c.env.now
  let fs := evictIfNeeded cfg c.env.now c.env.free fs
  invalidateBlocks cfg fs c.path c.ino

/-- The rest of a write after its enqueue, `6150-6315`. -/
def writeFinish (cfg : Config) (fs : MntrsFs) (c : WriteCall) : MntrsFs :=
  markDirty cfg (writeIndex cfg fs c) c

/-- A write from the descriptor lock to its return. -/
def writeRest (cfg : Config) (fs : MntrsFs) (c : WriteCall) : Except IoError Nat × MntrsFs :=
  match writeBuffer cfg fs c with
  | (.error e, fs) => (.error e, fs)
  | (.ok (), fs) => (.ok c.data.length, writeFinish cfg (writeEnqueue cfg fs c) c)

/-- `MntrsFs::write`, `src/src/lib.rs:5482-6315`, without interference. -/
def write (cfg : Config) (fs : MntrsFs) (ino : Ino) (fh : Fh) (offset : Nat) (data : Bytes)
    (env : WriteEnv) : Except IoError Nat × MntrsFs :=
  match writeBegin cfg fs ino fh offset data env with
  | .inl done => done
  | .inr c => writeRest cfg fs c

/-- The pool job, the index entry and the eviction of a write, `6162-6238`. -/
def writeEvict (cfg : Config) (fs : MntrsFs) (c : WriteCall) : MntrsFs :=
  let fs := match c.fd with
    | some _ => fs
    | none =>
      { fs with
        diskWritePool := fs.diskWritePool ++
          [⟨cfg.writeBufferPath c.path, c.path, c.offset, c.data⟩] }
  evictIfNeeded cfg c.env.now c.env.free
    (touchIndex fs c.path (c.offset + c.data.length) c.env.now)

/-! ### What each piece leaves alone -/

section Frames

variable (cfg : Config) (fs : MntrsFs) (c : WriteCall)

variable (path : Path)

theorem enqueueWriteback_frame (task : WritebackTask) :
    (enqueueWriteback fs path task).2 =
      { fs with writeback := (enqueueWriteback fs path task).2.writeback } := by
  unfold enqueueWriteback
  split
  · split
    · rfl
    · split <;> rfl
  · rfl

theorem writeSend_frame (present : Bool) :
    writeSend cfg fs c present =
      { fs with writeback := (writeSend cfg fs c present).writeback } := by
  unfold writeSend
  split
  · exact enqueueWriteback_frame fs c.path _
  · rfl

/-- The inode update and the enqueue of a write touch the inode table and the writeback queue
only. -/
theorem writeEnqueue_frame :
    writeEnqueue cfg fs c =
      { fs with
        inodes := (writeEnqueue cfg fs c).inodes
        writeback := (writeEnqueue cfg fs c).writeback } := by
  unfold writeEnqueue
  rw [writeSend_frame]
  rfl

theorem dropBlockCacheForPath_frame :
    dropBlockCacheForPath cfg fs path =
      { fs with
        disk := (dropBlockCacheForPath cfg fs path).disk
        diskCacheIndex := (dropBlockCacheForPath cfg fs path).diskCacheIndex } :=
  removeCacheEntries_frame cfg fs _

theorem invalidateBlocks_frame (ino : Ino) :
    ∃ disk index mem gens, invalidateBlocks cfg fs path ino =
      { fs with
        disk := disk
        diskCacheIndex := index
        memCache := mem
        pathCacheGen := gens } := by
  unfold invalidateBlocks
  obtain ⟨gens, hgens⟩ := bumpPathCacheGen_frame (dropBlockCacheForPath cfg
    { fs with memCache := Function.update fs.memCache ino (fun _ ↦ none) } path) path
  rw [hgens, dropBlockCacheForPath_frame]
  exact ⟨_, _, _, _, rfl⟩

@[simp] theorem whole_dropBlockCacheForPath (n : CacheName) :
    (dropBlockCacheForPath cfg fs path).disk.whole n = fs.disk.whole n := by
  refine (whole_removeCacheEntries cfg _ _ n).2 ?_
  rintro ⟨q, hq, -⟩
  simp at hq

@[simp] theorem data_dropBlockCacheForPath :
    (dropBlockCacheForPath cfg fs path).disk.data = fs.disk.data :=
  data_removeCacheEntries cfg _ _

@[simp] theorem whole_invalidateBlocks (ino : Ino) (n : CacheName) :
    (invalidateBlocks cfg fs path ino).disk.whole n = fs.disk.whole n :=
  whole_dropBlockCacheForPath cfg _ path n

/-- The indexing of a write is its eviction followed by the invalidation. -/
theorem writeIndex_eq :
    writeIndex cfg fs c = invalidateBlocks cfg (writeEvict cfg fs c) c.path c.ino := rfl

theorem writeEvict_frame :
    ∃ disk index pool, writeEvict cfg fs c =
      { fs with disk := disk, diskCacheIndex := index, diskWritePool := pool } := by
  unfold writeEvict
  rw [evictIfNeeded_frame]
  cases c.fd <;> exact ⟨_, _, _, rfl⟩

theorem writeIndex_frame :
    writeIndex cfg fs c =
      { fs with
        disk := (writeIndex cfg fs c).disk
        diskCacheIndex := (writeIndex cfg fs c).diskCacheIndex
        memCache := (writeIndex cfg fs c).memCache
        diskWritePool := (writeIndex cfg fs c).diskWritePool
        pathCacheGen := (writeIndex cfg fs c).pathCacheGen } := by
  obtain ⟨disk, index, pool, hevict⟩ := writeEvict_frame cfg fs c
  obtain ⟨disk', index', mem, gens, hblocks⟩ :=
    invalidateBlocks_frame cfg (writeEvict cfg fs c) c.path c.ino
  rw [writeIndex_eq, hblocks, hevict]

@[simp] theorem data_writeIndex : (writeIndex cfg fs c).disk.data = fs.disk.data := by
  simp only [writeIndex, invalidateBlocks, bumpPathCacheGen, dropBlockCacheForPath,
    data_removeCacheEntries, data_evictIfNeeded]
  cases c.fd <;> rfl

@[simp] theorem dirty_writeIndex : (writeIndex cfg fs c).disk.dirty = fs.disk.dirty := by
  simp only [writeIndex, invalidateBlocks, bumpPathCacheGen, dropBlockCacheForPath,
    dirty_removeCacheEntries, dirty_evictIfNeeded]
  cases c.fd <;> rfl

end Frames

variable {cfg : Config} {fs : MntrsFs} {fh : Fh}

/-- A write through an existing write handle only turns its flags. -/
theorem markDirty_of_write {c : WriteCall} {h : WriteHandle}
    (hh : fs.handles.lookup c.fh = some (.write h)) :
    markDirty cfg fs c =
      { fs with
        handles := fs.handles.insert c.fh
          (.write { h with
            dirty := true, dirtySince := some c.env.now, lastWriteAt := some c.env.now }) } := by
  simp [markDirty, hh]

theorem writeBegin_frame {fs' : MntrsFs} {ino : Ino} {offset : Nat} {data : Bytes}
    {env : WriteEnv} {r : Except IoError Nat}
    (h : writeBegin cfg fs ino fh offset data env = .inl (r, fs')) :
    ∃ backend, fs' = { fs with backend := backend } ∧
      (cfg.directIo = false → backend = fs.backend) := by
  unfold writeBegin at h
  split at h
  · cases h
    exact ⟨_, rfl, fun _ ↦ rfl⟩
  · split at h
    · next hdirect =>
      split at h
      · cases h
        exact ⟨_, rfl, fun _ ↦ rfl⟩
      · split at h
        · cases h
          exact ⟨_, rfl, fun _ ↦ rfl⟩
        · cases h
          exact ⟨_, rfl, fun hfalse ↦ by simp [hfalse] at hdirect⟩
    · split at h <;> cases h
      exact ⟨_, rfl, fun _ ↦ rfl⟩

/-- Without direct I/O the start of a write fails, or hands the gap to the rest of it. -/
theorem writeBegin_cases (hdirect : cfg.directIo = false) (fs : MntrsFs) (ino : Ino) (fh : Fh)
    (offset : Nat) (data : Bytes) (env : WriteEnv) :
    (∃ e, writeBegin cfg fs ino fh offset data env = .inl (.error e, fs)) ∨
      ∃ path fd gap, writeTarget fs fh = some (path, fd) ∧
        fetchGap cfg fs fh path fd offset env = .ok gap ∧
        writeBegin cfg fs ino fh offset data env =
          .inr ⟨ino, fh, path, fd, offset, data, gap, env⟩ := by
  unfold writeBegin
  cases htarget : writeTarget fs fh with
  | none => exact .inl ⟨_, rfl⟩
  | some target =>
    obtain ⟨path, fd⟩ := target
    simp only [hdirect, Bool.false_eq_true, if_false]
    cases hgap : fetchGap cfg fs fh path fd offset env with
    | error e => exact .inl ⟨_, rfl⟩
    | ok gap => exact .inr ⟨path, fd, gap, rfl, hgap, rfl⟩

/-- The path and the descriptor of a write are those of its handle. -/
theorem writeTarget_some {path : Path} {fd : Option FileId}
    (h : writeTarget fs fh = some (path, fd)) :
    ∃ state, fs.handles.lookup fh = some state ∧ state.path = path ∧
      ∀ f, fd = some f → ∃ w, state = .write w ∧ w.writeBufferFd = some f := by
  unfold writeTarget at h
  split at h <;> cases h
  · next w hw =>
    exact ⟨_, hw, rfl, fun f hf ↦ ⟨w, rfl, hf⟩⟩
  · next r hr =>
    exact ⟨_, hr, rfl, fun f hf ↦ by cases hf⟩

/-- A write that goes on has found its handle. -/
theorem writeBegin_inr {ino : Ino} {offset : Nat} {data : Bytes} {env : WriteEnv} {c : WriteCall}
    (h : writeBegin cfg fs ino fh offset data env = .inr c) :
    ∃ path fd gap, writeTarget fs fh = some (path, fd) ∧
      c = ⟨ino, fh, path, fd, offset, data, gap, env⟩ := by
  by_cases hdirect : cfg.directIo = true
  · unfold writeBegin at h
    split at h
    · cases h
    · rw [if_pos hdirect] at h
      split at h
      · cases h
      · split at h <;> cases h
  · rcases writeBegin_cases (by simpa using hdirect) fs ino fh offset data env with
      ⟨e, hbegin⟩ | ⟨path, fd, gap, htarget, -, hbegin⟩
    · rw [hbegin] at h
      cases h
    · rw [hbegin] at h
      cases h
      exact ⟨path, fd, gap, htarget, rfl⟩

theorem writeBuffer_frame (cfg : Config) (fs : MntrsFs) (c : WriteCall) :
    ∃ disk buffers registered, (writeBuffer cfg fs c).2 =
      { fs with disk := disk, buffers := buffers, offModeBuffers := registered } := by
  unfold writeBuffer
  split
  · split
    · unfold writeFile
      simp only
      split
      · exact ⟨_, _, _, rfl⟩
      · split <;> exact ⟨_, _, _, rfl⟩
    · exact ⟨_, _, _, rfl⟩
  · unfold writeOffMode
    split <;> exact ⟨_, _, _, rfl⟩

theorem offModeBuffer_frame (fs : MntrsFs) (failure : Option ErrorKind) (path : Path) :
    ∃ buffers registered next, (offModeBuffer fs failure path).2 =
      { fs with buffers := buffers, offModeBuffers := registered, nextBuf := next } := by
  unfold offModeBuffer
  cases fs.offModeBuffers path <;> exact ⟨_, _, _, rfl⟩

theorem markDirty_frame (cfg : Config) (fs : MntrsFs) (c : WriteCall) :
    ∃ handles buffers registered next, markDirty cfg fs c =
      { fs with
        handles := handles
        buffers := buffers
        offModeBuffers := registered
        nextBuf := next } := by
  unfold markDirty
  simp only
  split
  · exact ⟨_, _, _, _, rfl⟩
  · exact ⟨_, _, _, _, rfl⟩
  · split
    · exact ⟨_, _, _, _, rfl⟩
    · obtain ⟨buffers, registered, next, heq⟩ := offModeBuffer_frame fs c.env.seedRead c.path
      rw [heq]
      exact ⟨_, _, _, _, rfl⟩

end Mntrs

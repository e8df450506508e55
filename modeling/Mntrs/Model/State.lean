import Mntrs.Base.DedupQueue
import Mntrs.Base.Table
import Mntrs.Model.Path

/-!
# The state of a mount

The record `MntrsFs` of `src/src/lib.rs:522-1029` with the state it shares with its
background workers: the backend, the cache directory, the writeback channel, the delete
pump and the disk-write pool. Settings that never change after start-up are in `Config`.
Instants and file times are natural numbers, host files are identified by `FileId` so that
a file descriptor keeps its file when the name is unlinked or replaced.
-/

namespace Mntrs

open Base

/-- `u64` inode numbers; the counter never gets near the end of the range. -/
abbrev Ino := Nat

/-- File handles of the mount. -/
abbrev Fh := Nat

/-- Identity of a host file, as an open descriptor sees it. -/
abbrev FileId := Nat

/-- Identity of a shared in-memory buffer. -/
abbrev BufId := Nat

/-- `opendal::ErrorKind`. -/
inductive ErrorKind where
  | unexpected | unsupported | configInvalid | notFound | permissionDenied | isADirectory
  | notADirectory | alreadyExists | rateLimited | isSameFile | conditionNotMatch
  | rangeNotSatisfied
deriving DecidableEq, Repr

/-- The kinds of `std::io::Error` the handlers return. -/
inductive IoErrorKind where
  | notFound | unsupported | timedOut | permissionDenied | alreadyExists | isADirectory
  | notADirectory | wouldBlock | invalidInput | other
deriving DecidableEq, Repr

/-- `std::io::Error`: its kind, its text, and the backend error the text quotes. -/
structure IoError where
  kind : IoErrorKind
  message : String
  cause : Option ErrorKind
deriving DecidableEq, Repr

/-- `CacheMode`, `src/src/util.rs`. -/
inductive CacheMode where
  | off | writes | minimal | full
deriving DecidableEq, Repr

namespace CacheMode

/-- `disk_write_buffer`: every mode but `off` buffers writes in a cache file. -/
def diskWriteBuffer : CacheMode → Bool
  | off => false
  | _ => true

/-- `delete_cache_on_success`: `minimal` drops the cache file after its upload. -/
def deleteCacheOnSuccess : CacheMode → Bool
  | minimal => true
  | _ => false

end CacheMode

/-- The settings of a mount that the modelled functions read. -/
structure Config where
  cacheMode : CacheMode
  directIo : Bool
  writeCanAppend : Bool
  writeCanMulti : Bool
  cacheMaxSize : Nat
  cacheMinFreeSpace : Nat
  cacheMaxAge : Nat
  handleCaching : Nat
  readChunkSize : Nat
  readChunkSizeLimit : Nat
  readStaleOnBackendError : Bool
  dirCacheTtl : Nat
  statCacheTtl : Nat
  vfsRefresh : Bool
  noImplicitDir : Bool
  noModtime : Bool
  useServerModtime : Bool
  maxDepth : Option Nat
  maxSize : Option Nat
  minSize : Option Nat
  excludePatterns : List Path
  includePatterns : List Path
  ignoreCase : Bool
  noAppleDouble : Bool
  noMacosMetadata : Bool
  blockNormDupes : Bool
  writeWithIfNotExists : Bool
  pathHashSalt : UInt64
  /-- `str::to_lowercase`, whose Unicode tables are not modelled -/
  toLowercase : Path → Path
  /-- `util::nfc`, Unicode normalisation, likewise -/
  nfc : Path → Path

/-- `write_buffer_path`: the name of a path's whole-file cache. -/
def Config.writeBufferPath (cfg : Config) (p : Path) : CacheName := pathHash cfg.pathHashSalt p

/-- A mount without cache limits, direct I/O, handle caching or filters, under the default salt
and the times to live of `new_test_fs`. -/
def Config.plain (mode : CacheMode) : Config where
  cacheMode := mode
  directIo := false
  writeCanAppend := false
  writeCanMulti := false
  cacheMaxSize := 0
  cacheMinFreeSpace := 0
  cacheMaxAge := 0
  handleCaching := 0
  readChunkSize := 0
  readChunkSizeLimit := 0
  readStaleOnBackendError := false
  dirCacheTtl := 10
  statCacheTtl := 10
  vfsRefresh := false
  noImplicitDir := false
  noModtime := false
  useServerModtime := false
  maxDepth := none
  maxSize := none
  minSize := none
  excludePatterns := []
  includePatterns := []
  ignoreCase := false
  noAppleDouble := false
  noMacosMetadata := false
  blockNormDupes := false
  writeWithIfNotExists := false
  pathHashSalt := 0x9E3779B97F4A7C15
  toLowercase := List.map Char.toLower
  nfc := id

/-- `FileType`. -/
inductive FileType where
  | regularFile | directory | symlink
deriving DecidableEq, Repr

/-- `InodeEntry`, `src/src/lib.rs:74-84`. -/
structure InodeEntry where
  path : Path
  kind : FileType
  size : Nat
  mtime : Option Nat
deriving DecidableEq, Repr

/-- An entry of `attr_cache`: kind, size, modification time and insertion instant. -/
structure AttrEntry where
  kind : FileType
  size : Nat
  mtime : Option Nat
  cachedAt : Nat
deriving DecidableEq, Repr

/-- `opendal::EntryMode`. -/
inductive EntryMode where
  | file | dir | unknown
deriving DecidableEq, Repr

/-- `DirEntryCacheValue`, `src/src/lib.rs:203-225`. -/
structure DirEntryCacheValue where
  mode : EntryMode
  size : Nat
  mtime : Nat
  ino : Option Ino
deriving DecidableEq, Repr

/-- A directory listing in `dir_cache`: the instant it was read and its entries by name. -/
structure DirSnapshot where
  listedAt : Nat
  entries : Table Path DirEntryCacheValue
deriving DecidableEq

/-- `CoreDirEntry`: an entry of a directory listing. -/
structure CoreDirEntry where
  ino : Ino
  kind : FileType
  name : Path
deriving DecidableEq, Repr

/-- The `Write` variant of `FileHandleState`, `src/src/lib.rs:427-469`. -/
structure WriteHandle where
  path : Path
  writeBufferFd : Option FileId
  inMemoryBuffer : Option BufId
  dirty : Bool
  dirtySince : Option Nat
  lastWriteAt : Option Nat
  expiresAt : Option Nat
deriving DecidableEq, Repr

/-- The `Read` variant of `FileHandleState`: the size of its next fetch, where its last read
ended, and whether a prefetcher runs for it. -/
structure ReadHandle where
  path : Path
  chunkSize : Nat
  lastOffset : Nat
  prefetcher : Bool
  expiresAt : Option Nat
deriving DecidableEq, Repr

/-- `FileHandleState`. -/
inductive FileHandleState where
  | read (h : ReadHandle)
  | write (h : WriteHandle)
deriving DecidableEq, Repr

namespace FileHandleState

/-- `FileHandleState::path`. -/
def path : FileHandleState → Path
  | read h => h.path
  | write h => h.path

/-- A write handle with bytes that no flush or release has handed over. -/
def isDirty : FileHandleState → Bool
  | read _ => false
  | write h => h.dirty

end FileHandleState

/-- `OffModeBuffer`, `src/src/lib.rs:403-423`. -/
structure OffModeBuffer where
  data : Bytes
  seeded : Bool
  dirty : Bool
deriving DecidableEq, Repr

/-- A block file of the read cache: the path its header names, and its decoded payload. -/
structure BlockFile where
  path : Path
  data : Bytes
  mtime : Nat
deriving DecidableEq, Repr

/-- The cache directory: whole-file caches by name, their `.dirty` and `.meta` sidecars,
block files, and the host files behind names and descriptors. -/
structure Disk where
  whole : CacheName → Option FileId
  dirty : CacheName → Option Path
  metaFile : CacheName → Bool
  block : CacheName → Nat → Option BlockFile
  data : FileId → Bytes
  mtime : FileId → Nat
  nextFile : FileId

/-- `CACHE_BLOCK_SIZE`, `src/src/lib.rs:51`. -/
def cacheBlockSize : Nat := 8 * 1024 * 1024

/-- `CacheKey`: a path and, for a block of the read cache, its index. -/
abbrev CacheKey := Path × Option Nat

/-- `WritebackTask`, `src/src/writeback.rs`. The delay of a task only decides when the delay
queue releases it, which the model leaves open. -/
structure WritebackTask where
  ino : Ino
  remotePath : Path
  writeBufferPath : CacheName
  inMemoryPayload : Option Bytes
  deleteCacheOnSuccess : Bool
  retryCycle : Nat
deriving DecidableEq, Repr

/-- Where an upload task stands: about to make an attempt, or past a successful one and about
to remove the sidecar, to remove the cache file, to compare the off-mode buffer, to drop that
buffer, or to clear the dedup set. -/
inductive UploadStage where
  | attempt (n : Nat)
  | removeSidecar
  | removeCache
  | compare
  | removeBuffer
  | clear
deriving DecidableEq, Repr

/-- A running upload: its task and the bytes read when it left the delay queue. -/
structure Upload where
  task : WritebackTask
  data : Bytes
  stage : UploadStage
deriving DecidableEq, Repr

/-- `DiskWriteJob` of a block for the read cache, with the generation of its path when it was
submitted. -/
structure BlockCacheJob where
  remotePath : Path
  block : Nat
  data : Bytes
  cacheGen : UInt64
deriving DecidableEq, Repr

/-- `DiskWriteJob` of a handle without descriptor. -/
structure DiskWriteJob where
  writeBufferPath : CacheName
  remotePath : Path
  offset : Nat
  data : Bytes
deriving DecidableEq, Repr

/-- `PendingDelete`, `src/src/concurrent_delete.rs:139-142`: a path, the channel its outcome is
sent on, and the barrier epoch when it was enqueued, which the code does not record. -/
structure PendingDelete where
  relativePath : Path
  resultTx : Nat
  epoch : Nat
deriving DecidableEq, Repr

/-- What is sent on the channel of a job: the outcome of the last close it was part of, or its
cancellation. -/
inductive DeleteOutcome where
  | closed (landed : Bool)
  | cancelled
deriving DecidableEq, Repr

/-- Where the `pump_loop` of a slot stands: about to pop the queue, to hand a job to the batch
deleter, to record it, to take the ledger, to end a close, to resolve the jobs of a closed
batch, to read the barrier epoch, to acknowledge it, or asleep. -/
inductive PumpStage where
  | drain
  | delete (job : PendingDelete)
  | record (job : PendingDelete)
  | take (attempt : Nat)
  | close (attempt : Nat) (toFlush : List PendingDelete)
  | resolve (landed : Bool) (toFlush : List PendingDelete)
  | loadEpoch
  | storeAck (epoch : Nat)
  | wait
deriving DecidableEq, Repr

/-- `DeleterSlot`, `src/src/concurrent_delete.rs:174-197`: the recorded jobs, the keys the batch
deleter buffers, the stage of the pump, the acknowledged epoch, and the size of the last batch
that landed. -/
structure DeleterSlot where
  ledger : List PendingDelete
  batch : List Path
  stage : PumpStage
  barrierAck : Nat
  lastFlushCount : Nat
deriving DecidableEq, Repr

/-- A slot as `spawn` makes it. -/
def DeleterSlot.fresh : DeleterSlot := ⟨[], [], .drain, 0, 0⟩

/-- `ConcurrentDeleter` with its `Shared` state, `src/src/concurrent_delete.rs:145-172`, and the
channels of the jobs it accepted so far. -/
structure ConcurrentDeleter where
  accepting : Bool
  pending : List PendingDelete
  slots : List DeleterSlot
  barrierEpoch : Nat
  nextJob : Nat
  outcomes : Nat → Option DeleteOutcome

/-- A deleter as `spawn` makes it. -/
def ConcurrentDeleter.spawn (workerCount : Nat) : ConcurrentDeleter where
  accepting := true
  pending := []
  slots := List.replicate (max workerCount 1) .fresh
  barrierEpoch := 0
  nextJob := 0
  outcomes _ := none

/-- The state of a mount and of its background workers. -/
structure MntrsFs where
  backend : Path → Option Bytes
  disk : Disk
  diskCacheIndex : Table CacheKey (Nat × Nat)
  memCache : Ino → Nat → Option Bytes
  inodes : Table Ino InodeEntry
  pathToIno : Path → Option Ino
  nextIno : Ino
  lookupCount : Ino → Option Nat
  attrCache : Path → Option AttrEntry
  dirCache : Path → Option DirSnapshot
  symlinks : Table Path Path
  symlinksLower : Path → Option Path
  handles : Table Fh FileHandleState
  nextFh : Fh
  dirListers : Table Fh (List CoreDirEntry)
  offModeBuffers : Path → Option BufId
  buffers : BufId → OffModeBuffer
  nextBuf : BufId
  writebackSender : Bool
  receiverAlive : Bool
  writeback : DedupQueue Path WritebackTask Upload
  pendingCount : UInt64
  blockDrops : List Path
  concurrentDeleter : Option ConcurrentDeleter
  deleteTombstones : Finset Path
  diskWritePool : List DiskWriteJob
  blockCachePool : List BlockCacheJob
  pathCacheGen : Table Path UInt64

namespace Disk

/-- A cache file of this name exists. -/
def exists? (d : Disk) (n : CacheName) : Bool := (d.whole n).isSome

/-- The bytes of the whole-file cache of a name. -/
def read (d : Disk) (n : CacheName) : Option Bytes := (d.whole n).map d.data

/-- `remove_file` of a whole-file cache: the name goes, descriptors keep the file. -/
def removeWhole (d : Disk) (n : CacheName) : Disk :=
  { d with whole := Function.update d.whole n none }

/-- Write the `.dirty` sidecar of a cache file. -/
def writeDirty (d : Disk) (n : CacheName) (text : Path) : Disk :=
  { d with dirty := Function.update d.dirty n (some text) }

/-- Remove the `.dirty` sidecar of a cache file. -/
def removeDirty (d : Disk) (n : CacheName) : Disk :=
  { d with dirty := Function.update d.dirty n none }

/-- Remove the `.meta` sidecar of a cache file. -/
def removeMeta (d : Disk) (n : CacheName) : Disk :=
  { d with metaFile := Function.update d.metaFile n false }

/-- Write a block file. -/
def writeBlock (d : Disk) (n : CacheName) (i : Nat) (file : BlockFile) : Disk :=
  { d with block := Function.update d.block n (Function.update (d.block n) i (some file)) }

/-- Remove a block file. -/
def removeBlock (d : Disk) (n : CacheName) (i : Nat) : Disk :=
  { d with block := Function.update d.block n (Function.update (d.block n) i none) }

/-- Change the bytes of a host file. -/
def setData (d : Disk) (f : FileId) (bytes : Bytes) (now : Nat) : Disk :=
  { d with
    data := Function.update d.data f bytes
    mtime := Function.update d.mtime f now }

/-- Create a host file under a name. -/
def create (d : Disk) (n : CacheName) (bytes : Bytes) (now : Nat) : Disk :=
  { d.setData d.nextFile bytes now with
    whole := Function.update d.whole n (some d.nextFile)
    nextFile := d.nextFile + 1 }

end Disk

/-- An empty cache directory. -/
def Disk.empty : Disk where
  whole _ := none
  dirty _ := none
  metaFile _ := false
  block _ _ := none
  data _ := []
  mtime _ := 0
  nextFile := 0

/-- A mount as it is built, before `init` allocates the inode of the empty path: empty tables over a
backend and a cache directory. -/
def MntrsFs.mounted (backend : Path → Option Bytes) (disk : Disk) : MntrsFs where
  backend := backend
  disk := disk
  diskCacheIndex := ∅
  memCache _ _ := none
  inodes := ∅
  pathToIno _ := none
  nextIno := 2
  lookupCount _ := none
  attrCache _ := none
  dirCache _ := none
  symlinks := ∅
  symlinksLower _ := none
  handles := ∅
  nextFh := 1
  dirListers := ∅
  offModeBuffers _ := none
  buffers _ := ⟨[], false, false⟩
  nextBuf := 0
  writebackSender := true
  receiverAlive := true
  writeback := ⟨∅, [], [], []⟩
  pendingCount := 0
  blockDrops := []
  concurrentDeleter := none
  deleteTombstones := ∅
  diskWritePool := []
  blockCachePool := []
  pathCacheGen := ∅

namespace MntrsFs

/-- The number of writeback tasks of a path in the channel, the delay queue and the upload
stage. -/
def tasksOf (fs : MntrsFs) (p : Path) : Nat :=
  fs.writeback.inFlight WritebackTask.remotePath Upload.task p

/-- The cache file of a path, as its name reads now. -/
def cacheFile (cfg : Config) (fs : MntrsFs) (p : Path) : Option Bytes :=
  fs.disk.read (cfg.writeBufferPath p)

end MntrsFs

end Mntrs

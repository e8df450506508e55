import Mntrs.Base.Overlay
import Mntrs.Model.State

/-!
# The disk-write pool

Models `src/src/disk_write_pool.rs`: `DiskWriteJob::execute` without a descriptor (`341-395`)
with `do_write` (`521-605`), which writes through a handle without descriptor reach, and the
block-cache jobs of reads with the generations that outdate them (`168-286`, `974-991`).
-/

namespace Mntrs

open Base

/-- `do_write`: an empty file gets the backend's bytes first, the length only grows, then the
data is written in place. -/
def doWrite (cur : Bytes) (remote : Option Bytes) (offset : Nat) (data : Bytes) : Bytes :=
  let stop := offset + data.length
  let cur := if 0 < offset ∧ cur = [] then remote.getD [] else cur
  let cur := if cur.length < stop then setLen 0 cur stop else cur
  writeAt 0 cur offset data

/-- A pool thread executes the job at a position of the queue. `failure` is the error of the
backend read, which is ignored. -/
def poolExecute (fs : MntrsFs) (i : Nat) (failure : Option ErrorKind) (now : Nat) :
    Option MntrsFs :=
  match fs.diskWritePool[i]? with
  | none => none
  | some job =>
    let disk := if fs.disk.exists? job.writeBufferPath then fs.disk
      else fs.disk.create job.writeBufferPath [] now
    let remote := match failure with
      | some _ => none
      | none => fs.backend job.remotePath
    some { fs with
      diskWritePool := fs.diskWritePool.eraseIdx i
      disk := match disk.whole job.writeBufferPath with
        | some f => disk.setData f (doWrite (disk.data f) remote job.offset job.data) now
        | none => disk }

/-- `PATH_CACHE_GEN_HARD_CAP`. -/
def pathCacheGenHardCap : Nat := 100000

/-- `path_cache_gen`. -/
def pathCacheGen (fs : MntrsFs) (path : Path) : UInt64 := (fs.pathCacheGen.lookup path).getD 0

/-- `bump_path_cache_gen`: a full map is cleared first. -/
def bumpPathCacheGen (fs : MntrsFs) (path : Path) : MntrsFs :=
  { fs with
    pathCacheGen :=
      if fs.pathCacheGen.entries.length < pathCacheGenHardCap then
        fs.pathCacheGen.insert path (match fs.pathCacheGen.lookup path with
          | some g => g + 1
          | none => 1)
      else AList.insert path 1 ∅ }

theorem bumpPathCacheGen_frame (fs : MntrsFs) (path : Path) :
    ∃ gens, bumpPathCacheGen fs path = { fs with pathCacheGen := gens } :=
  ⟨_, rfl⟩

/-- `MAX_PATH_LEN`: longer paths are not embedded in a block file. -/
def maxPathLen : Nat := 8192

/-- `submit_block_cache_write`. -/
def submitBlockCacheWrite (fs : MntrsFs) (path : Path) (block : Nat) (data : Bytes) : MntrsFs :=
  { fs with
    blockCachePool := fs.blockCachePool ++ [⟨path, block, data, pathCacheGen fs path⟩] }

/-- A pool thread executes a block-cache job: nothing is written once the path was
invalidated. -/
def poolExecuteBlock (cfg : Config) (fs : MntrsFs) (i : Nat) (now : Nat) : Option MntrsFs :=
  match fs.blockCachePool[i]? with
  | none => none
  | some job =>
    let fs := { fs with blockCachePool := fs.blockCachePool.eraseIdx i }
    if pathCacheGen fs job.remotePath ≠ job.cacheGen ∨
        maxPathLen < (utf8 job.remotePath).length then some fs
    else
      some { fs with
        disk := fs.disk.writeBlock (cfg.writeBufferPath job.remotePath) job.block
          ⟨job.remotePath, job.data, now⟩ }

/-- A block file after a write is the written one or was there before. -/
theorem Disk.block_writeBlock {d : Disk} {n m : CacheName} {i k : Nat} {file f : BlockFile}
    (h : (d.writeBlock n i file).block m k = some f) :
    (m = n ∧ k = i ∧ f = file) ∨ d.block m k = some f := by
  simp only [Disk.writeBlock, Function.update_apply] at h
  split at h
  · next hm =>
    rw [Function.update_apply] at h
    split at h
    · next hk =>
      cases h
      exact .inl ⟨hm, hk, rfl⟩
    · rw [hm]
      exact .inr h
  · exact .inr h

/-- An executed job leaves the queue, and at most its own block file is written. -/
theorem poolExecuteBlock_cases {cfg : Config} {fs fs' : MntrsFs} {i now : Nat}
    (h : poolExecuteBlock cfg fs i now = some fs') :
    ∃ job ∈ fs.blockCachePool, ∃ disk, fs' = { fs with
        blockCachePool := fs.blockCachePool.eraseIdx i
        disk := disk } ∧
      (disk = fs.disk ∨ pathCacheGen fs job.remotePath = job.cacheGen ∧
        (utf8 job.remotePath).length ≤ maxPathLen ∧
        disk = fs.disk.writeBlock (cfg.writeBufferPath job.remotePath) job.block
          ⟨job.remotePath, job.data, now⟩) := by
  unfold poolExecuteBlock at h
  split at h
  · cases h
  · next job hjob =>
    refine ⟨job, List.mem_of_getElem? hjob, ?_⟩
    simp only at h
    split at h
    · cases h
      exact ⟨_, rfl, .inl rfl⟩
    · next hcurrent =>
      cases h
      rw [not_or, not_not, not_lt] at hcurrent
      exact ⟨_, rfl, .inr ⟨hcurrent.1, hcurrent.2, rfl⟩⟩

end Mntrs

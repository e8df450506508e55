import Mntrs.Base.Machine
import Mntrs.Fs.Read

/-!
# The blocks a read leaves in the caches

The read handler fills the block caches in four places. Three of them keep every block exactly
the part of the file its number says; the fourth, a whole-file cache shorter than the file,
stores what it has of the block around the offset. The invariant is shown for each function
that touches a block, then for the handler, then for runs of reads and pool threads.
-/

namespace Mntrs

open Base

/-- A block of a content. -/
def blockOf (w : Bytes) (block : Nat) : Bytes :=
  slice w (block * cacheBlockSize) ((block + 1) * cacheBlockSize)

/-- A file with content `w` that is only read: what is known of it agrees with `w`, and every
block in memory, on disk or on its way to disk is the block of `w` under its number. -/
structure OnlyRead (cfg : Config) (path : Path) (ino : Ino) (w : Bytes) (fs : MntrsFs) :
    Prop where
  entry : ∃ e, fs.inodes.lookup ino = some e ∧ e.path = path ∧ e.size = w.length
  object : ∀ obj, fs.backend path = some obj → obj = w
  file : ∀ data, MntrsFs.cacheFile cfg fs path = some data → IsPiece w 0 data
  mem : ∀ k data, fs.memCache ino k = some data → data = blockOf w k
  block : ∀ k file, fs.disk.block (cfg.writeBufferPath path) k = some file → file.path = path →
    file.data = blockOf w k
  pool : ∀ job ∈ fs.blockCachePool, job.remotePath = path → job.data = blockOf w job.block

variable {data : Bytes} {offset : Nat} {cfg : Config} {path : Path} {ino : Ino} {fs : MntrsFs}

namespace OnlyRead

variable {w : Bytes}

variable (h : OnlyRead cfg path ino w fs)
include h

/-- Storing a block of the content in memory keeps the blocks exact. -/
theorem memPut {k : Nat} (hdata : data = blockOf w k) :
    OnlyRead cfg path ino w (memPut fs ino k data) :=
  { h with
    mem := by
      intro i d hd
      by_cases hi : i = k
      · subst hi
        simp only [Mntrs.memPut, Function.update_self, Option.some.injEq] at hd
        rw [← hd, hdata]
      · simp only [Mntrs.memPut, Function.update_self, Function.update_of_ne hi] at hd
        exact h.mem i d hd }

/-- Writing a block of the content to disk keeps the blocks exact. -/
theorem writeBlock {n : CacheName} {k : Nat} {file : BlockFile}
    (hfile : file.path = path → file.data = blockOf w k) :
    OnlyRead cfg path ino w { fs with disk := fs.disk.writeBlock n k file } :=
  { h with
    block := by
      intro i f hf hpath
      rcases Disk.block_writeBlock hf with ⟨-, rfl, rfl⟩ | hold
      · exact hfile hpath
      · exact h.block i f hold hpath }

/-- Removing a block file keeps the blocks exact. -/
theorem removeBlock (n : CacheName) (k : Nat) :
    OnlyRead cfg path ino w { fs with disk := fs.disk.removeBlock n k } :=
  { h with
    block := by
      intro i f hf hpath
      by_cases hn : cfg.writeBufferPath path = n
      · by_cases hi : i = k
        · subst hn hi
          simp [Disk.removeBlock] at hf
        · subst hn
          simp only [Disk.removeBlock, Function.update_self, Function.update_of_ne hi] at hf
          exact h.block i f hf hpath
      · simp only [Disk.removeBlock, Function.update_of_ne hn] at hf
        exact h.block i f hf hpath }

/-- The index does not hold blocks. -/
theorem index (index : Table CacheKey (Nat × Nat)) :
    OnlyRead cfg path ino w { fs with diskCacheIndex := index } :=
  { h with }

/-- Looking for a block keeps the blocks exact: what is promoted is a block of the content. -/
theorem readBlock (k now : Nat) : OnlyRead cfg path ino w (readBlock cfg fs path ino k now).2 := by
  have hget : OnlyRead cfg path ino w (getBlock cfg fs path k now).2 := by
    unfold getBlock
    simp only
    split
    · exact h
    · split
      · exact h
      · split
        · exact (h.removeBlock _ k).index _
        · split
          · exact h.index _
          · exact h.removeBlock _ k
  have hsource := @readBlock_some cfg fs path ino k now
  unfold Mntrs.readBlock at hsource ⊢
  split
  · exact h
  · next hnone =>
    cases hblock : getBlock cfg fs path k now with
    | mk data fs' =>
      rw [hblock] at hget
      cases data with
      | none => exact hget
      | some data =>
        simp only [hnone, hblock] at hsource
        apply OnlyRead.memPut hget
        rcases hsource rfl with hmem | ⟨file, hfile, hpath, rfl⟩
        · simp at hmem
        · exact h.block k file hfile hpath

/-- Filling the caches from a part of the content keeps the blocks exact. -/
theorem cachePart {start : Nat} (env : ReadEnv) (hpiece : IsPiece w start data) :
    OnlyRead cfg path ino w (cachePart cfg fs path ino start data env) := by
  apply List.foldlRecOn _ _ h
  intro fs' h' b hb
  have hexact : b.2 = blockOf w b.1 :=
    eq_of_mem_cutBlocks (by decide) hpiece (fun htail ↦ by cases htail) hb
  unfold writeBlockCached
  split
  · exact h'.memPut hexact
  · exact ((h'.memPut hexact).writeBlock (fun _ ↦ hexact)).index _

/-- Filling the caches from fetched bytes keeps the blocks exact: a partial block is kept only
at the end of the file. -/
theorem cacheFetched (now : Nat) (hpiece : IsPiece w offset data) :
    OnlyRead cfg path ino w (cacheFetched cfg fs path ino w.length offset data now) := by
  have hexact : ∀ b ∈ cutBlocks cacheBlockSize offset data
      (decide (w.length ≤ offset + data.length)), b.2 = blockOf w b.1 := fun b hb ↦
    eq_of_mem_cutBlocks (by decide) hpiece (fun htail ↦ of_decide_eq_true htail) hb
  have hmem : OnlyRead cfg path ino w ((cutBlocks cacheBlockSize offset data
      (decide (w.length ≤ offset + data.length))).foldl
        (fun fs b ↦ Mntrs.memPut fs ino b.1 b.2) fs) := by
    apply List.foldlRecOn _ _ h
    intro fs' h' b hb
    exact h'.memPut (hexact b hb)
  unfold Mntrs.cacheFetched
  split
  · exact hmem
  · apply List.foldlRecOn _ _ hmem
    intro fs' h' b hb
    exact { h' with
      pool := by
        intro job hjob hpath
        rcases List.mem_append.mp hjob with hjob | hjob
        · exact h'.pool job hjob hpath
        · obtain rfl := List.mem_singleton.mp hjob
          exact hexact b hb }

/-- Storing the block around an offset from a piece of the content keeps the blocks exact when
the piece ends outside that block or with the file. -/
theorem memPutAround (hpiece : IsPiece w 0 data)
    (hfits : data.length ≤ offset / cacheBlockSize * cacheBlockSize ∨
      (offset / cacheBlockSize + 1) * cacheBlockSize ≤ data.length ∨ w.length ≤ data.length) :
    OnlyRead cfg path ino w (memPutAround fs ino data offset) := by
  rw [Mntrs.memPutAround]
  by_cases hlt : offset / cacheBlockSize * cacheBlockSize < data.length
  · rw [if_pos hlt]
    apply h.memPut
    rw [blockOf, hpiece.eq_slice]
    simp only [slice, List.drop_zero, Nat.sub_zero, List.drop_take, List.take_take]
    rw [List.take_eq_take_iff, List.length_drop]
    omega
  · rw [if_neg hlt]
    exact h

end OnlyRead

/-- The bytes of the whole-file cache that a read consults: it exists and is not expired. -/
def liveFile (cfg : Config) (fs : MntrsFs) (path : Path) (now : Nat) : Option Bytes :=
  let n := cfg.writeBufferPath path
  if cfg.directIo then none
  else match fs.disk.whole n with
    | none => none
    | some f =>
      if fs.disk.dirty n = none ∧
          isCacheFileExpired cfg.cacheMaxAge now (some (fs.disk.mtime f)) then none
      else some (fs.disk.data f)

/-- A whole-file cache shorter than the file ends inside the block around the offset. -/
def cutsBlock (cfg : Config) (fs : MntrsFs) (path : Path) (fileSize offset now : Nat) : Bool :=
  match liveFile cfg fs path now with
  | none => false
  | some data =>
    decide (data.length < fileSize ∧ offset / cacheBlockSize * cacheBlockSize < data.length ∧
      data.length < (offset / cacheBlockSize + 1) * cacheBlockSize)

/-- The read gets as far as the whole-file cache: no buffer, block or part answers it. -/
def consultsFile (cfg : Config) (fs : MntrsFs) (path : Path) (ino : Ino) (fileSize : Nat) (fh : Fh)
    (offset : Nat) (env : ReadEnv) : Bool :=
  decide (offset < fileSize) && (answeringBuffer cfg fs path fileSize fh offset).isNone &&
    (readBlock cfg fs path ino (offset / cacheBlockSize) env.now).1.isNone &&
    (poppedPart fs fh env).isNone

namespace OnlyRead

variable {w : Bytes}

/-- The whole-file cache keeps the blocks exact unless it ends inside the block it stores. -/
theorem readFileCache (h : OnlyRead cfg path ino w fs) {now : Nat} (size : Nat)
    (hcut : cutsBlock cfg fs path w.length offset now = false) :
    OnlyRead cfg path ino w (readFileCache cfg fs path ino w.length offset size now).2 := by
  unfold cutsBlock liveFile at hcut
  unfold Mntrs.readFileCache
  simp only at hcut ⊢
  split
  · exact h
  · next hdirect =>
    rw [if_neg hdirect] at hcut
    split
    · exact h
    · next f hwhole =>
      have hpiece : IsPiece w 0 (fs.disk.data f) :=
        h.file _ (by simp [MntrsFs.cacheFile, Disk.read, hwhole])
      rw [hwhole] at hcut
      simp only at hcut
      split
      · refine { h with file := ?_ }
        intro data hdata
        simp [MntrsFs.cacheFile, Disk.read, Disk.removeWhole] at hdata
      · next hlive =>
        rw [if_neg hlive] at hcut
        simp only [decide_eq_false_iff_not, not_and, not_lt] at hcut
        have hfits : (fs.disk.data f).length ≤ offset / cacheBlockSize * cacheBlockSize ∨
            (offset / cacheBlockSize + 1) * cacheBlockSize ≤ (fs.disk.data f).length ∨
            w.length ≤ (fs.disk.data f).length := by
          by_cases hshort : (fs.disk.data f).length < w.length
          · by_cases hstart : offset / cacheBlockSize * cacheBlockSize < (fs.disk.data f).length
            · exact .inr (.inl (hcut hshort hstart))
            · exact .inl (not_lt.mp hstart)
          · exact .inr (.inr (not_lt.mp hshort))
        split
        · exact OnlyRead.memPutAround (h.index _) hpiece hfits
        · exact h.memPutAround hpiece hfits

/-- A fetch keeps the blocks exact, also one that falls back to the whole-file cache. -/
theorem readRemote (h : OnlyRead cfg path ino w fs) (fh : Fh) (offset size : Nat)
    (env : ReadEnv) :
    OnlyRead cfg path ino w (readRemote cfg fs path ino w.length fh offset size env).2 := by
  have hchunk : ∀ (fs' : MntrsFs) (len : Nat) (full : Bool), OnlyRead cfg path ino w fs' →
      OnlyRead cfg path ino w (nextChunk cfg fs' fh offset len full) := by
    intro fs' len full h'
    unfold nextChunk
    split
    · exact { h' with }
    · exact h'
  unfold Mntrs.readRemote
  simp only
  split
  · exact h
  · next bytes hbytes =>
    apply hchunk
    apply h.cacheFetched
    unfold tryBackendOrStale at hbytes
    split at hbytes
    · next fetched hfetched =>
      cases hbytes
      split at hfetched <;> cases hfetched
      rename_i hrange
      unfold readRange at hrange
      split at hrange
      · cases hrange
      · cases hrange
      · next obj _ hobject =>
        cases hrange
        rw [h.object obj hobject]
        exact IsPiece.of_slice ..
    · split at hbytes
      · split at hbytes
        · next data hdata =>
          split at hbytes <;> cases hbytes
          rw [(h.file data hdata).slice_zero]
          exact IsPiece.of_slice ..
        · cases hbytes
      · cases hbytes

/-- A read keeps the blocks exact unless it consults a whole-file cache that ends inside the
block around the offset. -/
theorem read (h : OnlyRead cfg path ino w fs) (fh : Fh) (offset size : Nat) (env : ReadEnv)
    (hpart : ∀ start data, env.popped = some (start, data) → IsPiece w start data)
    (hcut : consultsFile cfg fs path ino w.length fh offset env = true →
      cutsBlock cfg fs path w.length offset env.now = false) :
    OnlyRead cfg path ino w (read cfg fs ino fh offset size env).2 := by
  obtain ⟨e, he, rfl, hlength⟩ := h.entry
  unfold Mntrs.read
  simp only [he, hlength]
  split
  · exact h
  · next hoffset =>
    split
    · exact h
    · next hbuffer =>
      have hblock := h.readBlock (offset / cacheBlockSize) env.now
      obtain ⟨index, mem, blocks, hframe⟩ :=
        readBlock_frame cfg fs e.path ino (offset / cacheBlockSize) env.now
      split
      · next hread =>
        rw [hread] at hblock
        exact hblock
      · next fs₁ hread =>
        rw [hread] at hblock hframe
        simp only at hframe
        have hparts : poppedPart fs₁ fh env = poppedPart fs fh env := by rw [hframe]; rfl
        rw [hparts]
        split
        · next start data hpopped =>
          apply OnlyRead.cachePart hblock
          apply hpart
          unfold poppedPart at hpopped
          split at hpopped
          · split at hpopped
            · exact hpopped
            · cases hpopped
          · cases hpopped
        · next hpopped =>
          have hconsults : consultsFile cfg fs e.path ino w.length fh offset env = true := by
            simp [consultsFile, hbuffer, hread, hpopped, not_le.mp hoffset]
          have hcut₁ : cutsBlock cfg fs₁ e.path w.length offset env.now = false := by
            rw [← hcut hconsults, hframe]
            rfl
          have hfile := OnlyRead.readFileCache hblock size hcut₁
          split
          · next hread' =>
            rw [hread'] at hfile
            exact hfile
          · next fs₂ hread' =>
            rw [hread'] at hfile
            exact OnlyRead.readRemote hfile fh offset size env

end OnlyRead

/-! ### Runs of reads -/

/-- The steps of a file that is only read: a read of it, and a pool thread that writes a block
handed to it earlier. -/
inductive ReadLabel where
  | read (fh : Fh) (offset size : Nat) (env : ReadEnv)
  | pool (i now : Nat)

/-- One step. -/
def readStep (cfg : Config) (ino : Ino) : ReadLabel → MntrsFs → Option MntrsFs
  | .read fh offset size env, fs => some (read cfg fs ino fh offset size env).2
  | .pool i now, fs => poolExecuteBlock cfg fs i now

/-- A read is given parts of the content, and does not get as far as a whole-file cache that is
shorter than the file and ends inside the block around the offset. -/
def WholeBlocks (cfg : Config) (path : Path) (ino : Ino) (w : Bytes) (fs : MntrsFs) :
    ReadLabel → Prop
  | .read fh offset _ env =>
    (∀ start data, env.popped = some (start, data) → IsPiece w start data) ∧
      (consultsFile cfg fs path ino w.length fh offset env = true →
        cutsBlock cfg fs path w.length offset env.now = false)
  | .pool _ _ => True

/-- A pool thread keeps the blocks exact. -/
theorem OnlyRead.poolExecuteBlock {w : Bytes} {fs' : MntrsFs} {i now : Nat}
    (h : OnlyRead cfg path ino w fs) (hstep : poolExecuteBlock cfg fs i now = some fs') :
    OnlyRead cfg path ino w fs' := by
  obtain ⟨job, hjob, disk, rfl, hdisk⟩ := poolExecuteBlock_cases hstep
  have herase : OnlyRead cfg path ino w
      { fs with blockCachePool := fs.blockCachePool.eraseIdx i } :=
    { h with pool := fun job' hjob' ↦ h.pool job' (List.mem_of_mem_eraseIdx hjob') }
  rcases hdisk with rfl | ⟨-, -, rfl⟩
  · exact herase
  · exact herase.writeBlock (fun hpath ↦ h.pool job hjob hpath)

/-- Every step keeps the blocks exact. -/
theorem OnlyRead.step {w : Bytes} {fs' : MntrsFs} {l : ReadLabel} (h : OnlyRead cfg path ino w fs)
    (hguard : WholeBlocks cfg path ino w fs l) (hstep : readStep cfg ino l fs = some fs') :
    OnlyRead cfg path ino w fs' := by
  cases l with
  | read fh offset size env =>
    cases hstep
    exact h.read fh offset size env hguard.1 hguard.2
  | pool i now => exact h.poolExecuteBlock hstep

/-- In every run of reads that are given parts of the content and consult no whole-file cache
that ends inside the block around the offset, every block in memory, on disk and handed to the
pool is exactly the part of the content under its number. -/
theorem blocks_exact_of_run {cfg : Config} {path : Path} {ino : Ino} {w : Bytes}
    {fs fs' : MntrsFs} (h : OnlyRead cfg path ino w fs)
    (hrun : GuardedRun (readStep cfg ino) (WholeBlocks cfg path ino w) fs fs') :
    (∀ k data, fs'.memCache ino k = some data →
      data = slice w (k * cacheBlockSize) (min ((k + 1) * cacheBlockSize) w.length)) ∧
    (∀ job ∈ fs'.blockCachePool, job.remotePath = path → job.data =
      slice w (job.block * cacheBlockSize) (min ((job.block + 1) * cacheBlockSize) w.length)) ∧
    (∀ k file, fs'.disk.block (cfg.writeBufferPath path) k = some file → file.path = path →
      file.data = slice w (k * cacheBlockSize) (min ((k + 1) * cacheBlockSize) w.length)) := by
  have hinv : OnlyRead cfg path ino w fs' :=
    hrun.invariant (OnlyRead cfg path ino w) (fun _ _ _ h hguard hstep ↦ h.step hguard hstep) h
  have hclip : ∀ k, blockOf w k =
      slice w (k * cacheBlockSize) (min ((k + 1) * cacheBlockSize) w.length) := by
    intro k
    apply slice_eq_slice_iff.mpr
    rw [min_assoc, min_self]
  refine ⟨?_, ?_, ?_⟩
  · intro k data hdata
    rw [hinv.mem k data hdata, hclip]
  · intro job hjob hpath
    rw [hinv.pool job hjob hpath, hclip]
  · intro k file hfile hpath
    rw [hinv.block k file hfile hpath, hclip]

/-- A mount with a file of two bytes whose cache file holds the first `n` of them. -/
def partlyCached (n : Nat) : MntrsFs :=
  { MntrsFs.mounted (Function.update (fun _ ↦ none) ['a'] (some [7, 8]))
      (Disk.empty.create ((Config.plain .full).writeBufferPath ['a']) (List.take n [7, 8]) 0) with
    inodes := AList.insert 2 ⟨['a'], .regularFile, 2, none⟩ ∅ }

variable (cfg : Config) (fs : MntrsFs) (path : Path) (ino : Ino)

theorem onlyRead_partlyCached (n : Nat) :
    OnlyRead (.plain .full) ['a'] 2 [7, 8] (partlyCached n) where
  entry := ⟨⟨['a'], .regularFile, 2, none⟩, AList.lookup_insert _, rfl, rfl⟩
  object := by
    intro obj hobj
    simp only [partlyCached, MntrsFs.mounted, Function.update_self, Option.some.injEq] at hobj
    exact hobj.symm
  file := by
    intro data hdata
    simp only [partlyCached, MntrsFs.cacheFile, MntrsFs.mounted, Disk.create, Disk.setData,
      Disk.read, Function.update_self, Option.map_some, Option.some.injEq] at hdata
    rw [← hdata]
    exact List.take_prefix n _
  mem := fun _ _ hdata ↦ by cases hdata
  block := fun _ _ hfile ↦ by cases hfile
  pool := fun _ hjob ↦ by cases hjob

/-- Two reads of a file that is cached whole store its block. -/
theorem blocks_exact_of_run_sample :
    ∃ fs', GuardedRun (readStep (.plain .full) 2) (WholeBlocks (.plain .full) ['a'] 2 [7, 8])
      (partlyCached 2) fs' ∧ fs'.memCache 2 0 = some [7, 8] ∧
      ∀ k data, fs'.memCache 2 k = some data →
        data = slice [7, 8] (k * cacheBlockSize) (min ((k + 1) * cacheBlockSize) 2) := by
  let labels : List ReadLabel := [.read 0 1 1 .ok, .read 0 0 2 .ok]
  obtain ⟨fs', hexec, hmem⟩ := exists_exec (readStep (.plain .full) 2)
    (fun fs ↦ fs.memCache 2 0 = some [7, 8]) labels (partlyCached 2) (by decide)
  have hparts : ∀ start data, ReadEnv.ok.popped = some (start, data) →
      IsPiece ([7, 8] : Bytes) start data := fun _ _ h ↦ by cases h
  have hrun : GuardedRun (readStep (.plain .full) 2) (WholeBlocks (.plain .full) ['a'] 2 [7, 8])
      (partlyCached 2) fs' := by
    apply guardedRun_of_exec hexec
    refine ⟨⟨hparts, by decide⟩, ?_⟩
    rintro fs₁ ⟨⟩
    refine ⟨⟨hparts, by decide⟩, ?_⟩
    rintro fs₂ ⟨⟩
    trivial
  exact ⟨fs', hrun, hmem, (blocks_exact_of_run (onlyRead_partlyCached 2) hrun).1⟩

/-- A cache file with the first of two bytes: a read of the second byte stores a block of one
byte in memory, and the next read of it returns nothing. -/
theorem read_stores_short_block :
    OnlyRead (.plain .full) ['a'] 2 [7, 8] (partlyCached 1) ∧
      let first := read (.plain .full) (partlyCached 1) 2 0 1 1 .ok
      first.1 = .ok [8] ∧ first.2.memCache 2 0 = some [7] ∧
        slice [7, 8] (0 * cacheBlockSize) (min ((0 + 1) * cacheBlockSize) 2) ≠ ([7] : Bytes) ∧
        (read (.plain .full) first.2 2 0 1 1 .ok).1 = .ok [] :=
  ⟨onlyRead_partlyCached 1, by decide⟩

/-! ### Invalidation -/

/-- Invalidation removes the indexed block files of a path and no other block file of it. -/
theorem block_invalidateBlocks (k : Nat) :
    (invalidateBlocks cfg fs path ino).disk.block (cfg.writeBufferPath path) k =
      if (path, some k) ∈ fs.diskCacheIndex then none
      else fs.disk.block (cfg.writeBufferPath path) k := by
  have hkeys : (∃ key ∈ (fs.diskCacheIndex.entries.map Sigma.fst).filter
      (fun key ↦ key.1 = path ∧ key.2.isSome),
      cfg.writeBufferPath key.1 = cfg.writeBufferPath path ∧ key.2 = some k) ↔
      (path, some k) ∈ fs.diskCacheIndex := by
    constructor
    · rintro ⟨⟨p, index⟩, hkey, -, hindex⟩
      simp only at hindex
      obtain ⟨hmem, hpath⟩ := List.mem_filter.mp hkey
      simp only [decide_eq_true_eq] at hpath
      rw [hindex, hpath.1] at hmem
      exact hmem
    · intro hmem
      exact ⟨(path, some k), List.mem_filter.mpr ⟨hmem, by simp⟩, rfl, rfl⟩
  simp only [invalidateBlocks, bumpPathCacheGen, dropBlockCacheForPath, block_removeCacheEntries,
    hkeys]

/-- Invalidation empties the memory blocks of the inode. -/
theorem memCache_invalidateBlocks (k : Nat) :
    (invalidateBlocks cfg fs path ino).memCache ino k = none := by
  simp only [invalidateBlocks, bumpPathCacheGen]
  rw [dropBlockCacheForPath_frame]
  simp

/-- The blocks that a path without memory blocks is served. -/
theorem readBlock_eq_none_iff {cfg : Config} {fs : MntrsFs} {path : Path} {ino : Ino} {k : Nat}
    (hmem : fs.memCache ino k = none) (now : Nat) :
    (readBlock cfg fs path ino k now).1 = none ↔ cfg.directIo = true ∨
      ∀ file, fs.disk.block (cfg.writeBufferPath path) k = some file → file.path = path →
        isCacheFileExpired cfg.cacheMaxAge now (some file.mtime) = true := by
  unfold readBlock getBlock
  rw [hmem]
  by_cases hdirect : cfg.directIo = true
  · simp [hdirect]
  · cases hblock : fs.disk.block (cfg.writeBufferPath path) k with
    | none => simp [hdirect, hblock]
    | some file =>
      by_cases hexpired : isCacheFileExpired cfg.cacheMaxAge now (some file.mtime) = true
      · simp [hdirect, hblock, hexpired]
      · by_cases hpath : file.path = path <;> simp [hdirect, hblock, hexpired, hpath]

/-- After an invalidation no block of the path is served if and only if every block file of the
path that has not expired was indexed, or the mount uses direct I/O. -/
theorem invalidate_complete_iff (cfg : Config) (fs : MntrsFs) (path : Path) (ino : Ino)
    (now : Nat) :
    (∀ k, (readBlock cfg (invalidateBlocks cfg fs path ino) path ino k now).1 = none) ↔
      cfg.directIo = true ∨
      ∀ k file, fs.disk.block (cfg.writeBufferPath path) k = some file → file.path = path →
        isCacheFileExpired cfg.cacheMaxAge now (some file.mtime) = false →
        (path, some k) ∈ fs.diskCacheIndex := by
  have hserved := fun k ↦ @readBlock_eq_none_iff cfg (invalidateBlocks cfg fs path ino) path ino k
    (memCache_invalidateBlocks cfg fs path ino k) now
  simp only [hserved, block_invalidateBlocks]
  by_cases hdirect : cfg.directIo = true
  · simp [hdirect]
  · simp only [hdirect, false_or, Bool.false_eq_true]
    constructor
    · intro h k file hfile hpath hlive
      by_contra hindexed
      have hexpired := h k file (by rw [if_neg hindexed, hfile]) hpath
      rw [hlive] at hexpired
      cases hexpired
    · intro h k file hfile hpath
      split at hfile
      · cases hfile
      · next hindexed =>
        by_contra hlive
        exact hindexed (h k file hfile hpath (by simpa using hlive))

/-- A block file left by an earlier process is served after the start-up and after an
invalidation of its path. -/
theorem invalidate_leaves_unindexed :
    let disk := Disk.empty.writeBlock ((Config.plain .full).writeBufferPath ['a']) 0
      ⟨['a'], [7], 0⟩
    let fs := MntrsFs.mounted (fun _ ↦ none) disk
    (readBlock (.plain .full) (invalidateBlocks (.plain .full) fs ['a'] 2) ['a'] 2 0 0).1 =
      some [7] ∧
    (readBlock (.plain .full) (invalidateBlocks (.plain .full)
      (readBlock (.plain .full) fs ['a'] 2 0 0).2 ['a'] 2) ['a'] 2 0 0).1 = some [7] := by
  decide

end Mntrs

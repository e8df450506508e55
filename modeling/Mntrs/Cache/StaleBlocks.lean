import Mntrs.Cache.Generations
import Mntrs.Fs.ReadBlocks
import Mntrs.Fs.RenameContents
import Mntrs.Names.InodeTable

/-!
# Block files after rename, unlink and create

Block files are found by path, and a path's old blocks must not be served once its content has
changed. What `do_rename` (`src/src/lib.rs:8960-9487`), `unlink` (`7317-7726`) and `create`
(`6874-7053`) leave of them, and which blocks are still served afterwards, now or after pool
threads have executed the jobs queued before.
-/

namespace Mntrs

open Base

/-! ### Which block files are served -/

/-- A pool thread executes the block job at a position at an instant. -/
def poolStep (cfg : Config) (l : Nat × Nat) (fs : MntrsFs) : Option MntrsFs :=
  poolExecuteBlock cfg fs l.1 l.2

/-- Whatever pool threads execute from now on, `read_block` finds no block of the path. -/
def NeverServed (cfg : Config) (now : Nat) (fs : MntrsFs) (path : Path) (ino : Ino) : Prop :=
  ∀ fs', GuardedRun (poolStep cfg) (fun _ l ↦ now ≤ l.2) fs fs' →
    ∀ k now', now ≤ now' → (readBlock cfg fs' path ino k now').1 = none

/-- A block file of the path is on disk and has not expired. -/
def BlockLeft (cfg : Config) (now : Nat) (fs : MntrsFs) (path : Path) (k : Nat) : Prop :=
  ∃ file, fs.disk.block (cfg.writeBufferPath path) k = some file ∧ file.path = path ∧
    isCacheFileExpired cfg.cacheMaxAge now (some file.mtime) = false

/-- A block of the path is queued that a pool thread would still write. -/
def JobLeft (fs : MntrsFs) (path : Path) : Prop :=
  ∃ job ∈ fs.blockCachePool, job.remotePath = path ∧ pathCacheGen fs path = job.cacheGen ∧
    (utf8 path).length ≤ maxPathLen

theorem isCacheFileExpired_mono {maxAge now now' : Nat} {mtime : Option Nat} (hle : now ≤ now')
    (h : isCacheFileExpired maxAge now mtime) :
    isCacheFileExpired maxAge now' mtime = true := by
  unfold isCacheFileExpired at h ⊢
  split at h
  · cases h
  · next hage =>
    rw [if_neg hage]
    cases mtime with
    | none => cases h
    | some t =>
      simp only at h ⊢
      split at h
      · cases h
      · rw [if_neg (by omega)]
        simp only [gt_iff_lt, decide_eq_true_eq] at h ⊢
        omega

theorem isCacheFileExpired_self (maxAge now : Nat) :
    isCacheFileExpired maxAge now (some now) = false := by
  simp [isCacheFileExpired]

/-- Pool threads serve nothing of the path when no block file of it is left and none is queued. -/
theorem neverServed_of_none {cfg : Config} {now : Nat} {fs : MntrsFs} {path : Path} {ino : Ino}
    (hmem : ∀ k, fs.memCache ino k = none) (hblock : ∀ k, ¬ BlockLeft cfg now fs path k)
    (hjob : ¬ JobLeft fs path) : NeverServed cfg now fs path ino := by
  intro fs' hrun
  -- no execution writes a block of the path, so the three facts hold along the run
  have hinv := hrun.invariant
    (fun fs ↦ (∀ k, fs.memCache ino k = none) ∧ (∀ k, ¬ BlockLeft cfg now fs path k) ∧
      ¬ JobLeft fs path) ?_ ⟨hmem, hblock, hjob⟩
  · intro k now' hle
    refine (readBlock_eq_none_iff (hinv.1 k) now').mpr (.inr ?_)
    intro file hfile hpath
    by_contra hlive
    have hexpired : isCacheFileExpired cfg.cacheMaxAge now (some file.mtime) = true := by
      by_contra hnot
      exact hinv.2.1 k ⟨file, hfile, hpath, by simpa using hnot⟩
    exact hlive (isCacheFileExpired_mono hle hexpired)
  · rintro fs ⟨i, t⟩ fs' ⟨hmem, hblock, hjob⟩ hle hexec
    obtain ⟨job, hmemJob, disk, rfl, hdisk⟩ := poolExecuteBlock_cases hexec
    refine ⟨hmem, ?_, ?_⟩
    · rintro k ⟨file, hfile, hpath, hlive⟩
      rcases hdisk with rfl | ⟨hcurrent, hlength, rfl⟩
      · exact hblock k ⟨file, hfile, hpath, hlive⟩
      · have hother : job.remotePath ≠ path := by
          rintro rfl
          exact hjob ⟨job, hmemJob, rfl, hcurrent, hlength⟩
        rcases Disk.block_writeBlock hfile with ⟨-, -, rfl⟩ | hold
        · exact hother hpath
        · exact hblock k ⟨file, hold, hpath, hlive⟩
    · rintro ⟨job', hjob', hpath, hcurrent, hlength⟩
      exact hjob ⟨job', List.eraseIdx_subset hjob', hpath, hcurrent, hlength⟩

/-- Block files of a path are never served again exactly when none is left on disk or in the
queue, or the mount uses direct I/O. -/
theorem neverServed_iff {cfg : Config} {fs : MntrsFs} {ino : Ino}
    (hmem : ∀ k, fs.memCache ino k = none) (now : Nat) (path : Path) :
    NeverServed cfg now fs path ino ↔
      cfg.directIo = true ∨ (∀ k, ¬ BlockLeft cfg now fs path k) ∧ ¬ JobLeft fs path := by
  constructor
  · intro h
    by_cases hdirect : cfg.directIo = true
    · exact .inl hdirect
    · refine .inr ⟨?_, ?_⟩
      · rintro k ⟨file, hfile, hpath, hlive⟩
        have hnone := h fs .refl k now (Nat.le_refl now)
        rcases (readBlock_eq_none_iff (hmem k) now).mp hnone with hd | hexpired
        · exact hdirect hd
        · rw [hexpired file hfile hpath] at hlive
          cases hlive
      · rintro ⟨job, hjob, rfl, hcurrent, hlength⟩
        -- the job is executed now, and its block is served
        obtain ⟨i, hi⟩ := List.mem_iff_getElem?.mp hjob
        have hskip : ¬ (pathCacheGen fs job.remotePath ≠ job.cacheGen ∨
            maxPathLen < (utf8 job.remotePath).length) := by
          rw [not_or, not_not, not_lt]
          exact ⟨hcurrent, hlength⟩
        have hexec : poolStep cfg (i, now) fs = some { fs with
            blockCachePool := fs.blockCachePool.eraseIdx i
            disk := fs.disk.writeBlock (cfg.writeBufferPath job.remotePath) job.block
              ⟨job.remotePath, job.data, now⟩ } := by
          simp only [poolStep, poolExecuteBlock, hi]
          exact if_neg hskip
        have hnone := h _ (.single ⟨(i, now), Nat.le_refl now, hexec⟩) job.block now
          (Nat.le_refl now)
        rcases (readBlock_eq_none_iff (by exact hmem job.block) now).mp hnone with hd | hexpired
        · exact hdirect hd
        · have hlive := hexpired ⟨job.remotePath, job.data, now⟩
            (by simp [Disk.writeBlock]) rfl
          rw [isCacheFileExpired_self] at hlive
          cases hlive
  · rintro (hdirect | ⟨hblock, hjob⟩)
    · intro fs' hrun k now' hle
      have hkept := hrun.invariant (fun fs ↦ fs.memCache ino k = none) ?_ (hmem k)
      · exact (readBlock_eq_none_iff hkept now').mpr (.inl hdirect)
      · rintro fs l fs' hmem - hexec
        obtain ⟨-, -, disk, rfl, -⟩ := poolExecuteBlock_cases hexec
        exact hmem
    · exact neverServed_of_none hmem hblock hjob

/-! ### What the calls do to the block cache -/

variable (cfg : Config) (fs : MntrsFs)

/-- The block files, the queued blocks, the generations and the memory blocks are as before. -/
structure KeepsBlocks (fs fs' : MntrsFs) : Prop where
  block : fs'.disk.block = fs.disk.block
  pool : fs'.blockCachePool = fs.blockCachePool
  gens : fs'.pathCacheGen = fs.pathCacheGen
  mem : fs'.memCache = fs.memCache

theorem KeepsBlocks.neverServed_iff {cfg : Config} {fs fs' : MntrsFs} {ino : Ino}
    (h : KeepsBlocks fs fs') (hmem : ∀ k, fs.memCache ino k = none) (now : Nat) (path : Path) :
    NeverServed cfg now fs' path ino ↔
      cfg.directIo = true ∨ (∀ k, ¬ BlockLeft cfg now fs path k) ∧ ¬ JobLeft fs path := by
  rw [Mntrs.neverServed_iff (by rw [h.mem]; exact hmem)]
  simp [BlockLeft, JobLeft, pathCacheGen, h.block, h.pool, h.gens]

theorem KeepsBlocks.trans {fs fs₁ fs₂ : MntrsFs} (h : KeepsBlocks fs fs₁)
    (h' : KeepsBlocks fs₁ fs₂) : KeepsBlocks fs fs₂ :=
  ⟨h'.block.trans h.block, h'.pool.trans h.pool, h'.gens.trans h.gens, h'.mem.trans h.mem⟩

theorem keepsBlocks_renameLocal (src dst : Path) : KeepsBlocks fs (renameLocal cfg fs src dst) := by
  obtain ⟨dirCache, hlocal⟩ := renameLocal_eq cfg fs src dst
  obtain ⟨whole, hmigrate⟩ := migrate_frame fs.disk (cfg.writeBufferPath src)
    (cfg.writeBufferPath dst)
  rw [hlocal, hmigrate]
  cases hfound : (findInoByPath fs src).1 with
  | none =>
    rw [migrateInode_none dst hfound]
    exact ⟨rfl, rfl, rfl, rfl⟩
  | some ino =>
    rw [migrateInode_some dst hfound]
    exact ⟨rfl, rfl, rfl, rfl⟩

theorem keepsBlocks_doRename (src dst : Path) (env : RenameEnv) :
    KeepsBlocks fs (doRename cfg fs src dst env).2 := by
  have hbackend : KeepsBlocks fs (renameBackend cfg fs src dst env).2 := by
    obtain ⟨_, _, _, hframe⟩ := (renameBackend_outcome cfg fs src dst env).frame
    rw [hframe]
    exact ⟨rfl, rfl, rfl, rfl⟩
  by_cases hmoved : (renameBackend cfg fs src dst env).1 = .ok true
  · rw [doRename_of_moved hmoved]
    exact hbackend.trans (keepsBlocks_renameLocal cfg _ src dst)
  · rw [doRename_of_unmoved hmoved]
    exact hbackend

theorem keepsBlocks_createHandle (path : Path) (env : CreateEnv) :
    KeepsBlocks fs (createHandle cfg fs path env).2 := by
  unfold createHandle offModeBufferReset Disk.openTruncated
  simp only
  split
  · split
    · cases fs.disk.whole (cfg.writeBufferPath path) <;> exact ⟨rfl, rfl, rfl, rfl⟩
    · exact ⟨rfl, rfl, rfl, rfl⟩
  · exact ⟨rfl, rfl, rfl, rfl⟩

theorem keepsBlocks_listed (parent name : Path) (value : DirEntryCacheValue) (now : Nat)
    (ino : Ino) :
    KeepsBlocks fs (bumpLookupCount (cacheAddEntry fs parent name value now) ino) := by
  rw [bumpLookupCount_frame]
  exact ⟨rfl, rfl, rfl, rfl⟩

theorem keepsBlocks_createFinish (parent name path : Path) (env : CreateEnv) :
    KeepsBlocks fs (createFinish cfg fs parent name path env).2 := by
  have halloc : KeepsBlocks fs (allocInoWithMtime fs path .regularFile 0 env.now).2 := by
    rw [allocInoWithMtime, allocInode_frame]
    exact ⟨rfl, rfl, rfl, rfl⟩
  have hhandle := keepsBlocks_createHandle cfg
    (allocInoWithMtime fs path .regularFile 0 env.now).2 path env
  exact (halloc.trans hhandle).trans (keepsBlocks_listed _ parent name _ env.now _)

theorem keepsBlocks_createWritten (parent name path : Path) (env : CreateEnv) :
    KeepsBlocks fs (createWritten cfg fs parent name path env).2 := by
  have hput : KeepsBlocks fs (putObject fs path []) := ⟨rfl, rfl, rfl, rfl⟩
  exact hput.trans (keepsBlocks_createFinish cfg _ parent name path env)

theorem keepsBlocks_create (parent : Ino) (name : Path) (env : CreateEnv) :
    KeepsBlocks fs (create cfg fs parent name env).2 := by
  have hchain : ∀ path, KeepsBlocks fs (mkdirChain (clearTombstone fs path) path env).2 := by
    intro path
    rw [mkdirChain_frame, clearTombstone_frame]
    exact ⟨rfl, rfl, rfl, rfl⟩
  rcases create_cases cfg fs parent name env with ⟨e, heq, -⟩ | ⟨-, -, heq⟩
  · rw [heq]
    exact hchain _
  · rw [heq]
    exact (hchain _).trans (keepsBlocks_createWritten cfg _ _ _ _ env)

/-! ### Unlink -/

/-- How many blocks of a path an unlink removes: none of a symlink, otherwise those of the size
in the inode table. -/
def unlinkedBlocks (cfg : Config) (fs : MntrsFs) (path : Path) : Nat :=
  if (lookupSymlinkKeyCaseInsensitive cfg fs path).1.isSome then 0
  else blockCount (unlinkedSize fs path)

theorem keepsBlocks_unlinkSymlink (parent name path stored : Path) (env : DeleteEnv) :
    KeepsBlocks fs (unlinkSymlink cfg fs parent name path stored env) := by
  unfold unlinkSymlink removeListing
  rw [deleteBackendStrict_frame, cacheRemoveEntry_frame]
  exact ⟨rfl, rfl, rfl, rfl⟩

/-- An unlink removes the first blocks of its path and leaves the rest of the block cache. -/
theorem unlink_blocks (parent : Ino) (name : Path) (env : DeleteEnv) :
    let path := (entryNames fs parent name).2.2
    let fs' := (unlink cfg fs parent name env).2
    (∀ k, fs'.disk.block (cfg.writeBufferPath path) k =
        if k < unlinkedBlocks cfg fs path then none
        else fs.disk.block (cfg.writeBufferPath path) k) ∧
      fs'.blockCachePool = fs.blockCachePool ∧ fs'.pathCacheGen = fs.pathCacheGen ∧
      fs'.memCache = fs.memCache := by
  intro path fs'
  rcases unlink_cases cfg fs parent name env with
    ⟨stored, hstored, heq⟩ | ⟨hnone, r, mid, hbegin, heq⟩
  · have hkept : KeepsBlocks fs fs' := by
      simp only [fs']
      rw [heq]
      refine KeepsBlocks.trans ?_ (keepsBlocks_unlinkSymlink cfg _ _ _ _ stored env)
      rw [lookupSymlinkKeyCaseInsensitive_frame]
      exact ⟨rfl, rfl, rfl, rfl⟩
    have hblocks : unlinkedBlocks cfg fs path = 0 := if_pos (by rw [hstored]; rfl)
    refine ⟨?_, hkept.pool, hkept.gens, hkept.mem⟩
    intro k
    rw [hkept.block, hblocks, if_neg (Nat.not_lt_zero k)]
  · obtain ⟨_, _, _, _, hmid⟩ := unlinkBegin_inr hbegin
    have hsize : unlinkedSize mid path = unlinkedSize fs path :=
      unlinkedSize_congr (by rw [hmid]) (by rw [hmid]) path
    obtain ⟨disk, _, _, _, _, _, hlocal, -, -, hblock⟩ := unlinkLocal_frame cfg mid
      ⟨(entryNames fs parent name).1, (entryNames fs parent name).2.1, path, r⟩
    have hfs : fs' = _ := (congrArg Prod.snd heq).trans hlocal
    have hblocks : unlinkedBlocks cfg fs path = blockCount (unlinkedSize fs path) :=
      if_neg (by rw [hnone]; simp)
    rw [hfs, hblocks]
    refine ⟨?_, ?_, ?_, ?_⟩
    · intro k
      rw [hsize, hmid] at hblock
      exact hblock k
    · rw [hmid]
    · rw [hmid]
    · rw [hmid]

/-! ### Which calls leave old blocks -/

/-- After a rename, an unlink or a create no block file of the path is ever served again exactly
when, before the call, no live block file of it was on disk and no block of it was queued, where
an unlink may leave out the blocks of the size in the inode table. For a rename this is said of
the source and of the destination. -/
theorem old_blocks_gone_iff {cfg : Config} {fs : MntrsFs} {ino : Ino}
    (hmem : ∀ k, fs.memCache ino k = none) (now : Nat) :
    (∀ src dst env path, path = src ∨ path = dst →
      (NeverServed cfg now (doRename cfg fs src dst env).2 path ino ↔
        cfg.directIo = true ∨ (∀ k, ¬ BlockLeft cfg now fs path k) ∧ ¬ JobLeft fs path)) ∧
    (∀ parent name env, let path := (entryNames fs parent name).2.2
      (NeverServed cfg now (unlink cfg fs parent name env).2 path ino ↔
        cfg.directIo = true ∨
          (∀ k, BlockLeft cfg now fs path k → k < unlinkedBlocks cfg fs path) ∧
            ¬ JobLeft fs path)) ∧
    (∀ parent name env, let path := (entryNames fs parent name).2.2
      (NeverServed cfg now (create cfg fs parent name env).2 path ino ↔
        cfg.directIo = true ∨ (∀ k, ¬ BlockLeft cfg now fs path k) ∧ ¬ JobLeft fs path)) := by
  refine ⟨?_, ?_, ?_⟩
  · intro src dst env path _
    exact (keepsBlocks_doRename cfg fs src dst env).neverServed_iff hmem now path
  · intro parent name env path
    obtain ⟨hblock, hpool, hgens, hmem'⟩ := unlink_blocks cfg fs parent name env
    rw [neverServed_iff (by rw [hmem']; exact hmem)]
    have hleft : ∀ k, ¬ BlockLeft cfg now (unlink cfg fs parent name env).2 path k ↔
        (BlockLeft cfg now fs path k → k < unlinkedBlocks cfg fs path) := by
      intro k
      have hk := hblock k
      split at hk
      · next hlt =>
        refine ⟨fun _ _ ↦ hlt, ?_⟩
        rintro - ⟨file, hfile, -⟩
        rw [hk] at hfile
        cases hfile
      · next hlt =>
        simp only [BlockLeft]
        rw [hk]
        exact ⟨fun hnone hsome ↦ absurd hsome hnone, fun hsome hleft ↦ hlt (hsome hleft)⟩
    simp [hleft, JobLeft, pathCacheGen, hpool, hgens]
  · intro parent name env path
    exact (keepsBlocks_create cfg fs parent name env).neverServed_iff hmem now path

/-- Two files of one byte, the block of `b` cached, and some inodes. -/
def blockCached (inodes : Table Ino InodeEntry) : MntrsFs :=
  { MntrsFs.mounted
      (Function.update (Function.update (fun _ ↦ none) ['a'] (some [7])) ['b'] (some [8]))
      (Disk.empty.writeBlock ((Config.plain .full).writeBufferPath ['b']) 0 ⟨['b'], [8], 0⟩) with
    inodes := inodes }

/-- An unlink of `b` with its true size in the inode table removes the block for good. -/
theorem old_blocks_gone_iff_sample :
    NeverServed (.plain .full) 0
      (unlink (.plain .full) (blockCached (AList.insert 2 ⟨['b'], .regularFile, 1, none⟩ ∅)) 1 ['b']
        .ok).2 ['b'] 3 := by
  refine ((old_blocks_gone_iff (fun _ ↦ rfl) 0).2.1 1 ['b'] .ok).mpr (.inr ⟨?_, ?_⟩)
  · rintro k ⟨file, hfile, -⟩
    rcases Disk.block_writeBlock hfile with ⟨-, rfl, -⟩ | hold
    · decide
    · cases hold
  · rintro ⟨job, ⟨⟩, -⟩

/-- The block of `b` is served after a rename of `a` to `b`, after an unlink of `b` without an
inode, and after a create of `b`. -/
theorem old_blocks_served :
    let fs := blockCached ∅
    let renamed := doRename (.plain .full) fs ['a'] ['b'] .ok
    let unlinked := unlink (.plain .full) fs 1 ['b'] .ok
    let created := create (.plain .full) fs 1 ['b'] (.ok 0)
    (renamed.1 = .ok () ∧ renamed.2.backend ['b'] = some [7] ∧
      (readBlock (.plain .full) renamed.2 ['b'] 2 0 0).1 = some [8]) ∧
    (unlinked.1 = .ok () ∧ unlinked.2.backend ['b'] = none ∧
      (readBlock (.plain .full) unlinked.2 ['b'] 2 0 0).1 = some [8]) ∧
    (created.1.isOk = true ∧ created.2.backend ['b'] = some [] ∧
      (readBlock (.plain .full) created.2 ['b'] 2 0 0).1 = some [8]) := by
  decide

end Mntrs

import Mntrs.Names.InodeTable
import Mntrs.Writeback.Worker

/-!
# The modification time an upload records

At start-up the writeback worker is given `Arc::new(self.inodes.clone())`
(`src/src/lib.rs:1884-1911`), a table of its own with the entries of that moment. After a
successful upload it sets the modification time of the task's inode in this table
(`src/src/writeback.rs:756-771`); `getattr` and `lookup` read the table of the mount. The worker's
table is read by nothing else, so the other modules do without it: `uploadOk` is
`uploadAttempt` with the update of that table.
-/

namespace Mntrs

open Base

/-- The mount and the inode table the worker has. -/
structure WorkerMount where
  fs : MntrsFs
  workerInodes : Table Ino InodeEntry

/-- `common_init_wb`: the worker starts with a copy of the entries. -/
def commonInitWb (fs : MntrsFs) : WorkerMount := ⟨fs, fs.inodes⟩

/-- The worker's update after an upload, which recovered tasks do without. -/
def recordMtime (inodes : Table Ino InodeEntry) (ino : Ino) (now : Nat) : Table Ino InodeEntry :=
  if ino = inoRecoverySentinel then inodes
  else Table.modify inodes ino (fun e ↦ { e with mtime := some now })

/-- A put of an upload succeeds. -/
def uploadOk (m : WorkerMount) (i now : Nat) : Option WorkerMount :=
  match m.fs.writeback.running[i]?, uploadAttempt m.fs i .ok with
  | some u, some fs => some ⟨fs, recordMtime m.workerInodes u.task.ino now⟩
  | _, _ => none

/-- The inode is that of a file which is neither deleted nor a symlink, and the name in the parent
is its name. -/
structure LiveFile (cfg : Config) (fs : MntrsFs) (ino : Ino) (e : InodeEntry) (parent : Ino)
    (name : Path) : Prop where
  root : ino ≠ 1
  entry : fs.inodes.lookup ino = some e
  kind : e.kind = .regularFile
  standing : e.path ∉ fs.deleteTombstones
  plain : (lookupSymlinkEntryCaseInsensitive cfg fs e.path).1 = none
  dots : name ≠ ['.'] ∧ name ≠ ['.', '.']
  path : (entryNames fs parent name).2.2 = e.path

/-- What the mount knows about the time of a file: the inode's entry, the parent's listing, the
time in the answer to a stat, and the cache file. -/
structure FileView where
  entry : Option InodeEntry
  listed : Option DirEntryCacheValue
  statMtime : Option (Option Nat)
  cacheMtime : Option Nat
deriving DecidableEq

/-- The view of a file. -/
def fileView (cfg : Config) (fs : MntrsFs) (ino parent : Ino) (name : Path) (env : StatEnv) :
    FileView :=
  let (parentPath, name, path) := entryNames fs parent name
  { entry := fs.inodes.lookup ino
    listed := cachedEntry fs parentPath name
    statMtime := (statOp cfg fs path env).1.map FileStat.mtime
    cacheMtime := (fs.disk.whole (cfg.writeBufferPath path)).map fs.disk.mtime }

/-- The time of the inode's entry, else that of the backend. -/
def FileView.getattrMtime (v : FileView) : Option Nat :=
  v.entry.map (fun e ↦ e.mtime.getD (v.statMtime.join.getD 0))

/-- The time in the listing, else that of the backend, else that of the cache file. -/
def FileView.lookupMtime (v : FileView) : Option Nat :=
  match v.listed with
  | some l => some l.mtime
  | none => (v.statMtime.map (·.getD 0)).or v.cacheMtime

/-- Both requests report the time. -/
def ReportsMtime (cfg : Config) (fs : MntrsFs) (ino parent : Ino) (name : Path) (env : StatEnv)
    (t : Nat) : Prop :=
  (getattr cfg fs ino env).1.toOption.map FileAttr.mtime = some t ∧
  (lookup cfg fs parent name env).1.toOption.map FileAttr.mtime = some t

variable {cfg : Config} {fs : MntrsFs} {ino parent : Ino} {e : InodeEntry} {name : Path}
  {env : StatEnv}

theorem getattr_mtime (h : LiveFile cfg fs ino e parent name) :
    (getattr cfg fs ino env).1.toOption.map FileAttr.mtime =
      (fileView cfg fs ino parent name env).getattrMtime := by
  have hkind : e.kind ≠ .symlink := by simp [h.kind]
  simp only [getattr, if_neg h.root, h.entry, if_neg hkind, if_neg h.standing, fileView,
    FileView.getattrMtime, Option.map_some, getattrSize, h.path]
  cases e.mtime with
  | some t => rfl
  | none =>
    cases (statOp cfg fs e.path env).1 <;> rfl

theorem lookupSymlink_of_none {path : Path}
    (h : (lookupSymlinkEntryCaseInsensitive cfg fs path).1 = none) :
    lookupSymlinkEntryCaseInsensitive cfg fs path = (none, fs) := by
  revert h
  unfold lookupSymlinkEntryCaseInsensitive
  split
  · intro _
    rfl
  · simp only
    generalize (fs.symlinksLower (cfg.toLowercase path)).bind _ = indexed
    cases indexed with
    | some found => exact fun h ↦ nomatch h
    | none =>
      generalize fs.symlinks.entries.find? _ = found
      cases found with
      | some found => exact fun h ↦ nomatch h
      | none => exact fun _ ↦ rfl

/-- Without a listed entry the backend is asked, and then the cache file. -/
theorem lookupStat_mtime {parent path : Path} (h : cachedEntry fs parent name = none) :
    (lookupStat cfg fs parent name path env).1.toOption.map (fun r ↦ r.2.2.getD 0) =
      (((statOp cfg fs path env).1.map FileStat.mtime).map (·.getD 0)).or
        ((fs.disk.whole (cfg.writeBufferPath path)).map fs.disk.mtime) := by
  have hframe := statOp_frame cfg fs path env
  unfold lookupStat
  cases hstat : statOp cfg fs path env with
  | mk st fs' =>
    rw [hstat] at hframe
    cases st with
    | some st => rfl
    | none =>
      simp only at hframe
      have hlisted : cachedEntry fs' parent name = none := by
        rw [hframe]
        exact h
      have hdisk : fs'.disk = fs.disk := by rw [hframe]
      simp only [hlisted, hdisk]
      cases fs.disk.whole (cfg.writeBufferPath path) <;> rfl

theorem lookup_mtime (h : LiveFile cfg fs ino e parent name) :
    (lookup cfg fs parent name env).1.toOption.map FileAttr.mtime =
      (fileView cfg fs ino parent name env).lookupMtime := by
  have hdots : ¬ (name = ['.'] ∨ name = ['.', '.']) := by simp [h.dots]
  have hpath := h.path
  unfold lookup fileView FileView.lookupMtime
  rw [if_neg hdots]
  generalize entryNames fs parent name = names at hpath ⊢
  obtain ⟨parentPath, name, path⟩ := names
  subst hpath
  simp only [if_neg h.standing, lookupSymlink_of_none h.plain]
  cases hlisted : cachedEntry fs parentPath name with
  | some v => rfl
  | none =>
    refine Eq.trans ?_ (lookupStat_mtime hlisted)
    rcases lookupStat cfg fs parentPath name e.path env with ⟨_ | ⟨kind, size, mtime⟩, fs'⟩ <;> rfl

/-! ### The time the mount has before the put -/

/-- The time the settings take from the backend's answer to a stat of `p` once there is an object
at `put`. -/
def backendMtimeAfterPut (cfg : Config) (fs : MntrsFs) (p put : Path) (env : StatEnv) :
    Option (Option Nat) :=
  let implicit := if !cfg.noImplicitDir && env.hasEntries then some none else none
  match env.failure with
  | none =>
    if p = put ∨ (fs.backend p).isSome ∨ env.directory then
      some (if cfg.noModtime then none else if cfg.useServerModtime then env.lastModified else none)
    else implicit
  | some .notFound => implicit
  | some _ => none

/-- The time a stat of `p` is going to give once there is an object at `put`: that of attributes
cached within their time to live, else that of the backend. -/
def statMtimeAfterPut (cfg : Config) (fs : MntrsFs) (p put : Path) (env : StatEnv) :
    Option (Option Nat) :=
  match (if cfg.vfsRefresh then none else
    (fs.attrCache p).filter (fun e ↦ env.now - e.cachedAt < cfg.statCacheTtl)) with
  | some e => some e.mtime
  | none => backendMtimeAfterPut cfg fs p put env

/-- Before the put the mount has the time for the file: in the inode's entry, or, where that has
none, from a stat; and in the parent's listing, or, without an entry there, from a stat, else
from the cache file. -/
structure HasMtime (cfg : Config) (fs : MntrsFs) (ino parent : Ino) (name put : Path)
    (env : StatEnv) (t : Nat) : Prop where
  entry : ∃ e, fs.inodes.lookup ino = some e ∧
    (e.mtime = some t ∨ e.mtime = none ∧
      (statMtimeAfterPut cfg fs (entryNames fs parent name).2.2 put env).join.getD 0 = t)
  listing : (∃ l, cachedEntry fs (entryNames fs parent name).1 (entryNames fs parent name).2.1 =
      some l ∧ l.mtime = t) ∨
    cachedEntry fs (entryNames fs parent name).1 (entryNames fs parent name).2.1 = none ∧
      ((statMtimeAfterPut cfg fs (entryNames fs parent name).2.2 put env).map (·.getD 0)).or
        ((fs.disk.whole (cfg.writeBufferPath (entryNames fs parent name).2.2)).map
          fs.disk.mtime) = some t

theorem statBackend_mtime_put {fs' : MntrsFs} {p put : Path} {bytes : Bytes}
    (hbackend : fs'.backend = Function.update fs.backend put (some bytes)) :
    (statBackend cfg fs' p env).map FileStat.mtime = backendMtimeAfterPut cfg fs p put env := by
  simp only [statBackend, opStat, backendMtimeAfterPut, hbackend]
  cases env.failure with
  | some e =>
    cases e with
    | notFound => exact apply_ite ..
    | _ => rfl
  | none =>
    by_cases hp : p = put
    · simp [hp]
    · rw [Function.update_of_ne hp]
      cases fs.backend p with
      | some bytes => simp [EntryMode.fileType]
      | none =>
        cases env.directory with
        | true => simp
        | false => simp [hp]

/-- A stat after the put gives the time told before it. -/
theorem statOp_mtime_put {fs' : MntrsFs} {p put : Path} {bytes : Bytes}
    (hattrs : fs'.attrCache = fs.attrCache)
    (hbackend : fs'.backend = Function.update fs.backend put (some bytes)) :
    (statOp cfg fs' p env).1.map FileStat.mtime = statMtimeAfterPut cfg fs p put env := by
  simp only [statOp, statMtimeAfterPut, hattrs, ← statBackend_mtime_put hbackend]
  cases (if cfg.vfsRefresh then none else
    (fs.attrCache p).filter (fun e ↦ env.now - e.cachedAt < cfg.statCacheTtl)) with
  | some e => rfl
  | none => cases hstat : statBackend cfg fs' p env <;> rfl

/-- The put changes the view by what a stat gives. -/
theorem fileView_uploadOk {m m' : WorkerMount} {i now : Nat} {u : Upload}
    (hu : m.fs.writeback.running[i]? = some u) (h : uploadOk m i now = some m') :
    fileView cfg m'.fs ino parent name env =
      { fileView cfg m.fs ino parent name env with
        statMtime := statMtimeAfterPut cfg m.fs (entryNames m.fs parent name).2.2
          u.task.remotePath env } := by
  unfold uploadOk at h
  split at h <;> cases h
  rename_i u' fs' hu' hattempt
  obtain ⟨u₀, n, hu₀, hn, heffect⟩ := attempted hattempt
  cases hu.symm.trans hu₀
  cases heffect
  exact congrArg (fun stat ↦ FileView.mk _ _ stat _) (statOp_mtime_put rfl rfl)

/-- After an upload of a task with a live inode, for as long as what the mount knows about the file
stays the same, the recorded time is reported iff the mount had it before the put already. -/
theorem upload_mtime_reported_iff {m m' : WorkerMount} {i now : Nat} {u : Upload}
    (hu : m.fs.writeback.running[i]? = some u)
    (hupload : uploadOk m i now = some m')
    (hlive : LiveFile cfg fs u.task.ino e parent name)
    (hsame : fileView cfg fs u.task.ino parent name env =
      fileView cfg m'.fs u.task.ino parent name env) :
    ReportsMtime cfg fs u.task.ino parent name env now ↔
      HasMtime cfg m.fs u.task.ino parent name u.task.remotePath env now := by
  rw [ReportsMtime, getattr_mtime hlive, lookup_mtime hlive, hsame, fileView_uploadOk hu hupload]
  refine Iff.trans (and_congr ?_ ?_)
    ⟨fun h ↦ HasMtime.mk h.1 h.2, fun h ↦ And.intro h.entry h.listing⟩
  · simp only [FileView.getattrMtime, fileView, Option.map_eq_some_iff]
    refine exists_congr fun e ↦ and_congr_right fun _ ↦ ?_
    cases e.mtime <;> simp
  · simp only [FileView.lookupMtime, fileView]
    cases cachedEntry m.fs (entryNames m.fs parent name).1 (entryNames m.fs parent name).2.1 <;>
      simp

/-- A mount with one file, written and listed at `t`, whose upload is about to be put. -/
def writtenAt (t : Nat) : MntrsFs :=
  { emptyMount with
    inodes := AList.insert 2 ⟨['a'], .regularFile, 1, some t⟩ ∅
    dirCache := fun p ↦
      if p = canonicalizeListPath [] then some ⟨t, AList.insert ['a'] ⟨.file, 1, t, some 2⟩ ∅⟩
      else none
    writeback := ⟨{['a']}, [], [], [⟨⟨2, ['a'], 0, none, false, 0⟩, [7], .attempt 0⟩]⟩ }

/-- A file that is uploaded within the instant of its last write. -/
theorem upload_mtime_reported_iff_sample :
    ∃ m, uploadOk (commonInitWb (writtenAt 9)) 0 9 = some m ∧
      ReportsMtime (.plain .writes) m.fs 2 1 ['a'] (.plain 10) 9 := by
  refine ⟨_, rfl, (upload_mtime_reported_iff (m := commonInitWb (writtenAt 9)) (i := 0)
    (e := ⟨['a'], .regularFile, 1, some 9⟩) rfl rfl ?_ rfl).mpr
    ⟨⟨_, rfl, .inl rfl⟩, .inl ⟨_, rfl, rfl⟩⟩⟩
  exact ⟨by decide, by decide, rfl, by decide, by decide, by decide, by decide⟩

/-- A file written at 5 whose upload ends at 9: the worker's table says so, the requests do not. -/
theorem upload_mtime_not_seen :
    ∃ m, uploadOk (commonInitWb (writtenAt 5)) 0 9 = some m ∧
      m.workerInodes.lookup 2 = some ⟨['a'], .regularFile, 1, some 9⟩ ∧
      (getattr (.plain .writes) m.fs 2 (.plain 10)).1 = .ok ⟨2, 1, .regularFile, 5⟩ ∧
      (lookup (.plain .writes) m.fs 1 ['a'] (.plain 10)).1 = .ok ⟨2, 1, .regularFile, 5⟩ := by
  refine ⟨_, rfl, ?_, ?_, ?_⟩ <;> decide

end Mntrs

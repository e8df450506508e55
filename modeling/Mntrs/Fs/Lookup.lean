import Mntrs.Fs.Inodes

/-!
# Lookup and attributes

Models `stat_op_async` (`src/src/lib.rs:2435-2618`), `lookup_symlink_entry_case_insensitive`
(`3517-3551`), `lookup_async` (`3620-3945`) and `getattr` (`4044-4152`). `StatEnv` holds what the
backend answers beyond the objects the model has.
-/

namespace Mntrs

open Base

/-- `FileAttr`, as `make_attr` fills it; what it derives from these and from the settings is
left out. -/
structure FileAttr where
  ino : Ino
  size : Nat
  kind : FileType
  mtime : Nat
deriving DecidableEq, Repr

/-- `FileStat`. -/
structure FileStat where
  kind : FileType
  size : Nat
  mtime : Option Nat
deriving DecidableEq, Repr

/-- `opendal::Metadata`. -/
structure Metadata where
  mode : EntryMode
  contentLength : Nat
  lastModified : Option Nat
deriving DecidableEq, Repr

/-- What the backend answers to a stat. -/
structure StatEnv where
  /-- error of `op.stat` -/
  failure : Option ErrorKind
  /-- a path without object is a directory of the backend -/
  directory : Bool
  lastModified : Option Nat
  /-- a lister below the path has an entry -/
  hasEntries : Bool
  now : Nat
deriving DecidableEq, Repr

/-- No error, no directories, no modification times. -/
def StatEnv.plain (now : Nat) : StatEnv := ⟨none, false, none, false, now⟩

/-- `Error::from_raw_os_error(ENOENT)`. -/
def enoent : IoError := ⟨.notFound, "No such file or directory (os error 2)", none⟩

/-- The kind of an entry: everything but a directory is a file. -/
def EntryMode.fileType : EntryMode → FileType
  | dir => .directory
  | _ => .regularFile

/-- `op.stat`. -/
def opStat (fs : MntrsFs) (p : Path) (env : StatEnv) : Except ErrorKind Metadata :=
  match env.failure, fs.backend p with
  | some e, _ => .error e
  | none, some bytes => .ok ⟨.file, bytes.length, env.lastModified⟩
  | none, none => if env.directory then .ok ⟨.dir, 0, env.lastModified⟩ else .error .notFound

/-- The backend half of `stat_op_async`, `2522-2605`: only `NotFound` leads to the listing that
tells an implicit directory. -/
def statBackend (cfg : Config) (fs : MntrsFs) (p : Path) (env : StatEnv) : Option FileStat :=
  match opStat fs p env with
  | .ok stat =>
    let mtime :=
      if cfg.noModtime then none else if cfg.useServerModtime then stat.lastModified else none
    some ⟨stat.mode.fileType, stat.contentLength, mtime⟩
  | .error .notFound =>
    if !cfg.noImplicitDir && env.hasEntries then some ⟨.directory, 4096, none⟩ else none
  | .error _ => none

/-- `stat_op`: cached attributes within their time to live, else the backend. -/
def statOp (cfg : Config) (fs : MntrsFs) (p : Path) (env : StatEnv) : Option FileStat × MntrsFs :=
  let cached := if cfg.vfsRefresh then none else
    (fs.attrCache p).filter (fun e ↦ env.now - e.cachedAt < cfg.statCacheTtl)
  match cached with
  | some e => (some ⟨e.kind, e.size, e.mtime⟩, fs)
  | none =>
    match statBackend cfg fs p env with
    | some st =>
      (some st, { fs with
        attrCache := Function.update fs.attrCache p (some ⟨st.kind, st.size, st.mtime, env.now⟩) })
    | none => (none, fs)

/-- `lookup_symlink_entry_case_insensitive`: the stored spelling and the target; an index entry
without a symlink is passed over. -/
def lookupSymlinkEntryCaseInsensitive (cfg : Config) (fs : MntrsFs) (path : Path) :
    Option (Path × Path) × MntrsFs :=
  if fs.symlinks.entries = [] then (none, fs)
  else
    let lower := cfg.toLowercase path
    let indexed := (fs.symlinksLower lower).bind
      (fun canonical ↦ (fs.symlinks.lookup canonical).map (fun target ↦ (canonical, target)))
    match indexed with
    | some e => (some e, fs)
    | none =>
      match fs.symlinks.entries.find? (fun e ↦ cfg.toLowercase e.1 = lower) with
      | some e =>
        (some (e.1, e.2),
          { fs with symlinksLower := Function.update fs.symlinksLower lower (some e.1) })
      | none => (none, fs)

/-- The size of the whole-file cache of a path; 0 without one. -/
def cacheFileSize (cfg : Config) (fs : MntrsFs) (path : Path) : Nat :=
  ((fs.cacheFile cfg path).map List.length).getD 0

/-- The entry a parent's cached listing has for a name, at any age. -/
def cachedEntry (fs : MntrsFs) (parent name : Path) : Option DirEntryCacheValue :=
  (fs.dirCache (canonicalizeListPath parent)).bind (fun snap ↦ snap.entries.lookup name)

/-- The size `lookup` reports for a listed entry: the cache file may be ahead of the listing. -/
def listedSize (cfg : Config) (fs : MntrsFs) (path : Path) (v : DirEntryCacheValue) : Nat :=
  if v.mode.fileType = .directory then 0 else max v.size (cacheFileSize cfg fs path)

/-- The path's inode, or a new one. -/
def findOrAlloc (fs : MntrsFs) (path : Path) (kind : FileType) (size mtime : Nat) :
    Ino × MntrsFs :=
  match findInoByPath fs path with
  | (some ino, fs) => (ino, fs)
  | (none, fs) => allocInoWithMtime fs path kind size mtime

/-- Drop the parent's listing when it lacks a name the backend has, `3829-3851`. -/
def dropStaleListing (fs : MntrsFs) (path : Path) : MntrsFs :=
  match fileName path with
  | none => fs
  | some basename =>
    let key := canonicalizeListPath ((parentPath path).getD [])
    if (fs.dirCache key).any (fun snap ↦ (snap.entries.lookup basename).isNone) then
      { fs with dirCache := Function.update fs.dirCache key none }
    else fs

/-- Where a lookup finds the attributes of a path that the parent's listing does not show:
the backend, else the listing once more, else the cache file, `3795-3911`. -/
def lookupStat (cfg : Config) (fs : MntrsFs) (parent name path : Path) (env : StatEnv) :
    Except IoError (FileType × Nat × Option Nat) × MntrsFs :=
  match statOp cfg fs path env with
  | (some st, fs) =>
    let size := max st.size (cacheFileSize cfg fs path)
    (.ok (st.kind, size, st.mtime), dropStaleListing fs path)
  | (none, fs) =>
    match cachedEntry fs parent name with
    | some v => (.ok (v.mode.fileType, listedSize cfg fs path v, some v.mtime), fs)
    | none =>
      match fs.disk.whole (cfg.writeBufferPath path) with
      | some f => (.ok (.regularFile, (fs.disk.data f).length, some (fs.disk.mtime f)), fs)
      | none => (.error ⟨.notFound, "lookup: not on backend, no cache file", none⟩, fs)

/-- The names a lookup works with, `3635-3661`: a leading slash is dropped below the root. -/
def entryNames (fs : MntrsFs) (parent : Ino) (name : Path) : Path × Path × Path :=
  let parentPath := resolvePath fs parent
  let name := if parentPath = [] ∧ name.head? = some '/' then name.tail else name
  (parentPath, name, childPath parentPath name)

/-- `MntrsFs::lookup`, `src/src/lib.rs:3620-3945`. -/
def lookup (cfg : Config) (fs : MntrsFs) (parent : Ino) (name : Path) (env : StatEnv) :
    Except IoError FileAttr × MntrsFs :=
  if name = ['.'] ∨ name = ['.', '.'] then
    let ino := if name = ['.'] then parent else 1
    (.ok ⟨ino, 4096, .directory, 0⟩, bumpLookupCount fs ino)
  else
    let (parentPath, name, path) := entryNames fs parent name
    if path ∈ fs.deleteTombstones then (.error enoent, fs)
    else
      let (symlink, fs) := lookupSymlinkEntryCaseInsensitive cfg fs path
      match symlink with
      | some (stored, target) =>
        let size := (utf8 target).length
        let (ino, fs) := allocIno fs stored .symlink size
        (.ok ⟨ino, size, .symlink, env.now⟩, bumpLookupCount fs ino)
      | none =>
        match cachedEntry fs parentPath name with
        | some v =>
          let kind := v.mode.fileType
          let size := listedSize cfg fs path v
          let (ino, fs) := findOrAlloc fs path kind size v.mtime
          (.ok ⟨ino, size, kind, v.mtime⟩, bumpLookupCount fs ino)
        | none =>
          match lookupStat cfg fs parentPath name path env with
          | (.error e, fs) => (.error e, fs)
          | (.ok (kind, size, mtime), fs) =>
            let (ino, fs) := findOrAlloc fs path kind size (mtime.getD env.now)
            (.ok ⟨ino, size, kind, mtime.getD 0⟩, bumpLookupCount fs ino)

/-- The size and modification time `getattr` reports for a file or directory, `4116-4144`: an
inode with a modification time is trusted, one without asks the backend. -/
def getattrSize (cfg : Config) (fs : MntrsFs) (e : InodeEntry) (env : StatEnv) :
    (Nat × Nat) × MntrsFs :=
  match e.mtime with
  | some mtime => ((max e.size (cacheFileSize cfg fs e.path), mtime), fs)
  | none =>
    let (st, fs) := statOp cfg fs e.path env
    let st := st.getD ⟨e.kind, e.size, none⟩
    ((max (max e.size st.size) (cacheFileSize cfg fs e.path), st.mtime.getD 0), fs)

/-- `MntrsFs::getattr`, `src/src/lib.rs:4044-4152`. -/
def getattr (cfg : Config) (fs : MntrsFs) (ino : Ino) (env : StatEnv) :
    Except IoError FileAttr × MntrsFs :=
  if ino = 1 then (.ok ⟨1, 4096, .directory, 0⟩, fs)
  else match fs.inodes.lookup ino with
    | none => (.error ⟨.notFound, "ino not found", none⟩, fs)
    | some e =>
      if e.kind = .symlink then
        match fs.symlinks.lookup e.path with
        | some target => (.ok ⟨ino, (utf8 target).length, .symlink, env.now⟩, fs)
        | none =>
          (.error ⟨.invalidInput, "getattr: ino " ++ toString ino ++ " has no symlink entry for " ++
            String.ofList e.path, none⟩, fs)
      else if e.path ∈ fs.deleteTombstones then (.error enoent, fs)
      else
        let ((size, mtime), fs) := getattrSize cfg fs e env
        (.ok ⟨ino, size, e.kind, mtime⟩, fs)

/-! ### What each piece leaves alone -/

variable (cfg : Config) (fs : MntrsFs)

theorem statOp_frame (p : Path) (env : StatEnv) :
    (statOp cfg fs p env).2 = { fs with attrCache := (statOp cfg fs p env).2.attrCache } := by
  unfold statOp
  simp only
  split
  · rfl
  · split <;> rfl

theorem lookupSymlinkEntryCaseInsensitive_frame (path : Path) :
    (lookupSymlinkEntryCaseInsensitive cfg fs path).2 =
      { fs with
        symlinksLower := (lookupSymlinkEntryCaseInsensitive cfg fs path).2.symlinksLower } := by
  unfold lookupSymlinkEntryCaseInsensitive
  split
  · rfl
  · simp only
    split
    · rfl
    · split <;> rfl

theorem dropStaleListing_frame (path : Path) :
    dropStaleListing fs path = { fs with dirCache := (dropStaleListing fs path).dirCache } := by
  unfold dropStaleListing
  split
  · rfl
  · simp only
    split <;> rfl

theorem lookupStat_frame (parent name path : Path) (env : StatEnv) :
    ∃ attrCache dirCache, (lookupStat cfg fs parent name path env).2 =
      { fs with attrCache := attrCache, dirCache := dirCache } := by
  have hstat := statOp_frame cfg fs path env
  unfold lookupStat
  split
  · next st fs' heq =>
    rw [heq] at hstat
    simp only at hstat ⊢
    rw [dropStaleListing_frame, hstat]
    exact ⟨_, _, rfl⟩
  · next fs' heq =>
    rw [heq] at hstat
    simp only at hstat
    rw [hstat]
    split
    · exact ⟨_, _, rfl⟩
    · split <;> exact ⟨_, _, rfl⟩

/-- A lookup searches the symlinks, asks for the attributes, finds or allocates an inode, and counts
itself: a relation that these keep, it keeps. -/
theorem lookup_related {R : MntrsFs → MntrsFs → Prop} (hrefl : ∀ fs, R fs fs)
    (htrans : ∀ {fs fs' fs''}, R fs fs' → R fs' fs'' → R fs fs'')
    (hsearch : ∀ fs path, R fs (lookupSymlinkEntryCaseInsensitive cfg fs path).2)
    (hstat : ∀ fs parent name path env, R fs (lookupStat cfg fs parent name path env).2)
    (hfind : ∀ fs path, R fs (findInoByPath fs path).2)
    (halloc : ∀ fs path kind size mtime, R fs (allocInode fs path kind size mtime).2)
    (hbump : ∀ fs ino, R fs (bumpLookupCount fs ino)) (parent : Ino) (name : Path)
    (env : StatEnv) : R fs (lookup cfg fs parent name env).2 := by
  have hfound : ∀ fs path kind size mtime, R fs (findOrAlloc fs path kind size mtime).2 := by
    intro fs path kind size mtime
    have hpath := hfind fs path
    unfold findOrAlloc
    split <;> next heq => rw [heq] at hpath; first | exact hpath | exact htrans hpath (halloc ..)
  unfold lookup
  split
  · exact hbump ..
  · simp only
    split
    · exact hrefl fs
    · refine htrans (hsearch fs (entryNames fs parent name).2.2) ?_
      split
      · exact htrans (halloc ..) (hbump ..)
      · split
        · exact htrans (hfound ..) (hbump ..)
        · refine htrans (hstat _ (entryNames fs parent name).1 (entryNames fs parent name).2.1
            (entryNames fs parent name).2.2 env) ?_
          split
          · next heq => exact heq ▸ hrefl _
          · next heq => exact heq ▸ htrans (hfound ..) (hbump ..)

theorem getattr_frame (ino : Ino) (env : StatEnv) :
    (getattr cfg fs ino env).2 =
      { fs with attrCache := (getattr cfg fs ino env).2.attrCache } := by
  unfold getattr
  split
  · rfl
  · split
    · rfl
    · next e _ =>
      split
      · split <;> rfl
      · split
        · rfl
        · simp only [getattrSize]
          split
          · rfl
          · exact statOp_frame cfg fs e.path env

end Mntrs

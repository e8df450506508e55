import Mntrs.Fs.Listing
import Mntrs.Fs.Rename
import Mntrs.Fs.Unlink

/-!
# Creating, removing and renaming entries

Models `build_mkdir_chain` (`src/src/util.rs:470-486`), `mkdir_chain` (`src/src/lib.rs:2375-2427`),
`create` (`6874-7053`), `create_excl` (`7076-7229`), `mkdir` (`7231-7315`), `rmdir`
(`7728-7792`), the names of `rename` (`7794-7842`) and `symlink` (`8266-8340`).
-/

namespace Mntrs

open Base

/-- The outcomes of the backend calls of a create or a mkdir. -/
structure CreateEnv where
  /-- error of `create_dir` of a directory above the entry -/
  createDir : Path → Option ErrorKind
  /-- error of the write of the file, or of `create_dir` of the directory itself -/
  write : Option ErrorKind
  /-- the cache file can be opened -/
  opens : Bool
  now : Nat

/-- Every call succeeds. -/
def CreateEnv.ok (now : Nat) : CreateEnv := ⟨fun _ ↦ none, none, true, now⟩

/-- The directories at and above a path, from the path up, each with a slash. The argument is the
path cut at its slashes, backwards. -/
def mkdirLevels : List Path → List Path
  | [] => []
  | s :: segs =>
    let cur := List.intercalate ['/'] (s :: segs).reverse
    if cur = [] then [] else (cur ++ ['/']) :: mkdirLevels segs

/-- `build_mkdir_chain`: the directories above a path, from the nearest up. -/
def buildMkdirChain (path : Path) : List Path :=
  (mkdirLevels ((trimEndSlashes path).splitOn '/').reverse).tail

/-- `op.create_dir` for those of some paths that it does not fail for. -/
def createDirs (backend : Path → Option Bytes) (paths : List Path) : Path → Option Bytes :=
  fun p ↦ if p ∈ paths then some [] else backend p

/-- `mkdir_chain`: all directories above a path are created at once. A backend without
`create_dir` and a directory that exists are fine; the first other error is returned. -/
def mkdirChain (fs : MntrsFs) (path : Path) (env : CreateEnv) : Except IoError Unit × MntrsFs :=
  let chain := buildMkdirChain path
  let fs := { fs with
    backend := createDirs fs.backend (chain.filter (fun p ↦ (env.createDir p).isNone)) }
  let failed := chain.find? (fun p ↦ match env.createDir p with
    | none | some .unsupported | some .alreadyExists => false
    | some _ => true)
  match failed with
  | none => (.ok (), fs)
  | some p =>
    (.error ⟨.other, "create_dir(" ++ String.ofList p ++ ") failed", env.createDir p⟩, fs)

/-- Create-after-unlink, `6917-6939`: a tombstone of the path is cleared, with the pending deletes
of the path if there is a deleter. -/
def clearTombstone (fs : MntrsFs) (path : Path) : MntrsFs :=
  if path ∈ fs.deleteTombstones then
    match fs.concurrentDeleter with
    | some d =>
      let s := cancelPending ⟨fs.backend, fs.deleteTombstones, d⟩ path
      { fs with deleteTombstones := s.tombs, concurrentDeleter := some s.deleter }
    | none => { fs with deleteTombstones := fs.deleteTombstones.erase path }
  else fs

/-- Open the cache file of a created path, truncated. -/
def Disk.openTruncated (d : Disk) (n : CacheName) (now : Nat) : FileId × Disk :=
  match d.whole n with
  | some f => (f, d.setData f [] now)
  | none => (d.nextFile, d.create n [] now)

/-- `off_mode_buffer_reset`: a new, empty buffer for a path. -/
def offModeBufferReset (fs : MntrsFs) (path : Path) : BufId × MntrsFs :=
  (fs.nextBuf, { fs with
    offModeBuffers := Function.update fs.offModeBuffers path (some fs.nextBuf)
    buffers := Function.update fs.buffers fs.nextBuf ⟨[], true, false⟩
    nextBuf := fs.nextBuf + 1 })

/-- The write handle of a created file, `6978-7034`, with its cache file or its buffer. -/
def createHandle (cfg : Config) (fs : MntrsFs) (path : Path) (env : CreateEnv) : Fh × MntrsFs :=
  let fh := fs.nextFh
  let fs := { fs with nextFh := fh + 1 }
  let handle := fun fd buf ↦ FileHandleState.write ⟨path, fd, buf, false, none, none, none⟩
  if cfg.cacheMode.diskWriteBuffer then
    if env.opens then
      let (f, disk) := fs.disk.openTruncated (cfg.writeBufferPath path) env.now
      (fh, { fs with disk := disk, handles := fs.handles.insert fh (handle (some f) none) })
    else (fh, { fs with handles := fs.handles.insert fh (handle none none) })
  else
    let (buf, fs) := offModeBufferReset fs path
    (fh, { fs with handles := fs.handles.insert fh (handle none (some buf)) })

/-- What `create` and `create_excl` do after their write, `6964-7052`. -/
def createFinish (cfg : Config) (fs : MntrsFs) (parentPath name path : Path) (env : CreateEnv) :
    (FileAttr × Fh) × MntrsFs :=
  let (ino, fs) := allocInoWithMtime fs path .regularFile 0 env.now
  let (fh, fs) := createHandle cfg fs path env
  let fs := cacheAddEntry fs parentPath name ⟨.file, 0, env.now, some ino⟩ env.now
  ((⟨ino, 0, .regularFile, env.now⟩, fh), bumpLookupCount fs ino)

/-- `MntrsFs::create`, `src/src/lib.rs:6874-7053`. -/
def create (cfg : Config) (fs : MntrsFs) (parent : Ino) (name : Path) (env : CreateEnv) :
    Except IoError (FileAttr × Fh) × MntrsFs :=
  let (parentPath, name, path) := entryNames fs parent name
  match mkdirChain (clearTombstone fs path) path env with
  | (.error e, fs) => (.error e, fs)
  | (.ok (), fs) =>
    match env.write with
    | some e => (.error (opendalToIoError e "create"), fs)
    | none =>
      let (made, fs) := createFinish cfg (putObject fs path []) parentPath name path env
      (.ok made, fs)

/-- The error of the conditional write of `create_excl`, `7127-7162`. -/
def createExclError : ErrorKind → IoError
  | .alreadyExists => ⟨.alreadyExists, "create_excl: file exists", none⟩
  | .conditionNotMatch => ⟨.alreadyExists, "create_excl: file exists", none⟩
  | e => opendalToIoError e "create_excl"

/-- `MntrsFs::create_excl`, `src/src/lib.rs:7076-7229`: without the capability it is `create`; with
it, a tombstone of the path is not looked at. -/
def createExcl (cfg : Config) (fs : MntrsFs) (parent : Ino) (name : Path) (env : CreateEnv) :
    Except IoError (FileAttr × Fh) × MntrsFs :=
  if cfg.writeWithIfNotExists then
    let (parentPath, name, path) := entryNames fs parent name
    match mkdirChain fs path env with
    | (.error e, fs) => (.error e, fs)
    | (.ok (), fs) =>
      match env.write with
      | some e => (.error (createExclError e), fs)
      | none =>
        let (made, fs) := createFinish cfg (putObject fs path []) parentPath name path env
        (.ok made, fs)
  else create cfg fs parent name env

/-- `op.create_dir` of the directory itself, `7269-7302`. -/
def mkdirLeaf (fs : MntrsFs) (path : Path) (env : CreateEnv) : Except IoError Unit × MntrsFs :=
  let leaf := if path.getLast? = some '/' then path else path ++ ['/']
  match env.write with
  | none => (.ok (), { fs with backend := createDirs fs.backend [leaf] })
  | some .unsupported | some .alreadyExists => (.ok (), fs)
  | some e => (.error (opendalToIoError e "mkdir"), fs)

/-- `MntrsFs::mkdir`, `src/src/lib.rs:7231-7315`: a leading slash of the name stays. -/
def mkdir (fs : MntrsFs) (parent : Ino) (name : Path) (env : CreateEnv) :
    Except IoError FileAttr × MntrsFs :=
  let parentPath := resolvePath fs parent
  let path := childPath parentPath name
  match mkdirChain (clearTombstone fs path) path env with
  | (.error e, fs) => (.error e, fs)
  | (.ok (), fs) =>
    match mkdirLeaf fs path env with
    | (.error e, fs) => (.error e, fs)
    | (.ok (), fs) =>
      let (ino, fs) := allocInoWithMtime fs path .directory 4096 env.now
      let fs := cacheAddEntry fs parentPath name ⟨.dir, 4096, env.now, some ino⟩ env.now
      (.ok ⟨ino, 4096, .directory, env.now⟩, bumpLookupCount fs ino)

/-- `MntrsFs::symlink`, `src/src/lib.rs:8266-8340`: nothing goes to the backend. -/
def symlink (cfg : Config) (fs : MntrsFs) (parent : Ino) (name target : Path) (now : Nat) :
    Except IoError FileAttr × MntrsFs :=
  let (_, _, path) := entryNames fs parent name
  if (fs.symlinks.lookup path).isSome then
    (.error ⟨.alreadyExists, "symlink already exists: " ++ String.ofList path, none⟩, fs)
  else
    let size := (utf8 target).length
    let fs := { fs with
      symlinks := fs.symlinks.insert path target
      symlinksLower := Function.update fs.symlinksLower (cfg.toLowercase path) (some path) }
    let (ino, fs) := allocIno fs path .symlink size
    (.ok ⟨ino, size, .symlink, now⟩, bumpLookupCount fs ino)

/-- The backend half of `rmdir`, `7747-7783`: with a deleter, the marker is enqueued and the
barrier waited for. -/
def rmdirBackend (fs : MntrsFs) (path : Path) (env : DeleteEnv) : Except IoError Unit × MntrsFs :=
  let dirPath := trimEndSlashes path ++ ['/']
  match fs.concurrentDeleter with
  | some d =>
    match flushDeleter fs ((d.enqueue dirPath).getD d) env.pump with
    | (.ok _, fs) => (.ok (), fs)
    | (.error _, fs) => (.error ⟨.other, "rmdir: batched deleter flush failed", none⟩, fs)
  | none => deleteBackendStrict fs dirPath "rmdir" env

/-- The local half of `rmdir`, `7784-7791`. -/
def rmdirLocal (fs : MntrsFs) (parentPath name path : Path) : MntrsFs :=
  let (ino, fs) := findInoByPath fs path
  let fs := { fs with
    inodes := match ino with
      | some ino => fs.inodes.erase ino
      | none => fs.inodes
    pathToIno := Function.update fs.pathToIno path none
    attrCache := Function.update fs.attrCache path none }
  invalidateDirCache (cacheRemoveEntry fs parentPath name) path

/-- `MntrsFs::rmdir`, `src/src/lib.rs:7728-7792`. -/
def rmdir (fs : MntrsFs) (parent : Ino) (name : Path) (env : DeleteEnv) :
    Except IoError Unit × MntrsFs :=
  let (parentPath, name, path) := entryNames fs parent name
  match rmdirBackend fs path env with
  | (.error e, fs) => (.error e, fs)
  | (.ok (), fs) => (.ok (), rmdirLocal fs parentPath name path)

/-- `MntrsFs::rename`, `src/src/lib.rs:7794-7842`. -/
def rename (cfg : Config) (fs : MntrsFs) (parent : Ino) (name : Path) (newparent : Ino)
    (newname : Path) (env : RenameEnv) : Except IoError Unit × MntrsFs :=
  doRename cfg fs (entryNames fs parent name).2.2 (entryNames fs newparent newname).2.2 env

/-! ### What each piece leaves alone -/

variable (cfg : Config) (fs : MntrsFs) (parent : Ino) (name : Path)

section

variable (path : Path) (env : CreateEnv)

/-- An unlink computes its names like the other calls. -/
theorem unlinkNames_eq : unlinkNames fs parent name = entryNames fs parent name :=
  rfl

theorem mkdirChain_frame :
    (mkdirChain fs path env).2 = { fs with backend := (mkdirChain fs path env).2.backend } := by
  unfold mkdirChain
  simp only
  split <;> rfl

theorem mkdirLeaf_frame :
    (mkdirLeaf fs path env).2 = { fs with backend := (mkdirLeaf fs path env).2.backend } := by
  unfold mkdirLeaf
  simp only
  split <;> rfl

theorem clearTombstone_frame :
    clearTombstone fs path =
      { fs with
        deleteTombstones := (clearTombstone fs path).deleteTombstones
        concurrentDeleter := (clearTombstone fs path).concurrentDeleter } := by
  unfold clearTombstone
  split
  · split
    · rfl
    · next h => simp [h]
  · rfl

theorem createHandle_frame :
    ∃ nextFh handles disk offModeBuffers buffers nextBuf, (createHandle cfg fs path env).2 =
      { fs with
        nextFh := nextFh
        handles := handles
        disk := disk
        offModeBuffers := offModeBuffers
        buffers := buffers
        nextBuf := nextBuf } := by
  unfold createHandle offModeBufferReset
  split
  · split <;> exact ⟨_, _, _, _, _, _, rfl⟩
  · exact ⟨_, _, _, _, _, _, rfl⟩

theorem rmdirBackend_frame (env : DeleteEnv) :
    ∃ backend deleter tombs, (rmdirBackend fs path env).2 =
      { fs with
        backend := backend
        concurrentDeleter := deleter
        deleteTombstones := tombs } := by
  unfold rmdirBackend
  simp only
  split
  · next d hd =>
    set d' := (d.enqueue (trimEndSlashes path ++ ['/'])).getD d
    have hflush := flushDeleter_snd fs d' env.pump
    obtain ⟨backend, tombs, deleter, hpump⟩ :=
      runPump_frame { fs with concurrentDeleter := some d'.flushBegin } env.pump
    rw [hpump] at hflush
    refine ⟨backend, deleter, tombs, ?_⟩
    split
    all_goals
      next heq =>
      rw [heq] at hflush
      exact hflush
  · rw [deleteBackendStrict_frame]
    exact ⟨_, _, _, rfl⟩

end

/-! ### The ways the calls end -/

/-- The end of a create that got through to the backend. -/
def createWritten (cfg : Config) (fs : MntrsFs) (d n p : Path) (env : CreateEnv) :
    Except IoError (FileAttr × Fh) × MntrsFs :=
  let made := createFinish cfg (putObject fs p []) d n p env
  (.ok made.1, made.2)

/-- A create fails after the directories above the path, or writes the file and finishes. -/
theorem create_cases (env : CreateEnv) : let names := entryNames fs parent name
    let chain := mkdirChain (clearTombstone fs names.2.2) names.2.2 env
    (∃ e, create cfg fs parent name env = (.error e, chain.2) ∧
        (chain.1 = .ok () → env.write ≠ none)) ∨
      chain.1 = .ok () ∧ env.write = none ∧
        create cfg fs parent name env =
          createWritten cfg chain.2 names.1 names.2.1 names.2.2 env := by
  unfold create
  simp only
  split
  · next heq =>
    rw [heq]
    exact .inl ⟨_, rfl, fun hok ↦ by cases hok⟩
  · next heq =>
    rw [heq]
    cases env.write with
    | some e => exact .inl ⟨_, rfl, fun _ ↦ by simp⟩
    | none => exact .inr ⟨rfl, rfl, rfl⟩

/-- So does an exclusive create on a backend that can do it. -/
theorem createExcl_cases (env : CreateEnv) (hcap : cfg.writeWithIfNotExists) :
    let names := entryNames fs parent name
    let chain := mkdirChain fs names.2.2 env
    (∃ e, createExcl cfg fs parent name env = (.error e, chain.2)) ∨
      chain.1 = .ok () ∧ env.write = none ∧
        createExcl cfg fs parent name env =
          createWritten cfg chain.2 names.1 names.2.1 names.2.2 env := by
  unfold createExcl
  simp only [hcap, if_true]
  split
  · next heq =>
    rw [heq]
    exact .inl ⟨_, rfl⟩
  · next heq =>
    rw [heq]
    cases env.write with
    | some e => exact .inl ⟨_, rfl⟩
    | none => exact .inr ⟨rfl, rfl, rfl⟩

/-- On another backend it is a create. -/
theorem createExcl_of_plain {cfg : Config} (env : CreateEnv)
    (hcap : ¬ cfg.writeWithIfNotExists) :
    createExcl cfg fs parent name env = create cfg fs parent name env := by
  simp [createExcl, hcap]

/-- What follows the write of a create: an inode, an entry in the parent's listing, and a
handle. -/
theorem createFinish_eq (d n p : Path) (env : CreateEnv) :
    ∃ nextFh handles disk offModeBuffers buffers nextBuf lookupCount,
      (createFinish cfg fs d n p env).2 =
        { cacheAddEntry (allocInode fs p .regularFile 0 (some env.now)).2 d n
            ⟨.file, 0, env.now, some (allocInode fs p .regularFile 0 (some env.now)).1⟩ env.now with
          nextFh := nextFh
          handles := handles
          disk := disk
          offModeBuffers := offModeBuffers
          buffers := buffers
          nextBuf := nextBuf
          lookupCount := lookupCount } := by
  obtain ⟨_, _, _, _, _, _, hhandle⟩ := createHandle_frame cfg
    (allocInode fs p .regularFile 0 (some env.now)).2 p env
  unfold createFinish allocInoWithMtime
  simp only
  rw [bumpLookupCount_frame, hhandle]
  exact ⟨_, _, _, _, _, _, _, rfl⟩

/-- A mkdir fails after the directories above, or at its own, or finishes. -/
theorem mkdir_cases (env : CreateEnv) : let d := resolvePath fs parent
    let p := childPath d name
    let chain := mkdirChain (clearTombstone fs p) p env
    let leaf := mkdirLeaf chain.2 p env
    (∃ e, chain.1 = .error e ∧ mkdir fs parent name env = (.error e, chain.2)) ∨
      (∃ e, leaf.1 = .error e ∧ mkdir fs parent name env = (.error e, leaf.2)) ∨
      chain.1 = .ok () ∧ leaf.1 = .ok () ∧ ∃ attr lookupCount, mkdir fs parent name env =
        (.ok attr, { cacheAddEntry (allocInode leaf.2 p .directory 4096 (some env.now)).2 d name
            ⟨.dir, 4096, env.now,
              some (allocInode leaf.2 p .directory 4096 (some env.now)).1⟩ env.now with
          lookupCount := lookupCount }) := by
  unfold mkdir
  simp only
  split
  · next heq =>
    rw [heq]
    exact .inl ⟨_, rfl, rfl⟩
  · next heq =>
    rw [heq]
    right
    simp only
    split
    · next hleaf =>
      rw [hleaf]
      exact .inl ⟨_, rfl, rfl⟩
    · next hleaf =>
      rw [hleaf]
      right
      rw [bumpLookupCount_frame]
      exact ⟨trivial, rfl, _, _, rfl⟩

/-- An unlink takes the symlink branch or, after the backend delete, the local half. -/
theorem unlink_cases (env : DeleteEnv) : let names := entryNames fs parent name
    let found := lookupSymlinkKeyCaseInsensitive cfg fs names.2.2
    (∃ stored, found.1 = some stored ∧ unlink cfg fs parent name env =
        (.ok (), unlinkSymlink cfg found.2 names.1 names.2.1 names.2.2 stored env)) ∨
      found.1 = none ∧ ∃ result fs',
        unlinkBegin cfg fs parent name env = .inr (⟨names.1, names.2.1, names.2.2, result⟩, fs') ∧
        unlink cfg fs parent name env =
          (result, unlinkLocal cfg fs' ⟨names.1, names.2.1, names.2.2, result⟩) := by
  intro names found
  have hnames : unlinkNames fs parent name = names := rfl
  unfold unlink
  cases hbegin : unlinkBegin cfg fs parent name env with
  | inl done =>
    left
    unfold unlinkBegin at hbegin
    simp only [hnames] at hbegin
    split at hbegin
    · next stored hstored =>
      cases hbegin
      exact ⟨stored, hstored, rfl⟩
    · split at hbegin <;> cases hbegin
  | inr r =>
    right
    unfold unlinkBegin at hbegin
    simp only [hnames] at hbegin
    split at hbegin
    · cases hbegin
    · next hnone =>
      split at hbegin <;> cases hbegin <;> exact ⟨hnone, _, _, rfl, rfl⟩

/-- An rmdir fails on the backend or goes on to its local half. -/
theorem rmdir_cases (env : DeleteEnv) : let names := entryNames fs parent name
    let done := rmdirBackend fs names.2.2 env
    (∃ e, done.1 = .error e ∧ rmdir fs parent name env = (.error e, done.2)) ∨
      done.1 = .ok () ∧
        rmdir fs parent name env = (.ok (), rmdirLocal done.2 names.1 names.2.1 names.2.2) := by
  unfold rmdir
  simp only
  split
  · next heq =>
    rw [heq]
    exact .inl ⟨_, rfl, rfl⟩
  · next heq =>
    rw [heq]
    exact .inr ⟨rfl, rfl⟩

end Mntrs

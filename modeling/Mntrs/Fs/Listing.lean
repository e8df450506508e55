import Mntrs.Fs.Lookup

/-!
# Directory listings

Models `fnmatch` (`src/src/util.rs:227-261`), `list_op` (`src/src/lib.rs:2629-3007`),
`readdir_materialise` with `readdir_emit_entries_from_cache` (`1512-1735`), and `opendir`,
`readdir` and `releasedir` (`4424-4490`). `ListEnv` holds what the backend's lister yields.
-/

namespace Mntrs

open Base

/-- An entry of the backend's lister: `Entry::name` with its trailing slash, and the metadata of
the listing. -/
structure ListEntry where
  name : Path
  metadata : Metadata
deriving DecidableEq, Repr

/-- What the backend's lister yields: an error at the start, or items that may be errors. -/
structure ListEnv where
  lister : Except ErrorKind (List (Except ErrorKind ListEntry))
  now : Nat

/-- `ListOpRow`. -/
structure ListOpRow where
  name : Path
  mode : EntryMode
  size : Nat
  mtime : Nat
  ino : Option Ino
deriving DecidableEq, Repr

/-- `MAX_LIST_ENTRIES`. -/
def maxListEntries : Nat := 1000000

/-- `MACOS_METADATA_NAMES`. -/
def macosMetadataNames : List Path :=
  [".DS_Store", ".Trashes", ".fseventsd", ".Spotlight-V100", ".TemporaryItems",
    ".DocumentRevisions-V100"].map String.toList

/-- `is_macos_metadata`: up to the case of ASCII letters. -/
def isMacosMetadata (name : Path) : Bool :=
  macosMetadataNames.any (fun m ↦ m.map Char.toLower = name.map Char.toLower)

/-- The loop of `fnmatch`: what is left of the pattern, the name from `match_start` on, how much
of that is matched, and the pattern after the last star. -/
def fnmatchLoop (p m : Path) (matched : Nat) (star : Option Path) : Bool :=
  match _h : m.drop matched with
  | [] => (p.dropWhile (· = '*')).isEmpty
  | c :: n =>
    -- a mismatch goes back to the last star, one character on
    let retry := match star with
      | some afterStar => fnmatchLoop afterStar m.tail 0 star
      | none => false
    match p with
    | [] => retry
    | x :: p' =>
      if x = '*' then fnmatchLoop p' (c :: n) 0 (some p')
      else if x = '?' ∨ x = c then fnmatchLoop p' m (matched + 1) star
      else retry
termination_by (m.length, m.length - matched, p.length)
decreasing_by
  all_goals
    have hlength := congrArg List.length _h
    simp only [List.length_drop, List.length_cons] at hlength
    simp only [Prod.lex_def, List.length_cons, List.length_tail, true_and]
    omega

/-- `fnmatch`, `src/src/util.rs:227-261`. -/
def fnmatch (cfg : Config) (pattern name : Path) : Bool :=
  if cfg.ignoreCase then fnmatchLoop (cfg.toLowercase pattern) (cfg.toLowercase name) 0 none
  else fnmatchLoop pattern name 0 none

/-- `str::trim_end_matches('/')`. -/
def trimEndSlashes (p : Path) : Path := (p.reverse.dropWhile (· = '/')).reverse

/-- The filters of `list_op`, `2781-2837`, on a trimmed name. -/
def passesFilters (cfg : Config) (depth : Nat) (name : Path) (m : Metadata) : Bool :=
  !(cfg.maxDepth.any (· ≤ depth) && m.mode = .dir) &&
  !cfg.maxSize.any (· < m.contentLength) &&
  !cfg.minSize.any (m.contentLength < ·) &&
  !cfg.excludePatterns.any (fnmatch cfg · name) &&
  !(cfg.noAppleDouble && ['.', '_'].isPrefixOf name) &&
  !(cfg.noMacosMetadata && isMacosMetadata name) &&
  (cfg.includePatterns.isEmpty || cfg.includePatterns.any (fnmatch cfg · name))

/-- The modification time of a row: the epoch unless the server's is asked for. -/
def rowMtime (cfg : Config) (m : Metadata) : Nat :=
  if cfg.noModtime then 0 else if cfg.useServerModtime then m.lastModified.getD 0 else 0

/-- The lister loop, `2744-2858`, with room for some more rows: an item that is an error is
skipped, and a full listing is cut off. -/
def drainLister (cfg : Config) (depth : Nat) : Nat → List (Except ErrorKind ListEntry) →
    List ListOpRow
  | _, [] => []
  | 0, _ :: _ => []
  | room + 1, .error _ :: rest => drainLister cfg depth (room + 1) rest
  | room + 1, .ok e :: rest =>
    let name := trimEndSlashes e.name
    if passesFilters cfg depth name e.metadata then
      ⟨name, e.metadata.mode, e.metadata.contentLength, rowMtime cfg e.metadata, none⟩ ::
        drainLister cfg depth room rest
    else drainLister cfg depth (room + 1) rest

/-- The rows whose normalised name comes for the first time, `2911-2914`. -/
def dropNormDupes (cfg : Config) (seen : List Path) : List ListOpRow → List ListOpRow
  | [] => []
  | row :: rows =>
    if cfg.nfc row.name ∈ seen then dropNormDupes cfg seen rows
    else row :: dropNormDupes cfg (cfg.nfc row.name :: seen) rows

/-- Allocate an inode for every row, under the row's bare name, `2937-2957`. -/
def allocRows (fs : MntrsFs) : List ListOpRow → Table Path DirEntryCacheValue →
    Table Path DirEntryCacheValue × MntrsFs
  | [], entries => (entries, fs)
  | row :: rows, entries =>
    let (ino, fs) := allocInoWithMtime fs row.name row.mode.fileType row.size row.mtime
    allocRows fs rows (entries.insert row.name ⟨row.mode, row.size, row.mtime, some ino⟩)

/-- The rows of a cached listing. -/
def DirSnapshot.rows (snap : DirSnapshot) : List ListOpRow :=
  snap.entries.entries.map (fun e ↦ ⟨e.1, e.2.mode, e.2.size, e.2.mtime, e.2.ino⟩)

/-- The cached listing of a path within its time to live. -/
def freshListing (cfg : Config) (fs : MntrsFs) (path : Path) (now : Nat) : Option DirSnapshot :=
  (fs.dirCache (canonicalizeListPath path)).filter
    (fun snap ↦ now - snap.listedAt < cfg.dirCacheTtl)

/-- Take an expired listing out. -/
def dropListing (fs : MntrsFs) (path : Path) : MntrsFs :=
  { fs with dirCache := Function.update fs.dirCache (canonicalizeListPath path) none }

/-- The rows the backend lists below a path: `NotFound` is an empty directory. -/
def listRows (cfg : Config) (path : Path) (env : ListEnv) : Except ErrorKind (List ListOpRow) :=
  let depth := (canonicalizeListPath path).count '/'
  match env.lister with
  | .error .notFound => .ok []
  | .error e => .error e
  | .ok items =>
    let rows := drainLister cfg depth maxListEntries items
    .ok (if cfg.blockNormDupes then dropNormDupes cfg [] rows else rows)

/-- Remember the attributes of listed rows, `2985-3003`. The key of a row below the root has two
slashes: the path it is joined to ends with one. -/
def cacheRowAttrs (fs : MntrsFs) (path : Path) (now : Nat) (rows : List ListOpRow) : MntrsFs :=
  let key := canonicalizeListPath path
  { fs with
    attrCache := rows.foldl (fun attrs row ↦
      Function.update attrs (childPath key row.name)
        (some ⟨row.mode.fileType, row.size, some row.mtime, now⟩)) fs.attrCache }

/-- `list_op`, `src/src/lib.rs:2629-3007`. -/
def listOp (cfg : Config) (fs : MntrsFs) (path : Path) (env : ListEnv) :
    Except ErrorKind (List ListOpRow) × MntrsFs :=
  match freshListing cfg fs path env.now with
  | some snap => (.ok snap.rows, fs)
  | none =>
    let fs := dropListing fs path
    match listRows cfg path env with
    | .error e => (.error e, fs)
    | .ok rows =>
      let (entries, fs) := allocRows fs rows ∅
      let rows := rows.map (fun row ↦
        { row with ino := (entries.lookup row.name).bind DirEntryCacheValue.ino })
      let fs := { fs with
        dirCache := Function.update fs.dirCache (canonicalizeListPath path)
          (some ⟨env.now, entries⟩) }
      (.ok rows, cacheRowAttrs fs path env.now rows)

/-- The last component of a directory's path: the name some listers give to the directory
itself. -/
def queriedLast (path : Path) : Path :=
  match (components path).getLast? with
  | some name => name
  | none => if path.head? = some '/' then ['/'] else []

/-- A row `readdir_materialise` passes over: no name, the root, or the directory itself. -/
def isPhantom (path name : Path) : Bool :=
  name.isEmpty || name = ['/'] || (name = queriedLast path && !(queriedLast path).isEmpty)

/-- The name that is shown for a row: what follows its last slash. -/
def displayName (name : Path) : Path := (name.splitOn '/').getLastD []

/-- The loop over the rows of a listing, `1604-1653` and `1695-1734`: a row without inode gets one
under its own name. -/
def emitEntries (fs : MntrsFs) (path : Path) : List ListOpRow → List CoreDirEntry × MntrsFs
  | [] => ([], fs)
  | row :: rows =>
    if isPhantom path row.name then emitEntries fs path rows
    else
      let kind := row.mode.fileType
      let (ino, fs) := match row.ino with
        | some ino => (ino, fs)
        | none => allocIno fs row.name kind row.size
      let (entries, fs) := emitEntries fs path rows
      (⟨ino, kind, displayName row.name⟩ :: entries, fs)

/-- Leave out what a write-behind delete hides, `1655-1671`. -/
def hideTombstoned (fs : MntrsFs) (path : Path) (entries : List CoreDirEntry) :
    List CoreDirEntry :=
  entries.filter (fun e ↦ childPath path e.name ∉ fs.deleteTombstones)

/-- `readdir_materialise`, `src/src/lib.rs:1512-1672`. -/
def readdirMaterialise (cfg : Config) (fs : MntrsFs) (ino : Ino) (env : ListEnv) :
    Except IoError (List CoreDirEntry) × MntrsFs :=
  let path := resolvePath fs ino
  let (_, fs) := allocIno fs path .directory 4096
  let dots : List CoreDirEntry := [⟨ino, .directory, ['.']⟩, ⟨1, .directory, ['.', '.']⟩]
  let (rows, fs) := match freshListing cfg fs path env.now with
    | some snap => (Except.ok snap.rows, fs)
    | none => listOp cfg (dropListing fs path) path env
  match rows with
  | .error e => (.error ⟨.other, "", some e⟩, fs)
  | .ok rows =>
    let (entries, fs) := emitEntries fs path rows
    (.ok (hideTombstoned fs path (dots ++ entries)), fs)

/-- `opendir`: the listing is read once and kept under a new handle. -/
def opendir (cfg : Config) (fs : MntrsFs) (ino : Ino) (env : ListEnv) :
    Except IoError Fh × MntrsFs :=
  match readdirMaterialise cfg fs ino env with
  | (.error e, fs) => (.error e, fs)
  | (.ok entries, fs) =>
    (.ok fs.nextFh, { fs with
      nextFh := fs.nextFh + 1
      dirListers := fs.dirListers.insert fs.nextFh entries })

/-- `readdir`: the listing the handle was opened with. -/
def readdir (fs : MntrsFs) (ino : Ino) (fh : Fh) : Except IoError (List CoreDirEntry) :=
  match fs.dirListers.lookup fh with
  | some entries => .ok entries
  | none =>
    .error ⟨.notFound, "readdir(ino=" ++ toString ino ++ ", fh=" ++ toString fh ++
      "): unknown dir-lister handle", none⟩

/-- `releasedir`. -/
def releasedir (fs : MntrsFs) (fh : Fh) : MntrsFs :=
  { fs with dirListers := fs.dirListers.erase fh }

/-! ### What each piece leaves alone -/

variable (cfg : Config) (fs : MntrsFs)

/-- Allocating the rows of a listing touches the inode table, its reverse map and the counter
only. -/
theorem allocRows_frame (rows : List ListOpRow) (entries : Table Path DirEntryCacheValue) :
    ∃ nextIno inodes pathToIno, (allocRows fs rows entries).2 =
      { fs with nextIno := nextIno, inodes := inodes, pathToIno := pathToIno } := by
  induction rows generalizing fs entries with
  | nil => exact ⟨_, _, _, rfl⟩
  | cons row rows ih =>
    obtain ⟨_, _, _, hrest⟩ := ih
      (allocInoWithMtime fs row.name row.mode.fileType row.size row.mtime).2 _
    rw [allocRows, hrest, allocInoWithMtime, allocInode_frame]
    exact ⟨_, _, _, rfl⟩

/-! ### Directory reads -/

/-- The end of a directory read: rows are shown behind the two dots. -/
def showRows (fs : MntrsFs) (ino : Ino) (d : Path) (rows : List ListOpRow) :
    Except IoError (List CoreDirEntry) × MntrsFs :=
  let shown := emitEntries fs d rows
  (.ok (hideTombstoned shown.2 d
    ([⟨ino, .directory, ['.']⟩, ⟨1, .directory, ['.', '.']⟩] ++ shown.1)), shown.2)

/-- The rows of a new listing with their inodes, and the listing put in. -/
def fillListing (fs : MntrsFs) (d : Path) (now : Nat) (rows : List ListOpRow) :
    List ListOpRow × MntrsFs :=
  let filled := allocRows (dropListing fs d) rows ∅
  let rows := rows.map (fun row ↦
    { row with ino := (filled.1.lookup row.name).bind DirEntryCacheValue.ino })
  (rows, cacheRowAttrs { filled.2 with
    dirCache := Function.update filled.2.dirCache (canonicalizeListPath d)
      (some ⟨now, filled.1⟩) } d now rows)

theorem fillListing_frame (d : Path) (now : Nat) (rows : List ListOpRow) :
    ∃ nextIno inodes pathToIno attrCache, (fillListing fs d now rows).2 =
      { fs with
        nextIno := nextIno
        inodes := inodes
        pathToIno := pathToIno
        attrCache := attrCache
        dirCache := (fillListing fs d now rows).2.dirCache } := by
  obtain ⟨_, _, _, hrows⟩ := allocRows_frame (dropListing fs d) rows ∅
  unfold fillListing cacheRowAttrs
  simp only
  rw [hrows]
  exact ⟨_, _, _, _, rfl⟩

/-- A directory read shows a cached listing, fails, or fills a new listing and shows it. -/
theorem readdirMaterialise_cases (ino : Ino) (env : ListEnv) : let d := resolvePath fs ino
    let fs₁ := (allocInode fs d .directory 4096 none).2
    (∃ snap, freshListing cfg fs d env.now = some snap ∧
        readdirMaterialise cfg fs ino env = showRows fs₁ ino d snap.rows) ∨
      freshListing cfg fs d env.now = none ∧
        ((∃ e, listRows cfg d env = .error e ∧
            readdirMaterialise cfg fs ino env = (.error ⟨.other, "", some e⟩, dropListing fs₁ d)) ∨
          ∃ rows, listRows cfg d env = .ok rows ∧
            readdirMaterialise cfg fs ino env =
              showRows (fillListing fs₁ d env.now rows).2 ino d
                (fillListing fs₁ d env.now rows).1) := by
  intro d fs₁
  have hfresh : freshListing cfg fs₁ d env.now = freshListing cfg fs d env.now := by
    simp only [freshListing, fs₁]
    rw [allocInode_frame]
  have hdropped : ∀ fs' : MntrsFs, freshListing cfg (dropListing fs' d) d env.now = none := by
    intro fs'
    simp [freshListing, dropListing]
  have hagain : ∀ fs' : MntrsFs, dropListing (dropListing fs' d) d = dropListing fs' d := by
    intro fs'
    simp [dropListing, Function.update_idem]
  have hcold : listOp cfg (dropListing fs₁ d) d env =
      match listRows cfg d env with
      | .error e => (.error e, dropListing fs₁ d)
      | .ok rows =>
        (.ok (fillListing fs₁ d env.now rows).1, (fillListing fs₁ d env.now rows).2) := by
    unfold listOp
    rw [hdropped]
    simp only [hagain]
    rfl
  have hread : ∀ r, (match freshListing cfg fs₁ d env.now with
        | some snap => (Except.ok snap.rows, fs₁)
        | none => listOp cfg (dropListing fs₁ d) d env) = r →
      readdirMaterialise cfg fs ino env =
        match r.1 with
        | .error e => (.error ⟨.other, "", some e⟩, r.2)
        | .ok rows => showRows r.2 ino d rows := by
    rintro r rfl
    rfl
  rw [hread _ rfl, hfresh]
  cases hsnap : freshListing cfg fs d env.now with
  | some snap => exact .inl ⟨snap, rfl, rfl⟩
  | none =>
    refine .inr ⟨rfl, ?_⟩
    simp only [hcold]
    cases hrows : listRows cfg d env with
    | error e => exact .inl ⟨e, rfl, rfl⟩
    | ok rows => exact .inr ⟨rows, rfl, rfl⟩

/-- Opening a directory reads it and keeps what was read under a new handle. -/
theorem opendir_frame (ino : Ino) (env : ListEnv) :
    ∃ nextFh dirListers, (opendir cfg fs ino env).2 =
      { (readdirMaterialise cfg fs ino env).2 with
        nextFh := nextFh
        dirListers := dirListers } := by
  unfold opendir
  split <;> next heq =>
    rw [heq]
    exact ⟨_, _, rfl⟩

end Mntrs

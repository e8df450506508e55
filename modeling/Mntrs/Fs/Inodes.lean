import Mntrs.Model.State

/-!
# The inode table and the directory caches

Models `bump_lookup_count`, `alloc_ino` and `alloc_ino_with_mtime`
(`src/src/lib.rs:2127-2227`), `find_ino_by_path` (`2253-2280`), `forget` (`8460-8553`),
`lookup_symlink_key_case_insensitive` (`3471-3503`), `cache_add_entry` and `cache_remove_entry`
(`3036-3100`) and `invalidate_dir_cache` (`3379-3399`).
-/

namespace Mntrs

open Base

/-- `bump_lookup_count`: the root is not counted. -/
def bumpLookupCount (fs : MntrsFs) (ino : Ino) : MntrsFs :=
  if ino = 1 then fs
  else { fs with
    lookupCount := Function.update fs.lookupCount ino (some ((fs.lookupCount ino).getD 0 + 1)) }

/-- The common body of `alloc_ino` and `alloc_ino_with_mtime`: the inode the path leads to if it
is live, whatever path that one carries, else a new one. -/
def allocInode (fs : MntrsFs) (path : Path) (kind : FileType) (size : Nat) (mtime : Option Nat) :
    Ino × MntrsFs :=
  match (fs.pathToIno path).filter (fun ino ↦ (fs.inodes.lookup ino).isSome) with
  | some ino => (ino, fs)
  | none =>
    let ino := fs.nextIno
    (ino, { fs with
      nextIno := ino + 1
      inodes :=
        if (fs.inodes.lookup ino).isSome then
          fs.inodes.modify ino (fun e ↦ { e with size := size })
        else fs.inodes.insert ino ⟨path, kind, size, mtime⟩
      pathToIno := Function.update fs.pathToIno path (some ino) })

/-- `alloc_ino`. -/
def allocIno (fs : MntrsFs) (path : Path) (kind : FileType) (size : Nat) : Ino × MntrsFs :=
  allocInode fs path kind size none

/-- `alloc_ino_with_mtime`. -/
def allocInoWithMtime (fs : MntrsFs) (path : Path) (kind : FileType) (size mtime : Nat) :
    Ino × MntrsFs :=
  allocInode fs path kind size (some mtime)

/-- The path of an inode; an inode that is not in the table, the root among them, has the empty
one. -/
def resolvePath (fs : MntrsFs) (ino : Ino) : Path :=
  ((fs.inodes.lookup ino).map InodeEntry.path).getD []

/-- The path of an entry of a directory. -/
def childPath (parent name : Path) : Path :=
  if parent = [] then name else parent ++ '/' :: name

/-- `find_ino_by_path`: the reverse map if it agrees with the inode table, else a scan that
repairs the reverse map. -/
def findInoByPath (fs : MntrsFs) (path : Path) : Option Ino × MntrsFs :=
  let mapped := (fs.pathToIno path).filter
    (fun ino ↦ ((fs.inodes.lookup ino).map InodeEntry.path) = some path)
  match mapped with
  | some ino => (some ino, fs)
  | none =>
    match fs.inodes.entries.find? (fun e ↦ e.2.path = path) with
    | some e => (some e.1, { fs with pathToIno := Function.update fs.pathToIno path (some e.1) })
    | none => (none, { fs with pathToIno := Function.update fs.pathToIno path none })

/-- The lookup count that is left of an inode, if any. -/
def lookupsLeft (count : Option Nat) (nlookup : Nat) : Option Nat :=
  match count with
  | some cur => if nlookup < cur then some (cur - nlookup) else none
  | none => none

/-- `forget`: drop the lookup count and, when it runs out, everything known about the inode,
its handles and its registration for upload included. -/
def forget (fs : MntrsFs) (ino : Ino) (nlookup : Nat) : MntrsFs :=
  if ino = 1 then fs
  else
    let kept := lookupsLeft (fs.lookupCount ino) nlookup
    let fs := { fs with lookupCount := Function.update fs.lookupCount ino kept }
    if kept.isSome then fs
    else match fs.inodes.lookup ino with
      | none => fs
      | some e =>
        { fs with
          inodes := fs.inodes.erase ino
          pathToIno :=
            if e.kind ≠ .symlink ∧ fs.pathToIno e.path = some ino then
              Function.update fs.pathToIno e.path none
            else fs.pathToIno
          attrCache := Function.update fs.attrCache e.path none
          handles := Table.retain fs.handles (fun _ h ↦ h.path ≠ e.path)
          writeback := fs.writeback.cancel e.path }

/-- `lookup_symlink_key_case_insensitive`: the stored spelling of a symlink, through the
lower-case index or a scan that fills it. -/
def lookupSymlinkKeyCaseInsensitive (cfg : Config) (fs : MntrsFs) (path : Path) :
    Option Path × MntrsFs :=
  if fs.symlinks.entries = [] then (none, fs)
  else
    let lower := cfg.toLowercase path
    match fs.symlinksLower lower with
    | some canonical => (some canonical, fs)
    | none =>
      match fs.symlinks.entries.find? (fun e ↦ cfg.toLowercase e.1 = lower) with
      | some e =>
        (some e.1, { fs with symlinksLower := Function.update fs.symlinksLower lower (some e.1) })
      | none => (none, fs)

/-- `cache_add_entry`: put an entry into the parent's cached listing, which becomes a listing of
this one entry if there is none. -/
def cacheAddEntry (fs : MntrsFs) (parent name : Path) (value : DirEntryCacheValue) (now : Nat) :
    MntrsFs :=
  let key := canonicalizeListPath parent
  let snap := match fs.dirCache key with
    | some snap => { snap with entries := snap.entries.insert name value }
    | none => ⟨now, (∅ : Table Path DirEntryCacheValue).insert name value⟩
  { fs with dirCache := Function.update fs.dirCache key (some snap) }

/-- `cache_remove_entry`: take a name out of the parent's cached listing. -/
def cacheRemoveEntry (fs : MntrsFs) (parent name : Path) : MntrsFs :=
  let key := canonicalizeListPath parent
  match fs.dirCache key with
  | none => fs
  | some snap =>
    { fs with
      dirCache := Function.update fs.dirCache key
        (some { snap with entries := snap.entries.erase name }) }

/-- `invalidate_dir_cache`: drop the listing of a path, those below it and its parent's. -/
def invalidateDirCache (fs : MntrsFs) (path : Path) : MntrsFs :=
  let canon := canonicalizeListPath path
  let parent := canonicalizeListPath (List.intercalate ['/'] (segments path).dropLast)
  { fs with
    dirCache := fun k ↦
      if canon.isPrefixOf k then none
      else if 1 < (segments path).length ∧ k = parent then none
      else fs.dirCache k }

section

variable (fs : MntrsFs) (path : Path)

theorem bumpLookupCount_frame (ino : Ino) :
    bumpLookupCount fs ino = { fs with lookupCount := (bumpLookupCount fs ino).lookupCount } := by
  unfold bumpLookupCount
  split <;> rfl

theorem allocInode_frame (kind : FileType) (size : Nat) (mtime : Option Nat) :
    (allocInode fs path kind size mtime).2 =
      { fs with
        nextIno := (allocInode fs path kind size mtime).2.nextIno
        inodes := (allocInode fs path kind size mtime).2.inodes
        pathToIno := (allocInode fs path kind size mtime).2.pathToIno } := by
  unfold allocInode
  split <;> rfl

theorem cacheAddEntry_frame (parent name : Path) (value : DirEntryCacheValue) (now : Nat) :
    cacheAddEntry fs parent name value now =
      { fs with dirCache := (cacheAddEntry fs parent name value now).dirCache } :=
  rfl

theorem findInoByPath_frame :
    (findInoByPath fs path).2 =
      { fs with pathToIno := (findInoByPath fs path).2.pathToIno } := by
  unfold findInoByPath
  simp only
  split
  · rfl
  · split <;> rfl

theorem findInoByPath_congr {fs fs' : MntrsFs} (hinodes : fs'.inodes = fs.inodes)
    (hmap : fs'.pathToIno = fs.pathToIno) (path : Path) :
    (findInoByPath fs' path).1 = (findInoByPath fs path).1 ∧
      (findInoByPath fs' path).2.pathToIno = (findInoByPath fs path).2.pathToIno := by
  unfold findInoByPath
  rw [hinodes, hmap]
  simp only
  split
  · exact ⟨rfl, hmap⟩
  · split <;> exact ⟨rfl, rfl⟩

/-- An inode that is found carries the path. -/
theorem findInoByPath_some {fs : MntrsFs} {path : Path} {ino : Ino}
    (h : (findInoByPath fs path).1 = some ino) :
    ∃ e, fs.inodes.lookup ino = some e ∧ e.path = path := by
  unfold findInoByPath at h
  simp only at h
  split at h
  · next heq =>
    cases h
    obtain ⟨-, hpath⟩ := Option.filter_eq_some_iff.mp heq
    simpa using hpath
  · split at h <;> cases h
    rename_i e heq
    have hmem := List.mem_of_find?_eq_some heq
    have hpath := List.find?_some heq
    exact ⟨e.2, Table.lookup_eq_some_iff.mpr hmem, of_decide_eq_true hpath⟩

/-- When no inode is found, none carries the path. -/
theorem findInoByPath_none {fs : MntrsFs} {path : Path} (h : (findInoByPath fs path).1 = none)
    {ino : Ino} {e : InodeEntry} (he : fs.inodes.lookup ino = some e) : e.path ≠ path := by
  unfold findInoByPath at h
  simp only at h
  split at h
  · cases h
  · split at h
    · cases h
    · next heq =>
      have hnot := List.find?_eq_none.mp heq _ (Table.lookup_eq_some_iff.mp he)
      simpa using hnot

theorem lookupSymlinkKeyCaseInsensitive_frame (cfg : Config) (fs : MntrsFs) (path : Path) :
    (lookupSymlinkKeyCaseInsensitive cfg fs path).2 =
      { fs with
        symlinksLower := (lookupSymlinkKeyCaseInsensitive cfg fs path).2.symlinksLower } := by
  unfold lookupSymlinkKeyCaseInsensitive
  split
  · rfl
  · simp only
    split
    · rfl
    · split <;> rfl

theorem cacheRemoveEntry_frame (parent name : Path) :
    cacheRemoveEntry fs parent name =
      { fs with dirCache := (cacheRemoveEntry fs parent name).dirCache } := by
  unfold cacheRemoveEntry
  simp only
  split <;> rfl

theorem invalidateDirCache_frame :
    invalidateDirCache fs path = { fs with dirCache := (invalidateDirCache fs path).dirCache } :=
  rfl

end

/-- The path a forget takes out of the dedup set. -/
def forgets (fs : MntrsFs) (ino : Ino) (nlookup : Nat) : Option Path :=
  if ino = 1 ∨ (lookupsLeft (fs.lookupCount ino) nlookup).isSome then none
  else (fs.inodes.lookup ino).map InodeEntry.path

/-- Forgetting an inode takes at most its path out of the dedup set. -/
theorem forget_queue (fs : MntrsFs) (ino : Ino) (nlookup : Nat) :
    ((forget fs ino nlookup).writeback = fs.writeback ∨
      ∃ p, forgets fs ino nlookup = some p ∧
        (forget fs ino nlookup).writeback = fs.writeback.cancel p) ∧
    (forget fs ino nlookup).receiverAlive = fs.receiverAlive ∧
    (forget fs ino nlookup).pendingCount = fs.pendingCount := by
  unfold forget
  split
  · exact ⟨.inl rfl, rfl, rfl⟩
  · next hino =>
    simp only
    split
    · exact ⟨.inl rfl, rfl, rfl⟩
    · next hkept =>
      split
      · exact ⟨.inl rfl, rfl, rfl⟩
      · next e he =>
        refine ⟨.inr ⟨e.path, ?_, rfl⟩, rfl, rfl⟩
        simp [forgets, hino, hkept, he]

end Mntrs

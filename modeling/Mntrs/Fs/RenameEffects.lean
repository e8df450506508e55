import Mntrs.Delete.PumpEffects
import Mntrs.Fs.Rename

/-!
# What a rename does

`RenameOutcome` says once how the backend part of `do_rename` can end. From it: the object at
the source is never lost while the backend answers truthfully, a rename that does not go
through changes nothing local, and one that does moves the entries of the source itself.
-/

namespace Mntrs

open Base

variable {bytes : Bytes} {cfg : Config} {r : Except IoError Bool × MntrsFs} {fs fs' : MntrsFs}
  {failure : Option ErrorKind} {dst p src : Path} {env : RenameEnv}

/-! ### Directories and what is below them -/

/-- A path is at or below a directory when it continues it with nothing or a separator. -/
theorem below_eq_some_iff {dir rest : Path} :
    below dir p = some rest ↔ p = dir ++ rest ∧ rest.head?.all (· == '/') = true := by
  unfold below
  constructor
  · intro h
    split at h <;> cases h
    rename_i hp
    obtain ⟨⟨t, rfl⟩, hhead⟩ := hp
    exact ⟨by simp, hhead⟩
  · rintro ⟨rfl, hhead⟩
    simp [hhead]

@[simp]
theorem below_self (dir : Path) : below dir dir = some [] :=
  below_eq_some_iff.mpr ⟨by simp, rfl⟩

variable {backend : Path → Option Bytes}

/-- A server-side rename moves the object at the source. -/
theorem renameObjects_dst (dst : Path) (h : backend src = some bytes) :
    renameObjects backend src dst dst = some bytes := by
  simp [renameObjects, h]

/-- A server-side rename leaves no object at the source. -/
theorem renameObjects_src (h : backend src = some bytes) (hne : src ≠ dst) :
    renameObjects backend src dst src = none := by
  simp [renameObjects, h, hne]

/-! ### How the backend part ends -/

/-- The bytes a copying fallback takes for the source. -/
inductive RenamePayload (cfg : Config) (fs : MntrsFs) (src : Path) (env : RenameEnv)
    (bytes : Bytes) : Prop
  | object (h : fs.backend src = some bytes)
  | cached (hmissing : env.read = some .notFound ∨ fs.backend src = none)
      (h : MntrsFs.cacheFile cfg fs src = some bytes)

/-- The ways the backend part of a rename ends. -/
inductive RenameOutcome (cfg : Config) (fs : MntrsFs) (src dst : Path) (env : RenameEnv) :
    Except IoError Bool × MntrsFs → Prop
  | orphan (h : orphanFastPath cfg fs src dst = true) :
      RenameOutcome cfg fs src dst env (.ok true, fs)
  | renamed (h : env.rename = none) (horphan : orphanFastPath cfg fs src dst = false) :
      RenameOutcome cfg fs src dst env
        (.ok true, { fs with backend := renameObjects fs.backend src dst })
  | copied (bytes : Bytes) (h : env.rename = some .unsupported)
      (horphan : orphanFastPath cfg fs src dst = false)
      (hbytes : RenamePayload cfg fs src env bytes) :
      RenameOutcome cfg fs src dst env
        (.ok true,
          (deleteBackendStrict (putObject fs dst bytes) src "rename_fallback" env.delete).2)
  | refused (h : env.rename ≠ some .unsupported) :
      RenameOutcome cfg fs src dst env (.ok false, fs)
  | failed (r : Except IoError Bool) (backend : Path → Option Bytes)
      (h : env.rename = some .unsupported) (hr : r ≠ .ok true)
      (hkeep : ∀ p, p ≠ dst → backend p = fs.backend p) :
      RenameOutcome cfg fs src dst env (r, { fs with backend := backend })

theorem opRead_ok (h : opRead fs failure p = .ok bytes) : fs.backend p = some bytes := by
  unfold opRead at h
  split at h
  · cases h
  · cases h
  · next heq => cases h; exact heq

theorem opCopy_ok (h : opCopy fs failure src dst = .ok fs') :
    ∃ bytes, fs.backend src = some bytes ∧ fs' = putObject fs dst bytes := by
  unfold opCopy at h
  cases hread : opRead fs failure src with
  | error e => simp [hread, Except.map] at h
  | ok bytes =>
    simp only [hread, Except.map, Except.ok.injEq] at h
    exact ⟨bytes, opRead_ok hread, h.symm⟩

theorem opRead_notFound (h : opRead fs failure p = .error .notFound) :
    failure = some .notFound ∨ fs.backend p = none := by
  unfold opRead at h
  split at h
  · cases h; exact .inl rfl
  · next heq => exact .inr heq
  · cases h

/-- The last fallback writes the object, or the cache file of a source without object. -/
theorem renamePayload_inr (h : renamePayload cfg fs src env = .inr bytes) :
    RenamePayload cfg fs src env bytes := by
  unfold renamePayload at h
  split at h
  · next hread => cases h; exact .object (opRead_ok hread)
  · next hread =>
    split at h
    · next hcache => cases h; exact .cached (opRead_notFound hread) hcache
    · cases h
  · cases h

theorem renamePayload_inl {r : Except IoError Bool} (h : renamePayload cfg fs src env = .inl r) :
    r ≠ .ok true := by
  unfold renamePayload at h
  split at h
  · cases h
  · split at h
    · cases h
    · cases h; simp
  · cases h; simp

section

variable (cfg : Config) (fs : MntrsFs) (src dst : Path)

/-- The write of the last fallback leaves the payload at the destination, or touches the
destination only. -/
theorem writeDestination_cases (bytes : Bytes) (env : RenameEnv) :
    writeDestination fs dst bytes env = (true, putObject fs dst bytes) ∨
      ∃ backend, writeDestination fs dst bytes env = (false, { fs with backend := backend }) ∧
        ∀ p, p ≠ dst → backend p = fs.backend p := by
  unfold writeDestination
  split
  · exact .inl rfl
  · split
    · exact .inr ⟨fs.backend, rfl, fun _ _ ↦ rfl⟩
    · split
      · left
        simp [putObject]
      · exact .inr ⟨_, rfl, fun p hp ↦ by simp [hp]⟩
  · exact .inr ⟨fs.backend, rfl, fun _ _ ↦ rfl⟩

/-- The copying fallbacks leave the payload at the destination, or touch the destination
only. -/
theorem renameCopy_cases (env : RenameEnv) :
    (∃ bytes, RenamePayload cfg fs src env bytes ∧
      renameCopy cfg fs src dst env = (.ok true, putObject fs dst bytes)) ∨
    ∃ r backend, renameCopy cfg fs src dst env = (r, { fs with backend := backend }) ∧
      r ≠ .ok true ∧ ∀ p, p ≠ dst → backend p = fs.backend p := by
  unfold renameCopy
  split
  · next hcopy =>
    obtain ⟨bytes, hobject, rfl⟩ := opCopy_ok hcopy
    exact .inl ⟨bytes, .object hobject, rfl⟩
  · split
    · next early hearly =>
      exact .inr ⟨early, fs.backend, rfl, renamePayload_inl hearly, fun _ _ ↦ rfl⟩
    · next bytes hbytes =>
      rcases writeDestination_cases fs dst bytes env with hlanded | ⟨backend, hfailed, hkeep⟩
      · exact .inl ⟨bytes, renamePayload_inr hbytes, by rw [hlanded]⟩
      · exact .inr ⟨.ok false, backend, by rw [hfailed], by simp, hkeep⟩
  · exact .inr ⟨.ok false, fs.backend, rfl, by simp, fun _ _ ↦ rfl⟩

/-- The backend part ends in one of these ways. -/
theorem renameBackend_outcome (env : RenameEnv) :
    RenameOutcome cfg fs src dst env (renameBackend cfg fs src dst env) := by
  unfold renameBackend
  split
  · next h => exact .orphan h
  · next horphan =>
    have horphan : orphanFastPath cfg fs src dst = false := by simpa using horphan
    split
    · next h => exact .renamed h horphan
    · next h =>
      rcases renameCopy_cases cfg fs src dst env with
        ⟨bytes, hbytes, hcopy⟩ | ⟨r, backend, hcopy, hr, hkeep⟩
      · rw [hcopy]
        exact .copied bytes h horphan hbytes
      · rw [hcopy]
        split
        · next heq => cases heq; exact absurd rfl hr
        · exact .failed r backend h hr hkeep
    · next e hne h =>
      refine .refused ?_
      rw [h]
      simpa using hne

end

/-- The backend part of a rename touches the backend and the deleter only. -/
theorem RenameOutcome.frame (h : RenameOutcome cfg fs src dst env r) :
    ∃ backend deleter tombs, r.2 =
      { fs with
        backend := backend
        concurrentDeleter := deleter
        deleteTombstones := tombs } := by
  cases h with
  | orphan h | renamed h | refused h | failed r backend h => exact ⟨_, _, _, rfl⟩
  | copied bytes h =>
    rw [deleteBackendStrict_frame]
    exact ⟨_, _, _, rfl⟩

/-- A backend part that does not report success touches the object at the destination only. -/
theorem RenameOutcome.unmoved (h : RenameOutcome cfg fs src dst env r) (hr : r.1 ≠ .ok true) :
    ∃ backend, r.2 = { fs with backend := backend } ∧
      ∀ p, p ≠ dst → backend p = fs.backend p := by
  cases h with
  | orphan h | renamed h | copied bytes h => exact absurd rfl hr
  | refused h => exact ⟨fs.backend, rfl, fun _ _ ↦ rfl⟩
  | failed r backend h hr hkeep => exact ⟨backend, rfl, hkeep⟩

/-! ### The local part -/

private theorem invalidateParent_frame {fs fs' : MntrsFs} (parent : Option Path)
    {listings : Path → Option DirSnapshot} (hfs : fs' = { fs with dirCache := listings }) :
    ∃ dirCache, (match parent with
      | some parent => invalidateDirCache fs' parent
      | none => fs') = { fs with dirCache := dirCache } := by
  cases parent with
  | none => exact ⟨listings, hfs⟩
  | some parent =>
    subst hfs
    exact ⟨_, invalidateDirCache_frame _ parent⟩

theorem renameListings_frame (fs : MntrsFs) (src dst : Path) :
    ∃ dirCache, renameListings fs src dst = { fs with dirCache := dirCache } := by
  have hpaths : invalidateDirCache (invalidateDirCache fs src) dst =
      { fs with dirCache := (invalidateDirCache (invalidateDirCache fs src) dst).dirCache } := by
    rw [invalidateDirCache_frame, invalidateDirCache_frame fs src]
  obtain ⟨_, hsrc⟩ := invalidateParent_frame (parentPath src) hpaths
  exact invalidateParent_frame (parentPath dst) hsrc

/-- Moving the inode that was found. -/
theorem migrateInode_some (dst : Path) {ino : Ino} (h : (findInoByPath fs src).1 = some ino) :
    migrateInode fs src dst =
      { fs with
        inodes := fs.inodes.modify ino (fun e ↦ { e with path := dst })
        pathToIno := Function.update
          (Function.update (findInoByPath fs src).2.pathToIno src none) dst (some ino) } := by
  unfold migrateInode
  simp only [h]
  rw [findInoByPath_frame]

/-- Without an inode for the source there is nothing to move. -/
theorem migrateInode_none (dst : Path) (h : (findInoByPath fs src).1 = none) :
    migrateInode fs src dst = { fs with pathToIno := (findInoByPath fs src).2.pathToIno } := by
  unfold migrateInode
  simp only [h]
  rw [findInoByPath_frame]

/-- Moving the inode leaves the disk alone and does not look at it. -/
theorem migrateInode_disk (fs : MntrsFs) (disk : Disk) (src dst : Path) :
    migrateInode { fs with disk := disk } src dst =
      { migrateInode fs src dst with disk := disk } := by
  obtain ⟨hsame, hmap⟩ := @findInoByPath_congr fs { fs with disk := disk } rfl rfl src
  cases hfound : (findInoByPath fs src).1 with
  | none => rw [migrateInode_none dst hfound, migrateInode_none dst (hsame.trans hfound), hmap]
  | some ino => rw [migrateInode_some dst hfound, migrateInode_some dst (hsame.trans hfound), hmap]

theorem attrCache_migrateInode (fs : MntrsFs) (src dst : Path) :
    (migrateInode fs src dst).attrCache = fs.attrCache := by
  cases hfound : (findInoByPath fs src).1 with
  | none => rw [migrateInode_none dst hfound]
  | some ino => rw [migrateInode_some dst hfound]

theorem migrateAttrs_src (attrs : Path → Option AttrEntry) (src dst : Path) :
    migrateAttrs attrs src dst src = none := by
  simp [migrateAttrs]

theorem migrateAttrs_of_ne (attrs : Path → Option AttrEntry) (hsrc : p ≠ src) (hdst : p ≠ dst) :
    migrateAttrs attrs src dst p = attrs p := by
  unfold migrateAttrs
  cases hentry : attrs src with
  | none => simp [hsrc]
  | some entry => simp [hsrc, hdst]

/-- The local part moves the cache file, the inode and the attributes, each on its own. -/
theorem renameLocal_eq (cfg : Config) (fs : MntrsFs) (src dst : Path) :
    ∃ dirCache, renameLocal cfg fs src dst =
      { migrateInode fs src dst with
        disk := (fs.disk.migrate (cfg.writeBufferPath src)
          (cfg.writeBufferPath dst)).removeDirty (cfg.writeBufferPath src)
        attrCache := migrateAttrs fs.attrCache src dst
        dirCache := dirCache } := by
  unfold renameLocal
  simp only [migrateInode_disk, attrCache_migrateInode]
  obtain ⟨dirCache, hlistings⟩ := renameListings_frame
    { migrateInode fs src dst with
      disk := (fs.disk.migrate (cfg.writeBufferPath src)
        (cfg.writeBufferPath dst)).removeDirty (cfg.writeBufferPath src)
      attrCache := migrateAttrs fs.attrCache src dst } src dst
  exact ⟨dirCache, hlistings⟩

/-- The local part touches no more than the disk, the inode table, its reverse map and the
attribute and listing caches. -/
theorem renameLocal_frame (cfg : Config) (fs : MntrsFs) (src dst : Path) :
    ∃ disk inodes pathToIno attrCache dirCache, renameLocal cfg fs src dst =
      { fs with
        disk := disk
        inodes := inodes
        pathToIno := pathToIno
        attrCache := attrCache
        dirCache := dirCache } := by
  obtain ⟨dirCache, hlocal⟩ := renameLocal_eq cfg fs src dst
  rw [hlocal]
  cases hfound : (findInoByPath fs src).1 with
  | none =>
    rw [migrateInode_none dst hfound]
    exact ⟨_, _, _, _, _, rfl⟩
  | some ino =>
    rw [migrateInode_some dst hfound]
    exact ⟨_, _, _, _, _, rfl⟩

/-! ### The object at the source -/

/-- A rename whose backend part reports success goes on to the local part. -/
theorem doRename_of_moved (h : (renameBackend cfg fs src dst env).1 = .ok true) :
    doRename cfg fs src dst env =
      (.ok (), renameLocal cfg (renameBackend cfg fs src dst env).2 src dst) := by
  unfold doRename
  cases hr : renameBackend cfg fs src dst env with
  | mk r fs' =>
    rw [hr] at h
    cases h
    rfl

/-- A rename whose backend part does not report success stops there. -/
theorem doRename_of_unmoved (h : (renameBackend cfg fs src dst env).1 ≠ .ok true) :
    (doRename cfg fs src dst env).2 = (renameBackend cfg fs src dst env).2 := by
  unfold doRename
  cases hr : renameBackend cfg fs src dst env with
  | mk r fs' =>
    rw [hr] at h
    match r with
    | .ok true => exact absurd rfl h
    | .ok false | .error e => rfl

/-- A rename that returns `Ok` without success of its backend part was given up. -/
theorem renameBackend_of_ok (hok : (doRename cfg fs src dst env).1 = .ok ())
    (h : (renameBackend cfg fs src dst env).1 ≠ .ok true) :
    (renameBackend cfg fs src dst env).1 = .ok false := by
  unfold doRename at hok
  cases hr : renameBackend cfg fs src dst env with
  | mk r fs' =>
    rw [hr] at hok h
    match r with
    | .ok true => exact absurd rfl h
    | .ok false => rfl
    | .error e => cases hok

/-- The local part decides nothing about the backend. -/
theorem backend_doRename (cfg : Config) (fs : MntrsFs) (src dst : Path) (env : RenameEnv) :
    (doRename cfg fs src dst env).2.backend = (renameBackend cfg fs src dst env).2.backend := by
  by_cases h : (renameBackend cfg fs src dst env).1 = .ok true
  · rw [doRename_of_moved h]
    obtain ⟨_, _, _, _, _, hlocal⟩ :=
      renameLocal_frame cfg (renameBackend cfg fs src dst env).2 src dst
    rw [hlocal]
  · rw [doRename_of_unmoved h]

/-- However the backend part ends, the object is at the source or at the destination. -/
theorem RenameOutcome.keeps (h : RenameOutcome cfg fs src dst env r)
    (hsame : src = dst → env.rename = some .isSameFile)
    (htruth : env.read = some .notFound → fs.backend src = none)
    (hqueue : deleteQueued fs dst = false) (hsrc : fs.backend src = some bytes) :
    r.2.backend src = some bytes ∨ r.2.backend dst = some bytes := by
  cases h with
  | orphan h | refused h => exact .inl hsrc
  | renamed h => exact .inr (renameObjects_dst dst hsrc)
  | copied copy h horphan hcopy =>
    have hne : dst ≠ src := by
      rintro rfl
      rw [hsame rfl] at h
      cases h
    have hcopied : copy = bytes := by
      cases hcopy with
      | object hobject => simpa [hsrc] using hobject.symm
      | cached hmissing hcache =>
        rcases hmissing with hread | hnone
        · simp [htruth hread] at hsrc
        · simp [hnone] at hsrc
    have hqueue' : deleteQueued (putObject fs dst copy) dst = false := hqueue
    right
    rw [deleteBackendStrict_spares _ _ hne hqueue']
    simp [putObject, hcopied]
  | failed r backend h hr hkeep =>
    have hne : src ≠ dst := by
      intro heq
      rw [hsame heq] at h
      cases h
    exact .inl ((hkeep src hne).trans hsrc)

/-- A rename never loses the object at its source, and one whose backend part ends without
success changes nothing but the backend. The backend's answers are arbitrary, except that it
refuses a rename of a path onto itself and denies the object only where there is none; the
delete pump holds no older delete of the destination. -/
theorem rename_keeps_source_object (cfg : Config) (fs : MntrsFs) (src dst : Path)
    (env : RenameEnv) (hsame : src = dst → env.rename = some .isSameFile)
    (htruth : env.read = some .notFound → fs.backend src = none)
    (hqueue : deleteQueued fs dst = false) :
    (∀ bytes, fs.backend src = some bytes →
      (doRename cfg fs src dst env).2.backend src = some bytes ∨
        (doRename cfg fs src dst env).2.backend dst = some bytes) ∧
    ((renameBackend cfg fs src dst env).1 ≠ .ok true →
      ∃ backend, (doRename cfg fs src dst env).2 = { fs with backend := backend }) := by
  have houtcome := renameBackend_outcome cfg fs src dst env
  constructor
  · intro bytes hsrc
    rw [backend_doRename]
    exact houtcome.keeps hsame htruth hqueue hsrc
  · intro hunmoved
    obtain ⟨backend, hbackend, -⟩ := houtcome.unmoved hunmoved
    rw [doRename_of_unmoved hunmoved]
    exact ⟨backend, hbackend⟩

/-- A mount over one object at `a`. -/
def oneObject (bytes : Bytes) : MntrsFs :=
  .mounted (Function.update (fun _ ↦ none) ['a'] (some bytes)) .empty

/-- The object survives on a backend without rename and copy whose destination exists. -/
theorem rename_keeps_source_object_sample :
    (doRename (.plain .writes) (oneObject [1]) ['a'] ['b']
        { RenameEnv.readWrite with write := some .alreadyExists }).2.backend ['a'] = some [1] ∨
      (doRename (.plain .writes) (oneObject [1]) ['a'] ['b']
        { RenameEnv.readWrite with write := some .alreadyExists }).2.backend ['b'] = some [1] :=
  (rename_keeps_source_object (.plain .writes) (oneObject [1]) ['a'] ['b']
    { RenameEnv.readWrite with write := some .alreadyExists } (by decide) (by decide)
    (by decide)).1 [1] (by decide)

/-- A read that answers `NotFound` for an object that is there makes the rename trust the cache
file: its bytes go to the destination and the object is deleted. -/
theorem rename_trusts_notFound :
    let cpath := (Config.plain .writes).writeBufferPath ['a']
    let fs := { oneObject [1] with disk := Disk.empty.create cpath [2] 0 }
    let fs' := (doRename (.plain .writes) fs ['a'] ['b']
      { RenameEnv.readWrite with read := some .notFound }).2
    fs.backend ['a'] = some [1] ∧ fs'.backend ['a'] ≠ some [1] ∧ fs'.backend ['b'] ≠ some [1] := by
  decide

/-! ### The entries of a directory -/

/-- The source's own entries have moved, the inode found for it, its reverse entry and its
cached attributes, and all other entries are as before. -/
structure RootMoved (src dst : Path) (fs fs' : MntrsFs) : Prop where
  inode : ∀ ino, (findInoByPath fs src).1 = some ino →
    ∃ e, fs.inodes.lookup ino = some e ∧ e.path = src ∧
      fs'.inodes.lookup ino = some { e with path := dst } ∧ fs'.pathToIno dst = some ino
  others : ∀ ino, (findInoByPath fs src).1 ≠ some ino →
    fs'.inodes.lookup ino = fs.inodes.lookup ino
  reverse : fs'.pathToIno src = none
  attrs : fs'.attrCache src = none
  otherAttrs : ∀ p, p ≠ src → p ≠ dst → fs'.attrCache p = fs.attrCache p
  symlinks : fs'.symlinks = fs.symlinks

theorem findInoByPath_clears {path : Path} (h : (findInoByPath fs path).1 = none) :
    (findInoByPath fs path).2.pathToIno path = none := by
  unfold findInoByPath at h ⊢
  simp only at h ⊢
  split at h
  · cases h
  · split at h
    · cases h
    · simp [*]

/-- The local part moves the entries of the source itself. -/
theorem renameLocal_rootMoved (cfg : Config) (fs : MntrsFs) (hne : src ≠ dst) :
    RootMoved src dst fs (renameLocal cfg fs src dst) := by
  obtain ⟨dirCache, hlocal⟩ := renameLocal_eq cfg fs src dst
  rw [hlocal]
  cases hfound : (findInoByPath fs src).1 with
  | none =>
    rw [migrateInode_none dst hfound]
    exact {
      inode := fun ino hino ↦ by simp [hfound] at hino
      others := fun _ _ ↦ rfl
      reverse := findInoByPath_clears hfound
      attrs := migrateAttrs_src fs.attrCache src dst
      otherAttrs := fun _ hsrc hdst ↦ migrateAttrs_of_ne fs.attrCache hsrc hdst
      symlinks := rfl }
  | some ino =>
    rw [migrateInode_some dst hfound]
    exact {
      inode := by
        intro ino' hino'
        obtain rfl : ino = ino' := by simpa [hfound] using hino'
        obtain ⟨e, he, hpath⟩ := findInoByPath_some hfound
        exact ⟨e, he, hpath, by simp [Table.lookup_modify, he], by simp⟩
      others := fun ino' hino' ↦
        Table.lookup_modify_of_ne _ _ (fun heq ↦ hino' (by rw [hfound, heq]))
      reverse := by simp [hne]
      attrs := migrateAttrs_src fs.attrCache src dst
      otherAttrs := fun _ hsrc hdst ↦ migrateAttrs_of_ne fs.attrCache hsrc hdst
      symlinks := rfl }

end Mntrs

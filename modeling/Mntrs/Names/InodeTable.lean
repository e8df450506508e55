import Mntrs.Base.Machine
import Mntrs.Base.Registry
import Mntrs.Fs.Create
import Mntrs.Fs.RenameEffects

/-!
# The inode table over sequences of calls

The inode table and `path_to_ino` are a registry of paths. Every call keeps the two maps in step
but for two: `forget` leaves the reverse entry of a symlink behind, and a rename onto a path that
another inode carries leaves that inode with the path.
-/

namespace Mntrs

open Base

/-- The inode table as a registry of paths. -/
def MntrsFs.registry (fs : MntrsFs) : Registry Path where
  live := fun ino ↦ (fs.inodes.lookup ino).map InodeEntry.path
  find := fs.pathToIno
  next := fs.nextIno

/-- The calls on names. -/
inductive NameCall where
  | lookup (parent : Ino) (name : Path) (env : StatEnv)
  | readdir (ino : Ino) (env : ListEnv)
  | create (parent : Ino) (name : Path) (env : CreateEnv)
  | createExcl (parent : Ino) (name : Path) (env : CreateEnv)
  | mkdir (parent : Ino) (name : Path) (env : CreateEnv)
  | symlink (parent : Ino) (name target : Path) (now : Nat)
  | unlink (parent : Ino) (name : Path) (env : DeleteEnv)
  | rmdir (parent : Ino) (name : Path) (env : DeleteEnv)
  | rename (parent : Ino) (name : Path) (newparent : Ino) (newname : Path) (env : RenameEnv)
  | forget (ino : Ino) (nlookup : Nat)

/-- The state after a call. -/
def nameStep (cfg : Config) (c : NameCall) (fs : MntrsFs) : Option MntrsFs :=
  match c with
  | .lookup parent name env => some (lookup cfg fs parent name env).2
  | .readdir ino env => some (opendir cfg fs ino env).2
  | .create parent name env => some (create cfg fs parent name env).2
  | .createExcl parent name env => some (createExcl cfg fs parent name env).2
  | .mkdir parent name env => some (mkdir fs parent name env).2
  | .symlink parent name target now => some (symlink cfg fs parent name target now).2
  | .unlink parent name env => some (unlink cfg fs parent name env).2
  | .rmdir parent name env => some (rmdir fs parent name env).2
  | .rename parent name newparent newname env =>
    some (rename cfg fs parent name newparent newname env).2
  | .forget ino nlookup => some (forget fs ino nlookup)

/-- A mount as it is built, with its deleter. The inode that `init` gives to the empty path is also
what a `readdir` of the root whose listing fails allocates. -/
def MntrsFs.started (backend : Path → Option Bytes) (disk : Disk)
    (deleter : Option ConcurrentDeleter) : MntrsFs :=
  { MntrsFs.mounted backend disk with concurrentDeleter := deleter }

/-! ### The table operations -/

section Table

variable {stale : Set Path} {orphans : Set Ino} {fs : MntrsFs}

theorem live_erase (inodes : Table Ino InodeEntry) (ino : Ino) :
    (fun i ↦ ((inodes.erase ino).lookup i).map InodeEntry.path) =
      Function.update (fun i ↦ (inodes.lookup i).map InodeEntry.path) ino none := by
  funext i
  by_cases hi : i = ino
  · subst hi
    simp
  · simp [hi]

theorem live_modify (inodes : Table Ino InodeEntry) (ino : Ino) (dst : Path)
    (hino : (inodes.lookup ino).isSome) :
    (fun i ↦ ((inodes.modify ino (fun e ↦ { e with path := dst })).lookup i).map
        InodeEntry.path) =
      Function.update (fun i ↦ (inodes.lookup i).map InodeEntry.path) ino (some dst) := by
  funext i
  by_cases hi : i = ino
  · subst hi
    obtain ⟨e, he⟩ := Option.isSome_iff_exists.mp hino
    simp [Table.lookup_modify, he]
  · simp [hi, Table.lookup_modify_of_ne]

/-- Allocating an inode keeps the maps in step; the inode carries the path. -/
theorem mirrors_allocInode (h : fs.registry.Mirrors stale orphans) (path : Path) (kind : FileType)
    (size : Nat) (mtime : Option Nat) :
    (allocInode fs path kind size mtime).2.registry.Mirrors stale orphans ∧
      (allocInode fs path kind size mtime).2.registry.live (allocInode fs path kind size mtime).1 =
        some path := by
  unfold allocInode
  split
  · next ino heq =>
    obtain ⟨hfind, hlive⟩ := Option.filter_eq_some_iff.mp heq
    obtain ⟨e, he⟩ := Option.isSome_iff_exists.mp hlive
    have hpath : fs.registry.live ino = some e.path := by simp [MntrsFs.registry, he]
    refine ⟨h, ?_⟩
    rw [hpath, h.live_eq hfind hpath]
  · next heq =>
    have horphan : ∀ i, fs.registry.live i = some path → i ∈ orphans := by
      intro i hlive
      rcases h.mapped hlive with hmapped | horphan
      · have hfilter := Option.filter_eq_none_iff.mp heq i hmapped
        simp only [MntrsFs.registry, Option.map_eq_some_iff] at hlive
        obtain ⟨e, he, -⟩ := hlive
        simp [he] at hfilter
      · exact horphan
    have hnext : fs.inodes.lookup fs.nextIno = none := by
      simpa [MntrsFs.registry] using h.live_next
    have hregistry : MntrsFs.registry { fs with
        nextIno := fs.nextIno + 1
        inodes := fs.inodes.insert fs.nextIno ⟨path, kind, size, mtime⟩
        pathToIno := Function.update fs.pathToIno path (some fs.nextIno) } =
        fs.registry.register path := by
      unfold MntrsFs.registry Registry.register
      congr 1
      funext i
      by_cases hi : i = fs.nextIno
      · subst hi
        simp
      · simp [hi]
    simp only [hnext, Option.isSome_none]
    refine ⟨hregistry ▸ h.register horphan, ?_⟩
    simp [MntrsFs.registry]

theorem findInoByPath_fst (fs : MntrsFs) (path : Path) :
    (findInoByPath fs path).1 = (findInoByPath fs path).2.pathToIno path := by
  unfold findInoByPath
  simp only
  split
  · next heq => exact (Option.filter_eq_some_iff.mp heq).1.symm
  · split <;> simp

/-- Finding an inode keeps the maps in step. -/
theorem mirrors_findInoByPath (h : fs.registry.Mirrors stale orphans) (path : Path) :
    (findInoByPath fs path).2.registry.Mirrors stale orphans := by
  unfold findInoByPath
  simp only
  split
  · exact h
  · next hmapped =>
    split
    · next e hscan =>
      have hlookup := Table.lookup_eq_some_iff.mpr (List.mem_of_find?_eq_some hscan)
      have hmatch := List.find?_some hscan
      have hpath : e.2.path = path := of_decide_eq_true hmatch
      apply Registry.Mirrors.remap h
      · simp [MntrsFs.registry, hlookup, hpath]
      · intro j hj
        rcases h.sound hj with hlive | ⟨hnone, -⟩
        · have hfilter := Option.filter_eq_none_iff.mp hmapped j hj
          simp only [MntrsFs.registry] at hlive
          simp [hlive] at hfilter
        · exact hnone
    · next hscan =>
      apply Registry.Mirrors.unmap h
      intro i hlive
      exfalso
      simp only [MntrsFs.registry, Option.map_eq_some_iff] at hlive
      obtain ⟨e, he, hpath⟩ := hlive
      have hnot := List.find?_eq_none.mp hscan _ (Table.lookup_eq_some_iff.mp he)
      simp [hpath] at hnot

theorem registry_evict (fs fs' : MntrsFs) (path : Path)
    (hinodes : fs'.inodes = match fs.pathToIno path with
      | some ino => fs.inodes.erase ino
      | none => fs.inodes)
    (hmap : fs'.pathToIno = Function.update fs.pathToIno path none)
    (hnext : fs'.nextIno = fs.nextIno) : fs'.registry = fs.registry.evict path := by
  have hlive : fs'.registry.live = (fs.registry.evict path).live := by
    cases hpath : fs.pathToIno path with
    | none =>
      simp [MntrsFs.registry, Registry.evict, hpath, hinodes]
    | some ino =>
      simp only [MntrsFs.registry, Registry.evict, hpath, hinodes]
      exact live_erase fs.inodes ino
  rw [Registry.mk.injEq]
  exact ⟨hlive, hmap, hnext⟩

/-- Moving an inode keeps the maps in step, unless another inode carries the destination. -/
theorem mirrors_migrateInode (h : fs.registry.Mirrors stale orphans) {src dst : Path}
    (hdst : src = dst ∨ ∀ i, fs.registry.live i = some dst → i ∈ orphans) :
    (migrateInode fs src dst).registry.Mirrors stale orphans := by
  have hfound := mirrors_findInoByPath h src
  have hframe := findInoByPath_frame fs src
  cases hino : (findInoByPath fs src).1 with
  | none =>
    rw [migrateInode_none dst hino, ← hframe]
    exact hfound
  | some ino =>
    obtain ⟨e, he, hpath⟩ := findInoByPath_some hino
    have hlive : fs.registry.live ino = some src := by simp [MntrsFs.registry, he, hpath]
    have hmove : (migrateInode fs src dst).registry =
        (findInoByPath fs src).2.registry.move ino src dst := by
      rw [migrateInode_some dst hino, hframe]
      unfold MntrsFs.registry Registry.move
      rw [live_modify fs.inodes ino dst (by simp [he])]
    have hsame : (findInoByPath fs src).2.registry.live = fs.registry.live := by
      rw [hframe]
      rfl
    have hfind : (findInoByPath fs src).2.registry.find src = some ino :=
      (findInoByPath_fst fs src).symm.trans hino
    rw [hmove]
    apply hfound.move _ hfind
    · intro j hj
      rcases hdst with rfl | horphan
      · exact or_iff_not_imp_left.mpr (hfound.mem_orphans hj hfind)
      · exact .inr (horphan j (hsame ▸ hj))
    · rw [hsame, hlive]

end Table

/-! ### What leaves the table alone -/

section

variable (cfg : Config) (fs : MntrsFs) (path : Path)

@[simp]
theorem registry_bumpLookupCount (ino : Ino) : (bumpLookupCount fs ino).registry = fs.registry := by
  rw [bumpLookupCount_frame]
  rfl

@[simp]
theorem registry_lookupSymlinkEntry :
    (lookupSymlinkEntryCaseInsensitive cfg fs path).2.registry = fs.registry := by
  rw [lookupSymlinkEntryCaseInsensitive_frame]
  rfl

@[simp]
theorem registry_lookupSymlinkKey :
    (lookupSymlinkKeyCaseInsensitive cfg fs path).2.registry = fs.registry := by
  rw [lookupSymlinkKeyCaseInsensitive_frame]
  rfl

@[simp]
theorem registry_lookupStat (parent name path : Path) (env : StatEnv) :
    (lookupStat cfg fs parent name path env).2.registry = fs.registry := by
  obtain ⟨_, _, hframe⟩ := lookupStat_frame cfg fs parent name path env
  rw [hframe]
  rfl

@[simp]
theorem registry_mkdirChain (env : CreateEnv) :
    (mkdirChain fs path env).2.registry = fs.registry := by
  rw [mkdirChain_frame]
  rfl

@[simp]
theorem registry_mkdirLeaf (env : CreateEnv) :
    (mkdirLeaf fs path env).2.registry = fs.registry := by
  rw [mkdirLeaf_frame]
  rfl

@[simp]
theorem registry_clearTombstone : (clearTombstone fs path).registry = fs.registry := by
  rw [clearTombstone_frame]
  rfl

@[simp]
theorem registry_deleteBackendStrict (label : String) (env : DeleteEnv) :
    (deleteBackendStrict fs path label env).2.registry = fs.registry := by
  rw [deleteBackendStrict_frame]
  rfl

@[simp]
theorem registry_rmdirBackend (env : DeleteEnv) :
    (rmdirBackend fs path env).2.registry = fs.registry := by
  obtain ⟨_, _, _, hframe⟩ := rmdirBackend_frame fs path env
  rw [hframe]
  rfl

@[simp]
theorem registry_renameBackend (src dst : Path) (env : RenameEnv) :
    (renameBackend cfg fs src dst env).2.registry = fs.registry := by
  obtain ⟨_, _, _, hframe⟩ := (renameBackend_outcome cfg fs src dst env).frame
  rw [hframe]
  rfl

@[simp]
theorem registry_removeCacheEntries (keys : List CacheKey) :
    (removeCacheEntries cfg fs keys).registry = fs.registry := by
  rw [removeCacheEntries_frame]
  rfl

/-- Dropping the blocks of a path finds its inode and leaves the table alone otherwise. -/
theorem registry_unlinkIndex :
    (unlinkIndex cfg fs path).registry = (findInoByPath fs path).2.registry := by
  have hindex : ∃ keys, unlinkIndex cfg fs path =
      { removeCacheEntries cfg (findInoByPath fs path).2 keys with
        diskCacheIndex := (removeCacheEntries cfg (findInoByPath fs path).2
          keys).diskCacheIndex.erase (path, none) } := ⟨_, rfl⟩
  obtain ⟨keys, hindex⟩ := hindex
  rw [hindex]
  exact registry_removeCacheEntries cfg (findInoByPath fs path).2 keys

end

/-! ### The calls -/

/-- What a call that takes nothing away does to the inodes: it looks for the inode of a path,
allocates one, or leaves the inodes alone. -/
inductive Allocates : MntrsFs → MntrsFs → Prop where
  | frame {fs fs' : MntrsFs} (hregistry : fs'.registry = fs.registry) : Allocates fs fs'
  | find (fs : MntrsFs) (path : Path) : Allocates fs (findInoByPath fs path).2
  | alloc (fs : MntrsFs) (path : Path) (kind : FileType) (size : Nat) (mtime : Option Nat) :
    Allocates fs (allocInode fs path kind size mtime).2
  | trans {fs fs' fs'' : MntrsFs} : Allocates fs fs' → Allocates fs' fs'' → Allocates fs fs''

section Calls

variable {stale : Set Path} {orphans : Set Ino} {fs fs' : MntrsFs} (cfg : Config)

/-- Such a call keeps the maps in step. -/
theorem Allocates.mirrors (hcall : Allocates fs fs') (h : fs.registry.Mirrors stale orphans) :
    fs'.registry.Mirrors stale orphans := by
  induction hcall with
  | frame hregistry => rwa [hregistry]
  | find fs path => exact mirrors_findInoByPath h path
  | alloc fs path kind size mtime => exact (mirrors_allocInode h path kind size mtime).1
  | trans _ _ ih ih' => exact ih' (ih h)

section

variable (fs : MntrsFs) (parent : Ino) (name : Path) (env : CreateEnv)

theorem allocates_lookup (env : StatEnv) : Allocates fs (lookup cfg fs parent name env).2 :=
  lookup_related cfg fs (R := Allocates) (fun _ ↦ .frame rfl) .trans (fun _ _ ↦ .frame (by simp))
    (fun _ _ _ _ _ ↦ .frame (by simp)) .find .alloc (fun _ _ ↦ .frame (by simp)) parent name env

theorem allocates_allocRows (rows : List ListOpRow) (entries : Table Path DirEntryCacheValue) :
    Allocates fs (allocRows fs rows entries).2 := by
  induction rows generalizing fs entries with
  | nil => exact .frame rfl
  | cons row rows ih => exact (Allocates.alloc fs _ _ _ _).trans (ih _ _)

theorem allocates_emitEntries (path : Path) (rows : List ListOpRow) :
    Allocates fs (emitEntries fs path rows).2 := by
  induction rows generalizing fs with
  | nil => exact .frame rfl
  | cons row rows ih =>
    unfold emitEntries
    split
    · exact ih fs
    · cases row.ino with
      | some ino => exact ih fs
      | none => exact (Allocates.alloc fs _ _ _ _).trans (ih _)

theorem allocates_readdirMaterialise (ino : Ino) (env : ListEnv) :
    Allocates fs (readdirMaterialise cfg fs ino env).2 := by
  have halloc := Allocates.alloc fs (resolvePath fs ino) .directory 4096 none
  rcases readdirMaterialise_cases cfg fs ino env with
    ⟨snap, -, hread⟩ | ⟨-, ⟨e, -, hread⟩ | ⟨rows, -, hread⟩⟩
  · rw [hread]
    exact halloc.trans (allocates_emitEntries _ _ _)
  · rw [hread]
    exact halloc.trans (.frame rfl)
  · rw [hread]
    generalize (allocInode fs (resolvePath fs ino) .directory 4096 none).2 = fs₁ at halloc
    have hdropped : Allocates fs₁ (dropListing fs₁ (resolvePath fs ino)) := .frame rfl
    have hfilled : Allocates fs₁ (fillListing fs₁ (resolvePath fs ino) env.now rows).2 :=
      (hdropped.trans (allocates_allocRows _ rows ∅)).trans (.frame rfl)
    exact (halloc.trans hfilled).trans (allocates_emitEntries _ _ _)

theorem allocates_opendir (ino : Ino) (env : ListEnv) :
    Allocates fs (opendir cfg fs ino env).2 := by
  obtain ⟨_, _, hframe⟩ := opendir_frame cfg fs ino env
  rw [hframe]
  exact (allocates_readdirMaterialise cfg fs ino env).trans (.frame rfl)

theorem allocates_createWritten (d n p : Path) (env : CreateEnv) :
    Allocates fs (createWritten cfg fs d n p env).2 := by
  obtain ⟨_, _, _, _, _, _, _, hfinish⟩ := createFinish_eq cfg (putObject fs p []) d n p env
  have hput : Allocates fs (putObject fs p []) := .frame rfl
  rw [createWritten, hfinish]
  exact (hput.trans (.alloc _ _ _ _ _)).trans (.frame rfl)

theorem allocates_create : Allocates fs (create cfg fs parent name env).2 := by
  have hchain : ∀ path, Allocates fs (mkdirChain (clearTombstone fs path) path env).2 :=
    fun path ↦ .frame (by simp)
  rcases create_cases cfg fs parent name env with ⟨e, hcreate, -⟩ | ⟨-, -, hcreate⟩
  · rw [hcreate]
    exact hchain _
  · rw [hcreate]
    exact (hchain _).trans (allocates_createWritten cfg _ _ _ _ env)

theorem allocates_createExcl : Allocates fs (createExcl cfg fs parent name env).2 := by
  by_cases hcap : cfg.writeWithIfNotExists = true
  · have hchain : ∀ path, Allocates fs (mkdirChain fs path env).2 := fun path ↦ .frame (by simp)
    rcases createExcl_cases cfg fs parent name env hcap with ⟨e, hcreate⟩ | ⟨-, -, hcreate⟩
    · rw [hcreate]
      exact hchain _
    · rw [hcreate]
      exact (hchain _).trans (allocates_createWritten cfg _ _ _ _ env)
  · rw [createExcl_of_plain fs parent name env hcap]
    exact allocates_create cfg fs parent name env

theorem allocates_mkdir : Allocates fs (mkdir fs parent name env).2 := by
  rcases mkdir_cases fs parent name env with
    ⟨e, -, hmkdir⟩ | ⟨e, -, hmkdir⟩ | ⟨-, -, attr, lookupCount, hmkdir⟩
  · rw [hmkdir]
    exact .frame (by simp)
  · rw [hmkdir]
    exact .frame (by simp)
  · rw [hmkdir]
    refine Allocates.trans (.trans (.frame ?_) (.alloc _ _ _ _ _)) (.frame rfl)
    simp

theorem allocates_symlink (target : Path) (now : Nat) :
    Allocates fs (symlink cfg fs parent name target now).2 := by
  unfold symlink
  simp only
  split
  · exact .frame rfl
  · refine Allocates.trans (.trans (.frame ?_) (.alloc _ _ _ _ _))
      (.frame (registry_bumpLookupCount _ _))
    rfl

/-- Unlinking a symlink evicts the path its reverse entry is under. -/
theorem registry_unlinkSymlink (parent name path stored : Path) (env : DeleteEnv) :
    (unlinkSymlink cfg fs parent name path stored env).registry =
      fs.registry.evict (if (fs.pathToIno stored).isSome then stored else path) := by
  unfold unlinkSymlink removeListing
  rw [registry_deleteBackendStrict, cacheRemoveEntry_frame]
  exact registry_evict fs _ _ rfl rfl rfl

theorem registry_remove (fs' : MntrsFs) (path : Path)
    (hinodes : fs'.inodes = match (findInoByPath fs path).1 with
      | some ino => (findInoByPath fs path).2.inodes.erase ino
      | none => (findInoByPath fs path).2.inodes)
    (hmap : fs'.pathToIno = Function.update (findInoByPath fs path).2.pathToIno path none)
    (hnext : fs'.nextIno = (findInoByPath fs path).2.nextIno) :
    fs'.registry = (findInoByPath fs path).2.registry.evict path := by
  rw [findInoByPath_fst] at hinodes
  exact registry_evict _ fs' path hinodes hmap hnext

/-- Dropping the tables of a path evicts it. -/
theorem registry_unlinkTables (parent name path : Path) :
    (unlinkTables fs parent name path).registry =
      (findInoByPath fs path).2.registry.evict path := by
  unfold unlinkTables removeListing
  simp only
  rw [cacheRemoveEntry_frame]
  exact registry_remove fs _ path rfl rfl rfl

/-- The local half of an rmdir evicts its path. -/
theorem registry_rmdirLocal (parent name path : Path) :
    (rmdirLocal fs parent name path).registry =
      (findInoByPath fs path).2.registry.evict path := by
  unfold rmdirLocal
  simp only
  rw [cacheRemoveEntry_frame]
  exact registry_remove fs _ path rfl rfl rfl

end

section

variable (h : fs.registry.Mirrors stale orphans)
include h

theorem mirrors_unlinkLocal (c : UnlinkCall) :
    (unlinkLocal cfg fs c).registry.Mirrors stale orphans := by
  have hindex : (unlinkIndex cfg (unlinkCache cfg fs c.path) c.path).registry.Mirrors stale
      orphans := by
    rw [registry_unlinkIndex]
    exact @mirrors_findInoByPath stale orphans (unlinkCache cfg fs c.path) h c.path
  rw [unlinkLocal, registry_unlinkTables]
  exact (mirrors_findInoByPath hindex c.path).evict c.path

/-- An unlink keeps the maps in step. -/
theorem mirrors_unlink (parent : Ino) (name : Path) (env : DeleteEnv) :
    (unlink cfg fs parent name env).2.registry.Mirrors stale orphans := by
  rcases unlink_cases cfg fs parent name env with
    ⟨stored, -, hunlink⟩ | ⟨-, result, fs', hbegin, hunlink⟩
  · rw [hunlink, registry_unlinkSymlink, registry_lookupSymlinkKey]
    exact h.evict _
  · rw [hunlink]
    obtain ⟨_, _, _, _, rfl⟩ := unlinkBegin_inr hbegin
    exact mirrors_unlinkLocal cfg (by exact h) _

/-- An rmdir keeps the maps in step. -/
theorem mirrors_rmdir (parent : Ino) (name : Path) (env : DeleteEnv) :
    (rmdir fs parent name env).2.registry.Mirrors stale orphans := by
  have hbackend : (rmdirBackend fs (entryNames fs parent name).2.2 env).2.registry.Mirrors
      stale orphans := by
    simpa using h
  rcases rmdir_cases fs parent name env with ⟨e, -, hrmdir⟩ | ⟨-, hrmdir⟩
  · rw [hrmdir]
    exact hbackend
  · rw [hrmdir, registry_rmdirLocal]
    exact (mirrors_findInoByPath hbackend _).evict _

/-- A rename keeps the maps in step, unless it moves onto a path another inode carries. -/
theorem mirrors_doRename (src dst : Path) (env : RenameEnv)
    (hdst : (renameBackend cfg fs src dst env).1 = .ok true →
      src = dst ∨ ∀ i, fs.registry.live i = some dst → i ∈ orphans) :
    (doRename cfg fs src dst env).2.registry.Mirrors stale orphans := by
  have hbackend : (renameBackend cfg fs src dst env).2.registry = fs.registry := by simp
  by_cases hmoved : (renameBackend cfg fs src dst env).1 = .ok true
  · obtain ⟨_, hlocal⟩ := renameLocal_eq cfg (renameBackend cfg fs src dst env).2 src dst
    rw [doRename_of_moved hmoved, hlocal]
    apply mirrors_migrateInode (hbackend ▸ h)
    rw [hbackend]
    exact hdst hmoved
  · rw [doRename_of_unmoved hmoved, hbackend]
    exact h

end

/-- The inode a forget drops. -/
def forgetDrops (fs : MntrsFs) (ino : Ino) (nlookup : Nat) : Option InodeEntry :=
  if ino = 1 ∨ (lookupsLeft (fs.lookupCount ino) nlookup).isSome then none
  else fs.inodes.lookup ino

/-- A forget keeps the maps in step, but for the reverse entry of a symlink. -/
theorem mirrors_forget (h : fs.registry.Mirrors stale orphans) (ino : Ino) (nlookup : Nat)
    (hstale : ∀ e ∈ forgetDrops fs ino nlookup, e.kind = .symlink → e.path ∈ stale) :
    (forget fs ino nlookup).registry.Mirrors stale orphans := by
  unfold forget
  unfold forgetDrops at hstale
  split
  · exact h
  · next hino =>
    simp only
    split
    · exact h
    · next hkept =>
      simp only [hino, hkept] at hstale
      split
      · exact h
      · next e he =>
        have hlive : fs.registry.live ino = some e.path := by simp [MntrsFs.registry, he]
        by_cases hmapped : e.kind ≠ .symlink ∧ fs.pathToIno e.path = some ino
        · rw [if_pos hmapped]
          convert h.evict e.path using 1
          exact registry_evict fs _ e.path (by simp [hmapped.2]) rfl rfl
        · -- the reverse entry stays, if it leads here at all
          have hrelease := @Registry.Mirrors.release _ stale orphans _ ino h (fun p hp hfind ↦ by
            rw [hlive] at hp
            cases hp
            apply hstale e he
            by_contra hkind
            exact hmapped ⟨hkind, hfind⟩)
          unfold MntrsFs.registry
          simp only [hmapped, if_false]
          rw [live_erase]
          exact hrelease

end Calls

/-! ### Whole sequences -/

/-- The calls that keep the maps in step but for the reverse entries of some paths: a forget drops
no symlink of another path, and a rename moves onto no path that another inode carries. -/
def KeepsInodes (cfg : Config) (stale : Set Path) (fs : MntrsFs) : NameCall → Prop
  | .forget ino nlookup =>
    ∀ e ∈ forgetDrops fs ino nlookup, e.kind = .symlink → e.path ∈ stale
  | .rename parent name newparent newname env =>
    let src := (entryNames fs parent name).2.2
    let dst := (entryNames fs newparent newname).2.2
    (renameBackend cfg fs src dst env).1 = .ok true →
      src = dst ∨ ∀ i, fs.registry.live i ≠ some dst
  | _ => True

/-- Every call keeps the maps in step if a forget leaves a reverse entry of the given paths only,
and a rename moves onto a path of orphans only. -/
theorem mirrors_nameStep {cfg : Config} {stale : Set Path} {orphans : Set Ino} {fs fs' : MntrsFs}
    {c : NameCall} (h : fs.registry.Mirrors stale orphans)
    (hforget : ∀ ino nlookup, c = .forget ino nlookup →
      ∀ e ∈ forgetDrops fs ino nlookup, e.kind = .symlink → e.path ∈ stale)
    (hrename : ∀ parent name newparent newname env,
      c = .rename parent name newparent newname env →
      (renameBackend cfg fs (entryNames fs parent name).2.2
        (entryNames fs newparent newname).2.2 env).1 = .ok true →
      (entryNames fs parent name).2.2 = (entryNames fs newparent newname).2.2 ∨
        ∀ i, fs.registry.live i = some (entryNames fs newparent newname).2.2 → i ∈ orphans)
    (hstep : nameStep cfg c fs = some fs') : fs'.registry.Mirrors stale orphans := by
  cases c with
  | lookup parent name env =>
    cases hstep
    exact (allocates_lookup cfg fs parent name env).mirrors h
  | readdir ino env =>
    cases hstep
    exact (allocates_opendir cfg fs ino env).mirrors h
  | create parent name env =>
    cases hstep
    exact (allocates_create cfg fs parent name env).mirrors h
  | createExcl parent name env =>
    cases hstep
    exact (allocates_createExcl cfg fs parent name env).mirrors h
  | mkdir parent name env =>
    cases hstep
    exact (allocates_mkdir fs parent name env).mirrors h
  | symlink parent name target now =>
    cases hstep
    exact (allocates_symlink cfg fs parent name target now).mirrors h
  | unlink parent name env =>
    cases hstep
    exact mirrors_unlink cfg h parent name env
  | rmdir parent name env =>
    cases hstep
    exact mirrors_rmdir h parent name env
  | rename parent name newparent newname env =>
    cases hstep
    exact mirrors_doRename cfg h _ _ env (hrename _ _ _ _ env rfl)
  | forget ino nlookup =>
    cases hstep
    exact mirrors_forget h ino nlookup (hforget ino nlookup rfl)

/-- After every sequence of calls in which no rename moves onto a path that another inode carries,
an inode carries a path exactly when the path leads to it, except that a path whose symlink
inode was forgotten may lead to an inode that is gone. -/
theorem inode_table_of_run {cfg : Config} {stale : Set Path} {backend : Path → Option Bytes}
    {disk : Disk} {deleter : Option ConcurrentDeleter} {fs : MntrsFs}
    (hrun : GuardedRun (nameStep cfg) (KeepsInodes cfg stale)
      (MntrsFs.started backend disk deleter) fs) :
    (∀ ino e, fs.inodes.lookup ino = some e → fs.pathToIno e.path = some ino) ∧
      ∀ path ino, fs.pathToIno path = some ino →
        (∃ e, fs.inodes.lookup ino = some e ∧ e.path = path) ∨
          fs.inodes.lookup ino = none ∧ path ∈ stale := by
  have hmirrors : fs.registry.Mirrors stale ∅ := by
    apply hrun.invariant (fun fs ↦ fs.registry.Mirrors stale ∅) ?_
      (Registry.mirrors_empty stale ∅ 2)
    intro fs₁ c fs₂ h hguard hstep
    apply mirrors_nameStep h _ _ hstep
    · rintro ino nlookup rfl
      exact hguard
    · rintro parent name newparent newname env rfl hmoved
      exact (hguard hmoved).imp id (fun hfree i hlive ↦ absurd hlive (hfree i))
  constructor
  · intro ino e he
    exact (hmirrors.mapped (by simp [MntrsFs.registry, he])).resolve_right id
  · intro path ino hfind
    rcases hmirrors.sound hfind with hlive | ⟨hnone, hstale⟩
    · exact .inl (by simpa [MntrsFs.registry] using hlive)
    · exact .inr ⟨by simpa [MntrsFs.registry] using hnone, hstale⟩

/-- An empty mount without deleter. -/
def emptyMount : MntrsFs := .started (fun _ ↦ none) .empty none

/-- A lister of some names, for files of one byte. -/
def listed (names : List Path) (now : Nat) : ListEnv :=
  ⟨.ok (names.map (fun n ↦ .ok ⟨n, ⟨.file, 1, none⟩⟩)), now⟩

/-- A file and a symlink; the symlink is forgotten. -/
theorem inode_table_of_run_sample :
    ∃ fs, GuardedRun (nameStep (.plain .off)) (KeepsInodes (.plain .off) {['s']}) emptyMount fs ∧
      (∃ e, fs.inodes.lookup 2 = some e ∧ e.path = ['a']) ∧
      fs.pathToIno ['s'] = some 3 ∧ fs.inodes.lookup 3 = none := by
  have hexec : ∃ fs, exec (nameStep (.plain .off))
      [.create 1 ['a'] (.ok 0), .symlink 1 ['s'] ['a'] 0, .forget 3 1] emptyMount = some fs ∧
      fs.pathToIno ['a'] = some 2 ∧ fs.pathToIno ['s'] = some 3 ∧
      fs.inodes.lookup 2 ≠ none ∧ fs.inodes.lookup 3 = none :=
    ⟨_, rfl, by decide⟩
  obtain ⟨fs, hexec, hfile, hlink, hlive, hgone⟩ := hexec
  have hrun : GuardedRun (nameStep (.plain .off)) (KeepsInodes (.plain .off) {['s']})
      emptyMount fs := by
    refine guardedRun_of_exec hexec ⟨trivial, fun created hcreated ↦ ⟨trivial, ?_⟩⟩
    intro linked hlinked
    refine ⟨?_, fun _ _ ↦ trivial⟩
    intro e he _
    cases hcreated
    cases hlinked
    cases he
    rfl
  refine ⟨fs, hrun, ?_, hlink, hgone⟩
  rcases (inode_table_of_run hrun).2 ['a'] 2 hfile with hfound | ⟨hnone, -⟩
  · exact hfound
  · exact absurd hnone hlive

/-- Renaming a file onto another leaves two inodes with the path of the second, and forgetting a
symlink leaves a path that leads to no inode. -/
theorem inode_table_not_bijective :
    (∃ fs e e', exec (nameStep (.plain .off))
        [.create 1 ['a'] (.ok 0), .create 1 ['b'] (.ok 0), .rename 1 ['a'] 1 ['b'] .ok]
        emptyMount = some fs ∧
      fs.inodes.lookup 2 = some e ∧ fs.inodes.lookup 3 = some e' ∧
      e.path = ['b'] ∧ e'.path = ['b'] ∧ fs.pathToIno ['b'] = some 2) ∧
    ∃ fs, exec (nameStep (.plain .off)) [.symlink 1 ['s'] ['a'] 0, .forget 2 1] emptyMount =
        some fs ∧
      fs.pathToIno ['s'] = some 2 ∧ fs.inodes.lookup 2 = none :=
  ⟨⟨_, _, _, rfl, rfl, rfl, rfl, rfl, rfl⟩, _, rfl, rfl, rfl⟩

end Mntrs

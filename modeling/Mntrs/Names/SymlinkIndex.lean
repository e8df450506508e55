import Mntrs.Names.InodeTable

/-!
# The index of the symlinks

`symlinks_lower` leads from the lower-case form of a path to a key of `symlinks`. It holds one key
for each form, so of two symlinks whose paths differ in case it knows the last, and an unlink of
the other takes the inode and the cached records of the last one away
(`src/src/lib.rs:3471-3503,7396-7483,8290-8340,8383-8463`). Where no two keys differ in case only,
a lookup finds its own key and an unlink removes what belongs to its path.
-/

namespace Mntrs

open Base

/-- `MntrsFs::attach_symlink_to_ino`, `src/src/lib.rs:8383-8463`. -/
def attachSymlinkToIno (cfg : Config) (fs : MntrsFs) (ino : Ino) (target : Path) (now : Nat) :
    Except IoError FileAttr × MntrsFs :=
  let named := "attach_symlink_to_ino: ino " ++ toString ino
  match fs.inodes.lookup ino with
  | none => (.error ⟨.notFound, named ++ " not registered", none⟩, fs)
  | some e =>
    let named := named ++ " (" ++ String.ofList e.path ++ ")"
    match e.kind with
    | .symlink => (.error ⟨.alreadyExists, named ++ " is already a symlink", none⟩, fs)
    | .directory => (.error ⟨.invalidInput, named ++ " is a directory, not a file", none⟩, fs)
    | .regularFile =>
      let size := (utf8 target).length
      let fs := { fs with
        symlinks := fs.symlinks.insert e.path target
        symlinksLower := Function.update fs.symlinksLower (cfg.toLowercase e.path) (some e.path)
        inodes := fs.inodes.modify ino (fun e ↦ { e with kind := .symlink, size := size }) }
      (.ok ⟨ino, size, .symlink, now⟩, bumpLookupCount fs ino)

/-- The calls that change the symlinks. -/
inductive SymlinkCall where
  | symlink (parent : Ino) (name target : Path) (now : Nat)
  | attach (ino : Ino) (target : Path) (now : Nat)
  | unlink (parent : Ino) (name : Path) (env : DeleteEnv)

/-- The state after a call. -/
def symlinkStep (cfg : Config) (c : SymlinkCall) (fs : MntrsFs) : Option MntrsFs :=
  match c with
  | .symlink parent name target now => some (symlink cfg fs parent name target now).2
  | .attach ino target now => some (attachSymlinkToIno cfg fs ino target now).2
  | .unlink parent name env => some (unlink cfg fs parent name env).2

/-! ### The index alone -/

/-- The index leads to keys of the form it is asked for. -/
def SymlinkIndexed (cfg : Config) (fs : MntrsFs) : Prop :=
  ∀ lower key, fs.symlinksLower lower = some key →
    key ∈ fs.symlinks ∧ cfg.toLowercase key = lower

variable {path : Path}

section Index

variable {cfg : Config} {fs fs' : MntrsFs}

theorem mem_symlinks_iff {key : Path} :
    key ∈ fs.symlinks ↔ ∃ e ∈ fs.symlinks.entries, e.1 = key := by
  rw [AList.mem_keys, AList.keys, List.keys, List.mem_map]

/-- A lookup finds no key of the form, or the one of the index, or one that it puts there. -/
theorem lookupSymlinkKey_cases (cfg : Config) (fs : MntrsFs) (p : Path) :
    let found := lookupSymlinkKeyCaseInsensitive cfg fs p
    (found = (none, fs) ∧ ∀ key ∈ fs.symlinks, cfg.toLowercase key ≠ cfg.toLowercase p) ∨
      (∃ key, fs.symlinksLower (cfg.toLowercase p) = some key ∧ found = (some key, fs)) ∨
      ∃ key ∈ fs.symlinks, cfg.toLowercase key = cfg.toLowercase p ∧
        found = (some key, { fs with
          symlinksLower :=
            Function.update fs.symlinksLower (cfg.toLowercase p) (some key) }) := by
  unfold lookupSymlinkKeyCaseInsensitive
  split
  case isTrue hempty =>
    refine .inl ⟨rfl, fun key hkey ↦ ?_⟩
    simp [mem_symlinks_iff, hempty] at hkey
  case isFalse =>
    simp only
    split
    case h_1 key hindex => exact .inr (.inl ⟨key, hindex, rfl⟩)
    case h_2 =>
      split
      case h_1 e hfind =>
        refine .inr (.inr ⟨e.1, mem_symlinks_iff.mpr ⟨e, List.mem_of_find?_eq_some hfind, rfl⟩, ?_,
          rfl⟩)
        simpa using List.find?_some hfind
      case h_2 hfind =>
        refine .inl ⟨rfl, fun key hkey ↦ ?_⟩
        obtain ⟨e, he, rfl⟩ := mem_symlinks_iff.mp hkey
        simpa using List.find?_eq_none.mp hfind e he

/-- A lookup answers with a key of the form it is asked for. -/
theorem SymlinkIndexed.mem_of_lookup (h : SymlinkIndexed cfg fs) {p key : Path}
    (hkey : (lookupSymlinkKeyCaseInsensitive cfg fs p).1 = some key) :
    key ∈ fs.symlinks ∧ cfg.toLowercase key = cfg.toLowercase p := by
  rcases lookupSymlinkKey_cases cfg fs p with
    ⟨hfound, -⟩ | ⟨key', hindex, hfound⟩ | ⟨key', hmem, hform, hfound⟩ <;>
    rw [hfound] at hkey <;> cases hkey
  · exact h _ _ hindex
  · exact ⟨hmem, hform⟩

/-- A lookup answers exactly when some key has the form. -/
theorem SymlinkIndexed.isSome_lookup_iff (h : SymlinkIndexed cfg fs) (p : Path) :
    (lookupSymlinkKeyCaseInsensitive cfg fs p).1.isSome ↔
      ∃ key ∈ fs.symlinks, cfg.toLowercase key = cfg.toLowercase p := by
  constructor
  · intro hsome
    obtain ⟨key, hkey⟩ := Option.isSome_iff_exists.mp hsome
    exact ⟨key, h.mem_of_lookup hkey⟩
  · rintro ⟨key, hmem, hform⟩
    rcases lookupSymlinkKey_cases cfg fs p with
      ⟨-, hnone⟩ | ⟨key', -, hfound⟩ | ⟨key', -, -, hfound⟩
    · exact absurd hform (hnone key hmem)
    · rw [hfound]
      rfl
    · rw [hfound]
      rfl

/-- A lookup may fill the index, and keeps it. -/
theorem SymlinkIndexed.lookup (h : SymlinkIndexed cfg fs) (p : Path) :
    SymlinkIndexed cfg (lookupSymlinkKeyCaseInsensitive cfg fs p).2 := by
  rcases lookupSymlinkKey_cases cfg fs p with
    ⟨hfound, -⟩ | ⟨key, -, hfound⟩ | ⟨key, hmem, hform, hfound⟩ <;> rw [hfound]
  · exact h
  · exact h
  · intro lower k hk
    simp only [Function.update_apply] at hk
    split_ifs at hk with hl
    · cases hk
      exact ⟨hmem, hform.trans hl.symm⟩
    · exact h lower k hk

/-- A lookup that finds nothing changes nothing. -/
theorem lookup_eq_self_of_none {p : Path}
    (h : (lookupSymlinkKeyCaseInsensitive cfg fs p).1 = none) :
    (lookupSymlinkKeyCaseInsensitive cfg fs p).2 = fs := by
  rcases lookupSymlinkKey_cases cfg fs p with
    ⟨hfound, -⟩ | ⟨key, -, hfound⟩ | ⟨key, -, -, hfound⟩
  · rw [hfound]
  · rw [hfound] at h
    cases h
  · rw [hfound] at h
    cases h

section

variable (h : SymlinkIndexed cfg fs)
include h

theorem SymlinkIndexed.congr (hsymlinks : fs'.symlinks = fs.symlinks)
    (hlower : fs'.symlinksLower = fs.symlinksLower) : SymlinkIndexed cfg fs' := by
  unfold SymlinkIndexed
  rwa [hsymlinks, hlower]

/-- A new symlink enters the index. -/
theorem SymlinkIndexed.insert {target : Path}
    (hsymlinks : fs'.symlinks = fs.symlinks.insert path target)
    (hlower : fs'.symlinksLower =
      Function.update fs.symlinksLower (cfg.toLowercase path) (some path)) :
    SymlinkIndexed cfg fs' := by
  intro lower key hkey
  rw [hlower, Function.update_apply] at hkey
  rw [hsymlinks, AList.mem_insert]
  split_ifs at hkey with hl
  · cases hkey
    exact ⟨.inl rfl, hl.symm⟩
  · exact (h lower key hkey).imp_left .inr

/-- A symlink that is removed leaves the index with all of its form. -/
theorem SymlinkIndexed.erase (hsymlinks : fs'.symlinks = fs.symlinks.erase path)
    (hlower : fs'.symlinksLower = Function.update fs.symlinksLower (cfg.toLowercase path) none) :
    SymlinkIndexed cfg fs' := by
  intro lower key hkey
  rw [hlower, Function.update_apply] at hkey
  split_ifs at hkey with hl
  obtain ⟨hmem, hform⟩ := h lower key hkey
  rw [hsymlinks, AList.mem_erase]
  refine ⟨⟨?_, hmem⟩, hform⟩
  rintro rfl
  exact hl hform.symm

/-- With the index in step the two searches for a symlink are one. -/
theorem SymlinkIndexed.entry_eq (path : Path) :
    ∃ target, lookupSymlinkEntryCaseInsensitive cfg fs path =
      ((lookupSymlinkKeyCaseInsensitive cfg fs path).1.map (fun key ↦ (key, target)),
        (lookupSymlinkKeyCaseInsensitive cfg fs path).2) := by
  unfold lookupSymlinkEntryCaseInsensitive lookupSymlinkKeyCaseInsensitive
  split
  · exact ⟨[], rfl⟩
  · simp only
    cases hindex : fs.symlinksLower (cfg.toLowercase path) with
    | some key =>
      obtain ⟨target, htarget⟩ :=
        Option.isSome_iff_exists.mp (AList.lookup_isSome.mpr (h _ _ hindex).1)
      exact ⟨target, by simp only [Option.bind_some, htarget, Option.map_some]⟩
    | none =>
      cases fs.symlinks.entries.find? (fun e ↦ cfg.toLowercase e.1 = cfg.toLowercase path) with
      | some e => exact ⟨e.2, rfl⟩
      | none => exact ⟨[], rfl⟩

end

/-- What lookups do to the names: inodes are found and allocated, and the index of the symlinks
may be filled. The deleter is left alone. -/
structure KeepsNames (cfg : Config) (fs fs' : MntrsFs) : Prop where
  allocates : Allocates fs fs'
  symlinks : fs'.symlinks = fs.symlinks
  indexed : SymlinkIndexed cfg fs → SymlinkIndexed cfg fs'
  deleter : fs'.concurrentDeleter = fs.concurrentDeleter

namespace KeepsNames

theorem refl (fs : MntrsFs) : KeepsNames cfg fs fs := ⟨.frame rfl, rfl, id, rfl⟩

theorem trans {fs'' : MntrsFs} (h : KeepsNames cfg fs fs') (h' : KeepsNames cfg fs' fs'') :
    KeepsNames cfg fs fs'' :=
  ⟨h.allocates.trans h'.allocates, h'.symlinks.trans h.symlinks, h'.indexed ∘ h.indexed,
    h'.deleter.trans h.deleter⟩

/-- A call that leaves the symlinks and their index alone. -/
theorem of_frame (h : Allocates fs fs') (hsymlinks : fs'.symlinks = fs.symlinks)
    (hlower : fs'.symlinksLower = fs.symlinksLower)
    (hdeleter : fs'.concurrentDeleter = fs.concurrentDeleter) : KeepsNames cfg fs fs' :=
  ⟨h, hsymlinks, fun hindex ↦ hindex.congr hsymlinks hlower, hdeleter⟩

variable (fs : MntrsFs) (path : Path)

theorem alloc (kind : FileType) (size : Nat) (mtime : Option Nat) :
    KeepsNames cfg fs (allocInode fs path kind size mtime).2 := by
  refine .of_frame (.alloc _ _ _ _ _) ?_ ?_ ?_ <;> rw [allocInode_frame]

theorem find : KeepsNames cfg fs (findInoByPath fs path).2 := by
  refine .of_frame (.find fs path) ?_ ?_ ?_ <;> rw [findInoByPath_frame]

theorem bump (ino : Ino) : KeepsNames cfg fs (bumpLookupCount fs ino) := by
  refine .of_frame (.frame (registry_bumpLookupCount fs ino)) ?_ ?_ ?_ <;>
    rw [bumpLookupCount_frame]

theorem searchEntry : KeepsNames cfg fs (lookupSymlinkEntryCaseInsensitive cfg fs path).2 := by
  refine ⟨.frame (registry_lookupSymlinkEntry cfg fs path), ?_, fun h ↦ ?_, ?_⟩
  · rw [lookupSymlinkEntryCaseInsensitive_frame]
  · obtain ⟨target, hentry⟩ := h.entry_eq path
    rw [hentry]
    exact h.lookup path
  · rw [lookupSymlinkEntryCaseInsensitive_frame]

theorem stat (parent name path : Path) (env : StatEnv) :
    KeepsNames cfg fs (lookupStat cfg fs parent name path env).2 := by
  obtain ⟨_, _, hstat⟩ := lookupStat_frame cfg fs parent name path env
  rw [hstat]
  exact .of_frame (.frame rfl) rfl rfl rfl

theorem lookup (parent : Ino) (name : Path) (env : StatEnv) :
    KeepsNames cfg fs (lookup cfg fs parent name env).2 :=
  lookup_related cfg fs .refl .trans .searchEntry .stat .find .alloc .bump parent name env

end KeepsNames

end Index

/-! ### The calls -/

section Calls

variable {cfg : Config} {fs : MntrsFs}

/-- The symlinks and their index, after a path was added. -/
def AddsSymlink (cfg : Config) (fs fs' : MntrsFs) (path : Path) : Prop :=
  (∃ target, fs'.symlinks = fs.symlinks.insert path target) ∧
    fs'.symlinksLower = Function.update fs.symlinksLower (cfg.toLowercase path) (some path)

theorem symlink_adds (cfg : Config) (fs : MntrsFs) (parent : Ino) (name target : Path)
    (now : Nat) : let fs' := (symlink cfg fs parent name target now).2
    fs' = fs ∨ AddsSymlink cfg fs fs' (entryNames fs parent name).2.2 := by
  unfold symlink
  simp only
  split
  · exact .inl rfl
  · rw [bumpLookupCount_frame, allocIno, allocInode_frame]
    exact .inr ⟨⟨target, rfl⟩, rfl⟩

theorem attach_adds (cfg : Config) (fs : MntrsFs) (ino : Ino) (target : Path) (now : Nat) :
    let fs' := (attachSymlinkToIno cfg fs ino target now).2
    fs' = fs ∨ ∃ e, fs.inodes.lookup ino = some e ∧ AddsSymlink cfg fs fs' e.path := by
  unfold attachSymlinkToIno
  simp only
  split
  · exact .inl rfl
  · next e he =>
    split
    · exact .inl rfl
    · exact .inl rfl
    · rw [bumpLookupCount_frame]
      exact .inr ⟨e, he, ⟨target, rfl⟩, rfl⟩

/-- Promoting an inode changes no path. -/
theorem registry_attach (cfg : Config) (fs : MntrsFs) (ino : Ino) (target : Path) (now : Nat) :
    (attachSymlinkToIno cfg fs ino target now).2.registry = fs.registry := by
  unfold attachSymlinkToIno
  simp only
  split
  · rfl
  · split
    · rfl
    · rfl
    · rw [bumpLookupCount_frame]
      unfold MntrsFs.registry
      congr 1
      funext i
      by_cases hi : i = ino
      · subst hi
        simp [Table.lookup_modify, Option.map_map, Function.comp_def]
      · simp [Table.lookup_modify_of_ne _ _ hi]

private theorem removeListing_cacheRemoveEntry (fs : MntrsFs) (parent name : Path) :
    removeListing (cacheRemoveEntry fs parent name) parent = removeListing fs parent := by
  unfold removeListing cacheRemoveEntry
  simp only
  split <;> simp [Function.update_idem]

/-- The file branch of an unlink leaves the symlinks alone. -/
theorem unlinkBegin_symlinks {fs' : MntrsFs} {parent : Ino} {name : Path} {env : DeleteEnv}
    {c : UnlinkCall}
    (hnone : (lookupSymlinkKeyCaseInsensitive cfg fs (entryNames fs parent name).2.2).1 = none)
    (h : unlinkBegin cfg fs parent name env = .inr (c, fs')) :
    fs'.symlinks = fs.symlinks ∧ fs'.symlinksLower = fs.symlinksLower := by
  have hfound := lookup_eq_self_of_none hnone
  unfold unlinkBegin at h
  simp only [unlinkNames_eq, hnone, hfound] at h
  split at h
  · next hq =>
    obtain ⟨d, rfl⟩ := enqueueBackendDelete_frame hq
    cases h
    exact ⟨rfl, rfl⟩
  · cases h
    rw [deleteBackendStrict_frame]
    exact ⟨rfl, rfl⟩

/-- The symlink branch of an unlink, in full. -/
theorem unlinkSymlink_eq (cfg : Config) (fs : MntrsFs) (parent name path stored : Path)
    (env : DeleteEnv) :
    let key := if (fs.symlinks.lookup path).isSome then path else stored
    let mapped := if (fs.pathToIno stored).isSome then stored else path
    let n := cfg.writeBufferPath stored
    ∃ backend deleter tombs, unlinkSymlink cfg fs parent name path stored env = { fs with
      backend := backend
      concurrentDeleter := deleter
      deleteTombstones := tombs
      symlinks := fs.symlinks.erase key
      symlinksLower := Function.update fs.symlinksLower (cfg.toLowercase key) none
      inodes := match fs.pathToIno mapped with
        | some ino => fs.inodes.erase ino
        | none => fs.inodes
      pathToIno := Function.update fs.pathToIno mapped none
      disk := (fs.disk.removeWhole n).removeDirty n
      attrCache := Function.update fs.attrCache stored none
      dirCache := Function.update fs.dirCache (canonicalizeListPath parent) none
      writeback :=
        fs.writeback.cancel (if stored ∈ fs.writeback.pending then stored else path) } := by
  unfold unlinkSymlink
  rw [deleteBackendStrict_frame, removeListing_cacheRemoveEntry]
  exact ⟨_, _, _, rfl⟩

end Calls

/-! ### Runs -/

/-- No other symlink's path differs from this one in case only. -/
def OnlySpelling (cfg : Config) (fs : MntrsFs) (path : Path) : Prop :=
  ∀ key ∈ fs.symlinks, cfg.toLowercase key = cfg.toLowercase path → key = path

/-- A symlink is added at a path of which no other symlink is a variant. -/
def NoVariant (cfg : Config) (fs : MntrsFs) (c : SymlinkCall) : Prop :=
  match c with
  | .symlink parent name _ _ => OnlySpelling cfg fs (entryNames fs parent name).2.2
  | .attach ino _ _ => ∀ e ∈ fs.inodes.lookup ino, OnlySpelling cfg fs e.path
  | .unlink .. => True

/-- The index holds, no two symlinks differ in case only, and the inode tables agree. -/
structure SymlinkTables (cfg : Config) (fs : MntrsFs) : Prop where
  indexed : SymlinkIndexed cfg fs
  spelling : ∀ path ∈ fs.symlinks, OnlySpelling cfg fs path
  mirrors : fs.registry.Mirrors Set.univ ∅

namespace SymlinkTables

variable {cfg : Config} {fs fs' : MntrsFs}

variable (h : SymlinkTables cfg fs)
include h

theorem add (honly : OnlySpelling cfg fs path) (hadds : AddsSymlink cfg fs fs' path)
    (hmirrors : fs'.registry.Mirrors Set.univ ∅) : SymlinkTables cfg fs' := by
  obtain ⟨⟨target, hsymlinks⟩, hlower⟩ := hadds
  refine ⟨h.indexed.insert hsymlinks hlower, ?_, hmirrors⟩
  intro p hp key hkey hform
  rw [hsymlinks, AList.mem_insert] at hp hkey
  rcases hp with rfl | hp <;> rcases hkey with rfl | hkey
  · rfl
  · exact honly key hkey hform
  · exact (honly p hp hform.symm).symm
  · exact h.spelling p hp key hkey hform

/-- Of its own path a lookup finds the key. -/
theorem lookup_eq (hpath : path ∈ fs.symlinks) :
    (lookupSymlinkKeyCaseInsensitive cfg fs path).1 = some path := by
  obtain ⟨key, hkey⟩ := Option.isSome_iff_exists.mp
    ((h.indexed.isSome_lookup_iff path).mpr ⟨path, hpath, rfl⟩)
  obtain ⟨hmem, hform⟩ := h.indexed.mem_of_lookup hkey
  rw [hkey, h.spelling path hpath key hmem hform]

theorem unlink (parent : Ino) (name : Path) (env : DeleteEnv) :
    SymlinkTables cfg (unlink cfg fs parent name env).2 := by
  have hmirrors := mirrors_unlink cfg h.mirrors parent name env
  rcases unlink_cases cfg fs parent name env with
    ⟨stored, hstored, hunlink⟩ | ⟨hnone, result, mid, hbegin, hunlink⟩
  · obtain ⟨backend, deleter, tombs, heq⟩ := unlinkSymlink_eq cfg
      (lookupSymlinkKeyCaseInsensitive cfg fs (entryNames fs parent name).2.2).2
      (entryNames fs parent name).1 (entryNames fs parent name).2.1
      (entryNames fs parent name).2.2 stored env
    have hkeys : (lookupSymlinkKeyCaseInsensitive cfg fs (entryNames fs parent name).2.2).2.symlinks
        = fs.symlinks := by rw [lookupSymlinkKeyCaseInsensitive_frame]
    rw [hunlink] at hmirrors ⊢
    refine ⟨(h.indexed.lookup _).erase (congrArg MntrsFs.symlinks heq)
      (congrArg MntrsFs.symlinksLower heq), ?_, hmirrors⟩
    have hsub : ∀ key, key ∈ (unlinkSymlink cfg
        (lookupSymlinkKeyCaseInsensitive cfg fs (entryNames fs parent name).2.2).2
        (entryNames fs parent name).1 (entryNames fs parent name).2.1
        (entryNames fs parent name).2.2 stored env).symlinks → key ∈ fs.symlinks := by
      intro key hkey
      rw [congrArg MntrsFs.symlinks heq, AList.mem_erase, hkeys] at hkey
      exact hkey.2
    exact fun p hp key hkey ↦ h.spelling p (hsub p hp) key (hsub key hkey)
  · obtain ⟨hsymlinks, hlower⟩ := unlinkBegin_symlinks hnone hbegin
    obtain ⟨_, _, _, _, _, _, hlocal, -⟩ := unlinkLocal_frame cfg mid
      ⟨(entryNames fs parent name).1, (entryNames fs parent name).2.1,
        (entryNames fs parent name).2.2, result⟩
    rw [hunlink] at hmirrors ⊢
    rw [hlocal] at hmirrors ⊢
    exact ⟨h.indexed.congr hsymlinks hlower, by rw [hsymlinks]; exact h.spelling, hmirrors⟩

/-- One call keeps the tables. -/
theorem step {c : SymlinkCall} (hguard : NoVariant cfg fs c)
    (hstep : symlinkStep cfg c fs = some fs') : SymlinkTables cfg fs' := by
  cases c with
  | symlink parent name target now =>
    cases hstep
    rcases symlink_adds cfg fs parent name target now with hsame | hadds
    · rwa [hsame]
    · exact h.add hguard hadds ((allocates_symlink cfg fs parent name target now).mirrors h.mirrors)
  | attach ino target now =>
    cases hstep
    have hmirrors := h.mirrors
    rw [← registry_attach cfg fs ino target now] at hmirrors
    rcases attach_adds cfg fs ino target now with hsame | ⟨e, he, hadds⟩
    · rwa [hsame]
    · exact h.add (hguard e he) hadds hmirrors
  | unlink parent name env =>
    cases hstep
    exact h.unlink parent name env

end SymlinkTables

/-- The symlink of a path is gone, with the inodes, the attributes, the cache file and the
registration for upload that the path had, and with the listing of its parent; of the rest only
the backend and its deleter changed. -/
def RemovesSymlink (cfg : Config) (fs fs' : MntrsFs) (parent path : Path) : Prop :=
  ∃ backend deleter tombs lower inodes, fs' = { fs with
      backend := backend
      concurrentDeleter := deleter
      deleteTombstones := tombs
      symlinks := fs.symlinks.erase path
      symlinksLower := lower
      inodes := inodes
      pathToIno := Function.update fs.pathToIno path none
      disk := (fs.disk.removeWhole (cfg.writeBufferPath path)).removeDirty
        (cfg.writeBufferPath path)
      attrCache := Function.update fs.attrCache path none
      dirCache := Function.update fs.dirCache (canonicalizeListPath parent) none
      writeback := fs.writeback.cancel path } ∧
    ∀ i, inodes.lookup i = (fs.inodes.lookup i).filter (fun e ↦ e.path ≠ path)

/-- Evicting the inode a path leads to evicts those that carry the path. -/
private theorem lookup_evicted {fs : MntrsFs} (h : fs.registry.Mirrors Set.univ ∅) (path : Path)
    (i : Ino) : (match fs.pathToIno path with
        | some ino => fs.inodes.erase ino
        | none => fs.inodes).lookup i =
      (fs.inodes.lookup i).filter (fun e ↦ e.path ≠ path) := by
  have hcarries : ∀ e, fs.inodes.lookup i = some e →
      (e.path = path ↔ fs.pathToIno path = some i) := by
    intro e he
    have hlive : fs.registry.live i = some e.path := by simp [MntrsFs.registry, he]
    constructor
    · rintro rfl
      exact (h.mapped hlive).resolve_right (Set.notMem_empty i)
    · exact fun hfind ↦ h.live_eq hfind hlive
  have hevicted : (match fs.pathToIno path with
      | some ino => fs.inodes.erase ino
      | none => fs.inodes).lookup i =
        if fs.pathToIno path = some i then none else fs.inodes.lookup i := by
    cases fs.pathToIno path with
    | none => rfl
    | some ino =>
      by_cases hi : i = ino
      · subst hi
        simp
      · simp [AList.lookup_erase_ne hi, Ne.symm hi]
  rw [hevicted]
  cases he : fs.inodes.lookup i with
  | none => exact ite_self none
  | some e =>
    by_cases hfind : fs.pathToIno path = some i
    · simp [hfind, Option.filter_some, (hcarries e he).mpr hfind]
    · simp [hfind, Option.filter_some, mt (hcarries e he).mp hfind]

/-- An unlink of a symlink removes what belongs to its path. -/
theorem SymlinkTables.unlink_removes {cfg : Config} {fs : MntrsFs} (h : SymlinkTables cfg fs)
    (parent : Ino) (name : Path) (env : DeleteEnv)
    (hpath : (entryNames fs parent name).2.2 ∈ fs.symlinks) :
    RemovesSymlink cfg fs (Mntrs.unlink cfg fs parent name env).2 (entryNames fs parent name).1
      (entryNames fs parent name).2.2 := by
  rcases unlink_cases cfg fs parent name env with
    ⟨stored, hstored, hunlink⟩ | ⟨hnone, -⟩
  · rw [h.lookup_eq hpath] at hstored
    cases hstored
    obtain ⟨backend, deleter, tombs, heq⟩ := unlinkSymlink_eq cfg
      (lookupSymlinkKeyCaseInsensitive cfg fs (entryNames fs parent name).2.2).2
      (entryNames fs parent name).1 (entryNames fs parent name).2.1
      (entryNames fs parent name).2.2 (entryNames fs parent name).2.2 env
    rw [hunlink, heq]
    simp only [ite_self]
    rw [lookupSymlinkKeyCaseInsensitive_frame]
    exact ⟨_, _, _, _, _, rfl, lookup_evicted h.mirrors _⟩
  · rw [h.lookup_eq hpath] at hnone
    cases hnone

/-- A mount without symlinks whose inode tables agree. -/
structure NoSymlinks (fs : MntrsFs) : Prop where
  symlinks : fs.symlinks = ∅
  symlinksLower : fs.symlinksLower = fun _ ↦ none
  mirrors : fs.registry.Mirrors Set.univ ∅

/-- Where no symlink is added at a variant of another one's path: the index leads to keys of its
form, a lookup answers exactly for the forms of keys and finds a key under its own path, and an
unlink of a symlink removes what belongs to its path. -/
theorem symlink_index_of_run {cfg : Config} {start fs : MntrsFs} (hstart : NoSymlinks start)
    (hrun : GuardedRun (symlinkStep cfg) (NoVariant cfg) start fs) :
    SymlinkIndexed cfg fs ∧
      (∀ p, (lookupSymlinkKeyCaseInsensitive cfg fs p).1.isSome ↔
        ∃ key ∈ fs.symlinks, cfg.toLowercase key = cfg.toLowercase p) ∧
      (∀ p ∈ fs.symlinks, (lookupSymlinkKeyCaseInsensitive cfg fs p).1 = some p) ∧
      ∀ parent name env, (entryNames fs parent name).2.2 ∈ fs.symlinks →
        RemovesSymlink cfg fs (unlink cfg fs parent name env).2 (entryNames fs parent name).1
          (entryNames fs parent name).2.2 := by
  have htables : SymlinkTables cfg fs := by
    refine hrun.invariant (SymlinkTables cfg) (fun _ _ _ h hg hstep ↦ h.step hg hstep)
      ⟨?_, ?_, hstart.mirrors⟩
    · intro lower key hkey
      simp [hstart.symlinksLower] at hkey
    · intro path hpath
      simp [hstart.symlinks] at hpath
  exact ⟨htables.indexed, htables.indexed.isSome_lookup_iff, fun p hp ↦ htables.lookup_eq hp,
    htables.unlink_removes⟩

/-- A file becomes a symlink beside another symlink, and is removed. -/
theorem symlink_index_of_run_sample :
    ∃ fs, exec (symlinkStep (.plain .off)) [.symlink 1 ['s'] ['x'] 0, .attach 2 ['y'] 0]
        (create (.plain .off) emptyMount 1 ['f'] (.ok 0)).2 = some fs ∧
      (lookupSymlinkKeyCaseInsensitive (.plain .off) fs ['f']).1 = some ['f'] ∧
      RemovesSymlink (.plain .off) fs (unlink (.plain .off) fs 1 ['f'] .ok).2 [] ['f'] := by
  have hexec : ∃ fs, exec (symlinkStep (.plain .off)) [.symlink 1 ['s'] ['x'] 0, .attach 2 ['y'] 0]
      (create (.plain .off) emptyMount 1 ['f'] (.ok 0)).2 = some fs ∧ ['f'] ∈ fs.symlinks ∧
      entryNames fs 1 ['f'] = ([], ['f'], ['f']) := ⟨_, rfl, by decide, rfl⟩
  obtain ⟨fs, hexec, hmem, hnames⟩ := hexec
  have hstart : NoSymlinks (create (.plain .off) emptyMount 1 ['f'] (.ok 0)).2 :=
    ⟨rfl, rfl, (allocates_create _ emptyMount 1 ['f'] (.ok 0)).mirrors
      (Registry.mirrors_empty Set.univ ∅ 2)⟩
  have hadmits : Admits (symlinkStep (.plain .off)) (NoVariant (.plain .off))
      [.symlink 1 ['s'] ['x'] 0, .attach 2 ['y'] 0]
      (create (.plain .off) emptyMount 1 ['f'] (.ok 0)).2 := by
    refine ⟨?_, fun linked hlinked ↦ ⟨?_, fun _ _ ↦ trivial⟩⟩
    · intro key hkey
      simp [hstart.symlinks] at hkey
    · intro e he key hkey hform
      cases hlinked
      cases he
      obtain rfl : key = ['s'] :=
        ((AList.mem_insert _).mp hkey).resolve_right (AList.notMem_empty _)
      exact absurd hform (by decide)
  obtain ⟨-, -, hlookup, hunlink⟩ := symlink_index_of_run hstart
    (guardedRun_of_exec hexec hadmits)
  have hremoves := hunlink 1 ['f'] .ok
  rw [hnames] at hremoves
  exact ⟨fs, hexec, hlookup _ hmem, hremoves hmem⟩

/-- Of two symlinks that differ in case the index knows the second; removing the first takes the
inode of the second away and leaves its own. -/
theorem variant_loses_inode :
    ∃ fs, exec (symlinkStep (.plain .off)) [.symlink 1 ['A'] ['x'] 0, .symlink 1 ['a'] ['y'] 0]
        emptyMount = some fs ∧
      ['A'] ∈ fs.symlinks ∧
      (lookupSymlinkKeyCaseInsensitive (.plain .off) fs ['A']).1 = some ['a'] ∧
      let fs' := (unlink (.plain .off) fs 1 ['A'] .ok).2
      ['a'] ∈ fs'.symlinks ∧ fs'.pathToIno ['a'] = none ∧ fs'.inodes.lookup 3 = none ∧
        fs'.pathToIno ['A'] = some 2 :=
  ⟨_, rfl, by decide, rfl, by decide, rfl, rfl, rfl⟩

end Mntrs

import Mntrs.Delete.PumpEffects
import Mntrs.Fs.Setattr
import Mntrs.Names.SymlinkIndex
import Mntrs.WinFsp.Adapter

/-!
# Deletes that a rename leaves behind

After a rename the kernel may delete the old name through a `cleanup` that carries the new one, so
the adapter remembers the inode in `renamed_inos` and skips that delete. The entry stays until a
delete arrives: a `cleanup` without the delete flag only looks at it, against the field's
documentation (`src/src/core_fs/winfsp.rs:824-838,1881-1905`), and `set_basic_info`
(`2789-2935`) adds one for a call that has the looks of a rename. So a delete of the user can be
the one that is skipped, unless neither happens.
-/

namespace Mntrs

open Base

/-- The arguments of `set_basic_info`; times are FILETIMEs. -/
structure BasicInfo where
  fileAttributes : Nat
  creationTime : Nat
  lastAccessTime : Nat
  lastWriteTime : Nat
  changeTime : Nat

/-- `filetime_u64_to_system_time`, in nanoseconds. -/
def filetimeToSystemTime (ft : Nat) : Option Nat :=
  if ft = 0 ∨ ft < 0x019DB1DED53E8000 then none
  else some (min ((ft - 0x019DB1DED53E8000) * 100) (2 ^ 64 - 1))

/-- What `set_basic_info` takes for a rename inside the kernel. -/
def BasicInfo.LooksRenamed (info : BasicInfo) : Prop :=
  info.fileAttributes ≠ 2 ^ 32 - 1 ∧ info.lastWriteTime = 0 ∧
    (info.creationTime ≠ 0 ∨ info.changeTime ≠ 0)

instance (info : BasicInfo) : Decidable info.LooksRenamed :=
  inferInstanceAs (Decidable (_ ∧ _ ∧ _))

/-- `WinFspAdapter::set_basic_info`. -/
def winSetBasicInfo (cfg : Config) (a : WinFspAdapter) (context : WinFspHandle) (info : BasicInfo)
    (env : SetattrEnv) : Except IoError FileAttr × WinFspAdapter :=
  let renamed := if info.LooksRenamed then insert context.ino a.renamedInos else a.renamedInos
  let (r, fs) := setattr cfg a.inner context.ino none (filetimeToSystemTime info.lastWriteTime)
    (some context.fh) env
  (r, ⟨fs, renamed⟩)

/-- The adapter, and the inodes renamed since a `cleanup` last came for them. -/
structure DeleteWatch where
  adapter : WinFspAdapter
  renamed : Finset Ino

/-- The callbacks; `moved` tells whether the kernel renamed the file. -/
inductive RenameCallback where
  | rename (context : WinFspHandle) (fileName newFileName : Path) (env : RenameEnv)
  | setBasicInfo (context : WinFspHandle) (info : BasicInfo) (moved : Bool) (env : SetattrEnv)
  | cleanup (context : WinFspHandle) (fileName : Option Path) (flags : UInt32) (env : CleanupEnv)

/-- The adapter after a callback, watched. -/
def watchStep (cfg : Config) (cb : RenameCallback) (w : DeleteWatch) : Option DeleteWatch :=
  match cb with
  | .rename context name newName env =>
    match winRename cfg w.adapter context name newName env with
    | (.ok (), a) => some ⟨a, insert context.ino w.renamed⟩
    | (.error _, a) => some ⟨a, w.renamed⟩
  | .setBasicInfo context info moved env =>
    some ⟨(winSetBasicInfo cfg w.adapter context info env).2,
      if moved then insert context.ino w.renamed else w.renamed⟩
  | .cleanup context name flags env =>
    some ⟨winCleanup cfg w.adapter context name flags env, w.renamed.erase context.ino⟩

/-- What looks like a rename is one, and a `cleanup` of a remembered inode is a delete. -/
def OnlyAliasDeletes (w : DeleteWatch) (cb : RenameCallback) : Prop :=
  match cb with
  | .rename .. => True
  | .setBasicInfo _ info moved _ => info.LooksRenamed → moved = true
  | .cleanup context _ flags _ =>
    fspCleanupDelete flags = true ∨ context.ino ∉ w.adapter.renamedInos

/-- Only inodes whose rename is still to be followed by a `cleanup` are remembered. -/
def Remembered (w : DeleteWatch) : Prop := w.adapter.renamedInos ⊆ w.renamed

private theorem winRename_renamedInos {cfg : Config} {a a' : WinFspAdapter}
    {context : WinFspHandle} {name newName : Path} {env : RenameEnv} {r : Except IoError Unit}
    (h : winRename cfg a context name newName env = (r, a')) :
    a'.renamedInos =
      if r.isOk then insert context.ino a.renamedInos else a.renamedInos := by
  simp only [winRename] at h
  split at h <;> cases h <;> rfl

private theorem winCleanup_renamedInos (cfg : Config) (a : WinFspAdapter) (context : WinFspHandle)
    (name : Option Path) (flags : UInt32) (env : CleanupEnv)
    (h : fspCleanupDelete flags = true ∨ context.ino ∉ a.renamedInos) :
    (winCleanup cfg a context name flags env).renamedInos = a.renamedInos.erase context.ino := by
  have hkept : context.ino ∉ a.renamedInos → a.renamedInos = a.renamedInos.erase context.ino :=
    fun hin ↦ (Finset.erase_eq_of_notMem hin).symm
  unfold winCleanup
  split_ifs with hdelete hin
  · rfl
  · cases name <;> exact hkept hin
  · exact hkept (h.resolve_left hdelete)

/-- One callback keeps it so. -/
theorem Remembered.step {cfg : Config} {w w' : DeleteWatch} {cb : RenameCallback} (h : Remembered w)
    (hguard : OnlyAliasDeletes w cb) (hstep : watchStep cfg cb w = some w') : Remembered w' := by
  cases cb with
  | rename context name newName env =>
    simp only [watchStep] at hstep
    split at hstep <;> cases hstep
    case h_1 a hr =>
      rw [Remembered, winRename_renamedInos hr]
      exact Finset.insert_subset_insert _ h
    case h_2 e a hr =>
      rw [Remembered, winRename_renamedInos hr]
      exact h
  | setBasicInfo context info moved env =>
    cases hstep
    simp only [Remembered, winSetBasicInfo]
    by_cases hlooks : info.LooksRenamed
    · rw [if_pos hlooks, if_pos (hguard hlooks)]
      exact Finset.insert_subset_insert _ h
    · split_ifs
      · exact h.trans (Finset.subset_insert _ _)
      · exact h
  | cleanup context name flags env =>
    cases hstep
    simp only [Remembered]
    rw [winCleanup_renamedInos cfg w.adapter context name flags env hguard]
    exact Finset.erase_subset_erase _ h

/-! ### Deletes that arrive -/

/-- The object of a path is gone, or its delete is queued and the path hidden. -/
def Removed (p : Path) (fs : MntrsFs) : Prop :=
  fs.backend p = none ∨ p ∈ fs.deleteTombstones ∧ deleteQueued fs p = true

/-- A delete on the backend succeeds, or a deleter takes it. -/
def DeleteTaken (fs : MntrsFs) (env : DeleteEnv) : Prop :=
  match fs.concurrentDeleter with
  | none => env.failure = none
  | some d => d.accepting = true

/-- The path that the delete of a `cleanup` works on. -/
def cleanupTarget (cfg : Config) (fs : MntrsFs) (fullPath : Path) (env : CleanupEnv) : Path :=
  let (parentPath, basename) := cleanupNames fullPath
  let (found, fs) := parentInoFor cfg fs parentPath env.parents
  (entryNames fs (found.getD 1) basename).2.2

/-- The delete of a `cleanup` is for the file of its context: the name leads to the inode's path,
which is no symlink's, and the delete is taken. -/
structure DeletesFile (cfg : Config) (fs : MntrsFs) (context : WinFspHandle) (fullPath : Path)
    (env : CleanupEnv) : Prop where
  file : context.isDir = false
  name : cleanupTarget cfg fs fullPath env = resolvePath fs context.ino
  indexed : SymlinkIndexed cfg fs
  plain : ∀ key ∈ fs.symlinks,
    cfg.toLowercase key ≠ cfg.toLowercase (resolvePath fs context.ino)
  taken : DeleteTaken fs env.delete

section

variable {cfg : Config} {fs : MntrsFs}

theorem keepsNames_walkParents (env : Nat → StatEnv) (i : Nat) (ino : Ino) (names : List Path) :
    KeepsNames cfg fs (walkParents cfg env i fs ino names).2 := by
  induction names generalizing fs i ino with
  | nil => exact .refl fs
  | cons component names ih =>
    have hlookup := @KeepsNames.lookup cfg fs ino (cfg.nfc component) (env i)
    unfold walkParents
    split <;> next heq =>
      rw [heq] at hlookup
      first
      | exact hlookup.trans (ih _ _)
      | exact hlookup

/-- An unlink of a file whose delete is taken removes it. -/
theorem removed_unlink {parent : Ino} {name : Path} {env : DeleteEnv}
    (hfile : (lookupSymlinkKeyCaseInsensitive cfg fs (entryNames fs parent name).2.2).1 = none)
    (htaken : DeleteTaken fs env) :
    Removed (entryNames fs parent name).2.2 (unlink cfg fs parent name env).2 := by
  rcases unlink_cases cfg fs parent name env with ⟨stored, hstored, -⟩ | ⟨-, r, fs', hbegin, h⟩
  · rw [hfile] at hstored
    cases hstored
  obtain ⟨_, _, _, _, _, _, hlocal, -⟩ :=
    unlinkLocal_frame cfg fs' ⟨_, _, (entryNames fs parent name).2.2, r⟩
  rw [h, hlocal]
  unfold unlinkBegin at hbegin
  simp only [unlinkNames_eq, hfile, lookup_eq_self_of_none hfile, enqueueBackendDelete,
    deleteBackendStrict] at hbegin
  unfold DeleteTaken at htaken
  cases hd : fs.concurrentDeleter with
  | none =>
    simp only [hd] at hbegin htaken
    rw [htaken] at hbegin
    cases hbegin
    exact .inl (Function.update_self ..)
  | some d =>
    simp only [hd, ConcurrentDeleter.enqueue] at hbegin htaken
    rw [if_pos htaken] at hbegin
    cases hbegin
    exact .inr ⟨Finset.mem_insert_self _ _, by simp [deleteQueued, ConcurrentDeleter.held]⟩

/-- So does the delete of a `cleanup`. -/
theorem DeletesFile.removed {context : WinFspHandle} {fullPath : Path} {env : CleanupEnv}
    (h : DeletesFile cfg fs context fullPath env) :
    Removed (resolvePath fs context.ino) (cleanupDelete cfg fs context fullPath env) := by
  set walked := parentInoFor cfg fs (cleanupNames fullPath).1 env.parents with hwalked
  have hkept : KeepsNames cfg fs walked.2 := keepsNames_walkParents ..
  have hattr := getattr_frame cfg walked.2 context.ino env.attr
  set fs' := (getattr cfg walked.2 context.ino env.attr).2
  have hkept' : KeepsNames cfg fs fs' := by
    rw [hattr]
    exact hkept.trans (.of_frame (.frame rfl) rfl rfl rfl)
  have htarget : resolvePath fs context.ino =
      (entryNames fs' (walked.1.getD 1) (cleanupNames fullPath).2).2.2 := by
    rw [hattr]
    exact h.name.symm
  have hnone : (lookupSymlinkKeyCaseInsensitive cfg fs'
      (entryNames fs' (walked.1.getD 1) (cleanupNames fullPath).2).2.2).1 = none := by
    rw [← htarget, ← Option.not_isSome_iff_eq_none, (hkept'.indexed h.indexed).isSome_lookup_iff,
      hkept'.symlinks]
    rintro ⟨key, hkey, hform⟩
    exact h.plain key hkey hform
  have hdone : cleanupDelete cfg fs context fullPath env =
      (unlink cfg fs' (walked.1.getD 1) (cleanupNames fullPath).2 env.delete).2 := by
    simp only [cleanupDelete, h.file]
    rfl
  rw [hdone, htarget]
  apply removed_unlink hnone
  have htaken := h.taken
  unfold DeleteTaken at htaken ⊢
  rwa [hkept'.deleter]

end

end Mntrs

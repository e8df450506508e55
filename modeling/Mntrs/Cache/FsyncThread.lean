import Mathlib.Data.Finset.Basic
import Mntrs.Base.Machine
import Mntrs.Model.Path

/-!
# The periodic sync of cache files

Models `register_pending_writeback` and the thread of `spawn_fsync_thread`
(`src/src/disk_write_pool.rs:785-903`) next to the writers that register a file after they have
written to it (`430-443`, `487-518`, `src/src/lib.rs:5937-5941`). The thread opens, syncs and
removes a path in three steps. A write and its registration that come between the sync and the
removal are lost to the next tick, since the path is in the set already. In every run in which the
thread removes a path only while its file is synced or a registration is still to come, every
written byte is on its way to a sync.
-/

namespace Mntrs

open Base

/-- `MAX_FSYNC_BATCH_PER_TICK`. -/
def maxFsyncBatchPerTick : Nat := 1024

/-- Where the thread is: paths of its snapshot are left, one of them is open, or one has to be
removed from the set. -/
inductive FsyncThread where
  | batch (paths : List Path)
  | opened (path : Path) (file : Nat) (rest : List Path)
  | removing (path : Path) (rest : List Path)
deriving DecidableEq

/-- The cache files by path, `DIRTY_CACHE_PATHS`, the registrations that writers still have to
make, and the thread. A file that replaces another has a new number. A registration is made in
any case, or only if the file is there. -/
structure FsyncSys where
  files : Path → Option Nat
  nextFile : Nat
  unsynced : Path × Nat → Bool
  dirtyCachePaths : Finset Path
  toRegister : List (Path × Bool)
  thread : FsyncThread

/-- A process starts: what is on the disk is synced. -/
def FsyncSys.start (files : Path → Option Nat) (nextFile : Nat) : FsyncSys :=
  ⟨files, nextFile, fun _ ↦ false, ∅, [], .batch []⟩

/-- Steps of the writers, of who removes cache files, and of the thread. -/
inductive FsyncLabel where
  | create (path : Path)
  | write (path : Path) (file : Nat) (ifExists : Bool)
  | writeFailed (path : Path) (file : Nat)
  | register (path : Path) (ifExists : Bool)
  | removeFile (path : Path)
  | snapshot (paths : List Path)
  | openPath (ok : Bool)
  | sync (ok : Bool)
  | remove

/-- The bytes of a file are no longer all synced, or all are. -/
def FsyncSys.mark (s : FsyncSys) (path : Path) (file : Nat) (unsynced : Bool) : FsyncSys :=
  { s with unsynced := Function.update s.unsynced (path, file) unsynced }

/-- `register_pending_writeback`. -/
def registerPendingWriteback (s : FsyncSys) (path : Path) : FsyncSys :=
  { s with dirtyCachePaths := insert path s.dirtyCachePaths }

/-- One step. A block write that fails part of the way is not registered, `504-512`; a handle's
write is if its cache file exists. -/
def fsyncStep : FsyncLabel → FsyncSys → Option FsyncSys
  | .create path, s =>
    match s.files path with
    | some _ => some s
    | none => some { s.mark path s.nextFile false with
        files := Function.update s.files path (some s.nextFile)
        nextFile := s.nextFile + 1 }
  | .write path file ifExists, s =>
    some { s.mark path file true with toRegister := (path, ifExists) :: s.toRegister }
  | .writeFailed path file, s => some (s.mark path file true)
  | .register path ifExists, s =>
    if (path, ifExists) ∈ s.toRegister then
      let s := { s with toRegister := s.toRegister.erase (path, ifExists) }
      some (if ifExists && (s.files path).isNone then s else registerPendingWriteback s path)
    else none
  | .removeFile path, s => some { s with files := Function.update s.files path none }
  | .snapshot paths, s =>
    if s.thread = .batch [] ∧ (∀ p ∈ paths, p ∈ s.dirtyCachePaths) ∧
        paths.length ≤ maxFsyncBatchPerTick then
      some { s with thread := .batch paths }
    else none
  | .openPath ok, s =>
    match s.thread with
    | .batch (path :: rest) =>
      match ok, s.files path with
      | true, some file => some { s with thread := .opened path file rest }
      | true, none => some { s with thread := .removing path rest }
      | false, _ => some { s with thread := .batch rest }
    | _ => none
  | .sync ok, s =>
    match s.thread with
    | .opened path file rest =>
      if ok then some { s.mark path file false with thread := .removing path rest }
      else some { s with thread := .batch rest }
    | _ => none
  | .remove, s =>
    match s.thread with
    | .removing path rest => some { s with
        dirtyCachePaths := s.dirtyCachePaths.erase path
        thread := .batch rest }
    | _ => none

/-- A file that is there and holds unsynced bytes. -/
def FsyncSys.Unsynced (s : FsyncSys) (path : Path) : Prop :=
  ∃ file ∈ s.files path, s.unsynced (path, file) = true

/-- The path the thread is about to remove from the set. -/
def FsyncThread.removes : FsyncThread → Option Path
  | .removing path _ => some path
  | _ => none

/-- A registration of the path is still to come. -/
def FsyncSys.Registers (s : FsyncSys) (path : Path) : Prop := path ∈ s.toRegister.map Prod.fst

/-- Every file with unsynced bytes is in the set, or is going to be. -/
def FsyncSys.Tracked (s : FsyncSys) : Prop :=
  ∀ path, s.Unsynced path → path ∈ s.dirtyCachePaths ∨ s.Registers path

/-- The thread removes a path only while its file is synced or a registration is to come, and a
block write fails part of the way only in a file that is tracked already, or gone. -/
def SyncedWhenRemoved (s : FsyncSys) : FsyncLabel → Prop
  | .remove => ∀ path ∈ s.thread.removes, s.Unsynced path → s.Registers path
  | .writeFailed path file =>
    s.files path = some file → path ∈ s.dirtyCachePaths ∨ s.Registers path
  | _ => True

instance (s : FsyncSys) (path : Path) : Decidable (s.Unsynced path) :=
  inferInstanceAs (Decidable (∃ file ∈ s.files path, s.unsynced (path, file) = true))

instance (s : FsyncSys) (path : Path) : Decidable (s.Registers path) :=
  inferInstanceAs (Decidable (path ∈ s.toRegister.map Prod.fst))

instance (s : FsyncSys) : ∀ l, Decidable (SyncedWhenRemoved s l)
  | .remove => inferInstanceAs (Decidable (∀ path ∈ s.thread.removes, _))
  | .writeFailed _ _ => inferInstanceAs (Decidable (_ → _ ∨ _))
  | .create _ | .write _ _ _ | .register _ _ | .removeFile _ | .snapshot _ | .openPath _
  | .sync _ => isTrue trivial

/-- One step keeps the account. -/
theorem FsyncSys.Tracked.step {s t : FsyncSys} {l : FsyncLabel} (h : s.Tracked)
    (hguard : SyncedWhenRemoved s l) (hstep : fsyncStep l s = some t) : t.Tracked := by
  cases l with
  | create path =>
    simp only [fsyncStep] at hstep
    split at hstep
    · cases hstep
      exact h
    · cases hstep
      rintro p ⟨file, hfile, hbytes⟩
      by_cases heq : p = path
      · subst heq
        simp only [Function.update_self, Option.mem_some_iff] at hfile
        simp [FsyncSys.mark, ← hfile] at hbytes
      · simp only [Function.update_of_ne heq] at hfile
        refine h p ⟨file, hfile, ?_⟩
        simpa [FsyncSys.mark, heq] using hbytes
  | write path file ifExists =>
    cases hstep
    rintro p ⟨f, hf, hbytes⟩
    by_cases heq : p = path
    · exact .inr (List.mem_cons.mpr (.inl heq))
    · refine (h p ⟨f, hf, ?_⟩).imp id (List.mem_cons_of_mem _)
      simpa [FsyncSys.mark, heq] using hbytes
  | writeFailed path file =>
    cases hstep
    rintro p ⟨f, hf, hbytes⟩
    by_cases heq : (p, f) = (path, file)
    · cases heq
      exact hguard hf
    · exact h p ⟨f, hf, by simpa [FsyncSys.mark, Function.update_of_ne heq] using hbytes⟩
  | register path ifExists =>
    simp only [fsyncStep] at hstep
    split at hstep
    · have hlater : ∀ p ≠ path, s.Registers p →
          p ∈ (s.toRegister.erase (path, ifExists)).map Prod.fst := by
        intro p hne hp
        obtain ⟨r, hr, rfl⟩ := List.mem_map.mp hp
        refine List.mem_map_of_mem ((List.mem_erase_of_ne ?_).mpr hr)
        rintro rfl
        exact hne rfl
      split at hstep
      · next hgone =>
        cases hstep
        rintro p ⟨file, hfile, hbytes⟩
        refine (h p ⟨file, hfile, hbytes⟩).imp id (hlater p ?_)
        rintro rfl
        simp only [Bool.and_eq_true, Option.isNone_iff_eq_none] at hgone
        cases hgone.2.symm.trans hfile
      · cases hstep
        intro p hp
        by_cases heq : p = path
        · exact .inl (heq ▸ Finset.mem_insert_self _ _)
        · exact (h p hp).imp (Finset.mem_insert_of_mem) (hlater p heq)
    · cases hstep
  | removeFile path =>
    cases hstep
    rintro p ⟨file, hfile, hbytes⟩
    by_cases heq : p = path
    · subst heq
      simp at hfile
    · exact h p ⟨file, by simpa [heq] using hfile, hbytes⟩
  | snapshot paths =>
    simp only [fsyncStep] at hstep
    split at hstep <;> cases hstep
    exact h
  | openPath ok =>
    simp only [fsyncStep] at hstep
    repeat' split at hstep
    all_goals cases hstep
    all_goals exact h
  | sync ok =>
    simp only [fsyncStep] at hstep
    split at hstep
    · split at hstep
      · cases hstep
        rintro p ⟨file, hfile, hbytes⟩
        refine h p ⟨file, hfile, ?_⟩
        simp only [FsyncSys.mark, Function.update_apply] at hbytes
        split at hbytes
        · cases hbytes
        · exact hbytes
      · cases hstep
        exact h
    · cases hstep
  | remove =>
    simp only [fsyncStep] at hstep
    split at hstep <;> cases hstep
    rename_i path rest hthread
    intro p hp
    by_cases heq : p = path
    · subst heq
      exact .inr (hguard p (by rw [hthread]; rfl) hp)
    · exact (h p hp).imp (fun hd ↦ Finset.mem_erase.mpr ⟨heq, hd⟩) id

/-- In every run under the condition a cache file with unsynced bytes is tracked. -/
theorem unsynced_tracked_of_run {files : Path → Option Nat} {nextFile : Nat} {s : FsyncSys}
    (hrun : GuardedRun fsyncStep SyncedWhenRemoved (.start files nextFile) s) : s.Tracked := by
  refine hrun.invariant FsyncSys.Tracked (fun _ _ _ ↦ FsyncSys.Tracked.step) ?_
  rintro path ⟨file, -, hbytes⟩
  cases hbytes

/-- A tick of the thread: a write to `a` is registered and synced. -/
def oneTick : List FsyncLabel :=
  [.create ['a'], .write ['a'] 0 false, .register ['a'] false, .snapshot [['a']], .openPath true,
    .sync true]

/-- A tick with a write whose registration comes after the removal. -/
theorem unsynced_tracked_of_run_sample :
    ∃ s, GuardedRun fsyncStep SyncedWhenRemoved (.start (fun _ ↦ none) 0) s ∧
      s.unsynced (['a'], 0) = true ∧ s.Tracked := by
  obtain ⟨s, hrun, hbytes⟩ := exists_guardedRun fsyncStep SyncedWhenRemoved
    (fun s ↦ s.unsynced (['a'], 0) = true)
    (oneTick ++ ([.write ['a'] 0 false, .remove] : List FsyncLabel))
    (.start (fun _ ↦ none) 0) (by decide) (by decide)
  exact ⟨s, hrun, hbytes, unsynced_tracked_of_run hrun⟩

/-- A write and its registration between the sync and the removal. -/
theorem write_escapes_sync :
    ∃ s, exec fsyncStep
        (oneTick ++
          ([.write ['a'] 0 false, .register ['a'] false, .remove] : List FsyncLabel))
        (.start (fun _ ↦ none) 0) = some s ∧
      ¬s.Tracked := by
  refine ⟨_, rfl, fun h ↦ ?_⟩
  rcases h ['a'] ⟨0, rfl, rfl⟩ with hd | hr
  · revert hd
    decide
  · cases hr

end Mntrs

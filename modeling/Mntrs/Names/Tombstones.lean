import Mntrs.Delete.Barrier
import Mntrs.Fs.Create
import Mntrs.Fs.RenameEffects

/-!
# Tombstones

A write-behind unlink enqueues the delete of its path and then inserts a tombstone, which hides
the path until the job is resolved (`src/src/lib.rs:7584-7600`). `create` and `mkdir` clear the
tombstone of the path they make; `create_excl`, `symlink` and `rename` do not. The pump can
resolve a job before its tombstone is inserted, and then nothing removes the tombstone. In every
run without these two cases a tombstone stands for a job that is not resolved.
-/

namespace Mntrs

open Base

variable {fs fs' : MntrsFs} {path : Path} {l : PumpLabel}

/-- The paths of the jobs that are not resolved. -/
def MntrsFs.jobPaths (fs : MntrsFs) : List Path :=
  match fs.concurrentDeleter with
  | none => []
  | some d => d.jobs.map PendingDelete.relativePath

/-- The job that a step of the pump resolves. -/
def ConcurrentDeleter.resolving (d : ConcurrentDeleter) (l : PumpLabel) : Option PendingDelete :=
  if l.action = .resolve then d.slots[l.slot]?.bind (fun slot ↦ slot.stage.jobs.head?) else none

/-! ### The pump -/

/-- A step of a slot inserts no tombstone, and passes every job on but the one it resolves, whose
tombstone it removes. -/
theorem SlotEffect.tombs {s s' : DeleteState} {slot slot' : DeleterSlot} {a : PumpAction}
    (h : SlotEffect s slot a s' slot') :
    s'.tombs ⊆ s.tombs ∧ ∀ job, job ∈ s.deleter.pending ∨ job ∈ slot.jobs →
      (job ∈ s'.deleter.pending ∨ job ∈ slot'.jobs) ∨
        job.relativePath ∉ s'.tombs ∧ a = .resolve ∧ slot.stage.jobs.head? = some job := by
  cases h with
  | @resolve landed job' rest hstage =>
    refine ⟨Finset.erase_subset _ _, ?_⟩
    intro job hjob
    by_cases heq : job = job'
    · subst heq
      exact .inr ⟨by simp, rfl, by simp [hstage, PumpStage.jobs]⟩
    · simp only [DeleterSlot.jobs, PumpStage.jobs, hstage, List.mem_append, List.mem_cons] at hjob ⊢
      tauto
  | _ =>
    refine ⟨Finset.Subset.refl _, ?_⟩
    intro job hjob
    left
    simp_all only [DeleterSlot.jobs, PumpStage.jobs, List.mem_append, List.mem_cons,
      List.not_mem_nil] <;>
    tauto

theorem DeleteState.tombs_pump {s t : DeleteState} (h : s.pump l = some t) :
    t.tombs ⊆ s.tombs ∧ ∀ job ∈ s.deleter.jobs, job ∈ t.deleter.jobs ∨
      job.relativePath ∉ t.tombs ∧ s.deleter.resolving l = some job := by
  obtain ⟨slot, s', slot', hslot, heffect, rfl⟩ := DeleteState.pump_cases h
  have hlt : l.slot < s'.deleter.slots.length := by
    rw [heffect.slots]
    exact (List.getElem?_eq_some_iff.mp hslot).1
  obtain ⟨htombs, hjobs⟩ := heffect.tombs
  refine ⟨htombs, ?_⟩
  intro job hjob
  rcases DeleteState.jobs_setSlot hslot heffect.slots hjob with hhere | hkept
  · rcases hjobs job hhere with hpassed | ⟨hgone, haction, hhead⟩
    · exact .inl (DeleteState.mem_jobs_setSlot hlt hpassed)
    · exact .inr ⟨hgone, by simp [ConcurrentDeleter.resolving, haction, hslot, hhead]⟩
  · exact .inl hkept

/-- Tombstones stand for jobs that are not resolved. -/
def MntrsFs.Tombed (fs : MntrsFs) : Prop := ∀ p ∈ fs.deleteTombstones, p ∈ fs.jobPaths

/-- The pump of a mount inserts no tombstone, and a path loses its jobs only with its
tombstone. -/
theorem tombs_pumpStep (h : pumpStep fs l = some fs') :
    fs'.deleteTombstones ⊆ fs.deleteTombstones ∧ ∀ p ∈ fs.jobPaths, p ∈ fs'.jobPaths ∨
      p ∉ fs'.deleteTombstones ∧
        ∃ job, fs.concurrentDeleter.bind (·.resolving l) = some job ∧ job.relativePath = p := by
  unfold pumpStep at h
  split at h
  · cases h
  · next d hd =>
    obtain ⟨t, ht, rfl⟩ := Option.map_eq_some_iff.mp h
    obtain ⟨htombs, hjobs⟩ := DeleteState.tombs_pump ht
    refine ⟨htombs, ?_⟩
    intro p hp
    simp only [MntrsFs.jobPaths, hd, List.mem_map] at hp ⊢
    obtain ⟨job, hjob, rfl⟩ := hp
    rcases hjobs job hjob with hkept | ⟨hgone, hresolving⟩
    · exact .inl ⟨job, hkept, rfl⟩
    · exact .inr ⟨hgone, job, hresolving, rfl⟩

theorem tombs_runPump (fs : MntrsFs) (labels : List PumpLabel) :
    (runPump fs labels).deleteTombstones ⊆ fs.deleteTombstones := by
  induction labels generalizing fs with
  | nil => exact Finset.Subset.refl _
  | cons l labels ih =>
    change (runPump ((pumpStep fs l).getD fs) labels).deleteTombstones ⊆ _
    cases hstep : pumpStep fs l with
    | none => exact ih fs
    | some fs' => exact (ih fs').trans (tombs_pumpStep hstep).1

/-- A step of the pump keeps tombstones for jobs. -/
theorem MntrsFs.Tombed.pumpStep (h : fs.Tombed) (hstep : pumpStep fs l = some fs') :
    fs'.Tombed := by
  obtain ⟨htombs, hjobs⟩ := tombs_pumpStep hstep
  intro p hp
  rcases hjobs p (h p (htombs hp)) with hkept | ⟨hgone, -⟩
  · exact hkept
  · exact absurd hp hgone

theorem tombed_runPump (h : fs.Tombed) (labels : List PumpLabel) : (runPump fs labels).Tombed := by
  induction labels generalizing fs with
  | nil => exact h
  | cons l labels ih =>
    change (runPump ((Mntrs.pumpStep fs l).getD fs) labels).Tombed
    cases hstep : Mntrs.pumpStep fs l with
    | none => exact ih h
    | some fs' => exact ih (h.pumpStep hstep)

/-! ### The calls -/

variable {d : ConcurrentDeleter} {still : Prop} {s : UnlinkSys}

theorem ConcurrentDeleter.jobs_enqueue {d' : ConcurrentDeleter} (h : d.enqueue path = some d') :
    (∀ job ∈ d.jobs, job ∈ d'.jobs) ∧ ∃ job ∈ d'.jobs, job.relativePath = path := by
  unfold enqueue at h
  split at h <;> cases h
  constructor
  · intro job hjob
    simp only [mem_jobs, List.mem_append] at hjob ⊢
    tauto
  · exact ⟨⟨path, d.nextJob, d.barrierEpoch⟩, mem_jobs.mpr (.inl (by simp)), rfl⟩

/-- What a call that clears no tombstone does to the tombstones and the jobs: it inserts no
tombstone, keeps the others for jobs, and keeps the jobs too if the pump does not run. -/
structure KeepsDeletes (still : Prop) (fs fs' : MntrsFs) : Prop where
  tombed : fs.Tombed → fs'.Tombed
  tombs : fs'.deleteTombstones ⊆ fs.deleteTombstones
  jobs : still → ∀ p ∈ fs.jobPaths, p ∈ fs'.jobPaths

theorem KeepsDeletes.of_eq (htombs : fs'.deleteTombstones = fs.deleteTombstones)
    (hdeleter : fs'.concurrentDeleter = fs.concurrentDeleter) : KeepsDeletes still fs fs' := by
  have hjobs : fs'.jobPaths = fs.jobPaths := by simp [MntrsFs.jobPaths, hdeleter]
  refine ⟨?_, htombs ▸ Finset.Subset.refl _, fun _ p hp ↦ hjobs ▸ hp⟩
  intro h p hp
  rw [hjobs]
  exact h p (htombs ▸ hp)

theorem KeepsDeletes.trans {fs₁ fs₂ fs₃ : MntrsFs} (h : KeepsDeletes still fs₁ fs₂)
    (h' : KeepsDeletes still fs₂ fs₃) : KeepsDeletes still fs₁ fs₃ :=
  ⟨fun ht ↦ h'.tombed (h.tombed ht), h'.tombs.trans h.tombs,
    fun hs p hp ↦ h'.jobs hs p (h.jobs hs p hp)⟩

theorem keepsDeletes_flushDeleter (hd : fs.concurrentDeleter = some d) (path : Path)
    (pump : List PumpLabel) :
    KeepsDeletes (pump = []) fs (flushDeleter fs ((d.enqueue path).getD d) pump).2 := by
  have hjobs : ∀ p ∈ fs.jobPaths, p ∈ MntrsFs.jobPaths { fs with
      concurrentDeleter := some ((d.enqueue path).getD d).flushBegin } := by
    intro p hp
    simp only [MntrsFs.jobPaths, hd, List.mem_map] at hp ⊢
    obtain ⟨job, hjob, rfl⟩ := hp
    refine ⟨job, ?_, rfl⟩
    cases henqueue : d.enqueue path with
    | none => exact hjob
    | some d' => exact (ConcurrentDeleter.jobs_enqueue henqueue).1 job hjob
  rw [flushDeleter_snd]
  refine ⟨?_, ?_, ?_⟩
  · intro h
    exact tombed_runPump (fun p hp ↦ hjobs p (h p hp)) pump
  · exact tombs_runPump _ pump
  · rintro rfl
    exact hjobs

theorem keepsDeletes_deleteBackendStrict (fs : MntrsFs) (path : Path) (label : String)
    (env : DeleteEnv) :
    KeepsDeletes (env.pump = []) fs (deleteBackendStrict fs path label env).2 := by
  unfold deleteBackendStrict
  split
  · next d hd => exact keepsDeletes_flushDeleter hd path env.pump
  · split <;> exact .of_eq rfl rfl

theorem tombed_clearTombstone (h : fs.Tombed) (path : Path) :
    (clearTombstone fs path).Tombed ∧ path ∉ (clearTombstone fs path).deleteTombstones := by
  unfold clearTombstone
  split
  · split
    · next d hd =>
      refine ⟨?_, by simp [cancelPending]⟩
      intro p hp
      simp only [cancelPending, Finset.mem_erase] at hp
      obtain ⟨hne, hp⟩ := hp
      have hold := h p hp
      simp only [MntrsFs.jobPaths, hd, List.mem_map] at hold ⊢
      obtain ⟨job, hjob, rfl⟩ := hold
      exact ⟨job, ConcurrentDeleter.mem_jobs_cancel hjob hne, rfl⟩
    · refine ⟨?_, by simp⟩
      intro p hp
      exact h p (Finset.mem_of_mem_erase hp)
  · next hpath => exact ⟨h, hpath⟩

theorem jobPaths_clearTombstone {p : Path} (hp : p ∈ fs.jobPaths) (hne : p ≠ path) :
    p ∈ (clearTombstone fs path).jobPaths := by
  unfold clearTombstone
  split
  · split
    · next d hd =>
      simp only [MntrsFs.jobPaths, hd, cancelPending, List.mem_map] at hp ⊢
      obtain ⟨job, hjob, rfl⟩ := hp
      exact ⟨job, ConcurrentDeleter.mem_jobs_cancel hjob hne, rfl⟩
    · next hd => simp [MntrsFs.jobPaths, hd] at hp
  · exact hp

section

variable {still : Prop} (cfg : Config) (fs : MntrsFs)

theorem keepsDeletes_createWritten (parentPath name path : Path) (env : CreateEnv) :
    KeepsDeletes still fs (createWritten cfg fs parentPath name path env).2 := by
  obtain ⟨_, _, _, _, _, _, _, hfinish⟩ :=
    createFinish_eq cfg (putObject fs path []) parentPath name path env
  rw [createWritten, hfinish, allocInode_frame]
  exact .of_eq rfl rfl

theorem keepsDeletes_mkdirChain (path : Path) (env : CreateEnv) :
    KeepsDeletes still fs (mkdirChain fs path env).2 := by
  rw [mkdirChain_frame]
  exact .of_eq rfl rfl

theorem keepsDeletes_create (parent : Ino) (name : Path) (env : CreateEnv) :
    KeepsDeletes still (clearTombstone fs (entryNames fs parent name).2.2)
      (create cfg fs parent name env).2 := by
  rcases create_cases cfg fs parent name env with ⟨e, hcreate, -⟩ | ⟨-, -, hcreate⟩
  · rw [hcreate]
    exact keepsDeletes_mkdirChain _ _ env
  · rw [hcreate]
    exact (keepsDeletes_mkdirChain _ _ env).trans (keepsDeletes_createWritten cfg _ _ _ _ env)

theorem keepsDeletes_createExcl {cfg : Config} (hexcl : cfg.writeWithIfNotExists)
    (fs : MntrsFs) (parent : Ino) (name : Path) (env : CreateEnv) :
    KeepsDeletes still fs (createExcl cfg fs parent name env).2 := by
  rcases createExcl_cases cfg fs parent name env hexcl with ⟨e, hcreate⟩ | ⟨-, -, hcreate⟩
  · rw [hcreate]
    exact keepsDeletes_mkdirChain _ _ env
  · rw [hcreate]
    exact (keepsDeletes_mkdirChain _ _ env).trans (keepsDeletes_createWritten cfg _ _ _ _ env)

theorem keepsDeletes_mkdir (parent : Ino) (name : Path) (env : CreateEnv) :
    KeepsDeletes still (clearTombstone fs (childPath (resolvePath fs parent) name))
      (mkdir fs parent name env).2 := by
  rcases mkdir_cases fs parent name env with
    ⟨e, -, hmkdir⟩ | ⟨e, -, hmkdir⟩ | ⟨-, -, attr, lookupCount, hmkdir⟩
  · rw [hmkdir]
    exact keepsDeletes_mkdirChain _ _ env
  · rw [hmkdir, mkdirLeaf_frame]
    exact (keepsDeletes_mkdirChain _ _ env).trans (.of_eq rfl rfl)
  · rw [hmkdir, allocInode_frame, mkdirLeaf_frame]
    exact (keepsDeletes_mkdirChain _ _ env).trans (.of_eq rfl rfl)

theorem keepsDeletes_symlink (parent : Ino) (name target : Path) (now : Nat) :
    KeepsDeletes still fs (symlink cfg fs parent name target now).2 := by
  unfold symlink
  simp only
  split
  · exact .of_eq rfl rfl
  · rw [bumpLookupCount_frame, allocIno, allocInode_frame]
    exact .of_eq rfl rfl

theorem keepsDeletes_doRename (src dst : Path) (env : RenameEnv) :
    KeepsDeletes (env.delete.pump = []) fs (doRename cfg fs src dst env).2 := by
  have hbackend : KeepsDeletes (env.delete.pump = []) fs (renameBackend cfg fs src dst env).2 := by
    have houtcome := renameBackend_outcome cfg fs src dst env
    generalize renameBackend cfg fs src dst env = r at houtcome
    cases houtcome with
    | copied bytes h horphan hbytes =>
      refine .trans ?_ (keepsDeletes_deleteBackendStrict _ _ _ _)
      exact .of_eq rfl rfl
    | _ => exact .of_eq rfl rfl
  by_cases hmoved : (renameBackend cfg fs src dst env).1 = .ok true
  · rw [doRename_of_moved hmoved]
    refine hbackend.trans ?_
    obtain ⟨_, _, _, _, _, hlocal⟩ :=
      renameLocal_frame cfg (renameBackend cfg fs src dst env).2 src dst
    rw [hlocal]
    exact .of_eq rfl rfl
  · rw [doRename_of_unmoved hmoved]
    exact hbackend

theorem keepsDeletes_unlinkSymlink (parent name path stored : Path) (env : DeleteEnv) :
    KeepsDeletes (env.pump = []) fs (unlinkSymlink cfg fs parent name path stored env) := by
  refine .trans (.of_eq ?_ ?_) (keepsDeletes_deleteBackendStrict _ _ _ _)
  all_goals
    unfold removeListing
    rw [cacheRemoveEntry_frame]

end

/-! ### Unlinks cut at their tombstone -/

/-- An unlink after its delete: whether its tombstone is still to be inserted. -/
structure PendingUnlink where
  call : UnlinkCall
  queued : Bool

/-- The start of an unlink up to its backend delete, before the tombstone. -/
def unlinkEnqueue (cfg : Config) (fs : MntrsFs) (parent : Ino) (name : Path) (env : DeleteEnv) :
    (Except IoError Unit × MntrsFs) ⊕ (PendingUnlink × MntrsFs) :=
  let (parentPath, name, path) := unlinkNames fs parent name
  let (stored, fs) := lookupSymlinkKeyCaseInsensitive cfg fs path
  match stored with
  | some stored => .inl (.ok (), unlinkSymlink cfg fs parentPath name path stored env)
  | none =>
    match enqueueBackendDelete fs path with
    | some fs => .inr (⟨⟨parentPath, name, path, .ok ()⟩, true⟩, fs)
    | none =>
      let (result, fs) := deleteBackendStrict fs path "unlink" env
      .inr (⟨⟨parentPath, name, path, result⟩, false⟩, fs)

/-- Insert the tombstone of an unlink. -/
def insertTombstone (fs : MntrsFs) (path : Path) : MntrsFs :=
  { fs with deleteTombstones := insert path fs.deleteTombstones }

/-- The two pieces are the start of an unlink. -/
theorem unlinkBegin_eq (cfg : Config) (fs : MntrsFs) (parent : Ino) (name : Path)
    (env : DeleteEnv) :
    unlinkBegin cfg fs parent name env = match unlinkEnqueue cfg fs parent name env with
      | .inl done => .inl done
      | .inr (u, fs) => .inr (u.call, if u.queued then insertTombstone fs u.call.path else fs) := by
  unfold unlinkBegin unlinkEnqueue
  simp only
  cases (lookupSymlinkKeyCaseInsensitive cfg fs (unlinkNames fs parent name).2.2).1 with
  | some stored => rfl
  | none =>
    cases enqueueBackendDelete (lookupSymlinkKeyCaseInsensitive cfg fs
      (unlinkNames fs parent name).2.2).2 (unlinkNames fs parent name).2.2 <;> rfl

/-- A mount with unlinks in progress. -/
structure UnlinkSys where
  fs : MntrsFs
  unlinks : List PendingUnlink

/-- The steps: unlinks in pieces, the calls that make a path, and the pump. -/
inductive TombLabel where
  | unlink (parent : Ino) (name : Path) (env : DeleteEnv)
  | tombstone (i : Nat)
  | finish (i : Nat)
  | create (parent : Ino) (name : Path) (env : CreateEnv)
  | createExcl (parent : Ino) (name : Path) (env : CreateEnv)
  | mkdir (parent : Ino) (name : Path) (env : CreateEnv)
  | symlink (parent : Ino) (name target : Path) (now : Nat)
  | rename (parent : Ino) (name : Path) (newparent : Ino) (newname : Path) (env : RenameEnv)
  | pump (l : PumpLabel)

/-- One step. -/
def tombStep (cfg : Config) (l : TombLabel) (s : UnlinkSys) : Option UnlinkSys :=
  match l with
  | .unlink parent name env =>
    match unlinkEnqueue cfg s.fs parent name env with
    | .inl done => some { s with fs := done.2 }
    | .inr (u, fs) => some ⟨fs, s.unlinks ++ [u]⟩
  | .tombstone i =>
    match s.unlinks[i]? with
    | some ⟨call, true⟩ =>
      some ⟨insertTombstone s.fs call.path, s.unlinks.set i ⟨call, false⟩⟩
    | _ => none
  | .finish i =>
    match s.unlinks[i]? with
    | some ⟨call, false⟩ => some ⟨unlinkLocal cfg s.fs call, s.unlinks.eraseIdx i⟩
    | _ => none
  | .create parent name env => some { s with fs := (create cfg s.fs parent name env).2 }
  | .createExcl parent name env => some { s with fs := (createExcl cfg s.fs parent name env).2 }
  | .mkdir parent name env => some { s with fs := (mkdir s.fs parent name env).2 }
  | .symlink parent name target now =>
    some { s with fs := (symlink cfg s.fs parent name target now).2 }
  | .rename parent name newparent newname env =>
    some { s with fs := (rename cfg s.fs parent name newparent newname env).2 }
  | .pump l => (pumpStep s.fs l).map (fun fs ↦ { s with fs := fs })

/-- The path that a call makes if it returns `Ok`. -/
def makes (cfg : Config) (fs : MntrsFs) : TombLabel → Option Path
  | .create parent name env =>
    (create cfg fs parent name env).1.toOption.map (fun _ ↦ (entryNames fs parent name).2.2)
  | .createExcl parent name env =>
    (createExcl cfg fs parent name env).1.toOption.map (fun _ ↦ (entryNames fs parent name).2.2)
  | .mkdir parent name env =>
    (mkdir fs parent name env).1.toOption.map (fun _ ↦ childPath (resolvePath fs parent) name)
  | .symlink parent name target now =>
    (symlink cfg fs parent name target now).1.toOption.map
      (fun _ ↦ (entryNames fs parent name).2.2)
  | .rename parent name newparent newname env =>
    (rename cfg fs parent name newparent newname env).1.toOption.map
      (fun _ ↦ (entryNames fs newparent newname).2.2)
  | _ => none

/-- No unlink of a path is between its enqueue and its tombstone. -/
def UnlinkSys.settled (s : UnlinkSys) (path : Path) : Prop :=
  ∀ u ∈ s.unlinks, u.queued = true → u.call.path ≠ path

/-- No unlink is, or the pump does nothing while a call waits for it. -/
def UnlinkSys.quiet (s : UnlinkSys) (pump : List PumpLabel) : Prop :=
  pump = [] ∨ ∀ u ∈ s.unlinks, u.queued = false

/-- The steps that keep tombstones for jobs: nothing resolves or cancels the job of an unlink
before its tombstone, and a call that clears no tombstone makes no path that has one. -/
def KeepsTombstones (cfg : Config) (s : UnlinkSys) : TombLabel → Prop
  | .unlink _ _ env => s.quiet env.pump
  | .create parent name _ => s.settled (entryNames s.fs parent name).2.2
  | .createExcl parent name _ =>
    if cfg.writeWithIfNotExists then (entryNames s.fs parent name).2.2 ∉ s.fs.deleteTombstones
    else s.settled (entryNames s.fs parent name).2.2
  | .mkdir parent name _ => s.settled (childPath (resolvePath s.fs parent) name)
  | .symlink parent name _ _ => (entryNames s.fs parent name).2.2 ∉ s.fs.deleteTombstones
  | .rename _ _ newparent newname env =>
    s.quiet env.delete.pump ∧ (entryNames s.fs newparent newname).2.2 ∉ s.fs.deleteTombstones
  | .pump l => ∀ job ∈ s.fs.concurrentDeleter.bind (·.resolving l), s.settled job.relativePath
  | _ => True

instance (s : UnlinkSys) (path : Path) : Decidable (s.settled path) := by
  unfold UnlinkSys.settled
  infer_instance

instance (s : UnlinkSys) (pump : List PumpLabel) : Decidable (s.quiet pump) := by
  unfold UnlinkSys.quiet
  infer_instance

instance (cfg : Config) (s : UnlinkSys) (l : TombLabel) : Decidable (KeepsTombstones cfg s l) := by
  unfold KeepsTombstones
  split <;> infer_instance

/-! ### Whole runs -/

/-- What holds of every state: tombstones stand for jobs, and an unlink that has still to insert
its tombstone has a job. -/
structure UnlinkSys.Sound (s : UnlinkSys) : Prop where
  tombed : s.fs.Tombed
  queued : ∀ u ∈ s.unlinks, u.queued = true → u.call.path ∈ s.fs.jobPaths

/-- A call that keeps the tombstones and the jobs of pending unlinks keeps a state sound. -/
theorem UnlinkSys.Sound.of_keeps {pump : List PumpLabel} (h : s.Sound)
    (hkeeps : KeepsDeletes (pump = []) s.fs fs') (hquiet : s.quiet pump) :
    UnlinkSys.Sound { s with fs := fs' } := by
  refine ⟨hkeeps.tombed h.tombed, ?_⟩
  intro u hu hqueued
  rcases hquiet with hpump | hsettled
  · exact hkeeps.jobs hpump _ (h.queued u hu hqueued)
  · rw [hsettled u hu] at hqueued
    cases hqueued

/-- A call that clears the tombstone of a path first keeps a state sound, unless an unlink of the
path is in progress. -/
theorem UnlinkSys.Sound.of_clear (h : s.Sound)
    (hkeeps : KeepsDeletes True (clearTombstone s.fs path) fs') (hsettled : s.settled path) :
    UnlinkSys.Sound { s with fs := fs' } := by
  refine ⟨hkeeps.tombed (tombed_clearTombstone h.tombed path).1, ?_⟩
  intro u hu hqueued
  exact hkeeps.jobs trivial _
    (jobPaths_clearTombstone (h.queued u hu hqueued) (hsettled u hu hqueued))

theorem UnlinkSys.Sound.notMem_of_clear (h : s.Sound)
    (hkeeps : KeepsDeletes True (clearTombstone s.fs path) fs') :
    path ∉ (UnlinkSys.fs { s with fs := fs' }).deleteTombstones :=
  fun hp ↦ (tombed_clearTombstone h.tombed path).2 (hkeeps.tombs hp)

theorem notMem_of_keeps (hkeeps : KeepsDeletes still s.fs fs') (hp : path ∉ s.fs.deleteTombstones) :
    path ∉ (UnlinkSys.fs { s with fs := fs' }).deleteTombstones :=
  fun hp' ↦ hp (hkeeps.tombs hp')

/-- What the start of an unlink does to tombstones and jobs. -/
theorem unlinkEnqueue_cases (cfg : Config) (fs : MntrsFs) (parent : Ino) (name : Path)
    (env : DeleteEnv) :
    match unlinkEnqueue cfg fs parent name env with
    | .inl done => KeepsDeletes (env.pump = []) fs done.2
    | .inr (u, fs') => KeepsDeletes (env.pump = []) fs fs' ∧
        (u.queued = true → u.call.path ∈ fs'.jobPaths) := by
  set path := (unlinkNames fs parent name).2.2 with hpath
  set indexed := (lookupSymlinkKeyCaseInsensitive cfg fs path).2 with hindexed
  have hindex : KeepsDeletes (env.pump = []) fs indexed := by
    refine .of_eq ?_ ?_
    all_goals rw [hindexed, lookupSymlinkKeyCaseInsensitive_frame]
  unfold unlinkEnqueue
  simp only [← hpath, ← hindexed]
  cases (lookupSymlinkKeyCaseInsensitive cfg fs path).1 with
  | some stored => exact hindex.trans (keepsDeletes_unlinkSymlink cfg indexed _ _ _ _ _)
  | none =>
    cases henqueue : enqueueBackendDelete indexed path with
    | none =>
      exact ⟨hindex.trans (keepsDeletes_deleteBackendStrict _ _ _ _), fun h ↦ by cases h⟩
    | some fs' =>
      unfold enqueueBackendDelete at henqueue
      split at henqueue
      · cases henqueue
      · next d hd =>
        obtain ⟨d', hd', rfl⟩ := Option.map_eq_some_iff.mp henqueue
        obtain ⟨hkept, job, hjob, hnew⟩ := ConcurrentDeleter.jobs_enqueue hd'
        have hjobs : ∀ p ∈ indexed.jobPaths,
            p ∈ MntrsFs.jobPaths { indexed with concurrentDeleter := some d' } := by
          intro p hp
          simp only [MntrsFs.jobPaths, hd, List.mem_map] at hp ⊢
          obtain ⟨job, hjob, rfl⟩ := hp
          exact ⟨job, hkept job hjob, rfl⟩
        refine ⟨hindex.trans ⟨?_, Finset.Subset.refl _, fun _ ↦ hjobs⟩, fun _ ↦ ?_⟩
        · intro h p hp
          exact hjobs p (h p hp)
        · exact List.mem_map.mpr ⟨job, hjob, hnew⟩

theorem keepsDeletes_unlinkLocal (cfg : Config) (fs : MntrsFs) (c : UnlinkCall) :
    KeepsDeletes still fs (unlinkLocal cfg fs c) := by
  obtain ⟨_, _, _, _, _, _, hframe, -, -⟩ := unlinkLocal_frame cfg fs c
  rw [hframe]
  exact .of_eq rfl rfl

/-- Every step under the condition keeps a state sound. -/
theorem UnlinkSys.Sound.step {cfg : Config} {t : UnlinkSys} {l : TombLabel} (h : s.Sound)
    (hguard : KeepsTombstones cfg s l) (hstep : tombStep cfg l s = some t) : t.Sound := by
  cases l with
  | unlink parent name env =>
    have hcases := unlinkEnqueue_cases cfg s.fs parent name env
    simp only [tombStep] at hstep
    split at hstep
    · next done heq =>
      cases hstep
      rw [heq] at hcases
      exact h.of_keeps hcases hguard
    · next u fs' heq =>
      cases hstep
      rw [heq] at hcases
      obtain ⟨hkeeps, hnew⟩ := hcases
      have hold := h.of_keeps hkeeps hguard
      refine ⟨hold.tombed, ?_⟩
      intro v hv hqueued
      rcases List.mem_append.mp hv with hv | hv
      · exact hold.queued v hv hqueued
      · rw [List.mem_singleton.mp hv] at hqueued ⊢
        exact hnew hqueued
  | tombstone i =>
    simp only [tombStep] at hstep
    split at hstep <;> cases hstep
    rename_i call heq
    refine ⟨?_, ?_⟩
    · intro p hp
      rcases Finset.mem_insert.mp hp with rfl | hp
      · exact h.queued _ (List.mem_of_getElem? heq) rfl
      · exact h.tombed p hp
    · intro u hu hqueued
      rcases List.mem_or_eq_of_mem_set hu with hu | rfl
      · exact h.queued u hu hqueued
      · cases hqueued
  | finish i =>
    simp only [tombStep] at hstep
    split at hstep <;> cases hstep
    rename_i call heq
    have hkeeps := @keepsDeletes_unlinkLocal True cfg s.fs call
    refine ⟨hkeeps.tombed h.tombed, ?_⟩
    intro u hu hqueued
    exact hkeeps.jobs trivial _ (h.queued u (List.mem_of_mem_eraseIdx hu) hqueued)
  | create parent name env =>
    cases hstep
    exact h.of_clear (keepsDeletes_create cfg s.fs parent name env) hguard
  | createExcl parent name env =>
    cases hstep
    by_cases hexcl : cfg.writeWithIfNotExists = true
    · exact h.of_keeps (keepsDeletes_createExcl hexcl s.fs parent name env) (.inl rfl)
    · simp only [KeepsTombstones, hexcl] at hguard
      rw [createExcl_of_plain _ _ _ env hexcl]
      exact h.of_clear (keepsDeletes_create cfg s.fs parent name env) hguard
  | mkdir parent name env =>
    cases hstep
    exact h.of_clear (keepsDeletes_mkdir s.fs parent name env) hguard
  | symlink parent name target now =>
    cases hstep
    exact h.of_keeps (keepsDeletes_symlink cfg s.fs parent name target now) (.inl rfl)
  | rename parent name newparent newname env =>
    cases hstep
    exact h.of_keeps (keepsDeletes_doRename cfg s.fs _ _ env) hguard.1
  | pump l =>
    obtain ⟨fs', hpump, rfl⟩ := Option.map_eq_some_iff.mp hstep
    refine ⟨h.tombed.pumpStep hpump, ?_⟩
    intro u hu hqueued
    rcases (tombs_pumpStep hpump).2 _ (h.queued u hu hqueued) with hkept | ⟨-, job, hjob, hpath⟩
    · exact hkept
    · exact absurd hpath.symm (hguard job hjob u hu hqueued)

theorem makes_not_tombstoned {cfg : Config} {t : UnlinkSys} {l : TombLabel} {p : Path}
    (h : s.Sound) (hguard : KeepsTombstones cfg s l) (hstep : tombStep cfg l s = some t)
    (hmakes : makes cfg s.fs l = some p) : p ∉ t.fs.deleteTombstones := by
  cases l with
  | unlink | tombstone | finish | pump => cases hmakes
  | create parent name env =>
    cases hstep
    obtain ⟨-, -, rfl⟩ := Option.map_eq_some_iff.mp hmakes
    exact h.notMem_of_clear (keepsDeletes_create cfg s.fs parent name env)
  | createExcl parent name env =>
    cases hstep
    obtain ⟨-, -, rfl⟩ := Option.map_eq_some_iff.mp hmakes
    by_cases hexcl : cfg.writeWithIfNotExists = true
    · simp only [KeepsTombstones, hexcl, if_true] at hguard
      exact notMem_of_keeps (@keepsDeletes_createExcl True cfg hexcl s.fs parent name env) hguard
    · rw [createExcl_of_plain _ _ _ env hexcl]
      exact h.notMem_of_clear (keepsDeletes_create cfg s.fs parent name env)
  | mkdir parent name env =>
    cases hstep
    obtain ⟨-, -, rfl⟩ := Option.map_eq_some_iff.mp hmakes
    exact h.notMem_of_clear (keepsDeletes_mkdir s.fs parent name env)
  | symlink parent name target now =>
    cases hstep
    obtain ⟨-, -, rfl⟩ := Option.map_eq_some_iff.mp hmakes
    exact notMem_of_keeps (@keepsDeletes_symlink True cfg s.fs parent name target now) hguard
  | rename parent name newparent newname env =>
    cases hstep
    obtain ⟨-, -, rfl⟩ := Option.map_eq_some_iff.mp hmakes
    exact notMem_of_keeps (keepsDeletes_doRename cfg s.fs _ _ env) hguard.2

/-- In every run in which nothing resolves or cancels the job of an unlink before its tombstone,
and no call that clears no tombstone makes a path that has one: when no job is left no tombstone
is, and a path that was just made has none. -/
theorem tombstones_of_run {cfg : Config} {backend : Path → Option Bytes} {disk : Disk}
    {deleter : Option ConcurrentDeleter} {s : UnlinkSys}
    (hrun : GuardedRun (tombStep cfg) (KeepsTombstones cfg)
      ⟨{ MntrsFs.mounted backend disk with concurrentDeleter := deleter }, []⟩ s) :
    (s.fs.jobPaths = [] → s.fs.deleteTombstones = ∅) ∧
      ∀ l t p, KeepsTombstones cfg s l → tombStep cfg l s = some t → makes cfg s.fs l = some p →
        p ∉ t.fs.deleteTombstones := by
  have hsound : s.Sound := hrun.invariant UnlinkSys.Sound
    (fun _ _ _ h hguard hstep ↦ h.step hguard hstep)
    ⟨fun p hp ↦ absurd hp (Finset.notMem_empty p), fun u hu ↦ by cases hu⟩
  constructor
  · intro hjobs
    rw [Finset.eq_empty_iff_forall_notMem]
    intro p hp
    have hjob := hsound.tombed p hp
    rw [hjobs] at hjob
    cases hjob
  · intro l t p hguard hstep hmakes
    exact makes_not_tombstoned hsound hguard hstep hmakes

/-- A mount of one object, with a deleter of one slot. -/
def oneDeleted : UnlinkSys :=
  ⟨{ MntrsFs.mounted (Function.update (fun _ ↦ none) ['a'] (some [1])) .empty with
    concurrentDeleter := some (.spawn 1) }, []⟩

/-- The slot deletes the one job, from the drain to the outcome. -/
def pumpJob : List TombLabel :=
  [.pop, .delete true false, .record, .pop, .take, .close true, .resolve].map (.pump ⟨0, ·⟩)

/-- An unlink, its tombstone, its delete: the tombstone goes with the job. -/
theorem tombstones_of_run_sample :
    ∃ s, exec (tombStep (.plain .off))
        (.unlink 1 ['a'] .ok :: .tombstone 0 :: .finish 0 :: pumpJob) oneDeleted = some s ∧
      s.fs.backend ['a'] = none ∧ s.fs.deleteTombstones = ∅ := by
  have hexec : ∃ s, exec (tombStep (.plain .off))
      (.unlink 1 ['a'] .ok :: .tombstone 0 :: .finish 0 :: pumpJob) oneDeleted = some s ∧
      s.fs.backend ['a'] = none ∧ s.fs.jobPaths = [] := ⟨_, rfl, rfl, rfl⟩
  obtain ⟨s, hexec, hgone, hjobs⟩ := hexec
  have hrun : GuardedRun (tombStep (.plain .off)) (KeepsTombstones (.plain .off)) oneDeleted s :=
    guardedRun_of_exec hexec (by decide)
  exact ⟨s, hexec, hgone, (tombstones_of_run hrun).1 hjobs⟩

/-- The exclusive create of a path whose delete is pending returns `Ok` and leaves the tombstone;
so do a symlink and a rename. A job that is resolved before its tombstone leaves a tombstone
without job. -/
theorem tombstones_left_over :
    (∃ s t, exec (tombStep { Config.plain .off with writeWithIfNotExists := true })
        [.unlink 1 ['a'] .ok, .tombstone 0, .finish 0] oneDeleted = some s ∧
      makes { Config.plain .off with writeWithIfNotExists := true } s.fs
        (.createExcl 1 ['a'] (.ok 0)) = some ['a'] ∧
      tombStep { Config.plain .off with writeWithIfNotExists := true }
        (.createExcl 1 ['a'] (.ok 0)) s = some t ∧ ['a'] ∈ t.fs.deleteTombstones) ∧
    (∃ s t, exec (tombStep (.plain .off))
        [.unlink 1 ['a'] .ok, .tombstone 0, .finish 0] oneDeleted = some s ∧
      makes (.plain .off) s.fs (.symlink 1 ['a'] ['b'] 0) = some ['a'] ∧
      tombStep (.plain .off) (.symlink 1 ['a'] ['b'] 0) s = some t ∧
      ['a'] ∈ t.fs.deleteTombstones) ∧
    (∃ s t, exec (tombStep (.plain .off))
        [.unlink 1 ['a'] .ok, .tombstone 0, .finish 0, .create 1 ['b'] (.ok 0)] oneDeleted =
          some s ∧
      makes (.plain .off) s.fs (.rename 1 ['b'] 1 ['a'] .ok) = some ['a'] ∧
      tombStep (.plain .off) (.rename 1 ['b'] 1 ['a'] .ok) s = some t ∧
      ['a'] ∈ t.fs.deleteTombstones) ∧
    ∃ s, exec (tombStep (.plain .off))
        ((.unlink 1 ['a'] .ok :: pumpJob : List TombLabel) ++ ([.tombstone 0] : List TombLabel))
        oneDeleted = some s ∧ s.fs.jobPaths = [] ∧ ['a'] ∈ s.fs.deleteTombstones :=
  ⟨⟨_, _, rfl, rfl, rfl, by decide⟩, ⟨_, _, rfl, rfl, rfl, by decide⟩,
    ⟨_, _, rfl, rfl, rfl, by decide⟩, _, rfl, rfl, by decide⟩

end Mntrs

import Mntrs.Fs.WriteContents
import Mntrs.System
import Mntrs.Writeback.Protocol

/-!
# The machine runs the protocol of a path

`pathView` projects the machine to one path. A step of the machine is a move of the path's
protocol when it belongs to the path and meets the conditions of `Careful`; every other step is
taken to leave the path's view alone.
-/

namespace Mntrs

open Base

variable {due : Bool} {cfg : Config} {fh : Fh} {ino : Ino} {l : Label} {fs : MntrsFs} {i : Nat}
  {p : Path} {env : SyncEnv} {s : Sys} {u : Upload} {c : WriteCall}

namespace Call

/-- The path a write, flush or release works on. -/
def path? : Call → Option Path
  | .idle | .unlinkLocal _ => none
  | .writeBuffer c | .writeTouch c | .writeSend c _ | .writeFinish c => some c.path
  | .flushSidecar c | .flushSend c | .flushClean c _ => some c.path
  | .releaseSidecar c | .releaseSend c | .releaseDrop c => some c.path

/-- Where the request stands. A flush that could not hand over leaves everything as it is. -/
def phase : Call → Phase
  | .idle | .unlinkLocal _ => .rest
  | .writeBuffer _ => .writing
  | .writeTouch c | .writeSend c _ | .writeFinish c => .written c.fh
  | .flushSidecar c => .syncing c.shouldEnqueue
  | .flushSend c => .marked c.shouldEnqueue
  | .flushClean _ handed => if handed then .synced else .rest
  | .releaseSidecar c => .syncing c.sidecarDue
  | .releaseSend c => .marked c.sidecarDue
  | .releaseDrop _ => .synced

/-- The bytes a flush or release carries with its task. -/
def payload : Call → Option Bytes
  | .flushSidecar c | .flushSend c => c.payload
  | .releaseSidecar c | .releaseSend c => c.payload
  | _ => none

/-- A write whose bytes are in its buffer. -/
def inBuffer : Call → Option WriteCall
  | .writeTouch c | .writeSend c _ | .writeFinish c => some c
  | _ => none

/-- The request, if it works on the path. -/
def onPath (p : Path) (call : Call) : Call := if call.path? = some p then call else .idle

@[simp] theorem phase_idle : Call.idle.phase = .rest := rfl
@[simp] theorem payload_idle : Call.idle.payload = none := rfl
@[simp] theorem inBuffer_idle : Call.idle.inBuffer = none := rfl

end Call

/-- The contents the last successful write of a path left. -/
def latestBytes (p : Path) (s : Sys) : Option Bytes :=
  match (s.call.onPath p).inBuffer with
  | some c => bufferContents s.fs c
  | none => s.written p

/-- The state of one path. -/
def pathView (cfg : Config) (p : Path) (s : Sys) : PathView where
  bytes := s.fs.cacheFile cfg p
  sidecar := s.fs.disk.dirty (cfg.writeBufferPath p)
  object := s.fs.backend p
  registered := decide (p ∈ s.fs.writeback.pending)
  waiting := s.fs.writeback.waiting WritebackTask.remotePath p
  uploads := s.fs.writeback.jobs (·.task.remotePath) p
  handles fh := (s.fs.handles.lookup fh).filter (·.path = p)
  phase := (s.call.onPath p).phase
  payload := (s.call.onPath p).payload
  latest := latestBytes p s
  ready := s.fs.writebackSender && s.fs.receiverAlive
  offMode := s.fs.offModeBuffers p

/-- The step belongs to the path: a write, flush or release of one of its handles, or a step of
the worker on one of its tasks. -/
def OwnStep (p : Path) (s : Sys) : Label → Prop
  | .write _ fh _ _ _ | .flush _ fh _ | .release _ fh _ =>
    (s.fs.handles.lookup fh).map FileHandleState.path = some p
  | .fuse => s.call.path? = some p
  | .recv => s.fs.writeback.chan.head?.map WritebackTask.remotePath = some p
  | .dequeue i => s.fs.writeback.queue[i]?.map WritebackTask.remotePath = some p
  | .attempt i _ | .upload i => s.fs.writeback.running[i]?.map (·.task.remotePath) = some p
  | .dropBlocks => True
  | _ => False

/-- The handle of a request is a write handle of its path. -/
def openForWrite (fs : MntrsFs) (fh : Fh) (p : Path) : Bool :=
  match fs.handles.lookup fh with
  | some (.write h) => h.path = p
  | _ => false

/-- The write goes through an open descriptor of the file its cache name links. -/
def ThroughCacheFile (cfg : Config) (fs : MntrsFs) (c : WriteCall) : Prop :=
  c.fd.isSome = true ∧ fs.disk.whole (cfg.writeBufferPath c.path) = c.fd ∧
    openForWrite fs c.fh c.path = true

/-- The eviction a write ends with finds no capacity pressure, and the cache file of the path
not expired. -/
def SparedByEviction (cfg : Config) (fs : MntrsFs) (c : WriteCall) : Prop :=
  pressure cfg c.env.free (touchIndex fs c.path (c.offset + c.data.length) c.env.now) = 0 ∧
    isCacheFileExpired cfg.cacheMaxAge c.env.now (cacheFileMtime cfg fs.disk (c.path, none)) =
      false

/-- The conditions on the progress of a request: writes go through the linked cache file and are
not cut short, eviction spares the file, and the rest is up to the discipline. -/
def CarefulCall (cfg : Config) (d : Discipline) (fs : MntrsFs) (v : PathView) : Call → Prop
  | .writeBuffer c => ThroughCacheFile cfg fs c ∧ c.env.dataCut = none
  | .writeFinish c => SparedByEviction cfg fs c
  | .flushSidecar c => d.mark c.sidecarFails
  | .releaseSidecar c => d.mark c.sidecarFails
  | .flushSend _ | .releaseSend _ => d.handOver v
  | .idle | .writeTouch _ | .writeSend _ _ | .flushClean _ _ | .releaseDrop _ | .unlinkLocal _ =>
    True

/-- The conditions on an upload past its put: it removes the cache file only with the bytes it
put, and the sidecar as the discipline has it. -/
def CarefulUpload (d : Discipline) (v : PathView) (u : Upload) : Prop :=
  (u.stage = .removeSidecar → d.dropSidecar v u) ∧ (u.stage = .removeCache → SafeToDrop v u)

/-- The conditions on the steps of a path. -/
def Careful (cfg : Config) (p : Path) (d : Discipline) (s : Sys) : Label → Prop
  | .fuse => CarefulCall cfg d s.fs (pathView cfg p s) s.call
  | .attempt _ outcome => d.put outcome
  | .upload i => ∀ u ∈ s.fs.writeback.running[i]?, CarefulUpload d (pathView cfg p s) u
  | _ => True

/-- A step of a path's run: its own and careful, or one that leaves the path alone. -/
def Obeys (cfg : Config) (p : Path) (d : Discipline) (s : Sys) (l : Label) : Prop :=
  (OwnStep p s l ∧ Careful cfg p d s l) ∨
    ∀ t, step cfg l s = some t → pathView cfg p t = pathView cfg p s

/-! ### Requests -/

variable {call : Call}

section

variable {d : Discipline} {t : Sys}

theorem whole_writeIndex_of_spared (h : SparedByEviction cfg fs c) :
    (writeIndex cfg fs c).disk.whole (cfg.writeBufferPath c.path) =
      fs.disk.whole (cfg.writeBufferPath c.path) := by
  set n := cfg.writeBufferPath c.path with hn
  have hpool : ∀ jobs, pressure cfg c.env.free
      (touchIndex { fs with diskWritePool := jobs } c.path (c.offset + c.data.length)
        c.env.now) = 0 := fun _ ↦ h.1
  have hevict : ∀ fs' : MntrsFs, fs'.disk = fs.disk → pressure cfg c.env.free fs' = 0 →
      (evictIfNeeded cfg c.env.now c.env.free fs').disk.whole n = fs.disk.whole n := by
    intro fs' hdisk hpressure
    rw [evictIfNeeded_eq, if_pos hpressure, afterAgeSweep]
    split
    · rw [hdisk]
    · rw [ageSweep]
      by_cases hnamed : namesWhole cfg
          ((fs'.diskCacheIndex.entries.map Sigma.fst).filter
            (ageRemovable cfg c.env.now fs'.disk)) n
      · rw [(whole_removeCacheEntries cfg fs' _ n).1 hnamed]
        obtain ⟨q, hq, hname⟩ := hnamed
        have hage := (List.mem_filter.mp hq).2
        rw [hdisk] at hage
        -- a key that names the file is taken only because the file is gone
        cases hwhole : fs.disk.whole n with
        | none => rfl
        | some f =>
          have hexpired := h.2
          simp only [cacheFileMtime, ← hn, hwhole, Option.map_some] at hexpired
          simp [ageRemovable, cacheFileExists, cacheFileMtime, hname, hwhole, hexpired] at hage
      · rw [(whole_removeCacheEntries cfg fs' _ n).2 hnamed, hdisk]
  unfold writeIndex
  rw [whole_invalidateBlocks]
  cases c.fd with
  | none => exact hevict _ rfl (hpool _)
  | some f => exact hevict _ rfl h.1

/-- The view of a request that works on the path. -/
theorem onPath_of_eq (h : call.path? = some p) : call.onPath p = call := if_pos h

theorem onPath_of_call (hcall : s.call = call) (h : call.path? = some p) :
    s.call.onPath p = call := by rw [hcall, onPath_of_eq h]

@[simp] theorem onPath_idle : Call.idle.onPath p = .idle := by
  unfold Call.onPath
  split <;> rfl

/-- The machine makes a move of the path's protocol. -/
abbrev PathMoves (cfg : Config) (p : Path) (d : Discipline) (s t : Sys) : Prop :=
  PathStep d p (cfg.writeBufferPath p) (pathView cfg p s) (pathView cfg p t)

private theorem pathMoves_of_view {v : PathView}
    (h : PathStep d p (cfg.writeBufferPath p) (pathView cfg p s) v) (hview : pathView cfg p t = v) :
    PathMoves cfg p d s t := by
  rw [PathMoves, hview]
  exact h

/-- A write's call works on the path of its handle. -/
theorem path_of_writeBegin {offset : Nat} {data : Bytes} {env : WriteEnv}
    (h : writeBegin cfg fs ino fh offset data env = .inr c) :
    (fs.handles.lookup fh).map FileHandleState.path = some c.path := by
  obtain ⟨path, fd, gap, htarget, rfl⟩ := writeBegin_inr h
  obtain ⟨state, hstate, hpath, -⟩ := writeTarget_some htarget
  rw [hstate, Option.map_some, hpath]

private theorem sim_write {offset : Nat} {data : Bytes} {env : WriteEnv}
    (hdirect : cfg.directIo = false) (hidle : s.call = .idle)
    (hown : (s.fs.handles.lookup fh).map FileHandleState.path = some p)
    (hstep : startCall cfg s (.write ino fh offset data env) = some t) :
    PathMoves cfg p d s t := by
  simp only [startCall] at hstep
  split at hstep
  · next hbegin =>
    obtain ⟨backend, hfs, hsame⟩ := writeBegin_frame hbegin
    cases hstep
    rw [hsame hdirect] at hfs
    subst hfs
    exact pathMoves_of_view (.stay _) rfl
  · next c hbegin =>
    cases hstep
    have hpath : c.path = p := Option.some.inj ((path_of_writeBegin hbegin).symm.trans hown)
    refine pathMoves_of_view (.writeStart _ (by simp [pathView, hidle])) ?_
    simp [pathView, latestBytes, hidle, Call.onPath, Call.path?, hpath, Call.phase,
      Call.payload, Call.inBuffer]

theorem flushBegin_inr {c : FlushCall} (hmode : cfg.cacheMode.diskWriteBuffer)
    (h : flushBegin cfg fs ino fh env = .inr c) :
    (fs.handles.lookup fh).map FileHandleState.path = some c.path ∧ c.payload = none ∧
      c.shouldEnqueue = fs.disk.exists? (cfg.writeBufferPath c.path) := by
  obtain ⟨w, hw, rfl⟩ := flushBegin_call h
  simp [hw, FileHandleState.path, inMemoryPayload, hmode]

theorem releaseBegin_inr {c : ReleaseCall} (hmode : cfg.cacheMode.diskWriteBuffer)
    (h : releaseBegin cfg fs ino fh env = .inr c) :
    (fs.handles.lookup fh).map FileHandleState.path = some c.path ∧ c.payload = none ∧
      c.sidecarDue = fs.disk.exists? (cfg.writeBufferPath c.path) := by
  obtain ⟨w, hw, rfl⟩ := releaseBegin_call h
  simp [hw, FileHandleState.path, inMemoryPayload, hmode]

/-- Releasing a clean handle keeps the dirty ones. -/
theorem dirty_releaseDrop (hclean : releaseBegin cfg fs ino fh env = .inl (.ok ())) {fh' : Fh}
    {h : FileHandleState} (hh : fs.handles.lookup fh' = some h) (hdirty : h.isDirty) :
    (releaseDrop cfg fs fh false env.now).handles.lookup fh' = some h := by
  have hne : fh' ≠ fh := by
    rintro rfl
    cases h with
    | read r => cases hdirty
    | write w =>
      have hw : w.dirty = true := hdirty
      simp only [releaseBegin, hh, hw, if_true] at hclean
      split at hclean <;> cases hclean
  unfold releaseDrop
  split
  · split
    · rw [AList.lookup_insert_ne hne, hh]
    · rw [AList.lookup_erase_ne hne, hh]
  · rw [AList.lookup_erase_ne hne, hh]

private theorem sim_settled {handles : Table Fh FileHandleState}
    (hphase : (pathView cfg p s).phase = .synced) (hpayload : (s.call.onPath p).payload = none)
    (hbuffer : (s.call.onPath p).inBuffer = none) (hfs : fs = { s.fs with handles   := handles }) :
    PathMoves cfg p d s { s with fs := fs, call := .idle } := by
  refine pathMoves_of_view (.settled _ (fun fh ↦ (handles.lookup fh).filter (·.path = p)) hphase) ?_
  subst hfs
  simp [pathView, latestBytes, MntrsFs.cacheFile, hpayload, hbuffer]

private theorem sim_syncStart (hidle : s.call = .idle) (hpath : call.path? = some p)
    (hphase : call.phase = .syncing due) (hpayload : call.payload = none)
    (hbuffer : call.inBuffer = none) (hdue : due = s.fs.disk.exists? (cfg.writeBufferPath p)) :
    PathMoves cfg p d s { s with call := call } := by
  refine pathMoves_of_view (.syncStart _ due (by simp [pathView, hidle]) ?_) ?_
  · intro hfalse
    rw [hfalse] at hdue
    simpa [pathView, MntrsFs.cacheFile, Disk.read, Disk.exists?] using hdue
  · simp [pathView, latestBytes, hidle, onPath_of_eq hpath, hphase, hpayload, hbuffer]

private theorem sim_flush (hmode : cfg.cacheMode.diskWriteBuffer) (hidle : s.call = .idle)
    (hown : (s.fs.handles.lookup fh).map FileHandleState.path = some p)
    (hstep : startCall cfg s (.flush ino fh env) = some t) :
    PathMoves cfg p d s t := by
  simp only [startCall] at hstep
  split at hstep
  · cases hstep
    exact .stay _
  · next c hbegin =>
    cases hstep
    obtain ⟨hpath, hpayload, hdue⟩ := flushBegin_inr hmode hbegin
    obtain rfl : c.path = p := Option.some.inj (hpath.symm.trans hown)
    exact sim_syncStart hidle rfl rfl hpayload rfl hdue

private theorem sim_release (hmode : cfg.cacheMode.diskWriteBuffer) (hidle : s.call = .idle)
    (hown : (s.fs.handles.lookup fh).map FileHandleState.path = some p)
    (hstep : startCall cfg s (.release ino fh env) = some t) :
    PathMoves cfg p d s t := by
  simp only [startCall] at hstep
  split at hstep
  · cases hstep
    exact .stay _
  · next hbegin =>
    cases hstep
    refine pathMoves_of_view (.released _
      (fun fh' ↦ ((releaseDrop cfg s.fs fh false env.now).handles.lookup fh').filter (·.path = p))
      (by simp [pathView, hidle]) ?_) ?_
    · intro fh' h hh hdirty
      obtain ⟨hlookup, hpath⟩ := Option.filter_eq_some_iff.mp hh
      rw [dirty_releaseDrop hbegin hlookup hdirty]
      exact Option.filter_eq_some_iff.mpr ⟨rfl, hpath⟩
    · simp only [pathView, latestBytes, hidle, onPath_idle, Call.inBuffer_idle]
      rw [releaseDrop_frame]
      rfl
  · next c hbegin =>
    cases hstep
    obtain ⟨hpath, hpayload, hdue⟩ := releaseBegin_inr hmode hbegin
    obtain rfl : c.path = p := Option.some.inj (hpath.symm.trans hown)
    exact sim_syncStart hidle rfl rfl hpayload rfl hdue

/-! ### The progress of a request -/

/-- A hand-over with the worker running submits the task, or finds the path registered. -/
theorem pathView_enqueueWriteback {task : WritebackTask} (hready : (pathView cfg p s).ready)
    (htask : task.remotePath = p) :
    (enqueueWriteback s.fs p task).1 = true ∧
      pathView cfg p { s with fs := (enqueueWriteback s.fs p task).2 } =
        (pathView cfg p s).enqueue task := by
  obtain ⟨hsender, halive⟩ := Bool.and_eq_true_iff.mp hready
  unfold enqueueWriteback PathView.enqueue
  rw [if_pos hsender]
  by_cases hp : p ∈ s.fs.writeback.pending
  · simp [pathView, hp]
  · have hwaiting := DedupQueue.waiting_post s.fs.writeback htask
    have hpost : s.fs.writeback.submit p task =
        { s.fs.writeback.post task with pending := insert p s.fs.writeback.pending } := if_neg hp
    rw [if_neg hp, if_pos halive, hpost]
    refine ⟨rfl, ?_⟩
    simp only [pathView, hp, decide_false, Bool.false_eq_true, if_false,
      Finset.mem_insert_self, decide_true]
    rw [← hwaiting]
    rfl

private theorem taskFor_writebackTask (cfg : Config) (ino : Ino) (p : Path) :
    TaskFor (cfg.writeBufferPath p) (writebackTask cfg ino p none) := ⟨rfl, rfl⟩

/-- A descriptor branch that fails without cutting the data short leaves the contents. -/
theorem writeFile_error {f : FileId} {e : IoError} (hcut : c.env.dataCut = none)
    (herr : (writeFile fs f c).1 = .error e) :
    (writeFile fs f c).2 =
      { fs with disk := fs.disk.setData f (fs.disk.data f) c.env.now } := by
  unfold writeFile at herr ⊢
  simp only [hcut] at herr ⊢
  split
  · rfl
  · next hgap => simp [hgap] at herr

private theorem sim_writeBuffer (hmode : cfg.cacheMode.diskWriteBuffer)
    (hcall : s.call = .writeBuffer c) (hown : c.path = p) (hthrough : ThroughCacheFile cfg s.fs c)
    (hcut : c.env.dataCut = none) (hstep : continueCall cfg s = some t) :
    PathMoves cfg p d s t := by
  subst hown
  obtain ⟨hfd, hlinked, hopen⟩ := hthrough
  obtain ⟨f, hf⟩ := Option.isSome_iff_exists.mp hfd
  rw [hf] at hlinked
  have hon := onPath_of_call hcall rfl
  have hbuffer : writeBuffer cfg s.fs c = writeFile s.fs f c := by simp [writeBuffer, hmode, hf]
  have hphase : (pathView cfg c.path s).phase = .writing := by simp [pathView, hon, Call.phase]
  simp only [continueCall, hcall, hbuffer] at hstep
  split at hstep
  · next e fs hfile =>
    cases hstep
    have hfs := writeFile_error hcut (show (writeFile s.fs f c).1 = .error e by rw [hfile])
    rw [hfile] at hfs
    refine pathMoves_of_view (.writeFailed _ hphase) ?_
    subst hfs
    simp [pathView, latestBytes, hon, MntrsFs.cacheFile, Disk.read, Disk.setData, hlinked,
      Call.payload, Call.inBuffer]
  · next fs hfile =>
    cases hstep
    have hfs := writeFile_ok (show (writeFile s.fs f c).1 = .ok () by rw [hfile])
    rw [hfile] at hfs
    set w := fileAfter (s.fs.disk.data f) c.gap c.offset c.data with hw
    have hon' : (Call.writeTouch c).onPath c.path = .writeTouch c := onPath_of_eq rfl
    unfold openForWrite at hopen
    split at hopen
    · next h hh =>
      refine pathMoves_of_view (.buffered _ c.fh h w hphase ?_ ?_) ?_
      · simp [pathView, hh, FileHandleState.path, of_decide_eq_true hopen]
      · simp [pathView, MntrsFs.cacheFile, Disk.read, hlinked]
      · subst hfs
        simp [pathView, latestBytes, hon, hon', MntrsFs.cacheFile, Disk.read, Disk.setData,
          hlinked, Call.phase, Call.payload, Call.inBuffer, bufferContents, hf]
    · cases hopen

private theorem sim_marked {call' : Call} {failed : Bool} (hon : s.call.onPath p = call)
    (hon' : call'.onPath p = call') (hphase : call.phase = .syncing due)
    (hphase' : call'.phase = .marked due) (hpayload : call'.payload = call.payload)
    (hbuffer : call.inBuffer = none) (hbuffer' : call'.inBuffer = none) (hmark : d.mark failed)
    (hfs : fs = if due && !failed then
        { s.fs with disk   := s.fs.disk.writeDirty (cfg.writeBufferPath p) p } else s.fs) :
    PathMoves cfg p d s { s with fs := fs, call := call' } := by
  refine pathMoves_of_view (.marked _ due failed (by simp [pathView, hon, hphase]) hmark) ?_
  split <;>
    simp_all [pathView, latestBytes, MntrsFs.cacheFile, Disk.read, Disk.writeDirty]

/-- The uploads of the path other than the one at a position. -/
def others (p : Path) (fs : MntrsFs) (i : Nat) : Multiset Upload :=
  (fs.writeback.retire i).jobs (fun u : Upload ↦ u.task.remotePath) p

private theorem uploads_eq (hu : s.fs.writeback.running[i]? = some u)
    (hpath : u.task.remotePath = p) : (pathView cfg p s).uploads = u ::ₘ others p s.fs i :=
  DedupQueue.jobs_retire _ hu hpath

/-- An upload of the path that goes on to another stage. -/
theorem jobs_advance_stage (stage : UploadStage) (hu : s.fs.writeback.running[i]? = some u)
    (hpath : u.task.remotePath = p) : (s.fs.writeback.advance i { u with stage := stage }).jobs
      (fun u : Upload ↦ u.task.remotePath) p = { u with stage := stage } ::ₘ others p s.fs i :=
  DedupQueue.jobs_advance _ hu hpath

private theorem pathView_putFailed (cfg : Config) (s : Sys) (hpath : u.task.remotePath = p)
    (reached : Bool) : pathView cfg p { s with fs := putFailed s.fs u reached } =
      (pathView cfg p s).putting u reached := by
  subst hpath
  cases reached
  · rfl
  · simp only [pathView, putFailed, putLanded, PathView.putting, if_true, Function.update_self]
    rfl

private theorem pathView_dropBlocks (hstep : workerDropBlocks cfg s.fs = some fs) :
    pathView cfg p { s with fs := fs } = pathView cfg p s := by
  unfold workerDropBlocks at hstep
  split at hstep <;> cases hstep
  rename_i q rest hdrops
  set keys := (s.fs.diskCacheIndex.entries.map Sigma.fst).filter
    (fun k ↦ decide (k.1 = q ∧ k.2.isSome)) with hkeys
  have hblocks : ∀ n, ¬ namesWhole cfg keys n := by
    rintro n ⟨p', hp', -⟩
    simp [hkeys] at hp'
  have hdrop : dropBlockCacheForPath cfg { s.fs with blockDrops := rest } q =
      removeCacheEntries cfg { s.fs with blockDrops := rest } keys := rfl
  have hbytes : (removeCacheEntries cfg { s.fs with blockDrops := rest } keys).cacheFile cfg p =
      s.fs.cacheFile cfg p := by
    simp [MntrsFs.cacheFile, Disk.read, data_removeCacheEntries,
      (whole_removeCacheEntries cfg _ keys _).2 (hblocks _)]
  have hlatest : latestBytes p
      { s with fs := removeCacheEntries cfg { s.fs with blockDrops := rest } keys } =
      latestBytes p s := by
    have hbuffer : ∀ c, bufferContents
        (removeCacheEntries cfg { s.fs with blockDrops := rest } keys) c =
        bufferContents s.fs c := by
      intro c
      simp only [bufferContents, data_removeCacheEntries]
      rw [removeCacheEntries_frame]
      rfl
    simp [latestBytes, hbuffer]
  rw [hdrop]
  simp only [pathView, hbytes, hlatest, dirty_removeCacheEntries]
  rw [removeCacheEntries_frame]

section

variable (hsound : Sound (cfg.writeBufferPath p) (pathView cfg p s))
include hsound

private theorem sim_writeSend {present : Bool} (hcall : s.call = .writeSend c present)
    (hown : c.path = p) (hstep : continueCall cfg s = some t) : PathMoves cfg p d s t := by
  subst hown
  have hon := onPath_of_call hcall rfl
  have hon' : (Call.writeFinish c).onPath c.path = .writeFinish c := onPath_of_eq rfl
  have hphase : (pathView cfg c.path s).phase = .written c.fh := by simp [pathView, hon, Call.phase]
  simp only [continueCall, hcall] at hstep
  cases hstep
  -- the next cut of the write is in the same phase
  have hview : ∀ fs : MntrsFs, pathView cfg c.path { s with fs := fs, call := .writeFinish c } =
      pathView cfg c.path { s with fs := fs } := by
    intro fs
    simp [pathView, latestBytes, hon, hon', Call.phase, Call.payload, Call.inBuffer]
  rw [PathMoves, hview, writeSend]
  split
  · rw [(pathView_enqueueWriteback hsound.ready rfl).2]
    exact .offered _ c.fh _ hphase (taskFor_writebackTask cfg c.ino c.path)
  · exact .stay _

private theorem sim_writeFinish (hcall : s.call = .writeFinish c) (hown : c.path = p)
    (hspared : SparedByEviction cfg s.fs c) (hstep : continueCall cfg s = some t) :
    PathMoves cfg p d s t := by
  subst hown
  have hon := onPath_of_call hcall rfl
  have hphase : (pathView cfg c.path s).phase = .written c.fh := by simp [pathView, hon, Call.phase]
  obtain ⟨h, hh⟩ := hsound.handle c.fh hphase
  obtain ⟨hlookup, hpath⟩ := Option.filter_eq_some_iff.mp hh
  have hlookup' : (writeIndex cfg s.fs c).handles.lookup c.fh = some (.write h) := by
    rw [writeIndex_frame, hlookup]
  have hwhole := whole_writeIndex_of_spared hspared
  simp only [continueCall, hcall] at hstep
  cases hstep
  set h' : WriteHandle :=
    { h with dirty := true, dirtySince := some c.env.now, lastWriteAt := some c.env.now } with hh'
  refine pathMoves_of_view (.finished _ c.fh h' hphase rfl) ?_
  rw [writeFinish, markDirty_of_write hlookup']
  ext1
  case bytes => simp [pathView, MntrsFs.cacheFile, Disk.read, hwhole]
  case sidecar | phase => simp [pathView]
  case handles =>
    funext fh
    by_cases hfh : fh = c.fh
    · subst hfh
      have hpath' : h.path = c.path := of_decide_eq_true hpath
      simp [pathView, FileHandleState.path, hh', hpath']
    · simp only [pathView, AList.lookup_insert_ne hfh, Function.update_of_ne hfh]
      rw [writeIndex_frame]
  case payload => simp [pathView, hon, Call.payload]
  case latest => simp [pathView, latestBytes, hon, Call.inBuffer]
  all_goals
    simp only [pathView]
    rw [writeIndex_frame]

private theorem sim_handedOver {call' : Call} (sends : Bool) (ino : Ino)
    (hon : s.call.onPath p = call) (hon' : call'.onPath p = call')
    (hphase : call.phase = .marked due) (hphase' : call'.phase = .synced)
    (hpayload : call'.payload = none) (hbuffer : call.inBuffer = none)
    (hbuffer' : call'.inBuffer = none) (hover : d.handOver (pathView cfg p s))
    (hsends : sends = false → (pathView cfg p s).bytes = none)
    (hfs : fs = if sends then (enqueueWriteback s.fs p (writebackTask cfg ino p none)).2
      else s.fs) : PathMoves cfg p d s { s with fs := fs, call := call' } := by
  have hnone : call.payload = none := by
    have h := hsound.payload
    simpa [pathView, hon] using h
  have hcall : pathView cfg p { s with fs := fs, call := call' } =
      { pathView cfg p { s with fs := fs } with phase := .synced } := by
    simp [pathView, latestBytes, hon, hon', hphase', hpayload, hbuffer, hbuffer', hnone]
  have hview : pathView cfg p { s with fs := fs } =
      if sends then (pathView cfg p s).enqueue (writebackTask cfg ino p none)
      else pathView cfg p s := by
    subst hfs
    split
    · exact (pathView_enqueueWriteback hsound.ready rfl).2
    · rfl
  rw [PathMoves, hcall, hview]
  exact .handedOver _ due sends _ (by simp [pathView, hon, hphase]) hover hsends
    (taskFor_writebackTask cfg ino p)

private theorem sim_flushSend {c : FlushCall} (hcall : s.call = .flushSend c) (hown : c.path = p)
    (hover : d.handOver (pathView cfg p s)) (hstep : continueCall cfg s = some t) :
    PathMoves cfg p d s t := by
  subst hown
  have hon := onPath_of_call hcall rfl
  have hpayload : c.payload = none := by
    have h := hsound.payload
    simpa [pathView, hon, Call.payload] using h
  have hsent : (flushSend cfg s.fs c).1 = true := by
    unfold flushSend
    split
    · exact (pathView_enqueueWriteback hsound.ready rfl).1
    · rfl
  simp only [continueCall, hcall] at hstep
  cases hstep
  rw [hsent]
  refine sim_handedOver hsound c.shouldEnqueue c.ino hon (onPath_of_eq rfl) rfl rfl rfl rfl rfl
    hover ?_ ?_
  · intro hfalse
    exact hsound.due (.inr (by simp [pathView, hon, Call.phase, hfalse]))
  · unfold flushSend
    rw [hpayload]
    split <;> rfl

private theorem sim_releaseSend {c : ReleaseCall} (hcall : s.call = .releaseSend c)
    (hown : c.path = p) (hover : d.handOver (pathView cfg p s))
    (hstep : continueCall cfg s = some t) : PathMoves cfg p d s t := by
  subst hown
  have hon := onPath_of_call hcall rfl
  have hpayload : c.payload = none := by
    have h := hsound.payload
    simpa [pathView, hon, Call.payload] using h
  simp only [continueCall, hcall] at hstep
  cases hstep
  refine sim_handedOver hsound (s.fs.disk.exists? (cfg.writeBufferPath c.path)) c.ino hon
    (onPath_of_eq rfl) rfl rfl rfl rfl rfl hover ?_ ?_
  · intro hfalse
    simpa [pathView, MntrsFs.cacheFile, Disk.read, Disk.exists?] using hfalse
  · unfold releaseSend
    simp [hpayload]

private theorem sim_fuse (hmode : cfg.cacheMode.diskWriteBuffer) (hown : s.call.path? = some p)
    (hcareful : Careful cfg p d s .fuse) (hstep : continueCall cfg s = some t) :
    PathMoves cfg p d s t := by
  have hon := onPath_of_eq hown
  simp only [Careful] at hcareful
  cases hcall : s.call <;> rw [hcall] at hown hcareful hon <;> cases hown
  case writeBuffer c => exact sim_writeBuffer hmode hcall rfl hcareful.1 hcareful.2 hstep
  case writeSend c present => exact sim_writeSend hsound hcall rfl hstep
  case writeFinish c => exact sim_writeFinish hsound hcall rfl hcareful hstep
  case flushSend c => exact sim_flushSend hsound hcall rfl hcareful hstep
  case releaseSend c => exact sim_releaseSend hsound hcall rfl hcareful hstep
  all_goals
    simp only [continueCall, hcall] at hstep
    cases hstep
  case writeTouch c =>
    have hon' : ∀ b, (Call.writeSend c b).onPath c.path = .writeSend c b :=
      fun b ↦ onPath_of_eq rfl
    refine pathMoves_of_view (.stay _) ?_
    simp only [pathView, latestBytes, hon, hon', hcall]
    rfl
  case flushSidecar c =>
    refine sim_marked (onPath_of_call hcall rfl) (onPath_of_eq rfl) rfl rfl rfl rfl rfl hcareful ?_
    simp [flushSidecar, hmode]
  case flushClean c handed =>
    cases handed with
    | true =>
      exact sim_settled (by simp [pathView, hcall, hon, Call.phase]) (by rw [hcall, hon]; rfl)
        (by rw [hcall, hon]; rfl) (flushClean_frame s.fs c.fh true)
    | false =>
      refine pathMoves_of_view (.stay _) ?_
      simp only [pathView, latestBytes, onPath_idle, hcall, hon]
      rfl
  case releaseSidecar c =>
    refine sim_marked (onPath_of_call hcall rfl) (onPath_of_eq rfl) rfl rfl rfl rfl rfl hcareful ?_
    simp [releaseSidecar]
  case releaseDrop c =>
    exact sim_settled (by simp [pathView, hcall, hon, Call.phase]) (by rw [hcall, hon]; rfl)
      (by rw [hcall, hon]; rfl) (releaseDrop_frame cfg s.fs c.fh true c.now)

/-! ### The worker -/

private theorem sim_dequeue (hown : s.fs.writeback.queue[i]?.map WritebackTask.remotePath = some p)
    (hstep : workerDequeue s.fs i = some fs) : PathMoves cfg p d s { s with fs := fs } := by
  obtain ⟨t, ht, hpath⟩ := Option.map_eq_some_iff.mp hown
  have hwaiting := DedupQueue.waiting_drop ht hpath
  have hfor : TaskFor (cfg.writeBufferPath p) t := by
    refine hsound.waiting t ?_
    simp only [pathView]
    rw [hwaiting]
    exact Multiset.mem_cons_self t _
  have hdata : taskData s.fs t = (pathView cfg p s).bytes := by
    simp [taskData, hfor.payload, hfor.name, pathView, MntrsFs.cacheFile]
  simp only [workerDequeue, ht, hdata] at hstep
  split at hstep
  · next c hbytes =>
    cases hstep
    have hjobs := DedupQueue.jobs_start (fun u : Upload ↦ u.task.remotePath) s.fs.writeback i
      (show (⟨t, c, .attempt 0⟩ : Upload).task.remotePath = p from hpath)
    refine pathMoves_of_view (.dequeued _ t _ c hwaiting hbytes) ?_
    simp only [pathView]
    rw [hjobs]
    rfl
  · next hbytes =>
    cases hstep
    refine pathMoves_of_view (.vanished _ t _ hwaiting hbytes) ?_
    simp only [pathView, hfor.name, Disk.removeDirty, Function.update_self]
    rfl

private theorem sim_attempt {outcome : PutOutcome}
    (hown : s.fs.writeback.running[i]?.map (·.task.remotePath) = some p) (hput : d.put outcome)
    (hstep : uploadAttempt s.fs i outcome = some fs) : PathMoves cfg p d s { s with fs := fs } := by
  obtain ⟨u, k, hu, hstage, heffect⟩ := attempted hstep
  have hpath : u.task.remotePath = p := by simpa [hu] using hown
  have hattempting : u.attempting = true := by simp [Upload.attempting, hstage]
  have huploads : (pathView cfg p s).uploads = u ::ₘ others p s.fs i := uploads_eq hu hpath
  obtain ⟨-, halive⟩ := Bool.and_eq_true_iff.mp hsound.ready
  cases heffect with
  | put =>
    refine pathMoves_of_view (.put _ u _ huploads hattempting hput) ?_
    simp only [pathView, putLanded, hpath, Function.update_self]
    rw [jobs_advance_stage _ hu hpath]
    rfl
  | again reached =>
    refine pathMoves_of_view (.retried _ u _ reached (k + 1) huploads hattempting hput) ?_
    rw [← pathView_putFailed cfg s hpath reached]
    simp only [pathView]
    rw [jobs_advance_stage _ hu hpath, putFailed_frame]
    rfl
  | gaveUp reached =>
    refine pathMoves_of_view (.gaveUp _ u _ reached huploads hattempting hput) ?_
    rw [← pathView_putFailed cfg s hpath reached, hpath]
    simp only [pathView, DedupQueue.cancel, Finset.mem_erase, ne_eq, not_true_eq_false,
      false_and, decide_false]
    rw [putFailed_frame]
    rfl
  | resent reached =>
    have hfor := hsound.uploads u (by rw [huploads]; exact Multiset.mem_cons_self u _)
    set again : WritebackTask := { u.task with retryCycle := u.task.retryCycle + 1 }
    have hwaiting := DedupQueue.waiting_post (s.fs.writeback.retire i)
      (show again.remotePath = p from hpath)
    refine pathMoves_of_view (.resent _ u _ reached again huploads hattempting hput
      ⟨hfor.payload, hfor.name⟩) ?_
    rw [← pathView_putFailed cfg s hpath reached]
    simp only [pathView]
    rw [hwaiting, putFailed_frame]
    rfl
  | lost reached hdead =>
    rw [halive] at hdead
    cases hdead

private theorem sim_upload (hown : s.fs.writeback.running[i]?.map (·.task.remotePath) = some p)
    (hcareful : Careful cfg p d s (.upload i)) (hstep : uploadStep s.fs i = some fs) :
    PathMoves cfg p d s { s with fs := fs } := by
  obtain ⟨u, hu, hpath⟩ := Option.map_eq_some_iff.mp hown
  have huploads : (pathView cfg p s).uploads = u ::ₘ others p s.fs i := uploads_eq hu hpath
  have hfor := hsound.uploads u (by rw [huploads]; exact Multiset.mem_cons_self u _)
  have hcond := hcareful u hu
  simp only [uploadStep, hu, hfor.payload, hfor.name, hpath, Option.isNone_none, if_true,
    Bool.and_true] at hstep
  split at hstep
  · cases hstep
  · next hstage =>
    cases hstep
    refine pathMoves_of_view (.sidecarDropped _ u _ huploads hstage (hcond.1 hstage)) ?_
    simp only [pathView, Disk.removeDirty, Function.update_self]
    rw [jobs_advance_stage _ hu hpath]
    rfl
  · next hstage =>
    cases hstep
    refine pathMoves_of_view (.cacheDropped _ u _ huploads hstage (hcond.2 hstage)) ?_
    simp only [pathView, jobs_advance_stage _ hu hpath]
    by_cases hdel : u.task.deleteCacheOnSuccess = true
    · simp only [hdel, MntrsFs.cacheFile, Disk.read, Disk.removeWhole, if_true,
        Function.update_self, Option.map_none]
      rfl
    · simp only [hdel, Bool.false_eq_true, if_false]
      rfl
  · next hstage =>
    have hmoved : movedOn s.fs u = none := by
      have hoff : s.fs.offModeBuffers p = none := hsound.offMode
      simp [movedOn, hpath, hoff]
    rw [hmoved] at hstep
    cases hstep
    refine pathMoves_of_view (.compared _ u _ huploads hstage) ?_
    simp only [pathView]
    rw [jobs_advance_stage _ hu hpath]
    rfl
  · next hstage =>
    cases hstep
    have hoff : s.fs.offModeBuffers p = none := hsound.offMode
    refine pathMoves_of_view (.bufferDropped _ u _ huploads hstage) ?_
    simp only [pathView, Function.update_self, hoff]
    rw [jobs_advance_stage _ hu hpath]
    rfl
  · next hstage =>
    cases hstep
    refine pathMoves_of_view (.cleared _ u _ huploads hstage) ?_
    simp only [pathView, DedupQueue.cancel, Finset.mem_erase, ne_eq,
      not_true_eq_false, false_and, decide_false]
    rfl

/-! ### The simulation -/

/-- A step that belongs to the path and is careful is a move of the path. -/
theorem pathStep_of_ownStep (hmode : cfg.cacheMode.diskWriteBuffer) (hdirect : cfg.directIo = false)
    (hown : OwnStep p s l) (hcareful : Careful cfg p d s l) (hstep : step cfg l s = some t) :
    PathMoves cfg p d s t := by
  cases l with
  | write ino fh offset data env =>
    obtain ⟨hrest, hstart⟩ := startCall_of_idle hstep
    exact sim_write hdirect hrest hown hstart
  | flush ino fh env =>
    obtain ⟨hrest, hstart⟩ := startCall_of_idle hstep
    exact sim_flush hmode hrest hown hstart
  | release ino fh env =>
    obtain ⟨hrest, hstart⟩ := startCall_of_idle hstep
    exact sim_release hmode hrest hown hstart
  | fuse => exact sim_fuse hsound hmode hown hcareful hstep
  | recv =>
    obtain ⟨fs, hrecv, rfl⟩ := exists_workerStep hstep
    simp only [workerStep, workerRecv] at hrecv
    split at hrecv <;> cases hrecv
    rename_i q hq
    refine pathMoves_of_view (.stay _) ?_
    simp only [pathView, DedupQueue.waiting_recv hq, DedupQueue.jobs_recv hq,
      (DedupQueue.tasks_recv Upload.task hq).2]
    rfl
  | dequeue i =>
    obtain ⟨fs, hdequeue, rfl⟩ := exists_workerStep hstep
    exact sim_dequeue hsound hown hdequeue
  | attempt i outcome =>
    obtain ⟨fs, hattempt, rfl⟩ := exists_workerStep hstep
    exact sim_attempt hsound hown hcareful hattempt
  | upload i =>
    obtain ⟨fs, hupload, rfl⟩ := exists_workerStep hstep
    exact sim_upload hsound hown hcareful hupload
  | dropBlocks =>
    obtain ⟨fs, hdrop, rfl⟩ := exists_workerStep hstep
    exact pathMoves_of_view (.stay _) (pathView_dropBlocks hdrop)
  | _ => cases hown

/-- The machine simulates the protocol of the path. -/
theorem pathStep_of_step (hmode : cfg.cacheMode.diskWriteBuffer) (hdirect : cfg.directIo = false)
    (hobeys : Obeys cfg p d s l) (hstep : step cfg l s = some t) : PathMoves cfg p d s t := by
  rcases hobeys with ⟨hown, hcareful⟩ | huntouched
  · exact pathStep_of_ownStep hsound hmode hdirect hown hcareful hstep
  · exact pathMoves_of_view (.stay _) (huntouched t hstep)

end

end

/-- A path before its first write: no request, no task, no registration, no dirty handle, no
off-mode buffer, and a worker to send tasks to. -/
structure FreshPath (p : Path) (s : Sys) : Prop where
  idle : s.call = .idle
  tasks : s.fs.tasksOf p = 0
  unregistered : p ∉ s.fs.writeback.pending
  clean : ∀ fh h, s.fs.handles.lookup fh = some h → h.path = p → h.isDirty = false
  offMode : s.fs.offModeBuffers p = none
  sender : s.fs.writebackSender = true
  alive : s.fs.receiverAlive = true
  unwritten : s.written p = none

/-- A fresh path is sound. -/
theorem FreshPath.sound (h : FreshPath p s) : Sound (cfg.writeBufferPath p) (pathView cfg p s) := by
  have hwaiting : (pathView cfg p s).waiting = 0 := DedupQueue.waiting_eq_zero h.tasks
  have huploads : (pathView cfg p s).uploads = 0 := DedupQueue.jobs_eq_zero h.tasks
  exact {
    ready := by simp [pathView, h.sender, h.alive]
    offMode := h.offMode
    payload := by simp [pathView, h.idle]
    waiting := by simp [hwaiting]
    uploads := by simp [huploads]
    handle := by simp [pathView, h.idle]
    due := by simp [pathView, h.idle]
    one := by simp [hwaiting, huploads]
    registered := by simp [hwaiting, huploads]
    task := by simp [pathView, h.unregistered]
    landed := by simp [huploads]
    current := by simp [pathView, latestBytes, h.idle, h.unwritten] }

/-- What every move of the path keeps, every obedient run keeps. -/
theorem path_invariant_of_run {d : Discipline} {t : Sys} (inv : PathView → Prop)
    (hmode : cfg.cacheMode.diskWriteBuffer) (hdirect : cfg.directIo = false)
    (hsound : ∀ v, inv v → Sound (cfg.writeBufferPath p) v)
    (hmove : ∀ v v', inv v → PathStep d p (cfg.writeBufferPath p) v v' → inv v')
    (hrun : GuardedRun (step cfg) (Obeys cfg p d) s t) (hs : inv (pathView cfg p s)) :
    inv (pathView cfg p t) :=
  hrun.invariant (fun s ↦ inv (pathView cfg p s))
    (fun _ _ _ hinv hobeys hstep ↦
      hmove _ _ hinv (pathStep_of_step (hsound _ hinv) hmode hdirect hobeys hstep)) hs

/-- Care under a discipline is care under any laxer one. -/
theorem Careful.mono {d d' : Discipline} (h : Careful cfg p d s l)
    (hmark : ∀ b, d.mark b → d'.mark b) (hover : ∀ v, d.handOver v → d'.handOver v)
    (hput : ∀ o, d.put o → d'.put o) (hdrop : ∀ v u, d.dropSidecar v u → d'.dropSidecar v u) :
    Careful cfg p d' s l := by
  cases l with
  | fuse =>
    simp only [Careful] at h ⊢
    cases hcall : s.call <;> rw [hcall] at h
    case flushSidecar c | releaseSidecar c => exact hmark _ h
    case flushSend c | releaseSend c => exact hover _ h
    all_goals exact h
  | attempt i outcome => exact hput _ h
  | upload i => exact fun u hu ↦ ⟨fun hstage ↦ hdrop _ _ ((h u hu).1 hstage), (h u hu).2⟩
  | _ => trivial

instance CarefulCall.decidable (cfg : Config) (d : Discipline) (fs : MntrsFs) (v : PathView)
    [DecidablePred d.mark] [DecidablePred d.handOver] :
    ∀ call, Decidable (CarefulCall cfg d fs v call)
  | .writeBuffer c => inferInstanceAs (Decidable ((_ ∧ _ ∧ _) ∧ c.env.dataCut = none))
  | .writeFinish _ => inferInstanceAs (Decidable (_ ∧ _))
  | .flushSidecar c => inferInstanceAs (Decidable (d.mark c.sidecarFails))
  | .releaseSidecar c => inferInstanceAs (Decidable (d.mark c.sidecarFails))
  | .flushSend _ | .releaseSend _ => inferInstanceAs (Decidable (d.handOver v))
  | .idle | .writeTouch _ | .writeSend _ _ | .flushClean _ _ | .releaseDrop _ | .unlinkLocal _ =>
    isTrue trivial

instance CarefulUpload.decidable (d : Discipline) (v : PathView) (u : Upload)
    [∀ v u, Decidable (d.dropSidecar v u)] : Decidable (CarefulUpload d v u) :=
  inferInstanceAs (Decidable ((_ → _) ∧ (_ → _ → _ ∨ _)))

instance Careful.decidable (cfg : Config) (p : Path) (d : Discipline) (s : Sys)
    [DecidablePred d.mark] [DecidablePred d.handOver] [DecidablePred d.put]
    [∀ v u, Decidable (d.dropSidecar v u)] : ∀ l, Decidable (Careful cfg p d s l)
  | .fuse => inferInstanceAs (Decidable (CarefulCall cfg d s.fs (pathView cfg p s) s.call))
  | .attempt _ outcome => inferInstanceAs (Decidable (d.put outcome))
  | .upload i => inferInstanceAs (Decidable (∀ u ∈ s.fs.writeback.running[i]?, CarefulUpload d _ u))
  | .write .. | .flush .. | .release .. | .unlink .. | .forget .. | .recover .. | .other _ | .recv
  | .dequeue _ | .dropBlocks | .pool .. | .pump _ => isTrue trivial

instance OwnStep.decidable (p : Path) (s : Sys) : ∀ l, Decidable (OwnStep p s l)
  | .write .. | .flush .. | .release .. | .fuse | .recv | .dequeue _ | .attempt .. | .upload _ =>
    inferInstanceAs (Decidable (_ = _))
  | .dropBlocks => isTrue trivial
  | .unlink .. | .forget .. | .recover .. | .other _ | .pool .. | .pump _ =>
    isFalse id

end Mntrs

import Mntrs.Writeback.OffModeProtocol
import Mntrs.Writeback.Simulation

/-!
# The machine runs the off-mode protocol of a path

`offModeView` projects the machine to one path and its shared buffer. A step of the machine is a
move of the off-mode protocol when it belongs to the path and meets the conditions of
`OffModeCareful`; every other step is taken to leave the path's view alone.
-/

namespace Mntrs

open Base

variable {fh : Fh} {ino : Ino} {fs : MntrsFs} {i : Nat} {u : Upload} {c : WriteCall}

namespace Call

/-- The descriptor a write in progress goes through. -/
def fd : Call → Option FileId
  | .writeBuffer c | .writeTouch c | .writeSend c _ | .writeFinish c => c.fd
  | _ => none

/-- Where the request stands in off mode: a release is due to send when it carries bytes. -/
def offModePhase : Call → Phase
  | .releaseSidecar c => .syncing c.payload.isSome
  | .releaseSend c => .marked c.payload.isSome
  | call => call.phase

@[simp] theorem fd_idle : Call.idle.fd = none := rfl
@[simp] theorem offModePhase_idle : Call.idle.offModePhase = .rest := rfl

end Call

/-- The state of one path in off mode, with its shared buffer. -/
def offModeView (p : Path) (b : BufId) (s : Sys) : OffModeView where
  data := (s.fs.buffers b).data
  dirty := (s.fs.buffers b).dirty
  entry := s.fs.offModeBuffers p
  object := s.fs.backend p
  registered := decide (p ∈ s.fs.writeback.pending)
  waiting := s.fs.writeback.waiting WritebackTask.remotePath p
  uploads := s.fs.writeback.jobs (·.task.remotePath) p
  handles fh := (s.fs.handles.lookup fh).filter (·.path = p)
  phase := (s.call.onPath p).offModePhase
  fd := (s.call.onPath p).fd
  payload := (s.call.onPath p).payload
  latest := latestBytes p s
  ready := s.fs.writebackSender && s.fs.receiverAlive

/-- The conditions on the progress of a request: a write comes through a handle opened for writing
and fills the buffer while no upload of the path is past its comparison, and it sends a cache file
only while the buffer is registered or a task is on its way. -/
def OffModeCarefulCall (p : Path) (fs : MntrsFs) : Call → Prop
  | .writeBuffer c => openForWrite fs c.fh c.path = true ∧
      ∀ u ∈ fs.writeback.running, u.task.remotePath = p → u.settling = false
  | .writeSend _ present => present = true →
      fs.offModeBuffers p ≠ none ∨ p ∈ fs.writeback.pending
  | _ => True

/-- The conditions on the steps of a path: puts end as allowed, and a task that leaves the delay
queue has its payload or finds its cache file. -/
def OffModeCareful (p : Path) (put : PutOutcome → Prop) (s : Sys) : Label → Prop
  | .fuse => OffModeCarefulCall p s.fs s.call
  | .dequeue i => ∀ t ∈ s.fs.writeback.queue[i]?, (taskData s.fs t).isSome = true
  | .attempt _ outcome => put outcome
  | _ => True

/-- A step of a path's run in off mode: its own and careful, or one that leaves the path alone. -/
def OffModeObeys (cfg : Config) (p : Path) (b : BufId) (put : PutOutcome → Prop) (s : Sys)
    (l : Label) : Prop :=
  (OwnStep p s l ∧ OffModeCareful p put s l) ∨
    ∀ t, step cfg l s = some t → offModeView p b t = offModeView p b s

variable {call : Call} {h' : FileHandleState} {task : WritebackTask}

section

variable {cfg : Config} {p : Path} {b : BufId} {put : PutOutcome → Prop} {s t : Sys}

theorem latestBytes_of_fd (hfd : (s.call.onPath p).fd = none) (hhandles : fs.handles = s.fs.handles)
    (hbuffers : fs.buffers = s.fs.buffers) :
    latestBytes p { s with fs := fs } = latestBytes p s := by
  simp only [latestBytes]
  cases hcall : (s.call.onPath p).inBuffer with
  | none => rfl
  | some c =>
    have hnone : c.fd = none := by
      cases hkind : s.call.onPath p <;> simp_all [Call.inBuffer, Call.fd]
    simp [bufferContents, handleBuffer, hnone, hhandles, hbuffers]

/-! ### Requests -/

/-- The machine makes a move of the path's off-mode protocol. -/
abbrev OffModeMoves (p : Path) (b : BufId) (put : PutOutcome → Prop) (s t : Sys) : Prop :=
  OffModeStep put b (offModeView p b s) (offModeView p b t)

private theorem offModeMoves_of_view {v : OffModeView} (h : OffModeStep put b (offModeView p b s) v)
    (hview : offModeView p b t = v) : OffModeMoves p b put s t := by
  rw [OffModeMoves, hview]
  exact h

private theorem off_syncStart (hidle : s.call = .idle) (hpath : call.path? = some p)
    (hphase : call.offModePhase = .syncing true) (hfd : call.fd = none)
    (hpayload : call.payload = some (s.fs.buffers b).data) (hbuffer : call.inBuffer = none) :
    OffModeMoves p b put s { s with call := call } := by
  refine offModeMoves_of_view (.syncStart _ (by simp [offModeView, hidle])) ?_
  simp [offModeView, latestBytes, hidle, onPath_of_eq hpath, hphase, hfd, hpayload, hbuffer]

theorem inMemoryPayload_onBuffer {h : WriteHandle} (fs : MntrsFs)
    (hmode : cfg.cacheMode.diskWriteBuffer = false) (hon : OnBuffer b (.write h)) :
    inMemoryPayload cfg fs h = some (fs.buffers b).data := by
  simp [inMemoryPayload, hmode, hon.1]

/-- The handles a release leaves are handles it found, with their paths and buffers. -/
theorem lookup_releaseDrop {fh' : Fh} {wasDirty : Bool} {now : Nat}
    (hlookup : (releaseDrop cfg fs fh wasDirty now).handles.lookup fh' = some h') :
    ∃ h, fs.handles.lookup fh' = some h ∧ h.path = h'.path ∧ (OnBuffer b h → OnBuffer b h') := by
  unfold releaseDrop at hlookup
  by_cases hfh : fh' = fh
  · subst hfh
    split at hlookup
    · next h hh =>
      split at hlookup
      · simp only [AList.lookup_insert] at hlookup
        cases hlookup
        refine ⟨h, hh, ?_, ?_⟩
        · cases h <;> rfl
        · cases h <;> exact id
      · rw [AList.lookup_erase] at hlookup
        cases hlookup
    · rw [AList.lookup_erase] at hlookup
      cases hlookup
  · refine ⟨h', ?_, rfl, id⟩
    split at hlookup
    · split at hlookup
      · rwa [AList.lookup_insert_ne hfh] at hlookup
      · rwa [AList.lookup_erase_ne hfh] at hlookup
    · rwa [AList.lookup_erase_ne hfh] at hlookup

theorem lookup_flushClean {fh' : Fh} {handed : Bool}
    (hlookup : (flushClean fs fh handed).handles.lookup fh' = some h') :
    ∃ h, fs.handles.lookup fh' = some h ∧ h.path = h'.path ∧ (OnBuffer b h → OnBuffer b h') := by
  unfold flushClean markClean at hlookup
  split at hlookup
  · split at hlookup
    · next w hw =>
      by_cases hfh : fh' = fh
      · subst hfh
        simp only [AList.lookup_insert] at hlookup
        cases hlookup
        exact ⟨_, hw, rfl, id⟩
      · rw [AList.lookup_insert_ne hfh] at hlookup
        exact ⟨h', hlookup, rfl, id⟩
    · exact ⟨h', hlookup, rfl, id⟩
  · exact ⟨h', hlookup, rfl, id⟩

/-- A hand-over with the worker running submits the task, or finds the path registered. -/
theorem offModeView_enqueueWriteback (hready : (offModeView p b s).ready)
    (htask : task.remotePath = p) :
    (enqueueWriteback s.fs p task).1 = true ∧
      offModeView p b { s with fs := (enqueueWriteback s.fs p task).2 } =
        (offModeView p b s).enqueue task := by
  obtain ⟨hsender, halive⟩ := Bool.and_eq_true_iff.mp hready
  unfold enqueueWriteback OffModeView.enqueue
  rw [if_pos hsender]
  by_cases hp : p ∈ s.fs.writeback.pending
  · simp [offModeView, hp]
  · have hwaiting := DedupQueue.waiting_post s.fs.writeback htask
    have hpost : s.fs.writeback.submit p task =
        { s.fs.writeback.post task with pending := insert p s.fs.writeback.pending } := if_neg hp
    rw [if_neg hp, if_pos halive, hpost]
    refine ⟨rfl, ?_⟩
    simp only [offModeView, hp, decide_false, Bool.false_eq_true, if_false,
      Finset.mem_insert_self, decide_true]
    rw [← hwaiting]
    rfl

theorem writeOffMode_eq (hbuffer : handleBuffer fs c.fh = some b) :
    ∃ w, writeOffMode fs c =
      { fs with
        buffers := Function.update fs.buffers b { fs.buffers b with data := w, dirty := true }
        offModeBuffers := Function.update fs.offModeBuffers c.path
          (some ((fs.offModeBuffers c.path).getD b)) } := by
  unfold writeOffMode
  rw [hbuffer]
  exact ⟨_, rfl⟩

private theorem off_dequeue (hown : s.fs.writeback.queue[i]?.map WritebackTask.remotePath = some p)
    (hcareful : OffModeCareful p put s (.dequeue i)) (hstep : workerDequeue s.fs i = some fs) :
    OffModeMoves p b put s { s with fs := fs } := by
  obtain ⟨t, ht, hpath⟩ := Option.map_eq_some_iff.mp hown
  have hwaiting := DedupQueue.waiting_drop ht hpath
  obtain ⟨c, hdata⟩ := Option.isSome_iff_exists.mp (hcareful t ht)
  simp only [workerDequeue, ht, hdata] at hstep
  cases hstep
  have hjobs := DedupQueue.jobs_start (fun u : Upload ↦ u.task.remotePath) s.fs.writeback i
    (show (⟨t, c, .attempt 0⟩ : Upload).task.remotePath = p from hpath)
  refine offModeMoves_of_view (.dequeued _ t _ c hwaiting ?_) ?_
  · intro w hw
    simp only [taskData, hw, Option.some.injEq] at hdata
    exact hdata.symm
  · simp only [offModeView]
    rw [hjobs]
    rfl

private theorem offModeView_putFailed (s : Sys) (hpath : u.task.remotePath = p) (reached : Bool) :
    offModeView p b { s with fs := putFailed s.fs u reached } =
      (offModeView p b s).putting u reached := by
  subst hpath
  cases reached
  · rfl
  · simp only [offModeView, putFailed, putLanded, OffModeView.putting, if_true,
      Function.update_self]
    rfl

private theorem offModeView_dropBlocks (hfd : (s.call.onPath p).fd = none)
    (hstep : workerDropBlocks cfg s.fs = some fs) :
    offModeView p b { s with fs := fs } = offModeView p b s := by
  unfold workerDropBlocks at hstep
  split at hstep <;> cases hstep
  rename_i q rest hdrops
  set fs' := dropBlockCacheForPath cfg { s.fs with blockDrops := rest } q with hfs
  have hframe : fs' = { s.fs with
      blockDrops := rest, disk := fs'.disk, diskCacheIndex := fs'.diskCacheIndex } :=
    dropBlockCacheForPath_frame cfg _ q
  have hlatest : latestBytes p { s with fs := fs' } = latestBytes p s :=
    latestBytes_of_fd hfd (by rw [hframe]) (by rw [hframe])
  simp only [offModeView, hlatest]
  rw [hframe]

section

variable (hsound : OffModeSound b (offModeView p b s))
include hsound

/-- The handles of the path that the table holds are on the shared buffer. -/
theorem OffModeSound.onBuffer {state : FileHandleState}
    (hlookup : s.fs.handles.lookup fh = some state) (hpath : state.path = p) : OnBuffer b state :=
  hsound.handles fh state (Option.filter_eq_some_iff.mpr ⟨hlookup, decide_eq_true hpath⟩)

private theorem off_write {offset : Nat} {data : Bytes} {env : WriteEnv}
    (hdirect : cfg.directIo = false) (hidle : s.call = .idle)
    (hown : (s.fs.handles.lookup fh).map FileHandleState.path = some p)
    (hstep : startCall cfg s (.write ino fh offset data env) = some t) :
    OffModeMoves p b put s t := by
  simp only [startCall] at hstep
  split at hstep
  · next hbegin =>
    obtain ⟨backend, hfs, hsame⟩ := writeBegin_frame hbegin
    cases hstep
    rw [hsame hdirect] at hfs
    subst hfs
    exact offModeMoves_of_view (.stay _) rfl
  · next c hbegin =>
    cases hstep
    have hpath : c.path = p := Option.some.inj ((path_of_writeBegin hbegin).symm.trans hown)
    have hfd : c.fd = none := by
      obtain ⟨path, fd, gap, htarget, rfl⟩ := writeBegin_inr hbegin
      obtain ⟨state, hstate, hstatePath, hwriter⟩ := writeTarget_some htarget
      have hon := hsound.onBuffer hstate (hstatePath.trans hpath)
      cases fd with
      | none => rfl
      | some f =>
        obtain ⟨w, rfl, hw⟩ := hwriter f rfl
        rw [hon.2] at hw
        cases hw
    refine offModeMoves_of_view (.writeStart _ (by simp [offModeView, hidle])) ?_
    simp [offModeView, latestBytes, hidle, Call.onPath, Call.path?, hpath, Call.offModePhase,
      Call.phase, Call.payload, Call.inBuffer, Call.fd, hfd]

private theorem off_flush {env : SyncEnv} (hmode : cfg.cacheMode.diskWriteBuffer = false)
    (hidle : s.call = .idle) (hown : (s.fs.handles.lookup fh).map FileHandleState.path = some p)
    (hstep : startCall cfg s (.flush ino fh env) = some t) : OffModeMoves p b put s t := by
  simp only [startCall] at hstep
  split at hstep
  · cases hstep
    exact .stay _
  · next c hbegin =>
    cases hstep
    obtain ⟨w, hw, rfl⟩ := flushBegin_call hbegin
    have hpath : w.path = p := by simpa [hw, FileHandleState.path] using hown
    have hpayload := inMemoryPayload_onBuffer s.fs hmode (hsound.onBuffer hw hpath)
    refine off_syncStart hidle (by simp [Call.path?, hpath]) ?_ rfl hpayload rfl
    simp [Call.offModePhase, Call.phase, hmode, hpayload]

private theorem onBuffer_of_lookup {handles : Table Fh FileHandleState}
    (hfound : ∀ fh h', handles.lookup fh = some h' → ∃ h, s.fs.handles.lookup fh = some h ∧
      h.path = h'.path ∧ (OnBuffer b h → OnBuffer b h')) :
    ∀ fh h', (handles.lookup fh).filter (·.path = p) = some h' → OnBuffer b h' := by
  intro fh h' hlookup
  obtain ⟨hlookup, hpath⟩ := Option.filter_eq_some_iff.mp hlookup
  obtain ⟨h, hh, hsame, hon⟩ := hfound fh h' hlookup
  exact hon (hsound.onBuffer hh (hsame.trans (of_decide_eq_true hpath)))

private theorem off_release {env : SyncEnv} (hmode : cfg.cacheMode.diskWriteBuffer = false)
    (hidle : s.call = .idle) (hown : (s.fs.handles.lookup fh).map FileHandleState.path = some p)
    (hstep : startCall cfg s (.release ino fh env) = some t) : OffModeMoves p b put s t := by
  simp only [startCall] at hstep
  split at hstep
  · cases hstep
    exact .stay _
  · next hbegin =>
    cases hstep
    have hframe := releaseDrop_frame cfg s.fs fh false env.now
    set fs := releaseDrop cfg s.fs fh false env.now
    have hon := onBuffer_of_lookup hsound (fun fh' h' (hh : fs.handles.lookup fh' = some h') ↦
      lookup_releaseDrop hh)
    refine offModeMoves_of_view (.released _ _ (by simp [offModeView, hidle]) hon ?_) ?_
    · intro fh' h hh hdirty
      obtain ⟨hlookup, hpath⟩ := Option.filter_eq_some_iff.mp hh
      rw [dirty_releaseDrop hbegin hlookup hdirty]
      exact Option.filter_eq_some_iff.mpr ⟨rfl, hpath⟩
    · simp only [offModeView, latestBytes, hidle, onPath_idle, Call.inBuffer_idle]
      rw [hframe]
  · next c hbegin =>
    cases hstep
    obtain ⟨w, hw, rfl⟩ := releaseBegin_call hbegin
    have hpath : w.path = p := by simpa [hw, FileHandleState.path] using hown
    have hpayload := inMemoryPayload_onBuffer s.fs hmode (hsound.onBuffer hw hpath)
    refine off_syncStart hidle (by simp [Call.path?, hpath]) ?_ rfl hpayload rfl
    simp [Call.offModePhase, hpayload]

/-! ### The progress of a request -/

private theorem off_writeBuffer (hmode : cfg.cacheMode.diskWriteBuffer = false)
    (hcall : s.call = .writeBuffer c) (hown : c.path = p)
    (hcareful : OffModeCarefulCall p s.fs s.call) (hstep : continueCall cfg s = some t) :
    OffModeMoves p b put s t := by
  subst hown
  have hon := onPath_of_call hcall rfl
  have hon' : (Call.writeTouch c).onPath c.path = .writeTouch c := onPath_of_eq rfl
  rw [hcall] at hcareful
  obtain ⟨hopen, hbefore⟩ := hcareful
  have hfd : c.fd = none := by simpa [offModeView, hon, Call.fd] using hsound.fd
  unfold openForWrite at hopen
  split at hopen
  · next h hh =>
    have hpath : h.path = c.path := of_decide_eq_true hopen
    have hbuffer : handleBuffer s.fs c.fh = some b := by
      simp [handleBuffer, hh, (hsound.onBuffer hh hpath).1]
    obtain ⟨w, hwrite⟩ := writeOffMode_eq hbuffer
    simp only [continueCall, hcall, writeBuffer, hmode, hwrite, Bool.false_eq_true, if_false]
      at hstep
    cases hstep
    refine offModeMoves_of_view (.buffered _ c.fh h w
      (by simp [offModeView, hon, Call.offModePhase, Call.phase]) ?_ ?_) ?_
    · simp [offModeView, hh, FileHandleState.path, hpath]
    · intro u hu
      simp only [offModeView, DedupQueue.jobs] at hu
      obtain ⟨hu, hupath⟩ := Multiset.mem_filter.mp hu
      exact hbefore u (Multiset.mem_coe.mp hu) hupath
    · have hsame : ∀ fs : MntrsFs, fs.handles = s.fs.handles →
          handleBuffer fs c.fh = some b := by
        intro fs hhandles
        simpa [handleBuffer, hhandles] using hbuffer
      simp [offModeView, latestBytes, hon, hon', Call.offModePhase, Call.phase, Call.payload,
        Call.fd, Call.inBuffer, bufferContents, hfd, hsame]
  · cases hopen

private theorem off_writeSend {present : Bool} (hcall : s.call = .writeSend c present)
    (hown : c.path = p) (hcareful : OffModeCarefulCall p s.fs s.call)
    (hstep : continueCall cfg s = some t) : OffModeMoves p b put s t := by
  subst hown
  have hon := onPath_of_call hcall rfl
  have hon' : (Call.writeFinish c).onPath c.path = .writeFinish c := onPath_of_eq rfl
  rw [hcall] at hcareful
  simp only [continueCall, hcall] at hstep
  cases hstep
  -- the next cut of the write is in the same phase
  have hview : ∀ fs : MntrsFs, offModeView c.path b { s with fs := fs, call := .writeFinish c } =
      offModeView c.path b { s with fs := fs } := by
    intro fs
    simp [offModeView, latestBytes, hon, hon', Call.offModePhase, Call.phase, Call.payload,
      Call.fd, Call.inBuffer]
  rw [OffModeMoves, hview, writeSend]
  split
  · next hpresent =>
    rw [(offModeView_enqueueWriteback hsound.ready rfl).2]
    refine .offered _ c.fh _ (by simp [offModeView, hon, Call.offModePhase, Call.phase]) ?_
    exact (hcareful hpresent).imp id (fun hp ↦ decide_eq_true hp)
  · exact .stay _

private theorem off_writeFinish (hcall : s.call = .writeFinish c) (hown : c.path = p)
    (hstep : continueCall cfg s = some t) : OffModeMoves p b put s t := by
  subst hown
  have hon := onPath_of_call hcall rfl
  have hphase : (offModeView c.path b s).phase = .written c.fh := by
    simp [offModeView, hon, Call.offModePhase, Call.phase]
  have hfd : c.fd = none := by simpa [offModeView, hon, Call.fd] using hsound.fd
  obtain ⟨h, hh⟩ := hsound.handle c.fh hphase
  have hbuffer := hsound.handles c.fh _ hh
  obtain ⟨hlookup, hpath⟩ := Option.filter_eq_some_iff.mp hh
  have hlookup' : (writeIndex cfg s.fs c).handles.lookup c.fh = some (.write h) := by
    rw [writeIndex_frame, hlookup]
  simp only [continueCall, hcall] at hstep
  cases hstep
  set h' : WriteHandle :=
    { h with dirty := true, dirtySince := some c.env.now, lastWriteAt := some c.env.now } with hh'
  refine offModeMoves_of_view (.finished _ c.fh h' hphase hbuffer rfl) ?_
  rw [writeFinish, markDirty_of_write hlookup', writeIndex_frame]
  ext1
  case handles =>
    funext fh
    by_cases hfh : fh = c.fh
    · subst hfh
      have hpath' : h.path = c.path := of_decide_eq_true hpath
      simp [offModeView, FileHandleState.path, hh', hpath']
    · simp [offModeView, AList.lookup_insert_ne hfh, Function.update_of_ne hfh]
  all_goals
    simp [offModeView, latestBytes, hon, Call.payload, Call.fd, Call.inBuffer, hfd]

private theorem off_marked {call' : Call} {disk : Disk} (hon : s.call.onPath p = call)
    (hon' : call'.onPath p = call') {due : Bool} (hphase : call.offModePhase = .syncing due)
    (hphase' : call'.offModePhase = .marked due) (hpayload : call'.payload = call.payload)
    (hbuffer : call.inBuffer = none) (hbuffer' : call'.inBuffer = none) (hfd : call'.fd = none) :
    OffModeMoves p b put s { s with fs := { s.fs with disk := disk }, call := call' } := by
  have hstart : (offModeView p b s).phase = .syncing due := by simp [offModeView, hon, hphase]
  obtain ⟨rfl, -⟩ := hsound.sync due (.inl hstart)
  have hnone : call.fd = none := by simpa [offModeView, hon] using hsound.fd
  refine offModeMoves_of_view (.marked _ hstart) ?_
  simp [offModeView, latestBytes, hon, hon', hphase', hpayload, hbuffer, hbuffer', hfd, hnone]

private theorem off_handedOver {call' : Call} (hon : s.call.onPath p = call)
    (hon' : call'.onPath p = call') (hphase : call.offModePhase = .marked true)
    (hphase' : call'.offModePhase = .synced) (hpayload : call'.payload = none)
    (hbuffer : call.inBuffer = none) (hbuffer' : call'.inBuffer = none) (hfd : call'.fd = none)
    (htask : task.remotePath = p) (hcarries : task.inMemoryPayload = call.payload) :
    OffModeMoves p b put s { s with fs := (enqueueWriteback s.fs p task).2, call := call' } := by
  have hnone : call.fd = none := by simpa [offModeView, hon] using hsound.fd
  have hcall : ∀ fs : MntrsFs, offModeView p b { s with fs := fs, call := call' } =
      { offModeView p b { s with fs := fs } with phase := .synced, payload := none } := by
    intro fs
    simp [offModeView, latestBytes, hon, hon', hphase', hpayload, hbuffer, hbuffer', hfd, hnone]
  rw [OffModeMoves, hcall, (offModeView_enqueueWriteback hsound.ready htask).2]
  exact .handedOver _ task (by simp [offModeView, hon, hphase])
    (by simp [offModeView, hon, hcarries])

private theorem off_settled (hphase : (offModeView p b s).phase = .synced)
    (hpayload : (s.call.onPath p).payload = none) (hbuffer : (s.call.onPath p).inBuffer = none)
    (hfs : fs = { s.fs with handles := fs.handles })
    (hfound : ∀ fh h', fs.handles.lookup fh = some h' → ∃ h, s.fs.handles.lookup fh = some h ∧
      h.path = h'.path ∧ (OnBuffer b h → OnBuffer b h')) :
    OffModeMoves p b put s { s with fs := fs, call := .idle } := by
  have hfd : (s.call.onPath p).fd = none := hsound.fd
  refine offModeMoves_of_view (.settled _ _ hphase (onBuffer_of_lookup hsound hfound)) ?_
  rw [hfs]
  simp [offModeView, latestBytes, hpayload, hbuffer, hfd]

private theorem off_flushSend {c : FlushCall} (hcall : s.call = .flushSend c) (hown : c.path = p)
    (hstep : continueCall cfg s = some t) : OffModeMoves p b put s t := by
  subst hown
  have hon := onPath_of_call hcall rfl
  have hdue : c.shouldEnqueue = true :=
    (hsound.sync c.shouldEnqueue (.inr (by simp [offModeView, hon, Call.offModePhase,
      Call.phase]))).1
  set task := writebackTask cfg c.ino c.path c.payload with htask
  have hsent : flushSend cfg s.fs c = enqueueWriteback s.fs c.path task := by
    simp [flushSend, hdue, htask]
  have hhanded : (enqueueWriteback s.fs c.path task).1 = true :=
    (offModeView_enqueueWriteback hsound.ready rfl).1
  simp only [continueCall, hcall, hsent, hhanded] at hstep
  cases hstep
  exact off_handedOver hsound hon (onPath_of_eq rfl)
    (by simp [Call.offModePhase, Call.phase, hdue]) rfl rfl rfl rfl rfl rfl rfl

private theorem off_releaseSend {c : ReleaseCall} (hcall : s.call = .releaseSend c)
    (hown : c.path = p) (hstep : continueCall cfg s = some t) : OffModeMoves p b put s t := by
  subst hown
  have hon := onPath_of_call hcall rfl
  have hdue : c.payload.isSome = true :=
    (hsound.sync c.payload.isSome (.inr (by simp [offModeView, hon, Call.offModePhase]))).1
  have hsent : releaseSend cfg s.fs c =
      (enqueueWriteback s.fs c.path (writebackTask cfg c.ino c.path c.payload)).2 := by
    simp [releaseSend, hdue]
  simp only [continueCall, hcall, hsent] at hstep
  cases hstep
  exact off_handedOver hsound hon (onPath_of_eq rfl) (by simp [Call.offModePhase, hdue])
    rfl rfl rfl rfl rfl rfl rfl

private theorem off_fuse (hmode : cfg.cacheMode.diskWriteBuffer = false)
    (hown : s.call.path? = some p) (hcareful : OffModeCarefulCall p s.fs s.call)
    (hstep : continueCall cfg s = some t) : OffModeMoves p b put s t := by
  have hon := onPath_of_eq hown
  cases hcall : s.call <;> rw [hcall] at hown hon <;> cases hown
  case writeBuffer c => exact off_writeBuffer hsound hmode hcall rfl hcareful hstep
  case writeSend c present => exact off_writeSend hsound hcall rfl hcareful hstep
  case writeFinish c => exact off_writeFinish hsound hcall rfl hstep
  case flushSend c => exact off_flushSend hsound hcall rfl hstep
  case releaseSend c => exact off_releaseSend hsound hcall rfl hstep
  all_goals
    simp only [continueCall, hcall] at hstep
    cases hstep
  case writeTouch c =>
    have hon' : ∀ present, (Call.writeSend c present).onPath c.path = .writeSend c present :=
      fun present ↦ onPath_of_eq rfl
    refine offModeMoves_of_view (.stay _) ?_
    simp only [offModeView, latestBytes, hon, hon', hcall]
    rfl
  case flushSidecar c =>
    rw [flushSidecar_frame]
    exact off_marked hsound (onPath_of_call hcall rfl) (onPath_of_eq rfl) rfl rfl rfl rfl rfl rfl
  case flushClean c handed =>
    cases handed with
    | true =>
      exact off_settled hsound (by simp [offModeView, hcall, hon, Call.offModePhase, Call.phase])
        (by rw [hcall, hon]; rfl) (by rw [hcall, hon]; rfl) (flushClean_frame s.fs c.fh true)
        (fun _ _ ↦ lookup_flushClean)
    | false =>
      refine offModeMoves_of_view (.stay _) ?_
      simp only [offModeView, latestBytes, onPath_idle, hcall, hon]
      rfl
  case releaseSidecar c =>
    rw [releaseSidecar_frame]
    exact off_marked hsound (onPath_of_call hcall rfl) (onPath_of_eq rfl) rfl rfl rfl rfl rfl rfl
  case releaseDrop c =>
    exact off_settled hsound (by simp [offModeView, hcall, hon, Call.offModePhase, Call.phase])
      (by rw [hcall, hon]; rfl) (by rw [hcall, hon]; rfl)
      (releaseDrop_frame cfg s.fs c.fh true c.now) (fun _ _ ↦ lookup_releaseDrop)

/-! ### The worker -/

private theorem off_attempt {outcome : PutOutcome}
    (hown : s.fs.writeback.running[i]?.map (·.task.remotePath) = some p) (hput : put outcome)
    (hstep : uploadAttempt s.fs i outcome = some fs) :
    OffModeMoves p b put s { s with fs := fs } := by
  obtain ⟨u, k, hu, hstage, heffect⟩ := attempted hstep
  have hpath : u.task.remotePath = p := by simpa [hu] using hown
  have hattempting : u.attempting = true := by simp [Upload.attempting, hstage]
  have huploads : (offModeView p b s).uploads = u ::ₘ others p s.fs i :=
    DedupQueue.jobs_retire _ hu hpath
  obtain ⟨-, halive⟩ := Bool.and_eq_true_iff.mp hsound.ready
  cases heffect with
  | put =>
    refine offModeMoves_of_view (.put _ u _ huploads hattempting hput) ?_
    simp only [offModeView, putLanded, hpath, Function.update_self]
    rw [jobs_advance_stage _ hu hpath]
    rfl
  | again reached =>
    refine offModeMoves_of_view (.retried _ u _ reached (k + 1) huploads hattempting hput) ?_
    rw [← offModeView_putFailed s hpath reached]
    simp only [offModeView]
    rw [jobs_advance_stage _ hu hpath, putFailed_frame]
    rfl
  | gaveUp reached =>
    refine offModeMoves_of_view (.gaveUp _ u _ reached huploads hattempting hput) ?_
    rw [← offModeView_putFailed s hpath reached, hpath]
    simp only [offModeView, DedupQueue.cancel, Finset.mem_erase, ne_eq, not_true_eq_false,
      false_and, decide_false]
    rw [putFailed_frame]
    rfl
  | resent reached =>
    set again : WritebackTask := { u.task with retryCycle := u.task.retryCycle + 1 }
    have hwaiting := DedupQueue.waiting_post (s.fs.writeback.retire i)
      (show again.remotePath = p from hpath)
    refine offModeMoves_of_view (.resent _ u _ reached again huploads hattempting hput rfl) ?_
    rw [← offModeView_putFailed s hpath reached]
    simp only [offModeView]
    rw [hwaiting, putFailed_frame]
    rfl
  | lost reached hdead =>
    rw [halive] at hdead
    cases hdead

private theorem off_passed {disk : Disk} (stage : UploadStage)
    (hu : s.fs.writeback.running[i]? = some u) (hpath : u.task.remotePath = p)
    (hpast : u.attempting = false) (hbefore : u.settling = false)
    (hstage : stage = .removeCache ∨ stage = .compare) :
    OffModeStep put b (offModeView p b s) (offModeView p b { s with fs := { s.fs with
      disk := disk
      writeback := s.fs.writeback.advance i { u with stage := stage } } }) := by
  have huploads : (offModeView p b s).uploads = u ::ₘ others p s.fs i :=
    DedupQueue.jobs_retire _ hu hpath
  refine offModeMoves_of_view (.passed _ u _ stage huploads hpast hbefore hstage) ?_
  have hlatest : latestBytes p { s with fs := { s.fs with
      disk := disk
      writeback := s.fs.writeback.advance i { u with stage := stage } } } = latestBytes p s :=
    latestBytes_of_fd hsound.fd rfl rfl
  simp only [offModeView, hlatest]
  rw [jobs_advance_stage _ hu hpath]
  rfl

private theorem off_compare (hu : s.fs.writeback.running[i]? = some u)
    (hpath : u.task.remotePath = p) (hstage : u.stage = .compare)
    (hstep : uploadStep s.fs i = some fs) : OffModeMoves p b put s { s with fs := fs } := by
  have huploads : (offModeView p b s).uploads = u ::ₘ others p s.fs i :=
    DedupQueue.jobs_retire _ hu hpath
  obtain ⟨-, halive⟩ := Bool.and_eq_true_iff.mp hsound.ready
  simp only [uploadStep, hu, hstage] at hstep
  cases hmoved : movedOn s.fs u with
  | some current =>
    have hcurrent : current = (offModeView p b s).data := by
      unfold movedOn at hmoved
      rw [hpath] at hmoved
      split at hmoved
      · cases hmoved
      · next b' hb =>
        obtain rfl : b' = b := by
          rcases hsound.entry with hnone | hsome
          · rw [show s.fs.offModeBuffers p = none from hnone] at hb
            cases hb
          · rw [show s.fs.offModeBuffers p = some b from hsome] at hb
            exact (Option.some.inj hb).symm
        split at hmoved
        · cases hmoved
        · exact (Option.some.inj hmoved).symm
    simp only [hmoved] at hstep
    cases hstep
    set again : WritebackTask :=
      { u.task with inMemoryPayload := some current, retryCycle := 0 } with hagain
    set retired : MntrsFs :=
      { s.fs with
        writeback := s.fs.writeback.retire i
        blockDrops := s.fs.blockDrops ++ [u.task.remotePath] } with hretired
    have hwaiting := DedupQueue.waiting_post (s.fs.writeback.retire i)
      (show again.remotePath = p from hpath)
    refine offModeMoves_of_view (.moved _ u _ again huploads (by rw [← hcurrent])) ?_
    rw [sendTask, if_pos (show retired.receiverAlive = true from halive)]
    simp only [offModeView]
    rw [hwaiting]
    rfl
  | none =>
    simp only [hmoved] at hstep
    cases hstep
    refine offModeMoves_of_view (.matched _ u _ huploads hstage ?_) ?_
    · intro hentry
      have hb : s.fs.offModeBuffers p = some b := hsound.entry.resolve_left hentry
      unfold movedOn at hmoved
      rw [hpath, hb] at hmoved
      simp only at hmoved
      split at hmoved
      · next hsame => exact hsame
      · cases hmoved
    · simp only [offModeView]
      rw [jobs_advance_stage _ hu hpath]
      rfl

private theorem off_upload (hown : s.fs.writeback.running[i]?.map (·.task.remotePath) = some p)
    (hstep : uploadStep s.fs i = some fs) : OffModeMoves p b put s { s with fs := fs } := by
  obtain ⟨u, hu, hpath⟩ := Option.map_eq_some_iff.mp hown
  have huploads : (offModeView p b s).uploads = u ::ₘ others p s.fs i :=
    DedupQueue.jobs_retire _ hu hpath
  cases hstage : u.stage with
  | attempt k => simp [uploadStep, hu, hstage] at hstep
  | removeSidecar =>
    simp only [uploadStep, hu, hstage] at hstep
    cases hstep
    exact off_passed hsound .removeCache hu hpath (by simp [Upload.attempting, hstage])
      (by simp [Upload.settling, hstage]) (.inl rfl)
  | removeCache =>
    simp only [uploadStep, hu, hstage] at hstep
    cases hstep
    exact off_passed hsound .compare hu hpath (by simp [Upload.attempting, hstage])
      (by simp [Upload.settling, hstage]) (.inr rfl)
  | compare => exact off_compare hsound hu hpath hstage hstep
  | removeBuffer =>
    simp only [uploadStep, hu, hstage, hpath] at hstep
    cases hstep
    refine offModeMoves_of_view (.entryDropped _ u _ huploads hstage) ?_
    simp only [offModeView, Function.update_self]
    rw [jobs_advance_stage _ hu hpath]
    rfl
  | clear =>
    simp only [uploadStep, hu, hstage, hpath] at hstep
    cases hstep
    refine offModeMoves_of_view (.cleared _ u _ huploads hstage) ?_
    simp only [offModeView, DedupQueue.cancel, Finset.mem_erase, ne_eq, not_true_eq_false,
      false_and, decide_false]
    rfl

/-! ### The simulation -/

/-- A step that belongs to the path and is careful is a move of the path. -/
theorem offModeStep_of_ownStep {l : Label} (hmode : cfg.cacheMode.diskWriteBuffer = false)
    (hdirect : cfg.directIo = false) (hown : OwnStep p s l) (hcareful : OffModeCareful p put s l)
    (hstep : step cfg l s = some t) : OffModeMoves p b put s t := by
  cases l with
  | write ino fh offset data env =>
    obtain ⟨hrest, hstart⟩ := startCall_of_idle hstep
    exact off_write hsound hdirect hrest hown hstart
  | flush ino fh env =>
    obtain ⟨hrest, hstart⟩ := startCall_of_idle hstep
    exact off_flush hsound hmode hrest hown hstart
  | release ino fh env =>
    obtain ⟨hrest, hstart⟩ := startCall_of_idle hstep
    exact off_release hsound hmode hrest hown hstart
  | fuse => exact off_fuse hsound hmode hown hcareful hstep
  | recv =>
    obtain ⟨fs, hrecv, rfl⟩ := exists_workerStep hstep
    simp only [workerStep, workerRecv] at hrecv
    split at hrecv <;> cases hrecv
    rename_i q hq
    refine offModeMoves_of_view (.stay _) ?_
    simp only [offModeView, DedupQueue.waiting_recv hq, DedupQueue.jobs_recv hq,
      (DedupQueue.tasks_recv Upload.task hq).2]
    rfl
  | dequeue i =>
    obtain ⟨fs, hdequeue, rfl⟩ := exists_workerStep hstep
    exact off_dequeue hown hcareful hdequeue
  | attempt i outcome =>
    obtain ⟨fs, hattempt, rfl⟩ := exists_workerStep hstep
    exact off_attempt hsound hown hcareful hattempt
  | upload i =>
    obtain ⟨fs, hupload, rfl⟩ := exists_workerStep hstep
    exact off_upload hsound hown hupload
  | dropBlocks =>
    obtain ⟨fs, hdrop, rfl⟩ := exists_workerStep hstep
    exact offModeMoves_of_view (.stay _) (offModeView_dropBlocks hsound.fd hdrop)
  | _ => cases hown

/-- The machine simulates the off-mode protocol of the path. -/
theorem offModeStep_of_step {l : Label} (hmode : cfg.cacheMode.diskWriteBuffer = false)
    (hdirect : cfg.directIo = false) (hobeys : OffModeObeys cfg p b put s l)
    (hstep : step cfg l s = some t) : OffModeMoves p b put s t := by
  rcases hobeys with ⟨hown, hcareful⟩ | huntouched
  · exact offModeStep_of_ownStep hsound hmode hdirect hown hcareful hstep
  · exact offModeMoves_of_view (.stay _) (huntouched t hstep)

end

end

/-- A path in off mode before its first write: no request, no task, no registration, every handle
on the buffer that is registered if one is, and a worker to send tasks to. -/
structure FreshBuffer (p : Path) (b : BufId) (s : Sys) : Prop where
  idle : s.call = .idle
  tasks : s.fs.tasksOf p = 0
  unregistered : p ∉ s.fs.writeback.pending
  handles : ∀ fh h, s.fs.handles.lookup fh = some h → h.path = p → OnBuffer b h
  entry : s.fs.offModeBuffers p = none ∨ s.fs.offModeBuffers p = some b
  sender : s.fs.writebackSender = true
  alive : s.fs.receiverAlive = true
  unwritten : s.written p = none

/-- A fresh path is sound. -/
theorem FreshBuffer.sound {p : Path} {b : BufId} {s : Sys} (h : FreshBuffer p b s) :
    OffModeSound b (offModeView p b s) := by
  have hwaiting : (offModeView p b s).waiting = 0 := DedupQueue.waiting_eq_zero h.tasks
  have huploads : (offModeView p b s).uploads = 0 := DedupQueue.jobs_eq_zero h.tasks
  have hregistered : (offModeView p b s).registered = false := decide_eq_false h.unregistered
  have hlatest : (offModeView p b s).latest = none := by
    simp [offModeView, latestBytes, h.idle, h.unwritten]
  exact {
    ready := by simp [offModeView, h.sender, h.alive]
    fd := by simp [offModeView, h.idle]
    entry := h.entry
    handles := fun fh hh hlookup ↦ by
      obtain ⟨hlookup, hpath⟩ := Option.filter_eq_some_iff.mp hlookup
      exact h.handles fh hh hlookup (of_decide_eq_true hpath)
    handle := by simp [offModeView, h.idle]
    sync := by simp [offModeView, h.idle]
    one := by simp [hwaiting, huploads]
    registered := by simp [hwaiting, huploads, hregistered]
    waiting := by simp [hwaiting]
    covered := by simp [huploads]
    settled := by simp [huploads]
    landed := by simp [huploads]
    latest := by simp [hlatest]
    absent := by simp [hlatest] }

/-- What every move of the path keeps, every obedient run keeps. -/
theorem off_mode_invariant_of_run {cfg : Config} {p : Path} {b : BufId} {put : PutOutcome → Prop}
    {s t : Sys} (inv : OffModeView → Prop) (hmode : cfg.cacheMode.diskWriteBuffer = false)
    (hdirect : cfg.directIo = false) (hsound : ∀ v, inv v → OffModeSound b v)
    (hmove : ∀ v v', inv v → OffModeStep put b v v' → inv v')
    (hrun : GuardedRun (step cfg) (OffModeObeys cfg p b put) s t)
    (hs : inv (offModeView p b s)) : inv (offModeView p b t) :=
  hrun.invariant (fun s ↦ inv (offModeView p b s))
    (fun _ _ _ hinv hobeys hstep ↦
      hmove _ _ hinv (offModeStep_of_step (hsound _ hinv) hmode hdirect hobeys hstep)) hs

instance OffModeCarefulCall.decidable (p : Path) (fs : MntrsFs) :
    ∀ call, Decidable (OffModeCarefulCall p fs call)
  | .writeBuffer _ => inferInstanceAs (Decidable (_ ∧ ∀ u ∈ fs.writeback.running, _))
  | .writeSend _ _ => inferInstanceAs (Decidable (_ → _ ∨ _))
  | .idle | .writeTouch _ | .writeFinish _ | .flushSidecar _ | .flushSend _ | .flushClean _ _
  | .releaseSidecar _ | .releaseSend _ | .releaseDrop _ | .unlinkLocal _ => isTrue trivial

instance OffModeCareful.decidable (p : Path) (put : PutOutcome → Prop) [DecidablePred put]
    (s : Sys) : ∀ l, Decidable (OffModeCareful p put s l)
  | .fuse => inferInstanceAs (Decidable (OffModeCarefulCall p s.fs s.call))
  | .dequeue i => inferInstanceAs (Decidable (∀ t ∈ s.fs.writeback.queue[i]?, _))
  | .attempt _ outcome => inferInstanceAs (Decidable (put outcome))
  | .write .. | .flush .. | .release .. | .unlink .. | .forget .. | .recover .. | .other _ | .recv
  | .upload _ | .dropBlocks | .pool .. | .pump _ => isTrue trivial

end Mntrs

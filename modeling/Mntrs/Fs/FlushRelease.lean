import Mntrs.Fs.Write

/-!
# Flush and release

Models `MntrsFs::flush` (`src/src/lib.rs:6317-6550`) and `MntrsFs::release` (`6617-6873`), cut like
the write handler at the points where a background worker can act. `flush` and `release` run
the pieces in one go.
-/

namespace Mntrs

open Base

/-- The outcomes of the host calls of a flush or release, and the clock. -/
structure SyncEnv where
  /-- whether `sync_data` fails -/
  syncFails : Bool
  /-- whether writing the sidecar fails, which is only logged -/
  sidecarFails : Bool
  now : Nat
deriving DecidableEq, Repr

/-- Every call succeeds. -/
def SyncEnv.ok : SyncEnv := ⟨false, false, 0⟩

/-- A flush after its sync: what it found out and what is left to do. -/
structure FlushCall where
  ino : Ino
  fh : Fh
  path : Path
  payload : Option Bytes
  shouldEnqueue : Bool
  sidecarFails : Bool
deriving DecidableEq, Repr

/-- A release of a dirty handle after its sync. -/
structure ReleaseCall where
  ino : Ino
  fh : Fh
  path : Path
  payload : Option Bytes
  sidecarDue : Bool
  sidecarFails : Bool
  now : Nat
deriving DecidableEq, Repr

/-- The copy of the off-mode buffer a flush or release takes. -/
def inMemoryPayload (cfg : Config) (fs : MntrsFs) (h : WriteHandle) : Option Bytes :=
  if cfg.cacheMode.diskWriteBuffer then none
  else h.inMemoryBuffer.map (fun b ↦ (fs.buffers b).data)

/-- The error of a failed `sync_data`. -/
def syncError : IoError := ⟨.other, "", none⟩

/-- The start of a flush, `6325-6405`: the handle, its sync, the payload and whether there is
something to enqueue. `inl` when the call returns here. -/
def flushBegin (cfg : Config) (fs : MntrsFs) (ino : Ino) (fh : Fh) (env : SyncEnv) :
    Except IoError Unit ⊕ FlushCall :=
  match fs.handles.lookup fh with
  | some (.write h) =>
    if h.dirty then
      if h.writeBufferFd.isSome ∧ env.syncFails then .inl (.error syncError)
      else
        let payload := inMemoryPayload cfg fs h
        .inr ⟨ino, fh, h.path, payload,
          if cfg.cacheMode.diskWriteBuffer then fs.disk.exists? (cfg.writeBufferPath h.path)
          else payload.isSome,
          env.sidecarFails⟩
    else .inl (.ok ())
  | _ => .inl (.ok ())

/-- Write the sidecar, `6407-6427`. -/
def flushSidecar (cfg : Config) (fs : MntrsFs) (c : FlushCall) : MntrsFs :=
  if c.shouldEnqueue ∧ cfg.cacheMode.diskWriteBuffer ∧ c.sidecarFails = false then
    { fs with disk := fs.disk.writeDirty (cfg.writeBufferPath c.path) c.path }
  else fs

/-- Hand the path to the writeback worker, `6428-6520`. A task already on its way counts as
handed over, and so does having nothing to enqueue. -/
def flushSend (cfg : Config) (fs : MntrsFs) (c : FlushCall) : Bool × MntrsFs :=
  if c.shouldEnqueue then
    enqueueWriteback fs c.path (writebackTask cfg c.ino c.path c.payload)
  else (true, fs)

/-- Mark the handle clean, `6533-6547`. -/
def markClean (fs : MntrsFs) (fh : Fh) : MntrsFs :=
  match fs.handles.lookup fh with
  | some (.write h) =>
    { fs with
      handles := fs.handles.insert fh (.write { h with dirty := false, dirtySince := none }) }
  | _ => fs

/-- The end of a flush: only a handle whose bytes were handed over becomes clean. -/
def flushClean (fs : MntrsFs) (fh : Fh) (handed : Bool) : MntrsFs :=
  if handed then markClean fs fh else fs

/-- `MntrsFs::flush`, `src/src/lib.rs:6317-6550`, without interference. -/
def flush (cfg : Config) (fs : MntrsFs) (ino : Ino) (fh : Fh) (env : SyncEnv) :
    Except IoError Unit × MntrsFs :=
  match flushBegin cfg fs ino fh env with
  | .inl result => (result, fs)
  | .inr c =>
    let (handed, fs) := flushSend cfg (flushSidecar cfg fs c) c
    (.ok (), flushClean fs fh handed)

/-- The start of a release, `6617-6700`. `inl` holds the result and, when it is `Ok`, the handle
was clean. -/
def releaseBegin (cfg : Config) (fs : MntrsFs) (ino : Ino) (fh : Fh) (env : SyncEnv) :
    Except IoError Unit ⊕ ReleaseCall :=
  match fs.handles.lookup fh with
  | some (.write h) =>
    if h.dirty then
      if h.writeBufferFd.isSome ∧ env.syncFails then .inl (.error syncError)
      else
        let payload := inMemoryPayload cfg fs h
        .inr ⟨ino, fh, h.path, payload,
          payload.isNone && fs.disk.exists? (cfg.writeBufferPath h.path), env.sidecarFails, env.now⟩
    else .inl (.ok ())
  | _ => .inl (.ok ())

/-- Write the sidecar of a released handle, `6702-6715`. -/
def releaseSidecar (cfg : Config) (fs : MntrsFs) (c : ReleaseCall) : MntrsFs :=
  if c.sidecarDue ∧ c.sidecarFails = false then
    { fs with disk := fs.disk.writeDirty (cfg.writeBufferPath c.path) c.path }
  else fs

/-- Hand the path of a released handle to the worker, `6717-6790`. The cache file is tested
again here. -/
def releaseSend (cfg : Config) (fs : MntrsFs) (c : ReleaseCall) : MntrsFs :=
  if c.payload.isSome ∨ fs.disk.exists? (cfg.writeBufferPath c.path) then
    (enqueueWriteback fs c.path (writebackTask cfg c.ino c.path c.payload)).2
  else fs

/-- Drop the handle, or keep a clean one for the handle-caching period, `6800-6873`. -/
def releaseDrop (cfg : Config) (fs : MntrsFs) (fh : Fh) (wasDirty : Bool) (now : Nat) : MntrsFs :=
  let expiry := some (now + cfg.handleCaching)
  match fs.handles.lookup fh with
  | some h =>
    if 0 < cfg.handleCaching ∧ wasDirty = false then
      { fs with
        handles := fs.handles.insert fh
          (match h with
          | .read r => .read { r with expiresAt := expiry }
          | .write w => .write { w with expiresAt := expiry }) }
    else { fs with handles := fs.handles.erase fh }
  | none => { fs with handles := fs.handles.erase fh }

/-- `MntrsFs::release`, `src/src/lib.rs:6617-6873`, without interference. -/
def release (cfg : Config) (fs : MntrsFs) (ino : Ino) (fh : Fh) (env : SyncEnv) :
    Except IoError Unit × MntrsFs :=
  match releaseBegin cfg fs ino fh env with
  | .inl (.error e) => (.error e, fs)
  | .inl (.ok ()) => (.ok (), releaseDrop cfg fs fh false env.now)
  | .inr c =>
    (.ok (), releaseDrop cfg (releaseSend cfg (releaseSidecar cfg fs c) c) fh true env.now)

/-- A flush that goes on has found a write handle, and carries what it found about its path. -/
theorem flushBegin_call {cfg : Config} {fs : MntrsFs} {ino : Ino} {fh : Fh} {env : SyncEnv}
    {c : FlushCall} (h : flushBegin cfg fs ino fh env = .inr c) :
    ∃ w, fs.handles.lookup fh = some (.write w) ∧
      c = ⟨ino, fh, w.path, inMemoryPayload cfg fs w,
        if cfg.cacheMode.diskWriteBuffer then fs.disk.exists? (cfg.writeBufferPath w.path)
        else (inMemoryPayload cfg fs w).isSome, env.sidecarFails⟩ := by
  unfold flushBegin at h
  split at h
  · next w hw =>
    split at h
    · split at h <;> cases h
      exact ⟨w, hw, rfl⟩
    · cases h
  · cases h

/-- A release of a dirty handle has found a write handle, and carries what it found about its
path. -/
theorem releaseBegin_call {cfg : Config} {fs : MntrsFs} {ino : Ino} {fh : Fh} {env : SyncEnv}
    {c : ReleaseCall} (h : releaseBegin cfg fs ino fh env = .inr c) :
    ∃ w, fs.handles.lookup fh = some (.write w) ∧
      c = ⟨ino, fh, w.path, inMemoryPayload cfg fs w,
        (inMemoryPayload cfg fs w).isNone && fs.disk.exists? (cfg.writeBufferPath w.path),
        env.sidecarFails, env.now⟩ := by
  unfold releaseBegin at h
  split at h
  · next w hw =>
    split at h
    · split at h <;> cases h
      exact ⟨w, hw, rfl⟩
    · cases h
  · cases h

/-! ### What each piece leaves alone -/

variable (cfg : Config) (fs : MntrsFs)

theorem flushSidecar_frame (c : FlushCall) :
    flushSidecar cfg fs c = { fs with disk := (flushSidecar cfg fs c).disk } := by
  unfold flushSidecar
  split <;> rfl

theorem flushSend_frame (c : FlushCall) :
    (flushSend cfg fs c).2 = { fs with writeback := (flushSend cfg fs c).2.writeback } := by
  unfold flushSend
  split
  · exact enqueueWriteback_frame fs c.path _
  · rfl

theorem flushClean_frame (fh : Fh) (handed : Bool) :
    flushClean fs fh handed = { fs with handles := (flushClean fs fh handed).handles } := by
  unfold flushClean markClean
  split
  · split <;> rfl
  · rfl

theorem releaseSidecar_frame (c : ReleaseCall) :
    releaseSidecar cfg fs c = { fs with disk := (releaseSidecar cfg fs c).disk } := by
  unfold releaseSidecar
  split <;> rfl

theorem releaseSend_frame (c : ReleaseCall) :
    releaseSend cfg fs c = { fs with writeback := (releaseSend cfg fs c).writeback } := by
  unfold releaseSend
  split
  · exact enqueueWriteback_frame fs c.path _
  · rfl

theorem releaseDrop_frame (fh : Fh) (wasDirty : Bool) (now : Nat) :
    releaseDrop cfg fs fh wasDirty now =
      { fs with handles := (releaseDrop cfg fs fh wasDirty now).handles } := by
  unfold releaseDrop
  split
  · split <;> rfl
  · rfl

end Mntrs

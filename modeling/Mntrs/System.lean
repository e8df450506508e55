import Mntrs.Base.Machine
import Mntrs.Fs.FlushRelease
import Mntrs.Fs.Unlink
import Mntrs.Writeback.Worker

/-!
# The mount and its workers as one machine

The FUSE session serves one request at a time (`src/src/lib.rs:7320`), so a request is a call in
progress that the background workers can interrupt at the points its model is cut at. The
workers' steps are labels of their own: the writeback worker and its uploads, the disk-write
pool and the slots of the delete pump. `written` is a ghost: the contents the last successful
write of a path left in its buffer.
-/

namespace Mntrs

open Base

/-- Where the request in progress stands. -/
inductive Call where
  | idle
  | writeBuffer (c : WriteCall)
  | writeTouch (c : WriteCall)
  | writeSend (c : WriteCall) (present : Bool)
  | writeFinish (c : WriteCall)
  | flushSidecar (c : FlushCall)
  | flushSend (c : FlushCall)
  | flushClean (c : FlushCall) (handed : Bool)
  | releaseSidecar (c : ReleaseCall)
  | releaseSend (c : ReleaseCall)
  | releaseDrop (c : ReleaseCall)
  | unlinkLocal (c : UnlinkCall)

/-- No request is in progress. -/
def Call.isIdle : Call → Bool
  | .idle => true
  | _ => false

theorem Call.eq_idle_of_isIdle {call : Call} (h : call.isIdle) : call = .idle := by
  cases call <;> first | rfl | cases h

/-- The mount, the request in progress, and the contents last written to each path. -/
structure Sys where
  fs : MntrsFs
  call : Call
  written : Path → Option Bytes

/-- The steps of the machine: the start of a request, the progress of the current one, and the
steps of the workers. `other` is any request that leaves the writeback queue alone. -/
inductive Label where
  | write (ino : Ino) (fh : Fh) (offset : Nat) (data : Bytes) (env : WriteEnv)
  | flush (ino : Ino) (fh : Fh) (env : SyncEnv)
  | release (ino : Ino) (fh : Fh) (env : SyncEnv)
  | unlink (parent : Ino) (name : Path) (env : DeleteEnv)
  | forget (ino : Ino) (nlookup : Nat)
  | recover (n : CacheName) (unreadable : Bool)
  | other (fs : MntrsFs)
  | fuse
  | recv
  | dequeue (i : Nat)
  | attempt (i : Nat) (outcome : PutOutcome)
  | upload (i : Nat)
  | dropBlocks
  | pool (i : Nat) (failure : Option ErrorKind) (now : Nat)
  | pump (l : PumpLabel)

/-- The contents of the buffer a write went to. -/
def bufferContents (fs : MntrsFs) (c : WriteCall) : Option Bytes :=
  match c.fd with
  | some f => some (fs.disk.data f)
  | none => (handleBuffer fs c.fh).map (fun b ↦ (fs.buffers b).data)

/-- The request in progress goes on to its next cut. -/
def continueCall (cfg : Config) (s : Sys) : Option Sys :=
  match s.call with
  | .idle => none
  | .writeBuffer c =>
    match writeBuffer cfg s.fs c with
    | (.error _, fs) => some { s with fs := fs, call := .idle }
    | (.ok (), fs) => some { s with fs := fs, call := .writeTouch c }
  | .writeTouch c =>
    let fs := touchInode s.fs c
    some { s with
      fs := fs
      call := .writeSend c (fs.disk.exists? (cfg.writeBufferPath c.path)) }
  | .writeSend c present =>
    some { s with fs := writeSend cfg s.fs c present, call := .writeFinish c }
  | .writeFinish c =>
    some {
      fs := writeFinish cfg s.fs c
      call := .idle
      written := Function.update s.written c.path (bufferContents s.fs c) }
  | .flushSidecar c => some { s with fs := flushSidecar cfg s.fs c, call := .flushSend c }
  | .flushSend c =>
    some { s with
      fs := (flushSend cfg s.fs c).2
      call := .flushClean c (flushSend cfg s.fs c).1 }
  | .flushClean c handed => some { s with fs := flushClean s.fs c.fh handed, call := .idle }
  | .releaseSidecar c => some { s with fs := releaseSidecar cfg s.fs c, call := .releaseSend c }
  | .releaseSend c => some { s with fs := releaseSend cfg s.fs c, call := .releaseDrop c }
  | .releaseDrop c =>
    some { s with fs := releaseDrop cfg s.fs c.fh true c.now, call := .idle }
  | .unlinkLocal c => some { s with fs := unlinkLocal cfg s.fs c, call := .idle }

/-- The start of a request. -/
def startCall (cfg : Config) (s : Sys) : Label → Option Sys
  | .write ino fh offset data env =>
    match writeBegin cfg s.fs ino fh offset data env with
    | .inl (_, fs) => some { s with fs := fs }
    | .inr c => some { s with call := .writeBuffer c }
  | .flush ino fh env =>
    match flushBegin cfg s.fs ino fh env with
    | .inl _ => some s
    | .inr c => some { s with call := .flushSidecar c }
  | .release ino fh env =>
    match releaseBegin cfg s.fs ino fh env with
    | .inl (.error _) => some s
    | .inl (.ok ()) => some { s with fs := releaseDrop cfg s.fs fh false env.now }
    | .inr c => some { s with call := .releaseSidecar c }
  | .unlink parent name env =>
    match unlinkBegin cfg s.fs parent name env with
    | .inl (_, fs) => some { s with fs := fs }
    | .inr (c, fs) => some { s with fs := fs, call := .unlinkLocal c }
  | .forget ino nlookup => some { s with fs := forget s.fs ino nlookup }
  | .recover n unreadable =>
    some { s with fs := (recoverSidecar cfg (fun _ ↦ unreadable) s.fs ⟨0, 0, 0, 0, 0⟩ n).1 }
  | .other fs =>
    if fs.writeback = s.fs.writeback ∧ fs.receiverAlive = s.fs.receiverAlive then
      some { s with fs := fs }
    else none
  | _ => none

/-- A step of a background worker. -/
def workerStep (cfg : Config) (fs : MntrsFs) : Label → Option MntrsFs
  | .recv => workerRecv fs
  | .dequeue i => workerDequeue fs i
  | .attempt i outcome => uploadAttempt fs i outcome
  | .upload i => uploadStep fs i
  | .dropBlocks => workerDropBlocks cfg fs
  | .pool i failure now => poolExecute fs i failure now
  | .pump l => pumpStep fs l
  | _ => none

/-- One step of the machine. Requests start only when none is in progress. -/
def step (cfg : Config) (l : Label) (s : Sys) : Option Sys :=
  match l with
  | .fuse => continueCall cfg s
  | .write .. | .flush .. | .release .. | .unlink .. | .forget .. | .recover .. | .other _ =>
    match s.call with
    | .idle => startCall cfg s l
    | _ => none
  | _ =>
    match workerStep cfg s.fs l with
    | some fs => some { s with fs := fs }
    | none => none

variable {cfg : Config} {s t : Sys}

/-- A request that starts finds none in progress. -/
theorem startCall_of_idle {l : Label}
    (h : (match s.call with | .idle => startCall cfg s l | _ => none) = some t) :
    s.call = .idle ∧ startCall cfg s l = some t := by
  cases hcall : s.call <;> simp_all

/-- A step of a worker leaves the request in progress alone. -/
theorem exists_workerStep {l : Label}
    (h : (match workerStep cfg s.fs l with
      | some fs => some { s with fs := fs }
      | none => none) = some t) :
    ∃ fs, workerStep cfg s.fs l = some fs ∧ t = { s with fs := fs } := by
  cases hfs : workerStep cfg s.fs l with
  | none => simp [hfs] at h
  | some fs =>
    simp only [hfs, Option.some.injEq] at h
    exact ⟨fs, rfl, h.symm⟩

/-! ### Requests without interference -/

/-- A write that nothing interrupts runs as the handler does. -/
theorem exec_write {ino : Ino} {fh : Fh} {offset n : Nat} {data : Bytes} {env : WriteEnv}
    {c : WriteCall} (hidle : s.call = .idle)
    (hbegin : writeBegin cfg s.fs ino fh offset data env = .inr c)
    (hok : (write cfg s.fs ino fh offset data env).1 = .ok n)
    (hrun : exec (step cfg) [.write ino fh offset data env, .fuse, .fuse, .fuse, .fuse] s =
      some t) : t.fs = (write cfg s.fs ino fh offset data env).2 ∧ t.call = .idle := by
  simp only [write, hbegin, writeRest] at hok ⊢
  cases hbuffer : writeBuffer cfg s.fs c with
  | mk result fs =>
    cases result with
    | error e => simp [hbuffer] at hok
    | ok u =>
      simp only [exec, step, hidle, startCall, hbegin, continueCall, hbuffer, Option.bind_some,
        Option.some.injEq] at hrun
      subst hrun
      exact ⟨rfl, rfl⟩

/-- A flush of a dirty handle that nothing interrupts runs as the handler does. -/
theorem exec_flush {ino : Ino} {fh : Fh} {env : SyncEnv} {c : FlushCall} (hidle : s.call = .idle)
    (hbegin : flushBegin cfg s.fs ino fh env = .inr c) (hfh : c.fh = fh)
    (hrun : exec (step cfg) [.flush ino fh env, .fuse, .fuse, .fuse] s = some t) :
    t.fs = (flush cfg s.fs ino fh env).2 ∧ t.call = .idle := by
  simp only [exec, step, hidle, startCall, hbegin, continueCall, Option.bind_some,
    Option.some.injEq] at hrun
  subst hrun
  simp [flush, hbegin, hfh]

/-- An unlink of a file that nothing interrupts runs as the handler does. -/
theorem exec_unlink {parent : Ino} {name : Path} {env : DeleteEnv} {c : UnlinkCall} {fs : MntrsFs}
    (hidle : s.call = .idle) (hbegin : unlinkBegin cfg s.fs parent name env = .inr (c, fs))
    (hrun : exec (step cfg) [.unlink parent name env, .fuse] s = some t) :
    t.fs = (unlink cfg s.fs parent name env).2 ∧ t.call = .idle := by
  simp only [exec, step, hidle, startCall, hbegin, continueCall, Option.bind_some,
    Option.some.injEq] at hrun
  subst hrun
  simp [unlink, hbegin]

end Mntrs

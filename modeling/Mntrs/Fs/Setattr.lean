import Mntrs.Fs.Lookup
import Mntrs.Fs.Write

/-!
# Changing attributes

Models `MntrsFs::setattr`, `src/src/lib.rs:4154-4422`. A size given with a handle truncates: the
inode, the file behind the handle's descriptor, or the cache file. A size given without a handle
is taken for the kernel's preparation of `open(O_TRUNC)` and only drops blocks (issue 89). The
mode, the owner and the access time a caller passes are ignored.
-/

namespace Mntrs

open Base

/-- The outcomes of the host calls of a setattr. -/
structure SetattrEnv where
  /-- `set_len` on the descriptor of the handle succeeds -/
  fdTruncates : Bool
  /-- the cache file can be opened and cut -/
  fileTruncates : Bool
  now : Nat
deriving DecidableEq, Repr

/-- Every call succeeds. -/
def SetattrEnv.ok : SetattrEnv := ⟨true, true, 0⟩

/-- `set_len` of a host file. -/
def Disk.truncate (d : Disk) (f : FileId) (size now : Nat) : Disk :=
  d.setData f (setLen 0 (d.data f) size) now

/-- The descriptor of a write handle. -/
def handleFd (fs : MntrsFs) (fh : Fh) : Option FileId :=
  match fs.handles.lookup fh with
  | some (.write h) => h.writeBufferFd
  | _ => none

/-- Cut the file behind the descriptor of the handle, or the cache file where that is not
possible, `4262-4340`. -/
def truncateCache (cfg : Config) (fs : MntrsFs) (path : Path) (fh : Fh) (size : Nat)
    (env : SetattrEnv) : MntrsFs :=
  match (handleFd fs fh).filter (fun _ ↦ env.fdTruncates) with
  | some f => { fs with disk := fs.disk.truncate f size env.now }
  | none =>
    match (fs.disk.whole (cfg.writeBufferPath path)).filter (fun _ ↦ env.fileTruncates) with
    | some f => { fs with disk := fs.disk.truncate f size env.now }
    | none => fs

/-- The effect of a size, `4207-4361`: the blocks go in any case. -/
def setSize (cfg : Config) (fs : MntrsFs) (ino : Ino) (path : Path) (fh : Option Fh) (size : Nat)
    (env : SetattrEnv) : MntrsFs :=
  let fs := match fh with
    | some fh =>
      truncateCache cfg { fs with inodes := fs.inodes.modify ino (fun e ↦ { e with size := size }) }
        path fh size env
    | none => fs
  invalidateBlocks cfg fs path ino

/-- The size a setattr reports, `4376-4390`, where `current` is that of the inode afterwards. -/
def reportedSize (size : Option Nat) (fh : Option Fh) (current : Option Nat) : Nat :=
  match size with
  | some s => if fh.isSome then s else max (current.getD s) s
  | none => current.getD 0

/-- `MntrsFs::setattr`, `src/src/lib.rs:4154-4422`. -/
def setattr (cfg : Config) (fs : MntrsFs) (ino : Ino) (size mtime : Option Nat) (fh : Option Fh)
    (env : SetattrEnv) : Except IoError FileAttr × MntrsFs :=
  match fs.inodes.lookup ino with
  | none => (.error ⟨.notFound, "ino not found", none⟩, fs)
  | some e =>
    let fs := match size with
      | some s => setSize cfg fs ino e.path fh s env
      | none => fs
    let current := fs.inodes.lookup ino
    let reported := reportedSize size fh (current.map InodeEntry.size)
    let effective := (mtime.or (current.bind InodeEntry.mtime)).getD env.now
    let fs := match mtime with
      | some t => { fs with inodes := fs.inodes.modify ino (fun e ↦ { e with mtime := some t }) }
      | none => fs
    (.ok ⟨ino, reported, e.kind, effective⟩, fs)

end Mntrs

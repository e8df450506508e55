import Mntrs.Delete.Pump
import Mntrs.Fs.Inodes

/-!
# Rename

Models `MntrsFs::do_rename`, `src/src/lib.rs:8960-9487`: the backend part with its fallbacks
(server-side rename, then copy, then read and write, each followed by a delete of the source)
and the local part, which moves the cache file, one inode and one cached attribute.
`RenameEnv` holds the outcomes of the backend calls. Moving the cache file on the host is
assumed to succeed.
-/

namespace Mntrs

open Base

/-- The outcomes of the backend calls of a rename; `none` is success. -/
structure RenameEnv where
  rename : Option ErrorKind
  copy : Option ErrorKind
  read : Option ErrorKind
  write : Option ErrorKind
  /-- the delete of an existing destination, and the write after it -/
  retryDelete : Option ErrorKind
  retryWrite : Option ErrorKind
  /-- the delete of the source after a copy -/
  delete : DeleteEnv
deriving DecidableEq, Repr

/-- Every call succeeds. -/
def RenameEnv.ok : RenameEnv := ⟨none, none, none, none, none, none, .ok⟩

/-- A backend with neither server-side rename nor copy. -/
def RenameEnv.readWrite : RenameEnv :=
  { RenameEnv.ok with rename := some .unsupported, copy := some .unsupported }

/-- What follows a directory in the path of something at or below it. -/
def below (dir p : Path) : Option Path :=
  if dir <+: p ∧ (p.drop dir.length).head?.all (· == '/') then some (p.drop dir.length) else none

/-- `op.rename`: an object moves on its own, a directory with everything below it. -/
def renameObjects (backend : Path → Option Bytes) (src dst : Path) : Path → Option Bytes :=
  match backend src with
  | some bytes => Function.update (Function.update backend src none) dst (some bytes)
  | none => fun p ↦
    match (below dst p).bind (fun rest ↦ backend (src ++ rest)) with
    | some bytes => some bytes
    | none => if (below src p).isSome then none else backend p

/-- `op.read`. -/
def opRead (fs : MntrsFs) (failure : Option ErrorKind) (p : Path) : Except ErrorKind Bytes :=
  match failure, fs.backend p with
  | some e, _ => .error e
  | none, none => .error .notFound
  | none, some bytes => .ok bytes

/-- `op.write`. -/
def putObject (fs : MntrsFs) (p : Path) (bytes : Bytes) : MntrsFs :=
  { fs with backend := Function.update fs.backend p (some bytes) }

/-- `op.copy`. -/
def opCopy (fs : MntrsFs) (failure : Option ErrorKind) (src dst : Path) :
    Except ErrorKind MntrsFs :=
  (opRead fs failure src).map (putObject fs dst)

/-- The bytes the last fallback writes to the destination, `9134-9264`: the object, or the
cache file when the backend has no object. -/
def renamePayload (cfg : Config) (fs : MntrsFs) (src : Path) (env : RenameEnv) :
    Except IoError Bool ⊕ Bytes :=
  match opRead fs env.read src with
  | .ok bytes => .inr bytes
  | .error .notFound =>
    match MntrsFs.cacheFile cfg fs src with
    | some cached => .inr cached
    | none =>
      .inl (.error ⟨.notFound, "rename source not found: " ++ String.ofList src, none⟩)
  | .error _ => .inl (.ok false)

/-- The write of the last fallback, `9265-9352`. A destination that already exists is deleted
and written once more. -/
def writeDestination (fs : MntrsFs) (dst : Path) (bytes : Bytes) (env : RenameEnv) :
    Bool × MntrsFs :=
  match env.write with
  | none => (true, putObject fs dst bytes)
  | some .alreadyExists =>
    match env.retryDelete with
    | some _ => (false, fs)
    | none =>
      let fs := { fs with backend := Function.update fs.backend dst none }
      match env.retryWrite with
      | none => (true, putObject fs dst bytes)
      | some _ => (false, fs)
  | some _ => (false, fs)

/-- The two copying fallbacks, `9096-9361`. -/
def renameCopy (cfg : Config) (fs : MntrsFs) (src dst : Path) (env : RenameEnv) :
    Except IoError Bool × MntrsFs :=
  match opCopy fs env.copy src dst with
  | .ok fs => (.ok true, fs)
  | .error .unsupported =>
    match renamePayload cfg fs src env with
    | .inl early => (early, fs)
    | .inr bytes =>
      let (landed, fs) := writeDestination fs dst bytes env
      (.ok landed, fs)
  | .error _ => (.ok false, fs)

/-- `orphan_fast_path`: the cache file is at the destination already. -/
def orphanFastPath (cfg : Config) (fs : MntrsFs) (src dst : Path) : Bool :=
  !fs.disk.exists? (cfg.writeBufferPath src) && fs.disk.exists? (cfg.writeBufferPath dst)

/-- The backend part, `9031-9407`. The source is deleted only after a copy that landed, and a
failure of that delete is only logged. -/
def renameBackend (cfg : Config) (fs : MntrsFs) (src dst : Path) (env : RenameEnv) :
    Except IoError Bool × MntrsFs :=
  if orphanFastPath cfg fs src dst then (.ok true, fs)
  else match env.rename with
    | none => (.ok true, { fs with backend := renameObjects fs.backend src dst })
    | some .unsupported =>
      match renameCopy cfg fs src dst env with
      | (.ok true, fs) => (.ok true, (deleteBackendStrict fs src "rename_fallback" env.delete).2)
      | done => done
    | some _ => (.ok false, fs)

/-- Move the cache file, `9413-9423`. Where the destination has one, the source's is dropped. -/
def Disk.migrate (d : Disk) (cpathSrc cpathDst : CacheName) : Disk :=
  if d.exists? cpathSrc ∧ ¬ d.exists? cpathDst then
    { d with
      whole := Function.update (Function.update d.whole cpathDst (d.whole cpathSrc)) cpathSrc none }
  else d.removeWhole cpathSrc

/-- Move the inode found for the source, `9438-9455`. -/
def migrateInode (fs : MntrsFs) (src dst : Path) : MntrsFs :=
  let (found, fs) := findInoByPath fs src
  match found with
  | none => fs
  | some ino =>
    { fs with
      inodes := fs.inodes.modify ino (fun e ↦ { e with path := dst })
      pathToIno := Function.update (Function.update fs.pathToIno src none) dst (some ino) }

/-- Move the cached attributes, `9457-9460`. -/
def migrateAttrs (attrs : Path → Option AttrEntry) (src dst : Path) : Path → Option AttrEntry :=
  let moved := match attrs src with
    | some entry => Function.update attrs dst (some entry)
    | none => attrs
  Function.update moved src none

/-- Drop the listings the rename outdates, `9470-9485`. -/
def renameListings (fs : MntrsFs) (src dst : Path) : MntrsFs :=
  let fs := invalidateDirCache (invalidateDirCache fs src) dst
  let fs := match parentPath src with
    | some parent => invalidateDirCache fs parent
    | none => fs
  match parentPath dst with
  | some parent => invalidateDirCache fs parent
  | none => fs

/-- The local part, `9413-9486`. -/
def renameLocal (cfg : Config) (fs : MntrsFs) (src dst : Path) : MntrsFs :=
  let cpathSrc := cfg.writeBufferPath src
  let fs := { fs with disk := fs.disk.migrate cpathSrc (cfg.writeBufferPath dst) }
  let fs := migrateInode fs src dst
  let fs := { fs with
    attrCache := migrateAttrs fs.attrCache src dst
    disk := fs.disk.removeDirty cpathSrc }
  renameListings fs src dst

/-- `MntrsFs::do_rename`, `src/src/lib.rs:8960-9487`. -/
def doRename (cfg : Config) (fs : MntrsFs) (src dst : Path) (env : RenameEnv) :
    Except IoError Unit × MntrsFs :=
  match renameBackend cfg fs src dst env with
  | (.ok true, fs) => (.ok (), renameLocal cfg fs src dst)
  | (.ok false, fs) => (.ok (), fs)
  | (.error e, fs) => (.error e, fs)

end Mntrs

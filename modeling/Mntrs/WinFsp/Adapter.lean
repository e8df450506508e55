import Mntrs.Names.InodeTable

/-!
# The WinFSP adapter

Models the callbacks of `src/src/core_fs/winfsp.rs` that turn a name of the Windows kernel into a
path of the mount: `parent_ino_for` (`890-916`), `create` (`1221-1336`), `rename` (`1662-1789`) and
`cleanup` (`1833-2144`), with `rename_paths` of the mount (`src/src/lib.rs:7844-7865`). Names are
taken as decoded; attributes, notifications and the adapter's own attribute cache are left out.
-/

namespace Mntrs

open Base

/-- `WinFspHandle`. -/
structure WinFspHandle where
  ino : Ino
  fh : Fh
  isDir : Bool
  dirFh : Fh
deriving DecidableEq, Repr

/-- `WinFspAdapter`: the mount and `renamed_inos`. -/
structure WinFspAdapter where
  inner : MntrsFs
  renamedInos : Finset Ino

/-- A name of the kernel as a path: normalised, with slashes for backslashes. -/
def kernelPath (cfg : Config) (name : Path) : Path :=
  (cfg.nfc name).map (fun c ↦ if c = '\\' then '/' else c)

/-- `str::rsplit_once`. -/
def rsplitOnce (c : Char) (p : Path) : Option (Path × Path) :=
  match (p.splitOn c).reverse with
  | name :: s :: up => some (List.intercalate [c] (s :: up).reverse, name)
  | _ => none

/-- `trim_start_matches('/')`. -/
def trimStartSlashes (p : Path) : Path := p.dropWhile (· = '/')

/-- `rename_paths`. -/
def renamePaths (cfg : Config) (fs : MntrsFs) (srcPath dstPath : Path) (env : RenameEnv) :
    Except IoError Unit × MntrsFs :=
  doRename cfg fs (trimStartSlashes srcPath) (trimStartSlashes dstPath) env

/-! ### The callbacks -/

/-- The lookups of `parent_ino_for`, one component after the other. The environment has one
answer for each. -/
def walkParents (cfg : Config) (env : Nat → StatEnv) :
    Nat → MntrsFs → Ino → List Path → Option Ino × MntrsFs
  | _, fs, current, [] => (some current, fs)
  | i, fs, current, component :: rest =>
    match lookup cfg fs current (cfg.nfc component) (env i) with
    | (.ok attr, fs) => walkParents cfg env (i + 1) fs attr.ino rest
    | (.error _, fs) => (none, fs)

/-- `parent_ino_for`: slashes around and between the components are skipped. -/
def parentInoFor (cfg : Config) (fs : MntrsFs) (fullPath : Path) (env : Nat → StatEnv) :
    Option Ino × MntrsFs :=
  walkParents cfg env 0 fs 1 (segments fullPath)

/-- `FILE_DIRECTORY_FILE` without `FILE_NON_DIRECTORY_FILE`. -/
def asksForDirectory (createOptions : UInt32) : Bool :=
  createOptions &&& 0x1 != 0 && createOptions &&& 0x40 == 0

/-- `WinFspAdapter::create`. -/
def winCreate (cfg : Config) (a : WinFspAdapter) (fileName : Path) (createOptions : UInt32)
    (env : CreateEnv) (list : ListEnv) : Except IoError WinFspHandle × WinFspAdapter :=
  let path := kernelPath cfg fileName
  if asksForDirectory createOptions then
    match mkdir a.inner 1 path env with
    | (.error e, fs) => (.error e, { a with inner := fs })
    | (.ok attr, fs) =>
      match opendir cfg fs attr.ino list with
      | (.error e, fs) => (.error e, { a with inner := fs })
      | (.ok dirFh, fs) => (.ok ⟨attr.ino, attr.ino, true, dirFh⟩, { a with inner := fs })
  else
    match create cfg a.inner 1 path env with
    | (.error e, fs) => (.error e, { a with inner := fs })
    | (.ok (attr, fh), fs) => (.ok ⟨attr.ino, fh, false, 0⟩, { a with inner := fs })

/-- `WinFspAdapter::rename`: both names in lower case. -/
def winRename (cfg : Config) (a : WinFspAdapter) (context : WinFspHandle)
    (fileName newFileName : Path) (env : RenameEnv) : Except IoError Unit × WinFspAdapter :=
  let srcFull := cfg.toLowercase (kernelPath cfg fileName)
  let dstFull := cfg.toLowercase (kernelPath cfg newFileName)
  match renamePaths cfg a.inner srcFull dstFull env with
  | (.ok (), fs) => (.ok (), ⟨fs, insert context.ino a.renamedInos⟩)
  | (.error e, fs) => (.error e, { a with inner := fs })

/-- The outcomes of the backend calls of a `cleanup`: the lookups of the parents, the `getattr` of
the context and the delete. -/
structure CleanupEnv where
  parents : Nat → StatEnv
  attr : StatEnv
  delete : DeleteEnv

/-- The parent and the basename of a deleted path, `1989-1994`. -/
def cleanupNames (fullPath : Path) : Path × Path :=
  match rsplitOnce '/' fullPath with
  | some (parent, name) => if name = [] then (['/'], fullPath) else (parent, name)
  | none => (['/'], fullPath)

/-- The delete of a `cleanup`, `1960-2054`: a parent that is not found is the root. -/
def cleanupDelete (cfg : Config) (fs : MntrsFs) (context : WinFspHandle) (fullPath : Path)
    (env : CleanupEnv) : MntrsFs :=
  let (parentPath, basename) := cleanupNames fullPath
  let (found, fs) := parentInoFor cfg fs parentPath env.parents
  let parentIno := found.getD 1
  let fs := (getattr cfg fs context.ino env.attr).2
  if context.isDir then (rmdir fs parentIno basename env.delete).2
  else (unlink cfg fs parentIno basename env.delete).2

/-- `FspCleanupDelete`. -/
def fspCleanupDelete (flags : UInt32) : Bool := flags &&& 0x1 != 0

/-- `WinFspAdapter::cleanup`: the delete that follows a rename is skipped. -/
def winCleanup (cfg : Config) (a : WinFspAdapter) (context : WinFspHandle)
    (fileName : Option Path) (flags : UInt32) (env : CleanupEnv) : WinFspAdapter :=
  if fspCleanupDelete flags then
    if context.ino ∈ a.renamedInos then
      { a with renamedInos := a.renamedInos.erase context.ino }
    else match fileName with
      | none => a
      | some name =>
        let fullPath := cfg.toLowercase (kernelPath cfg name)
        { a with inner := cleanupDelete cfg a.inner context fullPath env }
  else a

/-- A context of a file. -/
def fileContext (ino : Ino) : WinFspHandle := ⟨ino, 1, false, 0⟩

/-- Every call of a cleanup succeeds. -/
def CleanupEnv.ok : CleanupEnv := ⟨fun _ ↦ .plain 0, .plain 0, .ok⟩

end Mntrs

import Mntrs.Fs.Listing

/-!
# Batched lookups

Models `batch_lookup_from_dir_cache` (`src/src/lib.rs:3121-3371`), which `lookup_many` calls, and
`FuserAdapter::readdirplus` (`src/src/core_fs/fuser.rs:448-569`). A batch is answered from the
parent's cached listing; the names the listing lacks are looked up afterwards. Those lookups share
one task; they are taken in the order of the names.
-/

namespace Mntrs

open Base

/-- The answer to a name that the listing has, `3223-3286`. The path is spelled with a slash also
below the root, a symlink of that path goes first, and no lookup is counted. -/
def batchHit (cfg : Config) (fs : MntrsFs) (parentPath name : Path) (v : DirEntryCacheValue)
    (now : Nat) : FileAttr × MntrsFs :=
  let fullPath := parentPath ++ '/' :: name
  let (stored, fs) := lookupSymlinkKeyCaseInsensitive cfg fs fullPath
  match stored with
  | some stored =>
    let size := (utf8 ((fs.symlinks.lookup stored).getD [])).length
    let (ino, fs) := allocIno fs stored .symlink size
    (⟨ino, size, .symlink, now⟩, fs)
  | none =>
    let kind := v.mode.fileType
    let (ino, fs) := allocInoWithMtime fs fullPath kind v.size v.mtime
    (⟨ino, v.size, kind, v.mtime⟩, fs)

/-- The first pass of a batch: a slot for each name, empty where the listing lacks it. -/
def batchHits (cfg : Config) (parent : Ino) (parentPath : Path) (cached : Option DirSnapshot)
    (now : Nat) : MntrsFs → List Path → List (Option FileAttr) × MntrsFs
  | fs, [] => ([], fs)
  | fs, name :: names =>
    if name = ['.'] ∨ name = ['.', '.'] then
      let p := if name = ['.'] then parent else 1
      let (out, fs) := batchHits cfg parent parentPath cached now fs names
      (some ⟨p, 4096, .directory, 0⟩ :: out, fs)
    else match cached.bind (fun snap ↦ snap.entries.lookup name) with
      | some v =>
        let (attr, fs) := batchHit cfg fs parentPath name v now
        let (out, fs) := batchHits cfg parent parentPath cached now fs names
        (some attr :: out, fs)
      | none =>
        let (out, fs) := batchHits cfg parent parentPath cached now fs names
        (none :: out, fs)

/-- The second pass: the empty slots are filled by lookups. -/
def batchMisses (cfg : Config) (parent : Ino) (env : Nat → StatEnv) :
    Nat → MntrsFs → List (Path × Option FileAttr) → List (Except IoError FileAttr) × MntrsFs
  | _, fs, [] => ([], fs)
  | i, fs, (_, some attr) :: slots =>
    let (out, fs) := batchMisses cfg parent env (i + 1) fs slots
    (.ok attr :: out, fs)
  | i, fs, (name, none) :: slots =>
    let (res, fs) := lookup cfg fs parent name (env i)
    let (out, fs) := batchMisses cfg parent env (i + 1) fs slots
    (res :: out, fs)

/-- `batch_lookup_from_dir_cache`. The environment has one answer for each name. -/
def batchLookupFromDirCache (cfg : Config) (fs : MntrsFs) (parent : Ino) (names : List Path)
    (env : Nat → StatEnv) (now : Nat) : List (Except IoError FileAttr) × MntrsFs :=
  let parentPath := resolvePath fs parent
  let cached := fs.dirCache (canonicalizeListPath parentPath)
  let (out, fs) := batchHits cfg parent parentPath cached now fs names
  batchMisses cfg parent env 0 fs (names.zip out)

end Mntrs

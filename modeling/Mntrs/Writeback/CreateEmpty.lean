import Mntrs.Fs.Read
import Mntrs.Names.InodeTable
import Mntrs.Writeback.Delivery
import Mntrs.Writeback.UploadsAgree

/-!
# A create over a file that exists

`create` writes an empty object (`src/src/lib.rs:6949-6962`) and keeps most of what the mount has of
the path. `alloc_ino_with_mtime` returns a live inode with the size it has (`2192-2227`), only the
disk modes truncate the cache file (`6978-7034`), and the tasks that wait or run for the path go
on.
-/

namespace Mntrs

open Base

variable {attr : FileAttr} {d n : Path} {ino : Ino} {env : CreateEnv}

section

variable {cfg : Config} {fs fs' : MntrsFs} {parent : Ino} {name : Path}

section

variable (cfg : Config) (fs : MntrsFs) (d n : Path)

end

end

/-! ### What shows of the file -/

section

variable {cfg : Config} {fs fs' : MntrsFs} {p : Path}

end

/-! ### What the worker leaves of the object -/

end Mntrs

import Mntrs.Fs.BatchLookup
import Mntrs.Names.InodeNumbers
import Mntrs.Names.SymlinkIndex

/-!
# Batched lookups against single ones

`lookup_many` answers a name that the parent's cached listing has without going through `lookup`
(`src/src/lib.rs:3202-3286` against `3620-3787`). It spells the path with a slash also below the
root, does not look at the tombstones, takes a symlink's key without its target, and trusts the
reverse map where `lookup` compares it with the inode table. The names the listing lacks go
through `lookup`. Below another directory than the root, and with the inode table and the symlink
index in step with their reverse maps, only the tombstones make a difference.
-/

namespace Mntrs

open Base

/-! ### Tables in step -/

section

variable {cfg : Config} {fs fs' : MntrsFs} {path : Path}

/-- The parent keeps its path. -/
theorem KeepsNames.resolvePath (h : KeepsNames cfg fs fs') {ino : Ino}
    (hpath : resolvePath fs ino ≠ []) :
    Mntrs.resolvePath fs' ino = Mntrs.resolvePath fs ino := by
  cases hlive : fs.registry.live ino with
  | none => exact absurd (congrArg (·.getD []) hlive) hpath
  | some path =>
    have hlive' := h.allocates.allots.kept hlive
    change (fs'.registry.live ino).getD [] = (fs.registry.live ino).getD []
    rw [hlive, hlive']

end

/-! ### One name -/

variable {row : CoreDirEntry}

section

variable {cfg : Config} {fs : MntrsFs} {name : Path} {parent : Ino} {v : DirEntryCacheValue}
  {env : StatEnv} {now : Nat}

/-- The inode of a row is the one that carries its path: the parent for `.`, the root for `..`, and
else that of the path or of every symlink the path may stand for. -/
def RowKnown (cfg : Config) (fs : MntrsFs) (parent : Ino) (row : CoreDirEntry) : Prop :=
  if row.name = ['.'] ∨ row.name = ['.', '.'] then
    row.ino = if row.name = ['.'] then parent else 1
  else
    let path := resolvePath fs parent ++ '/' :: row.name
    (∀ key ∈ fs.symlinks, cfg.toLowercase key = cfg.toLowercase path →
      fs.registry.live row.ino = some key) ∧
    ((∀ key ∈ fs.symlinks, cfg.toLowercase key ≠ cfg.toLowercase path) →
      fs.registry.live row.ino = some path)

theorem RowKnown.keeps {fs' : MntrsFs} (h : RowKnown cfg fs parent row)
    (hkeeps : KeepsNames cfg fs fs') (hparent : resolvePath fs parent ≠ []) :
    RowKnown cfg fs' parent row := by
  unfold RowKnown at h ⊢
  rw [hkeeps.resolvePath hparent, hkeeps.symlinks]
  by_cases hdots : row.name = ['.'] ∨ row.name = ['.', '.']
  · rwa [if_pos hdots] at h ⊢
  · rw [if_neg hdots] at h ⊢
    exact ⟨fun key hkey hform ↦ hkeeps.allocates.allots.kept (h.1 key hkey hform),
      fun hnone ↦ hkeeps.allocates.allots.kept (h.2 hnone)⟩

end

/-! ### The positions of a batch -/

section

variable {cfg : Config} {fs : MntrsFs} {parent : Ino} {parentPath name : Path}
  {cached : Option DirSnapshot} {names : List Path} {env : Nat → StatEnv} {now i : Nat}

end

/-! ### Replies of `readdirplus` -/

section

variable {cfg : Config} {fs : MntrsFs} {ino : Ino} {fh : Fh} {offset room : Nat}
  {env : Nat → StatEnv} {now : Nat}

end

end Mntrs

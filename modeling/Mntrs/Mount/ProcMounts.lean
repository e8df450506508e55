import Mntrs.Mount.MountsDb

/-!
# The kernel's mount table

`is_mount_point` (`src/src/cmd/mount.rs:484-499`) looks for the canonical path among the second
words of the lines of `/proc/mounts`. The kernel writes space, tab, newline and backslash of a
mount point as octal escapes, and other white space as it is.
-/

namespace Mntrs.Mount.Proc

open Base

/-- The characters the kernel escapes in a mount point. -/
def escaped : Text := [' ', '\t', '\n', '\\']

/-- How the kernel writes a character of a mount point. -/
def mangleChar (c : Char) : Text :=
  if c = ' ' then ['\\', '0', '4', '0'] else if c = '\t' then ['\\', '0', '1', '1']
  else if c = '\n' then ['\\', '0', '1', '2'] else if c = '\\' then ['\\', '1', '3', '4']
  else [c]

/-- How the kernel writes a mount point. -/
def mangle (t : Text) : Text := t.flatMap mangleChar

/-- An entry of the mount table: the device and the fields after the mount point as they are
printed, and the mount point. -/
structure MountEntry where
  device : Text
  mountpoint : Text
  rest : Text
  device_line : '\n' ∉ device
  rest_line : '\n' ∉ rest

/-- The line of an entry. -/
def MountEntry.line (e : MountEntry) : Text :=
  e.device ++ ' ' :: (mangle e.mountpoint ++ ' ' :: e.rest)

/-- The mount table; `foreign` is whether it has a mount point that is not UTF-8. -/
structure MountTable where
  entries : List MountEntry
  foreign : Bool

/-- What reading `/proc/mounts` as text gives. -/
def MountTable.content (table : MountTable) : Option Text :=
  if table.foreign then none else some (stem '\n' (table.entries.map MountEntry.line))

/-- `str::split_whitespace`. -/
def splitWhitespace (t : Text) : List Text := (t.splitOnP isWhiteSpace).filter (fun w ↦ !w.isEmpty)

/-- `canonicalize_mountpoint`, `src/src/util.rs:340-344`; `canonicalize` is `fs::canonicalize`. -/
def canonicalizeMountpoint (canonicalize : Text → Option Text) (path : Text) : Text :=
  (canonicalize path).getD path

/-- `is_mount_point` on Linux. -/
def isMountPoint (content : Option Text) (canonicalize : Text → Option Text) (path : Text) : Bool :=
  match content with
  | none => false
  | some text =>
    (lines text).any
      (fun l ↦ (splitWhitespace l)[1]? = some (canonicalizeMountpoint canonicalize path))

/-! ### The words of a line -/

variable {c : Char} {t : Text}

theorem splitWhitespace_of_word (ht : t ≠ []) (h : ∀ c ∈ t, isWhiteSpace c = false) :
    splitWhitespace t = [t] := by
  rw [splitWhitespace, List.splitOnP_eq_singleton h]
  simp [ht]

/-- The second word of an entry's line. -/
def MountEntry.second (e : MountEntry) : Option Text :=
  (splitWhitespace e.device ++
    (splitWhitespace (mangle e.mountpoint) ++ splitWhitespace e.rest))[1]?

theorem mangleChar_of_notMem (hc : c ∉ escaped) : mangleChar c = [c] := by
  simp only [escaped, List.mem_cons, List.not_mem_nil, or_false, not_or] at hc
  simp [mangleChar, hc]

/-- The device is one word, and the mount point is not empty and has no white space but what the
kernel escapes. -/
structure MountEntry.Regular (e : MountEntry) : Prop where
  device : e.device ≠ []
  word : ∀ c ∈ e.device, isWhiteSpace c = false
  mountpoint : e.mountpoint ≠ []
  white : ∀ c ∈ e.mountpoint, isWhiteSpace c = true → c ∈ escaped

theorem mangleChar_ne_nil (c : Char) : mangleChar c ≠ [] := by
  unfold mangleChar
  split_ifs <;> simp

theorem not_white_of_mem_mangleChar {x : Char} (hc : isWhiteSpace c = true → c ∈ escaped)
    (hx : x ∈ mangleChar c) : isWhiteSpace x = false := by
  by_cases hescaped : c ∈ escaped
  · have hall : escaped.all (fun c ↦ (mangleChar c).all (fun x ↦ !isWhiteSpace x)) = true := by
      decide
    simpa using List.all_eq_true.mp (List.all_eq_true.mp hall c hescaped) x hx
  · rw [mangleChar_of_notMem hescaped, List.mem_singleton] at hx
    rw [hx]
    exact Bool.eq_false_iff.mpr (fun hwhite ↦ hescaped (hc hwhite))

/-- The second word of a regular entry's line is its mount point with the escapes. -/
theorem MountEntry.Regular.second {e : MountEntry} (h : e.Regular) :
    e.second = some (mangle e.mountpoint) := by
  have hne : mangle e.mountpoint ≠ [] := by
    obtain ⟨c, t, hmp⟩ := List.exists_cons_of_ne_nil h.mountpoint
    simp [hmp, mangle, mangleChar_ne_nil]
  have hword : ∀ x ∈ mangle e.mountpoint, isWhiteSpace x = false := by
    intro x hx
    obtain ⟨c, hc, hxc⟩ := List.mem_flatMap.mp hx
    exact not_white_of_mem_mangleChar (h.white c hc) hxc
  rw [MountEntry.second, splitWhitespace_of_word h.device h.word, splitWhitespace_of_word hne hword]
  rfl

end Mntrs.Mount.Proc

import Mntrs.Base.Segments

/-!
# Directories of the host

A path is resolved name by name: an empty name and `.` stay, `..` goes up. Removing a directory
removes everything at or below it. Symbolic links are taken as resolved.
-/

namespace Mntrs

open Base

/-- A directory, as its names from the root down. -/
abbrev Dir := List (List Char)

/-- One name of a path. -/
def Dir.enter (d : Dir) (name : List Char) : Dir :=
  if name = [] ∨ name = ['.'] then d
  else if name = ['.', '.'] then d.dropLast
  else d ++ [name]

/-- The directory a path names for a process that works in `cwd`. -/
def resolve (cwd : Dir) (p : List Char) : Dir :=
  (p.splitOn '/').foldl Dir.enter (if p.head? = some '/' then [] else cwd)

/-- Neither directory is at or below the other. -/
def Dir.Apart (d e : Dir) : Prop := ¬ d <+: e ∧ ¬ e <+: d

instance (d e : Dir) : Decidable (d.Apart e) := inferInstanceAs (Decidable (_ ∧ _))

theorem Dir.Apart.symm {d e : Dir} (h : d.Apart e) : e.Apart d := ⟨h.2, h.1⟩

/-- A name that names an entry of the directory it is used in. -/
structure ProperName (name : List Char) : Prop where
  ne_nil : name ≠ []
  ne_dot : name ≠ ['.']
  ne_dots : name ≠ ['.', '.']
  slash : '/' ∉ name

instance (name : List Char) : Decidable (ProperName name) :=
  decidable_of_iff (name ≠ [] ∧ name ≠ ['.'] ∧ name ≠ ['.', '.'] ∧ '/' ∉ name)
    ⟨fun ⟨h₁, h₂, h₃, h₄⟩ ↦ ⟨h₁, h₂, h₃, h₄⟩, fun h ↦ ⟨h.1, h.2, h.3, h.4⟩⟩

theorem ProperName.enter {name : List Char} (h : ProperName name) (d : Dir) :
    d.enter name = d ++ [name] := by
  rw [Dir.enter, if_neg (by simp [h.ne_nil, h.ne_dot]), if_neg h.ne_dots]

theorem resolve_append_slash (cwd : Dir) (p q : List Char) :
    resolve cwd (p ++ '/' :: q) = (q.splitOn '/').foldl Dir.enter (resolve cwd (p ++ ['/'])) := by
  have hhead : (p ++ '/' :: q).head? = (p ++ ['/']).head? := by
    cases p <;> rfl
  have hend : (p ++ ['/']).splitOn '/' = p.splitOn '/' ++ [[]] := by
    rw [List.splitOn_append_cons_self]
    rfl
  rw [resolve, resolve, hend, List.splitOn_append_cons_self, ]
  simp [Dir.enter]

/-- A name without slash after a directory. -/
theorem resolve_append_name (cwd : Dir) (p : List Char) {name : List Char} (h : '/' ∉ name) :
    resolve cwd (p ++ '/' :: name) = (resolve cwd (p ++ ['/'])).enter name := by
  rw [resolve_append_slash, List.splitOn_eq_singleton h]
  rfl

theorem apart_of_ne {d : Dir} {a b : List Char} (h : a ≠ b) : Dir.Apart (d ++ [a]) (d ++ [b]) := by
  constructor
  · intro hpre
    exact h (by simpa using List.prefix_append_right_inj d |>.mp hpre)
  · intro hpre
    exact h.symm (by simpa using List.prefix_append_right_inj d |>.mp hpre)

end Mntrs

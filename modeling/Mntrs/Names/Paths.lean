import Mntrs.Base.Segments
import Mntrs.Fs.Create

/-!
# Paths as sequences of names

The paths of a mount are names with a slash between two of them. On such paths the spellings the
handlers compute (`canonicalize_list_path`, the parent, the last component, the path of an entry)
are those of the sequence.
-/

namespace Mntrs

open Base

variable {segs : List Path} {d e n p : Path}

/-- A name of an entry. -/
def GoodName (n : Path) : Prop := n ≠ [] ∧ '/' ∉ n ∧ n ≠ ['.'] ∧ n ≠ ['.', '.']

instance (n : Path) : Decidable (GoodName n) :=
  inferInstanceAs (Decidable (_ ∧ _ ∧ _ ∧ _))

/-- A path of names. -/
def NamePath (p : Path) : Prop := spell '/' (segments p) = p ∧ ∀ s ∈ segments p, GoodName s

instance (p : Path) : Decidable (NamePath p) :=
  inferInstanceAs (Decidable (_ ∧ _))

theorem clean_of_good (h : ∀ s ∈ segs, GoodName s) : Clean '/' segs :=
  fun s hs ↦ ⟨(h s hs).1, (h s hs).2.1⟩

/-- The names of a path are clean. -/
theorem NamePath.clean (h : NamePath p) : Clean '/' (segments p) := clean_of_good h.2

/-- The segments of every path are clean. -/
theorem clean_segments (p : Path) : Clean '/' (segments p) := by
  intro s hs
  obtain ⟨hmem, hne⟩ := List.mem_filter.mp hs
  exact ⟨by simpa using hne, notMem_of_mem_splitOn hmem⟩

theorem segments_spell_of_clean (h : Clean '/' segs) : segments (spell '/' segs) = segs := by
  by_cases hnil : segs = []
  · subst hnil
    rfl
  · rw [segments, splitOn_spell h hnil, List.filter_eq_self]
    intro s hs
    simpa using (h s hs).1

/-- The segments of a path of names. -/
theorem segments_spell (h : ∀ s ∈ segs, GoodName s) : segments (spell '/' segs) = segs :=
  segments_spell_of_clean (clean_of_good h)

/-- Names spell a path of names. -/
theorem namePath_spell (h : ∀ s ∈ segs, GoodName s) : NamePath (spell '/' segs) := by
  unfold NamePath
  rw [segments_spell h]
  exact ⟨rfl, h⟩

/-- The root is a path of names. -/
theorem namePath_nil : NamePath [] := by decide

/-- Only the root has no names. -/
theorem NamePath.segments_eq_nil (hp : NamePath p) : segments p = [] ↔ p = [] := by
  constructor
  · intro h
    rw [← hp.1, h]
    rfl
  · rintro rfl
    rfl

/-- Two paths of the same names are the same. -/
theorem NamePath.ext {q : Path} (hp : NamePath p) (hq : NamePath q) (h : segments p = segments q) :
    p = q := by
  rw [← hp.1, ← hq.1, h]

/-- The path of an entry is spelled by one name more. -/
theorem childPath_eq_spell (hd : NamePath d) (n : Path) :
    childPath d n = spell '/' (segments d ++ [n]) := by
  unfold childPath
  split
  · next h =>
    subst h
    simp [segments]
  · next h =>
    rw [spell_snoc (fun hnil ↦ h (hd.segments_eq_nil.mp hnil)), hd.1]

section Child

variable (hd : NamePath d) (hn : GoodName n)

include hd hn

private theorem good_snoc : ∀ s ∈ segments d ++ [n], GoodName s := by
  intro s hs
  rcases List.mem_append.mp hs with hs | hs
  · exact hd.2 s hs
  · exact List.mem_singleton.mp hs ▸ hn

/-- The path of an entry is a path of names. -/
theorem NamePath.child : NamePath (childPath d n) := by
  rw [childPath_eq_spell hd]
  exact namePath_spell (good_snoc hd hn)

end Child

/-- The key of a directory's listing. -/
theorem canonicalizeListPath_eq (d : Path) :
    canonicalizeListPath d = stem '/' (segments d) := by
  unfold canonicalizeListPath
  split
  · next h => rw [h, stem_nil]
  · next h => exact spell_append_sep h

/-- Different directories have different keys. -/
theorem canonicalizeListPath_inj (hd : NamePath d) (he : NamePath e)
    (h : canonicalizeListPath d = canonicalizeListPath e) : d = e := by
  rw [canonicalizeListPath_eq, canonicalizeListPath_eq] at h
  exact hd.ext he (stem_inj hd.clean he.clean h)

/-- The entries of one name in different directories have different paths. -/
theorem childPath_left_inj (h : childPath d n = childPath e n) : d = e := by
  have hlength := congrArg List.length h
  by_cases hd : d = [] <;> by_cases he : e = []
  · rw [hd, he]
  · simp only [childPath, hd, he, if_true, if_false, List.length_append, List.length_cons]
      at hlength
    omega
  · simp only [childPath, hd, he, if_true, if_false, List.length_append, List.length_cons]
      at hlength
    omega
  · simp only [childPath, hd, he, if_false] at h
    exact (List.append_inj' h rfl).1

/-- A name without a slash is shown as it is. -/
theorem displayName_eq (hn : '/' ∉ n) : displayName n = n := by
  rw [displayName, List.splitOn_eq_singleton hn]
  rfl

end Mntrs

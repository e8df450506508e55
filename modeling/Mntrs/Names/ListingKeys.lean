import Mntrs.Names.InodeTable
import Mntrs.Names.Paths

/-!
# The listings an invalidation drops

`invalidate_dir_cache` (`src/src/lib.rs:3379-3399`) removes keys by their text: those that start
with the path's key, and the key of the path's parent. On canonical keys a text starts another
exactly when the directory is at or above the other. The key of the root is empty, and the parent
of a top-level name is not looked for.
-/

namespace Mntrs

open Base

variable {fs : MntrsFs} {k p : Path}

/-- Every cached listing is stored under a canonical key. -/
def CanonicalKeys (fs : MntrsFs) : Prop := ∀ k, fs.dirCache k ≠ none → canonicalizeListPath k = k

/-- The key is that of the path, of a directory below it, or of its parent. -/
def Concerns (p k : Path) : Prop :=
  segments p <+: segments k ∨ (segments p ≠ [] ∧ segments k = (segments p).dropLast)

instance (p k : Path) : Decidable (Concerns p k) := inferInstanceAs (Decidable (_ ∨ _))

theorem prefix_key_iff (hk : canonicalizeListPath k = k) :
    (canonicalizeListPath p).isPrefixOf k = true ↔ segments p <+: segments k := by
  rw [List.isPrefixOf_iff_prefix, ← stem_prefix_stem (clean_segments p) (clean_segments k),
    ← canonicalizeListPath_eq, ← canonicalizeListPath_eq, hk]

theorem eq_parentKey_iff (hk : canonicalizeListPath k = k) :
    k = canonicalizeListPath (List.intercalate ['/'] (segments p).dropLast) ↔
      segments k = (segments p).dropLast := by
  have hclean : Clean '/' (segments p).dropLast :=
    fun s hs ↦ clean_segments p s (List.mem_of_mem_dropLast hs)
  rw [canonicalizeListPath_eq, ← spell, segments_spell_of_clean hclean]
  constructor
  · intro h
    apply stem_inj (clean_segments k) hclean
    rw [← canonicalizeListPath_eq, hk]
    exact h
  · intro h
    rw [← h, ← canonicalizeListPath_eq, hk]

/-- What an invalidation leaves under a canonical key. -/
theorem dirCache_invalidateDirCache (hk : canonicalizeListPath k = k) :
    (invalidateDirCache fs p).dirCache k =
      if segments p <+: segments k ∨
          (1 < (segments p).length ∧ segments k = (segments p).dropLast) then none
      else fs.dirCache k := by
  unfold invalidateDirCache
  simp only [prefix_key_iff hk, eq_parentKey_iff hk]
  split_ifs <;> simp_all

/-- The key of the root is the only one that concerns a path and stays. -/
theorem concerns_iff (p k : Path) :
    Concerns p k ↔
      (segments p <+: segments k ∨
        (1 < (segments p).length ∧ segments k = (segments p).dropLast)) ∨
      ((segments p).length = 1 ∧ segments k = []) := by
  unfold Concerns
  rcases hlength : segments p with _ | ⟨s, _ | ⟨t, rest⟩⟩ <;> simp

/-- Nothing appears under a key without listing. -/
theorem dirCache_invalidateDirCache_of_none (hnone : fs.dirCache k = none) :
    (invalidateDirCache fs p).dirCache k = none := by
  unfold invalidateDirCache
  simp [hnone, ite_self]

/-- An invalidation drops exactly the listings that concern the path, unless the path is a
top-level name and the root is listed. -/
theorem invalidateDirCache_exact_iff (hkeys : CanonicalKeys fs) (p : Path) :
    (∀ k, (invalidateDirCache fs p).dirCache k = if Concerns p k then none else fs.dirCache k) ↔
      ¬ ((segments p).length = 1 ∧ fs.dirCache [] ≠ none) := by
  constructor
  · rintro h ⟨hlength, hroot⟩
    have hstarts : ¬ segments p <+: segments [] := by
      intro hpre
      have hle := hpre.length_le
      rw [hlength] at hle
      exact absurd hle (by decide)
    have hconcerns : Concerns p [] := (concerns_iff p []).mpr (.inr ⟨hlength, rfl⟩)
    have hkept := h []
    rw [dirCache_invalidateDirCache (by rfl), if_neg (by simp [hstarts, hlength]),
      if_pos hconcerns] at hkept
    exact hroot hkept
  · intro hno k
    by_cases hnone : fs.dirCache k = none
    · rw [dirCache_invalidateDirCache_of_none hnone, hnone, ite_self]
    · have hk := hkeys k hnone
      have htop : ¬ ((segments p).length = 1 ∧ segments k = []) := by
        rintro ⟨hlength, hsegs⟩
        have hempty : k = [] := by rw [← hk, canonicalizeListPath_eq, hsegs, stem_nil]
        exact hno ⟨hlength, hempty ▸ hnone⟩
      rw [dirCache_invalidateDirCache hk]
      simp [concerns_iff, htop]

/-- A mount with listings of the root and of the directory `a`. -/
def listedMount : MntrsFs :=
  { emptyMount with
    dirCache := fun k ↦ if k = [] ∨ k = ['a', '/'] then some ⟨0, ∅⟩ else none }

private theorem canonicalKeys_listedMount : CanonicalKeys listedMount := by
  intro k hk
  simp only [listedMount, ne_eq, ite_eq_right_iff, reduceCtorEq, imp_false, not_not] at hk
  rcases hk with rfl | rfl <;> rfl

/-- The listings of the directory are dropped with those of an entry below it. -/
theorem invalidateDirCache_exact_iff_sample :
    CanonicalKeys listedMount ∧ ∀ k, (invalidateDirCache listedMount "//a//b/".toList).dirCache k =
      if Concerns "//a//b/".toList k then none else listedMount.dirCache k :=
  ⟨canonicalKeys_listedMount,
    (invalidateDirCache_exact_iff canonicalKeys_listedMount _).mpr (by decide)⟩

/-- The root's listing outlives the invalidation of a top-level name. -/
theorem root_listing_kept :
    CanonicalKeys listedMount ∧ Concerns ['a'] [] ∧
      (invalidateDirCache listedMount ['a']).dirCache [] ≠ none :=
  ⟨canonicalKeys_listedMount, by decide, by decide⟩

end Mntrs

import Mntrs.Base.Glob
import Mntrs.Fs.Listing

/-!
# The filter patterns of a mount

`fnmatch` (`src/src/util.rs:227-261`) reads pattern and name once and keeps one point to go back
to, the last star. It finds every way to cut the name into what the pattern's characters take.
-/

namespace Mntrs

open Base

/-- The name can be cut into what the characters of the pattern take. -/
def Matches (pattern name : Path) : Prop := Globs '*' '?' pattern name

variable {c x : Char} {m n p : Path} {matched : Nat} {star : Option Path}

/-- What the loop has read since the last star: as many characters of the name as of the
pattern, which has no star among them. -/
def SinceStar (p : Path) (matched : Nat) (star : Option Path) : Prop :=
  ∀ q ∈ star, ∃ seg, q = seg ++ p ∧ '*' ∉ seg ∧ seg.length = matched

/-- A way to match that goes back to the last star: it takes one character more at least. -/
def Retries (m : Path) (star : Option Path) : Prop :=
  ∃ q ∈ star, ∃ b, b <:+ m.tail ∧ Matches q b

/-- A retry takes the next character or goes on to a later one. -/
theorem retries_some (q : Path) :
    Retries m (some q) ↔ Matches q m.tail ∨ Retries m.tail (some q) := by
  simp only [Retries, Option.mem_def, Option.some.injEq, exists_eq_left']
  constructor
  · rintro ⟨b, hb, hq⟩
    cases htail : m.tail with
    | nil =>
      rw [htail] at hb
      rw [List.suffix_nil.mp hb] at hq
      exact .inl hq
    | cons d rest =>
      rw [htail] at hb
      rcases List.suffix_cons_iff.mp hb with rfl | hrest
      · exact .inl hq
      · exact .inr ⟨b, hrest, hq⟩
  · rintro (hq | ⟨b, hb, hq⟩)
    · exact ⟨m.tail, List.suffix_rfl, hq⟩
    · exact ⟨b, hb.trans (List.tail_suffix _), hq⟩

/-- A star matches here or, through a retry, further on. -/
theorem matches_star : Matches ('*' :: p) n ↔ Matches p n ∨ Retries n (some p) := by
  rw [Matches, globs_star]
  simp only [Retries, Option.mem_def, Option.some.injEq, exists_eq_left']
  constructor
  · rintro ⟨b, hb, hp⟩
    cases n with
    | nil =>
      rw [List.suffix_nil.mp hb] at hp
      exact .inl hp
    | cons c n =>
      rcases List.suffix_cons_iff.mp hb with rfl | hrest
      · exact .inl hp
      · exact .inr ⟨b, hrest, hp⟩
  · rintro (hp | ⟨b, hb, hp⟩)
    · exact ⟨n, List.suffix_rfl, hp⟩
    · exact ⟨b, hb.trans (List.tail_suffix _), hp⟩

/-- At the end of the name there is nothing to go back for. -/
theorem SinceStar.at_end (h : SinceStar p matched star) (hend : m.drop matched = [])
    (hretry : Retries m star) : Matches p [] := by
  obtain ⟨q, hq, b, hb, hmatch⟩ := hretry
  obtain ⟨seg, rfl, hseg, rfl⟩ := h q hq
  obtain ⟨hlength, hrest⟩ := globs_append hseg hmatch
  have hshort := hb.length_le
  rw [List.length_tail] at hshort
  have hread := List.drop_eq_nil_iff.mp hend
  -- only an empty name has as many characters after a retry as before it
  have hnil : b.drop seg.length = [] := List.drop_eq_nil_of_le (by omega)
  rwa [hnil] at hrest

/-- A new star makes the last one superfluous. -/
theorem SinceStar.at_star (h : SinceStar ('*' :: p) matched star) (hretry : Retries m star) :
    Matches ('*' :: p) (m.drop matched) := by
  obtain ⟨q, hq, b, hb, hmatch⟩ := hretry
  obtain ⟨seg, rfl, hseg, rfl⟩ := h q hq
  exact globs_star_of_retry hseg (hb.trans (List.tail_suffix m)) hmatch

theorem SinceStar.step (h : SinceStar (x :: p) matched star) (hx : x ≠ '*') :
    SinceStar p (matched + 1) star := by
  intro q hq
  obtain ⟨seg, rfl, hseg, rfl⟩ := h q hq
  exact ⟨seg ++ [x], by simp, by simp [hseg, Ne.symm hx], by simp⟩

theorem sinceStar_self (p : Path) : SinceStar p 0 (some p) := by
  intro q hq
  cases hq
  exact ⟨[], rfl, by simp, rfl⟩

/-- A mismatch goes on with the last star. -/
private theorem retry_iff :
    (∀ q, SinceStar q 0 star →
      (fnmatchLoop q m.tail 0 star = true ↔ Matches q m.tail ∨ Retries m.tail star)) →
    ((match star with
      | some q => fnmatchLoop q m.tail 0 star
      | none => false) = true ↔ Retries m star) := by
  intro ih
  cases star with
  | none => simp [Retries]
  | some q =>
    rw [retries_some]
    exact ih q (sinceStar_self q)

/-- The loop finds a match of what is left, here or from the last star on. -/
theorem fnmatchLoop_iff (h : SinceStar p matched star) :
    fnmatchLoop p m matched star = true ↔ Matches p (m.drop matched) ∨ Retries m star := by
  fun_induction fnmatchLoop p m matched star with
  | case1 p m matched star hend =>
    rw [hend, Matches, globs_nil_right, List.isEmpty_iff]
    constructor
    · exact .inl
    · rintro (hp | hretry)
      · exact hp
      · exact globs_nil_right.mp (h.at_end hend hretry)
  | case2 m matched star c n hdrop retry ih =>
    have hno : ¬ Matches [] (c :: n) := by simp [Matches]
    rw [hdrop, or_iff_right hno]
    exact retry_iff ih
  | case3 m matched star c n hdrop p _ ih =>
    rw [ih (sinceStar_self p), hdrop, List.drop_zero, ← matches_star]
    constructor
    · exact .inl
    · rintro (hp | hretry)
      · exact hp
      · exact hdrop ▸ h.at_star hretry
  | case4 m matched star c n hdrop x p hx hc _ ih =>
    have hnext : m.drop (matched + 1) = n := by
      rw [← List.tail_drop, hdrop]
      rfl
    rw [ih (h.step hx), hnext, hdrop]
    simp [Matches, globs_cons_cons hx, hc]
  | case5 m matched star c n hdrop retry x p hx hc ih =>
    have hno : ¬ Matches (x :: p) (c :: n) := by simp [Matches, globs_cons_cons hx, hc]
    rw [hdrop, or_iff_right hno]
    exact retry_iff ih

/-- A pattern matches exactly the names that can be cut into what its characters take, and
without regard to case the lower-case pattern is matched with the lower-case name. -/
theorem fnmatch_iff (cfg : Config) (pattern name : Path) :
    (fnmatch { cfg with ignoreCase := false } pattern name = true ↔ Matches pattern name) ∧
    fnmatch { cfg with ignoreCase := true } pattern name =
      fnmatch { cfg with ignoreCase := false } (cfg.toLowercase pattern)
        (cfg.toLowercase name) := by
  constructor
  · have hstart : SinceStar pattern 0 none := by simp [SinceStar]
    have hloop := @fnmatchLoop_iff name pattern 0 none hstart
    simpa [fnmatch, Retries] using hloop
  · simp [fnmatch]

end Mntrs

import Mathlib.Data.List.Basic

/-!
# Sequences cut at a separator

A sequence of clean segments, which are not empty and do not hold the separator, is spelled with
one separator between two of them. The spelling is cut into the same segments again. With a
separator after each segment the spelling of one sequence starts that of another exactly when the
sequence starts the other.
-/

namespace Mntrs.Base

universe u

variable {α : Type u}

/-- The segments with a separator between two of them. -/
def spell (sep : α) (segs : List (List α)) : List α := List.intercalate [sep] segs

/-- The segments with a separator after each of them. -/
def stem (sep : α) (segs : List (List α)) : List α := segs.flatMap (· ++ [sep])

/-- No segment is empty or holds the separator. -/
def Clean (sep : α) (segs : List (List α)) : Prop := ∀ s ∈ segs, s ≠ [] ∧ sep ∉ s

variable {sep : α} {a b : List (List α)} {n : List α}

@[simp]
theorem stem_nil : stem sep [] = [] := rfl

@[simp]
theorem stem_append : stem sep (a ++ b) = stem sep a ++ stem sep b := by simp [stem]

@[simp]
theorem stem_singleton : stem sep [n] = n ++ [sep] := by simp [stem]

/-- Ending a spelling with the separator gives the stem. -/
theorem spell_append_sep (ha : a ≠ []) : spell sep a ++ [sep] = stem sep a := by
  induction a with
  | nil => exact absurd rfl ha
  | cons s a ih =>
    cases a with
    | nil => simp [spell, stem]
    | cons t a =>
      have hrest := ih (by simp)
      simp only [spell, List.intercalate_cons_cons, List.append_assoc] at hrest ⊢
      rw [hrest]
      simp [stem]

/-- Spelling one more segment. -/
theorem spell_snoc (ha : a ≠ []) : spell sep (a ++ [n]) = spell sep a ++ sep :: n := by
  have hlong := @spell_append_sep _ sep (a ++ [n]) (by simp)
  rw [stem_append, ← spell_append_sep ha, stem_singleton, ← List.append_assoc] at hlong
  simpa using List.append_cancel_right hlong

@[simp]
theorem spell_nil : spell sep [] = [] := rfl

@[simp]
theorem spell_singleton : spell sep [n] = n := by simp [spell]

/-- The first segment, and each other one after a separator. -/
theorem spell_cons : spell sep (n :: a) = n ++ a.flatMap (sep :: ·) := by
  induction a generalizing n with
  | nil => simp
  | cons t a ih =>
    have htail : spell sep (n :: t :: a) = n ++ sep :: spell sep (t :: a) := by
      simp [spell, List.intercalate_cons_cons]
    rw [htail, ih, List.flatMap_cons, List.cons_append]

theorem append_sep_inj {s t : List α} (hs : sep ∉ s) (ht : sep ∉ t) {x y : List α}
    (h : s ++ sep :: x = t ++ sep :: y) : s = t ∧ x = y := by
  induction s generalizing t with
  | nil =>
    cases t with
    | nil => simpa using h
    | cons d t =>
      simp only [List.nil_append, List.cons_append, List.cons.injEq] at h
      simp [h.1] at ht
  | cons c s ih =>
    cases t with
    | nil =>
      simp only [List.nil_append, List.cons_append, List.cons.injEq] at h
      simp [h.1] at hs
    | cons d t =>
      simp only [List.cons_append, List.cons.injEq] at h
      simp only [List.mem_cons, not_or] at hs ht
      obtain ⟨rfl, rfl⟩ := ih hs.2 ht.2 h.2
      exact ⟨by rw [h.1], rfl⟩

/-- One stem starts another exactly when the sequence starts the other. -/
theorem stem_prefix_stem (ha : Clean sep a) (hb : Clean sep b) :
    stem sep a <+: stem sep b ↔ a <+: b := by
  constructor
  · induction a generalizing b with
    | nil => simp
    | cons s a ih =>
      rintro ⟨rest, hrest⟩
      cases b with
      | nil => simp [stem] at hrest
      | cons t b =>
        have hsplit : s ++ sep :: (stem sep a ++ rest) = t ++ sep :: stem sep b := by
          simpa [stem] using hrest
        obtain ⟨rfl, htail⟩ := append_sep_inj (ha s (by simp)).2 (hb t (by simp)).2 hsplit
        have hrec := ih (fun x hx ↦ ha x (by simp [hx])) (fun x hx ↦ hb x (by simp [hx]))
          ⟨rest, htail⟩
        exact List.cons_prefix_cons.mpr ⟨rfl, hrec⟩
  · rintro ⟨c, rfl⟩
    simp

/-- A stem determines its sequence. -/
theorem stem_inj (ha : Clean sep a) (hb : Clean sep b) (h : stem sep a = stem sep b) : a = b := by
  have hab := (stem_prefix_stem ha hb).mp (h ▸ List.prefix_rfl)
  have hba := (stem_prefix_stem hb ha).mp (h ▸ List.prefix_rfl)
  exact hab.eq_of_length (Nat.le_antisymm hab.length_le hba.length_le)

/-- No piece that a sequence is cut into holds the separator. -/
theorem notMem_of_mem_splitOn [BEq α] [LawfulBEq α] {l s : List α} (h : s ∈ l.splitOn sep) :
    sep ∉ s := by
  induction l generalizing s with
  | nil =>
    cases List.mem_singleton.mp h
    exact List.not_mem_nil
  | cons c l ih =>
    rw [List.splitOn_cons_eq_if_modifyHead] at h
    split at h
    · rcases List.mem_cons.mp h with rfl | hrest
      · exact List.not_mem_nil
      · exact ih hrest
    · next hc =>
      cases hsplit : l.splitOn sep with
      | nil => simp [hsplit] at h
      | cons first rest =>
        rw [hsplit] at h
        rcases List.mem_cons.mp h with rfl | hrest
        · have hfirst : sep ∉ first := ih (by simp [hsplit])
          simp only [List.mem_cons, not_or]
          refine ⟨fun heq ↦ hc (by simp [heq]), hfirst⟩
        · exact ih (by simp [hsplit, hrest])

/-- A clean sequence is what its spelling is cut into. -/
theorem splitOn_spell [BEq α] [LawfulBEq α] (ha : Clean sep a) (hnil : a ≠ []) :
    (spell sep a).splitOn sep = a :=
  List.splitOn_intercalate sep (fun s hs ↦ (ha s hs).2) hnil

/-- What a stem is cut into: the segments, and nothing after the last separator. -/
theorem splitOn_stem [BEq α] [LawfulBEq α] (ha : ∀ s ∈ a, sep ∉ s) :
    (stem sep a).splitOn sep = a ++ [[]] := by
  induction a with
  | nil => simp
  | cons s a ih =>
    have hstem : stem sep (s :: a) = s ++ sep :: stem sep a := by simp [stem]
    rw [hstem, List.splitOn_append_cons_self, List.splitOn_eq_singleton (ha s (by simp)),
      ih (fun x hx ↦ ha x (by simp [hx]))]
    rfl

/-- A segment without separator is a piece of every spelling it is in. -/
theorem mem_splitOn_spell [BEq α] [LawfulBEq α] (hn : sep ∉ n) (h : n ∈ a) :
    n ∈ (spell sep a).splitOn sep := by
  induction a with
  | nil => cases h
  | cons s a ih =>
    cases a with
    | nil =>
      cases List.mem_singleton.mp h
      rw [spell_singleton, List.splitOn_eq_singleton hn]
      exact List.mem_singleton_self n
    | cons t a =>
      rw [spell, List.intercalate_cons_cons, List.append_assoc, List.singleton_append,
        List.splitOn_append_cons_self, List.mem_append]
      rcases List.mem_cons.mp h with rfl | hrest
      · left
        rw [List.splitOn_eq_singleton hn]
        exact List.mem_singleton_self n
      · exact .inr (ih hrest)

/-- A spelling holds the separator and what its segments hold. -/
theorem mem_spell {x : α} (h : x ∈ spell sep a) : x = sep ∨ ∃ s ∈ a, x ∈ s := by
  induction a with
  | nil => cases h
  | cons s a ih =>
    cases a with
    | nil =>
      rw [spell_singleton] at h
      exact .inr ⟨s, by simp, h⟩
    | cons t a =>
      rw [spell, List.intercalate_cons_cons, List.append_assoc, List.mem_append,
        List.mem_append, List.mem_singleton] at h
      rcases h with hs | hsep | hrest
      · exact .inr ⟨s, by simp, hs⟩
      · exact .inl hsep
      · exact (ih hrest).imp id (fun ⟨s', hs', hx⟩ ↦ ⟨s', List.mem_cons_of_mem s hs', hx⟩)

end Mntrs.Base

import Mathlib.Data.List.Basic

/-!
# Patterns with wildcards

Two symbols of a pattern are wildcards: `star` stands for any sequence and `any` for one symbol.
A matcher that goes back only to the last star it has read loses nothing: what an earlier star
could still take, the last one can take as well (`globs_star_of_retry`).
-/

namespace Mntrs.Base

universe u

variable {α : Type u} [DecidableEq α]

/-- What one symbol of a pattern takes of the name. -/
def Takes (star any x : α) (piece : List α) : Prop :=
  if x = star then True else if x = any then piece.length = 1 else piece = [x]

/-- The name can be cut into consecutive pieces, one for each symbol of the pattern. -/
def Globs (star any : α) (p n : List α) : Prop :=
  ∃ pieces, List.Forall₂ (Takes star any) p pieces ∧ pieces.flatten = n

variable {star any c x : α} {b n p seg : List α}

@[simp]
theorem globs_nil : Globs star any [] n ↔ n = [] := by
  constructor
  · rintro ⟨pieces, htakes, rfl⟩
    cases htakes
    rfl
  · rintro rfl
    exact ⟨[], .nil, rfl⟩

theorem globs_cons :
    Globs star any (x :: p) n ↔ ∃ a b, a ++ b = n ∧ Takes star any x a ∧ Globs star any p b := by
  constructor
  · rintro ⟨pieces, htakes, rfl⟩
    cases htakes with
    | cons hx hp => exact ⟨_, _, rfl, hx, _, hp, rfl⟩
  · rintro ⟨a, b, rfl, hx, pieces, hp, rfl⟩
    exact ⟨a :: pieces, .cons hx hp, rfl⟩

/-- A star leaves any end of the name to the rest of the pattern. -/
theorem globs_star : Globs star any (star :: p) n ↔ ∃ b, b <:+ n ∧ Globs star any p b := by
  rw [globs_cons]
  constructor
  · rintro ⟨a, b, hab, -, hp⟩
    exact ⟨b, ⟨a, hab⟩, hp⟩
  · rintro ⟨b, ⟨a, hab⟩, hp⟩
    exact ⟨a, b, hab, by simp [Takes], hp⟩

/-- Every other symbol takes exactly one. -/
theorem globs_cons_of_ne (hx : x ≠ star) :
    Globs star any (x :: p) n ↔ ∃ c b, n = c :: b ∧ (x = any ∨ x = c) ∧ Globs star any p b := by
  rw [globs_cons]
  constructor
  · rintro ⟨a, b, rfl, htakes, hp⟩
    simp only [Takes, if_neg hx] at htakes
    split at htakes
    · next hany =>
      obtain ⟨c, rfl⟩ := List.length_eq_one_iff.mp htakes
      exact ⟨c, b, rfl, .inl hany, hp⟩
    · exact ⟨x, b, by simp [htakes], .inr rfl, hp⟩
  · rintro ⟨c, b, rfl, hc, hp⟩
    refine ⟨[c], b, rfl, ?_, hp⟩
    simp only [Takes, if_neg hx]
    split
    · rfl
    · next hany => rw [hc.resolve_left hany]

/-- One symbol that is no star against one of the name. -/
theorem globs_cons_cons (hx : x ≠ star) :
    Globs star any (x :: p) (c :: n) ↔ (x = any ∨ x = c) ∧ Globs star any p n := by
  rw [globs_cons_of_ne hx]
  constructor
  · rintro ⟨c', b, heq, hc, hp⟩
    cases heq
    exact ⟨hc, hp⟩
  · rintro ⟨hc, hp⟩
    exact ⟨c, n, rfl, hc, hp⟩

/-- Wildcards for one symbol match by length. -/
theorem globs_replicate (hany : any ≠ star) (k : Nat) :
    Globs star any (List.replicate k any) n ↔ n.length = k := by
  induction k generalizing n with
  | zero => simp
  | succ k ih =>
    rw [List.replicate_succ, globs_cons_of_ne hany]
    cases n with
    | nil => simp
    | cons c n => simp [ih]

/-- The empty name is matched by stars alone. -/
theorem globs_nil_right : Globs star any p [] ↔ p.dropWhile (· = star) = [] := by
  induction p with
  | nil => simp
  | cons x p ih =>
    by_cases hx : x = star
    · subst hx
      rw [globs_star]
      simpa using ih
    · rw [globs_cons_of_ne hx]
      simp [hx]

/-- A star can take more. -/
theorem globs_star_of_suffix (h : b <:+ n) (hb : Globs star any (star :: p) b) :
    Globs star any (star :: p) n := by
  obtain ⟨d, hd, hp⟩ := globs_star.mp hb
  exact globs_star.mpr ⟨d, hd.trans h, hp⟩

/-- A star takes nothing, or one symbol more. -/
theorem globs_star_cons : Globs star any (star :: p) (c :: n) ↔
    Globs star any p (c :: n) ∨ Globs star any (star :: p) n := by
  rw [globs_star, globs_star]
  constructor
  · rintro ⟨b, hb, hp⟩
    rcases List.suffix_cons_iff.mp hb with rfl | hrest
    · exact .inl hp
    · exact .inr ⟨b, hrest, hp⟩
  · rintro (hp | ⟨b, hb, hp⟩)
    · exact ⟨c :: n, List.suffix_rfl, hp⟩
    · exact ⟨b, hb.trans (List.suffix_cons c n), hp⟩

/-- Symbols that are no wildcards take themselves. -/
theorem globs_literal (hseg : ∀ x ∈ seg, x ≠ star ∧ x ≠ any) :
    Globs star any (seg ++ p) n ↔ ∃ m, n = seg ++ m ∧ Globs star any p m := by
  induction seg generalizing n with
  | nil => simp
  | cons x seg ih =>
    obtain ⟨hstar, hany⟩ := hseg x (by simp)
    have hrest := fun b : List α ↦ @ih b (fun y hy ↦ hseg y (by simp [hy]))
    rw [List.cons_append, globs_cons_of_ne hstar]
    constructor
    · rintro ⟨c, b, rfl, hc, hb⟩
      obtain ⟨m, rfl, hm⟩ := (hrest b).mp hb
      exact ⟨m, by rw [hc.resolve_left hany]; rfl, hm⟩
    · rintro ⟨m, rfl, hm⟩
      exact ⟨x, seg ++ m, rfl, .inr rfl, (hrest _).mpr ⟨m, rfl, hm⟩⟩

/-- Symbols without a star take as many symbols of the name. -/
theorem globs_append (hseg : star ∉ seg) (h : Globs star any (seg ++ p) n) :
    seg.length ≤ n.length ∧ Globs star any p (n.drop seg.length) := by
  induction seg generalizing n with
  | nil => simpa using h
  | cons x seg ih =>
    simp only [List.mem_cons, not_or] at hseg
    obtain ⟨c, b, rfl, -, hb⟩ := (globs_cons_of_ne (Ne.symm hseg.1)).mp h
    obtain ⟨hlength, hrest⟩ := ih hseg.2 hb
    exact ⟨by simpa using hlength, by simpa using hrest⟩

omit [DecidableEq α] in
/-- What a suffix keeps after as many symbols are dropped. -/
theorem drop_suffix_drop (h : b <:+ n) (k : Nat) : b.drop k <:+ n.drop k := by
  obtain ⟨a, rfl⟩ := h
  rw [List.drop_append]
  by_cases hk : k ≤ a.length
  · rw [Nat.sub_eq_zero_of_le hk, List.drop_zero]
    exact (List.drop_suffix k b).trans (List.suffix_append _ _)
  · rw [List.drop_eq_nil_of_le (Nat.le_of_not_le hk), List.nil_append]
    exact List.drop_suffix_drop_left b (Nat.sub_le k a.length)

/-- A retry of an earlier star, whose symbols up to the last star have been matched once, finds
nothing that the last star does not find. -/
theorem globs_star_of_retry (hseg : star ∉ seg) (hb : b <:+ n)
    (h : Globs star any (seg ++ star :: p) b) :
    Globs star any (star :: p) (n.drop seg.length) :=
  globs_star_of_suffix (drop_suffix_drop hb seg.length) (globs_append hseg h).2

end Mntrs.Base

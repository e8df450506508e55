import Mathlib.Data.Set.Insert

/-!
# Numbered entries with a reverse index

A registry gives out numbers from a counter, keeps the name of every live number, and a reverse
index from names to numbers. A reverse entry leads to a live number of that name, or to no live
number at all for the names in a given set; a live number is the one its name leads to, unless it
is in a given set of orphans.
-/

namespace Mntrs.Base

universe u

/-- The names of live numbers, the numbers of names, and the next number. -/
structure Registry (P : Type u) where
  live : Nat → Option P
  find : P → Option Nat
  next : Nat

namespace Registry

variable {P : Type u}

/-- Both directions agree, but for stale reverse entries of some names and some orphaned
numbers. -/
structure Mirrors (stale : Set P) (orphans : Set Nat) (r : Registry P) : Prop where
  mapped : ∀ {i p}, r.live i = some p → r.find p = some i ∨ i ∈ orphans
  sound : ∀ {p i}, r.find p = some i → r.live i = some p ∨ r.live i = none ∧ p ∈ stale
  found : ∀ {p i}, r.find p = some i → i < r.next
  bounded : ∀ {i p}, r.live i = some p → i < r.next

variable {stale : Set P} {orphans : Set Nat} {r : Registry P}

variable {p : P} {i : Nat}

/-- A reverse entry that leads to a live number leads to one of that name. -/
theorem Mirrors.live_eq (h : r.Mirrors stale orphans) {q : P} (hfind : r.find p = some i)
    (hlive : r.live i = some q) : q = p := by
  rcases h.sound hfind with hlive' | ⟨hnone, -⟩
  · exact Option.some.inj (hlive.symm.trans hlive')
  · rw [hlive] at hnone
    cases hnone

/-- Two live numbers of one name are the same, or one is an orphan. -/
theorem Mirrors.mem_orphans (h : r.Mirrors stale orphans) {j : Nat} (hj : r.live j = some p)
    (hfind : r.find p = some i) (hne : j ≠ i) : j ∈ orphans := by
  rcases h.mapped hj with hmapped | horphan
  · exact absurd (Option.some.inj (hmapped.symm.trans hfind)) hne
  · exact horphan

/-- The next number is not live. -/
theorem Mirrors.live_next (h : r.Mirrors stale orphans) : r.live r.next = none := by
  cases hlive : r.live r.next with
  | none => rfl
  | some p => exact absurd (h.bounded hlive) (Nat.lt_irrefl _)

/-- The empty registry. -/
theorem mirrors_empty (stale : Set P) (orphans : Set Nat) (next : Nat) :
    Mirrors stale orphans ⟨fun _ ↦ none, fun _ ↦ none, next⟩ := by
  constructor <;> intro _ _ h <;> cases h

/-- Take a number out and leave the reverse entry of its name. -/
def release (r : Registry P) (i : Nat) : Registry P :=
  { r with live := Function.update r.live i none }

/-- A number can go if the reverse entry that leads to it may be stale. -/
theorem Mirrors.release (h : r.Mirrors stale orphans)
    (hi : ∀ p, r.live i = some p → r.find p = some i → p ∈ stale) :
    (r.release i).Mirrors stale orphans := by
  have hlive : ∀ {j p}, (r.release i).live j = some p → r.live j = some p := by
    intro j p hlive
    have hj : j ≠ i := by
      rintro rfl
      simp [Registry.release] at hlive
    simpa [Registry.release, Function.update_of_ne hj] using hlive
  refine ⟨fun hj ↦ h.mapped (hlive hj), ?_, fun hfind ↦ h.found hfind,
    fun hj ↦ h.bounded (hlive hj)⟩
  intro p j hfind
  by_cases hj : j = i
  · subst hj
    rcases h.sound hfind with hlive | ⟨-, hp⟩
    · exact .inr ⟨by simp [Registry.release], hi p hlive hfind⟩
    · exact .inr ⟨by simp [Registry.release], hp⟩
  · simpa [Registry.release, Function.update_of_ne hj] using h.sound hfind

variable [DecidableEq P]

/-- Give the next number to a name. -/
def register (r : Registry P) (p : P) : Registry P where
  live := Function.update r.live r.next (some p)
  find := Function.update r.find p (some r.next)
  next := r.next + 1

/-- Take a reverse entry out. -/
def unmap (r : Registry P) (p : P) : Registry P :=
  { r with find := Function.update r.find p none }

/-- Let a name lead to a number. -/
def remap (r : Registry P) (p : P) (i : Nat) : Registry P :=
  { r with find := Function.update r.find p (some i) }

/-- Take the reverse entry of a name out, with the number it leads to. -/
def evict (r : Registry P) (p : P) : Registry P where
  live := match r.find p with
    | some i => Function.update r.live i none
    | none => r.live
  find := Function.update r.find p none
  next := r.next

/-- Give another name to a number. -/
def move (r : Registry P) (i : Nat) (src dst : P) : Registry P :=
  { r with
    live := Function.update r.live i (some dst)
    find := Function.update (Function.update r.find src none) dst (some i) }

variable (h : r.Mirrors stale orphans)
include h

/-- A name that no live number has, but for orphans, can be registered. -/
theorem Mirrors.register (hp : ∀ i, r.live i = some p → i ∈ orphans) :
    (r.register p).Mirrors stale orphans := by
  have hfind : ∀ {q i}, (r.register p).find q = some i →
      q = p ∧ i = r.next ∨ r.find q = some i ∧ i ≠ r.next := by
    intro q i hfind
    by_cases hq : q = p
    · subst hq
      simp only [Registry.register, Function.update_self, Option.some.injEq] at hfind
      exact .inl ⟨rfl, hfind.symm⟩
    · simp only [Registry.register, Function.update_of_ne hq] at hfind
      exact .inr ⟨hfind, (h.found hfind).ne⟩
  refine ⟨?_, ?_, ?_, ?_⟩
  · intro i q hlive
    by_cases hi : i = r.next
    · subst hi
      simp only [Registry.register, Function.update_self, Option.some.injEq] at hlive
      simp [Registry.register, hlive]
    · simp only [Registry.register, Function.update_of_ne hi] at hlive
      by_cases hq : q = p
      · exact .inr (hp i (hq ▸ hlive))
      · simpa [Registry.register, Function.update_of_ne hq] using h.mapped hlive
  · intro q i hi
    rcases hfind hi with ⟨rfl, rfl⟩ | ⟨hold, hne⟩
    · exact .inl (by simp [Registry.register])
    · simpa [Registry.register, Function.update_of_ne hne] using h.sound hold
  · intro q i hi
    rcases hfind hi with ⟨rfl, rfl⟩ | ⟨hold, -⟩
    · exact Nat.lt_succ_self _
    · exact Nat.lt_succ_of_lt (h.found hold)
  · intro i q hlive
    by_cases hi : i = r.next
    · exact hi ▸ Nat.lt_succ_self _
    · simp only [Registry.register, Function.update_of_ne hi] at hlive
      exact Nat.lt_succ_of_lt (h.bounded hlive)

/-- A reverse entry can go when no live number has its name, but for orphans. -/
theorem Mirrors.unmap (hp : ∀ i, r.live i = some p → i ∈ orphans) :
    (r.unmap p).Mirrors stale orphans := by
  have hfind : ∀ {q i}, (r.unmap p).find q = some i → r.find q = some i := by
    intro q i hfind
    have hq : q ≠ p := by
      rintro rfl
      simp [Registry.unmap] at hfind
    simpa [Registry.unmap, Function.update_of_ne hq] using hfind
  refine ⟨?_, fun hi ↦ h.sound (hfind hi), fun hi ↦ h.found (hfind hi), fun hi ↦ h.bounded hi⟩
  intro i q hlive
  by_cases hq : q = p
  · exact .inr (hp i (hq ▸ hlive))
  · simpa [Registry.unmap, Function.update_of_ne hq] using h.mapped hlive

/-- A name can lead to a live number that has it, if the number it leads to is not live. -/
theorem Mirrors.remap (hi : r.live i = some p) (hp : ∀ j, r.find p = some j → r.live j = none) :
    (r.remap p i).Mirrors stale orphans := by
  have hfind : ∀ {q j}, (r.remap p i).find q = some j →
      q = p ∧ j = i ∨ r.find q = some j := by
    intro q j hfind
    by_cases hq : q = p
    · subst hq
      simp only [Registry.remap, Function.update_self, Option.some.injEq] at hfind
      exact .inl ⟨rfl, hfind.symm⟩
    · simp only [Registry.remap, Function.update_of_ne hq] at hfind
      exact .inr hfind
  refine ⟨?_, ?_, ?_, fun hj ↦ h.bounded hj⟩
  · intro j q hlive
    by_cases hq : q = p
    · subst hq
      rcases h.mapped hlive with hmapped | horphan
      · exact absurd ((hp j hmapped).symm.trans hlive) (by simp)
      · exact .inr horphan
    · simpa [Registry.remap, Function.update_of_ne hq] using h.mapped hlive
  · intro q j hj
    rcases hfind hj with ⟨rfl, rfl⟩ | hold
    · exact .inl hi
    · exact h.sound hold
  · intro q j hj
    rcases hfind hj with ⟨rfl, rfl⟩ | hold
    · exact h.bounded hi
    · exact h.found hold

/-- A name can go together with the number it leads to. -/
theorem Mirrors.evict (p : P) : (r.evict p).Mirrors stale orphans := by
  cases hp : r.find p with
  | none =>
    have horphan : ∀ i, r.live i = some p → i ∈ orphans := by
      intro i hlive
      rcases h.mapped hlive with hmapped | horphan
      · rw [hmapped] at hp
        cases hp
      · exact horphan
    have hevict : r.evict p = r.unmap p := by simp [Registry.evict, Registry.unmap, hp]
    exact hevict ▸ h.unmap horphan
  | some i =>
    have hlive : ∀ {j q}, (r.evict p).live j = some q → j ≠ i ∧ r.live j = some q := by
      intro j q hlive
      have hj : j ≠ i := by
        rintro rfl
        simp [Registry.evict, hp] at hlive
      simp only [Registry.evict, hp, Function.update_of_ne hj] at hlive
      exact ⟨hj, hlive⟩
    have hfind : ∀ {q j}, (r.evict p).find q = some j → q ≠ p ∧ r.find q = some j := by
      intro q j hfind
      have hq : q ≠ p := by
        rintro rfl
        simp [Registry.evict] at hfind
      simp only [Registry.evict, Function.update_of_ne hq] at hfind
      exact ⟨hq, hfind⟩
    refine ⟨?_, ?_, fun hj ↦ h.found (hfind hj).2, fun hj ↦ h.bounded (hlive hj).2⟩
    · intro j q hj
      obtain ⟨hne, hold⟩ := hlive hj
      by_cases hq : q = p
      · exact .inr (h.mem_orphans (hq ▸ hold) hp hne)
      · simpa [Registry.evict, Function.update_of_ne hq] using h.mapped hold
    · intro q j hj
      obtain ⟨hq, hold⟩ := hfind hj
      by_cases hne : j = i
      · subst hne
        rcases h.sound hold with hlive | ⟨-, hstale⟩
        · exact absurd (h.live_eq hp hlive) hq
        · exact .inr ⟨by simp [Registry.evict, hp], hstale⟩
      · simpa [Registry.evict, hp, Function.update_of_ne hne] using h.sound hold

/-- A number its name leads to can take a name that no other live number has, but for orphans. -/
theorem Mirrors.move {src dst : P} (hi : r.live i = some src) (hsrc : r.find src = some i)
    (hdst : ∀ j, r.live j = some dst → j = i ∨ j ∈ orphans) :
    (r.move i src dst).Mirrors stale orphans := by
  -- a reverse entry is the new one or an old one of a third name
  have hfind : ∀ {q j}, (r.move i src dst).find q = some j →
      q = dst ∧ j = i ∨ r.find q = some j ∧ j ≠ i := by
    intro q j hfind
    by_cases hqd : q = dst
    · subst hqd
      simp only [Registry.move, Function.update_self, Option.some.injEq] at hfind
      exact .inl ⟨rfl, hfind.symm⟩
    · have hqs : q ≠ src := by
        rintro rfl
        simp [Registry.move, Function.update_of_ne hqd] at hfind
      simp only [Registry.move, Function.update_of_ne hqd, Function.update_of_ne hqs] at hfind
      refine .inr ⟨hfind, ?_⟩
      rintro rfl
      exact hqs (h.live_eq hfind hi).symm
  refine ⟨?_, ?_, ?_, ?_⟩
  · intro j q hlive
    by_cases hj : j = i
    · subst hj
      simp only [Registry.move, Function.update_self, Option.some.injEq] at hlive
      simp [Registry.move, hlive]
    · simp only [Registry.move, Function.update_of_ne hj] at hlive
      by_cases hqd : q = dst
      · exact .inr ((hdst j (hqd ▸ hlive)).resolve_left hj)
      · by_cases hqs : q = src
        · exact .inr (h.mem_orphans (hqs ▸ hlive) hsrc hj)
        · simpa [Registry.move, Function.update_of_ne hqd, Function.update_of_ne hqs]
            using h.mapped hlive
  · intro q j hj
    rcases hfind hj with ⟨rfl, rfl⟩ | ⟨hold, hne⟩
    · exact .inl (by simp [Registry.move])
    · simpa [Registry.move, Function.update_of_ne hne] using h.sound hold
  · intro q j hj
    rcases hfind hj with ⟨rfl, rfl⟩ | ⟨hold, -⟩
    · exact h.bounded hi
    · exact h.found hold
  · intro j q hlive
    by_cases hj : j = i
    · subst hj
      exact h.bounded hi
    · simp only [Registry.move, Function.update_of_ne hj] at hlive
      exact h.bounded hlive

end Registry

end Mntrs.Base

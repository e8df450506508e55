import Mathlib.Algebra.GroupWithZero.Nat
import Mathlib.Algebra.Order.BigOperators.Group.List
import Mathlib.Algebra.Order.Group.Nat
import Mathlib.Data.List.AList

/-!
# Tables with retention

Association lists without duplicate keys stand for the concurrent hash maps a program
iterates over. Besides Mathlib's operations such a map has `retain`, which keeps the entries
a predicate accepts.
-/

namespace Mntrs.Base

universe u v w

/-- A finite table with values of one type. -/
abbrev Table (K : Type u) (V : Type v) := AList (fun _ : K ↦ V)

namespace Table

variable {K : Type u} {V : Type v}

/-- Keep the entries a predicate accepts. -/
def retain (m : Table K V) (keep : K → V → Bool) : Table K V :=
  ⟨m.entries.filter (fun e ↦ keep e.1 e.2), m.nodupKeys.sublist List.filter_sublist⟩

variable [DecidableEq K]

/-- Change the value of a key that is present. -/
def modify (m : Table K V) (k : K) (f : V → V) : Table K V :=
  match m.lookup k with
  | none => m
  | some v => m.insert k (f v)

variable {m : Table K V} {k : K}

/-- A key is found with a value exactly when the entry is in the table. -/
theorem lookup_eq_some_iff {v : V} :
    m.lookup k = some v ↔ (⟨k, v⟩ : Sigma fun _ : K ↦ V) ∈ m.entries :=
  AList.mem_lookup_iff

/-- Retention keeps exactly the accepted entries. -/
theorem lookup_retain (m : Table K V) (keep : K → V → Bool) (k : K) :
    (m.retain keep).lookup k = (m.lookup k).filter (keep k) := by
  apply Option.ext
  intro v
  rw [lookup_eq_some_iff, Option.filter_eq_some_iff, lookup_eq_some_iff, retain,
    List.mem_filter]

theorem lookup_modify_of_ne (m : Table K V) {k' : K} (f : V → V) (h : k' ≠ k) :
    (m.modify k f).lookup k' = m.lookup k' := by
  cases hk : m.lookup k with
  | none => simp [modify, hk]
  | some v => simp [modify, hk, AList.lookup_insert_ne h]

/-- Changing a key changes its value if it has one. -/
theorem lookup_modify (m : Table K V) (k : K) (f : V → V) :
    (m.modify k f).lookup k = (m.lookup k).map f := by
  cases hk : m.lookup k with
  | none | some v => simp [modify, hk]

/-- Erasing a key filters it out of the entries. -/
theorem entries_erase (m : Table K V) (k : K) :
    (m.erase k).entries = m.entries.filter (fun e ↦ e.1 ≠ k) := by
  have herase : ∀ l : List (Sigma fun _ : K ↦ V), l.NodupKeys →
      l.kerase k = l.filter (fun e ↦ e.1 ≠ k) := by
    intro l hl
    induction l with
    | nil => rfl
    | cons e l ih =>
      obtain ⟨hnot, hrest⟩ := List.nodupKeys_cons.mp hl
      by_cases he : k = e.1
      · have hkeep : l.filter (fun e ↦ e.1 ≠ k) = l := by
          apply List.filter_eq_self.mpr
          intro e' he'
          have hne : e'.1 ≠ k := by
            rintro rfl
            exact hnot (he ▸ List.mem_keys_of_mem he')
          simpa using hne
        rw [List.kerase_cons_eq he, List.filter_cons_of_neg (by simp [he]), hkeep]
      · rw [List.kerase_cons_ne he, List.filter_cons_of_pos (by simpa using Ne.symm he),
          ih hrest]
  exact herase m.entries m.nodupKeys

/-- The sizes of the values, added up. -/
def weight (size : V → Nat) (m : Table K V) : Nat := (m.entries.map (fun e ↦ size e.2)).sum

/-- Erasing a key takes its value off the weight. -/
theorem weight_erase {v : V} (size : V → Nat) (h : m.lookup k = some v) :
    weight size m = size v + weight size (m.erase k) := by
  have hmem := List.mem_keys_of_mem (lookup_eq_some_iff.mp h)
  obtain ⟨w, l₁, l₂, -, hentries, herase⟩ := List.exists_of_kerase hmem
  have hw : m.lookup k = some w := lookup_eq_some_iff.mpr (hentries ▸ by simp)
  obtain rfl : w = v := Option.some.inj (hw.symm.trans h)
  have hkept : (m.erase k).entries = l₁ ++ l₂ := herase
  rw [weight, weight, hkept, hentries]
  simp only [List.map_append, List.map_cons, List.sum_append, List.sum_cons]
  omega

/-- A new entry adds its value to the weight. -/
theorem weight_insert (size : V → Nat) (v : V) (h : m.lookup k = none) :
    weight size (m.insert k v) = size v + weight size m := by
  rw [weight, AList.entries_insert_of_notMem (AList.lookup_eq_none.mp h), ]
  rfl

end Table

end Mntrs.Base

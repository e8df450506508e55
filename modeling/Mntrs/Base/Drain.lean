import Mathlib.Algebra.GroupWithZero.Nat
import Mathlib.Algebra.Order.BigOperators.Group.List
import Mathlib.Algebra.Order.Group.Nat
import Mathlib.Data.List.Sort

/-!
# Draining a queue until a quota is met

`drain` takes entries off the front of a list until their sizes reach a quota. When the
list is sorted by a rank without ties, an entry is taken exactly when the entries of lower
rank do not meet the quota by themselves.
-/

namespace Mntrs.Base

universe u v

variable {α : Type u} {β : Type v}

/-- The entries taken from the front until their sizes reach the quota. -/
def drain (size : α → Nat) : Nat → List α → List α
  | _, [] => []
  | 0, _ :: _ => []
  | quota + 1, a :: rest => a :: drain size (quota + 1 - size a) rest

/-- Drain in order of rank, lowest first. -/
def drainBy [LinearOrder β] (rank : α → β) (size : α → Nat) (quota : Nat) (l : List α) : List α :=
  drain size quota (l.insertionSort (fun a b ↦ rank a ≤ rank b))

/-- The total size of the entries that rank below one. -/
def sizeBelow [LinearOrder β] (rank : α → β) (size : α → Nat) (l : List α) (a : α) : Nat :=
  ((l.filter (fun b ↦ rank b < rank a)).map size).sum

@[simp] theorem drain_zero (size : α → Nat) (l : List α) : drain size 0 l = [] := by
  cases l <;> rfl

/-- Only entries of the list are taken. -/
theorem drain_sublist (size : α → Nat) (quota : Nat) (l : List α) :
    (drain size quota l).Sublist l := by
  induction l generalizing quota with
  | nil => exact .slnil
  | cons a rest ih =>
    cases quota with
    | zero => exact List.nil_sublist _
    | succ quota => exact (ih _).cons_cons a

variable {size : α → Nat} {a : α} {rank : α → β} {l : List α}

/-- An entry is taken exactly when the entries in front of it do not meet the quota. -/
theorem mem_drain_append_cons {quota : Nat} {pre post : List α} (hpre : a ∉ pre) :
    a ∈ drain size quota (pre ++ a :: post) ↔ (pre.map size).sum < quota := by
  induction pre generalizing quota with
  | nil =>
    cases quota with
    | zero => simp
    | succ quota => simp [drain]
  | cons b pre ih =>
    have hne : a ≠ b := fun h ↦ hpre (h ▸ List.mem_cons_self)
    have hrest : a ∉ pre := fun h ↦ hpre (List.mem_cons_of_mem b h)
    cases quota with
    | zero => simp
    | succ quota =>
      simp only [List.cons_append, drain, List.mem_cons, hne, false_or, List.map_cons,
        List.sum_cons]
      rw [ih hrest]
      omega

/-- The sizes taken reach the quota, unless everything is taken. -/
theorem drain_eq_self_or_le_sum (size : α → Nat) (quota : Nat) (l : List α) :
    drain size quota l = l ∨ quota ≤ ((drain size quota l).map size).sum := by
  induction l generalizing quota with
  | nil => exact .inl rfl
  | cons a rest ih =>
    cases quota with
    | zero => exact .inr (Nat.zero_le _)
    | succ quota =>
      rcases ih (quota + 1 - size a) with hall | hmet
      · exact .inl (by rw [drain, hall])
      · right
        rw [drain, List.map_cons, List.sum_cons]
        omega

variable [LinearOrder β]

private theorem filter_below_of_sorted {pre post : List α}
    (hsorted : (pre ++ a :: post).Pairwise (fun x y ↦ rank x < rank y)) :
    (pre ++ a :: post).filter (fun b ↦ rank b < rank a) = pre := by
  obtain ⟨-, htail, hcross⟩ := List.pairwise_append.mp hsorted
  obtain ⟨hafter, -⟩ := List.pairwise_cons.mp htail
  have hkeep : pre.filter (fun b ↦ rank b < rank a) = pre := by
    apply List.filter_eq_self.mpr
    intro b hb
    exact decide_eq_true (hcross b hb a List.mem_cons_self)
  have hdrop : (a :: post).filter (fun b ↦ rank b < rank a) = [] := by
    apply List.filter_eq_nil_iff.mpr
    intro b hb
    rcases List.mem_cons.mp hb with rfl | hb
    · simp
    · simpa using (hafter b hb).le
  rw [List.filter_append, hkeep, hdrop, List.append_nil]

/-- Draining by rank takes an entry exactly when the entries below it do not meet the
quota. -/
theorem mem_drainBy_iff {quota : Nat} (hrank : (l.map rank).Nodup) (ha : a ∈ l) :
    a ∈ drainBy rank size quota l ↔ sizeBelow rank size l a < quota := by
  set sorted := l.insertionSort (fun x y ↦ rank x ≤ rank y) with hdef
  have hperm : sorted.Perm l := List.perm_insertionSort _ l
  have hle : sorted.Pairwise (fun x y ↦ rank x ≤ rank y) :=
    haveI : Std.Total (fun x y : α ↦ rank x ≤ rank y) := ⟨fun x y ↦ le_total _ _⟩
    haveI : IsTrans α (fun x y : α ↦ rank x ≤ rank y) := ⟨fun x y z ↦ le_trans⟩
    List.pairwise_insertionSort _ l
  have hne : sorted.Pairwise (fun x y ↦ rank x ≠ rank y) :=
    List.pairwise_map.mp ((hperm.map rank).nodup_iff.mpr hrank)
  have hlt : sorted.Pairwise (fun x y ↦ rank x < rank y) :=
    (hle.and hne).imp fun h ↦ lt_of_le_of_ne h.1 h.2
  obtain ⟨pre, post, hsplit⟩ := List.append_of_mem (hperm.mem_iff.mpr ha)
  have hbelow : sizeBelow rank size l a = (pre.map size).sum := by
    have hfilter := (hperm.filter (fun b ↦ rank b < rank a)).map size
    rw [sizeBelow, ← hfilter.sum_eq, hsplit, filter_below_of_sorted (hsplit ▸ hlt)]
  have hout : a ∉ pre := by
    intro hmem
    rw [hsplit] at hlt
    exact lt_irrefl _ ((List.pairwise_append.mp hlt).2.2 a hmem a List.mem_cons_self)
  rw [drainBy, ← hdef, hsplit, hbelow]
  exact mem_drain_append_cons hout

/-- More ranks below an entry of higher rank. -/
theorem sizeBelow_mono {b : α} (h : rank a ≤ rank b) :
    sizeBelow rank size l a ≤ sizeBelow rank size l b := by
  refine List.Sublist.sum_le_sum (.map size (List.monotone_filter_right l fun c hc ↦ ?_)) (by simp)
  exact decide_eq_true ((of_decide_eq_true hc).trans_le h)

/-- Draining by rank keeps nothing, or frees the quota. -/
theorem sum_kept_le (size : α → Nat) (quota : Nat) (hrank : (l.map rank).Nodup) :
    l.filter (fun a ↦ quota ≤ sizeBelow rank size l a) = [] ∨
      ((l.filter (fun a ↦ quota ≤ sizeBelow rank size l a)).map size).sum + quota ≤
        (l.map size).sum := by
  have hperm := List.perm_insertionSort (fun a b ↦ rank a ≤ rank b) l
  have hnodup : l.Nodup := .of_map rank hrank
  have hkept : ∀ a ∈ l, (quota ≤ sizeBelow rank size l a ↔ a ∉ drainBy rank size quota l) := by
    intro a ha
    rw [mem_drainBy_iff hrank ha, Nat.not_lt]
  rcases drain_eq_self_or_le_sum size quota (l.insertionSort (fun a b ↦ rank a ≤ rank b)) with
    hall | hmet
  · left
    refine List.filter_eq_nil_iff.mpr fun a ha ↦ ?_
    rw [decide_eq_true_iff, hkept a ha, drainBy, hall, not_not]
    exact hperm.mem_iff.mpr ha
  · right
    have hnot : (l.filter (fun a ↦ !decide (quota ≤ sizeBelow rank size l a))).Perm
        (drainBy rank size quota l) := by
      refine (List.perm_ext_iff_of_nodup (hnodup.filter _)
        ((hperm.nodup_iff.mpr hnodup).sublist (drain_sublist _ _ _))).mpr fun a ↦ ?_
      rw [List.mem_filter, Bool.not_eq_true', decide_eq_false_iff_not]
      refine ⟨fun ⟨ha, hlt⟩ ↦ ?_, fun ha ↦ ?_⟩
      · by_contra hout
        exact hlt ((hkept a ha).mpr hout)
      · have hmem := hperm.mem_iff.mp ((drain_sublist _ _ _).subset ha)
        exact ⟨hmem, fun hle ↦ (hkept a hmem).mp hle ha⟩
    have hsum := ((List.filter_append_perm (fun a ↦ decide (quota ≤ sizeBelow rank size l a)) l).map
      size).sum_eq
    rw [List.map_append, List.sum_append, (hnot.map size).sum_eq] at hsum
    rw [← drainBy] at hmet
    omega

end Mntrs.Base

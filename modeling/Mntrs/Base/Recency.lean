import Mathlib.Data.List.Induction
import Mathlib.Data.List.Nodup

/-!
# The latest values of a history, the most recent first

Events are about keys. An event about a key takes the key's value out of a list and may put a new
one in front. What is left of a history is the value of each key's last event, in the order of
these events.
-/

namespace Mntrs.Base

universe u v w

variable {E : Type u} {K : Type v} {V : Type w}

section

variable (keyOf : V → K) (key : E → Option K) (value : E → Option V)

/-- An event drops the value of its key and puts its own in front. -/
def touch [DecidableEq K] (l : List V) (e : E) : List V :=
  match key e with
  | none => l
  | some k => (value e).toList ++ l.filter (fun v ↦ keyOf v ≠ k)

/-- What a history leaves. -/
def recency [DecidableEq K] (h : List E) : List V := h.foldl (touch keyOf key value) []

/-- The value is that of the last event about its key. -/
def Latest (h : List E) (v : V) : Prop :=
  ∃ before e after, h = before ++ e :: after ∧ key e = some (keyOf v) ∧ value e = some v ∧
    ∀ x ∈ after, key x ≠ some (keyOf v)

/-- The last event about the first value's key comes after the last one about the second's. -/
def Later (h : List E) (v w : V) : Prop :=
  ∃ before e after, h = before ++ e :: after ∧ key e = some (keyOf v) ∧ value e = some v ∧
    Latest keyOf key value before w ∧ keyOf v ≠ keyOf w ∧
    ∀ x ∈ after, key x ≠ some (keyOf v) ∧ key x ≠ some (keyOf w)

end

variable {keyOf : V → K} {key : E → Option K} {value : E → Option V} {h : List E} {e : E} {v w : V}

/-- One more event about another key. -/
theorem Latest.concat (hl : Latest keyOf key value h v) (he : key e ≠ some (keyOf v)) :
    Latest keyOf key value (h ++ [e]) v := by
  obtain ⟨before, x, after, rfl, hkey, hvalue, hafter⟩ := hl
  refine ⟨before, x, after ++ [e], by simp, hkey, hvalue, ?_⟩
  intro y hy
  rcases List.mem_append.mp hy with hy | hy
  · exact hafter y hy
  · exact List.mem_singleton.mp hy ▸ he

theorem Later.concat (hl : Later keyOf key value h v w) (hv : key e ≠ some (keyOf v))
    (hw : key e ≠ some (keyOf w)) : Later keyOf key value (h ++ [e]) v w := by
  obtain ⟨before, x, after, rfl, hkey, hvalue, hlatest, hne, hafter⟩ := hl
  refine ⟨before, x, after ++ [e], by simp, hkey, hvalue, hlatest, hne, ?_⟩
  intro y hy
  rcases List.mem_append.mp hy with hy | hy
  · exact hafter y hy
  · exact List.mem_singleton.mp hy ▸ ⟨hv, hw⟩

/-- The last event either gives the value or leaves an earlier one alone. -/
theorem latest_concat_iff :
    Latest keyOf key value (h ++ [e]) v ↔
      (key e = some (keyOf v) ∧ value e = some v) ∨
      (Latest keyOf key value h v ∧ key e ≠ some (keyOf v)) := by
  constructor
  · rintro ⟨before, x, after, heq, hkey, hvalue, hafter⟩
    rcases List.eq_nil_or_concat' after with rfl | ⟨after, y, rfl⟩
    · obtain ⟨rfl, hx⟩ := List.append_inj' heq rfl
      cases hx
      exact .inl ⟨hkey, hvalue⟩
    · rw [← List.cons_append, ← List.append_assoc] at heq
      obtain ⟨rfl, hy⟩ := List.append_inj' heq rfl
      cases hy
      exact .inr ⟨⟨before, x, after, rfl, hkey, hvalue, fun z hz ↦ hafter z (by simp [hz])⟩,
        hafter e (by simp)⟩
  · rintro (⟨hkey, hvalue⟩ | ⟨hlatest, he⟩)
    · exact ⟨h, e, [], rfl, hkey, hvalue, by simp⟩
    · exact hlatest.concat he

variable [DecidableEq K]

theorem recency_concat (h : List E) (e : E) :
    recency keyOf key value (h ++ [e]) = touch keyOf key value (recency keyOf key value h) e := by
  rw [recency, List.foldl_concat]
  rfl

theorem mem_touch {l : List V} :
    v ∈ touch keyOf key value l e ↔
      (∃ k, key e = some k ∧ value e = some v) ∨ (v ∈ l ∧ key e ≠ some (keyOf v)) := by
  unfold touch
  cases hkey : key e with
  | none => simp
  | some k => simp [@eq_comm _ k]

section

-- an event's value belongs to the event's key
variable (hvalue : ∀ e k v, key e = some k → value e = some v → keyOf v = k)

include hvalue

/-- What is left are the latest values. -/
theorem mem_recency_iff : v ∈ recency keyOf key value h ↔ Latest keyOf key value h v := by
  induction h using List.reverseRecOn with
  | nil => simp [recency, Latest]
  | append_singleton h e ih =>
    rw [recency_concat, mem_touch, latest_concat_iff, ih]
    constructor
    · rintro (⟨k, hkey, hv⟩ | hold)
      · exact .inl ⟨by rw [hkey, hvalue e k v hkey hv], hv⟩
      · exact .inr hold
    · rintro (⟨hkey, hv⟩ | hold)
      · exact .inl ⟨_, hkey, hv⟩
      · exact .inr hold

/-- A value stands before those whose last event is earlier. -/
theorem pairwise_recency : (recency keyOf key value h).Pairwise (Later keyOf key value h) := by
  induction h using List.reverseRecOn with
  | nil => exact .nil
  | append_singleton h e ih =>
    rw [recency_concat, touch]
    cases hkey : key e with
    | none =>
      exact ih.imp (fun hl ↦ hl.concat (by simp [hkey]) (by simp [hkey]))
    | some k =>
      have hold : ((recency keyOf key value h).filter (fun v ↦ keyOf v ≠ k)).Pairwise
          (Later keyOf key value (h ++ [e])) := by
        apply (ih.filter _).imp_of_mem
        intro v w hv hw hl
        have hvk : keyOf v ≠ k := by simpa using (List.mem_filter.mp hv).2
        have hwk : keyOf w ≠ k := by simpa using (List.mem_filter.mp hw).2
        exact hl.concat (by simp [hkey, Ne.symm hvk]) (by simp [hkey, Ne.symm hwk])
      cases hv : value e with
      | none => exact hold
      | some v =>
        refine List.Pairwise.cons (fun w hw ↦ ?_) hold
        obtain ⟨hmem, hwk⟩ := List.mem_filter.mp hw
        have hvk := hvalue e k v hkey hv
        have hne : keyOf v ≠ keyOf w := by
          rw [hvk]
          exact Ne.symm (by simpa using hwk)
        exact ⟨h, e, [], rfl, by rw [hkey, hvk], hv, (mem_recency_iff hvalue).mp hmem, hne,
          by simp⟩

/-- There is one value for a key. -/
theorem nodup_recency : ((recency keyOf key value h).map keyOf).Nodup := by
  rw [List.Nodup, List.pairwise_map]
  exact (pairwise_recency hvalue).imp (fun ⟨_, _, _, _, _, _, _, hne, _⟩ ↦ hne)

end

end Mntrs.Base

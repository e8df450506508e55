import Mathlib.Data.List.Perm.Basic
import Mntrs.Base.Machine

/-!
# Transactions on a shared datum

A transaction looks at the datum in several steps and ends by replacing it. Nothing keeps the
steps of different transactions apart. A run in which the datum changes only while no other
transaction is past its beginning leaves what the transactions leave one after another.
-/

namespace Mntrs.Base

universe u v w

variable {D : Type u} {T : Type v} {P : Type w}

/-- Run alone, the transaction at `p` turns `d` into `d'`. -/
inductive Ends (next : D → P → P ⊕ D) (d : D) : P → D → Prop
  | done {p : P} {d' : D} (h : next d p = .inr d') : Ends next d p d'
  | go {p q : P} {d' : D} (h : next d p = .inl q) (hq : Ends next d q d') : Ends next d p d'

/-- Run one after another, the transactions turn one datum into the other. -/
inductive Serial (start : T → P) (next : D → P → P ⊕ D) (d : D) : List T → D → Prop
  | nil : Serial start next d [] d
  | snoc {ts : List T} {t : T} {d' d'' : D} (hts : Serial start next d ts d')
      (ht : Ends next d' (start t) d'') : Serial start next d (ts ++ [t]) d''

/-- A transaction under way and where it stands. -/
structure Underway (T : Type v) (P : Type w) where
  txn : T
  now : P
deriving DecidableEq, Repr

/-- The datum, the transactions under way, and those that began and ended, oldest first. -/
structure Shared (D : Type u) (T : Type v) (P : Type w) where
  datum : D
  underway : List (Underway T P)
  begun : List T
  ended : List T
deriving DecidableEq, Repr

/-- A transaction begins, or the one at a position takes its next step. -/
inductive SharedLabel (T : Type v) where
  | begin (t : T)
  | advance (i : Nat)
deriving DecidableEq, Repr

/-- No transaction has begun yet. -/
def Shared.initial (d : D) : Shared D T P := ⟨d, [], [], []⟩

variable {u : Underway T P}

section

variable (start : T → P) (next : D → P → P ⊕ D)

/-- One step of one transaction. -/
def sharedStep (l : SharedLabel T) (s : Shared D T P) : Option (Shared D T P) :=
  match l with
  | .begin t =>
    some { s with underway := s.underway ++ [⟨t, start t⟩], begun := s.begun ++ [t] }
  | .advance i =>
    match s.underway[i]? with
    | none => none
    | some u =>
      match next s.datum u.now with
      | .inl q => some { s with underway := s.underway.set i { u with now := q } }
      | .inr d =>
        some { s with
          datum := d
          underway := s.underway.eraseIdx i
          ended := s.ended ++ [u.txn] }

/-- The step does not change the datum while another transaction is past its beginning, whether or
not that one would read the change. -/
def Undisturbed (s : Shared D T P) : SharedLabel T → Prop
  | .begin _ => True
  | .advance i =>
    ∀ u ∈ s.underway[i]?, ∀ d ∈ (next s.datum u.now).getRight?,
      d = s.datum ∨ ∀ u' ∈ s.underway.eraseIdx i, u'.now = start u'.txn

instance [DecidableEq D] [DecidableEq P] (s : Shared D T P) (l : SharedLabel T) :
    Decidable (Undisturbed start next s l) :=
  match l with
  | .begin _ => inferInstanceAs (Decidable True)
  | .advance i =>
    inferInstanceAs (Decidable (∀ u ∈ s.underway[i]?, ∀ d ∈ (next s.datum u.now).getRight?,
      d = s.datum ∨ ∀ u' ∈ s.underway.eraseIdx i, u'.now = start u'.txn))

/-- A transaction that is under way alone is undisturbed. -/
theorem undisturbed_of_alone {s : Shared D T P} (h : s.underway = [u]) (i : Nat) :
    Undisturbed start next s (.advance i) := by
  intro u' hu' d _
  right
  have hi : i = 0 := by
    obtain ⟨hlt, -⟩ := List.getElem?_eq_some_iff.mp hu'
    simpa [h] using hlt
  simp [h, hi]

/-- What every undisturbed run keeps: a transaction under way ends as it would have ended from its
beginning, those that ended did so one after another, and none is lost. -/
structure Serialised (d : D) (s : Shared D T P) : Prop where
  resumes : ∀ u ∈ s.underway, ∀ d',
    Ends next s.datum u.now d' → Ends next s.datum (start u.txn) d'
  serial : Serial start next d s.ended s.datum
  begun : (s.ended ++ s.underway.map Underway.txn).Perm s.begun

end

variable {start : T → P} {next : D → P → P ⊕ D}

namespace Serialised

variable {d : D} {s s' : Shared D T P}

theorem initial (d : D) : Serialised start next d (Shared.initial d) where
  resumes := by simp [Shared.initial]
  serial := .nil
  begun := by simp [Shared.initial]

section

variable (h : Serialised start next d s)
include h

theorem beginning (t : T) :
    Serialised start next d
      { s with underway := s.underway ++ [⟨t, start t⟩], begun := s.begun ++ [t] } where
  resumes u hu d' hend := by
    rcases List.mem_append.mp hu with hold | hnew
    · exact h.resumes u hold d' hend
    · cases List.mem_singleton.mp hnew
      exact hend
  serial := h.serial
  begun := by
    rw [List.map_append, ← List.append_assoc]
    exact h.begun.append_right _

theorem moving {i : Nat} {q : P} (hu : s.underway[i]? = some u)
    (hnext : next s.datum u.now = .inl q) :
    Serialised start next d { s with underway := s.underway.set i { u with now := q } } where
  resumes u' hu' d' hend := by
    rcases List.mem_or_eq_of_mem_set hu' with hold | rfl
    · exact h.resumes u' hold d' hend
    · exact h.resumes u (List.mem_of_getElem? hu) d' (.go hnext hend)
  serial := h.serial
  begun := by
    obtain ⟨hi, hget⟩ := List.getElem?_eq_some_iff.mp hu
    have htxns : (s.underway.set i { u with now := q }).map Underway.txn =
        s.underway.map Underway.txn := by
      rw [List.map_set]
      refine List.ext_getElem (by simp) (fun j hj hj' ↦ ?_)
      rw [List.getElem_set]
      split
      · next hij =>
        subst hij
        simp [hget]
      · rfl
    rw [htxns]
    exact h.begun

theorem ending {i : Nat} {d' : D} (hu : s.underway[i]? = some u)
    (hnext : next s.datum u.now = .inr d')
    (halone : d' = s.datum ∨ ∀ u' ∈ s.underway.eraseIdx i, u'.now = start u'.txn) :
    Serialised start next d
      { s with
        datum := d'
        underway := s.underway.eraseIdx i
        ended := s.ended ++ [u.txn] } where
  resumes u' hu' d'' hend := by
    rcases halone with rfl | hfresh
    · exact h.resumes u' (List.mem_of_mem_eraseIdx hu') d'' hend
    · rw [hfresh u' hu'] at hend
      exact hend
  serial := .snoc h.serial (h.resumes u (List.mem_of_getElem? hu) d' (.done hnext))
  begun := by
    obtain ⟨hi, hget⟩ := List.getElem?_eq_some_iff.mp hu
    have hperm : (u.txn :: (s.underway.eraseIdx i).map Underway.txn).Perm
        (s.underway.map Underway.txn) := by
      simpa [hget] using (List.getElem_cons_eraseIdx_perm hi).map Underway.txn
    rw [List.append_assoc]
    exact (hperm.append_left s.ended).trans h.begun

/-- One undisturbed step. -/
theorem step {l : SharedLabel T} (hguard : Undisturbed start next s l)
    (hstep : sharedStep start next l s = some s') : Serialised start next d s' := by
  cases l with
  | begin t =>
    cases hstep
    exact h.beginning t
  | advance i =>
    simp only [sharedStep] at hstep
    split at hstep
    · cases hstep
    · next u hu =>
      split at hstep
      · next q hnext =>
        cases hstep
        exact h.moving hu hnext
      · next d' hnext =>
        cases hstep
        exact h.ending hu hnext (hguard u hu d' (by simp [hnext]))

end

/-- An undisturbed run. -/
theorem of_run
    (hrun : GuardedRun (sharedStep start next) (Undisturbed start next) (Shared.initial d) s') :
    Serialised start next d s' :=
  hrun.invariant (Serialised start next d) (fun _ _ _ hs hguard hstep ↦ hs.step hguard hstep)
    (initial d)

end Serialised

/-- If every transaction alone applies a function, transactions one after another fold it. -/
theorem Serial.eq_foldl {apply : D → T → D} (happly : ∀ d d' t, Ends next d (start t) d' →
    d' = apply d t) {d d' : D} {ts : List T} (h : Serial start next d ts d') :
    d' = ts.foldl apply d := by
  induction h with
  | nil => rfl
  | snoc hts ht ih =>
    rw [List.foldl_concat, ← ih]
    exact happly _ _ _ ht

end Mntrs.Base

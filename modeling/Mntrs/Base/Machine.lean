import Mathlib.Logic.Relation

/-!
# Labelled machines: executable steps, guarded runs, invariants and termination

A machine is a partial step function on labels. A guarded run is a run all of whose
steps meet a condition on the label and the state the step starts from; invariants are
proved one step at a time and lifted to runs here, once.
-/

namespace Mntrs.Base

universe u v

variable {S : Type u} {L : Type v}

/-- One step of the machine that meets the guard. -/
def GuardedStep (step : L → S → Option S) (guard : S → L → Prop) (s t : S) : Prop :=
  ∃ l, guard s l ∧ step l s = some t

/-- Finitely many guarded steps. -/
abbrev GuardedRun (step : L → S → Option S) (guard : S → L → Prop) : S → S → Prop :=
  Relation.ReflTransGen (GuardedStep step guard)

/-- Run a list of labels; `none` as soon as one of them is not enabled. -/
def exec (step : L → S → Option S) : List L → S → Option S
  | [], s => some s
  | l :: ls, s => (step l s).bind (exec step ls)

/-- Every label of the list is enabled and meets the guard where it is taken. -/
def Admits (step : L → S → Option S) (guard : S → L → Prop) : List L → S → Prop
  | [], _ => True
  | l :: ls, s => guard s l ∧ ∀ t ∈ step l s, Admits step guard ls t

instance Admits.decidable (step : L → S → Option S) (guard : S → L → Prop)
    [∀ s l, Decidable (guard s l)] : ∀ ls s, Decidable (Admits step guard ls s)
  | [], _ => isTrue trivial
  | l :: ls, s =>
    haveI := Admits.decidable step guard ls
    match h : step l s with
    | none => decidable_of_iff (guard s l) (by simp [Admits, h])
    | some t => decidable_of_iff (guard s l ∧ Admits step guard ls t) (by simp [Admits, h])

variable {step : L → S → Option S} {guard : S → L → Prop} {s t : S}

/-- Two lists of labels run one after the other. -/
theorem exec_append (step : L → S → Option S) (ls ls' : List L) (s : S) :
    exec step (ls ++ ls') s = (exec step ls s).bind (exec step ls') := by
  induction ls generalizing s with
  | nil => rfl
  | cons l ls ih =>
    rw [List.cons_append, exec, exec, Option.bind_assoc]
    congr 1
    funext t
    exact ih t

variable {ls : List L} {event : S → L → Prop}

/-- A list of labels that executes and meets the guard is a guarded run. -/
theorem guardedRun_of_exec (hrun : exec step ls s = some t) (hguard : Admits step guard ls s) :
    GuardedRun step guard s t := by
  induction ls generalizing s with
  | nil =>
    cases hrun
    exact .refl
  | cons l ls ih =>
    obtain ⟨m, hm, hrest⟩ := Option.bind_eq_some_iff.mp hrun
    exact .head ⟨l, hguard.1, hm⟩ (ih hrest (hguard.2 m hm))

/-- A guarded run executes a list of labels that meets the guard. -/
theorem GuardedRun.exists_exec (hrun : GuardedRun step guard s t) :
    ∃ ls, exec step ls s = some t ∧ Admits step guard ls s := by
  induction hrun using Relation.ReflTransGen.head_induction_on with
  | refl => exact ⟨[], rfl, trivial⟩
  | head hfirst _ ih =>
    obtain ⟨l, hg, hl⟩ := hfirst
    obtain ⟨ls, hls, hadmits⟩ := ih
    refine ⟨l :: ls, ?_, hg, fun u hu ↦ ?_⟩
    · rw [exec, hl]
      exact hls
    · cases hl.symm.trans hu
      exact hadmits

/-- A guard that always holds admits every list of labels. -/
theorem admits_of_forall (h : ∀ s l, guard s l) (ls : List L) (s : S) :
    Admits step guard ls s := by
  induction ls generalizing s with
  | nil => trivial
  | cons l ls ih => exact ⟨h s l, fun t _ ↦ ih t⟩

/-- A list of labels that executes to a state with a property. -/
theorem exists_exec (step : L → S → Option S) (P : S → Prop) [DecidablePred P] (ls : List L)
    (s : S) (hrun : (exec step ls s).any (fun t ↦ P t)) :
    ∃ t, exec step ls s = some t ∧ P t := by
  obtain ⟨t, ht, hP⟩ := (Option.any_eq_true _ _).mp hrun
  exact ⟨t, ht, of_decide_eq_true hP⟩

/-- If the list meets the guard, that is a guarded run. -/
theorem exists_guardedRun (step : L → S → Option S) (guard : S → L → Prop) (P : S → Prop)
    [DecidablePred P] (ls : List L) (s : S)
    (hrun : (exec step ls s).any (fun t ↦ P t)) (hguard : Admits step guard ls s) :
    ∃ t, GuardedRun step guard s t ∧ P t := by
  obtain ⟨t, ht, hP⟩ := exists_exec step P ls s hrun
  exact ⟨t, guardedRun_of_exec ht hguard, hP⟩

/-- What every guarded step preserves, every guarded run preserves. -/
theorem GuardedRun.invariant (hrun : GuardedRun step guard s t) (inv : S → Prop)
    (hstep : ∀ s l t, inv s → guard s l → step l s = some t → inv t) (hs : inv s) : inv t := by
  induction hrun with
  | refl => exact hs
  | tail _ hlast ih =>
    obtain ⟨l, hg, hl⟩ := hlast
    exact hstep _ l _ ih hg hl

/-- A run under a guard is a run under any weaker guard. -/
theorem GuardedRun.mono {guard' : S → L → Prop} (hrun : GuardedRun step guard s t)
    (h : ∀ s l, guard s l → guard' s l) : GuardedRun step guard' s t :=
  Relation.ReflTransGen.mono (fun _ _ ⟨l, hg, hl⟩ ↦ ⟨l, h _ l hg, hl⟩) _ _ hrun

/-- Some step of a run meets a description. -/
def Occurs (step : L → S → Option S) (guard event : S → L → Prop) (s t : S) : Prop :=
  ∃ u l v, GuardedRun step guard s u ∧ guard u l ∧ event u l ∧ step l u = some v ∧
    GuardedRun step guard v t

/-- What has occurred in a run has occurred in every longer one. -/
theorem Occurs.tail {u : S} (h : Occurs step guard event s t) (hstep : GuardedStep step guard t u) :
    Occurs step guard event s u := by
  obtain ⟨a, l, b, hbefore, hguard, hevent, hl, hafter⟩ := h
  exact ⟨a, l, b, hbefore, hguard, hevent, hl, hafter.tail hstep⟩

/-- The last step of a run occurs in it. -/
theorem Occurs.last {u : S} {l : L} (hrun : GuardedRun step guard s t) (hguard : guard t l)
    (hevent : event t l) (hstep : step l t = some u) : Occurs step guard event s u :=
  ⟨t, l, u, hrun, hguard, hevent, hstep, .refl⟩

/-- If the steps of one party lower a measure and no other step raises it while an invariant
holds, that party takes at most as many steps as the measure says. -/
theorem countP_add_le_of_measure {inv : S → Prop} (own : L → Bool) (measure : S → Nat)
    (hinv : ∀ s l t, inv s → guard s l → step l s = some t → inv t)
    (hle : ∀ s l t, inv s → guard s l → step l s = some t → measure t ≤ measure s)
    (hlt : ∀ s l t, inv s → guard s l → step l s = some t → own l = true → measure t < measure s)
    (hs : inv s) (hrun : exec step ls s = some t) (hguard : Admits step guard ls s) :
    ls.countP own + measure t ≤ measure s := by
  induction ls generalizing s with
  | nil =>
    cases hrun
    simp
  | cons l ls ih =>
    obtain ⟨m, hm, hrest⟩ := Option.bind_eq_some_iff.mp hrun
    have htail := ih (hinv s l m hs hguard.1 hm) hrest (hguard.2 m hm)
    have hstep := hle s l m hs hguard.1 hm
    rw [List.countP_cons]
    split
    · next hown =>
      have hown := hlt s l m hs hguard.1 hm hown
      omega
    · omega

/-- The steps of a list of labels that are events where they are taken. -/
def countSteps (step : L → S → Option S) (event : S → L → Bool) : List L → S → Nat
  | [], _ => 0
  | l :: ls, s =>
    (event s l).toNat + match step l s with
      | some t => countSteps step event ls t
      | none => 0

/-- If every event lowers a measure by one and no other step changes it, a run has as many events
as the measure goes down. -/
theorem countSteps_add_of_measure {event : S → L → Bool} (inv : S → Nat → Prop)
    (hstep : ∀ s l t n, inv s n → guard s l → step l s = some t →
      ∃ m, inv t m ∧ (event s l).toNat + m = n) {n : Nat} (hs : inv s n)
    (hrun : exec step ls s = some t) (hguard : Admits step guard ls s) :
    ∃ m, inv t m ∧ countSteps step event ls s + m = n := by
  induction ls generalizing s n with
  | nil =>
    cases hrun
    exact ⟨n, hs, Nat.zero_add n⟩
  | cons l ls ih =>
    obtain ⟨u, hu, hrest⟩ := Option.bind_eq_some_iff.mp hrun
    obtain ⟨m, hm, hcount⟩ := hstep s l u n hs hguard.1 hu
    obtain ⟨k, hk, hcounts⟩ := ih hm hrest (hguard.2 u hu)
    refine ⟨k, hk, ?_⟩
    simp only [countSteps, hu]
    omega

end Mntrs.Base

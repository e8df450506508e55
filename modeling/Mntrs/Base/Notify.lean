import Mathlib.Data.List.Nodup

/-!
# A notification cell

Tasks wait on a cell by creating a future and polling it; others wake one of them or all. Waking
one without a registered waiter leaves a permit, which the next poll takes; waking all reaches the
futures that exist and leaves none. A poll looks for a permit first. Raw operations first; `WF`
says how permit, waiters and the states of the tasks belong together.
-/

namespace Mntrs.Base

/-- Where a task stands with its future: it has none, has created one (and whether all were woken
since), has polled it without success, or has been notified. -/
inductive Waiting where
  | idle
  | created (woken : Bool)
  | registered
  | notified
deriving DecidableEq, Repr

/-- A cell: its permit, the registered tasks from the oldest, and the tasks. -/
structure Notify where
  permit : Bool
  waiters : List Nat
  task : Nat → Waiting

variable {i : Nat}

namespace Notify

/-- A cell nobody waits on. -/
def new : Notify := ⟨false, [], fun _ ↦ .idle⟩

/-- A task creates its future. -/
def create (n : Notify) (i : Nat) : Notify :=
  { n with task := Function.update n.task i (.created false) }

/-- A task polls its future for the first time. -/
def poll (n : Notify) (i : Nat) : Notify :=
  if n.permit then { n with permit := false, task := Function.update n.task i .notified }
  else if n.task i = .created true then { n with task := Function.update n.task i .notified }
  else { n with waiters := n.waiters ++ [i], task := Function.update n.task i .registered }

/-- A notified task goes on. -/
def resume (n : Notify) (i : Nat) : Notify :=
  { n with task := Function.update n.task i .idle }

/-- Wake the oldest registered task, or leave a permit. -/
def notifyOne (n : Notify) : Notify :=
  match n.waiters with
  | [] => { n with permit := true }
  | i :: rest => { n with waiters := rest, task := Function.update n.task i .notified }

/-- Wake every task that has a future. -/
def notifyWaiters (n : Notify) : Notify :=
  { n with
    waiters := []
    task := fun i ↦ match n.task i with
      | .created _ => .created true
      | .registered => .notified
      | w => w }

/-- A permit is left over only without waiters, and the waiters are the registered tasks. -/
structure WF (n : Notify) : Prop where
  permit : n.permit = true → n.waiters = []
  mem : ∀ i, i ∈ n.waiters ↔ n.task i = .registered
  nodup : n.waiters.Nodup

variable {n : Notify}

theorem wf_new : new.WF := by
  constructor <;> simp [new]

theorem WF.mem_update (h : n.WF) {w : Waiting} (hi : n.task i ≠ .registered)
    (hw : w ≠ .registered) (j : Nat) :
    j ∈ n.waiters ↔ Function.update n.task i w j = .registered := by
  rw [h.mem, Function.update_apply]
  split
  · next hj => simp [hj, hi, hw]
  · rfl

/-- A task without future creates one. -/
theorem WF.create (h : n.WF) (hi : n.task i = .idle) : (n.create i).WF where
  permit := h.permit
  mem := h.mem_update (by simp [hi]) (by decide)
  nodup := h.nodup

/-- A task with a fresh future polls it. -/
theorem WF.poll (h : n.WF) {woken : Bool} (hi : n.task i = .created woken) : (n.poll i).WF := by
  unfold Notify.poll
  split
  · next hpermit =>
    exact ⟨fun _ ↦ h.permit hpermit, h.mem_update (by simp [hi]) (by decide), h.nodup⟩
  · next hpermit =>
    split
    · exact ⟨h.permit, h.mem_update (by simp [hi]) (by decide), h.nodup⟩
    refine ⟨fun hp ↦ absurd hp hpermit, ?_, ?_⟩
    · intro j
      simp only [List.mem_append, List.mem_singleton, h.mem, Function.update_apply]
      split <;> next hj => simp [hj]
    · have hnot : i ∉ n.waiters := by
        rw [h.mem, hi]
        exact Waiting.noConfusion
      rw [List.nodup_append]
      refine ⟨h.nodup, by simp, ?_⟩
      intro a ha b hb hab
      rw [List.mem_singleton.mp hb] at hab
      exact hnot (hab ▸ ha)

/-- A notified task goes on. -/
theorem WF.resume (h : n.WF) (hi : n.task i = .notified) : (n.resume i).WF where
  permit := h.permit
  mem := h.mem_update (by simp [hi]) (by decide)
  nodup := h.nodup

/-- One task is woken. -/
theorem WF.notifyOne (h : n.WF) : n.notifyOne.WF := by
  unfold Notify.notifyOne
  split
  · next hnil => exact ⟨fun _ ↦ hnil, h.mem, h.nodup⟩
  · next i rest hcons =>
    have hnodup := h.nodup
    rw [hcons, List.nodup_cons] at hnodup
    refine ⟨?_, ?_, hnodup.2⟩
    · intro hp
      rw [h.permit hp] at hcons
      cases hcons
    · intro j
      simp only [Function.update_apply]
      split
      · next hj =>
        subst hj
        simp [hnodup.1]
      · next hj => rw [← h.mem, hcons, List.mem_cons, or_iff_right hj]

/-- All tasks are woken. -/
theorem wf_notifyWaiters (n : Notify) : n.notifyWaiters.WF where
  permit _ := rfl
  mem i := by
    simp only [Notify.notifyWaiters, List.not_mem_nil, false_iff]
    cases n.task i <;> simp
  nodup := List.nodup_nil

/-- Waking one leaves a permit, or a notified task that was registered. -/
theorem notifyOne_cases (n : Notify) :
    n.notifyOne = { n with permit := true } ∨
      ∃ i rest, n.waiters = i :: rest ∧ n.notifyOne =
        { n with waiters := rest, task := Function.update n.task i .notified } := by
  unfold Notify.notifyOne
  split
  · exact .inl rfl
  · next i rest hcons => exact .inr ⟨i, rest, hcons, rfl⟩

end Notify

end Mntrs.Base

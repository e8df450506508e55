import Mathlib.Data.Finset.Basic

/-!
# A keyed work queue with a dedup set

Tasks travel from a channel through a queue to running jobs, three stages that each hold
tasks with a key. Beside them stands a dedup set of keys: a submission is dropped when its
key is in the set. Nothing ties the set to the stages by itself; `Covered`, `Unique` and
`Registered` are the three ways they can agree. The lemmas say what each operation does to the
tasks, up to order, and what that does to the accounts.
-/

namespace Mntrs.Base

open List

universe u v w

/-- The three stages and the dedup set. -/
structure DedupQueue (K : Type u) (T : Type v) (R : Type w) where
  pending : Finset K
  chan : List T
  queue : List T
  running : List R
deriving DecidableEq

namespace DedupQueue

variable {K : Type u} {T : Type v} {R : Type w} [DecidableEq K]

/-- Append a task to the channel without looking at the dedup set. -/
def post (q : DedupQueue K T R) (t : T) : DedupQueue K T R :=
  { q with chan := q.chan ++ [t] }

/-- Enter a key into the dedup set and append its task, unless the key is there already. -/
def submit (q : DedupQueue K T R) (k : K) (t : T) : DedupQueue K T R :=
  if k ∈ q.pending then q else { q.post t with pending := insert k q.pending }

/-- Take a key out of the dedup set. -/
def cancel (q : DedupQueue K T R) (k : K) : DedupQueue K T R :=
  { q with pending := q.pending.erase k }

/-- Move the oldest task of the channel to the queue. -/
def recv (q : DedupQueue K T R) : Option (DedupQueue K T R) :=
  match q.chan with
  | [] => none
  | t :: rest => some { q with chan := rest, queue := q.queue ++ [t] }

/-- Take the task at a position off the queue. -/
def drop (q : DedupQueue K T R) (i : Nat) : DedupQueue K T R :=
  { q with queue := q.queue.eraseIdx i }

/-- Turn the task at a position of the queue into a running job. -/
def start (q : DedupQueue K T R) (i : Nat) (r : R) : DedupQueue K T R :=
  { q.drop i with running := q.running ++ [r] }

/-- Replace a running job by its next stage. -/
def advance (q : DedupQueue K T R) (i : Nat) (r : R) : DedupQueue K T R :=
  { q with running := q.running.set i r }

/-- Take a running job out. -/
def retire (q : DedupQueue K T R) (i : Nat) : DedupQueue K T R :=
  { q with running := q.running.eraseIdx i }

/-- The tasks of the three stages. -/
def tasks (task : R → T) (q : DedupQueue K T R) : List T :=
  q.chan ++ q.queue ++ q.running.map task

/-- The number of tasks with a key in the three stages. -/
def inFlight (key : T → K) (task : R → T) (q : DedupQueue K T R) (k : K) : Nat :=
  (q.tasks task).countP (key · = k)

/-- Every key of the dedup set has a task in flight. -/
def Covered (key : T → K) (task : R → T) (q : DedupQueue K T R) : Prop :=
  ∀ k ∈ q.pending, 0 < q.inFlight key task k

/-- No key has two tasks in flight. -/
def Unique (key : T → K) (task : R → T) (q : DedupQueue K T R) : Prop :=
  ∀ k, q.inFlight key task k ≤ 1

/-- Every task in flight has its key in the dedup set, or is exempt. -/
def Registered (key : T → K) (task : R → T) (exempt : T → Prop) (q : DedupQueue K T R) : Prop :=
  ∀ t ∈ q.tasks task, key t ∈ q.pending ∨ exempt t

/-! ### The tasks after each operation -/

variable {k : K} {q' : DedupQueue K T R} {i : Nat} {t : T} {r : R}

section tasks

variable {task : R → T} {q : DedupQueue K T R}

omit [DecidableEq K] in
/-- Posting adds a task. -/
theorem tasks_post (task : R → T) (q : DedupQueue K T R) (t : T) :
    (q.post t).tasks task ~ t :: q.tasks task := by
  simp only [tasks, post, List.append_assoc, List.singleton_append]
  exact List.perm_middle

/-- A submission whose key is not registered enters the key. -/
theorem pending_submit (q : DedupQueue K T R) (t : T) (h : k ∉ q.pending) :
    (q.submit k t).pending = insert k q.pending := by
  rw [submit, if_neg h]

/-- A submission whose key is not registered adds a task. -/
theorem tasks_submit (task : R → T) (q : DedupQueue K T R) (t : T) (h : k ∉ q.pending) :
    (q.submit k t).tasks task ~ t :: q.tasks task := by
  rw [submit, if_neg h]
  exact tasks_post task q t

omit [DecidableEq K] in
/-- Receiving moves a task between stages. -/
theorem tasks_recv (task : R → T) (h : q.recv = some q') :
    q'.tasks task ~ q.tasks task ∧ q'.pending = q.pending := by
  cases hc : q.chan with
  | nil => simp [recv, hc] at h
  | cons t rest =>
    simp only [recv, hc] at h
    cases h
    refine ⟨?_, rfl⟩
    simp only [tasks, hc, List.cons_append, List.append_assoc]
    rw [← List.append_assoc, ← List.append_assoc]
    exact List.perm_middle

omit [DecidableEq K] in
/-- Dropping a queued task takes it away. -/
theorem tasks_drop (h : q.queue[i]? = some t) : q.tasks task ~ t :: (q.drop i).tasks task := by
  obtain ⟨hi, rfl⟩ := List.getElem?_eq_some_iff.mp h
  have hqueue := (List.getElem_cons_eraseIdx_perm hi).symm
  have hfront := (hqueue.append_left q.chan).trans List.perm_middle
  exact hfront.append_right _

omit [DecidableEq K] in
/-- Starting a queued task moves it between stages. -/
theorem tasks_start (h : q.queue[i]? = some (task r)) :
    (q.start i r).tasks task ~ q.tasks task := by
  refine List.Perm.trans ?_ (tasks_drop h).symm
  simp only [tasks, start, drop, List.map_append, List.map_cons, List.map_nil]
  rw [← List.append_assoc]
  exact List.perm_append_singleton _ _

omit [DecidableEq K] in
/-- A running job that advances keeps its task. -/
theorem tasks_advance {r' : R} (h : q.running[i]? = some r) (hr : task r' = task r) :
    (q.advance i r').tasks task = q.tasks task := by
  obtain ⟨hi, rfl⟩ := List.getElem?_eq_some_iff.mp h
  have hset : (q.running.set i r').map task = q.running.map task := by
    rw [List.map_set, hr]
    apply List.ext_getElem?
    intro j
    rw [List.getElem?_set]
    split
    · next hij => simp [← hij, hi]
    · rfl
  simp [tasks, advance, hset]

omit [DecidableEq K] in
/-- Retiring a running job takes its task away. -/
theorem tasks_retire (task : R → T) (h : q.running[i]? = some r) :
    q.tasks task ~ task r :: (q.retire i).tasks task := by
  obtain ⟨hi, rfl⟩ := List.getElem?_eq_some_iff.mp h
  have hrunning := ((List.getElem_cons_eraseIdx_perm hi).map task).symm
  exact (hrunning.append_left _).trans List.perm_middle

end tasks

/-! ### The tasks of one key, by stage -/

section ofKey

variable {keyT : T → K} {keyR : R → K} {q : DedupQueue K T R}

/-- The tasks of a key that no job has started. -/
def waiting (keyT : T → K) (k : K) (q : DedupQueue K T R) : Multiset T :=
  Multiset.filter (fun t ↦ keyT t = k) ↑(q.chan ++ q.queue)

/-- The running jobs of a key. -/
def jobs (keyR : R → K) (k : K) (q : DedupQueue K T R) : Multiset R :=
  Multiset.filter (fun r ↦ keyR r = k) ↑q.running

/-- A posted task waits. -/
theorem waiting_post (q : DedupQueue K T R) (ht : keyT t = k) :
    (q.post t).waiting keyT k = t ::ₘ q.waiting keyT k := by
  have hperm : (↑((q.post t).chan ++ (q.post t).queue) : Multiset T) =
      t ::ₘ ↑(q.chan ++ q.queue) := by
    rw [Multiset.cons_coe, Multiset.coe_eq_coe, post, List.append_assoc]
    exact List.perm_middle
  rw [waiting, hperm]
  exact Multiset.filter_cons_of_pos _ ht

/-- Receiving keeps the waiting tasks. -/
theorem waiting_recv (h : q.recv = some q') : q'.waiting keyT k = q.waiting keyT k := by
  cases hc : q.chan with
  | nil => simp [recv, hc] at h
  | cons t rest =>
    simp only [recv, hc] at h
    cases h
    rw [waiting, waiting, hc, ← List.append_assoc]
    congr 1
    exact Multiset.coe_eq_coe.mpr (List.perm_append_singleton t _)

/-- Receiving keeps the running jobs. -/
theorem jobs_recv (h : q.recv = some q') : q'.jobs keyR k = q.jobs keyR k := by
  unfold recv at h
  split at h <;> cases h
  rfl

/-- A task that leaves the queue was waiting. -/
theorem waiting_drop (h : q.queue[i]? = some t) (ht : keyT t = k) :
    q.waiting keyT k = t ::ₘ (q.drop i).waiting keyT k := by
  obtain ⟨hi, rfl⟩ := List.getElem?_eq_some_iff.mp h
  have hperm : (↑(q.chan ++ q.queue) : Multiset T) =
      q.queue[i] ::ₘ ↑(q.chan ++ q.queue.eraseIdx i) := by
    rw [Multiset.cons_coe, Multiset.coe_eq_coe]
    exact ((List.getElem_cons_eraseIdx_perm hi).symm.append_left q.chan).trans List.perm_middle
  rw [waiting, hperm]
  exact Multiset.filter_cons_of_pos _ ht

/-- A job that starts runs. -/
theorem jobs_start (keyR : R → K) (q : DedupQueue K T R) (i : Nat) (hr : keyR r = k) :
    (q.start i r).jobs keyR k = r ::ₘ q.jobs keyR k := by
  have hperm : (↑(q.running ++ [r]) : Multiset R) = r ::ₘ ↑q.running := by
    rw [Multiset.cons_coe, Multiset.coe_eq_coe]
    exact List.perm_append_singleton r _
  rw [jobs, start, hperm]
  exact Multiset.filter_cons_of_pos _ hr

/-- A job that retires was running. -/
theorem jobs_retire (keyR : R → K) (h : q.running[i]? = some r) (hr : keyR r = k) :
    q.jobs keyR k = r ::ₘ (q.retire i).jobs keyR k := by
  obtain ⟨hi, rfl⟩ := List.getElem?_eq_some_iff.mp h
  have hperm : (↑q.running : Multiset R) = q.running[i] ::ₘ ↑(q.running.eraseIdx i) := by
    rw [Multiset.cons_coe, Multiset.coe_eq_coe]
    exact (List.getElem_cons_eraseIdx_perm hi).symm
  rw [jobs, hperm]
  exact Multiset.filter_cons_of_pos _ hr

/-- A job that advances takes its own place. -/
theorem jobs_advance (keyR : R → K) {r' : R} (h : q.running[i]? = some r) (hr : keyR r' = k) :
    (q.advance i r').jobs keyR k = r' ::ₘ (q.retire i).jobs keyR k := by
  obtain ⟨hi, rfl⟩ := List.getElem?_eq_some_iff.mp h
  have hi' : i < (q.running.set i r').length := by simpa using hi
  have hperm : (↑(q.running.set i r') : Multiset R) = r' ::ₘ ↑(q.running.eraseIdx i) := by
    rw [Multiset.cons_coe, Multiset.coe_eq_coe]
    have hset := (List.getElem_cons_eraseIdx_perm hi').symm
    rwa [List.getElem_set_self, List.eraseIdx_set_eq] at hset
  rw [jobs, advance, hperm]
  exact Multiset.filter_cons_of_pos _ hr

end ofKey

/-! ### A condition on every task and job -/

/-- Every task that waits meets one condition, and every job that runs another. -/
structure Holds (P : T → Prop) (Q : R → Prop) (q : DedupQueue K T R) : Prop where
  waiting : ∀ t ∈ q.chan ++ q.queue, P t
  running : ∀ r ∈ q.running, Q r

namespace Holds

variable {P : T → Prop} {Q : R → Prop} {q : DedupQueue K T R}

omit [DecidableEq K] in
/-- A task that meets the condition may be posted. -/
theorem post (h : q.Holds P Q) (ht : P t) : (q.post t).Holds P Q where
  waiting t' ht' := by
    rw [DedupQueue.post, List.append_assoc, List.singleton_append] at ht'
    rcases List.mem_cons.mp (List.perm_middle.subset ht') with rfl | hold
    · exact ht
    · exact h.waiting t' hold
  running := h.running

/-- Cancelling a key moves no task. -/
theorem cancel (h : q.Holds P Q) (k : K) : (q.cancel k).Holds P Q :=
  ⟨h.waiting, h.running⟩

omit [DecidableEq K] in
/-- A received task still waits. -/
theorem recv (h : q.Holds P Q) (hrecv : q.recv = some q') : q'.Holds P Q := by
  cases hc : q.chan with
  | nil => simp [DedupQueue.recv, hc] at hrecv
  | cons t rest =>
    simp only [DedupQueue.recv, hc] at hrecv
    cases hrecv
    refine ⟨fun t' ht' ↦ h.waiting t' ?_, h.running⟩
    rw [hc]
    simp only [List.mem_append, List.mem_cons, List.not_mem_nil, or_false] at ht' ⊢
    tauto

omit [DecidableEq K] in
/-- A queued task meets the condition. -/
theorem queued (h : q.Holds P Q) (ht : q.queue[i]? = some t) : P t :=
  h.waiting t (List.mem_append_right _ (List.mem_of_getElem? ht))

omit [DecidableEq K] in
/-- A running job meets its condition. -/
theorem job (h : q.Holds P Q) (hr : q.running[i]? = some r) : Q r :=
  h.running r (List.mem_of_getElem? hr)

omit [DecidableEq K] in
/-- A queued task may go. -/
theorem drop (h : q.Holds P Q) (i : Nat) : (q.drop i).Holds P Q where
  waiting t ht := by
    refine h.waiting t (List.mem_append.mpr ((List.mem_append.mp ht).imp id ?_))
    exact List.mem_of_mem_eraseIdx
  running := h.running

omit [DecidableEq K] in
/-- A queued task may become a job that meets the condition of jobs. -/
theorem start (h : q.Holds P Q) (i : Nat) (hr : Q r) : (q.start i r).Holds P Q where
  waiting := (h.drop i).waiting
  running r' hr' := by
    rcases List.mem_append.mp hr' with hold | hnew
    · exact h.running r' hold
    · rwa [List.mem_singleton.mp hnew]

omit [DecidableEq K] in
/-- A job may become another that meets the condition. -/
theorem advance (h : q.Holds P Q) (i : Nat) (hr : Q r) : (q.advance i r).Holds P Q where
  waiting := h.waiting
  running r' hr' := by
    rcases List.mem_or_eq_of_mem_set hr' with hold | rfl
    · exact h.running r' hold
    · exact hr

omit [DecidableEq K] in
/-- A job may go. -/
theorem retire (h : q.Holds P Q) (i : Nat) : (q.retire i).Holds P Q :=
  ⟨h.waiting, fun r hr ↦ h.running r (List.mem_of_mem_eraseIdx hr)⟩

end Holds

/-! ### Counting tasks -/

variable {key : T → K} {task : R → T} {exempt : T → Prop} {q : DedupQueue K T R}

theorem inFlight_of_perm (key : T → K) (h : q'.tasks task ~ q.tasks task) (k : K) :
    q'.inFlight key task k = q.inFlight key task k :=
  h.countP_eq _

theorem inFlight_of_cons (key : T → K) (h : q'.tasks task ~ t :: q.tasks task) (k : K) :
    q'.inFlight key task k = q.inFlight key task k + if key t = k then 1 else 0 := by
  simp only [inFlight, h.countP_eq, List.countP_cons, decide_eq_true_eq]

theorem inFlight_eq_zero_iff : q.inFlight key task k = 0 ↔ ∀ t ∈ q.tasks task, key t ≠ k := by
  simp [inFlight, List.countP_eq_zero]

/-- A key without tasks in flight has none waiting. -/
theorem waiting_eq_zero (h : q.inFlight key task k = 0) : q.waiting key k = 0 := by
  refine Multiset.filter_eq_nil.mpr (fun t ht ↦ inFlight_eq_zero_iff.mp h t ?_)
  exact List.mem_append_left _ (Multiset.mem_coe.mp ht)

/-- A key without tasks in flight has no running job. -/
theorem jobs_eq_zero (h : q.inFlight key task k = 0) : q.jobs (fun r ↦ key (task r)) k = 0 := by
  refine Multiset.filter_eq_nil.mpr (fun r hr ↦ inFlight_eq_zero_iff.mp h (task r) ?_)
  exact List.mem_append_right _ (List.mem_map_of_mem (Multiset.mem_coe.mp hr))

/-! ### Registered keys have a task -/

/-- The same tasks cover the same keys. -/
theorem Covered.of_perm (h : q.Covered key task) (hp : q'.tasks task ~ q.tasks task)
    (hpending : q'.pending ⊆ q.pending) : q'.Covered key task := by
  intro k hk
  rw [inFlight_of_perm key hp]
  exact h k (hpending hk)

/-- Another task keeps the keys covered, and covers its own. -/
theorem Covered.of_cons (h : q.Covered key task) (hp : q'.tasks task ~ t :: q.tasks task)
    (hpending : ∀ k ∈ q'.pending, k ∈ q.pending ∨ k = key t) : q'.Covered key task := by
  intro k hk
  rw [inFlight_of_cons key hp]
  rcases hpending k hk with hold | rfl
  · have := h k hold
    omega
  · simp

/-- A task may go when its key is not registered or has another task. -/
theorem Covered.of_removed (h : q.Covered key task) (hp : q.tasks task ~ t :: q'.tasks task)
    (hpending : q'.pending ⊆ q.pending)
    (hkey : key t ∈ q'.pending → 1 < q.inFlight key task (key t)) : q'.Covered key task := by
  intro k hk
  have hcount := inFlight_of_cons key hp k
  have hpos := h k (hpending hk)
  by_cases heq : key t = k
  · subst heq
    have := hkey hk
    simp only [if_pos] at hcount
    omega
  · rw [if_neg heq] at hcount
    omega

/-- A task may be replaced by another with its key. -/
theorem Covered.of_replaced (h : q.Covered key task) {t' : T} {rest : List T}
    (hp : q.tasks task ~ t :: rest) (hp' : q'.tasks task ~ t' :: rest) (hkey : key t' = key t)
    (hpending : q'.pending ⊆ q.pending) : q'.Covered key task := by
  intro k hk
  have hpos := h k (hpending hk)
  simp only [inFlight, hp.countP_eq, hp'.countP_eq, List.countP_cons, hkey] at hpos ⊢
  exact hpos

/-! ### Keys have one task -/

/-- The two accounts that together keep every key at one task: a key has at most one, and a
task has its key in the dedup set unless it is exempt. -/
structure Exclusive (key : T → K) (task : R → T) (exempt : T → Prop)
    (q : DedupQueue K T R) : Prop where
  unique : q.Unique key task
  registered : q.Registered key task exempt

namespace Exclusive

variable (h : q.Exclusive key task exempt)
include h

/-- A move between stages keeps both accounts. -/
theorem of_perm (hp : q'.tasks task ~ q.tasks task) (hpending : q'.pending = q.pending) :
    q'.Exclusive key task exempt where
  unique k := by
    rw [inFlight_of_perm key hp]
    exact h.unique k
  registered t ht := by
    rw [hpending]
    exact h.registered t (hp.subset ht)

/-- A task of an idle key may be added if its key is registered or it is exempt. -/
theorem of_cons (hp : q'.tasks task ~ t :: q.tasks task) (hpending : q.pending ⊆ q'.pending)
    (hidle : q.inFlight key task (key t) = 0) (ht : key t ∈ q'.pending ∨ exempt t) :
    q'.Exclusive key task exempt where
  unique k := by
    rw [inFlight_of_cons key hp]
    have := h.unique k
    split
    · next heq =>
      subst heq
      omega
    · omega
  registered t' ht' := by
    rcases List.mem_cons.mp (hp.subset ht') with rfl | hold
    · exact ht
    · exact (h.registered t' hold).imp (fun hk ↦ hpending hk) id

/-- A task may go. -/
theorem of_removed (hp : q.tasks task ~ t :: q'.tasks task) (hpending : q'.pending = q.pending) :
    q'.Exclusive key task exempt where
  unique k := by
    have hcount := inFlight_of_cons key hp k
    have := h.unique k
    omega
  registered t' ht' := by
    rw [hpending]
    exact h.registered t' (hp.symm.subset (List.mem_cons_of_mem t ht'))

/-- A task may be replaced by another with its key that is exempt if it was. -/
theorem of_replaced {t' : T} {rest : List T} (hp : q.tasks task ~ t :: rest)
    (hp' : q'.tasks task ~ t' :: rest) (hkey : key t' = key t) (hexempt : exempt t → exempt t')
    (hpending : q'.pending = q.pending) : q'.Exclusive key task exempt where
  unique k := by
    have hle := h.unique k
    simp only [inFlight, hp.countP_eq, hp'.countP_eq, List.countP_cons, hkey] at hle ⊢
    exact hle
  registered t₁ ht₁ := by
    rw [hpending]
    rcases List.mem_cons.mp (hp'.subset ht₁) with rfl | hold
    · rw [hkey]
      exact (h.registered t (hp.symm.subset List.mem_cons_self)).imp id hexempt
    · exact h.registered t₁ (hp.symm.subset (List.mem_cons_of_mem t hold))

/-- A key with its only task gone is idle. -/
theorem idle_of_removed (hp : q.tasks task ~ t :: q'.tasks task) :
    q'.inFlight key task (key t) = 0 := by
  have hcount := inFlight_of_cons key hp (key t)
  have := h.unique (key t)
  simp only [if_pos] at hcount
  omega

/-- An idle key may leave the dedup set. -/
theorem cancel (hidle : q.inFlight key task k = 0) : (q.cancel k).Exclusive key task exempt where
  unique := h.unique
  registered t ht := by
    refine (h.registered t ht).imp (fun hk ↦ ?_) id
    exact Finset.mem_erase.mpr ⟨inFlight_eq_zero_iff.mp hidle t ht, hk⟩

/-- A key that is not registered is idle, unless an exempt task carries it. -/
theorem idle_of_notMem (hk : k ∉ q.pending) (hexempt : ∀ t ∈ q.tasks task, key t = k → ¬ exempt t) :
    q.inFlight key task k = 0 := by
  refine inFlight_eq_zero_iff.mpr (fun t ht heq ↦ ?_)
  rcases h.registered t ht with hmem | hex
  · exact hk (heq ▸ hmem)
  · exact hexempt t ht heq hex

end Exclusive

end DedupQueue

end Mntrs.Base

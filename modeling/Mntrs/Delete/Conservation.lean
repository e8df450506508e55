import Mntrs.Delete.Barrier
import Mntrs.Delete.Wakeups

/-!
# Custody and progress of delete jobs

Every job that `enqueue` accepted has one owner, the queue, a slot or the caller that was answered,
and a job in the queue has somebody who will look for it: a slot that has yet to find the queue
empty, a notified one, a permit, or an `enqueue` call between its push and its `notify_one`.
-/

namespace Mntrs

open Base

variable {s s' : DeleteState} {slot slot' : DeleterSlot} {k : Nat} {a : PumpAction}

/-- The stages in which a slot has yet to find the queue empty. -/
def PumpStage.draining : PumpStage → Bool
  | drain | delete _ | record _ => true
  | _ => false

/-- Somebody will pop the queue: a slot that drains it or is notified. -/
def Attended (slots : List DeleterSlot) (task : Nat → Waiting) : Prop :=
  ∃ k slot, slots[k]? = some slot ∧ (slot.stage.draining = true ∨ task k = .notified)

/-- Only waiting slots have a future. -/
def FuturesWait (slots : List DeleterSlot) (task : Nat → Waiting) : Prop :=
  ∀ k, task k ≠ .idle → ∃ slot, slots[k]? = some slot ∧ slot.stage = .wait

/-- A slot past its ledger has an empty one. -/
def LedgersTaken (slots : List DeleterSlot) : Prop :=
  ∀ (k : Nat) (slot : DeleterSlot), slots[k]? = some slot →
    slot.stage.pastLedger = true → slot.ledger = []

namespace DeleterSys

/-- The channels of the unresolved jobs and of the replies. -/
def channels (s : DeleterSys) : List Nat :=
  s.state.deleter.jobs.map PendingDelete.resultTx ++ s.sent.map Prod.fst

/-- What holds in every run: a slot with a future waits, a slot past its ledger has an empty one,
each accepted job has one owner, and a queued job is attended to. -/
structure Conserved (s : DeleterSys) : Prop where
  cell : s.notify.WF
  waiting : FuturesWait s.state.deleter.slots s.notify.task
  ledgers : LedgersTaken s.state.deleter.slots
  hasSlot : 0 < s.state.deleter.slots.length
  jobs : s.channels.Perm (List.range s.state.deleter.nextJob)
  awake : s.state.deleter.pending ≠ [] →
    Attended s.state.deleter.slots s.notify.task ∨ s.notify.permit = true ∨ 0 < s.notifying

end DeleterSys

/-! ### Counting channels -/

/-- How often a channel occurs among some jobs. -/
def countTx (c : Nat) (jobs : List PendingDelete) : Nat :=
  (jobs.map PendingDelete.resultTx).count c

@[simp] theorem countTx_nil (c : Nat) : countTx c [] = 0 := rfl

@[simp] theorem countTx_append (c : Nat) (jobs jobs' : List PendingDelete) :
    countTx c (jobs ++ jobs') = countTx c jobs + countTx c jobs' := by
  simp [countTx]

@[simp] theorem countTx_cons (c : Nat) (job : PendingDelete) (jobs : List PendingDelete) :
    countTx c (job :: jobs) = countTx c jobs + if job.resultTx = c then 1 else 0 := by
  simp [countTx, List.count_cons]

theorem countTx_replies (c : Nat) (jobs : List PendingDelete) (drop : PendingDelete → Bool)
    (reply : DeleteReply) :
    countTx c (jobs.filter (fun job ↦ !drop job)) +
      ((DeleterSys.replies jobs drop reply).map Prod.fst).count c = countTx c jobs := by
  induction jobs with
  | nil => rfl
  | cons job jobs ih =>
    unfold DeleterSys.replies at ih ⊢
    by_cases hdrop : drop job
    · simp only [List.filter_cons, hdrop, Bool.not_true, if_true, List.map_cons, List.count_cons,
        countTx_cons, beq_iff_eq, Bool.false_eq_true, if_false]
      omega
    · simp only [List.filter_cons, hdrop, Bool.not_false, if_true, countTx_cons,
        Bool.false_eq_true, if_false]
      omega

theorem countTx_set {slots : List DeleterSlot} (hslot : slots[k]? = some slot) (slot' : DeleterSlot)
    (c : Nat) :
    countTx c ((slots.set k slot').flatMap DeleterSlot.jobs) + countTx c slot.jobs =
      countTx c (slots.flatMap DeleterSlot.jobs) + countTx c slot'.jobs := by
  induction slots generalizing k with
  | nil => cases hslot
  | cons first rest ih =>
    cases k with
    | zero =>
      cases hslot
      simp only [List.set_cons_zero, List.flatMap_cons, countTx_append]
      omega
    | succ k =>
      have hrest := ih (k := k) hslot
      simp only [List.set_cons_succ, List.flatMap_cons, countTx_append]
      omega

theorem SlotEffect.countTx (h : SlotEffect s slot a s' slot') (c : Nat) :
    countTx c s'.deleter.pending + countTx c slot'.jobs +
        ((DeleterSys.resolvedBy slot a).map Prod.fst).count c =
      countTx c s.deleter.pending + countTx c slot.jobs := by
  cases h <;>
    simp_all [DeleterSlot.jobs, PumpStage.jobs, DeleterSys.resolvedBy, List.count_cons] <;>
    omega

theorem SlotEffect.pending_ne (h : SlotEffect s slot a s' slot')
    (hpending : s'.deleter.pending ≠ []) : s.deleter.pending ≠ [] := by
  cases h <;> simp_all

/-- A slot drains until it finds the queue empty. -/
theorem SlotEffect.draining (h : SlotEffect s slot a s' slot')
    (hdraining : slot.stage.draining) (hpending : s'.deleter.pending ≠ []) :
    slot'.stage.draining = true := by
  cases h <;> simp_all [PumpStage.draining]

theorem DeleterSys.perm_channels_iff {s : DeleterSys} :
    s.channels.Perm (List.range s.state.deleter.nextJob) ↔
      ∀ c, countTx c s.state.deleter.pending +
          countTx c (s.state.deleter.slots.flatMap DeleterSlot.jobs) +
            (s.sent.map Prod.fst).count c =
        (List.range s.state.deleter.nextJob).count c := by
  rw [List.perm_iff_count]
  refine forall_congr' fun c ↦ ?_
  rw [DeleterSys.channels, List.count_append, ConcurrentDeleter.jobs, List.map_append,
    List.count_append]
  rfl

/-! ### Replacing one slot -/

section

variable {slots : List DeleterSlot} {task task' : Nat → Waiting}

/-- The slot that was replaced, or another one. -/
theorem getElem?_set_cases {j : Nat} {other : DeleterSlot}
    (h : (slots.set k slot')[j]? = some other) :
    j = k ∧ other = slot' ∨ j ≠ k ∧ slots[j]? = some other := by
  by_cases hj : k = j
  · subst hj
    rw [List.getElem?_set_self'] at h
    obtain ⟨-, -, rfl⟩ := Option.map_eq_some_iff.mp h
    exact .inl ⟨rfl, rfl⟩
  · rw [List.getElem?_set_ne hj] at h
    exact .inr ⟨Ne.symm hj, h⟩

/-- The queue stays attended if the slot that moves still attends to it. -/
theorem Attended.set (h : Attended slots task) (hslot : slots[k]? = some slot)
    (hkeep : slot.stage.draining = true ∨ task k = .notified →
      slot'.stage.draining = true ∨ task' k = .notified)
    (htask : ∀ j, j ≠ k → task' j = task j) : Attended (slots.set k slot') task' := by
  obtain ⟨j, other, hother, hattends⟩ := h
  by_cases hj : j = k
  · subst hj
    cases Option.some.inj (hother.symm.trans hslot)
    have hlt := (List.getElem?_eq_some_iff.mp hslot).1
    exact ⟨j, slot', List.getElem?_set_self hlt, hkeep hattends⟩
  · refine ⟨j, other, ?_, ?_⟩
    · rw [List.getElem?_set_ne (Ne.symm hj), hother]
    · rwa [htask j hj]

/-- A task that is notified stays so. -/
theorem Attended.mono (h : Attended slots task)
    (htask : ∀ j, task j = .notified → task' j = .notified) : Attended slots task' := by
  obtain ⟨j, other, hother, hattends⟩ := h
  exact ⟨j, other, hother, hattends.imp_right (htask j)⟩

/-- The slot that moves waits if it has a future. -/
theorem FuturesWait.set (h : FuturesWait slots task) (hslot : slots[k]? = some slot)
    (hkeep : task' k ≠ .idle → slot'.stage = .wait)
    (htask : ∀ j, j ≠ k → task' j = task j) : FuturesWait (slots.set k slot') task' := by
  intro j hj
  by_cases hjk : j = k
  · subst hjk
    have hlt := (List.getElem?_eq_some_iff.mp hslot).1
    exact ⟨slot', List.getElem?_set_self hlt, hkeep hj⟩
  · rw [htask j hjk] at hj
    obtain ⟨other, hother, hwait⟩ := h j hj
    exact ⟨other, by rw [List.getElem?_set_ne (Ne.symm hjk), hother], hwait⟩

/-- The slot that moves has taken its ledger if it is past it. -/
theorem LedgersTaken.set (h : LedgersTaken slots)
    (hkeep : slot'.stage.pastLedger = true → slot'.ledger = []) :
    LedgersTaken (slots.set k slot') := by
  intro j other hother
  rcases getElem?_set_cases hother with ⟨-, rfl⟩ | ⟨-, hother⟩
  · exact hkeep
  · exact h j other hother

end

/-! ### Every step keeps custody -/

namespace DeleterSys

variable {s t : DeleterSys}

section

variable (h : s.Conserved)
include h

/-- A slot stays where it is and answers some of its jobs. -/
theorem Conserved.setSlot (hslot : s.state.deleter.slots[k]? = some slot) (slot' : DeleterSlot)
    (hstage : slot'.stage = slot.stage) (hledger : slot.ledger = [] → slot'.ledger = [])
    (replies : List (Nat × DeleteReply))
    (hcount : ∀ c, countTx c slot'.jobs + (replies.map Prod.fst).count c = countTx c slot.jobs)
    (backend : Path → Option Bytes) (tombs : Finset Path) :
    Conserved { s with
      state := ⟨backend, tombs,
        { s.state.deleter with slots := s.state.deleter.slots.set k slot' }⟩
      sent := s.sent ++ replies } where
  cell := h.cell
  waiting := h.waiting.set hslot
    (fun hk ↦ by
      obtain ⟨other, hother, hwait⟩ := h.waiting k hk
      cases Option.some.inj (hother.symm.trans hslot)
      rw [hstage, hwait])
    (fun _ _ ↦ rfl)
  ledgers := h.ledgers.set (fun hpast ↦ hledger (h.ledgers k slot hslot (hstage ▸ hpast)))
  hasSlot := by simpa using h.hasSlot
  jobs := by
    rw [perm_channels_iff]
    intro c
    have hbefore := perm_channels_iff.mp h.jobs c
    have hset := countTx_set hslot slot' c
    have hreplies := hcount c
    simp only [List.map_append, List.count_append]
    omega
  awake hpending := (h.awake hpending).imp_left
    (fun hattended ↦ hattended.set hslot (by rw [hstage]; exact id) (fun _ _ ↦ rfl))

/-- Some jobs leave the queue with an answer. -/
theorem Conserved.dropQueued (drop : PendingDelete → Bool) (reply : DeleteReply) :
    (s.dropQueued drop reply).Conserved where
  cell := h.cell
  waiting := h.waiting
  ledgers := h.ledgers
  hasSlot := h.hasSlot
  jobs := by
    rw [perm_channels_iff]
    intro c
    have hbefore := perm_channels_iff.mp h.jobs c
    have hdrop := countTx_replies c s.state.deleter.pending drop reply
    simp only [DeleterSys.dropQueued, setDeleter, List.map_append, List.count_append]
    omega
  awake hpending := h.awake (fun hnil ↦ hpending (by
    simp [DeleterSys.dropQueued, setDeleter, hnil]))

/-- Some jobs leave a ledger with an answer. -/
theorem Conserved.dropRecorded (hslot : s.state.deleter.slots[k]? = some slot)
    (drop : PendingDelete → Bool) (reply : DeleteReply) :
    (s.dropRecorded k slot drop reply).Conserved := by
  refine h.setSlot hslot { slot with ledger := slot.ledger.filter (fun job ↦ !drop job) } rfl ?_
    (replies slot.ledger drop reply) ?_ s.state.backend s.state.tombs
  · intro hnil
    simp [hnil]
  · intro c
    have hdrop := countTx_replies c slot.ledger drop reply
    simp only [DeleterSlot.jobs, countTx_append]
    omega

/-- Tombstones do not matter. -/
theorem Conserved.clearTombs (paths : List Path) : (s.clearTombs paths).Conserved :=
  ⟨h.cell, h.waiting, h.ledgers, h.hasSlot, h.jobs, h.awake⟩

/-- The close of a shutdown moves no job. -/
theorem Conserved.failClose (hslot : s.state.deleter.slots[k]? = some slot) (keys : List Path)
    (landed : Bool) : (s.failClose k slot keys landed).Conserved := by
  unfold DeleterSys.failClose
  split
  · have hset := h.setSlot hslot { slot with batch := [] } rfl id []
      (fun c ↦ by simp [DeleterSlot.jobs]) (deleteObjects s.state.backend slot.batch) s.state.tombs
    simpa using hset
  · exact ⟨h.cell, h.waiting, h.ledgers, h.hasSlot, h.jobs, h.awake⟩

/-- A job is queued. -/
theorem Conserved.push (path : Path) (entering : List Path) :
    Conserved { s.push path with entering := entering } where
  cell := h.cell
  waiting := h.waiting
  ledgers := h.ledgers
  hasSlot := h.hasSlot
  jobs := by
    rw [perm_channels_iff]
    intro c
    have hbefore := perm_channels_iff.mp h.jobs c
    simp only [DeleterSys.push, setDeleter, countTx_append, countTx_cons, countTx_nil,
      List.range_succ, List.count_append, List.count_singleton, beq_iff_eq]
    omega
  awake _ := by
    simp only [DeleterSys.push, setDeleter]
    split
    · exact .inr (.inr (Nat.succ_pos _))
    · next hpending => exact h.awake hpending

/-- One task is notified, or leaves a permit. -/
theorem Conserved.notifyOne (notifying : Nat) :
    Conserved { s with notifying := notifying, notify := s.notify.notifyOne } := by
  have hcell := h.cell.notifyOne
  rcases s.notify.notifyOne_cases with hpermit | ⟨i, rest, hwaiters, hone⟩
  · rw [hpermit] at hcell ⊢
    exact ⟨hcell, h.waiting, h.ledgers, h.hasSlot, h.jobs, fun _ ↦ .inr (.inl rfl)⟩
  · rw [hone] at hcell ⊢
    have hregistered : s.notify.task i = .registered := by
      rw [← h.cell.mem, hwaiters]
      exact List.mem_cons_self
    obtain ⟨slot, hslot, hwait⟩ := h.waiting i (by simp [hregistered])
    refine ⟨hcell, ?_, h.ledgers, h.hasSlot, h.jobs, fun _ ↦ .inl ⟨i, slot, hslot, .inr (by simp)⟩⟩
    intro j hj
    by_cases hji : j = i
    · subst hji
      exact ⟨slot, hslot, hwait⟩
    · exact h.waiting j (by simpa [Function.update_apply, hji] using hj)

/-- All tasks with a future are woken. -/
theorem Conserved.notifyWaiters (flushing : Nat) :
    Conserved { s with flushing := flushing, notify := s.notify.notifyWaiters } where
  cell := Notify.wf_notifyWaiters s.notify
  waiting k hk := h.waiting k (fun hidle ↦ hk (by simp [Notify.notifyWaiters, hidle]))
  ledgers := h.ledgers
  hasSlot := h.hasSlot
  jobs := h.jobs
  awake hpending := (h.awake hpending).imp_left (fun hattended ↦ hattended.mono
    (fun j hj ↦ by simp [Notify.notifyWaiters, hj]))

/-- A waiting slot creates its future. -/
theorem Conserved.create (hslot : s.state.deleter.slots[k]? = some slot)
    (hwait : slot.stage = .wait) (hidle : s.notify.task k = .idle) :
    Conserved { s with notify := s.notify.create k } where
  cell := h.cell.create hidle
  waiting j hj := by
    by_cases hjk : j = k
    · subst hjk
      exact ⟨slot, hslot, hwait⟩
    · exact h.waiting j (by simpa [Notify.create, Function.update_apply, hjk] using hj)
  ledgers := h.ledgers
  hasSlot := h.hasSlot
  jobs := h.jobs
  awake hpending := (h.awake hpending).imp_left (fun hattended ↦ hattended.mono (fun j hj ↦ by
    have hjk : j ≠ k := by
      rintro rfl
      simp [hidle] at hj
    simp [Notify.create, hjk, hj]))

/-- A slot polls its future: it takes the permit, or is woken, or sleeps. -/
theorem Conserved.poll {woken : Bool} (hcreated : s.notify.task k = .created woken) :
    Conserved { s with notify := s.notify.poll k } := by
  obtain ⟨slot, hslot, hwait⟩ := h.waiting k (by simp [hcreated])
  have htask : ∀ j, j ≠ k → (s.notify.poll k).task j = s.notify.task j := by
    intro j hj
    unfold Notify.poll
    split
    · simp [hj]
    · split <;> simp [hj]
  refine ⟨h.cell.poll hcreated, ?_, h.ledgers, h.hasSlot, h.jobs, ?_⟩
  · intro j hj
    by_cases hjk : j = k
    · subst hjk
      exact ⟨slot, hslot, hwait⟩
    · exact h.waiting j (by rwa [htask j hjk] at hj)
  · intro hpending
    -- a slot that polls attends to nothing yet, so only the permit can be lost
    by_cases hpermit : s.notify.permit = true
    · exact .inl ⟨k, slot, hslot, .inr (by simp [Notify.poll, hpermit])⟩
    · rcases h.awake hpending with hattended | hpermit' | hnotifying
      · refine .inl (hattended.mono (fun j hj ↦ ?_))
        have hjk : j ≠ k := by
          rintro rfl
          simp [hcreated] at hj
        rw [htask j hjk, hj]
      · exact absurd hpermit' hpermit
      · exact .inr (.inr hnotifying)

/-- A slot takes a step. -/
theorem Conserved.pump {l : PumpLabel} (hstep : slotPump s l = some t) : t.Conserved := by
  obtain ⟨slot, s', slot', hslot, heffect, hcase⟩ := slotPump_cases hstep
  have hcount : ∀ c, countTx c s'.deleter.pending +
      countTx c ((s'.deleter.slots.set l.slot slot').flatMap DeleterSlot.jobs) +
        ((DeleterSys.resolvedBy slot l.action).map Prod.fst).count c =
      countTx c s.state.deleter.pending +
        countTx c (s.state.deleter.slots.flatMap DeleterSlot.jobs) := by
    intro c
    have hmoved := heffect.countTx c
    have hset := countTx_set hslot slot' c
    rw [heffect.slots]
    omega
  have hwait : s.notify.task l.slot ≠ .idle → slot.stage = .wait := by
    intro hk
    obtain ⟨other, hother, hwait⟩ := h.waiting l.slot hk
    cases Option.some.inj (hother.symm.trans hslot)
    exact hwait
  have hledgers : LedgersTaken (s'.deleter.slots.set l.slot slot') := by
    rw [heffect.slots]
    exact h.ledgers.set (heffect.ledger (h.ledgers l.slot slot hslot))
  have hslots : 0 < (s'.deleter.slots.set l.slot slot').length := by
    rw [List.length_set, heffect.slots]
    exact h.hasSlot
  have hjobs : ∀ sent, (sent.map Prod.fst).Perm
        ((s.sent ++ resolvedBy slot l.action).map Prod.fst) →
      ∀ notify, (DeleterSys.mk (s'.setSlot l.slot slot') notify s.entering s.notifying s.flushing
        sent).channels.Perm (List.range (s'.setSlot l.slot slot').deleter.nextJob) := by
    intro sent hsent notify
    rw [perm_channels_iff]
    intro c
    have hbefore := perm_channels_iff.mp h.jobs c
    have hsame := hsent.count_eq c
    rw [List.map_append, List.count_append] at hsame
    have hmoved := hcount c
    simp only [DeleteState.setSlot, heffect.counters.2]
    omega
  rcases hcase with ⟨hwake, hnotified, rfl⟩ | ⟨hwake, rfl⟩
  · rw [hwake] at heffect hjobs
    cases heffect with
    | wake =>
      refine ⟨h.cell.resume hnotified, ?_, hledgers, hslots, hjobs _ (by simp [resolvedBy]) _,
        fun _ ↦ ?_⟩
      · exact h.waiting.set hslot (by simp [Notify.resume])
          (fun j hj ↦ by simp [Notify.resume, hj])
      · have hlt := (List.getElem?_eq_some_iff.mp hslot).1
        exact .inl ⟨l.slot, _, List.getElem?_set_self hlt, .inl rfl⟩
  · refine ⟨h.cell, ?_, hledgers, hslots, hjobs _ (.refl _) _, ?_⟩
    · simp only [DeleteState.setSlot, heffect.slots]
      refine h.waiting.set hslot (fun hk ↦ ?_) (fun _ _ ↦ rfl)
      rw [(heffect.of_wait (hwait hk) hwake).1, hwait hk]
    · intro hpending
      refine (h.awake (heffect.pending_ne hpending)).imp_left (fun hattended ↦ ?_)
      simp only [DeleteState.setSlot, heffect.slots]
      refine hattended.set hslot (fun hattends ↦ ?_) (fun _ _ ↦ rfl)
      rcases hattends with hdraining | hnotified
      · exact .inl (heffect.draining hdraining hpending)
      · exact .inr hnotified

/-- Every step keeps custody. -/
theorem Conserved.step {l : DeleterLabel} (hstep : deleterStep l s = some t) : t.Conserved := by
  cases l with
  | enqueue path =>
    simp only [deleterStep] at hstep
    split at hstep <;> cases hstep
    exact ⟨h.cell, h.waiting, h.ledgers, h.hasSlot, h.jobs, h.awake⟩
  | push i =>
    obtain ⟨path, -, rfl⟩ := Option.map_eq_some_iff.mp hstep
    exact h.push path _
  | notifyOne =>
    simp only [deleterStep] at hstep
    split at hstep <;> cases hstep
    exact h.notifyOne _
  | cancelQueue path =>
    cases hstep
    exact h.dropQueued _ _
  | cancelLedger k path =>
    obtain ⟨slot, hslot, rfl⟩ := Option.map_eq_some_iff.mp hstep
    exact h.dropRecorded hslot _ _
  | clearTombstone path =>
    cases hstep
    exact h.clearTombs _
  | flushBegin | stopAccepting =>
    cases hstep
    exact ⟨h.cell, h.waiting, h.ledgers, h.hasSlot, h.jobs, h.awake⟩
  | notifyWaiters =>
    simp only [deleterStep] at hstep
    split at hstep <;> cases hstep
    exact h.notifyWaiters _
  | failClose k keys landed =>
    simp only [deleterStep] at hstep
    split at hstep
    · cases hstep
    · next slot hslot =>
      split at hstep <;> cases hstep
      exact h.failClose hslot keys landed
  | failQueue =>
    cases hstep
    exact (h.dropQueued _ _).clearTombs _
  | failLedger k =>
    obtain ⟨slot, hslot, rfl⟩ := Option.map_eq_some_iff.mp hstep
    exact (h.dropRecorded hslot _ _).clearTombs _
  | pump l => exact h.pump hstep
  | create k =>
    simp only [deleterStep] at hstep
    split at hstep
    · next slot hslot =>
      split at hstep <;> cases hstep
      next hwait => exact h.create hslot hwait.1 hwait.2
    · cases hstep
  | poll k =>
    simp only [deleterStep] at hstep
    split at hstep <;> cases hstep
    next woken hcreated => exact h.poll hcreated

end

/-- A spawned deleter has no jobs, and its slots drain. -/
theorem conserved_spawned (backend : Path → Option Bytes) (tombs : Finset Path)
    (workerCount : Nat) : (spawned backend tombs workerCount).Conserved where
  cell := Notify.wf_new
  waiting k hk := absurd rfl hk
  ledgers k slot hslot _ := by
    have hmem := List.mem_of_getElem? hslot
    rw [List.eq_of_mem_replicate hmem]
    rfl
  hasSlot := by simp [spawned, ConcurrentDeleter.spawn]
  jobs := by
    rw [perm_channels_iff]
    intro c
    have hnone : (List.replicate (max workerCount 1) DeleterSlot.fresh).flatMap DeleterSlot.jobs =
        [] := by simp [DeleterSlot.jobs, DeleterSlot.fresh, PumpStage.jobs]
    simp [spawned, ConcurrentDeleter.spawn, hnone]
  awake hpending := absurd rfl hpending

end DeleterSys

/-- In every run of callers and slots, each accepted job is in the queue, with one slot, in one
ledger or batch, or answered, exactly once; a slot that waits has an empty ledger; and a queued job
is attended to by a slot or a permit, unless the `enqueue` call that found the queue empty has yet
to notify, so that no job is left when all slots sleep and no call is in that window. -/
theorem jobs_conserved_of_run {backend : Path → Option Bytes} {tombs : Finset Path}
    {workerCount : Nat} {s : DeleterSys}
    (hrun : GuardedRun deleterStep (fun _ _ ↦ True) (.spawned backend tombs workerCount) s) :
    s.channels.Perm (List.range s.state.deleter.nextJob) ∧
      (∀ slot ∈ s.state.deleter.slots, slot.stage = .wait → slot.ledger = []) ∧
      (s.state.deleter.pending ≠ [] →
        Attended s.state.deleter.slots s.notify.task ∨
          (s.notify.permit = true ∧ ∀ k, s.notify.task k ≠ .registered) ∨ 0 < s.notifying) ∧
      (s.notifying = 0 →
        (∀ k < s.state.deleter.slots.length, s.notify.task k = .registered) →
          s.state.deleter.pending = []) := by
  have h : s.Conserved := hrun.invariant DeleterSys.Conserved
    (fun _ _ _ hinv _ hstep ↦ hinv.step hstep) (DeleterSys.conserved_spawned _ _ _)
  have hpermit : s.notify.permit = true → ∀ k, s.notify.task k ≠ .registered := by
    intro hpermit k hk
    rw [← h.cell.mem, h.cell.permit hpermit] at hk
    cases hk
  refine ⟨h.jobs, ?_, ?_, ?_⟩
  · intro slot hslot hwait
    obtain ⟨k, hk⟩ := List.mem_iff_getElem?.mp hslot
    exact h.ledgers k slot hk (by rw [hwait]; rfl)
  · intro hpending
    rcases h.awake hpending with hattended | hp | hnotifying
    · exact .inl hattended
    · exact .inr (.inl ⟨hp, hpermit hp⟩)
    · exact .inr (.inr hnotifying)
  · intro hnotifying hasleep
    by_contra hpending
    have hslots : 0 < s.state.deleter.slots.length := h.hasSlot
    rcases h.awake hpending with ⟨k, slot, hslot, hattends⟩ | hp | hn
    · have hk := hasleep k (List.getElem?_eq_some_iff.mp hslot).1
      obtain ⟨other, hother, hwait⟩ := h.waiting k (by simp [hk])
      cases Option.some.inj (hother.symm.trans hslot)
      simp [hwait, hk, PumpStage.draining] at hattends
    · exact hpermit hp 0 (hasleep 0 hslots)
    · omega

/-- The window of `enqueue`: the only slot has found the queue empty and sleeps. -/
def asleepThenPushed : List DeleterLabel :=
  [.pump ⟨0, .pop⟩, .pump ⟨0, .take⟩, .pump ⟨0, .load⟩, .pump ⟨0, .store⟩, .create 0, .poll 0,
    .enqueue ['a'], .push 0]

theorem jobs_conserved_window :
    ∃ s, exec deleterStep asleepThenPushed (.spawned (fun _ ↦ none) ∅ 1) = some s ∧
      0 < s.notifying ∧ s.channels.Perm (List.range s.state.deleter.nextJob) := by
  obtain ⟨s, hs, hnotifying⟩ := exists_exec deleterStep (fun s ↦ 0 < s.notifying)
    asleepThenPushed (.spawned (fun _ ↦ none) ∅ 1) (by decide)
  exact ⟨s, hs, hnotifying, (jobs_conserved_of_run
    (guardedRun_of_exec hs (admits_of_forall (fun _ _ ↦ trivial) _ _))).1⟩

/-- Before the `notify_one`, the job is queued, the only slot sleeps, and there is no permit. -/
theorem queued_job_unattended :
    ∃ s, GuardedRun deleterStep (fun _ _ ↦ True) (.spawned (fun _ ↦ none) ∅ 1) s ∧
      s.state.deleter.pending ≠ [] ∧ ¬ Attended s.state.deleter.slots s.notify.task ∧
      s.notify.permit = false := by
  obtain ⟨s, hs, hpending, hstages, hasleep, hpermit⟩ := exists_exec deleterStep
    (fun s ↦ s.state.deleter.pending ≠ [] ∧
      s.state.deleter.slots.all (fun slot ↦ !slot.stage.draining) = true ∧
      (∀ k < s.state.deleter.slots.length, s.notify.task k = .registered) ∧
      s.notify.permit = false)
    asleepThenPushed (.spawned (fun _ ↦ none) ∅ 1) (by decide)
  refine ⟨s, guardedRun_of_exec hs (admits_of_forall (fun _ _ ↦ trivial) _ _), hpending, ?_,
    hpermit⟩
  rintro ⟨k, slot, hslot, hdraining | hnotified⟩
  · have hnot := List.all_eq_true.mp hstages slot (List.mem_of_getElem? hslot)
    simp [hdraining] at hnot
  · rw [hasleep k (List.getElem?_eq_some_iff.mp hslot).1] at hnotified
    cases hnotified

end Mntrs

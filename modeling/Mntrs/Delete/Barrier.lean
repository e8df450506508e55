import Mntrs.Base.Machine
import Mntrs.Delete.PumpEffects

/-!
# The flush barrier of the delete pump

`flush` (`src/src/concurrent_delete.rs:476-509`) raises the barrier epoch and waits until every
slot has acknowledged it. A slot acknowledges the epoch it reads after its close, not one it read
before it drained the queue, so a job that is enqueued between the drain and the read, and the
flush that should wait for it, can both be missed. The barrier holds in every run in which no
slot reads an epoch over a queue with such a job.
-/

namespace Mntrs

open Base

variable {l : DeleteLabel} {s s' t : DeleteState} {slot slot' : DeleterSlot} {i : Nat}
  {job : PendingDelete} {a : PumpAction}

/-- The steps of the deleter: jobs are enqueued and cancelled, barriers are raised, objects are
written by others, and the slots of the pump go on. -/
inductive DeleteLabel where
  | enqueue (path : Path)
  | cancel (path : Path)
  | flush
  | put (path : Path) (bytes : Bytes)
  | pump (l : PumpLabel)
deriving DecidableEq, Repr

/-- One step. -/
def deleteStep (l : DeleteLabel) (s : DeleteState) : Option DeleteState :=
  match l with
  | .enqueue path => (s.deleter.enqueue path).map (fun d ↦ { s with deleter := d })
  | .cancel path => some (cancelPending s path)
  | .flush => some { s with deleter := s.deleter.flushBegin }
  | .put path bytes => some { s with backend := Function.update s.backend path (some bytes) }
  | .pump l => s.pump l

variable {s t : DeleteState} {d : ConcurrentDeleter} {epoch : Nat} {l : DeleteLabel}

/-- A job that is taken joins the queue under a new number. -/
theorem deleteStep_enqueue {path : Path} (h : deleteStep (.enqueue path) s = some t) :
    t = { s with deleter := { s.deleter with
      pending := s.deleter.pending ++ [⟨path, s.deleter.nextJob, s.deleter.barrierEpoch⟩]
      nextJob := s.deleter.nextJob + 1 } } := by
  obtain ⟨d, hd, rfl⟩ := Option.map_eq_some_iff.mp h
  unfold ConcurrentDeleter.enqueue at hd
  split at hd <;> cases hd
  rfl

/-- A mount's deleter right after `spawn`. -/
def DeleteState.spawned (backend : Path → Option Bytes) (tombs : Finset Path)
    (workerCount : Nat) : DeleteState :=
  ⟨backend, tombs, .spawn workerCount⟩

/-! ### Jobs are neither lost nor made up -/

private theorem mem_set_of_ne {l : List DeleterSlot} {a x : DeleterSlot} (b : DeleterSlot)
    (hi : l[i]? = some a) (hx : x ∈ l) (hne : x ≠ a) : x ∈ l.set i b := by
  rw [List.mem_iff_getElem?] at hx ⊢
  obtain ⟨k, hk⟩ := hx
  have hki : i ≠ k := by
    rintro rfl
    exact hne (Option.some.inj (hk.symm.trans hi))
  exact ⟨k, by rw [List.getElem?_set_ne hki, hk]⟩

section

variable (h : SlotEffect s slot a s' slot')
include h

/-- A step of a slot passes the jobs on. -/
theorem SlotEffect.mem_jobs (hjob : job ∈ slot'.jobs) :
    job ∈ s.deleter.pending ∨ job ∈ slot.jobs := by
  cases h <;>
    simp_all only [DeleterSlot.jobs, PumpStage.jobs, List.mem_append, List.mem_cons,
      List.not_mem_nil] <;>
    tauto

theorem SlotEffect.jobs_kept (hjob : job ∈ s.deleter.pending ∨ job ∈ slot.jobs) :
    job ∈ s'.deleter.pending ∨ job ∈ slot'.jobs ∨
      (s'.deleter.outcomes job.resultTx).isSome := by
  cases h with
  | @resolve landed job' rest hstage =>
    simp only [DeleterSlot.jobs, PumpStage.jobs, hstage, List.mem_append, List.mem_cons] at hjob ⊢
    by_cases heq : job = job'
    · subst heq
      exact .inr (.inr (by simp [ConcurrentDeleter.send]))
    · tauto
  | _ =>
    simp_all only [DeleterSlot.jobs, PumpStage.jobs, List.mem_append, List.mem_cons,
      List.not_mem_nil]
    tauto

/-- A step of a slot keeps the outcomes that were sent. -/
theorem SlotEffect.outcomes (hi : (s.deleter.outcomes i).isSome) :
    (s'.deleter.outcomes i).isSome := by
  cases h with
  | resolve hstage =>
    simp only [ConcurrentDeleter.send]
    split
    · rfl
    · exact hi
  | _ => exact hi

theorem SlotEffect.outcomes_new (hi : s'.deleter.outcomes i ≠ none) :
    s.deleter.outcomes i ≠ none ∨ ∃ job ∈ slot.jobs, job.resultTx = i := by
  cases h with
  | @resolve landed job rest hstage =>
    simp only [ConcurrentDeleter.send, List.map_cons, List.map_nil, List.mem_singleton] at hi
    by_cases heq : i = job.resultTx
    · exact .inr ⟨job, by simp [DeleterSlot.jobs, PumpStage.jobs, hstage], heq.symm⟩
    · rw [if_neg heq] at hi
      exact .inl hi
  | _ => exact .inl hi

/-- A step of a slot neither raises the epoch nor gives out channels. -/
theorem SlotEffect.counters :
    s'.deleter.barrierEpoch = s.deleter.barrierEpoch ∧
      s'.deleter.nextJob = s.deleter.nextJob := by
  cases h <;> exact ⟨rfl, rfl⟩

end

/-- The jobs of the deleter are those of the queue and of the slots. -/
theorem ConcurrentDeleter.mem_jobs :
    job ∈ d.jobs ↔ job ∈ d.pending ∨ ∃ slot ∈ d.slots, job ∈ slot.jobs := by
  simp [jobs, List.mem_flatMap]

/-- Cancelling keeps the jobs of other paths. -/
theorem ConcurrentDeleter.mem_jobs_cancel {path : Path} (hjob : job ∈ d.jobs)
    (hne : job.relativePath ≠ path) : job ∈ (d.cancel path).jobs := by
  rcases mem_jobs.mp hjob with hpending | ⟨slot, hslot, hjob⟩
  · exact mem_jobs.mpr (.inl (List.mem_filter.mpr ⟨hpending, by simpa using hne⟩))
  · refine mem_jobs.mpr (.inr ⟨_, List.mem_map.mpr ⟨slot, hslot, rfl⟩, ?_⟩)
    simp only [DeleterSlot.jobs, List.mem_append, List.mem_filter, decide_eq_true_eq] at hjob ⊢
    tauto

/-- A job of the deleter is with another slot, which keeps it, or in the queue or with the slot
that moves. -/
theorem DeleteState.jobs_setSlot {k : Nat} (hslot : s.deleter.slots[k]? = some slot)
    (hslots : s'.deleter.slots = s.deleter.slots) (hjob : job ∈ s.deleter.jobs) :
    (job ∈ s.deleter.pending ∨ job ∈ slot.jobs) ∨ job ∈ (s'.setSlot k slot').deleter.jobs := by
  rcases ConcurrentDeleter.mem_jobs.mp hjob with hpending | ⟨other, hother, hjob⟩
  · exact .inl (.inl hpending)
  · by_cases hsame : other = slot
    · exact .inl (.inr (hsame ▸ hjob))
    · have hkept := mem_set_of_ne slot' hslot hother hsame
      rw [← hslots] at hkept
      exact .inr (ConcurrentDeleter.mem_jobs.mpr (.inr ⟨other, hkept, hjob⟩))

/-- What a slot and the queue have after a step, the deleter has. -/
theorem DeleteState.mem_jobs_setSlot {k : Nat} (hk : k < s'.deleter.slots.length)
    (hjob : job ∈ s'.deleter.pending ∨ job ∈ slot'.jobs) :
    job ∈ (s'.setSlot k slot').deleter.jobs := by
  rcases hjob with hpending | hjob
  · exact ConcurrentDeleter.mem_jobs.mpr (.inl hpending)
  · exact ConcurrentDeleter.mem_jobs.mpr (.inr ⟨slot', List.mem_set hk slot', hjob⟩)

/-- What one step does to the jobs: they come from before or are enqueued now, and they go on or
are resolved. -/
structure JobsPassed (s t : DeleteState) : Prop where
  source : ∀ job ∈ t.deleter.jobs, job ∈ s.deleter.jobs ∨
    job.resultTx = s.deleter.nextJob ∧ job.epoch = s.deleter.barrierEpoch ∧
      s.deleter.nextJob < t.deleter.nextJob
  kept : ∀ job ∈ s.deleter.jobs, job ∈ t.deleter.jobs ∨
    (t.deleter.outcomes job.resultTx).isSome
  outcomes : ∀ i, (s.deleter.outcomes i).isSome → (t.deleter.outcomes i).isSome
  newOutcomes : ∀ i, t.deleter.outcomes i ≠ none → s.deleter.outcomes i ≠ none ∨
    ∃ job ∈ s.deleter.jobs, job.resultTx = i
  epoch : s.deleter.barrierEpoch ≤ t.deleter.barrierEpoch
  channels : s.deleter.nextJob ≤ t.deleter.nextJob
  newChannels : ∀ i, s.deleter.nextJob ≤ i → i < t.deleter.nextJob →
    ∃ job ∈ t.deleter.jobs, job.resultTx = i

/-- A step of the pump passes the jobs on. -/
theorem jobsPassed_pump {l : PumpLabel} (h : s.pump l = some t) : JobsPassed s t := by
  obtain ⟨slot, s', slot', hslot, heffect, rfl⟩ := DeleteState.pump_cases h
  have hmem : slot ∈ s.deleter.slots := List.mem_of_getElem? hslot
  have hlt : l.slot < s'.deleter.slots.length := by
    rw [heffect.slots]
    exact (List.getElem?_eq_some_iff.mp hslot).1
  have hslots : (s'.setSlot l.slot slot').deleter.slots = s.deleter.slots.set l.slot slot' := by
    simp [DeleteState.setSlot, heffect.slots]
  obtain ⟨hepoch, hchannels⟩ := heffect.counters
  refine ⟨?_, ?_, ?_, ?_, ?_, ?_, ?_⟩
  · intro job hjob
    left
    rw [ConcurrentDeleter.mem_jobs] at hjob ⊢
    rcases hjob with hpending | ⟨other, hother, hjob⟩
    · exact .inl (heffect.mem_pending hpending)
    · rw [hslots] at hother
      rcases List.mem_or_eq_of_mem_set hother with hother | rfl
      · exact .inr ⟨other, hother, hjob⟩
      · rcases heffect.mem_jobs hjob with hpending | hjob
        · exact .inl hpending
        · exact .inr ⟨slot, hmem, hjob⟩
  · intro job hjob
    rcases DeleteState.jobs_setSlot hslot heffect.slots hjob with hhere | hkept
    · rcases heffect.jobs_kept hhere with hpending | hjob | hsent
      · exact .inl (DeleteState.mem_jobs_setSlot hlt (.inl hpending))
      · exact .inl (DeleteState.mem_jobs_setSlot hlt (.inr hjob))
      · exact .inr hsent
    · exact .inl hkept
  · intro i hi
    exact heffect.outcomes hi
  · intro i hi
    rcases heffect.outcomes_new hi with hold | ⟨job, hjob, hi⟩
    · exact .inl hold
    · exact .inr ⟨job, ConcurrentDeleter.mem_jobs.mpr (.inr ⟨slot, hmem, hjob⟩), hi⟩
  · exact hepoch.ge
  · exact hchannels.ge
  · intro i hge hlt
    change i < s'.deleter.nextJob at hlt
    omega

/-- Every step passes the jobs on. -/
theorem jobsPassed_step (h : deleteStep l s = some t) : JobsPassed s t := by
  cases l with
  | enqueue path =>
    obtain rfl := deleteStep_enqueue h
    refine ⟨?_, ?_, fun _ hi ↦ hi, fun _ hi ↦ .inl hi, le_rfl, Nat.le_succ _, ?_⟩
    · intro job hjob
      simp only [ConcurrentDeleter.mem_jobs, List.mem_append, List.mem_singleton] at hjob ⊢
      rcases hjob with (hjob | rfl) | hjob
      · exact .inl (.inl hjob)
      · exact .inr ⟨rfl, rfl, Nat.lt_succ_self _⟩
      · exact .inl (.inr hjob)
    · intro job hjob
      left
      simp only [ConcurrentDeleter.mem_jobs, List.mem_append] at hjob ⊢
      exact hjob.imp_left .inl
    · intro i hge hlt
      exact ⟨⟨path, s.deleter.nextJob, s.deleter.barrierEpoch⟩,
        ConcurrentDeleter.mem_jobs.mpr (.inl (by simp)), by simp only at hlt ⊢; omega⟩
  | cancel path =>
    cases h
    refine ⟨?_, ?_, ?_, ?_, le_rfl, le_rfl, ?_⟩
    · intro job hjob
      left
      simp only [cancelPending, ConcurrentDeleter.cancel, ConcurrentDeleter.mem_jobs,
        List.mem_map, List.mem_filter] at hjob ⊢
      rcases hjob with ⟨hjob, -⟩ | ⟨slot, ⟨old, hold, rfl⟩, hjob⟩
      · exact .inl hjob
      · refine .inr ⟨old, hold, ?_⟩
        simp only [DeleterSlot.jobs, List.mem_append, List.mem_filter] at hjob ⊢
        tauto
    · intro job hjob
      simp only [cancelPending, ConcurrentDeleter.cancel, ConcurrentDeleter.mem_jobs] at hjob ⊢
      -- a job that `cancel_pending` can see goes on unless it is cancelled
      have hseen : job ∈ s.deleter.pending ++ s.deleter.slots.flatMap DeleterSlot.ledger →
          decide (job.relativePath ≠ path) = true ∨
            (ConcurrentDeleter.send s.deleter.outcomes (s.deleter.cancelled path) .cancelled
              job.resultTx).isSome := by
        intro hseen
        by_cases hpath : job.relativePath = path
        · have hcancelled : job ∈ s.deleter.cancelled path :=
            List.mem_filter.mpr ⟨hseen, by simpa using hpath⟩
          exact .inr (by
            simp [ConcurrentDeleter.send, List.mem_map.mpr ⟨job, hcancelled, rfl⟩])
        · exact .inl (by simpa using hpath)
      rcases hjob with hjob | ⟨slot, hslot, hjob⟩
      · rcases hseen (List.mem_append_left _ hjob) with hkeep | hsent
        · exact .inl (.inl (List.mem_filter.mpr ⟨hjob, hkeep⟩))
        · exact .inr hsent
      · rcases List.mem_append.mp hjob with hledger | hstage
        · rcases hseen (List.mem_append_right _ (List.mem_flatMap.mpr ⟨slot, hslot, hledger⟩))
            with hkeep | hsent
          · exact .inl (.inr ⟨_, List.mem_map.mpr ⟨slot, hslot, rfl⟩,
              List.mem_append_left _ (List.mem_filter.mpr ⟨hledger, hkeep⟩)⟩)
          · exact .inr hsent
        · exact .inl (.inr ⟨_, List.mem_map.mpr ⟨slot, hslot, rfl⟩,
            List.mem_append_right _ hstage⟩)
    · intro i hi
      simp only [cancelPending, ConcurrentDeleter.cancel, ConcurrentDeleter.send]
      split
      · rfl
      · exact hi
    · intro i hi
      simp only [cancelPending, ConcurrentDeleter.cancel, ConcurrentDeleter.send] at hi
      split at hi
      · next hmem =>
        right
        obtain ⟨job, hjob, rfl⟩ := List.mem_map.mp hmem
        refine ⟨job, ?_, rfl⟩
        obtain ⟨hjob, -⟩ := List.mem_filter.mp hjob
        simp only [List.mem_append, List.mem_flatMap] at hjob
        rw [ConcurrentDeleter.mem_jobs]
        rcases hjob with hjob | ⟨slot, hslot, hjob⟩
        · exact .inl hjob
        · exact .inr ⟨slot, hslot, List.mem_append_left _ hjob⟩
      · exact .inl hi
    · intro i hge hlt
      simp only [cancelPending, ConcurrentDeleter.cancel] at hlt
      omega
  | flush =>
    cases h
    exact ⟨fun _ hjob ↦ .inl hjob, fun _ hjob ↦ .inl hjob, fun _ hi ↦ hi, fun _ hi ↦ .inl hi,
      Nat.le_succ _, le_rfl, fun i hge hlt ↦ absurd hlt (Nat.not_lt_of_ge hge)⟩
  | put path bytes =>
    cases h
    exact ⟨fun _ hjob ↦ .inl hjob, fun _ hjob ↦ .inl hjob, fun _ hi ↦ hi, fun _ hi ↦ .inl hi,
      le_rfl, le_rfl, fun i hge hlt ↦ absurd hlt (Nat.not_lt_of_ge hge)⟩
  | pump l => exact jobsPassed_pump h

/-! ### The barrier -/

/-- The stages after a slot has taken its ledger. -/
def PumpStage.pastLedger : PumpStage → Bool
  | close _ _ | resolve _ _ | loadEpoch | storeAck _ | wait => true
  | _ => false

/-- The epoch a slot has acknowledged, or is about to. -/
def DeleterSlot.acks (s : DeleterSlot) (epoch : Nat) : Prop :=
  epoch ≤ s.barrierAck ∨ ∃ read, s.stage = .storeAck read ∧ epoch ≤ read

/-- What holds of every deleter: channels are numbered in order, every channel that was given
out has an outcome or an unresolved job, epochs are bounded by the barrier epoch, and a slot past
its ledger has an empty one. -/
structure DeleteState.Sound (s : DeleteState) : Prop where
  numbered : s.deleter.WellNumbered
  tracked : ∀ i < s.deleter.nextJob, (s.deleter.outcomes i).isSome ∨
    ∃ job ∈ s.deleter.jobs, job.resultTx = i
  epochs : ∀ job ∈ s.deleter.jobs, job.epoch ≤ s.deleter.barrierEpoch
  acks : ∀ slot ∈ s.deleter.slots, ∀ epoch, slot.acks epoch → epoch ≤ s.deleter.barrierEpoch
  ledgers : ∀ slot ∈ s.deleter.slots, slot.stage.pastLedger = true → slot.ledger = []
  slots : s.deleter.slots ≠ []

/-- The barrier of an epoch: the jobs given out before it are resolved or carry an older epoch,
and a slot that acknowledges it has left no older job, neither with itself nor in the queue. -/
structure DeleteState.Barrier (channels epoch : Nat) (s : DeleteState) : Prop where
  reached : epoch ≤ s.deleter.barrierEpoch
  given : channels ≤ s.deleter.nextJob
  older : ∀ job ∈ s.deleter.jobs, job.resultTx < channels → job.epoch < epoch
  passed : ∀ slot ∈ s.deleter.slots, slot.acks epoch →
    (∀ job ∈ s.deleter.pending, epoch ≤ job.epoch) ∧ ∀ job ∈ slot.jobs, epoch ≤ job.epoch

/-- No slot reads the epoch over a job that was enqueued before it. -/
def EpochReadDrained (s : DeleteState) : DeleteLabel → Prop
  | .pump ⟨_, .load⟩ => ∀ job ∈ s.deleter.pending, s.deleter.barrierEpoch ≤ job.epoch
  | _ => True

instance (s : DeleteState) (l : DeleteLabel) : Decidable (EpochReadDrained s l) := by
  unfold EpochReadDrained
  split <;> infer_instance

theorem SlotEffect.acks (h : SlotEffect s slot a s' slot') (hacks : slot'.acks epoch) :
    slot.acks epoch ∨ a = .load ∧ slot.stage = .loadEpoch ∧ epoch ≤ s.deleter.barrierEpoch := by
  cases h with
  | load hstage =>
    rcases hacks with hack | ⟨read, hread, hle⟩
    · exact .inl (.inl hack)
    · cases hread
      exact .inr ⟨rfl, hstage, hle⟩
  | @store read hstage =>
    rcases hacks with hack | ⟨read, hread, hle⟩
    · rcases le_max_iff.mp hack with hack | hack
      · exact .inl (.inl hack)
      · exact .inl (.inr ⟨read, hstage, hack⟩)
    · cases hread
  | request keys => exact .inl hacks
  | _ =>
    rcases hacks with hack | ⟨read, hread, hle⟩
    · exact .inl (.inl hack)
    · cases hread

/-- A slot's step keeps the ledger empty past the taking of it. -/
theorem SlotEffect.ledger (h : SlotEffect s slot a s' slot')
    (hledger : slot.stage.pastLedger = true → slot.ledger = [])
    (hpast : slot'.stage.pastLedger) : slot'.ledger = [] := by
  cases h with
  | take | skip => first | rfl | assumption
  | land hstage | giveUp hstage | resolve hstage | finish hstage | load hstage | store hstage =>
    exact hledger (by rw [hstage]; rfl)
  | request keys => exact hledger hpast
  | _ => cases hpast

/-- What one step does to a slot. -/
structure SlotPassed (s : DeleteState) (l : DeleteLabel) (slot slot' : DeleterSlot) : Prop where
  jobs : ∀ job ∈ slot'.jobs, job ∈ s.deleter.pending ∨ job ∈ slot.jobs
  acks : ∀ epoch, slot'.acks epoch → slot.acks epoch ∨
    (∃ k, l = .pump ⟨k, .load⟩) ∧ slot.stage = .loadEpoch ∧ epoch ≤ s.deleter.barrierEpoch
  ledger : (slot.stage.pastLedger = true → slot.ledger = []) →
    slot'.stage.pastLedger = true → slot'.ledger = []

theorem SlotPassed.refl (s : DeleteState) (l : DeleteLabel) (slot : DeleterSlot) :
    SlotPassed s l slot slot :=
  ⟨fun _ hjob ↦ .inr hjob, fun _ hacks ↦ .inl hacks, fun hledger hpast ↦ hledger hpast⟩

/-- Every slot comes from one before the step. -/
theorem slotPassed_step (h : deleteStep l s = some t) (hslot' : slot' ∈ t.deleter.slots) :
    ∃ slot ∈ s.deleter.slots, SlotPassed s l slot slot' := by
  cases l with
  | enqueue path =>
    obtain rfl := deleteStep_enqueue h
    exact ⟨slot', hslot', .refl _ _ _⟩
  | flush | put =>
    cases h
    exact ⟨slot', hslot', .refl _ _ _⟩
  | cancel path =>
    cases h
    obtain ⟨slot, hslot, rfl⟩ := List.mem_map.mp hslot'
    refine ⟨slot, hslot, ?_, fun _ hacks ↦ .inl hacks, ?_⟩
    · intro job hjob
      simp only [DeleterSlot.jobs, List.mem_append, List.mem_filter] at hjob ⊢
      tauto
    · intro hledger hpast
      simp [hledger hpast]
  | pump l =>
    obtain ⟨slot, s', slot₁, hslot, heffect, rfl⟩ := DeleteState.pump_cases h
    simp only [DeleteState.setSlot, heffect.slots] at hslot'
    rcases List.mem_or_eq_of_mem_set hslot' with hother | rfl
    · exact ⟨slot', hother, .refl _ _ _⟩
    · refine ⟨slot, List.mem_of_getElem? hslot, fun _ ↦ heffect.mem_jobs, ?_, heffect.ledger⟩
      intro epoch hacks
      rcases heffect.acks hacks with hold | ⟨haction, hstage, hle⟩
      · exact .inl hold
      · exact .inr ⟨⟨l.slot, by rw [← haction]⟩, hstage, hle⟩

/-- The queue grows by a new job only. -/
theorem pending_step (h : deleteStep l s = some t) (hjob : job ∈ t.deleter.pending) :
    job ∈ s.deleter.pending ∨ job.epoch = s.deleter.barrierEpoch := by
  cases l with
  | enqueue path =>
    obtain rfl := deleteStep_enqueue h
    rcases List.mem_append.mp hjob with hjob | hjob
    · exact .inl hjob
    · rw [List.mem_singleton.mp hjob]
      exact .inr rfl
  | flush | put =>
    cases h
    exact .inl hjob
  | cancel path =>
    cases h
    exact .inl (List.mem_filter.mp hjob).1
  | pump l =>
    obtain ⟨slot, s', slot', hslot, heffect, rfl⟩ := DeleteState.pump_cases h
    exact .inl (heffect.mem_pending hjob)

/-- No step takes a slot away. -/
theorem slots_step (h : deleteStep l s = some t) :
    t.deleter.slots.length = s.deleter.slots.length := by
  cases l with
  | enqueue path =>
    obtain rfl := deleteStep_enqueue h
    rfl
  | flush | put =>
    cases h
    rfl
  | cancel path =>
    cases h
    simp [cancelPending, ConcurrentDeleter.cancel]
  | pump l =>
    obtain ⟨slot, s', slot', hslot, heffect, rfl⟩ := DeleteState.pump_cases h
    simp [DeleteState.setSlot, heffect.slots]

namespace DeleteState

/-- A spawned deleter is sound. -/
theorem sound_spawned (backend : Path → Option Bytes) (tombs : Finset Path) (workerCount : Nat) :
    (spawned backend tombs workerCount).Sound := by
  have hslot : ∀ slot ∈ (spawned backend tombs workerCount).deleter.slots,
      slot = .fresh := fun slot hslot ↦ List.eq_of_mem_replicate hslot
  have hjobs : ∀ job, job ∉ (spawned backend tombs workerCount).deleter.jobs := by
    intro job hjob
    rcases ConcurrentDeleter.mem_jobs.mp hjob with hjob | ⟨slot, hmem, hjob⟩
    · cases hjob
    · rw [hslot slot hmem] at hjob
      cases hjob
  refine ⟨⟨fun job hjob ↦ absurd hjob (hjobs job), fun _ _ ↦ rfl⟩, ?_,
    fun job hjob ↦ absurd hjob (hjobs job), ?_, ?_, ?_⟩
  · intro i hi
    cases hi
  · intro slot hmem epoch hacks
    rw [hslot slot hmem] at hacks
    rcases hacks with hack | ⟨read, hread, -⟩
    · exact hack
    · cases hread
  · intro slot hmem hpast
    rw [hslot slot hmem] at hpast
    cases hpast
  · simp [spawned, ConcurrentDeleter.spawn, List.replicate_eq_nil_iff]

/-- Every step keeps a deleter sound. -/
theorem Sound.step (h : s.Sound) (hstep : deleteStep l s = some t) : t.Sound := by
  have hjobs := jobsPassed_step hstep
  refine ⟨⟨?_, ?_⟩, ?_, ?_, ?_, ?_, ?_⟩
  · intro job hjob
    rcases hjobs.source job hjob with hold | ⟨hnew, -, hlt⟩
    · exact (h.numbered.jobs job hold).trans_le hjobs.channels
    · omega
  · intro i hi
    by_contra hsome
    rcases hjobs.newOutcomes i hsome with hold | ⟨job, hjob, rfl⟩
    · exact hold (h.numbered.outcomes i (hjobs.channels.trans hi))
    · have := h.numbered.jobs job hjob
      have := hjobs.channels
      omega
  · intro i hi
    by_cases hnew : s.deleter.nextJob ≤ i
    · exact .inr (hjobs.newChannels i hnew hi)
    · rcases h.tracked i (by omega) with hout | ⟨job, hjob, rfl⟩
      · exact .inl (hjobs.outcomes i hout)
      · rcases hjobs.kept job hjob with hkept | hout
        · exact .inr ⟨job, hkept, rfl⟩
        · exact .inl hout
  · intro job hjob
    rcases hjobs.source job hjob with hold | ⟨-, hepoch, -⟩
    · exact (h.epochs job hold).trans hjobs.epoch
    · exact hepoch.le.trans hjobs.epoch
  · intro slot' hslot' epoch hacks
    obtain ⟨slot, hslot, hpassed⟩ := slotPassed_step hstep hslot'
    rcases hpassed.acks epoch hacks with hold | ⟨-, -, hle⟩
    · exact (h.acks slot hslot epoch hold).trans hjobs.epoch
    · exact hle.trans hjobs.epoch
  · intro slot' hslot' hpast
    obtain ⟨slot, hslot, hpassed⟩ := slotPassed_step hstep hslot'
    exact hpassed.ledger (h.ledgers slot hslot) hpast
  · intro hnil
    have hlength := slots_step hstep
    rw [hnil] at hlength
    exact h.slots (List.length_eq_zero_iff.mp hlength.symm)

/-- The barrier stands right after the flush that raised it. -/
theorem Sound.barrier (h : s.Sound) :
    Barrier s.deleter.nextJob (s.deleter.barrierEpoch + 1)
      { s with deleter := s.deleter.flushBegin } := by
  refine ⟨le_rfl, le_rfl, ?_, ?_⟩
  · intro job hjob _
    exact Nat.lt_succ_of_le (h.epochs job hjob)
  · intro slot hslot hacks
    have := h.acks slot hslot _ hacks
    omega

/-- Every step that reads no epoch over an older job keeps a barrier. -/
theorem Barrier.step {channels : Nat} (h : Barrier channels epoch s) (hsound : s.Sound)
    (hguard : EpochReadDrained s l) (hstep : deleteStep l s = some t) :
    Barrier channels epoch t := by
  have hjobs := jobsPassed_step hstep
  refine ⟨h.reached.trans hjobs.epoch, h.given.trans hjobs.channels, ?_, ?_⟩
  · intro job hjob hchannel
    rcases hjobs.source job hjob with hold | ⟨hnew, -, -⟩
    · exact h.older job hold hchannel
    · have := h.given
      omega
  · intro slot' hslot' hacks
    obtain ⟨slot, hslot, hpassed⟩ := slotPassed_step hstep hslot'
    have hcases : (∀ job ∈ s.deleter.pending, epoch ≤ job.epoch) ∧
        ∀ job ∈ slot.jobs, epoch ≤ job.epoch := by
      rcases hpassed.acks epoch hacks with hold | ⟨⟨k, rfl⟩, hstage, hle⟩
      · exact h.passed slot hslot hold
      · have hledger : slot.ledger = [] := hsound.ledgers slot hslot (by rw [hstage]; rfl)
        refine ⟨fun job hjob ↦ hle.trans (hguard job hjob), ?_⟩
        intro job hjob
        simp [DeleterSlot.jobs, hledger, hstage, PumpStage.jobs] at hjob
    constructor
    · intro job hjob
      rcases pending_step hstep hjob with hold | hepoch
      · exact hcases.1 job hold
      · exact hepoch ▸ h.reached
    · intro job hjob
      rcases hpassed.jobs job hjob with hpending | hold
      · exact hcases.1 job hpending
      · exact hcases.2 job hold

/-- A flush that returns over its barrier leaves no job from before it, and every such channel has
an outcome. -/
theorem Barrier.resolved {channels total : Nat} (h : Barrier channels epoch t) (hsound : t.Sound)
    (hreturn : t.deleter.flushEnd epoch = some total) (hi : i < channels) :
    (∀ job ∈ t.deleter.pending, job.resultTx ≠ i) ∧ (t.deleter.outcomes i).isSome := by
  have hacked : ∀ slot ∈ t.deleter.slots, slot.acks epoch := by
    unfold ConcurrentDeleter.flushEnd at hreturn
    split at hreturn
    · next hall =>
      intro slot hslot
      exact .inl (by simpa using List.all_eq_true.mp hall slot hslot)
    · cases hreturn
  -- no job before the barrier is left anywhere
  have hnone : ∀ job ∈ t.deleter.jobs, ¬ job.resultTx < channels := by
    intro job hjob hold
    have holder := h.older job hjob hold
    have hnewer : epoch ≤ job.epoch := by
      rcases ConcurrentDeleter.mem_jobs.mp hjob with hpending | ⟨slot, hslot, hjob⟩
      · obtain ⟨slot, hslot⟩ := List.exists_mem_of_ne_nil _ hsound.slots
        exact (h.passed slot hslot (hacked slot hslot)).1 job hpending
      · exact (h.passed slot hslot (hacked slot hslot)).2 job hjob
    omega
  constructor
  · rintro job hjob rfl
    exact hnone job (ConcurrentDeleter.mem_jobs.mpr (.inl hjob)) hi
  · rcases hsound.tracked i (hi.trans_le h.given) with hout | ⟨job, hjob, rfl⟩
    · exact hout
    · exact absurd hi (hnone job hjob)

/-- A barrier stands along every run that reads no epoch over an older job. -/
theorem Sound.barrier_run (h : s.Sound)
    (hrun : GuardedRun deleteStep EpochReadDrained
      { s with deleter   := s.deleter.flushBegin } t) :
    t.Sound ∧ t.Barrier s.deleter.nextJob (s.deleter.barrierEpoch + 1) := by
  have hflushed : Sound { s with deleter := s.deleter.flushBegin } := @Sound.step s _ .flush h rfl
  exact hrun.invariant
    (fun t ↦ t.Sound ∧ t.Barrier s.deleter.nextJob (s.deleter.barrierEpoch + 1))
    (fun _ _ _ h hguard hstep ↦ ⟨h.1.step hstep, h.2.step h.1 hguard hstep⟩)
    ⟨hflushed, h.barrier⟩

end DeleteState

/-- After any run, a flush that returns leaves every job accepted before it resolved, by a close
that ended or by a cancellation, and off the queue, when from its call on no slot reads the epoch
over a job enqueued before the last barrier was raised. -/
theorem flush_barrier_of_run {backend : Path → Option Bytes} {tombs : Finset Path}
    {workerCount total : Nat} {s t : DeleteState}
    (hbefore : GuardedRun deleteStep (fun _ _ ↦ True)
      (DeleteState.spawned backend tombs workerCount) s)
    (hafter : GuardedRun deleteStep EpochReadDrained
      { s with deleter := s.deleter.flushBegin } t)
    (hreturn : t.deleter.flushEnd (s.deleter.barrierEpoch + 1) = some total) :
    ∀ i < s.deleter.nextJob, (∀ job ∈ t.deleter.pending, job.resultTx ≠ i) ∧
      ((∃ landed, t.deleter.outcomes i = some (.closed landed)) ∨
        t.deleter.outcomes i = some .cancelled) := by
  have hsound : s.Sound := hbefore.invariant DeleteState.Sound
    (fun _ _ _ h _ hstep ↦ h.step hstep) (DeleteState.sound_spawned _ _ _)
  obtain ⟨hsound', hbarrier⟩ := hsound.barrier_run hafter
  intro i hi
  obtain ⟨hpending, hout⟩ := hbarrier.resolved hsound' hreturn hi
  refine ⟨hpending, ?_⟩
  obtain ⟨outcome, houtcome⟩ := Option.isSome_iff_exists.mp hout
  cases outcome with
  | closed landed => exact .inl ⟨landed, houtcome⟩
  | cancelled => exact .inr houtcome

/-- One slot, one job in the queue. -/
def oneJob : DeleteState :=
  ⟨fun _ ↦ none, ∅, { ConcurrentDeleter.spawn 1 with
    pending := [⟨['a'], 0, 0⟩]
    nextJob := 1 }⟩

/-- The steps of one slot from the drain of one job to its acknowledgement. -/
def oneRound : List DeleteLabel :=
  [.pop, .delete true false, .record, .pop, .take, .close true, .resolve, .resolve, .load,
    .store].map (fun a ↦ .pump ⟨0, a⟩)

/-- A flush waits for the job that was enqueued before it. -/
theorem flush_barrier_of_run_sample :
    ∃ t, GuardedRun deleteStep EpochReadDrained
        { oneJob with deleter := oneJob.deleter.flushBegin } t ∧
      t.deleter.flushEnd 1 = some 1 ∧ (∀ job ∈ t.deleter.pending, job.resultTx ≠ 0) := by
  have hbefore : GuardedRun deleteStep (fun _ _ ↦ True)
      (DeleteState.spawned (fun _ ↦ none) ∅ 1) oneJob :=
    @guardedRun_of_exec _ _ _ _ _ _ [.enqueue ['a']] rfl ⟨trivial, fun _ _ ↦ trivial⟩
  obtain ⟨t, hafter, hreturn⟩ := exists_guardedRun deleteStep EpochReadDrained
    (fun t ↦ t.deleter.flushEnd 1 = some 1) oneRound
    { oneJob with deleter := oneJob.deleter.flushBegin } (by decide) (by decide)
  exact ⟨t, hafter, hreturn, (flush_barrier_of_run hbefore hafter hreturn 0 (by decide)).1⟩

/-- A job is enqueued, and a flush raises the barrier, after the slot found the queue empty and
before it reads the epoch: the flush returns, and the job is still in the queue. -/
theorem flush_returns_early :
    ∃ s, exec deleteStep [.pump ⟨0, .pop⟩, .pump ⟨0, .take⟩, .enqueue ['a']]
        (DeleteState.spawned (fun _ ↦ none) ∅ 1) = some s ∧ s.deleter.nextJob = 1 ∧
      ∃ t, exec deleteStep [.pump ⟨0, .load⟩, .pump ⟨0, .store⟩]
          { s with deleter := s.deleter.flushBegin } = some t ∧
        t.deleter.flushEnd (s.deleter.barrierEpoch + 1) = some 0 ∧
        t.deleter.pending = [⟨['a'], 0, 0⟩] ∧ t.deleter.outcomes 0 = none :=
  ⟨_, rfl, rfl, _, rfl, by decide⟩

end Mntrs

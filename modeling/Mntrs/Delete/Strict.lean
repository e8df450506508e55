import Mntrs.Delete.Resolved

/-!
# The strict delete over the batch deleter

`delete_backend_strict` (`src/src/lib.rs:2037-2079`) enqueues a job, drops its receiver and waits
for the barrier. The barrier says that the job was resolved, not how: a job that was refused, given
up after the last attempt, cancelled, or closed without its key in the buffer counts as deleted.
In every run without these, a strict delete that returns was closed in a batch that landed, and a
request with its key succeeded.
-/

namespace Mntrs

open Base

variable {s s' : DeleteState} {slot slot' : DeleterSlot} {i : Nat} {p : Path}

/-- A request with a key in its buffer succeeds: a close, or the flush of a full buffer. -/
def SendsKey (p : Path) (s : DeleteState) : DeleteLabel → Prop
  | .pump ⟨k, .close true⟩ => ∃ slot, s.deleter.slots[k]? = some slot ∧ p ∈ slot.batch
  | .pump ⟨k, .delete staged true⟩ => ∃ slot job batch, s.deleter.slots[k]? = some slot ∧
      slot.stage = .delete job ∧
      batch = (if staged then slot.batch.insert job.relativePath else slot.batch) ∧
      p ∈ batch ∧ maxBatchSize ≤ batch.length
  | _ => False

/-- A close of the batch with a job returns `Ok`. -/
def ClosesJob (i : Nat) (s : DeleteState) : DeleteLabel → Prop
  | .pump ⟨k, .close true⟩ => ∃ slot attempt toFlush, s.deleter.slots[k]? = some slot ∧
      slot.stage = .close attempt toFlush ∧ ∃ job ∈ toFlush, job.resultTx = i
  | _ => False

/-- No slot reads the epoch over an older job, the path is not cancelled, the job is not given up
after its last attempt, and `Deleter::delete` buffers its key. -/
def StrictClean (p : Path) (i : Nat) (s : DeleteState) (l : DeleteLabel) : Prop :=
  EpochReadDrained s l ∧
    match l with
    | .cancel path => path ≠ p
    | .pump ⟨k, .close false⟩ => ∀ slot ∈ s.deleter.slots[k]?.toList, ∀ job ∈ slot.lastAttempt,
        job.resultTx ≠ i
    | .pump ⟨k, .delete staged _⟩ => ∀ slot ∈ s.deleter.slots[k]?.toList,
        ∀ job ∈ slot.stage.jobs, job.resultTx = i → staged = true
    | _ => True

instance (p : Path) (i : Nat) (s : DeleteState) (l : DeleteLabel) :
    Decidable (StrictClean p i s l) :=
  @instDecidableAnd _ _ inferInstance <|
    match l with
    | .cancel path => inferInstanceAs (Decidable (path ≠ p))
    | .pump ⟨k, .close false⟩ => inferInstanceAs (Decidable
      (∀ slot ∈ s.deleter.slots[k]?.toList, ∀ job ∈ slot.lastAttempt, job.resultTx ≠ i))
    | .pump ⟨k, .delete staged _⟩ => inferInstanceAs (Decidable
      (∀ slot ∈ s.deleter.slots[k]?.toList,
        ∀ job ∈ slot.stage.jobs, job.resultTx = i → staged = true))
    | .pump ⟨_, .close true⟩ | .pump ⟨_, .pop⟩ | .pump ⟨_, .record⟩ | .pump ⟨_, .take⟩
    | .pump ⟨_, .request _⟩ | .pump ⟨_, .resolve⟩ | .pump ⟨_, .load⟩ | .pump ⟨_, .store⟩
    | .pump ⟨_, .wake⟩ | .enqueue _ | .flush | .put _ _ => isTrue trivial

/-- The jobs of a slot whose keys were handed to the batch deleter and not yet closed. -/
def DeleterSlot.handed (slot : DeleterSlot) : List PendingDelete :=
  slot.ledger ++ match slot.stage with
    | .record job => [job]
    | .close _ toFlush => toFlush
    | _ => []

/-- A slot with a job has its key in the buffer until it is sent, and resolves the job only after
a close. -/
structure DeleterSlot.Fate (i : Nat) (p : Path) (sent closed : Prop) (slot : DeleterSlot) :
    Prop where
  handed : ∀ job ∈ slot.handed, job.resultTx = i → p ∈ slot.batch ∨ sent
  resolving : ∀ landed toFlush, slot.stage = .resolve landed toFlush →
    ∀ job ∈ toFlush, job.resultTx = i → closed ∧ sent

/-- A job of a path among the slots, with what has happened to it. -/
structure DeleteState.Fate (i : Nat) (p : Path) (sent closed : Prop) (s : DeleteState) :
    Prop where
  given : i < s.deleter.nextJob
  path : ∀ job ∈ s.deleter.jobs, job.resultTx = i → job.relativePath = p
  slots : ∀ slot ∈ s.deleter.slots, slot.Fate i p sent closed
  outcome : s.deleter.outcomes i ≠ none → closed ∧ sent

/-- What has happened stays so. -/
theorem DeleterSlot.Fate.mono {sent closed sent' closed' : Prop} (h : slot.Fate i p sent closed)
    (hsent : sent → sent') (hclosed : closed → closed') : slot.Fate i p sent' closed' :=
  ⟨fun job hjob hi ↦ (h.handed job hjob hi).imp_right hsent,
    fun landed toFlush hstage job hjob hi ↦
      (h.resolving landed toFlush hstage job hjob hi).imp hclosed hsent⟩

/-- A step of a slot: its job is staged, is not given up, and is recorded as sent and closed when
a request succeeds. -/
theorem SlotEffect.fate {a : PumpAction} (h : SlotEffect s slot a s' slot') {sent closed : Prop}
    (hslot : slot.Fate i p sent closed)
    (hpath : ∀ job ∈ slot.stage.jobs, job.resultTx = i → job.relativePath = p)
    (hstaged : ∀ staged flushed, a = .delete staged flushed →
      ∀ job ∈ slot.stage.jobs, job.resultTx = i → staged = true)
    (hlast : a = .close false → ∀ job ∈ slot.lastAttempt, job.resultTx ≠ i)
    (hflush : ∀ staged flushed job, a = .delete staged flushed → slot.stage = .delete job →
      slot'.batch = [] →
      p ∈ (if staged then slot.batch.insert job.relativePath else slot.batch) → sent)
    (hland : a = .close true → p ∈ slot.batch → sent)
    (hcloses : a = .close true → ∀ attempt toFlush, slot.stage = .close attempt toFlush →
      ∀ job ∈ toFlush, job.resultTx = i → closed) : slot'.Fate i p sent closed := by
  cases h with
  | @delete job staged flushed batch hstage hbatch =>
    refine ⟨?_, fun _ _ hresolve ↦ by cases hresolve⟩
    intro other hother hi
    have hmem : ∀ q, q ∈ slot.batch → q ∈ batch := by
      intro q hq
      rw [hbatch]
      split
      · exact List.mem_insert_of_mem hq
      · exact hq
    rcases List.mem_append.mp hother with hledger | hjob
    · have hold := hslot.handed other (List.mem_append_left _ hledger) hi
      exact hold.imp_left (hmem p)
    · rw [List.mem_singleton] at hjob
      subst hjob
      have hin : other ∈ slot.stage.jobs := by simp [hstage, PumpStage.jobs]
      rw [hstaged staged flushed rfl other hin hi, hpath other hin hi] at hbatch
      rw [hbatch]
      exact .inl List.mem_insert_self
  | @flush job staged flushed batch hstage hbatch =>
    refine ⟨?_, fun _ _ hresolve ↦ by cases hresolve⟩
    intro other hother hi
    right
    rcases List.mem_append.mp hother with hledger | hjob
    · rcases hslot.handed other (List.mem_append_left _ hledger) hi with hkey | hsent
      · refine hflush staged flushed job rfl hstage rfl ?_
        split
        · exact List.mem_insert_of_mem hkey
        · exact hkey
      · exact hsent
    · rw [List.mem_singleton] at hjob
      subst hjob
      have hin : other ∈ slot.stage.jobs := by simp [hstage, PumpStage.jobs]
      refine hflush staged flushed other rfl hstage rfl ?_
      rw [hstaged staged flushed rfl other hin hi, hpath other hin hi]
      exact List.mem_insert_self
  | request keys => exact hslot
  | @land attempt toFlush hstage =>
    have hkey : ∀ job ∈ slot.handed, job.resultTx = i → sent := fun job hjob hi ↦
      (hslot.handed job hjob hi).elim (hland rfl) id
    constructor
    · intro job hjob hi
      refine .inr (hkey job ?_ hi)
      simp only [DeleterSlot.handed, List.append_nil] at hjob ⊢
      exact List.mem_append_left _ hjob
    · intro landed jobs hresolve job hjob hi
      cases hresolve
      refine ⟨hcloses rfl attempt toFlush hstage job hjob hi, hkey job ?_ hi⟩
      simp [DeleterSlot.handed, hstage, hjob]
  | @giveUp attempt toFlush hstage hattempt =>
    have hkey : ∀ job ∈ toFlush, job.resultTx ≠ i := by
      intro job hjob
      refine hlast rfl job ?_
      simpa [DeleterSlot.lastAttempt, hstage, Nat.not_lt.mpr hattempt] using hjob
    constructor
    · intro job hjob hi
      refine hslot.handed job ?_ hi
      simp only [DeleterSlot.handed, List.append_nil] at hjob ⊢
      exact List.mem_append_left _ hjob
    · intro landed jobs hresolve job hjob hi
      cases hresolve
      exact absurd hi (hkey job hjob)
  | @resolve landed job rest hstage =>
    constructor
    · intro other hother hi
      exact hslot.handed other (by simpa [DeleterSlot.handed, hstage] using hother) hi
    · intro landed' jobs hresolve other hother hi
      cases hresolve
      exact hslot.resolving landed _ hstage other (List.mem_cons_of_mem _ hother) hi
  | _ =>
    -- the jobs move between the ledger and the stage, and the buffer stays
    refine ⟨?_, fun _ _ hresolve ↦ by cases hresolve⟩
    intro job hjob hi
    refine hslot.handed job ?_ hi
    simp_all [DeleterSlot.handed]

/-- A buffer is emptied by `Deleter::delete` only if it is full and the request succeeds. -/
theorem slotStep_flush {staged flushed : Bool} {job : PendingDelete}
    (h : slotStep s slot (.delete staged flushed) = some (s', slot'))
    (hstage : slot.stage = .delete job) (hempty : slot'.batch = [])
    (hp : p ∈ (if staged then slot.batch.insert job.relativePath else slot.batch)) :
    flushed = true ∧ maxBatchSize ≤
      (if staged then slot.batch.insert job.relativePath else slot.batch).length := by
  simp only [slotStep, hstage] at h
  generalize (if staged = true then slot.batch.insert job.relativePath else slot.batch) = batch
    at h hp ⊢
  split at h
  · next hfull => exact hfull
  · cases h
    simp only at hempty
    rw [hempty] at hp
    cases hp

/-- A slot answers the job at the head of the batch that it resolves. -/
theorem SlotEffect.outcome_cases {a : PumpAction} (h : SlotEffect s slot a s' slot')
    (hi : s'.deleter.outcomes i ≠ none) :
    s.deleter.outcomes i ≠ none ∨
      ∃ landed job rest, slot.stage = .resolve landed (job :: rest) ∧ job.resultTx = i := by
  cases h with
  | @resolve landed job rest hstage =>
    simp only [ConcurrentDeleter.send, List.map_cons, List.map_nil, List.mem_singleton] at hi
    by_cases heq : i = job.resultTx
    · exact .inr ⟨landed, job, rest, hstage, heq.symm⟩
    · rw [if_neg heq] at hi
      exact .inl hi
  | _ => exact .inl hi

namespace DeleteState

variable {s₀ t : DeleteState} {l : DeleteLabel}

/-- A job of a path, with what has happened since a state. -/
def FateSince (i : Nat) (p : Path) (s₀ s : DeleteState) : Prop :=
  s.Fate i p (Occurs deleteStep (StrictClean p i) (SendsKey p) s₀ s)
    (Occurs deleteStep (StrictClean p i) (ClosesJob i) s₀ s)

/-- A step of the pump keeps track of the job. -/
theorem FateSince.pump {l : PumpLabel} (h : FateSince i p s₀ s)
    (hrun : GuardedRun deleteStep (StrictClean p i) s₀ s) (hguard : StrictClean p i s (.pump l))
    (hstep : s.pump l = some t) : FateSince i p s₀ t := by
  have hguarded : GuardedStep deleteStep (StrictClean p i) s t := ⟨.pump l, hguard, hstep⟩
  have hjobs := jobsPassed_pump hstep
  obtain ⟨slot, s', slot', hslot, hslotStep, rfl⟩ := exists_slotStep hstep
  have heffect := slotEffect_of_slotStep hslotStep
  have hmem : slot ∈ s.deleter.slots := List.mem_of_getElem? hslot
  obtain ⟨k, a⟩ := l
  refine ⟨h.given.trans_le hjobs.channels, ?_, ?_, ?_⟩
  · intro job hjob hi
    rcases hjobs.source job hjob with hold | ⟨hnew, -, -⟩
    · exact h.path job hold hi
    · have := h.given
      omega
  · intro other hother
    simp only [setSlot, heffect.slots] at hother
    rcases List.mem_or_eq_of_mem_set hother with hother | rfl
    · exact (h.slots other hother).mono (·.tail hguarded) (·.tail hguarded)
    refine heffect.fate ((h.slots slot hmem).mono (·.tail hguarded) (·.tail hguarded))
      ?_ ?_ ?_ ?_ ?_ ?_
    · intro job hjob
      exact h.path job (ConcurrentDeleter.mem_jobs.mpr
        (.inr ⟨slot, hmem, List.mem_append_right _ hjob⟩))
    · rintro staged flushed rfl job hjob hi
      exact hguard.2 slot (by simp [hslot]) job hjob hi
    · rintro rfl job hjob
      exact hguard.2 slot (by simp [hslot]) job hjob
    · rintro staged flushed job rfl hstage hempty hp
      obtain ⟨hflushed, hfull⟩ := slotStep_flush hslotStep hstage hempty hp
      subst hflushed
      exact .last hrun hguard ⟨slot, job, _, hslot, hstage, rfl, hp, hfull⟩ hstep
    · rintro rfl hp
      exact .last hrun hguard ⟨slot, hslot, hp⟩ hstep
    · rintro rfl attempt toFlush hstage job hjob hi
      exact .last hrun hguard ⟨slot, attempt, toFlush, hslot, hstage, job, hjob, hi⟩ hstep
  · intro hout
    rcases heffect.outcome_cases hout with hold | ⟨landed, job, rest, hstage, hi⟩
    · exact (h.outcome hold).imp (·.tail hguarded) (·.tail hguarded)
    · have hresolved := (h.slots slot hmem).resolving landed _ hstage job List.mem_cons_self hi
      exact hresolved.imp (·.tail hguarded) (·.tail hguarded)

/-- Every step keeps track of the job. -/
theorem FateSince.step (h : FateSince i p s₀ s)
    (hrun : GuardedRun deleteStep (StrictClean p i) s₀ s) (hguard : StrictClean p i s l)
    (hstep : deleteStep l s = some t) : FateSince i p s₀ t := by
  have hguarded : GuardedStep deleteStep (StrictClean p i) s t := ⟨l, hguard, hstep⟩
  have hslots : ∀ slot ∈ s.deleter.slots, slot.Fate i p
      (Occurs deleteStep (StrictClean p i) (SendsKey p) s₀ t)
      (Occurs deleteStep (StrictClean p i) (ClosesJob i) s₀ t) := fun slot hslot ↦
    (h.slots slot hslot).mono (·.tail hguarded) (·.tail hguarded)
  have houtcome : s.deleter.outcomes i ≠ none →
      Occurs deleteStep (StrictClean p i) (ClosesJob i) s₀ t ∧
        Occurs deleteStep (StrictClean p i) (SendsKey p) s₀ t := fun hout ↦
    (h.outcome hout).imp (·.tail hguarded) (·.tail hguarded)
  cases l with
  | enqueue path =>
    obtain rfl := deleteStep_enqueue hstep
    refine ⟨h.given.trans (Nat.lt_succ_self _), ?_, hslots, houtcome⟩
    intro job hjob hi
    simp only [ConcurrentDeleter.mem_jobs, List.mem_append, List.mem_singleton] at hjob
    rcases hjob with (hjob | rfl) | hjob
    · exact h.path job (ConcurrentDeleter.mem_jobs.mpr (.inl hjob)) hi
    · exact absurd hi h.given.ne'
    · exact h.path job (ConcurrentDeleter.mem_jobs.mpr (.inr hjob)) hi
  | flush | put =>
    cases hstep
    exact ⟨h.given, h.path, hslots, houtcome⟩
  | cancel path =>
    have hjobs := jobsPassed_step hstep
    cases hstep
    refine ⟨h.given, ?_, ?_, ?_⟩
    · intro job hjob hi
      rcases hjobs.source job hjob with hold | ⟨hnew, -, -⟩
      · exact h.path job hold hi
      · exact absurd (hi.symm.trans hnew) h.given.ne
    · intro slot' hslot'
      obtain ⟨slot, hslot, rfl⟩ := List.mem_map.mp hslot'
      refine ⟨?_, (hslots slot hslot).resolving⟩
      intro job hjob hi
      refine (hslots slot hslot).handed job ?_ hi
      simp only [DeleterSlot.handed, List.mem_append, List.mem_filter] at hjob ⊢
      exact hjob.imp_left And.left
    · intro hout
      refine houtcome fun hnone ↦ hout ?_
      -- a cancelled job has another path
      have hnot : i ∉ (s.deleter.cancelled path).map PendingDelete.resultTx := by
        intro hmem
        obtain ⟨job, hjob, hi⟩ := List.mem_map.mp hmem
        simp only [ConcurrentDeleter.cancelled, List.mem_filter, List.mem_append,
          List.mem_flatMap, decide_eq_true_eq] at hjob
        have hheld : job ∈ s.deleter.jobs := by
          rw [ConcurrentDeleter.mem_jobs]
          exact hjob.1.imp_right fun ⟨slot, hslot, hledger⟩ ↦
            ⟨slot, hslot, List.mem_append_left _ hledger⟩
        exact hguard.2 (hjob.2.symm.trans (h.path job hheld hi))
      simp [cancelPending, ConcurrentDeleter.cancel, ConcurrentDeleter.send, hnot, hnone]
  | pump l => exact h.pump hrun hguard hstep

theorem fateSince_enqueue (hsound : s.Sound) (hstep : deleteStep (.enqueue p) s = some t) :
    FateSince s.deleter.nextJob p t t := by
  obtain rfl := deleteStep_enqueue hstep
  have hold : ∀ job ∈ s.deleter.jobs, job.resultTx ≠ s.deleter.nextJob := fun job hjob ↦
    (hsound.numbered.jobs job hjob).ne
  refine ⟨Nat.lt_succ_self _, ?_, ?_, ?_⟩
  · intro job hjob hi
    simp only [ConcurrentDeleter.mem_jobs, List.mem_append, List.mem_singleton] at hjob
    rcases hjob with (hjob | rfl) | hjob
    · exact absurd hi (hold job (ConcurrentDeleter.mem_jobs.mpr (.inl hjob)))
    · rfl
    · exact absurd hi (hold job (ConcurrentDeleter.mem_jobs.mpr (.inr hjob)))
  · intro slot hslot
    have hnone : ∀ job ∈ slot.jobs, job.resultTx ≠ s.deleter.nextJob := fun job hjob ↦
      hold job (ConcurrentDeleter.mem_jobs.mpr (.inr ⟨slot, hslot, hjob⟩))
    constructor
    · intro job hjob hi
      refine absurd hi (hnone job ?_)
      simp only [DeleterSlot.handed, DeleterSlot.jobs, PumpStage.jobs, List.mem_append] at hjob ⊢
      rcases hjob with hledger | hstage
      · exact .inl hledger
      · right
        split at hstage <;> simp_all
    · intro landed toFlush hstage job hjob hi
      exact absurd hi (hnone job (by simp [DeleterSlot.jobs, PumpStage.jobs, hstage, hjob]))
  · intro hout
    exact absurd (hsound.numbered.outcomes _ le_rfl) hout

end DeleteState

theorem exists_run_of_runPump {fs : MntrsFs} {d : ConcurrentDeleter}
    (hd : fs.concurrentDeleter = some d) (labels : List PumpLabel) :
    ∃ t : DeleteState,
      GuardedRun deleteStep (fun _ l ↦ ∃ pump, l = .pump pump)
        ⟨fs.backend, fs.deleteTombstones, d⟩ t ∧
      (runPump fs labels).backend = t.backend ∧
      (runPump fs labels).concurrentDeleter = some t.deleter := by
  induction labels generalizing fs d with
  | nil => exact ⟨_, .refl, rfl, hd⟩
  | cons l labels ih =>
    change ∃ t, _ ∧ (runPump ((pumpStep fs l).getD fs) labels).backend = _ ∧
      (runPump ((pumpStep fs l).getD fs) labels).concurrentDeleter = _
    cases hstep : pumpStep fs l with
    | none => exact ih hd
    | some fs' =>
      simp only [pumpStep, hd] at hstep
      obtain ⟨u, hu, rfl⟩ := Option.map_eq_some_iff.mp hstep
      obtain ⟨t, hrun, hbackend, hdeleter⟩ := @ih
        { fs with
          backend := u.backend
          deleteTombstones := u.tombs
          concurrentDeleter := some u.deleter } u.deleter rfl
      exact ⟨t, .head ⟨.pump l, ⟨l, rfl⟩, hu⟩ hrun, hbackend, hdeleter⟩

/-- A strict delete of a mount that returns `Ok` is a job that was accepted or refused, and a flush
that returned. -/
theorem exists_run_of_deleteBackendStrict {fs : MntrsFs} {d : ConcurrentDeleter} {path : Path}
    {label : String} {env : DeleteEnv} (hd : fs.concurrentDeleter = some d)
    (hok : (deleteBackendStrict fs path label env).1 = .ok ()) :
    ∃ (t : DeleteState) (total : Nat),
      GuardedRun deleteStep (fun _ l ↦ ∃ pump, l = .pump pump)
        ⟨fs.backend, fs.deleteTombstones, ((d.enqueue path).getD d).flushBegin⟩ t ∧
      t.deleter.flushEnd (((d.enqueue path).getD d).barrierEpoch + 1) = some total ∧
      (deleteBackendStrict fs path label env).2.backend = t.backend := by
  simp only [deleteBackendStrict, hd] at hok ⊢
  obtain ⟨t, hrun, hbackend, hdeleter⟩ := @exists_run_of_runPump
    { fs with concurrentDeleter := some ((d.enqueue path).getD d).flushBegin } _ rfl env.pump
  rw [flushDeleter_snd]
  simp only [flushDeleter, hdeleter, Option.bind_some] at hok
  cases hend : t.deleter.flushEnd (((d.enqueue path).getD d).barrierEpoch + 1) with
  | none =>
    rw [hend] at hok
    cases hok
  | some total => exact ⟨t, total, hrun, hend, hbackend⟩

/-- A strict delete among any other calls: the deleter accepts the job, and `flush` raises the
barrier and returns. If no slot reads the epoch over an older job, the path is not cancelled, the
job is not given up and `Deleter::delete` buffers its key, then a close of the batch with the job
returned `Ok` after the job was enqueued, and a request with the key succeeded. -/
theorem strict_delete_closed_of_run {backend : Path → Option Bytes} {tombs : Finset Path}
    {workerCount total : Nat} {p : Path} {s s₁ s₂ t : DeleteState}
    (hbefore : GuardedRun deleteStep (fun _ _ ↦ True)
      (DeleteState.spawned backend tombs workerCount) s)
    (henqueue : deleteStep (.enqueue p) s = some s₁)
    (hbetween : GuardedRun deleteStep (StrictClean p s.deleter.nextJob) s₁ s₂)
    (hafter : GuardedRun deleteStep (StrictClean p s.deleter.nextJob)
      { s₂ with deleter := s₂.deleter.flushBegin } t)
    (hreturn : t.deleter.flushEnd (s₂.deleter.barrierEpoch + 1) = some total) :
    Occurs deleteStep (StrictClean p s.deleter.nextJob) (ClosesJob s.deleter.nextJob) s₁ t ∧
      Occurs deleteStep (StrictClean p s.deleter.nextJob) (SendsKey p) s₁ t := by
  have hsound : s.Sound := hbefore.invariant DeleteState.Sound
    (fun _ _ _ h _ hstep ↦ h.step hstep) (DeleteState.sound_spawned _ _ _)
  have hflush : GuardedStep deleteStep (StrictClean p s.deleter.nextJob) s₂
      { s₂ with deleter := s₂.deleter.flushBegin } := ⟨.flush, ⟨trivial, trivial⟩, rfl⟩
  -- the whole call is one run from the enqueue on
  have hcall : GuardedRun deleteStep (StrictClean p s.deleter.nextJob) s₁ t :=
    (hbetween.tail hflush).trans hafter
  have hfate : DeleteState.FateSince s.deleter.nextJob p s₁ t :=
    (hcall.invariant
      (fun u ↦ GuardedRun deleteStep (StrictClean p s.deleter.nextJob) s₁ u ∧
        DeleteState.FateSince s.deleter.nextJob p s₁ u)
      (fun _ l _ hinv hguard hstep ↦
        ⟨hinv.1.tail ⟨l, hguard, hstep⟩, hinv.2.step hinv.1 hguard hstep⟩)
      ⟨.refl, DeleteState.fateSince_enqueue hsound henqueue⟩).2
  have hsound₂ : s₂.Sound ∧ s.deleter.nextJob < s₂.deleter.nextJob :=
    hbetween.invariant (fun u ↦ u.Sound ∧ s.deleter.nextJob < u.deleter.nextJob)
      (fun _ _ _ hinv _ hstep ↦
        ⟨hinv.1.step hstep, hinv.2.trans_le (jobsPassed_step hstep).channels⟩)
      ⟨hsound.step henqueue, (DeleteState.fateSince_enqueue hsound henqueue).given⟩
  obtain ⟨hsoundt, hbarrier⟩ := hsound₂.1.barrier_run (hafter.mono (fun _ _ h ↦ h.1))
  obtain ⟨-, hout⟩ := hbarrier.resolved hsoundt hreturn hsound₂.2
  exact hfate.outcome (Option.isSome_iff_ne_none.mp hout)

/-- A strict delete whose batch lands at the first attempt. -/
theorem strict_delete_closed_of_run_sample :
    ∃ t, GuardedRun deleteStep (StrictClean ['a'] 0)
        { oneJob with deleter := oneJob.deleter.flushBegin } t ∧
      t.deleter.flushEnd 1 = some 1 ∧
      Occurs deleteStep (StrictClean ['a'] 0) (ClosesJob 0) oneJob t := by
  obtain ⟨t, hafter, hreturn⟩ := exists_guardedRun deleteStep (StrictClean ['a'] 0)
    (fun t ↦ t.deleter.flushEnd 1 = some 1) oneRound
    { oneJob with deleter := oneJob.deleter.flushBegin } (by decide) (by decide)
  exact ⟨t, hafter, hreturn, (strict_delete_closed_of_run
    (.refl : GuardedRun deleteStep (fun _ _ ↦ True) (.spawned (fun _ ↦ none) ∅ 1) _) rfl .refl
    hafter hreturn).1⟩

/-- Every attempt of the batch fails. -/
def givenUp : List DeleteLabel :=
  ([.enqueue ['a'], .flush] : List DeleteLabel) ++
    ([.pop, .delete true false, .record, .pop, .take, .close false, .take, .close false, .take,
      .close false, .take, .close false, .resolve, .resolve, .load, .store] : List PumpAction).map
      (fun a ↦ DeleteLabel.pump ⟨0, a⟩)

/-- A flush without work. -/
def flushIdle : List DeleteLabel :=
  .flush :: [.pop, .take, .load, .store].map (fun a ↦ .pump ⟨0, a⟩)

/-- The flush returns after the job was given up, and on a closed deleter that refused it: the
strict delete is `Ok` and the object is there. -/
theorem strict_delete_reports_failed :
    (∃ t, exec deleteStep givenUp (.spawned (fun _ ↦ some [1]) ∅ 1) = some t ∧
      t.deleter.flushEnd 1 = some 0 ∧ t.deleter.outcomes 0 = some (.closed false) ∧
      t.backend ['a'] = some [1]) ∧
    ∃ s t, s.deleter.accepting = false ∧ deleteStep (.enqueue ['a']) s = none ∧
      exec deleteStep flushIdle s = some t ∧ t.deleter.flushEnd 1 = some 0 ∧
      t.backend ['a'] = some [1] :=
  ⟨⟨_, rfl, by decide, by decide, rfl⟩,
    ⟨fun _ ↦ some [1], ∅, { ConcurrentDeleter.spawn 1 with accepting := false }⟩, _, rfl, rfl, rfl,
    by decide, rfl⟩

end Mntrs

import Mntrs.Delete.Pump

/-!
# What the pump deletes

The pump deletes only what some part of the deleter holds, and holds only what was enqueued. A
job that is acknowledged as landed, after `Deleter::delete` buffered its key, has left no object.
-/

namespace Mntrs

variable {s s' t : DeleteState} {slot slot' : DeleterSlot} {fs : MntrsFs} {p path : Path}
  {a : PumpAction} {l : PumpLabel}

/-- A slot moves no other slot. -/
theorem SlotEffect.slots (h : SlotEffect s slot a s' slot') :
    s'.deleter.slots = s.deleter.slots := by
  cases h <;> rfl

/-- What a slot and the queue hold after a step, they held before. -/
theorem SlotEffect.held (h : SlotEffect s slot a s' slot')
    (hp : p ∈ s'.deleter.pending.map PendingDelete.relativePath ∨ p ∈ slot'.held) :
    p ∈ s.deleter.pending.map PendingDelete.relativePath ∨ p ∈ slot.held := by
  cases h with
  | @delete job staged flushed batch hstage hbatch =>
    have hinsert : p ∈ batch → p = job.relativePath ∨ p ∈ slot.batch := by
      rw [hbatch]
      split
      · exact List.mem_insert_iff.mp
      · exact .inr
    simp only [DeleterSlot.held, DeleterSlot.jobs, PumpStage.jobs, hstage, List.mem_append,
      List.map_append, List.map_cons, List.map_nil, List.mem_singleton] at hp ⊢
    tauto
  | _ =>
    simp_all only [DeleterSlot.held, DeleterSlot.jobs, PumpStage.jobs, List.mem_append,
      List.map_append, List.map_cons, List.map_nil, List.mem_cons, List.not_mem_nil] <;>
    tauto

theorem SlotEffect.backend_of_not_held (h : SlotEffect s slot a s' slot') (hp : p ∉ slot.held) :
    s'.backend p = s.backend p := by
  have hbatch : p ∉ slot.batch := fun hmem ↦ hp (List.mem_append_right _ hmem)
  cases h with
  | @flush job staged flushed batch hstage hbatch' =>
    have hjob : p ≠ job.relativePath := by
      rintro rfl
      apply hp
      simp [DeleterSlot.held, DeleterSlot.jobs, PumpStage.jobs, hstage]
    have hnot : p ∉ batch := by
      rw [hbatch']
      split
      · simp [hjob, hbatch]
      · exact hbatch
    simp [deleteObjects, hnot]
  | request keys | land hstage => simp [deleteObjects, hbatch]
  | _ => rfl

/-- What the deleter holds after a step of the pump, it held before. -/
theorem DeleteState.held_pump (h : s.pump l = some t) (hp : p ∈ t.deleter.held) :
    p ∈ s.deleter.held := by
  obtain ⟨slot, s', slot', hslot, heffect, rfl⟩ := DeleteState.pump_cases h
  have hmem : slot ∈ s.deleter.slots := List.mem_of_getElem? hslot
  have hold : p ∈ s.deleter.pending.map PendingDelete.relativePath ∨ p ∈ slot.held →
      p ∈ s.deleter.held := by
    rintro (hpending | hheld)
    · exact List.mem_append_left _ hpending
    · exact List.mem_append_right _ (List.mem_flatMap.mpr ⟨slot, hmem, hheld⟩)
  rcases List.mem_append.mp hp with hpending | hslots
  · exact hold (heffect.held (.inl hpending))
  · obtain ⟨other, hother, hheld⟩ := List.mem_flatMap.mp hslots
    simp only [DeleteState.setSlot, heffect.slots] at hother
    rcases List.mem_or_eq_of_mem_set hother with hother | rfl
    · exact List.mem_append_right _ (List.mem_flatMap.mpr ⟨other, hother, hheld⟩)
    · exact hold (heffect.held (.inr hheld))

/-- The pump spares what the deleter does not hold. -/
theorem DeleteState.backend_pump (h : s.pump l = some t) (hp : p ∉ s.deleter.held) :
    t.backend p = s.backend p := by
  obtain ⟨slot, s', slot', hslot, heffect, rfl⟩ := DeleteState.pump_cases h
  apply heffect.backend_of_not_held
  intro hheld
  exact hp (List.mem_append_right _
    (List.mem_flatMap.mpr ⟨slot, List.mem_of_getElem? hslot, hheld⟩))

/-- A job adds its own path at most to what the deleter holds. -/
theorem ConcurrentDeleter.mem_held_enqueue {d : ConcurrentDeleter} {q : Path}
    (h : q ∈ ((d.enqueue path).getD d).held) : q = path ∨ q ∈ d.held := by
  unfold enqueue at h
  split at h
  · simp only [held, Option.getD_some, List.map_append, List.map_cons, List.map_nil,
      List.mem_append, List.mem_singleton] at h ⊢
    tauto
  · exact .inr h

/-- The deleter still holds a delete of a path. -/
def deleteQueued (fs : MntrsFs) (p : Path) : Bool :=
  match fs.concurrentDeleter with
  | some d => decide (p ∈ d.held)
  | none => false

variable {i : Nat}

theorem backend_runPump {q : Path} (labels : List PumpLabel) (hqueue : deleteQueued fs q = false) :
    (runPump fs labels).backend q = fs.backend q := by
  induction labels generalizing fs with
  | nil => rfl
  | cons l labels ih =>
    change (runPump ((pumpStep fs l).getD fs) labels).backend q = fs.backend q
    cases hstep : pumpStep fs l with
    | none => exact ih hqueue
    | some fs' =>
      unfold pumpStep at hstep
      split at hstep
      · cases hstep
      · next d hd =>
        obtain ⟨t, ht, rfl⟩ := Option.map_eq_some_iff.mp hstep
        have hnot : q ∉ d.held := by simpa [deleteQueued, hd] using hqueue
        rw [ih]
        · exact DeleteState.backend_pump ht hnot
        · simpa [deleteQueued] using fun hmem ↦ hnot (DeleteState.held_pump ht hmem)

/-- A synchronous delete spares the other objects, unless their deletes were queued. -/
theorem deleteBackendStrict_spares {q : Path} (label : String) (env : DeleteEnv) (hq : q ≠ path)
    (hqueue : deleteQueued fs q = false) :
    (deleteBackendStrict fs path label env).2.backend q = fs.backend q := by
  unfold deleteBackendStrict
  split
  · next d hd =>
    have hheld : q ∉ d.held := by simpa [deleteQueued, hd] using hqueue
    have hnot : q ∉ ((d.enqueue path).getD d).held := by
      intro hmem
      rcases ConcurrentDeleter.mem_held_enqueue hmem with rfl | hmem
      · exact hq rfl
      · exact hheld hmem
    have hrun := @backend_runPump
      { fs with concurrentDeleter := some ((d.enqueue path).getD d).flushBegin } q env.pump
      (by simpa [deleteQueued, ConcurrentDeleter.flushBegin, ConcurrentDeleter.held] using hnot)
    rw [flushDeleter_snd]
    exact hrun
  · split
    · simp [hq]
    · rfl
    · rfl

/-! ### Deletes that are carried out -/

/-- `Deleter::delete` does not fail in this step. -/
def PumpLabel.stages (l : PumpLabel) : Bool :=
  match l.action with
  | .delete staged _ => staged
  | _ => true

/-- A slot carries the delete of a path by a job: until the object is gone, the key is in the
buffer of every slot that has the job, from the call of `Deleter::delete` on. -/
def DeleterSlot.Carries (i : Nat) (p : Path) (backend : Path → Option Bytes)
    (slot : DeleterSlot) : Prop :=
  ∀ job ∈ slot.jobs, job.resultTx = i → job.relativePath = p ∧
    (slot.stage = .delete job ∨ backend p = none ∨
      p ∈ slot.batch ∧ ∀ toFlush, slot.stage ≠ .resolve true toFlush)

/-- The deleter carries the delete of a path by a job. -/
structure Carries (i : Nat) (p : Path) (s : DeleteState) : Prop where
  pending : ∀ job ∈ s.deleter.pending, job.resultTx = i → job.relativePath = p
  slots : ∀ slot ∈ s.deleter.slots, slot.Carries i p s.backend
  outcome : s.deleter.outcomes i = some (.closed true) → s.backend p = none

/-- The pump creates no object. -/
theorem SlotEffect.backend_eq_none (h : SlotEffect s slot a s' slot') (hp : s.backend p = none) :
    s'.backend p = none := by
  cases h with
  | flush | request | land => simp [deleteObjects, hp]
  | _ => exact hp

theorem SlotEffect.carries (h : SlotEffect s slot a s' slot') (hstages : PumpLabel.stages ⟨0, a⟩)
    (hpending : ∀ job ∈ s.deleter.pending, job.resultTx = i → job.relativePath = p)
    (hslot : slot.Carries i p s.backend) : slot'.Carries i p s'.backend := by
  intro job hjob hi
  -- a job that was in the slot before, at a stage that does not hold it alone
  have hkeep : job ∈ slot.jobs → (∀ job', slot.stage ≠ .delete job') →
      job.relativePath = p ∧ (s.backend p = none ∨
        p ∈ slot.batch ∧ ∀ toFlush, slot.stage ≠ .resolve true toFlush) := by
    intro hmem hstage
    obtain ⟨hpath, hcarried | hcarried⟩ := hslot job hmem hi
    · exact absurd hcarried (hstage job)
    · exact ⟨hpath, hcarried⟩
  -- it stays carried where the objects and the buffer are left alone
  have hstay : job ∈ slot.jobs → (∀ job', slot.stage ≠ .delete job') →
      s'.backend = s.backend → slot'.batch = slot.batch →
      (∀ toFlush, slot'.stage ≠ .resolve true toFlush) → job.relativePath = p ∧
        (slot'.stage = .delete job ∨ s'.backend p = none ∨
          p ∈ slot'.batch ∧ ∀ toFlush, slot'.stage ≠ .resolve true toFlush) := by
    intro hmem hstage hbackend hbatch hresolve
    obtain ⟨hpath, hgone | ⟨hin, -⟩⟩ := hkeep hmem hstage
    · exact ⟨hpath, .inr (.inl (by rw [hbackend, hgone]))⟩
    · exact ⟨hpath, .inr (.inr ⟨hbatch ▸ hin, hresolve⟩)⟩
  cases h with
  | drained hstage | skip hstage | finish hstage | load hstage | store hstage | wake hstage
  | record hstage | take hstage | retry hstage | giveUp hstage =>
    refine hstay ?_ (by simp [hstage]) rfl rfl (by simp)
    simpa [DeleterSlot.jobs, hstage, PumpStage.jobs] using hjob
  | @pop job' rest hstage hqueue =>
    rcases List.mem_append.mp hjob with hledger | hnew
    · exact hstay (List.mem_append_left _ hledger) (by simp [hstage]) rfl rfl (by simp)
    · cases List.mem_singleton.mp hnew
      exact ⟨hpending job (by simp [hqueue]) hi, .inl rfl⟩
  | @delete job' staged flushed batch hstage hbatch =>
    cases hstages
    have hmem : job ∈ slot.jobs := by
      simpa [DeleterSlot.jobs, hstage, PumpStage.jobs] using hjob
    obtain ⟨hpath, hcarried | hgone | ⟨hin, -⟩⟩ := hslot job hmem hi
    · cases hstage.symm.trans hcarried
      exact ⟨hpath, .inr (.inr ⟨by simp [hbatch, hpath], by simp⟩)⟩
    · exact ⟨hpath, .inr (.inl hgone)⟩
    · exact ⟨hpath, .inr (.inr ⟨by simp [hbatch, hin], by simp⟩)⟩
  | @flush job' staged flushed batch hstage hbatch =>
    cases hstages
    have hmem : job ∈ slot.jobs := by
      simpa [DeleterSlot.jobs, hstage, PumpStage.jobs] using hjob
    obtain ⟨hpath, hcarried | hgone | ⟨hin, -⟩⟩ := hslot job hmem hi
    · cases hstage.symm.trans hcarried
      exact ⟨hpath, .inr (.inl (by simp [deleteObjects, hbatch, hpath]))⟩
    · exact ⟨hpath, .inr (.inl (by simp [deleteObjects, hgone]))⟩
    · exact ⟨hpath, .inr (.inl (by simp [deleteObjects, hbatch, hin]))⟩
  | request keys =>
    obtain ⟨hpath, hcarried | hgone | hin⟩ := hslot job hjob hi
    · exact ⟨hpath, .inl hcarried⟩
    · exact ⟨hpath, .inr (.inl (by simp [deleteObjects, hgone]))⟩
    · exact ⟨hpath, .inr (.inr hin)⟩
  | land hstage =>
    have hmem : job ∈ slot.jobs := by
      simpa [DeleterSlot.jobs, hstage, PumpStage.jobs] using hjob
    obtain ⟨hpath, hgone | ⟨hbatch, -⟩⟩ := hkeep hmem (by simp [hstage])
    · exact ⟨hpath, .inr (.inl (by simp [deleteObjects, hgone]))⟩
    · exact ⟨hpath, .inr (.inl (by simp [deleteObjects, hbatch]))⟩
  | @resolve landed job' rest hstage =>
    have hmem : job ∈ slot.jobs := by
      simp only [DeleterSlot.jobs, PumpStage.jobs, hstage, List.mem_append, List.mem_cons]
        at hjob ⊢
      tauto
    obtain ⟨hpath, hgone | ⟨hbatch, hlanded⟩⟩ := hkeep hmem (by simp [hstage])
    · exact ⟨hpath, .inr (.inl hgone)⟩
    · cases landed with
      | true => exact absurd hstage (hlanded _)
      | false => exact ⟨hpath, .inr (.inr ⟨hbatch, by simp⟩)⟩

/-- Jobs leave the queue at a pop only. -/
theorem SlotEffect.mem_pending (h : SlotEffect s slot a s' slot') {job : PendingDelete}
    (hjob : job ∈ s'.deleter.pending) : job ∈ s.deleter.pending := by
  cases h with
  | pop hstage hpending => simp only [hpending]; exact List.mem_cons_of_mem _ hjob
  | _ => exact hjob

/-- The pump goes on carrying a delete. -/
theorem Carries.pump (h : Carries i p s) (hstages : l.stages) (hstep : s.pump l = some t) :
    Carries i p t := by
  obtain ⟨slot, s', slot', hslot, heffect, rfl⟩ := DeleteState.pump_cases hstep
  obtain ⟨k, a⟩ := l
  have hmem : slot ∈ s.deleter.slots := List.mem_of_getElem? hslot
  refine ⟨?_, ?_, ?_⟩
  · intro job hjob
    exact h.pending job (heffect.mem_pending hjob)
  · intro other hother
    simp only [DeleteState.setSlot, heffect.slots] at hother
    rcases List.mem_or_eq_of_mem_set hother with hother | rfl
    · intro job hjob hi
      obtain ⟨hpath, hstage | hgone | hin⟩ := h.slots other hother job hjob hi
      · exact ⟨hpath, .inl hstage⟩
      · exact ⟨hpath, .inr (.inl (heffect.backend_eq_none hgone))⟩
      · exact ⟨hpath, .inr (.inr hin)⟩
    · exact heffect.carries hstages h.pending (h.slots slot hmem)
  · intro houtcome
    change s'.deleter.outcomes i = _ at houtcome
    change s'.backend p = none
    cases heffect with
    | @resolve landed job rest hstage =>
      simp only [ConcurrentDeleter.send, List.map_cons, List.map_nil, List.mem_singleton]
        at houtcome
      split at houtcome
      · next hi =>
        cases houtcome
        obtain ⟨-, hstage' | hgone | ⟨-, hlanded⟩⟩ := h.slots slot hmem job
          (by simp [DeleterSlot.jobs, hstage, PumpStage.jobs]) hi.symm
        · simp [hstage] at hstage'
        · exact hgone
        · exact absurd hstage (hlanded _)
      · exact h.outcome houtcome
    | flush | request | land =>
      simp only [deleteObjects]
      rw [h.outcome houtcome, ite_self]
    | _ => exact h.outcome houtcome

/-- A synchronous delete is carried out: without a deleter `op.delete` succeeds; with one the
job is accepted, buffered and acknowledged as landed before the barrier ends. -/
def deleteLands (fs : MntrsFs) (path : Path) (env : DeleteEnv) : Bool :=
  match fs.concurrentDeleter with
  | some d =>
    d.accepting && env.pump.all PumpLabel.stages &&
      decide ((deleteBackendStrict fs path "" env).2.concurrentDeleter.bind
        (fun d' ↦ d'.outcomes d.nextJob) = some (.closed true))
  | none => env.failure.isNone

/-- While a request waits, the pump goes on carrying a delete. -/
theorem Carries.runPump {d : ConcurrentDeleter} {p : Path} {labels : List PumpLabel}
    (hd : fs.concurrentDeleter = some d) (h : Carries i p ⟨fs.backend, fs.deleteTombstones, d⟩)
    (hstages : ∀ l ∈ labels, l.stages) :
    ∃ d', (runPump fs labels).concurrentDeleter = some d' ∧
      Carries i p ⟨(runPump fs labels).backend, (runPump fs labels).deleteTombstones, d'⟩ := by
  induction labels generalizing fs d with
  | nil => exact ⟨d, hd, h⟩
  | cons l labels ih =>
    have hrest : ∀ l ∈ labels, l.stages := fun l hl ↦ hstages l (List.mem_cons_of_mem _ hl)
    cases hstep : pumpStep fs l with
    | none =>
      have := ih hd h hrest
      simpa [Mntrs.runPump, hstep] using this
    | some fs' =>
      have hcarries : ∃ t, fs'.concurrentDeleter = some t.deleter ∧ Carries i p t ∧
          t = ⟨fs'.backend, fs'.deleteTombstones, t.deleter⟩ := by
        simp only [pumpStep, hd] at hstep
        obtain ⟨t, ht, rfl⟩ := Option.map_eq_some_iff.mp hstep
        exact ⟨t, rfl, h.pump (hstages l List.mem_cons_self) ht, rfl⟩
      obtain ⟨t, ht, hcarries, heq⟩ := hcarries
      rw [heq] at hcarries
      have := ih ht hcarries hrest
      simpa [Mntrs.runPump, hstep] using this

/-- Channels are given out in order, and outcomes are sent on channels that were given out. -/
structure ConcurrentDeleter.WellNumbered (d : ConcurrentDeleter) : Prop where
  jobs : ∀ job ∈ d.jobs, job.resultTx < d.nextJob
  outcomes : ∀ i, d.nextJob ≤ i → d.outcomes i = none

theorem ConcurrentDeleter.WellNumbered.carries {d : ConcurrentDeleter} (h : d.WellNumbered)
    (haccepting : d.accepting) (backend : Path → Option Bytes) (tombs : Finset Path)
    (path : Path) :
    Carries d.nextJob path ⟨backend, tombs, ((d.enqueue path).getD d).flushBegin⟩ := by
  simp only [enqueue, haccepting, if_true, Option.getD_some, flushBegin]
  refine ⟨?_, ?_, ?_⟩
  · intro job hjob hi
    rcases List.mem_append.mp hjob with hjob | hjob
    · exact absurd hi (h.jobs job (List.mem_append_left _ hjob)).ne
    · rw [List.mem_singleton.mp hjob]
  · intro slot hslot job hjob hi
    exact absurd hi (h.jobs job (List.mem_append_right _
      (List.mem_flatMap.mpr ⟨slot, hslot, hjob⟩))).ne
  · intro hout
    simp [h.outcomes d.nextJob le_rfl] at hout

/-- A synchronous delete that is carried out leaves no object. -/
theorem deleteBackendStrict_removes (label : String) {env : DeleteEnv}
    (h : deleteLands fs path env)
    (hnumbered : ∀ d, fs.concurrentDeleter = some d → d.WellNumbered) :
    (deleteBackendStrict fs path label env).2.backend path = none := by
  unfold deleteLands at h
  unfold deleteBackendStrict at h ⊢
  cases hd : fs.concurrentDeleter with
  | none =>
    have hfailure : env.failure = none := by simpa [hd] using h
    simp [hfailure]
  | some d =>
    simp only [hd, Bool.and_eq_true, List.all_eq_true, decide_eq_true_eq] at h ⊢
    obtain ⟨⟨haccepting, hstages⟩, hlanded⟩ := h
    rw [flushDeleter_snd] at hlanded ⊢
    obtain ⟨d', hd', hcarries⟩ := @Carries.runPump
      { fs with concurrentDeleter := some ((d.enqueue path).getD d).flushBegin } _ _ _ _ rfl
      ((hnumbered d hd).carries haccepting fs.backend fs.deleteTombstones path) hstages
    rw [hd'] at hlanded
    exact hcarries.outcome hlanded

theorem slotStep_congr (b b' : Path → Option Bytes) (tombs tombs' : Finset Path)
    (d : ConcurrentDeleter) (slot : DeleterSlot) (a : PumpAction) :
    (slotStep ⟨b, tombs, d⟩ slot a).map (fun r ↦ (r.1.deleter, r.2)) =
      (slotStep ⟨b', tombs', d⟩ slot a).map (fun r ↦ (r.1.deleter, r.2)) := by
  cases a <;> simp only [slotStep] <;> split <;>
    first | rfl | (split <;> first | rfl | (split <;> rfl))

theorem runPump_congr {fs' : MntrsFs} (h : fs'.concurrentDeleter = fs.concurrentDeleter)
    (labels : List PumpLabel) :
    (runPump fs' labels).concurrentDeleter = (runPump fs labels).concurrentDeleter := by
  induction labels generalizing fs fs' with
  | nil => exact h
  | cons l labels ih =>
    apply ih
    cases hd : fs.concurrentDeleter with
    | none => simp [pumpStep, h, hd]
    | some d =>
      simp only [pumpStep, h, hd, DeleteState.pump]
      cases hslot : d.slots[l.slot]? with
      | none => simp [h, hd]
      | some slot =>
        have hcongr := slotStep_congr fs.backend fs'.backend fs.deleteTombstones
          fs'.deleteTombstones d slot l.action
        cases hstep : slotStep ⟨fs.backend, fs.deleteTombstones, d⟩ slot l.action with
        | none =>
          rw [hstep, Option.map_none, eq_comm, Option.map_eq_none_iff] at hcongr
          simp [hcongr, hstep, h, hd]
        | some r =>
          rw [hstep, Option.map_some, eq_comm, Option.map_eq_some_iff] at hcongr
          obtain ⟨r', hstep', hr⟩ := hcongr
          simp only [Prod.mk.injEq] at hr
          simp [hstep', hstep, DeleteState.setSlot, hr]

theorem deleteLands_congr {fs' : MntrsFs} (h : fs'.concurrentDeleter = fs.concurrentDeleter)
    (path : Path) (env : DeleteEnv) : deleteLands fs' path env = deleteLands fs path env := by
  unfold deleteLands deleteBackendStrict
  rw [h]
  cases hd : fs.concurrentDeleter with
  | none => rfl
  | some d =>
    rw [flushDeleter_snd, flushDeleter_snd, runPump_congr]
    rfl

end Mntrs

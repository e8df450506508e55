import Mntrs.Delete.Barrier

/-!
# Resolved jobs and the keys that stay behind

A job is resolved when its batch is closed, when the retries of its batch are used up, or when
`cancel_pending` finds it (`src/src/concurrent_delete.rs:420-463`, `669-760`). The batch deleter
keeps the key of a job until a request that contains it succeeds, so a job that is cancelled after
its key was buffered, or given up, leaves a key behind that a later close sends. In every run in
which no job is resolved in these two ways over a buffered key, a resolved path is safe.
-/

namespace Mntrs

open Base

/-- The jobs a failed close gives up: those of the last attempt. -/
def DeleterSlot.lastAttempt (slot : DeleterSlot) : List PendingDelete :=
  match slot.stage with
  | .close attempt toFlush => if attempt < deleteMaxRetries then [] else toFlush
  | _ => []

/-- No job is cancelled, or given up after the last attempt, while its key is in the buffer of
its slot. -/
def NoKeyLeft (s : DeleteState) : DeleteLabel → Prop
  | .cancel path => ∀ slot ∈ s.deleter.slots, ∀ job ∈ slot.ledger,
      job.relativePath = path → path ∉ slot.batch
  | .pump ⟨k, .close false⟩ => ∀ slot ∈ s.deleter.slots[k]?.toList, ∀ job ∈ slot.lastAttempt,
      job.relativePath ∉ slot.batch
  | _ => True

instance (s : DeleteState) (l : DeleteLabel) : Decidable (NoKeyLeft s l) := by
  unfold NoKeyLeft
  split <;> infer_instance

/-- Every buffered key is that of a job in the custody of the slot, and a slot that resolves its
jobs has an empty buffer. -/
structure DeleterSlot.Backed (slot : DeleterSlot) : Prop where
  keys : ∀ q ∈ slot.batch, ∃ job ∈ slot.jobs, job.relativePath = q
  resolving : ∀ landed toFlush, slot.stage = .resolve landed toFlush → slot.batch = []

variable {s t : DeleteState} {l : DeleteLabel}

theorem SlotEffect.backed {s' : DeleteState} {slot slot' : DeleterSlot} {a : PumpAction}
    (h : SlotEffect s slot a s' slot') (hslot : slot.Backed)
    (hledger : slot.stage.pastLedger = true → slot.ledger = [])
    (hlast : a = .close false → ∀ job ∈ slot.lastAttempt, job.relativePath ∉ slot.batch) :
    slot'.Backed := by
  cases h with
  | @delete job staged flushed batch hstage hbatch =>
    refine ⟨?_, fun _ _ hresolve ↦ by cases hresolve⟩
    intro q hq
    simp only [DeleterSlot.jobs, PumpStage.jobs]
    have hcases : q = job.relativePath ∨ q ∈ slot.batch := by
      simp only [hbatch] at hq
      split at hq
      · exact List.mem_insert_iff.mp hq
      · exact .inr hq
    rcases hcases with rfl | hold
    · exact ⟨job, by simp, rfl⟩
    · simpa [DeleterSlot.jobs, PumpStage.jobs, hstage] using hslot.keys q hold
  | flush | land =>
    refine ⟨?_, fun _ _ _ ↦ rfl⟩
    intro q hq
    cases hq
  | request keys => exact hslot
  | @giveUp attempt toFlush hstage hattempt =>
    -- the keys are those of the jobs that are given up, and the guard excludes them
    have hempty : slot.batch = [] := by
      rw [List.eq_nil_iff_forall_not_mem]
      intro q hq
      obtain ⟨job, hjob, rfl⟩ := hslot.keys q hq
      rw [DeleterSlot.jobs, hledger (by rw [hstage]; rfl)] at hjob
      refine hlast rfl job ?_ hq
      simpa [DeleterSlot.lastAttempt, hstage, Nat.not_lt.mpr hattempt, PumpStage.jobs] using hjob
    exact ⟨fun q hq ↦ by simp [hempty] at hq, fun _ _ _ ↦ hempty⟩
  | resolve hstage | finish hstage =>
    have hempty := hslot.resolving _ _ hstage
    exact ⟨fun q hq ↦ by simp [hempty] at hq, fun _ _ _ ↦ hempty⟩
  | pop hstage | drained hstage | record hstage | skip hstage | take hstage | retry hstage
  | load hstage | store hstage | wake hstage =>
    refine ⟨?_, fun _ _ hresolve ↦ by cases hresolve⟩
    intro q hq
    obtain ⟨job, hjob, hpath⟩ := hslot.keys q hq
    refine ⟨job, ?_, hpath⟩
    simp only [DeleterSlot.jobs, PumpStage.jobs, hstage, List.mem_append, List.not_mem_nil]
      at hjob ⊢
    tauto

/-- Every step keeps the keys backed, unless it leaves a key behind. -/
theorem backed_step (hsound : s.Sound) (h : ∀ slot ∈ s.deleter.slots, slot.Backed)
    (hguard : NoKeyLeft s l) (hstep : deleteStep l s = some t) :
    ∀ slot ∈ t.deleter.slots, slot.Backed := by
  intro slot' hslot'
  cases l with
  | enqueue path =>
    obtain rfl := deleteStep_enqueue hstep
    exact h slot' hslot'
  | flush | put =>
    cases hstep
    exact h slot' hslot'
  | cancel path =>
    cases hstep
    obtain ⟨slot, hslot, rfl⟩ := List.mem_map.mp hslot'
    refine ⟨?_, (h slot hslot).resolving⟩
    intro q hq
    obtain ⟨job, hjob, rfl⟩ := (h slot hslot).keys q hq
    refine ⟨job, ?_, rfl⟩
    rcases List.mem_append.mp hjob with hledger | hstage
    · apply List.mem_append_left
      refine List.mem_filter.mpr ⟨hledger, ?_⟩
      rw [decide_eq_true_eq]
      rintro rfl
      exact hguard slot hslot job hledger rfl hq
    · exact List.mem_append_right _ hstage
  | pump l =>
    obtain ⟨slot, s', slot₁, hslot, heffect, rfl⟩ := DeleteState.pump_cases hstep
    have hmem : slot ∈ s.deleter.slots := List.mem_of_getElem? hslot
    simp only [DeleteState.setSlot, heffect.slots] at hslot'
    rcases List.mem_or_eq_of_mem_set hslot' with hother | rfl
    · exact h slot' hother
    · refine heffect.backed (h slot hmem) (hsound.ledgers slot hmem) ?_
      intro haction
      obtain ⟨k, a⟩ := l
      cases haction
      exact hguard slot (by simp [hslot])

/-- What no job asks for is held only where it is enqueued. -/
theorem not_mem_held_step {p : Path} (h : p ∉ s.deleter.held) (hl : l ≠ .enqueue p)
    (hstep : deleteStep l s = some t) : p ∉ t.deleter.held := by
  cases l with
  | enqueue path =>
    obtain ⟨d, hd, rfl⟩ := Option.map_eq_some_iff.mp hstep
    intro hmem
    have hmem' : p ∈ ((s.deleter.enqueue path).getD s.deleter).held := by
      rw [hd]
      exact hmem
    rcases ConcurrentDeleter.mem_held_enqueue hmem' with rfl | hold
    · exact hl rfl
    · exact h hold
  | flush | put =>
    cases hstep
    exact h
  | cancel path =>
    cases hstep
    intro hmem
    apply h
    simp only [cancelPending, ConcurrentDeleter.cancel, ConcurrentDeleter.held, List.mem_append,
      List.mem_map, List.mem_filter, List.mem_flatMap] at hmem ⊢
    rcases hmem with ⟨job, ⟨hjob, -⟩, hp⟩ | ⟨slot', ⟨slot, hslot, rfl⟩, hmem⟩
    · exact .inl ⟨job, hjob, hp⟩
    · refine .inr ⟨slot, hslot, ?_⟩
      simp only [DeleterSlot.held, DeleterSlot.jobs, List.mem_append, List.mem_map,
        List.mem_filter] at hmem ⊢
      grind
  | pump l => exact fun hmem ↦ h (DeleteState.held_pump hstep hmem)

/-- In every run in which no job is cancelled or given up over a buffered key, a path whose jobs
are all resolved is not deleted by any later request, unless it is enqueued again: whatever the
deleter does, what others put at the path stays. -/
theorem resolved_path_kept {backend : Path → Option Bytes} {tombs : Finset Path}
    {workerCount : Nat} {s t t' : DeleteState} {p : Path} {l : DeleteLabel}
    (hbefore : GuardedRun deleteStep NoKeyLeft (DeleteState.spawned backend tombs workerCount) s)
    (hresolved : ∀ job ∈ s.deleter.jobs, job.relativePath ≠ p)
    (hafter : GuardedRun deleteStep (fun _ l ↦ l ≠ .enqueue p) s t)
    (hlast : deleteStep l t = some t') (hput : ∀ bytes, l ≠ .put p bytes) :
    t'.backend p = t.backend p := by
  obtain ⟨-, hbacked⟩ := hbefore.invariant
    (fun s ↦ s.Sound ∧ ∀ slot ∈ s.deleter.slots, slot.Backed)
    (fun _ _ _ h hguard hstep ↦ ⟨h.1.step hstep, backed_step h.1 h.2 hguard hstep⟩)
    ⟨DeleteState.sound_spawned _ _ _, by
      intro slot hslot
      rw [List.eq_of_mem_replicate hslot]
      exact ⟨fun q hq ↦ (by cases hq), fun _ _ _ ↦ rfl⟩⟩
  have hheld : p ∉ s.deleter.held := by
    intro hmem
    rcases List.mem_append.mp hmem with hpending | hslots
    · obtain ⟨job, hjob, hp⟩ := List.mem_map.mp hpending
      exact hresolved job (ConcurrentDeleter.mem_jobs.mpr (.inl hjob)) hp
    · obtain ⟨slot, hslot, hmem⟩ := List.mem_flatMap.mp hslots
      have hjobs : ∃ job ∈ slot.jobs, job.relativePath = p := by
        rcases List.mem_append.mp hmem with hjob | hkey
        · exact List.mem_map.mp hjob
        · exact (hbacked slot hslot).keys p hkey
      obtain ⟨job, hjob, hp⟩ := hjobs
      exact hresolved job (ConcurrentDeleter.mem_jobs.mpr (.inr ⟨slot, hslot, hjob⟩)) hp
  have hnot : p ∉ t.deleter.held := hafter.invariant (fun s ↦ p ∉ s.deleter.held)
    (fun _ _ _ h hl hstep ↦ not_mem_held_step h hl hstep) hheld
  cases l with
  | enqueue path =>
    obtain ⟨d, -, rfl⟩ := Option.map_eq_some_iff.mp hlast
    rfl
  | flush | cancel =>
    cases hlast
    rfl
  | put path bytes =>
    cases hlast
    have hne : p ≠ path := by
      rintro rfl
      exact hput bytes rfl
    simp [hne]
  | pump l => exact DeleteState.backend_pump hlast hnot

/-- The steps of a fresh slot that deletes one job, from the drain to the outcome. -/
def closeRound : List DeleteLabel :=
  [.pop, .delete true false, .record, .pop, .take, .close true, .resolve].map (.pump ⟨0, ·⟩)

/-- A job lands, the object is written again, and the next batch of the slot spares it. -/
theorem resolved_path_kept_sample :
    ∃ t t', deleteStep (.pump ⟨0, .close true⟩) t = some t' ∧ t.backend ['b'] = some [0] ∧
      t'.backend ['b'] = none ∧ t'.backend ['a'] = t.backend ['a'] ∧
      t.backend ['a'] = some [1] := by
  have hbefore : ∃ s, exec deleteStep (.enqueue ['a'] :: closeRound)
      (DeleteState.spawned (fun _ ↦ some [0]) ∅ 1) = some s := ⟨_, rfl⟩
  obtain ⟨s, hs⟩ := hbefore
  have hafter : ∃ t, exec deleteStep (.put ['a'] [1] :: .enqueue ['b'] ::
      [.resolve, .load, .store, .wake, .pop, .delete true false, .record, .pop, .take].map
        (.pump ⟨0, ·⟩)) s = some t := by
    cases hs
    exact ⟨_, rfl⟩
  obtain ⟨t, ht⟩ := hafter
  have hlast : ∃ t', deleteStep (.pump ⟨0, .close true⟩) t = some t' := by
    cases hs
    cases ht
    exact ⟨_, rfl⟩
  obtain ⟨t', ht'⟩ := hlast
  refine ⟨t, t', ht', ?_, ?_, ?_, ?_⟩
  · cases hs
    cases ht
    rfl
  · cases hs
    cases ht
    cases ht'
    rfl
  · refine resolved_path_kept (guardedRun_of_exec hs (by decide)) ?_
      (guardedRun_of_exec ht ?_) ht' (fun _ ↦ by simp)
    · cases hs
      decide
    · cases hs
      decide
  · cases hs
    cases ht
    rfl

/-- A cancelled job leaves its key in the buffer: the next close of the slot deletes the object
that was written after the cancellation. So does a job whose four attempts failed. -/
theorem resolved_path_deleted :
    (∃ s, exec deleteStep
        ([.enqueue ['a'], .pump ⟨0, .pop⟩, .pump ⟨0, .delete true false⟩, .pump ⟨0, .record⟩,
          .cancel ['a'], .put ['a'] [1], .enqueue ['b']])
        (DeleteState.spawned (fun _ ↦ none) ∅ 1) = some s ∧
      s.deleter.outcomes 0 = some .cancelled ∧ s.backend ['a'] = some [1] ∧
      ∃ t, exec deleteStep closeRound s = some t ∧ t.backend ['a'] = none) ∧
    ∃ s, exec deleteStep
        (([.enqueue ['a']] : List DeleteLabel) ++
          ([.pop, .delete true false, .record, .pop, .take, .close false, .take, .close false,
            .take, .close false, .take, .close false, .resolve, .resolve, .load, .store,
            .wake] : List PumpAction).map (DeleteLabel.pump ⟨0, ·⟩) ++
          ([.put ['a'] [1], .enqueue ['b']] : List DeleteLabel))
        (DeleteState.spawned (fun _ ↦ none) ∅ 1) = some s ∧
      s.deleter.outcomes 0 = some (.closed false) ∧ s.backend ['a'] = some [1] ∧
      ∃ t, exec deleteStep closeRound s = some t ∧ t.backend ['a'] = none :=
  ⟨⟨_, rfl, rfl, rfl, _, rfl, rfl⟩, _, rfl, rfl, rfl, _, rfl, rfl⟩

end Mntrs

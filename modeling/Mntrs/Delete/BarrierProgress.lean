import Mntrs.Delete.Conservation

/-!
# Progress of the flush barrier

`flush` raises the epoch and wakes all slots that have a future. A slot that read the old epoch and
has not created its future by then is not woken: it acknowledges the old epoch and sleeps, and
`flush` waits for its 30 s. If no slot is in that window, every slot acknowledges the new epoch
after a bounded number of its own steps, whatever the others do, and is never blocked before.
-/

namespace Mntrs

open Base

namespace DeleterLabel

/-- The step of a slot or of its batch deleter. -/
def ofPump : DeleterLabel → Bool
  | pump _ | create _ | poll _ => true
  | _ => false

/-- The step of one slot; what the backend does during its request is not. -/
def ownedBy (k : Nat) : DeleterLabel → Bool
  | pump ⟨_, .request _⟩ => false
  | pump ⟨j, _⟩ => j == k
  | create j | poll j => j == k
  | _ => false

end DeleterLabel

/-- A slot will read the epoch before it sleeps, or has read it and will acknowledge it. -/
def DeleterSlot.OnTrack (epoch : Nat) (slot : DeleterSlot) (task : Waiting) : Prop :=
  match slot.stage with
  | .storeAck read => epoch ≤ read
  | .wait => task = .created true ∨ task = .notified
  | _ => True

/-- A bound on the steps of a slot until it acknowledges the epoch: over the jobs in the queue, in
its hand and in its ledger, and the attempts that are left. -/
def DeleterSlot.cost (slot : DeleterSlot) (queued : Nat) (task : Waiting) : Nat :=
  let drain := 4 * queued + slot.ledger.length + 12
  match slot.stage with
  | .drain => drain
  | .delete _ => drain + 3
  | .record _ => drain + 2
  | .take attempt => 2 * (deleteMaxRetries - attempt) + slot.ledger.length + 5
  | .close attempt toFlush =>
    2 * (deleteMaxRetries - attempt) + slot.ledger.length + toFlush.length + 4
  | .resolve _ toFlush => toFlush.length + 3
  | .loadEpoch => 2
  | .storeAck _ => 1
  | .wait => match task with
    | .notified => drain + 1
    | .created _ => drain + 2
    | _ => drain + 3

namespace DeleterSys

/-- Slot `k` has acknowledged the epoch or will. -/
structure Tracked (epoch k : Nat) (s : DeleterSys) : Prop where
  conserved : s.Conserved
  reached : epoch ≤ s.state.deleter.barrierEpoch
  slot : ∃ slot, s.state.deleter.slots[k]? = some slot ∧
    (epoch ≤ slot.barrierAck ∨ slot.OnTrack epoch (s.notify.task k))

/-- Slot `k` has acknowledged the epoch. -/
def acked (epoch k : Nat) (s : DeleterSys) : Bool :=
  s.state.deleter.slots[k]?.any (fun slot ↦ epoch ≤ slot.barrierAck)

/-- The bound for slot `k`, none after the acknowledgement. -/
def cost (epoch k : Nat) (s : DeleterSys) : Nat :=
  match s.state.deleter.slots[k]? with
  | some slot =>
    if epoch ≤ slot.barrierAck then 0
    else slot.cost s.state.deleter.pending.length (s.notify.task k)
  | none => 0

end DeleterSys

/-- A slot read an older epoch and has no future that a wake-up could reach. -/
def DeleterSys.InWindow (s : DeleterSys) (k : Nat) (slot : DeleterSlot) : Prop :=
  slot.barrierAck < s.state.deleter.barrierEpoch ∧
    match slot.stage with
    | .storeAck read => read < s.state.deleter.barrierEpoch
    | .wait => s.notify.task k = .idle
    | _ => False

/-- No slot is between its read of an older epoch and its future when all are woken. -/
def NoneInWindow (s : DeleterSys) : Prop :=
  ∀ (k : Nat) (slot : DeleterSlot), s.state.deleter.slots[k]? = some slot → ¬ s.InWindow k slot

/-! ### What a slot's own step does -/

section

variable {s s' : DeleteState} {slot slot' : DeleterSlot} {a : PumpAction}

theorem SlotEffect.length_pending (h : SlotEffect s slot a s' slot') :
    s'.deleter.pending.length ≤ s.deleter.pending.length := by
  cases h <;> simp_all

/-- Acknowledgements only grow. -/
theorem SlotEffect.barrierAck (h : SlotEffect s slot a s' slot') :
    slot.barrierAck ≤ slot'.barrierAck := by
  cases h <;> simp

theorem SlotEffect.cost_lt (h : SlotEffect s slot a s' slot') {epoch : Nat} {task task' : Waiting}
    (hreached : epoch ≤ s.deleter.barrierEpoch) (htrack : slot.OnTrack epoch task)
    (hrequest : ∀ keys, a ≠ .request keys) (htask : a = .wake → task = .notified) :
    epoch ≤ slot'.barrierAck ∨ slot'.OnTrack epoch task' ∧
      slot'.cost s'.deleter.pending.length task' < slot.cost s.deleter.pending.length task := by
  cases h with
  | request keys => exact absurd rfl (hrequest keys)
  | store hstage =>
    simp only [DeleterSlot.OnTrack, hstage] at htrack
    exact .inl (Nat.le_trans htrack (Nat.le_max_right _ _))
  | load hstage =>
    refine .inr ⟨hreached, ?_⟩
    simp [DeleterSlot.cost, hstage]
  | wake hstage =>
    refine .inr ⟨trivial, ?_⟩
    simp [DeleterSlot.cost, hstage, htask rfl]
  | retry hstage hattempt =>
    refine .inr ⟨trivial, ?_⟩
    simp only [DeleterSlot.cost, hstage, List.length_append]
    omega
  | _ =>
    refine .inr ⟨trivial, ?_⟩
    simp_all only [DeleterSlot.cost, List.length_append, List.length_cons, List.length_nil,
      deleteMaxRetries]
    omega

theorem DeleterSlot.cost_mono (slot : DeleterSlot) (task : Waiting) {queued queued' : Nat}
    (h : queued' ≤ queued) : slot.cost queued' task ≤ slot.cost queued task := by
  unfold DeleterSlot.cost
  cases slot.stage with
  | wait => cases task <;> simp only <;> omega
  | _ =>
    simp only
    omega

theorem DeleterSlot.cost_pos (slot : DeleterSlot) (queued : Nat) (task : Waiting) :
    0 < slot.cost queued task := by
  unfold DeleterSlot.cost
  cases slot.stage with
  | wait => cases task <;> simp only <;> omega
  | _ =>
    simp only
    omega

end

variable {slot : DeleterSlot} {ls : List DeleterLabel}

namespace DeleterSys

variable {s t : DeleterSys} {l : DeleterLabel} {epoch k : Nat} {slot : DeleterSlot}

theorem acked_eq_false (hslot : s.state.deleter.slots[k]? = some slot) :
    s.acked epoch k = false ↔ slot.barrierAck < epoch := by
  simp [acked, hslot]

theorem cost_of_lt (hslot : s.state.deleter.slots[k]? = some slot)
    (hack : slot.barrierAck < epoch) :
    s.cost epoch k = slot.cost s.state.deleter.pending.length (s.notify.task k) := by
  simp [cost, hslot, Nat.not_le.mpr hack]

/-- What a step does to a slot: acknowledgements grow, and a slot on its way acknowledges the epoch
or stays on it, closer if the step is its own. -/
structure Nearer (epoch k : Nat) (own : Bool) (s t : DeleterSys) : Prop where
  epochs : t.state.deleter.barrierEpoch = s.state.deleter.barrierEpoch
  slot : ∀ slot, s.state.deleter.slots[k]? = some slot →
    ∃ slot', t.state.deleter.slots[k]? = some slot' ∧ slot.barrierAck ≤ slot'.barrierAck ∧
      (slot.barrierAck < epoch → slot.OnTrack epoch (s.notify.task k) →
        epoch ≤ slot'.barrierAck ∨ slot'.OnTrack epoch (t.notify.task k) ∧
          slot'.cost t.state.deleter.pending.length (t.notify.task k) + own.toNat ≤
            slot.cost s.state.deleter.pending.length (s.notify.task k))

theorem nearer_of_frame (hslots : t.state.deleter.slots[k]? = s.state.deleter.slots[k]?)
    (htask : t.notify.task k = s.notify.task k)
    (hepoch : t.state.deleter.barrierEpoch = s.state.deleter.barrierEpoch)
    (hpending : t.state.deleter.pending.length ≤ s.state.deleter.pending.length) :
    Nearer epoch k false s t := by
  refine ⟨hepoch, fun slot hslot ↦ ⟨slot, hslots.trans hslot, le_rfl, fun _ htrack ↦ ?_⟩⟩
  rw [htask]
  exact .inr ⟨htrack, slot.cost_mono _ hpending⟩

theorem nearer_pump {l : PumpLabel} (hreached : epoch ≤ s.state.deleter.barrierEpoch)
    (hstep : slotPump s l = some t) :
    Nearer epoch k (DeleterLabel.ownedBy k (.pump l)) s t := by
  obtain ⟨j, action⟩ := l
  obtain ⟨moved, s', moved', hmoved, heffect, hcase⟩ := slotPump_cases hstep
  have hstate : t.state = s'.setSlot j moved' := by
    rcases hcase with ⟨-, -, rfl⟩ | ⟨-, rfl⟩ <;> rfl
  have htask : ∀ i, i ≠ j → t.notify.task i = s.notify.task i := by
    rcases hcase with ⟨-, -, rfl⟩ | ⟨-, rfl⟩
    · intro i hi
      simp [Notify.resume, hi]
    · exact fun _ _ ↦ rfl
  have hepoch : t.state.deleter.barrierEpoch = s.state.deleter.barrierEpoch := by
    rw [hstate]
    exact heffect.counters.1
  have hpending : t.state.deleter.pending = s'.deleter.pending := by rw [hstate]; rfl
  have hslots : t.state.deleter.slots = s.state.deleter.slots.set j moved' := by
    rw [hstate, DeleteState.setSlot, heffect.slots]
  by_cases hjk : j = k
  · subst hjk
    refine ⟨hepoch, fun slot hslot ↦ ?_⟩
    cases Option.some.inj (hslot.symm.trans hmoved)
    have hlt := (List.getElem?_eq_some_iff.mp hslot).1
    refine ⟨moved', by rw [hslots, List.getElem?_set_self hlt], heffect.barrierAck, ?_⟩
    intro _ htrack
    by_cases hrequest : ∃ keys, action = .request keys
    · obtain ⟨keys, rfl⟩ := hrequest
      cases heffect
      rcases hcase with ⟨hwake, -, -⟩ | ⟨-, rfl⟩
      · cases hwake
      · exact .inr ⟨htrack, le_rfl⟩
    · have hwake : action = .wake → s.notify.task j = .notified := by
        intro hwake
        rcases hcase with ⟨-, hnotified, -⟩ | ⟨hnot, -⟩
        · exact hnotified
        · exact absurd hwake hnot
      have hown : DeleterLabel.ownedBy j (.pump ⟨j, action⟩) = true := by
        cases action <;> simp_all [DeleterLabel.ownedBy]
      rw [hown, hpending]
      exact heffect.cost_lt hreached htrack (fun keys hkeys ↦ hrequest ⟨keys, hkeys⟩) hwake
  · have hown : DeleterLabel.ownedBy k (.pump ⟨j, action⟩) = false := by
      cases action <;> simp [DeleterLabel.ownedBy, hjk]
    rw [hown]
    refine nearer_of_frame ?_ (htask k (Ne.symm hjk)) hepoch ?_
    · rw [hslots, List.getElem?_set_ne hjk]
    · rw [hpending]
      exact heffect.length_pending

/-- A step of a slot or of its future. -/
theorem nearer_step (hs : s.Conserved) (hreached : epoch ≤ s.state.deleter.barrierEpoch)
    (hpump : l.ofPump) (hstep : deleterStep l s = some t) :
    Nearer epoch k (l.ownedBy k) s t := by
  cases l with
  | pump l => exact nearer_pump hreached hstep
  | create j =>
    simp only [deleterStep] at hstep
    split at hstep
    · next slot hslot =>
      split at hstep <;> cases hstep
      next hwait =>
      by_cases hjk : j = k
      · subst hjk
        refine ⟨rfl, fun other hother ↦ ⟨other, hother, le_rfl, fun _ htrack ↦ ?_⟩⟩
        cases Option.some.inj (hother.symm.trans hslot)
        simp [DeleterSlot.OnTrack, hwait.1, hwait.2] at htrack
      · have hown : DeleterLabel.ownedBy k (.create j) = false := by
          simp [DeleterLabel.ownedBy, hjk]
        rw [hown]
        exact nearer_of_frame rfl (by simp [Notify.create, Ne.symm hjk]) rfl le_rfl
    · cases hstep
  | poll j =>
    simp only [deleterStep] at hstep
    split at hstep <;> cases hstep
    next woken hcreated =>
    by_cases hjk : j = k
    · subst hjk
      refine ⟨rfl, fun other hother ↦ ⟨other, hother, le_rfl, fun _ htrack ↦ ?_⟩⟩
      obtain ⟨slot, hslot, hwait⟩ := hs.waiting j (by simp [hcreated])
      cases Option.some.inj (hother.symm.trans hslot)
      -- a future that all wake-ups have passed is not on track
      have hwoken : s.notify.task j = .created true := by
        simpa [DeleterSlot.OnTrack, hwait, hcreated] using htrack
      have hnotified : (s.notify.poll j).task j = .notified := by
        unfold Notify.poll
        split <;> simp
      refine .inr ⟨?_, ?_⟩
      · simp [DeleterSlot.OnTrack, hwait, hnotified]
      · simp [DeleterSlot.cost, hwait, hnotified, hwoken, DeleterLabel.ownedBy]
    · have hown : DeleterLabel.ownedBy k (.poll j) = false := by
        simp [DeleterLabel.ownedBy, hjk]
      rw [hown]
      refine nearer_of_frame rfl ?_ rfl le_rfl
      unfold Notify.poll
      split
      · simp [Ne.symm hjk]
      · split <;> simp [Ne.symm hjk]
  | _ => cases hpump

/-- A slot that was on its way still is. -/
theorem Tracked.step (h : Tracked epoch k s) (hpump : l.ofPump)
    (hstep : deleterStep l s = some t) : Tracked epoch k t := by
  have hnearer : Nearer epoch k _ s t := nearer_step h.conserved h.reached hpump hstep
  refine ⟨h.conserved.step hstep, hnearer.epochs ▸ h.reached, ?_⟩
  obtain ⟨slot, hslot, htrack⟩ := h.slot
  obtain ⟨slot', hslot', hmono, hmove⟩ := hnearer.slot slot hslot
  refine ⟨slot', hslot', ?_⟩
  by_cases hack : epoch ≤ slot.barrierAck
  · exact .inl (Nat.le_trans hack hmono)
  · have hon := htrack.resolve_left hack
    exact (hmove (Nat.lt_of_not_le hack) hon).imp_right And.left

/-- Before its acknowledgement, the slot's own steps lower the cost and no other raises it. -/
theorem Tracked.cost_step (h : Tracked epoch k s) (hacked : s.acked epoch k = false)
    (hpump : l.ofPump) (hstep : deleterStep l s = some t) :
    t.cost epoch k + (l.ownedBy k).toNat ≤ s.cost epoch k := by
  obtain ⟨slot, hslot, htrack⟩ := h.slot
  have hack := (acked_eq_false hslot).mp hacked
  have hnearer := nearer_step h.conserved h.reached hpump hstep (k := k)
  obtain ⟨slot', hslot', hmono, hmove⟩ := hnearer.slot slot hslot
  have hpos := slot.cost_pos s.state.deleter.pending.length (s.notify.task k)
  rw [cost_of_lt hslot hack]
  by_cases hack' : epoch ≤ slot'.barrierAck
  · have hzero : t.cost epoch k = 0 := by simp [cost, hslot', hack']
    have hone := Bool.toNat_le (l.ownedBy k)
    omega
  · have hclose := (hmove hack (htrack.resolve_left (Nat.not_le.mpr hack))).resolve_left hack'
    rw [cost_of_lt hslot' (Nat.lt_of_not_le hack')]
    exact hclose.2

/-- An acknowledgement stays. -/
theorem Tracked.acked_step (h : Tracked epoch k s) (hpump : l.ofPump)
    (hstep : deleterStep l s = some t) (hacked : s.acked epoch k) :
    t.acked epoch k = true := by
  obtain ⟨slot, hslot, -⟩ := h.slot
  have hnearer := nearer_step h.conserved h.reached hpump hstep (k := k)
  obtain ⟨slot', hslot', hmono, -⟩ := hnearer.slot slot hslot
  by_contra hnot
  have hack' := (acked_eq_false hslot').mp (by simpa using hnot)
  have hfalse := (acked_eq_false hslot).mpr (Nat.lt_of_le_of_lt hmono hack')
  rw [hacked] at hfalse
  cases hfalse

theorem Tracked.enabled (h : Tracked epoch k s) (hacked : s.acked epoch k = false) :
    ∃ l, DeleterLabel.ownedBy k l = true ∧ (deleterStep l s).isSome := by
  obtain ⟨slot, hslot, htrack⟩ := h.slot
  have hon := htrack.resolve_left (Nat.not_le.mpr ((acked_eq_false hslot).mp hacked))
  have hpump : ∀ a, (∀ keys, a ≠ .request keys) → a ≠ .wake →
      (slotStep s.state slot a).isSome →
      ∃ l, DeleterLabel.ownedBy k l = true ∧ (deleterStep l s).isSome := by
    intro a hrequest hwake hsome
    refine ⟨.pump ⟨k, a⟩, ?_, ?_⟩
    · cases a <;> simp_all [DeleterLabel.ownedBy]
    · simp [deleterStep, slotPump, hslot, hwake, DeleteState.pump, hsome]
  cases hstage : slot.stage with
  | drain =>
    refine hpump .pop (by simp) (by simp) ?_
    simp only [slotStep, hstage]
    cases s.state.deleter.pending <;> rfl
  | delete job =>
    refine hpump (.delete true false) (by simp) (by simp) ?_
    simp [slotStep, hstage]
  | record job => exact hpump .record (by simp) (by simp) (by simp [slotStep, hstage])
  | take attempt =>
    refine hpump .take (by simp) (by simp) ?_
    simp only [slotStep, hstage]
    split <;> rfl
  | close attempt toFlush =>
    exact hpump (.close true) (by simp) (by simp) (by simp [slotStep, hstage])
  | resolve landed toFlush =>
    refine hpump .resolve (by simp) (by simp) ?_
    cases toFlush <;> simp [slotStep, hstage]
  | loadEpoch => exact hpump .load (by simp) (by simp) (by simp [slotStep, hstage])
  | storeAck read => exact hpump .store (by simp) (by simp) (by simp [slotStep, hstage])
  | wait =>
    simp only [DeleterSlot.OnTrack, hstage] at hon
    rcases hon with hcreated | hnotified
    · exact ⟨.poll k, by simp [DeleterLabel.ownedBy], by simp [deleterStep, hcreated]⟩
    · exact ⟨.pump ⟨k, .wake⟩, by simp [DeleterLabel.ownedBy],
        by simp [deleterStep, slotPump, hslot, hnotified, DeleteState.pump, slotStep, hstage]⟩

/-- Every slot that has yet to acknowledge the epoch has a step of its own to take, and only a
bounded number of them; and once the slots have taken that many, `flush` returns. -/
def BarrierProgress (epoch : Nat) (s : DeleterSys) : Prop :=
  ∀ ls t, exec deleterStep ls s = some t → (∀ l ∈ ls, DeleterLabel.ofPump l = true) →
    (∀ k < t.state.deleter.slots.length, t.acked epoch k = false →
      ls.countP (DeleterLabel.ownedBy k) < s.cost epoch k ∧
        ∃ l, DeleterLabel.ownedBy k l = true ∧ (deleterStep l t).isSome) ∧
    ((∀ k < t.state.deleter.slots.length,
        s.cost epoch k ≤ ls.countP (DeleterLabel.ownedBy k)) →
      (t.state.deleter.flushEnd epoch).isSome)

theorem Tracked.admits (h : Tracked epoch k s) (hrun : exec deleterStep ls s = some t)
    (hls : ∀ l ∈ ls, l.ofPump) (hacked : t.acked epoch k = false) :
    s.acked epoch k = false ∧
      Admits deleterStep (fun s l ↦ l.ofPump = true ∧ s.acked epoch k = false) ls s := by
  induction ls generalizing s with
  | nil =>
    cases hrun
    exact ⟨hacked, trivial⟩
  | cons l ls ih =>
    obtain ⟨m, hm, hrest⟩ := Option.bind_eq_some_iff.mp hrun
    have hpump := hls l List.mem_cons_self
    obtain ⟨hmid, htail⟩ := ih (h.step hpump hm) hrest
      (fun l hl ↦ hls l (List.mem_cons_of_mem _ hl))
    have hbefore : s.acked epoch k = false := by
      by_contra hnot
      rw [h.acked_step hpump hm (by simpa using hnot)] at hmid
      cases hmid
    refine ⟨hbefore, ⟨hpump, hbefore⟩, fun m' hm' ↦ ?_⟩
    cases Option.some.inj (hm.symm.trans hm')
    exact htail

/-- Along any steps of the slots, a slot stays on its way. -/
theorem Tracked.run (h : Tracked epoch k s) (hrun : exec deleterStep ls s = some t)
    (hls : ∀ l ∈ ls, l.ofPump) : Tracked epoch k t := by
  induction ls generalizing s with
  | nil =>
    cases hrun
    exact h
  | cons l ls ih =>
    obtain ⟨m, hm, hrest⟩ := Option.bind_eq_some_iff.mp hrun
    exact ih (h.step (hls l List.mem_cons_self) hm) hrest
      (fun l hl ↦ hls l (List.mem_cons_of_mem _ hl))

theorem length_slots_exec (hrun : exec deleterStep ls s = some t) (hls : ∀ l ∈ ls, l.ofPump) :
    t.state.deleter.slots.length = s.state.deleter.slots.length := by
  induction ls generalizing s with
  | nil =>
    cases hrun
    rfl
  | cons l ls ih =>
    obtain ⟨m, hm, hrest⟩ := Option.bind_eq_some_iff.mp hrun
    rw [ih hrest (fun l hl ↦ hls l (List.mem_cons_of_mem _ hl))]
    have hpump := hls l List.mem_cons_self
    cases l with
    | pump l =>
      obtain ⟨slot, s', slot', -, heffect, hcase⟩ := slotPump_cases hm
      rcases hcase with ⟨-, -, rfl⟩ | ⟨-, rfl⟩ <;>
        simp [DeleteState.setSlot, heffect.slots]
    | create j =>
      simp only [deleterStep] at hm
      split at hm
      · split at hm <;> cases hm
        rfl
      · cases hm
    | poll j =>
      simp only [deleterStep] at hm
      split at hm <;> cases hm
      rfl
    | _ => cases hpump

theorem barrierProgress_of_tracked
    (h : ∀ k < s.state.deleter.slots.length, Tracked epoch k s) : s.BarrierProgress epoch := by
  intro ls t hrun hls
  have hlength := length_slots_exec hrun hls
  have hbound : ∀ k < t.state.deleter.slots.length, t.acked epoch k = false →
      ls.countP (DeleterLabel.ownedBy k) < s.cost epoch k := by
    intro k hk hacked
    have htracked := h k (hlength ▸ hk)
    have hcount := countP_add_le_of_measure (DeleterLabel.ownedBy k) (cost epoch k)
      (fun _ _ _ (hinv : Tracked epoch k _) hguard hstep ↦ hinv.step hguard.1 hstep)
      (fun _ _ _ hinv hguard hstep ↦
        Nat.le_trans (Nat.le_add_right _ _) (hinv.cost_step hguard.2 hguard.1 hstep))
      (fun _ _ _ hinv hguard hstep hown ↦ by
        have hcost := hinv.cost_step hguard.2 hguard.1 hstep
        rw [hown] at hcost
        exact hcost)
      htracked hrun (htracked.admits hrun hls hacked).2
    obtain ⟨slot, hslot, -⟩ := (htracked.run hrun hls).slot
    have hpos := slot.cost_pos t.state.deleter.pending.length (t.notify.task k)
    rw [← cost_of_lt hslot ((acked_eq_false hslot).mp hacked)] at hpos
    omega
  refine ⟨fun k hk hacked ↦ ⟨hbound k hk hacked, ?_⟩, fun henough ↦ ?_⟩
  · exact ((h k (hlength ▸ hk)).run hrun hls).enabled hacked
  · have hall : t.state.deleter.slots.all (fun slot ↦ epoch ≤ slot.barrierAck) = true := by
      rw [List.all_eq_true]
      intro slot hslot
      obtain ⟨k, hk⟩ := List.mem_iff_getElem?.mp hslot
      have hlt := (List.getElem?_eq_some_iff.mp hk).1
      rw [decide_eq_true_eq]
      by_contra hnot
      have hless := hbound k hlt ((acked_eq_false hk).mpr (Nat.lt_of_not_le hnot))
      exact Nat.not_lt_of_ge (henough k hlt) hless
    simp [ConcurrentDeleter.flushEnd, hall]

theorem tracked_notifyWaiters (hs : s.Conserved) (hepoch : s.state.deleter.barrierEpoch = epoch)
    (hwindow : NoneInWindow s) (hstep : deleterStep .notifyWaiters s = some t)
    (hk : k < t.state.deleter.slots.length) : Tracked epoch k t := by
  have hconserved := hs.step hstep
  simp only [deleterStep] at hstep
  split at hstep <;> cases hstep
  obtain ⟨slot, hslot⟩ : ∃ slot, s.state.deleter.slots[k]? = some slot :=
    ⟨_, List.getElem?_eq_getElem hk⟩
  refine ⟨hconserved, hepoch.ge, slot, hslot, ?_⟩
  have hout := hwindow k slot hslot
  simp only [InWindow, hepoch] at hout
  refine or_iff_not_imp_left.mpr fun hack ↦ ?_
  have hout := not_and.mp hout (Nat.lt_of_not_le hack)
  unfold DeleterSlot.OnTrack
  cases hstage : slot.stage with
  | storeAck read =>
    rw [hstage] at hout
    exact Nat.not_lt.mp hout
  | wait =>
    rw [hstage] at hout
    simp only [Notify.notifyWaiters]
    cases htask : s.notify.task k with
    | idle => exact absurd htask hout
    | created woken => exact .inl rfl
    | registered | notified => exact .inr rfl
  | _ => trivial

theorem exists_sleep (hslot : s.state.deleter.slots[k]? = some slot) (hwait : slot.stage = .wait)
    (hidle : s.notify.task k = .idle) (hpermit : s.notify.permit = false) :
    ∃ t, exec deleterStep [.create k, .poll k] s = some t ∧ t.state = s.state ∧
      t.notify.task k = .registered := by
  refine ⟨{ s with notify := (s.notify.create k).poll k }, ?_, rfl, ?_⟩
  · simp [exec, deleterStep, hslot, hwait, hidle, Notify.create]
  · simp [Notify.poll, Notify.create, hpermit]

theorem not_enabled_of_registered (hslot : s.state.deleter.slots[k]? = some slot)
    (hwait : slot.stage = .wait) (hasleep : s.notify.task k = .registered)
    (hown : l.ownedBy k) : deleterStep l s = none := by
  cases l with
  | pump l =>
    obtain ⟨j, action⟩ := l
    cases action <;>
      simp_all [deleterStep, slotPump, DeleteState.pump, slotStep, DeleterLabel.ownedBy]
  | create j =>
    have hj : j = k := by simpa [DeleterLabel.ownedBy] using hown
    subst hj
    simp [deleterStep, hslot, hasleep]
  | poll j =>
    have hj : j = k := by simpa [DeleterLabel.ownedBy] using hown
    subst hj
    simp [deleterStep, hasleep]
  | _ => cases hown

theorem exists_store {read : Nat} (hslot : s.state.deleter.slots[k]? = some slot)
    (hstage : slot.stage = .storeAck read) :
    ∃ t, exec deleterStep [.pump ⟨k, .store⟩] s = some t ∧ t.notify = s.notify ∧
      t.state.deleter.slots[k]? =
        some { slot with barrierAck := max slot.barrierAck read, stage := .wait } := by
  refine ⟨{ s with
    state := s.state.setSlot k { slot with barrierAck := max slot.barrierAck read, stage := .wait }
    sent := s.sent ++ resolvedBy slot .store }, ?_, rfl, ?_⟩
  · simp [exec, deleterStep, slotPump, hslot, DeleteState.pump, slotStep, hstage]
  · exact List.getElem?_set_self (List.getElem?_eq_some_iff.mp hslot).1

theorem BarrierProgress.le_barrierAck {u : DeleterSys} (h : t.BarrierProgress epoch)
    (hrun : exec deleterStep ls t = some u) (hls : ∀ l ∈ ls, l.ofPump)
    (hslot : u.state.deleter.slots[k]? = some slot) (hwait : slot.stage = .wait)
    (hidle : u.notify.task k = .idle) (hpermit : u.notify.permit = false) :
    epoch ≤ slot.barrierAck := by
  by_contra hack
  obtain ⟨v, hv, hstate, htask⟩ := exists_sleep hslot hwait hidle hpermit
  have hrun' := exec_append deleterStep ls [.create k, .poll k] t
  rw [hrun, Option.bind_some, hv] at hrun'
  have hall : ∀ l ∈ ls ++ ([.create k, .poll k] : List DeleterLabel),
      DeleterLabel.ofPump l = true := by
    intro l hl
    rcases List.mem_append.mp hl with hl | hl
    · exact hls l hl
    · simp only [List.mem_cons, List.not_mem_nil, or_false] at hl
      rcases hl with rfl | rfl <;> rfl
  have hslotv : v.state.deleter.slots[k]? = some slot := hstate ▸ hslot
  obtain ⟨-, l, hown, hsome⟩ := (h _ v hrun' hall).1 k
    (List.getElem?_eq_some_iff.mp hslotv).1
    ((acked_eq_false hslotv).mpr (Nat.lt_of_not_le hack))
  rw [not_enabled_of_registered hslotv hwait htask hown] at hsome
  cases hsome

theorem noneInWindow_of_barrierProgress (hs : s.Conserved)
    (hepoch : s.state.deleter.barrierEpoch = epoch) (hpermit : s.notify.permit = false)
    (hstep : deleterStep .notifyWaiters s = some t) (hprogress : t.BarrierProgress epoch) :
    NoneInWindow s := by
  simp only [deleterStep] at hstep
  split at hstep <;> cases hstep
  intro k slot hslot hin
  rw [InWindow, hepoch] at hin
  obtain ⟨hack, hin⟩ := hin
  cases hstage : slot.stage with
  | storeAck read =>
    simp only [hstage] at hin
    have hidle : s.notify.task k = .idle := by
      by_contra hnot
      obtain ⟨other, hother, hwait⟩ := hs.waiting k hnot
      cases Option.some.inj (hother.symm.trans hslot)
      rw [hstage] at hwait
      cases hwait
    obtain ⟨u, hu, hnotify, hslotu⟩ := @exists_store
      { s with flushing := s.flushing - 1, notify := s.notify.notifyWaiters } k slot read hslot
      hstage
    have hle := hprogress.le_barrierAck hu (by simp [DeleterLabel.ofPump]) hslotu rfl
      (by simp [hnotify, Notify.notifyWaiters, hidle])
      (by simp [hnotify, Notify.notifyWaiters, hpermit])
    exact absurd (Nat.lt_of_le_of_lt hle (max_lt hack hin)) (Nat.lt_irrefl _)
  | wait =>
    simp only [hstage] at hin
    have hnone : exec deleterStep [] { s with
        flushing := s.flushing - 1, notify := s.notify.notifyWaiters } = some _ := rfl
    have hle := hprogress.le_barrierAck hnone (by simp) hslot hstage
      (by simp [Notify.notifyWaiters, hin]) hpermit
    omega
  | _ => simp only [hstage] at hin

/-- The slots raise no epoch. -/
theorem barrierEpoch_run (hs : s.Conserved)
    (hrun : GuardedRun deleterStep (fun _ l ↦ l.ofPump = true) s t) :
    t.Conserved ∧ t.state.deleter.barrierEpoch = s.state.deleter.barrierEpoch := by
  refine hrun.invariant
    (fun u ↦ u.Conserved ∧ u.state.deleter.barrierEpoch = s.state.deleter.barrierEpoch)
    (fun u l v hinv hpump hstep ↦ ⟨hinv.1.step hstep, ?_⟩) ⟨hs, rfl⟩
  exact (nearer_step (k := 0) hinv.1 (Nat.zero_le _) hpump hstep).epochs.trans hinv.2

end DeleterSys

/-- One `flush` among the slots, from any state that callers and slots reach: it raises the epoch,
the slots go on, it wakes all, and the slots go on. If no slot is between its read of the older
epoch and its future at the wake-up, every slot acknowledges the new epoch by its own steps and
`flush` returns; without a permit, that is also necessary. -/
theorem flush_progress_iff_of_run {backend : Path → Option Bytes} {tombs : Finset Path}
    {workerCount : Nat} {s s₁ s₂ t : DeleterSys}
    (hbefore : GuardedRun deleterStep (fun _ _ ↦ True) (.spawned backend tombs workerCount) s)
    (hbegin : deleterStep .flushBegin s = some s₁)
    (hmeanwhile : GuardedRun deleterStep (fun _ l ↦ l.ofPump = true) s₁ s₂)
    (hnotify : deleterStep .notifyWaiters s₂ = some t) :
    (NoneInWindow s₂ → t.BarrierProgress (s.state.deleter.barrierEpoch + 1)) ∧
      (s₂.notify.permit = false → t.BarrierProgress (s.state.deleter.barrierEpoch + 1) →
        NoneInWindow s₂) := by
  have hs : s.Conserved := hbefore.invariant DeleterSys.Conserved
    (fun _ _ _ hinv _ hstep ↦ hinv.step hstep) (DeleterSys.conserved_spawned _ _ _)
  obtain ⟨hs₂, hepoch⟩ := DeleterSys.barrierEpoch_run (hs.step hbegin) hmeanwhile
  cases hbegin
  refine ⟨fun hwindow ↦ DeleterSys.barrierProgress_of_tracked (fun k hk ↦ ?_), ?_⟩
  · exact DeleterSys.tracked_notifyWaiters hs₂ hepoch hwindow hnotify hk
  · exact fun hpermit ↦ DeleterSys.noneInWindow_of_barrierProgress hs₂ hepoch hpermit hnotify

/-- One slot finds nothing to do and sleeps. -/
def fallAsleep : List DeleterLabel :=
  [.pump ⟨0, .pop⟩, .pump ⟨0, .take⟩, .pump ⟨0, .load⟩, .pump ⟨0, .store⟩, .create 0, .poll 0]

theorem flush_progress_of_asleep :
    ∃ s t, exec deleterStep fallAsleep (.spawned (fun _ ↦ none) ∅ 1) = some s ∧
      exec deleterStep [.flushBegin, .notifyWaiters] s = some t ∧ t.BarrierProgress 1 := by
  obtain ⟨s, hs, hepoch, hasleep⟩ := exists_exec deleterStep
    (fun s ↦ s.state.deleter.barrierEpoch = 0 ∧
      ∀ k < s.state.deleter.slots.length, s.notify.task k = .registered)
    fallAsleep (.spawned (fun _ ↦ none) ∅ 1) (by decide)
  have hbefore := guardedRun_of_exec hs
    (@admits_of_forall _ _ deleterStep (fun _ _ ↦ True) (fun _ _ ↦ trivial) fallAsleep _)
  have hwindow : NoneInWindow { s.setDeleter s.state.deleter.flushBegin with
      flushing := s.flushing + 1 } := by
    rintro k slot hslot ⟨-, hin⟩
    have hasleep := hasleep k (List.getElem?_eq_some_iff.mp hslot).1
    split at hin
    · next hstage =>
      obtain ⟨other, hother, hwait⟩ := (hbefore.invariant DeleterSys.Conserved
        (fun _ _ _ hinv _ hstep ↦ hinv.step hstep)
        (DeleterSys.conserved_spawned _ _ _)).waiting k (by simp [hasleep])
      cases Option.some.inj (hother.symm.trans hslot)
      rw [hstage] at hwait
      cases hwait
    · exact absurd (hasleep.symm.trans hin) (by decide)
    · exact hin
  refine ⟨s, _, hs, rfl, ?_⟩
  have hprogress := (flush_progress_iff_of_run hbefore rfl .refl rfl).1 hwindow
  rwa [hepoch] at hprogress

/-- The slot reads the epoch, all are woken, and only then the slot gets to sleep. -/
def lostWakeup : List DeleterLabel :=
  [.pump ⟨0, .pop⟩, .pump ⟨0, .take⟩, .pump ⟨0, .load⟩, .flushBegin, .notifyWaiters,
    .pump ⟨0, .store⟩, .create 0, .poll 0]

/-- The only slot sleeps with the old epoch acknowledged: it has no step to take, and `flush`
waits. -/
theorem flush_loses_wakeup :
    ∃ t, exec deleterStep lostWakeup (.spawned (fun _ ↦ none) ∅ 1) = some t ∧
      t.state.deleter.slots.length = 1 ∧ t.state.deleter.flushEnd 1 = none ∧
      ∀ l, DeleterLabel.ownedBy 0 l = true → deleterStep l t = none := by
  obtain ⟨t, ht, hlength, hend, hstage, hasleep⟩ := exists_exec deleterStep
    (fun t ↦ t.state.deleter.slots.length = 1 ∧ t.state.deleter.flushEnd 1 = none ∧
      t.state.deleter.slots[0]?.map DeleterSlot.stage = some .wait ∧
      t.notify.task 0 = .registered)
    lostWakeup (.spawned (fun _ ↦ none) ∅ 1) (by decide)
  obtain ⟨slot, hslot, hwait⟩ := Option.map_eq_some_iff.mp hstage
  exact ⟨t, ht, hlength, hend, fun l ↦ DeleterSys.not_enabled_of_registered hslot hwait hasleep⟩

end Mntrs

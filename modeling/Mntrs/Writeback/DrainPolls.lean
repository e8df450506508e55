import Mntrs.Writeback.OffModeDelivery
import Mntrs.Writeback.TaskCount

/-!
# Draining the writeback queue before an unmount

`drain_writebacks` (`src/csi/mntrs-csi/src/main.rs:1021-1060`) polls `pending_count()` until it
reads zero. The worker counts a task when it takes it out of the channel and uncounts it when its
put has succeeded, its cache file is gone or its last retry has failed
(`src/src/writeback.rs:465-540,776-860`). A task in the channel is not counted, nor is one whose
bytes an upload is about to send again. When neither is the case at the poll, the bytes of the last
successful write are on the backend, or the worker gave their path up.
-/

namespace Mntrs

open Base

/-! ### Paths the worker gives up -/

/-- The last attempt of the last cycle. -/
def Upload.exhausted (u : Upload) : Bool :=
  match u.stage with
  | .attempt n => decide (uploadAttempts ≤ n + 1 ∧ maxReenqueueCycles < u.task.retryCycle + 1)
  | _ => false

/-- The step gives the path up: the last attempt of the last cycle of its upload fails. -/
def givesUp (s : Sys) (p : Path) : Label → Bool
  | .attempt i (.failed _) =>
    match s.fs.writeback.running[i]? with
    | some u => decide (u.task.remotePath = p) && u.exhausted
    | none => false
  | _ => false

/-- Only giving up ends the registration of a path whose uploads have yet to put their bytes. -/
theorem givesUp_of_unregistered {cfg : Config} {p : Path} {s t : Sys} {l : Label}
    (hown : OwnStep p s l) (hin : p ∈ s.fs.writeback.pending) (hout : p ∉ t.fs.writeback.pending)
    (hattempting : ∀ u ∈ s.fs.writeback.running, u.task.remotePath = p → u.attempting = true)
    (hstep : step cfg l s = some t) : givesUp s p l = true := by
  have heffect := (stepEffect hstep).queue
  have hsame : t.fs.writeback.pending ≠ s.fs.writeback.pending := by
    intro heq
    rw [heq] at hout
    exact hout hin
  cases l with
  | write ino fh offset data env | flush ino fh env | release ino fh env =>
    exact absurd (congrArg _ heffect) hsame
  | fuse =>
    rcases heffect with (heq | ⟨q, task, -, -, -, -, -, heq⟩) | ⟨q, hq, -⟩
    · exact absurd (congrArg _ heq) hsame
    · rw [heq] at hout
      refine absurd ?_ hout
      unfold DedupQueue.submit
      split
      · exact hin
      · exact Finset.mem_insert_of_mem hin
    · have hpath : s.call.path? = some p := hown
      cases hcall : s.call <;> simp [cancels, hcall, Call.path?] at hq hpath
  | recv => exact absurd (DedupQueue.tasks_recv Upload.task heffect).2 hsame
  | dequeue i =>
    obtain ⟨task, -, ⟨data, -, heq⟩ | ⟨-, heq⟩⟩ := heffect <;> exact absurd (congrArg _ heq) hsame
  | attempt i outcome =>
    obtain ⟨fs, hattempt, rfl⟩ := exists_workerStep hstep
    obtain ⟨u, hu, hpath⟩ := Option.map_eq_some_iff.mp hown
    obtain ⟨u₁, n, hu₁, hn, hmove⟩ := attempted hattempt
    obtain rfl : u₁ = u := Option.some.inj (hu₁.symm.trans hu)
    cases hmove with
    | gaveUp reached hlast hcycle =>
      simp only [givesUp, hu, hpath, decide_true, Bool.true_and, Upload.exhausted, hn]
      exact decide_eq_true ⟨hlast, hcycle⟩
    | _ => exact absurd rfl hsame
  | upload i =>
    obtain ⟨fs, hupload, rfl⟩ := exists_workerStep hstep
    obtain ⟨u, hu, hpath⟩ := Option.map_eq_some_iff.mp hown
    have hstage := hattempting u (List.mem_of_getElem? hu) hpath
    unfold Upload.attempting at hstage
    split at hstage
    · next k hk => simp [workerStep, uploadStep, hu, hk] at hupload
    · cases hstage
  | dropBlocks => exact absurd (congrArg _ heffect) hsame
  | _ => cases hown

/-- How a drain stands: it polls, or it has ended with a count of zero or at its deadline. -/
inductive Drain where
  | polling
  | empty
  | timedOut
deriving DecidableEq, Repr

/-- The machine with a drain that polls it. `gaveUp` is a ghost: the worker gave the path up, and
nothing has registered it since. -/
structure DrainSys where
  sys : Sys
  gaveUp : Path → Bool
  drain : Drain

/-- A step of the machine, or a poll; `late` is whether the deadline has passed. -/
inductive DrainLabel where
  | mount (l : Label)
  | poll (late : Bool)

/-- `pending_writebacks`, `src/src/cmd/mount.rs:870-873`. -/
def pendingWritebacks (fs : MntrsFs) : UInt64 := fs.pendingCount

/-- The paths given up after a step. -/
def gaveUpAfter (d : DrainSys) (l : Label) (t : Sys) (p : Path) : Bool :=
  if givesUp d.sys p l then true
  else if p ∉ d.sys.fs.writeback.pending ∧ p ∈ t.fs.writeback.pending then false
  else d.gaveUp p

/-- One step of the machine with its drain; a poll is one round of `drain_writebacks`. -/
def drainStep (cfg : Config) : DrainLabel → DrainSys → Option DrainSys
  | .mount l, d =>
    match step cfg l d.sys with
    | some t => some { d with sys := t, gaveUp := gaveUpAfter d l t }
    | none => none
  | .poll late, d =>
    match d.drain with
    | .polling =>
      some { d with
        drain := if pendingWritebacks d.sys.fs = 0 then .empty
          else if late then .timedOut
          else .polling }
    | _ => none

/-- Every put may fail, and hand-overs are up to date. -/
def draining : Discipline := { delivery with put := fun _ ↦ True }

/-- The condition on the steps of a path: those of its mode, with puts that may fail, and a count
that does not run over. -/
def DrainObeys (cfg : Config) (p : Path) (b : BufId) (d : DrainSys) : DrainLabel → Prop
  | .poll _ => True
  | .mount l => CountKept d.sys l ∧
      if cfg.cacheMode.diskWriteBuffer then Obeys cfg p draining d.sys l
      else OffModeObeys cfg p b (fun _ ↦ True) d.sys l

/-- A path before its first write, with a count that covers the tasks of the others. -/
def DrainStart (cfg : Config) (p : Path) (b : BufId) (d : DrainSys) : Prop :=
  Counted d.sys.fs ∧
    if cfg.cacheMode.diskWriteBuffer then FreshPath p d.sys else FreshBuffer p b d.sys

/-- The count covers its tasks, and the latest bytes of the path are in the hands of a request, a
handle or the worker, or given up. -/
structure DrainAccount (cfg : Config) (p : Path) (b : BufId) (d : DrainSys) : Prop where
  counted : Counted d.sys.fs
  disk : cfg.cacheMode.diskWriteBuffer = true →
    Draining (cfg.writeBufferPath p) (d.gaveUp p) (pathView cfg p d.sys)
  offMode : cfg.cacheMode.diskWriteBuffer = false →
    OffModeHanding b (d.gaveUp p) (offModeView p b d.sys)

/-- No task of the path is in the channel, and no upload of it holds bytes the registered buffer has
moved on from. -/
def Received (p : Path) (fs : MntrsFs) : Prop :=
  (∀ t ∈ fs.writeback.chan, t.remotePath ≠ p) ∧
    ∀ u ∈ fs.writeback.running, u.task.remotePath = p → movedOn fs u = none

section

variable {cfg : Config} {p : Path} {b : BufId} {d : DrainSys} {t : Sys} {l : Label}

private theorem gaveUpAfter_kept (hgave : d.gaveUp p) :
    gaveUpAfter d l t p = true ∨
      (decide (p ∈ d.sys.fs.writeback.pending) = false ∧
        decide (p ∈ t.fs.writeback.pending) = true) := by
  unfold gaveUpAfter
  split
  · exact .inl rfl
  · split
    · next hnew => exact .inr ⟨decide_eq_false hnew.1, decide_eq_true hnew.2⟩
    · exact .inl hgave

private theorem attempting_of_alone {u : Upload} {rest : Multiset Upload}
    (huploads : d.sys.fs.writeback.jobs (·.task.remotePath) p = u ::ₘ rest) (hrest : rest = 0)
    (hstage : u.attempting) :
    ∀ u' ∈ d.sys.fs.writeback.running, u'.task.remotePath = p → u'.attempting = true := by
  intro u' hu' hpath
  have hmem : u' ∈ d.sys.fs.writeback.jobs (·.task.remotePath) p :=
    Multiset.mem_filter.mpr ⟨Multiset.mem_coe.mpr hu', hpath⟩
  rw [huploads, hrest, Multiset.mem_cons] at hmem
  rw [hmem.resolve_right (Multiset.notMem_zero u')]
  exact hstage

/-- A step of the machine keeps the account. -/
theorem DrainAccount.mount (h : DrainAccount cfg p b d) (hdirect : cfg.directIo = false)
    (hobeys : DrainObeys cfg p b d (.mount l)) (hstep : step cfg l d.sys = some t) :
    DrainAccount cfg p b { d with sys := t, gaveUp := gaveUpAfter d l t } := by
  obtain ⟨hkept, hobeys⟩ := hobeys
  have hregistered : ∀ {u rest}, d.sys.fs.writeback.jobs (·.task.remotePath) p = u ::ₘ rest →
      rest = 0 → u.attempting = true → p ∈ d.sys.fs.writeback.pending →
      p ∉ t.fs.writeback.pending → OwnStep p d.sys l → gaveUpAfter d l t p = true := by
    intro u rest huploads hrest hstage hin hout hown
    have hgives := givesUp_of_unregistered hown hin hout
      (attempting_of_alone huploads hrest hstage) hstep
    simp [gaveUpAfter, hgives]
  refine ⟨h.counted.step hkept hstep, fun hmode ↦ ?_, fun hmode ↦ ?_⟩
  · have hdraining := h.disk hmode
    rw [if_pos hmode] at hobeys
    have hmove := pathStep_of_step hdraining.sound hmode hdirect hobeys hstep
    refine hdraining.step hmove (fun _ hover ↦ hover) ?_ gaveUpAfter_kept
    rintro - - ⟨u, hu, hstage⟩ hout
    obtain ⟨rest, hrest⟩ := Multiset.exists_cons_of_mem hu
    have hin := hdraining.sound.registered (.inr (by simp [hrest]))
    rcases hobeys with ⟨hown, -⟩ | huntouched
    · exact hregistered hrest (hdraining.sound.alone hrest).1 hstage (of_decide_eq_true hin)
        (of_decide_eq_false hout) hown
    · rw [huntouched t hstep, hin] at hout
      cases hout
  · have hhanding := h.offMode hmode
    rw [if_neg (by simp [hmode])] at hobeys
    have hmove := offModeStep_of_step hhanding.sound hmode hdirect hobeys hstep
    refine hhanding.step hmove ?_ (fun hg ↦ (gaveUpAfter_kept hg).imp id And.right)
    rintro - - ⟨u, hu, hstage⟩ hout
    obtain ⟨rest, hrest⟩ := Multiset.exists_cons_of_mem hu
    have hin := hhanding.sound.registered_of_upload hrest
    rcases hobeys with ⟨hown, -⟩ | huntouched
    · exact hregistered hrest (hhanding.sound.alone hrest).1 hstage (of_decide_eq_true hin)
        (of_decide_eq_false hout) hown
    · rw [huntouched t hstep, hin] at hout
      cases hout

/-- One step keeps the account. -/
theorem DrainAccount.step {d' : DrainSys} {l : DrainLabel} (h : DrainAccount cfg p b d)
    (hdirect : cfg.directIo = false) (hobeys : DrainObeys cfg p b d l)
    (hstep : drainStep cfg l d = some d') : DrainAccount cfg p b d' := by
  unfold drainStep at hstep
  split at hstep
  · split at hstep <;> cases hstep
    rename_i t ht
    exact h.mount hdirect hobeys ht
  · split at hstep <;> cases hstep
    exact ⟨h.counted, h.disk, h.offMode⟩

theorem DrainStart.account (h : DrainStart cfg p b d) : DrainAccount cfg p b d := by
  obtain ⟨hcounted, hfresh⟩ := h
  refine ⟨hcounted, fun hmode ↦ ?_, fun hmode ↦ ?_⟩
  · rw [if_pos hmode] at hfresh
    exact hfresh.delivering.draining (d.gaveUp p)
  · rw [if_neg (by simp [hmode])] at hfresh
    exact hfresh.handing (d.gaveUp p)

/-- With a count of zero and nothing of the path in the channel, no task of the path waits. -/
private theorem waiting_eq_zero_of_drained (hqueue : d.sys.fs.writeback.queue = [])
    (hreceived : Received p d.sys.fs) :
    d.sys.fs.writeback.waiting WritebackTask.remotePath p = 0 := by
  refine Multiset.filter_eq_nil.mpr (fun task htask ↦ ?_)
  rw [hqueue, List.append_nil] at htask
  exact hreceived.1 task (Multiset.mem_coe.mp htask)

/-- At a count of zero between requests, a path without dirty handles whose tasks the worker has
received is on the backend or given up. -/
theorem DrainAccount.delivered (h : DrainAccount cfg p b d)
    (hzero : pendingWritebacks d.sys.fs = 0) (hcall : d.sys.call.isIdle)
    (hreleased : ∀ e ∈ d.sys.fs.handles.entries, e.2.path = p → e.2.isDirty = false)
    (hreceived : Received p d.sys.fs) {w : Bytes} (hw : d.sys.written p = some w) :
    d.sys.fs.backend p = some w ∨ d.gaveUp p = true := by
  obtain ⟨hqueue, hpast⟩ := h.counted.eq_nil hzero
  have hidle := Call.eq_idle_of_isIdle hcall
  have hwaiting := waiting_eq_zero_of_drained hqueue hreceived
  have hclean : ∀ fh state, (d.sys.fs.handles.lookup fh).filter (·.path = p) = some state →
      state.isDirty = false := by
    intro fh state hlookup
    obtain ⟨hfound, hpath⟩ := Option.filter_eq_some_iff.mp hlookup
    exact hreleased ⟨fh, state⟩ (Table.lookup_eq_some_iff.mp hfound) (of_decide_eq_true hpath)
  have huploads : ∀ u ∈ d.sys.fs.writeback.jobs (·.task.remotePath) p,
      u ∈ d.sys.fs.writeback.running ∧ u.task.remotePath = p := by
    intro u hu
    obtain ⟨hmem, hpath⟩ := Multiset.mem_filter.mp hu
    exact ⟨Multiset.mem_coe.mp hmem, hpath⟩
  cases hmode : cfg.cacheMode.diskWriteBuffer with
  | true =>
    have hdraining := h.disk hmode
    have hlatest : (pathView cfg p d.sys).latest = some w := by
      simpa [pathView, latestBytes, hidle] using hw
    rcases hdraining.sound.current w hlatest with hbytes | ⟨-, hobject, -⟩
    · rcases hdraining.latest w hlatest hbytes with ⟨fh, hphase⟩ | ⟨fh, state, hlookup, hdirty⟩ |
        (hnone | ⟨u, hu, hstage, -⟩ | ⟨hobject, -⟩) | hgave
      · simp [pathView, hidle] at hphase
      · rw [hclean fh state hlookup] at hdirty
        cases hdirty
      · exact absurd hwaiting hnone
      · rw [hpast u (huploads u hu).1] at hstage
        cases hstage
      · exact .inl hobject
      · exact .inr hgave
    · exact .inl hobject
  | false =>
    have hhanding := h.offMode hmode
    have hlatest : (offModeView p b d.sys).latest = some w := by
      simpa [offModeView, latestBytes, hidle] using hw
    have hdata : (d.sys.fs.buffers b).data = w := (hhanding.sound.latest w hlatest).1
    rcases hhanding.latest w hlatest with ⟨fh, hphase⟩ | ⟨fh, state, hlookup, hdirty⟩ |
      (hreg | hobject) | hgave
    · simp [offModeView, hidle] at hphase
    · rw [hclean fh state hlookup] at hdirty
      cases hdirty
    · -- the one upload of the path is past its put, with the bytes of the buffer
      have hsome := (hhanding.sound.registered.mp hreg).resolve_left (not_not.mpr hwaiting)
      obtain ⟨u, hu⟩ := Multiset.exists_mem_of_ne_zero hsome
      obtain ⟨hmem, hpath⟩ := huploads u hu
      have hobject := hhanding.sound.landed u hu (hpast u hmem)
      have hsame : u.data = (offModeView p b d.sys).data := by
        cases hsettling : u.settling with
        | true => exact hhanding.sound.settled u hu hsettling
        | false =>
          rcases hhanding.sound.covered u hu hsettling with hentry | ⟨hsame, -⟩
          · have hmoved := hreceived.2 u hmem hpath
            have hb : d.sys.fs.offModeBuffers p = some b := hentry
            simp only [movedOn, hpath, hb] at hmoved
            split at hmoved
            · next heq => exact heq.symm
            · cases hmoved
          · exact hsame
      have hput : d.sys.fs.backend p = some u.data := hobject
      rw [hput, hsame]
      exact .inl (congrArg some hdata)
    · have hput : d.sys.fs.backend p = some (d.sys.fs.buffers b).data := hobject
      rw [hput, hdata]
      exact .inl rfl
    · exact .inr hgave

end

/-- Along every run of requests, worker steps, failing puts and polls whose steps on the path meet
the condition, whenever the count reads zero between requests, no handle of the path is dirty and
the worker has received what there is of it, the backend holds the bytes of the last successful
write or the worker gave the path up. -/
theorem drain_sound_of_run {cfg : Config} {p : Path} {b : BufId} {d d' : DrainSys}
    (hdirect : cfg.directIo = false) (hstart : DrainStart cfg p b d)
    (hrun : GuardedRun (drainStep cfg) (DrainObeys cfg p b) d d')
    (hzero : pendingWritebacks d'.sys.fs = 0) (hcall : d'.sys.call.isIdle = true)
    (hreleased : ∀ e ∈ d'.sys.fs.handles.entries, e.2.path = p → e.2.isDirty = false)
    (hreceived : Received p d'.sys.fs) (w : Bytes) (hw : d'.sys.written p = some w) :
    d'.sys.fs.backend p = some w ∨ d'.gaveUp p = true := by
  have haccount := hrun.invariant (DrainAccount cfg p b)
    (fun _ _ _ h hobeys hstep ↦ h.step hdirect hobeys hstep) hstart.account
  exact haccount.delivered hzero hcall hreleased hreceived hw

instance CountKept.decidable (s : Sys) : ∀ l, Decidable (CountKept s l)
  | .recv => inferInstanceAs (Decidable (_ < _))
  | .other fs => inferInstanceAs (Decidable (fs.pendingCount = s.fs.pendingCount))
  | .write .. | .flush .. | .release .. | .unlink .. | .forget .. | .recover .. | .fuse
  | .dequeue _ | .attempt .. | .upload _ | .dropBlocks | .pool .. | .pump _ => isTrue trivial

instance draining.decidableMark : DecidablePred draining.mark := delivery.decidableMark

instance draining.decidableHandOver : DecidablePred draining.handOver := delivery.decidableHandOver

instance draining.decidablePut : DecidablePred draining.put := fun _ ↦ isTrue trivial

instance draining.decidableDropSidecar (v : PathView) (u : Upload) :
    Decidable (draining.dropSidecar v u) := isTrue trivial

instance Received.decidable (p : Path) (fs : MntrsFs) : Decidable (Received p fs) :=
  inferInstanceAs (Decidable ((∀ t ∈ fs.writeback.chan, _) ∧ ∀ u ∈ fs.writeback.running, _ → _))

/-- The path's own steps in a disk-buffered mode, and polls. -/
def OwnDrainStep (cfg : Config) (p : Path) (d : DrainSys) : DrainLabel → Prop
  | .poll _ => True
  | .mount l => CountKept d.sys l ∧ OwnStep p d.sys l ∧ Careful cfg p draining d.sys l

instance OwnDrainStep.decidable (cfg : Config) (p : Path) (d : DrainSys) :
    ∀ l, Decidable (OwnDrainStep cfg p d l)
  | .poll _ => isTrue trivial
  | .mount _ => inferInstanceAs (Decidable (_ ∧ _ ∧ _))

/-- A drain that starts on the mount that has just opened `a`. -/
def drainOpened (cfg : Config) : DrainSys := ⟨freshlyOpened cfg, fun _ ↦ false, .polling⟩

/-- A release of a dirty handle, from its start to its return. -/
def releaseOne : List Label := [.release 2 1 .ok, .fuse, .fuse, .fuse]

/-- The task at the front fails once and then lands. -/
def uploadRetried : List Label := [.recv, .dequeue 0, .attempt 0 (.failed false), .attempt 0 .ok]

/-- A write, its release, a failed and a successful attempt, and the poll that ends the drain. -/
theorem drain_sound_of_run_sample :
    ∃ d, GuardedRun (drainStep (.plain .writes)) (DrainObeys (.plain .writes) ['a'] 0)
        (drainOpened (.plain .writes)) d ∧ d.drain = .empty ∧
      d.sys.written ['a'] = some [7, 7] ∧
      (d.sys.fs.backend ['a'] = some [7, 7] ∨ d.gaveUp ['a'] = true) := by
  obtain ⟨d, hrun, hended, hzero, hcall, hreleased, hreceived, hw⟩ :=
    exists_guardedRun (drainStep (.plain .writes)) (OwnDrainStep (.plain .writes) ['a'])
      (fun d ↦ d.drain = .empty ∧ pendingWritebacks d.sys.fs = 0 ∧ d.sys.call.isIdle = true ∧
        (∀ e ∈ d.sys.fs.handles.entries, e.2.path = ['a'] → e.2.isDirty = false) ∧
        Received ['a'] d.sys.fs ∧ d.sys.written ['a'] = some [7, 7])
      ((writeTwo ++ releaseOne ++ uploadRetried).map .mount ++ ([.poll false] : List DrainLabel))
      (drainOpened (.plain .writes)) (by decide) (by decide)
  have hobeys : GuardedRun (drainStep (.plain .writes)) (DrainObeys (.plain .writes) ['a'] 0)
      (drainOpened (.plain .writes)) d := by
    refine hrun.mono (fun d l hown ↦ ?_)
    cases l with
    | poll late => trivial
    | mount l => exact ⟨hown.1, .inl hown.2⟩
  have hstart : DrainStart (.plain .writes) ['a'] 0 (drainOpened (.plain .writes)) :=
    ⟨Nat.zero_le _, freshPath_freshlyOpened _⟩
  exact ⟨d, hobeys, hended, hw,
    drain_sound_of_run rfl hstart hobeys hzero hcall hreleased hreceived _ hw⟩

/-- A write and its release hand a task to the channel, which the count does not see: the first
poll ends the drain, with nothing on the backend and nothing given up. -/
theorem drain_misses_channel :
    ∃ d, GuardedRun (drainStep (.plain .writes)) (OwnDrainStep (.plain .writes) ['a'])
        (drainOpened (.plain .writes)) d ∧ d.drain = .empty ∧ d.sys.call.isIdle = true ∧
      d.sys.fs.handles.entries = [] ∧ d.sys.written ['a'] = some [7, 7] ∧
      d.sys.fs.backend ['a'] = none ∧ d.gaveUp ['a'] = false :=
  exists_guardedRun (drainStep (.plain .writes)) (OwnDrainStep (.plain .writes) ['a'])
    (fun d ↦ d.drain = .empty ∧ d.sys.call.isIdle = true ∧ d.sys.fs.handles.entries = [] ∧
      d.sys.written ['a'] = some [7, 7] ∧ d.sys.fs.backend ['a'] = none ∧ d.gaveUp ['a'] = false)
    ((writeTwo ++ releaseOne).map .mount ++ ([.poll false] : List DrainLabel))
    (drainOpened (.plain .writes)) (by decide) (by decide)

end Mntrs

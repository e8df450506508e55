import Mntrs.Writeback.Protocol

/-!
# The writeback protocol of one path in off mode

In off mode the bytes of a path are in one shared buffer. Its write handles hold the buffer, and
`off_mode_buffers` registers it until an upload has put its bytes. Tasks carry a copy of the buffer,
or none when a write found a cache file that the disk-write pool left. An upload past its put
compares the registered buffer with the bytes it put and sends the buffer's if they differ
(`src/src/writeback.rs:808-860`). `OffModeStep` lists the moves; `OffModeSound` is what every run
keeps in which no write fills the buffer between that comparison and the end of the upload.
-/

namespace Mntrs

open Base

variable {rest : Multiset Upload} {object : Option Bytes} {u : Upload} {t : WritebackTask}

/-- The state of one path in off mode: its shared buffer, the registration of the buffer, the
backend object, the tasks on their way, the handles and the request in progress. `latest` is the
contents the last successful write left, from the moment they are in the buffer. -/
@[ext] structure OffModeView where
  data : Bytes
  dirty : Bool
  entry : Option BufId
  object : Option Bytes
  registered : Bool
  waiting : Multiset WritebackTask
  uploads : Multiset Upload
  handles : Fh → Option FileHandleState
  phase : Phase
  fd : Option FileId
  payload : Option Bytes
  latest : Option Bytes
  ready : Bool

/-- An upload past its comparison with the registered buffer. -/
def Upload.settling (u : Upload) : Bool :=
  match u.stage with
  | .removeBuffer | .clear => true
  | _ => false

theorem Upload.settling_of_attempting (h : u.attempting) : u.settling = false := by
  unfold Upload.attempting at h
  unfold Upload.settling
  split at h
  · next hstage => rw [hstage]
  · cases h

/-- A handle that writes go through has the shared buffer and no descriptor. -/
def OnBuffer (b : BufId) : FileHandleState → Prop
  | .read _ => True
  | .write h => h.inMemoryBuffer = some b ∧ h.writeBufferFd = none

namespace OffModeView

/-- Some handle has bytes that no flush or release has handed over. -/
def Dirty (v : OffModeView) : Prop := ∃ fh h, v.handles fh = some h ∧ h.isDirty = true

/-- Register the path and send a task, unless it is registered. -/
def enqueue (v : OffModeView) (t : WritebackTask) : OffModeView :=
  if v.registered then v
  else { v with registered := true, waiting := t ::ₘ v.waiting }

/-- A put of an upload may have reached the backend. -/
def putting (v : OffModeView) (u : Upload) (reached : Bool) : OffModeView :=
  { v with object := if reached then some u.data else v.object }

/-- The bytes of the buffer will be on the backend without another request: a task is on its way,
or they are there. -/
def Handed (v : OffModeView) : Prop := v.registered = true ∨ v.object = some v.data

end OffModeView

/-- The moves of one path whose shared buffer is `b`. -/
inductive OffModeStep (put : PutOutcome → Prop) (b : BufId) : OffModeView → OffModeView → Prop
  | stay (v : OffModeView) : OffModeStep put b v v
  | writeStart (v : OffModeView) (hphase : v.phase = .rest) :
      OffModeStep put b v { v with phase := .writing }
  | buffered (v : OffModeView) (fh : Fh) (h : WriteHandle) (w : Bytes) (hphase : v.phase = .writing)
      (hopen : v.handles fh = some (.write h)) (hbefore : ∀ u ∈ v.uploads, u.settling = false) :
      OffModeStep put b v
        { v with
          data := w
          dirty := true
          entry := some (v.entry.getD b)
          latest := some w
          phase := .written fh }
  | offered (v : OffModeView) (fh : Fh) (t : WritebackTask) (hphase : v.phase = .written fh)
      (hentry : v.entry ≠ none ∨ v.registered = true) : OffModeStep put b v (v.enqueue t)
  | finished (v : OffModeView) (fh : Fh) (h : WriteHandle) (hphase : v.phase = .written fh)
      (hbuffer : OnBuffer b (.write h)) (hdirty : h.dirty = true) :
      OffModeStep put b v
        { v with handles := Function.update v.handles fh (some (.write h)), phase := .rest }
  | syncStart (v : OffModeView) (hphase : v.phase = .rest) :
      OffModeStep put b v { v with phase := .syncing true, payload := some v.data }
  | marked (v : OffModeView) (hphase : v.phase = .syncing true) :
      OffModeStep put b v { v with phase := .marked true }
  | handedOver (v : OffModeView) (t : WritebackTask) (hphase : v.phase = .marked true)
      (ht : t.inMemoryPayload = v.payload) :
      OffModeStep put b v { v.enqueue t with phase := .synced, payload := none }
  | settled (v : OffModeView) (handles : Fh → Option FileHandleState) (hphase : v.phase = .synced)
      (hbuffer : ∀ fh h, handles fh = some h → OnBuffer b h) :
      OffModeStep put b v { v with handles := handles, phase := .rest }
  | released (v : OffModeView) (handles : Fh → Option FileHandleState) (hphase : v.phase = .rest)
      (hbuffer : ∀ fh h, handles fh = some h → OnBuffer b h)
      (hkept : ∀ fh h, v.handles fh = some h → h.isDirty = true → handles fh = some h) :
      OffModeStep put b v { v with handles := handles }
  | dequeued (v : OffModeView) (t : WritebackTask) (rest : Multiset WritebackTask) (c : Bytes)
      (ht : v.waiting = t ::ₘ rest) (hdata : ∀ w, t.inMemoryPayload = some w → c = w) :
      OffModeStep put b v
        { v with waiting := rest, uploads := ⟨t, c, .attempt 0⟩ ::ₘ v.uploads }
  | put (v : OffModeView) (u : Upload) (rest : Multiset Upload) (hu : v.uploads = u ::ₘ rest)
      (hstage : u.attempting = true) (hput : put .ok) :
      OffModeStep put b v
        { v with
          object := some u.data
          uploads := { u with stage := .removeSidecar } ::ₘ rest }
  | retried (v : OffModeView) (u : Upload) (rest : Multiset Upload) (reached : Bool) (k : Nat)
      (hu : v.uploads = u ::ₘ rest) (hstage : u.attempting = true) (hput : put (.failed reached)) :
      OffModeStep put b v
        { v.putting u reached with uploads := { u with stage := .attempt k } ::ₘ rest }
  | resent (v : OffModeView) (u : Upload) (rest : Multiset Upload) (reached : Bool)
      (t : WritebackTask) (hu : v.uploads = u ::ₘ rest) (hstage : u.attempting = true)
      (hput : put (.failed reached)) (ht : t.inMemoryPayload = u.task.inMemoryPayload) :
      OffModeStep put b v
        { v.putting u reached with uploads := rest, waiting := t ::ₘ v.waiting }
  | gaveUp (v : OffModeView) (u : Upload) (rest : Multiset Upload) (reached : Bool)
      (hu : v.uploads = u ::ₘ rest) (hstage : u.attempting = true) (hput : put (.failed reached)) :
      OffModeStep put b v { v.putting u reached with uploads := rest, registered := false }
  | passed (v : OffModeView) (u : Upload) (rest : Multiset Upload) (stage : UploadStage)
      (hu : v.uploads = u ::ₘ rest) (hpast : u.attempting = false) (hbefore : u.settling = false)
      (hstage : stage = .removeCache ∨ stage = .compare) :
      OffModeStep put b v { v with uploads := { u with stage := stage } ::ₘ rest }
  | moved (v : OffModeView) (u : Upload) (rest : Multiset Upload) (t : WritebackTask)
      (hu : v.uploads = u ::ₘ rest) (ht : t.inMemoryPayload = some v.data) :
      OffModeStep put b v { v with uploads := rest, waiting := t ::ₘ v.waiting }
  | matched (v : OffModeView) (u : Upload) (rest : Multiset Upload) (hu : v.uploads = u ::ₘ rest)
      (hstage : u.stage = .compare) (hsame : v.entry ≠ none → v.data = u.data) :
      OffModeStep put b v { v with uploads := { u with stage := .removeBuffer } ::ₘ rest }
  | entryDropped (v : OffModeView) (u : Upload) (rest : Multiset Upload)
      (hu : v.uploads = u ::ₘ rest) (hstage : u.stage = .removeBuffer) :
      OffModeStep put b v
        { v with entry := none, uploads := { u with stage := .clear } ::ₘ rest }
  | cleared (v : OffModeView) (u : Upload) (rest : Multiset Upload) (hu : v.uploads = u ::ₘ rest)
      (hstage : u.stage = .clear) :
      OffModeStep put b v { v with uploads := rest, registered := false }

/-! ### What every run keeps -/

/-- What holds of a path along every run: at most one task is on its way, and the path is
registered exactly while there is one. A task that does not carry the bytes of the buffer will meet
the registered buffer at its comparison, an upload past that comparison has put them, and they are
on the backend while the buffer is not registered. -/
structure OffModeSound (b : BufId) (v : OffModeView) : Prop where
  ready : v.ready = true
  fd : v.fd = none
  entry : v.entry = none ∨ v.entry = some b
  handles : ∀ fh h, v.handles fh = some h → OnBuffer b h
  handle : ∀ fh, v.phase = .written fh → ∃ h, v.handles fh = some (.write h)
  sync : ∀ due, v.phase = .syncing due ∨ v.phase = .marked due →
    due = true ∧ v.payload = some v.data
  one : v.waiting.card + v.uploads.card ≤ 1
  registered : v.registered = true ↔ v.waiting ≠ 0 ∨ v.uploads ≠ 0
  waiting : ∀ t ∈ v.waiting, v.entry = some b ∨ t.inMemoryPayload = some v.data
  covered : ∀ u ∈ v.uploads, u.settling = false →
    v.entry = some b ∨ (u.data = v.data ∧ u.task.inMemoryPayload = some v.data)
  settled : ∀ u ∈ v.uploads, u.settling = true → u.data = v.data
  landed : ∀ u ∈ v.uploads, u.attempting = false → v.object = some u.data
  latest : ∀ w, v.latest = some w → v.data = w ∧ v.dirty = true
  absent : ∀ w, v.latest = some w → v.entry = none → v.object = some w

namespace OffModeSound

variable {b : BufId} {v : OffModeView}

variable (h : OffModeSound b v)
include h

/-- An upload on its way is the only task. -/
theorem alone {u : Upload} {rest : Multiset Upload} (hu : v.uploads = u ::ₘ rest) :
    rest = 0 ∧ v.waiting = 0 := by
  have hone := h.one
  rw [hu, Multiset.card_cons] at hone
  exact ⟨Multiset.card_eq_zero.mp (by omega), Multiset.card_eq_zero.mp (by omega)⟩

/-- A waiting task is the only one. -/
theorem alone_waiting {rest : Multiset WritebackTask} (ht : v.waiting = t ::ₘ rest) :
    rest = 0 ∧ v.uploads = 0 := by
  have hone := h.one
  rw [ht, Multiset.card_cons] at hone
  exact ⟨Multiset.card_eq_zero.mp (by omega), Multiset.card_eq_zero.mp (by omega)⟩

/-- An unregistered path has no task. -/
theorem idle (hreg : v.registered = false) : v.waiting = 0 ∧ v.uploads = 0 := by
  have hnot : ¬ (v.waiting ≠ 0 ∨ v.uploads ≠ 0) := by
    rw [← h.registered, hreg]
    exact Bool.false_ne_true
  simpa [not_or] using hnot

/-- Handing a task over keeps one task at most, registered. -/
theorem enqueue (ht : v.registered = false → v.entry = some b ∨ t.inMemoryPayload = some v.data) :
    OffModeSound b (v.enqueue t) := by
  unfold OffModeView.enqueue
  split
  · exact h
  · next hreg =>
    have hreg' : v.registered = false := by simpa using hreg
    obtain ⟨hwaiting, huploads⟩ := h.idle hreg'
    exact { h with
      one := by simp [hwaiting, huploads]
      registered := by simp
      waiting := by simpa [hwaiting] using ht hreg' }

/-- The upload on its way goes on to another stage. What is left to show is about its bytes. -/
theorem advance (hu : v.uploads = u ::ₘ rest) (stage : UploadStage) {entry : Option BufId}
    (hentry : entry = none ∨ entry = some b)
    (hcovered : Upload.settling { u with stage   := stage } = false →
      entry = some b ∨ (u.data = v.data ∧ u.task.inMemoryPayload = some v.data))
    (hsettled : Upload.settling { u with stage := stage } = true → u.data = v.data)
    (hlanded : Upload.attempting { u with stage := stage } = false → object = some u.data)
    (habsent : ∀ w, v.latest = some w → entry = none → object = some w) :
    OffModeSound b
      { v with
        entry := entry
        object := object
        uploads := { u with stage := stage } ::ₘ rest } := by
  obtain ⟨rfl, hwaiting⟩ := h.alone hu
  have hreg := h.registered.mpr (.inr (by simp [hu]))
  have hmem : ∀ u₁ ∈ { u with stage := stage } ::ₘ (0 : Multiset Upload),
      u₁ = { u with stage := stage } := by simp
  refine { h with
    entry := hentry
    one := by simp [hwaiting]
    registered := by simp [hreg]
    waiting := by simp [hwaiting]
    covered := fun u₁ hu₁ ↦ ?_
    settled := fun u₁ hu₁ ↦ ?_
    landed := fun u₁ hu₁ ↦ ?_
    absent := habsent }
  · rw [hmem u₁ hu₁]
    exact hcovered
  · rw [hmem u₁ hu₁]
    exact hsettled
  · rw [hmem u₁ hu₁]
    exact hlanded

/-- What an upload still putting puts is the buffer's if nothing else would show the buffer. -/
theorem absent_putting (hu : v.uploads = u ::ₘ rest) (hstage : u.attempting) {w : Bytes}
    (hw : v.latest = some w) (hnone : v.entry = none) : u.data = w := by
  rcases h.covered u (by simp [hu]) (Upload.settling_of_attempting hstage) with hentry | ⟨hdata, -⟩
  · rw [hnone] at hentry
    cases hentry
  · rw [hdata, (h.latest w hw).1]

/-- A put of the upload on its way that may have reached the backend leaves the latest contents
there while the buffer is not registered. -/
theorem absent_reached (hu : v.uploads = u ::ₘ rest) (hstage : u.attempting) (reached : Bool) :
    ∀ w, v.latest = some w → v.entry = none →
      (if reached then some u.data else v.object) = some w := by
  intro w hw hnone
  split
  · rw [h.absent_putting hu hstage hw hnone]
  · exact h.absent w hw hnone

/-- The upload on its way ends. -/
theorem retire (hu : v.uploads = u ::ₘ rest)
    (habsent : ∀ w, v.latest = some w → v.entry = none → object = some w) :
    OffModeSound b { v with object := object, uploads := rest, registered := false } := by
  obtain ⟨rfl, hwaiting⟩ := h.alone hu
  exact { h with
    one := by simp [hwaiting]
    registered := by simp [hwaiting]
    covered := by simp
    settled := by simp
    landed := by simp
    absent := habsent }

/-- The upload on its way ends and a task is sent in its place. -/
theorem resend (hu : v.uploads = u ::ₘ rest)
    (ht : v.entry = some b ∨ t.inMemoryPayload = some v.data)
    (habsent : ∀ w, v.latest = some w → v.entry = none → object = some w) :
    OffModeSound b { v with object := object, uploads := rest, waiting := t ::ₘ v.waiting } := by
  obtain ⟨rfl, hwaiting⟩ := h.alone hu
  have hreg := h.registered.mpr (.inr (by simp [hu]))
  exact { h with
    one := by simp [hwaiting]
    registered := by simp [hreg]
    waiting := by simpa [hwaiting] using ht
    covered := by simp
    settled := by simp
    landed := by simp
    absent := habsent }

/-- A write fills the buffer while no upload is past its comparison. -/
theorem fill {fh : Fh} {wh : WriteHandle} {w : Bytes} (hopen : v.handles fh = some (.write wh))
    (hbefore : ∀ u ∈ v.uploads, u.settling = false) :
    OffModeSound b
      { v with
        data := w
        dirty := true
        entry := some (v.entry.getD b)
        latest := some w
        phase := .written fh } := by
  have hentry : v.entry.getD b = b := by
    rcases h.entry with hnone | hsome
    · rw [hnone, Option.getD_none]
    · rw [hsome, Option.getD_some]
  refine { h with
    entry := .inr (by rw [hentry])
    handle := fun fh' hfh ↦ ?_
    sync := by simp
    waiting := fun _ _ ↦ .inl (by rw [hentry])
    covered := fun _ _ _ ↦ .inl (by rw [hentry])
    settled := fun u hu hsettling ↦ ?_
    latest := fun w' hw ↦ ⟨Option.some.inj hw, rfl⟩
    absent := by simp }
  · cases hfh
    exact ⟨wh, hopen⟩
  · rw [hbefore u hu] at hsettling
    cases hsettling

/-- One move keeps soundness. -/
theorem step {put : PutOutcome → Prop} {v' : OffModeView} (hstep : OffModeStep put b v v') :
    OffModeSound b v' := by
  cases hstep with
  | stay => exact h
  | writeStart hphase | syncStart hphase => exact { h with handle := by simp, sync := by simp }
  | buffered fh wh w hphase hopen hbefore => exact h.fill hopen hbefore
  | offered fh t hphase hentry =>
    refine h.enqueue (fun hreg ↦ .inl (h.entry.resolve_left ?_))
    exact hentry.resolve_right (by simp [hreg])
  | finished fh wh hphase hbuffer hdirty =>
    refine { h with handles := fun fh' hh hlookup ↦ ?_, handle := by simp, sync := by simp }
    by_cases hfh : fh' = fh
    · subst hfh
      simp only [Function.update_self, Option.some.injEq] at hlookup
      exact hlookup ▸ hbuffer
    · simp only [Function.update_of_ne hfh] at hlookup
      exact h.handles fh' hh hlookup
  | marked hphase =>
    have hpayload := (h.sync true (.inl hphase)).2
    exact { h with handle := by simp, sync := by simp [hpayload] }
  | handedOver t hphase ht =>
    have hpayload := (h.sync true (.inr hphase)).2
    have hsent : OffModeSound b (v.enqueue t) := h.enqueue (fun _ ↦ .inr (ht.trans hpayload))
    exact { hsent with handle := by simp, sync := by simp }
  | settled handles hphase hbuffer =>
    exact { h with handles := hbuffer, handle := by simp, sync := by simp }
  | released handles hphase hbuffer hkept =>
    exact { h with handles := hbuffer, handle := by simp [hphase] }
  | dequeued t rest c ht hdata =>
    obtain ⟨rfl, huploads⟩ := h.alone_waiting ht
    have hreg := h.registered.mpr (.inl (by simp [ht]))
    have htask := h.waiting t (by simp [ht])
    refine { h with
      one := by simp [huploads]
      registered := by simp [hreg]
      waiting := by simp
      covered := ?_
      settled := by simp [huploads, Upload.settling]
      landed := by simp [huploads, Upload.attempting] }
    intro u hu _
    rw [huploads, Multiset.mem_cons] at hu
    obtain rfl := hu.resolve_right (Multiset.notMem_zero u)
    exact htask.imp id (fun hpayload ↦ ⟨hdata _ hpayload, hpayload⟩)
  | put u rest hu hstage hput =>
    have hbefore := Upload.settling_of_attempting hstage
    refine h.advance hu .removeSidecar h.entry (fun _ ↦ h.covered u (by simp [hu]) hbefore)
      (by simp [Upload.settling]) (fun _ ↦ rfl) (fun w hw hnone ↦ ?_)
    rw [h.absent_putting hu hstage hw hnone]
  | retried u rest reached k hu hstage hput =>
    have hbefore := Upload.settling_of_attempting hstage
    exact h.advance hu (.attempt k) h.entry (fun _ ↦ h.covered u (by simp [hu]) hbefore)
      (by simp [Upload.settling]) (by simp [Upload.attempting])
      (h.absent_reached hu hstage reached)
  | resent u rest reached t hu hstage hput ht =>
    have hbefore := Upload.settling_of_attempting hstage
    refine h.resend hu ?_ (h.absent_reached hu hstage reached)
    exact (h.covered u (by simp [hu]) hbefore).imp id (fun hsame ↦ ht.trans hsame.2)
  | gaveUp u rest reached hu hstage hput =>
    exact h.retire hu (h.absent_reached hu hstage reached)
  | passed u rest stage hu hpast hbefore hstage =>
    have hobject := h.landed u (by simp [hu]) hpast
    refine h.advance hu stage h.entry (fun _ ↦ h.covered u (by simp [hu]) hbefore) ?_
      (fun _ ↦ hobject) h.absent
    rcases hstage with rfl | rfl <;> simp [Upload.settling]
  | moved u rest t hu ht => exact h.resend hu (.inr ht) h.absent
  | matched u rest hu hstage hsame =>
    have hobject := h.landed u (by simp [hu]) (by simp [Upload.attempting, hstage])
    refine h.advance hu .removeBuffer h.entry (by simp [Upload.settling]) (fun _ ↦ ?_)
      (fun _ ↦ hobject) h.absent
    rcases h.covered u (by simp [hu]) (by simp [Upload.settling, hstage]) with hentry | ⟨hdata, -⟩
    · exact (hsame (by simp [hentry])).symm
    · exact hdata
  | entryDropped u rest hu hstage =>
    have hobject := h.landed u (by simp [hu]) (by simp [Upload.attempting, hstage])
    have hdata := h.settled u (by simp [hu]) (by simp [Upload.settling, hstage])
    refine h.advance hu .clear (.inl rfl) (by simp [Upload.settling]) (fun _ ↦ hdata)
      (fun _ ↦ hobject) (fun w hw _ ↦ ?_)
    rw [hobject, hdata, (h.latest w hw).1]
  | cleared u rest hu hstage => exact h.retire hu h.absent

end OffModeSound

end Mntrs

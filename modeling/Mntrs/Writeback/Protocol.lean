import Mntrs.Writeback.Worker

/-!
# The writeback protocol of one path

What the requests on one path, its writeback tasks and its uploads do to each other, without
the rest of the mount: the cache file and its sidecar, the backend object, the registration in
the dedup set, the tasks on their way, the handles, and where the request in progress stands.
`PathStep` lists the moves. A `Discipline` says under which conditions the moves that the source
leaves unprotected may be made; `Sound` is what every disciplined run keeps.
-/

namespace Mntrs

open Base

variable {rest : Multiset Upload} {object : Option Bytes} {u : Upload} {t : WritebackTask}

/-- Where the request in progress on the path stands. A flush or release is `syncing` before its
sidecar step, `marked` before its hand-over and `synced` before the handle becomes clean; `due`
is whether it found the cache file. -/
inductive Phase where
  | rest
  | writing
  | written (fh : Fh)
  | syncing (due : Bool)
  | marked (due : Bool)
  | synced
deriving DecidableEq, Repr

/-- The state of one path. `latest` is the contents the last successful write left, from the
moment they are in the cache file. -/
@[ext] structure PathView where
  bytes : Option Bytes
  sidecar : Option Path
  object : Option Bytes
  registered : Bool
  waiting : Multiset WritebackTask
  uploads : Multiset Upload
  handles : Fh → Option FileHandleState
  phase : Phase
  payload : Option Bytes
  latest : Option Bytes
  ready : Bool
  offMode : Option BufId

/-- A task that uploads the cache file of the path. -/
structure TaskFor (n : CacheName) (t : WritebackTask) : Prop where
  payload : t.inMemoryPayload = none
  name : t.writeBufferPath = n

namespace PathView

/-- Some handle has bytes that no flush or release has handed over. -/
def Dirty (v : PathView) : Prop := ∃ fh h, v.handles fh = some h ∧ h.isDirty = true

/-- Register the path and send a task, unless it is registered. -/
def enqueue (v : PathView) (t : WritebackTask) : PathView :=
  if v.registered then v
  else { v with registered := true, waiting := t ::ₘ v.waiting }

/-- A put of an upload may have reached the backend. -/
def putting (v : PathView) (u : Upload) (reached : Bool) : PathView :=
  { v with object := if reached then some u.data else v.object }

end PathView

/-- Conditions on the unprotected moves: the sidecar write, the hand-over, a put, and the
removal of the sidecar by an upload. -/
structure Discipline where
  mark : Bool → Prop
  handOver : PathView → Prop
  put : PutOutcome → Prop
  dropSidecar : PathView → Upload → Prop

/-- An upload may remove the cache file if the file holds the bytes it uploaded. -/
def SafeToDrop (v : PathView) (u : Upload) : Prop :=
  u.task.deleteCacheOnSuccess = true → v.bytes = none ∨ v.bytes = some u.data

/-- The moves of one path. -/
inductive PathStep (d : Discipline) (p : Path) (n : CacheName) : PathView → PathView → Prop
  | stay (v : PathView) : PathStep d p n v v
  | writeStart (v : PathView) (hphase : v.phase = .rest) :
      PathStep d p n v { v with phase := .writing }
  | writeFailed (v : PathView) (hphase : v.phase = .writing) :
      PathStep d p n v { v with phase := .rest }
  | buffered (v : PathView) (fh : Fh) (h : WriteHandle) (w : Bytes) (hphase : v.phase = .writing)
      (hopen : v.handles fh = some (.write h)) (hlinked : v.bytes ≠ none) :
      PathStep d p n v { v with bytes := some w, latest := some w, phase := .written fh }
  | offered (v : PathView) (fh : Fh) (t : WritebackTask) (hphase : v.phase = .written fh)
      (ht : TaskFor n t) : PathStep d p n v (v.enqueue t)
  | finished (v : PathView) (fh : Fh) (h : WriteHandle) (hphase : v.phase = .written fh)
      (hdirty : h.dirty = true) :
      PathStep d p n v
        { v with handles := Function.update v.handles fh (some (.write h)), phase := .rest }
  | syncStart (v : PathView) (due : Bool) (hphase : v.phase = .rest)
      (hdue : due = false → v.bytes = none) :
      PathStep d p n v { v with phase := .syncing due }
  | marked (v : PathView) (due failed : Bool) (hphase : v.phase = .syncing due)
      (hmark : d.mark failed) :
      PathStep d p n v
        { v with
          sidecar := if due && !failed then some p else v.sidecar
          phase := .marked due }
  | handedOver (v : PathView) (due sends : Bool) (t : WritebackTask)
      (hphase : v.phase = .marked due)
      (hover : d.handOver v) (hsends : sends = false → v.bytes = none) (ht : TaskFor n t) :
      PathStep d p n v { (if sends then v.enqueue t else v) with phase := .synced }
  | settled (v : PathView) (handles : Fh → Option FileHandleState) (hphase : v.phase = .synced) :
      PathStep d p n v { v with handles := handles, phase := .rest }
  | released (v : PathView) (handles : Fh → Option FileHandleState) (hphase : v.phase = .rest)
      (hkept : ∀ fh h, v.handles fh = some h → h.isDirty = true → handles fh = some h) :
      PathStep d p n v { v with handles := handles }
  | dequeued (v : PathView) (t : WritebackTask) (rest : Multiset WritebackTask) (c : Bytes)
      (ht : v.waiting = t ::ₘ rest) (hbytes : v.bytes = some c) :
      PathStep d p n v
        { v with waiting := rest, uploads := ⟨t, c, .attempt 0⟩ ::ₘ v.uploads }
  | vanished (v : PathView) (t : WritebackTask) (rest : Multiset WritebackTask)
      (ht : v.waiting = t ::ₘ rest) (hbytes : v.bytes = none) :
      PathStep d p n v { v with waiting := rest, sidecar := none }
  | put (v : PathView) (u : Upload) (rest : Multiset Upload) (hu : v.uploads = u ::ₘ rest)
      (hstage : u.attempting = true) (hput : d.put .ok) :
      PathStep d p n v
        { v with
          object := some u.data
          uploads := { u with stage := .removeSidecar } ::ₘ rest }
  | retried (v : PathView) (u : Upload) (rest : Multiset Upload) (reached : Bool) (k : Nat)
      (hu : v.uploads = u ::ₘ rest) (hstage : u.attempting = true)
      (hput : d.put (.failed reached)) :
      PathStep d p n v
        { v.putting u reached with uploads := { u with stage := .attempt k } ::ₘ rest }
  | resent (v : PathView) (u : Upload) (rest : Multiset Upload) (reached : Bool)
      (t : WritebackTask) (hu : v.uploads = u ::ₘ rest) (hstage : u.attempting = true)
      (hput : d.put (.failed reached)) (ht : TaskFor n t) :
      PathStep d p n v
        { v.putting u reached with uploads := rest, waiting := t ::ₘ v.waiting }
  | gaveUp (v : PathView) (u : Upload) (rest : Multiset Upload) (reached : Bool)
      (hu : v.uploads = u ::ₘ rest) (hstage : u.attempting = true)
      (hput : d.put (.failed reached)) :
      PathStep d p n v { v.putting u reached with uploads := rest, registered := false }
  | sidecarDropped (v : PathView) (u : Upload) (rest : Multiset Upload)
      (hu : v.uploads = u ::ₘ rest) (hstage : u.stage = .removeSidecar)
      (hdrop : d.dropSidecar v u) :
      PathStep d p n v
        { v with sidecar := none, uploads := { u with stage := .removeCache } ::ₘ rest }
  | cacheDropped (v : PathView) (u : Upload) (rest : Multiset Upload)
      (hu : v.uploads = u ::ₘ rest) (hstage : u.stage = .removeCache) (hdrop : SafeToDrop v u) :
      PathStep d p n v
        { v with
          bytes := if u.task.deleteCacheOnSuccess then none else v.bytes
          uploads := { u with stage := .compare } ::ₘ rest }
  | compared (v : PathView) (u : Upload) (rest : Multiset Upload) (hu : v.uploads = u ::ₘ rest)
      (hstage : u.stage = .compare) :
      PathStep d p n v { v with uploads := { u with stage := .removeBuffer } ::ₘ rest }
  | bufferDropped (v : PathView) (u : Upload) (rest : Multiset Upload)
      (hu : v.uploads = u ::ₘ rest) (hstage : u.stage = .removeBuffer) :
      PathStep d p n v { v with uploads := { u with stage := .clear } ::ₘ rest }
  | cleared (v : PathView) (u : Upload) (rest : Multiset Upload) (hu : v.uploads = u ::ₘ rest)
      (hstage : u.stage = .clear) :
      PathStep d p n v { v with uploads := rest, registered := false }

/-! ### What every run keeps -/

/-- What holds of a path along every disciplined run: at most one task is on its way and it is
registered, uploads past their put are the backend's object, and the latest contents are in the
cache file or, once that is gone, on the backend. -/
structure Sound (n : CacheName) (v : PathView) : Prop where
  ready : v.ready = true
  offMode : v.offMode = none
  payload : v.payload = none
  waiting : ∀ t ∈ v.waiting, TaskFor n t
  uploads : ∀ u ∈ v.uploads, TaskFor n u.task
  handle : ∀ fh, v.phase = .written fh → ∃ h, v.handles fh = some (.write h)
  due : v.phase = .syncing false ∨ v.phase = .marked false → v.bytes = none
  one : v.waiting.card + v.uploads.card ≤ 1
  registered : v.waiting ≠ 0 ∨ v.uploads ≠ 0 → v.registered = true
  task : v.registered = true → v.waiting ≠ 0 ∨ v.uploads ≠ 0 ∨ v.bytes = none
  landed : ∀ u ∈ v.uploads, u.attempting = false → v.object = some u.data
  current : ∀ w, v.latest = some w → v.bytes = some w ∨
    (v.bytes = none ∧ v.object = some w ∧ ∀ u ∈ v.uploads, u.attempting = false)

namespace Sound

variable {n : CacheName} {v : PathView} (h : Sound n v)
include h

/-- An upload on its way is the only task. -/
theorem alone {u : Upload} {rest : Multiset Upload} (hu : v.uploads = u ::ₘ rest) :
    rest = 0 ∧ v.waiting = 0 := by
  have hone := h.one
  rw [hu, Multiset.card_cons] at hone
  exact ⟨Multiset.card_eq_zero.mp (by omega), Multiset.card_eq_zero.mp (by omega)⟩

/-- A waiting task is the only one. -/
theorem alone_waiting {rest : Multiset WritebackTask} (ht : v.waiting = t ::ₘ rest) :
    rest = 0 ∧ v.uploads = 0 := by
  have hone := h.one
  rw [ht, Multiset.card_cons] at hone
  exact ⟨Multiset.card_eq_zero.mp (by omega), Multiset.card_eq_zero.mp (by omega)⟩

/-- An unregistered path has no task. -/
theorem idle (hreg : v.registered = false) : v.waiting = 0 ∧ v.uploads = 0 := by
  have hnot : ¬ (v.waiting ≠ 0 ∨ v.uploads ≠ 0) := by
    intro htask
    rw [h.registered htask] at hreg
    cases hreg
  simpa [not_or] using hnot

/-- Handing a task over keeps one task at most, registered. -/
theorem enqueue (ht : TaskFor n t) : Sound n (v.enqueue t) := by
  unfold PathView.enqueue
  split
  · exact h
  · next hreg =>
    obtain ⟨hwaiting, huploads⟩ := h.idle (by simpa using hreg)
    refine { h with
      waiting := ?_
      one := ?_
      registered := fun _ ↦ rfl
      task := fun _ ↦ .inl (Multiset.cons_ne_zero) }
    · intro t' ht'
      rw [hwaiting, Multiset.mem_cons] at ht'
      rcases ht' with rfl | hnone
      · exact ht
      · exact absurd hnone (Multiset.notMem_zero t')
    · simp [hwaiting, huploads]

/-- The upload on its way goes on to another stage. What is left to show is about its bytes. -/
theorem advance (hu : v.uploads = u ::ₘ rest) (stage : UploadStage)
    {bytes : Option Bytes} {sidecar : Option Path} (hdue : v.bytes = none → bytes = none)
    (hlanded : Upload.attempting { u with stage   := stage } = false → object = some u.data)
    (hcurrent : ∀ w, v.latest = some w → bytes = some w ∨
      (bytes = none ∧ object = some w ∧ Upload.attempting { u with stage := stage } = false)) :
    Sound n
      { v with
        bytes := bytes
        sidecar := sidecar
        object := object
        uploads := { u with stage := stage } ::ₘ rest } := by
  obtain ⟨rfl, hwaiting⟩ := h.alone hu
  have hmem : ∀ u₁ ∈ { u with stage := stage } ::ₘ (0 : Multiset Upload),
      u₁ = { u with stage := stage } := by simp
  refine { h with
    uploads := fun u₁ hu₁ ↦ ?_
    due := fun hphase ↦ hdue (h.due hphase)
    one := by simp [hwaiting]
    registered := fun _ ↦ h.registered (.inr (by simp [hu]))
    task := fun _ ↦ .inr (.inl (by simp))
    landed := fun u₁ hu₁ hpast ↦ ?_
    current := fun w hw ↦ ?_ }
  · rw [hmem u₁ hu₁]
    exact h.uploads u (by simp [hu])
  · rw [hmem u₁ hu₁] at hpast ⊢
    exact hlanded hpast
  · refine (hcurrent w hw).imp id (fun hgone ↦ ⟨hgone.1, hgone.2.1, fun u₁ hu₁ ↦ ?_⟩)
    rw [hmem u₁ hu₁]
    exact hgone.2.2

theorem bytes_of_attempting (hu : v.uploads = u ::ₘ rest)
    (hstage : u.attempting) {w : Bytes} (hw : v.latest = some w) : v.bytes = some w := by
  rcases h.current w hw with hbytes | ⟨-, -, hnone⟩
  · exact hbytes
  · rw [hnone u (by simp [hu])] at hstage
    cases hstage

/-- The upload on its way ends. -/
theorem retire (hu : v.uploads = u ::ₘ rest)
    (hcurrent : ∀ w, v.latest = some w → v.bytes = some w ∨ (v.bytes = none ∧ object = some w)) :
    Sound n { v with object := object, uploads := rest, registered := false } := by
  obtain ⟨rfl, hwaiting⟩ := h.alone hu
  exact { h with
    uploads := by simp
    one := by simp [hwaiting]
    registered := by simp [hwaiting]
    task := by simp
    landed := by simp
    current := fun w hw ↦ (hcurrent w hw).imp id (fun hgone ↦ ⟨hgone.1, hgone.2, by simp⟩) }

/-- The upload on its way ends and its task is sent again. -/
theorem resend (hu : v.uploads = u ::ₘ rest) (hstage : u.attempting)
    (ht : TaskFor n t) :
    Sound n { v with object := object, uploads := rest, waiting := t ::ₘ v.waiting } := by
  obtain ⟨rfl, hwaiting⟩ := h.alone hu
  exact { h with
    waiting := by simpa [hwaiting] using ht
    uploads := by simp
    one := by simp [hwaiting]
    registered := fun _ ↦ h.registered (.inr (by simp [hu]))
    task := fun _ ↦ .inl (by simp)
    landed := by simp
    current := fun w hw ↦ .inl (h.bytes_of_attempting hu hstage hw) }

/-- One move keeps soundness. -/
theorem step {d : Discipline} {p : Path} {v' : PathView} (hstep : PathStep d p n v v') :
    Sound n v' := by
  cases hstep with
  | stay => exact h
  | writeStart hphase | writeFailed hphase | finished fh wh hphase hdirty =>
    exact { h with handle := by simp, due := by simp }
  | buffered fh w wh hphase hopen hlinked =>
    exact { h with
      handle := fun fh' hfh ↦ by
        cases hfh
        exact ⟨_, hopen⟩
      due := by simp
      task := fun hreg ↦ (h.task hreg).imp id (fun htask ↦ htask.imp id (absurd · hlinked))
      current := fun w' hw ↦ .inl hw }
  | offered fh t hphase ht => exact h.enqueue ht
  | syncStart due hphase hdue =>
    exact { h with
      handle := by simp
      due := fun hphase ↦ hdue (by simpa using hphase) }
  | marked due failed hphase hmark =>
    refine { h with handle := by simp, due := fun hphase' ↦ h.due (.inl ?_) }
    simpa [hphase] using hphase'
  | handedOver due sends t hphase hover hsends ht =>
    have hsent : Sound n (if sends then v.enqueue t else v) := by
      split
      · exact h.enqueue ht
      · exact h
    exact { hsent with handle := by simp, due := by simp }
  | settled handles hphase => exact { h with handle := by simp, due := by simp }
  | released handles hphase hkept => exact { h with handle := by simp [hphase] }
  | dequeued t rest c ht hbytes =>
    obtain ⟨rfl, huploads⟩ := h.alone_waiting ht
    refine { h with
      waiting := by simp
      uploads := ?_
      one := by simp [huploads]
      registered := fun _ ↦ h.registered (.inl (by simp [ht]))
      task := fun _ ↦ .inr (.inl (by simp))
      landed := by simp [huploads, Upload.attempting]
      current := fun w hw ↦ .inl ?_ }
    · simpa [huploads] using h.waiting t (by simp [ht])
    · rcases h.current w hw with hcur | ⟨hnone, -⟩
      · exact hcur
      · rw [hnone] at hbytes
        cases hbytes
  | vanished t rest ht hbytes =>
    obtain ⟨rfl, huploads⟩ := h.alone_waiting ht
    exact { h with
      waiting := by simp
      one := by simp [huploads]
      registered := by simp [huploads]
      task := fun _ ↦ .inr (.inr hbytes) }
  | put u rest hu hstage hput =>
    exact h.advance hu _ id (fun _ ↦ rfl)
      (fun w hw ↦ .inl (h.bytes_of_attempting hu hstage hw))
  | retried u rest reached k hu hstage hput =>
    exact h.advance hu (.attempt k) id (by simp [Upload.attempting])
      (fun w hw ↦ .inl (h.bytes_of_attempting hu hstage hw))
  | resent u rest reached t hu hstage hput ht =>
    exact h.resend hu hstage ht
  | gaveUp u rest reached hu hstage hput =>
    exact h.retire hu (fun w hw ↦ .inl (h.bytes_of_attempting hu hstage hw))
  | sidecarDropped u rest hu hstage | compared u rest hu hstage | bufferDropped u rest hu hstage =>
    have hpast : u.attempting = false := by simp [Upload.attempting, hstage]
    refine h.advance hu _ id (fun _ ↦ h.landed u (by simp [hu]) hpast) (fun w hw ↦ ?_)
    exact (h.current w hw).imp id (fun hgone ↦ ⟨hgone.1, hgone.2.1, rfl⟩)
  | cacheDropped u rest hu hstage hdrop =>
    have hpast : u.attempting = false := by simp [Upload.attempting, hstage]
    have hobject := h.landed u (by simp [hu]) hpast
    refine h.advance hu _ ?_ (fun _ ↦ hobject) (fun w hw ↦ ?_)
    · intro hnone
      simp [hnone]
    · rcases h.current w hw with hcur | ⟨hnone, hobj, -⟩
      · by_cases hdel : u.task.deleteCacheOnSuccess = true
        · -- the file that goes holds the bytes the upload has put
          have hsame : v.bytes = some u.data := by
            rcases hdrop hdel with hnone | hsame
            · rw [hnone] at hcur
              cases hcur
            · exact hsame
          have hwu : w = u.data := Option.some.inj (hcur.symm.trans hsame)
          exact .inr ⟨by simp [hdel], by rw [hobject, hwu], rfl⟩
        · exact .inl (by simp [hdel, hcur])
      · exact .inr ⟨by simp [hnone], hobj, rfl⟩
  | cleared u rest hu hstage =>
    exact h.retire hu (fun w hw ↦ (h.current w hw).imp id (fun hgone ↦ ⟨hgone.1, hgone.2.1⟩))

end Sound

end Mntrs

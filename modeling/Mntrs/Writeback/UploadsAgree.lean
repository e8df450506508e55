import Mntrs.Writeback.Protocol
import Mntrs.Writeback.QueueEffect

/-!
# Paths whose uploads agree

An upload of a path takes its bytes from the cache file, from a payload, or from the registered
off-mode buffer. Where all of them have the bytes of the object, the writeback worker leaves the
object as it is, whatever it does and in whatever order.
-/

namespace Mntrs

open Base

/-- The bytes of the off-mode buffer that is registered for a path. -/
def registeredBytes (fs : MntrsFs) (p : Path) : Option Bytes :=
  (fs.offModeBuffers p).map (fun b ↦ (fs.buffers b).data)

/-- The task uploads the given bytes, or the cache file of the given name. -/
def WritebackTask.Brings (n : CacheName) (w : Bytes) (t : WritebackTask) : Prop :=
  t.inMemoryPayload = some w ∨ t.inMemoryPayload = none ∧ t.writeBufferPath = n

instance (n : CacheName) (w : Bytes) (t : WritebackTask) : Decidable (t.Brings n w) :=
  inferInstanceAs (Decidable (_ ∨ _))

/-- The tasks and uploads of a path bring the given bytes. -/
def QueueBrings (p : Path) (n : CacheName) (w : Bytes) : WritebackQueue → Prop :=
  DedupQueue.Holds (fun t ↦ t.remotePath = p → t.Brings n w)
    (fun u ↦ u.task.remotePath = p → u.attempting = true → u.data = w ∧ u.task.Brings n w)

/-- The object of a path has the given bytes, and so has everything an upload of the path can
take bytes from. -/
structure UploadsAgree (cfg : Config) (p : Path) (w : Bytes) (fs : MntrsFs) : Prop where
  object : fs.backend p = some w
  cache : ∀ c, fs.cacheFile cfg p = some c → c = w
  buffer : ∀ c, registeredBytes fs p = some c → c = w
  queue : QueueBrings p (cfg.writeBufferPath p) w fs.writeback

/-- Nothing new is there for a path: its object is the same, a cache file and a registered buffer
have the bytes they had, and no task or upload was added. -/
structure Untouched (cfg : Config) (p : Path) (fs fs' : MntrsFs) : Prop where
  object : fs'.backend p = fs.backend p
  cache : fs'.cacheFile cfg p = none ∨ fs'.cacheFile cfg p = fs.cacheFile cfg p
  buffer : registeredBytes fs' p = none ∨ registeredBytes fs' p = registeredBytes fs p
  waiting : ∀ t ∈ fs'.writeback.chan ++ fs'.writeback.queue, t.remotePath = p →
    t ∈ fs.writeback.chan ++ fs.writeback.queue
  running : ∀ u ∈ fs'.writeback.running, u.task.remotePath = p → u ∈ fs.writeback.running

instance (cfg : Config) (p : Path) (fs fs' : MntrsFs) : Decidable (Untouched cfg p fs fs') :=
  decidable_of_iff
    (fs'.backend p = fs.backend p ∧
      (fs'.cacheFile cfg p = none ∨ fs'.cacheFile cfg p = fs.cacheFile cfg p) ∧
      (registeredBytes fs' p = none ∨ registeredBytes fs' p = registeredBytes fs p) ∧
      (∀ t ∈ fs'.writeback.chan ++ fs'.writeback.queue, t.remotePath = p →
        t ∈ fs.writeback.chan ++ fs.writeback.queue) ∧
      ∀ u ∈ fs'.writeback.running, u.task.remotePath = p → u ∈ fs.writeback.running)
    ⟨fun ⟨h₁, h₂, h₃, h₄, h₅⟩ ↦ ⟨h₁, h₂, h₃, h₄, h₅⟩,
      fun ⟨h₁, h₂, h₃, h₄, h₅⟩ ↦ ⟨h₁, h₂, h₃, h₄, h₅⟩⟩

/-- The steps of the writeback worker. -/
def Label.isWriteback : Label → Bool
  | .recv | .dequeue _ | .attempt .. | .upload _ | .dropBlocks => true
  | _ => false

/-- A step of the writeback worker, or one of another party that touches nothing of a path. -/
def LeavesPath (cfg : Config) (p : Path) (s : Sys) (l : Label) : Prop :=
  l.isWriteback = true ∨ ∀ t ∈ step cfg l s, Untouched cfg p s.fs t.fs

instance (cfg : Config) (p : Path) (s : Sys) (l : Label) : Decidable (LeavesPath cfg p s l) :=
  inferInstanceAs (Decidable (_ ∨ _))

/-! ### The steps of the worker -/

variable {i : Nat}

section

variable {cfg : Config} {p : Path} {w : Bytes} {fs fs' : MntrsFs}

section

variable (h : UploadsAgree cfg p w fs)
include h

theorem UploadsAgree.of_untouched (hsame : Untouched cfg p fs fs') : UploadsAgree cfg p w fs' where
  object := hsame.object.trans h.object
  cache c hc := by
    rcases hsame.cache with hnone | heq
    · rw [hnone] at hc
      cases hc
    · exact h.cache c (heq ▸ hc)
  buffer c hc := by
    rcases hsame.buffer with hnone | heq
    · rw [hnone] at hc
      cases hc
    · exact h.buffer c (heq ▸ hc)
  queue := {
    waiting := fun t ht hp ↦ h.queue.waiting t (hsame.waiting t ht hp) hp
    running := fun u hu hp ↦ h.queue.running u (hsame.running u hu hp) hp }

/-- A step that leaves the buffers alone and loses at most the cache file needs to keep the
object and the queue. -/
private theorem UploadsAgree.of_kept (hobject : fs'.backend p = some w)
    (hwhole : ∀ n, fs'.disk.whole n = none ∨ fs'.disk.whole n = fs.disk.whole n)
    (hdata : fs'.disk.data = fs.disk.data)
    (hregistered : fs'.offModeBuffers p = none ∨ fs'.offModeBuffers p = fs.offModeBuffers p)
    (hbuffers : fs'.buffers = fs.buffers)
    (hqueue : QueueBrings p (cfg.writeBufferPath p) w fs'.writeback) :
    UploadsAgree cfg p w fs' where
  object := hobject
  cache c hc := by
    rcases hwhole (cfg.writeBufferPath p) with hnone | heq
    · simp [MntrsFs.cacheFile, Disk.read, hnone] at hc
    · rw [MntrsFs.cacheFile, Disk.read, heq, hdata] at hc
      exact h.cache c hc
  buffer c hc := by
    rcases hregistered with hnone | heq
    · simp [registeredBytes, hnone] at hc
    · rw [registeredBytes, heq, hbuffers] at hc
      exact h.buffer c hc
  queue := hqueue

private theorem UploadsAgree.taskData {t : WritebackTask}
    (ht : t.Brings (cfg.writeBufferPath p) w) {data : Bytes} (hdata : taskData fs t = some data) :
    data = w := by
  unfold Mntrs.taskData at hdata
  rcases ht with hpayload | ⟨hpayload, hname⟩
  · rw [hpayload] at hdata
    exact (Option.some.inj hdata).symm
  · rw [hpayload, hname] at hdata
    exact h.cache data hdata

private theorem UploadsAgree.dequeue (hstep : workerDequeue fs i = some fs') :
    UploadsAgree cfg p w fs' := by
  unfold workerDequeue at hstep
  split at hstep
  · cases hstep
  · next t ht =>
    split at hstep
    · next data hdata =>
      cases hstep
      refine ⟨h.object, h.cache, h.buffer, h.queue.start i (fun hp _ ↦ ?_)⟩
      have hbrings := h.queue.queued ht hp
      exact ⟨h.taskData hbrings hdata, hbrings⟩
    · cases hstep
      exact ⟨h.object, h.cache, h.buffer, h.queue.drop i⟩

private theorem UploadsAgree.putLanded {u : Upload} (hu : fs.writeback.running[i]? = some u)
    (hattempting : u.attempting) : (putLanded fs u).backend p = some w := by
  unfold Mntrs.putLanded
  by_cases hp : u.task.remotePath = p
  · subst hp
    simp [(h.queue.job hu rfl hattempting).1]
  · simpa [Function.update_of_ne (Ne.symm hp)] using h.object

private theorem UploadsAgree.attempt {outcome : PutOutcome}
    (hstep : uploadAttempt fs i outcome = some fs') : UploadsAgree cfg p w fs' := by
  obtain ⟨u, n, hu, hn, heffect⟩ := attempted hstep
  have hattempting : u.attempting = true := by simp [Upload.attempting, hn]
  have hlanded := h.putLanded hu hattempting
  have hjob := h.queue.job hu
  have hfailed : ∀ reached q, QueueBrings p (cfg.writeBufferPath p) w q → ∀ count,
      UploadsAgree cfg p w
        { putFailed fs u reached with writeback := q, pendingCount := count } := by
    intro reached q hq count
    cases reached
    · exact ⟨h.object, h.cache, h.buffer, hq⟩
    · exact ⟨hlanded, h.cache, h.buffer, hq⟩
  cases heffect with
  | put =>
    refine ⟨hlanded, h.cache, h.buffer, h.queue.advance i (fun _ hpast ↦ ?_)⟩
    simp [Upload.attempting] at hpast
  | again reached =>
    refine hfailed reached _ (h.queue.advance i ?_) _
    exact fun hp _ ↦ hjob hp hattempting
  | gaveUp reached => exact hfailed reached _ ((h.queue.retire i).cancel _) _
  | resent reached =>
    refine hfailed reached _ ((h.queue.retire i).post ?_) _
    exact fun hp ↦ (hjob hp hattempting).2
  | lost reached => exact hfailed reached _ (h.queue.retire i) _

end

private theorem QueueBrings.past {n : CacheName} (h : QueueBrings p n w fs.writeback) (i : Nat)
    {u : Upload} (hpast : u.attempting = false) : QueueBrings p n w (fs.writeback.advance i u) := by
  refine h.advance i (fun _ hattempting ↦ ?_)
  rw [hpast] at hattempting
  cases hattempting

private theorem whole_removeWhole (d : Disk) (m n : CacheName) :
    (d.removeWhole m).whole n = none ∨ (d.removeWhole m).whole n = d.whole n := by
  by_cases hn : n = m
  · subst hn
    exact .inl (by simp [Disk.removeWhole])
  · exact .inr (by simp [Disk.removeWhole, Function.update_of_ne hn])

private theorem UploadsAgree.upload (h : UploadsAgree cfg p w fs)
    (hstep : uploadStep fs i = some fs') : UploadsAgree cfg p w fs' := by
  unfold uploadStep at hstep
  split at hstep
  · cases hstep
  · next u hu =>
    split at hstep
    · cases hstep
    · cases hstep
      refine h.of_kept h.object (fun n ↦ .inr ?_) ?_ (.inr rfl) rfl (h.queue.past i rfl)
      · split <;> rfl
      · split <;> rfl
    · cases hstep
      refine h.of_kept h.object (fun n ↦ ?_) ?_ (.inr rfl) rfl (h.queue.past i rfl)
      · split
        · exact whole_removeWhole _ _ _
        · exact .inr rfl
      · split <;> rfl
    · split at hstep
      · next current hmoved =>
        cases hstep
        rw [sendTask_frame, writeback_sendTask]
        refine ⟨h.object, h.cache, h.buffer, ?_⟩
        split
        · refine (h.queue.retire i).post (fun hp ↦ .inl ?_)
          -- the newer bytes come from the registered buffer
          have hcurrent : registeredBytes fs p = some current := by
            unfold movedOn at hmoved
            rw [hp] at hmoved
            split at hmoved
            · cases hmoved
            · next b hb =>
              split at hmoved <;> cases hmoved
              simp [registeredBytes, hb]
          exact congrArg some (h.buffer current hcurrent)
        · exact h.queue.retire i
      · cases hstep
        exact ⟨h.object, h.cache, h.buffer, h.queue.past i rfl⟩
    · cases hstep
      refine h.of_kept h.object (fun n ↦ .inr rfl) rfl ?_ rfl (h.queue.past i rfl)
      by_cases hp : p = u.task.remotePath
      · exact .inl (by simp [hp])
      · exact .inr (by simp [Function.update_of_ne hp])
    · cases hstep
      exact ⟨h.object, h.cache, h.buffer, (h.queue.retire i).cancel _⟩

private theorem UploadsAgree.dropBlocks (h : UploadsAgree cfg p w fs)
    (hstep : workerDropBlocks cfg fs = some fs') : UploadsAgree cfg p w fs' := by
  unfold workerDropBlocks at hstep
  split at hstep <;> cases hstep
  rename_i q rest hdrops
  rw [dropBlockCacheForPath_frame]
  refine h.of_kept h.object (fun n ↦ .inr ?_) ?_ (.inr rfl) rfl h.queue
  · exact whole_dropBlockCacheForPath cfg _ q n
  · exact data_dropBlockCacheForPath cfg _ q

/-- A step of the worker keeps the agreement. -/
private theorem UploadsAgree.workerStep (h : UploadsAgree cfg p w fs) {l : Label}
    (hl : l.isWriteback) (hstep : workerStep cfg fs l = some fs') :
    UploadsAgree cfg p w fs' := by
  cases l with
  | recv =>
    simp only [Mntrs.workerStep, workerRecv] at hstep
    split at hstep <;> cases hstep
    rename_i q hq
    exact ⟨h.object, h.cache, h.buffer, h.queue.recv hq⟩
  | dequeue i => exact h.dequeue hstep
  | attempt i outcome => exact h.attempt hstep
  | upload i => exact h.upload hstep
  | dropBlocks => exact h.dropBlocks hstep
  | _ => cases hl

end

/-- A step of the machine that leaves the path alone keeps the agreement. -/
theorem UploadsAgree.step {cfg : Config} {p : Path} {w : Bytes} {s t : Sys} {l : Label}
    (h : UploadsAgree cfg p w s.fs) (hleaves : LeavesPath cfg p s l)
    (hstep : Mntrs.step cfg l s = some t) : UploadsAgree cfg p w t.fs := by
  rcases hleaves with hl | huntouched
  · obtain ⟨fs, hfs, rfl⟩ :
        ∃ fs, Mntrs.workerStep cfg s.fs l = some fs ∧ t = { s with fs := fs } := by
      cases l <;> first | exact exists_workerStep hstep | cases hl
    exact h.workerStep hl hfs
  · exact h.of_untouched (huntouched t hstep)

end Mntrs

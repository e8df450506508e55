import Mntrs.Fs.ReadExact
import Mntrs.Writeback.Delivery
import Mntrs.Writeback.OffModeSimulation

/-!
# The last off-mode write reaches the backend and every reader

An upload compares the registered buffer with the bytes it put, drops the registration and then
takes the path out of the dedup set, in three steps (`src/src/writeback.rs:820-860`). A write
that fills the buffer in between is missed: a flush finds the path in the dedup set and counts the
bytes as handed over, and a reader finds no registered buffer. When no write falls into that
window, the bytes of the last successful write are on the backend once the path is quiet, and every
reader gets them at any time before.
-/

namespace Mntrs

open Base

/-- The latest bytes are in the hands of the write in progress, a dirty handle or the worker, and of
the worker as soon as a flush or release is about to mark its handle clean, unless the worker gave
the path up. -/
structure OffModeHanding (b : BufId) (gaveUp : Bool) (v : OffModeView) : Prop where
  sound : OffModeSound b v
  latest : ∀ w, v.latest = some w →
    (∃ fh, v.phase = .written fh) ∨ v.Dirty ∨ v.Handed ∨ gaveUp = true
  synced : v.phase = .synced → v.Handed ∨ gaveUp = true

section

variable {put : PutOutcome → Prop} {b : BufId} {g g' : Bool} {v v' : OffModeView}

/-- A path with an upload on its way is registered. -/
theorem OffModeSound.registered_of_upload (h : OffModeSound b v) {u : Upload}
    {rest : Multiset Upload} (hu : v.uploads = u ::ₘ rest) : v.registered = true :=
  h.registered.mpr (.inr (by simp [hu]))

private theorem OffModeHanding.of_worker (h : OffModeHanding b g v) (hsound : OffModeSound b v')
    (hlatest : v'.latest = v.latest) (hphase : v'.phase = v.phase)
    (hhandles : v'.handles = v.handles)
    (hhanded : v.Handed ∨ g = true → v'.Handed ∨ g' = true) : OffModeHanding b g' v' where
  sound := hsound
  latest w hw := by
    rw [hlatest] at hw
    rw [hphase]
    refine (h.latest w hw).imp id (fun hrest ↦ hrest.imp (fun hdirty ↦ ?_) hhanded)
    rwa [OffModeView.Dirty, hhandles]
  synced hp := by
    rw [hphase] at hp
    exact hhanded (h.synced hp)

/-- One move keeps the delivery, if a failed upload that leaves the path without task counts as
given up, and a path that is no longer counted as given up is registered again. -/
theorem OffModeHanding.step (h : OffModeHanding b g v) (hstep : OffModeStep put b v v')
    (hgave : ∀ reached, put (.failed reached) → (∃ u ∈ v.uploads, u.attempting = true) →
      v'.registered = false → g' = true)
    (hkept : g = true → g' = true ∨ v'.registered = true) : OffModeHanding b g' v' := by
  have hsound := h.sound.step hstep
  have hgiven : g = true → v'.Handed ∨ g' = true := by
    intro hg
    exact (hkept hg).elim .inr (fun hreg ↦ .inl (.inl hreg))
  have hgoes : ∀ {u rest}, v.uploads = u ::ₘ rest → v'.registered = v.registered →
      v'.Handed ∨ g' = true := by
    intro u rest hu hreg
    exact .inl (.inl (hreg.trans (h.sound.registered_of_upload hu)))
  cases hstep with
  | stay => exact h.of_worker hsound rfl rfl rfl (fun hold ↦ hold.elim .inl hgiven)
  | writeStart hphase | syncStart hphase | marked hphase =>
    refine ⟨hsound, fun w hw ↦ .inr ?_, by simp⟩
    have hrest := (h.latest w hw).resolve_left (by simp [hphase])
    exact hrest.imp id (fun hold ↦ hold.elim .inl hgiven)
  | buffered fh wh w hphase hopen hbefore => exact ⟨hsound, fun _ _ ↦ .inl ⟨fh, rfl⟩, by simp⟩
  | offered fh t hphase hentry =>
    have hphase' : (v.enqueue t).phase = .written fh := by
      unfold OffModeView.enqueue
      split <;> exact hphase
    exact ⟨hsound, fun _ _ ↦ .inl ⟨fh, hphase'⟩, by simp [hphase']⟩
  | finished fh wh hphase hbuffer hdirty =>
    exact ⟨hsound, fun _ _ ↦ .inr (.inl ⟨fh, .write wh, by simp, hdirty⟩), by simp⟩
  | handedOver t hphase ht =>
    have hreg : (v.enqueue t).registered = true := by
      unfold OffModeView.enqueue
      split
      · assumption
      · rfl
    exact ⟨hsound, fun _ _ ↦ .inr (.inr (.inl (.inl hreg))), fun _ ↦ .inl (.inl hreg)⟩
  | settled handles hphase hbuffer =>
    refine ⟨hsound, fun w _ ↦ .inr (.inr ?_), by simp⟩
    exact (h.synced hphase).elim .inl hgiven
  | released handles hphase hbuffer hkeeps =>
    refine ⟨hsound, fun w hw ↦ .inr ?_, by simp [hphase]⟩
    refine ((h.latest w hw).resolve_left (by simp [hphase])).imp ?_
      (fun hold ↦ hold.elim .inl hgiven)
    rintro ⟨fh, hh, hlookup, hdirty⟩
    exact ⟨fh, hh, hkeeps fh hh hlookup hdirty, hdirty⟩
  | dequeued t rest c ht hdata =>
    exact h.of_worker hsound rfl rfl rfl (fun hold ↦ hold.elim .inl hgiven)
  | put u rest hu hstage hput | retried u rest reached k hu hstage hput
  | resent u rest reached t hu hstage hput ht | passed u rest stage hu hpast hbefore hstage
  | moved u rest t hu ht | matched u rest hu hstage hsame | entryDropped u rest hu hstage =>
    exact h.of_worker hsound rfl rfl rfl (fun _ ↦ hgoes hu rfl)
  | gaveUp u rest reached hu hstage hput =>
    have hgone : g' = true := hgave reached hput ⟨u, by simp [hu], hstage⟩ rfl
    exact h.of_worker hsound rfl rfl rfl (fun _ ↦ .inr hgone)
  | cleared u rest hu hstage =>
    -- the comparison of the upload found the buffer as it was put
    have hdata := h.sound.settled u (by simp [hu]) (by simp [Upload.settling, hstage])
    have hobject := h.sound.landed u (by simp [hu]) (by simp [Upload.attempting, hstage])
    exact h.of_worker hsound rfl rfl rfl (fun _ ↦ .inl (.inr (by rw [hobject, hdata])))

end

/-- A fresh path has nothing to deliver. -/
theorem FreshBuffer.handing {p : Path} {b : BufId} {s : Sys} (h : FreshBuffer p b s) (g : Bool) :
    OffModeHanding b g (offModeView p b s) where
  sound := h.sound
  latest := by simp [offModeView, latestBytes, h.idle, h.unwritten]
  synced := by simp [offModeView, h.idle]

/-- What is handed over when the path is quiet is on the backend. -/
theorem OffModeHanding.object_of_quiescent {p : Path} {b : BufId} {s : Sys} {w : Bytes}
    (h : OffModeHanding b false (offModeView p b s)) (hquiet : Quiescent p s)
    (hw : s.written p = some w) : s.fs.backend p = some w := by
  obtain ⟨hcall, hhandles, htasks⟩ := hquiet
  have hidle := Call.eq_idle_of_isIdle hcall
  have hlatest : (offModeView p b s).latest = some w := by
    simpa [offModeView, latestBytes, hidle] using hw
  have hwaiting : (offModeView p b s).waiting = 0 := DedupQueue.waiting_eq_zero htasks
  have huploads : (offModeView p b s).uploads = 0 := DedupQueue.jobs_eq_zero htasks
  rcases h.latest w hlatest with ⟨fh, hphase⟩ | ⟨fh, hh, hlookup, -⟩ | (hreg | hobject) | hgave
  · simp [offModeView, hidle] at hphase
  · obtain ⟨hfound, hpath⟩ := Option.filter_eq_some_iff.mp hlookup
    exact absurd (of_decide_eq_true hpath) (hhandles _ (Table.lookup_eq_some_iff.mp hfound))
  · rcases h.sound.registered.mp hreg with hnone | hnone
    · exact absurd hwaiting hnone
    · exact absurd huploads hnone
  · rw [(h.sound.latest w hlatest).1] at hobject
    exact hobject
  · cases hgave

/-! ### Readers -/

/-- What a read looks at behind the unflushed buffers is a piece of the content, and the backend
answers. -/
structure CachesAgree (cfg : Config) (fs : MntrsFs) (env : ReadEnv) (path : Path) (ino : Ino)
    (fh : Fh) (offset : Nat) (w : Bytes) : Prop where
  mem : ∀ i data, fs.memCache ino i = some data → IsPiece w (i * cacheBlockSize) data
  block : ∀ i file, fs.disk.block (cfg.writeBufferPath path) i = some file → file.path = path →
    IsPiece w (i * cacheBlockSize) file.data
  part : ∀ start data, poppedPart fs fh env = some (start, data) →
    start ≤ offset ∧ IsPiece w start data
  file : ∀ data, MntrsFs.cacheFile cfg fs path = some data → IsPiece w 0 data
  remote : env.remote = none

section

variable {cfg : Config} {p : Path} {b : BufId} {s : Sys} {w : Bytes} {ino : Ino} {e : InodeEntry}
  {fh : Fh} {offset : Nat} {env : ReadEnv}

variable (h : OffModeSound b (offModeView p b s))
include h

theorem OffModeSound.data_of_handle (hlatest : (offModeView p b s).latest = some w)
    (hreader : ∀ state, s.fs.handles.lookup fh = some state → state.path = p) {b' : BufId}
    (hb : handleBuffer s.fs fh = some b') : (s.fs.buffers b').data = w := by
  unfold handleBuffer at hb
  split at hb
  · next wh hh =>
    rw [(h.onBuffer hh (hreader _ hh)).1] at hb
    rw [← Option.some.inj hb]
    exact (h.latest w hlatest).1
  · cases hb

theorem OffModeSound.data_of_entry (hlatest : (offModeView p b s).latest = some w) {b' : BufId}
    (hb : s.fs.offModeBuffers p = some b') : (s.fs.buffers b').data = w := by
  have hentry : (offModeView p b s).entry = some b' := hb
  rcases h.entry with hnone | hsome
  · rw [hnone] at hentry
    cases hentry
  · rw [hsome] at hentry
    rw [← Option.some.inj hentry]
    exact (h.latest w hlatest).1

theorem OffModeSound.no_fd
    (hreader : ∀ state, s.fs.handles.lookup fh = some state → state.path = p) {wh : WriteHandle}
    (hh : s.fs.handles.lookup fh = some (.write wh)) : wh.writeBufferFd = none :=
  (h.onBuffer hh (hreader _ hh)).2

theorem OffModeSound.answeringBuffer_eq (hlatest : (offModeView p b s).latest = some w)
    (hreader : ∀ state, s.fs.handles.lookup fh = some state → state.path = p) {fileSize : Nat}
    {data : Bytes} (hanswer : answeringBuffer cfg s.fs p fileSize fh offset = some data) :
    data = w := by
  rcases answeringBuffer_some hanswer with ⟨b', hb, rfl⟩ | ⟨b', hb, -, rfl⟩ | ⟨wh, f, hh, hf, -⟩
  · exact h.data_of_handle hlatest hreader hb
  · exact h.data_of_entry hlatest hb
  · rw [h.no_fd hreader hh] at hf
    cases hf

theorem OffModeSound.object_of_no_buffer (hmode : cfg.cacheMode.diskWriteBuffer = false)
    (hdirect : cfg.directIo = false) (hlatest : (offModeView p b s).latest = some w)
    (hoffset : offset < w.length) (hanswer : answeringBuffer cfg s.fs p w.length fh offset = none) :
    s.fs.backend p = some w := by
  refine h.absent w hlatest ?_
  rcases h.entry with hnone | hsome
  · exact hnone
  · -- a registered buffer is dirty and covers the file
    obtain ⟨hdata, hdirty⟩ := h.latest w hlatest
    have hentry : s.fs.offModeBuffers p = some b := hsome
    have hdata' : (s.fs.buffers b).data = w := hdata
    have hdirty' : (s.fs.buffers b).dirty = true := hdirty
    have hshort : w.length ≤ offset := by
      simp [answeringBuffer, hdirect, hmode, hentry, hdata', hdirty'] at hanswer
      exact hanswer.2.1
    omega

/-- Every read of the path gets the latest contents, as far as the place that answers it
reaches. -/
theorem OffModeSound.read_eq (hmode : cfg.cacheMode.diskWriteBuffer = false)
    (hdirect : cfg.directIo = false) (hlatest : (offModeView p b s).latest = some w)
    (he : s.fs.inodes.lookup ino = some e) (hpath : e.path = p) (hsize : e.size = w.length)
    (hreader : ∀ state, s.fs.handles.lookup fh = some state → state.path = p)
    (hcaches : answeringBuffer cfg s.fs p w.length fh offset = none →
      CachesAgree cfg s.fs env p ino fh offset w) (size : Nat) :
    (read cfg s.fs ino fh offset size env).1 =
      .ok (slice w offset
        (min (offset + size) (servedUpTo cfg s.fs p ino w.length fh offset size env))) := by
  by_cases hoffset : offset < w.length
  · cases hanswer : answeringBuffer cfg s.fs p w.length fh offset with
    | some data =>
      have hdata := h.answeringBuffer_eq hlatest hreader hanswer
      have hread : (read cfg s.fs ino fh offset size env).1 =
          .ok (slice data offset (offset + size)) := by
        simp [read, he, hpath, hsize, hanswer, Nat.not_le.mpr hoffset]
      have hserved : servedUpTo cfg s.fs p ino w.length fh offset size env = data.length := by
        simp [servedUpTo, hanswer]
      rw [hread, hserved, hdata]
      congr 1
      apply slice_eq_slice_iff.mpr
      omega
    | none =>
      have hagree := hcaches hanswer
      have hobject := h.object_of_no_buffer hmode hdirect hlatest hoffset hanswer
      have hconsistent : Consistent cfg s.fs env p ino fh offset w := {
        entry := ⟨e, he, hpath, hsize⟩
        handle := fun b' hb ↦ h.data_of_handle hlatest hreader hb ▸ IsPiece.refl _
        buffer := fun b' hb _ ↦ h.data_of_entry hlatest hb ▸ IsPiece.refl _
        fd := fun wh f hh hf ↦ by
          rw [h.no_fd hreader hh] at hf
          cases hf
        mem := hagree.mem
        block := hagree.block
        part := hagree.part
        file := hagree.file
        object := .inl hobject }
      obtain ⟨bytes, hok⟩ := read_answers fh offset size he (hpath ▸ hobject) hagree.remote
      rw [hok, Mntrs.read_eq hconsistent hoffset hok]
  · have hread : (read cfg s.fs ino fh offset size env).1 = .ok [] := by
      simp [read, he, hsize, Nat.not_lt.mp hoffset]
    rw [hread, slice, List.drop_eq_nil_of_le (by omega), List.take_nil]

end

/-- In off mode, along every run whose steps on the path are careful and whose puts succeed, the
backend holds the bytes of the last successful write whenever the path is quiet. Between requests
every read of the path returns those bytes, as far as the place that answers it reaches, if the
inode records their length and the caches behind the buffers hold nothing else. -/
theorem off_mode_holds_last_write {cfg : Config} {p : Path} {b : BufId} {s t : Sys}
    (hmode : cfg.cacheMode.diskWriteBuffer = false) (hdirect : cfg.directIo = false)
    (hstart : FreshBuffer p b s)
    (hrun : GuardedRun (step cfg) (OffModeObeys cfg p b (· = .ok)) s t) (w : Bytes)
    (hw : t.written p = some w) :
    (Quiescent p t → t.fs.backend p = some w) ∧
      (t.call.isIdle = true → ∀ ino e fh offset size env,
        t.fs.inodes.lookup ino = some e → e.path = p → e.size = w.length →
        (∀ state, t.fs.handles.lookup fh = some state → state.path = p) →
        (answeringBuffer cfg t.fs p w.length fh offset = none →
          CachesAgree cfg t.fs env p ino fh offset w) →
        (read cfg t.fs ino fh offset size env).1 =
          .ok (slice w offset
            (min (offset + size) (servedUpTo cfg t.fs p ino w.length fh offset size env)))) := by
  have hinv := off_mode_invariant_of_run (OffModeHanding b false) hmode hdirect
    (fun _ h ↦ h.sound)
    (fun _ _ h hmove ↦ h.step hmove (fun _ hput ↦ by cases hput) (fun hg ↦ by cases hg))
    hrun (hstart.handing false)
  refine ⟨fun hquiet ↦ hinv.object_of_quiescent hquiet hw, ?_⟩
  intro hcall ino e fh offset size env he hpath hsize hreader hcaches
  have hlatest : (offModeView p b t).latest = some w := by
    simpa [offModeView, latestBytes, Call.eq_idle_of_isIdle hcall] using hw
  exact hinv.sound.read_eq hmode hdirect hlatest he hpath hsize hreader hcaches size

/-- A mount in off mode with `a` opened for writing under handle 1, on buffer 0. -/
def openedOffMode : Sys where
  fs := { MntrsFs.mounted (fun _ ↦ none) .empty with
    handles := AList.singleton 1 (.write ⟨['a'], none, some 0, false, none, none, none⟩)
    offModeBuffers := Function.update (fun _ ↦ none) ['a'] (some 0)
    nextBuf := 1 }
  call := .idle
  written _ := none

theorem freshBuffer_openedOffMode : FreshBuffer ['a'] 0 openedOffMode where
  idle := rfl
  tasks := rfl
  unregistered := Finset.notMem_empty _
  handles fh h hh _ := by
    have hmem := Table.lookup_eq_some_iff.mp hh
    simp only [openedOffMode, AList.singleton_entries, List.mem_singleton, Sigma.mk.injEq] at hmem
    obtain ⟨rfl, hh⟩ := hmem
    cases hh
    exact ⟨rfl, rfl⟩
  entry := .inr rfl
  sender := rfl
  alive := rfl
  unwritten := rfl

/-- A write, its flush, its upload and the release of the handle. -/
theorem off_mode_holds_last_write_sample :
    ∃ t, GuardedRun (step (.plain .off)) (OffModeObeys (.plain .off) ['a'] 0 (· = .ok))
        openedOffMode t ∧ Quiescent ['a'] t ∧ t.written ['a'] = some [7, 7] ∧
      t.fs.backend ['a'] = some [7, 7] := by
  obtain ⟨t, hrun, hquiet, hw⟩ := exists_guardedRun (step (.plain .off))
    (fun s l ↦ OwnStep ['a'] s l ∧ OffModeCareful ['a'] (· = .ok) s l)
    (fun t ↦ Quiescent ['a'] t ∧ t.written ['a'] = some [7, 7])
    (writeTwo ++ flushOne ++ dequeueFront ++ uploadFront ++ releaseHandle)
    openedOffMode (by decide) (by decide)
  have hobeys : GuardedRun (step (.plain .off)) (OffModeObeys (.plain .off) ['a'] 0 (· = .ok))
      openedOffMode t := hrun.mono (fun _ _ hown ↦ .inl hown)
  exact ⟨t, hobeys, hquiet, hw,
    (off_mode_holds_last_write rfl rfl freshBuffer_openedOffMode hobeys _ hw).1 hquiet⟩

/-- A second write right after the comparison of the running upload: its flush finds the path in the
dedup set, and the upload ends with the older bytes on the backend. -/
theorem off_mode_loses_later_write :
    ∃ t, GuardedRun (step (.plain .off)) (fun s l ↦ OwnStep ['a'] s l ∧ PutsSucceed l)
        openedOffMode t ∧ Quiescent ['a'] t ∧ t.written ['a'] = some [8, 8, 8] ∧
      t.fs.backend ['a'] = some [7, 7] :=
  exists_guardedRun (step (.plain .off)) (fun s l ↦ OwnStep ['a'] s l ∧ PutsSucceed l)
    (fun t ↦ Quiescent ['a'] t ∧ t.written ['a'] = some [8, 8, 8] ∧
      t.fs.backend ['a'] = some [7, 7])
    (writeTwo ++ flushOne ++ dequeueFront ++ uploadFront.take 4 ++ writeThree ++ flushOne ++
      uploadFront.drop 4 ++ releaseHandle)
    openedOffMode (by decide) (by decide)

end Mntrs

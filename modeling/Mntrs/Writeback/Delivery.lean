import Mntrs.Writeback.Pending
import Mntrs.Writeback.Simulation

/-!
# The last write reaches the backend

A flush or release that finds its path in the dedup set counts it as handed over and marks the
handle clean (`src/src/lib.rs:6455-6500,6747-6790`). The upload that is running then may hold an
older copy of the cache file, and nobody uploads the newer bytes. When every hand-over finds the
running upload up to date, and the cache file itself is never lost, the bytes of the last
successful write are on the backend once the path is quiet.
-/

namespace Mntrs

open Base

/-- Every put succeeds, and a hand-over of a registered path finds no upload with bytes other
than those of the cache file. -/
def delivery : Discipline where
  mark _ := True
  handOver v := v.registered = true → ∀ u ∈ v.uploads, v.bytes = none ∨ v.bytes = some u.data
  put outcome := outcome = .ok
  dropSidecar _ _ := True

/-- The bytes will be on the backend without another request: a waiting task will read them, an
upload is about to put them, or they are there and no upload will replace them. -/
def Handed (v : PathView) (c : Bytes) : Prop :=
  v.waiting ≠ 0 ∨ (∃ u ∈ v.uploads, u.attempting = true ∧ u.data = c) ∨
    (v.object = some c ∧ ∀ u ∈ v.uploads, u.attempting = false)

/-- The latest bytes are in the hands of the write in progress, a dirty handle or the worker,
and of the worker as soon as a flush or release is about to mark its handle clean, unless the
worker gave the path up. -/
structure Draining (n : CacheName) (gaveUp : Bool) (v : PathView) : Prop where
  sound : Sound n v
  latest : ∀ w, v.latest = some w → v.bytes = some w →
    (∃ fh, v.phase = .written fh) ∨ v.Dirty ∨ Handed v w ∨ gaveUp = true
  synced : v.phase = .synced → ∀ c, v.bytes = some c → Handed v c ∨ gaveUp = true

/-- The latest bytes are in the hands of the write in progress, a dirty handle or the worker,
and of the worker as soon as a flush or release is about to mark its handle clean. -/
structure Delivering (n : CacheName) (v : PathView) : Prop where
  sound : Sound n v
  latest : ∀ w, v.latest = some w → v.bytes = some w →
    (∃ fh, v.phase = .written fh) ∨ v.Dirty ∨ Handed v w
  synced : v.phase = .synced → ∀ c, v.bytes = some c → Handed v c

variable {u : Upload} {rest : Multiset Upload} {p : Path}

section

variable {n : CacheName} {v v' : PathView} {c : Bytes} {g g' : Bool}

/-- An upload is all there is, so what is handed over is what it puts or has put. -/
private theorem Handed.data_or_object (h : Handed v c) (hsound : Sound n v)
    (hu : v.uploads = u ::ₘ rest) :
    u.attempting = true ∧ u.data = c ∨ u.attempting = false ∧ v.object = some c := by
  obtain ⟨hrest, hwaiting⟩ := hsound.alone hu
  rcases h with hnone | ⟨u', hu', hstage⟩ | ⟨hobject, hpast⟩
  · exact absurd hwaiting hnone
  · rw [hu, hrest, Multiset.mem_cons] at hu'
    rcases hu' with rfl | hnone
    · exact .inl hstage
    · exact absurd hnone (Multiset.notMem_zero u')
  · exact .inr ⟨hpast u (by simp [hu]), hobject⟩

private theorem Handed.data (h : Handed v c) (hsound : Sound n v) (hu : v.uploads = u ::ₘ rest)
    (hattempting : u.attempting) : u.data = c :=
  ((h.data_or_object hsound hu).resolve_right (by simp [hattempting])).2

private theorem handed_of_handOver {t : WritebackTask} (hsound : Sound n v)
    (hover : delivery.handOver v) (hbytes : v.bytes = some c) : Handed (v.enqueue t) c := by
  unfold PathView.enqueue
  split
  · next hreg =>
    rcases hsound.task hreg with hwaiting | huploads | hnone
    · exact .inl hwaiting
    · obtain ⟨u, hu⟩ := Multiset.exists_mem_of_ne_zero huploads
      obtain ⟨rest, hrest⟩ := Multiset.exists_cons_of_mem hu
      have hdata : u.data = c := by
        rcases hover hreg u hu with hnone | hsame
        · rw [hnone] at hbytes
          cases hbytes
        · exact Option.some.inj (hsame.symm.trans hbytes)
      cases hstage : u.attempting with
      | true => exact .inr (.inl ⟨u, hu, hstage, hdata⟩)
      | false =>
        refine .inr (.inr ⟨by rw [hsound.landed u hu hstage, hdata], fun u' hu' ↦ ?_⟩)
        rw [hrest, (hsound.alone hrest).1, Multiset.mem_cons] at hu'
        rcases hu' with rfl | hnone
        · exact hstage
        · exact absurd hnone (Multiset.notMem_zero u')
    · rw [hnone] at hbytes
      cases hbytes
  · exact .inl Multiset.cons_ne_zero

theorem PathStep.waiting_of_registered {d : Discipline} (h : PathStep d p n v v')
    (hout : v.registered = false) (hin : v'.registered) : v'.waiting ≠ 0 := by
  have henqueue : ∀ t, (v.enqueue t).waiting ≠ 0 := by
    intro t
    simp [PathView.enqueue, hout]
  cases h with
  | offered fh t hphase ht => exact henqueue t
  | handedOver due sends t hphase hover hsends ht =>
    cases sends with
    | true => exact henqueue t
    | false => simp [hout] at hin
  | gaveUp u rest reached hu hstage hput | cleared u rest hu hstage => cases hin
  | _ => exact absurd (hout.symm.trans hin) Bool.false_ne_true

private theorem Draining.of_worker (h : Draining n g v) (hsound : Sound n v')
    (hlatest : v'.latest = v.latest) (hphase : v'.phase = v.phase)
    (hhandles : v'.handles = v.handles) (hbytes : ∀ c, v'.bytes = some c → v.bytes = some c)
    (hhanded : ∀ c, v'.bytes = some c → Handed v c ∨ g = true → Handed v' c ∨ g' = true) :
    Draining n g' v' where
  sound := hsound
  latest w hw hc := by
    rw [hlatest] at hw
    rw [hphase]
    refine (h.latest w hw (hbytes w hc)).imp id (fun hrest ↦ hrest.imp (fun hdirty ↦ ?_) ?_)
    · rwa [PathView.Dirty, hhandles]
    · exact hhanded w hc
  synced hp c hc := by
    rw [hphase] at hp
    exact hhanded c hc (h.synced hp c (hbytes c hc))

private theorem past_cons (hpast : u.attempting = false) :
    ∀ u' ∈ u ::ₘ rest, u'.attempting = false ∨ u' ∈ rest := by
  intro u' hu'
  rcases Multiset.mem_cons.mp hu' with rfl | hrest
  · exact .inl hpast
  · exact .inr hrest

/-- The only upload goes on past its put. -/
private theorem Draining.of_past (h : Draining n g v) (hu : v.uploads = u ::ₘ rest)
    (hpast : u.attempting = false) (hsound : Sound n v') (hlatest : v'.latest = v.latest)
    (hphase : v'.phase = v.phase) (hhandles : v'.handles = v.handles)
    (hbytes : ∀ c, v'.bytes = some c → v.bytes = some c) (hobject : v'.object = v.object)
    (huploads : ∀ u' ∈ v'.uploads, u'.attempting = false ∨ u' ∈ rest)
    (hgiven : g = true → ∀ c, Handed v' c ∨ g' = true) : Draining n g' v' := by
  refine h.of_worker hsound hlatest hphase hhandles hbytes (fun c _ hold ↦ ?_)
  refine hold.elim (fun hhanded ↦ .inl (.inr (.inr ⟨?_, ?_⟩))) (fun hg ↦ hgiven hg c)
  · rw [hobject]
    exact ((hhanded.data_or_object h.sound hu).resolve_left (by simp [hpast])).2
  · rw [(h.sound.alone hu).1] at huploads
    exact fun u' hu' ↦ (huploads u' hu').resolve_right (Multiset.notMem_zero u')

/-- One move keeps the delivery, if a failed upload that leaves the path without task counts as
given up, and a path that is no longer counted as given up has been registered again. -/
theorem Draining.step {d : Discipline} (h : Draining n g v) (hstep : PathStep d p n v v')
    (hover : ∀ v, d.handOver v → delivery.handOver v)
    (hgave : ∀ reached, d.put (.failed reached) → (∃ u ∈ v.uploads, u.attempting = true) →
      v'.registered = false → g' = true)
    (hkept : g = true → g' = true ∨ (v.registered = false ∧ v'.registered = true)) :
    Draining n g' v' := by
  have hsound := h.sound.step hstep
  have hgiven : g = true → ∀ c, Handed v' c ∨ g' = true := fun hg c ↦
    (hkept hg).elim .inr (fun hreg ↦ .inl (.inl (hstep.waiting_of_registered hreg.1 hreg.2)))
  cases hstep with
  | stay =>
    exact h.of_worker hsound rfl rfl rfl (fun _ hc ↦ hc)
      (fun c _ hold ↦ hold.elim .inl (fun hg ↦ hgiven hg c))
  | writeStart hphase | writeFailed hphase | syncStart due hphase hdue
  | marked due failed hphase hmark =>
    refine ⟨hsound, fun w hw hc ↦ .inr ?_, by simp⟩
    refine ((h.latest w hw hc).resolve_left (by simp [hphase])).imp id (fun hold ↦ ?_)
    exact hold.elim .inl (fun hg ↦ hgiven hg w)
  | buffered fh wh w hphase hopen hlinked => exact ⟨hsound, fun _ _ _ ↦ .inl ⟨fh, rfl⟩, by simp⟩
  | offered fh t hphase ht =>
    have hphase' : (v.enqueue t).phase = .written fh := by
      unfold PathView.enqueue
      split <;> exact hphase
    exact ⟨hsound, fun _ _ _ ↦ .inl ⟨fh, hphase'⟩, by simp [hphase']⟩
  | finished fh wh hphase hdirty =>
    refine ⟨hsound, fun _ _ _ ↦ .inr (.inl ⟨fh, .write wh, by simp, hdirty⟩), by simp⟩
  | handedOver due sends t hphase hallowed hsends ht =>
    have hhanded : ∀ c, v.bytes = some c → Handed (if sends then v.enqueue t else v) c := by
      intro c hbytes
      cases sends with
      | true => exact handed_of_handOver h.sound (hover v hallowed) hbytes
      | false =>
        rw [hsends rfl] at hbytes
        cases hbytes
    have hbytes : (if sends then v.enqueue t else v).bytes = v.bytes := by
      unfold PathView.enqueue
      split
      · split <;> rfl
      · rfl
    exact ⟨hsound, fun w _ hc ↦ .inr (.inr (.inl (hhanded w (hbytes ▸ hc)))),
      fun _ c hc ↦ .inl (hhanded c (hbytes ▸ hc))⟩
  | settled handles hphase =>
    refine ⟨hsound, fun w _ hc ↦ .inr (.inr ?_), by simp⟩
    exact (h.synced hphase w hc).elim .inl (fun hg ↦ hgiven hg w)
  | released handles hphase hkeeps =>
    refine ⟨hsound, fun w hw hc ↦ .inr ?_, by simp [hphase]⟩
    refine ((h.latest w hw hc).resolve_left (by simp [hphase])).imp ?_
      (fun hold ↦ hold.elim .inl (fun hg ↦ hgiven hg w))
    rintro ⟨fh, hh, hlookup, hdirty⟩
    exact ⟨fh, hh, hkeeps fh hh hlookup hdirty, hdirty⟩
  | dequeued t rest c ht hbytes =>
    refine h.of_worker hsound rfl rfl rfl (fun _ hc ↦ hc)
      (fun c' hc' _ ↦ .inl (.inr (.inl ?_)))
    refine ⟨⟨t, c, .attempt 0⟩, by simp, rfl, ?_⟩
    exact Option.some.inj (hbytes.symm.trans hc')
  | vanished t rest ht hbytes =>
    refine h.of_worker hsound rfl rfl rfl (fun _ hc ↦ hc) (fun c hc _ ↦ ?_)
    exact absurd (hbytes.symm.trans hc) (by simp)
  | put u rest hu hstage hput =>
    refine h.of_worker hsound rfl rfl rfl (fun _ hc ↦ hc) (fun c hc hold ↦ ?_)
    refine hold.elim (fun hhanded ↦ .inl (.inr (.inr ⟨?_, ?_⟩))) (fun hg ↦ hgiven hg c)
    · simp [hhanded.data h.sound hu hstage]
    · rw [(h.sound.alone hu).1]
      simp [Upload.attempting]
  | retried u rest reached k hu hstage hput =>
    refine h.of_worker hsound rfl rfl rfl (fun _ hc ↦ hc) (fun c hc hold ↦ ?_)
    refine hold.elim (fun hhanded ↦ .inl (.inr (.inl ?_))) (fun hg ↦ hgiven hg c)
    have hdata : u.data = c := hhanded.data h.sound hu hstage
    exact ⟨{ u with stage := .attempt k }, by simp, rfl, hdata⟩
  | resent u rest reached t hu hstage hput ht =>
    exact h.of_worker hsound rfl rfl rfl (fun _ hc ↦ hc)
      (fun _ _ _ ↦ .inl (.inl (Multiset.cons_ne_zero)))
  | gaveUp u rest reached hu hstage hput =>
    have hgone : g' = true := hgave reached hput ⟨u, by simp [hu], hstage⟩ rfl
    exact h.of_worker hsound rfl rfl rfl (fun _ hc ↦ hc) (fun _ _ _ ↦ .inr hgone)
  | sidecarDropped u rest hu hstage | compared u rest hu hstage | bufferDropped u rest hu hstage =>
    exact h.of_past hu (by simp [Upload.attempting, hstage]) hsound rfl rfl rfl
      (fun _ hc ↦ hc) rfl (past_cons rfl) hgiven
  | cacheDropped u rest hu hstage hdrop =>
    refine h.of_past hu (by simp [Upload.attempting, hstage]) hsound rfl rfl rfl
      (fun c hc ↦ ?_) rfl (past_cons rfl) hgiven
    by_cases hdel : u.task.deleteCacheOnSuccess = true
    · simp [hdel] at hc
    · simpa [hdel] using hc
  | cleared u rest hu hstage =>
    exact h.of_past hu (by simp [Upload.attempting, hstage]) hsound rfl rfl rfl
      (fun _ hc ↦ hc) rfl (fun _ ↦ .inr) hgiven

/-- A path that is delivered is so whether or not it counts as given up. -/
theorem Delivering.draining (h : Delivering n v) (g : Bool) : Draining n g v where
  sound := h.sound
  latest w hw hc := (h.latest w hw hc).imp id (·.imp id .inl)
  synced hp c hc := .inl (h.synced hp c hc)

/-- A path that no worker gives up is delivered. -/
theorem Draining.delivering (h : Draining n false v) : Delivering n v where
  sound := h.sound
  latest w hw hc := (h.latest w hw hc).imp id (·.imp id (·.resolve_right Bool.false_ne_true))
  synced hp c hc := (h.synced hp c hc).resolve_right Bool.false_ne_true

/-- One move keeps the delivery. -/
theorem Delivering.step (h : Delivering n v) (hstep : PathStep delivery p n v v') :
    Delivering n v' :=
  ((h.draining false).step hstep (fun _ hover ↦ hover) (fun _ hput ↦ by cases hput)
    (fun hg ↦ by cases hg)).delivering

end

/-- Nothing is going on about a path: no request is in progress, its handles are released, and
none of its tasks is in the channel, the delay queue or an upload. -/
def Quiescent (p : Path) (s : Sys) : Prop :=
  s.call.isIdle = true ∧ (∀ e ∈ s.fs.handles.entries, e.2.path ≠ p) ∧ s.fs.tasksOf p = 0

/-- A fresh path has nothing to deliver. -/
theorem FreshPath.delivering {cfg : Config} {s : Sys} (h : FreshPath p s) :
    Delivering (cfg.writeBufferPath p) (pathView cfg p s) where
  sound := h.sound
  latest := by simp [pathView, latestBytes, h.idle, h.unwritten]
  synced := by simp [pathView, h.idle]

/-- What is delivered when the path is quiet is on the backend. -/
theorem Delivering.object_of_quiescent {cfg : Config} {s : Sys} {w : Bytes}
    (h : Delivering (cfg.writeBufferPath p) (pathView cfg p s)) (hquiet : Quiescent p s)
    (hw : s.written p = some w) : s.fs.backend p = some w := by
  obtain ⟨hcall, hhandles, htasks⟩ := hquiet
  have hidle := Call.eq_idle_of_isIdle hcall
  have hlatest : (pathView cfg p s).latest = some w := by
    simpa [pathView, latestBytes, hidle] using hw
  have hwaiting : (pathView cfg p s).waiting = 0 := DedupQueue.waiting_eq_zero htasks
  have huploads : (pathView cfg p s).uploads = 0 := DedupQueue.jobs_eq_zero htasks
  rcases h.sound.current w hlatest with hbytes | ⟨-, hobject, -⟩
  · rcases h.latest w hlatest hbytes with ⟨fh, hphase⟩ | ⟨fh, hh, hlookup, -⟩ | hhanded
    · simp [pathView, hidle] at hphase
    · obtain ⟨hfound, hpath⟩ := Option.filter_eq_some_iff.mp hlookup
      exact absurd (of_decide_eq_true hpath) (hhandles _ (Table.lookup_eq_some_iff.mp hfound))
    · rcases hhanded with hnone | ⟨u, hu, -⟩ | ⟨hobject, -⟩
      · exact absurd hwaiting hnone
      · rw [huploads] at hu
        exact absurd hu (Multiset.notMem_zero u)
      · exact hobject
  · exact hobject

/-- In a disk-buffered mode, along every run whose steps on the path are careful and hand over
only up-to-date uploads, the backend holds the bytes of the last successful write whenever the
path is quiet. -/
theorem backend_holds_last_write {cfg : Config} {p : Path} {s t : Sys}
    (hmode : cfg.cacheMode.diskWriteBuffer = true) (hdirect : cfg.directIo = false)
    (hstart : FreshPath p s) (hrun : GuardedRun (step cfg) (Obeys cfg p delivery) s t)
    (hquiet : Quiescent p t) (w : Bytes) (hw : t.written p = some w) :
    t.fs.backend p = some w := by
  have hinv := path_invariant_of_run (Delivering (cfg.writeBufferPath p)) hmode hdirect
    (fun _ h ↦ h.sound) (fun _ _ h hmove ↦ h.step hmove) hrun hstart.delivering
  exact hinv.object_of_quiescent hquiet hw

instance delivery.decidableMark : DecidablePred delivery.mark := fun _ ↦ isTrue trivial

instance delivery.decidableHandOver : DecidablePred delivery.handOver := fun v ↦
  inferInstanceAs (Decidable (v.registered = true → ∀ u ∈ v.uploads, _ ∨ _))

instance delivery.decidablePut : DecidablePred delivery.put := fun outcome ↦
  inferInstanceAs (Decidable (outcome = .ok))

instance delivery.decidableDropSidecar (v : PathView) (u : Upload) :
    Decidable (delivery.dropSidecar v u) := isTrue trivial

instance Quiescent.decidable (p : Path) (s : Sys) : Decidable (Quiescent p s) :=
  inferInstanceAs (Decidable (_ ∧ (∀ e ∈ s.fs.handles.entries, _) ∧ _))

/-- The cache file of `a` opened for the first time is fresh. -/
theorem freshPath_freshlyOpened (cfg : Config) : FreshPath ['a'] (freshlyOpened cfg) where
  idle := rfl
  tasks := rfl
  unregistered := Finset.notMem_empty _
  clean fh h hh _ := by
    have hmem := Table.lookup_eq_some_iff.mp hh
    simp only [freshlyOpened, AList.singleton_entries, List.mem_singleton, Sigma.mk.injEq] at hmem
    obtain ⟨rfl, hh⟩ := hmem
    cases hh
    rfl
  offMode := rfl
  sender := rfl
  alive := rfl
  unwritten := rfl

/-- A flush of a dirty handle, from its start to its return. -/
def flushOne : List Label := [.flush 2 1 .ok, .fuse, .fuse, .fuse]

/-- A second write to `a`. -/
def writeThree : List Label := [.write 2 1 0 [8, 8, 8] .ok, .fuse, .fuse, .fuse, .fuse]

/-- The upload of the task at the front, from its dequeue to its end. -/
def uploadFront : List Label := .attempt 0 .ok :: List.replicate 5 (.upload 0)

/-- The handle is released. -/
def releaseHandle : List Label := [.release 2 1 .ok]

/-- A write, its flush, its upload and the release of the handle. -/
theorem backend_holds_last_write_sample :
    ∃ t, GuardedRun (step (.plain .writes)) (Obeys (.plain .writes) ['a'] delivery)
        (freshlyOpened (.plain .writes)) t ∧ Quiescent ['a'] t ∧
      t.written ['a'] = some [7, 7] ∧ t.fs.backend ['a'] = some [7, 7] := by
  obtain ⟨t, hrun, hquiet, hw⟩ := exists_guardedRun (step (.plain .writes))
    (fun s l ↦ OwnStep ['a'] s l ∧ Careful (.plain .writes) ['a'] delivery s l)
    (fun t ↦ Quiescent ['a'] t ∧ t.written ['a'] = some [7, 7])
    (writeTwo ++ flushOne ++ dequeueFront ++ uploadFront ++ releaseHandle)
    (freshlyOpened (.plain .writes)) (by decide) (by decide)
  have hobeys : GuardedRun (step (.plain .writes)) (Obeys (.plain .writes) ['a'] delivery)
      (freshlyOpened (.plain .writes)) t := hrun.mono (fun _ _ hown ↦ .inl hown)
  exact ⟨t, hobeys, hquiet, hw,
    backend_holds_last_write rfl rfl (freshPath_freshlyOpened _) hobeys hquiet _ hw⟩

/-- The puts of a run succeed. -/
def PutsSucceed : Label → Prop
  | .attempt _ outcome => outcome = .ok
  | _ => True

instance PutsSucceed.decidable : ∀ l, Decidable (PutsSucceed l)
  | .attempt _ outcome => inferInstanceAs (Decidable (outcome = .ok))
  | .write .. | .flush .. | .release .. | .unlink .. | .forget .. | .recover .. | .other _ | .fuse
  | .recv | .dequeue _ | .upload _ | .dropBlocks | .pool .. | .pump _ => isTrue trivial

/-- A second write while the upload of the first is running: its flush finds the path registered
and marks the handle clean, and the upload ends with the older bytes on the backend. -/
theorem flush_loses_later_write :
    ∃ t, GuardedRun (step (.plain .writes)) (fun s l ↦ OwnStep ['a'] s l ∧ PutsSucceed l)
        (freshlyOpened (.plain .writes)) t ∧ Quiescent ['a'] t ∧
      t.written ['a'] = some [8, 8, 8] ∧ t.fs.backend ['a'] = some [7, 7] :=
  exists_guardedRun (step (.plain .writes)) (fun s l ↦ OwnStep ['a'] s l ∧ PutsSucceed l)
    (fun t ↦ Quiescent ['a'] t ∧ t.written ['a'] = some [8, 8, 8] ∧
      t.fs.backend ['a'] = some [7, 7])
    (writeTwo ++ dequeueFront ++ writeThree ++ flushOne ++ uploadFront ++ releaseHandle)
    (freshlyOpened (.plain .writes)) (by decide) (by decide)

end Mntrs

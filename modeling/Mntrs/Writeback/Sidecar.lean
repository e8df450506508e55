import Mntrs.Writeback.Delivery

/-!
# The sidecar of un-uploaded bytes

A flush or release writes the `.dirty` sidecar before it hands its path over, and an upload
removes it after its put, whatever the cache file holds by then. As long as no upload removes
the sidecar of bytes it did not put, every state in which all writes have been flushed has the
latest bytes on the backend, or in the cache file with a sidecar beside it; a recovery from the
disk of such a state sends them again.
-/

namespace Mntrs

open Base

/-- Some bytes have not been picked up by a flush or release: a write is in progress, or a handle
is dirty and no flush or release is past its sidecar. -/
def PathView.Unsynced (v : PathView) : Prop :=
  (∃ fh, v.phase = .written fh) ∨
    (v.Dirty ∧ v.phase ≠ .marked true ∧ v.phase ≠ .marked false ∧ v.phase ≠ .synced)

/-- Sidecars are written when due, and an upload removes the sidecar only of the bytes it put,
or while there are bytes that will get a sidecar of their own. -/
def sidecars : Discipline where
  mark failed := failed = false
  handOver _ := True
  put _ := True
  dropSidecar v u := v.bytes = none ∨ v.bytes = some u.data ∨ v.Unsynced

/-- The bytes have their sidecar, or are on the backend for good. -/
def Kept (p : Path) (v : PathView) (c : Bytes) : Prop :=
  v.sidecar = some p ∨
    (v.object = some c ∧ ∀ u ∈ v.uploads, u.attempting = true → u.data = c)

/-- The latest bytes are in the hands of the write in progress, a dirty handle or a sidecar, and
of a sidecar as soon as a flush or release has got past it. -/
structure Marking (p : Path) (n : CacheName) (v : PathView) : Prop where
  sound : Sound n v
  latest : ∀ w, v.latest = some w → v.bytes = some w →
    (∃ fh, v.phase = .written fh) ∨ v.Dirty ∨ Kept p v w
  marked : (∃ due, v.phase = .marked due) ∨ v.phase = .synced →
    ∀ c, v.bytes = some c → Kept p v c

section

variable {p : Path} {n : CacheName} {v v' : PathView} {c : Bytes}

/-- An upload about to put is all there is: it puts bytes that are kept, or leaves the
sidecar. -/
private theorem Kept.data {u : Upload} {rest : Multiset Upload} (h : Kept p v c)
    (hu : v.uploads = u ::ₘ rest) (hattempting : u.attempting) :
    v.sidecar = some p ∨ (v.object = some c ∧ u.data = c) :=
  h.imp id (fun hobject ↦ ⟨hobject.1, hobject.2 u (by simp [hu]) hattempting⟩)

private theorem Marking.of_worker (h : Marking p n v) (hsound : Sound n v')
    (hlatest : v'.latest = v.latest) (hphase : v'.phase = v.phase)
    (hhandles : v'.handles = v.handles) (hbytes : ∀ c, v'.bytes = some c → v.bytes = some c)
    (hkept : ∀ c, v'.bytes = some c → Kept p v c → Kept p v' c) : Marking p n v' where
  sound := hsound
  latest w hw hc := by
    rw [hlatest] at hw
    rw [hphase]
    refine (h.latest w hw (hbytes w hc)).imp id (fun hrest ↦ hrest.imp (fun hdirty ↦ ?_) ?_)
    · rwa [PathView.Dirty, hhandles]
    · exact hkept w hc
  marked hp c hc := by
    rw [hphase] at hp
    exact hkept c hc (h.marked hp c (hbytes c hc))

/-- A put that fails leaves kept bytes kept, whether it reached the backend or not. -/
private theorem kept_putting {u : Upload} {rest : Multiset Upload} (h : Kept p v c)
    (hu : v.uploads = u ::ₘ rest) (hattempting : u.attempting) (reached : Bool)
    (hsidecar : v'.sidecar = v.sidecar) (hobject : v'.object = (v.putting u reached).object)
    (huploads : ∀ u' ∈ v'.uploads, u'.data = u.data) : Kept p v' c := by
  refine (h.data hu hattempting).imp (fun hside ↦ hsidecar.trans hside) (fun ⟨hobj, hdata⟩ ↦ ?_)
  refine ⟨?_, fun u' hu' _ ↦ (huploads u' hu').trans hdata⟩
  rw [hobject, PathView.putting]
  split
  · rw [← hdata]
  · exact hobj

private theorem kept_of_past (h : Kept p v c) (hsidecar : v'.sidecar = v.sidecar)
    (hobject : v'.object = v.object) (huploads : ∀ u' ∈ v'.uploads, u'.attempting = false) :
    Kept p v' c := by
  refine h.imp (fun hside ↦ hsidecar.trans hside) (fun hobj ↦ ⟨hobject.trans hobj.1, ?_⟩)
  intro u' hu' hattempting
  rw [huploads u' hu'] at hattempting
  cases hattempting

/-- One move keeps the marking. -/
theorem Marking.step (h : Marking p n v) (hstep : PathStep sidecars p n v v') :
    Marking p n v' := by
  have hsound := h.sound.step hstep
  cases hstep with
  | stay => exact h
  | writeStart hphase | writeFailed hphase | syncStart due hphase hdue =>
    refine ⟨hsound, fun w hw hc ↦ .inr ?_, by simp⟩
    exact (h.latest w hw hc).resolve_left (by simp [hphase])
  | buffered fh wh w hphase hopen hlinked => exact ⟨hsound, fun _ _ _ ↦ .inl ⟨fh, rfl⟩, by simp⟩
  | offered fh t hphase ht =>
    have hphase' : (v.enqueue t).phase = .written fh := by
      unfold PathView.enqueue
      split <;> exact hphase
    exact ⟨hsound, fun _ _ _ ↦ .inl ⟨fh, hphase'⟩, by simp [hphase']⟩
  | finished fh wh hphase hdirty =>
    exact ⟨hsound, fun _ _ _ ↦ .inr (.inl ⟨fh, .write wh, by simp, hdirty⟩), by simp⟩
  | marked due failed hphase hmark =>
    have hkept : ∀ c, v.bytes = some c →
        Kept p { v with
          sidecar := if due && !failed then some p else v.sidecar
          phase := .marked due } c := by
      intro c hc
      have hdue : due = true := by
        cases due with
        | true => rfl
        | false =>
          rw [h.sound.due (.inl hphase)] at hc
          cases hc
      have hfailed : failed = false := hmark
      exact .inl (by simp [hdue, hfailed])
    exact ⟨hsound, fun w _ hc ↦ .inr (.inr (hkept w hc)), fun _ c hc ↦ hkept c hc⟩
  | handedOver due sends t hphase hover hsends ht =>
    have hsame : (if sends then v.enqueue t else v).bytes = v.bytes ∧
        (if sends then v.enqueue t else v).sidecar = v.sidecar ∧
        (if sends then v.enqueue t else v).object = v.object ∧
        (if sends then v.enqueue t else v).uploads = v.uploads := by
      unfold PathView.enqueue
      split
      · split <;> exact ⟨rfl, rfl, rfl, rfl⟩
      · exact ⟨rfl, rfl, rfl, rfl⟩
    obtain ⟨hbytes, hsidecar, hobject, huploads⟩ := hsame
    have hkept : ∀ c, v.bytes = some c →
        Kept p { (if sends then v.enqueue t else v) with phase := .synced } c := by
      intro c hc
      have hold := h.marked (.inl ⟨due, hphase⟩) c hc
      simpa only [Kept, hsidecar, hobject, huploads] using hold
    exact ⟨hsound, fun w _ hc ↦ .inr (.inr (hkept w (hbytes ▸ hc))),
      fun _ c hc ↦ hkept c (hbytes ▸ hc)⟩
  | settled handles hphase =>
    exact ⟨hsound, fun w _ hc ↦ .inr (.inr (h.marked (.inr hphase) w hc)), by simp⟩
  | released handles hphase hkept =>
    refine ⟨hsound, fun w hw hc ↦ .inr ?_, by simp [hphase]⟩
    refine ((h.latest w hw hc).resolve_left (by simp [hphase])).imp ?_ id
    rintro ⟨fh, hh, hlookup, hdirty⟩
    exact ⟨fh, hh, hkept fh hh hlookup hdirty, hdirty⟩
  | dequeued t rest c ht hbytes =>
    refine h.of_worker hsound rfl rfl rfl (fun _ hc ↦ hc) (fun c' hc' hkept ↦ ?_)
    refine hkept.imp id (fun hobject ↦ ⟨hobject.1, ?_⟩)
    have hdata : c = c' := Option.some.inj (hbytes.symm.trans hc')
    rw [(h.sound.alone_waiting ht).2]
    simp [hdata]
  | vanished t rest ht hbytes =>
    refine h.of_worker hsound rfl rfl rfl (fun _ hc ↦ hc) (fun c hc _ ↦ ?_)
    exact absurd (hbytes.symm.trans hc) (by simp)
  | put u rest hu hstage hput =>
    refine h.of_worker hsound rfl rfl rfl (fun _ hc ↦ hc)
      (fun c hc hkept ↦ kept_putting hkept hu hstage true rfl rfl ?_)
    rw [(h.sound.alone hu).1]
    simp
  | retried u rest reached k hu hstage hput | resent u rest reached t hu hstage hput ht
  | gaveUp u rest reached hu hstage hput =>
    refine h.of_worker hsound rfl rfl rfl (fun _ hc ↦ hc)
      (fun c hc hkept ↦ kept_putting hkept hu hstage reached rfl rfl ?_)
    rw [(h.sound.alone hu).1]
    simp
  | sidecarDropped u rest hu hstage hdrop =>
    have hlanded := h.sound.landed u (by simp [hu]) (by simp [Upload.attempting, hstage])
    -- the bytes the sidecar was for are on the backend
    have hkept : v.bytes = some u.data → ∀ c, v.bytes = some c →
        Kept p { v with
          sidecar := none, uploads := { u with stage := .removeCache } ::ₘ rest } c := by
      intro hsame c hc
      refine .inr ⟨hlanded.trans (hsame.symm.trans hc), ?_⟩
      rw [(h.sound.alone hu).1]
      simp [Upload.attempting]
    rcases hdrop with hnone | hsame | ⟨fh, hphase⟩ | ⟨hdirty, htrue, hfalse, hsynced⟩
    · refine ⟨hsound, fun w _ hc ↦ ?_, fun _ c hc ↦ ?_⟩ <;>
        exact absurd (hnone.symm.trans hc) (by simp)
    · exact ⟨hsound, fun w _ hc ↦ .inr (.inr (hkept hsame w hc)), fun _ c hc ↦ hkept hsame c hc⟩
    · exact ⟨hsound, fun _ _ _ ↦ .inl ⟨fh, hphase⟩, by simp [hphase]⟩
    · refine ⟨hsound, fun _ _ _ ↦ .inr (.inl hdirty), ?_⟩
      rintro (⟨due, hphase⟩ | hphase)
      · cases due
        · exact absurd hphase hfalse
        · exact absurd hphase htrue
      · exact absurd hphase hsynced
  | cacheDropped u rest hu hstage hdrop =>
    refine h.of_worker hsound rfl rfl rfl (fun c hc ↦ ?_)
      (fun c hc hkept ↦ kept_of_past hkept rfl rfl ?_)
    · by_cases hdel : u.task.deleteCacheOnSuccess = true
      · simp [hdel] at hc
      · simpa [hdel] using hc
    · rw [(h.sound.alone hu).1]
      simp [Upload.attempting]
  | compared u rest hu hstage | bufferDropped u rest hu hstage =>
    refine h.of_worker hsound rfl rfl rfl (fun _ hc ↦ hc)
      (fun c hc hkept ↦ kept_of_past hkept rfl rfl ?_)
    rw [(h.sound.alone hu).1]
    simp [Upload.attempting]
  | cleared u rest hu hstage =>
    refine h.of_worker hsound rfl rfl rfl (fun _ hc ↦ hc)
      (fun c hc hkept ↦ kept_of_past hkept rfl rfl ?_)
    rw [(h.sound.alone hu).1]
    simp

end

/-! ### Recovery -/

section

variable {cfg : Config} {unreadable : CacheName → Bool} {fs fs' : MntrsFs} {n m : CacheName}
  {names : List CacheName}

/-- The task that the recovery of a sidecar sends, if it sends one. -/
def sidecarTask (cfg : Config) (unreadable : CacheName → Bool) (fs : MntrsFs) (n : CacheName) :
    Option WritebackTask :=
  if fs.disk.exists? n ∧ unreadable n = false then
    (fs.disk.dirty n).map fun text ↦
      ⟨inoRecoverySentinel, trim text, n, none, cfg.cacheMode.deleteCacheOnSuccess, 0⟩
  else none

/-- A recovery keeps the cache files, the sidecars beside them and the ends of the channel, and
sends the tasks of the sidecars it comes past. -/
structure Recovers (cfg : Config) (unreadable : CacheName → Bool) (names : List CacheName)
    (fs fs' : MntrsFs) : Prop where
  whole : fs'.disk.whole = fs.disk.whole
  data : fs'.disk.data = fs.disk.data
  dirty : ∀ n, fs.disk.exists? n = true ∨ n ∉ names → fs'.disk.dirty n = fs.disk.dirty n
  sender : fs'.writebackSender = fs.writebackSender
  alive : fs'.receiverAlive = fs.receiverAlive
  chan : fs.writebackSender = true → fs.receiverAlive = true →
    fs'.writeback.chan = fs.writeback.chan ++ names.filterMap (sidecarTask cfg unreadable fs)

private theorem Recovers.sidecarTask_eq (h : Recovers cfg unreadable names fs fs') :
    sidecarTask cfg unreadable fs' = sidecarTask cfg unreadable fs := by
  funext n
  have hexists : fs'.disk.exists? n = fs.disk.exists? n := by rw [Disk.exists?, h.whole]; rfl
  unfold sidecarTask
  rw [hexists]
  split
  · next hn => rw [h.dirty n (.inl hn.1)]
  · rfl

section

variable (cfg unreadable)

private theorem recovers_recoverSidecar (fs : MntrsFs) (stats : RecoveryStats) (m : CacheName) :
    Recovers cfg unreadable [m] fs (recoverSidecar cfg unreadable fs stats m).1 ∧
      ((fs.disk.dirty m).isSome →
        (recoverSidecar cfg unreadable fs stats m).2.total = stats.total + 1) := by
  unfold recoverSidecar
  split
  · next hnone =>
    refine ⟨⟨rfl, rfl, fun _ _ ↦ rfl, rfl, rfl, fun _ _ ↦ ?_⟩, by simp [hnone]⟩
    simp [sidecarTask, hnone]
  · next text hdirty =>
    split
    · next hgone =>
      refine ⟨⟨rfl, rfl, fun n hn ↦ ?_, rfl, rfl, fun _ _ ↦ ?_⟩, fun _ ↦ ?_⟩
      · have hne : n ≠ m := by
          rintro rfl
          simp [hgone] at hn
        simp [Disk.removeDirty, hne]
      · simp [sidecarTask, hgone]
      · simp only [RecoveryStats.total]
        omega
    · next hexists =>
      split
      · next hread =>
        refine ⟨⟨rfl, rfl, fun _ _ ↦ rfl, rfl, rfl, fun _ _ ↦ ?_⟩, fun _ ↦ ?_⟩
        · simp [sidecarTask, hread]
        · simp only [RecoveryStats.total]
          omega
      · next hread =>
        split
        · next hnone =>
          refine ⟨⟨rfl, rfl, fun _ _ ↦ rfl, rfl, rfl, fun hsender ↦ ?_⟩, fun _ ↦ ?_⟩
          · rw [hnone] at hsender
            cases hsender
          · simp only [RecoveryStats.total]
            omega
        · split
          · refine ⟨⟨rfl, rfl, fun _ _ ↦ rfl, rfl, rfl, fun _ _ ↦ ?_⟩, fun _ ↦ ?_⟩
            · simp [sidecarTask, hexists, hread, hdirty, DedupQueue.post]
            · simp only [RecoveryStats.total]
              omega
          · next hdead =>
            refine ⟨⟨rfl, rfl, fun _ _ ↦ rfl, rfl, rfl, fun _ halive ↦ ?_⟩, fun _ ↦ ?_⟩
            · exact absurd halive hdead
            · simp only [RecoveryStats.total]
              omega

private theorem recovers_foldl (names : List CacheName) (fs : MntrsFs) (stats : RecoveryStats) :
    Recovers cfg unreadable names fs (names.foldl (fun (fs, stats) m ↦
      recoverSidecar cfg unreadable fs stats m) (fs, stats)).1 ∧
      (names.Nodup → (∀ n ∈ names, (fs.disk.dirty n).isSome) → (names.foldl (fun (fs, stats) m ↦
        recoverSidecar cfg unreadable fs stats m) (fs, stats)).2.total =
          stats.total + names.length) := by
  induction names generalizing fs stats with
  | nil => exact ⟨⟨rfl, rfl, fun _ _ ↦ rfl, rfl, rfl, fun _ _ ↦ by simp⟩, fun _ _ ↦ rfl⟩
  | cons m names ih =>
    rw [List.foldl_cons]
    obtain ⟨hfirst, hcount⟩ := recovers_recoverSidecar cfg unreadable fs stats m
    set fs₁ := (recoverSidecar cfg unreadable fs stats m).1
    obtain ⟨hrest, hrestCount⟩ := ih fs₁ (recoverSidecar cfg unreadable fs stats m).2
    refine ⟨⟨hrest.whole.trans hfirst.whole, hrest.data.trans hfirst.data, fun n hn ↦ ?_,
      hrest.sender.trans hfirst.sender, hrest.alive.trans hfirst.alive, fun hsender halive ↦ ?_⟩,
      fun hnodup hdirty ↦ ?_⟩
    · have hexists : fs₁.disk.exists? n = fs.disk.exists? n := by
        rw [Disk.exists?, hfirst.whole]
        rfl
      refine (hrest.dirty n ?_).trans (hfirst.dirty n ?_)
      · exact hn.imp (hexists.trans ·) (fun h ↦ fun hmem ↦ h (List.mem_cons_of_mem m hmem))
      · exact hn.imp id (fun h ↦ fun hmem ↦ h (List.mem_singleton.mp hmem ▸ List.mem_cons_self))
    · have hchan := hrest.chan (hfirst.sender.trans hsender) (hfirst.alive.trans halive)
      rw [hfirst.chan hsender halive, hfirst.sidecarTask_eq] at hchan
      rw [hchan, List.append_assoc, ← List.filterMap_append]
      rfl
    · obtain ⟨hout, hnodup⟩ := List.nodup_cons.mp hnodup
      rw [List.forall_mem_cons] at hdirty
      rw [hrestCount hnodup fun n hn ↦ ?_, hcount hdirty.1, List.length_cons]
      · omega
      · rw [hfirst.dirty n (.inr fun hmem ↦ hout (List.mem_singleton.mp hmem ▸ hn))]
        exact hdirty.2 n hn

/-- What a recovery does to the mount, and that it counts every sidecar of a directory once. -/
theorem recovers_recoverDirtySidecars (names : List CacheName) (fs : MntrsFs) :
    Recovers cfg unreadable names fs (recoverDirtySidecars cfg unreadable names fs).1 ∧
      (names.Nodup → (∀ n ∈ names, (fs.disk.dirty n).isSome) →
        (recoverDirtySidecars cfg unreadable names fs).2.total = names.length) := by
  obtain ⟨hrecovers, htotal⟩ := recovers_foldl cfg unreadable names fs ⟨0, 0, 0, 0, 0⟩
  exact ⟨hrecovers, fun hnodup hdirty ↦ (htotal hnodup hdirty).trans (Nat.zero_add _)⟩

end

/-- A cache directory after a crash: the paths have names of their own, each has its cache file and
the sidecar that a flush or release wrote, which can be read; the other sidecars have no cache file;
and the scan yields every sidecar once. -/
structure DirtyDirectory (cfg : Config) (unreadable : CacheName → Bool) (paths : List Path)
    (names : List CacheName) (fs : MntrsFs) : Prop where
  distinct : (paths.map cfg.writeBufferPath).Nodup
  marked : ∀ p ∈ paths, fs.disk.exists? (cfg.writeBufferPath p) = true ∧
    fs.disk.dirty (cfg.writeBufferPath p) = some p ∧ unreadable (cfg.writeBufferPath p) = false
  orphans : ∀ n ∈ names, fs.disk.exists? n = true → ∃ p ∈ paths, cfg.writeBufferPath p = n
  nodup : names.Nodup
  scan : ∀ n, n ∈ names ↔ (fs.disk.dirty n).isSome

/-- The recovery sends one task for each path, with that path and its cache file, removes only
sidecars without a cache file, and counts every sidecar. -/
def RoundTrips (cfg : Config) (unreadable : CacheName → Bool) (paths : List Path)
    (names : List CacheName) (fs : MntrsFs) : Prop :=
  let (fs', stats) := recoverDirtySidecars cfg unreadable names fs
  (∃ tasks, fs'.writeback.chan = fs.writeback.chan ++ tasks ∧
    (tasks.map fun t ↦ (t.remotePath, t.writeBufferPath)).Perm
      (paths.map fun p ↦ (p, cfg.writeBufferPath p))) ∧
  (∀ n, fs'.disk.dirty n ≠ fs.disk.dirty n → fs.disk.exists? n = false) ∧
  stats.total = names.length

/-- The tasks of the paths, up to the order of the scan. -/
private theorem DirtyDirectory.tasks {paths : List Path}
    (h : DirtyDirectory cfg unreadable paths names fs) :
    ((names.filterMap (sidecarTask cfg unreadable fs)).map
      fun t ↦ (t.remotePath, t.writeBufferPath)).Perm
        (paths.map fun p ↦ (trim p, cfg.writeBufferPath p)) := by
  have hnames : (names.filter fs.disk.exists?).Perm (paths.map cfg.writeBufferPath) := by
    refine (List.perm_ext_iff_of_nodup (h.nodup.filter _) h.distinct).mpr fun n ↦ ?_
    rw [List.mem_filter, List.mem_map]
    constructor
    · exact fun ⟨hn, hexists⟩ ↦ h.orphans n hn hexists
    · rintro ⟨p, hp, rfl⟩
      exact ⟨(h.scan _).mpr (by simp [(h.marked p hp).2.1]), (h.marked p hp).1⟩
  have hfilter : names.filterMap (sidecarTask cfg unreadable fs) =
      (names.filter fs.disk.exists?).filterMap (sidecarTask cfg unreadable fs) := by
    rw [List.filterMap_filter]
    refine List.filterMap_congr fun n _ ↦ ?_
    cases hexists : fs.disk.exists? n <;> simp [sidecarTask, hexists]
  have hpaths : (paths.map cfg.writeBufferPath).filterMap (sidecarTask cfg unreadable fs) =
      paths.map fun p ↦ ⟨inoRecoverySentinel, trim p, cfg.writeBufferPath p, none,
        cfg.cacheMode.deleteCacheOnSuccess, 0⟩ := by
    rw [List.filterMap_map, ← List.filterMap_eq_map]
    refine List.filterMap_congr fun p hp ↦ ?_
    simp [sidecarTask, h.marked p hp]
  rw [hfilter]
  have hperm := hnames.filterMap (sidecarTask cfg unreadable fs)
  rw [hpaths] at hperm
  simpa [Function.comp_def] using hperm.map fun t ↦ (t.remotePath, t.writeBufferPath)

/-- The recovery trims what it reads, so the round trip is exact for exactly the paths without
leading and trailing blanks. -/
theorem recovery_round_trip_iff {paths : List Path}
    (h : DirtyDirectory cfg unreadable paths names fs) (hsender : fs.writebackSender = true)
    (halive : fs.receiverAlive = true) :
    RoundTrips cfg unreadable paths names fs ↔ ∀ p ∈ paths, trim p = p := by
  obtain ⟨hrecovers, hcount⟩ := recovers_recoverDirtySidecars cfg unreadable names fs
  have hchan := hrecovers.chan hsender halive
  constructor
  · rintro ⟨⟨tasks, htasks, hperm⟩, -⟩ p hp
    obtain rfl := List.append_cancel_left (htasks.symm.trans hchan)
    have hmem : (trim p, cfg.writeBufferPath p) ∈ paths.map fun p ↦ (p, cfg.writeBufferPath p) :=
      (h.tasks.symm.trans hperm).mem_iff.mp (List.mem_map_of_mem hp)
    obtain ⟨q, hq, heq⟩ := List.mem_map.mp hmem
    obtain ⟨hpath, hname⟩ := Prod.mk.inj heq
    rw [← hpath, List.inj_on_of_nodup_map h.distinct hq hp hname]
  · intro htrim
    refine ⟨⟨_, hchan, ?_⟩, fun n hne ↦ ?_, hcount h.nodup fun n hn ↦ (h.scan n).mp hn⟩
    · refine h.tasks.trans (List.Perm.of_eq (List.map_congr_left fun p hp ↦ ?_))
      rw [htrim p hp]
    · by_contra hexists
      exact hne (hrecovers.dirty n (.inl (by simpa using hexists)))

/-- A directory with the cache file and the sidecar of a path. -/
def flushedOnce (p : Path) : MntrsFs :=
  let n := (Config.plain .writes).writeBufferPath p
  .mounted (fun _ ↦ none) ((Disk.empty.create n [7] 0).writeDirty n p)

private theorem dirtyDirectory_flushedOnce (p : Path) :
    DirtyDirectory (.plain .writes) (fun _ ↦ false) [p]
      [(Config.plain .writes).writeBufferPath p] (flushedOnce p) where
  distinct := List.nodup_singleton _
  marked := by simp [flushedOnce, MntrsFs.mounted, Disk.create, Disk.writeDirty, Disk.exists?]
  orphans := by simp
  nodup := List.nodup_singleton _
  scan n := by
    by_cases hn : n = (Config.plain .writes).writeBufferPath p <;>
      simp [flushedOnce, MntrsFs.mounted, Disk.create, Disk.writeDirty, Disk.empty, Disk.setData,
        hn]

theorem recovery_round_trip_iff_sample :
    RoundTrips (.plain .writes) (fun _ ↦ false) [['a']]
      [(Config.plain .writes).writeBufferPath ['a']] (flushedOnce ['a']) :=
  (recovery_round_trip_iff (dirtyDirectory_flushedOnce ['a']) rfl rfl).mpr (by decide)

/-- The file `a ` is sent to `a`. -/
theorem trailing_blank_is_lost :
    DirtyDirectory (.plain .writes) (fun _ ↦ false) [['a', ' ']]
      [(Config.plain .writes).writeBufferPath ['a', ' ']] (flushedOnce ['a', ' ']) ∧
    (recoverDirtySidecars (.plain .writes) (fun _ ↦ false)
      [(Config.plain .writes).writeBufferPath ['a', ' ']]
      (flushedOnce ['a', ' '])).1.writeback.chan.map WritebackTask.remotePath = [['a']] :=
  ⟨dirtyDirectory_flushedOnce _, by decide⟩

end

/-! ### Crashes -/

/-- All writes of the path have been flushed or released. -/
def Flushed (p : Path) (s : Sys) : Prop :=
  s.call.isIdle = true ∧ ∀ e ∈ s.fs.handles.entries, e.2.path = p → e.2.isDirty = false

/-- Uploads remove only sidecars of the bytes they put. -/
def ownSidecars : Discipline where
  mark failed := failed = false
  handOver _ := True
  put _ := True
  dropSidecar v u := v.bytes = some u.data

instance ownSidecars.decidableMark : DecidablePred ownSidecars.mark := fun failed ↦
  inferInstanceAs (Decidable (failed = false))

instance ownSidecars.decidableHandOver : DecidablePred ownSidecars.handOver := fun _ ↦
  isTrue trivial

instance ownSidecars.decidablePut : DecidablePred ownSidecars.put := fun _ ↦ isTrue trivial

instance ownSidecars.decidableDropSidecar (v : PathView) (u : Upload) :
    Decidable (ownSidecars.dropSidecar v u) := inferInstanceAs (Decidable (v.bytes = some u.data))

instance Flushed.decidable (p : Path) (s : Sys) : Decidable (Flushed p s) :=
  inferInstanceAs (Decidable (_ ∧ ∀ e ∈ s.fs.handles.entries, _ → _))

end Mntrs

import Mntrs.Fs.Read

/-!
# What a write leaves in the cache file

The disk-buffered branch of `MntrsFs::write` (`src/src/lib.rs:5651-5691,5859-5884`) as a function
on file contents. The handler overlays the data on the file cut at the end of the write, with
the hole before the write taken from the backend as long as it is at most `gapBackfillMax`
long. A write that ends at or past the end of the file is therefore a POSIX write.
-/

namespace Mntrs

open Base

/-- One write request and the outcomes of the calls it makes. -/
structure WriteRequest where
  ino : Ino
  fh : Fh
  offset : Nat
  data : Bytes
  env : WriteEnv
deriving DecidableEq, Repr

namespace WriteRequest

/-- The position after the last byte of a request. -/
def stop (r : WriteRequest) : Nat := r.offset + r.data.length

end WriteRequest

/-- The byte a hole gets: the backend's where it has one and the hole is not above the cap. -/
def gapFill (obj : Option Bytes) (curLen offset i : Nat) : UInt8 :=
  if offset - curLen ≤ gapBackfillMax then (obj.getD []).getD i 0 else 0

/-- The contents a request is meant to leave. -/
def requestOverlay (obj : Option Bytes) (cur : Bytes) (r : WriteRequest) : Bytes :=
  overlay (gapFill obj cur.length r.offset) cur r.offset r.data

/-- A handle is open for writing on a host file. -/
def OpenOn (fs : MntrsFs) (fh : Fh) (path : Path) (f : FileId) : Prop :=
  ∃ h, fs.handles.lookup fh = some (.write h) ∧ h.path = path ∧ h.writeBufferFd = some f

/-- Run requests one after the other; `none` as soon as one fails. -/
def writeAll (cfg : Config) : MntrsFs → List WriteRequest → Option MntrsFs
  | fs, [] => some fs
  | fs, r :: rs =>
    match write cfg fs r.ino r.fh r.offset r.data r.env with
    | (.ok _, fs) => writeAll cfg fs rs
    | (.error _, _) => none

/-- The descriptor branch, as a function on contents. -/
def fileAfter (cur : Bytes) (gap : Option Bytes) (offset : Nat) (data : Bytes) : Bytes :=
  writeAt 0 (setLen 0 (backfill cur gap offset) (offset + data.length)) offset data

variable {offset : Nat} {env : WriteEnv}

/-- The gap fetch and the descriptor branch together overlay the file cut at the end of the
write. -/
theorem fileAfter_eq_overlay {cfg : Config} {fs : MntrsFs} {fh : Fh} {path : Path} {f : FileId}
    {gap : Option Bytes} (data : Bytes)
    (hgap : fetchGap cfg fs fh path (some f) offset env = .ok gap) :
    fileAfter (fs.disk.data f) gap offset data =
      overlay (gapFill (fs.backend path) (fs.disk.data f).length offset)
        ((fs.disk.data f).take (offset + data.length)) offset data := by
  set cur := fs.disk.data f with hcur
  by_cases hhole : cur.length < offset
  · have hpos : offset ≠ 0 := by omega
    have hcut : cur.take (offset + data.length) = cur := List.take_of_length_le (by omega)
    simp only [fetchGap, hpos, if_false, ← hcur, hhole, if_true] at hgap
    by_cases hcap : offset - cur.length ≤ gapBackfillMax
    · rw [if_pos hcap] at hgap
      cases hobj : fs.backend path with
      | none =>
        cases henv : env.gapRead <;> simp [readRange, hobj, henv] at hgap
      | some obj =>
        cases henv : env.gapRead with
        | some e => simp [readRange, henv] at hgap
        | none =>
          simp only [readRange, henv, hobj, Except.ok.injEq] at hgap
          subst hgap
          have hlen := length_slice_le obj cur.length offset
          have hback : backfill cur (some (slice obj cur.length offset)) offset =
              cur ++ slice obj cur.length offset := by
            simp [backfill, hhole, writeAt_length]
          rw [fileAfter, hback, writeAt_setLen, hcut,
            List.take_of_length_le (by rw [List.length_append]; omega),
            overlay_append 0 cur _ data (by omega)]
          apply overlay_congr_fill
          intro i hi hio
          rw [List.getD_eq_getElem?_getD, getElem?_slice obj (by omega), gapFill, if_pos hcap,
            ]
          congr 2
          omega
    · rw [if_neg hcap] at hgap
      cases hgap
      rw [fileAfter, writeAt_setLen]
      apply overlay_congr_fill
      intro i _ _
      simp [gapFill, hcap]
  · -- no hole: nothing is fetched and the fill is never looked at
    have hnone : gap = none := by
      by_cases h0 : offset = 0
      · simp only [fetchGap, h0, if_true, Except.ok.injEq] at hgap
        exact hgap.symm
      · simp only [fetchGap, h0, if_false, ← hcur, hhole, Except.ok.injEq] at hgap
        exact hgap.symm
    subst hnone
    rw [fileAfter, backfill, writeAt_setLen]
    apply overlay_congr_fill
    intro i hi hio
    rw [List.length_take] at hi
    omega

section OpenDescriptor

variable {cfg : Config} {fs : MntrsFs} {fh : Fh} {path : Path} {f : FileId}

theorem OpenOn.writeTarget_eq (h : OpenOn fs fh path f) :
    writeTarget fs fh = some (path, some f) := by
  obtain ⟨w, hw, rfl, hfd⟩ := h
  simp [writeTarget, hw, hfd]

theorem OpenOn.insert_write (h : OpenOn fs fh path f) {fh' : Fh} {w w' : WriteHandle}
    (hw : fs.handles.lookup fh' = some (.write w)) (hpath : w'.path = w.path)
    (hfd : w'.writeBufferFd = w.writeBufferFd) :
    OpenOn { fs with handles := fs.handles.insert fh' (.write w') } fh path f := by
  obtain ⟨x, hx, hxpath, hxfd⟩ := h
  by_cases hfh : fh = fh'
  · subst hfh
    rw [hx] at hw
    cases hw
    exact ⟨w', AList.lookup_insert _, hpath.trans hxpath, hfd.trans hxfd⟩
  · exact ⟨x, (AList.lookup_insert_ne hfh).trans hx, hxpath, hxfd⟩

/-- A descriptor branch that succeeds sets the contents of its file and nothing else. -/
theorem writeFile_ok {c : WriteCall} (hok : (writeFile fs f c).1 = .ok ()) :
    (writeFile fs f c).2 =
      { fs with
        disk := fs.disk.setData f (fileAfter (fs.disk.data f) c.gap c.offset c.data)
          c.env.now } := by
  unfold writeFile at hok ⊢
  simp only at hok ⊢
  split
  · next hcut => simp [hcut] at hok
  · next hcut =>
    cases hdata : c.env.dataCut with
    | none => rfl
    | some k => simp [hcut, hdata] at hok

/-- After the descriptor branch a write through a write handle changes no host file, no
backend object and no handle but for its flags. -/
theorem writeFinish_keeps {c : WriteCall} {w : WriteHandle}
    (hw : fs.handles.lookup c.fh = some (.write w)) :
    (writeFinish cfg (writeEnqueue cfg fs c) c).disk.data = fs.disk.data ∧
    (writeFinish cfg (writeEnqueue cfg fs c) c).backend = fs.backend ∧
    ∀ fh path f, OpenOn fs fh path f →
      OpenOn (writeFinish cfg (writeEnqueue cfg fs c) c) fh path f := by
  have hhandles : (writeIndex cfg (writeEnqueue cfg fs c) c).handles = fs.handles := by
    rw [writeIndex_frame, writeEnqueue_frame]
  have hw' : (writeIndex cfg (writeEnqueue cfg fs c) c).handles.lookup c.fh =
      some (.write w) := by
    rw [hhandles, hw]
  rw [writeFinish, markDirty_of_write hw']
  refine ⟨?_, ?_, ?_⟩
  · rw [data_writeIndex, writeEnqueue_frame]
  · rw [writeIndex_frame, writeEnqueue_frame]
  · intro fh path f hopen
    refine OpenOn.insert_write ?_ hw' rfl rfl
    obtain ⟨x, hx, hrest⟩ := hopen
    exact ⟨x, hhandles ▸ hx, hrest⟩

/-- A write through an open descriptor that succeeds fetched its gap, set the contents of its
file, and changed no backend object and no handle but for its flags. -/
theorem write_ok_of_open (hmode : cfg.cacheMode.diskWriteBuffer) (hdirect : cfg.directIo = false)
    (hopen : OpenOn fs fh path f) {ino : Ino} {n : Nat} {data : Bytes}
    (hok : (write cfg fs ino fh offset data env).1 = .ok n) :
    ∃ gap, fetchGap cfg fs fh path (some f) offset env = .ok gap ∧
      (write cfg fs ino fh offset data env).2.disk.data =
        Function.update fs.disk.data f (fileAfter (fs.disk.data f) gap offset data) ∧
      (write cfg fs ino fh offset data env).2.backend = fs.backend ∧
      ∀ fh' path' f', OpenOn fs fh' path' f' →
        OpenOn (write cfg fs ino fh offset data env).2 fh' path' f' := by
  have htarget := hopen.writeTarget_eq
  cases hgap : fetchGap cfg fs fh path (some f) offset env with
  | error e => simp [write, writeBegin, htarget, hdirect, hgap] at hok
  | ok gap =>
    refine ⟨gap, rfl, ?_⟩
    set c : WriteCall := ⟨ino, fh, path, some f, offset, data, gap, env⟩ with hc
    have hwrite : write cfg fs ino fh offset data env = writeRest cfg fs c := by
      simp [write, writeBegin, htarget, hdirect, hgap, hc]
    have hbuffer : writeBuffer cfg fs c = writeFile fs f c := by simp [writeBuffer, hmode, hc]
    rw [hwrite, writeRest, hbuffer] at hok ⊢
    cases hfile : writeFile fs f c with
    | mk result fs' =>
      cases result with
      | error e => simp [hfile] at hok
      | ok u =>
        have hfs' := writeFile_ok (show (writeFile fs f c).1 = .ok () by rw [hfile])
        rw [hfile] at hfs'
        simp only at hfs'
        obtain ⟨w, hw, -⟩ := id hopen
        have hw' : fs'.handles.lookup c.fh = some (.write w) := by rw [hfs']; exact hw
        obtain ⟨hdata, hbackend, hkeep⟩ := @writeFinish_keeps cfg _ c w hw'
        refine ⟨hdata.trans (by rw [hfs']; rfl), hbackend.trans (by rw [hfs']), ?_⟩
        intro fh' path' f' hopen'
        apply hkeep
        rw [hfs']
        exact hopen'

/-- A successful write through a descriptor overlays the file cut at the end of the write. -/
theorem write_data_eq (hmode : cfg.cacheMode.diskWriteBuffer) (hdirect : cfg.directIo = false)
    (hopen : OpenOn fs fh path f) {ino : Ino} {n : Nat} {data : Bytes}
    (hok : (write cfg fs ino fh offset data env).1 = .ok n) :
    (write cfg fs ino fh offset data env).2.disk.data f =
      overlay (gapFill (fs.backend path) (fs.disk.data f).length offset)
        ((fs.disk.data f).take (offset + data.length)) offset data := by
  obtain ⟨gap, hgap, hdata, -, -⟩ := write_ok_of_open hmode hdirect hopen hok
  rw [hdata, Function.update_self, fileAfter_eq_overlay data hgap]

/-- Successful writes that each end at or past the end of the file leave the overlay of one
after the other. -/
theorem writeAll_data_eq (hmode : cfg.cacheMode.diskWriteBuffer)
    (hdirect : cfg.directIo = false) {reqs : List WriteRequest} {fs' : MntrsFs}
    (hopen : ∀ r ∈ reqs, OpenOn fs r.fh path f) (hrun : writeAll cfg fs reqs = some fs')
    (hends : List.IsChain (· ≤ ·) ((fs.disk.data f).length :: reqs.map WriteRequest.stop)) :
    fs'.disk.data f = reqs.foldl (requestOverlay (fs.backend path)) (fs.disk.data f) := by
  induction reqs generalizing fs with
  | nil =>
    cases hrun
    rfl
  | cons r rs ih =>
    obtain ⟨hend, hrest⟩ := List.isChain_cons_cons.mp hends
    have hr := hopen r List.mem_cons_self
    rw [writeAll] at hrun
    cases hw : write cfg fs r.ino r.fh r.offset r.data r.env with
    | mk result fs₁ =>
      cases result with
      | error e => simp [hw] at hrun
      | ok n =>
        rw [hw] at hrun
        have hok : (write cfg fs r.ino r.fh r.offset r.data r.env).1 = .ok n := by rw [hw]
        obtain ⟨-, -, -, hbackend, hkeep⟩ := write_ok_of_open hmode hdirect hr hok
        have hdata := write_data_eq hmode hdirect hr hok
        rw [hw] at hbackend hkeep hdata
        have hdata₁ : fs₁.disk.data f = requestOverlay (fs.backend path) (fs.disk.data f) r := by
          rw [hdata, List.take_of_length_le (show _ ≤ r.offset + r.data.length from hend)]
          rfl
        have hlen : (fs₁.disk.data f).length = r.stop := by
          rw [hdata₁, requestOverlay, length_overlay]
          exact Nat.max_eq_right hend
        have htail := ih (fun r' hr' ↦ hkeep _ _ _ (hopen r' (List.mem_cons_of_mem r hr'))) hrun
          (by rw [hlen]; exact hrest)
        rw [htail, hdata₁, hbackend, List.foldl_cons]

end OpenDescriptor

/-- In the disk-buffered modes a successful write through a descriptor that ends at or past the
end of the cache file is a POSIX write whose hole is filled from the backend up to the cap, and
a sequence of such writes leaves their sequential overlay. -/
theorem write_overlays_cache_file {cfg : Config} (hmode : cfg.cacheMode.diskWriteBuffer = true)
    (hdirect : cfg.directIo = false) :
    (∀ fs path f (r : WriteRequest) n, OpenOn fs r.fh path f →
      (write cfg fs r.ino r.fh r.offset r.data r.env).1 = .ok n →
      (fs.disk.data f).length ≤ r.stop →
      IsOverlay (gapFill (fs.backend path) (fs.disk.data f).length r.offset) (fs.disk.data f)
        r.offset r.data ((write cfg fs r.ino r.fh r.offset r.data r.env).2.disk.data f)) ∧
    (∀ fs path f (reqs : List WriteRequest) fs', (∀ r ∈ reqs, OpenOn fs r.fh path f) →
      writeAll cfg fs reqs = some fs' →
      List.IsChain (· ≤ ·) ((fs.disk.data f).length :: reqs.map WriteRequest.stop) →
      fs'.disk.data f = reqs.foldl (requestOverlay (fs.backend path)) (fs.disk.data f)) := by
  constructor
  · intro fs path f r n hopen hok hend
    rw [write_data_eq hmode hdirect hopen hok,
      List.take_of_length_le (show _ ≤ r.offset + r.data.length from hend)]
    exact isOverlay_overlay _ _ _ _
  · intro fs path f reqs fs' hopen hrun hends
    exact writeAll_data_eq hmode hdirect hopen hrun hends

/-- A mount with one write handle on a cache file of three bytes, over an object of six. -/
def threeCachedOfSix : MntrsFs :=
  { MntrsFs.mounted (Function.update (fun _ ↦ none) ['a'] (some [1, 2, 3, 4, 5, 6]))
      (Disk.empty.create ((Config.plain .writes).writeBufferPath ['a']) [1, 2, 3] 0) with
    handles := AList.singleton 1 (.write ⟨['a'], some 0, none, false, none, none, none⟩) }

/-- A write two past the end of the cached prefix, at the position the theorem covers. -/
theorem write_overlays_cache_file_sample :
    IsOverlay (gapFill (some [1, 2, 3, 4, 5, 6]) 3 5) [1, 2, 3] 5 [9]
      ((write (.plain .writes) threeCachedOfSix 2 1 5 [9] .ok).2.disk.data 0) :=
  (@write_overlays_cache_file (.plain .writes) rfl rfl).1 threeCachedOfSix ['a'] 0
    ⟨2, 1, 5, [9], .ok⟩ 1 ⟨_, rfl, rfl, rfl⟩ rfl (by decide)

/-- The fill of an uncapped hole. -/
def backendFill (obj : Option Bytes) (i : Nat) : UInt8 := (obj.getD []).getD i 0

/-- Two successful writes that are not POSIX writes over the backend's bytes: a write into the
middle of the file cuts off its tail, and a hole above the cap reads as zeros. -/
theorem write_not_posix :
    ((write (.plain .writes) threeCachedOfSix 2 1 0 [9] .ok).1 = .ok 1 ∧
      ¬ IsOverlay (backendFill (threeCachedOfSix.backend ['a'])) (threeCachedOfSix.disk.data 0)
        0 [9] ((write (.plain .writes) threeCachedOfSix 2 1 0 [9] .ok).2.disk.data 0)) ∧
    ((write (.plain .writes) threeCachedOfSix 2 1 (gapBackfillMax + 4) [9] .ok).1 = .ok 1 ∧
      ¬ IsOverlay (backendFill (threeCachedOfSix.backend ['a'])) (threeCachedOfSix.disk.data 0)
        (gapBackfillMax + 4) [9]
        ((write (.plain .writes) threeCachedOfSix 2 1 (gapBackfillMax + 4) [9]
          .ok).2.disk.data 0)) := by
  refine ⟨⟨rfl, ?_⟩, rfl, ?_⟩
  · intro hover
    have hlen := hover.length_eq
    revert hlen
    decide
  · intro hover
    have hfill := hover.filled 3 (by decide) (by decide)
    revert hfill
    decide

section ReadBack

variable {cfg : Config} {fs : MntrsFs} {ino : Ino} {fh : Fh} {offset n : Nat} {data : Bytes}
  {env : WriteEnv}

/-- A write that goes on to its end leaves its inode no shorter than that. -/
theorem le_size_of_write (hdirect : cfg.directIo = false)
    (hok : (write cfg fs ino fh offset data env).1 = .ok n) :
    ∃ e, (write cfg fs ino fh offset data env).2.inodes.lookup ino = some e ∧
      offset + data.length ≤ e.size := by
  rcases writeBegin_cases hdirect fs ino fh offset data env with
    ⟨e, hbegin⟩ | ⟨path, fd, gap, -, -, hbegin⟩
  · simp [write, hbegin] at hok
  · simp only [write, hbegin, writeRest] at hok ⊢
    split at hok
    · cases hok
    · simp only [writeFinish]
      obtain ⟨_, _, _, _, hdirty⟩ := markDirty_frame cfg (writeIndex cfg (writeEnqueue cfg _ _) _) _
      rw [hdirty, writeIndex_frame, writeEnqueue, writeSend_frame]
      simp only [touchInode]
      split
      · refine ⟨_, AList.lookup_insert _, ?_⟩
        simp only
        split <;> omega
      · exact ⟨_, AList.lookup_insert _, Nat.le_refl _⟩

/-- In the disk-buffered modes a read from inside the range of a successful write returns the
written bytes, through every handle on the same host file and whatever the caches hold. -/
theorem read_returns_write (hmode : cfg.cacheMode.diskWriteBuffer = true)
    (hdirect : cfg.directIo = false) {path path' : Path} {f : FileId} {fh' : Fh}
    (hopen : OpenOn fs fh path f) (hopen' : OpenOn fs fh' path' f)
    (hok : (write cfg fs ino fh offset data env).1 = .ok n) {i : Nat} (hi : i < data.length)
    (size : Nat) (env' : ReadEnv) :
    (read cfg (write cfg fs ino fh offset data env).2 ino fh' (offset + i) size env').1 =
      .ok (slice data i (i + size)) := by
  obtain ⟨e, he, hsize⟩ := le_size_of_write hdirect hok
  obtain ⟨-, -, -, -, hkeep⟩ := write_ok_of_open hmode hdirect hopen hok
  obtain ⟨h, hh, -, hfd⟩ := hkeep _ _ _ hopen'
  have hdata := write_data_eq hmode hdirect hopen hok
  generalize (write cfg fs ino fh offset data env).2 = fs' at *
  have hreach : offset + i < (fs'.disk.data f).length := by
    rw [hdata, length_overlay]
    omega
  have hanswer : answeringBuffer cfg fs' e.path e.size fh' (offset + i) =
      some (fs'.disk.data f) := by
    simp [answeringBuffer, hdirect, hmode, hh, hfd, hreach]
  have hin : ¬ e.size ≤ offset + i := by omega
  simp only [read, he, hin, if_false, hanswer, hdata, slice, ← List.drop_drop]
  rw [drop_overlay _ (List.length_take_le _ _), Nat.add_sub_cancel_left, Nat.add_sub_cancel_left]

/-- Four bytes are asked for from the second of two that were written past the cached prefix. -/
theorem read_returns_write_sample :
    (read (.plain .writes) (write (.plain .writes) threeCachedOfSix 2 1 5 [8, 9] .ok).2 2 1 6 4
      .ok).1 = .ok [9] :=
  @read_returns_write (.plain .writes) threeCachedOfSix 2 1 5 2 [8, 9] .ok rfl rfl ['a'] ['a'] 0 1
    ⟨_, rfl, rfl, rfl⟩ ⟨_, rfl, rfl, rfl⟩ rfl 1 (by decide) 4 .ok

end ReadBack

end Mntrs
